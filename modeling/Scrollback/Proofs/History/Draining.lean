import Scrollback.Proofs.History.Journal
/-!
# Draining a history

A reader that reads until nothing comes back has read all retained data from its position on,
however large its buffer is: `Cursor.readsOut_of_run` says so for whatever history a run leaves.
The data comes in chunks that stay inside one record each, so their number is that of the records,
each of them cut into pieces of the size of the buffer.
-/

namespace Scrollback

namespace Transfer

@[simp] theorem length_drained (room : Nat) (pieces : List Bytes) :
    (drained room pieces).length = pieces.length + 1 := by
  simp [drained]

theorem sum_count_drained (room : Nat) (pieces : List Bytes) :
    ((drained room pieces).map count).sum = pieces.flatten.length := by
  induction pieces with
  | nil => rfl
  | cons piece pieces ih => simp [ih]

/-- Only the last read of a drain is one at the end of the data. -/
theorem countP_isAtEnd_drained {room : Nat} (hroom : 1 ≤ room) {pieces : List Bytes}
    (hpieces : ∀ piece ∈ pieces, 1 ≤ piece.length) :
    (drained room pieces).countP isAtEnd = 1 := by
  induction pieces with
  | nil => simp [isAtEnd, Nat.ne_of_gt hroom]
  | cons piece pieces ih =>
    rw [List.forall_mem_cons] at hpieces
    rw [drained_cons, List.countP_cons_of_neg (by simp [isAtEnd, Nat.ne_of_gt hpieces.1]),
      ih hpieces.2]

end Transfer

theorem History.counting_drained (h : History) {room : Nat} (hroom : 1 ≤ room)
    {pieces : List Bytes} (hpieces : ∀ piece ∈ pieces, 1 ≤ piece.length) :
    h.counting (Transfer.drained room pieces) =
      { h with metrics := { h.metrics with
        reads := h.metrics.reads + (pieces.length + 1)
        bytesRead := h.metrics.bytesRead + pieces.flatten.length
        readsAtEnd := h.metrics.readsAtEnd + 1 } } := by
  rw [counting, Transfer.length_drained, Transfer.sum_count_drained,
    Transfer.countP_isAtEnd_drained hroom hpieces]

namespace Cursor

/-- Whatever was done to a history, as long as its lock is alive: reads from any position on, into
a buffer with room for a byte, come to an end, and they return all data from there on, in chunks.
Each chunk lies inside one record, and each record comes in as few of them as there is room for. The
cursor then stands at the end, or where it stood behind it, and only the counters of reads have
changed. A drain does just these reads. -/
theorem readsOut_of_run {s : Settings} {h : History} {calls : List Call} {replies : List Reply}
    {d : Desk} (hnew : History.create s = .ok (.ok h))
    (hrun : (Desk.ofHistory h).performAll calls = .ok (replies, d))
    (halive : d.history.poisoned = false) (position : UInt64) {buffer : Bytes}
    (hroom : 1 ≤ buffer.length) :
    ∃ (live : List Record) (data : Bytes) (chunks : List Bytes) (after : History),
      d.history.log.records = .ok live ∧
      d.history.contents none = .ok (.ok data) ∧
      data = live.flatMap Record.bytes ∧
      ReadsOut buffer ⟨position.toNat⟩ d.history chunks ⟨max position.toNat data.length⟩ after ∧
      chunks.flatten = data.drop position.toNat ∧
      (∀ chunk ∈ chunks, 1 ≤ chunk.length ∧ chunk.length ≤ buffer.length) ∧
      (∀ before chunk later, chunks = before ++ chunk :: later →
        Log.Within live (position.toNat + before.flatten.length) chunk.length) ∧
      chunks.length = ((Log.bytesFrom live position.toNat).map (· ⌈/⌉ buffer.length)).sum ∧
      after = { d.history with metrics := { d.history.metrics with
        reads := d.history.metrics.reads + (chunks.length + 1)
        bytesRead := d.history.metrics.bytesRead + chunks.flatten.length
        readsAtEnd := d.history.metrics.readsAtEnd + 1 } } ∧
      drain ⟨position.toNat⟩ d.history buffer.length =
        .ok (.ok chunks, ⟨max position.toNat data.length⟩, after) ∧
      (position = 0 → chunks.flatten = data) := by
  obtain ⟨entries, hruns, -, -⟩ := Desk.performAll_eq_ok_iff.1 hrun
  have hs := hruns.sound (History.create_sound hnew).1
  set live := d.history.log.toList
  set chunks := Log.pieces live buffer.length position.toNat
  have hword : position.toNat < wordCount := position.toNat_lt
  have hflatten : chunks.flatten = (live.flatMap Record.bytes).drop position.toNat :=
    Log.flatten_pieces hroom position.toNat
  have hchunk : ∀ chunk ∈ chunks, 1 ≤ chunk.length ∧ chunk.length ≤ buffer.length :=
    fun chunk hmem => Log.length_of_mem_pieces hmem
  -- The chunks end with the data, or there are none.
  have hend : position.toNat + chunks.flatten.length =
      max position.toNat (live.flatMap Record.bytes).length := by
    rw [hflatten, List.length_drop]
    omega
  have hcounted := d.history.counting_drained hroom fun chunk hmem => (hchunk chunk hmem).1
  have hreads := readsOut_pieces hs halive hword buffer
  have hdrain := drain_eq hs halive buffer.length position.toNat
  rw [if_pos hword] at hdrain
  rw [hend, hcounted] at hreads hdrain
  refine ⟨live, live.flatMap Record.bytes, chunks, _, hs.holds.records_eq, ?_, rfl, hreads,
    hflatten, hchunk, fun before chunk later hsplit => Log.within_pieces hsplit,
    Log.length_pieces hroom position.toNat, rfl, hdrain, ?_⟩
  · rw [History.contents, History.inspect_of_alive halive, hs.holds.contents_eq,
      Allowance.refused?_none]
  · rintro rfl
    exact hflatten

/-- The first of three lines has been evicted. A reader with room for two bytes starts inside the
second line; its last chunk but one does not reach into the third. -/
theorem readsOut_of_run_rotated :
    History.create ⟨2, 10, .split⟩ = .ok (.ok (.ofLog ⟨2, 10, .split⟩ (Log.vacant 2))) ∧
    ∃ d after, (Desk.ofHistory (.ofLog ⟨2, 10, .split⟩ (Log.vacant 2))).performAll
        [.write none [97, 10, 98, 99, 100, 101, 10], .write none [102, 10]] =
      .ok ([.written (.ok ⟨7, 2, 0⟩), .written (.ok ⟨2, 1, 1⟩)], d) ∧
      d.history.poisoned = false ∧
      ReadsOut [0, 0] ⟨1⟩ d.history [[99, 100], [101, 10], [102, 10]] ⟨7⟩ after ∧
      after.metrics.reads = 4 ∧ after.metrics.bytesRead = 6 ∧ after.metrics.readsAtEnd = 1 := by
  have hnew : History.create ⟨2, 10, .split⟩ =
      .ok (.ok (.ofLog ⟨2, 10, .split⟩ (Log.vacant 2))) := rfl
  obtain ⟨d, hrun, halive, last, hfound, hcounted⟩ : ∃ d,
      (Desk.ofHistory (.ofLog ⟨2, 10, .split⟩ (Log.vacant 2))).performAll
          [.write none [97, 10, 98, 99, 100, 101, 10], .write none [102, 10]] =
        .ok ([.written (.ok ⟨7, 2, 0⟩), .written (.ok ⟨2, 1, 1⟩)], d) ∧
      d.history.poisoned = false ∧
      ∃ last, drain ⟨1⟩ d.history 2 = .ok (.ok [[99, 100], [101, 10], [102, 10]], ⟨7⟩, last) ∧
        last.metrics.reads = 4 ∧ last.metrics.bytesRead = 6 ∧ last.metrics.readsAtEnd = 1 :=
    ⟨_, rfl, rfl, _, rfl, rfl, rfl, rfl⟩
  obtain ⟨live, data, chunks, after, -, -, -, hreads, -, -, -, -, -, hdrain, -⟩ :=
    readsOut_of_run hnew hrun halive 1 (by decide : 1 ≤ [(0 : UInt8), 0].length)
  obtain ⟨rfl, hlast, rfl⟩ : [[99, 100], [101, 10], [102, 10]] = chunks ∧
      Cursor.mk 7 = ⟨max 1 data.length⟩ ∧ last = after := by simpa using hfound.symm.trans hdrain
  rw [UInt64.toNat_one, ← hlast] at hreads
  exact ⟨hnew, d, last, hrun, halive, hreads, hcounted⟩

end Cursor

end Scrollback
