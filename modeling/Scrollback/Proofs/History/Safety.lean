import Scrollback.Proofs.History.Returning
/-!
# No defect

A history stops with a `Defect` where it would go on with a vacant slot, an index outside the ring,
a range outside its bytes, or a number that is no machine word. None of this can be reached:
`Desk.performAll_free_of_defects` says that whatever is asked of a new history is answered, as long
as the bytes that it takes in are less than half of the words.

Two ways through the ring are shorter here than step by step. A search walks from slot to slot and
takes each record that it passes off the distance unchecked, and an insertion does not count the
records that are live after it, as a trace of it does. Done with each check, both come to the same
(`Log.Holds.resolveRanks_eq`, `Log.Holds.retainTraced_eq`).
-/

namespace Scrollback

namespace Log

/-- Search the live records of some ranks for the one that holds a distance. The slot of each is
computed from its rank, and what a record takes off the distance is checked. -/
def scanRanks (l : Log) : (ranks : List Nat) → (distance : Nat) → Checked (Option (Record × Nat))
  | [], _ => .ok none
  | rank :: ranks, distance => do
    let r ← l.live rank
    if distance < r.length then return some (r, distance)
    scanRanks l ranks (← Word.sub distance r.length)

/-- The record that holds the byte at an offset, by a search through all ranks. -/
def resolveRanks (l : Log) (offset : Nat) : Checked (Option (Record × Nat)) := do
  match ← l.scanRanks (List.range (← l.length)) offset with
  | some place => .ok (some place)
  | none => if offset < l.liveBytes then .error .shortScan else .ok none

/-- Retain records one after the other, and count the live records after each. -/
def retainTraced (l : Log) (evicted evictedBytes : Nat) : List Record → Checked (Log × Nat × Nat)
  | [] => .ok (l, evicted, evictedBytes)
  | r :: rest => do
    let (gone, next) ← l.insert r
    let _ ← next.length
    match gone with
    | none => retainTraced next evicted evictedBytes rest
    | some e => retainTraced next (evicted + 1) (evictedBytes + e.record.length) rest

namespace Holds

variable {l : Log} {queue : List Record}

theorem scanRanks_eq (h : l.Holds queue) (count first distance : Nat)
    (hcount : first + count = queue.length) :
    l.scanRanks (List.range' first count) distance = .ok (locate (queue.drop first) distance) := by
  -- The queue from the first of the ranks on is what is left to search.
  induction count generalizing first distance with
  | zero =>
    rw [List.range'_zero, scanRanks, List.drop_eq_nil_of_le (by omega), locate]
  | succ count ih =>
    have hfirst : first < queue.length := by omega
    rw [List.range'_succ, scanRanks, h.live_eq hfirst, List.drop_eq_getElem_cons hfirst, locate,
      Checked.ok_bind]
    split
    · rfl
    · next hbehind =>
      rw [Word.sub_eq_ok (Nat.not_lt.1 hbehind)]
      exact ih (first + 1) _ (by omega)

/-- With every step checked, a search finds what it finds from slot to slot. -/
theorem resolveRanks_eq (h : l.Holds queue) (offset : Nat) :
    l.resolveRanks offset = .ok (locate queue offset) := by
  have hscan := h.scanRanks_eq queue.length 0 offset (Nat.zero_add _)
  rw [← List.range_eq_range', List.drop_zero] at hscan
  rw [resolveRanks, h.length_eq, Checked.ok_bind, hscan, Checked.ok_bind]
  cases hlocate : locate queue offset with
  | some place => rfl
  | none =>
    have hend := locate_eq_none_iff.1 hlocate
    rw [← h.liveBytes_eq] at hend
    exact if_neg (Nat.not_lt.2 hend)

/-- After each insertion the live records can be counted. -/
theorem retainTraced_eq (h : l.Holds queue) (evicted evictedBytes : Nat) (records : List Record) :
    l.retainTraced evicted evictedBytes records = l.retain evicted evictedBytes records := by
  induction records generalizing l queue evicted evictedBytes with
  | nil => rfl
  | cons r rest ih =>
    obtain ⟨next, hnext, -, hinsert⟩ := h.insert_eq r
    rw [retainTraced, retain, hinsert]
    split
    · simp only [Checked.ok_bind, hnext.length_eq]
      cases displaced l.capacity queue with
      | none => exact ih hnext evicted evictedBytes
      | some e => exact ih hnext (evicted + 1) (evictedBytes + e.record.length)
    · rfl

end Holds

end Log

namespace Desk

/-- A history can be created for any number of records that fit a block of memory. From then on any
calls may be made, by whatever cursors, at any position, with any room and under any limits on
memory: while less than `2 ^ 63` bytes are taken in, each of them returns. The ring then can be
searched and written with every step checked, the list of its live records fits a block of memory,
and each cursor stands at a machine word. -/
theorem performAll_free_of_defects {s : Settings} (hpos : 1 ≤ s.capacity)
    (hblock : Record.entrySize * s.capacity ≤ blockBound) :
    ∃ h : History, History.create s = .ok (.ok h) ∧ h.log.capacity = s.capacity ∧
      ∀ calls : List Call, (∀ call ∈ calls, call.InWords) → h.assembler.intakes calls < 2 ^ 63 →
        ∃ replies last, (ofHistory h).performAll calls = .ok (replies, last) ∧
          last.history.metrics.bytesWritten = h.assembler.intakes calls ∧
          (∀ offset, ∃ place, last.history.log.resolveRanks offset = .ok place ∧
            last.history.log.resolve offset = .ok place) ∧
          (∀ records, last.history.log.retainTraced 0 0 records =
            last.history.log.retain 0 0 records) ∧
          (∃ live, last.history.log.records = .ok live ∧
            Record.entrySize * live.length ≤ blockBound) ∧
          ∀ c ∈ last.cursors, c.position < wordCount := by
  have hnew := History.create_eq hpos hblock
  obtain ⟨hs, hempty⟩ := History.create_sound hnew
  refine ⟨_, hnew, Log.capacity_vacant _, ?_⟩
  intro calls hcalls hbytes
  have hready : (ofHistory (.ofLog s (Log.vacant s.capacity))).Ready := ⟨hs, nofun⟩
  have hheld : (History.ofLog s (Log.vacant s.capacity)).held = 0 := by
    rw [History.held, hempty]
    rfl
  obtain ⟨replies, last, hrun, hlast⟩ := hready.performAll_returns hcalls fun _ => by
    rw [ofHistory, hheld, Nat.zero_add]
    exact hbytes.trans (by decide)
  have hwritten := performAll_bytesWritten hready.sound rfl hrun
  have hholds := hlast.sound.holds
  refine ⟨replies, last, hrun, ?_, fun offset => ?_, hholds.retainTraced_eq 0 0,
    ⟨_, hholds.records_eq, ?_⟩, hlast.word⟩
  · rw [hwritten]
    exact Nat.zero_add _
  · exact ⟨_, hholds.resolveRanks_eq offset, hholds.resolve_eq offset⟩
  · exact (Nat.mul_le_mul_left _ hholds.length_le).trans hholds.capacity_le

/-- Each second line pushes the first one out of the only slot, and a fragment is refused. A cursor
that stands at the last position that there is reads nothing there and cannot go further; when the
ring has been torn down and filled again, it comes back and fills a buffer. -/
theorem performAll_free_of_defects_refilled :
    let calls : List Call := [.openCursor, .seek 0 (.start 18446744073709551615),
      .write (some 0) [97], .write none [97, 10, 98, 10], .read 0 [0], .seek 0 (.current 1),
      .teardown, .write none [99, 100, 10, 101, 10], .seek 0 (.start 0), .readExact 0 [0, 0]]
    let replies : List Reply := [.opened 0, .placed (.ok 18446744073709551615),
      .written (.error (.alloc 1)), .written (.ok ⟨4, 2, 1⟩), .read (.ok 0) [0],
      .placed (.error .seekOutOfRange), .released (.ok [.ofBytes [98, 10]]),
      .written (.ok ⟨5, 2, 1⟩), .placed (.ok 0), .filled (.ok ()) [101, 10]]
    History.create ⟨1, 10, .split⟩ = .ok (.ok (.ofLog ⟨1, 10, .split⟩ (Log.vacant 1))) ∧
    ∃ last, (ofHistory (.ofLog ⟨1, 10, .split⟩ (Log.vacant 1))).performAll calls =
        .ok (replies, last) ∧
      last.history.metrics.bytesWritten = 9 ∧
      last.history.log.resolveRanks 1 = .ok (some (.ofBytes [101, 10], 1)) := by
  intro calls replies
  obtain ⟨final, hfound, hplace⟩ : ∃ last,
      (ofHistory (.ofLog ⟨1, 10, .split⟩ (Log.vacant 1))).performAll calls = .ok (replies, last) ∧
      last.history.log.resolve 1 = .ok (some (.ofBytes [101, 10], 1)) :=
    ⟨_, rfl, rfl⟩
  obtain ⟨h, hnew, -, hall⟩ :=
    performAll_free_of_defects (s := ⟨1, 10, .split⟩) (by decide) (by decide)
  cases hnew
  have hwords : ∀ call ∈ calls, call.InWords := by
    simp [calls, Call.InWords, wordCount]
  obtain ⟨told, last, hrun, hbytes, hresolve, -⟩ := hall calls hwords (by decide)
  obtain ⟨rfl, rfl⟩ := Prod.mk.inj (Except.ok.inj (hrun.symm.trans hfound))
  obtain ⟨place, hranks, hslots⟩ := hresolve 1
  exact ⟨rfl, last, hrun, hbytes, hranks.trans (hslots.symm.trans hplace)⟩

end Desk

end Scrollback
