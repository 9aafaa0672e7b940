import Scrollback.Desk
import Scrollback.Proofs.Assembler.Fragments
import Scrollback.Proofs.Log.Address
import Scrollback.Proofs.Log.Insertion
import Scrollback.Proofs.Log.Teardown
/-!
# The reference history

A `Reference` is what a history is about: the list of the records retained and the bytes of the
unfinished one. Its operations are stated on these alone, with no slot, cursor or buffer. A write
frames the pending bytes and the fragment as one byte string and keeps the newest records.

`History.Agrees` relates a history to its reference. Each operation keeps the relation and returns
what the reference returns (`History.Agrees.perform_eq`), so all runs do
(`History.Agrees.performAll_eq`), as long as the count of the bytes written is a machine word.
-/

namespace Scrollback

/-- A bounded history as data. -/
structure Reference where
  /-- The records retained, oldest first. -/
  live : List Record
  /-- The bytes of the unfinished record. -/
  pending : Bytes
  /-- Records completed since the start. -/
  completed : Nat
  /-- Bytes written since the start. -/
  appended : Nat
  deriving DecidableEq, Repr

namespace Reference

/-- Something asked of a history that has all the memory it needs. -/
inductive Operation where
  | write (fragment : Bytes)
  | readAt (offset : UInt64) (buffer : Bytes)
  | contents
  | totalLength
  | discard
  | teardown
  | stats
  deriving DecidableEq, Repr

def Operation.call : Operation → Call
  | write fragment => .write none fragment
  | readAt offset buffer => .readAt offset.toNat buffer
  | contents => .contents none
  | totalLength => .totalLength
  | discard => .discard
  | teardown => .teardown
  | stats => .stats

def Operation.written : Operation → Nat
  | write fragment => fragment.length
  | _ => 0

def fresh : Reference :=
  ⟨[], [], 0, 0⟩

/-- The records that pending bytes and a fragment give, and the bytes pending then. -/
def frame (s : Settings) (pending fragment : Bytes) : List Bytes × Bytes :=
  match s.policy with
  | .split =>
    (Framing.lines s.delimiter (pending ++ fragment),
      Framing.remainder s.delimiter (pending ++ fragment))
  | .firstDelimiter =>
    if s.delimiter ∈ fragment then ([pending ++ fragment], []) else ([], pending ++ fragment)

def write (s : Settings) (m : Reference) (fragment : Bytes) : WriteOutcome × Reference :=
  let framed := frame s m.pending fragment
  let records := framed.1.map Record.ofBytes
  let live := (m.live ++ records).rtake s.capacity
  (⟨fragment.length, records.length, m.live.length + records.length - live.length⟩,
    ⟨live, framed.2, m.completed + records.length, m.appended + fragment.length⟩)

def data (m : Reference) : Bytes :=
  m.live.flatMap Record.bytes

def occupancy (s : Settings) (m : Reference) : Occupancy :=
  if m.live.length = s.capacity then .full else if m.live = [] then .empty else .partiallyFull

def stats (s : Settings) (m : Reference) : HistoryStats :=
  ⟨⟨m.live.length, s.capacity, m.data.length, m.occupancy s⟩,
    ⟨m.pending.length, m.completed, m.appended⟩⟩

def serve (s : Settings) (m : Reference) : Operation → Reply × Reference
  | .write fragment =>
    let (outcome, next) := m.write s fragment
    (.written (.ok outcome), next)
  | .readAt offset buffer =>
    let piece := Log.piece m.live offset.toNat buffer.length
    (.copied (.ok piece.length) (buffer.overlay piece), m)
  | .contents => (.contents (.ok m.data), m)
  | .totalLength => (.totalLength (.ok m.data.length), m)
  | .discard => (.discarded (.ok m.pending.length), { m with pending := [] })
  | .teardown => (.released (.ok m.live), { m with live := [], pending := [] })
  | .stats => (.stats (.ok (m.stats s)), m)

def serveAll (s : Settings) (m : Reference) : List Operation → List Reply × Reference
  | [] => ([], m)
  | operation :: operations =>
    let (reply, next) := m.serve s operation
    let (replies, last) := next.serveAll s operations
    (reply :: replies, last)

/-! ### Framing -/

/-- To frame loses nothing. -/
theorem flatten_frame (s : Settings) (pending fragment : Bytes) :
    (frame s pending fragment).1.flatten ++ (frame s pending fragment).2 = pending ++ fragment := by
  unfold frame
  split
  · have hall := Framing.flatten_cut s.delimiter (pending ++ fragment)
    rwa [Framing.cut_eq] at hall
  · split <;> simp

theorem totalLength_frame (s : Settings) (pending fragment : Bytes) :
    Record.totalLength ((frame s pending fragment).1.map Record.ofBytes) +
      (frame s pending fragment).2.length = pending.length + fragment.length := by
  have hall := congrArg List.length (flatten_frame s pending fragment)
  rw [List.length_append, List.length_append] at hall
  rw [← hall, ← Record.length_flatMap_bytes]
  simp [List.flatMap_def, Function.comp_def]

/-- Under the split policy no delimiter is pending. -/
theorem delimiter_notMem_frame (s : Settings) (pending fragment : Bytes)
    (hpolicy : s.policy = .split) : s.delimiter ∉ (frame s pending fragment).2 := by
  simp only [frame, hpolicy]
  rw [← Framing.cut_snd]
  exact Framing.delimiter_notMem_cut _ _

end Reference

/-- An assembler frames a fragment as the reference does. -/
theorem Assembler.accept_eq_frame {a : Assembler} {s : Settings}
    (hdelimiter : a.delimiter = s.delimiter) (hpolicy : a.policy = s.policy)
    (hopen : s.policy = .split → s.delimiter ∉ a.pending.bytes) (fragment : Bytes) :
    (a.accept fragment).1.records =
        (Reference.frame s a.pending.bytes fragment).1.map Record.ofBytes ∧
      (a.accept fragment).2.pending.bytes = (Reference.frame s a.pending.bytes fragment).2 := by
  cases hs : s.policy with
  | split =>
    -- What is pending has no delimiter, so it is cut into no line and its own remainder.
    have hcut : Framing.join ([], a.pending.bytes) (Framing.cut s.delimiter fragment) =
        Framing.cut s.delimiter (a.pending.bytes ++ fragment) := by
      rw [Framing.cut_append, Framing.cut_of_notMem (hopen hs)]
    have haccept := accept_split (hpolicy.trans hs) fragment
    rw [hdelimiter, hcut, Framing.cut_eq] at haccept
    simpa only [Reference.frame, hs] using haccept
  | firstDelimiter =>
    obtain ⟨hrecords, hpending⟩ := accept_firstDelimiter (hpolicy.trans hs) fragment
    rw [hdelimiter] at hrecords hpending
    rw [hrecords, hpending, Reference.frame, hs]
    by_cases hmem : s.delimiter ∈ fragment <;> simp [hmem]

namespace History

/-- A history stands where its reference does. -/
structure Agrees (s : Settings) (h : History) (m : Reference) : Prop where
  settings_eq : h.settings = s
  capacity_eq : h.log.capacity = s.capacity
  delimiter_eq : h.assembler.delimiter = s.delimiter
  policy_eq : h.assembler.policy = s.policy
  holds : h.log.Holds m.live
  pending_eq : h.assembler.pending.bytes = m.pending
  completed_eq : h.assembler.recordsCompleted = m.completed
  appended_eq : h.assembler.bytesAppended = m.appended
  poisoned_eq : h.poisoned = false
  /-- What is pending is no line yet. -/
  pending_open : s.policy = .split → s.delimiter ∉ m.pending
  /-- What is there was written. -/
  length_le : Record.totalLength m.live + m.pending.length ≤ m.appended

theorem create_eq_ok {s : Settings} {h : History} (hnew : create s = .ok (.ok h)) :
    0 < s.capacity ∧ Record.entrySize * s.capacity ≤ blockBound ∧
      h = ofLog s (Log.vacant s.capacity) := by
  rw [create] at hnew
  obtain ⟨made, hmade, hlog⟩ := Checked.bind_eq_ok.1 hnew
  cases made with
  | error e => cases hlog
  | ok l =>
    obtain ⟨hpos, hblock, rfl⟩ := Log.create_eq_ok hmade
    exact ⟨hpos, hblock, by simpa [Except.map, eq_comm] using hlog⟩

theorem create_eq {s : Settings} (hpos : 0 < s.capacity)
    (hblock : Record.entrySize * s.capacity ≤ blockBound) :
    create s = .ok (.ok (ofLog s (Log.vacant s.capacity))) := by
  rw [create, Log.create, if_neg (Nat.ne_of_gt hpos), checkBlock, if_pos hblock]
  rfl

/-- A new history agrees with the start. -/
theorem create_agrees {s : Settings} {h : History} (hnew : create s = .ok (.ok h)) :
    Agrees s h .fresh := by
  obtain ⟨hpos, hblock, rfl⟩ := create_eq_ok hnew
  exact ⟨rfl, Log.capacity_vacant _, rfl, rfl, Log.holds_vacant hpos hblock, rfl, rfl, rfl, rfl,
    fun _ => by simp [Reference.fresh], le_rfl⟩

namespace Agrees

variable {s : Settings} {h : History} {m : Reference}

theorem accept_eq (hm : Agrees s h m) (fragment : Bytes) :
    (h.assembler.accept fragment).1.records =
        (Reference.frame s m.pending fragment).1.map Record.ofBytes ∧
      (h.assembler.accept fragment).2.pending.bytes =
        (Reference.frame s m.pending fragment).2 := by
  rw [← hm.pending_eq]
  apply Assembler.accept_eq_frame hm.delimiter_eq hm.policy_eq
  rw [hm.pending_eq]
  exact hm.pending_open

/-- A history whose assembler took a fragment in, and whose log holds the newest records, stands
where the reference stands after a write. -/
theorem wrote (hm : Agrees s h m) {fragment : Bytes} {log : Log}
    (hlog : log.Holds ((m.live ++ (h.assembler.accept fragment).1.records).rtake s.capacity))
    (hcap : log.capacity = s.capacity) (metrics : Metrics) :
    Agrees s { h with assembler := (h.assembler.accept fragment).2, log, metrics }
      (m.write s fragment).2 := by
  obtain ⟨hrecords, hpending⟩ := hm.accept_eq fragment
  have hcompleted := Assembler.accept_recordsCompleted h.assembler fragment
  rw [hrecords, hm.completed_eq] at hcompleted
  rw [hrecords] at hlog
  -- Framing keeps every byte, so what is retained and pending stays within what was written.
  have hlength := Reference.totalLength_frame s m.pending fragment
  have hkept : Record.totalLength ((m.live ++
      (Reference.frame s m.pending fragment).1.map Record.ofBytes).rtake s.capacity) ≤
        Record.totalLength m.live +
          Record.totalLength ((Reference.frame s m.pending fragment).1.map Record.ofBytes) := by
    rw [← Record.totalLength_append]
    exact Log.totalLength_rtake_le _ _
  have hle := hm.length_le
  exact {
    settings_eq := hm.settings_eq
    capacity_eq := hcap
    delimiter_eq := (Assembler.accept_delimiter _ _).trans hm.delimiter_eq
    policy_eq := (Assembler.accept_policy _ _).trans hm.policy_eq
    holds := hlog
    pending_eq := hpending
    completed_eq := hcompleted
    appended_eq := (Assembler.accept_bytesAppended _ _).trans (by rw [hm.appended_eq]; rfl)
    poisoned_eq := hm.poisoned_eq
    pending_open := Reference.delimiter_notMem_frame s m.pending fragment
    length_le := by
      simp only [Reference.write]
      omega }

/-- A write with ample memory frames the fragment and keeps the newest records. -/
theorem write_eq (hm : Agrees s h m) (fragment : Bytes)
    (fits : m.appended + fragment.length < wordCount) :
    ∃ next, h.write none fragment = .ok (.ok (m.write s fragment).1, next) ∧
      Agrees s next (m.write s fragment).2 := by
  have hrecords := (hm.accept_eq fragment).1
  have hlength := Reference.totalLength_frame s m.pending fragment
  have hle := hm.length_le
  obtain ⟨log, hlog, hcap, gone, hgone, hretain⟩ := hm.holds.retain_eq
    (h.assembler.accept fragment).1.records 0 0 (by
      rw [hrecords, Record.totalLength_append]
      omega)
  rw [hm.capacity_eq] at hlog hcap hgone
  have hcount := congrArg List.length hgone
  rw [hrecords] at hcount
  simp only [List.length_append, List.length_map] at hcount
  have houtcome : (m.write s fragment).1 = ⟨fragment.length,
      (h.assembler.accept fragment).1.records.length, 0 + gone.length⟩ := by
    simp only [Reference.write, hrecords, List.length_map, WriteOutcome.mk.injEq, true_and]
    omega
  rw [write, change_of_alive hm.poisoned_eq, houtcome]
  simp only [Assembler.feed_none, hretain, Checked.ok_bind, Checked.pure_eq_ok]
  exact ⟨_, rfl, hm.wrote hlog hcap _⟩

theorem discarded (hm : Agrees s h m) (metrics : Metrics) :
    Agrees s { h with assembler := h.assembler.discard.2, metrics } { m with pending := [] } := by
  have hle := hm.length_le
  exact { hm with
    pending_eq := rfl
    pending_open := fun _ => List.not_mem_nil
    length_le := by simp; omega }

theorem discard_eq (hm : Agrees s h m) :
    ∃ next, h.discard = .ok (.ok m.pending.length, next) ∧
      Agrees s next { m with pending := [] } := by
  have hdropped : h.assembler.discard.1 = m.pending.length := by
    rw [Assembler.discard, Pending.length_eq, hm.pending_eq]
  rw [discard, change_of_alive hm.poisoned_eq, ← hdropped]
  exact ⟨_, rfl, hm.discarded _⟩

theorem released (hm : Agrees s h m) {log : Log} (hlog : log.Holds [])
    (hcap : log.capacity = s.capacity) (metrics : Metrics) :
    Agrees s { h with assembler := h.assembler.discard.2, log, metrics }
      { m with live := [], pending := [] } :=
  { hm with
    capacity_eq := hcap
    holds := hlog
    pending_eq := rfl
    pending_open := fun _ => List.not_mem_nil
    length_le := Nat.zero_le _ }

theorem teardown_eq (hm : Agrees s h m) :
    ∃ next, h.teardown = .ok (.ok m.live, next) ∧
      Agrees s next { m with live := [], pending := [] } := by
  obtain ⟨log, hteardown, hholds, hcap⟩ := hm.holds.teardown_eq
  rw [teardown, change_of_alive hm.poisoned_eq, hteardown]
  exact ⟨_, rfl, hm.released hholds (hcap.trans hm.capacity_eq) _⟩

/-- A read returns a piece of the data and changes nothing but the counters. -/
theorem readAt_eq (hm : Agrees s h m) (offset room : Nat) :
    ∃ next, h.readAt offset room = .ok (.ok (Log.piece m.live offset room), next) ∧
      Agrees s next m := by
  rw [readAt, change_of_alive hm.poisoned_eq, hm.holds.readAt_eq]
  exact ⟨_, rfl, { hm with }⟩

/-- A read into a buffer lays the piece over its start. The position after it is a machine word,
because the piece ends inside the data. -/
theorem readInto_eq (hm : Agrees s h m) (fits : m.appended < wordCount) {offset : Nat}
    (hoffset : offset < wordCount) (buffer : Bytes) :
    ∃ next, h.readInto offset buffer =
      .ok (.ok (Log.piece m.live offset buffer.length).length,
        buffer.overlay (Log.piece m.live offset buffer.length),
        offset + (Log.piece m.live offset buffer.length).length, next) ∧
      Agrees s next m := by
  obtain ⟨next, hread, hnext⟩ := hm.readAt_eq offset buffer.length
  obtain ⟨hroom, hinside⟩ := Log.length_piece_le m.live offset buffer.length
  have hle := hm.length_le
  have hafter : offset + (Log.piece m.live offset buffer.length).length < wordCount := by
    by_cases hnil : Log.piece m.live offset buffer.length = []
    · rw [hnil]
      exact hoffset
    · have hend := hinside hnil
      omega
  refine ⟨next, ?_, hnext⟩
  simp only [readInto, read, hread, Checked.ok_bind, Checked.pure_eq_ok, Word.add_eq_ok hafter,
    Bytes.fill, if_pos hroom]

theorem contents_eq (hm : Agrees s h m) : h.contents none = .ok (.ok m.data) := by
  rw [contents, inspect_of_alive hm.poisoned_eq, hm.holds.contents_eq,
    Allowance.refused?_none]
  rfl

theorem totalLength_eq (hm : Agrees s h m) : h.totalLength = .ok (.ok m.data.length) := by
  rw [totalLength, inspect_of_alive hm.poisoned_eq, hm.holds.liveBytes_eq,
    Reference.data, Record.length_flatMap_bytes]

theorem stats_eq (hm : Agrees s h m) : h.stats = .ok (.ok (m.stats s)) := by
  rw [stats, inspect_of_alive hm.poisoned_eq, hm.holds.stats_eq, hm.holds.occupancy_eq,
    hm.capacity_eq, Checked.ok_bind, Assembler.stats, Pending.length_eq, hm.pending_eq,
    hm.completed_eq, hm.appended_eq, Reference.stats, Reference.data, Record.length_flatMap_bytes]
  rfl

/-- Each operation returns what the reference returns and keeps the two together. -/
theorem perform_eq (hm : Agrees s h m) (cursors : List Cursor) (operation : Reference.Operation)
    (fits : m.appended + operation.written < wordCount) :
    ∃ next, (Desk.mk h cursors).perform operation.call =
        .ok ((m.serve s operation).1, ⟨next, cursors⟩) ∧
      Agrees s next (m.serve s operation).2 := by
  cases operation with
  | write fragment =>
    obtain ⟨next, hwrite, hnext⟩ := hm.write_eq fragment fits
    exact ⟨next, by simp [Desk.perform, Reference.Operation.call, hwrite, Reference.serve], hnext⟩
  | readAt offset buffer =>
    obtain ⟨next, hread, hnext⟩ := hm.readInto_eq fits offset.toNat_lt buffer
    exact ⟨next, by simp [Desk.perform, Reference.Operation.call, hread, Reference.serve], hnext⟩
  | contents =>
    exact ⟨h, by simp [Desk.perform, Reference.Operation.call, hm.contents_eq, Reference.serve],
      hm⟩
  | totalLength =>
    exact ⟨h, by simp [Desk.perform, Reference.Operation.call, hm.totalLength_eq, Reference.serve],
      hm⟩
  | discard =>
    obtain ⟨next, hdiscard, hnext⟩ := hm.discard_eq
    exact ⟨next, by simp [Desk.perform, Reference.Operation.call, hdiscard, Reference.serve],
      hnext⟩
  | teardown =>
    obtain ⟨next, hteardown, hnext⟩ := hm.teardown_eq
    exact ⟨next, by simp [Desk.perform, Reference.Operation.call, hteardown, Reference.serve],
      hnext⟩
  | stats =>
    exact ⟨h, by simp [Desk.perform, Reference.Operation.call, hm.stats_eq, Reference.serve], hm⟩

end Agrees

end History

/-- What was written by then. -/
theorem Reference.serve_appended (s : Settings) (m : Reference) (operation : Operation) :
    (m.serve s operation).2.appended = m.appended + operation.written := by
  cases operation <;> rfl

theorem History.Agrees.performAll_eq {s : Settings} {h : History} {m : Reference}
    (hm : Agrees s h m) (cursors : List Cursor) (operations : List Reference.Operation)
    (fits : m.appended + (operations.map Reference.Operation.written).sum < wordCount) :
    ∃ next, (Desk.mk h cursors).performAll (operations.map Reference.Operation.call) =
        .ok ((m.serveAll s operations).1, ⟨next, cursors⟩) ∧
      Agrees s next (m.serveAll s operations).2 := by
  induction operations generalizing h m with
  | nil => exact ⟨h, rfl, hm⟩
  | cons operation operations ih =>
    rw [List.map_cons, List.sum_cons] at fits
    obtain ⟨mid, hperform, hmid⟩ := hm.perform_eq cursors operation (by omega)
    obtain ⟨next, hrest, hnext⟩ := ih hmid (by rw [Reference.serve_appended]; omega)
    refine ⟨next, ?_, hnext⟩
    simp only [List.map_cons, Desk.performAll, hperform, hrest, Checked.ok_bind,
      Checked.pure_eq_ok, Reference.serveAll]

/-- A run on a new history returns what the reference returns and ends where it ends. -/
theorem Desk.performAll_refines {s : Settings} {h : History}
    (hnew : History.create s = .ok (.ok h)) (operations : List Reference.Operation)
    (fits : (operations.map Reference.Operation.written).sum < wordCount) :
    ∃ (replies : List Reply) (m : Reference) (desk : Desk),
      Reference.fresh.serveAll s operations = (replies, m) ∧
      (ofHistory h).performAll (operations.map Reference.Operation.call) = .ok (replies, desk) ∧
      desk.history.Agrees s m ∧
      desk.history.log.records = .ok m.live ∧
      desk.history.assembler.pending.bytes = m.pending := by
  have hm := History.create_agrees hnew
  obtain ⟨next, hrun, hnext⟩ :=
    hm.performAll_eq [] operations (by rwa [Reference.fresh, Nat.zero_add])
  exact ⟨_, _, ⟨next, []⟩, rfl, hrun, hnext, hnext.holds.records_eq, hnext.pending_eq⟩

/-- Three records of one fragment go through two slots: the first is evicted at once, a read stops
at the end of its record, and what is pending does not survive the teardown. -/
theorem Desk.performAll_refines_overflowing :
    History.create ⟨2, 10, .split⟩ = .ok (.ok (.ofLog ⟨2, 10, .split⟩ (Log.vacant 2))) ∧
    ∃ desk, (ofHistory (.ofLog ⟨2, 10, .split⟩ (Log.vacant 2))).performAll
        [.write none [97, 10, 98, 10, 99, 10, 100], .readAt 1 [0, 0, 0, 0], .contents none,
          .teardown, .totalLength] =
      .ok ([.written (.ok ⟨7, 3, 1⟩), .copied (.ok 1) [10, 0, 0, 0],
        .contents (.ok [98, 10, 99, 10]), .released (.ok [.ofBytes [98, 10], .ofBytes [99, 10]]),
        .totalLength (.ok 0)], desk) ∧
      desk.history.Agrees ⟨2, 10, .split⟩ ⟨[], [], 3, 7⟩ := by
  have hnew : History.create ⟨2, 10, .split⟩ =
      .ok (.ok (.ofLog ⟨2, 10, .split⟩ (Log.vacant 2))) := rfl
  obtain ⟨replies, m, desk, hserve, hrun, hagrees, -⟩ := performAll_refines hnew
    [.write [97, 10, 98, 10, 99, 10, 100], .readAt 1 [0, 0, 0, 0], .contents, .teardown,
      .totalLength] (by decide)
  cases hserve
  exact ⟨hnew, desk, hrun, hagrees⟩

end Scrollback
