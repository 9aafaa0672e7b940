import Mathlib
import Scrollback.Log.Basic
/-!
# The ring as a queue

`Log.Holds` ties the slots, the cursors, the flag and the byte count of a log to the queue of its
live records. The slot of rank `i` holds the `i`-th record of the queue and every later slot is
vacant, so no stale record stands outside the live span. A log that is not full has never evicted
since it was empty, which is why its read cursor is zero.

What can be seen of such a log is a function of the queue: `Holds.records_eq` for the walk over the
live span, `Holds.length_eq` for the arithmetic on the cursors, `Holds.occupancy_eq` for the state.
-/

namespace Scrollback

/-- Bytes in all of some records. -/
def Record.totalLength (records : List Record) : Nat :=
  (records.map Record.length).sum

namespace Record

@[simp] theorem totalLength_nil : totalLength [] = 0 := rfl

@[simp] theorem totalLength_cons (r : Record) (rs : List Record) :
    totalLength (r :: rs) = r.length + totalLength rs := rfl

@[simp] theorem totalLength_append (rs ss : List Record) :
    totalLength (rs ++ ss) = totalLength rs + totalLength ss := by
  simp [totalLength]

theorem length_flatMap_bytes (rs : List Record) :
    (rs.flatMap bytes).length = totalLength rs := by
  induction rs with
  | nil => rfl
  | cons r rs ih => simp [length_eq, ih]

end Record

namespace Log

/-! ### Ranks and slots -/

/-- A rank from the read cursor on wraps at most once. -/
theorem wrap_eq {capacity index : Nat} (h : index < 2 * capacity) :
    index % capacity = if index < capacity then index else index - capacity := by
  split
  · exact Nat.mod_eq_of_lt ‹_›
  · rw [Nat.mod_eq_sub_mod (by omega), Nat.mod_eq_of_lt (by omega)]

/-- Different ranks have different slots. -/
theorem wrap_inj {capacity read i j : Nat} (hread : read < capacity) (hi : i < capacity)
    (hj : j < capacity) : (read + i) % capacity = (read + j) % capacity ↔ i = j := by
  rw [wrap_eq (by omega), wrap_eq (by omega)]
  split <;> split <;> omega

/-- One more rank from a cursor is one rank from the cursor after it. -/
theorem wrap_succ (capacity read i : Nat) :
    ((read + 1) % capacity + i) % capacity = (read + (i + 1)) % capacity := by
  rw [Nat.mod_add_mod, Nat.add_assoc, Nat.add_comm 1 i]

/-- To look up each rank of a queue gives the queue. -/
theorem map_getD_range {α : Type} (queue : List α) (d : α) :
    (List.range queue.length).map (fun rank => queue.getD rank d) = queue := by
  apply List.ext_getElem
  · simp
  · intro i hi hi'
    simp [hi']

/-! ### The newest records -/

theorem rtake_of_length_le {α : Type} {xs : List α} {n : Nat} (h : xs.length ≤ n) :
    xs.rtake n = xs := by
  simp [List.rtake, Nat.sub_eq_zero_of_le h]

theorem length_rtake {α : Type} (xs : List α) (n : Nat) :
    (xs.rtake n).length = min n xs.length := by
  simp only [List.rtake, List.length_drop]
  omega

theorem map_rtake {α β : Type} (f : α → β) (xs : List α) (n : Nat) :
    (xs.rtake n).map f = (xs.map f).rtake n := by
  rw [List.rtake, List.rtake, List.map_drop, List.length_map]

theorem totalLength_rtake_le (rs : List Record) (n : Nat) :
    Record.totalLength (rs.rtake n) ≤ Record.totalLength rs := by
  have hsplit : rs.take (rs.length - n) ++ rs.rtake n = rs := List.take_append_drop _ _
  conv_rhs => rw [← hsplit, Record.totalLength_append]
  exact Nat.le_add_left _ _

/-- What is newest among some records and later ones is newest among the newest and the later. -/
theorem rtake_append_rtake {α : Type} (xs ys : List α) (n : Nat) :
    (xs.rtake n ++ ys).rtake n = (xs ++ ys).rtake n := by
  have hsplit : (xs ++ ys).drop (xs.length - n) = xs.rtake n ++ ys :=
    List.drop_append_of_le_length (Nat.sub_le _ _)
  have hcount : (xs ++ ys).length - n =
      (xs.length - n) + ((xs.rtake n ++ ys).length - n) := by
    simp only [List.length_append, length_rtake]
    omega
  rw [List.rtake, ← hsplit, List.drop_drop, List.rtake, hcount, hsplit]

/-! ### The layout -/

/-- A log is laid out for a queue of live records, oldest first. -/
structure Holds (l : Log) (queue : List Record) : Prop where
  capacity_pos : 0 < l.capacity
  /-- The slots are one block of memory. -/
  capacity_le : Record.entrySize * l.capacity ≤ blockBound
  /-- There is a slot for each record. -/
  length_le : queue.length ≤ l.capacity
  read_lt : l.read < l.capacity
  /-- The write cursor follows the queue. -/
  write_eq : l.write = (l.read + queue.length) % l.capacity
  /-- The flag tells that each slot is taken. -/
  full_iff : l.full = true ↔ queue.length = l.capacity
  /-- The read cursor moves in a full log only. -/
  read_eq : queue.length < l.capacity → l.read = 0
  /-- The slots hold the queue from the read cursor on, and nothing else. -/
  slot : ∀ rank < l.capacity, l.slots[(l.read + rank) % l.capacity]? = some queue[rank]?
  /-- The byte count is that of the queue. -/
  liveBytes_eq : l.liveBytes = Record.totalLength queue

theorem create_eq_ok {n : Nat} {l : Log} (h : create n = .ok (.ok l)) :
    0 < n ∧ Record.entrySize * n ≤ blockBound ∧ l = vacant n := by
  unfold create at h
  split at h
  · simp at h
  · simp only [checkBlock] at h
    split at h
    · simp only [Checked.ok_bind, Except.ok.injEq] at h
      exact ⟨by omega, ‹_›, h.symm⟩
    · simp at h

@[simp] theorem capacity_vacant (n : Nat) : (vacant n).capacity = n := by
  simp [capacity, vacant]

/-- A new log holds nothing. -/
theorem holds_vacant {n : Nat} (hpos : 0 < n) (hblock : Record.entrySize * n ≤ blockBound) :
    (vacant n).Holds [] where
  capacity_pos := by simpa using hpos
  capacity_le := by simpa using hblock
  length_le := Nat.zero_le _
  read_lt := by rw [capacity_vacant]; exact hpos
  write_eq := by simp [vacant]
  full_iff := by
    rw [capacity_vacant]
    simp [vacant]
    omega
  read_eq := fun _ => rfl
  slot := by
    intro rank hrank
    rw [capacity_vacant] at hrank ⊢
    simp [vacant, Nat.mod_eq_of_lt hrank, hrank]
  liveBytes_eq := rfl

/-- The slot of a rank that the ring has. -/
theorem slotIndex_eq {l : Log} (hword : 2 * l.capacity < wordCount) (hread : l.read < l.capacity)
    {rank : Nat} (hrank : rank < l.capacity) :
    l.slotIndex rank = .ok ((l.read + rank) % l.capacity) := by
  rw [slotIndex, Word.add_eq_ok (by omega), Checked.ok_bind, Word.mod_eq_ok (by omega)]

namespace Holds

variable {l : Log} {queue : List Record}

/-- Sums of two slot numbers are machine words. -/
theorem capacity_lt (h : l.Holds queue) : 2 * l.capacity < wordCount := by
  have hblock := h.capacity_le
  simp only [Record.entrySize, blockBound, wordCount] at hblock ⊢
  omega

theorem full_eq_false (h : l.Holds queue) (hroom : queue.length < l.capacity) :
    l.full = false := by
  rw [← Bool.not_eq_true, h.full_iff]
  omega

/-- Behind a queue with room, the write cursor has not wrapped. -/
theorem write_of_room (h : l.Holds queue) (hroom : queue.length < l.capacity) :
    l.write = queue.length := by
  rw [h.write_eq, h.read_eq hroom, Nat.zero_add, Nat.mod_eq_of_lt hroom]

theorem length_of_not_room (h : l.Holds queue) (hroom : ¬queue.length < l.capacity) :
    queue.length = l.capacity :=
  Nat.le_antisymm h.length_le (Nat.not_lt.1 hroom)

/-! ### Looking -/

theorem length_eq (h : l.Holds queue) : l.length = .ok queue.length := by
  have hcap := h.capacity_lt
  have hpos := h.capacity_pos
  unfold Log.length
  by_cases hroom : queue.length < l.capacity
  · rw [if_neg (by simp [h.full_eq_false hroom]), h.read_eq hroom, h.write_of_room hroom,
      Word.add_eq_ok (by omega), Checked.ok_bind, Word.sub_eq_ok (Nat.zero_le _),
      Checked.ok_bind, Word.mod_eq_ok hpos, Nat.sub_zero, Nat.add_mod_right,
      Nat.mod_eq_of_lt hroom]
  · have hlen := h.length_of_not_room hroom
    rw [if_pos (h.full_iff.2 hlen), hlen]

theorem live_eq (h : l.Holds queue) {rank : Nat} (hrank : rank < queue.length) :
    l.live rank = .ok queue[rank] := by
  have hcap : rank < l.capacity := hrank.trans_le h.length_le
  have hslot := h.slot rank hcap
  rw [List.getElem?_eq_getElem hrank] at hslot
  rw [live, slotIndex_eq h.capacity_lt h.read_lt hcap, Checked.ok_bind, cell, hslot]
  rfl

/-- To walk the live span gives the queue. -/
theorem records_eq (h : l.Holds queue) : l.records = .ok queue := by
  have hlive : ∀ rank ∈ List.range queue.length,
      l.live rank = .ok (queue.getD rank ⟨#[]⟩) := by
    intro rank hrank
    have hlt := List.mem_range.1 hrank
    rw [h.live_eq hlt]
    simp [hlt]
  rw [records, h.length_eq, Checked.ok_bind, Checked.mapM_eq_ok hlive, map_getD_range]

/-- How far a queue fills a log. -/
theorem occupancy_eq (h : l.Holds queue) :
    l.occupancy =
      if queue.length = l.capacity then .full
      else if queue = [] then .empty else .partiallyFull := by
  unfold occupancy
  by_cases hfull : queue.length = l.capacity
  · rw [if_pos (h.full_iff.2 hfull), if_pos hfull]
  · have hroom : queue.length < l.capacity := by
      have := h.length_le
      omega
    simp [h.full_eq_false hroom, hfull, isEmpty, h.read_eq hroom, h.write_of_room hroom]

theorem stats_eq (h : l.Holds queue) :
    l.stats = .ok ⟨queue.length, l.capacity, Record.totalLength queue, l.occupancy⟩ := by
  rw [stats, h.length_eq, h.liveBytes_eq]
  rfl

/-- The cursors and the flag tell how long the queue is. -/
theorem span_eq (h : l.Holds queue) : l.span = queue.length := by
  have hlength := h.length_eq
  unfold Log.length at hlength
  unfold span
  split at hlength
  · rw [if_pos ‹_›]
    exact Except.ok.inj hlength
  · have hread := h.read_lt
    have hcap := h.capacity_lt
    have hwrite : l.write < l.capacity := h.write_eq ▸ Nat.mod_lt _ h.capacity_pos
    rw [Word.add_eq_ok (by omega), Checked.ok_bind, Word.sub_eq_ok (by omega),
      Checked.ok_bind, Word.mod_eq_ok h.capacity_pos] at hlength
    rw [if_neg ‹_›]
    exact Except.ok.inj hlength

/-- The view of the log is the queue. -/
theorem toList_eq (h : l.Holds queue) : l.toList = queue := by
  have hslot : ∀ rank ∈ List.range queue.length,
      (l.slots[(l.read + rank) % l.capacity]?).join = some (queue.getD rank ⟨#[]⟩) := by
    intro rank hrank
    have hlt := List.mem_range.1 hrank
    rw [h.slot rank (hlt.trans_le h.length_le)]
    simp [hlt]
  rw [toList, h.span_eq, List.filterMap_congr hslot, List.filterMap_eq_map', map_getD_range]

end Holds

end Log

end Scrollback
