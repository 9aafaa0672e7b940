import Scrollback.Proofs.Log.Layout
/-!
# Insertion into the ring

To insert is to append to the queue and to keep the newest records that there is room for. While
there is room, the record goes into the vacant slot behind the queue. In a full log the cursors
meet, so the oldest record leaves the slot that the new one takes.

An insertion can stop in one way only, when the bytes of the live records are no machine word.
-/

namespace Scrollback

namespace Log

/-- A log after the vacant slot under its write cursor was filled. -/
def filled (l : Log) (r : Record) : Log :=
  { l with
    slots := l.slots.setIfInBounds l.write (some r)
    write := (l.write + 1) % l.capacity
    liveBytes := l.liveBytes + r.length
    full := l.full || (l.write + 1) % l.capacity == l.read }

/-- A full log after its oldest record was taken out. -/
def vacated (l : Log) (oldest : Record) : Log :=
  { l with
    slots := l.slots.setIfInBounds l.write none
    read := (l.read + 1) % l.capacity
    liveBytes := l.liveBytes - oldest.length }

@[simp] theorem capacity_filled (l : Log) (r : Record) : (l.filled r).capacity = l.capacity := by
  simp [filled, capacity]

@[simp] theorem capacity_vacated (l : Log) (oldest : Record) :
    (l.vacated oldest).capacity = l.capacity := by
  simp [vacated, capacity]

/-- What a queue gives up for one record more. -/
def displaced (capacity : Nat) (queue : List Record) : Option Evicted :=
  if queue.length = capacity then queue.head?.map Evicted.mk else none

/-- Only a queue without room gives a record up, and that is its oldest. -/
theorem displaced_eq_some {capacity : Nat} {queue : List Record} (hpos : 0 < capacity) :
    ((displaced capacity queue).isSome ↔ queue.length = capacity) ∧
      ∀ e, displaced capacity queue = some e → queue.head? = some e.record := by
  unfold displaced
  split
  next hfull =>
    obtain _ | ⟨oldest, rest⟩ := queue
    · simp at hfull
      omega
    · refine ⟨iff_of_true rfl hfull, fun e he => ?_⟩
      simp only [List.head?_cons, Option.map_some, Option.some.injEq] at he
      rw [← he]
      rfl
  next hroom =>
    exact ⟨iff_of_false (by simp) hroom, fun e he => by cases he⟩

/-- To fill a vacant slot fails only if the bytes are no machine word. -/
theorem store_of_vacant {l : Log} (hpos : 0 < l.capacity) (hword : l.write + 1 < wordCount)
    (hcell : l.slots[l.write]? = some none) (r : Record) :
    l.store r =
      if l.liveBytes + r.length < wordCount then .ok (l.filled r) else .error .overflow := by
  rw [store, cell, hcell]
  simp only [Checked.ok_bind, Word.add_eq_ok hword, Word.mod_eq_ok hpos]
  unfold Word.add
  split <;> rfl

namespace Holds

variable {l : Log} {queue : List Record}

theorem write_lt (h : l.Holds queue) : l.write < l.capacity :=
  h.write_eq ▸ Nat.mod_lt _ h.capacity_pos

theorem filled (h : l.Holds queue) (hroom : queue.length < l.capacity) (r : Record) :
    (l.filled r).Holds (queue ++ [r]) where
  capacity_pos := by simpa using h.capacity_pos
  capacity_le := by simpa using h.capacity_le
  length_le := by
    rw [capacity_filled, List.length_append]
    exact hroom
  read_lt := by
    rw [capacity_filled]
    exact h.read_lt
  write_eq := by
    rw [capacity_filled]
    change (l.write + 1) % l.capacity = _
    rw [h.write_eq, Nat.mod_add_mod, List.length_append, List.length_singleton, Nat.add_assoc]
    rfl
  full_iff := by
    have hwrap := @wrap_eq l.capacity (queue.length + 1) (by omega)
    rw [capacity_filled, List.length_append, List.length_singleton]
    change (l.full || (l.write + 1) % l.capacity == l.read) = true ↔ _
    rw [h.full_eq_false hroom, h.read_eq hroom, h.write_of_room hroom, hwrap, Bool.false_or,
      beq_iff_eq]
    split <;> omega
  read_eq := fun _ => h.read_eq hroom
  slot := by
    intro rank hrank
    rw [capacity_filled] at hrank ⊢
    change (l.slots.setIfInBounds l.write (some r))[(l.read + rank) % l.capacity]? = _
    have hindex := wrap_inj h.read_lt hroom hrank
    by_cases hlast : rank = queue.length
    · have hbound : l.write < l.slots.size := h.write_lt
      subst hlast
      rw [← h.write_eq, Array.getElem?_setIfInBounds_self_of_lt hbound]
      simp
    · rw [Array.getElem?_setIfInBounds_ne (by rw [h.write_eq]; omega), h.slot rank hrank]
      congr 1
      by_cases hold : rank < queue.length
      · rw [List.getElem?_append_left hold]
      · rw [List.getElem?_eq_none (by omega), List.getElem?_eq_none (by simp; omega)]
  liveBytes_eq := by simp [Log.filled, h.liveBytes_eq]

/-- The slot of the oldest record of a full log is the one under the write cursor. -/
theorem write_eq_read (h : l.Holds queue) (hfull : queue.length = l.capacity) :
    l.write = l.read := by
  rw [h.write_eq, hfull, Nat.add_mod_right, Nat.mod_eq_of_lt h.read_lt]

theorem filled_vacated {oldest : Record} {rest : List Record} (h : l.Holds (oldest :: rest))
    (hfull : (oldest :: rest).length = l.capacity) (r : Record) :
    ((l.vacated oldest).filled r).Holds (rest ++ [r]) where
  capacity_pos := by simpa using h.capacity_pos
  capacity_le := by simpa using h.capacity_le
  length_le := by
    rw [capacity_filled, capacity_vacated, ← hfull]
    simp
  read_lt := by
    rw [capacity_filled, capacity_vacated]
    exact Nat.mod_lt _ h.capacity_pos
  write_eq := by
    have hlen : (rest ++ [r]).length = l.capacity := by simpa using hfull
    rw [capacity_filled, capacity_vacated, hlen]
    change (l.write + 1) % (l.vacated oldest).capacity = ((l.read + 1) % l.capacity + _) % _
    rw [capacity_vacated, h.write_eq_read hfull, Nat.add_mod_right, Nat.mod_mod]
  full_iff := by
    rw [capacity_filled, capacity_vacated]
    change (l.full || _) = true ↔ _
    rw [h.full_iff.2 hfull, ← hfull]
    simp
  read_eq := by
    intro hroom
    rw [capacity_filled, capacity_vacated, ← hfull] at hroom
    simp at hroom
  slot := by
    intro rank hrank
    rw [capacity_filled, capacity_vacated] at hrank ⊢
    have hlen : rest.length + 1 = l.capacity := hfull
    have hwrite : l.write < l.slots.size := h.write_lt
    change ((l.slots.setIfInBounds l.write none).setIfInBounds l.write (some r))[
      ((l.read + 1) % l.capacity + rank) % l.capacity]? = _
    rw [wrap_succ]
    -- The rank past the last one wraps to the slot that was vacated.
    by_cases hlast : rank = rest.length
    · have hindex : (l.read + (rank + 1)) % l.capacity = l.write := by
        rw [hlast, hlen, Nat.add_mod_right, Nat.mod_eq_of_lt h.read_lt, h.write_eq_read hfull]
      rw [hindex, Array.getElem?_setIfInBounds_self_of_lt (by simpa using hwrite), hlast]
      simp
    · have hnext : rank + 1 < l.capacity := by omega
      have hne : l.write ≠ (l.read + (rank + 1)) % l.capacity := by
        have hinj := wrap_inj h.read_lt h.capacity_pos hnext
        rw [Nat.add_zero, Nat.mod_eq_of_lt h.read_lt] at hinj
        rw [h.write_eq_read hfull]
        omega
      rw [Array.getElem?_setIfInBounds_ne hne, Array.getElem?_setIfInBounds_ne hne,
        h.slot (rank + 1) hnext, List.getElem?_append_left (by omega)]
      rfl
  liveBytes_eq := by
    simp [Log.filled, vacated, h.liveBytes_eq]

theorem insert_of_room (h : l.Holds queue) (hroom : queue.length < l.capacity) (r : Record) :
    l.insert r =
      if Record.totalLength (queue ++ [r]) < wordCount then .ok (none, l.filled r)
      else .error .overflow := by
  have hcap := h.capacity_lt
  have hwrite := h.write_lt
  have hcell : l.slots[l.write]? = some none := by
    rw [h.write_eq, h.slot _ hroom, List.getElem?_eq_none le_rfl]
  have htotal : l.liveBytes + r.length = Record.totalLength (queue ++ [r]) := by
    simp [h.liveBytes_eq]
  rw [Log.insert, vacate, h.full_eq_false hroom]
  simp only [Bool.false_eq_true, if_false, Checked.ok_bind,
    store_of_vacant h.capacity_pos (by omega) hcell, htotal]
  split <;> rfl

theorem insert_of_full {oldest : Record} {rest : List Record} (h : l.Holds (oldest :: rest))
    (hfull : (oldest :: rest).length = l.capacity) (r : Record) :
    l.insert r =
      if Record.totalLength (rest ++ [r]) < wordCount then
        .ok (some ⟨oldest⟩, (l.vacated oldest).filled r)
      else .error .overflow := by
  have hcap := h.capacity_lt
  have hwrite := h.write_lt
  have hread := h.read_lt
  have hcell : l.slots[l.write]? = some (some oldest) := by
    have hslot := h.slot 0 h.capacity_pos
    rw [Nat.add_zero, Nat.mod_eq_of_lt hread] at hslot
    rw [h.write_eq_read hfull, hslot]
    rfl
  have hvacant : (l.vacated oldest).slots[(l.vacated oldest).write]? = some none :=
    Array.getElem?_setIfInBounds_self_of_lt hwrite
  have hbytes : oldest.length ≤ l.liveBytes := by
    simp [h.liveBytes_eq]
  have htotal : (l.vacated oldest).liveBytes + r.length = Record.totalLength (rest ++ [r]) := by
    simp [vacated, h.liveBytes_eq]
  have hvacate : l.vacate = .ok (some ⟨oldest⟩, l.vacated oldest) := by
    rw [vacate, if_pos (h.full_iff.2 hfull), cell, hcell]
    simp only [Checked.ok_bind, Word.add_eq_ok (show l.read + 1 < wordCount by omega),
      Word.mod_eq_ok h.capacity_pos, Word.sub_eq_ok hbytes]
    rfl
  have hpos : 0 < (l.vacated oldest).capacity := by
    rw [capacity_vacated]
    exact h.capacity_pos
  have hword : (l.vacated oldest).write + 1 < wordCount := by
    change l.write + 1 < wordCount
    omega
  rw [Log.insert, hvacate]
  simp only [Checked.ok_bind, store_of_vacant hpos hword hvacant, htotal]
  split <;> rfl

/-- To insert is to append to the queue and to keep the newest records. -/
theorem insert_eq (h : l.Holds queue) (r : Record) :
    ∃ next : Log, next.Holds ((queue ++ [r]).rtake l.capacity) ∧ next.capacity = l.capacity ∧
      l.insert r =
        if Record.totalLength ((queue ++ [r]).rtake l.capacity) < wordCount then
          .ok (displaced l.capacity queue, next)
        else .error .overflow := by
  by_cases hroom : queue.length < l.capacity
  · have hkeep : (queue ++ [r]).rtake l.capacity = queue ++ [r] :=
      rtake_of_length_le (by rw [List.length_append]; exact hroom)
    rw [hkeep, displaced, if_neg (by omega)]
    exact ⟨l.filled r, h.filled hroom r, capacity_filled l r, h.insert_of_room hroom r⟩
  · have hfull := h.length_of_not_room hroom
    obtain _ | ⟨oldest, rest⟩ := queue
    · have := h.capacity_pos
      simp at hfull
      omega
    · have hkeep : (oldest :: rest ++ [r]).rtake l.capacity = rest ++ [r] := by
        rw [← hfull, List.rtake]
        simp
      rw [hkeep, displaced, if_pos hfull]
      exact ⟨(l.vacated oldest).filled r, h.filled_vacated hfull r, by simp,
        h.insert_of_full hfull r⟩

end Holds

/-- What an insertion gives back and what it keeps are the queue with the new record. -/
theorem displaced_append {capacity : Nat} {queue : List Record} (hpos : 0 < capacity)
    (hle : queue.length ≤ capacity) (r : Record) :
    (displaced capacity queue).toList.map Evicted.record ++ (queue ++ [r]).rtake capacity =
      queue ++ [r] := by
  unfold displaced
  split
  next hfull =>
    obtain _ | ⟨oldest, rest⟩ := queue
    · simp at hfull
      omega
    · rw [← hfull, List.rtake]
      simp
  next hroom =>
    rw [rtake_of_length_le (by rw [List.length_append, List.length_singleton]; omega)]
    rfl

/-! ### Retaining -/

namespace Holds

variable {l : Log} {queue : List Record}

/-- To retain records keeps the newest of all, and counts what it gave up. -/
theorem retain_eq (h : l.Holds queue) (records : List Record) (evicted evictedBytes : Nat)
    (fits : Record.totalLength (queue ++ records) < wordCount) :
    ∃ next : Log, next.Holds ((queue ++ records).rtake l.capacity) ∧
      next.capacity = l.capacity ∧
      ∃ gone : List Record, gone ++ (queue ++ records).rtake l.capacity = queue ++ records ∧
        l.retain evicted evictedBytes records =
          .ok (next, evicted + gone.length, evictedBytes + Record.totalLength gone) := by
  induction records generalizing l queue evicted evictedBytes with
  | nil =>
    rw [List.append_nil, rtake_of_length_le h.length_le]
    exact ⟨l, h, rfl, [], rfl, rfl⟩
  | cons r records ih =>
    obtain ⟨mid, hmid, hcap, hinsert⟩ := h.insert_eq r
    have hkept := displaced_append h.capacity_pos h.length_le r
    have hbytes := congrArg Record.totalLength hkept
    simp only [Record.totalLength_append] at hbytes fits
    rw [if_pos (by simp at *; omega)] at hinsert
    have hmore : ((queue ++ [r]).rtake l.capacity ++ records).rtake l.capacity =
        (queue ++ r :: records).rtake l.capacity := by
      rw [rtake_append_rtake, List.append_assoc]
      rfl
    have hfits : Record.totalLength ((queue ++ [r]).rtake l.capacity ++ records) < wordCount := by
      simp at *
      omega
    -- The counts go on from what this insertion gave up, so the rest is wanted for any counts.
    have hstart : ∀ e b, ∃ next : Log, next.Holds ((queue ++ r :: records).rtake l.capacity) ∧
        next.capacity = l.capacity ∧
        ∃ gone : List Record, gone ++ (queue ++ r :: records).rtake l.capacity =
            (queue ++ [r]).rtake l.capacity ++ records ∧
          mid.retain e b records = .ok (next, e + gone.length, b + Record.totalLength gone) := by
      intro e b
      have := ih hmid e b hfits
      rwa [hcap, hmore] at this
    rw [retain, hinsert, Checked.ok_bind]
    cases hgone : displaced l.capacity queue with
    | none =>
      obtain ⟨next, hnext, hncap, gone, hall, hretain⟩ := hstart evicted evictedBytes
      rw [hgone] at hkept
      refine ⟨next, hnext, hncap, gone, ?_, hretain⟩
      rw [hall, show (queue ++ [r]).rtake l.capacity = queue ++ [r] from hkept, List.append_assoc]
      rfl
    | some e =>
      obtain ⟨next, hnext, hncap, gone, hall, hretain⟩ :=
        hstart (evicted + 1) (evictedBytes + e.record.length)
      rw [hgone] at hkept
      refine ⟨next, hnext, hncap, e.record :: gone, ?_, ?_⟩
      · rw [List.cons_append, hall, ← List.cons_append,
          show e.record :: (queue ++ [r]).rtake l.capacity = queue ++ [r] from hkept,
          List.append_assoc]
        rfl
      · simp only [hretain, List.length_cons, Record.totalLength_cons]
        congr 3 <;> omega

end Holds

end Log

end Scrollback
