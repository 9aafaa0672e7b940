import Scrollback.Proofs.Log.Layout
/-!
# Teardown of the ring

A teardown takes the live records out of their slots, rank by rank. What is left is vacant at every
rank, so with the cursors reset the log is as good as new.
-/

namespace Scrollback

namespace Log

/-- Each slot has a rank from the read cursor on. -/
theorem exists_rank {capacity read index : Nat} (hread : read < capacity)
    (hindex : index < capacity) :
    ∃ rank < capacity, (read + rank) % capacity = index := by
  by_cases h : read ≤ index
  · exact ⟨index - read, by omega, by rw [Nat.add_sub_cancel' h, Nat.mod_eq_of_lt hindex]⟩
  · refine ⟨index + capacity - read, by omega, ?_⟩
    rw [show read + (index + capacity - read) = index + capacity by omega, Nat.add_mod_right,
      Nat.mod_eq_of_lt hindex]

/-- A log with one slot made vacant. -/
def cleared (l : Log) (index : Nat) : Log :=
  { l with slots := l.slots.setIfInBounds index none }

@[simp] theorem capacity_cleared (l : Log) (index : Nat) :
    (l.cleared index).capacity = l.capacity := by
  simp [cleared, capacity]

/-- To take out an occupied rank gives its record and vacates its slot. -/
theorem takeRanks_cons {l rest : Log} {rank : Nat} {r : Record} {ranks : List Nat}
    {taken : List Record} (hword : 2 * l.capacity < wordCount) (hread : l.read < l.capacity)
    (hrank : rank < l.capacity) (hslot : l.slots[(l.read + rank) % l.capacity]? = some (some r))
    (htake : (l.cleared ((l.read + rank) % l.capacity)).takeRanks ranks = .ok (taken, rest)) :
    l.takeRanks (rank :: ranks) = .ok (r :: taken, rest) := by
  have hcell : l.cell ((l.read + rank) % l.capacity) = .ok (some r) := by
    rw [cell, hslot]
  rw [takeRanks, slotIndex_eq hword hread hrank, Checked.ok_bind, hcell, Checked.ok_bind]
  exact Checked.bind_eq_ok.2 ⟨_, htake, rfl⟩

/-- To take ranks out from one on gives the records there, and leaves no record behind if the ranks
before are vacant. -/
theorem takeRanks_eq {l : Log} {queue : List Record} (hword : 2 * l.capacity < wordCount)
    (hread : l.read < l.capacity) (hle : queue.length ≤ l.capacity) (first count : Nat)
    (hcount : first + count = queue.length)
    (hslot : ∀ rank < l.capacity, l.slots[(l.read + rank) % l.capacity]? =
      some (if first ≤ rank then queue[rank]? else none)) :
    ∃ next : Log, l.takeRanks (List.range' first count) = .ok (queue.drop first, next) ∧
      next.capacity = l.capacity ∧
      ∀ rank < l.capacity, next.slots[(l.read + rank) % l.capacity]? = some none := by
  -- `first` moves through the ranks: those before it are vacant, the others as in the queue.
  induction count generalizing l first with
  | zero =>
    refine ⟨l, by simp [takeRanks, ← hcount], rfl, ?_⟩
    intro rank hrank
    rw [hslot rank hrank]
    split
    · rw [List.getElem?_eq_none (by omega)]
    · rfl
  | succ count ih =>
    have hfirst : first < queue.length := by omega
    have hcap : first < l.capacity := by omega
    have hcell := hslot first hcap
    rw [if_pos le_rfl, List.getElem?_eq_getElem hfirst] at hcell
    have hrest : ∀ rank < l.capacity,
        (l.cleared ((l.read + first) % l.capacity)).slots[(l.read + rank) % l.capacity]? =
          some (if first + 1 ≤ rank then queue[rank]? else none) := by
      intro rank hrank
      have hinj := wrap_inj hread hcap hrank
      by_cases heq : first = rank
      · have hbound : (l.read + first) % l.capacity < l.slots.size := Nat.mod_lt _ (by omega)
        rw [← heq, cleared, Array.getElem?_setIfInBounds_self_of_lt hbound, if_neg (by omega)]
      · rw [cleared, Array.getElem?_setIfInBounds_ne (by omega), hslot rank hrank]
        congr 1
        by_cases hlt : first ≤ rank
        · rw [if_pos hlt, if_pos (by omega)]
        · rw [if_neg hlt, if_neg (by omega)]
    obtain ⟨next, htake, hncap, hvacant⟩ := ih
      (l := l.cleared ((l.read + first) % l.capacity)) (by simpa using hword)
      (by rw [capacity_cleared]; exact hread) (by simpa using hle) (first + 1) (by omega)
      (by rw [capacity_cleared]; exact hrest)
    rw [capacity_cleared] at hncap hvacant
    refine ⟨next, ?_, hncap, hvacant⟩
    rw [List.range'_succ, List.drop_eq_getElem_cons hfirst]
    exact takeRanks_cons hword hread hcap hcell htake

/-- A teardown returns the queue and leaves an empty log. -/
theorem Holds.teardown_eq {l : Log} {queue : List Record} (h : l.Holds queue) :
    ∃ next : Log, l.teardown = .ok (queue, next) ∧ next.Holds [] ∧
      next.capacity = l.capacity := by
  obtain ⟨rest, htake, hcap, hvacant⟩ := takeRanks_eq h.capacity_lt h.read_lt h.length_le
    0 _ (Nat.zero_add _) (by simpa using h.slot)
  let next : Log := { rest with write := 0, read := 0, full := false, liveBytes := 0 }
  have hncap : next.capacity = l.capacity := hcap
  refine ⟨next, ?_, ?_, hncap⟩
  · rw [teardown, h.length_eq, Checked.ok_bind, List.range_eq_range', htake]
    rfl
  · exact {
      capacity_pos := hncap ▸ h.capacity_pos
      capacity_le := hncap ▸ h.capacity_le
      length_le := Nat.zero_le _
      read_lt := hncap ▸ h.capacity_pos
      write_eq := by simp [next]
      full_iff := by
        have := h.capacity_pos
        rw [hncap]
        simp [next]
        omega
      read_eq := fun _ => rfl
      slot := by
        intro rank hrank
        rw [hncap] at hrank ⊢
        obtain ⟨other, hother, heq⟩ := exists_rank h.read_lt hrank
        have := hvacant other hother
        rw [heq] at this
        change rest.slots[(0 + rank) % l.capacity]? = _
        rw [Nat.zero_add, Nat.mod_eq_of_lt hrank, this]
        rfl
      liveBytes_eq := rfl }

end Log

end Scrollback
