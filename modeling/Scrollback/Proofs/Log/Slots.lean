import Scrollback.Proofs.Log.Changes
/-!
# The slots of a ring

What a log looks like from inside, without a word about the queue it stands for: where the cursors
are, which slots are occupied, and what the flag, the number of records and the state tell of them.

Turned to the read cursor, the slots are the queue followed by vacant slots (`Holds.rotate_slots`).
A log with room has its read cursor at zero, so there the slots need no turning and the occupied
ones are those before the write cursor. All else follows, for every log that a run of insertions and
teardowns can reach (`Log.applyAll_layout`).
-/

namespace Scrollback

namespace Log

/-- A slot holds a record. -/
def Occupied (l : Log) (index : Nat) : Prop :=
  ∃ r, l.slots[index]? = some (some r)

/-- The records in the slots, slot by slot. -/
def occupants (l : Log) : List Record :=
  l.slots.toList.reduceOption

/-- How a ring of a given capacity is laid out. -/
structure Layout (capacity : Nat) (l : Log) : Prop where
  size_eq : l.slots.size = capacity
  write_lt : l.write < capacity
  read_lt : l.read < capacity
  /-- In a full log the cursors meet and no slot is vacant. -/
  of_full : l.full = true → l.write = l.read ∧ ∀ index < capacity, l.Occupied index
  /-- A log with room starts at its first slot. -/
  of_room : l.full = false →
    l.read = 0 ∧ ∀ index < capacity, l.Occupied index ↔ index < l.write
  /-- Only in a full log does the live span wrap. -/
  full_of_wraps : capacity < l.read + l.span → l.full = true
  /-- No record stands outside the live span. -/
  vacant_behind : ∀ rank, l.span ≤ rank → rank < capacity →
    ¬ l.Occupied ((l.read + rank) % capacity)
  liveBytes_eq : l.liveBytes = Record.totalLength l.occupants

/-- What a log of a given capacity tells of how far it is filled. -/
structure Tells (capacity : Nat) (l : Log) : Prop where
  length_eq : l.length = .ok l.span
  /-- As many records are live as there are in the slots. -/
  span_eq : l.span = l.occupants.length
  full_iff : l.full = true ↔ l.span = capacity
  isEmpty_iff : l.isEmpty = true ↔ l.span = 0
  span_eq_zero_iff : l.span = 0 ↔ ∀ index, ¬ l.Occupied index
  occupancy_full_iff : l.occupancy = .full ↔ l.span = capacity
  occupancy_empty_iff : l.occupancy = .empty ↔ l.span = 0
  occupancy_partiallyFull_iff : l.occupancy = .partiallyFull ↔ l.span ≠ 0 ∧ l.span ≠ capacity

theorem lt_of_occupied {l : Log} {index : Nat} (h : l.Occupied index) : index < l.capacity := by
  obtain ⟨r, hr⟩ := h
  exact (Array.getElem?_eq_some_iff.1 hr).1

namespace Holds

variable {l : Log} {queue : List Record}

/-! ### Slots -/

/-- From the read cursor on, the slots hold the queue and then nothing. -/
theorem rotate_slots (h : l.Holds queue) :
    l.slots.toList.rotate l.read =
      queue.map some ++ List.replicate (l.capacity - queue.length) none := by
  have hle := h.length_le
  have hsize : l.slots.toList.length = l.capacity := by simp [capacity]
  refine List.ext_getElem? fun rank => ?_
  by_cases hrank : rank < l.capacity
  · rw [List.getElem?_rotate (by omega), hsize, Array.getElem?_toList, Nat.add_comm,
      h.slot rank hrank]
    by_cases hlive : rank < queue.length
    · rw [List.getElem?_append_left (by simpa using hlive), List.getElem?_map,
        List.getElem?_eq_getElem hlive]
      rfl
    · rw [List.getElem?_append_right (by simpa using hlive), List.length_map,
        List.getElem?_replicate_of_lt (by omega), List.getElem?_eq_none (by omega)]
  · rw [List.getElem?_eq_none (by rw [List.length_rotate]; omega),
      List.getElem?_eq_none (by simp; omega)]

/-- The records in the slots are those of the queue, if not in their order. -/
theorem occupants_perm (h : l.Holds queue) : l.occupants.Perm queue := by
  have hturned : (l.slots.toList.rotate l.read).reduceOption = queue := by
    rw [h.rotate_slots, List.reduceOption_append]
    simp [List.reduceOption]
  have hperm : (l.slots.toList.rotate l.read).reduceOption.Perm l.occupants :=
    (List.rotate_perm l.slots.toList l.read).filterMap id
  rw [hturned] at hperm
  exact hperm.symm

/-- The slot of a rank is occupied exactly if the rank is that of a live record. -/
theorem occupied_rank (h : l.Holds queue) {rank : Nat} (hrank : rank < l.capacity) :
    l.Occupied ((l.read + rank) % l.capacity) ↔ rank < queue.length := by
  rw [Occupied, h.slot rank hrank]
  constructor
  · rintro ⟨r, hr⟩
    exact (List.getElem?_eq_some_iff.1 (Option.some.inj hr)).1
  · intro hlive
    exact ⟨queue[rank], by rw [List.getElem?_eq_getElem hlive]⟩

theorem eq_nil_iff (h : l.Holds queue) : queue = [] ↔ ∀ index, ¬ l.Occupied index := by
  constructor
  · rintro rfl index hindex
    obtain ⟨rank, hrank, rfl⟩ := exists_rank h.read_lt (lt_of_occupied hindex)
    exact Nat.not_lt_zero _ ((h.occupied_rank hrank).1 hindex)
  · intro hvacant
    by_contra hne
    exact hvacant _ ((h.occupied_rank h.capacity_pos).2 (List.length_pos_iff.2 hne))

theorem length_lt_of_full_eq_false (h : l.Holds queue) (hflag : l.full = false) :
    queue.length < l.capacity := by
  refine Nat.lt_of_le_of_ne h.length_le fun hfull => ?_
  rw [h.full_iff.2 hfull] at hflag
  cases hflag

theorem layout (h : l.Holds queue) : l.Layout l.capacity where
  size_eq := rfl
  write_lt := h.write_lt
  read_lt := h.read_lt
  of_full := by
    intro hflag
    have hfull := h.full_iff.1 hflag
    refine ⟨h.write_eq_read hfull, fun index hindex => ?_⟩
    obtain ⟨rank, hrank, rfl⟩ := exists_rank h.read_lt hindex
    exact (h.occupied_rank hrank).2 (hfull ▸ hrank)
  of_room := by
    intro hflag
    have hroom := h.length_lt_of_full_eq_false hflag
    refine ⟨h.read_eq hroom, fun index hindex => ?_⟩
    have hrank := h.occupied_rank hindex
    rwa [h.read_eq hroom, Nat.zero_add, Nat.mod_eq_of_lt hindex,
      ← h.write_of_room hroom] at hrank
  full_of_wraps := by
    intro hwraps
    rw [h.span_eq] at hwraps
    by_contra hflag
    have hroom := h.length_lt_of_full_eq_false (Bool.eq_false_iff.2 hflag)
    have hread := h.read_eq hroom
    omega
  vacant_behind := by
    intro rank hspan hrank
    rw [h.span_eq] at hspan
    rw [h.occupied_rank hrank]
    omega
  liveBytes_eq := by
    rw [h.liveBytes_eq]
    exact (h.occupants_perm.map Record.length).sum_eq.symm

/-! ### What the log tells -/

theorem occupancy_eq_full_iff (h : l.Holds queue) :
    l.occupancy = .full ↔ queue.length = l.capacity := by
  rw [h.occupancy_eq]
  split
  next hfull => exact iff_of_true rfl hfull
  next hroom => split <;> simp [hroom]

theorem occupancy_eq_empty_iff (h : l.Holds queue) : l.occupancy = .empty ↔ queue = [] := by
  have hpos := h.capacity_pos
  rw [h.occupancy_eq]
  split
  next hfull =>
    refine iff_of_false (by simp) ?_
    rintro rfl
    simp at hfull
    omega
  next hroom => split <;> simp [*]

theorem occupancy_eq_partiallyFull_iff (h : l.Holds queue) :
    l.occupancy = .partiallyFull ↔ queue ≠ [] ∧ queue.length ≠ l.capacity := by
  rw [ne_eq, ne_eq, ← h.occupancy_eq_empty_iff, ← h.occupancy_eq_full_iff]
  cases l.occupancy <;> simp

theorem isEmpty_iff (h : l.Holds queue) : l.isEmpty = true ↔ queue = [] := by
  rw [← h.occupancy_eq_empty_iff, occupancy]
  cases hfull : l.full <;> cases hempty : l.isEmpty <;> simp_all [isEmpty]

theorem tells (h : l.Holds queue) : l.Tells l.capacity where
  length_eq := by rw [h.length_eq, h.span_eq]
  span_eq := by rw [h.span_eq, h.occupants_perm.length_eq]
  full_iff := by rw [h.full_iff, h.span_eq]
  isEmpty_iff := by rw [h.isEmpty_iff, h.span_eq, List.length_eq_zero_iff]
  span_eq_zero_iff := by rw [h.span_eq, List.length_eq_zero_iff, h.eq_nil_iff]
  occupancy_full_iff := by rw [h.occupancy_eq_full_iff, h.span_eq]
  occupancy_empty_iff := by rw [h.occupancy_eq_empty_iff, h.span_eq, List.length_eq_zero_iff]
  occupancy_partiallyFull_iff := by
    rw [h.occupancy_eq_partiallyFull_iff, h.span_eq, ne_eq, ne_eq, ne_eq, List.length_eq_zero_iff]

/-- An insertion leaves a full log full. -/
theorem occupancy_insert_of_full (h : l.Holds queue) (hfull : l.occupancy = .full) {r : Record}
    {evicted : Option Evicted} {next : Log} (hinsert : l.insert r = .ok (evicted, next)) :
    next.occupancy = .full := by
  obtain ⟨next', hnext, hcap, hcase⟩ := h.insert_eq r
  rw [hinsert] at hcase
  split at hcase
  · obtain ⟨-, rfl⟩ := Prod.mk.inj (Except.ok.inj hcase)
    rw [hnext.occupancy_eq_full_iff, length_rtake, hcap, List.length_append,
      h.occupancy_eq_full_iff.1 hfull]
    omega
  · cases hcase

end Holds

/-! ### Runs -/

/-- A run of insertions and teardowns on a new log, of any capacity or the default one, reaches its
end exactly if the retained bytes are always a machine word. The log it has reached is laid out as a
ring, tells what its slots hold, and stays full if it is. -/
theorem applyAll_layout {capacity : Nat} {new : Log}
    (hnew : create capacity = .ok (.ok new) ∨
      capacity = defaultCapacity ∧ new = vacant defaultCapacity)
    (changes : List Change) :
    ((∃ out, new.applyAll changes = .ok out) ↔ Fits capacity changes) ∧
    ∀ yields l, new.applyAll changes = .ok (yields, l) →
      l.Layout capacity ∧ l.Tells capacity ∧
        (l.occupancy = .full → ∀ r evicted next, l.insert r = .ok (evicted, next) →
          next.occupancy = .full) := by
  obtain ⟨hpos, hblock, rfl⟩ : 0 < capacity ∧ Record.entrySize * capacity ≤ blockBound ∧
      new = vacant capacity := by
    obtain hcreate | ⟨rfl, rfl⟩ := hnew
    · exact create_eq_ok hcreate
    · exact ⟨by decide, by decide, rfl⟩
  refine ⟨exists_applyAll_iff hpos hblock changes, fun yields l hall => ?_⟩
  obtain ⟨hholds, rfl, -⟩ := reached_of_applyAll hpos hblock hall
  exact ⟨hholds.layout, hholds.tells, fun hfull r evicted next hinsert =>
    hholds.occupancy_insert_of_full hfull hinsert⟩

/-- Four records in three slots: the live span wraps, and every slot is occupied. -/
theorem applyAll_layout_wrapped :
    create 3 = .ok (.ok (vacant 3)) ∧
    ∃ yields l,
      (vacant 3).applyAll [.insert (.ofBytes [97, 10]), .insert (.ofBytes []),
        .insert (.ofBytes [98]), .insert (.ofBytes [99, 10, 10])] = .ok (yields, l) ∧
      l.read = 1 ∧ l.span = 3 ∧ l.Layout 3 ∧ l.occupancy = .full := by
  have hnew : create 3 = .ok (.ok (vacant 3)) := rfl
  have hrun : (vacant 3).applyAll [.insert (.ofBytes [97, 10]), .insert (.ofBytes []),
      .insert (.ofBytes [98]), .insert (.ofBytes [99, 10, 10])] =
      .ok ([.inserted none, .inserted none, .inserted none, .inserted (some ⟨.ofBytes [97, 10]⟩)],
        ⟨#[some (.ofBytes [99, 10, 10]), some (.ofBytes []), some (.ofBytes [98])],
          1, 1, true, 4⟩) := rfl
  obtain ⟨hlayout, htells, -⟩ := (applyAll_layout (.inl hnew) _).2 _ _ hrun
  exact ⟨hnew, _, _, hrun, rfl, rfl, hlayout, htells.occupancy_full_iff.2 rfl⟩

end Log

end Scrollback
