import Scrollback.Log.Address
import Scrollback.Proofs.Log.Layout
/-!
# Addresses in the retained data

An offset falls into the first record that ends behind it. `Log.ends` are the ends of the records in
their concatenation, `Log.locate` finds the record with what is left of the offset. `resolve`, which
walks the slots, does the same (`Holds.resolve_eq`), so a read returns what the concatenation has
from the offset to the end of that record, as far as there is room (`Holds.readAt_eq`).
-/

namespace Scrollback

namespace Log

open Record (totalLength)

/-- The record with the byte at a distance from the start of some records, and what is left of the
distance in it. -/
def locate : (queue : List Record) → (distance : Nat) → Option (Record × Nat)
  | [], _ => none
  | r :: queue, distance =>
    if distance < r.length then some (r, distance) else locate queue (distance - r.length)

/-- Where each of some records ends in their concatenation. -/
def ends (queue : List Record) : List Nat :=
  (List.range queue.length).map fun i => totalLength (queue.take (i + 1))

/-- Where the record with the byte at an offset ends, if there is such a byte. -/
def endAfter? (queue : List Record) (offset : Nat) : Option Nat :=
  (ends queue).find? (offset < ·)

/-- The bytes from an offset up to the end of the record there, as many as there is room for. -/
def piece (queue : List Record) (offset room : Nat) : Bytes :=
  match endAfter? queue offset with
  | none => []
  | some stop => ((queue.flatMap Record.bytes).drop offset).take (min room (stop - offset))

/-! ### Records by their ends -/

theorem ends_cons (r : Record) (queue : List Record) :
    ends (r :: queue) = r.length :: (ends queue).map (r.length + ·) := by
  simp [ends, List.range_succ_eq_map, Function.comp_def]

theorem endAfter?_cons (r : Record) (queue : List Record) (offset : Nat) :
    endAfter? (r :: queue) offset =
      if offset < r.length then some r.length
      else (endAfter? queue (offset - r.length)).map (r.length + ·) := by
  rw [endAfter?, ends_cons, List.find?_cons]
  by_cases h : offset < r.length
  · simp [h]
  · have hshift : (fun stop => decide (offset < r.length + stop)) =
        fun stop => decide (offset - r.length < stop) := by
      funext stop
      simp only [decide_eq_decide]
      omega
    rw [if_neg h, decide_eq_false h, List.find?_map, Function.comp_def, hshift]
    rfl

/-- A byte of a record lies before the end of that record and behind those of the earlier ones. -/
theorem endAfter?_append_cons {earlier later : List Record} {r : Record} {offset : Nat}
    (hstart : totalLength earlier ≤ offset) (hend : offset < totalLength earlier + r.length) :
    endAfter? (earlier ++ r :: later) offset = some (totalLength earlier + r.length) := by
  induction earlier generalizing offset with
  | nil =>
    rw [Record.totalLength_nil, Nat.zero_add] at hend ⊢
    rw [List.nil_append, endAfter?_cons, if_pos hend]
  | cons first earlier ih =>
    rw [Record.totalLength_cons] at hstart hend ⊢
    rw [List.cons_append, endAfter?_cons, if_neg (by omega), ih (by omega) (by omega),
      Option.map_some, Nat.add_assoc]

/-- The end of the located record. -/
theorem locate_eq (queue : List Record) (offset : Nat) :
    (locate queue offset).map (fun place => offset + (place.1.length - place.2)) =
      endAfter? queue offset := by
  induction queue generalizing offset with
  | nil => rfl
  | cons r queue ih =>
    rw [locate, endAfter?_cons]
    split
    next h =>
      simp only [Option.map_some, Option.some.injEq]
      omega
    next h =>
      rw [← ih, Option.map_map]
      congr 1
      funext place
      simp only [Function.comp_apply]
      omega

/-- The bytes from the located place on are those of the concatenation. -/
theorem locate_bytes {queue : List Record} {offset : Nat} {r : Record} {start : Nat}
    (h : locate queue offset = some (r, start)) :
    start < r.length ∧ ∀ room, room ≤ r.length - start →
      (r.bytes.drop start).take room = ((queue.flatMap Record.bytes).drop offset).take room := by
  induction queue generalizing offset with
  | nil => cases h
  | cons first queue ih =>
    rw [locate] at h
    split at h
    next hin =>
      obtain ⟨rfl, rfl⟩ : first = r ∧ offset = start := by simpa using h
      refine ⟨hin, fun room hroom => ?_⟩
      have hlen := Record.length_eq first
      rw [List.flatMap_cons, List.drop_append_of_le_length (by omega),
        List.take_append_of_le_length (by rw [List.length_drop]; omega)]
    next hout =>
      obtain ⟨hstart, hbytes⟩ := ih h
      refine ⟨hstart, fun room hroom => ?_⟩
      have hlen := Record.length_eq first
      have hskip : first.bytes.drop offset = [] := List.drop_eq_nil_of_le (by omega)
      rw [hbytes room hroom, List.flatMap_cons, List.drop_append, hskip, List.nil_append, hlen]

theorem locate_eq_none_iff {queue : List Record} {offset : Nat} :
    locate queue offset = none ↔ totalLength queue ≤ offset := by
  induction queue generalizing offset with
  | nil => simp [locate]
  | cons r queue ih =>
    rw [locate, Record.totalLength_cons]
    split
    next h =>
      refine iff_of_false (by simp) ?_
      omega
    next h =>
      rw [ih]
      omega

theorem endAfter?_eq_none {queue : List Record} {offset : Nat} (h : totalLength queue ≤ offset) :
    endAfter? queue offset = none := by
  rw [← locate_eq, locate_eq_none_iff.2 h, Option.map_none]

/-- What a read at a located place returns. -/
theorem piece_eq (queue : List Record) (offset room : Nat) :
    piece queue offset room =
      match locate queue offset with
      | none => []
      | some (r, start) => r.slice start room := by
  rw [piece, ← locate_eq]
  cases h : locate queue offset with
  | none => rfl
  | some place =>
    obtain ⟨hstart, hbytes⟩ := locate_bytes h
    have hlen := Record.length_eq place.1
    simp only [Option.map_some, Record.slice_eq, Nat.add_sub_cancel_left]
    rw [← hbytes _ (Nat.min_le_right _ _), ← List.take_take, List.take_of_length_le
      (l := place.1.bytes.drop place.2) (by rw [List.length_drop]; omega)]

theorem length_piece_le (queue : List Record) (offset room : Nat) :
    (piece queue offset room).length ≤ room ∧
      (piece queue offset room ≠ [] →
        offset + (piece queue offset room).length ≤ totalLength queue) := by
  unfold piece
  split
  next => simp
  next stop h =>
    have hlen := Record.length_flatMap_bytes queue
    simp only [List.length_take, List.length_drop, hlen, ne_eq, ← List.length_eq_zero_iff]
    omega

/-! ### Walking the slots -/

theorem nextSlot_eq {l : Log} {rank : Nat} (hread : l.read < l.capacity) :
    l.nextSlot ((l.read + rank) % l.capacity) = (l.read + (rank + 1)) % l.capacity := by
  have hlt := Nat.mod_lt (l.read + rank) (show 0 < l.capacity by omega)
  have hnext : (l.read + (rank + 1)) % l.capacity = ((l.read + rank) % l.capacity + 1) %
      l.capacity := by
    rw [Nat.mod_add_mod, Nat.add_assoc]
  rw [nextSlot, hnext]
  split
  next h => rw [h, Nat.mod_self]
  next h => exact (Nat.mod_eq_of_lt (by omega)).symm

namespace Holds

variable {l : Log} {queue : List Record}

theorem scan_eq (h : l.Holds queue) (count first distance : Nat)
    (hcount : first + count = queue.length) :
    l.scan count ((l.read + first) % l.capacity) distance =
      .ok (locate (queue.drop first) distance) := by
  -- The slot of rank `first` is the next to look at, the queue from there on is what is left.
  induction count generalizing first distance with
  | zero => rw [scan, List.drop_eq_nil_of_le (by omega), locate]
  | succ count ih =>
    have hfirst : first < queue.length := by omega
    have hslot := h.slot first (hfirst.trans_le h.length_le)
    rw [List.getElem?_eq_getElem hfirst] at hslot
    rw [scan, hslot, List.drop_eq_getElem_cons hfirst, locate]
    simp only
    split
    · rfl
    · rw [nextSlot_eq h.read_lt, ih (first + 1) _ (by omega)]

/-- To resolve an offset is to locate it in the queue. -/
theorem resolve_eq (h : l.Holds queue) (offset : Nat) :
    l.resolve offset = .ok (locate queue offset) := by
  have hcap := h.capacity_lt
  have hread := h.read_lt
  have hle := h.length_le
  have hscan := h.scan_eq queue.length 0 offset (Nat.zero_add _)
  rw [Nat.add_zero, Nat.mod_eq_of_lt hread, List.drop_zero] at hscan
  rw [resolve, h.length_eq, Checked.ok_bind, Word.add_eq_ok (by omega), Checked.ok_bind, hscan,
    Checked.ok_bind]
  cases hlocate : locate queue offset with
  | some place => rfl
  | none =>
    have hend := locate_eq_none_iff.1 hlocate
    rw [← h.liveBytes_eq] at hend
    simp only [if_neg (show ¬offset < l.liveBytes by omega)]

/-- A read returns a piece of the retained data. -/
theorem readAt_eq (h : l.Holds queue) (offset room : Nat) :
    l.readAt offset room = .ok (piece queue offset room) := by
  rw [readAt, h.resolve_eq, Checked.ok_bind, piece_eq]
  cases hlocate : locate queue offset with
  | none => rfl
  | some place =>
    have hstart := (locate_bytes hlocate).1
    simp only [if_pos hstart.le]

/-- All retained data is the concatenation of the queue. -/
theorem contents_eq (h : l.Holds queue) (allowance : Allowance) :
    l.contents allowance =
      match allowance.refused? l.contentsDemands with
      | some demand => .ok (.error (.alloc demand.request))
      | none => .ok (.ok (queue.flatMap Record.bytes)) := by
  rw [contents, h.records_eq]
  cases allowance.refused? l.contentsDemands <;> rfl

end Holds

end Log

end Scrollback
