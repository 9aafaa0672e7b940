import Scrollback.Proofs.Log.Address
/-!
# Reading retained data to its end

`Log.pieces` are what reads with one room return, one after the other from an offset on, until a
read returns nothing. Put end to end they are the rest of the data. A read stops at the end of a
record, so each piece lies inside one record, and each record takes as many reads as its bytes from
the offset on need.
-/

namespace Scrollback

namespace Log

open Record (totalLength)

/-- The bytes that each of some records has at or after an offset in their concatenation. -/
def bytesFrom (queue : List Record) (offset : Nat) : List Nat :=
  (List.range queue.length).map fun i =>
    totalLength (queue.take (i + 1)) - max offset (totalLength (queue.take i))

/-- A range of the concatenation of some records lies inside one of them. -/
def Within (queue : List Record) (offset length : Nat) : Prop :=
  ∃ earlier r later, queue = earlier ++ r :: later ∧ totalLength earlier ≤ offset ∧
    offset + length ≤ totalLength earlier + r.length

/-- What reads with one room return from an offset on, until one returns nothing. -/
def pieces (queue : List Record) (room offset : Nat) : List Bytes :=
  if piece queue offset room = [] then []
  else piece queue offset room ::
    pieces queue room (offset + (piece queue offset room).length)
termination_by totalLength queue - offset
decreasing_by
  rename_i hpiece
  have hinside := (length_piece_le queue offset room).2 hpiece
  have hpos := List.length_pos_iff.2 hpiece
  omega

/-! ### One piece -/

theorem locate_eq_some {queue : List Record} {offset : Nat} {r : Record} {start : Nat}
    (h : locate queue offset = some (r, start)) :
    start < r.length ∧ ∃ earlier later, queue = earlier ++ r :: later ∧
      offset = totalLength earlier + start := by
  refine ⟨(locate_bytes h).1, ?_⟩
  induction queue generalizing offset with
  | nil => cases h
  | cons first queue ih =>
    rw [locate] at h
    split at h
    next hin =>
      obtain ⟨rfl, rfl⟩ : first = r ∧ offset = start := by simpa using h
      exact ⟨[], queue, rfl, by simp⟩
    next hout =>
      obtain ⟨earlier, later, rfl, hoffset⟩ := ih h
      refine ⟨first :: earlier, later, rfl, ?_⟩
      rw [Record.totalLength_cons]
      omega

theorem piece_eq_nil_iff {queue : List Record} {offset room : Nat} :
    piece queue offset room = [] ↔ room = 0 ∨ totalLength queue ≤ offset := by
  rw [piece_eq, ← locate_eq_none_iff]
  cases h : locate queue offset with
  | none => simp
  | some place =>
    have hstart := (locate_eq_some h).1
    have hlen := Record.length_eq place.1
    simp only [Record.slice_eq, reduceCtorEq, or_false, ← List.length_eq_zero_iff,
      List.length_take, List.length_drop]
    omega

theorem piece_cons (r : Record) (queue : List Record) (offset room : Nat) :
    piece (r :: queue) offset room =
      if offset < r.length then r.slice offset room
      else piece queue (offset - r.length) room := by
  rw [piece_eq, piece_eq, locate]
  by_cases h : offset < r.length
  · rw [if_pos h, if_pos h]
  · rw [if_neg h, if_neg h]

theorem within_piece {queue : List Record} {offset room : Nat}
    (h : piece queue offset room ≠ []) :
    Within queue offset (piece queue offset room).length := by
  rw [piece_eq] at h ⊢
  cases hlocate : locate queue offset with
  | none => simp [hlocate] at h
  | some place =>
    obtain ⟨hstart, earlier, later, hqueue, hoffset⟩ := locate_eq_some hlocate
    have hlen := Record.length_eq place.1
    refine ⟨earlier, place.1, later, hqueue, by omega, ?_⟩
    simp only [Record.slice_eq, List.length_take, List.length_drop]
    omega

/-- A piece is where it was read in the data. -/
theorem piece_eq_take (queue : List Record) (offset room : Nat) :
    piece queue offset room =
      ((queue.flatMap Record.bytes).drop offset).take (piece queue offset room).length := by
  unfold piece
  split
  next => simp
  next stop h =>
    rw [List.length_take]
    exact List.take_eq_take_min

/-- The data from an offset on is a piece and the data behind it. -/
theorem piece_append_drop (queue : List Record) (offset room : Nat) :
    piece queue offset room ++
        (queue.flatMap Record.bytes).drop (offset + (piece queue offset room).length) =
      (queue.flatMap Record.bytes).drop offset := by
  conv_lhs => lhs; rw [piece_eq_take]
  rw [← List.drop_drop, List.take_append_drop]

/-! ### All pieces -/

theorem flatten_pieces {queue : List Record} {room : Nat} (hroom : 0 < room) (offset : Nat) :
    (pieces queue room offset).flatten = (queue.flatMap Record.bytes).drop offset := by
  fun_induction pieces queue room offset with
  | case1 offset h =>
    have hend : totalLength queue ≤ offset := (piece_eq_nil_iff.1 h).resolve_left (by omega)
    rw [List.drop_eq_nil_of_le (by rw [Record.length_flatMap_bytes]; exact hend)]
    rfl
  | case2 offset h ih => rw [List.flatten_cons, ih, piece_append_drop]

theorem length_of_mem_pieces {queue : List Record} {room offset : Nat} {data : Bytes}
    (h : data ∈ pieces queue room offset) : 1 ≤ data.length ∧ data.length ≤ room := by
  fun_induction pieces queue room offset with
  | case1 => cases h
  | case2 offset hpiece ih =>
    rcases List.mem_cons.1 h with rfl | h
    · exact ⟨List.length_pos_iff.2 hpiece, (length_piece_le queue offset room).1⟩
    · exact ih h

theorem within_pieces {queue : List Record} {room offset : Nat} {before after : List Bytes}
    {data : Bytes} (h : pieces queue room offset = before ++ data :: after) :
    Within queue (offset + before.flatten.length) data.length := by
  induction before generalizing offset with
  | nil =>
    rw [pieces] at h
    split at h
    next => cases h
    next hpiece =>
      obtain ⟨rfl, -⟩ := List.cons.inj h
      exact within_piece hpiece
  | cons first before ih =>
    rw [pieces] at h
    split at h
    next => cases h
    next hpiece =>
      obtain ⟨rfl, hrest⟩ := List.cons.inj h
      have hwithin := ih hrest
      rwa [Nat.add_assoc, ← List.length_append] at hwithin

/-! ### The number of pieces -/

theorem bytesFrom_cons (r : Record) (queue : List Record) (offset : Nat) :
    bytesFrom (r :: queue) offset =
      (r.length - offset) :: bytesFrom queue (offset - r.length) := by
  simp only [bytesFrom, List.length_cons, List.range_succ_eq_map, List.map_cons, List.map_map,
    List.take_succ_cons, List.take_zero, Record.totalLength_cons, Record.totalLength_nil,
    Function.comp_def, Nat.succ_eq_add_one, List.cons.injEq, List.map_inj_left]
  refine ⟨by omega, fun i _ => ?_⟩
  omega

theorem bytesFrom_zero (queue : List Record) : bytesFrom queue 0 = queue.map Record.length := by
  induction queue with
  | nil => rfl
  | cons r queue ih => rw [bytesFrom_cons, Nat.zero_sub, ih, List.map_cons, Nat.sub_zero]

/-- The pieces that records need from an offset on. -/
def piecesNeeded (queue : List Record) (room offset : Nat) : Nat :=
  ((bytesFrom queue offset).map (· ⌈/⌉ room)).sum

theorem piecesNeeded_cons (r : Record) (queue : List Record) (room offset : Nat) :
    piecesNeeded (r :: queue) room offset =
      (r.length - offset) ⌈/⌉ room + piecesNeeded queue room (offset - r.length) := by
  rw [piecesNeeded, bytesFrom_cons]
  rfl

/-- The first piece of some bytes takes what there is room for. -/
theorem ceilDiv_eq_succ {room count : Nat} (hroom : 0 < room) (hcount : 0 < count) :
    count ⌈/⌉ room = (count - min room count) ⌈/⌉ room + 1 := by
  rw [Nat.ceilDiv_eq_add_pred_div, Nat.ceilDiv_eq_add_pred_div,
    show count + room - 1 = count - 1 + room by omega, Nat.add_div_right _ hroom]
  by_cases h : count ≤ room
  · rw [Nat.min_eq_right h, Nat.div_eq_of_lt (by omega), Nat.div_eq_of_lt (by omega)]
  · rw [Nat.min_eq_left (by omega), show count - room + room - 1 = count - 1 by omega]

theorem piecesNeeded_of_le {queue : List Record} {offset : Nat} (room : Nat)
    (h : totalLength queue ≤ offset) : piecesNeeded queue room offset = 0 := by
  induction queue generalizing offset with
  | nil => rfl
  | cons r queue ih =>
    rw [Record.totalLength_cons] at h
    rw [piecesNeeded_cons, ih (by omega), Nat.sub_eq_zero_of_le (by omega), zero_ceilDiv]

/-- Inside the data one piece is needed, and then those from its end on. -/
theorem piecesNeeded_of_lt {queue : List Record} {room offset : Nat} (hroom : 0 < room)
    (h : offset < totalLength queue) :
    piecesNeeded queue room offset =
      piecesNeeded queue room (offset + (piece queue offset room).length) + 1 := by
  induction queue generalizing offset with
  | nil => simp at h
  | cons r queue ih =>
    rw [piecesNeeded_cons, piecesNeeded_cons, piece_cons]
    by_cases hin : offset < r.length
    · -- The piece ends in the first record or with it, so the others are needed from their start.
      have hcount : (r.slice offset room).length = min room (r.length - offset) := by
        rw [Record.slice_eq, List.length_take, List.length_drop, Record.length_eq]
      rw [if_pos hin, hcount, ceilDiv_eq_succ hroom (by omega : 0 < r.length - offset),
        show offset - r.length = 0 by omega,
        show offset + min room (r.length - offset) - r.length = 0 by omega, Nat.sub_add_eq]
      omega
    · rw [Record.totalLength_cons] at h
      have hrest := ih (show offset - r.length < totalLength queue by omega)
      rw [if_neg hin, hrest,
        Nat.sub_add_comm (by omega : r.length ≤ offset),
        Nat.sub_eq_zero_of_le (by omega : r.length ≤ offset),
        Nat.sub_eq_zero_of_le (Nat.le_add_right_of_le (by omega))]
      omega

theorem length_pieces {queue : List Record} {room : Nat} (hroom : 0 < room) (offset : Nat) :
    (pieces queue room offset).length = piecesNeeded queue room offset := by
  fun_induction pieces queue room offset with
  | case1 offset h =>
    rw [piecesNeeded_of_le room ((piece_eq_nil_iff.1 h).resolve_left (by omega))]
    rfl
  | case2 offset h ih =>
    have hlt : offset < totalLength queue := by
      by_contra hend
      exact h (piece_eq_nil_iff.2 (.inr (by omega)))
    rw [List.length_cons, ih, piecesNeeded_of_lt hroom hlt]

theorem length_pieces_le (queue : List Record) (room offset : Nat) :
    (pieces queue room offset).length ≤ totalLength queue - offset := by
  fun_induction pieces queue room offset with
  | case1 => exact Nat.zero_le _
  | case2 offset h ih =>
    have hinside := (length_piece_le queue offset room).2 h
    have hpos := List.length_pos_iff.2 h
    rw [List.length_cons]
    omega

end Log

end Scrollback
