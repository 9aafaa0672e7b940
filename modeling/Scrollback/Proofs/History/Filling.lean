import Scrollback.Proofs.History.Journal
/-!
# Filling a buffer

A reader that wants a whole buffer full reads into what is left of it until nothing is left, or
until nothing comes back. `Cursor.FillsUp` is this loop, with no bound on the number of its reads;
it has one outcome at most (`Cursor.FillsUp.unique`).

Each read stops at the end of a record or of the buffer, so the reads are as many as the records
that the range of the buffer overlaps (`Log.length_filling`), and what they return is that range of
the data put end to end (`Log.flatten_filling`). For whatever history a run leaves, the loop comes
to an end with the range, or with all there is of it (`Cursor.fillsUp_of_run`).
-/

namespace Scrollback

theorem Bytes.overlay_append (buffer first next : Bytes) :
    first ++ overlay (buffer.drop first.length) next = overlay buffer (first ++ next) := by
  simp only [overlay, List.drop_drop, List.length_append, List.append_assoc]

/-- Pieces use up some room if the later ones use up what the first has left. -/
theorem Bytes.length_flatten_cons_eq {piece : Bytes} {pieces : List Bytes} {room : Nat}
    (hroom : (piece :: pieces).flatten.length ≤ room) :
    (piece :: pieces).flatten.length = room ↔ pieces.flatten.length = room - piece.length := by
  rw [List.flatten_cons, List.length_append] at hroom ⊢
  omega

namespace Log

open Record (totalLength)

/-- The number of records that have a byte in a range of their concatenation. -/
def overlapping (queue : List Record) (offset length : Nat) : Nat :=
  (List.range queue.length).countP fun i =>
    max offset (totalLength (queue.take i)) <
      min (offset + length) (totalLength (queue.take (i + 1)))

/-- What reads return from an offset on that use up some room: each has the room that is left. -/
def filling (queue : List Record) (room offset : Nat) : List Bytes :=
  if piece queue offset room = [] then []
  else piece queue offset room ::
    filling queue (room - (piece queue offset room).length)
      (offset + (piece queue offset room).length)
termination_by room
decreasing_by
  rename_i hpiece
  have hroom := (length_piece_le queue offset room).1
  have hpos := List.length_pos_iff.2 hpiece
  omega

variable {queue : List Record} {offset room : Nat}

theorem flatten_filling (queue : List Record) (room offset : Nat) :
    (filling queue room offset).flatten =
      ((queue.flatMap Record.bytes).drop offset).take room := by
  fun_induction filling queue room offset with
  | case1 room offset h =>
    obtain rfl | hend := piece_eq_nil_iff.1 h
    · rfl
    · rw [List.drop_eq_nil_of_le (by rwa [Record.length_flatMap_bytes]), List.take_nil]
      rfl
  | case2 room offset h ih =>
    have hroom := (length_piece_le queue offset room).1
    rw [List.flatten_cons, ih, ← List.drop_drop]
    conv_lhs => lhs; rw [piece_eq_take]
    rw [← List.take_add, Nat.add_sub_cancel' hroom]

theorem length_flatten_filling (queue : List Record) (room offset : Nat) :
    (filling queue room offset).flatten.length =
      min room ((queue.flatMap Record.bytes).length - offset) := by
  rw [flatten_filling, List.length_take, List.length_drop]

/-- With room for it, all data from the offset on is returned. -/
theorem flatten_filling_of_le (h : (queue.flatMap Record.bytes).length - offset ≤ room) :
    (filling queue room offset).flatten = (queue.flatMap Record.bytes).drop offset := by
  rw [flatten_filling, List.take_of_length_le (by rwa [List.length_drop])]

theorem length_of_mem_filling {data : Bytes} (h : data ∈ filling queue room offset) :
    1 ≤ data.length := by
  fun_induction filling queue room offset with
  | case1 => cases h
  | case2 room offset hpiece ih =>
    obtain rfl | h := List.mem_cons.1 h
    · exact List.length_pos_iff.2 hpiece
    · exact ih h

/-! ### The number of reads -/

theorem overlapping_cons (r : Record) (queue : List Record) (offset length : Nat) :
    overlapping (r :: queue) offset length =
      overlapping queue (offset - r.length) (length - (r.length - offset)) +
        if offset < min (offset + length) r.length then 1 else 0 := by
  rw [overlapping, List.length_cons, List.range_succ_eq_map, List.countP_cons, List.countP_map,
    overlapping]
  congr 1
  · apply List.countP_congr
    intro i _
    rw [Function.comp_apply, decide_eq_true_iff, decide_eq_true_iff, Nat.succ_eq_add_one,
      List.take_succ_cons, List.take_succ_cons, Record.totalLength_cons, Record.totalLength_cons]
    omega
  · simp

theorem overlapping_of_le (h : room = 0 ∨ totalLength queue ≤ offset) :
    overlapping queue offset room = 0 := by
  induction queue generalizing offset room with
  | nil => rfl
  | cons r queue ih =>
    rw [Record.totalLength_cons] at h
    rw [overlapping_cons, ih (by omega), if_neg (by omega)]

/-- Inside the data, the first read takes what the first of the records has of the range. -/
theorem overlapping_of_lt (hroom : 0 < room) (h : offset < totalLength queue) :
    overlapping queue offset room =
      overlapping queue (offset + (piece queue offset room).length)
        (room - (piece queue offset room).length) + 1 := by
  induction queue generalizing offset with
  | nil => simp at h
  | cons r queue ih =>
    rw [overlapping_cons, overlapping_cons, piece_cons]
    by_cases hin : offset < r.length
    · -- The piece ends with the record or with the room, so the record has no more of the range.
      have hcount : (r.slice offset room).length = min room (r.length - offset) := by
        rw [Record.slice_eq, List.length_take, List.length_drop, Record.length_eq]
      rw [if_pos hin, hcount, if_pos (by omega), if_neg (by omega),
        show offset - r.length = 0 by omega,
        show offset + min room (r.length - offset) - r.length = 0 by omega]
      congr 2
      omega
    · rw [Record.totalLength_cons] at h
      have hrest := ih (show offset - r.length < totalLength queue by omega)
      rw [if_neg hin]
      set count := (piece queue (offset - r.length) room).length
      rw [if_neg (by omega), if_neg (by omega), show r.length - offset = 0 by omega,
        show r.length - (offset + count) = 0 by omega, Nat.sub_zero, Nat.sub_zero, hrest,
        Nat.sub_add_comm (by omega)]

theorem length_filling (queue : List Record) (room offset : Nat) :
    (filling queue room offset).length = overlapping queue offset room := by
  fun_induction filling queue room offset with
  | case1 room offset h => rw [overlapping_of_le (piece_eq_nil_iff.1 h), List.length_nil]
  | case2 room offset h ih =>
    obtain ⟨hroom, hend⟩ := not_or.1 (mt piece_eq_nil_iff.2 h)
    have hnext : overlapping queue offset room = _ := overlapping_of_lt (by omega) (by omega)
    rw [List.length_cons, ih, hnext]

end Log

namespace Transfer

/-- The reads with the room that is left that return some pieces, and then nothing if there is still
room. -/
def filled (room : Nat) : List Bytes → List Transfer
  | [] => if room = 0 then [] else [⟨room, 0⟩]
  | piece :: pieces => ⟨room, piece.length⟩ :: filled (room - piece.length) pieces

variable {room : Nat} {pieces : List Bytes}

theorem length_filled (hroom : pieces.flatten.length ≤ room) :
    (filled room pieces).length =
      pieces.length + if pieces.flatten.length = room then 0 else 1 := by
  induction pieces generalizing room with
  | nil =>
    by_cases h : room = 0
    · simp [filled, h]
    · simp [filled, h, Ne.symm h]
  | cons piece pieces ih =>
    have hrest := Bytes.length_flatten_cons_eq hroom
    rw [List.flatten_cons, List.length_append] at hroom
    rw [filled, List.length_cons, ih (by omega), List.length_cons, if_congr hrest rfl rfl]
    omega

theorem sum_count_filled (room : Nat) (pieces : List Bytes) :
    ((filled room pieces).map count).sum = pieces.flatten.length := by
  induction pieces generalizing room with
  | nil => by_cases h : room = 0 <;> simp [filled, h]
  | cons piece pieces ih => simp [filled, ih]

/-- Only a read that ends the loop early is one at the end of the data. -/
theorem countP_isAtEnd_filled (hroom : pieces.flatten.length ≤ room)
    (hpieces : ∀ piece ∈ pieces, 1 ≤ piece.length) :
    (filled room pieces).countP isAtEnd = if pieces.flatten.length = room then 0 else 1 := by
  induction pieces generalizing room with
  | nil =>
    by_cases h : room = 0
    · simp [filled, h]
    · simp [filled, isAtEnd, h, Ne.symm h]
  | cons piece pieces ih =>
    rw [List.forall_mem_cons] at hpieces
    have hrest := Bytes.length_flatten_cons_eq hroom
    rw [List.flatten_cons, List.length_append] at hroom
    rw [filled, List.countP_cons_of_neg (by simp [isAtEnd, Nat.ne_of_gt hpieces.1]),
      ih (by omega) hpieces.2, if_congr hrest rfl rfl]

end Transfer

namespace History

theorem counting_filled_of_eq (h : History) {room : Nat} {pieces : List Bytes}
    (hfull : pieces.flatten.length = room) (hpieces : ∀ piece ∈ pieces, 1 ≤ piece.length) :
    h.counting (Transfer.filled room pieces) =
      { h with metrics := { h.metrics with
        reads := h.metrics.reads + pieces.length
        bytesRead := h.metrics.bytesRead + room } } := by
  rw [counting, Transfer.length_filled hfull.le, Transfer.sum_count_filled,
    Transfer.countP_isAtEnd_filled hfull.le hpieces, if_pos hfull, hfull]
  rfl

theorem counting_filled_of_lt (h : History) {room : Nat} {pieces : List Bytes}
    (hshort : pieces.flatten.length < room) (hpieces : ∀ piece ∈ pieces, 1 ≤ piece.length) :
    h.counting (Transfer.filled room pieces) =
      { h with metrics := { h.metrics with
        reads := h.metrics.reads + (pieces.length + 1)
        bytesRead := h.metrics.bytesRead + pieces.flatten.length
        readsAtEnd := h.metrics.readsAtEnd + 1 } } := by
  rw [counting, Transfer.length_filled hshort.le, Transfer.sum_count_filled,
    Transfer.countP_isAtEnd_filled hshort.le hpieces, if_neg hshort.ne]

end History

namespace Cursor

/-- Reads go on into what is left of a buffer, from a cursor on, until nothing is left of it, or
until one returns nothing or fails: the result, the buffer, the cursor and the history after it. -/
inductive FillsUp :
    Bytes → Cursor → History → Except CursorError Unit × Bytes × Cursor × History → Prop where
  | full {c : Cursor} {h : History} : FillsUp [] c h (.ok (), [], c, h)
  | short {buffer filled : Bytes} {c last : Cursor} {h next : History} (hroom : buffer ≠ [])
      (hread : c.readInto h buffer = .ok (.ok 0, filled, last, next)) :
      FillsUp buffer c h (.error .unexpectedEnd, filled, last, next)
  | failed {buffer filled : Bytes} {c last : Cursor} {h next : History} {e : CursorError}
      (hroom : buffer ≠ []) (hread : c.readInto h buffer = .ok (.error e, filled, last, next)) :
      FillsUp buffer c h (.error e, filled, last, next)
  | more {buffer filled rest : Bytes} {c moved last : Cursor} {h mid next : History} {count : Nat}
      {result : Except CursorError Unit} (hroom : buffer ≠ [])
      (hread : c.readInto h buffer = .ok (.ok count, filled, moved, mid)) (hcount : count ≠ 0)
      (hrest : FillsUp (filled.drop count) moved mid (result, rest, last, next)) :
      FillsUp buffer c h (result, filled.take count ++ rest, last, next)

/-- The loop ends in one way at most. -/
theorem FillsUp.unique {buffer : Bytes} {c : Cursor} {h : History}
    {out out' : Except CursorError Unit × Bytes × Cursor × History}
    (hfill : FillsUp buffer c h out) (hfill' : FillsUp buffer c h out') : out = out' := by
  induction hfill generalizing out' with
  | full =>
    cases hfill' with
    | full => rfl
    | short hroom | failed hroom | more hroom => exact absurd rfl hroom
  | short hroom hread =>
    cases hfill' with
    | full => exact absurd rfl hroom
    | short _ hread' =>
      cases hread.symm.trans hread'
      rfl
    | failed _ hread' => cases hread.symm.trans hread'
    | more _ hread' hcount =>
      cases hread.symm.trans hread'
      exact absurd rfl hcount
  | failed hroom hread =>
    cases hfill' with
    | full => exact absurd rfl hroom
    | short _ hread' | more _ hread' => cases hread.symm.trans hread'
    | failed _ hread' =>
      cases hread.symm.trans hread'
      rfl
  | more hroom hread hcount _ ih =>
    cases hfill' with
    | full => exact absurd rfl hroom
    | short _ hread' =>
      cases hread.symm.trans hread'
      exact absurd rfl hcount
    | failed _ hread' => cases hread.symm.trans hread'
    | more _ hread' _ hrest' =>
      cases hread.symm.trans hread'
      cases ih hrest'
      rfl

variable {h : History}

/-- How a loop ends that has read some pieces into some room. -/
def fillResult (room : Nat) (pieces : List Bytes) : Except CursorError Unit :=
  if pieces.flatten.length = room then .ok () else .error .unexpectedEnd

theorem fillResult_eq_ok_iff {room : Nat} {pieces : List Bytes} :
    fillResult room pieces = .ok () ↔ pieces.flatten.length = room := by
  by_cases h : pieces.flatten.length = room
  · exact iff_of_true (if_pos h) h
  · refine iff_of_false (fun hresult => ?_) h
    rw [fillResult, if_neg h] at hresult
    cases hresult

theorem fillResult_cons {room : Nat} {piece : Bytes} (hroom : piece.length ≤ room)
    (pieces : List Bytes) :
    fillResult (room - piece.length) pieces = fillResult room (piece :: pieces) := by
  have hrest : pieces.flatten.length = room - piece.length ↔
      (piece :: pieces).flatten.length = room := by
    rw [List.flatten_cons, List.length_append]
    omega
  rw [fillResult, fillResult, if_congr hrest rfl rfl]

theorem fillsUp_filling (hs : h.Sound) (hlock : h.poisoned = false) {position : Nat}
    (hword : position < wordCount) (buffer : Bytes) :
    let pieces := Log.filling h.log.toList buffer.length position
    FillsUp buffer ⟨position⟩ h
      (fillResult buffer.length pieces, buffer.overlay pieces.flatten,
        ⟨position + pieces.flatten.length⟩, h.counting (Transfer.filled buffer.length pieces)) := by
  -- The history and the buffer change from read to read, but not the data.
  generalize hqueue : h.log.toList = queue
  generalize hlength : buffer.length = room
  fun_induction Log.filling queue room position generalizing h buffer with
  | case1 room position hpiece =>
    subst hqueue hlength
    by_cases hroom : buffer = []
    · subst hroom
      exact .full
    · have hread := readInto_eq hs hlock hword buffer
      rw [hpiece] at hread
      have hempty : buffer.length ≠ 0 := mt List.length_eq_zero_iff.1 hroom
      have hshort := FillsUp.short hroom hread
      simpa [fillResult, Transfer.filled, hempty, Ne.symm hempty] using hshort
  | case2 room position hpiece ih =>
    subst hqueue hlength
    obtain ⟨hcount, hinside⟩ := Log.length_piece_le h.log.toList position buffer.length
    have hread := readInto_eq hs hlock hword buffer
    have hend := hinside hpiece
    have hfits := hs.fits
    have hpos := List.length_pos_iff.2 hpiece
    set piece := Log.piece h.log.toList position buffer.length
    have hroom : buffer ≠ [] := List.length_pos_iff.1 (by omega)
    have hleft : (buffer.overlay piece).drop piece.length = buffer.drop piece.length := by
      rw [Bytes.overlay, List.drop_left]
    have hkept : (buffer.overlay piece).take piece.length = piece := by
      rw [Bytes.overlay, List.take_left]
    have hrest := ih (h := h.counting [⟨buffer.length, piece.length⟩]) (hs.counting _) hlock
      (by omega) (buffer.drop piece.length) rfl List.length_drop
    rw [← hleft] at hrest
    have hmore := FillsUp.more hroom hread (by omega) hrest
    rw [hkept, hleft, Bytes.overlay_append, History.counting_counting] at hmore
    rw [fillResult_cons hcount, Nat.add_assoc, ← List.length_append] at hmore
    exact hmore

/-- A loop that has room left goes on with it behind what a read returned. -/
theorem fillFrom_more {c : Cursor} {mid : History} {room position : Nat} {data : Bytes}
    (hread : h.read c.position room = .ok (.ok data, position, mid)) (hdata : data ≠ [])
    (hroom : data.length ≤ room) (before : List Bytes) (fuel : Nat) :
    c.fillFrom h room before (fuel + 1) =
      fillFrom ⟨position⟩ mid (room - data.length) (data :: before) fuel := by
  have hpos := List.length_pos_iff.2 hdata
  obtain ⟨b, data, rfl⟩ := List.exists_cons_of_ne_nil hdata
  rw [fillFrom, if_neg (by omega), hread]
  simp only [Checked.ok_bind, Word.sub_eq_ok hroom]

/-- With a read for each byte of room, a loop returns the range or all there is of it. -/
theorem fillFrom_eq (hs : h.Sound) (hlock : h.poisoned = false) {position : Nat}
    (hword : position < wordCount) {room : Nat} (before : List Bytes) {fuel : Nat}
    (hfuel : room ≤ fuel) :
    let pieces := Log.filling h.log.toList room position
    fillFrom ⟨position⟩ h room before fuel =
      .ok (fillResult room pieces, before.reverse ++ pieces, ⟨position + pieces.flatten.length⟩,
        h.counting (Transfer.filled room pieces)) := by
  generalize hqueue : h.log.toList = queue
  fun_induction Log.filling queue room position generalizing h before fuel with
  | case1 room position hpiece =>
    subst hqueue
    obtain rfl | hpos := Nat.eq_zero_or_pos room
    · cases fuel <;> simp [fillFrom, fillResult, Transfer.filled, History.counting]
    · obtain ⟨fuel, rfl⟩ : ∃ less, fuel = less + 1 := ⟨fuel - 1, by omega⟩
      have hread := History.read_eq hs hlock position room
      rw [if_pos hword, hpiece] at hread
      have hne : room ≠ 0 := Nat.ne_of_gt hpos
      rw [fillFrom, if_neg hne, hread]
      simp [fillResult, Transfer.filled, hne, Ne.symm hne]
  | case2 room position hpiece ih =>
    subst hqueue
    obtain ⟨hcount, hinside⟩ := Log.length_piece_le h.log.toList position room
    have hread := History.read_eq hs hlock position room
    rw [if_pos hword] at hread
    have hend := hinside hpiece
    have hfits := hs.fits
    have hpos := List.length_pos_iff.2 hpiece
    obtain ⟨fuel, rfl⟩ : ∃ less, fuel = less + 1 := ⟨fuel - 1, by omega⟩
    rw [fillFrom_more hread hpiece hcount,
      ih (hs.counting _) hlock (by omega) _ (by omega) rfl, fillResult_cons hcount]
    simp [Transfer.filled, Nat.add_assoc]

/-- To fill a buffer is to go on with the loop. -/
theorem readExact_eq (hs : h.Sound) (hlock : h.poisoned = false) {position : Nat}
    (hword : position < wordCount) (buffer : Bytes) :
    let pieces := Log.filling h.log.toList buffer.length position
    readExact ⟨position⟩ h buffer =
      .ok (fillResult buffer.length pieces, buffer.overlay pieces.flatten,
        ⟨position + pieces.flatten.length⟩,
        h.counting (Transfer.filled buffer.length pieces)) := by
  have hroom : (Log.filling h.log.toList buffer.length position).flatten.length ≤
      buffer.length := by
    rw [Log.flatten_filling, List.length_take]
    exact Nat.min_le_left ..
  simp only [readExact, fillFrom_eq hs hlock hword [] (Nat.le_refl buffer.length),
    Checked.ok_bind, List.reverse_nil, List.nil_append, Bytes.fill, if_pos hroom,
    Checked.pure_eq_ok]

/-- Whatever was done to a history, as long as its lock is alive: to read into what is left of a
buffer until nothing is left comes to an end, in one way, from any position on. The buffer is then
full of the data there if it reaches no further than the data, or has no bytes. Else the data has
ended, and that is the kind of the error: all of the data from the position on is in the buffer, the
old bytes are behind it, and the cursor stands at the end, or where it stood behind it. One read is
counted for each live record that has a byte in the range of the buffer, and one more if the data
has ended. -/
theorem fillsUp_of_run {s : Settings} {h : History} {calls : List Call} {replies : List Reply}
    {d : Desk} (hnew : History.create s = .ok (.ok h))
    (hrun : (Desk.ofHistory h).performAll calls = .ok (replies, d))
    (halive : d.history.poisoned = false) (position : UInt64) (buffer : Bytes) :
    ∃ (live : List Record) (data filled : Bytes) (result : Except CursorError Unit)
        (last : Cursor) (after : History),
      d.history.log.records = .ok live ∧
      d.history.contents none = .ok (.ok data) ∧
      data = live.flatMap Record.bytes ∧
      FillsUp buffer ⟨position.toNat⟩ d.history (result, filled, last, after) ∧
      (∀ out, FillsUp buffer ⟨position.toNat⟩ d.history out →
        out = (result, filled, last, after)) ∧
      readExact ⟨position.toNat⟩ d.history buffer = .ok (result, filled, last, after) ∧
      (result = .ok () ↔ buffer.length = 0 ∨ position.toNat + buffer.length ≤ data.length) ∧
      (result = .ok () →
        filled = (data.drop position.toNat).take buffer.length ∧
        last = ⟨position.toNat + buffer.length⟩ ∧
        after = { d.history with metrics := { d.history.metrics with
          reads := d.history.metrics.reads +
            Log.overlapping live position.toNat buffer.length
          bytesRead := d.history.metrics.bytesRead + buffer.length } }) ∧
      (result ≠ .ok () →
        result = .error .unexpectedEnd ∧
        CursorError.unexpectedEnd.kind = .unexpectedEof ∧
        filled = data.drop position.toNat ++ buffer.drop (data.length - position.toNat) ∧
        last = ⟨max position.toNat data.length⟩ ∧
        after = { d.history with metrics := { d.history.metrics with
          reads := d.history.metrics.reads +
            (Log.overlapping live position.toNat buffer.length + 1)
          bytesRead := d.history.metrics.bytesRead + (data.length - position.toNat)
          readsAtEnd := d.history.metrics.readsAtEnd + 1 } }) ∧
      (buffer.length = 0 → after = d.history) := by
  obtain ⟨entries, hruns, -, -⟩ := Desk.performAll_eq_ok_iff.1 hrun
  have hs := hruns.sound (History.create_sound hnew).1
  set live := d.history.log.toList
  set pieces := Log.filling live buffer.length position.toNat
  have hword : position.toNat < wordCount := position.toNat_lt
  have hlength : pieces.flatten.length =
      min buffer.length ((live.flatMap Record.bytes).length - position.toNat) :=
    Log.length_flatten_filling ..
  have hreads : pieces.length = Log.overlapping live position.toNat buffer.length :=
    Log.length_filling ..
  have hpieces : ∀ piece ∈ pieces, 1 ≤ piece.length :=
    fun piece hmem => Log.length_of_mem_filling hmem
  have hfill := fillsUp_filling hs halive hword buffer
  have hexact := readExact_eq hs halive hword buffer
  have hfull : fillResult buffer.length pieces = .ok () ↔
      pieces.flatten.length = buffer.length :=
    fillResult_eq_ok_iff
  refine ⟨live, live.flatMap Record.bytes, _, _, _, _, hs.holds.records_eq, ?_, rfl, hfill,
    fun out hout => hout.unique hfill, hexact, ?_, ?_, ?_, ?_⟩
  · rw [History.contents, History.inspect_of_alive halive, hs.holds.contents_eq,
      Allowance.refused?_none]
  · rw [hfull]
    omega
  · intro hresult
    have hsize := hfull.1 hresult
    refine ⟨?_, by rw [hsize], ?_⟩
    · rw [Bytes.overlay, hsize, List.drop_length, List.append_nil]
      exact Log.flatten_filling ..
    · rw [← hreads]
      exact d.history.counting_filled_of_eq hsize hpieces
  · intro hresult
    have hsize := mt hfull.2 hresult
    have hall : pieces.flatten = (live.flatMap Record.bytes).drop position.toNat :=
      Log.flatten_filling_of_le (by omega)
    have hcount : pieces.flatten.length =
        (live.flatMap Record.bytes).length - position.toNat := by
      omega
    have hshort : pieces.flatten.length < buffer.length := by omega
    refine ⟨if_neg hsize, rfl, ?_, ?_, ?_⟩
    · rw [Bytes.overlay, hcount, hall]
    · rw [hcount]
      congr 1
      omega
    · rw [← hreads, ← hcount]
      exact d.history.counting_filled_of_lt hshort hpieces
  · intro hempty
    have hnil : pieces = [] := by
      rw [← List.length_eq_zero_iff, hreads, Log.overlapping_of_le (.inl hempty)]
    have hsame : d.history.counting (Transfer.filled buffer.length pieces) = d.history := by
      rw [hnil, hempty]
      rfl
    exact hsame

/-- The first of three lines has been evicted. A buffer of five bytes takes some of each line that
is left; one of four reaches behind them, and keeps its last two bytes. -/
theorem fillsUp_of_run_rotated :
    History.create ⟨2, 10, .split⟩ = .ok (.ok (.ofLog ⟨2, 10, .split⟩ (Log.vacant 2))) ∧
    ∃ d full short, (Desk.ofHistory (.ofLog ⟨2, 10, .split⟩ (Log.vacant 2))).performAll
        [.write none [97, 10, 98, 99, 100, 101, 10], .write none [102, 10]] =
      .ok ([.written (.ok ⟨7, 2, 0⟩), .written (.ok ⟨2, 1, 1⟩)], d) ∧
      d.history.poisoned = false ∧
      FillsUp [0, 0, 0, 0, 0] ⟨1⟩ d.history
        (.ok (), [99, 100, 101, 10, 102], ⟨6⟩, full) ∧
      full.metrics.reads = 2 ∧ full.metrics.readsAtEnd = 0 ∧
      FillsUp [7, 7, 7, 7] ⟨5⟩ d.history
        (.error .unexpectedEnd, [102, 10, 7, 7], ⟨7⟩, short) ∧
      CursorError.unexpectedEnd.kind = .unexpectedEof ∧
      short.metrics.reads = 2 ∧ short.metrics.readsAtEnd = 1 := by
  have hnew : History.create ⟨2, 10, .split⟩ =
      .ok (.ok (.ofLog ⟨2, 10, .split⟩ (Log.vacant 2))) := rfl
  obtain ⟨d, hrun, halive, full, short, hfull, hfullCounted, hshort, hshortCounted⟩ : ∃ d,
      (Desk.ofHistory (.ofLog ⟨2, 10, .split⟩ (Log.vacant 2))).performAll
          [.write none [97, 10, 98, 99, 100, 101, 10], .write none [102, 10]] =
        .ok ([.written (.ok ⟨7, 2, 0⟩), .written (.ok ⟨2, 1, 1⟩)], d) ∧
      d.history.poisoned = false ∧
      ∃ full short,
        readExact ⟨1⟩ d.history [0, 0, 0, 0, 0] =
          .ok (.ok (), [99, 100, 101, 10, 102], ⟨6⟩, full) ∧
        (full.metrics.reads = 2 ∧ full.metrics.readsAtEnd = 0) ∧
        readExact ⟨5⟩ d.history [7, 7, 7, 7] =
          .ok (.error .unexpectedEnd, [102, 10, 7, 7], ⟨7⟩, short) ∧
        short.metrics.reads = 2 ∧ short.metrics.readsAtEnd = 1 :=
    ⟨_, rfl, rfl, _, _, rfl, ⟨rfl, rfl⟩, rfl, rfl, rfl⟩
  obtain ⟨_, _, _, _, _, _, -, -, -, hfills, -, hexact, -⟩ :=
    fillsUp_of_run hnew hrun halive 1 [0, 0, 0, 0, 0]
  cases hexact.symm.trans hfull
  obtain ⟨_, _, _, _, _, _, -, -, -, hends, -, hexact, -, -, hfails, -⟩ :=
    fillsUp_of_run hnew hrun halive 5 [7, 7, 7, 7]
  cases hexact.symm.trans hshort
  obtain ⟨-, hkind, -⟩ := hfails (by decide)
  exact ⟨hnew, d, full, short, hrun, halive, hfills, hfullCounted.1, hfullCounted.2, hends, hkind,
    hshortCounted⟩

end Cursor

end Scrollback
