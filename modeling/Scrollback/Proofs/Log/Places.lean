import Scrollback.Proofs.Assembler.Feeding
import Scrollback.Proofs.Log.Changes
import Scrollback.Proofs.Log.Pieces
/-!
# The place of each byte

Every byte of the retained data has one place: a record, and an offset in it. An offset finds the
place of its byte by what the records before it take up (`Log.locate_eq_some_iff`), so on a border
it finds the later record, and an empty record is the place of nothing. A look-up, a read and a copy
of everything agree on this for whatever log a run leaves (`Log.addresses_agree`).
-/

namespace Scrollback

namespace Log

open Record (totalLength)

variable {queue : List Record} {offset start : Nat} {r : Record}

theorem locate_append_cons (earlier later : List Record) (h : start < r.length) :
    locate (earlier ++ r :: later) (totalLength earlier + start) = some (r, start) := by
  induction earlier with
  | nil => rw [List.nil_append, locate, Record.totalLength_nil, Nat.zero_add, if_pos h]
  | cons first earlier ih =>
    rw [List.cons_append, locate, Record.totalLength_cons, Nat.add_assoc, if_neg (by omega),
      Nat.add_sub_cancel_left, ih]

/-- An offset finds the record that it falls into behind the ones before it, and no other. -/
theorem locate_eq_some_iff :
    locate queue offset = some (r, start) ↔
      start < r.length ∧
        ∃ rank, queue[rank]? = some r ∧ totalLength (queue.take rank) + start = offset := by
  constructor
  · intro h
    obtain ⟨hstart, earlier, later, rfl, rfl⟩ := locate_eq_some h
    exact ⟨hstart, earlier.length, by simp, by rw [List.take_left]⟩
  · rintro ⟨hstart, rank, hrank, rfl⟩
    obtain ⟨hlt, rfl⟩ := List.getElem?_eq_some_iff.1 hrank
    have hsplit : queue.take rank ++ queue[rank] :: queue.drop (rank + 1) = queue := by
      rw [List.getElem_cons_drop, List.take_append_drop]
    conv_lhs => lhs; rw [← hsplit]
    exact locate_append_cons _ _ hstart

theorem isSome_locate_iff : (locate queue offset).isSome ↔ offset < totalLength queue := by
  rw [Option.isSome_iff_ne_none, Ne, locate_eq_none_iff, Nat.not_le]

/-- The byte at an offset is the one at its place. -/
theorem getElem?_of_locate (h : locate queue offset = some (r, start)) :
    (queue.flatMap Record.bytes)[offset]? = r.bytes[start]? := by
  obtain ⟨hstart, earlier, later, rfl, rfl⟩ := locate_eq_some h
  rw [Record.length_eq] at hstart
  rw [List.flatMap_append, List.flatMap_cons, ← Record.length_flatMap_bytes,
    List.getElem?_append_right (Nat.le_add_right _ _), Nat.add_sub_cancel_left,
    List.getElem?_append_left hstart]

/-- A read goes to the end of the record at its place, if there is so much room. -/
theorem length_piece_of_locate (h : locate queue offset = some (r, start)) (room : Nat) :
    (piece queue offset room).length = min room (r.length - start) := by
  rw [piece_eq, h]
  simp only [Record.slice_eq, List.length_take, List.length_drop, Record.length_eq]

namespace Holds

variable {l : Log}

/-- A read lays a piece of the data over the start of the buffer. -/
theorem readInto_eq (h : l.Holds queue) (offset : Nat) (buffer : Bytes) :
    l.readInto offset buffer =
      .ok ((piece queue offset buffer.length).length,
        buffer.overlay (piece queue offset buffer.length)) := by
  have hroom := (length_piece_le queue offset buffer.length).1
  rw [readInto, h.readAt_eq, Checked.ok_bind, Bytes.fill, if_pos hroom]
  rfl

end Holds

/-- On every log that insertions and teardowns lead to, a look-up, a read and a copy of everything
agree. A look-up finds a place exactly inside the data; it is the place in the record of some rank
behind which the offset falls, and has the byte that the copy has at the offset. A read returns what
the copy has from there, up to the end of that record and as far as there is room; it leaves the
rest of the buffer as it was, and returns nothing only without room or behind the data. -/
theorem addresses_agree {capacity : Nat} {new l : Log} (hnew : create capacity = .ok (.ok new))
    {changes : List Change} {yields : List Yield} (hrun : new.applyAll changes = .ok (yields, l)) :
    ∃ (live : List Record) (data : Bytes),
      l.records = .ok live ∧ l.contents none = .ok (.ok data) ∧ data.length = l.liveBytes ∧
      ∀ offset, ∃ place, l.resolve offset = .ok place ∧
        (place.isSome ↔ offset < l.liveBytes) ∧
        (∀ r start, place = some (r, start) ↔
          start < r.length ∧
            ∃ rank, live[rank]? = some r ∧
              ((live.take rank).map Record.length).sum + start = offset) ∧
        (∀ r start, place = some (r, start) →
          ∃ b, data[offset]? = some b ∧ r.bytes[start]? = some b) ∧
        ∀ buffer : Bytes, ∃ count,
          l.readInto offset buffer =
            .ok (count, (data.drop offset).take count ++ buffer.drop count) ∧
          ((data.drop offset).take count).length = count ∧
          (∀ r start, place = some (r, start) → count = min buffer.length (r.length - start)) ∧
          (count = 0 ↔ buffer = [] ∨ l.liveBytes ≤ offset) := by
  obtain ⟨hpos, hblock, rfl⟩ := create_eq_ok hnew
  obtain ⟨hreturns, hfits⟩ := applyAll_vacant hpos hblock changes
  obtain ⟨yields', l', hrun', hreached⟩ := hreturns (hfits ⟨_, hrun⟩)
  cases hrun.symm.trans hrun'
  have hl := hreached.holds
  set live := (sinceTeardown changes).rtake capacity
  have hbytes : (live.flatMap Record.bytes).length = l.liveBytes := by
    rw [Record.length_flatMap_bytes, hl.liveBytes_eq]
  have hcontents : l.contents none = .ok (.ok (live.flatMap Record.bytes)) := by
    rw [hl.contents_eq, Allowance.refused?_none]
  refine ⟨live, _, hl.records_eq, hcontents, hbytes, fun offset => ?_⟩
  refine ⟨locate live offset, hl.resolve_eq offset, ?_, fun r start => locate_eq_some_iff, ?_, ?_⟩
  · rw [hl.liveBytes_eq]
    exact isSome_locate_iff
  · intro r start hplace
    have hstart := (locate_eq_some_iff.1 hplace).1
    rw [Record.length_eq] at hstart
    have hbyte := List.getElem?_eq_getElem hstart
    exact ⟨_, (getElem?_of_locate hplace).trans hbyte, hbyte⟩
  · intro buffer
    have hpiece := piece_eq_take live offset buffer.length
    refine ⟨_, ?_, congrArg List.length hpiece.symm, ?_, ?_⟩
    · rw [hl.readInto_eq, Bytes.overlay, ← hpiece]
    · intro r start hplace
      exact length_piece_of_locate hplace buffer.length
    · rw [List.length_eq_zero_iff, piece_eq_nil_iff, List.length_eq_zero_iff, hl.liveBytes_eq]

/-- Five records went into four slots, so the ring has turned; the first and the last of the four
are empty. The border of the other two is the start of the later one, and a read before it returns
one byte, though there is room for three. -/
theorem addresses_agree_emptyRecords :
    create 4 = .ok (.ok (vacant 4)) ∧
    ∃ yields l,
      (vacant 4).applyAll [.insert (.ofBytes [120]), .insert (.ofBytes []),
        .insert (.ofBytes [97, 98]), .insert (.ofBytes [99, 100]), .insert (.ofBytes [])] =
          .ok (yields, l) ∧
      l.contents none = .ok (.ok [97, 98, 99, 100]) ∧
      l.resolve 2 = .ok (some (.ofBytes [99, 100], 0)) ∧
      l.readInto 1 [0, 0, 0] = .ok (1, [98, 0, 0]) ∧
      l.readInto 4 [0] = .ok (0, [0]) := by
  have hnew : create 4 = .ok (.ok (vacant 4)) := rfl
  obtain ⟨yields, l, hrun, hlive, hdata⟩ : ∃ yields l,
      (vacant 4).applyAll [.insert (.ofBytes [120]), .insert (.ofBytes []),
        .insert (.ofBytes [97, 98]), .insert (.ofBytes [99, 100]), .insert (.ofBytes [])] =
          .ok (yields, l) ∧
      l.records = .ok [.ofBytes [], .ofBytes [97, 98], .ofBytes [99, 100], .ofBytes []] ∧
      l.contents none = .ok (.ok [97, 98, 99, 100]) :=
    ⟨_, _, rfl, rfl, rfl⟩
  obtain ⟨live, data, hlive', hdata', hbytes, hplaces⟩ := addresses_agree hnew hrun
  cases hlive.symm.trans hlive'
  cases hdata.symm.trans hdata'
  refine ⟨hnew, yields, l, hrun, hdata, ?_, ?_, ?_⟩
  · obtain ⟨place, hplace, -, hwhere, -⟩ := hplaces 2
    rw [hplace, (hwhere (.ofBytes [99, 100]) 0).2 ⟨by decide, 2, rfl, rfl⟩]
  · obtain ⟨place, -, -, hwhere, -, hreads⟩ := hplaces 1
    have hplace := (hwhere (.ofBytes [97, 98]) 1).2 ⟨by decide, 1, rfl, rfl⟩
    obtain ⟨count, hread, -, hcount, -⟩ := hreads [0, 0, 0]
    rw [hread, hcount _ _ hplace]
    rfl
  · obtain ⟨place, -, -, -, -, hreads⟩ := hplaces 4
    obtain ⟨count, hread, -, -, hnone⟩ := hreads [0]
    rw [hread, hnone.2 (.inr (by rw [← hbytes]; decide))]
    rfl

end Log

end Scrollback
