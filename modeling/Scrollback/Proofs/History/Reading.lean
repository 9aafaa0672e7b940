import Scrollback.Cursor
import Scrollback.Proofs.Log.Pieces
/-!
# Reading a history

A read returns a piece of the retained data and changes nothing but the counters of reads
(`History.read_eq`). `History.counting` is the history after some reads.

A reader that wants all data reads until nothing comes back. `Cursor.ReadsOut` says that these reads
come to an end, and what they return; no number of reads is given to it beforehand.
`Cursor.drain`, which has one, finds the same (`Cursor.drain_eq`).
-/

namespace Scrollback

/-- One read: the room there was, and the bytes that came back. -/
structure Transfer where
  room : Nat
  count : Nat
  deriving DecidableEq, Repr

namespace Transfer

/-- Whether no more data was found, though there was room for some. -/
def isAtEnd (t : Transfer) : Bool :=
  t.count == 0 && t.room != 0

/-- The reads with one room that return some pieces and then nothing. -/
def drained (room : Nat) (pieces : List Bytes) : List Transfer :=
  pieces.map (fun piece => ⟨room, piece.length⟩) ++ [⟨room, 0⟩]

@[simp] theorem drained_nil (room : Nat) : drained room [] = [⟨room, 0⟩] := rfl

@[simp] theorem drained_cons (room : Nat) (piece : Bytes) (pieces : List Bytes) :
    drained room (piece :: pieces) = ⟨room, piece.length⟩ :: drained room pieces := rfl

end Transfer

theorem Word.eq_of_add_eq_ok {a b c : Nat} (h : Word.add a b = .ok c) : c = a + b := by
  unfold Word.add at h
  split at h
  · exact (Except.ok.inj h).symm
  · cases h

namespace History

/-- A history after some reads. -/
def counting (h : History) (transfers : List Transfer) : History :=
  { h with metrics := { h.metrics with
      reads := h.metrics.reads + transfers.length
      bytesRead := h.metrics.bytesRead + (transfers.map Transfer.count).sum
      readsAtEnd := h.metrics.readsAtEnd + transfers.countP Transfer.isAtEnd } }

@[simp] theorem counting_log (h : History) (transfers : List Transfer) :
    (h.counting transfers).log = h.log := rfl

@[simp] theorem counting_counting (h : History) (first next : List Transfer) :
    (h.counting first).counting next = h.counting (first ++ next) := by
  simp [counting, Nat.add_assoc]

theorem counting_singleton (h : History) (room count : Nat) :
    { h with metrics := countRead h.metrics room count } = h.counting [⟨room, count⟩] := by
  by_cases hcount : count = 0 <;> by_cases hroom : room = 0 <;>
    simp [counting, countRead, Transfer.isAtEnd, hcount, hroom]

/-- A call under the lock finds it dead, or is made. -/
theorem change_eq_ok {α : Type} {h next : History} {result : Except HistoryError α}
    {act : History → Checked (Except HistoryError α × History)}
    (hchange : h.change act = .ok (result, next)) :
    (h.poisoned = true ∧ result = .error .lockPoisoned ∧ next = h) ∨
      (h.poisoned = false ∧ act h = .ok (result, next)) := by
  rw [change] at hchange
  split at hchange
  next hlock =>
    cases hchange
    exact .inl ⟨hlock, rfl, rfl⟩
  next hlock => exact .inr ⟨Bool.eq_false_of_not_eq_true hlock, hchange⟩

theorem read_eq_ok {h next : History} {position room after : Nat}
    {result : Except HistoryError Bytes}
    (hread : h.read position room = .ok (result, after, next)) :
    (h.poisoned = true ∧ result = .error .lockPoisoned ∧ after = position ∧ next = h) ∨
      (h.poisoned = false ∧ ∃ data, result = .ok data ∧ after = position + data.length ∧
        next = h.counting [⟨room, data.length⟩]) := by
  rw [read] at hread
  obtain ⟨⟨found, mid⟩, hfound, hout⟩ := Checked.bind_eq_ok.1 hread
  obtain ⟨hlock, rfl, rfl⟩ | ⟨hlock, hmade⟩ := change_eq_ok hfound
  · cases hout
    exact .inl ⟨hlock, rfl, rfl, rfl⟩
  · obtain ⟨data, -, hdata⟩ := Checked.bind_eq_ok.1 hmade
    rw [counting_singleton] at hdata
    cases hdata
    obtain ⟨moved, hmoved, hlast⟩ := Checked.bind_eq_ok.1 hout
    cases hlast
    exact .inr ⟨hlock, data, rfl, Word.eq_of_add_eq_ok hmoved, rfl⟩

theorem read_of_dead {h : History} (hdead : h.poisoned = true) (position room : Nat) :
    h.read position room = .ok (.error .lockPoisoned, position, h) := by
  rw [read, readAt, change_of_dead hdead]
  rfl

theorem readInto_of_dead {h : History} (hdead : h.poisoned = true) (position : Nat)
    (buffer : Bytes) :
    h.readInto position buffer = .ok (.error .lockPoisoned, buffer, position, h) := by
  rw [readInto, read_of_dead hdead]
  rfl

/-- The ring is laid out for the records in it, and their bytes are counted by a machine word. -/
structure Sound (h : History) : Prop where
  holds : h.log.Holds h.log.toList
  fits : Record.totalLength h.log.toList < wordCount

variable {h : History}

theorem Sound.counting (hs : h.Sound) (transfers : List Transfer) :
    (h.counting transfers).Sound :=
  ⟨hs.holds, hs.fits⟩

/-- A read returns a piece of the data and moves the position to its end. It stops only at a
position that is no machine word. -/
theorem read_eq (hs : h.Sound) (hlock : h.poisoned = false) (position room : Nat) :
    h.read position room =
      if position < wordCount then
        .ok (.ok (Log.piece h.log.toList position room),
          position + (Log.piece h.log.toList position room).length,
          h.counting [⟨room, (Log.piece h.log.toList position room).length⟩])
      else .error .overflow := by
  have hinside := (Log.length_piece_le h.log.toList position room).2
  have hfits := hs.fits
  have hend : position + (Log.piece h.log.toList position room).length < wordCount ↔
      position < wordCount := by
    by_cases hnil : Log.piece h.log.toList position room = []
    · simp [hnil]
    · have := hinside hnil
      omega
  rw [read, readAt, change_of_alive hlock, hs.holds.readAt_eq]
  simp only [Checked.ok_bind, Checked.pure_eq_ok, counting_singleton, Word.add, hend]
  split <;> rfl

theorem readInto_eq (hs : h.Sound) (hlock : h.poisoned = false) (position : Nat)
    (buffer : Bytes) :
    h.readInto position buffer =
      if position < wordCount then
        .ok (.ok (Log.piece h.log.toList position buffer.length).length,
          buffer.overlay (Log.piece h.log.toList position buffer.length),
          position + (Log.piece h.log.toList position buffer.length).length,
          h.counting [⟨buffer.length, (Log.piece h.log.toList position buffer.length).length⟩])
      else .error .overflow := by
  have hroom := (Log.length_piece_le h.log.toList position buffer.length).1
  rw [readInto, read_eq hs hlock]
  split
  · simp only [Checked.ok_bind, Checked.pure_eq_ok, Bytes.fill, if_pos hroom]
  · rfl

/-- A copy of all retained data that was granted its memory is the records put end to end. -/
theorem contents_eq_ok (hs : h.Sound) {allowance : Allowance} {data : Bytes}
    (hdata : h.contents allowance = .ok (.ok data)) :
    data = h.log.toList.flatMap Record.bytes := by
  rw [contents, inspect, hs.holds.contents_eq] at hdata
  split at hdata
  · cases hdata
  · split at hdata <;> cases hdata
    rfl

theorem readInto_eq_ok (hs : h.Sound) {next : History} {position after : Nat}
    {buffer filled : Bytes} {result : Except HistoryError Nat}
    (hread : h.readInto position buffer = .ok (result, filled, after, next)) :
    (result = .error .lockPoisoned ∧ next = h) ∨
      ∃ data, data = Log.piece h.log.toList position buffer.length ∧ result = .ok data.length ∧
        filled = buffer.overlay data ∧ after = position + data.length ∧
        next = h.counting [⟨buffer.length, data.length⟩] := by
  obtain hlock | hlock := Bool.eq_false_or_eq_true h.poisoned
  · rw [readInto_of_dead hlock] at hread
    cases hread
    exact .inl ⟨rfl, rfl⟩
  · rw [readInto_eq hs hlock] at hread
    split at hread
    · cases hread
      exact .inr ⟨_, rfl, rfl, rfl, rfl, rfl⟩
    · cases hread

end History

namespace Cursor

/-- Reads into one buffer, from a cursor on, come to one that returns nothing: the pieces that the
reads before it left in the buffer, the cursor and the history after it. -/
inductive ReadsOut : Bytes → Cursor → History → List Bytes → Cursor → History → Prop where
  | stop {buffer filled : Bytes} {c last : Cursor} {h next : History}
      (hread : c.readInto h buffer = .ok (.ok 0, filled, last, next)) :
      ReadsOut buffer c h [] last next
  | more {buffer filled : Bytes} {c moved last : Cursor} {h mid next : History} {count : Nat}
      {pieces : List Bytes} (hread : c.readInto h buffer = .ok (.ok count, filled, moved, mid))
      (hcount : count ≠ 0) (hrest : ReadsOut filled moved mid pieces last next) :
      ReadsOut buffer c h (filled.take count :: pieces) last next

variable {h : History}

theorem readInto_eq (hs : h.Sound) (hlock : h.poisoned = false) {position : Nat}
    (hword : position < wordCount) (buffer : Bytes) :
    readInto ⟨position⟩ h buffer =
      .ok (.ok (Log.piece h.log.toList position buffer.length).length,
        buffer.overlay (Log.piece h.log.toList position buffer.length),
        ⟨position + (Log.piece h.log.toList position buffer.length).length⟩,
        h.counting [⟨buffer.length, (Log.piece h.log.toList position buffer.length).length⟩]) := by
  rw [readInto, History.readInto_eq hs hlock, if_pos hword]
  rfl

theorem readsOut_pieces (hs : h.Sound) (hlock : h.poisoned = false) {position : Nat}
    (hword : position < wordCount) (buffer : Bytes) :
    ReadsOut buffer ⟨position⟩ h (Log.pieces h.log.toList buffer.length position)
      ⟨position + (Log.pieces h.log.toList buffer.length position).flatten.length⟩
      (h.counting (Transfer.drained buffer.length
        (Log.pieces h.log.toList buffer.length position))) := by
  -- The history and the buffer change from read to read, but not the data nor the room.
  generalize hqueue : h.log.toList = queue
  generalize hroom : buffer.length = room
  fun_induction Log.pieces queue room position generalizing h buffer with
  | case1 position hpiece =>
    subst hqueue hroom
    have hread := readInto_eq hs hlock hword buffer
    rw [hpiece] at hread
    exact .stop hread
  | case2 position hpiece ih =>
    subst hqueue hroom
    have hread := readInto_eq hs hlock hword buffer
    obtain ⟨hlength, hinside⟩ := Log.length_piece_le h.log.toList position buffer.length
    have hfits := hs.fits
    have hend := hinside hpiece
    have hrest := ih (h := h.counting [⟨buffer.length, _⟩])
      (hs.counting [⟨buffer.length, (Log.piece h.log.toList position buffer.length).length⟩]) hlock
      (by omega) _ rfl (Bytes.length_overlay buffer _ hlength)
    rw [History.counting_counting, Nat.add_assoc, ← List.length_append] at hrest
    have hmore := ReadsOut.more hread (by rwa [Ne, List.length_eq_zero_iff]) hrest
    rwa [Bytes.overlay, List.take_left] at hmore

theorem drain_of_dead (hdead : h.poisoned = true) (c : Cursor) (room : Nat) :
    c.drain h room = .ok (.error .lockPoisoned, c, h) := by
  rw [drain, drainFrom, History.read_of_dead hdead]
  rfl

/-- A drain goes on with the rest of its reads behind what a read returned. -/
theorem drainFrom_more {c : Cursor} {mid : History} {room position : Nat} {data : Bytes}
    (hread : h.read c.position room = .ok (.ok data, position, mid)) (hdata : data ≠ [])
    (before : List Bytes) (fuel : Nat) :
    c.drainFrom h room before (fuel + 1) =
      drainFrom ⟨position⟩ mid room (data :: before) fuel := by
  obtain ⟨b, data, rfl⟩ := List.exists_cons_of_ne_nil hdata
  rw [drainFrom, hread]
  rfl

/-- With more reads than there are pieces, a drain returns all of them. -/
theorem drainFrom_eq (hs : h.Sound) (hlock : h.poisoned = false) (room : Nat) {position : Nat}
    (hword : position < wordCount) (before : List Bytes) {fuel : Nat}
    (hfuel : (Log.pieces h.log.toList room position).length < fuel) :
    drainFrom ⟨position⟩ h room before fuel =
      .ok (.ok (before.reverse ++ Log.pieces h.log.toList room position),
        ⟨position + (Log.pieces h.log.toList room position).flatten.length⟩,
        h.counting (Transfer.drained room (Log.pieces h.log.toList room position))) := by
  generalize hqueue : h.log.toList = queue at hfuel ⊢
  fun_induction Log.pieces queue room position generalizing h before fuel with
  | case1 position hpiece =>
    subst hqueue
    obtain _ | fuel := fuel
    · simp at hfuel
    · rw [drainFrom, History.read_eq hs hlock, if_pos hword, hpiece, List.append_nil]
      rfl
  | case2 position hpiece ih =>
    subst hqueue
    obtain _ | fuel := fuel
    · simp at hfuel
    · have hread := History.read_eq hs hlock position room
      rw [if_pos hword] at hread
      have hinside := (Log.length_piece_le h.log.toList position room).2 hpiece
      have hfits := hs.fits
      rw [List.length_cons] at hfuel
      rw [drainFrom_more hread hpiece,
        ih (hs.counting _) hlock (by omega) _ rfl (Nat.lt_of_succ_lt_succ hfuel)]
      simp [Nat.add_assoc]

/-- A drain returns the pieces of the data. It stops only at a position that is no machine word. -/
theorem drain_eq (hs : h.Sound) (hlock : h.poisoned = false) (room position : Nat) :
    drain ⟨position⟩ h room =
      if position < wordCount then
        .ok (.ok (Log.pieces h.log.toList room position),
          ⟨position + (Log.pieces h.log.toList room position).flatten.length⟩,
          h.counting (Transfer.drained room (Log.pieces h.log.toList room position)))
      else .error .overflow := by
  have hcount := Log.length_pieces_le h.log.toList room position
  have hbytes := hs.holds.liveBytes_eq
  split
  next hword => exact drainFrom_eq hs hlock room hword [] (by omega)
  next hword =>
    rw [drain, drainFrom, History.read_eq hs hlock, if_neg hword]
    rfl

end Cursor

end Scrollback
