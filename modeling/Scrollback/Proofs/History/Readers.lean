import Scrollback.Proofs.History.Journal
/-!
# Readers side by side

A reader is a cursor, or a caller who holds a position and passes it to each read. A `Hall` is a
history with all who read it. They take turns, since a read or a seek takes the lock once at most,
and a position is nobody's but its reader's; so a list of turns is one interleaving.

`Turn.alone` tells what a reader gets that has the data to itself, flat, and a position in it. While
nothing is written or cleared, no reader gets anything else: `Hall.serve_alone` says so of one turn,
`Hall.serveAll_alone` of an interleaving.
-/

namespace Scrollback

open Record (totalLength)

/-! ### Flat data -/

/-- Flat data, and the places in it where a read stops. -/
structure Tape where
  data : Bytes
  stops : List Nat

namespace Tape

/-- The number of bytes that a read returns: those up to the next stop, or as many as there is room
for. -/
def count (t : Tape) (position room : Nat) : Nat :=
  match t.stops.find? (position < ·) with
  | none => 0
  | some stop => min room (stop - position)

/-- What a read leaves in a buffer: the data from the position on, and behind it what was there. -/
def fill (t : Tape) (position : Nat) (buffer : Bytes) : Bytes :=
  let count := t.count position buffer.length
  (t.data.drop position).take count ++ buffer.drop count

/-- The data of some records. A read stops where one of them ends. -/
def ofRecords (live : List Record) : Tape :=
  ⟨live.flatMap Record.bytes, Log.ends live⟩

/-- Behind the data there is nothing to read. -/
theorem count_of_le {live : List Record} {position : Nat} (h : totalLength live ≤ position)
    (room : Nat) : (ofRecords live).count position room = 0 := by
  rw [count, ofRecords, ← Log.endAfter?, Log.endAfter?_eq_none h]

/-- A read does not go beyond the record that it starts in. -/
theorem count_of_mem {earlier later : List Record} {r : Record} {position : Nat}
    (hstart : totalLength earlier ≤ position) (hend : position < totalLength earlier + r.length)
    (room : Nat) :
    (ofRecords (earlier ++ r :: later)).count position room =
      min room (totalLength earlier + r.length - position) := by
  rw [count, ofRecords, ← Log.endAfter?, Log.endAfter?_append_cons hstart hend]

theorem length_piece (live : List Record) (position room : Nat) :
    (Log.piece live position room).length = (ofRecords live).count position room := by
  by_cases h : totalLength live ≤ position
  · rw [count_of_le h, Log.piece_eq_nil_iff.2 (.inr h), List.length_nil]
  · cases hplace : Log.locate live position with
    | none => exact absurd (Log.locate_eq_none_iff.1 hplace) h
    | some place =>
      obtain ⟨hstart, earlier, later, rfl, rfl⟩ := Log.locate_eq_some hplace
      rw [count_of_mem (by omega) (by omega), Log.piece_eq, hplace]
      simp only [Record.slice_eq, List.length_take, List.length_drop, Record.length_eq]
      omega

theorem fill_eq (live : List Record) (position : Nat) (buffer : Bytes) :
    (ofRecords live).fill position buffer =
      buffer.overlay (Log.piece live position buffer.length) := by
  rw [fill, Bytes.overlay, length_piece]
  conv_rhs => rw [Log.piece_eq_take, length_piece]
  rfl

theorem length_fill (live : List Record) (position : Nat) (buffer : Bytes) :
    ((ofRecords live).fill position buffer).length = buffer.length := by
  rw [fill_eq]
  exact Bytes.length_overlay buffer _ (Log.length_piece_le live position buffer.length).1

end Tape

/-! ### A reader alone -/

/-- Who reads a history. The readers of each kind go by their numbers. -/
inductive Reader where
  | cursor (number : Nat)
  /-- A caller who holds a position. -/
  | holder (number : Nat)
  deriving DecidableEq, Repr

/-- A target of a seek, in machine words. -/
inductive Target where
  | start (offset : UInt64)
  | current (distance : Int64)
  | fromEnd (distance : Int64)
  deriving DecidableEq

def Target.whence : Target → Whence
  | start offset => .start offset.toNat
  | current distance => .current distance.toInt
  | fromEnd distance => .fromEnd distance.toInt

/-- What a reader does when it is its turn. -/
inductive Turn where
  | read (reader : Reader) (buffer : Bytes)
  | seek (cursor : Nat) (target : Target)
  /-- A holder goes on somewhere else. -/
  | place (holder : Nat) (offset : UInt64)
  deriving DecidableEq

/-- The read that a reply tells of. -/
def Reply.transfer? : Reply → Option Transfer
  | .read (.ok count) buffer => some ⟨buffer.length, count⟩
  | .copied (.ok count) buffer => some ⟨buffer.length, count⟩
  | _ => none

namespace Turn

def reader : Turn → Reader
  | read reader _ => reader
  | seek cursor _ => .cursor cursor
  | place holder _ => .holder holder

/-- The reply to a seek from a position, and the position after it: the target, if it is a word. -/
def jump (position : Nat) (target : Int) : Reply × Nat :=
  if 0 ≤ target ∧ target < 2 ^ 64 then (.placed (.ok target.toNat), target.toNat)
  else (.placed (.error .seekOutOfRange), position)

/-- The reply to a reader at a position who has the data to itself, and the position after it. -/
def alone (t : Tape) (position : Nat) : Turn → Reply × Nat
  | read reader buffer =>
    let count := t.count position buffer.length
    match reader with
    | .cursor _ => (.read (.ok count) (t.fill position buffer), position + count)
    | .holder _ => (.copied (.ok count) (t.fill position buffer), position + count)
  | seek _ (.start offset) => (.placed (.ok offset.toNat), offset.toNat)
  | seek _ (.current distance) => jump position (position + distance.toInt)
  | seek _ (.fromEnd distance) => jump position (t.data.length + distance.toInt)
  | place _ offset => (.placed (.ok offset.toNat), offset.toNat)

/-- The replies to a list of turns, and the position after them. -/
def aloneAll (t : Tape) (position : Nat) : List Turn → List Reply × Nat
  | [] => ([], position)
  | turn :: turns =>
    let (reply, next) := turn.alone t position
    let (replies, last) := aloneAll t next turns
    (reply :: replies, last)

/-- The turns of one of the readers. -/
def ofReader (reader : Reader) (turns : List Turn) : List Turn :=
  turns.filter fun turn => turn.reader = reader

/-- The replies to one of the readers. -/
def answersTo (reader : Reader) (turns : List Turn) (answers : List Reply) : List Reply :=
  ((turns.zip answers).filter fun exchange => exchange.1.reader = reader).map Prod.snd

end Turn

/-! ### All readers -/

/-- A history with all who read it. -/
structure Hall where
  desk : Desk
  /-- The positions that callers hold. -/
  held : List Nat
  deriving DecidableEq, Repr

namespace Hall

/-- A history with cursors and holders at some positions. -/
def gather (history : History) (cursors held : List UInt64) : Hall :=
  ⟨⟨history, cursors.map fun position => ⟨position.toNat⟩⟩, held.map UInt64.toNat⟩

def history (hall : Hall) : History :=
  hall.desk.history

def position? (hall : Hall) : Reader → Option Nat
  | .cursor number => hall.desk.cursors[number]?.map Cursor.position
  | .holder number => hall.held[number]?

/-- The hall after a reader has moved. -/
def moved (hall : Hall) (reader : Reader) (position : Nat) (h : History) : Hall :=
  match reader with
  | .cursor number => { hall with desk := hall.desk.update number ⟨position⟩ h }
  | .holder number => ⟨{ hall.desk with history := h }, hall.held.set number position⟩

/-- Let a reader have its turn. The desk serves the cursors, a holder reads the history itself. -/
def serve (hall : Hall) : Turn → Checked (Reply × Hall)
  | .read (.cursor number) buffer => do
    let (reply, desk) ← hall.desk.perform (.read number buffer)
    return (reply, { hall with desk })
  | .read (.holder number) buffer =>
    match hall.held[number]? with
    | none => .ok (.noCursor, hall)
    | some position => do
      let (result, filled, after, next) ← hall.history.readInto position buffer
      return (.copied result filled, hall.moved (.holder number) after next)
  | .seek number target => do
    let (reply, desk) ← hall.desk.perform (.seek number target.whence)
    return (reply, { hall with desk })
  | .place number offset =>
    match hall.held[number]? with
    | none => .ok (.noCursor, hall)
    | some _ =>
      .ok (.placed (.ok offset.toNat), hall.moved (.holder number) offset.toNat hall.history)

def serveAll (hall : Hall) : List Turn → Checked (List Reply × Hall)
  | [] => .ok ([], hall)
  | turn :: turns => do
    let (reply, next) ← hall.serve turn
    let (replies, last) ← serveAll next turns
    return (reply :: replies, last)

/-! ### One turn -/

/-- Everyone can read: the lock is alive, and each position is a machine word. -/
structure Open (hall : Hall) (live : List Record) : Prop where
  sound : hall.history.Sound
  alive : hall.history.poisoned = false
  toList_eq : hall.history.log.toList = live
  word : ∀ {reader position}, hall.position? reader = some position → position < wordCount

theorem position?_moved_self {hall : Hall} {reader : Reader} {before : Nat}
    (h : hall.position? reader = some before) (position : Nat) (next : History) :
    (hall.moved reader position next).position? reader = some position := by
  cases reader with
  | cursor number =>
    obtain ⟨c, hc, -⟩ := Option.map_eq_some_iff.1 h
    obtain ⟨hlt, -⟩ := List.getElem?_eq_some_iff.1 hc
    simp [moved, position?, Desk.update, hlt]
  | holder number =>
    obtain ⟨hlt, -⟩ := List.getElem?_eq_some_iff.1 h
    simp [moved, position?, hlt]

/-- No reader moves another one. -/
theorem position?_moved_ne (hall : Hall) {reader other : Reader} (hne : reader ≠ other)
    (position : Nat) (next : History) :
    (hall.moved reader position next).position? other = hall.position? other := by
  cases reader with
  | cursor number =>
    cases other with
    | cursor number' =>
      have hnumber : number ≠ number' := fun heq => hne (congrArg Reader.cursor heq)
      simp [moved, position?, Desk.update, List.getElem?_set_ne hnumber]
    | holder number' => rfl
  | holder number =>
    cases other with
    | cursor number' => rfl
    | holder number' =>
      have hnumber : number ≠ number' := fun heq => hne (congrArg Reader.holder heq)
      exact List.getElem?_set_ne hnumber

@[simp] theorem history_moved (hall : Hall) (reader : Reader) (position : Nat) (next : History) :
    (hall.moved reader position next).history = next := by
  cases reader <;> rfl

end Hall

/-- A read gives what a reader alone gets. -/
theorem History.readInto_alone {h : History} (hs : h.Sound) (hlock : h.poisoned = false)
    {position : Nat} (hword : position < wordCount) (buffer : Bytes) :
    h.readInto position buffer =
      .ok (.ok ((Tape.ofRecords h.log.toList).count position buffer.length),
        (Tape.ofRecords h.log.toList).fill position buffer,
        position + (Tape.ofRecords h.log.toList).count position buffer.length,
        h.counting [⟨buffer.length,
          (Tape.ofRecords h.log.toList).count position buffer.length⟩]) := by
  rw [readInto_eq hs hlock, if_pos hword, Tape.fill_eq, Tape.length_piece]

theorem Desk.through_of_some {d : Desk} {number : Nat} {c last : Cursor} {reply : Reply}
    {next : History} {serve : Cursor → Checked (Reply × Cursor × History)}
    (hc : d.cursors[number]? = some c) (hserve : serve c = .ok (reply, last, next)) :
    d.through number serve = .ok (reply, d.update number last next) := by
  simp only [through, hc, hserve, Checked.ok_bind, Checked.pure_eq_ok]

theorem Cursor.moveTo_shift? (position base : Nat) (distance : Int) :
    (Reply.placed ((mk position).moveTo (Word.shift? base distance)).1,
      ((mk position).moveTo (Word.shift? base distance)).2.position) =
      Turn.jump position (base + distance) := by
  have hcount : (wordCount : Int) = 2 ^ 64 := rfl
  rw [Word.shift?, Turn.jump, hcount]
  by_cases h : 0 ≤ (base : Int) + distance ∧ (base : Int) + distance < 2 ^ 64
  · rw [if_pos h, if_pos h]
    rfl
  · rw [if_neg h, if_neg h]
    rfl

/-- A seek does what it does for a reader alone. -/
theorem Cursor.seek_alone {h : History} (hs : h.Sound) (hlock : h.poisoned = false)
    (position number : Nat) (target : Target) :
    ∃ result last, seek ⟨position⟩ h target.whence = .ok (result, last) ∧
      (Reply.placed result, last.position) =
        (Turn.seek number target).alone (.ofRecords h.log.toList) position := by
  cases target with
  | start offset => exact ⟨_, _, rfl, rfl⟩
  | current distance => exact ⟨_, _, rfl, moveTo_shift? position position distance.toInt⟩
  | fromEnd distance =>
    refine ⟨_, _, ?_, moveTo_shift? position _ distance.toInt⟩
    simp only [seek, Target.whence, History.totalLength, History.inspect_of_alive hlock,
      Checked.ok_bind, Checked.pure_eq_ok, hs.holds.liveBytes_eq, Tape.ofRecords,
      Record.length_flatMap_bytes]

namespace Turn

variable {live : List Record} {position : Nat}

theorem jump_lt (hword : position < wordCount) (target : Int) :
    (jump position target).2 < wordCount := by
  unfold jump
  split
  next h =>
    have hlt := h.2
    rw [wordCount]
    omega
  next => exact hword

/-- A reader never leaves the machine words. -/
theorem alone_lt (hfits : totalLength live < wordCount) (hword : position < wordCount)
    (turn : Turn) : (turn.alone (.ofRecords live) position).2 < wordCount := by
  cases turn with
  | read reader buffer =>
    have hend : position + (Tape.ofRecords live).count position buffer.length < wordCount := by
      by_cases hnil : Log.piece live position buffer.length = []
      · rw [← Tape.length_piece, hnil]
        exact hword
      · rw [← Tape.length_piece]
        exact ((Log.length_piece_le live position buffer.length).2 hnil).trans_lt hfits
    cases reader <;> exact hend
  | seek number target =>
    cases target with
    | start offset => exact offset.toNat_lt
    | current distance => exact jump_lt hword _
    | fromEnd distance => exact jump_lt hword _
  | place number offset => exact offset.toNat_lt

/-- A target that is no position is an invalid input. -/
theorem kind_of_jump {target : Int} {e : CursorError}
    (h : (jump position target).1 = .placed (.error e)) : e.kind = .invalidInput := by
  unfold jump at h
  split at h
  · cases h
  · cases h
    rfl

theorem kind_of_alone {t : Tape} {turn : Turn} {e : CursorError}
    (h : (turn.alone t position).1 = .placed (.error e)) : e.kind = .invalidInput := by
  cases turn with
  | read reader buffer => cases reader <;> cases h
  | seek number target =>
    cases target with
    | start offset => cases h
    | current distance => exact kind_of_jump h
    | fromEnd distance => exact kind_of_jump h
  | place number offset => cases h

/-- A reader is refused no position but an invalid one. -/
theorem kind_of_aloneAll {t : Tape} {turns : List Turn} {e : CursorError}
    (h : .placed (.error e) ∈ (aloneAll t position turns).1) : e.kind = .invalidInput := by
  induction turns generalizing position with
  | nil => cases h
  | cons turn turns ih =>
    obtain hfirst | hrest := List.mem_cons.1 h
    · exact kind_of_alone hfirst.symm
    · exact ih hrest

end Turn

namespace Hall

variable {hall : Hall} {live : List Record}

theorem Open.moved (ho : hall.Open live) {reader : Reader} {before position : Nat}
    (hbefore : hall.position? reader = some before) (hword : position < wordCount)
    (transfers : List Transfer) :
    (hall.moved reader position (hall.history.counting transfers)).Open live where
  sound := by
    rw [history_moved]
    exact ho.sound.counting transfers
  alive := by
    rw [history_moved]
    exact ho.alive
  toList_eq := by
    rw [history_moved]
    exact ho.toList_eq
  word := by
    intro other found hfound
    by_cases hother : reader = other
    · subst hother
      rw [position?_moved_self hbefore] at hfound
      cases hfound
      exact hword
    · rw [position?_moved_ne hall hother] at hfound
      exact ho.word hfound

/-- A reader who stands somewhere is served as if it were alone. -/
theorem serve_eq (ho : hall.Open live) {turn : Turn} {position : Nat}
    (hposition : hall.position? turn.reader = some position) :
    hall.serve turn = .ok ((turn.alone (.ofRecords live) position).1,
      hall.moved turn.reader (turn.alone (.ofRecords live) position).2
        (hall.history.counting (turn.alone (.ofRecords live) position).1.transfer?.toList)) := by
  have hword := ho.word hposition
  obtain rfl := ho.toList_eq
  cases turn with
  | read reader buffer =>
    have hread := History.readInto_alone ho.sound ho.alive hword buffer
    -- A buffer keeps its length, so the reply tells how much room the read had.
    have hroom := Tape.length_fill hall.history.log.toList position buffer
    cases reader with
    | cursor number =>
      obtain ⟨c, hc, rfl⟩ := Option.map_eq_some_iff.1 hposition
      have hperform : hall.desk.perform (.read number buffer) = .ok (.read (.ok _) _, _) :=
        Desk.through_of_some hc
          (Checked.bind_eq_ok.2 ⟨_, Checked.bind_eq_ok.2 ⟨_, hread, rfl⟩, rfl⟩)
      rw [serve, hperform]
      simp only [Turn.alone, Reply.transfer?, hroom]
      rfl
    | holder number =>
      simp only [serve, show hall.held[number]? = some position from hposition, hread,
        Turn.alone, Reply.transfer?, hroom]
      rfl
  | seek number target =>
    obtain ⟨c, hc, rfl⟩ := Option.map_eq_some_iff.1 hposition
    obtain ⟨result, last, hseek, halone⟩ :=
      Cursor.seek_alone ho.sound ho.alive c.position number target
    have hperform : hall.desk.perform (.seek number target.whence) =
        .ok (.placed result, hall.desk.update number last hall.history) :=
      Desk.through_of_some hc (Checked.bind_eq_ok.2 ⟨(result, last), hseek, rfl⟩)
    rw [serve, hperform, ← halone]
    rfl
  | place number offset =>
    simp only [serve, show hall.held[number]? = some position from hposition]
    rfl

/-- A reader who does not exist changes nothing. -/
theorem serve_of_none {turn : Turn} (hnone : hall.position? turn.reader = none) :
    hall.serve turn = .ok (.noCursor, hall) := by
  cases turn with
  | read reader buffer =>
    cases reader with
    | cursor number =>
      simp only [serve, Desk.perform, Desk.through, Option.map_eq_none_iff.1 hnone]
      rfl
    | holder number => simp only [serve, show hall.held[number]? = none from hnone]
  | seek number target =>
    simp only [serve, Desk.perform, Desk.through, Option.map_eq_none_iff.1 hnone]
    rfl
  | place number offset => simp only [serve, show hall.held[number]? = none from hnone]

/-- A turn moves the reader whose turn it is, as if it were alone, and nobody else. The history is
the same but for a read that it counts. -/
theorem serve_alone (ho : hall.Open live) (turn : Turn) :
    ∃ reply next, hall.serve turn = .ok (reply, next) ∧ next.Open live ∧
      next.history = hall.history.counting reply.transfer?.toList ∧
      ∀ {reader position}, hall.position? reader = some position →
        if turn.reader = reader then
          reply = (turn.alone (.ofRecords live) position).1 ∧
            next.position? reader = some (turn.alone (.ofRecords live) position).2
        else next.position? reader = some position := by
  cases hown : hall.position? turn.reader with
  | none =>
    refine ⟨_, _, serve_of_none hown, ho, rfl, ?_⟩
    intro reader position hposition
    have hne : turn.reader ≠ reader := by
      rintro rfl
      rw [hown] at hposition
      cases hposition
    rwa [if_neg hne]
  | some before =>
    have hfits : totalLength live < wordCount := ho.toList_eq ▸ ho.sound.fits
    have hmoved := turn.alone_lt hfits (ho.word hown)
    refine ⟨_, _, serve_eq ho hown, ho.moved hown hmoved _, history_moved .., ?_⟩
    intro reader position hposition
    by_cases hreader : turn.reader = reader
    · subst hreader
      obtain rfl : before = position := Option.some.inj (hown.symm.trans hposition)
      rw [if_pos rfl]
      exact ⟨rfl, position?_moved_self hown _ _⟩
    · rwa [if_neg hreader, position?_moved_ne hall hreader]

end Hall

/-! ### An interleaving -/

namespace Turn

theorem ofReader_cons (reader : Reader) (turn : Turn) (turns : List Turn) :
    ofReader reader (turn :: turns) =
      if turn.reader = reader then turn :: ofReader reader turns
      else ofReader reader turns := by
  simp [ofReader, List.filter_cons]

theorem answersTo_cons (reader : Reader) (turn : Turn) (turns : List Turn)
    (answer : Reply) (answers : List Reply) :
    answersTo reader (turn :: turns) (answer :: answers) =
      if turn.reader = reader then answer :: answersTo reader turns answers
      else answersTo reader turns answers := by
  by_cases h : turn.reader = reader <;> simp [answersTo, h]

/-- If all turns are one reader's, so are all answers. -/
theorem answersTo_ofReader {reader : Reader} {turns : List Turn} {answers : List Reply}
    (hlength : answers.length = (ofReader reader turns).length) :
    answersTo reader (ofReader reader turns) answers = answers := by
  rw [answersTo, List.filter_eq_self.2, List.map_snd_zip hlength.le]
  intro exchange hmem
  have hown := (List.mem_filter.1 (List.of_mem_zip hmem).1).2
  exact hown

end Turn

namespace Hall

open Turn (ofReader answersTo aloneAll)

variable {hall : Hall} {live : List Record}

/-- Turns are served to each reader as if the reader were alone. -/
theorem serveAll_eq (ho : hall.Open live) (turns : List Turn) :
    ∃ answers last, hall.serveAll turns = .ok (answers, last) ∧
      answers.length = turns.length ∧
      last.history = hall.history.counting (answers.filterMap Reply.transfer?) ∧
      ∀ {reader position}, hall.position? reader = some position →
        let own := aloneAll (.ofRecords live) position (ofReader reader turns)
        answersTo reader turns answers = own.1 ∧ last.position? reader = some own.2 := by
  induction turns generalizing hall with
  | nil => exact ⟨[], hall, rfl, rfl, rfl, fun hposition => ⟨rfl, hposition⟩⟩
  | cons turn turns ih =>
    obtain ⟨answer, next, hserve, hopen, hhistory, hfirst⟩ := serve_alone ho turn
    obtain ⟨answers, last, hrest, hlength, hcounted, hnext⟩ := ih hopen
    refine ⟨answer :: answers, last, ?_, by simp [hlength], ?_, ?_⟩
    · exact Checked.bind_eq_ok.2 ⟨_, hserve, Checked.bind_eq_ok.2 ⟨_, hrest, rfl⟩⟩
    · rw [hcounted, hhistory, History.counting_counting]
      cases hanswer : answer.transfer? <;> simp [hanswer]
    · -- The first turn counts for its reader; the others find themselves where they were.
      intro reader position hposition
      have hmoved := hfirst hposition
      rw [Turn.answersTo_cons, Turn.ofReader_cons]
      by_cases hreader : turn.reader = reader
      · rw [if_pos hreader] at hmoved ⊢
        rw [if_pos hreader]
        obtain ⟨hanswers, hlast⟩ := hnext hmoved.2
        exact ⟨by rw [hmoved.1, hanswers]; rfl, hlast⟩
      · rw [if_neg hreader] at hmoved ⊢
        rw [if_neg hreader]
        exact hnext hmoved

theorem open_gather {h : History} (hs : h.Sound) (halive : h.poisoned = false)
    (cursors held : List UInt64) : (gather h cursors held).Open h.log.toList where
  sound := hs
  alive := halive
  toList_eq := rfl
  word := by
    intro reader position hposition
    cases reader with
    | cursor number =>
      obtain ⟨word, -, rfl⟩ : ∃ word, cursors[number]? = some word ∧ word.toNat = position := by
        simpa [gather, position?] using hposition
      exact word.toNat_lt
    | holder number =>
      obtain ⟨word, -, rfl⟩ : ∃ word, held[number]? = some word ∧ word.toNat = position := by
        simpa [gather, position?] using hposition
      exact word.toNat_lt

/-- Whatever was done to a history, as long as its lock is alive: any number of cursors and of
callers who hold positions, wherever they stand, may read and seek in any order. Each is told what a
reader would be told who has the retained data alone, flat, and a position in it, and ends up where
that reader does. A read returns no byte behind the data, and else the bytes up to the end of the
record that it starts in, or as many as there is room for. A target that is no position is an
invalid input. Without the others' turns the replies are the same, and only the reads are counted in
the history. -/
theorem serveAll_alone {s : Settings} {h : History} {calls : List Call} {replies : List Reply}
    {d : Desk} (hnew : History.create s = .ok (.ok h))
    (hrun : (Desk.ofHistory h).performAll calls = .ok (replies, d))
    (halive : d.history.poisoned = false) (cursors held : List UInt64) (turns : List Turn) :
    ∃ (live : List Record) (data : Bytes) (answers : List Reply) (last : Hall),
      d.history.log.records = .ok live ∧
      d.history.contents none = .ok (.ok data) ∧
      data = live.flatMap Record.bytes ∧
      (∀ position room, data.length ≤ position →
        Tape.count ⟨data, Log.ends live⟩ position room = 0) ∧
      (∀ earlier r later position room, live = earlier ++ r :: later →
        totalLength earlier ≤ position → position < totalLength earlier + r.length →
        Tape.count ⟨data, Log.ends live⟩ position room =
          min room (totalLength earlier + r.length - position)) ∧
      (gather d.history cursors held).serveAll turns = .ok (answers, last) ∧
      last.history = d.history.counting (answers.filterMap Reply.transfer?) ∧
      ∀ reader position, (gather d.history cursors held).position? reader = some position →
        let own := aloneAll ⟨data, Log.ends live⟩ position (ofReader reader turns)
        answersTo reader turns answers = own.1 ∧
        last.position? reader = some own.2 ∧
        (∀ e, .placed (.error e) ∈ own.1 → e.kind = .invalidInput) ∧
        ∃ solo, (gather d.history cursors held).serveAll (ofReader reader turns) =
            .ok (own.1, solo) ∧
          solo.position? reader = some own.2 := by
  obtain ⟨entries, hruns, -, -⟩ := Desk.performAll_eq_ok_iff.1 hrun
  have hs := hruns.sound (History.create_sound hnew).1
  have ho := open_gather hs halive cursors held
  obtain ⟨answers, last, hserve, -, hcounted, hown⟩ := serveAll_eq ho turns
  refine ⟨_, _, answers, last, hs.holds.records_eq, ?_, rfl, ?_, ?_, hserve, hcounted, ?_⟩
  · rw [History.contents, History.inspect_of_alive halive, hs.holds.contents_eq,
      Allowance.refused?_none]
  · intro position room hend
    rw [Record.length_flatMap_bytes] at hend
    exact Tape.count_of_le hend room
  · intro earlier r later position room hlive hstart hend
    rw [hlive]
    exact Tape.count_of_mem hstart hend room
  · intro reader position hposition
    obtain ⟨hanswers, hlast⟩ := hown hposition
    -- Both runs answer the reader as the same flat data does.
    obtain ⟨alone, solo, hsolo, hlength, -, hsame⟩ := serveAll_eq ho (ofReader reader turns)
    obtain ⟨hreplies, hend⟩ := hsame hposition
    rw [Turn.answersTo_ofReader hlength] at hreplies
    have hfilter : ofReader reader (ofReader reader turns) = ofReader reader turns := by
      simp [ofReader]
    rw [hfilter] at hreplies hend
    exact ⟨hanswers, hlast, fun e => Turn.kind_of_aloneAll, solo, hreplies ▸ hsolo, hend⟩

/-- The first of three lines has been evicted and five bytes are left. A cursor, another one that
seeks out of range, and a caller read in turns; the first cursor then reads on alone as it did
between the others. -/
theorem serveAll_alone_rotated :
    History.create ⟨2, 10, .split⟩ = .ok (.ok (.ofLog ⟨2, 10, .split⟩ (Log.vacant 2))) ∧
    ∃ d last solo, (Desk.ofHistory (.ofLog ⟨2, 10, .split⟩ (Log.vacant 2))).performAll
        [.write none [97, 10, 98, 99, 10], .write none [100, 10, 101]] =
      .ok ([.written (.ok ⟨5, 2, 0⟩), .written (.ok ⟨3, 1, 1⟩)], d) ∧
      d.history.poisoned = false ∧
      (gather d.history [0, 5] [3]).serveAll
          [.read (.cursor 0) [7, 7], .seek 1 (.fromEnd (-1)), .read (.holder 0) [7, 7, 7],
            .seek 0 (.current (-3)), .seek 1 (.start 18446744073709551615),
            .seek 1 (.current 1), .read (.cursor 1) [7], .read (.cursor 0) [7, 7]] =
        .ok ([.read (.ok 2) [98, 99], .placed (.ok 4), .copied (.ok 2) [100, 10, 7],
            .placed (.error .seekOutOfRange), .placed (.ok 18446744073709551615),
            .placed (.error .seekOutOfRange), .read (.ok 0) [7], .read (.ok 1) [10, 7]], last) ∧
      last.position? (.cursor 0) = some 3 ∧
      (gather d.history [0, 5] [3]).serveAll
          [.read (.cursor 0) [7, 7], .seek 0 (.current (-3)), .read (.cursor 0) [7, 7]] =
        .ok ([.read (.ok 2) [98, 99], .placed (.error .seekOutOfRange), .read (.ok 1) [10, 7]],
          solo) ∧
      CursorError.seekOutOfRange.kind = .invalidInput := by
  have hnew : History.create ⟨2, 10, .split⟩ =
      .ok (.ok (.ofLog ⟨2, 10, .split⟩ (Log.vacant 2))) := rfl
  obtain ⟨d, hrun, halive, final, hfound, hend⟩ : ∃ d,
      (Desk.ofHistory (.ofLog ⟨2, 10, .split⟩ (Log.vacant 2))).performAll
          [.write none [97, 10, 98, 99, 10], .write none [100, 10, 101]] =
        .ok ([.written (.ok ⟨5, 2, 0⟩), .written (.ok ⟨3, 1, 1⟩)], d) ∧
      d.history.poisoned = false ∧
      ∃ final, (gather d.history [0, 5] [3]).serveAll
          [.read (.cursor 0) [7, 7], .seek 1 (.fromEnd (-1)), .read (.holder 0) [7, 7, 7],
            .seek 0 (.current (-3)), .seek 1 (.start 18446744073709551615),
            .seek 1 (.current 1), .read (.cursor 1) [7], .read (.cursor 0) [7, 7]] =
        .ok ([.read (.ok 2) [98, 99], .placed (.ok 4), .copied (.ok 2) [100, 10, 7],
            .placed (.error .seekOutOfRange), .placed (.ok 18446744073709551615),
            .placed (.error .seekOutOfRange), .read (.ok 0) [7], .read (.ok 1) [10, 7]], final) ∧
        final.position? (.cursor 0) = some 3 :=
    ⟨_, rfl, rfl, _, rfl, rfl⟩
  obtain ⟨live, data, answers, last, -, -, -, -, -, hserve, -, hown⟩ :=
    serveAll_alone hnew hrun halive [0, 5] [3]
      [.read (.cursor 0) [7, 7], .seek 1 (.fromEnd (-1)), .read (.holder 0) [7, 7, 7],
        .seek 0 (.current (-3)), .seek 1 (.start 18446744073709551615),
        .seek 1 (.current 1), .read (.cursor 1) [7], .read (.cursor 0) [7, 7]]
  obtain ⟨rfl, rfl⟩ := Prod.mk.inj (Except.ok.inj (hserve.symm.trans hfound))
  obtain ⟨hanswers, -, hkind, solo, hsolo, -⟩ := hown (.cursor 0) 0 rfl
  rw [← hanswers] at hsolo hkind
  have hrefused := hkind .seekOutOfRange (List.mem_cons_of_mem _ List.mem_cons_self)
  exact ⟨hnew, d, last, solo, hrun, halive, hserve, hend, hsolo, hrefused⟩

end Hall

end Scrollback
