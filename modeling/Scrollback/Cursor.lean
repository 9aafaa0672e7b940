import Scrollback.History
/-!
# Cursors

A cursor is a reader's own position in the retained data of a history. It survives every write;
after an eviction the same position denotes later data. A cursor may stand anywhere, also past the
end, where a read returns nothing.
-/

namespace Scrollback

/-- What sort of failure a reader of bytes is told of. -/
inductive ErrorKind where
  | invalidInput
  | unexpectedEof
  | outOfMemory
  | other
  deriving DecidableEq, Repr

namespace ErrorKind

def name : ErrorKind → String
  | invalidInput => "InvalidInput"
  | unexpectedEof => "UnexpectedEof"
  | outOfMemory => "OutOfMemory"
  | other => "Other"

end ErrorKind

/-- Why a call on a cursor failed. -/
inductive CursorError where
  /-- The target of a seek is no position. -/
  | seekOutOfRange
  /-- The data ended before the buffer was full. -/
  | unexpectedEnd
  | history (e : HistoryError)
  deriving DecidableEq, Repr

namespace CursorError

def message : CursorError → String
  | seekOutOfRange => "seek to a negative or overflowing position"
  | unexpectedEnd => "failed to fill whole buffer"
  | history e => e.message

def kind : CursorError → ErrorKind
  | seekOutOfRange => .invalidInput
  | unexpectedEnd => .unexpectedEof
  | history (.alloc _) => .outOfMemory
  | history (.invalidCapacity _) | history .lockPoisoned => .other

/-- The error of the history inside, if it was the history that failed. -/
def inner? : CursorError → Option HistoryError
  | history e => some e
  | seekOutOfRange | unexpectedEnd => none

end CursorError

/-- A target of a seek. -/
inductive Whence where
  /-- An offset from the start of the data. -/
  | start (offset : Nat)
  /-- A distance from the position. -/
  | current (distance : Int)
  /-- A distance from the end of the data. -/
  | fromEnd (distance : Int)
  deriving DecidableEq, Repr

/-- A reader's position. -/
structure Cursor where
  /-- Offset in the retained data. -/
  position : Nat
  deriving DecidableEq, Repr

namespace Cursor

def opened : Cursor :=
  ⟨0⟩

/-- Read into a buffer: the number of bytes, the buffer, the cursor and the history after it. -/
def readInto (c : Cursor) (h : History) (buffer : Bytes) :
    Checked (Except CursorError Nat × Bytes × Cursor × History) := do
  let (result, filled, position, next) ← h.readInto c.position buffer
  return (result.mapError .history, filled, ⟨position⟩, next)

/-- Move a cursor to a position, unless there is none. -/
def moveTo (c : Cursor) (target : Option Nat) : Except CursorError Nat × Cursor :=
  match target with
  | some position => (.ok position, ⟨position⟩)
  | none => (.error .seekOutOfRange, c)

/-- Move a cursor: the position it has then, and the cursor. Only the end of the data needs the
lock. -/
def seek (c : Cursor) (h : History) (whence : Whence) :
    Checked (Except CursorError Nat × Cursor) := do
  match whence with
  | .start offset => return c.moveTo (some offset)
  | .current distance => return c.moveTo (Word.shift? c.position distance)
  | .fromEnd distance =>
    match ← h.totalLength with
    | .error e => return (.error (.history e), c)
    | .ok total => return c.moveTo (Word.shift? total distance)

/-- Read until some room is used up, on top of the pieces read before, the latest first. Each read
but the last uses room, so no more reads are needed than there is room. -/
def fillFrom (c : Cursor) (h : History) (room : Nat) (pieces : List Bytes) :
    (fuel : Nat) → Checked (Except CursorError Unit × List Bytes × Cursor × History)
  | 0 => return (if room = 0 then .ok () else .error .unexpectedEnd, pieces.reverse, c, h)
  | fuel + 1 => do
    if room = 0 then return (.ok (), pieces.reverse, c, h)
    match ← h.read c.position room with
    | (.error e, position, h) => return (.error (.history e), pieces.reverse, ⟨position⟩, h)
    | (.ok [], position, h) => return (.error .unexpectedEnd, pieces.reverse, ⟨position⟩, h)
    | (.ok data, position, h) =>
      fillFrom ⟨position⟩ h (← Word.sub room data.length) (data :: pieces) fuel

/-- Fill a whole buffer. If the data ends first, what was read is in the buffer and the cursor
stands behind it. -/
def readExact (c : Cursor) (h : History) (buffer : Bytes) :
    Checked (Except CursorError Unit × Bytes × Cursor × History) := do
  let (result, pieces, after, next) ← c.fillFrom h buffer.length [] buffer.length
  return (result, ← Bytes.fill buffer pieces.flatten, after, next)

/-- Read pieces until one is empty, on top of the pieces read before, the latest first. -/
def drainFrom (c : Cursor) (h : History) (room : Nat) (pieces : List Bytes) :
    (fuel : Nat) → Checked (Except HistoryError (List Bytes) × Cursor × History)
  | 0 => return (.ok pieces.reverse, c, h)
  | fuel + 1 => do
    match ← h.read c.position room with
    | (.error e, position, h) => return (.error e, ⟨position⟩, h)
    | (.ok [], position, h) => return (.ok pieces.reverse, ⟨position⟩, h)
    | (.ok data, position, h) => drainFrom ⟨position⟩ h room (data :: pieces) fuel

/-- All data from the cursor on, in the pieces that reads with some room return. Each piece but the
last, empty one moves the cursor on, so one more read than there are bytes is enough. -/
def drain (c : Cursor) (h : History) (room : Nat) :
    Checked (Except HistoryError (List Bytes) × Cursor × History) :=
  c.drainFrom h room [] (h.log.liveBytes + 1)

end Cursor

end Scrollback
