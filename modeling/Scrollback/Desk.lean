import Scrollback.Cursor
/-!
# A history at work

A desk is a history with the cursors that are open on it. What can be asked of it is a `Call`, what
comes back a `Reply`. Calls are served one at a time, in the order in which the lock lets them in,
so a list of calls is one interleaving of any number of writers and readers.
-/

namespace Scrollback

/-- A history and the cursors on it, in the order in which they were opened. -/
structure Desk where
  history : History
  cursors : List Cursor
  deriving DecidableEq, Repr

/-- Something asked of a desk. A reader is the number of a cursor. -/
inductive Call where
  | write (allowance : Allowance) (fragment : Bytes)
  | readAt (offset : Nat) (buffer : Bytes)
  | openCursor
  | read (reader : Nat) (buffer : Bytes)
  | readExact (reader : Nat) (buffer : Bytes)
  /-- Read from a cursor on in pieces, up to the end of the data. -/
  | drain (reader : Nat) (room : Nat)
  | seek (reader : Nat) (whence : Whence)
  | contents (allowance : Allowance)
  | totalLength
  | discard
  | teardown
  | stats
  | counters
  /-- Let a holder of the lock die. -/
  | poison
  deriving DecidableEq, Repr

/-- What comes back from a call. -/
inductive Reply where
  | written (result : Except HistoryError WriteOutcome)
  | copied (result : Except HistoryError Nat) (buffer : Bytes)
  | opened (reader : Nat)
  | read (result : Except CursorError Nat) (buffer : Bytes)
  | filled (result : Except CursorError Unit) (buffer : Bytes)
  | drained (result : Except HistoryError (List Bytes))
  | placed (result : Except CursorError Nat)
  | contents (result : Except HistoryError Bytes)
  | totalLength (result : Except HistoryError Nat)
  | discarded (result : Except HistoryError Nat)
  | released (result : Except HistoryError (List Record))
  | stats (result : Except HistoryError HistoryStats)
  | counters (result : Except HistoryError Metrics)
  | poisoned (died : Bool)
  /-- There is no cursor with the number of the call. -/
  | noCursor

namespace Desk

def ofHistory (history : History) : Desk :=
  ⟨history, []⟩

def update (d : Desk) (reader : Nat) (c : Cursor) (h : History) : Desk :=
  ⟨h, d.cursors.set reader c⟩

/-- Serve a call that goes through a cursor. -/
def through (d : Desk) (reader : Nat) (serve : Cursor → Checked (Reply × Cursor × History)) :
    Checked (Reply × Desk) :=
  match d.cursors[reader]? with
  | none => .ok (.noCursor, d)
  | some c => do
    let (reply, c, h) ← serve c
    return (reply, d.update reader c h)

def perform (d : Desk) (call : Call) : Checked (Reply × Desk) := do
  let h := d.history
  match call with
  | .write allowance fragment =>
    let (result, h) ← h.write allowance fragment
    return (.written result, { d with history := h })
  | .readAt offset buffer =>
    let (result, buffer, _, h) ← h.readInto offset buffer
    return (.copied result buffer, { d with history := h })
  | .openCursor => return (.opened d.cursors.length, ⟨h, d.cursors ++ [.opened]⟩)
  | .read reader buffer =>
    d.through reader fun c => do
      let (result, buffer, c, h) ← c.readInto h buffer
      return (.read result buffer, c, h)
  | .readExact reader buffer =>
    d.through reader fun c => do
      let (result, buffer, c, h) ← c.readExact h buffer
      return (.filled result buffer, c, h)
  | .drain reader room =>
    d.through reader fun c => do
      let (result, c, h) ← c.drain h room
      return (.drained result, c, h)
  | .seek reader whence =>
    d.through reader fun c => do
      let (result, c) ← c.seek h whence
      return (.placed result, c, h)
  | .contents allowance => return (.contents (← h.contents allowance), d)
  | .totalLength => return (.totalLength (← h.totalLength), d)
  | .discard =>
    let (result, h) ← h.discard
    return (.discarded result, { d with history := h })
  | .teardown =>
    let (result, h) ← h.teardown
    return (.released result, { d with history := h })
  | .stats => return (.stats (← h.stats), d)
  | .counters => return (.counters (← h.counters), d)
  | .poison =>
    let (died, h) := h.poison
    return (.poisoned died, { d with history := h })

def performAll (d : Desk) : List Call → Checked (List Reply × Desk)
  | [] => .ok ([], d)
  | call :: calls => do
    let (reply, next) ← d.perform call
    let (replies, last) ← performAll next calls
    return (reply :: replies, last)

end Desk

end Scrollback
