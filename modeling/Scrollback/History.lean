import Scrollback.Assembler
import Scrollback.Log.Address
import Scrollback.Metrics
/-!
# Command history

A history is an assembler, a log and their counters behind one lock. A write is one append and the
insertion of every record that it completed; a read is one look-up and one copy. Nothing is held
from one call to the next, so a reader may see writes that land between its calls.

Once a holder of the lock has died, each call that needs the lock fails and changes nothing.
-/

namespace Scrollback

/-- What a history is made of. -/
structure Settings where
  /-- Records retained before the oldest is evicted. -/
  capacity : Nat
  /-- The byte that ends a record. -/
  delimiter : UInt8
  /-- Which delimiters of a fragment count. -/
  policy : Framing
  deriving DecidableEq, Repr

def Settings.standard : Settings :=
  ⟨Log.defaultCapacity, Assembler.defaultDelimiter, .split⟩

/-- What one write did. -/
structure WriteOutcome where
  /-- Bytes taken in: all of the fragment. -/
  accepted : Nat
  completed : Nat
  evicted : Nat
  deriving DecidableEq, Repr

structure HistoryStats where
  log : LogStats
  assembler : AssemblerStats
  deriving DecidableEq, Repr

/-- A bounded history of commands. -/
structure History where
  settings : Settings
  assembler : Assembler
  log : Log
  metrics : Metrics
  /-- Whether a holder of the lock has died. -/
  poisoned : Bool
  deriving DecidableEq, Repr

namespace History

def ofLog (settings : Settings) (log : Log) : History :=
  ⟨settings, .fresh settings.delimiter settings.policy, log, .fresh, false⟩

def create (settings : Settings) : Checked (Except HistoryError History) := do
  return (← Log.create settings.capacity).map (ofLog settings)

/-- Look at a history under its lock. -/
def inspect {α : Type} (h : History) (look : Checked (Except HistoryError α)) :
    Checked (Except HistoryError α) :=
  if h.poisoned then .ok (.error .lockPoisoned) else look

/-- Change a history under its lock. -/
@[inline] def change {α : Type} (h : History)
    (act : History → Checked (Except HistoryError α × History)) :
    Checked (Except HistoryError α × History) :=
  if h.poisoned then .ok (.error .lockPoisoned, h) else act h

/-- While the lock is alive, to look is just that. -/
theorem inspect_of_alive {α : Type} {h : History} (hlock : h.poisoned = false)
    (look : Checked (Except HistoryError α)) : h.inspect look = look := by
  simp [inspect, hlock]

theorem change_of_alive {α : Type} {h : History} (hlock : h.poisoned = false)
    (act : History → Checked (Except HistoryError α × History)) : h.change act = act h := by
  simp [change, hlock]

/-- A dead lock lets nobody look, and nobody change anything. -/
theorem inspect_of_dead {α : Type} {h : History} (hdead : h.poisoned = true)
    (look : Checked (Except HistoryError α)) : h.inspect look = .ok (.error .lockPoisoned) :=
  if_pos hdead

theorem change_of_dead {α : Type} {h : History} (hdead : h.poisoned = true)
    (act : History → Checked (Except HistoryError α × History)) :
    h.change act = .ok (.error .lockPoisoned, h) :=
  if_pos hdead

/-! ### Writing -/

/-- The counters after a write was refused. -/
def countRefusal (m : Metrics) : Metrics :=
  { m with allocFailures := m.allocFailures + 1 }

/-- The counters after a write with some outcome. -/
def countWrite (m : Metrics) (outcome : WriteOutcome) (evictedBytes : Nat) : Metrics :=
  { m with
    fragmentsWritten := m.fragmentsWritten + 1
    bytesWritten := m.bytesWritten + outcome.accepted
    recordsCompleted := m.recordsCompleted + outcome.completed
    recordsEvicted := m.recordsEvicted + outcome.evicted
    bytesEvicted := m.bytesEvicted + evictedBytes }

/-- Take a fragment in and retain the records that it completes. -/
def write (h : History) (allowance : Allowance) (fragment : Bytes) :
    Checked (Except HistoryError WriteOutcome × History) :=
  h.change fun h => do
    match h.assembler.feed allowance fragment with
    | (.error e, assembler) =>
      return (.error e, { h with assembler, metrics := countRefusal h.metrics })
    | (.ok assembly, assembler) =>
      let (log, evicted, evictedBytes) ← h.log.retain 0 0 assembly.records
      let outcome : WriteOutcome := ⟨fragment.length, assembly.records.length, evicted⟩
      let metrics := countWrite h.metrics outcome evictedBytes
      return (.ok outcome, { h with assembler, log, metrics })

/-! ### Reading -/

/-- The counters after a read that returned some bytes into some room. -/
def countRead (m : Metrics) (room count : Nat) : Metrics :=
  { m with
    reads := m.reads + 1
    bytesRead := m.bytesRead + count
    readsAtEnd := if count = 0 ∧ room ≠ 0 then m.readsAtEnd + 1 else m.readsAtEnd }

/-- The bytes at an offset, up to the end of the record there. -/
def readAt (h : History) (offset room : Nat) : Checked (Except HistoryError Bytes × History) :=
  h.change fun h => do
    let data ← h.log.readAt offset room
    return (.ok data, { h with metrics := countRead h.metrics room data.length })

/-- Read at a position and move it past the bytes read. -/
def read (h : History) (position room : Nat) :
    Checked (Except HistoryError Bytes × Nat × History) := do
  match ← h.readAt position room with
  | (.error e, next) => return (.error e, position, next)
  | (.ok data, next) => return (.ok data, ← Word.add position data.length, next)

/-- Read at a position into a buffer: the number of bytes, the buffer and the position after it. -/
def readInto (h : History) (position : Nat) (buffer : Bytes) :
    Checked (Except HistoryError Nat × Bytes × Nat × History) := do
  match ← h.read position buffer.length with
  | (.error e, after, next) => return (.error e, buffer, after, next)
  | (.ok data, after, next) => return (.ok data.length, ← Bytes.fill buffer data, after, next)

def contents (h : History) (allowance : Allowance) : Checked (Except HistoryError Bytes) :=
  h.inspect (h.log.contents allowance)

def totalLength (h : History) : Checked (Except HistoryError Nat) :=
  h.inspect (.ok (.ok h.log.liveBytes))

/-- The log and the assembler in numbers. -/
def stats (h : History) : Checked (Except HistoryError HistoryStats) :=
  h.inspect do return .ok ⟨← h.log.stats, h.assembler.stats⟩

def counters (h : History) : Checked (Except HistoryError Metrics) :=
  h.inspect (.ok (.ok h.metrics))

/-! ### Clearing -/

/-- The counters after some pending bytes were dropped. -/
def countDiscard (m : Metrics) (dropped : Nat) : Metrics :=
  if dropped = 0 then m else { m with partialsDiscarded := m.partialsDiscarded + 1 }

/-- Drop the unfinished record and tell its length. -/
def discard (h : History) : Checked (Except HistoryError Nat × History) :=
  h.change fun h => do
    let (dropped, assembler) := h.assembler.discard
    return (.ok dropped, { h with assembler, metrics := countDiscard h.metrics dropped })

/-- Give every record back, oldest first, and drop the unfinished one. -/
def teardown (h : History) : Checked (Except HistoryError (List Record) × History) :=
  h.change fun h => do
    let (dropped, assembler) := h.assembler.discard
    let (released, log) ← h.log.teardown
    return (.ok released, { h with assembler, log, metrics := countDiscard h.metrics dropped })

/-- Let a holder of the lock die, if one can take it. -/
def poison (h : History) : Bool × History :=
  (!h.poisoned, { h with poisoned := true })

end History

end Scrollback
