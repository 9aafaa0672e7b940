import Scrollback.Event
import Scrollback.Pass
/-!
# What is logged of a pass

Each write tells of the records that it completed and of those that it evicted, or of its refusal,
and each further attempt of the one that failed. When all is written, that is told, with a warning
if the input ends within a record, and so is the end of reading.

A pass that fails or breaks off has told what it did up to there.
-/

namespace Scrollback

namespace Event

/-- A fragment was refused. -/
def rejected (length : Nat) (e : HistoryError) : Event :=
  ⟨.warning, "fragment rejected", [("len", toString length), ("error", e.message)]⟩

/-- A fragment completed a record. -/
def completed (r : Record) : Event :=
  ⟨.detail, "record completed", [("len", toString r.length)]⟩

/-- A record is pushed out of a full log. -/
def evicting (r : Record) : Event :=
  ⟨.detail, "evicting oldest record", [("len", toString r.length)]⟩

/-- An attempt failed, and another one follows. -/
def retrying (attempt : Nat) (e : HistoryError) : Event :=
  ⟨.warning, "write failed, retrying", [("attempt", toString attempt), ("error", e.message)]⟩

def written (fragments bytes : Nat) : Event :=
  ⟨.detail, "input written", [("fragments", toString fragments), ("bytes", toString bytes)]⟩

def unterminated (bytes : Nat) : Event :=
  ⟨.warning, "input ends with an unterminated command", [("bytes", toString bytes)]⟩

def readBack (r : Report) : Event :=
  ⟨.information, "history read back", [("retained", toString r.retained),
    ("bytes", toString r.output.length), ("evicted", toString r.metrics.recordsEvicted)]⟩

end Event

/-- The records that a log gives up while it retains others. -/
def Log.givenUp (l : Log) : List Record → List Record
  | [] => []
  | r :: rest =>
    match l.insert r with
    | .ok (none, next) => givenUp next rest
    | .ok (some e, next) => e.record :: givenUp next rest
    | .error _ => []

/-- What is logged of a write. -/
def History.writeEvents (h : History) (allowance : Allowance) (fragment : Bytes) : List Event :=
  if h.poisoned then []
  else match (h.assembler.feed allowance fragment).1 with
    | .error e => [.rejected fragment.length e]
    | .ok assembly =>
      assembly.records.map .completed ++ (h.log.givenUp assembly.records).map .evicting

namespace Pass

open Scrollback.Random (Draw)

/-- What is logged of the attempts at a fragment, from a given one on. -/
def attemptEvents (h : History) (allowance : Nat → Allowance) (fragment : Bytes) (attempt : Nat) :
    (more : Nat) → List Event
  | 0 => h.writeEvents (allowance attempt) fragment
  | more + 1 =>
    h.writeEvents (allowance attempt) fragment ++
      match h.write (allowance attempt) fragment with
      | .ok (.error e, next) =>
        if e.retryable then
          .retrying (attempt + 1) e :: attemptEvents next allowance fragment (attempt + 1) more
        else []
      | .ok (.ok _, _) | .error _ => []

/-- What is logged of writing fragments one after the other, from a given number on. -/
def writingEvents (h : History) (memory : Memory) (number : Nat) : List Bytes → List Event
  | [] => []
  | fragment :: rest =>
    attemptEvents h (memory number) fragment 0 retries ++
      match writeRetrying h (memory number) fragment with
      | .ok (.ok _, next) => writingEvents next memory (number + 1) rest
      | .ok (.error _, _) | .error _ => []

/-- What is logged when all fragments of an input are written. -/
def writtenEvents (h : History) (fragments : List Bytes) (input : Bytes) : List Event :=
  let pending := h.assembler.pending.length
  .written fragments.length input.length :: if pending = 0 then [] else [.unterminated pending]

/-- What is logged of a pass with the lengths that a source draws. -/
def eventsDrawing {σ : Type} (draw : Draw σ) (s : σ) (c : Config) (memory : Memory)
    (input : Bytes) : List Event :=
  match History.create c.history, fragments draw s c.maxFragment input with
  | .ok (.ok empty), .ok parts =>
    writingEvents empty memory 0 parts ++
      match (writeAll empty memory 0 parts).run with
      | .ok (.ok written) =>
        writtenEvents written parts input ++
          match (performDrawing draw s c memory input).run with
          | .ok (.ok report) => [.readBack report]
          | .ok (.error _) | .error _ => []
      | .ok (.error _) | .error _ => []
  | _, _ => []

/-- What is logged of a pass with the lengths that the seed gives. -/
def events (c : Config) (memory : Memory) (input : Bytes) : List Event :=
  eventsDrawing (Random.wordSource.between 1) (Random.Stream.ofSeed c.seed) c memory input

end Pass

end Scrollback
