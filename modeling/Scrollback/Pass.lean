import Scrollback.Config
import Scrollback.Cursor
/-!
# One pass

A pass hands an input to a fresh history in fragments of random length, as a socket or a device
would get it, and reads back what the history retained, in pieces of fixed room. A fragment for
which memory was refused is tried again. The report can be checked: what was read back is the tail
of the input up to its last complete record.
-/

namespace Scrollback

/-- Where in a pass an error arose. -/
inductive Stage where
  | create
  | write (length : Nat)
  | stats
  | read
  | counters
  deriving DecidableEq, Repr

/-- What failed in a stage. -/
def Stage.message : Stage → String
  | create => "failed to create history"
  | write length => s!"failed to write {length} byte fragment"
  | stats => "failed to read history stats"
  | read => "failed to read history"
  | counters => "failed to read metrics"

/-- Why a pass failed. -/
structure PassError where
  stage : Stage
  cause : HistoryError
  deriving DecidableEq, Repr

/-- The wording of the error with all that is behind it. -/
def PassError.message (e : PassError) : String :=
  ": ".intercalate (e.stage.message :: e.cause.chain)

/-- What a pass produced. -/
structure Report where
  output : Bytes
  /-- Bytes of the input that went into complete records. -/
  completedInput : Nat
  /-- Bytes at the end of the input that no delimiter followed. -/
  unterminated : Nat
  retained : Nat
  metrics : Metrics
  deriving DecidableEq, Repr

namespace Report

/-- Whether what was read back is the tail of the completed input, and nothing is missing. -/
def verify (r : Report) (input : Bytes) (capacity : Nat) : Checked Bool :=
  if r.completedInput ≤ input.length then
    .ok (r.output.isSuffixOf (input.take r.completedInput) &&
      r.retained == min r.metrics.recordsCompleted capacity)
  else .error .sliceOutOfBounds

def finish (r : Report) (nanoseconds : Nat) : Report :=
  { r with metrics := r.metrics.complete nanoseconds }

end Report

namespace Pass

open Scrollback.Random (Draw)

/-- Steps of a pass that may find an invariant broken or fail. -/
abbrev Step := ExceptT PassError Checked

/-- A call on a history as part of a stage. -/
def during {α : Type} (stage : Stage) (call : Checked (Except HistoryError α)) : Step α :=
  ExceptT.mk do return (← call).mapError (PassError.mk stage)

/-- Cut an input into fragments of the lengths that a source draws, on top of fragments cut before,
the latest first. The last fragment takes what there is, and no fragment is empty. -/
def fragmentsFrom {σ : Type} (draw : σ → Nat × σ) (s : σ) (done : List Bytes) (input : Bytes) :
    List Bytes :=
  match input with
  | [] => done.reverse
  | b :: rest =>
    let drawn := draw s
    fragmentsFrom draw drawn.2 ((b :: rest.take (drawn.1 - 1)) :: done) (rest.drop (drawn.1 - 1))
termination_by input.length
decreasing_by
  simp only [List.length_drop, List.length_cons]
  omega

/-- The fragments of an input, with lengths from one to `longest`. No length can be drawn if the
longest is zero. -/
def fragments {σ : Type} (draw : Draw σ) (s : σ) (longest : Nat) (input : Bytes) :
    Checked (List Bytes) :=
  if input.isEmpty then .ok []
  else if h : 1 ≤ longest then .ok (fragmentsFrom (draw longest h) s [] input)
  else .error .emptyRange

/-- How often a fragment is tried again when memory was refused. -/
def retries : Nat :=
  2

/-- Write a fragment, from a given attempt on. Each attempt has an allowance of its own. -/
def writeFrom (h : History) (allowance : Nat → Allowance) (fragment : Bytes) (attempt : Nat) :
    (more : Nat) → Checked (Except HistoryError WriteOutcome × History)
  | 0 => h.write (allowance attempt) fragment
  | more + 1 => do
    match ← h.write (allowance attempt) fragment with
    | (.error e, h) =>
      if e.retryable then writeFrom h allowance fragment (attempt + 1) more
      else return (.error e, h)
    | (.ok outcome, h) => return (.ok outcome, h)

def writeRetrying (h : History) (allowance : Nat → Allowance) (fragment : Bytes) :
    Checked (Except HistoryError WriteOutcome × History) :=
  writeFrom h allowance fragment 0 retries

/-- The allowance of each attempt at each fragment. -/
abbrev Memory := Nat → Nat → Allowance

/-- Enough memory for everything. -/
def Memory.ample : Memory :=
  fun _ _ => none

/-- Write fragments one after the other, from a given number on. -/
def writeAll (h : History) (memory : Memory) (number : Nat) : List Bytes → Step History
  | [] => return h
  | fragment :: rest => do
    let next ← ExceptT.mk do
      match ← writeRetrying h (memory number) fragment with
      | (.ok _, next) => return .ok next
      | (.error e, _) => return .error ⟨.write fragment.length, e⟩
    writeAll next memory (number + 1) rest

def readBack (h : History) (room : Nat) : Step (Bytes × History) := do
  checkBlock room
  ExceptT.mk do
    match ← Cursor.opened.drain h room with
    | (.ok pieces, _, next) => return .ok (pieces.flatten, next)
    | (.error e, _, _) => return .error ⟨.read, e⟩

/-- Drive an input through a fresh history, in fragments whose lengths a source draws. -/
def performDrawing {σ : Type} (draw : Draw σ) (s : σ) (c : Config) (memory : Memory)
    (input : Bytes) : Step Report := do
  let empty ← during .create (History.create c.history)
  let written ← writeAll empty memory 0 (← fragments draw s c.maxFragment input)
  let stats ← during .stats written.stats
  let unterminated := stats.assembler.pendingBytes
  let (output, drained) ← readBack written c.readChunk
  let metrics ← during .counters drained.counters
  return {
    output
    completedInput := ← Word.sub input.length unterminated
    unterminated
    retained := stats.log.records
    metrics }

/-- Drive an input through a fresh history, with the lengths that the seed gives. -/
def perform (c : Config) (memory : Memory) (input : Bytes) : Step Report :=
  performDrawing (Random.wordSource.between 1) (Random.Stream.ofSeed c.seed) c memory input

end Pass

end Scrollback
