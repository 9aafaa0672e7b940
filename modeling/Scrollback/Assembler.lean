import Scrollback.Framing
import Scrollback.Pending
import Scrollback.Record
import Scrollback.Text.Indented
/-!
# Assembling records from fragments

Writers hand over bytes in whatever pieces their transport delivered. An assembler keeps the bytes
of the record that is not finished yet, in a buffer that is never cut short, and hands the buffer
itself over as the first record that a fragment completes.

An append asks for memory block by block and may be refused any of them. It has all of them before
it takes the first byte in, so a refused fragment may be appended again. `Assembler.demands` lists
the blocks, `Assembler.accept` is what a fragment does if none is refused.
-/

namespace Scrollback

/-- What one fragment completed. -/
inductive Assembly where
  /-- Nothing; the bytes are pending. -/
  | incomplete
  /-- One or more records, oldest first. -/
  | complete (records : List Record)
  deriving DecidableEq, Repr

namespace Assembly

def records : Assembly → List Record
  | incomplete => []
  | complete records => records

def isComplete : Assembly → Bool
  | incomplete => false
  | complete _ => true

def display : Assembly → String
  | incomplete => "Incomplete"
  | complete records => "Complete([" ++ ", ".intercalate (records.map Record.display) ++ "])"

/-- The display form over several lines. -/
def displayLines : Assembly → String
  | incomplete => "Incomplete"
  | complete [] => "Complete(\n    [],\n)"
  | complete records =>
    let items := records.map fun r =>
      String.ofList (Indented.indent (Indented.indent r.displayLines.toList)) ++ ",\n"
    "Complete(\n    [\n" ++ String.join items ++ "    ],\n)"

end Assembly

/-- A stream on its way into records. -/
structure Assembler where
  /-- The byte that ends a record. -/
  delimiter : UInt8
  /-- Which delimiters of a fragment count. -/
  policy : Framing
  /-- The bytes of the record that is not finished. -/
  pending : Pending
  /-- Bytes that the pending buffer has room for. -/
  room : Nat
  recordsCompleted : Nat
  bytesAppended : Nat
  deriving DecidableEq, Repr

structure AssemblerStats where
  pendingBytes : Nat
  recordsCompleted : Nat
  bytesAppended : Nat
  deriving DecidableEq, Repr

namespace Assembler

def defaultDelimiter : UInt8 :=
  10

/-- An assembler that has seen nothing. -/
def fresh (delimiter : UInt8) (policy : Framing) : Assembler :=
  ⟨delimiter, policy, .empty, 0, 0, 0⟩

def isIdle (a : Assembler) : Bool :=
  a.pending.isEmpty

def stats (a : Assembler) : AssemblerStats :=
  ⟨a.pending.length, a.recordsCompleted, a.bytesAppended⟩

/-! ### Memory -/

/-- The least buffer that grows by appending. -/
def leastRoom : Nat :=
  8

/-- Whether the pending buffer has to grow for some more bytes. -/
def mustGrow (a : Assembler) (more : Nat) : Bool :=
  a.room - a.pending.length < more

/-- The room of a pending buffer that grew to append some more bytes: at least twice the old. -/
def grownRoom (a : Assembler) (more : Nat) : Nat :=
  max (max (2 * a.room) (a.pending.length + more)) leastRoom

/-- The room of a new pending buffer for some bytes. -/
def freshRoom (bytes : Bytes) : Nat :=
  if bytes.isEmpty then 0 else max leastRoom bytes.length

/-- The memory that a growing table needs for one entry more than it holds: it starts with four
entries and doubles when it is full. -/
def tableDemands (held : Nat) : List Demand :=
  if held = 0 then [⟨Record.entrySize * 4, 1⟩]
  else if 4 ≤ held ∧ 1 <<< held.log2 = held then [⟨Record.entrySize * (2 * held), 1⟩]
  else []

/-- The memory for copies of lines, collected in a growing table. -/
def lineDemands (lines : List Bytes) : List Demand :=
  lines.zipIdx.flatMap fun (line, held) => tableDemands held ++ Record.copyDemands line

/-- The memory for a fragment without delimiter. -/
def extendDemands (a : Assembler) (fragment : Bytes) : List Demand :=
  if a.mustGrow fragment.length then [⟨a.grownRoom fragment.length, fragment.length⟩] else []

/-- The memory to finish the pending record with some bytes, in a buffer of just that size. -/
def finishDemands (a : Assembler) (bytes : Bytes) : List Demand :=
  if a.mustGrow bytes.length then [⟨a.pending.length + bytes.length, bytes.length⟩] else []

/-- The memory for the buffer that takes the place of the pending one. -/
def nextDemands (rest : Bytes) : List Demand :=
  if rest.isEmpty then [] else [⟨freshRoom rest, rest.length⟩]

/-- The memory for a list of some records. -/
def listDemands (count : Nat) : List Demand :=
  [⟨Record.entrySize * count, count⟩]

/-- All the memory that a fragment needs, in the order in which it is asked for. -/
def demands (a : Assembler) (fragment : Bytes) : List Demand :=
  match Framing.cut a.delimiter fragment, a.policy with
  | ([], _), _ => a.extendDemands fragment
  | (head :: tail, rest), .split =>
    lineDemands tail ++ nextDemands rest ++ listDemands (tail.length + 1) ++ a.finishDemands head
  | (_ :: _, _), .firstDelimiter => listDemands 1 ++ a.finishDemands fragment

/-! ### Operations -/

/-- What a fragment does if all memory is granted. -/
def accept (a : Assembler) (fragment : Bytes) : Assembly × Assembler :=
  let bytesAppended := a.bytesAppended + fragment.length
  match Framing.cut a.delimiter fragment, a.policy with
  | ([], _), _ =>
    let room := if a.mustGrow fragment.length then a.grownRoom fragment.length else a.room
    (.incomplete, { a with pending := a.pending.append fragment, room, bytesAppended })
  | (head :: tail, rest), .split =>
    (.complete (.ofBytes (a.pending.append head).bytes :: tail.map .ofBytes),
      { a with
        pending := .ofBytes rest
        room := freshRoom rest
        recordsCompleted := a.recordsCompleted + (tail.length + 1)
        bytesAppended })
  | (_ :: _, _), .firstDelimiter =>
    (.complete [.ofBytes (a.pending.append fragment).bytes],
      { a with
        pending := .empty
        room := 0
        recordsCompleted := a.recordsCompleted + 1
        bytesAppended })

def request (allowance : Allowance) (demands : List Demand) : Except HistoryError Unit :=
  match allowance.refused? demands with
  | some demand => .error (.alloc demand.request)
  | none => .ok ()

/-- See that the pending buffer has room for some more bytes. If it has to grow, it becomes as
large as given. -/
def reserve (a : Assembler) (allowance : Allowance) (more size : Nat) :
    Except HistoryError Unit × Assembler :=
  if a.mustGrow more then
    match request allowance [⟨size, more⟩] with
    | .error e => (.error e, a)
    | .ok () => (.ok (), { a with room := size })
  else (.ok (), a)

/-- Take in a fragment without delimiter. -/
def extend (a : Assembler) (allowance : Allowance) (fragment : Bytes) :
    Except HistoryError Assembly × Assembler :=
  match a.reserve allowance fragment.length (a.grownRoom fragment.length) with
  | (.error e, a) => (.error e, a)
  | (.ok (), a) =>
    (.ok .incomplete, { a with
      pending := a.pending.append fragment
      bytesAppended := a.bytesAppended + fragment.length })

/-- Copy lines into a growing table, on top of copies made before, the latest first. -/
def copyLines (allowance : Allowance) (held : Nat) (copies : List Record) :
    List Bytes → Except HistoryError (List Record)
  | [] => .ok copies.reverse
  | line :: lines => do
    request allowance (tableDemands held)
    let copy ← Record.copyOf allowance line
    copyLines allowance (held + 1) (copy :: copies) lines

/-- Obtain what a split needs beside the pending buffer: copies of the lines after the first one, a
buffer for what follows the last delimiter, and the list to return. -/
def prepare (allowance : Allowance) (tail : List Bytes) (rest : Bytes) :
    Except HistoryError (List Record) := do
  let copies ← copyLines allowance 0 [] tail
  request allowance (nextDemands rest)
  request allowance (listDemands (copies.length + 1))
  return copies

/-- Complete a record at each delimiter of a fragment that is cut already. -/
def splitAll (a : Assembler) (allowance : Allowance) (head : Bytes) (tail : List Bytes)
    (rest : Bytes) : Except HistoryError (List Record) × Assembler :=
  match prepare allowance tail rest with
  | .error e => (.error e, a)
  | .ok copies =>
    match a.reserve allowance head.length (a.pending.length + head.length) with
    | (.error e, a) => (.error e, a)
    | (.ok (), a) =>
      (.ok (.ofBytes (a.pending.append head).bytes :: copies),
        { a with pending := .ofBytes rest, room := freshRoom rest })

/-- Complete the pending record with a whole fragment. -/
def foldIntoOne (a : Assembler) (allowance : Allowance) (fragment : Bytes) :
    Except HistoryError (List Record) × Assembler :=
  match request allowance (listDemands 1) with
  | .error e => (.error e, a)
  | .ok () =>
    match a.reserve allowance fragment.length (a.pending.length + fragment.length) with
    | (.error e, a) => (.error e, a)
    | (.ok (), a) =>
      (.ok [.ofBytes (a.pending.append fragment).bytes],
        { a with pending := .empty, room := 0 })

/-- Count the records that a fragment of some length completed, unless memory was refused. -/
def complete (length : Nat) :
    Except HistoryError (List Record) × Assembler → Except HistoryError Assembly × Assembler
  | (.error e, a) => (.error e, a)
  | (.ok records, a) =>
    (.ok (.complete records), { a with
      recordsCompleted := a.recordsCompleted + records.length
      bytesAppended := a.bytesAppended + length })

/-- Take a fragment in step by step: what it completed or why it was refused, and the assembler as
it then is. -/
def feed (a : Assembler) (allowance : Allowance) (fragment : Bytes) :
    Except HistoryError Assembly × Assembler :=
  match Framing.cut a.delimiter fragment, a.policy with
  | ([], _), _ => a.extend allowance fragment
  | (head :: tail, rest), .split => complete fragment.length (a.splitAll allowance head tail rest)
  | (_ :: _, _), .firstDelimiter => complete fragment.length (a.foldIntoOne allowance fragment)

/-- Append a fragment: the records it completed, and the assembler after it. -/
def append (a : Assembler) (allowance : Allowance) (fragment : Bytes) :
    Except HistoryError (Assembly × Assembler) :=
  match a.feed allowance fragment with
  | (.error e, _) => .error e
  | (.ok assembly, next) => .ok (assembly, next)

/-- Drop the record that is not finished: the number of bytes dropped, and the idle assembler. -/
def discard (a : Assembler) : Nat × Assembler :=
  (a.pending.length, { a with pending := .empty, room := 0 })

end Assembler

end Scrollback
