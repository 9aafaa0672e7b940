import Scrollback.Checked
import Scrollback.Record
/-!
# A ring of records

A log retains at most `capacity` records. To insert into a full log gives its oldest record back.
The records live in the slots from the read cursor on, wrapping at the end of the array:

```
empty     |r/w                    |   read = write, not full
partial   |r---------->w          |   live from read to write
full      |------->r/w------------|   live from read to the end, then from 0 to write
```

`Log.toList` is the view of the log as a queue, oldest record first. The operations never look at
it: they walk the slots and stop at the first one that breaks the layout.
-/

namespace Scrollback

/-- A bounded queue of records. -/
structure Log where
  /-- One optional record for each slot. -/
  slots : Array (Option Record)
  /-- The next slot to fill. -/
  write : Nat
  /-- The oldest live slot. -/
  read : Nat
  /-- Tells a full log from an empty one when the cursors meet. -/
  full : Bool
  /-- Bytes in all live records. -/
  liveBytes : Nat
  deriving DecidableEq, Repr

inductive Occupancy where
  | empty
  | partiallyFull
  | full
  deriving DecidableEq, Repr

def Occupancy.name : Occupancy → String
  | empty => "Empty"
  | partiallyFull => "PartiallyFull"
  | full => "Full"

structure LogStats where
  records : Nat
  /-- Records that can be retained. -/
  capacity : Nat
  liveBytes : Nat
  occupancy : Occupancy
  deriving DecidableEq, Repr

namespace Log

/-- The records that a log retains if nothing else is asked for. -/
def defaultCapacity : Nat :=
  10

def vacant (capacity : Nat) : Log :=
  ⟨Array.replicate capacity none, 0, 0, false, 0⟩

def create (capacity : Nat) : Checked (Except HistoryError Log) :=
  if capacity = 0 then .ok (.error (.invalidCapacity capacity))
  else do
    checkBlock (Record.entrySize * capacity)
    .ok (.ok (vacant capacity))

/-- Records that can be retained. -/
def capacity (l : Log) : Nat :=
  l.slots.size

def isEmpty (l : Log) : Bool :=
  !l.full && l.write == l.read

def occupancy (l : Log) : Occupancy :=
  if l.full then .full else if l.isEmpty then .empty else .partiallyFull

def length (l : Log) : Checked Nat :=
  if l.full then .ok l.capacity
  else do Word.mod (← Word.sub (← Word.add l.write l.capacity) l.read) l.capacity

def stats (l : Log) : Checked LogStats := do
  return ⟨← l.length, l.capacity, l.liveBytes, l.occupancy⟩

/-- The slot of the live record with a given rank, oldest first. -/
def slotIndex (l : Log) (rank : Nat) : Checked Nat := do
  Word.mod (← Word.add l.read rank) l.capacity

def cell (l : Log) (index : Nat) : Checked (Option Record) :=
  match l.slots[index]? with
  | some content => .ok content
  | none => .error .slotOutOfBounds

def live (l : Log) (rank : Nat) : Checked Record := do
  match ← l.cell (← l.slotIndex rank) with
  | some r => .ok r
  | none => .error .vacantSlot

/-- The live records, oldest first. -/
def records (l : Log) : Checked (List Record) := do
  (List.range (← l.length)).mapM l.live

/-- Make room under the write cursor: a full log gives up its oldest record. -/
def vacate (l : Log) : Checked (Option Evicted × Log) :=
  if l.full then do
    match ← l.cell l.write with
    | none => .error .vacantSlot
    | some oldest =>
      let read ← Word.mod (← Word.add l.read 1) l.capacity
      let liveBytes ← Word.sub l.liveBytes oldest.length
      .ok (some ⟨oldest⟩,
        { l with slots := l.slots.setIfInBounds l.write none, read, liveBytes })
  else .ok (none, l)

/-- Fill the vacant slot under the write cursor and move the cursor on. -/
def store (l : Log) (r : Record) : Checked Log := do
  match ← l.cell l.write with
  | some _ => .error .occupiedSlot
  | none =>
    let write ← Word.mod (← Word.add l.write 1) l.capacity
    let liveBytes ← Word.add l.liveBytes r.length
    .ok { l with
      slots := l.slots.setIfInBounds l.write (some r)
      write, liveBytes
      full := l.full || write == l.read }

/-- Retain a record as the newest, and give back the oldest if there was no room. -/
def insert (l : Log) (r : Record) : Checked (Option Evicted × Log) := do
  let (evicted, roomy) ← l.vacate
  return (evicted, ← roomy.store r)

/-- Retain records one after the other, on top of a count of evicted records and of their bytes. -/
def retain (l : Log) (evicted evictedBytes : Nat) : List Record → Checked (Log × Nat × Nat)
  | [] => .ok (l, evicted, evictedBytes)
  | r :: rest => do
    match ← l.insert r with
    | (none, next) => retain next evicted evictedBytes rest
    | (some e, next) => retain next (evicted + 1) (evictedBytes + e.record.length) rest

/-- Take the live records of the given ranks out of their slots. -/
def takeRanks (l : Log) : List Nat → Checked (List Record × Log)
  | [] => .ok ([], l)
  | rank :: ranks => do
    let index ← l.slotIndex rank
    match ← l.cell index with
    | none => .error .vacantSlot
    | some r =>
      let (taken, rest) ← takeRanks { l with slots := l.slots.setIfInBounds index none } ranks
      return (r :: taken, rest)

/-- Give every record back, oldest first, and start afresh. -/
def teardown (l : Log) : Checked (List Record × Log) := do
  let (released, rest) ← l.takeRanks (List.range (← l.length))
  return (released, { rest with write := 0, read := 0, full := false, liveBytes := 0 })

/-- The number of live records as the cursors and the flag tell it. -/
def span (l : Log) : Nat :=
  if l.full then l.capacity else (l.write + l.capacity - l.read) % l.capacity

/-- The log as a queue: the live records, oldest first. -/
def toList (l : Log) : List Record :=
  (List.range l.span).filterMap fun rank => (l.slots[(l.read + rank) % l.capacity]?).join

end Log

end Scrollback
