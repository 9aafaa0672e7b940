import Scrollback.Log.Basic
/-!
# The log as one byte string

The retained data is addressed as the concatenation of the live records, oldest first. A byte on the
border of two records belongs to the later one. A read never crosses that border: as a character
device does, it returns bytes of one record at a time, and none at the end of the data.
-/

namespace Scrollback.Log

def nextSlot (l : Log) (index : Nat) : Nat :=
  if index + 1 = l.capacity then 0 else index + 1

/-- Search the given number of live records, from a slot on, for the one that holds a distance. -/
def scan (l : Log) : (count index distance : Nat) → Checked (Option (Record × Nat))
  | 0, _, _ => .ok none
  | count + 1, index, distance =>
    match l.slots[index]? with
    | none => .error .slotOutOfBounds
    | some none => .error .vacantSlot
    | some (some r) =>
      if distance < r.length then .ok (some (r, distance))
      else scan l count (l.nextSlot index) (distance - r.length)

/-- The record that holds the byte at an offset, with the offset of that byte in the record. -/
def resolve (l : Log) (offset : Nat) : Checked (Option (Record × Nat)) := do
  let count ← l.length
  let _ ← Word.add l.read count
  match ← l.scan count l.read offset with
  | some place => .ok (some place)
  | none => if offset < l.liveBytes then .error .shortScan else .ok none

/-- The bytes that a read at an offset returns if there is room for `room` bytes. -/
def readAt (l : Log) (offset room : Nat) : Checked Bytes := do
  match ← l.resolve offset with
  | none => .ok []
  | some (r, start) =>
    if start ≤ r.length then .ok (r.slice start room) else .error .sliceOutOfBounds

/-- Read at an offset into a buffer: the number of bytes read, and the buffer. -/
def readInto (l : Log) (offset : Nat) (buffer : Bytes) : Checked (Nat × Bytes) := do
  let data ← l.readAt offset buffer.length
  return (data.length, ← Bytes.fill buffer data)

/-- The memory that a copy of all retained data needs. -/
def contentsDemands (l : Log) : List Demand :=
  if l.liveBytes = 0 then [] else [⟨l.liveBytes, l.liveBytes⟩]

def contents (l : Log) (allowance : Allowance) : Checked (Except HistoryError Bytes) :=
  match allowance.refused? l.contentsDemands with
  | some demand => .ok (.error (.alloc demand.request))
  | none => do return .ok ((← l.records).flatMap Record.bytes)

end Scrollback.Log
