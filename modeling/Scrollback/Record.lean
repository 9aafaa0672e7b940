import Scrollback.Allowance
import Scrollback.HistoryError
import Scrollback.Text.Quoted
import Scrollback.Text.Utf8
/-!
# Records

A record is one complete command, its delimiter included. A record that a full log gave up is an
`Evicted` one. Both have a display form: the text in quotes if the bytes are UTF-8, otherwise the
list of the bytes.
-/

namespace Scrollback

/-- One complete command. -/
structure Record where
  /-- The bytes of the command by position. -/
  data : Array UInt8
  deriving DecidableEq, Repr

namespace Record

def ofBytes (bytes : Bytes) : Record :=
  ⟨bytes.toArray⟩

def bytes (r : Record) : Bytes :=
  r.data.toList

def length (r : Record) : Nat :=
  r.data.size

def isEmpty (r : Record) : Bool :=
  r.data.isEmpty

/-- The bytes from a position on, as many as there is room for. -/
def slice (r : Record) (start room : Nat) : Bytes :=
  (r.data.extract start (start + room)).toList

@[simp] theorem bytes_ofBytes (bytes : Bytes) : (ofBytes bytes).bytes = bytes := rfl

@[simp] theorem ofBytes_bytes (r : Record) : ofBytes r.bytes = r := rfl

theorem length_eq (r : Record) : r.length = r.bytes.length := by
  simp [length, bytes]

theorem isEmpty_eq (r : Record) : r.isEmpty = r.bytes.isEmpty := by
  simp [isEmpty, bytes]

theorem slice_eq (r : Record) (start room : Nat) :
    r.slice start room = (r.bytes.drop start).take room := by
  simp [slice, bytes]

/-- Bytes that one entry takes in a table of records. -/
def entrySize : Nat :=
  24

/-- The memory that a copy of some bytes needs. -/
def copyDemands (bytes : Bytes) : List Demand :=
  if bytes.isEmpty then [] else [⟨bytes.length, bytes.length⟩]

/-- A record of copied bytes. -/
def copyOf (allowance : Allowance) (bytes : Bytes) : Except HistoryError Record :=
  match allowance.refused? (copyDemands bytes) with
  | some demand => .error (.alloc demand.request)
  | none => .ok (ofBytes bytes)

def decimals (r : Record) : List String :=
  r.bytes.map (toString ·.toNat)

def display (r : Record) : String :=
  match Utf8.decode? r.bytes with
  | some text => "Record(" ++ String.ofList (Quoted.quote text) ++ ")"
  | none => "Record([" ++ ", ".intercalate r.decimals ++ "])"

/-- The display form over several lines, indented by four blanks. -/
def displayLines (r : Record) : String :=
  match Utf8.decode? r.bytes with
  | some text => "Record(\n    " ++ String.ofList (Quoted.quote text) ++ ",\n)"
  | none =>
    let items := r.decimals.map fun n => "        " ++ n ++ ",\n"
    "Record(\n    [\n" ++ String.join items ++ "    ],\n)"

end Record

/-- A record that a full log gave up for a newer one. -/
structure Evicted where
  /-- The record, again the caller's. -/
  record : Record
  deriving DecidableEq, Repr

def Evicted.display (e : Evicted) : String :=
  "EvictedRecord(" ++ e.record.display ++ ")"

end Scrollback
