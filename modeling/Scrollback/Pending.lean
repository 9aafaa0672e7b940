import Scrollback.Bytes
/-!
# Pending bytes

The bytes of a record under way arrive in pieces, often one byte at a time. They are kept as they
came, so that one more piece costs the same however many are there, and put together only when the
record is complete. `Pending.bytes` is what they are together.
-/

namespace Scrollback

/-- Bytes that arrived in pieces. -/
structure Pending where
  /-- The pieces, the latest first. -/
  pieces : List Bytes
  length : Nat
  /-- No byte is counted twice or left out. -/
  length_eq_flatten : length = pieces.flatten.length
  deriving DecidableEq, Repr

namespace Pending

def empty : Pending :=
  ⟨[], 0, rfl⟩

def append (p : Pending) (piece : Bytes) : Pending :=
  ⟨piece :: p.pieces, piece.length + p.length, by simp [p.length_eq_flatten]⟩

def ofBytes (piece : Bytes) : Pending :=
  empty.append piece

/-- The bytes in the order in which they came. -/
def bytes (p : Pending) : Bytes :=
  p.pieces.reverse.flatten

def isEmpty (p : Pending) : Bool :=
  p.length == 0

@[simp] theorem bytes_empty : empty.bytes = [] := rfl

@[simp] theorem bytes_append (p : Pending) (piece : Bytes) :
    (p.append piece).bytes = p.bytes ++ piece := by
  simp [append, bytes]

@[simp] theorem bytes_ofBytes (piece : Bytes) : (ofBytes piece).bytes = piece := by
  simp [ofBytes]

theorem length_eq (p : Pending) : p.length = p.bytes.length := by
  simp [p.length_eq_flatten, bytes]

theorem isEmpty_eq (p : Pending) : p.isEmpty = p.bytes.isEmpty := by
  rw [isEmpty, length_eq, Bool.eq_iff_iff]
  simp [List.length_eq_zero_iff]

end Pending

end Scrollback
