/-!
# Memory allowance

A call states every block of memory that it is going to need, in order, before it changes anything.
It runs under an allowance that refuses blocks above some size; the first refusal ends the call.
-/

namespace Scrollback

/-- One block of memory that a call needs. -/
structure Demand where
  /-- Bytes in the block. -/
  size : Nat
  /-- What the caller is told was asked for if the block is refused. -/
  request : Nat
  deriving DecidableEq, Repr

/-- The greatest block that is granted, `none` if every block is. -/
abbrev Allowance := Option Nat

/-- Whether a block of some size is granted. -/
def Allowance.grants (allowance : Allowance) (size : Nat) : Bool :=
  match allowance with
  | none => true
  | some greatest => size ≤ greatest

/-- The first demand that is refused. -/
def Allowance.refused? (allowance : Allowance) (demands : List Demand) : Option Demand :=
  demands.find? fun demand => !allowance.grants demand.size

end Scrollback
