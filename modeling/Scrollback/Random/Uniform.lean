import Scrollback.Random.Stream
/-!
# Uniform numbers from a range

A random number below `2 ^ bits` is multiplied by the size of a range; the high part of the product
is a number of the range, and the low part tells whether it may be taken without favouring some
numbers. If not, the next random number is tried. The tries are bounded, so that a draw always ends;
at least every second number may be taken, which puts the bound out of reach.
-/

namespace Scrollback.Random

/-- The greatest multiple of a size by a power of two in `bits` bits, less one. -/
def shiftedZone (bits size : Nat) : Nat :=
  (size <<< (bits - 1 - size.log2)) - 1

/-- The greatest multiple of a size in `bits` bits, less one. -/
def multipleZone (bits size : Nat) : Nat :=
  (1 <<< bits) - 1 - ((1 <<< bits) - size) % size

/-- Which numbers a source draws from and which of its products it takes. -/
structure Source where
  bits : Nat
  range : Nat
  next : Stream → Nat × Stream
  /-- The greatest low part that is taken for a range of a given size. -/
  zone : Nat → Nat
  /-- Every pattern of bits is a random number. -/
  range_eq : range = 1 <<< bits := by decide

/-- The source for machine words. -/
def wordSource : Source where
  bits := 64
  range := 18446744073709551616
  next := Stream.next64
  zone := shiftedZone 64

/-- The source for numbers of 32 bits. -/
def intSource : Source where
  bits := 32
  range := 4294967296
  next := Stream.next32
  zone := shiftedZone 32

/-- The source for bytes. -/
def byteSource : Source where
  bits := 32
  range := 4294967296
  next := Stream.next32
  zone := multipleZone 32

/-- How many random numbers are tried for one draw. -/
def tries : Nat :=
  256

/-- A number below `size`, with some more tries. A product is taken if its low part is in `zone`. -/
def Source.drawFrom (source : Source) (size zone : Nat) : (fuel : Nat) → Stream → Nat × Stream
  | 0, s =>
    let (n, s) := source.next s
    ((n * size) >>> source.bits, s)
  | fuel + 1, s =>
    let (n, s) := source.next s
    let product := n * size
    if product % source.range ≤ zone then (product >>> source.bits, s)
    else drawFrom source size zone fuel s

/-- A number from `low` to `high`, both included. -/
def Source.between (source : Source) (low high : Nat) (_ : low ≤ high) : Stream → Nat × Stream :=
  let size := high - low + 1
  let zone := source.zone size
  fun s =>
    let (n, s) := source.drawFrom size zone tries s
    (low + n, s)

/-- A way to draw numbers from one to a highest one, from a source in some state. -/
abbrev Draw (σ : Type) := (highest : Nat) → 1 ≤ highest → σ → Nat × σ

end Scrollback.Random
