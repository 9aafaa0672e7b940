import Scrollback.Decimal.Fixed
/-!
# Binary fractions of 53 bits

Rates and means are numbers of the form `m · 2^e` in which `m` has at most 53 bits. Each operation
is that on ratios, rounded to the nearest number of the form, and to the even `m` of two. Numbers
are not negative; they are too small to need an upper end of the exponents, and `e` is never below
-1074.
-/

namespace Scrollback

/-- A number `mantissa · 2 ^ exponent`. -/
structure Binary64 where
  mantissa : Nat
  exponent : Int
  deriving DecidableEq, Repr

namespace Binary64

/-- The least mantissa of a number that has all 53 bits. -/
def leastFull : Nat :=
  1 <<< 52

/-- The numerator of the number as a ratio. -/
def num (x : Binary64) : Nat :=
  x.mantissa <<< x.exponent.toNat

/-- The denominator of the number as a ratio. -/
def den (x : Binary64) : Nat :=
  1 <<< (-x.exponent).toNat

def zero : Binary64 :=
  ⟨0, -1074⟩

def isZero (x : Binary64) : Bool :=
  x.mantissa == 0

/-- The integer nearest to `num / den · 2 ^ -exponent`. -/
def scaled (num den : Nat) (exponent : Int) : Nat :=
  Decimal.nearest (num <<< (-exponent).toNat) (den <<< exponent.toNat)

/-- The power of two that leaves 53 bits before the point of `num / den`, or the least power. -/
def exponentOf (num den : Nat) : Int :=
  let guess : Int := (num.log2 : Int) - den.log2 - 53
  let tooFine := 2 * leastFull ≤ (num <<< (-guess).toNat) / (den <<< guess.toNat)
  max (if tooFine then guess + 1 else guess) (-1074)

/-- The number nearest to a ratio. -/
def ofRatio (num den : Nat) : Binary64 :=
  if num = 0 then zero
  else
    let exponent := exponentOf num den
    let mantissa := scaled num den exponent
    if mantissa = 2 * leastFull then ⟨leastFull, exponent + 1⟩ else ⟨mantissa, exponent⟩

/-- The number nearest to an integer. -/
def ofNat (n : Nat) : Binary64 :=
  ofRatio n 1

def add (x y : Binary64) : Binary64 :=
  ofRatio (x.num * y.den + y.num * x.den) (x.den * y.den)

def mul (x y : Binary64) : Binary64 :=
  ofRatio (x.num * y.num) (x.den * y.den)

/-- The quotient by a number that is not zero. -/
def div (x y : Binary64) : Binary64 :=
  ofRatio (x.num * y.den) (x.den * y.num)

/-- The number as a word of exponent and fraction. -/
def bits (x : Binary64) : Nat :=
  if x.mantissa < leastFull then x.mantissa
  else (x.exponent + 1075).toNat * leastFull + (x.mantissa - leastFull)

def fixed (places : Nat) (x : Binary64) : String :=
  Decimal.fixed places x.num x.den

end Binary64

end Scrollback
