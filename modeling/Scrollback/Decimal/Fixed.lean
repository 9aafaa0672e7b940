/-!
# Decimals with a fixed number of places

A ratio of natural numbers is written with a given number of places after the point. What does not
fit is rounded to the nearer neighbour, and a half to the even one.
-/

namespace Scrollback.Decimal

/-- The integer nearest to `num / den`, and the even one of two. -/
def nearest (num den : Nat) : Nat :=
  let quotient := num / den
  let twice := 2 * (num % den)
  if twice < den ∨ (twice = den ∧ quotient % 2 = 0) then quotient else quotient + 1

/-- The decimal digits of a number, with zeros before them up to a least width. -/
def padded (width n : Nat) : String :=
  let digits := Nat.toDigits 10 n
  String.ofList (List.replicate (width - digits.length) '0' ++ digits)

/-- A ratio with a fixed, positive number of places. -/
def fixed (places num den : Nat) : String :=
  let unit := Nat.pow 10 places
  let scaled := nearest (num * unit) den
  toString (scaled / unit) ++ "." ++ padded places (scaled % unit)

end Scrollback.Decimal
