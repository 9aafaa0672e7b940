/-!
# Numerals

Reading an unsigned number in a given base: an optional plus sign and one or more digits, any number
of leading zeros among them. Digits are read from the left, and the first one that is no digit, or
that takes the value to the bound, decides the error.
-/

namespace Scrollback

/-- Why a text is no number. -/
inductive NumeralError where
  | empty
  /-- Something is no digit of the base. -/
  | invalidDigit
  /-- The value is not below the bound. -/
  | tooLarge
  deriving DecidableEq, Repr

def NumeralError.message : NumeralError → String
  | .empty => "cannot parse integer from empty string"
  | .invalidDigit => "invalid digit found in string"
  | .tooLarge => "number too large to fit in target type"

namespace Numeral

/-- The value of a digit in bases up to sixteen, in either case. -/
def digitValue? (base : Nat) (c : Char) : Option Nat :=
  let value? :=
    if '0' ≤ c ∧ c ≤ '9' then some (c.toNat - 48)
    else if 'a' ≤ c ∧ c ≤ 'f' then some (c.toNat - 87)
    else if 'A' ≤ c ∧ c ≤ 'F' then some (c.toNat - 55)
    else none
  value?.filter (· < base)

/-- Read digits on from a value. -/
def readDigits (base bound : Nat) : Nat → List Char → Except NumeralError Nat
  | value, [] => .ok value
  | value, c :: rest =>
    match digitValue? base c with
    | none => .error .invalidDigit
    | some digit =>
      let grown := value * base + digit
      if grown < bound then readDigits base bound grown rest else .error .tooLarge

/-- The number below `bound` that a text spells. -/
def parse (base bound : Nat) (text : List Char) : Except NumeralError Nat :=
  match text with
  | [] => .error .empty
  | c :: rest =>
    let digits := if c = '+' then rest else text
    if digits.isEmpty then .error .invalidDigit else readDigits base bound 0 digits

end Numeral

end Scrollback
