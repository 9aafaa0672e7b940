import Scrollback.Text.Numeral
import Scrollback.Text.Quoted
/-!
# The text of a delimiter

A delimiter is given as an escape (`\n`, `\r`, `\t`, `\0`), as a hexadecimal number after `0x`, or
as a single ASCII character. The canonical text is the hexadecimal one with two digits.
-/

namespace Scrollback

/-- Why a text is no delimiter. -/
inductive DelimiterError where
  /-- What follows `0x` is no number of one byte. -/
  | invalidHex (text : List Char)
  /-- The text is not one byte long. -/
  | notOneByte (text : List Char)
  deriving DecidableEq, Repr

def DelimiterError.message : DelimiterError → String
  | .invalidHex text => "invalid hex delimiter: " ++ String.ofList text
  | .notOneByte text =>
    "delimiter must be a single byte, got " ++ String.ofList (Quoted.quote text)

namespace Delimiter

/-- The byte after an escape character. -/
def escaped? : List Char → Option UInt8
  | ['\\', 'n'] => some 10
  | ['\\', 'r'] => some 13
  | ['\\', 't'] => some 9
  | ['\\', '0'] => some 0
  | _ => none

/-- The digits of a text that starts as a hexadecimal number. -/
def hexDigits? : List Char → Option (List Char)
  | '0' :: 'x' :: digits => some digits
  | '0' :: 'X' :: digits => some digits
  | _ => none

/-- The byte of a single ASCII character. -/
def single? : List Char → Option UInt8
  | [c] => if c.toNat < 128 then some (UInt8.ofNat c.toNat) else none
  | _ => none

def parse (text : List Char) : Except DelimiterError UInt8 :=
  match escaped? text with
  | some b => .ok b
  | none =>
    match hexDigits? text with
    | some digits =>
      match Numeral.parse 16 256 digits with
      | .ok value => .ok (UInt8.ofNat value)
      | .error _ => .error (.invalidHex text)
    | none =>
      match single? text with
      | some b => .ok b
      | none => .error (.notOneByte text)

/-- The canonical text of a delimiter. -/
def canonical (b : UInt8) : List Char :=
  let digits := Nat.toDigits 16 b.toNat
  ['0', 'x'] ++ List.replicate (2 - digits.length) '0' ++ digits

end Delimiter

end Scrollback
