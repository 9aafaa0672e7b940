import Scrollback.Bytes
/-!
# Text as bytes

A byte string is read as UTF-8 by a machine that knows, between two bytes, how many continuation
bytes are owed and the range of the next one. Its reading is total: each longest start of a
character that is not completed counts as one ill-formed part. A text is strict if no part is
ill-formed; the lenient reading shows each such part as U+FFFD.
-/

namespace Scrollback.Utf8

/-- A character of which some continuation bytes are still owed. -/
structure Partial where
  /-- Continuation bytes still owed. -/
  owed : Nat
  /-- Least next byte. -/
  low : Nat
  /-- Greatest next byte. -/
  high : Nat
  /-- Bits of the character read so far. -/
  value : Nat
  deriving DecidableEq, Repr

/-- What one byte makes of the text: the parts that are finished, `none` for an ill-formed one, and
the character left open. -/
abbrev Progress := List (Option Char) × Option Partial

/-- A byte where a character may start. -/
def first (b : Nat) : Progress :=
  if b < 0x80 then ([some (Char.ofNat b)], none)
  else if b < 0xC2 then ([none], none)
  else if b < 0xE0 then ([], some ⟨1, 0x80, 0xBF, b - 0xC0⟩)
  else if b = 0xE0 then ([], some ⟨2, 0xA0, 0xBF, 0⟩)
  else if b = 0xED then ([], some ⟨2, 0x80, 0x9F, 0xD⟩)
  else if b < 0xF0 then ([], some ⟨2, 0x80, 0xBF, b - 0xE0⟩)
  else if b = 0xF0 then ([], some ⟨3, 0x90, 0xBF, 0⟩)
  else if b < 0xF4 then ([], some ⟨3, 0x80, 0xBF, b - 0xF0⟩)
  else if b = 0xF4 then ([], some ⟨3, 0x80, 0x8F, 4⟩)
  else ([none], none)

/-- One byte after whatever is open. A byte that cannot continue it starts afresh. -/
def step (opened : Option Partial) (b : Nat) : Progress :=
  match opened with
  | none => first b
  | some p =>
    if p.low ≤ b ∧ b ≤ p.high then
      let value := p.value * 0x40 + (b - 0x80)
      if p.owed ≤ 1 then ([some (Char.ofNat value)], none)
      else ([], some ⟨p.owed - 1, 0x80, 0xBF, value⟩)
    else
      let fresh := first b
      (none :: fresh.1, fresh.2)

/-- The parts of a text from a given state on. -/
def partsFrom (opened : Option Partial) : Bytes → List (Option Char)
  | [] => if opened.isSome then [none] else []
  | b :: rest =>
    let next := step opened b.toNat
    next.1 ++ partsFrom next.2 rest

/-- The characters of a byte string, `none` for each ill-formed part. -/
def parts (bytes : Bytes) : List (Option Char) :=
  partsFrom none bytes

/-- The characters of a byte string without ill-formed parts. -/
def decode? (bytes : Bytes) : Option (List Char) :=
  (parts bytes).mapM id

/-- The characters of a byte string, with U+FFFD for each ill-formed part. -/
def decodeLenient (bytes : Bytes) : List Char :=
  (parts bytes).map (·.getD '\ufffd')

def encode (text : List Char) : Bytes :=
  text.flatMap String.utf8EncodeChar

end Scrollback.Utf8
