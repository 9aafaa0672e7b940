import Scrollback.Text.Quoted
/-!
# Text for a terminal

A text may hold control sequences, which a terminal does not show but acts on. `plain` is what is
seen of it: escape sequences, control sequences and strings for a device vanish, as do all control
characters except white space. `highlighted` marks a text by two control sequences. `defused` shows
the characters that start a control sequence instead of passing them on.
-/

namespace Scrollback.Terminal

/-- Where in a control sequence a text stands. -/
inductive Mode where
  | ground
  /-- After an escape character. -/
  | escape
  /-- After an escape character and what selects a set of further functions. -/
  | selected
  /-- In the parameters of a control sequence. -/
  | sequence
  /-- In a string for an operating system, which a bell may end. -/
  | command
  /-- At the start of a device control string. -/
  | header
  /-- In the parameters of a device control string. -/
  | parameters
  /-- After the parameters of a device control string. -/
  | intermediate
  /-- In the data of any string for a device. -/
  | device
  deriving DecidableEq, Repr

/-- The white space that is shown among control characters. -/
def isBlankControl (c : Char) : Bool :=
  c = '\t' || c = '\n' || c = '\x0c' || c = '\r'

/-- Whether a character lies between two others. -/
def isWithin (low high c : Char) : Bool :=
  low ≤ c && c ≤ high

/-- Whether a character has the string terminator of eight bits, 0x9C, in its UTF-8 form. -/
def holdsTerminator (c : Char) : Bool :=
  (String.utf8EncodeChar c).contains 0x9C

/-- The mode after a character that is not shown. -/
def Mode.next (mode : Mode) (c : Char) : Mode :=
  if c = '\x1b' then .escape
  else if c = '\x18' || c = '\x1a' then .ground
  else match mode with
    | .ground => .ground
    | .escape =>
      if c = '[' then .sequence
      else if c = ']' then .command
      else if c = 'P' then .header
      else if c = 'X' || c = '^' || c = '_' then .device
      else if isWithin ' ' '/' c then .selected
      else if isWithin '0' '~' c then .ground
      else .escape
    | .selected => if isWithin '0' '~' c then .ground else .selected
    | .sequence => if isWithin '@' '~' c then .ground else .sequence
    | .command => if c = '\x07' then .ground else .command
    | .header =>
      if isWithin ' ' '/' c then .intermediate
      else if isWithin '0' '?' c then .parameters
      else if isWithin '@' '~' c then .device
      else .header
    | .parameters =>
      if isWithin ' ' '/' c then .intermediate
      else if isWithin '<' '~' c then .device
      else .parameters
    | .intermediate => if isWithin '0' '~' c then .device else .intermediate
    | .device => if holdsTerminator c then .ground else .device

/-- Whether a character is shown in a mode. Blank controls end an escape or control sequence. -/
def Mode.shows (mode : Mode) (c : Char) : Bool :=
  match mode with
  | .ground => isBlankControl c || (' ' ≤ c && c ≠ '\x7f')
  | .escape | .selected | .sequence => isBlankControl c
  | .command | .header | .parameters | .intermediate | .device => false

/-- The characters that are shown, from a mode on. -/
def plainFrom : Mode → List Char → List Char
  | _, [] => []
  | mode, c :: rest =>
    if mode.shows c then c :: plainFrom .ground rest else plainFrom (mode.next c) rest

def plain (text : List Char) : List Char :=
  plainFrom .ground text

/-- A text that stands out from the text around it. -/
def highlighted (text : List Char) : List Char :=
  ['\x1b', '[', '1', 'm'] ++ text ++ ['\x1b', '[', '0', 'm']

/-- Whether a terminal may act on a character: escape, bell, backspace, form feed, delete and the
controls above ASCII. -/
def isActive (c : Char) : Bool :=
  c = '\x1b' || c = '\x07' || c = '\x08' || c = '\x0c' || isWithin '\x7f' '\u009f' c

/-- A character by its code: two digits in ASCII, otherwise all digits in braces. -/
def byCode (c : Char) : List Char :=
  let digits := Nat.toDigits 16 c.toNat
  if c.toNat < 128 then ['\\', 'x'] ++ List.replicate (2 - digits.length) '0' ++ digits
  else Quoted.byCodePoint c

/-- A text on which no terminal acts. -/
def defused (text : List Char) : List Char :=
  text.flatMap fun c => if isActive c then byCode c else [c]

end Scrollback.Terminal
