/-!
# Indented text

A text that is shown as a part of another one is moved to the right, line for line.
-/

namespace Scrollback.Indented

/-- The blanks before a line. -/
def margin : List Char :=
  List.replicate 4 ' '

/-- One character of an indented text: a line break brings the margin of the next line. -/
def indentChar (c : Char) : List Char :=
  if c = '\n' then '\n' :: margin else [c]

/-- A text moved to the right. -/
def indent (text : List Char) : List Char :=
  margin ++ text.flatMap indentChar

end Scrollback.Indented
