import Scrollback.Host
import Scrollback.Text.Utf8
/-!
# Paths

A path is a byte string that leads to a place: its steps are the names between slashes, taken from
the working directory or, after a leading slash, from the root. The step `.` stays and the step `..`
goes up; above the root is the root.
-/

namespace Scrollback

/-- A place in a tree of directories: the names that lead to it from the root. -/
abbrev Place := List Bytes

namespace Place

def child (p : Place) (name : Bytes) : Place :=
  p ++ [name]

def parent (p : Place) : Place :=
  p.dropLast

/-- Whether a place lies somewhere below a directory. -/
def isBelow (p directory : Place) : Bool :=
  directory.isPrefixOf p && directory.length < p.length

end Place

namespace Path

/-- The step that stays. -/
def here : Bytes :=
  [46]

/-- The step to the directory around. -/
def up : Bytes :=
  [46, 46]

/-- The bytes that a path may have at most. -/
def longest : Nat :=
  4095

/-- The bytes that a name may have at most. -/
def longestName : Nat :=
  255

/-- The links that a path may lead through at most. -/
def mostLinks : Nat :=
  40

/-- The place where a path starts. -/
def start (working : Place) (path : Bytes) : Place :=
  if path.head? = some 47 then [] else working

def steps (path : Bytes) : List Bytes :=
  (path.splitOn 47).filter (!·.isEmpty)

/-- Refuse what is no path at all. -/
def check (path : Bytes) : Except Fault Unit :=
  if path.isEmpty then .error .notFound
  else if longest < path.length then .error .nameTooLong
  else .ok ()

/-- Whether a path ends in a slash, so that only a directory is meant. -/
def endsInSlash (path : Bytes) : Bool :=
  path.getLast? = some 47

end Path

/-- The place at the end of a path of plain names. -/
def Place.ofString (path : String) : Place :=
  Path.steps (Utf8.encode path.toList)

end Scrollback
