import Scrollback.Text.Utf8
import Scrollback.Decimal.Fixed
import Scrollback.Random.Uniform
/-!
# Sample commands

When there is no input, a seed gives an endless sequence of lines of very different lengths: a
numbered verb and target alone, with a few numbers, or with a long payload. A sample is a number of
them, freed from the delimiter and ended by it. The lines depend on the seed alone.

How numbers are drawn is a parameter (`Sample.Draws`), as the lines are made in the same way from
any source.
-/

namespace Scrollback.Sample

open Scrollback.Random

/-- The ways in which numbers are drawn from a source in some state: from `low` to `high`, among
machine words, among numbers of 32 bits, or among bytes. -/
structure Draws (σ : Type) where
  word : (low high : Nat) → low ≤ high → σ → Nat × σ
  int : (low high : Nat) → low ≤ high → σ → Nat × σ
  byte : (low high : Nat) → low ≤ high → σ → Nat × σ

/-- Draws from the stream of a seed. -/
def Draws.uniform : Draws Stream :=
  ⟨wordSource.between, intSource.between, byteSource.between⟩

def verbs : List String :=
  ["echo", "set", "get", "push", "pop", "sync", "mark", "status"]

def targets : List String :=
  ["alpha", "beta", "gamma", "delta", "led0", "uart1", "fifo", "log"]

variable {σ : Type} (draw : Draws σ)

/-- A number of letters. -/
def letters : Nat → σ → List UInt8 × σ
  | 0, s => ([], s)
  | count + 1, s =>
    let (letter, s) := draw.byte 97 122 (by decide) s
    let (rest, s) := letters count s
    (UInt8.ofNat letter :: rest, s)

/-- A number of arguments, each after a blank. -/
def arguments : Nat → σ → Bytes × σ
  | 0, s => ([], s)
  | count + 1, s =>
    let (n, s) := draw.int 0 9999 (by decide) s
    let (rest, s) := arguments count s
    (Utf8.encode (" " ++ toString n).toList ++ rest, s)

/-- What follows the target of a line: half of the lines are bare, four of ten have up to four
arguments, and one of ten has a payload. -/
def tail (s : σ) : Bytes × σ :=
  let (kind, s) := draw.int 0 9 (by decide) s
  if kind ≤ 4 then ([], s)
  else if kind ≤ 8 then
    let (count, s) := draw.int 1 4 (by decide) s
    arguments draw count s
  else
    let (count, s) := draw.int 64 512 (by decide) s
    let (payload, s) := letters draw count s
    (32 :: payload, s)

/-- The start of a line: its number, a verb and a target. -/
def head (index verb target : Nat) : Bytes :=
  let words := Decimal.padded 4 index ++ " " ++ verbs.getD verb "" ++ " " ++ targets.getD target ""
  Utf8.encode words.toList

/-- One line, without delimiter. -/
def line (index : Nat) (s : σ) : Bytes × σ :=
  let (verb, s) := draw.word 0 7 (by decide) s
  let (target, s) := draw.word 0 7 (by decide) s
  let (rest, s) := tail draw s
  (head index verb target ++ rest, s)

/-- A number of lines from an index on. -/
def linesFrom (index : Nat) : Nat → σ → List Bytes
  | 0, _ => []
  | count + 1, s =>
    let (bytes, s) := line draw index s
    bytes :: linesFrom (index + 1) count s

/-- A line as one record: without the delimiter in it, and with the delimiter at its end. -/
def terminated (delimiter : UInt8) (bytes : Bytes) : Bytes :=
  bytes.filter (· != delimiter) ++ [delimiter]

/-- A sample of some lines that a source gives. -/
def textDrawing (s : σ) (count : Nat) (delimiter : UInt8) : Bytes :=
  (linesFrom draw 0 count s).flatMap (terminated delimiter)

/-- A sample of some lines that a seed gives. -/
def text (seed count : Nat) (delimiter : UInt8) : Bytes :=
  textDrawing .uniform (Stream.ofSeed seed) count delimiter

end Scrollback.Sample
