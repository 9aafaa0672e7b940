import Scrollback.Arguments
import Scrollback.History
import Scrollback.Random.Uniform
/-!
# Resolved configuration

What the arguments leave open is filled in: fixed values, or numbers drawn from the seed, so that
the configuration which is printed pins the pass down. `Config.arguments` is the argument list that
gives every value of a configuration explicitly.
-/

namespace Scrollback

/-- All that a pass depends on besides its input. -/
structure Config where
  /-- Path of the input, `-` for standard input, `none` for a generated sample. -/
  inputPath : Option Bytes
  /-- Path of the output, `-` for standard output. -/
  outputPath : Bytes
  history : Settings
  seed : Nat
  maxFragment : Nat
  readChunk : Nat
  sampleLines : Nat
  printConfig : Bool
  printMetrics : Bool
  verbose : Bool
  deriving DecidableEq, Repr

namespace Config

/-- The path that stands for a standard stream. -/
def streamPath : Bytes :=
  [45]

def defaultOutput : Bytes :=
  Utf8.encode "./history.out".toList

/-- The lines in a sample if no number is given. -/
def defaultSampleLines : Nat :=
  100

/-- A given number, or one drawn from one to a bound. -/
def givenOrDrawn {σ : Type} (draw : Random.Draw σ) (given : Option Nat) (bound : Nat)
    (h : 1 ≤ bound) (s : σ) : Nat × σ :=
  match given with
  | some n => (n, s)
  | none => draw bound h s

/-- The configuration of some arguments, with a seed for the case that they give none. What they
leave open is drawn from the source that the seed gives. -/
def resolveDrawing {σ : Type} (draw : Random.Draw σ) (source : Nat → σ) (fallbackSeed : Nat)
    (a : Arguments) : Except ArgumentError Config :=
  let capacity := a.capacity.getD Log.defaultCapacity
  if capacity = 0 then .error (.zero .capacity)
  else if a.maxFragment = some 0 then .error (.zero .maxFragment)
  else if a.readChunk = some 0 then .error (.zero .readChunk)
  else
    let seed := a.seed.getD fallbackSeed
    let (maxFragment, s) := givenOrDrawn draw a.maxFragment 64 (by decide) (source seed)
    let (readChunk, _) := givenOrDrawn draw a.readChunk 32 (by decide) s
    .ok {
      inputPath := a.input
      outputPath := a.output.getD defaultOutput
      history := {
        capacity
        delimiter := a.delimiter.getD Assembler.defaultDelimiter
        policy := if a.firstDelimiterOnly then .firstDelimiter else .split }
      seed, maxFragment, readChunk
      sampleLines := a.sampleLines.getD defaultSampleLines
      printConfig := a.printConfig
      printMetrics := !a.noMetrics
      verbose := a.verbose }

/-- The configuration of some arguments, with the numbers that the seed gives. -/
def resolve (fallbackSeed : Nat) (a : Arguments) : Except ArgumentError Config :=
  resolveDrawing (Random.wordSource.between 1) Random.Stream.ofSeed fallbackSeed a

def outputIsStream (c : Config) : Bool :=
  c.outputPath == streamPath

def shownPath (path : Bytes) : String :=
  String.ofList (Utf8.decodeLenient path)

def banner (c : Config) : String :=
  let input := match c.inputPath with
    | some path => shownPath path
    | none => "(generate sample)"
  let delimiter := String.ofList (Delimiter.canonical c.history.delimiter)
  "=== Configuration ===\n" ++
  "Input file:  " ++ input ++ "\n" ++
  "Output file: " ++ shownPath c.outputPath ++ "\n" ++
  "Seed: " ++ toString c.seed ++ "\n" ++
  "\n=== History ===\n" ++
  "Capacity: " ++ toString c.history.capacity ++ " records\n" ++
  "Delimiter: " ++ delimiter ++ "\n" ++
  "Framing: " ++ c.history.policy.name ++ "\n" ++
  "\n=== Traffic ===\n" ++
  "Max fragment: " ++ toString c.maxFragment ++ " bytes\n" ++
  "Read chunk: " ++ toString c.readChunk ++ " bytes\n" ++
  "Sample lines: " ++ toString c.sampleLines ++ "\n\n"

def bannerBytes (c : Config) : Bytes :=
  Utf8.encode c.banner.toList

/-- What a sink with some room takes of the banner, and whether that is all of it. -/
def printInto (c : Config) (room : Nat) : Bytes × Bool :=
  (c.bannerBytes.take room, c.bannerBytes.length ≤ room)

/-- The word that gives a parameter a value. -/
def assignment (p : Parameter) (value : Bytes) : Bytes :=
  Utf8.encode ("--" ++ p.name ++ "=").toList ++ value

/-- The word that turns a switch on, if it is to be on. -/
def switching (s : Switch) (on : Bool) : List Bytes :=
  if on then [Utf8.encode s.shown.toList] else []

/-- The argument list that gives every value explicitly. -/
def arguments (c : Config) : List Bytes :=
  let number (n : Nat) : Bytes := Utf8.encode (toString n).toList
  [assignment .seed (number c.seed),
    assignment .capacity (number c.history.capacity),
    assignment .delimiter (Utf8.encode (Delimiter.canonical c.history.delimiter)),
    assignment .maxFragment (number c.maxFragment),
    assignment .readChunk (number c.readChunk),
    assignment .sampleLines (number c.sampleLines),
    assignment .output c.outputPath] ++
  (c.inputPath.map (assignment .input)).toList ++
  switching .firstDelimiterOnly (c.history.policy = .firstDelimiter) ++
  switching .printConfig c.printConfig ++
  switching .noMetrics (!c.printMetrics) ++
  switching .verbose c.verbose

end Config

end Scrollback
