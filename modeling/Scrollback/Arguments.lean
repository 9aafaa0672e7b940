import Scrollback.Checked
import Scrollback.Delimiter
import Scrollback.Text.Terminal
import Scrollback.Text.Utf8
/-!
# Command-line arguments

An argument list gives parameters, each with a value in the same word (`--name=value`) or the next,
and switches. The words are read from the left. A parameter whose value may follow is settled only
when something else is known to come, so the complaint about a word that cannot be read comes first.
To settle a parameter is to find its value, that it was not given before, and that the value is one.
-/

namespace Scrollback

/-- What takes a value. -/
inductive Parameter where
  | input
  | output
  | seed
  | capacity
  | delimiter
  | maxFragment
  | readChunk
  | sampleLines
  deriving DecidableEq, Repr

namespace Parameter

def all : List Parameter :=
  [input, output, seed, capacity, delimiter, maxFragment, readChunk, sampleLines]

def name : Parameter → String
  | input => "in"
  | output => "out"
  | seed => "seed"
  | capacity => "capacity"
  | delimiter => "delimiter"
  | maxFragment => "max-fragment"
  | readChunk => "read-chunk"
  | sampleLines => "sample-lines"

def valueName : Parameter → String
  | input | output => "PATH"
  | seed => "SEED"
  | capacity => "CAPACITY"
  | delimiter => "DELIMITER"
  | maxFragment | readChunk | sampleLines => "N"

/-- The parameter as a complaint names it. -/
def shown (p : Parameter) : String :=
  "--" ++ p.name ++ " <" ++ p.valueName ++ ">"

end Parameter

/-- What takes no value. -/
inductive Switch where
  | firstDelimiterOnly
  | printConfig
  | noMetrics
  | verbose
  | help
  deriving DecidableEq, Repr

namespace Switch

def all : List Switch :=
  [firstDelimiterOnly, printConfig, noMetrics, verbose, help]

def name : Switch → String
  | firstDelimiterOnly => "first-delimiter-only"
  | printConfig => "print-config"
  | noMetrics => "no-metrics"
  | verbose => "verbose"
  | help => "help"

/-- The switch as a complaint names it. -/
def shown (s : Switch) : String :=
  "--" ++ s.name

/-- The switch for a single letter. -/
def ofLetter? : Char → Option Switch
  | 'v' => some verbose
  | 'h' => some help
  | _ => none

end Switch

/-- Why a text is no value of a parameter. -/
inductive ValueError where
  | numeral (e : NumeralError)
  | delimiter (e : DelimiterError)
  deriving DecidableEq, Repr

def ValueError.message : ValueError → String
  | numeral e => e.message
  | delimiter e => e.message

/-- Why an argument list is refused. -/
inductive ArgumentError where
  /-- A word is neither an option nor the value of one. -/
  | unexpected (word : List Char)
  | unexpectedValue (value : List Char) (switch : Switch)
  | missingValue (parameter : Parameter)
  | repeatedParameter (parameter : Parameter)
  | repeatedSwitch (switch : Switch)
  | notText
  /-- A text is no value of the parameter. -/
  | invalidValue (parameter : Parameter) (value : List Char) (reason : ValueError)
  /-- A value that has to be positive is zero. -/
  | zero (parameter : Parameter)
  deriving DecidableEq, Repr

namespace ArgumentError

/-- A word between single quotes, where it stands out. -/
def quoted (word : List Char) : List Char :=
  ['\''] ++ Terminal.highlighted word ++ ['\'']

/-- The complaint about an option that was given before. -/
def onlyOnce (shown : String) : List Char :=
  "the argument ".toList ++ quoted shown.toList ++ " cannot be used multiple times".toList

/-- What is wrong with the arguments, in text for a terminal. -/
def complaint : ArgumentError → List Char
  | unexpected word => "unexpected argument ".toList ++ quoted word ++ " found".toList
  | unexpectedValue value switch =>
    "unexpected value ".toList ++ quoted value ++ " for ".toList ++ quoted switch.shown.toList ++
      " found; no more were expected".toList
  | missingValue p =>
    "a value is required for ".toList ++ quoted p.shown.toList ++ " but none was supplied".toList
  | repeatedParameter p => onlyOnce p.shown
  | repeatedSwitch s => onlyOnce s.shown
  | notText => "invalid UTF-8 was detected in one or more arguments".toList
  | invalidValue p value reason =>
    "invalid value ".toList ++ quoted value ++ " for ".toList ++ quoted p.shown.toList ++
      ": ".toList ++ reason.message.toList
  | zero p => ("--" ++ p.name ++ " must be at least 1").toList

/-- Where to learn more. -/
def hint : List Char :=
  "\n\nFor more information, try ".toList ++ quoted "--help".toList ++ ".\n".toList

/-- The wording of the error. It is made for a terminal and then freed from control sequences as a
whole, so one that a word leaves open takes the text after it along. -/
def message : ArgumentError → String
  | zero p => String.ofList (zero p).complaint
  | e => String.ofList (Terminal.plain (Terminal.highlighted "error:".toList ++ [' '] ++
      e.complaint ++ hint))

end ArgumentError

/-- What an argument list gives. -/
structure Arguments where
  input : Option Bytes
  output : Option Bytes
  seed : Option Nat
  capacity : Option Nat
  delimiter : Option UInt8
  maxFragment : Option Nat
  readChunk : Option Nat
  sampleLines : Option Nat
  firstDelimiterOnly : Bool
  printConfig : Bool
  noMetrics : Bool
  verbose : Bool
  deriving DecidableEq, Repr

/-- What an argument list asks for. -/
inductive Request where
  | help
  | pass (arguments : Arguments)
  deriving DecidableEq, Repr

namespace Arguments

def none : Arguments :=
  ⟨.none, .none, .none, .none, .none, .none, .none, .none, false, false, false, false⟩

def has (a : Arguments) : Parameter → Bool
  | .input => a.input.isSome
  | .output => a.output.isSome
  | .seed => a.seed.isSome
  | .capacity => a.capacity.isSome
  | .delimiter => a.delimiter.isSome
  | .maxFragment => a.maxFragment.isSome
  | .readChunk => a.readChunk.isSome
  | .sampleLines => a.sampleLines.isSome

def isOn (a : Arguments) : Switch → Bool
  | .firstDelimiterOnly => a.firstDelimiterOnly
  | .printConfig => a.printConfig
  | .noMetrics => a.noMetrics
  | .verbose => a.verbose
  | .help => false

/-- A path, which is never empty. -/
def pathValue (p : Parameter) (value : Bytes) : Except ArgumentError Bytes :=
  if value.isEmpty then .error (.missingValue p) else .ok value

/-- A machine word in decimal digits. -/
def wordValue (p : Parameter) (value : Bytes) : Except ArgumentError Nat :=
  match Utf8.decode? value with
  | .none => .error .notText
  | .some text => (Numeral.parse 10 wordCount text).mapError (.invalidValue p text ∘ .numeral)

/-- The text of a delimiter. -/
def delimiterValue (p : Parameter) (value : Bytes) : Except ArgumentError UInt8 :=
  match Utf8.decode? value with
  | .none => .error .notText
  | .some text => (Delimiter.parse text).mapError (.invalidValue p text ∘ .delimiter)

/-- Give a parameter its value, whether it has one or not. -/
def setValue (a : Arguments) (p : Parameter) (value : Bytes) : Except ArgumentError Arguments := do
  match p with
  | .input => return { a with input := some (← pathValue p value) }
  | .output => return { a with output := some (← pathValue p value) }
  | .seed => return { a with seed := some (← wordValue p value) }
  | .capacity => return { a with capacity := some (← wordValue p value) }
  | .delimiter => return { a with delimiter := some (← delimiterValue p value) }
  | .maxFragment => return { a with maxFragment := some (← wordValue p value) }
  | .readChunk => return { a with readChunk := some (← wordValue p value) }
  | .sampleLines => return { a with sampleLines := some (← wordValue p value) }

/-- Give a parameter its value for the first time. -/
def assign (a : Arguments) (p : Parameter) (value : Bytes) : Except ArgumentError Arguments :=
  if a.has p then .error (.repeatedParameter p) else a.setValue p value

/-- Turn a switch on for the first time. -/
def turnOn (a : Arguments) (s : Switch) : Except ArgumentError Arguments :=
  if a.isOn s then .error (.repeatedSwitch s)
  else match s with
    | .firstDelimiterOnly => .ok { a with firstDelimiterOnly := true }
    | .printConfig => .ok { a with printConfig := true }
    | .noMetrics => .ok { a with noMetrics := true }
    | .verbose => .ok { a with verbose := true }
    | .help => .ok a

/-- A parameter that was named but is not settled, with the value that followed it. -/
abbrev Unsettled := Option (Parameter × Option Bytes)

def settle (a : Arguments) : Unsettled → Except ArgumentError Arguments
  | .none => .ok a
  | .some (p, .none) => .error (.missingValue p)
  | .some (p, .some value) => a.assign p value

/-- One word of an argument list by its shape. -/
inductive Word where
  /-- The word after which there are no options. -/
  | terminator
  /-- A name after two dashes, and what follows the equals sign after it. -/
  | long (name : Bytes) (value : Option Bytes)
  /-- Letters after one dash. -/
  | short (letters : Bytes)
  | plain (word : Bytes)
  deriving DecidableEq, Repr

def Word.ofBytes : Bytes → Word
  | [45, 45] => .terminator
  | 45 :: 45 :: rest =>
    let name := rest.takeWhile (· != 61)
    match rest.dropWhile (· != 61) with
    | [] => .long name .none
    | _ :: value => .long name (.some value)
  | 45 :: letter :: letters => .short (letter :: letters)
  | word => .plain word

/-- The complaint about a name after two dashes. -/
def unknownName (name : Bytes) : ArgumentError :=
  .unexpected ('-' :: '-' :: Utf8.decodeLenient name)

def parameter? (name : Bytes) : Option Parameter :=
  Parameter.all.find? fun p => Utf8.encode p.name.toList == name

def switch? (name : Bytes) : Option Switch :=
  Switch.all.find? fun s => Utf8.encode s.name.toList == name

/-- Read letters after one dash: `none` if one of them asks for help. -/
def readLetters (a : Arguments) (unsettled : Unsettled) :
    List (Option Char) → Except ArgumentError (Option (Arguments × Unsettled))
  | [] => .ok (.some (a, unsettled))
  | .none :: rest => .error (.unexpected ('-' :: '\ufffd' :: rest.map (·.getD '\ufffd')))
  | .some c :: rest =>
    match Switch.ofLetter? c with
    | .none => .error (.unexpected ['-', c])
    | .some s => do
      let settled ← a.settle unsettled
      if s = .help then return .none
      readLetters (← settled.turnOn s) .none rest

def readFrom (a : Arguments) (unsettled : Unsettled) : List Bytes → Except ArgumentError Request
  | [] => return .pass (← a.settle unsettled)
  | word :: rest =>
    match Word.ofBytes word with
    | .terminator =>
      match rest with
      | [] => return .pass (← a.settle unsettled)
      | extra :: _ => .error (.unexpected (Utf8.decodeLenient extra))
    | .long name value =>
      match parameter? name, switch? name, value with
      | .some p, _, .some value => do
        let settled ← a.settle unsettled
        readFrom (← settled.assign p value) .none rest
      | .some p, _, .none => do
        readFrom (← a.settle unsettled) (.some (p, .none)) rest
      | .none, .some s, .some value => .error (.unexpectedValue (Utf8.decodeLenient value) s)
      | .none, .some s, .none => do
        let settled ← a.settle unsettled
        if s = .help then return .help
        readFrom (← settled.turnOn s) .none rest
      | .none, .none, _ => .error (unknownName name)
    | .short letters => do
      match ← a.readLetters unsettled (Utf8.parts letters) with
      | .none => return .help
      | .some (a, unsettled) => readFrom a unsettled rest
    | .plain word =>
      match unsettled with
      | .some (p, .none) => readFrom a (.some (p, .some word)) rest
      | _ => .error (.unexpected (Utf8.decodeLenient word))

/-- What an argument list asks for. -/
def parse (words : List Bytes) : Except ArgumentError Request :=
  none.readFrom .none words

end Arguments

end Scrollback
