import Scrollback.Host
import Scrollback.Pass.Events
import Scrollback.Sample
/-!
# Sessions

A session is one pass on a host: print the configuration, load the input, perform the pass, store
the output, print the summary, check the report. When the output goes to standard output nothing
else does: the configuration goes to standard error and there is no summary.

On its way a session logs what it does. Details are logged if it is to be verbose.
-/

namespace Scrollback

/-- Why a session ended before its report was checked. -/
inductive SessionError where
  | banner (f : Fault)
  | readInput (f : Fault)
  | readFile (path : Bytes) (f : Fault)
  | pass (e : PassError)
  | writeOutput (f : Fault)
  | flushOutput (f : Fault)
  | writeFile (path : Bytes) (f : Fault)
  | summary (f : Fault)
  | defect (d : Defect)
  deriving DecidableEq, Repr

namespace SessionError

/-- The wording of the error with all that is behind it. -/
def message : SessionError → String
  | banner f => "failed to print configuration: " ++ f.message
  | readInput f => "failed to read stdin: " ++ f.message
  | readFile path f => "failed to read " ++ Config.shownPath path ++ ": " ++ f.message
  | pass e => e.message
  | writeOutput f => "failed to write stdout: " ++ f.message
  | flushOutput f => "failed to flush stdout: " ++ f.message
  | writeFile path f => "failed to write " ++ Config.shownPath path ++ ": " ++ f.message
  | summary f => "failed printing to stdout: " ++ f.message
  | defect _ => "broken invariant"

/-- Whether the session broke off instead of failing. -/
def isFatal : SessionError → Bool
  | summary _ | defect _ => true
  | _ => false

end SessionError

namespace Event

def loaded (bytes : Nat) : Event :=
  ⟨.information, "input loaded", [("bytes", toString bytes)]⟩

def verified (r : Report) : Event :=
  ⟨.information, "retained history verified", [("records", toString r.retained),
    ("bytes", toString r.output.length), ("unterminated", toString r.unterminated)]⟩

/-- A report is wrong. -/
def mismatched : Event :=
  ⟨.error, "retained history does not match the tail of the input", []⟩

def failed (e : SessionError) : Event :=
  ⟨.error, e.message, []⟩

end Event

/-- The last level whose events are logged. -/
def Config.logged (c : Config) : Level :=
  if c.verbose then .detail else .information

namespace Session

variable {m : Type → Type} [Monad m] [Host m]

/-- What the program says about itself. -/
def helpText : String :=
  "Feed a byte stream through a bounded command history and read it back\n" ++
  "\n" ++
  "Usage: cmdlog [OPTIONS]\n" ++
  "\n" ++
  "Options:\n" ++
  "      --in <PATH>              Input file, `-` for stdin " ++
  "(default: generate sample commands)\n" ++
  "      --out <PATH>             Output file for the retained history, `-` for stdout " ++
  "[default: ./history.out]\n" ++
  "      --seed <SEED>            Random seed for determinism\n" ++
  "      --capacity <CAPACITY>    Write commands retained [default: 10]\n" ++
  "      --delimiter <DELIMITER>  Record delimiter: a single character, an escape like `\\n`, " ++
  "or hex like `0x0a` [default: \\n]\n" ++
  "      --first-delimiter-only   Honor only the first delimiter of each fragment\n" ++
  "      --max-fragment <N>       Largest write fragment in bytes (default: random 1-64)\n" ++
  "      --read-chunk <N>         Read chunk size in bytes (default: random 1-32)\n" ++
  "      --sample-lines <N>       Lines of generated sample input [default: 100]\n" ++
  "      --print-config           Print resolved configuration\n" ++
  "      --no-metrics             Don't print metrics summary\n" ++
  "  -v, --verbose                Enable debug logging\n" ++
  "  -h, --help                   Print help\n"

def bytesOf (text : String) : Bytes :=
  Utf8.encode text.toList

/-- Log an event, unless it matters too little. -/
def note (c : Config) (e : Event) : m Unit :=
  if e.isWithin c.logged then Host.log e else pure ()

/-- Log events one after the other. -/
def noteAll (c : Config) : List Event → m Unit
  | [] => pure ()
  | e :: events => do
    note c e
    noteAll c events

/-- A call on the host as part of a session. -/
def calling {α : Type} (failure : Fault → SessionError) (call : m (Except Fault α)) :
    ExceptT SessionError m α :=
  ExceptT.mk do return (← call).mapError failure

/-- Print the configuration, away from the output. -/
def printBanner (c : Config) : ExceptT SessionError m Unit :=
  if !c.printConfig then pure ()
  else if c.outputIsStream then calling .banner (Host.writeDiagnostic c.bannerBytes)
  else calling .banner (Host.writeOutput c.bannerBytes)

def loadInput (c : Config) : ExceptT SessionError m Bytes :=
  match c.inputPath with
  | none => pure (Sample.text c.seed c.sampleLines c.history.delimiter)
  | some path =>
    if path == Config.streamPath then calling .readInput Host.readInput
    else calling (.readFile path) (Host.readFile path)

/-- Perform the pass with some memory, and have its report say how long it took. -/
def performTimed (c : Config) (memory : Pass.Memory) (input : Bytes) :
    ExceptT SessionError m Report := do
  let started ← Host.now (m := m)
  noteAll (m := m) c (Pass.events c memory input)
  match (Pass.perform c memory input).run with
  | .error d => throw (.defect d)
  | .ok (.error e) => throw (.pass e)
  | .ok (.ok report) =>
    let ended ← Host.now (m := m)
    return report.finish (ended - started)

def storeOutput (c : Config) (output : Bytes) : ExceptT SessionError m Unit := do
  if c.outputIsStream then
    calling .writeOutput (Host.writeOutput output)
    calling .flushOutput Host.flushOutput
  else calling (.writeFile c.outputPath) (Host.writeFile c.outputPath output)

/-- Print the summary, if it may be printed. The run has ended, so no clock is read for it. -/
def printSummary (c : Config) (metrics : Metrics) : ExceptT SessionError m Unit :=
  if c.printMetrics && !c.outputIsStream then
    calling .summary (Host.writeOutput (bytesOf (metrics.summary 0 0)))
  else pure ()

/-- Run a session with some memory and tell whether its report is right. -/
def execute (c : Config) (memory : Pass.Memory) : ExceptT SessionError m Bool := do
  printBanner c
  let input ← loadInput c
  note (m := m) c (.loaded input.length)
  let report ← performTimed c memory input
  storeOutput c report.output
  printSummary c report.metrics
  match report.verify input c.history.capacity with
  | .error d => throw (.defect d)
  | .ok true =>
    note (m := m) c (.verified report)
    return true
  | .ok false =>
    note (m := m) c .mismatched
    return false

/-- End a session that has failed. The result is the exit code. -/
def abandon (c : Config) (e : SessionError) : m Nat := do
  if e.isFatal then
    let _ ← Host.writeDiagnostic (bytesOf (e.message ++ "\n"))
    return 101
  else
    note c (.failed e)
    return 1

/-- Run a session for a configuration. The result is the exit code. -/
def conduct (c : Config) (memory : Pass.Memory) : m Nat := do
  match ← (execute c memory).run with
  | .ok true => return 0
  | .ok false => return 1
  | .error e => abandon c e

def refuse (e : ArgumentError) : m Nat := do
  let _ ← Host.writeDiagnostic (bytesOf ("cmdlog: " ++ e.message ++ "\n"))
  return 2

/-- Run a session for an argument list. The result is the exit code. -/
def start (memory : Pass.Memory) (words : List Bytes) : m Nat := do
  match Arguments.parse words with
  | .error e => refuse e
  | .ok .help =>
    let _ ← Host.writeOutput (bytesOf helpText)
    return 0
  | .ok (.pass a) =>
    match Config.resolve (← Host.now) a with
    | .error e => refuse e
    | .ok c => conduct c memory

end Session

end Scrollback
