import Scrollback.Event
/-!
# Hosts

What a session needs of the machine that it runs on: a clock, files, the standard streams and a log.
-/

namespace Scrollback

/-- Why the host refused. -/
structure Fault where
  reason : String
  code : Nat
  deriving DecidableEq, Repr

namespace Fault

def message (f : Fault) : String :=
  s!"{f.reason} (os error {f.code})"

def notFound : Fault :=
  ⟨"No such file or directory", 2⟩

def permissionDenied : Fault :=
  ⟨"Permission denied", 13⟩

def notADirectory : Fault :=
  ⟨"Not a directory", 20⟩

def isADirectory : Fault :=
  ⟨"Is a directory", 21⟩

def nameTooLong : Fault :=
  ⟨"File name too long", 36⟩

def tooManyLinks : Fault :=
  ⟨"Too many levels of symbolic links", 40⟩

end Fault

/-- A machine to run on. -/
class Host (m : Type → Type) where
  /-- Nanoseconds since some time in the past. -/
  now : m Nat
  readInput : m (Except Fault Bytes)
  readFile (path : Bytes) : m (Except Fault Bytes)
  writeFile (path content : Bytes) : m (Except Fault Unit)
  writeOutput (content : Bytes) : m (Except Fault Unit)
  flushOutput : m (Except Fault Unit)
  writeDiagnostic (content : Bytes) : m (Except Fault Unit)
  /-- Write an event to the log. -/
  log (e : Event) : m Unit

end Scrollback
