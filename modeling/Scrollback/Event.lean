import Scrollback.Bytes
import Scrollback.Text.Terminal
/-!
# Log events

What a session tells of its course, beside what it prints: an event has a level, a message and some
values by name. Events up to some level are written to the log, and the others are not. The log goes
to standard error, where texts go as well.
-/

namespace Scrollback

/-- How much an event matters. What matters less than a detail is written at no setting, so there is
no such level. -/
inductive Level where
  | error
  | warning
  | information
  | detail
  deriving DecidableEq, Repr

namespace Level

/-- How many levels matter more. -/
def rank : Level → Nat
  | error => 0
  | warning => 1
  | information => 2
  | detail => 3

def name : Level → String
  | error => "ERROR"
  | warning => "WARN"
  | information => "INFO"
  | detail => "DEBUG"

end Level

/-- Something that is told of. -/
structure Event where
  level : Level
  message : String
  /-- The values that belong to the message, by name. -/
  values : List (String × String)
  deriving DecidableEq, Repr

namespace Event

/-- Whether an event is written if those up to some level are. -/
def isWithin (e : Event) (most : Level) : Bool :=
  e.level.rank ≤ most.rank

/-- The message in such a form that no terminal acts on it. -/
def shownMessage (e : Event) : String :=
  String.ofList (Terminal.defused e.message.toList)

end Event

/-- What standard error is given: a text, or an event, in whatever form the log has it. -/
inductive Diagnostic where
  | text (content : Bytes)
  | event (e : Event)
  deriving DecidableEq, Repr

end Scrollback
