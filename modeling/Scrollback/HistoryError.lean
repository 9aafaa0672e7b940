/-!
# Errors of a history

To run past the end of the retained data is no error, and a broken invariant is a defect. What
remains is memory that was refused, a log that could never hold a record, and a lock whose holder
died.
-/

namespace Scrollback

/-- Why a call on a log or a history failed. -/
inductive HistoryError where
  /-- Memory was refused; nothing has changed and the call may be repeated. -/
  | alloc (request : Nat)
  /-- A log has to retain at least one record. -/
  | invalidCapacity (capacity : Nat)
  /-- A holder of the lock died. -/
  | lockPoisoned
  deriving DecidableEq, Repr

namespace HistoryError

/-- What the allocator says when it refuses a block. -/
def allocatorMessage : String :=
  "memory allocation failed because the memory allocator returned an error"

def message : HistoryError → String
  | alloc request => s!"allocation of {request} bytes failed: {allocatorMessage}"
  | invalidCapacity capacity => s!"invalid log capacity {capacity}: must be at least 1"
  | lockPoisoned => "command history lock poisoned"

/-- The error and the errors behind it, from the outermost on. -/
def chain (e : HistoryError) : List String :=
  match e with
  | alloc _ => [e.message, allocatorMessage]
  | invalidCapacity _ | lockPoisoned => [e.message]

/-- Whether the failed call may succeed if it is repeated. -/
def retryable : HistoryError → Bool
  | alloc _ => true
  | invalidCapacity _ | lockPoisoned => false

end HistoryError

end Scrollback
