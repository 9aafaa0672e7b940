import Scrollback.Bytes
/-!
# Framing

A stream is cut into records after its delimiters. `Framing.cut` takes a byte string apart into its
complete lines, each with its delimiter, and what follows the last delimiter. Which of the
delimiters of one fragment count is a matter of policy.
-/

namespace Scrollback

/-- How a fragment with more than one delimiter is framed. -/
inductive Framing where
  /-- Each delimiter completes a record; what follows the last one stays pending. -/
  | split
  /-- A delimiter completes one record, and the whole fragment goes into it. -/
  | firstDelimiter
  deriving DecidableEq, Repr

namespace Framing

def name : Framing → String
  | split => "Split"
  | firstDelimiter => "FirstDelimiter"

/-- Put one byte before a stream that is cut already. -/
def prepend (delimiter b : UInt8) (stream : List Bytes × Bytes) : List Bytes × Bytes :=
  if b = delimiter then ([b] :: stream.1, stream.2)
  else match stream.1 with
    | line :: lines => ((b :: line) :: lines, stream.2)
    | [] => ([], b :: stream.2)

/-- The complete lines of a byte string, and what follows the last delimiter. -/
def cut (delimiter : UInt8) (bytes : Bytes) : List Bytes × Bytes :=
  bytes.foldr (prepend delimiter) ([], [])

@[simp] theorem cut_nil (delimiter : UInt8) : cut delimiter [] = ([], []) := rfl

@[simp] theorem cut_cons (delimiter b : UInt8) (bytes : Bytes) :
    cut delimiter (b :: bytes) = prepend delimiter b (cut delimiter bytes) := rfl

/-- To cut a byte string loses nothing. -/
theorem flatten_cut (delimiter : UInt8) (bytes : Bytes) :
    (cut delimiter bytes).1.flatten ++ (cut delimiter bytes).2 = bytes := by
  induction bytes with
  | nil => rfl
  | cons b bytes ih =>
    rw [cut_cons, prepend]
    split
    · simpa using ih
    · split <;> rename_i h <;> simp_all

end Framing

end Scrollback
