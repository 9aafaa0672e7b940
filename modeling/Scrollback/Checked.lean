import Scrollback.Bytes
/-!
# Checked computation

The ring and its readers rest on invariants: slots inside the live span are occupied, indices stay
inside the array, sums stay inside a machine word. Each operation checks the ones it uses and stops
with a `Defect` rather than go on with stale data. A defect is no error of the caller.
-/

namespace Scrollback

/-- The way in which an invariant was found broken. -/
inductive Defect where
  /-- A slot that has to hold a record is vacant. -/
  | vacantSlot
  /-- The slot under the write cursor of a log with room is occupied. -/
  | occupiedSlot
  /-- A slot index lies outside the ring. -/
  | slotOutOfBounds
  /-- A range lies outside the bytes it is taken from. -/
  | sliceOutOfBounds
  /-- A search ended before the live byte count. -/
  | shortScan
  /-- A sum is no machine word. -/
  | overflow
  | underflow
  | divisionByZero
  /-- A number was asked for from an empty range. -/
  | emptyRange
  /-- A block of memory larger than an address can span. -/
  | oversizedBlock
  deriving DecidableEq, Repr

/-- A computation that may find an invariant broken. -/
abbrev Checked := Except Defect

namespace Checked

variable {ε α β : Type}

@[simp] theorem ok_bind (a : α) (f : α → Except ε β) : (Except.ok a >>= f) = f a := rfl

@[simp] theorem error_bind (e : ε) (f : α → Except ε β) :
    ((Except.error e : Except ε α) >>= f) = .error e := rfl

@[simp] theorem pure_eq_ok (a : α) : (pure a : Except ε α) = .ok a := rfl

/-- A sequence of two steps returns exactly if both do. -/
theorem bind_eq_ok {x : Except ε α} {f : α → Except ε β} {b : β} :
    (x >>= f) = .ok b ↔ ∃ a, x = .ok a ∧ f a = .ok b := by
  cases x <;> simp

/-- A computation on each member of a list returns if each one does. -/
theorem mapM_eq_ok {f : α → Except ε β} {g : α → β} {xs : List α}
    (h : ∀ x ∈ xs, f x = .ok (g x)) : xs.mapM f = .ok (xs.map g) := by
  induction xs with
  | nil => rfl
  | cons x xs ih =>
    have hx := h x List.mem_cons_self
    have hxs := ih fun y hy => h y (List.mem_cons_of_mem x hy)
    simp [List.mapM_cons, hx, hxs]

end Checked

/-- The number of machine words, which have 64 bits. -/
def wordCount : Nat := 18446744073709551616

/-- The number of bytes that one block of memory may have at most: less than half of the words. -/
def blockBound : Nat := 9223372036854775807

namespace Word

/-- The sum of two words, if it is a word. -/
def add (a b : Nat) : Checked Nat :=
  if a + b < wordCount then .ok (a + b) else .error .overflow

/-- The difference of two words, if it is not negative. -/
def sub (a b : Nat) : Checked Nat :=
  if b ≤ a then .ok (a - b) else .error .underflow

/-- The remainder of two words, if the divisor is not zero. -/
def mod (a b : Nat) : Checked Nat :=
  if b = 0 then .error .divisionByZero else .ok (a % b)

/-- A word moved by a signed distance, if the result is a word. -/
def shift? (a : Nat) (distance : Int) : Option Nat :=
  let target := (a : Int) + distance
  if 0 ≤ target ∧ target < wordCount then some target.toNat else none

theorem add_eq_ok {a b : Nat} (h : a + b < wordCount) : add a b = .ok (a + b) := by
  simp [add, h]

theorem sub_eq_ok {a b : Nat} (h : b ≤ a) : sub a b = .ok (a - b) := by
  simp [sub, h]

theorem mod_eq_ok {a b : Nat} (h : 0 < b) : mod a b = .ok (a % b) := by
  simp [mod, Nat.pos_iff_ne_zero.1 h]

end Word

/-- Refuse a block of memory that no address could span. -/
def checkBlock (size : Nat) : Checked Unit :=
  if size ≤ blockBound then .ok () else .error .oversizedBlock

/-- Lay `data` over the start of a buffer that has room for it. -/
def Bytes.fill (buffer data : Bytes) : Checked Bytes :=
  if data.length ≤ buffer.length then .ok (buffer.overlay data) else .error .sliceOutOfBounds

end Scrollback
