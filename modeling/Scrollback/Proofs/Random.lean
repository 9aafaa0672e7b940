import Scrollback.Random.Uniform
/-!
# Draws stay in their range

Of a product of a random number and the size of a range, the high part is taken. As a random number
is below `2 ^ bits`, the high part is below the size, whether or not the low part lets the product
be taken: so a draw that has used up its tries is in the range too
(`Random.Source.Bounded.between_inRange`).

The generator that the draws stand for has no such bound. It tries on until a product is taken, and
that one is the draw here as well if it is among the first `Random.tries`
(`Random.Source.drawFrom_add`). A draw that gives up instead, after 256 products that each had an
even chance at least, is a number that the generator may not have drawn.
-/

namespace Scrollback.Random

/-- Whatever range is asked for and whatever the state of the source, the number drawn is in it. -/
def InRange {σ : Type} (draw : (low high : Nat) → low ≤ high → σ → Nat × σ) : Prop :=
  ∀ low high (h : low ≤ high) s, low ≤ (draw low high h s).1 ∧ (draw low high h s).1 ≤ high

/-- Whatever highest number is asked for, the number drawn is from one to that. -/
def FromOne {σ : Type} (draw : Draw σ) : Prop :=
  ∀ highest h s, 1 ≤ (draw highest h s).1 ∧ (draw highest h s).1 ≤ highest

/-- A source gives numbers of its bits only. -/
def Source.Bounded (source : Source) : Prop :=
  ∀ s, (source.next s).1 < source.range

theorem Stream.next32_lt (s : Stream) : s.next32.1 < 4294967296 :=
  s.nextWord.1.toNat_lt

theorem Stream.next64_lt (s : Stream) : s.next64.1 < 18446744073709551616 := by
  have hlow := s.nextWord.1.toNat_lt
  have hhigh := s.nextWord.2.nextWord.1.toNat_lt
  change s.nextWord.1.toNat + (s.nextWord.2.nextWord.1.toNat <<< 32) < _
  rw [Nat.shiftLeft_eq]
  omega

theorem wordSource_bounded : wordSource.Bounded :=
  Stream.next64_lt

theorem intSource_bounded : intSource.Bounded :=
  Stream.next32_lt

theorem byteSource_bounded : byteSource.Bounded :=
  Stream.next32_lt

namespace Source

variable {source : Source}

/-- The high part of a product with a size is below the size. -/
theorem highPart_lt {n size : Nat} (hn : n < source.range) (hsize : 0 < size) :
    (n * size) >>> source.bits < size := by
  rw [source.range_eq, Nat.shiftLeft_eq, Nat.one_mul] at hn
  rw [Nat.shiftRight_eq_div_pow]
  exact Nat.div_lt_of_lt_mul (Nat.mul_lt_mul_of_pos_right hn hsize)

theorem Bounded.drawFrom_lt (h : source.Bounded) {size : Nat} (hsize : 0 < size) (zone fuel : Nat)
    (s : Stream) : (source.drawFrom size zone fuel s).1 < size := by
  induction fuel generalizing s with
  | zero => exact highPart_lt (h s) hsize
  | succ fuel ih =>
    rw [drawFrom]
    dsimp only
    split
    · exact highPart_lt (h s) hsize
    · exact ih _

theorem Bounded.between_inRange (h : source.Bounded) : InRange source.between := by
  intro low high hle s
  have hlt := h.drawFrom_lt (Nat.zero_lt_succ (high - low)) (source.zone (high - low + 1)) tries s
  simp only [between, Nat.succ_eq_add_one] at hlt ⊢
  omega

theorem Bounded.fromOne (h : source.Bounded) : FromOne (source.between 1) :=
  h.between_inRange 1

/-! ### Tries -/

/-- One of some first products is taken. -/
def TakesWithin (source : Source) (size zone : Nat) : (count : Nat) → Stream → Prop
  | 0, _ => False
  | count + 1, s =>
    (source.next s).1 * size % source.range ≤ zone ∨
      source.TakesWithin size zone count (source.next s).2

/-- More tries make no difference to a draw that takes a product. -/
theorem drawFrom_add {size zone fuel : Nat} {s : Stream}
    (h : source.TakesWithin size zone fuel s) (more : Nat) :
    source.drawFrom size zone (fuel + more) s = source.drawFrom size zone fuel s := by
  induction fuel generalizing s with
  | zero => cases h
  | succ fuel ih =>
    rw [Nat.succ_add, drawFrom, drawFrom]
    by_cases htaken : (source.next s).1 * size % source.range ≤ zone
    · simp only [htaken, if_true]
    · simp only [htaken, if_false]
      exact ih (h.resolve_left htaken)

end Source

end Scrollback.Random
