import Mathlib.Data.List.Basic
import Scrollback.Proofs.Text.Numeral
/-!
# Values that can be split off a text

A way to write values is prefix-free if a text that starts with a written value starts with no other
one, so that the text tells the value and what follows it. Then a whole list can be written one
value after the other, as long as what closes the list is no start of a value
(`PrefixFree.sequence`), and with separators between the values (`SplitsOff.separated`).

A number is not prefix-free, for more digits may follow, but it is told where no digit follows it.
Hence the weaker `SplitsOff`, in which something is known of what follows.
-/

namespace Scrollback

/-- Two texts are equal in both parts, if the first part is all of one kind of characters and the
second does not start with one. -/
theorem append_inj_of_head? {α : Type} {p : α → Prop} {front front' back back' : List α}
    (hfront : ∀ c ∈ front, p c) (hfront' : ∀ c ∈ front', p c)
    (hback : ∀ c ∈ back.head?, ¬ p c) (hback' : ∀ c ∈ back'.head?, ¬ p c)
    (h : front ++ back = front' ++ back') : front = front' ∧ back = back' := by
  -- What one front part has more than the other is the start of a back part.
  obtain ⟨more, rfl, rfl⟩ | ⟨more, rfl, rfl⟩ := List.append_eq_append_iff.1 h
  · cases more with
    | nil => simp
    | cons c more => exact absurd (hfront' c (by simp)) (hback c rfl)
  · cases more with
    | nil => simp
    | cons c more => exact absurd (hfront c (by simp)) (hback' c rfl)

/-- A text tells a written value at its start, if what follows is of some kind. -/
def SplitsOff {α : Type} (mayFollow : List Char → Prop) (written : α → List Char) : Prop :=
  ∀ ⦃a b : α⦄ ⦃rest rest' : List Char⦄, mayFollow rest → mayFollow rest' →
    written a ++ rest = written b ++ rest' → a = b ∧ rest = rest'

/-- A text tells a written value at its start, whatever follows. -/
def PrefixFree {α : Type} (written : α → List Char) : Prop :=
  ∀ ⦃a b : α⦄ ⦃rest rest' : List Char⦄,
    written a ++ rest = written b ++ rest' → a = b ∧ rest = rest'

variable {α β : Type} {mayFollow : List Char → Prop} {written : α → List Char}

/-! ### Lists of values -/

namespace SplitsOff

/-- What always stands before a value is taken off first. -/
theorem after (h : SplitsOff mayFollow written) (front : List Char) :
    SplitsOff mayFollow fun a => front ++ written a := by
  intro a b rest rest' hrest hrest' heq
  simp only [List.append_assoc, List.append_cancel_left_eq] at heq
  exact h hrest hrest' heq

/-- What always stands behind a value may as well show where it ends. -/
theorem before (h : SplitsOff mayFollow written) (back : List Char)
    (hback : ∀ rest, mayFollow (back ++ rest)) : PrefixFree fun a => written a ++ back := by
  intro a b rest rest' heq
  simp only [List.append_assoc] at heq
  obtain ⟨rfl, htail⟩ := h (hback _) (hback _) heq
  exact ⟨rfl, List.append_cancel_left htail⟩

theorem comp (h : SplitsOff mayFollow written) {f : β → α} (hf : Function.Injective f) :
    SplitsOff mayFollow fun b => written (f b) := by
  intro a b rest rest' hrest hrest' heq
  obtain ⟨hvalue, htail⟩ := h hrest hrest' heq
  exact ⟨hf hvalue, htail⟩

/-- Values one after the other, up to a text that is no start of a value. -/
theorem sequence {closing : List Char} (h : SplitsOff mayFollow written)
    (hnext : ∀ a rest, mayFollow (written a ++ rest))
    (hclosing : ∀ rest, mayFollow (closing ++ rest))
    (hne : ∀ a rest rest', written a ++ rest ≠ closing ++ rest') :
    PrefixFree fun as : List α => as.flatMap written ++ closing := by
  have hfollow : ∀ (as : List α) (rest : List Char),
      mayFollow (as.flatMap written ++ (closing ++ rest)) := by
    intro as rest
    cases as with
    | nil => exact hclosing rest
    | cons a as =>
      rw [List.flatMap_cons, List.append_assoc]
      exact hnext a _
  intro as bs rest rest' heq
  simp only [List.append_assoc] at heq
  induction as generalizing bs with
  | nil =>
    cases bs with
    | nil => exact ⟨rfl, List.append_cancel_left heq⟩
    | cons b bs =>
      rw [List.flatMap_cons, List.append_assoc] at heq
      exact absurd heq.symm (hne b _ _)
  | cons a as ih =>
    rw [List.flatMap_cons, List.append_assoc] at heq
    cases bs with
    | nil => exact absurd heq (hne a _ _)
    | cons b bs =>
      rw [List.flatMap_cons, List.append_assoc] at heq
      obtain ⟨rfl, htail⟩ := h (hfollow as rest) (hfollow bs rest') heq
      obtain ⟨rfl, hrest⟩ := ih htail
      exact ⟨rfl, hrest⟩

theorem intercalate_map_cons (separator : List Char) (written : α → List Char) (a : α)
    (as : List α) : separator.intercalate ((a :: as).map written) =
      written a ++ as.flatMap fun a => separator ++ written a := by
  induction as generalizing a with
  | nil => simp [List.intercalate_singleton]
  | cons b as ih =>
    rw [List.map_cons, List.map_cons, List.intercalate_cons_cons, ← List.map_cons, ih]
    simp

/-- Values with a separator between them, up to a text that is no start of a value or of a
separator. -/
theorem separated {separator closing : List Char} (h : SplitsOff mayFollow written)
    (hseparator : ∀ rest, mayFollow (separator ++ rest))
    (hclosing : ∀ rest, mayFollow (closing ++ rest))
    (hne : ∀ a rest rest', written a ++ rest ≠ closing ++ rest')
    (hne' : ∀ rest rest', separator ++ rest ≠ closing ++ rest') :
    PrefixFree fun as : List α => separator.intercalate (as.map written) ++ closing := by
  -- A separator before the first value as well makes one sequence of all.
  have hall : PrefixFree fun as : List α =>
      as.flatMap (fun a => separator ++ written a) ++ closing := by
    refine (h.after separator).sequence (fun a rest => ?_) hclosing fun a rest rest' => ?_
    · rw [List.append_assoc]
      exact hseparator _
    · rw [List.append_assoc]
      exact hne' _ _
  intro as bs rest rest' heq
  cases as with
  | nil =>
    cases bs with
    | nil => exact ⟨rfl, List.append_cancel_left heq⟩
    | cons b bs =>
      simp only [intercalate_map_cons, List.append_assoc] at heq
      exact absurd heq.symm (hne b _ _)
  | cons a as =>
    cases bs with
    | nil =>
      simp only [intercalate_map_cons, List.append_assoc] at heq
      exact absurd heq (hne a _ _)
    | cons b bs =>
      refine hall ?_
      simp only [intercalate_map_cons] at heq
      simpa only [List.flatMap_cons, List.append_assoc] using congrArg (separator ++ ·) heq

end SplitsOff

namespace PrefixFree

theorem splitsOff (h : PrefixFree written) : SplitsOff (fun _ => True) written :=
  fun _ _ _ _ _ _ heq => h heq

theorem injective (h : PrefixFree written) : Function.Injective written := by
  intro a b heq
  exact (h (congrArg (· ++ []) heq)).1

theorem after (h : PrefixFree written) (front : List Char) :
    PrefixFree fun a => front ++ written a :=
  fun _ _ _ _ heq => h.splitsOff.after front trivial trivial heq

theorem before (h : PrefixFree written) (back : List Char) :
    PrefixFree fun a => written a ++ back :=
  h.splitsOff.before back fun _ => trivial

theorem comp (h : PrefixFree written) {f : β → α} (hf : Function.Injective f) :
    PrefixFree fun b => written (f b) :=
  fun _ _ _ _ heq => h.splitsOff.comp hf trivial trivial heq

theorem sequence {closing : List Char} (h : PrefixFree written)
    (hne : ∀ a rest rest', written a ++ rest ≠ closing ++ rest') :
    PrefixFree fun as : List α => as.flatMap written ++ closing :=
  h.splitsOff.sequence (fun _ _ => trivial) (fun _ => trivial) hne

theorem separated {separator closing : List Char} (h : PrefixFree written)
    (hne : ∀ a rest rest', written a ++ rest ≠ closing ++ rest')
    (hne' : ∀ rest rest', separator ++ rest ≠ closing ++ rest') :
    PrefixFree fun as : List α => separator.intercalate (as.map written) ++ closing :=
  h.splitsOff.separated (fun _ => trivial) (fun _ => trivial) hne hne'

/-- Values of two sorts, of which none is written like one of the other sort. -/
theorem sum {written' : β → List Char} (h : PrefixFree written) (h' : PrefixFree written')
    (hne : ∀ a b rest rest', written a ++ rest ≠ written' b ++ rest') :
    PrefixFree (Sum.elim written written') := by
  rintro (a | a) (b | b) rest rest' heq
  · obtain ⟨rfl, hrest⟩ := h heq
    exact ⟨rfl, hrest⟩
  · exact absurd heq (hne a b _ _)
  · exact absurd heq.symm (hne b a _ _)
  · obtain ⟨rfl, hrest⟩ := h' heq
    exact ⟨rfl, hrest⟩

/-! ### Values in a code -/

/-- Of two texts that are coded alike up to some point, one is the start of the other. -/
theorem isPrefix_of_flatMap {code : Char → List Char} (hcode : PrefixFree code)
    {text text' rest rest' : List Char}
    (h : text.flatMap code ++ rest = text'.flatMap code ++ rest') :
    text <+: text' ∨ text' <+: text := by
  induction text generalizing text' with
  | nil => exact .inl List.nil_prefix
  | cons c text ih =>
    cases text' with
    | nil => exact .inr List.nil_prefix
    | cons d text' =>
      simp only [List.flatMap_cons, List.append_assoc] at h
      obtain ⟨rfl, htail⟩ := hcode h
      exact (ih htail).imp (List.prefix_cons_inj c).2 (List.prefix_cons_inj c).2

/-- A text that tells a value still does so in a code. -/
theorem flatMap {code : Char → List Char} (h : PrefixFree written) (hcode : PrefixFree code) :
    PrefixFree fun a => (written a).flatMap code := by
  intro a b rest rest' heq
  obtain rfl : a = b := by
    obtain ⟨more, hmore⟩ | ⟨more, hmore⟩ := isPrefix_of_flatMap hcode heq
    · exact (h (hmore.trans (List.append_nil _).symm)).1
    · exact (h (hmore.trans (List.append_nil _).symm)).1.symm
  exact ⟨rfl, List.append_cancel_left heq⟩

end PrefixFree

/-! ### Numbers -/

/-- No character of some kind follows. -/
def StopsAt (kind : Char → Prop) (rest : List Char) : Prop :=
  ∀ c ∈ rest.head?, ¬ kind c

theorem stopsAt_cons {kind : Char → Prop} {c : Char} (h : ¬ kind c) (rest : List Char) :
    StopsAt kind (c :: rest) := by
  intro d hd
  cases hd
  exact h

/-- The digits of a base. -/
def IsDigitOf (base : Nat) (c : Char) : Prop :=
  ∃ digit < base, c = digit.digitChar

theorem toDigits_injective {base : Nat} (hbase : 1 < base) (hsixteen : base ≤ 16) :
    Function.Injective (Nat.toDigits base) := by
  intro m n h
  have hm := Numeral.readDigits_toDigits hbase hsixteen (Nat.lt_succ_of_le (Nat.le_max_left m n))
  have hn := Numeral.readDigits_toDigits hbase hsixteen (Nat.lt_succ_of_le (Nat.le_max_right m n))
  rw [h, hn] at hm
  exact (Except.ok.inj hm).symm

/-- No number starts with another character than a digit. -/
theorem toDigits_append_ne {base : Nat} (hbase : 1 < base) {c : Char} (hc : ¬ IsDigitOf base c)
    (n : Nat) (rest rest' : List Char) : Nat.toDigits base n ++ rest ≠ c :: rest' := by
  intro heq
  cases hdigits : Nat.toDigits base n with
  | nil => exact Nat.toDigits_ne_nil hdigits
  | cons d digits =>
    rw [hdigits, List.cons_append, List.cons.injEq] at heq
    refine hc (heq.1 ▸ Numeral.mem_toDigits hbase (n := n) ?_)
    rw [hdigits]
    exact List.mem_cons_self

/-- A number is told where no digit of its base follows. -/
theorem splitsOff_toDigits {base : Nat} (hbase : 1 < base) (hsixteen : base ≤ 16) :
    SplitsOff (StopsAt (IsDigitOf base)) (Nat.toDigits base) := by
  intro m n rest rest' hrest hrest' heq
  obtain ⟨hdigits, htail⟩ := append_inj_of_head?
    (fun c => Numeral.mem_toDigits hbase) (fun c => Numeral.mem_toDigits hbase) hrest hrest' heq
  exact ⟨toDigits_injective hbase hsixteen hdigits, htail⟩

end Scrollback
