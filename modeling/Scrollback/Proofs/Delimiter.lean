import Mathlib.Data.List.Forall2
import Mathlib.Data.Nat.Digits.Lemmas
import Scrollback.Proofs.Text.Numeral
/-!
# The texts of delimiters

Three forms of text name a byte (`Delimiter.Form`): an escape, a hexadecimal numeral behind its
mark, and a character of ASCII. They are said here without the reader, and no text has two of them,
so the order in which the reader tries them is of no consequence. What it reads is exactly what they
say, and everything else is refused (`Delimiter.parse_accepts_exactly`).

The part with an argument is the numeral. The reader gives up at the first digit that takes the
value to the bound, so the zeros in front may be any number, and a number that is too large stays
so, whatever digits follow (`Numeral.readDigits_eq_ok_iff`).
-/

namespace Scrollback

namespace Numeral

variable {base bound : Nat} {c : Char} {digit n : Nat} {text : List Char}

/-- A character is the digit of some value in a base, in either case. -/
def IsDigit (base : Nat) (c : Char) (digit : Nat) : Prop :=
  digit < base ∧ (c = digit.digitChar ∨ c = digit.digitChar.toUpper)

/-- Characters are the digits of a number in a base, the highest one first. -/
def Spells (base : Nat) (text : List Char) (n : Nat) : Prop :=
  ∃ digits, List.Forall₂ (IsDigit base) text digits ∧ Nat.ofDigits base digits.reverse = n

/-- A text is one or more digits of a number, possibly behind a plus sign. -/
def Denotes (base : Nat) (text : List Char) (n : Nat) : Prop :=
  ∃ sign digits, text = sign ++ digits ∧ (sign = [] ∨ sign = ['+']) ∧ digits ≠ [] ∧
    Spells base digits n

/-! ### Digits -/

theorem isDigit_of_digitValue? (h : digitValue? base c = some digit) : IsDigit base c digit := by
  rw [digitValue?, Option.filter_eq_some_iff] at h
  obtain ⟨hvalue, hdigit⟩ := h
  refine ⟨of_decide_eq_true hdigit, ?_⟩
  have hchar : Char.ofNat c.toNat = c := Char.ofNat_toNat c
  have hdecimal : ∀ d < 10, Char.ofNat (d + 48) = d.digitChar := by decide
  have hlower : ∀ d < 16, 10 ≤ d → Char.ofNat (d + 87) = d.digitChar := by decide
  have hupper : ∀ d < 16, 10 ≤ d → Char.ofNat (d + 55) = d.digitChar.toUpper := by decide
  -- The code of a digit is its value and the distance of its range.
  split at hvalue
  next hrange =>
    have hlow : 48 ≤ c.toNat := hrange.1
    have hhigh : c.toNat ≤ 57 := hrange.2
    cases hvalue
    rw [← hdecimal (c.toNat - 48) (by omega), Nat.sub_add_cancel hlow, hchar]
    exact .inl rfl
  next =>
  split at hvalue
  next hrange =>
    have hlow : 97 ≤ c.toNat := hrange.1
    have hhigh : c.toNat ≤ 102 := hrange.2
    cases hvalue
    rw [← hlower (c.toNat - 87) (by omega) (by omega), Nat.sub_add_cancel (by omega), hchar]
    exact .inl rfl
  next =>
  split at hvalue
  next hrange =>
    have hlow : 65 ≤ c.toNat := hrange.1
    have hhigh : c.toNat ≤ 70 := hrange.2
    cases hvalue
    rw [← hupper (c.toNat - 55) (by omega) (by omega), Nat.sub_add_cancel (by omega), hchar]
    exact .inr rfl
  next => cases hvalue

theorem digitValue?_eq_some_iff (hbase : base ≤ 16) :
    digitValue? base c = some digit ↔ IsDigit base c digit := by
  refine ⟨isDigit_of_digitValue?, ?_⟩
  rintro ⟨hdigit, rfl | rfl⟩
  · exact digitValue?_digitChar hbase hdigit
  · have hvalue : ∀ d < 16, digitValue? 16 d.digitChar.toUpper = some d := by decide
    have hfound := hvalue digit (hdigit.trans_le hbase)
    unfold digitValue? at hfound ⊢
    rw [Option.filter_eq_some_iff] at hfound ⊢
    exact ⟨hfound.1, decide_eq_true hdigit⟩

/-! ### Numbers -/

theorem spells_nil : Spells base [] n ↔ n = 0 := by
  simp [Spells, eq_comm]

theorem spells_cons : Spells base (c :: text) n ↔ ∃ digit rest, IsDigit base c digit ∧
    Spells base text rest ∧ n = digit * base ^ text.length + rest := by
  have hvalue : ∀ digit digits, List.Forall₂ (IsDigit base) text digits →
      Nat.ofDigits base (digit :: digits).reverse =
        digit * base ^ text.length + Nat.ofDigits base digits.reverse := by
    intro digit digits hdigits
    rw [List.reverse_cons, Nat.ofDigits_append, Nat.ofDigits_singleton, List.length_reverse,
      hdigits.length_eq, Nat.add_comm, Nat.mul_comm]
  constructor
  · rintro ⟨digits, hdigits, rfl⟩
    obtain ⟨digit, rest, hdigit, hrest, rfl⟩ := List.forall₂_cons_left_iff.1 hdigits
    exact ⟨digit, _, hdigit, ⟨rest, hrest, rfl⟩, hvalue digit rest hrest⟩
  · rintro ⟨digit, -, hdigit, ⟨rest, hrest, rfl⟩, rfl⟩
    exact ⟨digit :: rest, .cons hdigit hrest, hvalue digit rest hrest⟩

/-- The digits that follow a value spell what its multiple lacks. To look at the bound after each of
them refuses no number below the bound, as the values only grow. -/
theorem readDigits_eq_ok_iff (hbase : base ≤ 16) (hpos : 0 < base) {value : Nat}
    (hvalue : value < bound) :
    readDigits base bound value text = .ok n ↔
      n < bound ∧ ∃ rest, Spells base text rest ∧ n = value * base ^ text.length + rest := by
  induction text generalizing value with
  | nil =>
    simp only [readDigits, Except.ok.injEq, spells_nil, exists_eq_left, List.length_nil, pow_zero,
      mul_one, Nat.add_zero]
    constructor
    · rintro rfl
      exact ⟨hvalue, rfl⟩
    · rintro ⟨-, rfl⟩
      rfl
  | cons c text ih =>
    simp only [readDigits, spells_cons, List.length_cons]
    cases hdigit : digitValue? base c with
    | none =>
      refine iff_of_false (fun h => by cases h) ?_
      rintro ⟨-, -, ⟨digit, rest, hc, -, -⟩, -⟩
      cases hdigit.symm.trans ((digitValue?_eq_some_iff hbase).2 hc)
    | some digit =>
      have hsplit : ∀ rest, value * base ^ (text.length + 1) + (digit * base ^ text.length + rest) =
          (value * base + digit) * base ^ text.length + rest := fun rest => by ring
      dsimp only
      split
      next hgrown =>
        rw [ih hgrown]
        constructor
        · rintro ⟨hlt, rest, hrest, rfl⟩
          have hc := isDigit_of_digitValue? hdigit
          exact ⟨hlt, _, ⟨digit, rest, hc, hrest, rfl⟩, (hsplit rest).symm⟩
        · rintro ⟨hlt, -, ⟨digit', rest, hc, hrest, rfl⟩, hn⟩
          cases hdigit.symm.trans ((digitValue?_eq_some_iff hbase).2 hc)
          exact ⟨hlt, rest, hrest, hn.trans (hsplit rest)⟩
      next hgrown =>
        refine iff_of_false (fun h => by cases h) ?_
        rintro ⟨hlt, -, ⟨digit', rest, hc, hrest, rfl⟩, hn⟩
        cases hdigit.symm.trans ((digitValue?_eq_some_iff hbase).2 hc)
        have hgrows : value * base + digit ≤ (value * base + digit) * base ^ text.length :=
          Nat.le_mul_of_pos_right _ (Nat.pow_pos hpos)
        have hsum := hn.trans (hsplit rest)
        omega

/-- A plus sign is no digit, so one at the start is the sign. -/
theorem denotes_cons (hbase : base ≤ 16) : Denotes base (c :: text) n ↔
    (if c = '+' then text else c :: text) ≠ [] ∧
      Spells base (if c = '+' then text else c :: text) n := by
  constructor
  · rintro ⟨sign, digits, htext, rfl | rfl, hne, hspells⟩
    · obtain rfl : c :: text = digits := htext
      have hsign : c ≠ '+' := by
        rintro rfl
        obtain ⟨digit, -, hdigit, -⟩ := spells_cons.1 hspells
        cases (digitValue?_eq_some_iff hbase).2 hdigit
      rw [if_neg hsign]
      exact ⟨hne, hspells⟩
    · obtain ⟨rfl, rfl⟩ := List.cons.inj htext
      rw [if_pos rfl]
      exact ⟨hne, hspells⟩
  · rintro ⟨hne, hspells⟩
    split at hne
    next hsign =>
      subst hsign
      exact ⟨['+'], text, rfl, .inr rfl, hne, hspells⟩
    next hsign =>
      rw [if_neg hsign] at hspells
      exact ⟨[], c :: text, rfl, .inl rfl, hne, hspells⟩

/-- A numeral is read exactly if it denotes a number below the bound. -/
theorem parse_eq_ok_iff (hbase : base ≤ 16) (hpos : 0 < base) (hbound : 0 < bound) :
    parse base bound text = .ok n ↔ n < bound ∧ Denotes base text n := by
  cases text with
  | nil =>
    refine iff_of_false nofun ?_
    rintro ⟨-, sign, digits, htext, -, hne, -⟩
    exact hne (List.append_eq_nil_iff.1 htext.symm).2
  | cons c text =>
    rw [denotes_cons hbase, parse]
    generalize (if c = '+' then text else c :: text) = digits
    cases digits with
    | nil => simp
    | cons c digits =>
      rw [List.isEmpty_cons, if_neg Bool.false_ne_true, readDigits_eq_ok_iff hbase hpos hbound]
      simp

end Numeral

namespace Delimiter

/-- The forms of text that name a byte. -/
inductive Form where
  /-- A backslash and a letter, or zero. -/
  | escape
  /-- A hexadecimal numeral, behind a zero and an X. -/
  | hexadecimal
  /-- The character whose code is the byte. -/
  | character
  deriving DecidableEq, Repr

/-- A text of some form names a byte. -/
def Form.Names : Form → List Char → UInt8 → Prop
  | escape, text, b =>
    (text, b) ∈ [(['\\', 'n'], 10), (['\\', 'r'], 13), (['\\', 't'], 9), (['\\', '0'], 0)]
  | hexadecimal, text, b =>
    ∃ mark digits, text = '0' :: mark :: digits ∧ (mark = 'x' ∨ mark = 'X') ∧
      Numeral.Denotes 16 digits b.toNat
  | character, text, b => ∃ c : Char, text = [c] ∧ c.toNat < 128 ∧ c.toNat = b.toNat

variable {text : List Char} {b b' : UInt8}

theorem escaped?_eq_some_iff : escaped? text = some b ↔ Form.escape.Names text b := by
  unfold escaped?
  split <;> simp_all [Form.Names, eq_comm]

theorem hexDigits?_eq_some_iff {digits : List Char} : hexDigits? text = some digits ↔
    ∃ mark, text = '0' :: mark :: digits ∧ (mark = 'x' ∨ mark = 'X') := by
  constructor
  · intro h
    unfold hexDigits? at h
    split at h
    case h_1 => exact ⟨'x', by rw [Option.some.inj h], .inl rfl⟩
    case h_2 => exact ⟨'X', by rw [Option.some.inj h], .inr rfl⟩
    case h_3 => cases h
  · rintro ⟨mark, rfl, rfl | rfl⟩ <;> rfl

theorem single?_eq_some_iff : single? text = some b ↔ Form.character.Names text b := by
  constructor
  · intro h
    unfold single? at h
    split at h
    next c =>
      split at h
      next hascii =>
        cases h
        exact ⟨c, rfl, hascii, (UInt8.toNat_ofNat_of_lt' (hascii.trans (by decide))).symm⟩
      next => cases h
    next => cases h
  · rintro ⟨c, rfl, hascii, hcode⟩
    rw [single?, if_pos hascii, hcode, UInt8.ofNat_toNat]

/-! ### One form at most -/

/-- The forms differ in the lengths of their texts. -/
def Form.Fits : Form → Nat → Prop
  | escape, length => length = 2
  | hexadecimal, length => 3 ≤ length
  | character, length => length = 1

theorem Form.Names.fits {form : Form} (h : form.Names text b) : form.Fits text.length := by
  cases form with
  | escape =>
    simp only [Names, List.mem_cons, Prod.mk.injEq, List.not_mem_nil, or_false] at h
    obtain ⟨rfl, -⟩ | ⟨rfl, -⟩ | ⟨rfl, -⟩ | ⟨rfl, -⟩ := h <;> rfl
  | hexadecimal =>
    obtain ⟨mark, -, rfl, -, sign, digits, rfl, -, hne, -⟩ := h
    have hpos := List.length_pos_of_ne_nil hne
    simp only [Fits, List.length_cons, List.length_append]
    omega
  | character =>
    obtain ⟨c, rfl, -⟩ := h
    rfl

theorem Form.Names.unique {form form' : Form} (h : form.Names text b)
    (h' : form'.Names text b') : form = form' := by
  have hfits := h.fits
  have hfits' := h'.fits
  cases form <;> cases form' <;> simp only [Fits] at hfits hfits' <;> first | rfl | omega

/-! ### Reading -/

theorem escaped?_eq_none {form : Form} (h : form.Names text b) (hother : form ≠ .escape) :
    escaped? text = none := by
  cases hescaped : escaped? text with
  | none => rfl
  | some b' => exact absurd (h.unique (escaped?_eq_some_iff.1 hescaped)) hother

theorem parse_eq_ok_iff : parse text = .ok b ↔ ∃ form : Form, form.Names text b := by
  constructor
  · intro h
    unfold parse at h
    split at h
    next b' hescaped =>
      cases h
      exact ⟨.escape, escaped?_eq_some_iff.1 hescaped⟩
    next =>
    split at h
    next digits hdigits =>
      split at h
      next value hvalue =>
        cases h
        obtain ⟨mark, rfl, hmark⟩ := hexDigits?_eq_some_iff.1 hdigits
        obtain ⟨hlt, hdenotes⟩ :=
          (Numeral.parse_eq_ok_iff (by decide) (by decide) (by decide)).1 hvalue
        rw [← UInt8.toNat_ofNat_of_lt' hlt] at hdenotes
        exact ⟨.hexadecimal, mark, digits, rfl, hmark, hdenotes⟩
      next => cases h
    next =>
    split at h
    next b' hsingle =>
      cases h
      exact ⟨.character, single?_eq_some_iff.1 hsingle⟩
    next => cases h
  · rintro ⟨form, hform⟩
    cases form with
    | escape => rw [parse, escaped?_eq_some_iff.2 hform]
    | hexadecimal =>
      have hescaped := escaped?_eq_none hform (by decide)
      obtain ⟨mark, digits, rfl, hmark, hdenotes⟩ := hform
      have hread : Numeral.parse 16 256 digits = .ok b.toNat :=
        (Numeral.parse_eq_ok_iff (by decide) (by decide) (by decide)).2 ⟨b.toNat_lt, hdenotes⟩
      simp only [parse, hescaped, hexDigits?_eq_some_iff.2 ⟨mark, rfl, hmark⟩, hread,
        UInt8.ofNat_toNat]
    | character =>
      have hescaped := escaped?_eq_none hform (by decide)
      have hsingle := single?_eq_some_iff.2 hform
      obtain ⟨c, rfl, -⟩ := hform
      have hdigits : hexDigits? [c] = none := by
        refine Option.eq_none_iff_forall_ne_some.2 fun digits h => ?_
        obtain ⟨mark, htext, -⟩ := hexDigits?_eq_some_iff.1 h
        cases htext
      simp only [parse, hescaped, hdigits, hsingle]

/-- Which error a refusal is depends on the mark alone. -/
theorem parse_eq_error {e : DelimiterError} (h : parse text = .error e) :
    e = if (hexDigits? text).isSome then .invalidHex text else .notOneByte text := by
  unfold parse at h
  split at h
  next => cases h
  next =>
  split at h
  next digits hdigits =>
    rw [hdigits]
    split at h
    next => cases h
    next =>
      cases h
      rfl
  next hdigits =>
    rw [hdigits]
    split at h
    next => cases h
    next =>
      cases h
      rfl

/-- A text is read as a byte exactly if it names the byte in one and only one form, and it is
refused exactly if it names none in any form. The refusal tells whether the text has the mark of a
numeral. -/
theorem parse_accepts_exactly (text : List Char) :
    (∀ b, parse text = .ok b ↔ ∃! form : Form, form.Names text b) ∧
    ∀ e, parse text = .error e ↔ (∀ (form : Form) (b : UInt8), ¬ form.Names text b) ∧
      e = if (hexDigits? text).isSome then .invalidHex text else .notOneByte text := by
  constructor
  · intro b
    rw [parse_eq_ok_iff]
    constructor
    · rintro ⟨form, hform⟩
      exact ⟨form, hform, fun other hother => hother.unique hform⟩
    · rintro ⟨form, hform, -⟩
      exact ⟨form, hform⟩
  · intro e
    constructor
    · intro h
      refine ⟨fun form b hform => ?_, parse_eq_error h⟩
      cases h.symm.trans (parse_eq_ok_iff.2 ⟨form, hform⟩)
    · rintro ⟨hnone, rfl⟩
      cases hparse : parse text with
      | ok b =>
        obtain ⟨form, hform⟩ := parse_eq_ok_iff.1 hparse
        exact absurd hform (hnone form b)
      | error e => rw [parse_eq_error hparse]

/-- There may be any number of zeros, and a sign in front of them only. -/
example : parse "0X+0000fF".toList = .ok 255 ∧
    parse "0x-1".toList = .error (.invalidHex "0x-1".toList) ∧
    parse "0x100".toList = .error (.invalidHex "0x100".toList) := by
  decide +kernel

/-- A character of two bytes is no delimiter. -/
example : parse ['é'] = .error (.notOneByte ['é']) := by
  decide +kernel

end Delimiter

end Scrollback
