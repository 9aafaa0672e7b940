import Mathlib.Data.Nat.Digits.Defs
import Scrollback.Delimiter
/-!
# Numerals that are printed

A number printed in a base is read again as itself, if it is below the bound: the digits read so far
spell a quotient of the number, which is below the bound as well. Zeros in front change nothing.
What is read is always below the bound.
-/

namespace Scrollback

namespace Numeral

variable {base bound : Nat}

theorem digitValue?_digitChar (hbase : base ≤ 16) {digit : Nat} (h : digit < base) :
    digitValue? base digit.digitChar = some digit := by
  have hvalue : ∀ d < 16, digitValue? 16 d.digitChar = some d := by decide
  have hfound := hvalue digit (h.trans_le hbase)
  unfold digitValue? at hfound ⊢
  rw [Option.filter_eq_some_iff] at hfound ⊢
  exact ⟨hfound.1, decide_eq_true h⟩

theorem mem_toDigits (hbase : 1 < base) {n : Nat} {c : Char} (h : c ∈ Nat.toDigits base n) :
    ∃ digit < base, c = digit.digitChar := by
  induction n using Nat.strong_induction_on with
  | _ n ih =>
    rw [Nat.toDigits_eq_if hbase] at h
    split at h
    next hlt => exact ⟨n, hlt, List.mem_singleton.1 h⟩
    next hle =>
      obtain h | h := List.mem_append.1 h
      · exact ih (n / base) (Nat.div_lt_self (by omega) hbase) h
      · exact ⟨n % base, Nat.mod_lt n (by omega), List.mem_singleton.1 h⟩

theorem readDigits_append (value : Nat) (first next : List Char) :
    readDigits base bound value (first ++ next) =
      (readDigits base bound value first).bind fun value => readDigits base bound value next := by
  induction first generalizing value with
  | nil => rfl
  | cons c first ih =>
    rw [List.cons_append, readDigits, readDigits]
    cases digitValue? base c with
    | none => rfl
    | some digit =>
      dsimp only
      split
      · exact ih _
      · rfl

theorem readDigits_singleton (hbase : base ≤ 16) (value : Nat) {digit : Nat} (h : digit < base)
    (hlt : value * base + digit < bound) :
    readDigits base bound value [digit.digitChar] = .ok (value * base + digit) := by
  rw [readDigits, digitValue?_digitChar hbase h]
  dsimp only
  rw [if_pos hlt]
  rfl

theorem readDigits_toDigits (hbase : 1 < base) (hsixteen : base ≤ 16) {n : Nat} (h : n < bound) :
    readDigits base bound 0 (Nat.toDigits base n) = .ok n := by
  induction n using Nat.strong_induction_on with
  | _ n ih =>
    have hdigit : n % base < base := Nat.mod_lt n (by omega)
    have hsplit : n / base * base + n % base = n := Nat.div_add_mod' n base
    rw [Nat.toDigits_eq_if hbase]
    split
    next hlt =>
      rw [readDigits_singleton hsixteen 0 hlt (by omega)]
      simp
    next hle =>
      have hless : n / base < n := Nat.div_lt_self (by omega) hbase
      rw [readDigits_append, ih (n / base) hless (hless.trans h)]
      change readDigits base bound (n / base) [(n % base).digitChar] = .ok n
      rw [readDigits_singleton hsixteen _ hdigit (by omega), hsplit]

/-- Zeros in front change nothing. -/
theorem readDigits_zeros (hbase : 0 < base) (hbound : 0 < bound) (count : Nat)
    (digits : List Char) :
    readDigits base bound 0 (List.replicate count '0' ++ digits) =
      readDigits base bound 0 digits := by
  induction count with
  | zero => rfl
  | succ count ih =>
    have hzero : digitValue? base '0' = some 0 := by
      unfold digitValue?
      rw [Option.filter_eq_some_iff]
      exact ⟨rfl, decide_eq_true hbase⟩
    rw [List.replicate_succ, List.cons_append, readDigits, hzero]
    dsimp only
    rw [Nat.zero_mul, Nat.add_zero, if_pos hbound, ih]

/-- A number below the bound that is printed, with any number of zeros in front, is read again. -/
theorem parse_toDigits (hbase : 1 < base) (hsixteen : base ≤ 16) {n : Nat} (h : n < bound)
    (zeros : Nat) :
    parse base bound (List.replicate zeros '0' ++ Nat.toDigits base n) = .ok n := by
  have hread := readDigits_toDigits hbase hsixteen h
  rw [← readDigits_zeros (by omega) (by omega) zeros] at hread
  have hdigits : ∀ c ∈ List.replicate zeros '0' ++ Nat.toDigits base n, c ≠ '+' := by
    intro c hmem hplus
    obtain hzero | hdigit := List.mem_append.1 hmem
    · cases (List.eq_of_mem_replicate hzero).symm.trans hplus
    · obtain ⟨digit, -, rfl⟩ := mem_toDigits hbase hdigit
      exact Nat.digitChar_ne '+' (by decide) hplus
  have hne : List.replicate zeros '0' ++ Nat.toDigits base n ≠ [] :=
    List.append_ne_nil_of_right_ne_nil _ Nat.toDigits_ne_nil
  generalize List.replicate zeros '0' ++ Nat.toDigits base n = text at *
  cases text with
  | nil => exact absurd rfl hne
  | cons c rest =>
    simp only [parse, if_neg (hdigits c List.mem_cons_self), List.isEmpty_cons]
    exact hread

theorem parse_toString {n : Nat} (h : n < bound) : parse 10 bound (toString n).toList = .ok n := by
  have hparse : parse 10 bound (List.replicate 0 '0' ++ Nat.toDigits 10 n) = .ok n :=
    parse_toDigits (by decide) (by decide) h 0
  rwa [List.replicate_zero, List.nil_append, ← Nat.toList_repr] at hparse

/-! ### Decimals -/

theorem isDigit_of_mem_toString {n : Nat} {c : Char} (h : c ∈ (toString n).toList) :
    c.isDigit = true := by
  rw [Nat.toString_eq_repr, Nat.toList_repr] at h
  exact Nat.isDigit_of_mem_toDigits (by decide) (by decide) h

theorem toString_injective {m n : Nat} (h : toString m = toString n) : m = n := by
  have hread := congrArg (fun text => Nat.ofDigitChars 10 text.toList 0) h
  simpa only [Nat.toString_eq_repr, Nat.toList_repr, Nat.ofDigitChars_ten_toDigits] using hread

/-! ### What is read -/

theorem readDigits_lt {value n : Nat} {digits : List Char} (hvalue : value < bound)
    (h : readDigits base bound value digits = .ok n) : n < bound := by
  induction digits generalizing value with
  | nil =>
    cases h
    exact hvalue
  | cons c digits ih =>
    rw [readDigits] at h
    split at h
    next => cases h
    next digit hdigit =>
      dsimp only at h
      split at h
      next hgrown => exact ih hgrown h
      next => cases h

theorem parse_lt {n : Nat} {text : List Char} (hbound : 0 < bound)
    (h : parse base bound text = .ok n) : n < bound := by
  unfold parse at h
  split at h
  next => cases h
  next c rest =>
    dsimp only at h
    generalize (if c = '+' then rest else c :: rest) = digits at h
    split at h
    · cases h
    · exact readDigits_lt hbound h

end Numeral

/-! ### Delimiters -/

/-- The canonical text of a byte is no escape and no single character, whatever the byte. -/
theorem Delimiter.parse_canonical (b : UInt8) : parse (canonical b) = .ok b := by
  have hread : Numeral.parse 16 256 (List.replicate (2 - (Nat.toDigits 16 b.toNat).length) '0' ++
      Nat.toDigits 16 b.toNat) = .ok b.toNat :=
    Numeral.parse_toDigits (by decide) (by decide) b.toNat_lt _
  have hescaped : escaped? (canonical b) = none := rfl
  have hhex : hexDigits? (canonical b) = some
      (List.replicate (2 - (Nat.toDigits 16 b.toNat).length) '0' ++ Nat.toDigits 16 b.toNat) := rfl
  rw [parse, hescaped, hhex]
  dsimp only
  rw [hread]
  exact congrArg Except.ok UInt8.ofNat_toNat

end Scrollback
