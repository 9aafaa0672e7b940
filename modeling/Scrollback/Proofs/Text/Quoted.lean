import Scrollback.Proofs.Text.PrefixFree
import Scrollback.Text.Quoted
/-!
# Quoted text is told by its quotes

Which characters are given by their code point is a matter of taste and of the version of a table.
What quoted text can tell does not depend on it: a backslash is never a character by itself, the
letter behind it is no `u` unless a code point follows, and a code point ends with its brace. So
each character can be split off the text between the quotes, none of them starts with the closing
quote, and the whole is prefix-free (`Quoted.isQuoting_quoteHiding`).
-/

namespace Scrollback.Quoted

/-- The characters that have a letter of their own behind a backslash. -/
def letters : List (Char × Char) :=
  [('\x00', '0'), ('\t', 't'), ('\r', 'r'), ('\n', 'n'), ('"', '"'), ('\\', '\\')]

/-- One character as it stands between the quotes, if the hidden ones without a letter are given by
their code point. -/
def escapeHiding (hidden : Char → Bool) (c : Char) : List Char :=
  match letters.lookup c with
  | some letter => ['\\', letter]
  | none => if hidden c then byCodePoint c else [c]

/-- A text between quotes, if some characters are hidden. -/
def quoteHiding (hidden : Char → Bool) (text : List Char) : List Char :=
  '"' :: text.flatMap (escapeHiding hidden) ++ ['"']

theorem escapeHiding_of_not_mem {hidden : Char → Bool} {c : Char}
    (h : ∀ entry ∈ letters, c ≠ entry.1) :
    escapeHiding hidden c = if hidden c then byCodePoint c else [c] := by
  have hnone : letters.lookup c = none := by
    rw [List.lookup_eq_none_iff]
    exact fun entry hentry => bne_iff_ne.2 (h entry hentry)
  rw [escapeHiding, hnone]

/-- What is hidden by default are the glyphless characters. -/
theorem escape_eq : escape = escapeHiding isGlyphless := by
  funext c
  by_cases hletter : ∀ entry ∈ letters, c ≠ entry.1
  · rw [escapeHiding_of_not_mem hletter]
    simp only [letters, List.forall_mem_cons, List.not_mem_nil, false_implies] at hletter
    obtain ⟨hnull, htab, hreturn, hbreak, hquote, hbackslash, -⟩ := hletter
    rw [escape, if_neg hnull, if_neg htab, if_neg hreturn, if_neg hbreak, if_neg hquote,
      if_neg hbackslash]
  · push Not at hletter
    obtain ⟨entry, hentry, rfl⟩ := hletter
    have hall : ∀ entry ∈ letters, escape entry.1 = escapeHiding isGlyphless entry.1 := by
      simp only [letters, List.forall_mem_cons, List.not_mem_nil, false_implies]
      exact ⟨rfl, rfl, rfl, rfl, rfl, rfl, fun _ => trivial⟩
    exact hall entry hentry

theorem quote_eq : quote = quoteHiding isGlyphless := by
  funext text
  rw [quote, escape_eq, quoteHiding]

/-- What any way to quote a text has to ensure. -/
structure IsQuoting (quote : List Char → List Char) : Prop where
  prefixFree : PrefixFree quote
  opens : ∀ text, ∃ more, quote text = '"' :: more

/-! ### One character -/

theorem mem_letters {c letter : Char} (h : letters.lookup c = some letter) :
    (c, letter) ∈ letters := by
  obtain ⟨before, after, heq, -⟩ := List.lookup_eq_some_iff.1 h
  simp [heq]

/-- A letter stands for one character, and it is no `u`. -/
theorem letters_unambiguous : ∀ entry ∈ letters,
    entry.2 ≠ 'u' ∧ ∀ entry' ∈ letters, entry.2 = entry'.2 → entry.1 = entry'.1 := by
  decide

theorem byCodePoint_prefixFree : PrefixFree byCodePoint := by
  have hdigits : SplitsOff (StopsAt (IsDigitOf 16)) (Nat.toDigits 16) :=
    splitsOff_toDigits (by decide) (by decide)
  have hbrace : ¬ IsDigitOf 16 '\x7d' := by
    rintro ⟨digit, -, h⟩
    exact Nat.digitChar_ne '\x7d' (by decide) h.symm
  have hnumber := (hdigits.after ['\\', 'u', '\x7b']).before ['\x7d'] (stopsAt_cons hbrace)
  exact hnumber.comp fun _ _ => Char.toNat_inj.1

/-- The three ways in which a character is written. -/
inductive Written (c : Char) : List Char → Prop where
  /-- By its letter. -/
  | letter {letter : Char} (h : (c, letter) ∈ letters) : Written c ['\\', letter]
  | codePoint : Written c (byCodePoint c)
  /-- By itself. -/
  | plain (hquote : c ≠ '"') (hbackslash : c ≠ '\\') : Written c [c]

theorem written_escapeHiding (hidden : Char → Bool) (c : Char) :
    Written c (escapeHiding hidden c) := by
  unfold escapeHiding
  cases hlookup : letters.lookup c with
  | some letter => exact .letter (mem_letters hlookup)
  | none =>
    dsimp only
    split
    · exact .codePoint
    · refine .plain ?_ ?_ <;> rintro rfl <;> cases hlookup

/-- No written character starts with the quote that closes the text. -/
theorem Written.append_ne {c : Char} {text : List Char} (h : Written c text)
    (rest rest' : List Char) : text ++ rest ≠ ['"'] ++ rest' := by
  intro heq
  cases h with
  | letter h => cases heq
  | codePoint => cases heq
  | plain hquote hbackslash => exact hquote (List.cons.inj heq).1

/-- A character is told by what is written for it, whatever follows. -/
theorem Written.append_inj {c d : Char} {text text' : List Char} (h : Written c text)
    (h' : Written d text') {rest rest' : List Char} (heq : text ++ rest = text' ++ rest') :
    c = d ∧ rest = rest' := by
  cases h with
  | letter hc =>
    obtain ⟨hu, hinj⟩ := letters_unambiguous _ hc
    cases h' with
    | letter hd =>
      simp only [List.cons_append, List.nil_append, List.cons.injEq, true_and] at heq
      exact ⟨hinj _ hd heq.1, heq.2⟩
    | codePoint =>
      simp only [byCodePoint, List.cons_append, List.nil_append, List.cons.injEq, true_and] at heq
      exact absurd heq.1 hu
    | plain hquote hbackslash => exact absurd (List.cons.inj heq).1.symm hbackslash
  | codePoint =>
    cases h' with
    | letter hd =>
      simp only [byCodePoint, List.cons_append, List.nil_append, List.cons.injEq, true_and] at heq
      exact absurd heq.1.symm (letters_unambiguous _ hd).1
    | codePoint => exact byCodePoint_prefixFree heq
    | plain hquote hbackslash => exact absurd (List.cons.inj heq).1.symm hbackslash
  | plain hquote hbackslash =>
    cases h' with
    | letter hd => exact absurd (List.cons.inj heq).1 hbackslash
    | codePoint => exact absurd (List.cons.inj heq).1 hbackslash
    | plain hquote' hbackslash' => exact List.cons.inj heq

theorem escapeHiding_prefixFree (hidden : Char → Bool) : PrefixFree (escapeHiding hidden) :=
  fun c d _ _ heq => (written_escapeHiding hidden c).append_inj (written_escapeHiding hidden d) heq

/-! ### Texts -/

theorem isQuoting_quoteHiding (hidden : Char → Bool) : IsQuoting (quoteHiding hidden) where
  prefixFree := by
    have hbody := (escapeHiding_prefixFree hidden).sequence
      fun c rest rest' => (written_escapeHiding hidden c).append_ne rest rest'
    intro text text' rest rest' heq
    exact hbody (List.cons.inj heq).2
  opens := fun _ => ⟨_, rfl⟩

end Scrollback.Quoted
