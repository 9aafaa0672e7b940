import Mathlib.Data.List.Basic
import Scrollback.Text.Utf8
/-!
# Text that is encoded is read again

The bytes of a character take the machine from one boundary of characters to the next, and leave
just this character behind: the range of the second byte is the one that the first byte leaves to
the characters of its length. Hence an encoded text is well-formed, and is read as itself.

Nothing else is well-formed. A byte string without ill-formed parts starts with the bytes of a
character, for each byte that is owed has to come and to be in its range, so it is the encoded form
of the one text that it is read as (`Utf8.decode?_eq_some_iff`).
-/

namespace Scrollback.Utf8

theorem partsFrom_cons (opened : Option Partial) (b : UInt8) (rest : Bytes) :
    partsFrom opened (b :: rest) =
      (step opened b.toNat).1 ++ partsFrom (step opened b.toNat).2 rest := rfl

/-! ### The first byte of a character -/

theorem first_one {b : Nat} (h : b < 0x80) : first b = ([some (Char.ofNat b)], none) :=
  if_pos h

theorem first_two {b : Nat} (hlow : 0xC2 ≤ b) (hhigh : b < 0xE0) :
    first b = ([], some ⟨1, 0x80, 0xBF, b - 0xC0⟩) := by
  unfold first
  rw [if_neg (by omega), if_neg (by omega), if_pos hhigh]

theorem first_three {b : Nat} (hlow : 0xE0 ≤ b) (hhigh : b < 0xF0) :
    first b = ([], some ⟨2, if b = 0xE0 then 0xA0 else 0x80,
      if b = 0xED then 0x9F else 0xBF, b - 0xE0⟩) := by
  unfold first
  rw [if_neg (by omega), if_neg (by omega), if_neg (by omega)]
  by_cases hleast : b = 0xE0
  · subst hleast
    rfl
  · by_cases hsurrogates : b = 0xED
    · subst hsurrogates
      rfl
    · simp only [if_neg hleast, if_neg hsurrogates, if_pos hhigh]

theorem first_four {b : Nat} (hlow : 0xF0 ≤ b) (hhigh : b ≤ 0xF4) :
    first b = ([], some ⟨3, if b = 0xF0 then 0x90 else 0x80,
      if b = 0xF4 then 0x8F else 0xBF, b - 0xF0⟩) := by
  unfold first
  rw [if_neg (by omega), if_neg (by omega), if_neg (by omega), if_neg (by omega),
    if_neg (by omega), if_neg (by omega)]
  by_cases hleast : b = 0xF0
  · subst hleast
    rfl
  · by_cases hlast : b = 0xF4
    · subst hlast
      rfl
    · simp only [if_neg hleast, if_neg hlast, if_pos (by omega : b < 0xF4)]

/-- Any other first byte is an ill-formed part by itself. -/
theorem first_other {b : Nat} (hlow : 0x80 ≤ b) (hother : b < 0xC2 ∨ 0xF4 < b) :
    first b = ([none], none) := by
  unfold first
  rw [if_neg (by omega)]
  obtain hsmall | hlarge := hother
  · rw [if_pos hsmall]
  · rw [if_neg (by omega), if_neg (by omega), if_neg (by omega), if_neg (by omega),
      if_neg (by omega), if_neg (by omega), if_neg (by omega), if_neg (by omega)]

/-! ### The bytes after it -/

/-- A byte in range that is not the last one owed leaves its bits behind. -/
theorem step_more {owed low high value b : Nat} (howed : 1 < owed) (hlow : low ≤ b)
    (hhigh : b ≤ high) :
    step (some ⟨owed, low, high, value⟩) b =
      ([], some ⟨owed - 1, 0x80, 0xBF, value * 0x40 + (b - 0x80)⟩) := by
  simp only [step]
  rw [if_pos ⟨hlow, hhigh⟩, if_neg (Nat.not_le.2 howed)]

/-- The last byte owed completes the character. -/
theorem step_last {low high value b : Nat} (hlow : low ≤ b) (hhigh : b ≤ high) :
    step (some ⟨1, low, high, value⟩) b =
      ([some (Char.ofNat (value * 0x40 + (b - 0x80)))], none) := by
  simp only [step]
  rw [if_pos ⟨hlow, hhigh⟩, if_pos (Nat.le_refl 1)]

/-! ### Whole characters -/

theorem toNat_byte {n : Nat} (h : n < 256) : (UInt8.ofNat n).toNat = n :=
  UInt8.toNat_ofNat_of_lt' h

theorem step_none (b : Nat) : step none b = first b := rfl

variable {v : Nat} (rest : Bytes)

theorem partsFrom_one (h : v < 0x80) :
    partsFrom none (UInt8.ofNat v :: rest) = some (Char.ofNat v) :: partsFrom none rest := by
  rw [partsFrom_cons, step_none, toNat_byte (by omega), first_one h]
  rfl

theorem partsFrom_two (hlow : 0x80 ≤ v) (hhigh : v < 0x800) :
    partsFrom none (UInt8.ofNat (v / 64 % 0x20 + 0xC0) :: UInt8.ofNat (v % 0x40 + 0x80) :: rest) =
      some (Char.ofNat v) :: partsFrom none rest := by
  have hbits : (v / 64 % 0x20 + 0xC0 - 0xC0) * 0x40 + (v % 0x40 + 0x80 - 0x80) = v := by omega
  rw [partsFrom_cons, step_none, toNat_byte (by omega), first_two (by omega) (by omega),
    partsFrom_cons, toNat_byte (by omega), step_last (by omega) (by omega), hbits]
  rfl

/-- The range of the second byte leaves out what is shorter, and the surrogates. -/
theorem partsFrom_three (hlow : 0x800 ≤ v) (hhigh : v < 0x10000)
    (hvalid : v < 0xD800 ∨ 0xDFFF < v) :
    partsFrom none (UInt8.ofNat (v / 4096 % 0x10 + 0xE0) ::
        UInt8.ofNat (v / 64 % 0x40 + 0x80) :: UInt8.ofNat (v % 0x40 + 0x80) :: rest) =
      some (Char.ofNat v) :: partsFrom none rest := by
  have hbits : ((v / 4096 % 0x10 + 0xE0 - 0xE0) * 0x40 + (v / 64 % 0x40 + 0x80 - 0x80)) * 0x40 +
      (v % 0x40 + 0x80 - 0x80) = v := by omega
  rw [partsFrom_cons, step_none, toNat_byte (by omega), first_three (by omega) (by omega),
    partsFrom_cons, toNat_byte (by omega),
    step_more (by decide) (by split <;> omega) (by split <;> omega),
    partsFrom_cons, toNat_byte (by omega), step_last (by omega) (by omega), hbits]
  rfl

/-- The range of the second byte leaves out what is shorter, and what is no character. -/
theorem partsFrom_four (hlow : 0x10000 ≤ v) (hhigh : v < 0x110000) :
    partsFrom none (UInt8.ofNat (v / 262144 % 0x08 + 0xF0) ::
        UInt8.ofNat (v / 4096 % 0x40 + 0x80) :: UInt8.ofNat (v / 64 % 0x40 + 0x80) ::
        UInt8.ofNat (v % 0x40 + 0x80) :: rest) =
      some (Char.ofNat v) :: partsFrom none rest := by
  have hbits : (((v / 262144 % 0x08 + 0xF0 - 0xF0) * 0x40 + (v / 4096 % 0x40 + 0x80 - 0x80)) *
      0x40 + (v / 64 % 0x40 + 0x80 - 0x80)) * 0x40 + (v % 0x40 + 0x80 - 0x80) = v := by omega
  rw [partsFrom_cons, step_none, toNat_byte (by omega), first_four (by omega) (by omega),
    partsFrom_cons, toNat_byte (by omega),
    step_more (by decide) (by split <;> omega) (by split <;> omega),
    partsFrom_cons, toNat_byte (by omega), step_more (by decide) (by omega) (by omega),
    partsFrom_cons, toNat_byte (by omega), step_last (by omega) (by omega), hbits]
  rfl

theorem partsFrom_encodeChar (c : Char) :
    partsFrom none (String.utf8EncodeChar c ++ rest) = some c :: partsFrom none rest := by
  have hvalid : c.val.toNat < 0xD800 ∨ 0xDFFF < c.val.toNat ∧ c.val.toNat < 0x110000 := c.valid
  have hchar : Char.ofNat c.val.toNat = c := Char.ofNat_toNat c
  unfold String.utf8EncodeChar
  generalize c.val.toNat = v at hvalid hchar
  rw [← hchar]
  dsimp only
  split
  next => exact partsFrom_one rest (by omega)
  next =>
  split
  next => exact partsFrom_two rest (by omega) (by omega)
  next =>
  split
  next => exact partsFrom_three rest (by omega) (by omega) (by omega)
  next => exact partsFrom_four rest (by omega) (by omega)

/-! ### Texts -/

theorem parts_encode (text : List Char) : parts (encode text) = text.map some := by
  induction text with
  | nil => rfl
  | cons c text ih =>
    rw [encode, List.flatMap_cons, parts, partsFrom_encodeChar, List.map_cons]
    exact congrArg _ ih

theorem decode?_encode (text : List Char) : decode? (encode text) = some text := by
  rw [decode?, parts_encode]
  induction text with
  | nil => rfl
  | cons c text ih =>
    rw [List.map_cons, List.mapM_cons, ih]
    rfl

/-! ### What is read is encoded -/

/-- A byte that is owed comes and is in its range, and so do those after it. -/
theorem exists_owed {p : Partial} {bytes : Bytes} (h : none ∉ partsFrom (some p) bytes) :
    ∃ b next, bytes = b :: next ∧ p.low ≤ b.toNat ∧ b.toNat ≤ p.high ∧
      (1 < p.owed → none ∉ partsFrom
        (some ⟨p.owed - 1, 0x80, 0xBF, p.value * 0x40 + (b.toNat - 0x80)⟩) next) := by
  cases bytes with
  | nil => exact absurd (List.mem_singleton.2 rfl) h
  | cons b next =>
    by_cases hrange : p.low ≤ b.toNat ∧ b.toNat ≤ p.high
    · refine ⟨b, next, rfl, hrange.1, hrange.2, fun howed => ?_⟩
      rwa [partsFrom_cons, step_more howed hrange.1 hrange.2] at h
    · refine absurd ?_ h
      rw [partsFrom_cons, step, if_neg hrange]
      exact List.mem_cons_self

/-- Each number outside the surrogates is that of a character. -/
theorem exists_char {v : Nat} (h : v < 0xD800 ∨ 0xDFFF < v ∧ v < 0x110000) :
    ∃ c : Char, c.val.toNat = v :=
  ⟨Char.ofNatAux v h, UInt32.toNat_ofNatLT⟩

theorem eq_byte {b : UInt8} {n : Nat} (h : b.toNat = n) : UInt8.ofNat n = b := by
  rw [← h, UInt8.ofNat_toNat]

section Bytes

variable {b b₁ b₂ b₃ : UInt8}

theorem exists_encodeChar_one (h : b.toNat < 0x80) :
    ∃ c : Char, String.utf8EncodeChar c = [b] := by
  obtain ⟨c, hc⟩ := exists_char (v := b.toNat) (by omega)
  refine ⟨c, ?_⟩
  unfold String.utf8EncodeChar
  simp only [hc]
  rw [if_pos (by omega), UInt8.ofNat_toNat]

theorem exists_encodeChar_two (hlow : 0xC2 ≤ b.toNat) (hhigh : b.toNat < 0xE0)
    (hlow₁ : 0x80 ≤ b₁.toNat) (hhigh₁ : b₁.toNat ≤ 0xBF) :
    ∃ c : Char, String.utf8EncodeChar c = [b, b₁] := by
  obtain ⟨c, hc⟩ := exists_char (v := (b.toNat - 0xC0) * 0x40 + (b₁.toNat - 0x80)) (by omega)
  refine ⟨c, ?_⟩
  unfold String.utf8EncodeChar
  simp only [hc]
  rw [if_neg (by omega), if_pos (by omega), eq_byte (b := b) (by omega),
    eq_byte (b := b₁) (by omega)]

/-- The range of the second byte leaves out what is shorter, and the surrogates. -/
theorem exists_encodeChar_three (hlow : 0xE0 ≤ b.toNat) (hhigh : b.toNat < 0xF0)
    (hlow₁ : (if b.toNat = 0xE0 then 0xA0 else 0x80) ≤ b₁.toNat)
    (hhigh₁ : b₁.toNat ≤ if b.toNat = 0xED then 0x9F else 0xBF)
    (hlow₂ : 0x80 ≤ b₂.toNat) (hhigh₂ : b₂.toNat ≤ 0xBF) :
    ∃ c : Char, String.utf8EncodeChar c = [b, b₁, b₂] := by
  have hleast : 0x20 ≤ (b.toNat - 0xE0) * 0x40 + (b₁.toNat - 0x80) ∧ 0x80 ≤ b₁.toNat := by
    split at hlow₁ <;> omega
  have hvalid : (b.toNat - 0xE0) * 0x40 + (b₁.toNat - 0x80) < 0x360 ∨
      0x37F < (b.toNat - 0xE0) * 0x40 + (b₁.toNat - 0x80) := by
    split at hhigh₁ <;> omega
  have hmost : b₁.toNat ≤ 0xBF := by
    split at hhigh₁ <;> omega
  clear hlow₁ hhigh₁
  obtain ⟨c, hc⟩ := exists_char
    (v := ((b.toNat - 0xE0) * 0x40 + (b₁.toNat - 0x80)) * 0x40 + (b₂.toNat - 0x80)) (by omega)
  refine ⟨c, ?_⟩
  unfold String.utf8EncodeChar
  simp only [hc]
  rw [if_neg (by omega), if_neg (by omega), if_pos (by omega), eq_byte (b := b) (by omega),
    eq_byte (b := b₁) (by omega), eq_byte (b := b₂) (by omega)]

/-- The range of the second byte leaves out what is shorter, and what is no character. -/
theorem exists_encodeChar_four (hlow : 0xF0 ≤ b.toNat) (hhigh : b.toNat ≤ 0xF4)
    (hlow₁ : (if b.toNat = 0xF0 then 0x90 else 0x80) ≤ b₁.toNat)
    (hhigh₁ : b₁.toNat ≤ if b.toNat = 0xF4 then 0x8F else 0xBF)
    (hlow₂ : 0x80 ≤ b₂.toNat) (hhigh₂ : b₂.toNat ≤ 0xBF)
    (hlow₃ : 0x80 ≤ b₃.toNat) (hhigh₃ : b₃.toNat ≤ 0xBF) :
    ∃ c : Char, String.utf8EncodeChar c = [b, b₁, b₂, b₃] := by
  have hleast : 0x10 ≤ (b.toNat - 0xF0) * 0x40 + (b₁.toNat - 0x80) ∧ 0x80 ≤ b₁.toNat := by
    split at hlow₁ <;> omega
  have hmost : (b.toNat - 0xF0) * 0x40 + (b₁.toNat - 0x80) < 0x110 ∧ b₁.toNat ≤ 0xBF := by
    split at hhigh₁ <;> omega
  clear hlow₁ hhigh₁
  obtain ⟨c, hc⟩ := exists_char
    (v := (((b.toNat - 0xF0) * 0x40 + (b₁.toNat - 0x80)) * 0x40 + (b₂.toNat - 0x80)) * 0x40 +
      (b₃.toNat - 0x80)) (by omega)
  refine ⟨c, ?_⟩
  unfold String.utf8EncodeChar
  simp only [hc]
  rw [if_neg (by omega), if_neg (by omega), if_neg (by omega), eq_byte (b := b) (by omega),
    eq_byte (b := b₁) (by omega), eq_byte (b := b₂) (by omega), eq_byte (b := b₃) (by omega)]

/-- A byte string without ill-formed parts starts with a character. -/
theorem exists_encodeChar {bytes : Bytes} (h : none ∉ partsFrom none (b :: bytes)) :
    ∃ (c : Char) (rest : Bytes), b :: bytes = String.utf8EncodeChar c ++ rest := by
  rw [partsFrom_cons, step_none] at h
  by_cases hone : b.toNat < 0x80
  · obtain ⟨c, hc⟩ := exists_encodeChar_one hone
    exact ⟨c, bytes, by rw [hc]; rfl⟩
  by_cases htwo : 0xC2 ≤ b.toNat ∧ b.toNat < 0xE0
  · rw [first_two htwo.1 htwo.2] at h
    obtain ⟨b₁, rest, rfl, hlow₁, hhigh₁, -⟩ := exists_owed h
    obtain ⟨c, hc⟩ := exists_encodeChar_two htwo.1 htwo.2 hlow₁ hhigh₁
    exact ⟨c, rest, by rw [hc]; rfl⟩
  by_cases hthree : 0xE0 ≤ b.toNat ∧ b.toNat < 0xF0
  · rw [first_three hthree.1 hthree.2] at h
    obtain ⟨b₁, next, rfl, hlow₁, hhigh₁, h⟩ := exists_owed h
    obtain ⟨b₂, rest, rfl, hlow₂, hhigh₂, -⟩ := exists_owed (h (show 1 < 2 by decide))
    obtain ⟨c, hc⟩ := exists_encodeChar_three hthree.1 hthree.2 hlow₁ hhigh₁ hlow₂ hhigh₂
    exact ⟨c, rest, by rw [hc]; rfl⟩
  by_cases hfour : 0xF0 ≤ b.toNat ∧ b.toNat ≤ 0xF4
  · rw [first_four hfour.1 hfour.2] at h
    obtain ⟨b₁, next, rfl, hlow₁, hhigh₁, h⟩ := exists_owed h
    obtain ⟨b₂, next, rfl, hlow₂, hhigh₂, h⟩ := exists_owed (h (show 1 < 3 by decide))
    obtain ⟨b₃, rest, rfl, hlow₃, hhigh₃, -⟩ := exists_owed (h (show 1 < 2 by decide))
    obtain ⟨c, hc⟩ :=
      exists_encodeChar_four hfour.1 hfour.2 hlow₁ hhigh₁ hlow₂ hhigh₂ hlow₃ hhigh₃
    exact ⟨c, rest, by rw [hc]; rfl⟩
  · rw [first_other (by omega) (by omega)] at h
    exact absurd List.mem_cons_self h

end Bytes

/-- Only encoded text has no ill-formed part. -/
theorem exists_encode {bytes : Bytes} (h : none ∉ parts bytes) : ∃ text, bytes = encode text := by
  induction hlength : bytes.length using Nat.strongRecOn generalizing bytes with
  | ind length ih =>
    cases bytes with
    | nil => exact ⟨[], rfl⟩
    | cons b next =>
      obtain ⟨c, rest, heq⟩ := exists_encodeChar h
      have hless : rest.length < length := by
        rw [← hlength, heq, List.length_append, String.length_utf8EncodeChar]
        exact Nat.lt_add_of_pos_left c.utf8Size_pos
      rw [parts, heq, partsFrom_encodeChar] at h
      obtain ⟨text, rfl⟩ := ih rest.length hless (fun hmem => h (List.mem_cons_of_mem _ hmem)) rfl
      exact ⟨c :: text, heq.trans List.flatMap_cons.symm⟩

theorem not_mem_of_mapM_eq_some {parts : List (Option Char)} {text : List Char}
    (h : parts.mapM id = some text) : none ∉ parts := by
  induction parts generalizing text with
  | nil => exact List.not_mem_nil
  | cons part parts ih =>
    rw [List.mapM_cons] at h
    cases part with
    | none => cases h
    | some c =>
      cases htext : parts.mapM id with
      | none =>
        rw [htext] at h
        cases h
      | some text =>
        simpa using ih htext

/-- To read a text undoes its encoding, and nothing else is read. -/
theorem decode?_eq_some_iff {bytes : Bytes} {text : List Char} :
    decode? bytes = some text ↔ bytes = encode text := by
  constructor
  · intro h
    obtain ⟨text', rfl⟩ := exists_encode (not_mem_of_mapM_eq_some h)
    rw [decode?_encode] at h
    rw [Option.some.inj h]
  · rintro rfl
    exact decode?_encode text

theorem decode?_eq_none_iff {bytes : Bytes} :
    decode? bytes = none ↔ ∀ text, bytes ≠ encode text := by
  simp only [Option.eq_none_iff_forall_ne_some, ne_eq, decode?_eq_some_iff]

end Scrollback.Utf8
