import Mathlib.Data.List.TakeWhile
import Scrollback.Arguments
import Scrollback.Proofs.Text.Numeral
import Scrollback.Proofs.Text.Utf8
/-!
# What is read from arguments

Arguments change in two ways only while a list of words is read: a parameter is given a value, or a
switch is turned on. What both of them keep, the whole reading keeps (`Arguments.Kept.parse`). So the
arguments of a list hold machine words and paths that are not empty (`Arguments.parse_inRange`).

The other half is about words that are written: a parameter with its value, or a switch, makes one
step of the reading, whatever bytes the value has.
-/

namespace Scrollback

namespace Arguments

variable {a b : Arguments} {p : Parameter} {s : Switch} {value : Bytes}

/-! ### What reading keeps -/

/-- What values and switches keep. -/
structure Kept (P : Arguments → Prop) : Prop where
  setValue : ∀ {a b : Arguments} {p : Parameter} {value : Bytes},
    P a → a.setValue p value = .ok b → P b
  turnOn : ∀ {a b : Arguments} {s : Switch}, P a → a.turnOn s = .ok b → P b

namespace Kept

variable {P : Arguments → Prop}

theorem assign (hP : Kept P) (ha : P a) (h : a.assign p value = .ok b) : P b := by
  unfold Arguments.assign at h
  split at h
  · cases h
  · exact hP.setValue ha h

theorem settle (hP : Kept P) (ha : P a) {unsettled : Unsettled}
    (h : a.settle unsettled = .ok b) : P b := by
  unfold Arguments.settle at h
  split at h
  · cases h
    exact ha
  · cases h
  · exact hP.assign ha h

theorem readLetters (hP : Kept P) (ha : P a) {unsettled left : Unsettled}
    {letters : List (Option Char)} (h : a.readLetters unsettled letters = .ok (some (b, left))) :
    P b := by
  induction letters generalizing a unsettled with
  | nil =>
    cases h
    exact ha
  | cons letter rest ih =>
    cases letter with
    | none => cases h
    | some c =>
      rw [Arguments.readLetters] at h
      split at h
      next => cases h
      next s _ =>
        obtain ⟨settled, hsettled, h⟩ := Checked.bind_eq_ok.1 h
        split at h
        · cases h
        · obtain ⟨turned, hturned, h⟩ := Checked.bind_eq_ok.1 h
          exact ih (hP.turnOn (hP.settle ha hsettled) hturned) h

theorem readFrom (hP : Kept P) (ha : P a) {unsettled : Unsettled} {words : List Bytes}
    (h : a.readFrom unsettled words = .ok (.pass b)) : P b := by
  have hend : ∀ {a : Arguments} {unsettled : Unsettled}, P a →
      (do return .pass (← a.settle unsettled)) = Except.ok (Request.pass b) → P b := by
    intro a unsettled ha h
    obtain ⟨settled, hsettled, h⟩ := Checked.bind_eq_ok.1 h
    cases h
    exact hP.settle ha hsettled
  induction words generalizing a unsettled with
  | nil => exact hend ha h
  | cons word rest ih =>
    unfold Arguments.readFrom at h
    split at h
    next =>
      -- Nothing may follow the terminator.
      split at h
      · exact hend ha h
      · cases h
    next name value _ =>
      split at h
      next =>
        obtain ⟨settled, hsettled, h⟩ := Checked.bind_eq_ok.1 h
        obtain ⟨assigned, hassigned, h⟩ := Checked.bind_eq_ok.1 h
        exact ih (hP.assign (hP.settle ha hsettled) hassigned) h
      next =>
        obtain ⟨settled, hsettled, h⟩ := Checked.bind_eq_ok.1 h
        exact ih (hP.settle ha hsettled) h
      next => cases h
      next =>
        obtain ⟨settled, hsettled, h⟩ := Checked.bind_eq_ok.1 h
        split at h
        · cases h
        · obtain ⟨turned, hturned, h⟩ := Checked.bind_eq_ok.1 h
          exact ih (hP.turnOn (hP.settle ha hsettled) hturned) h
      next => cases h
    next letters _ =>
      obtain ⟨found, hletters, h⟩ := Checked.bind_eq_ok.1 h
      split at h
      · cases h
      · exact ih (hP.readLetters ha hletters) h
    next =>
      split at h
      · exact ih ha h
      · cases h

theorem parse (hP : Kept P) (hnone : P none) {words : List Bytes}
    (h : Arguments.parse words = .ok (.pass a)) : P a :=
  hP.readFrom hnone h

end Kept

/-! ### Values -/

theorem pathValue_eq_ok {path : Bytes} :
    pathValue p value = .ok path ↔ value ≠ [] ∧ path = value := by
  unfold pathValue
  cases value <;> simp [eq_comm]

theorem wordValue_lt {n : Nat} (h : wordValue p value = .ok n) : n < wordCount := by
  unfold wordValue at h
  split at h
  next => cases h
  next text _ =>
    rcases hparse : Numeral.parse 10 wordCount text with e | m
    · rw [hparse] at h
      cases h
    · rw [hparse] at h
      cases h
      exact Numeral.parse_lt (by decide) hparse

/-- A machine word that is printed is read again. -/
theorem wordValue_toString (p : Parameter) {n : Nat} (h : n < wordCount) :
    wordValue p (Utf8.encode (toString n).toList) = .ok n := by
  rw [wordValue, Utf8.decode?_encode]
  dsimp only
  rw [Numeral.parse_toString h]
  rfl

theorem delimiterValue_canonical (p : Parameter) (delimiter : UInt8) :
    delimiterValue p (Utf8.encode (Delimiter.canonical delimiter)) = .ok delimiter := by
  rw [delimiterValue, Utf8.decode?_encode]
  dsimp only
  rw [Delimiter.parse_canonical]
  rfl

/-- Arguments that a list of words can give: numbers are machine words, and paths are not empty. -/
structure InRange (a : Arguments) : Prop where
  input : ∀ path, a.input = some path → path ≠ []
  output : ∀ path, a.output = some path → path ≠ []
  seed : ∀ n, a.seed = some n → n < wordCount
  capacity : ∀ n, a.capacity = some n → n < wordCount
  maxFragment : ∀ n, a.maxFragment = some n → n < wordCount
  readChunk : ∀ n, a.readChunk = some n → n < wordCount
  sampleLines : ∀ n, a.sampleLines = some n → n < wordCount

theorem InRange.none : InRange none :=
  ⟨nofun, nofun, nofun, nofun, nofun, nofun, nofun⟩

theorem InRange.setValue (ha : InRange a) (h : a.setValue p value = .ok b) : InRange b := by
  have hpath : ∀ {found : Bytes}, pathValue p value = .ok found →
      ∀ path, some found = some path → path ≠ [] := by
    rintro found hfound path ⟨⟩
    obtain ⟨hne, rfl⟩ := pathValue_eq_ok.1 hfound
    exact hne
  have hword : ∀ {found : Nat}, wordValue p value = .ok found →
      ∀ n, some found = some n → n < wordCount := by
    rintro found hfound n ⟨⟩
    exact wordValue_lt hfound
  cases p <;> obtain ⟨found, hfound, hb⟩ := Checked.bind_eq_ok.1 h <;> cases hb
  case input => exact { ha with input := hpath hfound }
  case output => exact { ha with output := hpath hfound }
  case seed => exact { ha with seed := hword hfound }
  case capacity => exact { ha with capacity := hword hfound }
  case delimiter => exact { ha with }
  case maxFragment => exact { ha with maxFragment := hword hfound }
  case readChunk => exact { ha with readChunk := hword hfound }
  case sampleLines => exact { ha with sampleLines := hword hfound }

theorem InRange.turnOn (ha : InRange a) (h : a.turnOn s = .ok b) : InRange b := by
  unfold Arguments.turnOn at h
  split at h
  · cases h
  · cases s <;> cases h <;> exact { ha with }

theorem inRange_kept : Kept InRange :=
  ⟨InRange.setValue, InRange.turnOn⟩

theorem parse_inRange {words : List Bytes} (h : parse words = .ok (.pass a)) : InRange a :=
  inRange_kept.parse .none h

/-! ### Words that are written -/

theorem all_ne_of_notMem {name : Bytes} (hname : 61 ∉ name) : ∀ b ∈ name, (b != 61) = true := by
  intro b hb
  rw [bne_iff_ne]
  rintro rfl
  exact hname hb

/-- A name ends at the first equals sign, so the value may have more of them. -/
theorem ofBytes_value {name : Bytes} (hname : 61 ∉ name) (value : Bytes) :
    Word.ofBytes (45 :: 45 :: (name ++ 61 :: value)) = .long name (some value) := by
  have hall := all_ne_of_notMem hname
  have htake : (name ++ 61 :: value).takeWhile (· != 61) = name := by
    rw [List.takeWhile_append_of_pos hall, List.takeWhile_cons_of_neg (by decide), List.append_nil]
  have hdrop : (name ++ 61 :: value).dropWhile (· != 61) = 61 :: value := by
    rw [List.dropWhile_append_of_pos hall, List.dropWhile_cons_of_neg (by decide)]
  have hne : name ++ 61 :: value ≠ [] := by simp
  generalize name ++ 61 :: value = rest at *
  cases rest with
  | nil => exact absurd rfl hne
  | cons b rest => simp only [Word.ofBytes, htake, hdrop]

theorem ofBytes_name {name : Bytes} (hne : name ≠ []) (hname : 61 ∉ name) :
    Word.ofBytes (45 :: 45 :: name) = .long name Option.none := by
  have hall := all_ne_of_notMem hname
  have htake : name.takeWhile (· != 61) = name := List.takeWhile_eq_self_iff.2 hall
  have hdrop : name.dropWhile (· != 61) = [] := List.dropWhile_eq_nil_iff.2 hall
  cases name with
  | nil => exact absurd rfl hne
  | cons b rest => simp only [Word.ofBytes, htake, hdrop]

theorem parameter?_name (p : Parameter) : parameter? (Utf8.encode p.name.toList) = some p := by
  cases p <;> rfl

theorem switch?_name (s : Switch) : switch? (Utf8.encode s.name.toList) = some s := by
  cases s <;> rfl

/-- No switch is named like a parameter. -/
theorem parameter?_switch (s : Switch) :
    parameter? (Utf8.encode s.name.toList) = Option.none := by
  cases s <;> rfl

theorem notMem_parameterName (p : Parameter) : 61 ∉ Utf8.encode p.name.toList := by
  cases p <;> decide

theorem notMem_switchName (s : Switch) : 61 ∉ Utf8.encode s.name.toList := by
  cases s <;> decide

/-- A parameter with its value is settled at once. -/
theorem readFrom_value (hfresh : a.has p = false) (value : Bytes) (rest : List Bytes) :
    a.readFrom .none ((45 :: 45 :: (Utf8.encode p.name.toList ++ 61 :: value)) :: rest) =
      a.setValue p value >>= fun b => b.readFrom .none rest := by
  have hassign : a.assign p value = a.setValue p value := by
    rw [assign, hfresh]
    rfl
  conv_lhs => unfold readFrom
  rw [ofBytes_value (notMem_parameterName p)]
  simp only [parameter?_name, settle, Checked.ok_bind, hassign]

theorem readFrom_switch (hs : s ≠ .help) (rest : List Bytes) :
    a.readFrom .none ((45 :: 45 :: Utf8.encode s.name.toList) :: rest) =
      a.turnOn s >>= fun b => b.readFrom .none rest := by
  have hname : Utf8.encode s.name.toList ≠ [] := by cases s <;> decide
  conv_lhs => unfold readFrom
  rw [ofBytes_name hname (notMem_switchName s)]
  simp only [parameter?_switch, switch?_name, settle, Checked.ok_bind, if_neg hs]

end Arguments

end Scrollback
