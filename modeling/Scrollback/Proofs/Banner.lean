import Scrollback.Pass
import Scrollback.Proofs.Text.PrefixFree
import Scrollback.Proofs.Text.Utf8
/-!
# What a printed configuration tells

The text of a configuration names two paths before any number, and a path may hold anything: line
breaks, text that reads like the lines which follow, bytes that cannot be shown. So the text is read
from its end. There each value stands behind a label of its own: a decimal number reaches back to
the blank of its label, a delimiter has four characters, and the two policies end differently.
What is left over in the end are the paths.

Hence two configurations are printed alike exactly if they have the same numbers and their paths,
with the label between them, read the same (`Config.bannerBytes_eq_iff`). The numbers are all that a
pass takes from its configuration (`Config.SameNumbers.perform_eq`).
-/

namespace Scrollback

/-! ### Reading from the end -/

/-- Two texts that end alike end alike in their two parts, if the second part is all of one kind of
characters and the first part does not end in one. -/
theorem append_inj_of_getLast? {α : Type} {kind : α → Prop} {front front' back back' : List α}
    (hfront : ∀ c ∈ front.getLast?, ¬ kind c) (hfront' : ∀ c ∈ front'.getLast?, ¬ kind c)
    (hback : ∀ c ∈ back, kind c) (hback' : ∀ c ∈ back', kind c)
    (h : front ++ back = front' ++ back') : front = front' ∧ back = back' := by
  have hreversed := congrArg List.reverse h
  rw [List.reverse_append, List.reverse_append] at hreversed
  obtain ⟨hbacks, hfronts⟩ := append_inj_of_head? (p := kind) (by simpa using hback)
    (by simpa using hback') (by simpa using hfront) (by simpa using hfront') hreversed
  exact ⟨List.reverse_injective hfronts, List.reverse_injective hbacks⟩

/-- Behind a label, a value that is written at the end of a text can be read from there: no other
value is written there as well, whatever stands before the label. -/
def ReadsBack {α : Type} (label : String) (written : α → String) : Prop :=
  ∀ (front front' : String) (a b : α),
    front ++ label ++ written a = front' ++ label ++ written b → front = front' ∧ a = b

/-- What always follows a value is taken off first. -/
theorem ReadsBack.before {α : Type} {label : String} {written : α → String}
    (hreads : ReadsBack label written) (tail : String) {front front' : String} {a b : α}
    (h : front ++ label ++ written a ++ tail = front' ++ label ++ written b ++ tail) :
    front = front' ∧ a = b :=
  hreads _ _ _ _ ((String.append_left_inj tail).1 h)

/-- A number reaches back to the blank at the end of its label. -/
theorem readsBack_number (label : String) (hlabel : label.toList.getLast? = some ' ') :
    ReadsBack label (fun n : Nat => toString n) := by
  intro front front' m n h
  have hends : ∀ front : String, ∀ c ∈ (front ++ label).toList.getLast?, ¬ c.isDigit = true := by
    intro front c hc
    rw [String.toList_append, List.getLast?_append, hlabel] at hc
    cases hc
    decide
  have hdigits : ∀ n : Nat, ∀ c ∈ (toString n).toList, c.isDigit = true :=
    fun n c hc => Numeral.isDigit_of_mem_toString hc
  have hlist : (front ++ label).toList ++ (toString m).toList =
      (front' ++ label).toList ++ (toString n).toList := by
    rw [← String.toList_append, ← String.toList_append, h]
  obtain ⟨hfront, hnumber⟩ :=
    append_inj_of_getLast? (hends front) (hends front') (hdigits m) (hdigits n) hlist
  exact ⟨(String.append_left_inj label).1 (String.toList_injective hfront),
    Numeral.toString_injective (String.toList_injective hnumber)⟩

theorem Delimiter.canonical_injective {a b : UInt8} (h : canonical a = canonical b) : a = b := by
  have hread := parse_canonical a
  rw [h, parse_canonical b] at hread
  exact (Except.ok.inj hread).symm

theorem Delimiter.length_canonical (b : UInt8) : (canonical b).length = 4 := by
  have hdigits : (Nat.toDigits 16 b.toNat).length ≤ 2 :=
    (Nat.length_toDigits_le_iff (by decide) (by decide)).2 b.toNat_lt
  simp only [canonical, List.length_append, List.length_cons, List.length_nil,
    List.length_replicate]
  omega

/-- A delimiter has four characters. -/
theorem readsBack_delimiter (label : String) :
    ReadsBack label (fun b => String.ofList (Delimiter.canonical b)) := by
  intro front front' a b h
  have hlist := congrArg String.toList h
  simp only [String.toList_append, String.toList_ofList] at hlist
  obtain ⟨hfront, hcanonical⟩ := List.append_inj' hlist
    (by rw [Delimiter.length_canonical, Delimiter.length_canonical])
  rw [← String.toList_append, ← String.toList_append] at hfront
  exact ⟨(String.append_left_inj label).1 (String.toList_injective hfront),
    Delimiter.canonical_injective hcanonical⟩

/-- The names of the two policies end differently. -/
theorem readsBack_policy (label : String) : ReadsBack label Framing.name := by
  intro front front' p q h
  have hlast := congrArg (fun text => text.toList.getLast?) h
  simp only [String.toList_append, List.getLast?_append] at hlast
  have hsplit : Framing.split.name.toList.getLast? = some 't' := by decide
  have hfirst : Framing.firstDelimiter.name.toList.getLast? = some 'r' := by decide
  cases p <;> cases q
  case split.split | firstDelimiter.firstDelimiter =>
    exact ⟨(String.append_left_inj label).1 ((String.append_left_inj _).1 h), rfl⟩
  case split.firstDelimiter | firstDelimiter.split =>
    rw [hsplit, hfirst] at hlast
    cases hlast

theorem Utf8.encode_injective {text text' : List Char} (h : encode text = encode text') :
    text = text' := by
  have hread := decode?_encode text
  rw [h, decode?_encode] at hread
  exact (Option.some.inj hread).symm

/-! ### The configuration -/

namespace Config

variable {c d : Config}

/-- Two configurations have the same numbers, policy and delimiter. -/
structure SameNumbers (c d : Config) : Prop where
  seed_eq : c.seed = d.seed
  capacity_eq : c.history.capacity = d.history.capacity
  delimiter_eq : c.history.delimiter = d.history.delimiter
  policy_eq : c.history.policy = d.history.policy
  maxFragment_eq : c.maxFragment = d.maxFragment
  readChunk_eq : c.readChunk = d.readChunk
  sampleLines_eq : c.sampleLines = d.sampleLines

/-- The two paths of a configuration as they are shown, with the label that stands between them. -/
def shownPaths (c : Config) : String :=
  let input := match c.inputPath with
    | some path => shownPath path
    | none => "(generate sample)"
  input ++ "\n" ++ "Output file: " ++ shownPath c.outputPath

/-- The paths come first and the numbers after them, each behind its label. -/
theorem banner_eq (c : Config) : c.banner =
    "=== Configuration ===\n" ++ "Input file:  " ++ c.shownPaths ++
    "\n" ++ "Seed: " ++ toString c.seed ++
    ("\n" ++ "\n=== History ===\n") ++ "Capacity: " ++ toString c.history.capacity ++
    " records\n" ++ "Delimiter: " ++ String.ofList (Delimiter.canonical c.history.delimiter) ++
    "\n" ++ "Framing: " ++ c.history.policy.name ++
    ("\n" ++ "\n=== Traffic ===\n") ++ "Max fragment: " ++ toString c.maxFragment ++
    " bytes\n" ++ "Read chunk: " ++ toString c.readChunk ++
    " bytes\n" ++ "Sample lines: " ++ toString c.sampleLines ++ "\n\n" := by
  unfold banner shownPaths
  cases c.inputPath <;> simp only [String.append_assoc]

namespace SameNumbers

/-- From its end on, a text is taken apart label by label. -/
theorem of_banner_eq (h : c.banner = d.banner) :
    c.shownPaths = d.shownPaths ∧ c.SameNumbers d := by
  rw [banner_eq, banner_eq] at h
  obtain ⟨h, hlines⟩ := (readsBack_number "Sample lines: " rfl).before _ h
  obtain ⟨h, hchunk⟩ := (readsBack_number "Read chunk: " rfl).before _ h
  obtain ⟨h, hfragment⟩ := (readsBack_number "Max fragment: " rfl).before _ h
  obtain ⟨h, hpolicy⟩ := (readsBack_policy "Framing: ").before _ h
  obtain ⟨h, hdelimiter⟩ := (readsBack_delimiter "Delimiter: ").before _ h
  obtain ⟨h, hcapacity⟩ := (readsBack_number "Capacity: " rfl).before _ h
  obtain ⟨h, hseed⟩ := (readsBack_number "Seed: " rfl).before _ h
  have hpaths := (String.append_right_inj _).1 ((String.append_left_inj _).1 h)
  exact ⟨hpaths, hseed, hcapacity, hdelimiter, hpolicy, hfragment, hchunk, hlines⟩

theorem history_eq (h : c.SameNumbers d) : c.history = d.history := by
  have hcapacity := h.capacity_eq
  have hdelimiter := h.delimiter_eq
  have hpolicy := h.policy_eq
  cases hc : c.history
  cases hd : d.history
  simp_all

/-- A pass takes nothing but numbers from its configuration. -/
theorem perform_eq (h : c.SameNumbers d) (memory : Pass.Memory) (input : Bytes) :
    Pass.perform c memory input = Pass.perform d memory input := by
  rw [Pass.perform, Pass.perform, Pass.performDrawing, Pass.performDrawing, h.seed_eq,
    h.history_eq, h.maxFragment_eq, h.readChunk_eq]

theorem banner_eq (h : c.SameNumbers d) (hpaths : c.shownPaths = d.shownPaths) :
    c.banner = d.banner := by
  rw [Config.banner_eq, Config.banner_eq, hpaths, h.seed_eq, h.history_eq, h.maxFragment_eq,
    h.readChunk_eq, h.sampleLines_eq]

end SameNumbers

/-- Two configurations are printed as the same bytes exactly if they have the same seed, capacity,
delimiter, policy, longest fragment, room for a read and lines in a sample, and their paths with the
label between them read the same. -/
theorem bannerBytes_eq_iff : c.bannerBytes = d.bannerBytes ↔
    c.shownPaths = d.shownPaths ∧ c.SameNumbers d := by
  constructor
  · intro h
    exact SameNumbers.of_banner_eq (String.toList_injective (Utf8.encode_injective h))
  · rintro ⟨hpaths, hsame⟩
    rw [bannerBytes, bannerBytes, hsame.banner_eq hpaths]

/-- The label between the paths may as well stand in one of them. -/
example :
    let path (text : String) : Bytes := Utf8.encode text.toList
    let c : Config := ⟨some (path "a"), path "b\nOutput file: c", .standard, 42, 3, 2, 0, false,
      false, false⟩
    let d : Config := { c with
      inputPath := some (path "a\nOutput file: b")
      outputPath := path "c" }
    c.shownPaths = d.shownPaths := by
  decide +kernel

end Config

end Scrollback
