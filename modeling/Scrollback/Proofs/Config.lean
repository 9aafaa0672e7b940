import Scrollback.Config
import Scrollback.Proofs.Arguments
import Scrollback.Proofs.Random
/-!
# A configuration reproduces itself

Whatever a list of arguments leaves open is filled in with a value that can be given as well: as
long as numbers are drawn from their ranges, all values are machine words
(`Config.resolveDrawing_inRange`). The list that gives each value of such a configuration is read as
just these values (`Config.parse_arguments`). With nothing left open, no number is drawn when they
are resolved, so the configuration comes back, whatever source the numbers were drawn from.
-/

namespace Scrollback

/-- The arguments with a switch on or off. -/
def Arguments.withSwitch (a : Arguments) (s : Switch) (on : Bool) : Arguments :=
  match s with
  | .firstDelimiterOnly => { a with firstDelimiterOnly := on }
  | .printConfig => { a with printConfig := on }
  | .noMetrics => { a with noMetrics := on }
  | .verbose => { a with verbose := on }
  | .help => a

namespace Config

open Arguments (wordValue_toString delimiterValue_canonical pathValue_eq_ok)

variable {σ : Type} {draw : Random.Draw σ} {source : Nat → σ} {c : Config} {a : Arguments}
  {fallback : Nat}

/-- A configuration whose values can all be given in arguments, and which a pass can be run with. -/
structure InRange (c : Config) : Prop where
  capacity_pos : 1 ≤ c.history.capacity
  maxFragment_pos : 1 ≤ c.maxFragment
  readChunk_pos : 1 ≤ c.readChunk
  seed_lt : c.seed < wordCount
  capacity_lt : c.history.capacity < wordCount
  maxFragment_lt : c.maxFragment < wordCount
  readChunk_lt : c.readChunk < wordCount
  sampleLines_lt : c.sampleLines < wordCount
  outputPath_ne : c.outputPath ≠ []
  inputPath_ne : ∀ path, c.inputPath = some path → path ≠ []

/-- The arguments that give every value of a configuration. -/
def explicit (c : Config) : Arguments where
  input := c.inputPath
  output := some c.outputPath
  seed := some c.seed
  capacity := some c.history.capacity
  delimiter := some c.history.delimiter
  maxFragment := some c.maxFragment
  readChunk := some c.readChunk
  sampleLines := some c.sampleLines
  firstDelimiterOnly := c.history.policy = .firstDelimiter
  printConfig := c.printConfig
  noMetrics := !c.printMetrics
  verbose := c.verbose

/-! ### Resolving -/

/-- A number that is given is a word, and one that is drawn is between one and its bound. -/
theorem givenOrDrawn_inRange (hdraw : Random.FromOne draw) {given : Option Nat} {bound : Nat}
    (hbound : 1 ≤ bound) (hword : bound < wordCount) (hgiven : ∀ n, given = some n → n < wordCount)
    (hpos : given ≠ some 0) (s : σ) :
    1 ≤ (givenOrDrawn draw given bound hbound s).1 ∧
      (givenOrDrawn draw given bound hbound s).1 < wordCount := by
  cases given with
  | none =>
    obtain ⟨hlow, hhigh⟩ := hdraw bound hbound s
    exact ⟨hlow, hhigh.trans_lt hword⟩
  | some n =>
    refine ⟨Nat.one_le_iff_ne_zero.2 ?_, hgiven n rfl⟩
    intro hzero
    exact hpos (congrArg some hzero)

theorem getD_lt {given : Option Nat} {default : Nat} (hgiven : ∀ n, given = some n → n < wordCount)
    (hdefault : given = none → default < wordCount) : given.getD default < wordCount := by
  cases given with
  | none => exact hdefault rfl
  | some n => exact hgiven n rfl

/-- What arguments resolve to can be given in arguments, if this holds of the seed. -/
theorem resolveDrawing_inRange (hdraw : Random.FromOne draw) (ha : a.InRange)
    (hseed : a.seed = none → fallback < wordCount)
    (h : resolveDrawing draw source fallback a = .ok c) : c.InRange := by
  simp only [resolveDrawing] at h
  split at h
  next => cases h
  next hcapacity =>
  split at h
  next => cases h
  next hmax =>
  split at h
  next => cases h
  next hroom =>
  cases h
  obtain ⟨hfragment, hfragment'⟩ := givenOrDrawn_inRange hdraw (by decide : 1 ≤ 64) (by decide)
    ha.maxFragment hmax (source (a.seed.getD fallback))
  obtain ⟨hchunk, hchunk'⟩ := givenOrDrawn_inRange hdraw (by decide : 1 ≤ 32) (by decide)
    ha.readChunk hroom
    (givenOrDrawn draw a.maxFragment 64 (by decide) (source (a.seed.getD fallback))).2
  have houtput : a.output.getD defaultOutput ≠ [] := by
    cases hpath : a.output with
    | none => decide
    | some path => exact ha.output path hpath
  exact {
    capacity_pos := Nat.one_le_iff_ne_zero.2 hcapacity
    maxFragment_pos := hfragment
    readChunk_pos := hchunk
    seed_lt := getD_lt ha.seed hseed
    capacity_lt := getD_lt ha.capacity fun _ => by decide
    maxFragment_lt := hfragment'
    readChunk_lt := hchunk'
    sampleLines_lt := getD_lt ha.sampleLines fun _ => by decide
    outputPath_ne := houtput
    inputPath_ne := ha.input }

theorem resolve_inRange (ha : a.InRange) (hseed : a.seed = none → fallback < wordCount)
    (h : resolve fallback a = .ok c) : c.InRange :=
  resolveDrawing_inRange Random.wordSource_bounded.fromOne ha hseed h

/-- Where nothing is left open, a configuration is what its values resolve to, and no number is
drawn. -/
theorem resolveDrawing_explicit (hc : c.InRange) (draw : Random.Draw σ) (source : Nat → σ)
    (fallback : Nat) : resolveDrawing draw source fallback c.explicit = .ok c := by
  have hcapacity := Nat.one_le_iff_ne_zero.1 hc.capacity_pos
  have hmax := Nat.one_le_iff_ne_zero.1 hc.maxFragment_pos
  have hroom := Nat.one_le_iff_ne_zero.1 hc.readChunk_pos
  obtain ⟨input, output, ⟨capacity, delimiter, policy⟩⟩ := c
  simp only [resolveDrawing, explicit, Option.getD_some, Option.some.injEq, if_neg hcapacity,
    if_neg hmax, if_neg hroom, givenOrDrawn, Bool.not_not]
  cases policy <;> rfl

/-! ### Reading -/

theorem assignment_eq (p : Parameter) (value : Bytes) :
    assignment p value = 45 :: 45 :: (Utf8.encode p.name.toList ++ 61 :: value) := by
  cases p <;> rfl

theorem switching_true (s : Switch) :
    switching s true = [45 :: 45 :: Utf8.encode s.name.toList] := by
  cases s <;> rfl

theorem readFrom_assignment {p : Parameter} {α : Type} {read : Bytes → Except ArgumentError α}
    {v : α} {value : Bytes} {given : α → Arguments} (hread : read value = .ok v)
    (hset : ∀ value, a.setValue p value = read value >>= fun v => .ok (given v))
    (hfresh : a.has p = false) (rest : List Bytes) :
    a.readFrom none (assignment p value :: rest) = (given v).readFrom none rest := by
  rw [assignment_eq, Arguments.readFrom_value hfresh, hset, hread]
  rfl

theorem readFrom_switching {s : Switch} (hs : s ≠ .help) (hoff : a.isOn s = false) (on : Bool)
    (rest : List Bytes) :
    a.readFrom none (switching s on ++ rest) = (a.withSwitch s on).readFrom none rest := by
  cases on with
  | false =>
    have hsame : a.withSwitch s (a.isOn s) = a := by cases s <;> rfl
    rw [hoff] at hsame
    rw [hsame]
    rfl
  | true =>
    have hturn : a.turnOn s = .ok (a.withSwitch s true) := by
      unfold Arguments.turnOn
      rw [hoff]
      cases s with
      | help => exact absurd rfl hs
      | firstDelimiterOnly | printConfig | noMetrics | verbose => rfl
    rw [switching_true, List.singleton_append, Arguments.readFrom_switch hs, hturn]
    rfl

theorem readFrom_input (hfresh : a.input = none) {given : Option Bytes}
    (hne : ∀ path, given = some path → path ≠ []) (rest : List Bytes) :
    a.readFrom none ((given.map (assignment .input)).toList ++ rest) =
      { a with input := given }.readFrom none rest := by
  cases given with
  | none =>
    have hsame : { a with input := none } = a := by rw [← hfresh]
    rw [hsame]
    rfl
  | some path =>
    have hpath := pathValue_eq_ok (p := .input).2 ⟨hne path rfl, rfl⟩
    have hunset : a.has .input = false := by rw [Arguments.has, hfresh]; rfl
    exact readFrom_assignment hpath (fun _ => rfl) hunset rest

/-- The list that gives each value of a configuration is read as just these values. -/
theorem parse_arguments (hc : c.InRange) :
    Arguments.parse c.arguments = .ok (.pass c.explicit) := by
  have houtput := pathValue_eq_ok (p := .output).2 ⟨hc.outputPath_ne, rfl⟩
  rw [Arguments.parse, arguments, ← List.append_nil (switching .verbose c.verbose)]
  simp only [List.append_assoc, List.cons_append, List.nil_append]
  -- One step for each word, in the order of the list.
  rw [readFrom_assignment (wordValue_toString .seed hc.seed_lt) (fun _ => rfl) rfl,
    readFrom_assignment (wordValue_toString .capacity hc.capacity_lt) (fun _ => rfl) rfl,
    readFrom_assignment (delimiterValue_canonical .delimiter _) (fun _ => rfl) rfl,
    readFrom_assignment (wordValue_toString .maxFragment hc.maxFragment_lt) (fun _ => rfl) rfl,
    readFrom_assignment (wordValue_toString .readChunk hc.readChunk_lt) (fun _ => rfl) rfl,
    readFrom_assignment (wordValue_toString .sampleLines hc.sampleLines_lt) (fun _ => rfl) rfl,
    readFrom_assignment houtput (fun _ => rfl) rfl, readFrom_input rfl hc.inputPath_ne,
    readFrom_switching (by decide) rfl, readFrom_switching (by decide) rfl,
    readFrom_switching (by decide) rfl, readFrom_switching (by decide) rfl]
  rfl

/-- A configuration that some arguments resolve to, with numbers from any source that keeps to the
range, has something to retain, to write and to read. The list that gives each of its values, the
drawn ones too, is accepted and resolves to the same configuration, whatever seed there would be
without it and whatever else the numbers would be drawn from. -/
theorem resolve_reproduces (hdraw : Random.FromOne draw) {words : List Bytes}
    (hparse : Arguments.parse words = .ok (.pass a))
    (hseed : a.seed = none → fallback < wordCount)
    (hresolve : resolveDrawing draw source fallback a = .ok c) :
    (1 ≤ c.history.capacity ∧ 1 ≤ c.maxFragment ∧ 1 ≤ c.readChunk) ∧
    ∃ b, Arguments.parse c.arguments = .ok (.pass b) ∧
      b.maxFragment = some c.maxFragment ∧ b.readChunk = some c.readChunk ∧
      (∀ other, resolve other b = .ok c) ∧
      ∀ {τ : Type} (another : Random.Draw τ) (origin : Nat → τ) other,
        resolveDrawing another origin other b = .ok c := by
  have hc := resolveDrawing_inRange hdraw (Arguments.parse_inRange hparse) hseed hresolve
  exact ⟨⟨hc.capacity_pos, hc.maxFragment_pos, hc.readChunk_pos⟩, c.explicit, parse_arguments hc,
    rfl, rfl, resolveDrawing_explicit hc _ _, resolveDrawing_explicit hc⟩

/-- Seed 7 draws a longest fragment of 11 bytes and room for 6. The input path has an equals sign in
it, and the capacity a plus sign and zeros in front. -/
theorem resolve_reproduces_drawn :
    let words : List Bytes := ["--seed=7", "--delimiter", ";", "--in=a=b", "--capacity", "+003",
      "-v"].map fun word => Utf8.encode word.toList
    let a : Arguments := ⟨some [97, 61, 98], none, some 7, some 3, some 59, none, none, none,
      false, false, false, true⟩
    let c : Config := ⟨some [97, 61, 98], defaultOutput, ⟨3, 59, .split⟩, 7, 11, 6, 100,
      false, true, true⟩
    Random.FromOne (Random.wordSource.between 1) ∧
    Arguments.parse words = .ok (.pass a) ∧ (a.seed = none → 0 < wordCount) ∧
    resolve 0 a = .ok c ∧
    ∃ b, Arguments.parse c.arguments = .ok (.pass b) ∧ b.maxFragment = some 11 ∧
      b.readChunk = some 6 ∧ resolve 0 b = .ok c := by
  intro words a c
  have hparse : Arguments.parse words = .ok (.pass a) := by decide +kernel
  have hresolve : resolve 0 a = .ok c := by decide +kernel
  have hdraw := Random.wordSource_bounded.fromOne
  obtain ⟨-, b, hread, hfragment, hchunk, hsame, -⟩ :=
    resolve_reproduces hdraw hparse nofun hresolve
  exact ⟨hdraw, hparse, nofun, hresolve, b, hread, hfragment, hchunk, hsame 0⟩

end Config

end Scrollback
