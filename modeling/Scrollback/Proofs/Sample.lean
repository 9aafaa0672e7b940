import Scrollback.Proofs.History.Stream
import Scrollback.Proofs.Random
import Scrollback.Sample
/-!
# The lines of a sample

A source gives one endless sequence of lines (`Sample.lineAt`): how many of them a sample takes and
by which delimiter they end has no part in it, although each line draws as many numbers as those
drawn before tell it to. So a sample is the start of each longer one, and it is cut into its lines
again, whatever fragments it is written in (`Sample.Structured`).
-/

namespace Scrollback

namespace Sample

variable {σ : Type}

/-- All numbers drawn are in the range asked for. -/
structure Draws.InRange (draw : Draws σ) : Prop where
  word : Random.InRange draw.word
  int : Random.InRange draw.int
  byte : Random.InRange draw.byte

/-- What may follow the target of a line: nothing, one to four numbers of up to four digits, each
after a blank, or a blank and a payload of 64 to 512 small letters. -/
inductive IsTail : Bytes → Prop where
  | bare : IsTail []
  | arguments (numbers : List Nat) (hcount : 1 ≤ numbers.length ∧ numbers.length ≤ 4)
      (hnumbers : ∀ n ∈ numbers, n ≤ 9999) :
      IsTail (numbers.flatMap fun n => Utf8.encode (" " ++ toString n).toList)
  | payload (letters : Bytes) (hcount : 64 ≤ letters.length ∧ letters.length ≤ 512)
      (hletters : ∀ b ∈ letters, 97 ≤ b ∧ b ≤ 122) :
      IsTail (32 :: letters)

/-- A line starts with its number in at least four digits, a blank, a verb, a blank and a target. -/
def IsCommand (index : Nat) (bytes : Bytes) : Prop :=
  ∃ verb ∈ verbs, ∃ target ∈ targets, ∃ rest, IsTail rest ∧
    bytes = Utf8.encode (Decimal.padded 4 index ++ " " ++ verb ++ " " ++ target).toList ++ rest

/-- The state of a source before it gives a line of some index. -/
def before (draw : Draws σ) (s : σ) : Nat → σ
  | 0 => s
  | index + 1 => (line draw index (before draw s index)).2

/-- The line of some index that a source gives. -/
def lineAt (draw : Draws σ) (s : σ) (index : Nat) : Bytes :=
  (line draw index (before draw s index)).1

/-- How samples are made of one sequence of lines, and what a history makes of them. -/
structure Structured (line : Nat → Bytes) (text : Nat → UInt8 → Bytes) : Prop where
  isCommand : ∀ index, IsCommand index (line index)
  text_eq : ∀ count delimiter, text count delimiter =
    (List.range count).flatMap fun index => (line index).filter (· != delimiter) ++ [delimiter]
  /-- A sample is the start of each longer one. -/
  text_grows : ∀ count more delimiter, text count delimiter <+: text (count + more) delimiter
  count_eq : ∀ count delimiter, (text count delimiter).count delimiter = count
  getLast?_eq : ∀ count delimiter, 0 < count →
    (text count delimiter).getLast? = some delimiter
  /-- Written to a new history that splits, in whatever fragments, a sample completes one record for
  each of its lines, the last of which are retained, and leaves nothing pending. -/
  written : ∀ (count capacity : Nat) (delimiter : UInt8) (h : History) (parts : List Bytes),
    History.create ⟨capacity, delimiter, .split⟩ = .ok (.ok h) →
    (text count delimiter).length < wordCount →
    parts.flatten = text count delimiter →
    ∃ (outcomes : List WriteOutcome) (live : List Record) (d : Desk),
      (Desk.ofHistory h).performAll (parts.map (.write none)) =
        .ok (outcomes.map fun outcome => .written (.ok outcome), d) ∧
      (outcomes.map WriteOutcome.completed).sum = count ∧
      d.history.log.records = .ok live ∧
      live.length = min capacity count ∧
      live.map Record.bytes = ((List.range count).map fun index =>
        (line index).filter (· != delimiter) ++ [delimiter]).rtake capacity ∧
      d.history.assembler.pending.bytes = []

/-! ### One line -/

section Line

variable {draw : Draws σ}

theorem letters_eq (h : draw.InRange) (count : Nat) (s : σ) :
    (letters draw count s).1.length = count ∧
      ∀ b ∈ (letters draw count s).1, 97 ≤ b ∧ b ≤ 122 := by
  induction count generalizing s with
  | zero => exact ⟨rfl, nofun⟩
  | succ count ih =>
    obtain ⟨hlow, hhigh⟩ := h.byte 97 122 (by decide) s
    rw [letters]
    generalize draw.byte 97 122 _ s = drawn at hlow hhigh ⊢
    obtain ⟨hlength, hrest⟩ := ih drawn.2
    have hbyte : (UInt8.ofNat drawn.1).toNat = drawn.1 :=
      UInt8.toNat_ofNat_of_lt' (Nat.lt_of_le_of_lt hhigh (by decide))
    refine ⟨congrArg Nat.succ hlength, List.forall_mem_cons.2 ⟨?_, hrest⟩⟩
    rw [UInt8.le_iff_toNat_le, UInt8.le_iff_toNat_le, hbyte]
    exact ⟨hlow, hhigh⟩

theorem arguments_eq (h : draw.InRange) (count : Nat) (s : σ) :
    ∃ numbers : List Nat, numbers.length = count ∧ (∀ n ∈ numbers, n ≤ 9999) ∧
      (arguments draw count s).1 =
        numbers.flatMap fun n => Utf8.encode (" " ++ toString n).toList := by
  induction count generalizing s with
  | zero => exact ⟨[], rfl, nofun, rfl⟩
  | succ count ih =>
    have hhigh := (h.int 0 9999 (by decide) s).2
    rw [arguments]
    generalize draw.int 0 9999 _ s = drawn at hhigh ⊢
    obtain ⟨numbers, hlength, hnumbers, hrest⟩ := ih drawn.2
    refine ⟨drawn.1 :: numbers, congrArg Nat.succ hlength,
      List.forall_mem_cons.2 ⟨hhigh, hnumbers⟩, ?_⟩
    rw [List.flatMap_cons, ← hrest]

theorem isTail_tail (h : draw.InRange) (s : σ) : IsTail (tail draw s).1 := by
  rcases hkind : draw.int 0 9 (by decide) s with ⟨kind, mid⟩
  rcases hfew : draw.int 1 4 (by decide) mid with ⟨few, next⟩
  rcases hmany : draw.int 64 512 (by decide) mid with ⟨many, last⟩
  have hargs := h.int 1 4 (by decide) mid
  have hpayload := h.int 64 512 (by decide) mid
  rw [hfew] at hargs
  rw [hmany] at hpayload
  simp only [tail, hkind, hfew, hmany]
  split
  · exact .bare
  · split
    · obtain ⟨numbers, hlength, hnumbers, heq⟩ := arguments_eq h few next
      rw [heq]
      exact .arguments numbers (hlength ▸ hargs) hnumbers
    · obtain ⟨hlength, hletters⟩ := letters_eq h many last
      exact .payload _ (by rwa [hlength]) hletters

theorem head_eq {verb target : Nat} (hverb : verb ≤ 7) (htarget : target ≤ 7) (index : Nat) :
    ∃ v ∈ verbs, ∃ t ∈ targets,
      head index verb target =
        Utf8.encode (Decimal.padded 4 index ++ " " ++ v ++ " " ++ t).toList := by
  have hverbs : verb < verbs.length := Nat.lt_succ_of_le hverb
  have htargets : target < targets.length := Nat.lt_succ_of_le htarget
  refine ⟨_, List.getElem_mem hverbs, _, List.getElem_mem htargets, ?_⟩
  rw [head, List.getD_eq_getElem _ _ hverbs, List.getD_eq_getElem _ _ htargets]

theorem isCommand_line (h : draw.InRange) (index : Nat) (s : σ) :
    IsCommand index (line draw index s).1 := by
  rcases hverb : draw.word 0 7 (by decide) s with ⟨verb, mid⟩
  rcases htarget : draw.word 0 7 (by decide) mid with ⟨target, last⟩
  have hv := (h.word 0 7 (by decide) s).2
  have ht := (h.word 0 7 (by decide) mid).2
  rw [hverb] at hv
  rw [htarget] at ht
  obtain ⟨v, hmem, t, hmem', hhead⟩ := head_eq hv ht index
  refine ⟨v, hmem, t, hmem', (tail draw last).1, isTail_tail h last, ?_⟩
  simp only [line, hverb, htarget, hhead]

end Line

/-! ### All lines -/

/-- From each index on, the lines are those of the one sequence. -/
theorem linesFrom_eq (draw : Draws σ) (s : σ) (index count : Nat) :
    linesFrom draw index count (before draw s index) =
      (List.range' index count).map (lineAt draw s) := by
  induction count generalizing index with
  | zero => rfl
  | succ count ih =>
    rw [List.range'_succ, List.map_cons, ← ih (index + 1), linesFrom, lineAt, before]

theorem textDrawing_eq (draw : Draws σ) (s : σ) (count : Nat) (delimiter : UInt8) :
    textDrawing draw s count delimiter =
      (List.range count).flatMap fun index => terminated delimiter (lineAt draw s index) := by
  have hlines := linesFrom_eq draw s 0 count
  rw [before, ← List.range_eq_range'] at hlines
  rw [textDrawing, hlines, List.flatMap_map]

/-! ### What follows from the lines -/

theorem isLine_terminated (delimiter : UInt8) (bytes : Bytes) :
    Framing.IsLine delimiter (terminated delimiter bytes) :=
  ⟨_, by simp, rfl⟩

theorem Structured.of_text_eq {line : Nat → Bytes} {text : Nat → UInt8 → Bytes}
    (hline : ∀ index, IsCommand index (line index))
    (htext : ∀ count delimiter, text count delimiter =
      (List.range count).flatMap fun index => terminated delimiter (line index)) :
    Structured line text := by
  have hlines : ∀ count delimiter,
      ∀ bytes ∈ (List.range count).map fun index => terminated delimiter (line index),
        Framing.IsLine delimiter bytes := by
    intro count delimiter
    exact List.forall_mem_map.2 fun index _ => isLine_terminated delimiter (line index)
  have hflatten : ∀ count delimiter, text count delimiter =
      ((List.range count).map fun index => terminated delimiter (line index)).flatten := by
    intro count delimiter
    rw [htext, List.flatMap_def]
  have hcount : ∀ count delimiter, (text count delimiter).count delimiter = count := by
    intro count delimiter
    rw [hflatten, Framing.count_flatten (hlines count delimiter), List.length_map,
      List.length_range]
  refine ⟨hline, htext, ?_, hcount, ?_, ?_⟩
  · intro count more delimiter
    rw [htext, htext, List.range_add, List.flatMap_append]
    exact List.prefix_append _ _
  · intro count delimiter hpos
    have hmem := List.count_pos_iff.1 (hpos.trans_eq (hcount count delimiter).symm)
    rw [hflatten] at hmem ⊢
    exact (Framing.getLast?_flatten (hlines count delimiter)).resolve_left
      (List.ne_nil_of_mem hmem)
  · intro count capacity delimiter h parts hnew hword hparts
    obtain ⟨outcomes, d, hrun, hcompleted, hd⟩ :=
      Desk.performAll_writes hnew rfl parts (by rwa [hparts])
    -- The history stands for the text, which is cut into its lines again.
    rw [hparts] at hcompleted hd
    obtain ⟨hcut, hrest⟩ := Framing.lines_flatten (hlines count delimiter)
    rw [← hflatten] at hcut hrest
    refine ⟨outcomes, _, d, hrun, ?_, hd.holds.records_eq, ?_, ?_, ?_⟩
    · exact hcompleted.trans (hcount count delimiter)
    · rw [Reference.length_live_ofStream, hcount]
    · rw [Reference.map_live_ofStream, hcut]
      rfl
    · exact hd.pending_eq.trans hrest

theorem Draws.uniform_inRange : Draws.uniform.InRange :=
  ⟨Random.wordSource_bounded.between_inRange, Random.intSource_bounded.between_inRange,
    Random.byteSource_bounded.between_inRange⟩

theorem structured_textDrawing {draw : Draws σ} (h : draw.InRange) (s : σ) :
    Structured (lineAt draw s) (textDrawing draw s) :=
  .of_text_eq (fun index => isCommand_line h index (before draw s index)) (textDrawing_eq draw s)

/-- All samples of one source are made of one sequence of lines, whatever the source, as long as the
numbers that it gives are in range; and the samples of a seed are. -/
theorem text_structured :
    (∀ {σ : Type} (draw : Draws σ), draw.InRange → ∀ s : σ,
      Structured (lineAt draw s) (textDrawing draw s)) ∧
    ∀ seed : Nat, Structured (lineAt .uniform (Random.Stream.ofSeed seed)) (text seed) :=
  ⟨fun _ h s => structured_textDrawing h s,
    fun _ => structured_textDrawing Draws.uniform_inRange _⟩

/-- Two lines that end in a letter of theirs, `e`. They are cut where a history with one slot has
lost the first of them before the second one is complete. -/
theorem text_structured_letter :
    let parts : List Bytes := [[48, 48, 48, 48, 32, 115, 116, 32, 98, 116, 97, 32, 55, 50, 54],
      [55, 101, 48], [48, 48, 49, 32, 112, 117, 115, 104, 32, 108, 100, 48, 101]]
    Draws.uniform.InRange ∧ (text 7 2 101).length < wordCount ∧ parts.flatten = text 7 2 101 ∧
    ∃ h, History.create ⟨1, 101, .split⟩ = .ok (.ok h) ∧
    ∃ (outcomes : List WriteOutcome) (live : List Record) (d : Desk),
      (Desk.ofHistory h).performAll (parts.map (.write none)) =
        .ok (outcomes.map fun outcome => .written (.ok outcome), d) ∧
      (outcomes.map WriteOutcome.completed).sum = 2 ∧
      d.history.log.records = .ok live ∧ live.length = 1 ∧
      d.history.assembler.pending.bytes = [] := by
  intro parts
  have hword : (text 7 2 101).length < wordCount := by decide +kernel
  have hparts : parts.flatten = text 7 2 101 := by decide +kernel
  obtain ⟨hany, -⟩ := text_structured
  have hsample := hany .uniform Draws.uniform_inRange (Random.Stream.ofSeed 7)
  refine ⟨Draws.uniform_inRange, hword, hparts, _, rfl, ?_⟩
  obtain ⟨outcomes, live, d, hrun, hcompleted, hrecords, hlength, -, hpending⟩ :=
    hsample.written 2 1 101 _ parts rfl hword hparts
  exact ⟨outcomes, live, d, hrun, hcompleted, hrecords, hlength, hpending⟩

end Sample

end Scrollback
