import Scrollback.Proofs.Pass.Verification
import Scrollback.Proofs.Random
/-!
# Slices

Three loops take byte strings apart at an index: one cuts the lines off a fragment, one the
fragments off an input, and one takes what was read out of a buffer that is used for each read. An
index behind the end would be a defect. `Framing.cut`, `Pass.fragments` and `Pass.readBack` have no
indices; here are the loops with each index checked, and they come to the same
(`Framing.cutSliced_eq`, `Pass.performSliced_eq`).

That the index is in range has a reason of its own in each: it is the place of a delimiter that was
found, a length that is no more than what is left, or a count of bytes that the buffer had room for.
-/

namespace Scrollback

open Scrollback.Random (Draw FromOne)

/-- What is before an index and what is from there on, if the index is in range. -/
def Bytes.divide (bytes : Bytes) (index : Nat) : Checked (Bytes × Bytes) :=
  if index ≤ bytes.length then .ok (bytes.take index, bytes.drop index)
  else .error .sliceOutOfBounds

theorem Bytes.divide_append (first next : Bytes) :
    (first ++ next).divide first.length = .ok (first, next) := by
  rw [divide, if_pos (by simp), List.take_left, List.drop_left]

/-- An index behind the end is moved to the end. -/
theorem Bytes.divide_min (bytes : Bytes) (index : Nat) :
    bytes.divide (min index bytes.length) = .ok (bytes.take index, bytes.drop index) := by
  rw [divide, if_pos (Nat.min_le_right _ _), ← List.take_eq_take_min]
  obtain hle | hgt := Nat.le_total index bytes.length
  · rw [Nat.min_eq_left hle]
  · rw [Nat.min_eq_right hgt, List.drop_length, List.drop_eq_nil_of_le hgt]

/-! ### Lines of a fragment -/

namespace Framing

/-- Cut lines off a fragment until there is no delimiter in it, on top of lines cut before, the
latest first. Each line uses up a byte at least. -/
def cutFrom (delimiter : UInt8) (lines : List Bytes) (rest : Bytes) :
    (fuel : Nat) → Checked (List Bytes × Bytes)
  | 0 => return (lines.reverse, rest)
  | fuel + 1 => do
    match rest.findIdx? (· == delimiter) with
    | none => return (lines.reverse, rest)
    | some index =>
      let (line, next) ← rest.divide (← Word.add index 1)
      cutFrom delimiter (line :: lines) next fuel

/-- The complete lines of a fragment and what follows them, with each index checked. -/
def cutSliced (delimiter : UInt8) (fragment : Bytes) : Checked (List Bytes × Bytes) :=
  cutFrom delimiter [] fragment fragment.length

/-- A found delimiter ends the first line. -/
theorem eq_append_of_findIdx?_eq_some {delimiter : UInt8} {bytes : Bytes} {index : Nat}
    (h : bytes.findIdx? (· == delimiter) = some index) :
    ∃ body next, bytes = body ++ [delimiter] ++ next ∧ delimiter ∉ body ∧
      body.length = index := by
  obtain ⟨hindex, hhere, hbefore⟩ := List.findIdx?_eq_some_iff_getElem.1 h
  refine ⟨bytes.take index, bytes.drop (index + 1), ?_, fun hmem => ?_, by simp; omega⟩
  · rw [← eq_of_beq hhere, List.append_assoc, List.singleton_append,
      ← List.drop_eq_getElem_cons hindex, List.take_append_drop]
  · obtain ⟨place, hplace, hget⟩ := List.mem_iff_getElem.1 hmem
    rw [List.length_take] at hplace
    rw [List.getElem_take] at hget
    exact hbefore place (by omega) (beq_iff_eq.2 hget)

theorem cut_line {delimiter : UInt8} {body : Bytes} (hbody : delimiter ∉ body) (next : Bytes) :
    cut delimiter (body ++ [delimiter] ++ next) =
      ((body ++ [delimiter]) :: (cut delimiter next).1, (cut delimiter next).2) := by
  rw [List.append_assoc, cut_append, cut_of_notMem hbody, List.singleton_append, cut_cons, prepend,
    if_pos rfl]
  rfl

/-- With a turn for each byte, the loop cuts off what there is to cut off. -/
theorem cutFrom_eq {delimiter : UInt8} {rest : Bytes} (hword : rest.length < wordCount)
    (lines : List Bytes) {fuel : Nat} (hfuel : rest.length ≤ fuel) :
    cutFrom delimiter lines rest fuel =
      .ok (lines.reverse ++ (cut delimiter rest).1, (cut delimiter rest).2) := by
  induction fuel generalizing rest lines with
  | zero =>
    obtain rfl := List.eq_nil_of_length_eq_zero (Nat.le_zero.1 hfuel)
    simp [cutFrom]
  | succ fuel ih =>
    rw [cutFrom]
    cases hfound : rest.findIdx? (· == delimiter) with
    | none =>
      have hnone : delimiter ∉ rest := by
        rw [List.findIdx?_eq_none_iff] at hfound
        exact fun hmem => absurd (hfound delimiter hmem) (by simp)
      rw [cut_of_notMem hnone, List.append_nil]
      rfl
    | some index =>
      obtain ⟨body, next, rfl, hbody, rfl⟩ := eq_append_of_findIdx?_eq_some hfound
      simp only [List.length_append, List.length_singleton] at hword hfuel
      have hdivide := Bytes.divide_append (body ++ [delimiter]) next
      rw [List.length_append, List.length_singleton] at hdivide
      dsimp only
      rw [Word.add_eq_ok (by omega), Checked.ok_bind, hdivide, Checked.ok_bind]
      dsimp only
      rw [ih (by omega) _ (by omega), cut_line hbody, List.reverse_cons, List.append_assoc]
      rfl

/-- The loop with its indices checked cuts what a pass over the bytes cuts. -/
theorem cutSliced_eq (delimiter : UInt8) {fragment : Bytes} (hword : fragment.length < wordCount) :
    cutSliced delimiter fragment = .ok (cut delimiter fragment) :=
  cutFrom_eq hword [] le_rfl

end Framing

/-! ### Fragments of an input -/

namespace Pass

variable {σ : Type}

/-- Cut fragments of drawn lengths off an input until nothing is left, on top of fragments cut
before, the latest first. Each fragment uses up a byte at least. -/
def sliceFrom (draw : σ → Nat × σ) (s : σ) (done : List Bytes) (rest : Bytes) :
    (fuel : Nat) → Checked (List Bytes)
  | 0 => return done.reverse
  | fuel + 1 => do
    if rest.isEmpty then return done.reverse
    let drawn := draw s
    let (fragment, next) ← rest.divide (min drawn.1 rest.length)
    sliceFrom draw drawn.2 (fragment :: done) next fuel

/-- The fragments of an input, with each index checked. -/
def fragmentsSliced (draw : Draw σ) (s : σ) (longest : Nat) (input : Bytes) :
    Checked (List Bytes) :=
  if input.isEmpty then .ok []
  else if h : 1 ≤ longest then sliceFrom (draw longest h) s [] input input.length
  else .error .emptyRange

theorem sliceFrom_eq {draw : σ → Nat × σ} (hdraw : ∀ s, 1 ≤ (draw s).1) (s : σ)
    (done : List Bytes) {rest : Bytes} {fuel : Nat} (hfuel : rest.length ≤ fuel) :
    sliceFrom draw s done rest fuel = .ok (fragmentsFrom draw s done rest) := by
  induction fuel generalizing s done rest with
  | zero =>
    obtain rfl := List.eq_nil_of_length_eq_zero (Nat.le_zero.1 hfuel)
    rw [sliceFrom, fragmentsFrom]
    rfl
  | succ fuel ih =>
    cases rest with
    | nil =>
      rw [sliceFrom, fragmentsFrom]
      rfl
    | cons b rest =>
      -- What is drawn counts the first byte in.
      obtain ⟨more, hmore⟩ := Nat.exists_eq_add_of_le' (hdraw s)
      have hdivide := Bytes.divide_min (b :: rest) (draw s).1
      rw [hmore, List.take_succ_cons, List.drop_succ_cons] at hdivide
      rw [sliceFrom, fragmentsFrom]
      dsimp only [List.isEmpty_cons, Bool.false_eq_true, if_false]
      rw [if_neg Bool.false_ne_true, hmore, hdivide, Checked.ok_bind]
      dsimp only
      rw [ih, Nat.add_sub_cancel]
      rw [List.length_drop]
      rw [List.length_cons] at hfuel
      omega

/-- Without empty fragments, the loop with its indices checked cuts the same fragments. -/
theorem fragmentsSliced_eq {draw : Draw σ} (hdraw : FromOne draw) (s : σ) (longest : Nat)
    (input : Bytes) : fragmentsSliced draw s longest input = fragments draw s longest input := by
  unfold fragmentsSliced fragments
  split
  · rfl
  · split
    next h => exact sliceFrom_eq (fun s => (hdraw longest h s).1) s [] le_rfl
    next => rfl

end Pass

/-! ### One buffer for all reads -/

/-- The bytes that a read counts are in its buffer. -/
theorem History.count_le_of_readInto {h next : History} {position after count : Nat}
    {buffer filled : Bytes}
    (hread : h.readInto position buffer = .ok (.ok count, filled, after, next)) :
    count ≤ filled.length := by
  obtain ⟨⟨result, moved, mid⟩, -, hrest⟩ := Checked.bind_eq_ok.1 hread
  cases result with
  | error e => cases hrest
  | ok data =>
    obtain ⟨laid, hfill, hout⟩ := Checked.bind_eq_ok.1 hrest
    cases hout
    unfold Bytes.fill at hfill
    split at hfill
    · cases hfill
      rw [Bytes.overlay, List.length_append]
      exact Nat.le_add_right _ _
    · cases hfill

namespace Cursor

variable {c last : Cursor} {h next : History} {buffer : Bytes} {pieces : List Bytes}

/-- Read into one buffer until nothing comes back, and take from it what came, behind the output so
far. -/
def drainInto (c : Cursor) (h : History) (buffer output : Bytes) :
    (fuel : Nat) → Checked (Except HistoryError Bytes × Cursor × History)
  | 0 => return (.ok output, c, h)
  | fuel + 1 => do
    match ← h.readInto c.position buffer with
    | (.error e, _, position, h) => return (.error e, ⟨position⟩, h)
    | (.ok count, filled, position, h) =>
      if count = 0 then return (.ok output, ⟨position⟩, h)
      let (piece, _) ← filled.divide count
      drainInto ⟨position⟩ h filled (output ++ piece) fuel

/-- A cursor reads as its history does. -/
theorem readInto_eq_ok {filled : Bytes} {moved : Cursor} {count : Nat}
    (hread : c.readInto h buffer = .ok (.ok count, filled, moved, next)) :
    h.readInto c.position buffer = .ok (.ok count, filled, moved.position, next) := by
  obtain ⟨⟨result, laid, position, after⟩, hhistory, hout⟩ := Checked.bind_eq_ok.1 hread
  cases result with
  | error e => cases hout
  | ok data =>
    cases hout
    exact hhistory

/-- With a turn for each read, the loop takes what the reads return. -/
theorem drainInto_eq_of_readsOut (hreads : ReadsOut buffer c h pieces last next) (output : Bytes)
    {fuel : Nat} (hfuel : pieces.length < fuel) :
    c.drainInto h buffer output fuel = .ok (.ok (output ++ pieces.flatten), last, next) := by
  induction hreads generalizing output fuel with
  | stop hread =>
    obtain ⟨fuel, rfl⟩ := Nat.exists_eq_add_of_lt hfuel
    rw [drainInto, readInto_eq_ok hread, List.flatten_nil, List.append_nil]
    rfl
  | @more buffer filled c moved last h mid next count pieces hread hcount hrest ih =>
    obtain _ | fuel := fuel
    · cases hfuel
    · have hhistory := readInto_eq_ok hread
      have hdivide : filled.divide count = .ok (filled.take count, filled.drop count) :=
        if_pos (History.count_le_of_readInto hhistory)
      rw [drainInto, hhistory, Checked.ok_bind]
      dsimp only
      rw [if_neg hcount, hdivide, Checked.ok_bind]
      dsimp only
      rw [ih _ (Nat.lt_of_succ_lt_succ hfuel), List.flatten_cons, List.append_assoc]

end Cursor

namespace Pass

variable {σ : Type}

/-- Read all data back into one buffer, with each index checked. -/
def readBackSliced (h : History) (room : Nat) : Step (Bytes × History) := do
  checkBlock room
  ExceptT.mk do
    match ← Cursor.opened.drainInto h (List.replicate room 0) [] (h.log.liveBytes + 1) with
    | (.ok output, _, next) => return .ok (output, next)
    | (.error e, _, _) => return .error ⟨.read, e⟩

/-- The loop over one buffer reads back what a drain does. -/
theorem readBackSliced_eq {h : History} (hs : h.Sound) (halive : h.poisoned = false) (room : Nat) :
    readBackSliced h room = readBack h room := by
  have hreads := Cursor.readsOut_pieces hs halive (by decide : 0 < wordCount)
    (List.replicate room 0)
  have hdrain := Cursor.drain_eq hs halive room 0
  have hcount := Log.length_pieces_le h.log.toList room 0
  rw [← hs.holds.liveBytes_eq] at hcount
  rw [List.length_replicate] at hreads
  have hinto := Cursor.drainInto_eq_of_readsOut hreads []
    (Nat.lt_succ_of_le (hcount.trans (Nat.sub_le _ _)))
  rw [if_pos (by decide)] at hdrain
  unfold readBackSliced readBack
  rw [Cursor.opened, hinto, hdrain]
  rfl

/-! ### A whole pass -/

/-- What follows a step may rely on what the step returned. -/
theorem Step.bind_congr {α β : Type} {x : Step α} {f g : α → Step β}
    (h : ∀ a, x.run = .ok (.ok a) → f a = g a) : x >>= f = x >>= g := by
  refine ExceptT.ext ?_
  rw [ExceptT.run_bind, ExceptT.run_bind]
  rcases hx : x.run with d | e | a
  · rfl
  · rfl
  · exact congrArg ExceptT.run (h a hx)

/-- Drive an input through a fresh history, with each index into the input and into the buffer
checked. -/
def performSliced (draw : Draw σ) (s : σ) (c : Config) (memory : Memory) (input : Bytes) :
    Step Report := do
  let empty ← during .create (History.create c.history)
  let written ← writeAll empty memory 0 (← fragmentsSliced draw s c.maxFragment input)
  let stats ← during .stats written.stats
  let unterminated := stats.assembler.pendingBytes
  let (output, drained) ← readBackSliced written c.readChunk
  let metrics ← during .counters drained.counters
  return {
    output
    completedInput := ← Word.sub input.length unterminated
    unterminated
    retained := stats.log.records
    metrics }

/-- No index of a pass is out of range: with the indices checked it is the same pass. -/
theorem performSliced_eq {draw : Draw σ} (hdraw : FromOne draw) (s : σ) (c : Config)
    (memory : Memory) (input : Bytes) :
    performSliced draw s c memory input = performDrawing draw s c memory input := by
  rw [performSliced, fragmentsSliced_eq hdraw]
  refine Step.bind_congr fun empty hcreate => Step.bind_congr fun parts hparts =>
    Step.bind_congr fun written hwrite => bind_congr fun stats => ?_
  have ht := trails_writeAll (.of_create (during_eq_ok hcreate)) hwrite
  rw [readBackSliced_eq ht.sound ht.alive]

end Pass

end Scrollback
