import Scrollback.Proofs.History.Returning
import Scrollback.Proofs.Pass.Verification
/-!
# Writes that are tried again

A fragment for which memory was refused is tried again, each time under another allowance. As a
refusal leaves only a count behind, the fragment is written once or not at all: after the attempts
the history is the one after a single write, or the one before, with the refusals counted
(`Pass.Settled`). `Pass.Attempts` tells the attempts one by one.

What holds of a fragment is lifted to a pass: unless a fragment fails in all of its attempts, the
pass does what it would do with memory for everything, and only the refusals are counted
(`Pass.performDrawing_withRefusals`). Both are put together in `Pass.writeRetrying_settles`.
-/

namespace Scrollback

open Scrollback.Random (Draw)

/-- A report with another count of refusals. -/
def Report.withRefusals (r : Report) (count : Nat) : Report :=
  { r with metrics := r.metrics.withRefusals count }

namespace History

variable {h : History}

/-- With memory for everything, nothing is refused. -/
theorem allocFailures_of_write_none (halive : h.poisoned = false) {fragment : Bytes}
    {result : Except HistoryError WriteOutcome} {next : History}
    (hwrite : h.write none fragment = .ok (result, next)) :
    next.metrics.allocFailures = h.metrics.allocFailures := by
  have hsame := write_none_withRefusals halive fragment h.metrics.allocFailures
  rw [withRefusals_self, hwrite] at hsame
  have hnext : next = next.withRefusals h.metrics.allocFailures :=
    congrArg Prod.snd (Except.ok.inj hsame)
  rw [hnext]
  rfl

end History

namespace Pass

/-! ### One fragment -/

/-- A fragment is tried from a given attempt on, each time on the history that the attempt before it
left, until one is not refused memory or no more are made: what the earlier ones were refused, the
result of the last one, and the history after it. -/
inductive Attempts (allowance : Nat → Allowance) (fragment : Bytes) :
    Nat → History → List Nat → Except HistoryError WriteOutcome → History → Prop where
  | last {attempt : Nat} {h after : History} {result : Except HistoryError WriteOutcome}
      (hwrite : h.write (allowance attempt) fragment = .ok (result, after)) :
      Attempts allowance fragment attempt h [] result after
  | again {attempt request : Nat} {h mid after : History} {failures : List Nat}
      {result : Except HistoryError WriteOutcome}
      (hwrite : h.write (allowance attempt) fragment = .ok (.error (.alloc request), mid))
      (hrest : Attempts allowance fragment (attempt + 1) mid failures result after) :
      Attempts allowance fragment attempt h (request :: failures) result after

variable {allowance other : Nat → Allowance} {fragment : Bytes} {attempt more : Nat}
  {h next after : History} {failures : List Nat} {result : Except HistoryError WriteOutcome}
  {outcome : WriteOutcome}

namespace Attempts

/-- No allowance matters but those of the attempts made. -/
theorem congr (ha : Attempts allowance fragment attempt h failures result after)
    (hother : ∀ i ≤ failures.length, other (attempt + i) = allowance (attempt + i)) :
    Attempts other fragment attempt h failures result after := by
  induction ha with
  | last hwrite =>
    apply last
    have hfirst := hother 0 (Nat.zero_le _)
    rw [Nat.add_zero] at hfirst
    rwa [hfirst]
  | @again attempt request h mid after failures result hwrite hrest ih =>
    have hfirst := hother 0 (Nat.zero_le _)
    rw [Nat.add_zero] at hfirst
    refine again (hfirst.symm ▸ hwrite) (ih fun i hi => ?_)
    · rw [Nat.add_assoc, Nat.add_comm 1]
      exact hother (i + 1) (Nat.succ_le_succ hi)

/-- As many attempts are made as are allowed, or an earlier one settles the fragment. -/
theorem writeFrom_eq (ha : Attempts allowance fragment attempt h failures result after)
    (hle : failures.length ≤ more)
    (hend : failures.length = more ∨ ∀ e, result = .error e → e.retryable = false) :
    writeFrom h allowance fragment attempt more = .ok (result, after) := by
  induction ha generalizing more with
  | @last attempt h after result hwrite =>
    cases more with
    | zero => exact hwrite
    | succ more =>
      rw [writeFrom, hwrite, Checked.ok_bind]
      cases result with
      | ok outcome => rfl
      | error e =>
        obtain hnone | hfinal := hend
        · cases hnone
        · simp only [hfinal e rfl]
          rfl
  | again hwrite hrest ih =>
    obtain _ | more := more
    · cases hle
    · rw [writeFrom, hwrite]
      exact ih (Nat.le_of_succ_le_succ hle) (hend.imp_left Nat.succ.inj)

/-- Under a lock that is alive, attempts at a fragment that fits end with it, or with all of them
refused. -/
theorem exists_of_write (halive : h.poisoned = false)
    (hwrite : h.write none fragment = .ok (.ok outcome, next)) (allowance : Nat → Allowance)
    (attempt more count : Nat) :
    ∃ failures result after,
      Attempts allowance fragment attempt (h.withRefusals count) failures result after ∧
      failures.length ≤ more ∧
      ((result = .ok outcome ∧ after = next.withRefusals (count + failures.length) ∧
          h.write (allowance (attempt + failures.length)) fragment = .ok (.ok outcome, next)) ∨
        ((∃ request, result = .error (.alloc request)) ∧ failures.length = more ∧
          after = h.withRefusals (count + more + 1) ∧
          ∀ i ≤ more, ∃ request refused,
            h.write (allowance (attempt + i)) fragment =
              .ok (.error (.alloc request), refused))) := by
  obtain ⟨-, -, hgranted⟩ := History.oblivious_write fragment h halive _ _ hwrite
  induction more generalizing attempt count with
  | zero =>
    obtain ⟨request, hrefused⟩ | hsame := h.write_withRefusals halive (allowance attempt) fragment
    · refine ⟨[], _, _, last (hrefused count), Nat.le_refl _, .inr ⟨⟨request, rfl⟩, rfl, rfl, ?_⟩⟩
      intro i hi
      obtain rfl := Nat.le_zero.1 hi
      exact ⟨request, _, hrefused h.metrics.allocFailures⟩
    · exact ⟨[], _, _, last ((hsame count).trans (hgranted count)), Nat.le_refl _,
        .inl ⟨rfl, rfl, (hsame h.metrics.allocFailures).trans hwrite⟩⟩
  | succ more ih =>
    obtain ⟨request, hrefused⟩ | hsame := h.write_withRefusals halive (allowance attempt) fragment
    · obtain ⟨failures, result, after, hrest, hle, hend⟩ := ih (attempt + 1) (count + 1)
      refine ⟨request :: failures, result, after, again (hrefused count) hrest,
        Nat.succ_le_succ hle, ?_⟩
      have hshift : ∀ i, attempt + 1 + i = attempt + (i + 1) := fun i => by omega
      obtain ⟨rfl, rfl, hlast⟩ | ⟨herror, hlength, rfl, hall⟩ := hend
      · rw [hshift] at hlast
        refine .inl ⟨rfl, ?_, hlast⟩
        rw [List.length_cons]
        congr 1
        omega
      · refine .inr ⟨herror, congrArg Nat.succ hlength, by congr 1; omega, ?_⟩
        intro i hi
        cases i with
        | zero => exact ⟨request, _, hrefused h.metrics.allocFailures⟩
        | succ i =>
          rw [← hshift]
          exact hall i (Nat.le_of_succ_le_succ hi)
    · exact ⟨[], _, _, last ((hsame count).trans (hgranted count)), Nat.zero_le _,
        .inl ⟨rfl, rfl, (hsame h.metrics.allocFailures).trans hwrite⟩⟩

end Attempts

/-! ### All fragments -/

/-- A fragment fails for want of memory, or the attempts come to a single write with memory for
everything. -/
theorem writeFrom_withRefusals (halive : h.poisoned = false) (allowance : Nat → Allowance)
    (fragment : Bytes) (attempt more count : Nat) :
    (∃ request after, writeFrom (h.withRefusals count) allowance fragment attempt more =
      .ok (.error (.alloc request), after)) ∨
    ∃ total, writeFrom (h.withRefusals count) allowance fragment attempt more =
      (h.withRefusals total).write none fragment := by
  induction more generalizing attempt count with
  | zero =>
    obtain ⟨request, hrefused⟩ | hsame := h.write_withRefusals halive (allowance attempt) fragment
    · exact .inl ⟨request, _, hrefused count⟩
    · exact .inr ⟨count, hsame count⟩
  | succ more ih =>
    rw [writeFrom]
    obtain ⟨request, hrefused⟩ | hsame := h.write_withRefusals halive (allowance attempt) fragment
    · rw [hrefused, Checked.ok_bind]
      exact ih (attempt + 1) (count + 1)
    · refine .inr ⟨count, ?_⟩
      rw [hsame]
      rcases hwrite : (h.withRefusals count).write none fragment with d | ⟨_ | outcome, next⟩
      · rfl
      · have hok := (History.oblivious_write fragment (h.withRefusals count) halive _ _ hwrite).1
        cases hok
      · rfl

theorem writeAll_cons {memory : Memory} {number : Nat}
    (hwrite : writeRetrying h (memory number) fragment = .ok (.ok outcome, next))
    (parts : List Bytes) :
    writeAll h memory number (fragment :: parts) = writeAll next memory (number + 1) parts := by
  rw [writeAll, hwrite]
  rfl

/-- A fragment fails, or the fragments do what they do with memory for everything, but for the count
of refusals. -/
theorem writeAll_retried (halive : h.poisoned = false) (memory : Memory) (number : Nat)
    (parts : List Bytes) (count : Nat) :
    (∃ length request, (writeAll (h.withRefusals count) memory number parts).run =
      .ok (.error ⟨.write length, .alloc request⟩)) ∨
    ∃ total, (writeAll (h.withRefusals count) memory number parts).run =
      (writeAll h .ample number parts).run.map (Except.map (·.withRefusals total)) := by
  induction parts generalizing h number count with
  | nil => exact .inr ⟨count, rfl⟩
  | cons fragment parts ih =>
    obtain ⟨request, after, hfailed⟩ | ⟨total, hsame⟩ :=
      writeFrom_withRefusals halive (memory number) fragment 0 retries count
    · refine .inl ⟨fragment.length, request, ?_⟩
      rw [writeAll, writeRetrying, hfailed]
      rfl
    · rw [History.write_none_withRefusals halive] at hsame
      rcases hwrite : h.write none fragment with d | ⟨_ | outcome, next⟩
      · rw [hwrite] at hsame
        refine .inr ⟨total, ?_⟩
        rw [writeAll, writeAll, writeRetrying, hsame, writeRetrying, retries, writeFrom,
          Memory.ample, hwrite]
        rfl
      · have hok := (History.oblivious_write fragment h halive _ _ hwrite).1
        cases hok
      · obtain ⟨-, hnext, -⟩ := History.oblivious_write fragment h halive _ _ hwrite
        rw [hwrite] at hsame
        rw [writeAll_cons hsame, writeAll_cons (writeRetrying_ample hwrite number)]
        exact ih hnext (number + 1) total

/-! ### The pass -/

/-- What a pass tells when its input is written. -/
def reportOn (c : Config) (input : Bytes) (written : History) : Step Report := do
  let stats ← during .stats written.stats
  let unterminated := stats.assembler.pendingBytes
  let (output, drained) ← readBack written c.readChunk
  let metrics ← during .counters drained.counters
  return {
    output
    completedInput := ← Word.sub input.length unterminated
    unterminated
    retained := stats.log.records
    metrics }

theorem performDrawing_eq_reportOn {σ : Type} (draw : Draw σ) (s : σ) (c : Config)
    (memory : Memory) (input : Bytes) :
    performDrawing draw s c memory input = (do
      let empty ← during .create (History.create c.history)
      let parts ← (fragments draw s c.maxFragment input : Checked (List Bytes))
      let written ← writeAll empty memory 0 parts
      reportOn c input written) := rfl

theorem Step.run_bind_ok {α β : Type} {x : Step α} {a : α} (h : x.run = .ok (.ok a))
    (f : α → Step β) : (x >>= f).run = (f a).run := by
  rw [ExceptT.run_bind, h]
  rfl

theorem mk_ok {α : Type} (a : α) : (ExceptT.mk (Except.ok (.ok a)) : Step α) = pure a := rfl

/-- A report tells the data retained, however it was read, and the numbers of a history. -/
theorem reportOn_eq (hs : h.Sound) (halive : h.poisoned = false) (c : Config) (input : Bytes) :
    (reportOn c input h).run = (do
      checkBlock c.readChunk
      let completedInput ← Word.sub input.length h.assembler.pending.length
      let pieces := Log.pieces h.log.toList c.readChunk 0
      return .ok ⟨pieces.flatten, completedInput, h.assembler.pending.length,
        h.log.toList.length, (h.counting (Transfer.drained c.readChunk pieces)).metrics⟩) := by
  have hdrain := Cursor.drain_eq hs halive c.readChunk 0
  rw [if_pos (by decide)] at hdrain
  generalize Log.pieces h.log.toList c.readChunk 0 = pieces at hdrain ⊢
  have hcounters : (h.counting (Transfer.drained c.readChunk pieces)).counters =
      .ok (.ok (h.counting (Transfer.drained c.readChunk pieces)).metrics) :=
    History.inspect_of_alive (by exact halive) _
  simp only [reportOn, readBack, Cursor.opened, hdrain, History.stats,
    History.inspect_of_alive halive, hs.holds.stats_eq]
  cases checkBlock c.readChunk with
  | error d => rfl
  | ok _ =>
    simp only [Checked.ok_bind, Checked.pure_eq_ok, during_ok, liftM_ok, mk_ok, pure_bind,
      hcounters]
    change _ = (Word.sub input.length h.assembler.stats.pendingBytes >>= _)
    cases Word.sub input.length h.assembler.stats.pendingBytes <;> rfl

/-- What was refused before shows in the counter of refusals, and nowhere else in a report. -/
theorem reportOn_withRefusals (hs : h.Sound) (halive : h.poisoned = false) (c : Config)
    (input : Bytes) (count : Nat) :
    (reportOn c input (h.withRefusals count)).run =
      (reportOn c input h).run.map (Except.map (·.withRefusals count)) := by
  have hs' : (h.withRefusals count).Sound := ⟨hs.holds, hs.fits⟩
  rw [reportOn_eq hs halive, reportOn_eq hs' halive]
  cases checkBlock c.readChunk with
  | error d => rfl
  | ok _ =>
    change (Word.sub input.length h.assembler.pending.length >>= _) =
      (Word.sub input.length h.assembler.pending.length >>= _).map _
    cases Word.sub input.length h.assembler.pending.length <;> rfl

/-- A fragment of a pass fails in all its attempts, or the pass does what it does with memory for
everything, but for the count of refusals. -/
theorem performDrawing_withRefusals {σ : Type} (draw : Draw σ) (start : σ) (c : Config)
    (memory : Memory) (input : Bytes) :
    (∃ length request, (performDrawing draw start c memory input).run =
      .ok (.error ⟨.write length, .alloc request⟩)) ∨
    ∃ total, (performDrawing draw start c memory input).run =
      (performDrawing draw start c .ample input).run.map (Except.map (·.withRefusals total)) := by
  rw [performDrawing_eq_reportOn, performDrawing_eq_reportOn]
  rcases hcreate : (during .create (History.create c.history)).run with d | e | empty
  · exact .inr ⟨0, by rw [ExceptT.run_bind, ExceptT.run_bind, hcreate]; rfl⟩
  · exact .inr ⟨0, by rw [ExceptT.run_bind, ExceptT.run_bind, hcreate]; rfl⟩
  rw [Step.run_bind_ok hcreate, Step.run_bind_ok hcreate]
  cases hparts : fragments draw start c.maxFragment input with
  | error d => exact .inr ⟨0, rfl⟩
  | ok parts =>
    simp only [liftM_ok, pure_bind]
    have hstart := History.Trails.of_create (during_eq_ok hcreate)
    have hall := writeAll_retried hstart.alive memory 0 parts empty.metrics.allocFailures
    rw [History.withRefusals_self] at hall
    obtain ⟨length, request, hfailed⟩ | ⟨total, hsame⟩ := hall
    · refine .inl ⟨length, request, ?_⟩
      rw [ExceptT.run_bind, hfailed]
      rfl
    · refine .inr ⟨total, ?_⟩
      rcases hwritten : (writeAll empty .ample 0 parts).run with d | e | written
      · rw [ExceptT.run_bind, ExceptT.run_bind, hsame, hwritten]
        rfl
      · rw [ExceptT.run_bind, ExceptT.run_bind, hsame, hwritten]
        rfl
      · rw [hwritten] at hsame
        have ht := trails_writeAll hstart hwritten
        rw [Step.run_bind_ok hsame, Step.run_bind_ok hwritten]
        exact reportOn_withRefusals ht.sound ht.alive c input total

/-! ### Once or not at all -/

/-- What comes of the attempts at a fragment: what those before the last one were refused, the
result of the last one, and the history after it. -/
structure Settled (h : History) (allowance : Nat → Allowance) (fragment : Bytes)
    (failures : List Nat) (result : Except HistoryError WriteOutcome) (after : History) : Prop where
  returns : writeRetrying h allowance fragment = .ok (result, after)
  attempts : Attempts allowance fragment 0 h failures result after
  attempts_le : failures.length + 1 ≤ 3
  /-- No allowance matters but those of the attempts made. -/
  unread : ∀ other : Nat → Allowance, (∀ i ≤ failures.length, other i = allowance i) →
    writeRetrying h other fragment = .ok (result, after)
  /-- A dead lock is met once. -/
  dead : h.poisoned = true → failures = [] ∧ result = .error .lockPoisoned ∧ after = h
  /-- The fragment is written if a single write under one of the allowances would do. -/
  isOk_iff : h.poisoned = false → (result.isOk = true ↔
    ∃ i < 3, ∃ outcome next, h.write (allowance i) fragment = .ok (.ok outcome, next))
  /-- It is written once. -/
  once : h.poisoned = false → ∀ outcome, result = .ok outcome → ∃ next,
    h.write (allowance failures.length) fragment = .ok (.ok outcome, next) ∧
    after = { next with metrics := { next.metrics with
      allocFailures := next.metrics.allocFailures + failures.length } }
  /-- Or it is not written. -/
  never : h.poisoned = false → ∀ e, result = .error e →
    (∃ request, e = .alloc request) ∧ failures.length = 2 ∧
    after = { h with metrics := { h.metrics with
      allocFailures := h.metrics.allocFailures + 3 } }

/-- A dead lock refuses the first attempt, and no other is made. -/
theorem settled_of_dead (hdead : h.poisoned = true) (allowance : Nat → Allowance)
    (fragment : Bytes) : Settled h allowance fragment [] (.error .lockPoisoned) h := by
  have hwrite : ∀ allowance : Allowance, h.write allowance fragment =
      .ok (.error .lockPoisoned, h) := fun _ => History.change_of_dead hdead _
  have hreturns : ∀ other : Nat → Allowance,
      writeRetrying h other fragment = .ok (.error .lockPoisoned, h) := by
    intro other
    rw [writeRetrying, retries, writeFrom, hwrite]
    rfl
  have halive : ¬h.poisoned = false := by simp [hdead]
  exact {
    returns := hreturns allowance
    attempts := .last (hwrite _)
    attempts_le := by decide
    unread := fun other _ => hreturns other
    dead := fun _ => ⟨rfl, rfl, rfl⟩
    isOk_iff := fun h => absurd h halive
    once := fun h => absurd h halive
    never := fun h => absurd h halive }

/-- A fragment that a single write would take in is settled. -/
theorem exists_settled_of_write (halive : h.poisoned = false)
    (hwrite : h.write none fragment = .ok (.ok outcome, next)) (allowance : Nat → Allowance) :
    ∃ failures result after, Settled h allowance fragment failures result after := by
  obtain ⟨failures, result, after, hattempts, hle, hend⟩ := Attempts.exists_of_write halive hwrite
    allowance 0 retries h.metrics.allocFailures
  simp only [Nat.zero_add] at hend
  have hsettles : failures.length = retries ∨ ∀ e, result = .error e → e.retryable = false := by
    obtain ⟨rfl, -⟩ | ⟨-, hall, -⟩ := hend
    · refine .inr fun e herror => ?_
      cases herror
    · exact .inl hall
  refine ⟨failures, result, after, hattempts.writeFrom_eq hle hsettles, hattempts,
    Nat.succ_le_succ hle, ?_, fun hdead => ?_, fun _ => ?_, ?_, ?_⟩
  · intro other hother
    have hsame : ∀ i ≤ failures.length, other (0 + i) = allowance (0 + i) := by
      simpa only [Nat.zero_add] using hother
    exact (hattempts.congr hsame).writeFrom_eq hle hsettles
  · rw [halive] at hdead
    cases hdead
  · obtain ⟨rfl, -, hlast⟩ | ⟨⟨request, rfl⟩, -, -, hall⟩ := hend
    · exact iff_of_true rfl ⟨failures.length, Nat.lt_succ_of_le hle, outcome, next, hlast⟩
    · refine iff_of_false Bool.false_ne_true ?_
      rintro ⟨i, hi, outcome', next', hgranted⟩
      obtain ⟨request', refused, hrefused⟩ := hall i (Nat.le_of_lt_succ hi)
      cases hgranted.symm.trans hrefused
  · rintro - outcome' rfl
    obtain ⟨hsame, rfl, hlast⟩ | ⟨⟨request, hfailed⟩, -⟩ := hend
    · cases hsame
      refine ⟨next, hlast, ?_⟩
      rw [History.allocFailures_of_write_none halive hwrite]
      rfl
    · cases hfailed
  · rintro - e rfl
    obtain ⟨hsame, -⟩ | ⟨⟨request, hfailed⟩, hall, rfl, -⟩ := hend
    · cases hsame
    · cases hfailed
      exact ⟨⟨request, rfl⟩, hall, rfl⟩

/-- A fragment that fits is settled in three attempts. -/
theorem exists_settled (hs : h.Sound) (fits : h.held + fragment.length < wordCount)
    (allowance : Nat → Allowance) :
    ∃ failures result after, Settled h allowance fragment failures result after := by
  obtain hdead | halive := Bool.eq_false_or_eq_true h.poisoned
  · exact ⟨_, _, _, settled_of_dead hdead allowance fragment⟩
  · have hintake := h.assembler.intake_le (.write none fragment)
    obtain ⟨single, next, hwrite⟩ : ∃ single next, h.write none fragment = .ok (single, next) :=
      History.write_returns hs fun _ => (Nat.add_le_add_left hintake _).trans_lt fits
    have hok := (History.oblivious_write fragment h halive _ _ hwrite).1
    cases single with
    | error e => cases hok
    | ok outcome => exact exists_settled_of_write halive hwrite allowance

/-- Whatever was done to a history, a fragment that fits is written once or not at all in three
attempts at most, whichever of them are refused memory. Hence a pass in which no fragment fails in
all its attempts does what it does with memory for everything, whatever source the lengths of the
fragments are drawn from (`Pass.perform` draws them from the generator of the seed); if that
returns, so does the pass, with the same output, the same numbers and the same counters but for that
of the refusals. -/
theorem writeRetrying_settles :
    (∀ {s : Settings} {h : History} {calls : List Call} {replies : List Reply} {d : Desk},
      History.create s = .ok (.ok h) →
      (Desk.ofHistory h).performAll calls = .ok (replies, d) →
      ∀ (allowance : Nat → Allowance) (fragment : Bytes),
        d.history.held + fragment.length < wordCount →
        ∃ failures result after,
          Settled d.history allowance fragment failures result after) ∧
    ∀ {σ : Type} (draw : Draw σ) (start : σ) (c : Config) (memory : Memory) (input : Bytes),
      (∀ length e, (performDrawing draw start c memory input).run ≠
        .ok (.error ⟨.write length, e⟩)) →
      (∃ count, (performDrawing draw start c memory input).run =
        (performDrawing draw start c .ample input).run.map (Except.map (·.withRefusals count))) ∧
      (c.Feasible → input.length < wordCount →
        ∃ report full, (performDrawing draw start c memory input).run = .ok (.ok report) ∧
          (performDrawing draw start c .ample input).run = .ok (.ok full) ∧
          report.output = full.output ∧ report.completedInput = full.completedInput ∧
          report.unterminated = full.unterminated ∧ report.retained = full.retained ∧
          report = full.withRefusals report.metrics.allocFailures) := by
  constructor
  · intro s h calls replies d hnew hrun allowance fragment hfits
    obtain ⟨entries, hruns, -, -⟩ := Desk.performAll_eq_ok_iff.1 hrun
    exact exists_settled (hruns.sound (History.create_sound hnew).1) hfits allowance
  · intro σ draw start c memory input hspared
    obtain ⟨length, request, hfailed⟩ | ⟨count, hsame⟩ :=
      performDrawing_withRefusals draw start c memory input
    · exact absurd hfailed (hspared length _)
    · refine ⟨⟨count, hsame⟩, fun hc hinput => ?_⟩
      obtain ⟨parts, metrics, -, hfull⟩ := performDrawing_agrees draw start hc hinput
      rw [hfull] at hsame
      exact ⟨_, _, hsame, hfull, rfl, rfl, rfl, rfl, rfl⟩

/-- A line that is pending is ended at the third attempt, and dropped by nobody when all three are
refused. A pass whose second fragment needs all three attempts reads back both lines. -/
theorem writeRetrying_settles_refused :
    let s : Settings := ⟨2, 10, .split⟩
    let memory : Memory := fun number attempt => if attempt < 2 * number then some 0 else none
    let c : Config := ⟨none, [], s, 42, 2, 2, 0, false, false, false⟩
    let draw : Draw Unit := fun longest _ s => (longest, s)
    History.create s = .ok (.ok (.ofLog s (Log.vacant 2))) ∧
    (∃ d failures after refused unchanged,
      (Desk.ofHistory (.ofLog s (Log.vacant 2))).performAll [.write none [97]] =
        .ok ([.written (.ok ⟨1, 0, 0⟩)], d) ∧
      Settled d.history (memory 1) [98, 10] failures (.ok ⟨2, 1, 0⟩) after ∧
      after.log.records = .ok [.ofBytes [97, 98, 10]] ∧ after.metrics.allocFailures = 2 ∧
      Settled d.history (fun _ => some 0) [98, 10] refused (.error (.alloc 1)) unchanged ∧
      unchanged.assembler = d.history.assembler ∧ unchanged.metrics.allocFailures = 3) ∧
    ∃ report full, (performDrawing draw () c memory [97, 10, 98, 10]).run = .ok (.ok report) ∧
      (performDrawing draw () c .ample [97, 10, 98, 10]).run = .ok (.ok full) ∧
      report.output = [97, 10, 98, 10] ∧ full.output = [97, 10, 98, 10] ∧
      report.metrics.allocFailures = 2 := by
  intro s memory c draw
  have hnew : History.create s = .ok (.ok (.ofLog s (Log.vacant 2))) := rfl
  obtain ⟨hfragment, hpass⟩ := writeRetrying_settles
  refine ⟨hnew, ?_, ?_⟩
  · obtain ⟨d, hrun, hheld, after, hdone, hrecords, hcount, last, hrefused, hkept, hcounted⟩ : ∃ d,
        (Desk.ofHistory (.ofLog s (Log.vacant 2))).performAll [.write none [97]] =
          .ok ([.written (.ok ⟨1, 0, 0⟩)], d) ∧
        d.history.held = 1 ∧
        ∃ after, writeRetrying d.history (memory 1) [98, 10] = .ok (.ok ⟨2, 1, 0⟩, after) ∧
          after.log.records = .ok [.ofBytes [97, 98, 10]] ∧ after.metrics.allocFailures = 2 ∧
          ∃ last, writeRetrying d.history (fun _ => some 0) [98, 10] =
              .ok (.error (.alloc 1), last) ∧
            last.assembler = d.history.assembler ∧ last.metrics.allocFailures = 3 :=
      ⟨_, rfl, by decide +kernel, _, rfl, by decide +kernel, rfl, _, rfl, rfl, rfl⟩
    have hfits : d.history.held + [(98 : UInt8), 10].length < wordCount := by
      rw [hheld]
      decide
    obtain ⟨failures, result, next, hsettled⟩ := hfragment hnew hrun (memory 1) [98, 10] hfits
    cases hsettled.returns.symm.trans hdone
    obtain ⟨refused, result', next', hsettled'⟩ :=
      hfragment hnew hrun (fun _ => some 0) [98, 10] hfits
    cases hsettled'.returns.symm.trans hrefused
    exact ⟨d, failures, after, refused, last, hrun, hsettled, hrecords, hcount, hsettled', hkept,
      hcounted⟩
  · have hparts : fragments draw () c.maxFragment [97, 10, 98, 10] =
        .ok [[97, 10], [98, 10]] := by
      simp [fragments, fragmentsFrom, draw, c]
    have hrun : (performDrawing draw () c memory [97, 10, 98, 10]).run =
        .ok (.ok ⟨[97, 10, 98, 10], 4, 0, 2, ⟨2, 4, 2, 2, 0, 0, 0, 3, 4, 1, none⟩⟩) := by
      rw [performDrawing_eq_reportOn, hparts]
      decide +kernel
    have hc : c.Feasible := ⟨by decide, by decide, by decide, by decide, by decide⟩
    obtain ⟨-, hsame⟩ := hpass draw () c memory [97, 10, 98, 10] fun length e hfailed => by
      cases hrun.symm.trans hfailed
    obtain ⟨report, full, hreport, hfull, houtput, -⟩ := hsame hc (by decide)
    cases hreport.symm.trans hrun
    exact ⟨_, full, hrun, hfull, rfl, houtput.symm, rfl⟩

end Pass

end Scrollback
