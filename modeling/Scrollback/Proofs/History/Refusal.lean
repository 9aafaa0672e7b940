import Scrollback.Proofs.History.Reference
/-!
# Refused memory

Each write runs under an allowance of its own and may be refused. `Assembler.feed_eq` already says
that a refusal is for want of memory and leaves the assembler as it was, so a history changes in the
count of refusals only. Hence a run in which some writes are refused is the run of the other calls
under no allowance: the same replies, the same history up to that count.

`served` picks these other calls out of a run by what came back from each.
-/

namespace Scrollback

/-- The calls of a run that were not refused. -/
def served {α β : Type} (refused : β → Bool) (calls : List α) (results : List β) : List α :=
  ((calls.zip results).filter fun pair => !refused pair.2).map Prod.fst

theorem served_cons {α β : Type} (refused : β → Bool) (call : α) (calls : List α) (result : β)
    (results : List β) :
    served refused (call :: calls) (result :: results) =
      if refused result then served refused calls results
      else call :: served refused calls results := by
  cases h : refused result <;> simp [served, h]

/-! ### Fragments -/

namespace Assembler

/-- A fragment can only be refused for want of memory, and then nothing has changed. -/
theorem feed_eq_error {a next : Assembler} {allowance : Allowance} {fragment : Bytes}
    {e : HistoryError} (h : a.feed allowance fragment = (.error e, next)) :
    (∃ n, e = .alloc n) ∧ next = a := by
  rw [feed_eq] at h
  cases hrequest : request allowance (a.demands fragment) with
  | error e' =>
    simp only [hrequest, Prod.mk.injEq, Except.error.injEq] at h
    obtain ⟨rfl, rfl⟩ := h
    exact ⟨request_eq_error hrequest, rfl⟩
  | ok _ => simp [hrequest] at h

/-- A fragment that is taken in does what it does under no allowance. -/
theorem feed_eq_ok {a next : Assembler} {allowance : Allowance} {fragment : Bytes}
    {assembly : Assembly} (h : a.feed allowance fragment = (.ok assembly, next)) :
    a.feed none fragment = (.ok assembly, next) := by
  rw [feed_eq] at h
  cases hrequest : request allowance (a.demands fragment) with
  | error e => simp [hrequest] at h
  | ok _ =>
    rw [hrequest] at h
    rwa [feed_none]

def isRefused (result : Except HistoryError Assembly) : Bool :=
  !result.isOk

/-- The fragments that were not refused, fed under no allowance, give the same results and the same
assembler. -/
theorem feedAll_served (a : Assembler) (calls : List (Allowance × Bytes)) :
    a.feedAll ((served isRefused calls (a.feedAll calls).1).map fun call => (none, call.2)) =
      ((a.feedAll calls).1.filter (!isRefused ·), (a.feedAll calls).2) := by
  induction calls generalizing a with
  | nil => rfl
  | cons call calls ih =>
    obtain ⟨allowance, fragment⟩ := call
    rw [feedAll]
    rcases hfeed : a.feed allowance fragment with ⟨result, next⟩
    cases result with
    | error e =>
      obtain ⟨-, rfl⟩ := feed_eq_error hfeed
      simp only [served_cons]
      exact ih next
    | ok assembly =>
      have hrest := ih next
      simp only [served_cons]
      change feedAll a ((none, fragment) :: _) = _
      rw [feedAll, feed_eq_ok hfeed]
      simp only [hrest]
      rfl

end Assembler

/-! ### Histories -/

def Reply.isRefused : Reply → Bool
  | written result => !result.isOk
  | discarded result => !result.isOk
  | released result => !result.isOk
  | _ => false

def Metrics.withRefusals (m : Metrics) (count : Nat) : Metrics :=
  { m with allocFailures := count }

def History.withRefusals (h : History) (count : Nat) : History :=
  { h with metrics := h.metrics.withRefusals count }

namespace Desk

/-- A call that changes what is retained or pending. -/
inductive Step where
  | write (allowance : Allowance) (fragment : Bytes)
  | discard
  | teardown
  deriving DecidableEq, Repr

namespace Step

def call : Step → Call
  | write allowance fragment => .write allowance fragment
  | discard => .discard
  | teardown => .teardown

/-- The same under no allowance. -/
def operation : Step → Reference.Operation
  | write _ fragment => .write fragment
  | discard => .discard
  | teardown => .teardown

end Step

def refusals (d : Desk) : Nat :=
  d.history.metrics.allocFailures

/-- A desk with another count of refused writes. -/
def withRefusals (d : Desk) (count : Nat) : Desk :=
  { d with history := d.history.withRefusals count }

@[simp] theorem withRefusals_refusals (d : Desk) : d.withRefusals d.refusals = d := rfl

@[simp] theorem refusals_withRefusals (d : Desk) (count : Nat) :
    (d.withRefusals count).refusals = count := rfl

end Desk

namespace History

theorem withRefusals_self (h : History) : h.withRefusals h.metrics.allocFailures = h := rfl

/-- A write is refused for want of memory, with one refusal more to count, or does what it does
under no allowance; which of both does not depend on the refusals before. -/
theorem write_withRefusals {h : History} (halive : h.poisoned = false) (allowance : Allowance)
    (fragment : Bytes) :
    (∃ request, ∀ count, (h.withRefusals count).write allowance fragment =
      .ok (.error (.alloc request), h.withRefusals (count + 1))) ∨
    ∀ count, (h.withRefusals count).write allowance fragment =
      (h.withRefusals count).write none fragment := by
  have halive' : ∀ count, (h.withRefusals count).poisoned = false := fun _ => halive
  rcases hfeed : h.assembler.feed allowance fragment with ⟨e | assembly, final⟩
  · obtain ⟨⟨request, rfl⟩, rfl⟩ := Assembler.feed_eq_error hfeed
    refine .inl ⟨request, fun count => ?_⟩
    rw [write, change_of_alive (halive' count)]
    simp only [withRefusals, hfeed]
    rfl
  · refine .inr fun count => ?_
    rw [write, write, change_of_alive (halive' count), change_of_alive (halive' count)]
    simp only [withRefusals, hfeed, Assembler.feed_eq_ok hfeed]

theorem write_eq {h : History} (hlock : h.poisoned = false) (allowance : Allowance)
    (fragment : Bytes) :
    (∃ n, h.write allowance fragment =
      .ok (.error (.alloc n), h.withRefusals (h.metrics.allocFailures + 1))) ∨
    h.write allowance fragment = h.write none fragment := by
  obtain ⟨request, hrefused⟩ | hsame := write_withRefusals hlock allowance fragment
  · exact .inl ⟨request, hrefused h.metrics.allocFailures⟩
  · exact .inr (hsame h.metrics.allocFailures)

/-- Under no allowance, the count of refusals goes along unread. -/
theorem write_none_withRefusals {h : History} (halive : h.poisoned = false)
    (fragment : Bytes) (count : Nat) :
    (h.withRefusals count).write none fragment =
      (h.write none fragment).map fun out => (out.1, out.2.withRefusals count) := by
  rw [write, write, change_of_alive halive, change_of_alive (by exact halive)]
  simp only [withRefusals, Assembler.feed_none]
  cases h.log.retain 0 0 (h.assembler.accept fragment).1.records <;> rfl

/-- An operation that is not refused while its lock is alive, and for which the count of refused
writes goes along unread. -/
def Oblivious {α : Type} (act : History → Checked (Except HistoryError α × History)) : Prop :=
  ∀ (h : History), h.poisoned = false → ∀ result next, act h = .ok (result, next) →
    result.isOk = true ∧ next.poisoned = false ∧
      ∀ count, act (h.withRefusals count) = .ok (result, next.withRefusals count)

theorem countDiscard_withRefusals (m : Metrics) (count dropped : Nat) :
    countDiscard (m.withRefusals count) dropped = (countDiscard m dropped).withRefusals count := by
  unfold countDiscard
  split <;> rfl

theorem oblivious_write (fragment : Bytes) : Oblivious (·.write none fragment) := by
  intro h hlock result next hact
  have hwrite : h.write none fragment = .ok (result, next) := hact
  have hsame : ∀ count, (h.withRefusals count).write none fragment =
      .ok (result, next.withRefusals count) := by
    intro count
    rw [write_none_withRefusals hlock, hwrite]
    rfl
  rw [write, change_of_alive hlock, Assembler.feed_none] at hwrite
  obtain ⟨⟨log, evicted, evictedBytes⟩, -, hout⟩ := Checked.bind_eq_ok.1 hwrite
  cases hout
  exact ⟨rfl, hlock, hsame⟩

theorem oblivious_discard : Oblivious discard := by
  intro h hlock result next hact
  have hlock' : ∀ count, (h.withRefusals count).poisoned = false := fun _ => hlock
  simp only [discard, change_of_alive hlock] at hact
  cases hact
  refine ⟨rfl, hlock, fun count => ?_⟩
  simp only [discard, change_of_alive (hlock' count)]
  simp only [withRefusals, countDiscard_withRefusals]
  rfl

theorem oblivious_teardown : Oblivious teardown := by
  intro h hlock result next hact
  have hlock' : ∀ count, (h.withRefusals count).poisoned = false := fun _ => hlock
  simp only [teardown, change_of_alive hlock] at hact
  obtain ⟨⟨released, log⟩, hteardown, hout⟩ := Checked.bind_eq_ok.1 hact
  cases hout
  refine ⟨rfl, hlock, fun count => ?_⟩
  simp only [teardown, change_of_alive (hlock' count)]
  simp only [withRefusals, hteardown, countDiscard_withRefusals]
  rfl

end History

namespace Desk

/-- A desk serves an oblivious operation as the history does. -/
theorem serve_oblivious {α : Type} {act : History → Checked (Except HistoryError α × History)}
    (hact : History.Oblivious act) {give : Except HistoryError α → Reply}
    (hgive : ∀ result, (give result).isRefused = !result.isOk) {d next : Desk} {reply : Reply}
    (hlock : d.history.poisoned = false)
    (h : (act d.history >>= fun out => .ok (give out.1, { d with history := out.2 })) =
      .ok (reply, next)) :
    reply.isRefused = false ∧ next.history.poisoned = false ∧
      ∀ count, (act (d.history.withRefusals count) >>= fun out =>
          .ok (give out.1, { d with history := out.2 })) =
        .ok (reply, next.withRefusals count) := by
  obtain ⟨⟨result, after⟩, hdone, hout⟩ := Checked.bind_eq_ok.1 h
  cases hout
  obtain ⟨hok, hafter, hcount⟩ := hact _ hlock _ _ hdone
  refine ⟨by simp [hgive, hok], hafter, fun count => ?_⟩
  exact Checked.bind_eq_ok.2 ⟨_, hcount count, rfl⟩

/-- Under no allowance nothing is refused, and the count of refusals goes along unread. -/
theorem perform_operation {d : Desk} (hlock : d.history.poisoned = false) (step : Step)
    {reply : Reply} {next : Desk} (h : d.perform step.operation.call = .ok (reply, next)) :
    reply.isRefused = false ∧ next.history.poisoned = false ∧
      ∀ count, (d.withRefusals count).perform step.operation.call =
        .ok (reply, next.withRefusals count) := by
  cases step with
  | write allowance fragment =>
    exact serve_oblivious (History.oblivious_write fragment) (fun _ => rfl) hlock h
  | discard => exact serve_oblivious History.oblivious_discard (fun _ => rfl) hlock h
  | teardown => exact serve_oblivious History.oblivious_teardown (fun _ => rfl) hlock h

/-- A step is refused or does what it does under no allowance. -/
theorem perform_step {d : Desk} (hlock : d.history.poisoned = false) (step : Step) :
    (∃ n, d.perform step.call =
      .ok (.written (.error (.alloc n)), d.withRefusals (d.refusals + 1))) ∨
    d.perform step.call = d.perform step.operation.call := by
  cases step with
  | write allowance fragment =>
    obtain ⟨n, hrefused⟩ | hsame := History.write_eq hlock allowance fragment
    · left
      exact ⟨n, Checked.bind_eq_ok.2 ⟨_, hrefused, rfl⟩⟩
    · right
      simp only [perform, Step.call, Step.operation, Reference.Operation.call, hsame]
  | discard => exact .inr rfl
  | teardown => exact .inr rfl

/-- In one step, too, a refusal is for want of memory and leaves no trace but its count. -/
theorem perform_refused {d : Desk} (hlock : d.history.poisoned = false) {step : Step}
    {reply : Reply} {next : Desk} (h : d.perform step.call = .ok (reply, next))
    (hrefused : reply.isRefused = true) :
    (∃ n, reply = .written (.error (.alloc n))) ∧ next = d.withRefusals (d.refusals + 1) := by
  obtain ⟨n, hstep⟩ | hstep := perform_step hlock step
  · rw [hstep] at h
    cases h
    exact ⟨⟨n, rfl⟩, rfl⟩
  · rw [hstep] at h
    have hserved := (perform_operation hlock step h).1
    simp [hserved] at hrefused

/-- The steps of a run that were not refused give the same replies and the same desk under no
allowance, whatever count they start with. -/
theorem performAll_served {d last : Desk} {steps : List Step} {replies : List Reply}
    (hlock : d.history.poisoned = false)
    (hrun : d.performAll (steps.map Step.call) = .ok (replies, last)) :
    last.history.poisoned = false ∧
    last.refusals = d.refusals + replies.countP Reply.isRefused ∧
    ∀ count, (d.withRefusals count).performAll
        ((served Reply.isRefused steps replies).map fun step => step.operation.call) =
      .ok (replies.filter (!·.isRefused), last.withRefusals count) := by
  induction steps generalizing d replies with
  | nil =>
    cases hrun
    exact ⟨hlock, rfl, fun count => rfl⟩
  | cons step steps ih =>
    rw [List.map_cons, performAll] at hrun
    obtain ⟨⟨reply, next⟩, hstep, hrun⟩ := Checked.bind_eq_ok.1 hrun
    obtain ⟨⟨rest, final⟩, hrest, hout⟩ := Checked.bind_eq_ok.1 hrun
    cases hout
    cases hrefused : reply.isRefused with
    | true =>
      -- The rest starts at the same desk but for the count, which it does not read.
      obtain ⟨-, rfl⟩ := perform_refused hlock hstep hrefused
      obtain ⟨halive, hcount, hserved⟩ := ih (by exact hlock) hrest
      refine ⟨halive, ?_, fun count => ?_⟩
      · rw [hcount, List.countP_cons_of_pos hrefused, refusals_withRefusals]
        omega
      · rw [served_cons, if_pos hrefused, List.filter_cons_of_neg (by simp [hrefused])]
        exact hserved count
    | false =>
      have hsame : d.perform step.operation.call = .ok (reply, next) := by
        obtain ⟨n, hstep'⟩ | hstep' := perform_step hlock step
        · rw [hstep'] at hstep
          cases hstep
          simp [Reply.isRefused, Except.isOk, Except.toBool] at hrefused
        · rw [← hstep', hstep]
      obtain ⟨-, hnext, hperform⟩ := perform_operation hlock step hsame
      obtain ⟨halive, hcount, hserved⟩ := ih hnext hrest
      -- To give the desk its own count changes nothing, so the step gives the next desk its own.
      have hkept : next.refusals = d.refusals := by
        have hself := hperform d.refusals
        rw [withRefusals_refusals, hsame] at hself
        have heq : next = next.withRefusals d.refusals := by simpa using hself
        rw [heq, refusals_withRefusals]
      refine ⟨halive, ?_, fun count => ?_⟩
      · rw [hcount, List.countP_cons_of_neg (by simp [hrefused]), hkept]
      · rw [served_cons, if_neg (by simp [hrefused]), List.filter_cons_of_pos (by simp [hrefused]),
          List.map_cons, performAll, hperform count, Checked.ok_bind]
        simp only [hserved count, Checked.ok_bind, Checked.pure_eq_ok]

/-- A run returns if the bytes of all its writes are counted by a machine word. -/
theorem performAll_returns {s : Settings} {d : Desk} {m : Reference}
    (hm : d.history.Agrees s m) (steps : List Step)
    (fits : m.appended + (steps.map fun step => step.operation.written).sum < wordCount) :
    ∃ out, d.performAll (steps.map Step.call) = .ok out := by
  induction steps generalizing d m with
  | nil => exact ⟨_, rfl⟩
  | cons step steps ih =>
    rw [List.map_cons, List.sum_cons] at fits
    obtain ⟨n, hstep⟩ | hstep := perform_step hm.poisoned_eq step
    · have hafter : (d.withRefusals (d.refusals + 1)).history.Agrees s m := { hm with }
      obtain ⟨out, hrest⟩ := ih hafter (by omega)
      exact ⟨_, Checked.bind_eq_ok.2 ⟨_, hstep, Checked.bind_eq_ok.2 ⟨_, hrest, rfl⟩⟩⟩
    · obtain ⟨next, hperform, hnext⟩ := hm.perform_eq d.cursors step.operation (by omega)
      obtain ⟨out, hrest⟩ := ih (d := ⟨next, d.cursors⟩) hnext
        (by rw [Reference.serve_appended]; omega)
      rw [hperform] at hstep
      exact ⟨_, Checked.bind_eq_ok.2 ⟨_, hstep, Checked.bind_eq_ok.2 ⟨_, hrest, rfl⟩⟩⟩

end Desk

/-- Refusals leave no trace. After any run of fragments or of steps, the next refusal changes its
count at most, and the calls that were not refused are a run of their own under no allowance. -/
theorem refusals_leave_no_trace :
    (∀ (a : Assembler) (calls : List (Allowance × Bytes)),
      (∀ allowance fragment e next, (a.feedAll calls).2.feed allowance fragment = (.error e, next) →
        (∃ n, e = .alloc n) ∧ next = (a.feedAll calls).2) ∧
      a.feedAll ((served Assembler.isRefused calls (a.feedAll calls).1).map
          fun call => (none, call.2)) =
        ((a.feedAll calls).1.filter (!Assembler.isRefused ·), (a.feedAll calls).2)) ∧
    ∀ (s : Settings) (h : History), History.create s = .ok (.ok h) → ∀ steps : List Desk.Step,
      ((steps.map fun step => step.operation.written).sum < wordCount →
        ∃ out, (Desk.ofHistory h).performAll (steps.map Desk.Step.call) = .ok out) ∧
      ∀ replies last,
        (Desk.ofHistory h).performAll (steps.map Desk.Step.call) = .ok (replies, last) →
        (∀ (step : Desk.Step) reply next, last.perform step.call = .ok (reply, next) →
          reply.isRefused = true →
            (∃ n, reply = .written (.error (.alloc n))) ∧
              next = last.withRefusals (last.refusals + 1)) ∧
        last.refusals = replies.countP Reply.isRefused ∧
        (Desk.ofHistory h).performAll
            ((served Reply.isRefused steps replies).map fun step => step.operation.call) =
          .ok (replies.filter (!·.isRefused), last.withRefusals 0) := by
  refine ⟨fun a calls => ⟨fun allowance fragment e next hfeed => Assembler.feed_eq_error hfeed,
    a.feedAll_served calls⟩, fun s h hnew steps => ?_⟩
  have hm := History.create_agrees hnew
  obtain ⟨made, hmade, hlog⟩ := Checked.bind_eq_ok.1 hnew
  have hzero : (Desk.ofHistory h).refusals = 0 := by
    cases made with
    | error e => cases hlog
    | ok log =>
      cases hlog
      rfl
  refine ⟨fun fits => Desk.performAll_returns (d := .ofHistory h) hm steps
    (by rwa [Reference.fresh, Nat.zero_add]), fun replies last hrun => ?_⟩
  obtain ⟨halive, hcount, hserved⟩ := Desk.performAll_served (d := .ofHistory h) hm.poisoned_eq hrun
  refine ⟨fun step reply next hstep hrefused => Desk.perform_refused halive hstep hrefused, ?_, ?_⟩
  · rw [hcount, hzero, Nat.zero_add]
  · have hfree := hserved 0
    rwa [← hzero, Desk.withRefusals_refusals, hzero] at hfree

/-- Two fragments are refused and fed again with more memory; so are two writes, before a teardown
and one more refusal. -/
theorem refusals_leave_no_trace_retried :
    (∃ last, (Assembler.fresh 10 .split).feedAll
          [(some 7, [97]), (none, [97]), (some 23, [98, 10]), (some 24, [98, 10])] =
        ([.error (.alloc 1), .ok .incomplete, .error (.alloc 1),
          .ok (.complete [.ofBytes [97, 98, 10]])], last) ∧
      (Assembler.fresh 10 .split).feedAll [(none, [97]), (none, [98, 10])] =
        ([.ok .incomplete, .ok (.complete [.ofBytes [97, 98, 10]])], last) ∧
      last.feed (some 0) [99] = (.error (.alloc 1), last)) ∧
    ∃ last, (Desk.ofHistory (.ofLog ⟨2, 10, .split⟩ (Log.vacant 2))).performAll
        [.write (some 7) [97], .write none [97], .write (some 23) [98, 10],
          .write (some 24) [98, 10], .teardown] =
      .ok ([.written (.error (.alloc 1)), .written (.ok ⟨1, 0, 0⟩), .written (.error (.alloc 1)),
        .written (.ok ⟨2, 1, 0⟩), .released (.ok [.ofBytes [97, 98, 10]])], last) ∧
      last.refusals = 2 ∧
      (Desk.ofHistory (.ofLog ⟨2, 10, .split⟩ (Log.vacant 2))).performAll
          [.write none [97], .write none [98, 10], .teardown] =
        .ok ([.written (.ok ⟨1, 0, 0⟩), .written (.ok ⟨2, 1, 0⟩),
          .released (.ok [.ofBytes [97, 98, 10]])], last.withRefusals 0) ∧
      last.perform (.write (some 0) [99]) =
        .ok (.written (.error (.alloc 1)), last.withRefusals 3) := by
  obtain ⟨hassembler, hdesk⟩ := refusals_leave_no_trace
  obtain ⟨hfed, hserved⟩ := hassembler (.fresh 10 .split)
    [(some 7, [97]), (none, [97]), (some 23, [98, 10]), (some 24, [98, 10])]
  obtain ⟨-, hsame⟩ := hfed (some 0) [99] (.alloc 1) _ rfl
  have hrun : (Desk.ofHistory (.ofLog ⟨2, 10, .split⟩ (Log.vacant 2))).performAll
      [.write (some 7) [97], .write none [97], .write (some 23) [98, 10],
        .write (some 24) [98, 10], .teardown] =
      .ok ([.written (.error (.alloc 1)), .written (.ok ⟨1, 0, 0⟩), .written (.error (.alloc 1)),
        .written (.ok ⟨2, 1, 0⟩), .released (.ok [.ofBytes [97, 98, 10]])],
        ⟨⟨⟨2, 10, .split⟩, ⟨10, .split, .empty, 0, 1, 3⟩, ⟨#[none, none], 0, 0, false, 0⟩,
          { Metrics.fresh with
            fragmentsWritten := 2
            bytesWritten := 3
            allocFailures := 2
            recordsCompleted := 1 }, false⟩, []⟩) := rfl
  obtain ⟨hnext, hcount, hfree⟩ := (hdesk ⟨2, 10, .split⟩ _ rfl
    [.write (some 7) [97], .write none [97], .write (some 23) [98, 10], .write (some 24) [98, 10],
      .teardown]).2 _ _ hrun
  obtain ⟨-, hmore⟩ := hnext (.write (some 0) [99]) (.written (.error (.alloc 1))) _ rfl rfl
  refine ⟨⟨_, rfl, hserved, ?_⟩, _, hrun, hcount, hfree, ?_⟩
  · exact Prod.ext rfl hsame
  · exact congrArg (fun next => Except.ok (Reply.written (.error (.alloc 1)), next)) hmore

end Scrollback
