import Scrollback.Proofs.Banner
import Scrollback.Proofs.Host
import Scrollback.Proofs.Pass.Verification
import Scrollback.Proofs.World
/-!
# What a session writes where

A session prints its configuration, stores its output and prints its counters, and it logs events.
Where that goes is seen in the machine of any lawful host, before the session and after it.

Each part of a session is looked at on its own: how it comes to a result (`Session.outcome`), and
what the streams are given on the way (`Host.View.Emits`). Put together, there are two cases. Without
a report, because the input cannot be loaded or the pass does not return, the session ends after its
configuration, and nothing of the history has been written. With one, the output goes to standard
output alone, or what is printed goes there and the output to where its path leads
(`Session.execute_unmixed`).

What is logged goes to standard error. How much that is depends on a switch, as what is printed
does, but nothing else depends on these switches.

A path can lead to a device instead of a file, or to standard output
(`Session.execute_mixed_at_devices`).
-/

namespace Scrollback

open Host (View)

namespace Config

/-- What is printed of a configuration, if it is to be printed. -/
def opening (c : Config) : Bytes :=
  if c.printConfig then c.bannerBytes else []

/-- What is printed of the counters, if they are to be printed. -/
def closing (c : Config) (metrics : Metrics) : Bytes :=
  if c.printMetrics then Session.bytesOf (metrics.summary 0 0) else []

/-- What standard output is given before the output. -/
def preface (c : Config) : Bytes :=
  if c.outputIsStream then [] else c.opening

/-- What standard output is given after the output. -/
def postscript (c : Config) (metrics : Metrics) : Bytes :=
  if c.outputIsStream then [] else c.closing metrics

/-- What standard error is given of a configuration. -/
def announcement (c : Config) : List Diagnostic :=
  if c.printConfig && c.outputIsStream then [.text c.bannerBytes] else []

/-- What standard error is given of some events: those that are logged. -/
def noted (c : Config) (events : List Event) : List Diagnostic :=
  (events.filter (·.isWithin c.logged)).map .event

/-- The events of a session that comes to a report. -/
def chronicle (c : Config) (memory : Pass.Memory) (input : Bytes) (report : Report) : List Event :=
  .loaded input.length :: Pass.events c memory input ++ [.verified report]

theorem noted_append (c : Config) (events more : List Event) :
    c.noted (events ++ more) = c.noted events ++ c.noted more := by
  rw [noted, List.filter_append, List.map_append, noted, noted]

end Config

namespace Session

variable {m : Type → Type} [Monad m] [Host m] {σ : Type} {v : View m σ} {memory : Pass.Memory}
  {c : Config} {s t u : σ} {input : Bytes} {report : Report}

/-! ### Parts of a session -/

/-- What comes of a part of a session, and the state after it. -/
def outcome {α : Type} (v : View m σ) (part : ExceptT SessionError m α) (s : σ) :
    Except SessionError α × σ :=
  v.run part.run s

section Parts

variable {α β : Type} {part : ExceptT SessionError m α} {next : α → ExceptT SessionError m β}

theorem outcome_pure (hv : v.Lawful) (a : α) (s : σ) :
    outcome v (pure a : ExceptT SessionError m α) s = (.ok a, s) :=
  hv.run_pure _ s

theorem outcome_throw (hv : v.Lawful) (e : SessionError) (s : σ) :
    outcome v (throw e : ExceptT SessionError m α) s = (.error e, s) :=
  hv.run_pure _ s

theorem outcome_bind (hv : v.Lawful) (part : ExceptT SessionError m α)
    (next : α → ExceptT SessionError m β) (s : σ) :
    outcome v (part >>= next) s = match outcome v part s with
      | (.ok a, t) => outcome v (next a) t
      | (.error e, t) => (.error e, t) := by
  change v.run (part.run >>= ExceptT.bindCont next) s = _
  rw [hv.run_bind, outcome]
  rcases v.run part.run s with ⟨e | a, t⟩
  · exact hv.run_pure _ t
  · rfl

theorem outcome_bind_ok (hv : v.Lawful) {a : α} (h : outcome v part s = (.ok a, t)) :
    outcome v (part >>= next) s = outcome v (next a) t := by
  rw [outcome_bind hv, h]

theorem outcome_bind_error (hv : v.Lawful) {e : SessionError}
    (h : outcome v part s = (.error e, t)) : outcome v (part >>= next) s = (.error e, t) := by
  rw [outcome_bind hv, h]

/-- Parts one after the other come to something if each one does. -/
theorem outcome_bind_eq_ok (hv : v.Lawful) {b : β} :
    outcome v (part >>= next) s = (.ok b, u) ↔
      ∃ a t, outcome v part s = (.ok a, t) ∧ outcome v (next a) t = (.ok b, u) := by
  rw [outcome_bind hv]
  rcases outcome v part s with ⟨e | a, t⟩ <;> simp

/-- A call that cannot fail. -/
theorem outcome_lift (hv : v.Lawful) (call : m α) (s : σ) :
    outcome v (call : ExceptT SessionError m α) s = (.ok (v.run call s).1, (v.run call s).2) :=
  hv.run_map Except.ok call s

theorem outcome_calling (hv : v.Lawful) (failure : Fault → SessionError)
    (call : m (Except Fault α)) (s : σ) :
    outcome v (calling failure call) s = ((v.run call s).1.mapError failure, (v.run call s).2) := by
  change v.run (call >>= fun a => pure (a.mapError failure)) s = _
  rw [hv.run_bind, hv.run_pure]

/-- A call that came to something did so without the session. -/
theorem outcome_calling_eq_ok (hv : v.Lawful) {failure : Fault → SessionError}
    {call : m (Except Fault α)} {a : α} :
    outcome v (calling failure call) s = (.ok a, t) ↔ v.run call s = (.ok a, t) := by
  rw [outcome_calling hv]
  rcases v.run call s with ⟨f | b, t'⟩ <;> simp [Except.mapError]

end Parts

/-! ### What each part emits -/

theorem emits_pure (hv : v.Lawful)
    (h : outcome v (pure () : ExceptT SessionError m Unit) s = (.ok (), t)) :
    v.Emits s [] [] t := by
  rw [outcome_pure hv] at h
  cases h
  exact View.Emits.refl v s

theorem emits_note (hv : v.Lawful) (c : Config) (e : Event) (s : σ) :
    v.Emits s [] (c.noted [e]) (v.run (note c e) s).2 := by
  unfold note Config.noted
  by_cases he : e.isWithin c.logged
  · simpa [he] using hv.log e s
  · simpa [he, hv.run_pure] using View.Emits.refl v s

theorem emits_noteAll (hv : v.Lawful) (c : Config) (events : List Event) (s : σ) :
    v.Emits s [] (c.noted events) (v.run (noteAll c events) s).2 := by
  induction events generalizing s with
  | nil =>
    rw [noteAll, hv.run_pure]
    exact View.Emits.refl v s
  | cons e events ih =>
    rw [noteAll, hv.run_bind]
    exact (c.noted_append [e] events) ▸ (emits_note hv c e s).trans (ih _)

theorem emits_printBanner (hv : v.Lawful) (h : outcome v (printBanner c) s = (.ok (), t)) :
    v.Emits s c.preface c.announcement t := by
  unfold printBanner at h
  unfold Config.preface Config.announcement Config.opening
  cases hprint : c.printConfig <;> cases hstream : c.outputIsStream <;>
    simp only [hprint, hstream, Bool.not_true, Bool.not_false, Bool.false_eq_true, if_true,
      if_false, Bool.and_self, Bool.and_true, Bool.and_false] at h ⊢
  · exact emits_pure hv h
  · exact emits_pure hv h
  · exact hv.writeOutput ((outcome_calling_eq_ok hv).1 h)
  · exact hv.writeDiagnostic ((outcome_calling_eq_ok hv).1 h)

/-- To load the input writes nothing, whether it can be loaded or not. -/
theorem emits_loadInput (hv : v.Lawful) (c : Config) (s : σ) :
    v.Emits s [] [] (outcome v (loadInput c) s).2 := by
  unfold loadInput
  cases c.inputPath with
  | none =>
    rw [outcome_pure hv]
    exact View.Emits.refl v s
  | some path =>
    dsimp only
    split
    · rw [outcome_calling hv]
      exact hv.readInput s
    · rw [outcome_calling hv]
      exact hv.readFile path s

/-- What a session makes of what came of its pass. -/
def reported (nanoseconds : Nat) :
    Except Defect (Except PassError Report) → Except SessionError Report
  | .error d => .error (.defect d)
  | .ok (.error e) => .error (.pass e)
  | .ok (.ok report) => .ok (report.finish nanoseconds)

/-- A pass that is timed logs its events, and its report says how long it took. -/
theorem outcome_performTimed (hv : v.Lawful) (c : Config) (memory : Pass.Memory) (input : Bytes)
    (s : σ) :
    ∃ nanoseconds t, v.Emits s [] (c.noted (Pass.events c memory input)) t ∧
      outcome v (performTimed c memory input) s =
        (reported nanoseconds (Pass.perform c memory input).run, t) := by
  unfold performTimed
  rw [outcome_bind_ok hv (outcome_lift hv _ s)]
  set started := v.run (m := m) Host.now s
  rw [outcome_bind_ok hv (outcome_lift hv _ started.2)]
  have hnoted := (hv.now s).trans (emits_noteAll hv c (Pass.events c memory input) started.2)
  rw [List.nil_append, List.nil_append] at hnoted
  set logged := (v.run (m := m) (noteAll c (Pass.events c memory input)) started.2).2
  rcases (Pass.perform c memory input).run with d | e | report
  · exact ⟨0, logged, hnoted, outcome_throw hv _ _⟩
  · exact ⟨0, logged, hnoted, outcome_throw hv _ _⟩
  · dsimp only
    rw [outcome_bind_ok hv (outcome_lift hv _ logged)]
    have hended := hnoted.trans (hv.now logged)
    rw [List.append_nil, List.append_nil] at hended
    exact ⟨_, _, hended, outcome_pure hv _ _⟩

/-- The summary comes to standard output, unless the output is there. -/
theorem emits_printSummary (hv : v.Lawful) {metrics : Metrics}
    (h : outcome v (printSummary c metrics) s = (.ok (), t)) :
    v.Emits s (c.postscript metrics) [] t := by
  unfold printSummary at h
  unfold Config.postscript Config.closing
  cases hprint : c.printMetrics <;> cases hstream : c.outputIsStream <;>
    simp only [hprint, hstream, Bool.not_true, Bool.not_false, Bool.false_eq_true, if_true,
      if_false, Bool.and_self, Bool.and_true, Bool.and_false] at h ⊢
  · exact emits_pure hv h
  · exact emits_pure hv h
  · exact hv.writeOutput ((outcome_calling_eq_ok hv).1 h)
  · exact emits_pure hv h

theorem emits_storeOutput (hv : v.Lawful) (hstream : c.outputIsStream = true) {output : Bytes}
    (h : outcome v (storeOutput c output) s = (.ok (), t)) : v.Emits s output [] t := by
  rw [storeOutput, if_pos hstream] at h
  obtain ⟨⟨⟩, written, hwrite, hflush⟩ := (outcome_bind_eq_ok hv).1 h
  have hemits := (hv.writeOutput ((outcome_calling_eq_ok hv).1 hwrite)).trans
    (hv.flushOutput ((outcome_calling_eq_ok hv).1 hflush))
  rwa [List.append_nil, List.append_nil] at hemits

theorem run_writeFile_of_storeOutput (hv : v.Lawful) (hfile : c.outputIsStream = false)
    {output : Bytes} (h : outcome v (storeOutput c output) s = (.ok (), t)) :
    v.run (Host.writeFile c.outputPath output) s = (.ok (), t) := by
  rw [storeOutput, if_neg (ne_true_of_eq_false hfile)] at h
  exact (outcome_calling_eq_ok hv).1 h

/-! ### Sessions -/

/-- A session prints its configuration, if it is to be printed, and loads its input. -/
def Loads (v : View m σ) (c : Config) (s : σ) (input : Bytes) : Prop :=
  ∃ t u, outcome v (printBanner c) s = (.ok (), t) ∧ outcome v (loadInput c) t = (.ok input, u)

theorem Loads.unique {other : Bytes} (h : Loads v c s input) (h' : Loads v c s other) :
    input = other := by
  obtain ⟨t, u, hbanner, hload⟩ := h
  obtain ⟨t', u', hbanner', hload'⟩ := h'
  cases hbanner.symm.trans hbanner'
  cases hload.symm.trans hload'
  rfl

/-- A session comes to one report at most. -/
theorem Loads.report_unique {other : Bytes} {report' : Report} (h : Loads v c s input)
    (hrun : (Pass.perform c memory input).run = .ok (.ok report)) (h' : Loads v c s other)
    (hrun' : (Pass.perform c memory other).run = .ok (.ok report')) : report = report' := by
  cases h.unique h'
  cases hrun.symm.trans hrun'
  rfl

/-- What a session does with its report: store the output, print the summary and tell whether the
report is right. -/
def deliver (c : Config) (input : Bytes) (report : Report) : ExceptT SessionError m Bool := do
  storeOutput c report.output
  printSummary c report.metrics
  match report.verify input c.history.capacity with
  | .error d => throw (.defect d)
  | .ok true =>
    note (m := m) c (.verified report)
    return true
  | .ok false =>
    note (m := m) c .mismatched
    return false

/-- With its input, a session performs the pass and delivers the report. -/
theorem outcome_execute (hv : v.Lawful) (hbanner : outcome v (printBanner c) s = (.ok (), t))
    (hload : outcome v (loadInput c) t = (.ok input, u)) :
    outcome v (execute c memory) s =
      outcome v (performTimed c memory input >>= deliver c input)
        (v.run (note c (.loaded input.length)) u).2 := by
  rw [execute, outcome_bind_ok hv hbanner, outcome_bind_ok hv hload,
    outcome_bind_ok hv (outcome_lift hv _ u)]
  rfl

/-- With its input, a session has printed its configuration and logged events when its pass has come
to an end. -/
theorem outcome_performTimed_of_load (hv : v.Lawful) (memory : Pass.Memory)
    (hbanner : outcome v (printBanner c) s = (.ok (), t))
    (hload : outcome v (loadInput c) t = (.ok input, u)) :
    ∃ nanoseconds x,
      v.Emits s c.preface
        (c.announcement ++ c.noted (.loaded input.length :: Pass.events c memory input)) x ∧
      outcome v (performTimed c memory input) (v.run (note c (.loaded input.length)) u).2 =
        (reported nanoseconds (Pass.perform c memory input).run, x) := by
  obtain ⟨nanoseconds, x, hnoted, hperform⟩ := outcome_performTimed hv c memory input
    (v.run (note c (.loaded input.length)) u).2
  have hloaded := emits_loadInput hv c t
  rw [hload] at hloaded
  have hemits := ((emits_printBanner hv hbanner).trans hloaded).trans
    ((emits_note hv c (.loaded input.length) u).trans hnoted)
  rw [List.append_nil, List.append_nil, List.append_nil, List.append_nil,
    ← Config.noted_append] at hemits
  exact ⟨nanoseconds, x, hemits, hperform⟩

/-- A right report is delivered by storing its output, printing the summary and logging that it is
right. -/
theorem outcome_deliver_eq_ok (hv : v.Lawful) {verdict : Bool}
    (hright : report.verify input c.history.capacity = .ok true)
    (h : outcome v (deliver c input report) s = (.ok verdict, u)) :
    ∃ t, outcome v (storeOutput c report.output) s = (.ok (), t) ∧
      v.Emits t (c.postscript report.metrics) (c.noted [.verified report]) u := by
  obtain ⟨⟨⟩, stored, hstore, h⟩ := (outcome_bind_eq_ok hv).1 h
  obtain ⟨⟨⟩, printed, hprint, h⟩ := (outcome_bind_eq_ok hv).1 h
  rw [hright] at h
  dsimp only at h
  rw [outcome_bind_ok hv (outcome_lift hv _ printed), outcome_pure hv] at h
  cases h
  have hemits := (emits_printSummary hv hprint).trans (emits_note hv c (.verified report) printed)
  rw [List.append_nil, List.nil_append] at hemits
  exact ⟨stored, hstore, hemits⟩

/-- A session that does not fail comes to a report and delivers it. -/
theorem outcome_execute_eq_ok (hv : v.Lawful) {verdict : Bool} {s' : σ}
    (h : outcome v (execute c memory) s = (.ok verdict, s')) :
    ∃ input report nanoseconds t u, Loads v c s input ∧
      (Pass.perform c memory input).run = .ok (.ok report) ∧
      v.Emits s c.preface
        (c.announcement ++ c.noted (.loaded input.length :: Pass.events c memory input)) t ∧
      outcome v (storeOutput c report.output) t = (.ok (), u) ∧
      v.Emits u (c.postscript (report.finish nanoseconds).metrics) (c.noted [.verified report])
        s' := by
  have hexecute := h
  obtain ⟨⟨⟩, announced, hbanner, h⟩ := (outcome_bind_eq_ok hv).1 h
  obtain ⟨input, loaded, hload, -⟩ := (outcome_bind_eq_ok hv).1 h
  rw [outcome_execute hv hbanner hload] at hexecute
  obtain ⟨nanoseconds, t, hbefore, hperform⟩ :=
    outcome_performTimed_of_load hv memory hbanner hload
  rcases hrun : (Pass.perform c memory input).run with d | e | report
  · rw [hrun] at hperform
    rw [outcome_bind_error hv hperform] at hexecute
    cases hexecute
  · rw [hrun] at hperform
    rw [outcome_bind_error hv hperform] at hexecute
    cases hexecute
  · rw [hrun] at hperform
    rw [outcome_bind_ok hv hperform] at hexecute
    have hright : (report.finish nanoseconds).verify input c.history.capacity = .ok true :=
      (Pass.performDrawing_right hrun).verify_eq
    obtain ⟨u, hstore, hafter⟩ := outcome_deliver_eq_ok hv hright hexecute
    exact ⟨input, report, nanoseconds, t, u, ⟨announced, loaded, hbanner, hload⟩, hrun, hbefore,
      hstore, hafter⟩

/-- Without a report, a session prints its configuration, logs events and fails. -/
theorem outcome_execute_of_no_report (hv : v.Lawful)
    (hbanner : outcome v (printBanner c) s = (.ok (), t))
    (hnone : ∀ input, Loads v c s input →
      ∀ report, (Pass.perform c memory input).run ≠ .ok (.ok report)) :
    ∃ e s', ∃ events : List Event, outcome v (execute c memory) s = (.error e, s') ∧
      v.Emits s c.preface (c.announcement ++ events.map .event) s' := by
  rcases hload : outcome v (loadInput c) t with ⟨e | input, loaded⟩
  · have hloaded := emits_loadInput hv c t
    rw [hload] at hloaded
    have hemits := (emits_printBanner hv hbanner).trans hloaded
    rw [List.append_nil] at hemits
    refine ⟨e, loaded, [], ?_, hemits⟩
    rw [execute, outcome_bind_ok hv hbanner, outcome_bind_error hv hload]
  · obtain ⟨nanoseconds, performed, hemits, hperform⟩ :=
      outcome_performTimed_of_load hv memory hbanner hload
    rw [outcome_execute hv hbanner hload]
    rcases hrun : (Pass.perform c memory input).run with d | e | report
    · rw [hrun] at hperform
      exact ⟨_, _, _, outcome_bind_error hv hperform, hemits⟩
    · rw [hrun] at hperform
      exact ⟨_, _, _, outcome_bind_error hv hperform, hemits⟩
    · exact absurd hrun (hnone input ⟨t, loaded, hbanner, hload⟩ report)

/-! ### Where the output goes -/

variable {verdict : Bool}

/-- What has become of a session whose output is not standard output. Standard output has been given
what is printed and nothing else, unless the path leads there. Where the path leads to a file, the
output is read back by it, and standard error has been given nothing but what is logged. -/
structure Stored (v : View m σ) (c : Config) (memory : Pass.Memory) (input : Bytes)
    (report : Report) (s s' : σ) : Prop where
  output_eq : v.leads s c.outputPath ≠ .output → ∃ nanoseconds, v.output s' =
    v.output s ++ (c.opening ++ c.closing (report.finish nanoseconds).metrics)
  reading_eq : v.leads s c.outputPath = .file → v.reading s' c.outputPath = .ok report.output
  diagnostics_eq : v.leads s c.outputPath = .file →
    v.diagnostics s' = v.diagnostics s ++ c.noted (c.chronicle memory input report)

/-- A session that does not fail comes to a report. If its output is standard output, this is given
the output and nothing else, and what is printed goes to standard error. -/
theorem execute_streams (hv : v.Lawful) (hstream : c.outputIsStream = true)
    (h : outcome v (execute c memory) s = (.ok verdict, t)) :
    ∃ input report, Loads v c s input ∧ (Pass.perform c memory input).run = .ok (.ok report) ∧
      v.Emits s report.output (c.announcement ++ c.noted (c.chronicle memory input report)) t := by
  obtain ⟨input, report, nanoseconds, u, x, hloads, hrun, hbefore, hstore, hafter⟩ :=
    outcome_execute_eq_ok hv h
  have hemits := hbefore.trans ((emits_storeOutput hv hstream hstore).trans hafter)
  rw [Config.preface, if_pos hstream, Config.postscript, if_pos hstream, List.nil_append,
    List.append_nil, List.nil_append, List.append_assoc, ← Config.noted_append] at hemits
  exact ⟨input, report, hloads, hrun, hemits⟩

/-- Otherwise the output is stored where its path leads. -/
theorem execute_stores (hv : v.Lawful) (hfile : c.outputIsStream = false)
    (h : outcome v (execute c memory) s = (.ok verdict, t)) :
    ∃ input report, Loads v c s input ∧ (Pass.perform c memory input).run = .ok (.ok report) ∧
      Stored v c memory input report s t := by
  obtain ⟨input, report, nanoseconds, u, x, hloads, hrun, hbefore, hstore, hafter⟩ :=
    outcome_execute_eq_ok hv h
  have hwrite := run_writeFile_of_storeOutput hv hfile hstore
  have hleads : v.leads u c.outputPath = v.leads s c.outputPath := hbefore.leads_eq _
  have hno := ne_true_of_eq_false hfile
  rw [Config.preface, if_neg hno, Config.announcement, hfile, Bool.and_false,
    if_neg Bool.false_ne_true, List.nil_append] at hbefore
  rw [Config.postscript, if_neg hno] at hafter
  refine ⟨input, report, hloads, hrun, fun hpath => ⟨nanoseconds, ?_⟩, fun hpath => ?_,
    fun hpath => ?_⟩
  · rw [hafter.output_eq, hv.writeFile_output hwrite (by rwa [hleads]), hbefore.output_eq,
      List.append_assoc]
  · have hstored := hv.writeFile hwrite (hleads.trans hpath)
    exact (hafter.reading_eq hstored.leads_eq).trans hstored.reading_eq
  · have hstored := hv.writeFile hwrite (hleads.trans hpath)
    rw [hafter.diagnostics_eq, hstored.diagnostics_eq, hbefore.diagnostics_eq, List.append_assoc,
      ← Config.noted_append]
    rfl

/-! ### On a world -/

theorem outcome_storeOutput_of_file {output : Bytes} {w w' : World}
    (hfile : c.outputIsStream = false) (h : w.writeFile c.outputPath output = .ok w') :
    outcome World.view (storeOutput c output) w = (.ok (), w') := by
  rw [storeOutput, if_neg (ne_true_of_eq_false hfile)]
  exact (outcome_calling_eq_ok World.view_lawful).2 (World.run_writeFile h)

theorem disk_note (c : Config) (e : Event) (w : World) :
    (World.view.run (note c e) w).2.disk = w.disk := by
  unfold note
  split <;> rfl

theorem disk_noteAll (c : Config) (events : List Event) (w : World) :
    (World.view.run (noteAll c events) w).2.disk = w.disk := by
  induction events generalizing w with
  | nil => rfl
  | cons e events ih => rw [noteAll, World.view_lawful.run_bind, ih, disk_note]

theorem disk_performTimed (c : Config) (memory : Pass.Memory) (input : Bytes) (w : World) :
    (outcome World.view (performTimed c memory input) w).2.disk = w.disk := by
  unfold performTimed
  rw [outcome_bind_ok World.view_lawful (outcome_lift World.view_lawful _ w),
    outcome_bind_ok World.view_lawful (outcome_lift World.view_lawful _ _)]
  rcases (Pass.perform c memory input).run with d | e | report
  · exact disk_noteAll c _ _
  · exact disk_noteAll c _ _
  · exact disk_noteAll c _ _

/-- A world gives its input. -/
theorem exists_loadInput {w : World} (hinput : c.inputPath = some Config.streamPath) :
    ∃ t : World, outcome World.view (printBanner c) w = (.ok (), t) ∧ t.disk = w.disk ∧
      outcome World.view (loadInput c) t = (.ok w.input, t) := by
  obtain ⟨t, hbanner, hdisk, hsame⟩ : ∃ t : World,
      outcome World.view (printBanner c) w = (.ok (), t) ∧ t.disk = w.disk ∧
        t.input = w.input := by
    unfold printBanner
    cases c.printConfig <;> cases c.outputIsStream <;> exact ⟨_, rfl, rfl, rfl⟩
  refine ⟨t, hbanner, hdisk, ?_⟩
  rw [loadInput, hinput, ← hsame]
  rfl

/-- A session on a world that comes to a report goes through if the output can be stored. -/
theorem exists_execute_of_store {w : World} (store : World → World)
    (hinput : c.inputPath = some Config.streamPath)
    (hrun : (Pass.perform c memory w.input).run = .ok (.ok report))
    (hstore : ∀ x : World, x.disk = w.disk →
      outcome World.view (storeOutput c report.output) x = (.ok (), store x)) :
    ∃ x w', x.disk = w.disk ∧ x.output = w.output ++ c.preface ∧
      outcome World.view (execute c memory) w = (.ok true, w') ∧ w'.disk = (store x).disk ∧
      ∃ nanoseconds,
        w'.output = (store x).output ++ c.postscript (report.finish nanoseconds).metrics := by
  have hv := World.view_lawful
  obtain ⟨t, hbanner, hdisk, hload⟩ := exists_loadInput (w := w) hinput
  obtain ⟨nanoseconds, x, hbefore, hperform⟩ :=
    outcome_performTimed_of_load hv memory hbanner hload
  have hx : x.disk = w.disk := by
    have hsame := disk_performTimed c memory w.input
      (World.view.run (note c (.loaded w.input.length)) t).2
    rw [hperform, disk_note] at hsame
    exact hsame.trans hdisk
  obtain ⟨y, hprint, hy⟩ : ∃ y : World,
      outcome World.view (printSummary c (report.finish nanoseconds).metrics) (store x) =
        (.ok (), y) ∧ y.disk = (store x).disk := by
    unfold printSummary
    split <;> exact ⟨_, rfl, rfl⟩
  have hright : (report.finish nanoseconds).verify w.input c.history.capacity = .ok true :=
    (Pass.performDrawing_right hrun).verify_eq
  have hnoted := disk_note c (.verified (report.finish nanoseconds)) y
  refine ⟨x, _, hx, hbefore.output_eq, ?_, hnoted.trans hy, nanoseconds, ?_⟩
  · have hstored : outcome World.view (storeOutput c (report.finish nanoseconds).output) x =
        (.ok (), store x) := hstore x hx
    rw [hrun] at hperform
    rw [outcome_execute hv hbanner hload, outcome_bind_ok hv hperform, deliver,
      outcome_bind_ok hv hstored, outcome_bind_ok hv hprint, hright]
    exact outcome_bind_ok hv (outcome_lift hv _ y)
  · have hafter := ((emits_printSummary hv hprint).trans
      (emits_note hv c (.verified (report.finish nanoseconds)) y)).output_eq
    rwa [List.append_nil] at hafter

/-! ### The streams of a session -/

/-- On a lawful host and with any memory, a session that does not fail comes to a report. If its
output is standard output, this is given the output and nothing else, whatever is to be printed or
logged, and the configuration goes to standard error. Otherwise standard output is given the
configuration and the counters, each if it is to be printed, and nothing else unless the path of the
output leads there, and where the path leads to a file the output is read back from it. A session
without a report fails, and all that it leaves behind is its configuration and what it logged. -/
theorem execute_unmixed {m : Type → Type} [Monad m] [Host m] {σ : Type} {v : View m σ}
    (hv : v.Lawful) (c : Config) (memory : Pass.Memory) (s : σ) :
    (∀ verdict s', outcome v (execute c memory) s = (.ok verdict, s') →
      ∃ input report, Loads v c s input ∧ (Pass.perform c memory input).run = .ok (.ok report) ∧
        (c.outputIsStream = true →
          v.Emits s report.output
            (c.announcement ++ c.noted (c.chronicle memory input report)) s' ∧
          ∀ printConfig printMetrics verbose t t' verdict',
            let d : Config := { c with printConfig, printMetrics, verbose }
            Loads v d t input → outcome v (execute d memory) t = (.ok verdict', t') →
            v.output t' = v.output t ++ report.output) ∧
        (c.outputIsStream = false → Stored v c memory input report s s')) ∧
    ∀ t, outcome v (printBanner c) s = (.ok (), t) →
      (∀ input, Loads v c s input →
        ∀ report, (Pass.perform c memory input).run ≠ .ok (.ok report)) →
      ∃ e s', ∃ events : List Event, outcome v (execute c memory) s = (.error e, s') ∧
        v.Emits s c.preface (c.announcement ++ events.map .event) s' := by
  refine ⟨fun verdict s' h => ?_, fun t hbanner => outcome_execute_of_no_report hv hbanner⟩
  cases hstream : c.outputIsStream with
  | true =>
    obtain ⟨input, report, hloads, hrun, hemits⟩ := execute_streams hv hstream h
    refine ⟨input, report, hloads, hrun, fun _ => ⟨hemits, ?_⟩, fun hno => Bool.noConfusion hno⟩
    intro printConfig printMetrics verbose t t' verdict' d hloads' h'
    -- The other session has the same input, so it comes to the same report.
    obtain ⟨other, report', hother, hrun', hemits'⟩ := execute_streams (c := d) hv hstream h'
    cases hloads'.report_unique (c := d) hrun hother hrun'
    exact hemits'.output_eq
  | false =>
    obtain ⟨input, report, hloads, hrun, hstored⟩ := execute_stores hv hstream h
    exact ⟨input, report, hloads, hrun, fun hno => Bool.noConfusion hno, fun _ => hstored⟩

/-- A file with something else in it gets the output, while the configuration and the summary are on
standard output, where a session with the path `-` has the output alone. Without memory there is no
report, and the file stays as it is. -/
theorem execute_unmixed_overwriting :
    let c : Config := ⟨some [45], [111], ⟨2, 10, .split⟩, 1, 4, 8, 0, true, true, false⟩
    let d : Config := { c with outputPath := [45] }
    let scarce : Pass.Memory := fun _ _ => some 0
    let w : World := .small [10] [([111], [98])]
    World.view.Lawful ∧ World.view.leads w c.outputPath = .file ∧
    (∃ (report : Report) (w' : World), outcome World.view (execute c .ample) w = (.ok true, w') ∧
      report.output = [10] ∧ w'.readFile c.outputPath = .ok [10] ∧
      ∃ nanoseconds, w'.output =
        c.bannerBytes ++ bytesOf ((report.finish nanoseconds).metrics.summary 0 0)) ∧
    (∃ w', outcome World.view (execute d .ample) w = (.ok true, w') ∧ w'.output = [10] ∧
      w'.diagnostics.head? = some (.text d.bannerBytes) ∧
      ∀ printConfig printMetrics verbose, ∃ v,
        outcome World.view (execute { d with printConfig, printMetrics, verbose } .ample) w =
          (.ok true, v) ∧ v.output = [10]) ∧
    ∃ e w', outcome World.view (execute c scarce) w = (.error e, w') ∧
      w'.output = c.bannerBytes ∧ w'.readFile c.outputPath = .ok [98] := by
  intro c d scarce w
  have hv := World.view_lawful
  have hc : c.Feasible := ⟨by decide, by decide, by decide, by decide, by decide⟩
  have hloads (c : Config) (hinput : c.inputPath = some [45]) : Loads World.view c w [10] := by
    obtain ⟨t, hbanner, -, hload⟩ := exists_loadInput (w := w) hinput
    exact ⟨t, t, hbanner, hload⟩
  obtain ⟨report, hreport, hlines⟩ := Pass.performDrawing_eq (Random.wordSource.between 1)
    (Random.Stream.ofSeed c.seed) hc rfl (by decide : [(10 : UInt8)].length < wordCount)
  have hrun : (Pass.perform c .ample w.input).run = .ok (.ok report) := hreport
  have houtput : report.output = [10] := hlines.output_eq
  -- The path leads to the file in the directory.
  let p : Place := Place.ofString "/home" ++ [[111]]
  have hslash : Path.endsInSlash c.outputPath = false := by decide +kernel
  have hwalk (mayBeNew : Bool) :
      w.disk.locate mayBeNew c.outputPath (Path.steps c.outputPath) = .ok p := by
    have hsteps : Path.steps c.outputPath = [[111]] := by decide +kernel
    have hhome : w.disk.directory? (Place.ofString "/home") = some .shared := by decide +kernel
    have hthere : w.disk.holds p = true := by decide +kernel
    rw [Disk.locate, hsteps]
    exact Disk.walk_last hhome rfl (by decide +kernel) (by decide +kernel)
      (Bool.or_eq_true_iff.2 (.inl hthere))
  have hplace : w.disk.locateNew c.outputPath = .ok p :=
    Disk.locateNew_eq_ok.2 ⟨rfl, hslash, hwalk true⟩
  have hold : w.disk.file? p = some [98] := by decide +kernel
  have hleads : World.view.leads w c.outputPath = .file := by
    change w.disk.destination c.outputPath = .file
    simp only [Disk.destination, hplace, Disk.native?, hold]
  refine ⟨hv, hleads, ?_, ?_, ?_⟩
  · have hstore (x : World) (hx : x.disk = w.disk) :
        outcome World.view (storeOutput c report.output) x =
          (.ok (), { x with disk := x.disk.put p report.output }) := by
      refine outcome_storeOutput_of_file rfl ?_
      rw [World.writeFile_eq (hx ▸ hplace), World.writeAt, hx, hold]
    obtain ⟨-, w', -, -, hexecute, -⟩ := exists_execute_of_store _ rfl hrun hstore
    obtain ⟨hsucceeds, -⟩ := execute_unmixed hv c .ample w
    obtain ⟨input, other, hinput, hother, -, hstored⟩ := hsucceeds true w' hexecute
    obtain rfl := (hloads c rfl).report_unique hrun hinput hother
    have hreading := (hstored rfl).reading_eq hleads
    rw [houtput] at hreading
    obtain ⟨nanoseconds, hprinted⟩ := (hstored rfl).output_eq (by rw [hleads]; decide)
    have hempty : World.view.output w = [] := rfl
    rw [hempty, List.nil_append, Config.opening, if_pos rfl, Config.closing, if_pos rfl]
      at hprinted
    exact ⟨report, w', hexecute, houtput, hreading, nanoseconds, hprinted⟩
  · have hexists (printConfig printMetrics verbose : Bool) :=
      exists_execute_of_store (c := { d with printConfig, printMetrics, verbose })
        (·.print report.output) rfl hrun fun x _ => rfl
    obtain ⟨-, w', -, -, hexecute, -⟩ := hexists true true false
    obtain ⟨hsucceeds, -⟩ := execute_unmixed hv d .ample w
    obtain ⟨input, other, hinput, hother, hstream, -⟩ := hsucceeds true w' hexecute
    obtain rfl := (hloads d rfl).unique hinput
    obtain rfl := (hloads d rfl).report_unique hrun hinput hother
    obtain ⟨hemits, hothers⟩ := hstream (by decide)
    refine ⟨w', hexecute, hemits.output_eq.trans houtput, ?_, ?_⟩
    · have hdiagnostics : w'.diagnostics = [] ++ _ := hemits.diagnostics_eq
      rw [hdiagnostics]
      rfl
    · intro printConfig printMetrics verbose
      obtain ⟨-, v, -, -, hother, -⟩ := hexists printConfig printMetrics verbose
      have hsame := hothers printConfig printMetrics verbose w v true (hloads _ rfl) hother
      exact ⟨v, hother, hsame.trans houtput⟩
  · have hparts : Pass.fragments (Random.wordSource.between 1) (Random.Stream.ofSeed c.seed)
        c.maxFragment [10] = .ok [[10]] := by
      simp [Pass.fragments, Pass.fragmentsFrom, c]
    have hrefused (report : Report) :
        (Pass.perform c scarce [10]).run ≠ .ok (.ok report) := by
      rw [Pass.perform, Pass.performDrawing, hparts]
      intro hreturned
      cases hreturned
    obtain ⟨-, hfails⟩ := execute_unmixed hv c scarce w
    obtain ⟨e, w', events, hexecute, hemits⟩ := hfails _ rfl fun input hinput report =>
      (hinput.unique (hloads c rfl)) ▸ hrefused report
    have hprinted : w'.output = [] ++ c.preface := hemits.output_eq
    have hfile : c.outputIsStream = false := by decide
    rw [List.nil_append, Config.preface, hfile, if_neg Bool.false_ne_true, Config.opening,
      if_pos rfl] at hprinted
    have hreading : w'.readFile c.outputPath = w.readFile c.outputPath := hemits.reading_eq hleads
    refine ⟨e, w', hexecute, hprinted, hreading.trans ?_⟩
    rw [World.readFile_eq ((Disk.locateOld_eq rfl hslash).trans (hwalk false)), World.readAt, hold]

/-- Two paths do not lead to a file. At one of them the output is nowhere, and at the other one it
stands on standard output, on which nothing is to be printed. -/
theorem execute_mixed_at_devices :
    let c (path : String) : Config :=
      ⟨some [45], Utf8.encode path.toList, ⟨2, 10, .split⟩, 1, 4, 8, 0, false, false, false⟩
    let w : World := .small [97, 10] []
    (∃ report, (Pass.perform (c "/dev/null") .ample w.input).run = .ok (.ok report) ∧
      report.output = [97, 10]) ∧
    (∃ w', outcome World.view (execute (c "/dev/null") .ample) w = (.ok true, w') ∧
      (c "/dev/null").outputIsStream = false ∧ w'.readFile (c "/dev/null").outputPath = .ok []) ∧
    ∃ w', outcome World.view (execute (c "/dev/stdout") .ample) w = (.ok true, w') ∧
      (c "/dev/stdout").outputIsStream = false ∧ w'.output = [97, 10] := by
  intro c w
  have hc (path : String) : (c path).Feasible := by
    refine ⟨?_, ?_, ?_, ?_, ?_⟩
    all_goals exact Nat.le_of_ble_eq_true rfl
  have hreport (path : String) :
      ∃ report, (Pass.perform (c path) .ample w.input).run = .ok (.ok report) ∧
        report.output = [97, 10] := by
    obtain ⟨report, hrun, hlines⟩ := Pass.performDrawing_eq (Random.wordSource.between 1)
      (Random.Stream.ofSeed 1) (hc path) rfl (by decide : [(97 : UInt8), 10].length < wordCount)
    exact ⟨report, hrun, hlines.output_eq⟩
  refine ⟨hreport _, ?_, ?_⟩
  · obtain ⟨report, hrun, houtput⟩ := hreport "/dev/null"
    obtain ⟨hnew, hread⟩ := World.locate_small (c "/dev/null").outputPath
      (Utf8.encode "null".toList) rfl (by decide +kernel) (by decide +kernel)
      (by decide +kernel) (by decide +kernel) (by decide +kernel) (by decide +kernel)
    have hnative : w.disk.native? (Path.steps (c "/dev/null").outputPath) = some (.file .sink) :=
      rfl
    have hfile : (c "/dev/null").outputIsStream = false := by decide +kernel
    have hstore (x : World) (hx : x.disk = w.disk) :
        outcome World.view (storeOutput (c "/dev/null") report.output) x = (.ok (), x) := by
      refine outcome_storeOutput_of_file hfile ?_
      rw [World.writeFile_eq (hx ▸ hnew), World.writeAt_of_native (hx ▸ hnative), houtput]
      rfl
    obtain ⟨x, w', hx, -, hexecute, hsame, -⟩ := exists_execute_of_store _ rfl hrun hstore
    have hdisk : w'.disk = w.disk := hsame.trans hx
    refine ⟨w', hexecute, hfile, ?_⟩
    rw [World.readFile_eq (hdisk ▸ hread), World.readAt, hdisk]
    rfl
  · obtain ⟨report, hrun, houtput⟩ := hreport "/dev/stdout"
    obtain ⟨hnew, -⟩ := World.locate_small (c "/dev/stdout").outputPath
      (Utf8.encode "stdout".toList) rfl (by decide +kernel) (by decide +kernel)
      (by decide +kernel) (by decide +kernel) (by decide +kernel) (by decide +kernel)
    have hnative :
        w.disk.native? (Path.steps (c "/dev/stdout").outputPath) = some (.stream .output) := rfl
    have hfile : (c "/dev/stdout").outputIsStream = false := by decide +kernel
    have hstore (x : World) (hx : x.disk = w.disk) :
        outcome World.view (storeOutput (c "/dev/stdout") report.output) x =
          (.ok (), x.print report.output) := by
      refine outcome_storeOutput_of_file hfile ?_
      rw [World.writeFile_eq (hx ▸ hnew), World.writeAt_of_native (hx ▸ hnative)]
      rfl
    obtain ⟨x, w', -, hbefore, hexecute, -, nanoseconds, hafter⟩ :=
      exists_execute_of_store _ rfl hrun hstore
    refine ⟨w', hexecute, hfile, ?_⟩
    rw [hafter, World.print, hbefore, houtput]
    rfl

end Session

end Scrollback
