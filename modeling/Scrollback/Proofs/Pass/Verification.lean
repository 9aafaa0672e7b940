import Scrollback.Proofs.History.Journal
import Scrollback.Proofs.Pass.LastLines
import Scrollback.Proofs.World
import Scrollback.Session
/-!
# Checking a report

A report is checked against the input: what was read back has to be an end of the completed input,
and the records retained have to be as many as were completed, or as there are slots.

Every pass that returns passes this check, whatever the policy, the lengths of the fragments and the
writes that had to be tried again. What carries the proof is that no byte is lost:
`History.Trails` says that the data retained and the bytes pending are the end of what was written.
Hence a session never finds its report wrong (`Pass.performDrawing_verifies`).

The check does not look at the length of what was read back. Any end of the completed input passes,
also one that lacks lines which are retained (`Pass.verify_accepts_truncated`). With the right
length, only what the history retains does (`Pass.verify_output_iff`).
-/

namespace Scrollback

open Scrollback.Random (Draw)

/-! ### What is written -/

/-- How a history stands to the bytes that were written to it: the data retained and the bytes
pending are the end of them, and of the records completed as many as possible are retained. -/
structure History.Trails (s : Settings) (h : History) (stream : Bytes) : Prop where
  sound : h.Sound
  alive : h.poisoned = false
  capacity_eq : h.log.capacity = s.capacity
  suffix : h.log.toList.flatMap Record.bytes ++ h.assembler.pending.bytes <:+ stream
  length_eq : h.log.toList.length = min h.metrics.recordsCompleted s.capacity

namespace History.Trails

variable {s : Settings} {h next : History} {stream fragment : Bytes}

theorem of_create (hnew : create s = .ok (.ok h)) : Trails s h [] := by
  have hagrees := create_agrees hnew
  obtain ⟨hsound, hempty⟩ := create_sound hnew
  obtain ⟨-, -, rfl⟩ := create_eq_ok hnew
  exact ⟨hsound, rfl, hagrees.capacity_eq, by rw [hempty]; exact List.nil_suffix,
    by rw [hempty]; exact (Nat.zero_min _).symm⟩

/-- A write adds its fragment to the stream, unless it is refused. -/
theorem write (ht : Trails s h stream) {allowance : Allowance}
    {result : Except HistoryError WriteOutcome}
    (hwrite : h.write allowance fragment = .ok (result, next)) :
    Trails s next (if result.isOk then stream ++ fragment else stream) := by
  obtain ⟨hsound, ⟨rfl, rfl⟩ | ⟨request, rfl, rfl⟩ | ⟨log, rfl, hkept, hlist, hcap, rfl⟩⟩ :=
    write_eq_ok ht.sound hwrite
  · exact ht
  · exact { ht with sound := hsound }
  · refine ⟨hsound, ht.alive, hcap.trans ht.capacity_eq, ?_, ?_⟩
    · -- What was there and the fragment are the bytes pushed out and those there now.
      have hframed := h.assembler.accept_bytes fragment
      have hparts := congrArg (List.flatMap Record.bytes) hkept
      rw [List.flatMap_append, List.flatMap_append] at hparts
      have hall := congrArg (· ++ (h.assembler.accept fragment).2.pending.bytes) hparts
      simp only [List.append_assoc, hframed] at hall
      rw [← List.append_assoc (h.log.toList.flatMap Record.bytes)] at hall
      exact (hall ▸ List.suffix_append _ _).trans
        ((List.suffix_append_inj_of_length_eq rfl).2 ⟨ht.suffix, rfl⟩)
    · have hlength := ht.length_eq
      rw [hlist, Log.length_rtake, List.length_append, ht.capacity_eq]
      simp only [countWrite]
      omega

theorem length_pending_le (ht : Trails s h stream) :
    h.assembler.pending.bytes.length ≤ stream.length :=
  ((List.suffix_append _ _).trans ht.suffix).length_le

/-- Without the pending bytes, what was written ends in the data retained. -/
theorem data_suffix (ht : Trails s h stream) :
    h.log.toList.flatMap Record.bytes <:+
      stream.take (stream.length - h.assembler.pending.bytes.length) := by
  obtain ⟨gone, rfl⟩ := ht.suffix
  rw [← List.append_assoc, List.length_append, Nat.add_sub_cancel, List.take_left]
  exact List.suffix_append _ _

end History.Trails

namespace Pass

open History (Trails)

variable {s : Settings} {h next : History} {stream fragment : Bytes}

/-- Two steps of a pass return exactly if both do. -/
theorem Step.bind_eq_ok {α β : Type} {x : Step α} {f : α → Step β} {b : β} :
    (x >>= f).run = .ok (.ok b) ↔ ∃ a, x.run = .ok (.ok a) ∧ (f a).run = .ok (.ok b) := by
  rw [ExceptT.run_bind]
  rcases x.run with d | e | a <;> simp

theorem trails_writeFrom (ht : Trails s h stream) {allowance : Nat → Allowance}
    {attempt more : Nat} {outcome : WriteOutcome}
    (hwrite : writeFrom h allowance fragment attempt more = .ok (.ok outcome, next)) :
    Trails s next (stream ++ fragment) := by
  induction more generalizing h attempt with
  | zero => exact ht.write hwrite
  | succ more ih =>
    obtain ⟨⟨result, mid⟩, hfirst, hrest⟩ := Checked.bind_eq_ok.1 hwrite
    have hmid := ht.write hfirst
    cases result with
    | ok _ =>
      cases hrest
      exact hmid
    | error e =>
      simp only at hrest
      split at hrest
      · exact ih hmid hrest
      · cases hrest

/-- The fragments that were written, some of them at the second or third attempt, are added one
after the other. -/
theorem trails_writeAll (ht : Trails s h stream) {memory : Memory} {number : Nat}
    {parts : List Bytes} (hwrite : (writeAll h memory number parts).run = .ok (.ok next)) :
    Trails s next (stream ++ parts.flatten) := by
  induction parts generalizing h stream number with
  | nil =>
    cases hwrite
    rwa [List.flatten_nil, List.append_nil]
  | cons fragment parts ih =>
    obtain ⟨mid, hfirst, hrest⟩ := Step.bind_eq_ok.1 hwrite
    obtain ⟨⟨result, after⟩, hfragment, hout⟩ := Checked.bind_eq_ok.1 hfirst
    cases result with
    | error e => cases hout
    | ok outcome =>
      cases hout
      rw [List.flatten_cons, ← List.append_assoc]
      exact ih (trails_writeFrom ht hfragment) hrest

theorem flatten_of_fragments {σ : Type} {draw : Draw σ} {start : σ} {longest : Nat} {input : Bytes}
    {parts : List Bytes} (h : fragments draw start longest input = .ok parts) :
    parts.flatten = input := by
  unfold fragments at h
  split at h
  next hempty =>
    cases h
    exact (List.isEmpty_iff.1 hempty).symm
  next =>
    split at h
    · cases h
      exact flatten_fragmentsFrom _ _ _ _
    · cases h

theorem during_eq_ok {α : Type} {stage : Stage} {call : Checked (Except HistoryError α)} {a : α}
    (h : (during stage call).run = .ok (.ok a)) : call = .ok (.ok a) := by
  rcases call with d | e | b
  · cases h
  · cases h
  · cases h
    rfl

theorem liftM_eq_ok {α : Type} {x : Checked α} {a : α}
    (h : (liftM x : Step α).run = .ok (.ok a)) : x = .ok a := by
  cases x with
  | error d => cases h
  | ok b =>
    cases h
    rfl

theorem stats_eq_ok (hs : h.Sound) (halive : h.poisoned = false) {stats : HistoryStats}
    (hstats : h.stats = .ok (.ok stats)) :
    stats.log.records = h.log.toList.length ∧
      stats.assembler.pendingBytes = h.assembler.pending.bytes.length := by
  rw [History.stats, History.inspect_of_alive halive, hs.holds.stats_eq] at hstats
  cases hstats
  exact ⟨rfl, Pending.length_eq _⟩

/-- What is read back is an end of the data retained, whatever the room of the reads. -/
theorem readBack_eq_ok (hs : h.Sound) (halive : h.poisoned = false) {room : Nat} {output : Bytes}
    (hback : (readBack h room).run = .ok (.ok (output, next))) :
    output <:+ h.log.toList.flatMap Record.bytes ∧
      ∃ transfers, next = h.counting transfers := by
  obtain ⟨_, -, hread⟩ := Step.bind_eq_ok.1 hback
  obtain ⟨⟨result, last, after⟩, hdrain, hout⟩ := Checked.bind_eq_ok.1 hread
  rw [Cursor.opened, Cursor.drain_eq hs halive, if_pos (by decide)] at hdrain
  cases hdrain
  cases hout
  refine ⟨?_, _, rfl⟩
  obtain rfl | hroom := Nat.eq_zero_or_pos room
  · have hnil : Log.piece h.log.toList 0 0 = [] := Log.piece_eq_nil_iff.2 (.inl rfl)
    rw [Log.pieces, if_pos hnil]
    exact List.nil_suffix
  · rw [Log.flatten_pieces hroom]
    exact List.suffix_rfl

end Pass

/-! ### What is checked -/

/-- A report is right about an input. -/
structure Report.RightAbout (r : Report) (input : Bytes) (capacity : Nat) : Prop where
  unterminated_le : r.unterminated ≤ input.length
  completedInput_eq : r.completedInput = input.length - r.unterminated
  output_suffix : r.output <:+ input.take r.completedInput
  retained_eq : r.retained = min r.metrics.recordsCompleted capacity

theorem Report.verify_eq_true_iff {r : Report} {input : Bytes} {capacity : Nat} :
    r.verify input capacity = .ok true ↔ r.completedInput ≤ input.length ∧
      r.output <:+ input.take r.completedInput ∧
      r.retained = min r.metrics.recordsCompleted capacity := by
  unfold verify
  split
  next hle => simp [hle]
  next hgt => simp [hgt]

namespace Report.RightAbout

variable {r : Report} {input : Bytes} {capacity : Nat}

theorem completedInput_le (h : r.RightAbout input capacity) : r.completedInput ≤ input.length := by
  rw [h.completedInput_eq]
  exact Nat.sub_le _ _

theorem verify_eq (h : r.RightAbout input capacity) : r.verify input capacity = .ok true :=
  verify_eq_true_iff.2 ⟨h.completedInput_le, h.output_suffix, h.retained_eq⟩

/-- With another output, only where it stands in the input matters. -/
theorem verify_output (h : r.RightAbout input capacity) (output : Bytes) :
    { r with output }.verify input capacity = .ok true ↔
      output <:+ input.take r.completedInput := by
  rw [verify_eq_true_iff]
  exact ⟨fun hverify => hverify.2.1, fun hend => ⟨h.completedInput_le, hend, h.retained_eq⟩⟩

end Report.RightAbout

namespace Pass

/-- Every pass that returns is right about its input. -/
theorem performDrawing_right {σ : Type} {draw : Draw σ} {start : σ} {c : Config} {memory : Memory}
    {input : Bytes} {report : Report}
    (hrun : (performDrawing draw start c memory input).run = .ok (.ok report)) :
    report.RightAbout input c.history.capacity := by
  obtain ⟨empty, hcreate, hrun⟩ := Step.bind_eq_ok.1 hrun
  obtain ⟨parts, hparts, hrun⟩ := Step.bind_eq_ok.1 hrun
  obtain ⟨written, hwrite, hrun⟩ := Step.bind_eq_ok.1 hrun
  obtain ⟨stats, hstats, hrun⟩ := Step.bind_eq_ok.1 hrun
  obtain ⟨⟨output, drained⟩, hback, hrun⟩ := Step.bind_eq_ok.1 hrun
  obtain ⟨metrics, hcounters, hrun⟩ := Step.bind_eq_ok.1 hrun
  obtain ⟨completed, hsub, hout⟩ := Step.bind_eq_ok.1 hrun
  cases hout
  have ht := trails_writeAll (.of_create (during_eq_ok hcreate)) hwrite
  rw [flatten_of_fragments (liftM_eq_ok hparts), List.nil_append] at ht
  obtain ⟨hretained, hpending⟩ := stats_eq_ok ht.sound ht.alive (during_eq_ok hstats)
  obtain ⟨hsuffix, transfers, rfl⟩ := readBack_eq_ok ht.sound ht.alive hback
  have hmetrics := during_eq_ok hcounters
  rw [History.counters, History.inspect_of_alive (by exact ht.alive)] at hmetrics
  cases hmetrics
  have hle := hpending ▸ ht.length_pending_le
  have hcompleted := liftM_eq_ok hsub
  rw [Word.sub_eq_ok hle] at hcompleted
  cases hcompleted
  exact ⟨hle, rfl, hsuffix.trans (hpending ▸ ht.data_suffix), hretained.trans ht.length_eq⟩

end Pass

/-! ### Sessions -/

namespace Session

variable {m : Type → Type} [Monad m] [LawfulMonad m] [Host m]

/-- What follows a pass may rely on a report that passes its check. -/
theorem performTimed_bind_congr {β : Type} (c : Config) (memory : Pass.Memory) (input : Bytes)
    {next next' : Report → ExceptT SessionError m β}
    (h : ∀ report, report.verify input c.history.capacity = .ok true →
      next report = next' report) :
    performTimed c memory input >>= next = performTimed c memory input >>= next' := by
  simp only [performTimed, bind_assoc]
  refine bind_congr fun started => bind_congr fun _ => ?_
  rcases hrun : (Pass.perform c memory input).run with d | e | report
  · exact ExceptT.ext (by simp)
  · exact ExceptT.ext (by simp)
  · simp only [bind_assoc, pure_bind]
    refine bind_congr fun ended => h _ ?_
    exact (Pass.performDrawing_right hrun).verify_eq

/-- To call each verdict of a session right changes nothing. -/
theorem map_execute (c : Config) (memory : Pass.Memory) :
    (fun _ => true) <$> execute (m := m) c memory = execute c memory := by
  simp only [execute, map_bind]
  refine bind_congr fun _ => bind_congr fun input => bind_congr fun _ => ?_
  refine performTimed_bind_congr c memory input fun report hverify => ?_
  simp only [hverify, map_bind, map_pure]

/-- A session that comes to check its report ends with success. -/
theorem conduct_eq (c : Config) (memory : Pass.Memory) :
    conduct (m := m) c memory = (do
      match ← (execute c memory).run with
      | .ok _ => return 0
      | .error e => abandon c e) := by
  rw [conduct, ← map_execute, ExceptT.run_map]
  simp only [map_eq_pure_bind, bind_assoc, pure_bind]
  refine bind_congr fun result => ?_
  cases result with
  | error e => rfl
  | ok verdict => rfl

/-- On a lawful host no session comes to the verdict that its report is wrong. -/
theorem execute_ne_false {σ : Type} {v : Host.View m σ} (hv : v.Lawful) (c : Config)
    (memory : Pass.Memory) (s : σ) : (v.run (execute c memory).run s).1 ≠ .ok false := by
  rw [← map_execute, ExceptT.run_map, hv.run_map]
  rcases (v.run (execute c memory).run s).1 with e | verdict
  · exact fun h => nomatch h
  · exact fun h => Bool.noConfusion (Except.ok.inj h)

end Session

namespace Pass

/-- Every pass that returns is right about its input and passes its check, whatever the policy, the
source of the lengths and the memory. If its memory can be had, it does return. Hence no session
has the verdict that its report is wrong: to call each verdict right changes nothing, a session that
comes to check its report ends with success, and on a lawful host the verdict is never seen. -/
theorem performDrawing_verifies :
    (∀ {σ : Type} (draw : Draw σ) (start : σ) (c : Config) (memory : Memory) (input : Bytes),
      (∀ report, (performDrawing draw start c memory input).run = .ok (.ok report) →
        report.RightAbout input c.history.capacity ∧
          report.verify input c.history.capacity = .ok true) ∧
      (c.Feasible → input.length < wordCount →
        ∃ report, (performDrawing draw start c .ample input).run = .ok (.ok report))) ∧
    ∀ {m : Type → Type} [Monad m] [LawfulMonad m] [Host m] (c : Config) (memory : Memory),
      (fun _ => true) <$> Session.execute (m := m) c memory = Session.execute c memory ∧
      Session.conduct (m := m) c memory = (do
        match ← (Session.execute c memory).run with
        | .ok _ => return 0
        | .error e => Session.abandon c e) ∧
      ∀ {σ : Type} (v : Host.View m σ), v.Lawful →
        ∀ s, (v.run (Session.execute c memory).run s).1 ≠ .ok false := by
  constructor
  · refine fun draw start c memory input => ⟨fun report hrun => ?_, fun hc hinput => ?_⟩
    · exact ⟨performDrawing_right hrun, (performDrawing_right hrun).verify_eq⟩
    · obtain ⟨parts, metrics, -, hrun⟩ := performDrawing_agrees draw start hc hinput
      exact ⟨_, hrun⟩
  · exact fun c memory => ⟨Session.map_execute c memory, Session.conduct_eq c memory,
      fun v hv => Session.execute_ne_false hv c memory⟩

/-- Three lines and the start of a fourth one, of which a history with two slots gets whole
fragments of up to three bytes as records. It keeps the last two of them, one of which is cut where
no line ends. -/
theorem performDrawing_verifies_folded :
    let c : Config := ⟨none, [], ⟨2, 10, .firstDelimiter⟩, 42, 3, 2, 0, false, false, false⟩
    let draw : Draw Unit := fun longest _ s => (longest, s)
    let input : Bytes := [97, 10, 98, 98, 10, 10, 99, 10, 100, 101]
    let report : Report :=
      ⟨[98, 10, 10, 99, 10, 100], 9, 1, 2, ⟨4, 10, 0, 3, 0, 1, 3, 5, 6, 1, none⟩⟩
    c.Feasible ∧ input.length < wordCount ∧
    ((performDrawing draw () c .ample input).run = .ok (.ok report) ∧
      report.verify input 2 = .ok true) ∧
    (∃ drawn, (perform c .ample input).run = .ok (.ok drawn) ∧ drawn.verify input 2 = .ok true) ∧
    World.view.Lawful ∧
    (World.view.run (Session.execute c .ample).run (.start (fun _ => none) [] [] [])).1 ≠
      .ok false := by
  intro c draw input report
  have hc : c.Feasible := ⟨by decide, by decide, by decide, by decide, by decide⟩
  have hinput : input.length < wordCount := by decide
  have hparts : fragments draw () c.maxFragment input =
      .ok [[97, 10, 98], [98, 10, 10], [99, 10, 100], [101]] := by
    simp [fragments, fragmentsFrom, draw, c, input]
  have hrun : (performDrawing draw () c .ample input).run = .ok (.ok report) := by
    rw [performDrawing, hparts]
    decide +kernel
  obtain ⟨hpasses, hsessions⟩ := performDrawing_verifies
  obtain ⟨hright, -⟩ := hpasses draw () c .ample input
  obtain ⟨hdrawn, hreturns⟩ :=
    hpasses (Random.wordSource.between 1) (Random.Stream.ofSeed c.seed) c .ample input
  obtain ⟨drawn, hother⟩ := hreturns hc hinput
  obtain ⟨-, -, hnever⟩ := hsessions (m := StateM World) c .ample
  exact ⟨hc, hinput, ⟨hrun, (hright report hrun).2⟩, ⟨drawn, hother, (hdrawn drawn hother).2⟩,
    World.view_lawful, hnever World.view World.view_lawful _⟩

/-! ### Another output -/

/-- The check of a report whose output is another one says whether this is an end of the completed
input. Together with its length it says whether this is what the history retains: the last of the
completed lines, as many as there are slots. -/
theorem verify_output_iff {σ : Type} (draw : Draw σ) (start : σ) {c : Config} {input : Bytes}
    (hc : c.Feasible) (hpolicy : c.history.policy = .split) (hinput : input.length < wordCount) :
    ∃ report, (performDrawing draw start c .ample input).run = .ok (.ok report) ∧
      report.OnLastLines c.history input ∧
      ∃ tail, tail = ((Framing.lines c.history.delimiter input).rtake
          (min c.history.capacity report.metrics.recordsCompleted)).flatten ∧
        ∀ output : Bytes,
          ({ report with output }.verify input c.history.capacity = .ok true ↔
            output <:+ input.take report.completedInput) ∧
          ({ report with output }.verify input c.history.capacity = .ok true ∧
            output.length = tail.length ↔ output = tail) := by
  obtain ⟨report, hrun, hlines⟩ := performDrawing_eq draw start hc hpolicy hinput
  have hright := performDrawing_right hrun
  -- Both counts of the records retained are the same, one by the delimiters of the input.
  have hcount := hlines.retained_eq.symm.trans hright.retained_eq
  rw [Nat.min_comm report.metrics.recordsCompleted] at hcount
  have htail := hlines.output_eq
  rw [hcount] at htail
  refine ⟨report, hrun, hlines, report.output, htail, fun output => ?_⟩
  have hverify := hright.verify_output output
  refine ⟨hverify, ?_⟩
  rw [hverify]
  constructor
  · rintro ⟨hend, hlength⟩
    have hshorter := List.suffix_of_suffix_length_le hend hright.output_suffix hlength.le
    exact hshorter.eq_of_length hlength
  · rintro rfl
    exact ⟨hright.output_suffix, rfl⟩

/-- The first of two lines is pushed out by the second one. Both lines together pass the check as
well, as they are an end of the completed input; the first one, which has the right length, does
not. -/
theorem verify_output_iff_overlong :
    let c : Config := ⟨none, [], ⟨1, 10, .split⟩, 42, 3, 2, 0, false, false, false⟩
    let input : Bytes := [97, 10, 98, 10, 99]
    c.Feasible ∧ c.history.policy = .split ∧ input.length < wordCount ∧
    ∃ report, (perform c .ample input).run = .ok (.ok report) ∧
      { report with output := [98, 10] }.verify input 1 = .ok true ∧
      { report with output := [97, 10, 98, 10] }.verify input 1 = .ok true ∧
      { report with output := [97, 10] }.verify input 1 ≠ .ok true := by
  intro c input
  have hc : c.Feasible := ⟨by decide, by decide, by decide, by decide, by decide⟩
  have hinput : input.length < wordCount := by decide
  obtain ⟨report, hrun, hlines, tail, -, hverdict⟩ :=
    verify_output_iff (Random.wordSource.between 1) (Random.Stream.ofSeed c.seed) hc rfl hinput
  have hcompleted : input.take report.completedInput = [97, 10, 98, 10] := by
    rw [hlines.completedInput_eq, hlines.unterminated_eq]
    decide
  rw [hcompleted] at hverdict
  refine ⟨hc, rfl, hinput, report, hrun, (hverdict _).1.2 ?_, (hverdict _).1.2 ?_, fun h => ?_⟩
  · exact ⟨[97, 10], rfl⟩
  · exact List.suffix_rfl
  · exact absurd ((hverdict _).1.1 h) (by decide)

/-- The check lets an output pass that lacks the first of two lines retained. -/
theorem verify_accepts_truncated :
    let c : Config := ⟨none, [], ⟨2, 10, .split⟩, 42, 4, 8, 0, false, false, false⟩
    let input : Bytes := [97, 10, 98, 10]
    ∃ report, (perform c .ample input).run = .ok (.ok report) ∧
      { report with output := [98, 10] }.verify input 2 = .ok true ∧
      ((Framing.lines 10 input).rtake (min 2 report.metrics.recordsCompleted)).flatten =
        [97, 10, 98, 10] := by
  intro c input
  have hc : c.Feasible := ⟨by decide, by decide, by decide, by decide, by decide⟩
  obtain ⟨report, hrun, hlines⟩ := performDrawing_eq (Random.wordSource.between 1)
    (Random.Stream.ofSeed c.seed) hc rfl (by decide : input.length < wordCount)
  have hright := performDrawing_right hrun
  have hretained : report.retained = 2 := hlines.retained_eq
  have hcompleted : report.completedInput = 4 := by
    rw [hlines.completedInput_eq, hlines.unterminated_eq]
    decide
  refine ⟨report, hrun, (hright.verify_output _).2 ?_, ?_⟩
  · rw [hcompleted]
    exact ⟨[97, 10], rfl⟩
  · have hcount := hright.retained_eq
    rw [hretained, Nat.min_comm] at hcount
    rw [← hcount]
    decide

end Pass

end Scrollback
