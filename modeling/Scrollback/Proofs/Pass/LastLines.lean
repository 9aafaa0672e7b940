import Scrollback.Pass
import Scrollback.Proofs.History.Reading
import Scrollback.Proofs.History.Stream
/-!
# The last lines of an input

Under the split policy, and with memory for everything, a pass is a way to find the last lines of
its input. The reference of its history is a function of the bytes written so far
(`Reference.ofStream`), whatever the fragments they came in, and what is read back does not depend
on the room of the reads (`Cursor.drain_eq`). So neither the source of the random lengths nor their
bound nor the room leaves a trace in the output, which `Pass.perform_lastLines` says.
-/

namespace Scrollback

open Scrollback.Random (Draw)

/-- What a pass needs can be had: there are slots, a length to draw and room to read into, and
neither the slots nor the room are more than an address can span. -/
structure Config.Feasible (c : Config) : Prop where
  capacity_pos : 1 ≤ c.history.capacity
  maxFragment_pos : 1 ≤ c.maxFragment
  readChunk_pos : 1 ≤ c.readChunk
  slots_le : Record.entrySize * c.history.capacity ≤ blockBound
  buffer_le : c.readChunk ≤ blockBound

/-- A report has the last lines of an input, as many as a history of some settings retains. -/
structure Report.OnLastLines (r : Report) (s : Settings) (input : Bytes) : Prop where
  output_eq : r.output =
    ((Framing.lines s.delimiter input).rtake (min s.capacity (input.count s.delimiter))).flatten
  /-- No delimiter follows these bytes. -/
  unterminated_eq : r.unterminated = (Framing.remainder s.delimiter input).length
  completedInput_eq : r.completedInput = input.length - r.unterminated
  retained_eq : r.retained = min s.capacity (input.count s.delimiter)

/-! ### What is written -/

namespace Pass

theorem flatten_fragmentsFrom {σ : Type} (draw : σ → Nat × σ) (s : σ) (done : List Bytes)
    (input : Bytes) :
    (fragmentsFrom draw s done input).flatten = done.reverse.flatten ++ input := by
  fun_induction fragmentsFrom draw s done input with
  | case1 => simp
  | case2 s done b rest drawn ih => simp [ih]

theorem fragments_eq {σ : Type} (draw : Draw σ) (s : σ) {longest : Nat} (h : 1 ≤ longest)
    (input : Bytes) :
    ∃ parts, fragments draw s longest input = .ok parts ∧ parts.flatten = input := by
  unfold fragments
  split
  next hempty => exact ⟨[], rfl, by simpa using hempty.symm⟩
  next => exact ⟨_, rfl, flatten_fragmentsFrom (draw longest h) s [] input⟩

theorem writeRetrying_ample {h next : History} {fragment : Bytes} {outcome : WriteOutcome}
    (hwrite : h.write none fragment = .ok (.ok outcome, next)) (number : Nat) :
    writeRetrying h (Memory.ample number) fragment = .ok (.ok outcome, next) := by
  rw [writeRetrying, retries, writeFrom, Memory.ample, hwrite]
  rfl

/-- With memory for everything a history follows its reference. -/
theorem writeAll_eq {s : Settings} {h : History} {m : Reference} (hagrees : h.Agrees s m)
    (number : Nat) (parts : List Bytes) (fits : m.appended + parts.flatten.length < wordCount) :
    ∃ next, writeAll h .ample number parts = pure next ∧ next.Agrees s (m.writeAll s parts) := by
  induction parts generalizing h m number with
  | nil => exact ⟨h, rfl, hagrees⟩
  | cons fragment parts ih =>
    rw [List.flatten_cons, List.length_append] at fits
    obtain ⟨mid, hwrite, hmid⟩ := hagrees.write_eq fragment (by omega)
    obtain ⟨next, hrest, hnext⟩ := ih hmid (number + 1) (by
      change m.appended + fragment.length + parts.flatten.length < wordCount
      omega)
    refine ⟨next, ?_, hnext⟩
    rw [writeAll, writeRetrying_ample hwrite]
    exact hrest

/-! ### What is read back -/

theorem during_ok {α : Type} (stage : Stage) (a : α) :
    during stage (.ok (.ok a)) = pure a := rfl

theorem liftM_ok {α : Type} (a : α) : (liftM (Except.ok a : Checked α) : Step α) = pure a := rfl

theorem readBack_eq {s : Settings} {h : History} {m : Reference} (hagrees : h.Agrees s m)
    (fits : m.appended < wordCount) {room : Nat} (hroom : 1 ≤ room) (hblock : room ≤ blockBound) :
    ∃ next, readBack h room = pure (m.data, next) ∧ next.poisoned = false := by
  have hlist := hagrees.holds.toList_eq
  have hle := hagrees.length_le
  have hs : h.Sound := ⟨hlist ▸ hagrees.holds, by rw [hlist]; omega⟩
  have hdrain := Cursor.drain_eq hs hagrees.poisoned_eq room 0
  have hdata : (Log.pieces m.live room 0).flatten = m.data := Log.flatten_pieces hroom 0
  rw [if_pos (by decide), hlist] at hdrain
  refine ⟨h.counting (Transfer.drained room (Log.pieces m.live room 0)), ?_, hagrees.poisoned_eq⟩
  rw [readBack, checkBlock, if_pos hblock, Cursor.opened, hdrain, liftM_ok, pure_bind, ← hdata]
  rfl

/-! ### The whole pass -/

/-- A pass whose memory can be had returns what its reference holds in the end. -/
theorem performDrawing_agrees {σ : Type} (draw : Draw σ) (start : σ) {c : Config} {input : Bytes}
    (hc : c.Feasible) (hinput : input.length < wordCount) :
    ∃ (parts : List Bytes) (metrics : Metrics), parts.flatten = input ∧
      let m := Reference.fresh.writeAll c.history parts
      (performDrawing draw start c .ample input).run = .ok (.ok
        ⟨m.data, input.length - m.pending.length, m.pending.length, m.live.length, metrics⟩) := by
  have hcreate := History.create_eq hc.capacity_pos hc.slots_le
  have hnew := History.create_agrees hcreate
  obtain ⟨parts, hparts, rfl⟩ := fragments_eq draw start hc.maxFragment_pos input
  obtain ⟨written, hwrite, hwritten⟩ := writeAll_eq hnew 0 parts (by
    rwa [Reference.fresh, Nat.zero_add])
  have happended := Reference.writeAll_appended c.history .fresh parts
  generalize hm : Reference.fresh.writeAll c.history parts = m at hwritten happended
  have hlength : m.appended = parts.flatten.length := happended.trans (Nat.zero_add _)
  obtain ⟨drained, hback, halive⟩ :=
    readBack_eq hwritten (hlength ▸ hinput) hc.readChunk_pos hc.buffer_le
  have hcounters : drained.counters = .ok (.ok drained.metrics) := by
    rw [History.counters, History.inspect_of_alive halive]
  -- From here on the fragments are forgotten: all is read off the reference.
  have hstats := hwritten.stats_eq
  have hrest : (m.stats c.history).assembler.pendingBytes ≤ parts.flatten.length := by
    rw [← hlength]
    exact (Nat.le_add_left _ _).trans hwritten.length_le
  refine ⟨parts, drained.metrics, rfl, ?_⟩
  rw [hm]
  simp only [performDrawing, hcreate, hparts, hwrite, hstats, hback, hcounters,
    Word.sub_eq_ok hrest, during_ok, liftM_ok, pure_bind]
  rfl

/-- Whatever source the lengths are drawn from, the pass returns the last lines of its input. -/
theorem performDrawing_eq {σ : Type} (draw : Draw σ) (start : σ) {c : Config} {input : Bytes}
    (hc : c.Feasible) (hpolicy : c.history.policy = .split) (hinput : input.length < wordCount) :
    ∃ report, (performDrawing draw start c .ample input).run = .ok (.ok report) ∧
      report.OnLastLines c.history input := by
  obtain ⟨parts, metrics, rfl, hrun⟩ := performDrawing_agrees draw start hc hinput
  rw [← Reference.ofStream_nil c.history, Reference.writeAll_ofStream hpolicy,
    List.nil_append] at hrun
  exact ⟨_, hrun, Reference.data_ofStream _ _, rfl, rfl, Reference.length_live_ofStream _ _⟩

/-- Under the split policy, a pass whose memory can be had returns the last lines of its input,
whatever source the lengths of the fragments are drawn from. So does the pass with the lengths that
the seed gives, and another seed, longest fragment or room changes nothing but the counters. -/
theorem perform_lastLines {c : Config} {input : Bytes} (hc : c.Feasible)
    (hpolicy : c.history.policy = .split) (hinput : input.length < wordCount) :
    (∀ {σ : Type} (draw : Draw σ) (start : σ), ∃ report,
      (performDrawing draw start c .ample input).run = .ok (.ok report) ∧
      report.OnLastLines c.history input) ∧
    ∃ report, (perform c .ample input).run = .ok (.ok report) ∧
      report.OnLastLines c.history input ∧
      ∀ seed maxFragment readChunk, 1 ≤ maxFragment → 1 ≤ readChunk → readChunk ≤ blockBound →
        ∃ other, (perform { c with seed, maxFragment, readChunk } .ample input).run =
            .ok (.ok other) ∧
          other.output = report.output ∧ other.completedInput = report.completedInput ∧
          other.unterminated = report.unterminated ∧ other.retained = report.retained := by
  refine ⟨fun draw start => performDrawing_eq draw start hc hpolicy hinput, ?_⟩
  obtain ⟨report, hrun, hreport⟩ := performDrawing_eq (Random.wordSource.between 1)
    (Random.Stream.ofSeed c.seed) hc hpolicy hinput
  refine ⟨report, hrun, hreport, fun seed maxFragment readChunk hfragment hroom hbuffer => ?_⟩
  have hother : Config.Feasible { c with seed, maxFragment, readChunk } :=
    ⟨hc.capacity_pos, hfragment, hroom, hc.slots_le, hbuffer⟩
  obtain ⟨other, hrun', hsame⟩ := performDrawing_eq (Random.wordSource.between 1)
    (Random.Stream.ofSeed seed) hother hpolicy hinput
  have hunterminated := hsame.unterminated_eq.trans hreport.unterminated_eq.symm
  refine ⟨other, hrun', hsame.output_eq.trans hreport.output_eq.symm, ?_, hunterminated,
    hsame.retained_eq.trans hreport.retained_eq.symm⟩
  rw [hsame.completedInput_eq, hreport.completedInput_eq, hunterminated]

/-- Of two lines and some bytes behind them, a history with one slot retains the second line,
whether the seed gives the lengths or each fragment is as long as it may be. -/
theorem perform_lastLines_crossing :
    let c : Config := ⟨none, [], ⟨1, 10, .split⟩, 42, 3, 2, 0, false, false, false⟩
    let input : Bytes := [111, 110, 101, 10, 116, 119, 111, 10, 116, 104, 114]
    c.Feasible ∧ c.history.policy = .split ∧ input.length < wordCount ∧
    (∃ report, (perform c .ample input).run = .ok (.ok report) ∧
      report.output = [116, 119, 111, 10] ∧ report.unterminated = 3 ∧
      report.completedInput = 8 ∧ report.retained = 1) ∧
    ∃ report, (performDrawing (fun longest _ (s : Unit) => (longest, s)) () c .ample input).run =
        .ok (.ok report) ∧
      report.output = [116, 119, 111, 10] := by
  intro c input
  have hc : c.Feasible := ⟨by decide, by decide, by decide, by decide, by decide⟩
  have hinput : input.length < wordCount := by decide
  obtain ⟨hdrawing, report, hrun, hreport, -⟩ := perform_lastLines hc rfl hinput
  obtain ⟨other, hother, hsame⟩ := hdrawing (fun longest _ (s : Unit) => (longest, s)) ()
  have hlines : ((Framing.lines 10 input).rtake (min 1 (input.count 10))).flatten =
      [116, 119, 111, 10] := by decide
  have hrest : (Framing.remainder 10 input).length = 3 := by decide
  have hunterminated := hreport.unterminated_eq.trans hrest
  have hcompleted := hreport.completedInput_eq
  rw [hunterminated] at hcompleted
  exact ⟨hc, rfl, hinput,
    ⟨report, hrun, hreport.output_eq.trans hlines, hunterminated, hcompleted,
      hreport.retained_eq⟩,
    other, hother, hsame.output_eq.trans hlines⟩

end Pass

end Scrollback
