import Scrollback.Proofs.History.Draining
import Scrollback.Proofs.History.Ledger
import Scrollback.Proofs.Pass.Retrying
import Scrollback.Proofs.Random
/-!
# What the counters of a pass say

The counters that a pass reports are functions of its input, of the fragments that the input was cut
into, and of the records that are left (`Pass.Exact`). Those of the writes come from the ledger of a
history: the fragments are calls on a desk whose entries are all writes that were taken in, so the
tally of these entries counts no refusal, no discard and no read. Those of the reads come from the
pieces that a drain reads.
-/

namespace Scrollback

open Scrollback.Random (Draw)
open Record (totalLength)

/-- The number of records that fragments complete: one for each delimiter in them, or one for each
fragment with a delimiter in it. -/
def Settings.completions (s : Settings) (parts : List Bytes) : Nat :=
  match s.policy with
  | .split => parts.flatten.count s.delimiter
  | .firstDelimiter => parts.countP (s.delimiter ∈ ·)

namespace Assembler

theorem length_acceptAll_split {a : Assembler} (hpolicy : a.policy = .split)
    (hpending : a.pending.bytes = []) (fragments : List Bytes) :
    ((a.acceptAll fragments).1.flatMap Assembly.records).length =
      fragments.flatten.count a.delimiter := by
  rw [(acceptAll_split hpolicy fragments).1, hpending, Framing.join_nil_left, List.length_map,
    Framing.length_cut]

theorem length_acceptAll_firstDelimiter {a : Assembler} (hpolicy : a.policy = .firstDelimiter)
    (fragments : List Bytes) :
    ((a.acceptAll fragments).1.flatMap Assembly.records).length =
      fragments.countP (a.delimiter ∈ ·) := by
  induction fragments generalizing a with
  | nil => rfl
  | cons fragment fragments ih =>
    have hrest := ih (a := (a.accept fragment).2) (by rwa [accept_policy])
    rw [accept_delimiter] at hrest
    rw [acceptAll, List.flatMap_cons, List.length_append, hrest,
      (accept_firstDelimiter hpolicy fragment).1, List.countP_cons, Nat.add_comm]
    congr 1
    by_cases hmem : a.delimiter ∈ fragment <;> simp [hmem]

/-- A new assembler counts what it took in and what that completed. -/
theorem acceptAll_fresh (s : Settings) (parts : List Bytes) :
    let a := ((fresh s.delimiter s.policy).acceptAll parts).2
    a.bytesAppended = parts.flatten.length ∧ a.recordsCompleted = s.completions parts := by
  obtain ⟨hbytes, hrecords⟩ := acceptAll_counters (fresh s.delimiter s.policy) parts
  refine ⟨hbytes.trans (Nat.zero_add _), hrecords.trans ((Nat.zero_add _).trans ?_)⟩
  unfold Settings.completions
  split
  next hpolicy => exact length_acceptAll_split hpolicy rfl parts
  next hpolicy => exact length_acceptAll_firstDelimiter hpolicy parts

end Assembler

/-! ### Cutting -/

namespace Pass

variable {σ : Type}

/-- No fragment is empty, and none is longer than the longest length that is drawn. -/
theorem length_of_mem_fragmentsFrom {draw : σ → Nat × σ} {longest : Nat} (hlongest : 1 ≤ longest)
    (hdraw : ∀ s, (draw s).1 ≤ longest) {s : σ} {done : List Bytes} {input : Bytes}
    (hdone : ∀ part ∈ done, 1 ≤ part.length ∧ part.length ≤ longest) :
    ∀ part ∈ fragmentsFrom draw s done input, 1 ≤ part.length ∧ part.length ≤ longest := by
  fun_induction fragmentsFrom draw s done input with
  | case1 s done => simpa only [List.mem_reverse] using hdone
  | case2 s done b rest drawn ih =>
    refine ih (List.forall_mem_cons.2 ⟨?_, hdone⟩)
    have hle : drawn.1 ≤ longest := hdraw s
    rw [List.length_cons, List.length_take]
    omega

theorem length_of_mem_fragments {draw : Draw σ} {start : σ} {longest : Nat} {input : Bytes}
    {parts : List Bytes} (hdraw : ∀ h s, (draw longest h s).1 ≤ longest)
    (hparts : fragments draw start longest input = .ok parts) :
    ∀ part ∈ parts, 1 ≤ part.length ∧ part.length ≤ longest := by
  unfold fragments at hparts
  split at hparts
  next =>
    cases hparts
    exact nofun
  next =>
    split at hparts
    next hlongest =>
      cases hparts
      exact length_of_mem_fragmentsFrom hlongest (hdraw hlongest) nofun
    next => cases hparts

/-- There are as many fragments as it takes at least, and no more than there are bytes. -/
theorem length_fragments {draw : Draw σ} {start : σ} {longest : Nat} {input : Bytes}
    {parts : List Bytes} (hdraw : ∀ h s, (draw longest h s).1 ≤ longest)
    (hparts : fragments draw start longest input = .ok parts) :
    input.length ⌈/⌉ longest ≤ parts.length ∧ parts.length ≤ input.length := by
  have hlengths := length_of_mem_fragments hdraw hparts
  have htotal := congrArg List.length (flatten_of_fragments hparts)
  rw [List.length_flatten] at htotal
  have hfew : input.length ≤ parts.length * longest := by
    have hsum := List.sum_le_card_nsmul (parts.map List.length) longest
      (List.forall_mem_map.2 fun part hmem => (hlengths part hmem).2)
    rwa [List.length_map, smul_eq_mul, htotal] at hsum
  have hmany : parts.length ≤ input.length := by
    have hsum := List.card_nsmul_le_sum (parts.map List.length) 1
      (List.forall_mem_map.2 fun part hmem => (hlengths part hmem).1)
    rwa [List.length_map, smul_eq_mul, Nat.mul_one, htotal] at hsum
  refine ⟨?_, hmany⟩
  obtain rfl | hlongest := Nat.eq_zero_or_pos longest
  · rw [Nat.mul_zero, Nat.le_zero] at hfew
    rw [hfew, zero_ceilDiv]
    exact Nat.zero_le _
  · rw [ceilDiv_le_iff_le_mul hlongest, Nat.mul_comm]
    exact hfew

end Pass

/-! ### Writing -/

namespace Journal

/-- Where all that was done is to take fragments in, the ledger has entries for nothing else. -/
theorem of_all_written {entries : List Entry} {taken : List WriteOutcome}
    (hreplies : entries.map Entry.reply = taken.map fun outcome => .written (.ok outcome)) :
    outcomes entries = taken ∧ released entries = [] ∧ dropped entries = [] ∧
      transfers entries = [] ∧ entries.countP Entry.isRefusal = 0 := by
  induction entries generalizing taken with
  | nil =>
    obtain rfl := List.map_eq_nil_iff.1 hreplies.symm
    exact ⟨rfl, rfl, rfl, rfl, rfl⟩
  | cons e entries ih =>
    cases taken with
    | nil => cases hreplies
    | cons outcome taken =>
      rw [List.map_cons, List.map_cons, List.cons.injEq] at hreplies
      obtain ⟨hreply, hrest⟩ := hreplies
      obtain ⟨rfl, hreleased, hdropped, htransfers, hrefusals⟩ := ih hrest
      unfold released at hreleased
      unfold dropped at hdropped
      unfold transfers at htransfers
      refine ⟨?_, ?_, ?_, ?_, ?_⟩ <;>
        simp [outcomes, released, dropped, transfers, Entry.outcome?, Entry.released?,
          Entry.dropped?, Entry.transfers, Entry.isRefusal, *]

end Journal

namespace Pass

open History (Trails)

/-- With memory for everything, each fragment is written at the first attempt: to write them all is
to make that many calls of a desk. -/
theorem writeAll_calls {s : Settings} {h next : History} {stream : Bytes} (ht : Trails s h stream)
    {number : Nat} {parts : List Bytes}
    (hwrite : (writeAll h .ample number parts).run = .ok (.ok next)) :
    ∃ taken : List WriteOutcome,
      (Desk.ofHistory h).performAll (parts.map (.write none)) =
        .ok (taken.map fun outcome => .written (.ok outcome), .ofHistory next) ∧
      taken.length = parts.length ∧
      next.assembler = (h.assembler.acceptAll parts).2 := by
  induction parts generalizing h stream number with
  | nil =>
    cases hwrite
    exact ⟨[], rfl, rfl, rfl⟩
  | cons fragment parts ih =>
    rcases hfirst : h.write none fragment with d | ⟨_ | outcome, mid⟩
    · rw [writeAll, writeRetrying, retries, writeFrom, Memory.ample, hfirst] at hwrite
      cases hwrite
    · have hok := (History.oblivious_write fragment h ht.alive _ _ hfirst).1
      cases hok
    · rw [writeAll_cons (writeRetrying_ample hfirst number)] at hwrite
      obtain ⟨taken, hrun, hlength, hassembler⟩ := ih (ht.write hfirst) hwrite
      refine ⟨outcome :: taken, ?_, congrArg Nat.succ hlength, ?_⟩
      · rw [List.map_cons, Desk.performAll, Desk.perform, Desk.ofHistory]
        simp only [hfirst, Checked.ok_bind, Checked.pure_eq_ok]
        rw [← Desk.ofHistory, hrun]
        rfl
      · obtain ⟨-, ⟨herror, -⟩ | ⟨_, herror, -⟩ | ⟨log, -, -, -, -, rfl⟩⟩ :=
          History.write_eq_ok ht.sound hfirst
        · cases herror
        · cases herror
        · exact hassembler

/-- What the ledger of a new history says when some fragments have been taken in and nothing else was
done. -/
structure Tallied (s : Settings) (h : History) (parts : List Bytes) : Prop where
  retained_le : h.log.toList.length ≤ s.completions parts
  bytes_le : totalLength h.log.toList + h.assembler.pending.length ≤ parts.flatten.length
  metrics_eq : h.metrics =
    { Metrics.fresh with
      fragmentsWritten := parts.length
      bytesWritten := parts.flatten.length
      recordsCompleted := s.completions parts
      recordsEvicted := s.completions parts - h.log.toList.length
      bytesEvicted :=
        parts.flatten.length - h.assembler.pending.length - totalLength h.log.toList }

theorem tallied_writeAll {s : Settings} {empty written : History} {parts : List Bytes}
    (hnew : History.create s = .ok (.ok empty))
    (hwrite : (writeAll empty .ample 0 parts).run = .ok (.ok written)) :
    Tallied s written parts := by
  obtain ⟨taken, hrun, hlength, hassembler⟩ := writeAll_calls (.of_create hnew) hwrite
  obtain ⟨entries, hruns, -, hreplies⟩ := Desk.performAll_eq_ok_iff.1 hrun
  have hbooks : Journal.Balanced entries written :=
    (hruns.invariant (History.create_sound hnew).1 (.of_create hnew)
      fun hearlier heffect => Journal.Balanced.effect hearlier heffect).2
  obtain ⟨houtcomes, hreleased, hdropped, htransfers, hrefusals⟩ :=
    Journal.of_all_written hreplies
  -- What the assembler took in is known without the ledger.
  obtain ⟨-, -, rfl⟩ := History.create_eq_ok hnew
  obtain ⟨hbytes, hcompleted⟩ := Assembler.acceptAll_fresh s parts
  have hwritten : written.metrics.bytesWritten = parts.flatten.length :=
    hbooks.assembler_bytes.symm.trans ((congrArg _ hassembler).trans hbytes)
  have hrecords : written.metrics.recordsCompleted = s.completions parts :=
    hbooks.assembler_records.symm.trans ((congrArg _ hassembler).trans hcompleted)
  have hkept := hbooks.records
  have hconserved := hbooks.bytes
  rw [hreleased, List.length_nil, Nat.add_zero, hrecords] at hkept
  rw [hreleased, hdropped, Record.totalLength_nil, List.sum_nil, hwritten] at hconserved
  refine ⟨by omega, by omega, ?_⟩
  rw [hbooks.metrics_eq] at hwritten hrecords hkept hconserved ⊢
  simp only [Journal.tally, houtcomes, hdropped, htransfers, hrefusals] at *
  simp only [Metrics.fresh, Metrics.mk.injEq, hlength, hwritten, hrecords, List.countP_nil,
    List.map_nil, List.sum_nil, List.length_nil, true_and, and_true]
  omega

/-! ### The report -/

/-- The way of a pass: the fragments that it writes, and the records that are left when it has. -/
structure Leaves (draw : Draw σ) (start : σ) (c : Config) (input : Bytes) (parts : List Bytes)
    (live : List Record) : Prop where
  fragments_eq : fragments draw start c.maxFragment input = .ok parts
  records_eq : ∃ empty written, History.create c.history = .ok (.ok empty) ∧
    (writeAll empty .ample 0 parts).run = .ok (.ok written) ∧ written.log.records = .ok live

/-- What a report and its counters say about an input that was cut into some fragments, and of which
some records are left. -/
structure Exact (c : Config) (input : Bytes) (parts : List Bytes) (live : List Record)
    (r : Report) : Prop where
  flatten_eq : parts.flatten = input
  fragments_ge : input.length ⌈/⌉ c.maxFragment ≤ parts.length
  fragments_le : parts.length ≤ input.length
  output_eq : r.output = live.flatMap Record.bytes
  output_le : r.output.length ≤ r.completedInput
  retained_eq : r.retained = live.length
  retained_le : r.retained ≤ c.history.completions parts
  metrics_eq : r.metrics =
    { fragmentsWritten := parts.length
      bytesWritten := input.length
      allocFailures := 0
      recordsCompleted := c.history.completions parts
      partialsDiscarded := 0
      recordsEvicted := c.history.completions parts - r.retained
      bytesEvicted := r.completedInput - r.output.length
      reads := 1 + (live.map fun record => record.length ⌈/⌉ c.readChunk).sum
      bytesRead := r.output.length
      readsAtEnd := 1
      elapsed := none }

/-- Reading a history back adds to its counters what the records left in it need. -/
theorem exact_of_reportOn {c : Config} {parts : List Bytes} {written : History} {report : Report}
    (hs : written.Sound) (halive : written.poisoned = false)
    (htally : Tallied c.history written parts)
    (hmany : parts.flatten.length ⌈/⌉ c.maxFragment ≤ parts.length)
    (hfew : parts.length ≤ parts.flatten.length) (hroom : 1 ≤ c.readChunk)
    (hreport : (reportOn c parts.flatten written).run = .ok (.ok report)) :
    Exact c parts.flatten parts written.log.toList report := by
  obtain ⟨hretained, hbytes, hmetrics⟩ := htally
  rw [reportOn_eq hs halive] at hreport
  obtain ⟨-, -, hreport⟩ := Checked.bind_eq_ok.1 hreport
  obtain ⟨completed, hsub, hreport⟩ := Checked.bind_eq_ok.1 hreport
  rw [Word.sub_eq_ok (by omega)] at hsub
  cases hsub
  cases hreport
  -- What is read back is the data left, in as many pieces as its records need.
  have hflatten : (Log.pieces written.log.toList c.readChunk 0).flatten =
      written.log.toList.flatMap Record.bytes := Log.flatten_pieces hroom 0
  have hpieces : (Log.pieces written.log.toList c.readChunk 0).length =
      (written.log.toList.map fun record => record.length ⌈/⌉ c.readChunk).sum := by
    rw [Log.length_pieces hroom, Log.piecesNeeded, Log.bytesFrom_zero, List.map_map]
    rfl
  have hlength := Record.length_flatMap_bytes written.log.toList
  refine ⟨rfl, hmany, hfew, hflatten, ?_, rfl, hretained, ?_⟩
  · rw [hflatten, hlength]
    exact Nat.le_sub_of_add_le hbytes
  · rw [History.counting_drained _ hroom fun piece hmem => (Log.length_of_mem_pieces hmem).1]
    simp only [hmetrics, hflatten, hlength, hpieces, Metrics.fresh, Metrics.mk.injEq, Nat.zero_add,
      true_and, and_true]
    exact Nat.add_comm _ _

theorem exact_of_returned {draw : Draw σ} {start : σ} {c : Config} {input : Bytes}
    {report : Report} (hdraw : ∀ longest h s, (draw longest h s).1 ≤ longest)
    (hroom : 1 ≤ c.readChunk)
    (hrun : (performDrawing draw start c .ample input).run = .ok (.ok report)) :
    ∃ parts live, Leaves draw start c input parts live ∧ Exact c input parts live report := by
  rw [performDrawing_eq_reportOn] at hrun
  obtain ⟨empty, hcreate, hrun⟩ := Step.bind_eq_ok.1 hrun
  obtain ⟨parts, hparts, hrun⟩ := Step.bind_eq_ok.1 hrun
  obtain ⟨written, hwrite, hreport⟩ := Step.bind_eq_ok.1 hrun
  have hnew := during_eq_ok hcreate
  have hcut := liftM_eq_ok hparts
  obtain rfl := flatten_of_fragments hcut
  have ht := trails_writeAll (.of_create hnew) hwrite
  obtain ⟨hmany, hfew⟩ := length_fragments (hdraw c.maxFragment) hcut
  refine ⟨parts, written.log.toList, ⟨hcut, empty, written, hnew, hwrite, ?_⟩, ?_⟩
  · exact ht.sound.holds.records_eq
  · exact exact_of_reportOn ht.sound ht.alive (tallied_writeAll hnew hwrite) hmany hfew hroom
      hreport

theorem returns_exact {draw : Draw σ} {start : σ} {c : Config} {input : Bytes}
    (hdraw : ∀ longest h s, (draw longest h s).1 ≤ longest) (hc : c.Feasible)
    (hinput : input.length < wordCount) :
    ∃ report parts live, (performDrawing draw start c .ample input).run = .ok (.ok report) ∧
      Leaves draw start c input parts live ∧ Exact c input parts live report := by
  obtain ⟨_, _, -, hrun⟩ := performDrawing_agrees draw start hc hinput
  obtain ⟨parts, live, hleaves, hexact⟩ := exact_of_returned hdraw hc.readChunk_pos hrun
  exact ⟨_, parts, live, hrun, hleaves, hexact⟩

/-- The counters of a pass with memory for everything are exact, whatever the policy and whatever
source the lengths of the fragments are drawn from, as long as none is longer than asked for. If the
rest of what the pass needs can be had, it does return such a report; and so does a pass with the
lengths that the seed gives. -/
theorem performDrawing_exact :
    (∀ {σ : Type} (draw : Draw σ) (start : σ) (c : Config) (input : Bytes),
      (∀ longest h s, (draw longest h s).1 ≤ longest) →
      (1 ≤ c.readChunk → ∀ report,
        (performDrawing draw start c .ample input).run = .ok (.ok report) →
        ∃ parts live, Leaves draw start c input parts live ∧ Exact c input parts live report) ∧
      (c.Feasible → input.length < wordCount → ∃ report parts live,
        (performDrawing draw start c .ample input).run = .ok (.ok report) ∧
        Leaves draw start c input parts live ∧ Exact c input parts live report)) ∧
    ∀ (c : Config) (input : Bytes), c.Feasible → input.length < wordCount →
      ∃ report parts live, (perform c .ample input).run = .ok (.ok report) ∧
        Leaves (Random.wordSource.between 1) (Random.Stream.ofSeed c.seed) c input parts live ∧
        Exact c input parts live report := by
  refine ⟨fun draw start c input hdraw => ⟨fun hroom report hrun => ?_, ?_⟩, ?_⟩
  · exact exact_of_returned hdraw hroom hrun
  · exact returns_exact hdraw
  · intro c input hc hinput
    refine returns_exact (fun longest h s => ?_) hc hinput
    exact (Random.wordSource_bounded.between_inRange 1 longest h s).2

/-- Three fragments, the first and the last of which have a delimiter in them, complete two records
where only that counts. The first record is pushed out of the one slot, and the second, of four
bytes, is read in two pieces of up to three. -/
theorem performDrawing_exact_folded :
    let c : Config := ⟨none, [], ⟨1, 10, .firstDelimiter⟩, 42, 3, 3, 0, false, false, false⟩
    let draw : Draw Unit := fun longest _ s => (longest, s)
    let input : Bytes := [97, 10, 10, 98, 99, 100, 10]
    let report : Report := ⟨[98, 99, 100, 10], 7, 0, 1, ⟨3, 7, 0, 2, 0, 1, 3, 3, 4, 1, none⟩⟩
    (∀ longest h s, (draw longest h s).1 ≤ longest) ∧ 1 ≤ c.readChunk ∧ c.Feasible ∧
    input.length < wordCount ∧ (performDrawing draw () c .ample input).run = .ok (.ok report) ∧
    (∃ live, Exact c input [[97, 10, 10], [98, 99, 100], [10]] live report) ∧
    ∃ other parts live, (perform c .ample input).run = .ok (.ok other) ∧
      Exact c input parts live other := by
  intro c draw input report
  have hdraw : ∀ longest h s, (draw longest h s).1 ≤ longest := fun longest _ _ => le_rfl
  have hc : c.Feasible := ⟨by decide, by decide, by decide, by decide, by decide⟩
  have hinput : input.length < wordCount := by decide
  have hparts : fragments draw () c.maxFragment input =
      .ok [[97, 10, 10], [98, 99, 100], [10]] := by
    simp [fragments, fragmentsFrom, draw, c, input]
  have hrun : (performDrawing draw () c .ample input).run = .ok (.ok report) := by
    rw [performDrawing_eq_reportOn, hparts]
    decide +kernel
  obtain ⟨hany, hseed⟩ := performDrawing_exact
  obtain ⟨hexact, -⟩ := hany draw () c input hdraw
  obtain ⟨parts, live, hleaves, hreport⟩ := hexact hc.readChunk_pos report hrun
  cases hleaves.fragments_eq.symm.trans hparts
  obtain ⟨other, parts, live', hother, -, hdrawn⟩ := hseed c input hc hinput
  exact ⟨hdraw, hc.readChunk_pos, hc, hinput, hrun, ⟨live, hreport⟩,
    ⟨other, parts, live', hother, hdrawn⟩⟩

end Pass

end Scrollback
