import Scrollback.Proofs.History.Following
import Scrollback.Proofs.History.Stream
import Scrollback.Proofs.History.Window
/-!
# Contents written back

Under the split policy each record retained is a line, so the retained data frames itself: written
to a new history, in whatever fragments, it gives the same records again. `Desk.contents_replay`
says so of whatever a run leaves, and that the new history pushes nothing out and is left with
nothing pending, if it has room for these records.
-/

namespace Scrollback

/-- A writer is told how many records were pushed out. -/
theorem Entry.Effect.length_evicted {e : Entry} {next : History} {outcome : WriteOutcome}
    (h : e.Effect next) (houtcome : e.outcome? = some outcome) :
    e.evicted.length = outcome.evicted := by
  cases h with
  | looked _ hnone _ _ _ _ =>
    rw [hnone] at houtcome
    cases houtcome
  | refused _ hreply _ => simp [outcome?, hreply] at houtcome
  | wrote fragment log _ hreply _ _ =>
    obtain rfl : ⟨fragment.length, e.completed.length, e.evicted.length⟩ = outcome := by
      simpa [outcome?, hreply] using houtcome
    rfl
  | discarded hreply _ => simp [outcome?, hreply] at houtcome
  | released _ hreply _ _ => simp [outcome?, hreply] at houtcome

/-- A run of writes that all tell of no record pushed out retains what it completes. -/
theorem Journal.completed_eq_toList {d last : Desk} {entries : List Entry}
    (hruns : d.Runs entries last) (hs : d.history.Sound) (hempty : d.history.log.toList = [])
    (hwrites : ∀ e ∈ entries, ∃ outcome, e.reply = .written (.ok outcome) ∧ outcome.evicted = 0) :
    entries.flatMap Entry.evicted = [] ∧
      entries.flatMap Entry.completed = last.history.log.toList := by
  have hnone : entries.flatMap Entry.evicted = [] := by
    rw [List.flatMap_eq_nil_iff]
    intro e he
    obtain ⟨outcome, hreply, hzero⟩ := hwrites e he
    obtain ⟨earlier, later, rfl⟩ := List.append_of_mem he
    obtain ⟨next, hearlier, hcall, -⟩ := hruns.split
    have heffect := (Desk.perform_effect (hearlier.sound hs) hcall).2
    have hlength := heffect.length_evicted (e := e) (by rw [Entry.outcome?, hreply])
    rw [hzero] at hlength
    exact List.length_eq_zero_iff.1 hlength
  have hkept : ∀ e ∈ entries, e.isTeardown = false := by
    intro e he
    obtain ⟨outcome, hreply, -⟩ := hwrites e he
    simp [Entry.isTeardown, Entry.released?, hreply]
  have hsince : sinceTeardown entries = entries := @sinceTeardown_append [] entries hkept
  have hall := evicted_append_toList hruns hs hempty
  rw [hsince, hnone, List.nil_append] at hall
  exact ⟨hnone, hall.symm⟩

/-- While there is room for all lines of the stream, a history takes any fragments of its rest in
and pushes nothing out. -/
theorem History.Agrees.replay {s : Settings} (hpolicy : s.policy = .split) {h : History}
    {stream : Bytes} (hm : h.Agrees s (.ofStream s stream)) (cursors : List Cursor)
    (fragments : List Bytes) (fits : stream.length + fragments.flatten.length < wordCount)
    (hroom : (stream ++ fragments.flatten).count s.delimiter ≤ s.capacity) :
    ∃ (entries : List Entry) (next : History),
      (Desk.mk h cursors).Runs entries ⟨next, cursors⟩ ∧
      next.Agrees s (.ofStream s (stream ++ fragments.flatten)) ∧
      entries.map Entry.call = fragments.map (.write none) ∧
      entries.map Entry.reply =
        fragments.map fun f => .written (.ok ⟨f.length, f.count s.delimiter, 0⟩) := by
  induction fragments generalizing h stream with
  | nil =>
    refine ⟨[], h, .nil _, ?_, rfl, rfl⟩
    rwa [List.flatten_nil, List.append_nil]
  | cons fragment fragments ih =>
    rw [List.flatten_cons, List.length_append] at fits
    rw [List.flatten_cons, ← List.append_assoc] at hroom
    have hfirst : (stream ++ fragment).count s.delimiter ≤ s.capacity := by
      rw [List.count_append] at hroom
      omega
    have happended : (Reference.ofStream s stream).appended = stream.length := rfl
    obtain ⟨mid, hwrite, hmid⟩ := hm.write_eq fragment (by omega)
    rw [Reference.write_ofStream hpolicy] at hmid
    rw [Reference.write_ofStream_outcome hpolicy hfirst] at hwrite
    obtain ⟨entries, next, hruns, hnext, hcalls, hreplies⟩ :=
      ih hmid (by rw [List.length_append]; omega) hroom
    have hcall : (Desk.mk h cursors).perform (.write none fragment) =
        .ok (.written (.ok ⟨fragment.length, fragment.count s.delimiter, 0⟩), ⟨mid, cursors⟩) :=
      Checked.bind_eq_ok.2 ⟨_, hwrite, rfl⟩
    refine ⟨_, next, .cons hcall hruns, ?_, ?_, ?_⟩
    · rwa [List.flatten_cons, ← List.append_assoc]
    · rw [List.map_cons, List.map_cons, hcalls]
    · rw [List.map_cons, List.map_cons, hreplies]

/-- Whatever was done to a history under the split policy, as long as its lock is alive, its
contents tell its records: there is one delimiter for each, and written to a new history with the
same delimiter and room for as many records, in whatever fragments, they complete these records in
their order. The new history pushes nothing out, is left with nothing pending, and cannot be told
from the old one by its records, their number, its contents or its length. -/
theorem Desk.contents_replay {s : Settings} {h : History} {entries : List Entry} {d : Desk}
    (hnew : History.create s = .ok (.ok h)) (hpolicy : s.policy = .split)
    (hruns : (ofHistory h).Runs entries d) (halive : d.history.poisoned = false) :
    ∃ (live : List Record) (data : Bytes),
      d.history.log.records = .ok live ∧
      d.history.contents none = .ok (.ok data) ∧
      data.count s.delimiter = live.length ∧
      ∀ (capacity : Nat) (fresh : History),
        History.create ⟨capacity, s.delimiter, .split⟩ = .ok (.ok fresh) →
        live.length ≤ capacity →
        ∀ fragments : List Bytes, fragments.flatten = data →
          ∃ (writes : List Entry) (copy : Desk),
            (ofHistory fresh).Runs writes copy ∧
            writes.map Entry.call = fragments.map (.write none) ∧
            writes.map Entry.reply =
              fragments.map (fun f => .written (.ok ⟨f.length, f.count s.delimiter, 0⟩)) ∧
            writes.flatMap Entry.completed = live ∧
            writes.flatMap Entry.evicted = [] ∧
            copy.history.assembler.pending.bytes = [] ∧
            copy.history.log.records = d.history.log.records ∧
            copy.history.log.length = d.history.log.length ∧
            copy.history.contents none = d.history.contents none ∧
            copy.history.totalLength = d.history.totalLength := by
  obtain ⟨hs, hrevived⟩ := hruns.follows_create hnew
  have hm := hrevived.of_revived halive
  have hlist := hm.holds.toList_eq
  have hlines := Reference.isLine_of_mem_afterAll hpolicy (m := .fresh) (by nofun) entries
  generalize Reference.fresh.afterAll s entries = m at hm hlist hlines
  have hcount : m.data.count s.delimiter = m.live.length := by
    have hall := Framing.count_flatten (List.forall_mem_map.2 hlines)
    rwa [List.length_map] at hall
  refine ⟨m.live, m.data, hm.holds.records_eq, hm.contents_eq, hcount, ?_⟩
  intro capacity fresh hfresh hroom fragments hdata
  have hstart := History.create_agrees hfresh
  rw [← Reference.ofStream_nil] at hstart
  have hword : m.data.length < wordCount := by
    rw [Reference.data, Record.length_flatMap_bytes, ← hlist]
    exact hs.fits
  obtain ⟨writes, next, hwrites, hnext, hcalls, hreplies⟩ := hstart.replay rfl [] fragments
    (by rw [hdata, List.length_nil, Nat.zero_add]; exact hword)
    (by rw [hdata, List.nil_append, hcount]; exact hroom)
  -- What the new history stands for is the stream of the data, which gives the same records.
  obtain ⟨hlive, hpending⟩ :=
    Reference.ofStream_data (s := ⟨capacity, s.delimiter, .split⟩) hlines hroom
  rw [List.nil_append, hdata] at hnext
  have hsame : (Reference.ofStream ⟨capacity, s.delimiter, .split⟩ m.data).live = m.live := hlive
  have hcopied : (Reference.ofStream ⟨capacity, s.delimiter, .split⟩ m.data).data = m.data := by
    rw [Reference.data, hsame, Reference.data]
  obtain ⟨hsound, hempty⟩ := History.create_sound hfresh
  obtain ⟨hevicted, hcompleted⟩ := Journal.completed_eq_toList hwrites hsound hempty (by
    intro e he
    have hreply := List.mem_map_of_mem (f := Entry.reply) he
    rw [hreplies] at hreply
    obtain ⟨f, -, hf⟩ := List.mem_map.1 hreply
    exact ⟨_, hf.symm, rfl⟩)
  refine ⟨writes, ⟨next, []⟩, hwrites, hcalls, hreplies, ?_, hevicted, ?_, ?_, ?_, ?_, ?_⟩
  · rw [hcompleted, hnext.holds.toList_eq, hsame]
  · exact hnext.pending_eq.trans hpending
  · rw [hnext.holds.records_eq, hm.holds.records_eq, hsame]
  · rw [hnext.holds.length_eq, hm.holds.length_eq, hsame]
  · rw [hnext.contents_eq, hm.contents_eq, hcopied]
  · rw [hnext.totalLength_eq, hm.totalLength_eq, hcopied]

/-- One of three lines has been pushed out, bytes have been dropped, and one more is pending. The
two lines left go into three slots in four fragments, one of them empty. -/
theorem Desk.contents_replay_rotated :
    History.create ⟨2, 10, .split⟩ = .ok (.ok (.ofLog ⟨2, 10, .split⟩ (Log.vacant 2))) ∧
    ∃ (entries : List Entry) (d : Desk),
      (ofHistory (.ofLog ⟨2, 10, .split⟩ (Log.vacant 2))).Runs entries d ∧
      entries.map Entry.call =
        [.write none [97, 10, 98, 10, 99], .discard, .write none [100, 10, 101]] ∧
      d.history.poisoned = false ∧
      d.history.contents none = .ok (.ok [98, 10, 100, 10]) ∧
      ∃ (writes : List Entry) (copy : Desk),
        (ofHistory (.ofLog ⟨3, 10, .split⟩ (Log.vacant 3))).Runs writes copy ∧
        writes.map Entry.call =
          [.write none [98], .write none [10, 100], .write none [], .write none [10]] ∧
        writes.flatMap Entry.completed = [.ofBytes [98, 10], .ofBytes [100, 10]] ∧
        copy.history.assembler.pending.bytes = [] ∧
        copy.history.contents none = .ok (.ok [98, 10, 100, 10]) := by
  have hnew : History.create ⟨2, 10, .split⟩ =
      .ok (.ok (.ofLog ⟨2, 10, .split⟩ (Log.vacant 2))) := rfl
  have hfresh : History.create ⟨3, 10, .split⟩ =
      .ok (.ok (.ofLog ⟨3, 10, .split⟩ (Log.vacant 3))) := rfl
  obtain ⟨d, hrun, halive, hrecords, hcontents⟩ : ∃ d,
      (ofHistory (.ofLog ⟨2, 10, .split⟩ (Log.vacant 2))).performAll
          [.write none [97, 10, 98, 10, 99], .discard, .write none [100, 10, 101]] =
        .ok ([.written (.ok ⟨5, 2, 0⟩), .discarded (.ok 1), .written (.ok ⟨3, 1, 1⟩)], d) ∧
      d.history.poisoned = false ∧
      d.history.log.records = .ok [.ofBytes [98, 10], .ofBytes [100, 10]] ∧
      d.history.contents none = .ok (.ok [98, 10, 100, 10]) :=
    ⟨_, rfl, rfl, rfl, rfl⟩
  obtain ⟨entries, hruns, hcalls, -⟩ := performAll_eq_ok_iff.1 hrun
  obtain ⟨live, data, hlive, hdata, -, hreplay⟩ := contents_replay hnew rfl hruns halive
  obtain rfl : [.ofBytes [98, 10], .ofBytes [100, 10]] = live := by
    simpa using hrecords.symm.trans hlive
  obtain rfl : [98, 10, 100, 10] = data := by
    simpa using hcontents.symm.trans hdata
  obtain ⟨writes, copy, hwrites, hcopied, -, hcompleted, -, hpending, -, -, hsame, -⟩ :=
    hreplay 3 _ hfresh (by decide) [[98], [10, 100], [], [10]] rfl
  exact ⟨hnew, entries, d, hruns, hcalls, halive, hcontents, writes, copy, hwrites, hcopied,
    hcompleted, hpending, hsame.trans hcontents⟩

end Scrollback
