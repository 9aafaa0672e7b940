import Scrollback.Proofs.History.Failures
import Scrollback.Proofs.History.Journal
/-!
# Runs that return

A call can stop in two ways only: the bytes held become more than a machine word counts, or a read
starts at a place that is no machine word. Neither happens while the bytes taken in fit a word and
each place that a call names is one, since a cursor never leaves the words (`Desk.Ready`).
`Desk.perform_returns` is the step, `Desk.Ready.performAll_returns` the run.

How many bytes are taken in, the assembler alone tells (`Assembler.intakes`): a refused fragment
does not count, nor does any after the lock has died.
-/

namespace Scrollback

open Record (totalLength)

namespace Call

def written : Call → Nat
  | write _ fragment => fragment.length
  | _ => 0

/-- Each place that a call names is a machine word. -/
def InWords : Call → Prop
  | readAt offset _ => offset < wordCount
  | seek _ (.start offset) => offset < wordCount
  | _ => True

end Call

namespace Assembler

/-- The bytes that a call makes an assembler take in. -/
def intake (a : Assembler) : Call → Nat
  | .write allowance fragment =>
    if (a.feed allowance fragment).1.isOk then fragment.length else 0
  | _ => 0

/-- The assembler after a call. -/
def serve (a : Assembler) : Call → Assembler
  | .write allowance fragment => (a.feed allowance fragment).2
  | .discard | .teardown => a.discard.2
  | _ => a

/-- The bytes that calls made one after the other make an assembler take in, until the lock dies. -/
def intakes (a : Assembler) : List Call → Nat
  | [] => 0
  | call :: calls => a.intake call + if call.isPoison then 0 else (a.serve call).intakes calls

theorem intake_le (a : Assembler) (call : Call) : a.intake call ≤ call.written := by
  cases call with
  | write allowance fragment =>
    rw [intake, Call.written]
    split
    · exact Nat.le_refl _
    · exact Nat.zero_le _
  | _ => exact Nat.zero_le _

/-- No more is taken in than is written. -/
theorem intakes_le (a : Assembler) (calls : List Call) :
    a.intakes calls ≤ (calls.map Call.written).sum := by
  induction calls generalizing a with
  | nil => exact Nat.zero_le _
  | cons call calls ih =>
    rw [intakes, List.map_cons, List.sum_cons]
    apply Nat.add_le_add (a.intake_le call)
    split
    · exact Nat.zero_le _
    · exact ih _

/-- A fragment that is taken in counts, and does what it does if no memory is refused. -/
theorem intake_of_ok {a next : Assembler} {allowance : Allowance} {fragment : Bytes}
    {assembly : Assembly} (h : a.feed allowance fragment = (.ok assembly, next)) :
    a.intake (.write allowance fragment) = fragment.length ∧
      assembly = (a.accept fragment).1 ∧ next = (a.accept fragment).2 := by
  have hsame := feed_eq_ok h
  rw [feed_none] at hsame
  cases hsame
  rw [intake, h]
  exact ⟨rfl, rfl, rfl⟩

/-- A call that only looks leaves the assembler as it is. -/
theorem serve_of_isLook (a : Assembler) {call : Call} (h : call.isLook = true) :
    a.serve call = a ∧ a.intake call = 0 := by
  cases call with
  | write | discard | teardown => cases h
  | _ => exact ⟨rfl, rfl⟩

end Assembler

/-- The bytes of the records retained and of the unfinished one. -/
def History.held (h : History) : Nat :=
  Record.totalLength h.log.toList + h.assembler.pending.length

/-- What a history holds and counts after a call that it took in. -/
structure History.Takes (h next : History) (call : Call) : Prop where
  assembler_eq : next.assembler = h.assembler.serve call
  bytesWritten_eq : next.metrics.bytesWritten = h.metrics.bytesWritten + h.assembler.intake call
  held_le : next.held ≤ h.held + h.assembler.intake call

theorem History.countDiscard_bytesWritten (m : Metrics) (dropped : Nat) :
    (countDiscard m dropped).bytesWritten = m.bytesWritten := by
  unfold countDiscard
  split <;> rfl

/-- The ring is laid out for its records, and each cursor stands at a machine word. -/
structure Desk.Ready (d : Desk) : Prop where
  sound : d.history.Sound
  word : ∀ c ∈ d.cursors, c.position < wordCount

/-! ### Reading -/

theorem Log.pieces_end_le (queue : List Record) (room position : Nat) :
    position + (pieces queue room position).flatten.length ≤ max position (totalLength queue) := by
  fun_induction pieces queue room position with
  | case1 position hpiece =>
    rw [List.flatten_nil, List.length_nil, Nat.add_zero]
    exact Nat.le_max_left _ _
  | case2 position hpiece ih =>
    have hinside := (length_piece_le queue position room).2 hpiece
    rw [List.flatten_cons, List.length_append]
    omega

namespace History

variable {h : History}

theorem read_returns (hs : h.Sound) {position : Nat} (hword : position < wordCount) (room : Nat) :
    ∃ result after next, h.read position room = .ok (result, after, next) ∧
      after < wordCount ∧ next.Sound ∧ ∀ data, result = .ok data → data.length ≤ room := by
  obtain hlock | hlock := Bool.eq_false_or_eq_true h.poisoned
  · exact ⟨_, _, _, read_of_dead hlock position room, hword, hs, nofun⟩
  · rw [read_eq hs hlock, if_pos hword]
    obtain ⟨hroom, hinside⟩ := Log.length_piece_le h.log.toList position room
    have hfits := hs.fits
    refine ⟨_, _, _, rfl, ?_, hs.counting _, ?_⟩
    · by_cases hnil : Log.piece h.log.toList position room = []
      · rw [hnil]
        exact hword
      · exact (hinside hnil).trans_lt hfits
    · rintro data ⟨⟩
      exact hroom

theorem readInto_returns (hs : h.Sound) {position : Nat} (hword : position < wordCount)
    (buffer : Bytes) :
    ∃ result filled after next, h.readInto position buffer = .ok (result, filled, after, next) ∧
      after < wordCount := by
  obtain ⟨result, after, next, hread, hafter, -, hroom⟩ := read_returns hs hword buffer.length
  rw [readInto, hread, Checked.ok_bind]
  cases result with
  | error e => exact ⟨_, _, _, _, rfl, hafter⟩
  | ok data =>
    simp only [Bytes.fill, if_pos (hroom data rfl), Checked.ok_bind, Checked.pure_eq_ok]
    exact ⟨_, _, _, _, rfl, hafter⟩

/-- A write returns if what is held then is counted by a machine word. -/
theorem write_returns (hs : h.Sound) {allowance : Allowance} {fragment : Bytes}
    (fits : h.poisoned = false →
      h.held + h.assembler.intake (.write allowance fragment) < wordCount) :
    ∃ result next, h.write allowance fragment = .ok (result, next) := by
  obtain hlock | hlock := Bool.eq_false_or_eq_true h.poisoned
  · exact ⟨_, _, change_of_dead hlock _⟩
  · have hroom := fits hlock
    rcases hfeed : h.assembler.feed allowance fragment with ⟨_ | assembly, next⟩
    · rw [write, change_of_alive hlock, hfeed]
      exact ⟨_, _, rfl⟩
    · obtain ⟨hintake, rfl, rfl⟩ := Assembler.intake_of_ok hfeed
      have hframed := congrArg List.length (h.assembler.accept_bytes fragment)
      simp only [List.length_append, Record.length_flatMap_bytes, ← Pending.length_eq] at hframed
      rw [hintake, held] at hroom
      obtain ⟨log, -, -, gone, -, hretain⟩ := hs.holds.retain_eq
        (h.assembler.accept fragment).1.records 0 0 (by
          rw [Record.totalLength_append]
          omega)
      rw [write, change_of_alive hlock]
      simp only [hfeed, hretain, Checked.ok_bind, Checked.pure_eq_ok]
      exact ⟨_, _, rfl⟩

theorem write_takes (hs : h.Sound) (halive : h.poisoned = false) {allowance : Allowance}
    {fragment : Bytes} {result : Except HistoryError WriteOutcome} {next : History}
    (hwrite : h.write allowance fragment = .ok (result, next)) :
    h.Takes next (.write allowance fragment) := by
  rw [write, change_of_alive halive] at hwrite
  rcases hfeed : h.assembler.feed allowance fragment with ⟨_ | assembly, final⟩
  · obtain ⟨-, rfl⟩ := Assembler.feed_eq_error hfeed
    rw [hfeed] at hwrite
    cases hwrite
    exact ⟨by rw [Assembler.serve, hfeed], by rw [Assembler.intake, hfeed]; rfl,
      Nat.le_add_right _ _⟩
  · obtain ⟨hintake, rfl, rfl⟩ := Assembler.intake_of_ok hfeed
    rw [hfeed] at hwrite
    obtain ⟨⟨log, count, bytes⟩, hretain, hdone⟩ := Checked.bind_eq_ok.1 hwrite
    cases hdone
    refine ⟨by rw [Assembler.serve, hfeed], by rw [hintake]; rfl, ?_⟩
    -- The bytes framed are the pending ones and the fragment; the log may give up some of them.
    obtain ⟨hlog, -, -, hkept, -, -⟩ := hs.holds.retain_eq_ok hs.fits hretain
    rw [← hlog.toList_eq] at hkept
    have htotal := congrArg Record.totalLength hkept
    have hframed := congrArg List.length (h.assembler.accept_bytes fragment)
    simp only [List.length_append, Record.totalLength_append, Record.length_flatMap_bytes,
      ← Pending.length_eq] at htotal hframed
    simp only [held, hintake]
    omega

end History

namespace Cursor

variable {h : History} {c : Cursor}

theorem moveTo_lt (hword : c.position < wordCount) {target : Option Nat}
    (htarget : ∀ position, target = some position → position < wordCount) :
    (c.moveTo target).2.position < wordCount := by
  cases target with
  | none => exact hword
  | some position => exact htarget position rfl

theorem shift?_lt {base target : Nat} {distance : Int}
    (h : Word.shift? base distance = some target) : target < wordCount := by
  unfold Word.shift? at h
  simp only at h
  split at h
  next hword =>
    have htarget := Option.some.inj h
    omega
  next => cases h

/-- The reads of a loop take no more bytes than there is room for. -/
theorem fillFrom_returns (hs : h.Sound) (hword : c.position < wordCount) (room : Nat)
    (before : List Bytes) (fuel : Nat) :
    ∃ result pieces last next, c.fillFrom h room before fuel = .ok (result, pieces, last, next) ∧
      last.position < wordCount ∧ pieces.flatten.length ≤ before.flatten.length + room := by
  have hkept : before.reverse.flatten.length = before.flatten.length := by
    simp only [List.length_flatten, List.map_reverse, List.sum_reverse]
  induction fuel generalizing c h room before with
  | zero => exact ⟨_, _, _, _, rfl, hword, by omega⟩
  | succ fuel ih =>
    by_cases hroom : room = 0
    · rw [fillFrom, if_pos hroom]
      exact ⟨_, _, _, _, rfl, hword, by omega⟩
    · obtain ⟨result, after, next, hread, hafter, hsound, hcount⟩ :=
        History.read_returns hs hword room
      rw [fillFrom, if_neg hroom, hread, Checked.ok_bind]
      obtain e | _ | ⟨b, data⟩ := result
      · exact ⟨_, _, _, _, rfl, hafter, by omega⟩
      · exact ⟨_, _, _, _, rfl, hafter, by omega⟩
      · have hle := hcount (b :: data) rfl
        simp only [Word.sub_eq_ok hle, Checked.ok_bind]
        obtain ⟨result, pieces, last, final, hfill, hlast, hpieces⟩ := ih hsound
          (c := ⟨after⟩) hafter (room - (b :: data).length) ((b :: data) :: before)
          (by simp only [List.length_flatten, List.map_reverse, List.sum_reverse])
        refine ⟨result, pieces, last, final, hfill, hlast, ?_⟩
        rw [List.flatten_cons, List.length_append] at hpieces
        omega

theorem readExact_returns (hs : h.Sound) (hword : c.position < wordCount) (buffer : Bytes) :
    ∃ result filled last next, c.readExact h buffer = .ok (result, filled, last, next) ∧
      last.position < wordCount := by
  obtain ⟨result, pieces, last, next, hfill, hlast, hpieces⟩ :=
    fillFrom_returns hs hword buffer.length [] buffer.length
  rw [List.flatten_nil, List.length_nil, Nat.zero_add] at hpieces
  rw [readExact, hfill]
  simp only [Checked.ok_bind, Bytes.fill, if_pos hpieces, Checked.pure_eq_ok]
  exact ⟨_, _, _, _, rfl, hlast⟩

theorem drain_returns (hs : h.Sound) (hword : c.position < wordCount) (room : Nat) :
    ∃ result last next, c.drain h room = .ok (result, last, next) ∧
      last.position < wordCount := by
  obtain hlock | hlock := Bool.eq_false_or_eq_true h.poisoned
  · exact ⟨_, _, _, drain_of_dead hlock c room, hword⟩
  · have hfits := hs.fits
    have hend := Log.pieces_end_le h.log.toList room c.position
    have hlast : c.position + (Log.pieces h.log.toList room c.position).flatten.length <
        wordCount := by
      omega
    rw [show c = ⟨c.position⟩ from rfl, drain_eq hs hlock, if_pos hword]
    exact ⟨_, _, _, rfl, hlast⟩

theorem seek_returns (h : History) (hword : c.position < wordCount) {reader : Nat}
    {whence : Whence} (hcall : (Call.seek reader whence).InWords) :
    ∃ result last, c.seek h whence = .ok (result, last) ∧ last.position < wordCount := by
  cases whence with
  | start offset => exact ⟨_, _, rfl, hcall⟩
  | current distance => exact ⟨_, _, rfl, moveTo_lt hword fun _ => shift?_lt⟩
  | fromEnd distance =>
    rw [seek, History.totalLength, History.inspect]
    split
    · exact ⟨_, _, rfl, hword⟩
    · exact ⟨_, _, rfl, moveTo_lt hword fun _ => shift?_lt⟩

end Cursor

/-! ### Calls -/

namespace Desk

variable {d next : Desk} {call : Call} {reply : Reply}

/-- A call under a lock that is alive does to the assembler what it alone would do. The bytes that
are taken in then are counted, and they are all that the history may hold more than before. -/
theorem perform_takes (hs : d.history.Sound) (halive : d.history.poisoned = false)
    (h : d.perform call = .ok (reply, next)) : d.history.Takes next.history call := by
  by_cases hlook : call.isLook = true
  · obtain ⟨hserve, hintake⟩ := d.history.assembler.serve_of_isLook hlook
    rw [(perform_looked hs hlook h).2.next_eq]
    exact ⟨hserve.symm, by rw [hintake]; rfl, Nat.le_add_right _ _⟩
  cases call with
  | write allowance fragment =>
    obtain ⟨⟨result, after⟩, hwrite, hout⟩ := Checked.bind_eq_ok.1 h
    cases hout
    exact History.write_takes hs halive hwrite
  | discard =>
    obtain ⟨⟨result, after⟩, hdiscard, hout⟩ := Checked.bind_eq_ok.1 h
    cases hout
    rw [History.discard, History.change_of_alive halive] at hdiscard
    cases hdiscard
    refine ⟨rfl, History.countDiscard_bytesWritten .., ?_⟩
    simp only [History.held, Pending.empty]
    omega
  | teardown =>
    obtain ⟨⟨result, after⟩, hteardown, hout⟩ := Checked.bind_eq_ok.1 h
    cases hout
    rw [History.teardown, History.change_of_alive halive] at hteardown
    obtain ⟨⟨released, log⟩, hreleased, hdone⟩ := Checked.bind_eq_ok.1 hteardown
    cases hdone
    obtain ⟨empty, hempty, hholds, -⟩ := hs.holds.teardown_eq
    cases hreleased.symm.trans hempty
    refine ⟨rfl, History.countDiscard_bytesWritten .., ?_⟩
    simp [History.held, hholds.toList_eq, Pending.empty]
  | readAt | openCursor | read | readExact | drain | seek | contents | totalLength | stats |
    counters | poison => exact absurd rfl hlook

theorem through_returns {reader : Nat} {serve : Cursor → Checked (Reply × Cursor × History)}
    (hword : ∀ c ∈ d.cursors, c.position < wordCount)
    (hserve : ∀ c, c.position < wordCount →
      ∃ reply last after, serve c = .ok (reply, last, after) ∧ last.position < wordCount) :
    ∃ reply next, d.through reader serve = .ok (reply, next) ∧
      ∀ c ∈ next.cursors, c.position < wordCount := by
  unfold through
  split
  next => exact ⟨_, _, rfl, hword⟩
  next c hc =>
    obtain ⟨reply, last, after, hserved, hlast⟩ := hserve c (hword c (List.mem_of_getElem? hc))
    rw [hserved]
    refine ⟨_, _, rfl, ?_⟩
    intro other hother
    obtain hkept | rfl := List.mem_or_eq_of_mem_set hother
    · exact hword other hkept
    · exact hlast

/-- A call on a desk that is ready returns, and the desk is ready again. -/
theorem perform_returns (hd : d.Ready) (hcall : call.InWords)
    (fits : d.history.poisoned = false →
      d.history.held + d.history.assembler.intake call < wordCount) :
    ∃ reply next, d.perform call = .ok (reply, next) ∧ next.Ready := by
  suffices hreturns : ∃ reply next, d.perform call = .ok (reply, next) ∧
      ∀ c ∈ next.cursors, c.position < wordCount by
    obtain ⟨reply, next, h, hword⟩ := hreturns
    exact ⟨reply, next, h, (perform_effect hd.sound h).1, hword⟩
  cases call with
  | write allowance fragment =>
    obtain ⟨result, after, hwrite⟩ := History.write_returns hd.sound fits
    exact ⟨_, _, Checked.bind_eq_ok.2 ⟨_, hwrite, rfl⟩, hd.word⟩
  | readAt offset buffer =>
    obtain ⟨result, filled, after, history, hread, -⟩ :=
      History.readInto_returns hd.sound hcall buffer
    exact ⟨_, _, Checked.bind_eq_ok.2 ⟨_, hread, rfl⟩, hd.word⟩
  | openCursor =>
    refine ⟨_, _, rfl, ?_⟩
    intro c hc
    obtain hc | hc := List.mem_append.1 hc
    · exact hd.word c hc
    · rw [List.mem_singleton.1 hc]
      decide
  | read reader buffer =>
    apply through_returns hd.word
    intro c hc
    obtain ⟨result, filled, after, history, hread, hafter⟩ :=
      History.readInto_returns hd.sound hc buffer
    rw [Cursor.readInto, hread]
    exact ⟨_, _, _, rfl, hafter⟩
  | readExact reader buffer =>
    apply through_returns hd.word
    intro c hc
    obtain ⟨result, filled, last, history, hread, hlast⟩ :=
      Cursor.readExact_returns hd.sound hc buffer
    rw [hread]
    exact ⟨_, _, _, rfl, hlast⟩
  | drain reader room =>
    apply through_returns hd.word
    intro c hc
    obtain ⟨result, last, history, hdrain, hlast⟩ := Cursor.drain_returns hd.sound hc room
    rw [hdrain]
    exact ⟨_, _, _, rfl, hlast⟩
  | seek reader whence =>
    apply through_returns hd.word
    intro c hc
    obtain ⟨result, last, hseek, hlast⟩ := Cursor.seek_returns d.history hc hcall
    rw [hseek]
    exact ⟨_, _, _, rfl, hlast⟩
  | contents allowance =>
    simp only [perform, History.contents, History.inspect, hd.sound.holds.contents_eq]
    split
    · exact ⟨_, _, rfl, hd.word⟩
    · split <;> exact ⟨_, _, rfl, hd.word⟩
  | totalLength | counters =>
    simp only [perform, History.totalLength, History.counters, History.inspect]
    split <;> exact ⟨_, _, rfl, hd.word⟩
  | stats =>
    simp only [perform, History.stats, History.inspect, hd.sound.holds.stats_eq]
    split <;> exact ⟨_, _, rfl, hd.word⟩
  | discard =>
    simp only [perform, History.discard, History.change]
    split <;> exact ⟨_, _, rfl, hd.word⟩
  | teardown =>
    obtain ⟨log, hteardown, -⟩ := hd.sound.holds.teardown_eq
    simp only [perform, History.teardown, History.change, hteardown]
    split <;> exact ⟨_, _, rfl, hd.word⟩
  | poison => exact ⟨_, _, rfl, hd.word⟩

/-- A run returns if all the bytes that are held or taken in fit a machine word. -/
theorem Ready.performAll_returns (hd : d.Ready) {calls : List Call}
    (hcalls : ∀ call ∈ calls, call.InWords)
    (fits : d.history.poisoned = false →
      d.history.held + d.history.assembler.intakes calls < wordCount) :
    ∃ replies last, d.performAll calls = .ok (replies, last) ∧ last.Ready := by
  induction calls generalizing d with
  | nil => exact ⟨_, _, rfl, hd⟩
  | cons call calls ih =>
    rw [List.forall_mem_cons] at hcalls
    rw [Assembler.intakes] at fits
    obtain ⟨reply, next, hcall, hnext⟩ := perform_returns hd hcalls.1 (by
      intro halive
      have hall := fits halive
      omega)
    obtain ⟨replies, last, hrest, hlast⟩ := ih hnext hcalls.2 (by
      intro halive
      rw [perform_poisoned hd.sound hcall, Bool.or_eq_false_iff] at halive
      obtain ⟨hserve, -, hheld⟩ := perform_takes hd.sound halive.2 hcall
      have hall := fits halive.2
      rw [if_neg (by simp [halive.1])] at hall
      rw [hserve]
      omega)
    exact ⟨_, _, Checked.bind_eq_ok.2 ⟨_, hcall, Checked.bind_eq_ok.2 ⟨_, hrest, rfl⟩⟩, hlast⟩

/-- The bytes that a run takes in are counted. -/
theorem performAll_bytesWritten {last : Desk} {calls : List Call} {replies : List Reply}
    (hs : d.history.Sound) (halive : d.history.poisoned = false)
    (h : d.performAll calls = .ok (replies, last)) :
    last.history.metrics.bytesWritten =
      d.history.metrics.bytesWritten + d.history.assembler.intakes calls := by
  induction calls generalizing d replies with
  | nil =>
    cases h
    rfl
  | cons call calls ih =>
    rw [performAll] at h
    obtain ⟨⟨reply, next⟩, hcall, h⟩ := Checked.bind_eq_ok.1 h
    obtain ⟨⟨rest, final⟩, hrest, hout⟩ := Checked.bind_eq_ok.1 h
    cases hout
    obtain ⟨hserve, hbytes, -⟩ := perform_takes hs halive hcall
    have hlock := perform_poisoned hs hcall
    rw [halive, Bool.or_false] at hlock
    rw [Assembler.intakes, ← Nat.add_assoc, ← hbytes]
    split
    next hpoison =>
      obtain ⟨replies, cursors, hdead⟩ := performAll_of_dead (hlock.trans hpoison) calls
      cases hrest.symm.trans hdead
      rfl
    next hpoison =>
      have hnext := hlock.trans (Bool.eq_false_of_not_eq_true hpoison)
      rw [ih (perform_effect hs hcall).1 hnext hrest, hserve]

end Desk

end Scrollback
