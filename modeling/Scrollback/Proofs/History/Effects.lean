import Scrollback.Proofs.History.Reading
import Scrollback.Proofs.History.Refusal
import Scrollback.Proofs.Log.Retaining
/-!
# The effects of a call

An `Entry` is a call with the desk that it met and the reply that came back. From it can be read
what the caller was told and what the call did to the log: the records that it completed, the
records that it pushed out, the reads that it made.

`Entry.Effect` lists what a call can do to a history at all, refusals and a dead lock included, and
`Desk.perform_effect` shows that each call has one of these effects. What holds of all runs is
proved from the effects, so that no later proof opens a call.
-/

namespace Scrollback

namespace Call

/-- The room for bytes that a call brings. -/
def room : Call → Nat
  | readAt _ buffer => buffer.length
  | read _ buffer => buffer.length
  | readExact _ buffer => buffer.length
  | drain _ room => room
  | _ => 0

/-- The cursor that a call goes through. -/
def reader? : Call → Option Nat
  | read reader _ => some reader
  | readExact reader _ => some reader
  | drain reader _ => some reader
  | seek reader _ => some reader
  | _ => none

/-- Whether a call leaves the records and the pending bytes alone. -/
def isLook : Call → Bool
  | write _ _ | discard | teardown => false
  | _ => true

/-- Whether a holder of the lock dies. -/
def isPoison : Call → Bool
  | poison => true
  | _ => false

end Call

/-- The reads that fill some room from a cursor on: each has the room that is left, and the last
either uses it up or returns nothing. -/
def Cursor.fills (c : Cursor) (h : History) (room : Nat) : (fuel : Nat) → List Transfer
  | 0 => []
  | fuel + 1 =>
    if room = 0 then []
    else match h.read c.position room with
      | .ok (.ok data, position, next) =>
        ⟨room, data.length⟩ ::
          if data.isEmpty then [] else fills ⟨position⟩ next (room - data.length) fuel
      | _ => []

/-- One call of a run. -/
structure Entry where
  /-- The desk that the call met. -/
  before : Desk
  call : Call
  reply : Reply

namespace Entry

def history (e : Entry) : History :=
  e.before.history

def cursor? (e : Entry) : Option Cursor :=
  e.call.reader?.bind fun reader => e.before.cursors[reader]?

/-- What a writer was told whose fragment was taken in. -/
def outcome? (e : Entry) : Option WriteOutcome :=
  match e.reply with
  | .written (.ok outcome) => some outcome
  | _ => none

/-- Whether a write was refused memory. -/
def isRefusal (e : Entry) : Bool :=
  match e.reply with
  | .written (.error (.alloc _)) => true
  | _ => false

def released? (e : Entry) : Option (List Record) :=
  match e.reply with
  | .released (.ok records) => some records
  | _ => none

/-- The number of pending bytes that a discard or a teardown dropped. -/
def dropped? (e : Entry) : Option Nat :=
  match e.reply with
  | .discarded (.ok count) => some count
  | .released (.ok _) => some e.history.assembler.pending.length
  | _ => none

/-- The records that a write completed. -/
def completed (e : Entry) : List Record :=
  match e.call, e.outcome? with
  | .write _ fragment, some _ => (e.history.assembler.accept fragment).1.records
  | _, _ => []

/-- The records that a write pushed out of the log. -/
def evicted (e : Entry) : List Record :=
  e.history.log.evictions e.completed

/-- The reads that a call made. -/
def transfers (e : Entry) : List Transfer :=
  match e.reply with
  | .copied (.ok count) _ => [⟨e.call.room, count⟩]
  | .read (.ok count) _ => [⟨e.call.room, count⟩]
  | .filled _ _ => (e.cursor?.map (·.fills e.history e.call.room e.call.room)).getD []
  | .drained (.ok pieces) => Transfer.drained e.call.room pieces
  | _ => []

theorem completed_of_outcome {e : Entry} (h : e.outcome? = none) : e.completed = [] := by
  unfold completed
  rw [h]
  split <;> simp_all

theorem evicted_of_outcome {e : Entry} (h : e.outcome? = none) : e.evicted = [] := by
  rw [evicted, completed_of_outcome h]
  rfl

/-- A call makes some reads or none; or the lock dies. -/
structure Looked (e : Entry) (next : History) : Prop where
  outcome : e.outcome? = none
  refusal : e.isRefusal = false
  released : e.released? = none
  dropped : e.dropped? = none
  next_eq : next = { e.history.counting e.transfers with
    poisoned := e.call.isPoison || e.history.poisoned }

/-- What a call can do to a history. -/
inductive Effect (e : Entry) (next : History) : Prop where
  | looked (poisoned : Bool) (houtcome : e.outcome? = none) (hrefusal : e.isRefusal = false)
      (hreleased : e.released? = none) (hdropped : e.dropped? = none)
      (hnext : next = { e.history.counting e.transfers with poisoned })
  | refused (request : Nat) (hreply : e.reply = .written (.error (.alloc request)))
      (hnext : next = { e.history with metrics := History.countRefusal e.history.metrics })
  /-- It takes a fragment in: the records held before and those completed are the ones pushed out
  and those held after. -/
  | wrote (fragment : Bytes) (log : Log)
      (hcompleted : e.completed = (e.history.assembler.accept fragment).1.records)
      (hreply : e.reply =
        .written (.ok ⟨fragment.length, e.completed.length, e.evicted.length⟩))
      (hkept : e.evicted ++ log.toList = e.history.log.toList ++ e.completed)
      (hnext : next = { e.history with
        assembler := (e.history.assembler.accept fragment).2
        log
        metrics := History.countWrite e.history.metrics
          ⟨fragment.length, e.completed.length, e.evicted.length⟩
          (Record.totalLength e.evicted) })
  /-- It drops the pending bytes. -/
  | discarded (hreply : e.reply = .discarded (.ok e.history.assembler.pending.length))
      (hnext : next = { e.history with
        assembler := e.history.assembler.discard.2
        metrics := History.countDiscard e.history.metrics e.history.assembler.pending.length })
  /-- It gives every record back and drops the pending bytes. -/
  | released (log : Log) (hreply : e.reply = .released (.ok e.history.log.toList))
      (hempty : log.toList = [])
      (hnext : next = { e.history with
        assembler := e.history.assembler.discard.2
        log
        metrics := History.countDiscard e.history.metrics e.history.assembler.pending.length })

def isTeardown (e : Entry) : Bool :=
  e.released?.isSome

namespace Effect

variable {e : Entry} {next : History}

theorem toList_of_teardown (h : e.Effect next) (hteardown : e.isTeardown = true) :
    next.log.toList = [] := by
  cases h with
  | looked _ _ _ hreleased _ _ => simp [isTeardown, hreleased] at hteardown
  | refused _ hreply _ => simp [isTeardown, released?, hreply] at hteardown
  | wrote _ _ _ hreply _ _ => simp [isTeardown, released?, hreply] at hteardown
  | discarded hreply _ => simp [isTeardown, released?, hreply] at hteardown
  | released log _ hempty hnext =>
    rw [hnext]
    exact hempty

/-- A call that is no teardown parts the records, those before and those completed, into the ones
pushed out and the ones after. -/
theorem evicted_append_toList (h : e.Effect next) (hteardown : e.isTeardown = false) :
    e.evicted ++ next.log.toList = e.history.log.toList ++ e.completed := by
  cases h with
  | looked _ houtcome _ _ _ hnext =>
    rw [evicted_of_outcome houtcome, completed_of_outcome houtcome, hnext]
    simp
  | refused _ hreply hnext =>
    have houtcome : e.outcome? = none := by rw [outcome?, hreply]
    rw [evicted_of_outcome houtcome, completed_of_outcome houtcome, hnext]
    simp
  | wrote _ _ _ _ hkept hnext =>
    rw [hnext]
    exact hkept
  | discarded hreply hnext =>
    have houtcome : e.outcome? = none := by rw [outcome?, hreply]
    rw [evicted_of_outcome houtcome, completed_of_outcome houtcome, hnext]
    simp
  | released _ hreply _ _ => simp [isTeardown, released?, hreply] at hteardown

end Effect

end Entry

/-! ### What a call does -/

namespace History

variable {h next : History}

theorem write_eq_ok (hs : h.Sound) {allowance : Allowance} {fragment : Bytes}
    {result : Except HistoryError WriteOutcome}
    (hwrite : h.write allowance fragment = .ok (result, next)) :
    next.Sound ∧
      ((result = .error .lockPoisoned ∧ next = h) ∨
        (∃ request, result = .error (.alloc request) ∧
          next = { h with metrics := countRefusal h.metrics }) ∨
        ∃ log : Log, let records := (h.assembler.accept fragment).1.records
          let gone := h.log.evictions records
          result = .ok ⟨fragment.length, records.length, gone.length⟩ ∧
          gone ++ log.toList = h.log.toList ++ records ∧
          log.toList = (h.log.toList ++ records).rtake h.log.capacity ∧
          log.capacity = h.log.capacity ∧
          next = { h with
            assembler := (h.assembler.accept fragment).2
            log
            metrics := countWrite h.metrics ⟨fragment.length, records.length, gone.length⟩
              (Record.totalLength gone) }) := by
  obtain ⟨-, rfl, rfl⟩ | ⟨hlock, -⟩ := change_eq_ok hwrite
  · exact ⟨hs, .inl ⟨rfl, rfl⟩⟩
  · obtain ⟨request, hrefused⟩ | hsame := write_eq hlock allowance fragment
    · rw [hrefused] at hwrite
      cases hwrite
      exact ⟨⟨hs.holds, hs.fits⟩, .inr (.inl ⟨request, rfl, rfl⟩)⟩
    · rw [hsame, write, change_of_alive hlock, Assembler.feed_none] at hwrite
      obtain ⟨⟨log, count, bytes⟩, hretain, hout⟩ := Checked.bind_eq_ok.1 hwrite
      obtain ⟨hlog, hcap, hfits, hkept, rfl, rfl⟩ := hs.holds.retain_eq_ok hs.fits hretain
      -- The log holds the newest records, which its own view of the queue then is.
      have hlist := hlog.toList_eq
      rw [← hlist] at hlog hfits hkept
      cases hout
      refine ⟨⟨hlog, hfits⟩, .inr (.inr ⟨log, ?_, hkept, hlist, hcap, ?_⟩)⟩
      · simp
      · simp

theorem discard_eq_ok {result : Except HistoryError Nat} (hs : h.Sound)
    (hdiscard : h.discard = .ok (result, next)) :
    next.Sound ∧
      ((result = .error .lockPoisoned ∧ next = h) ∨
        (result = .ok h.assembler.pending.length ∧
          next = { h with
            assembler := h.assembler.discard.2
            metrics := countDiscard h.metrics h.assembler.pending.length })) := by
  obtain ⟨-, rfl, rfl⟩ | ⟨-, hmade⟩ := change_eq_ok hdiscard
  · exact ⟨hs, .inl ⟨rfl, rfl⟩⟩
  · cases hmade
    exact ⟨⟨hs.holds, hs.fits⟩, .inr ⟨rfl, rfl⟩⟩

theorem teardown_eq_ok {result : Except HistoryError (List Record)} (hs : h.Sound)
    (hteardown : h.teardown = .ok (result, next)) :
    next.Sound ∧
      ((result = .error .lockPoisoned ∧ next = h) ∨
        ∃ log : Log, log.toList = [] ∧ log.capacity = h.log.capacity ∧
          result = .ok h.log.toList ∧
          next = { h with
            assembler := h.assembler.discard.2
            log
            metrics := countDiscard h.metrics h.assembler.pending.length }) := by
  obtain ⟨-, rfl, rfl⟩ | ⟨-, hmade⟩ := change_eq_ok hteardown
  · exact ⟨hs, .inl ⟨rfl, rfl⟩⟩
  · obtain ⟨log, hlog, hholds, hcap⟩ := hs.holds.teardown_eq
    rw [hlog] at hmade
    cases hmade
    have hempty := hholds.toList_eq
    rw [← hempty] at hholds
    exact ⟨⟨hholds, by rw [hempty]; decide⟩, .inr ⟨log, hempty, hcap, rfl, rfl⟩⟩

end History

namespace Cursor

variable {h next : History}

theorem drain_eq_ok (hs : h.Sound) {c last : Cursor} {room : Nat}
    {result : Except HistoryError (List Bytes)}
    (hdrain : c.drain h room = .ok (result, last, next)) :
    (∃ e, result = .error e ∧ next = h) ∨
      ∃ pieces, result = .ok pieces ∧ next = h.counting (Transfer.drained room pieces) := by
  cases hlock : h.poisoned with
  | true =>
    rw [drain_of_dead hlock] at hdrain
    cases hdrain
    exact .inl ⟨_, rfl, rfl⟩
  | false =>
    rw [show c = ⟨c.position⟩ from rfl, drain_eq hs hlock] at hdrain
    split at hdrain
    · cases hdrain
      exact .inr ⟨_, rfl, rfl⟩
    · cases hdrain

/-- The reads of a loop that fills some room are counted, and nothing else has changed. -/
theorem fillFrom_eq_ok {c last : Cursor} {room fuel : Nat} {before pieces : List Bytes}
    {result : Except CursorError Unit}
    (hfill : c.fillFrom h room before fuel = .ok (result, pieces, last, next)) :
    next = h.counting (c.fills h room fuel) := by
  induction fuel generalizing c h room before with
  | zero =>
    cases hfill
    rfl
  | succ fuel ih =>
    rw [fillFrom] at hfill
    rw [fills]
    by_cases hroom : room = 0
    · rw [if_pos hroom] at hfill ⊢
      cases hfill
      rfl
    · rw [if_neg hroom] at hfill ⊢
      obtain ⟨⟨found, position, mid⟩, hread, hmore⟩ := Checked.bind_eq_ok.1 hfill
      rw [hread]
      obtain ⟨-, rfl, -, rfl⟩ | ⟨-, data, rfl, -, rfl⟩ := History.read_eq_ok hread
      · cases hmore
        rfl
      · -- An empty read ends the loop, any other leaves the rest of the room to the next reads.
        cases data with
        | nil =>
          cases hmore
          rfl
        | cons b data =>
          obtain ⟨left, hleft, hrest⟩ := Checked.bind_eq_ok.1 hmore
          unfold Word.sub at hleft
          split at hleft
          · cases hleft
            rw [ih hrest, History.counting_counting]
            rfl
          · cases hleft

theorem readExact_eq_ok {c last : Cursor} {buffer filled : Bytes}
    {result : Except CursorError Unit}
    (hread : c.readExact h buffer = .ok (result, filled, last, next)) :
    next = h.counting (c.fills h buffer.length buffer.length) := by
  rw [readExact] at hread
  obtain ⟨⟨found, pieces, moved, mid⟩, hfill, hout⟩ := Checked.bind_eq_ok.1 hread
  obtain ⟨laid, -, hout⟩ := Checked.bind_eq_ok.1 hout
  cases hout
  exact fillFrom_eq_ok hfill

end Cursor

namespace Desk

theorem through_eq_ok {d next : Desk} {reader : Nat} {reply : Reply}
    {serve : Cursor → Checked (Reply × Cursor × History)}
    (h : d.through reader serve = .ok (reply, next)) :
    (d.cursors[reader]? = none ∧ reply = .noCursor ∧ next = d) ∨
      ∃ c last after, d.cursors[reader]? = some c ∧ serve c = .ok (reply, last, after) ∧
        next = d.update reader last after := by
  unfold through at h
  split at h
  next hnone =>
    cases h
    exact .inl ⟨hnone, rfl, rfl⟩
  next c hsome =>
    obtain ⟨⟨served, last, after⟩, hserve, hout⟩ := Checked.bind_eq_ok.1 h
    cases hout
    exact .inr ⟨c, last, after, hsome, hserve, rfl⟩

/-- A call that only looks changes the counters of reads at most, or lets the lock die. -/
theorem perform_looked {d next : Desk} {call : Call} {reply : Reply} (hs : d.history.Sound)
    (hlook : call.isLook = true) (h : d.perform call = .ok (reply, next)) :
    next.history.Sound ∧ Entry.Looked ⟨d, call, reply⟩ next.history := by
  cases call with
  | write | discard | teardown => cases hlook
  | readAt offset buffer =>
    obtain ⟨⟨result, filled, after, history⟩, hread, hout⟩ := Checked.bind_eq_ok.1 h
    cases hout
    obtain ⟨rfl, rfl⟩ | ⟨data, -, rfl, rfl, -, rfl⟩ := History.readInto_eq_ok hs hread
    · exact ⟨hs, rfl, rfl, rfl, rfl, rfl⟩
    · exact ⟨hs.counting _, rfl, rfl, rfl, rfl, rfl⟩
  | openCursor =>
    cases h
    exact ⟨hs, rfl, rfl, rfl, rfl, rfl⟩
  | read reader buffer =>
    obtain ⟨-, rfl, rfl⟩ | ⟨c, last, after, -, hserve, rfl⟩ := through_eq_ok h
    · exact ⟨hs, rfl, rfl, rfl, rfl, rfl⟩
    · obtain ⟨⟨result, filled, moved, history⟩, hread, hout⟩ := Checked.bind_eq_ok.1 hserve
      cases hout
      obtain ⟨⟨found, laid, position, history⟩, hfound, hout⟩ := Checked.bind_eq_ok.1 hread
      cases hout
      obtain ⟨rfl, rfl⟩ | ⟨data, -, rfl, rfl, -, rfl⟩ := History.readInto_eq_ok hs hfound
      · exact ⟨hs, rfl, rfl, rfl, rfl, rfl⟩
      · exact ⟨hs.counting _, rfl, rfl, rfl, rfl, rfl⟩
  | readExact reader buffer =>
    obtain ⟨-, rfl, rfl⟩ | ⟨c, last, after, hc, hserve, rfl⟩ := through_eq_ok h
    · exact ⟨hs, rfl, rfl, rfl, rfl, rfl⟩
    · obtain ⟨⟨result, filled, moved, history⟩, hread, hout⟩ := Checked.bind_eq_ok.1 hserve
      cases hout
      obtain rfl := Cursor.readExact_eq_ok hread
      have htransfers : Entry.transfers ⟨d, .readExact reader buffer, .filled result filled⟩ =
          c.fills d.history buffer.length buffer.length := by
        simp [Entry.transfers, Entry.cursor?, Call.reader?, hc, Entry.history, Call.room]
      refine ⟨hs.counting _, rfl, rfl, rfl, rfl, ?_⟩
      rw [htransfers]
      rfl
  | drain reader room =>
    obtain ⟨-, rfl, rfl⟩ | ⟨c, last, after, -, hserve, rfl⟩ := through_eq_ok h
    · exact ⟨hs, rfl, rfl, rfl, rfl, rfl⟩
    · obtain ⟨⟨result, moved, history⟩, hdrain, hout⟩ := Checked.bind_eq_ok.1 hserve
      cases hout
      obtain ⟨e, rfl, rfl⟩ | ⟨pieces, rfl, rfl⟩ := Cursor.drain_eq_ok hs hdrain
      · exact ⟨hs, rfl, rfl, rfl, rfl, rfl⟩
      · exact ⟨hs.counting _, rfl, rfl, rfl, rfl, rfl⟩
  | seek reader whence =>
    obtain ⟨-, rfl, rfl⟩ | ⟨c, last, after, -, hserve, rfl⟩ := through_eq_ok h
    · exact ⟨hs, rfl, rfl, rfl, rfl, rfl⟩
    · obtain ⟨⟨result, moved⟩, -, hout⟩ := Checked.bind_eq_ok.1 hserve
      cases hout
      exact ⟨hs, rfl, rfl, rfl, rfl, rfl⟩
  | contents | totalLength | stats | counters =>
    obtain ⟨result, -, hout⟩ := Checked.bind_eq_ok.1 h
    cases hout
    exact ⟨hs, rfl, rfl, rfl, rfl, rfl⟩
  | poison =>
    cases h
    exact ⟨⟨hs.holds, hs.fits⟩, rfl, rfl, rfl, rfl, rfl⟩

/-- A call on a history whose ring is laid out for its records has one of the effects, and leaves
the ring laid out for what are its records then. -/
theorem perform_effect {d next : Desk} {call : Call} {reply : Reply} (hs : d.history.Sound)
    (h : d.perform call = .ok (reply, next)) :
    next.history.Sound ∧ Entry.Effect ⟨d, call, reply⟩ next.history := by
  by_cases hlook : call.isLook = true
  · obtain ⟨hsound, houtcome, hrefusal, hreleased, hdropped, hnext⟩ := perform_looked hs hlook h
    exact ⟨hsound, .looked _ houtcome hrefusal hreleased hdropped hnext⟩
  cases call with
  | write allowance fragment =>
    obtain ⟨⟨result, after⟩, hwrite, hout⟩ := Checked.bind_eq_ok.1 h
    cases hout
    obtain ⟨hsound, ⟨rfl, rfl⟩ | ⟨request, rfl, rfl⟩ | ⟨log, rfl, hkept, -, -, rfl⟩⟩ :=
      History.write_eq_ok hs hwrite
    · exact ⟨hs, .looked _ rfl rfl rfl rfl rfl⟩
    · exact ⟨hsound, .refused request rfl rfl⟩
    · exact ⟨hsound, .wrote fragment log rfl rfl hkept rfl⟩
  | discard =>
    obtain ⟨⟨result, after⟩, hdiscard, hout⟩ := Checked.bind_eq_ok.1 h
    cases hout
    obtain ⟨hsound, ⟨rfl, rfl⟩ | ⟨rfl, rfl⟩⟩ := History.discard_eq_ok hs hdiscard
    · exact ⟨hs, .looked _ rfl rfl rfl rfl rfl⟩
    · exact ⟨hsound, .discarded rfl rfl⟩
  | teardown =>
    obtain ⟨⟨result, after⟩, hteardown, hout⟩ := Checked.bind_eq_ok.1 h
    cases hout
    obtain ⟨hsound, ⟨rfl, rfl⟩ | ⟨log, hempty, -, rfl, rfl⟩⟩ := History.teardown_eq_ok hs hteardown
    · exact ⟨hs, .looked _ rfl rfl rfl rfl rfl⟩
    · exact ⟨hsound, .released log rfl hempty rfl⟩
  | readAt | openCursor | read | readExact | drain | seek | contents | totalLength | stats |
    counters | poison => exact absurd rfl hlook

/-- The lock stays as it is, unless a holder dies. -/
theorem perform_poisoned {d next : Desk} {call : Call} {reply : Reply} (hs : d.history.Sound)
    (h : d.perform call = .ok (reply, next)) :
    next.history.poisoned = (call.isPoison || d.history.poisoned) := by
  by_cases hlook : call.isLook = true
  · rw [(perform_looked hs hlook h).2.next_eq]
    rfl
  cases call with
  | write allowance fragment =>
    obtain ⟨⟨result, after⟩, hwrite, hout⟩ := Checked.bind_eq_ok.1 h
    cases hout
    obtain ⟨-, ⟨-, rfl⟩ | ⟨-, -, rfl⟩ | ⟨-, -, -, -, -, rfl⟩⟩ := History.write_eq_ok hs hwrite
    all_goals rfl
  | discard =>
    obtain ⟨⟨result, after⟩, hdiscard, hout⟩ := Checked.bind_eq_ok.1 h
    cases hout
    obtain ⟨-, ⟨-, rfl⟩ | ⟨-, rfl⟩⟩ := History.discard_eq_ok hs hdiscard
    all_goals rfl
  | teardown =>
    obtain ⟨⟨result, after⟩, hteardown, hout⟩ := Checked.bind_eq_ok.1 h
    cases hout
    obtain ⟨-, ⟨-, rfl⟩ | ⟨-, -, -, -, rfl⟩⟩ := History.teardown_eq_ok hs hteardown
    all_goals rfl
  | readAt | openCursor | read | readExact | drain | seek | contents | totalLength | stats |
    counters | poison => exact absurd rfl hlook

end Desk

end Scrollback
