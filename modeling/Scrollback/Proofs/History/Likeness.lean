import Scrollback.Proofs.History.Following
import Scrollback.Proofs.History.Returning
/-!
# Histories that cannot be told apart

Two histories are alike if they retain the same records, have the same bytes pending and work under
the same settings. Their slots may be laid out differently, since they may have come there in
different ways. `Checked.Matches` lifts a relation to computations that may find an invariant
broken, and each operation on two histories that are alike matches: it tells the same and leaves
them alike again.

So nothing that was evicted, given back or dropped can be seen by anyone later on, which
`Desk.performAll_alike` says of any run. Only the counters of a lifetime remember it, and the room
of the buffer of pending bytes, which is why writes are compared without limit on memory.
-/

namespace Scrollback

namespace Checked

variable {α β γ δ : Type}

/-- Both computations find the same invariant broken, or both return, and what they return is
related. -/
def Matches (R : α → β → Prop) : Checked α → Checked β → Prop
  | .ok a, .ok b => R a b
  | .error e, .error e' => e = e'
  | _, _ => False

/-- Pairs that agree in the first part and are related in the other. -/
def SameFst (R : β → δ → Prop) (p : α × β) (q : α × δ) : Prop :=
  p.1 = q.1 ∧ R p.2 q.2

theorem Matches.bind {R : α → β → Prop} {S : γ → δ → Prop} {x : Checked α} {y : Checked β}
    {f : α → Checked γ} {g : β → Checked δ} (h : Matches R x y)
    (hnext : ∀ a b, R a b → Matches S (f a) (g b)) : Matches S (x >>= f) (y >>= g) := by
  cases x with
  | error e =>
    cases y with
    | error e' => exact h
    | ok b => exact h.elim
  | ok a =>
    cases y with
    | error e' => exact h.elim
    | ok b => exact hnext a b h

theorem Matches.of_ok {R : α → β → Prop} {x : Checked α} {y : Checked β} (h : Matches R x y)
    {a : α} (hx : x = .ok a) : ∃ b, y = .ok b ∧ R a b := by
  subst hx
  cases y with
  | error e => exact h.elim
  | ok b => exact ⟨b, rfl, h⟩

theorem Matches.mono {R S : α → β → Prop} {x : Checked α} {y : Checked β} (h : Matches R x y)
    (hRS : ∀ a b, R a b → S a b) : Matches S x y := by
  cases x <;> cases y
  · exact h
  · exact h.elim
  · exact h.elim
  · exact hRS _ _ h

theorem Matches.of_eq {R : α → α → Prop} {x y : Checked α} (h : x = y) (hR : ∀ a, R a a) :
    Matches R x y := by
  subst h
  cases x
  · rfl
  · exact hR _

/-- The same computation comes first in both. -/
theorem Matches.bind_same {S : γ → δ → Prop} (x : Checked α) {f : α → Checked γ}
    {g : α → Checked δ} (hnext : ∀ a, Matches S (f a) (g a)) :
    Matches S (x >>= f) (x >>= g) := by
  have hx : Matches Eq x x := of_eq rfl fun _ => rfl
  apply hx.bind
  rintro a _ rfl
  exact hnext a

end Checked

open Checked (Matches SameFst)

/-- A reply without the counters of a lifetime. -/
def Reply.timeless : Reply → Reply
  | stats (.ok s) => stats (.ok { s with assembler := ⟨s.assembler.pendingBytes, 0, 0⟩ })
  | counters (.ok _) => counters (.ok .fresh)
  | reply => reply

/-- Memory is no reason for a refusal of a write. -/
def Call.Ample : Call → Prop
  | write allowance _ => allowance = none
  | _ => True

/-! ### Assemblers and logs -/

/-- What a fragment completes, and what is pending then, depends on the pending bytes alone. -/
theorem Assembler.accept_congr {a b : Assembler} (hdelimiter : a.delimiter = b.delimiter)
    (hpolicy : a.policy = b.policy) (hpending : a.pending.bytes = b.pending.bytes)
    (fragment : Bytes) :
    (a.accept fragment).1.records = (b.accept fragment).1.records ∧
      (a.accept fragment).2.pending.bytes = (b.accept fragment).2.pending.bytes := by
  unfold accept
  rw [hdelimiter, hpolicy]
  split <;> simp [Assembly.records, hpending]

/-- To retain records gives up the same ones, wherever the slots are. -/
theorem Log.retain_matches {l l' : Log} {queue : List Record} (h : l.Holds queue)
    (h' : l'.Holds queue) (hcap : l.capacity = l'.capacity)
    (fits : Record.totalLength queue < wordCount) (records : List Record)
    (evicted evictedBytes : Nat) :
    Matches (fun out out' => out.2 = out'.2 ∧ out.1.capacity = out'.1.capacity ∧
        ∃ kept, out.1.Holds kept ∧ out'.1.Holds kept ∧ Record.totalLength kept < wordCount)
      (l.retain evicted evictedBytes records) (l'.retain evicted evictedBytes records) := by
  induction records generalizing l l' queue evicted evictedBytes with
  | nil => exact ⟨rfl, hcap, queue, h, h', fits⟩
  | cons r records ih =>
    obtain ⟨mid, hmid, hmcap, hinsert⟩ := h.insert_eq r
    obtain ⟨mid', hmid', hmcap', hinsert'⟩ := h'.insert_eq r
    rw [← hcap] at hmid' hmcap' hinsert'
    have hsame := hmcap.trans hmcap'.symm
    rw [retain, retain, hinsert, hinsert']
    split
    next hword =>
      rw [Checked.ok_bind, Checked.ok_bind]
      cases displaced l.capacity queue with
      | none => exact ih hmid hmid' hsame hword _ _
      | some e => exact ih hmid hmid' hsame hword _ _
    next => rfl

namespace History

/-- Two histories that cannot be told apart. -/
structure Alike (h h' : History) : Prop where
  left : h.Sound
  right : h'.Sound
  toList_eq : h.log.toList = h'.log.toList
  capacity_eq : h.log.capacity = h'.log.capacity
  delimiter_eq : h.assembler.delimiter = h'.assembler.delimiter
  policy_eq : h.assembler.policy = h'.assembler.policy
  pending_eq : h.assembler.pending.bytes = h'.assembler.pending.bytes
  poisoned_eq : h.poisoned = h'.poisoned

namespace Alike

variable {h h' : History}

/-- Logs that hold the same records take the place of those of two histories that are alike. -/
theorem withLogs (hh : h.Alike h') {log log' : Log} {kept : List Record} (hlog : log.Holds kept)
    (hlog' : log'.Holds kept) (fits : Record.totalLength kept < wordCount)
    (hcap : log.capacity = log'.capacity) (metrics metrics' : Metrics) :
    Alike { h with log, metrics } { h' with log := log', metrics := metrics' } := by
  have hlist := hlog.toList_eq
  have hlist' := hlog'.toList_eq
  exact { hh with
    left := ⟨hlist.symm ▸ hlog, hlist.symm ▸ fits⟩
    right := ⟨hlist'.symm ▸ hlog', hlist'.symm ▸ fits⟩
    toList_eq := hlist.trans hlist'.symm
    capacity_eq := hcap }

/-- So do assemblers with the same bytes pending. -/
theorem withAssemblers (hh : h.Alike h') {a a' : Assembler}
    (hdelimiter : a.delimiter = a'.delimiter) (hpolicy : a.policy = a'.policy)
    (hpending : a.pending.bytes = a'.pending.bytes) (metrics metrics' : Metrics) :
    Alike { h with assembler := a, metrics } { h' with assembler := a', metrics := metrics' } :=
  { hh with
    left := ⟨hh.left.holds, hh.left.fits⟩
    right := ⟨hh.right.holds, hh.right.fits⟩
    delimiter_eq := hdelimiter
    policy_eq := hpolicy
    pending_eq := hpending }

theorem discarded (hh : h.Alike h') (metrics metrics' : Metrics) :
    Alike { h with assembler := h.assembler.discard.2, metrics }
      { h' with assembler := h'.assembler.discard.2, metrics := metrics' } := by
  have hdelimiter : h.assembler.discard.2.delimiter = h'.assembler.discard.2.delimiter :=
    hh.delimiter_eq
  have hpolicy : h.assembler.discard.2.policy = h'.assembler.discard.2.policy := hh.policy_eq
  exact hh.withAssemblers hdelimiter hpolicy rfl metrics metrics'

theorem counting (hh : h.Alike h') (transfers : List Transfer) :
    (h.counting transfers).Alike (h'.counting transfers) :=
  { hh with left := hh.left.counting transfers, right := hh.right.counting transfers }

theorem records_eq (hh : h.Alike h') : h.log.records = h'.log.records := by
  rw [hh.left.holds.records_eq, hh.right.holds.records_eq, hh.toList_eq]

/-- So they stay when a holder of each lock dies. -/
theorem dead (hh : h.Alike h') :
    Alike { h with poisoned := true } { h' with poisoned := true } :=
  { hh with
    left := ⟨hh.left.holds, hh.left.fits⟩
    right := ⟨hh.right.holds, hh.right.fits⟩
    poisoned_eq := rfl }

theorem log_stats_eq (hh : h.Alike h') : h.log.stats = h'.log.stats := by
  rw [hh.left.holds.stats_eq, hh.right.holds.stats_eq, hh.left.holds.occupancy_eq,
    hh.right.holds.occupancy_eq, hh.toList_eq, hh.capacity_eq]

/-! ### Operations -/

theorem change {α : Type} (hh : h.Alike h')
    {act : History → Checked (Except HistoryError α × History)}
    (hact : Matches (SameFst Alike) (act h) (act h')) :
    Matches (SameFst Alike) (h.change act) (h'.change act) := by
  rw [History.change, History.change, hh.poisoned_eq]
  split
  · exact ⟨rfl, hh⟩
  · exact hact

theorem inspect {α : Type} (hh : h.Alike h') {look look' : Checked (Except HistoryError α)}
    (hlook : look = look') : h.inspect look = h'.inspect look' := by
  rw [History.inspect, History.inspect, hh.poisoned_eq, hlook]

theorem write (hh : h.Alike h') (fragment : Bytes) :
    Matches (SameFst Alike) (h.write none fragment) (h'.write none fragment) := by
  apply hh.change
  obtain ⟨hrecords, hpending⟩ :=
    Assembler.accept_congr hh.delimiter_eq hh.policy_eq hh.pending_eq fragment
  have hholds : h'.log.Holds h.log.toList := hh.toList_eq ▸ hh.right.holds
  simp only [Assembler.feed_none, hrecords]
  apply (Log.retain_matches hh.left.holds hholds hh.capacity_eq hh.left.fits _ 0 0).bind
  rintro ⟨log, counts⟩ ⟨log', _⟩ ⟨⟨⟩, hcap, kept, hlog, hlog', hfits⟩
  refine ⟨rfl, ?_⟩
  have hdelimiter : (h.assembler.accept fragment).2.delimiter =
      (h'.assembler.accept fragment).2.delimiter := by
    simpa using hh.delimiter_eq
  have hpolicy : (h.assembler.accept fragment).2.policy =
      (h'.assembler.accept fragment).2.policy := by
    simpa using hh.policy_eq
  exact (hh.withAssemblers hdelimiter hpolicy hpending h.metrics h'.metrics).withLogs hlog hlog'
    hfits hcap _ _

theorem discard (hh : h.Alike h') : Matches (SameFst Alike) h.discard h'.discard := by
  apply hh.change
  refine ⟨?_, hh.discarded _ _⟩
  simp only [Pending.length_eq, hh.pending_eq]

theorem teardown (hh : h.Alike h') : Matches (SameFst Alike) h.teardown h'.teardown := by
  apply hh.change
  obtain ⟨log, hteardown, hlog, hcap⟩ := hh.left.holds.teardown_eq
  obtain ⟨log', hteardown', hlog', hcap'⟩ := hh.right.holds.teardown_eq
  rw [hteardown, hteardown']
  refine ⟨congrArg Except.ok hh.toList_eq, ?_⟩
  have hsame : log.capacity = log'.capacity := by
    rw [hcap, hcap', hh.capacity_eq]
  exact (hh.discarded h.metrics h'.metrics).withLogs hlog hlog' (by decide) hsame _ _

theorem contents (hh : h.Alike h') (allowance : Allowance) :
    h.contents allowance = h'.contents allowance := by
  apply hh.inspect
  have hbytes : h.log.contentsDemands = h'.log.contentsDemands := by
    rw [Log.contentsDemands, Log.contentsDemands, hh.left.holds.liveBytes_eq,
      hh.right.holds.liveBytes_eq, hh.toList_eq]
  rw [hh.left.holds.contents_eq, hh.right.holds.contents_eq, hbytes, hh.toList_eq]

theorem totalLength (hh : h.Alike h') : h.totalLength = h'.totalLength := by
  apply hh.inspect
  rw [hh.left.holds.liveBytes_eq, hh.right.holds.liveBytes_eq, hh.toList_eq]

theorem stats (hh : h.Alike h') :
    Matches (fun result result' => (Reply.stats result).timeless = (Reply.stats result').timeless)
      h.stats h'.stats := by
  rw [History.stats, History.stats, History.inspect, History.inspect, hh.poisoned_eq,
    hh.log_stats_eq]
  split
  · rfl
  · apply Matches.bind_same
    intro log
    simp only [Matches, Checked.pure_eq_ok, Reply.timeless, Assembler.stats, Pending.length_eq,
      hh.pending_eq]

theorem counters (hh : h.Alike h') :
    Matches
      (fun result result' => (Reply.counters result).timeless = (Reply.counters result').timeless)
      h.counters h'.counters := by
  rw [History.counters, History.counters, History.inspect, History.inspect, hh.poisoned_eq]
  split <;> rfl

theorem read (hh : h.Alike h') (position room : Nat) :
    Matches (SameFst (SameFst Alike)) (h.read position room) (h'.read position room) := by
  have hlock' := hh.poisoned_eq
  obtain hlock | hlock := Bool.eq_false_or_eq_true h.poisoned
  · rw [hlock] at hlock'
    rw [read_of_dead hlock, read_of_dead hlock'.symm]
    exact ⟨rfl, rfl, hh⟩
  · rw [hlock] at hlock'
    rw [read_eq hh.left hlock, read_eq hh.right hlock'.symm, hh.toList_eq]
    split
    · exact ⟨rfl, rfl, hh.counting _⟩
    · rfl

theorem readInto (hh : h.Alike h') (position : Nat) (buffer : Bytes) :
    Matches (SameFst (SameFst (SameFst Alike))) (h.readInto position buffer)
      (h'.readInto position buffer) := by
  apply (hh.read position buffer.length).bind
  rintro ⟨result, after, next⟩ ⟨_, _, next'⟩ ⟨⟨⟩, ⟨⟩, hnext⟩
  cases result with
  | error e => exact ⟨rfl, rfl, rfl, hnext⟩
  | ok data =>
    apply Matches.bind_same
    intro filled
    exact ⟨rfl, rfl, rfl, hnext⟩

end Alike

/-- Two histories that show the same to whoever looks at them, and to each read. -/
structure TellsSame (h h' : History) : Prop where
  records_eq : h.log.records = h'.log.records
  pending_eq : h.assembler.pending.bytes = h'.assembler.pending.bytes
  stats_eq : h.log.stats = h'.log.stats
  read : ∀ position buffer,
    Matches (fun out out' => out.1 = out'.1 ∧ out.2.1 = out'.2.1 ∧ out.2.2.1 = out'.2.2.1)
      (h.readInto position buffer) (h'.readInto position buffer)

theorem Alike.tellsSame {h h' : History} (hh : h.Alike h') : h.TellsSame h' where
  records_eq := hh.records_eq
  pending_eq := hh.pending_eq
  stats_eq := hh.log_stats_eq
  read := by
    intro position buffer
    apply (hh.readInto position buffer).mono
    rintro out out' ⟨hresult, hbuffer, hafter, -⟩
    exact ⟨hresult, hbuffer, hafter⟩

end History

/-! ### Cursors -/

namespace Cursor

variable {h h' : History}

theorem fillFrom_matches (hh : h.Alike h') (c : Cursor) (room : Nat) (pieces : List Bytes)
    (fuel : Nat) :
    Matches (SameFst (SameFst (SameFst History.Alike)))
      (c.fillFrom h room pieces fuel) (c.fillFrom h' room pieces fuel) := by
  induction fuel generalizing h h' c room pieces with
  | zero => exact ⟨rfl, rfl, rfl, hh⟩
  | succ fuel ih =>
    rw [fillFrom, fillFrom]
    by_cases hroom : room = 0
    · rw [if_pos hroom, if_pos hroom]
      exact ⟨rfl, rfl, rfl, hh⟩
    · rw [if_neg hroom, if_neg hroom]
      apply (hh.read c.position room).bind
      rintro ⟨result, after, next⟩ ⟨_, _, next'⟩ ⟨⟨⟩, ⟨⟩, hnext⟩
      obtain e | _ | ⟨b, data⟩ := result
      · exact ⟨rfl, rfl, rfl, hnext⟩
      · exact ⟨rfl, rfl, rfl, hnext⟩
      · apply Matches.bind_same
        intro left
        exact ih hnext _ _ _

theorem drain_matches (hh : h.Alike h') (c : Cursor) (room : Nat) :
    Matches (SameFst (SameFst History.Alike)) (c.drain h room) (c.drain h' room) := by
  have hlock' := hh.poisoned_eq
  obtain hlock | hlock := Bool.eq_false_or_eq_true h.poisoned
  · rw [hlock] at hlock'
    rw [drain_of_dead hlock, drain_of_dead hlock'.symm]
    exact ⟨rfl, rfl, hh⟩
  · rw [hlock] at hlock'
    rw [show c = ⟨c.position⟩ from rfl, drain_eq hh.left hlock, drain_eq hh.right hlock'.symm,
      hh.toList_eq]
    split
    · exact ⟨rfl, rfl, hh.counting _⟩
    · rfl

theorem seek_congr (hh : h.Alike h') (c : Cursor) (whence : Whence) :
    c.seek h whence = c.seek h' whence := by
  cases whence with
  | start | current => rfl
  | fromEnd distance => simp only [seek, hh.totalLength]

end Cursor

/-! ### Desks -/

namespace Desk

/-- Two desks that cannot be told apart. -/
structure Alike (d d' : Desk) : Prop where
  history : d.history.Alike d'.history
  cursors : d.cursors = d'.cursors

variable {d d' : Desk}

/-- Two calls that tell the same, but for counters, and leave the desks alike. -/
def Likewise (out out' : Reply × Desk) : Prop :=
  out.1.timeless = out'.1.timeless ∧ out.2.Alike out'.2

theorem Alike.through (hd : d.Alike d') (reader : Nat)
    {serve serve' : Cursor → Checked (Reply × Cursor × History)}
    (hserve : ∀ c, Matches (SameFst (SameFst History.Alike)) (serve c) (serve' c)) :
    Matches Likewise (d.through reader serve) (d'.through reader serve') := by
  rw [Desk.through, Desk.through, hd.cursors]
  split
  · exact ⟨rfl, hd⟩
  next c _ =>
    apply (hserve c).bind
    rintro ⟨reply, last, next⟩ ⟨_, _, next'⟩ ⟨⟨⟩, ⟨⟩, hnext⟩
    exact ⟨rfl, hnext, by rw [update, update, hd.cursors]⟩

/-- An operation of the histories, and the reply that tells of it. -/
theorem Alike.serve (hd : d.Alike d') {α : Type} {x x' : Checked (α × History)}
    (hx : Matches (SameFst History.Alike) x x') (give : α → Reply) :
    Matches Likewise (x >>= fun out => .ok (give out.1, { d with history := out.2 }))
      (x' >>= fun out => .ok (give out.1, { d' with history := out.2 })) := by
  apply hx.bind
  rintro ⟨a, next⟩ ⟨_, next'⟩ ⟨⟨⟩, hnext⟩
  exact ⟨rfl, hnext, hd.cursors⟩

/-- A look at the histories that finds the same, but for counters. -/
theorem Alike.look (hd : d.Alike d') {α : Type} {x x' : Checked α} {give : α → Reply}
    (hx : Matches (fun a a' => (give a).timeless = (give a').timeless) x x') :
    Matches Likewise (x >>= fun a => .ok (give a, d)) (x' >>= fun a => .ok (give a, d')) := by
  apply hx.bind
  intro a a' ha
  exact ⟨ha, hd⟩

theorem Alike.perform (hd : d.Alike d') {call : Call} (hcall : call.Ample) :
    Matches Likewise (d.perform call) (d'.perform call) := by
  have hh := hd.history
  cases call with
  | write allowance fragment =>
    obtain rfl : allowance = none := hcall
    exact hd.serve (hh.write fragment) .written
  | readAt offset buffer =>
    apply (hh.readInto offset buffer).bind
    rintro ⟨result, filled, after, next⟩ ⟨_, _, _, next'⟩ ⟨⟨⟩, ⟨⟩, -, hnext⟩
    exact ⟨rfl, hnext, hd.cursors⟩
  | openCursor =>
    refine ⟨?_, hh, ?_⟩
    · rw [hd.cursors]
    · rw [hd.cursors]
  | read reader buffer =>
    apply hd.through
    intro c
    simp only [Cursor.readInto, bind_assoc]
    apply (hh.readInto c.position buffer).bind
    rintro ⟨result, filled, after, next⟩ ⟨_, _, _, next'⟩ ⟨⟨⟩, ⟨⟩, ⟨⟩, hnext⟩
    exact ⟨rfl, rfl, hnext⟩
  | readExact reader buffer =>
    apply hd.through
    intro c
    simp only [Cursor.readExact, bind_assoc]
    apply (Cursor.fillFrom_matches hh c buffer.length [] buffer.length).bind
    rintro ⟨result, pieces, last, next⟩ ⟨_, _, _, next'⟩ ⟨⟨⟩, ⟨⟩, ⟨⟩, hnext⟩
    apply Matches.bind_same
    intro filled
    exact ⟨rfl, rfl, hnext⟩
  | drain reader room =>
    apply hd.through
    intro c
    apply (Cursor.drain_matches hh c room).bind
    rintro ⟨result, last, next⟩ ⟨_, _, next'⟩ ⟨⟨⟩, ⟨⟩, hnext⟩
    exact ⟨rfl, rfl, hnext⟩
  | seek reader whence =>
    apply hd.through
    intro c
    rw [Cursor.seek_congr hh]
    apply Matches.bind_same
    rintro ⟨result, last⟩
    exact ⟨rfl, rfl, hh⟩
  | contents allowance => exact hd.look (.of_eq (hh.contents allowance) fun _ => rfl)
  | totalLength => exact hd.look (.of_eq hh.totalLength fun _ => rfl)
  | discard => exact hd.serve hh.discard .discarded
  | teardown => exact hd.serve hh.teardown .released
  | stats => exact hd.look hh.stats
  | counters => exact hd.look hh.counters
  | poison => exact ⟨congrArg (Reply.poisoned !·) hh.poisoned_eq, hh.dead, hd.cursors⟩

theorem Alike.performAll (hd : d.Alike d') {calls : List Call}
    (hcalls : ∀ call ∈ calls, call.Ample) :
    Matches
      (fun out out' => out.1.map Reply.timeless = out'.1.map Reply.timeless ∧ out.2.Alike out'.2)
      (d.performAll calls) (d'.performAll calls) := by
  induction calls generalizing d d' with
  | nil => exact ⟨rfl, hd⟩
  | cons call calls ih =>
    rw [List.forall_mem_cons] at hcalls
    rw [Desk.performAll, Desk.performAll]
    apply (hd.perform hcalls.1).bind
    rintro ⟨reply, next⟩ ⟨reply', next'⟩ ⟨hreply, hnext⟩
    apply (ih hnext hcalls.2).bind
    rintro ⟨replies, last⟩ ⟨replies', last'⟩ ⟨hreplies, hlast⟩
    exact ⟨congrArg₂ List.cons hreply hreplies, hlast⟩

/-- Two runs from an empty history may have come to the same records and the same pending bytes in
whatever way. Then whatever is asked of both, without limit on memory for writes, has the same
replies but for the counters of a lifetime, and the histories still tell the same then. All of it
returns as long as the bytes held fit a machine word. -/
theorem performAll_alike {s : Settings} {h : History} (hnew : History.create s = .ok (.ok h))
    {entries entries' : List Entry} (hruns : (ofHistory h).Runs entries d)
    (hruns' : (ofHistory h).Runs entries' d')
    (hrecords : d.history.log.records = d'.history.log.records)
    (hpending : d.history.assembler.pending.bytes = d'.history.assembler.pending.bytes)
    (hpoisoned : d.history.poisoned = d'.history.poisoned) (cursors : List Cursor)
    {calls : List Call} (hcalls : ∀ call ∈ calls, call.Ample) :
    Matches
        (fun out out' => out.1.map Reply.timeless = out'.1.map Reply.timeless ∧
          out.2.cursors = out'.2.cursors ∧ out.2.history.TellsSame out'.2.history)
        (Desk.performAll ⟨d.history, cursors⟩ calls)
        (Desk.performAll ⟨d'.history, cursors⟩ calls) ∧
      ((∀ c ∈ cursors, c.position < wordCount) → (∀ call ∈ calls, call.InWords) →
        d.history.held + (calls.map Call.written).sum < wordCount →
        ∃ replies last, Desk.performAll ⟨d.history, cursors⟩ calls = .ok (replies, last)) := by
  obtain ⟨hs, hm⟩ := hruns.follows_create hnew
  obtain ⟨hs', hm'⟩ := hruns'.follows_create hnew
  rw [hs.holds.records_eq, hs'.holds.records_eq] at hrecords
  have hd : Alike ⟨d.history, cursors⟩ ⟨d'.history, cursors⟩ := {
    history := {
      left := hs
      right := hs'
      toList_eq := Except.ok.inj hrecords
      capacity_eq := hm.capacity_eq.trans hm'.capacity_eq.symm
      delimiter_eq := hm.delimiter_eq.trans hm'.delimiter_eq.symm
      policy_eq := hm.policy_eq.trans hm'.policy_eq.symm
      pending_eq := hpending
      poisoned_eq := hpoisoned }
    cursors := rfl }
  constructor
  · apply (hd.performAll hcalls).mono
    rintro ⟨replies, last⟩ ⟨replies', last'⟩ ⟨hreplies, hlast⟩
    exact ⟨hreplies, hlast.cursors, hlast.history.tellsSame⟩
  · intro hword hplaces hfits
    have hready : Ready ⟨d.history, cursors⟩ := ⟨hs, hword⟩
    have hintakes := d.history.assembler.intakes_le calls
    obtain ⟨replies, last, hrun, -⟩ := hready.performAll_returns hplaces
      fun _ => (Nat.add_le_add_left hintakes _).trans_lt hfits
    exact ⟨replies, last, hrun⟩

/-- One history has pushed a line out, so its oldest line is in the last slot; the other has dropped
bytes and given a line back before. Both hold the same two lines and the same byte. -/
theorem performAll_alike_rotated :
    let calls : List Call := [.openCursor, .read 0 [0, 0], .write none [101, 10, 102],
      .readAt 2 [0, 0], .read 0 [0, 0, 0], .seek 0 (.fromEnd (-1)), .contents none, .discard,
      .stats, .teardown, .totalLength]
    ∃ (entries entries' : List Entry) (d d' last last' : Desk) (replies replies' : List Reply),
      (ofHistory (.ofLog ⟨2, 10, .split⟩ (Log.vacant 2))).Runs entries d ∧
      (ofHistory (.ofLog ⟨2, 10, .split⟩ (Log.vacant 2))).Runs entries' d' ∧
      entries.map Entry.call = [.write none [97, 10, 98, 10, 99, 10, 100]] ∧
      entries'.map Entry.call = [.write none [120, 10, 121], .discard, .teardown,
        .write none [98, 10, 99, 10, 100]] ∧
      d.history.log ≠ d'.history.log ∧
      d.performAll calls = .ok (replies, last) ∧ d'.performAll calls = .ok (replies', last') ∧
      replies.map Reply.timeless = replies'.map Reply.timeless ∧
      last.history.TellsSame last'.history := by
  intro calls
  have hnew : History.create ⟨2, 10, .split⟩ =
      .ok (.ok (.ofLog ⟨2, 10, .split⟩ (Log.vacant 2))) := rfl
  obtain ⟨d, hrun, hcursors, hheld, hpending, halive, hrecords, hslots⟩ : ∃ d,
      (ofHistory (.ofLog ⟨2, 10, .split⟩ (Log.vacant 2))).performAll
          [.write none [97, 10, 98, 10, 99, 10, 100]] = .ok ([.written (.ok ⟨7, 3, 1⟩)], d) ∧
      d.cursors = [] ∧ d.history.held = 5 ∧ d.history.assembler.pending.bytes = [100] ∧
      d.history.poisoned = false ∧
      d.history.log.records = .ok [.ofBytes [98, 10], .ofBytes [99, 10]] ∧
      d.history.log.slots = #[some (.ofBytes [99, 10]), some (.ofBytes [98, 10])] :=
    ⟨_, rfl, rfl, rfl, rfl, rfl, rfl, rfl⟩
  obtain ⟨d', hrun', hcursors', hpending', halive', hrecords', hslots'⟩ : ∃ d,
      (ofHistory (.ofLog ⟨2, 10, .split⟩ (Log.vacant 2))).performAll
          [.write none [120, 10, 121], .discard, .teardown, .write none [98, 10, 99, 10, 100]] =
        .ok ([.written (.ok ⟨3, 1, 0⟩), .discarded (.ok 1), .released (.ok [.ofBytes [120, 10]]),
          .written (.ok ⟨5, 2, 0⟩)], d) ∧
      d.cursors = [] ∧ d.history.assembler.pending.bytes = [100] ∧ d.history.poisoned = false ∧
      d.history.log.records = .ok [.ofBytes [98, 10], .ofBytes [99, 10]] ∧
      d.history.log.slots = #[some (.ofBytes [98, 10]), some (.ofBytes [99, 10])] :=
    ⟨_, rfl, rfl, rfl, rfl, rfl, rfl⟩
  obtain ⟨entries, hruns, hcalls, -⟩ := performAll_eq_ok_iff.1 hrun
  obtain ⟨entries', hruns', hcalls', -⟩ := performAll_eq_ok_iff.1 hrun'
  have hample : ∀ call ∈ calls, call.Ample := by
    simp [calls, Call.Ample]
  obtain ⟨hmatches, hreturns⟩ := performAll_alike hnew hruns hruns'
    (hrecords.trans hrecords'.symm) (hpending.trans hpending'.symm) (halive.trans halive'.symm) []
    hample
  have hd : d = ⟨d.history, []⟩ := hcursors ▸ rfl
  have hd' : d' = ⟨d'.history, []⟩ := hcursors' ▸ rfl
  obtain ⟨replies, last, hlast⟩ := hreturns nofun
    (by simp [calls, Call.InWords, show 2 < wordCount by decide]) (by rw [hheld]; decide)
  rw [← hd] at hlast hmatches
  rw [← hd'] at hmatches
  obtain ⟨⟨replies', last'⟩, hlast', hreplies, -, htells⟩ := hmatches.of_ok hlast
  refine ⟨entries, entries', d, d', last, last', replies, replies', hruns, hruns', hcalls, hcalls',
    ?_, hlast, hlast', hreplies, htells⟩
  intro hsame
  have hmoved := congrArg Log.slots hsame
  rw [hslots, hslots'] at hmoved
  exact absurd hmoved (by decide)

end Desk

end Scrollback
