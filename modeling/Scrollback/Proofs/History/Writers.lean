import Scrollback.Proofs.History.Following
import Scrollback.Proofs.History.Returning
/-!
# Writers of whole lines

Any number of writers share a history with others who read it or drop what is pending. The lock
serves all of them one at a time, so a list of arrivals is one order in which they come. If each
fragment ends with the delimiter, no fragment finds anything pending, and none leaves anything: it
goes in as its own lines, and no line holds bytes of two fragments.

The records are then the newest of the lines in the order in which they were served
(`Desk.follows_wholeLines`). The lines of one writer are among them in its own order, and those that
are left are its newest: `Desk.performAll_wholeLines` puts this together.
-/

namespace Scrollback

/-- A call when the lock serves it: the write of one of the writers, or a call of someone else. -/
inductive Arrival where
  | write (writer : Nat) (allowance : Allowance) (fragment : Bytes)
  | other (call : Call)
  deriving DecidableEq, Repr

namespace Arrival

def call : Arrival → Call
  | write _ allowance fragment => .write allowance fragment
  | other call => call

/-- Writers write whole lines, and the others only look or drop what is pending. -/
def Whole (delimiter : UInt8) : Arrival → Prop
  | write _ _ fragment => fragment.getLast? = some delimiter
  | other call => call.isLook = true ∨ call = .discard

/-- Memory is no reason for a refusal, and no holder of the lock dies. -/
def Unlimited : Arrival → Prop
  | write _ allowance _ => allowance = none
  | other call => call.isPoison = false

def issue? : Arrival → Option (Nat × Bytes)
  | write writer _ fragment => some (writer, fragment)
  | other _ => none

/-- The writer and its fragment, if the fragment was taken in. -/
def taken? : Arrival × Reply → Option (Nat × Bytes)
  | (write writer _ fragment, .written (.ok _)) => some (writer, fragment)
  | _ => none

/-- The fragments taken in, in the order in which they were served, each with its writer. -/
def taken (order : List Arrival) (replies : List Reply) : List (Nat × Bytes) :=
  (order.zip replies).filterMap taken?

/-- The fragments of one writer, in its own order. -/
def own (writer : Nat) (fragments : List (Nat × Bytes)) : List Bytes :=
  (fragments.filter (·.1 = writer)).map Prod.snd

/-- The lines of one fragment as records, each with the writer. -/
def signed (delimiter : UInt8) (fragment : Nat × Bytes) : List (Option Nat × Record) :=
  (Framing.lines delimiter fragment.2).map fun line => (some fragment.1, .ofBytes line)

/-- Records that were there before any writer, and the lines of fragments behind them. -/
def merged (delimiter : UInt8) (old : List Record) (fragments : List (Nat × Bytes)) :
    List (Option Nat × Record) :=
  old.map (fun r => (none, r)) ++ fragments.flatMap (signed delimiter)

def kept (s : Settings) (old : List Record) (fragments : List (Nat × Bytes)) :
    List (Option Nat × Record) :=
  (merged s.delimiter old fragments).rtake s.capacity

theorem taken_cons (a : Arrival) (order : List Arrival) (reply : Reply) (replies : List Reply) :
    taken (a :: order) (reply :: replies) = (taken? (a, reply)).toList ++ taken order replies := by
  rw [taken, List.zip_cons_cons, List.filterMap_cons, ← taken]
  cases taken? (a, reply) <;> rfl

theorem map_filter_signed (delimiter : UInt8) (fragment : Nat × Bytes) (writer : Nat) :
    ((signed delimiter fragment).filter (·.1 = some writer)).map Prod.snd =
      if fragment.1 = writer then (Framing.lines delimiter fragment.2).map Record.ofBytes
      else [] := by
  split
  next hwriter =>
    have hall : ∀ r ∈ signed delimiter fragment, decide (r.1 = some writer) = true := by
      intro r hr
      obtain ⟨line, -, rfl⟩ := List.mem_map.1 hr
      simp [hwriter]
    rw [List.filter_eq_self.2 hall, signed, List.map_map]
    rfl
  next hwriter =>
    have hnone : ∀ r ∈ signed delimiter fragment, ¬decide (r.1 = some writer) = true := by
      intro r hr
      obtain ⟨line, -, rfl⟩ := List.mem_map.1 hr
      simp [hwriter]
    rw [List.filter_eq_nil_iff.2 hnone, List.map_nil]

/-- The lines of one writer in the merged ones are those of its own fragments. -/
theorem map_filter_merged (delimiter : UInt8) (old : List Record)
    (fragments : List (Nat × Bytes)) (writer : Nat) :
    ((merged delimiter old fragments).filter (·.1 = some writer)).map Prod.snd =
      ((own writer fragments).flatMap (Framing.lines delimiter)).map Record.ofBytes := by
  have hold : (old.map fun r => ((none : Option Nat), r)).filter (·.1 = some writer) = [] := by
    simp
  rw [merged, List.filter_append, hold, List.nil_append]
  induction fragments with
  | nil => rfl
  | cons fragment fragments ih =>
    rw [List.flatMap_cons, List.filter_append, List.map_append, ih, map_filter_signed, own, own,
      List.filter_cons]
    by_cases hwriter : fragment.1 = writer
    · simp [hwriter]
    · simp [hwriter]

theorem mem_merged {delimiter : UInt8} {old : List Record} {fragments : List (Nat × Bytes)}
    {writer : Nat} {r : Record} (h : (some writer, r) ∈ merged delimiter old fragments) :
    ∃ fragment, (writer, fragment) ∈ fragments ∧
      r.bytes ∈ Framing.lines delimiter fragment := by
  obtain hold | hnew := List.mem_append.1 h
  · simp at hold
  · obtain ⟨⟨owner, fragment⟩, hfragment, hr⟩ := List.mem_flatMap.1 hnew
    obtain ⟨line, hline, heq⟩ := List.mem_map.1 hr
    cases heq
    exact ⟨fragment, hfragment, hline⟩

theorem mem_old {delimiter : UInt8} {old : List Record} {fragments : List (Nat × Bytes)}
    {r : Record} (h : (none, r) ∈ merged delimiter old fragments) : r ∈ old := by
  obtain hold | hnew := List.mem_append.1 h
  · obtain ⟨r', hr', heq⟩ := List.mem_map.1 hold
    cases heq
    exact hr'
  · obtain ⟨fragment, -, hr⟩ := List.mem_flatMap.1 hnew
    obtain ⟨line, -, heq⟩ := List.mem_map.1 hr
    cases heq

end Arrival

open Arrival (taken taken? signed)

/-- A history after fragments of whole lines, with some records that were there before. -/
structure History.Untorn (s : Settings) (old : List Record) (fragments : List (Nat × Bytes))
    (h : History) : Prop where
  pending_eq : h.assembler.pending.bytes = []
  /-- The records are the newest lines in the order in which they were served. -/
  records_eq : h.log.records = .ok ((Arrival.kept s old fragments).map Prod.snd)
  /-- Each one is a line of a single fragment of its writer. -/
  line : ∀ {writer r}, (some writer, r) ∈ Arrival.kept s old fragments →
    Framing.IsLine s.delimiter r.bytes ∧ ∃ fragment, (writer, fragment) ∈ fragments ∧
      r.bytes ∈ Framing.lines s.delimiter fragment
  old_of_none : ∀ {r}, (none, r) ∈ Arrival.kept s old fragments → r ∈ old
  /-- What is left of a writer are the newest of its own lines, in its own order. -/
  suffix : ∀ writer,
    ((Arrival.kept s old fragments).filter (·.1 = some writer)).map Prod.snd <:+
      ((Arrival.own writer fragments).flatMap (Framing.lines s.delimiter)).map Record.ofBytes
  /-- Who looks at all of it finds whole lines. -/
  snapshot : ∀ {allowance data}, h.contents allowance = .ok (.ok data) →
    (data = [] ∨ data.getLast? = some s.delimiter) ∧ data.count s.delimiter ≤ s.capacity

/-! ### What is retained -/

/-- One arrival leaves nothing pending, and adds the lines of its own fragment if it was taken
in. -/
theorem Reference.after_arrival {s : Settings} (hpolicy : s.policy = .split) {m : Reference}
    (hpending : m.pending = []) (hroom : m.live.length ≤ s.capacity) {a : Arrival}
    (hwhole : a.Whole s.delimiter) (before : Desk) (reply : Reply) :
    (m.after s ⟨before, a.call, reply⟩).pending = [] ∧
      (m.after s ⟨before, a.call, reply⟩).live =
        (m.live ++ ((taken? (a, reply)).toList.flatMap (signed s.delimiter)).map Prod.snd).rtake
          s.capacity := by
  -- Where nothing is taken in, the records stay.
  have hkept : m.live = (m.live ++ []).rtake s.capacity := by
    rw [List.append_nil, Log.rtake_of_length_le hroom]
  cases a with
  | write writer allowance fragment =>
    cases reply with
    | written result =>
      cases result with
      | error e => exact ⟨hpending, hkept⟩
      | ok outcome =>
        have hrest := Framing.remainder_of_getLast? hwhole
        have hframe : frame s m.pending fragment = (Framing.lines s.delimiter fragment, []) := by
          simp only [frame, hpolicy, hpending, List.nil_append, hrest]
        have hsigned : ((taken? (.write writer allowance fragment, .written (.ok outcome))).toList
            |>.flatMap (signed s.delimiter)).map Prod.snd =
              (Framing.lines s.delimiter fragment).map Record.ofBytes := by
          simp [taken?, signed, Function.comp_def]
        rw [hsigned]
        simp only [after, Arrival.call, write, hframe, and_self]
    | _ => exact ⟨hpending, hkept⟩
  | other call =>
    obtain hlook | rfl := hwhole
    · have hsame : m.after s ⟨before, call, reply⟩ = m := after_of_isLook s m hlook
      change (m.after s ⟨before, call, reply⟩).pending = [] ∧
        (m.after s ⟨before, call, reply⟩).live = _
      rw [hsame]
      exact ⟨hpending, hkept⟩
    · cases reply with
      | discarded result =>
        cases result with
        | error e => exact ⟨hpending, hkept⟩
        | ok count => exact ⟨rfl, hkept⟩
      | _ => exact ⟨hpending, hkept⟩

namespace Desk

variable {s : Settings} {d last : Desk} {m : Reference}

/-- After any arrivals nothing is pending, and the records are the newest of those that were there
and the lines taken in since. -/
theorem follows_wholeLines (hpolicy : s.policy = .split) (hs : d.history.Sound)
    (hm : d.history.revived.Agrees s m) (hpending : m.pending = []) {order : List Arrival}
    (hwhole : ∀ a ∈ order, a.Whole s.delimiter) {replies : List Reply}
    (hrun : d.performAll (order.map Arrival.call) = .ok (replies, last)) :
    ∃ m' : Reference, last.history.Sound ∧ last.history.revived.Agrees s m' ∧ m'.pending = [] ∧
      m'.live =
        (m.live ++ ((taken order replies).flatMap (signed s.delimiter)).map Prod.snd).rtake
          s.capacity := by
  have hroom : m.live.length ≤ s.capacity := hm.capacity_eq ▸ hm.holds.length_le
  induction order generalizing d m replies with
  | nil =>
    cases hrun
    refine ⟨m, hs, hm, hpending, ?_⟩
    rw [taken, List.zip_nil_left, List.filterMap_nil, List.flatMap_nil, List.map_nil,
      List.append_nil, Log.rtake_of_length_le hroom]
  | cons a order ih =>
    rw [List.forall_mem_cons] at hwhole
    rw [List.map_cons, performAll] at hrun
    obtain ⟨⟨reply, mid⟩, hcall, hrun⟩ := Checked.bind_eq_ok.1 hrun
    obtain ⟨⟨rest, final⟩, hrest, hout⟩ := Checked.bind_eq_ok.1 hrun
    cases hout
    have hmid := perform_follows hs hm hcall
    obtain ⟨hidle, hlive⟩ :=
      Reference.after_arrival hpolicy hpending hroom hwhole.1 d reply
    obtain ⟨m', hsound, hlast, hnone, hkept⟩ := ih (perform_effect hs hcall).1 hmid hidle hwhole.2
      hrest (hmid.capacity_eq ▸ hmid.holds.length_le)
    refine ⟨m', hsound, hlast, hnone, ?_⟩
    rw [hkept, hlive, Log.rtake_append_rtake, Arrival.taken_cons, List.flatMap_append,
      List.map_append, List.append_assoc]

/-- Without limit on memory, and while the lock is alive, each fragment is taken in. -/
theorem taken_of_unlimited (hs : d.history.Sound) (halive : d.history.poisoned = false)
    {order : List Arrival} (hfree : ∀ a ∈ order, a.Unlimited) {replies : List Reply}
    (hrun : d.performAll (order.map Arrival.call) = .ok (replies, last)) :
    taken order replies = order.filterMap Arrival.issue? := by
  induction order generalizing d replies with
  | nil => rfl
  | cons a order ih =>
    rw [List.forall_mem_cons] at hfree
    rw [List.map_cons, performAll] at hrun
    obtain ⟨⟨reply, mid⟩, hcall, hrun⟩ := Checked.bind_eq_ok.1 hrun
    obtain ⟨⟨rest, final⟩, hrest, hout⟩ := Checked.bind_eq_ok.1 hrun
    cases hout
    have hpoisoned := perform_poisoned hs hcall
    rw [halive, Bool.or_false] at hpoisoned
    have hmid := (perform_effect hs hcall).1
    rw [Arrival.taken_cons, List.filterMap_cons]
    cases a with
    | write writer allowance fragment =>
      obtain rfl : allowance = none := hfree.1
      obtain ⟨⟨result, after⟩, hwrite, hout⟩ := Checked.bind_eq_ok.1 hcall
      cases hout
      have hok := (History.oblivious_write fragment _ halive _ _ hwrite).1
      rw [ih hmid hpoisoned hfree.2 hrest]
      cases result with
      | error e => cases hok
      | ok outcome => rfl
    | other call => exact ih hmid (hpoisoned.trans hfree.1) hfree.2 hrest

/-- Writers of whole lines neither tear nor reorder each other's lines. Start from any history that
can be reached under the split policy with nothing pending, and serve writes of whole lines by any
number of writers, with looks and discards by others between them. However far an order has been
served, the history is untorn. If the lock is alive and all bytes fit a machine word, the order is
served to its end, and without limit on memory each fragment is taken in. -/
theorem performAll_wholeLines {h : History} {entries : List Entry}
    (hnew : History.create s = .ok (.ok h)) (hpolicy : s.policy = .split)
    (hruns : (ofHistory h).Runs entries d) (hidle : d.history.assembler.pending.bytes = [])
    {order : List Arrival} (hwhole : ∀ a ∈ order, a.Whole s.delimiter) :
    ∃ old, d.history.log.records = .ok old ∧
      (∀ served, served <+: order → ∀ replies last,
        d.performAll (served.map Arrival.call) = .ok (replies, last) →
        last.history.Untorn s old (taken served replies)) ∧
      (d.history.poisoned = false → (∀ c ∈ d.cursors, c.position < wordCount) →
        (∀ a ∈ order, a.Unlimited ∧ a.call.InWords) →
        d.history.held + (order.map fun a => a.call.written).sum < wordCount →
        ∃ replies last, d.performAll (order.map Arrival.call) = .ok (replies, last) ∧
          taken order replies = order.filterMap Arrival.issue?) := by
  obtain ⟨hs, hm⟩ := hruns.follows_create hnew
  have hpending : (Reference.fresh.afterAll s entries).pending = [] :=
    hm.pending_eq.symm.trans hidle
  have hlines := Reference.isLine_of_mem_afterAll hpolicy (m := .fresh) (by nofun) entries
  generalize Reference.fresh.afterAll s entries = m at hm hpending hlines
  refine ⟨m.live, hm.holds.records_eq, ?_, ?_⟩
  · intro served hserved replies last hrun
    obtain ⟨m', hsound, hlast, hnone, hlive⟩ := follows_wholeLines hpolicy hs hm hpending
      (fun a ha => hwhole a (hserved.subset ha)) hrun
    have hlist : last.history.log.toList = m'.live := hlast.holds.toList_eq
    -- The records with their writers left out are what the reference has.
    have hkept : m'.live = (Arrival.kept s m.live (taken served replies)).map Prod.snd := by
      rw [hlive, Arrival.kept, Log.map_rtake, Arrival.merged, List.map_append, List.map_map]
      simp [Function.comp_def]
    have hmerged : ∀ r ∈ Arrival.kept s m.live (taken served replies),
        r ∈ Arrival.merged s.delimiter m.live (taken served replies) :=
      fun r hr => List.mem_of_mem_drop hr
    have hall : ∀ r ∈ m'.live, Framing.IsLine s.delimiter r.bytes := by
      intro r hr
      rw [hkept] at hr
      obtain ⟨⟨owner, r⟩, hmem, rfl⟩ := List.mem_map.1 hr
      cases owner with
      | none => exact hlines r (Arrival.mem_old (hmerged _ hmem))
      | some writer =>
        obtain ⟨fragment, -, hline⟩ := Arrival.mem_merged (hmerged _ hmem)
        exact Framing.isLine_of_mem_lines hline
    exact {
      pending_eq := hlast.pending_eq.trans hnone
      records_eq := hkept ▸ hlast.holds.records_eq
      line := by
        intro writer r hr
        obtain ⟨fragment, hfragment, hline⟩ := Arrival.mem_merged (hmerged _ hr)
        exact ⟨Framing.isLine_of_mem_lines hline, fragment, hfragment, hline⟩
      old_of_none := fun hr => Arrival.mem_old (hmerged _ hr)
      suffix := by
        intro writer
        rw [← Arrival.map_filter_merged s.delimiter m.live]
        exact ((List.drop_suffix _ _).filter _).map _
      snapshot := by
        intro allowance data hdata
        have hbytes : ∀ line ∈ m'.live.map Record.bytes, Framing.IsLine s.delimiter line :=
          List.forall_mem_map.2 hall
        rw [History.contents_eq_ok hsound hdata, hlist, List.flatMap_def]
        refine ⟨Framing.getLast?_flatten hbytes, ?_⟩
        rw [Framing.count_flatten hbytes, List.length_map]
        exact hlast.capacity_eq ▸ hlast.holds.length_le }
  · intro halive hword hfree hfits
    have hcalls : ∀ call ∈ order.map Arrival.call, call.InWords := by
      intro call hcall
      obtain ⟨a, ha, rfl⟩ := List.mem_map.1 hcall
      exact (hfree a ha).2
    have hintakes := d.history.assembler.intakes_le (order.map Arrival.call)
    rw [List.map_map] at hintakes
    obtain ⟨replies, last, hrun, -⟩ := Ready.performAll_returns ⟨hs, hword⟩ hcalls
      fun _ => (Nat.add_le_add_left hintakes _).trans_lt hfits
    exact ⟨replies, last, hrun, taken_of_unlimited hs halive (fun a ha => (hfree a ha).1) hrun⟩

/-- Two writers share two slots, one of them taken before. The first writer has two lines in one
fragment; a line of the second one comes between these and its third, and outlives the first two.
A reader, a discard and a copy of everything come between the writes. -/
theorem performAll_wholeLines_alternating :
    let order : List Arrival := [.write 0 none [97, 10, 98, 10], .other .openCursor,
      .other (.read 0 [0, 0]), .write 1 none [99, 10], .other .discard, .write 0 none [100, 10],
      .other (.contents none)]
    History.create ⟨2, 10, .split⟩ = .ok (.ok (.ofLog ⟨2, 10, .split⟩ (Log.vacant 2))) ∧
    (∀ a ∈ order, a.Whole 10) ∧
    ∃ (entries : List Entry) (d last : Desk) (replies : List Reply),
      (ofHistory (.ofLog ⟨2, 10, .split⟩ (Log.vacant 2))).Runs entries d ∧
      d.history.assembler.pending.bytes = [] ∧
      d.history.log.records = .ok [.ofBytes [111, 10]] ∧
      d.performAll (order.map Arrival.call) = .ok (replies, last) ∧
      last.history.Untorn ⟨2, 10, .split⟩ [.ofBytes [111, 10]]
        [(0, [97, 10, 98, 10]), (1, [99, 10]), (0, [100, 10])] ∧
      last.history.log.records = .ok [.ofBytes [99, 10], .ofBytes [100, 10]] := by
  intro order
  have hnew : History.create ⟨2, 10, .split⟩ =
      .ok (.ok (.ofLog ⟨2, 10, .split⟩ (Log.vacant 2))) := rfl
  have hwhole : ∀ a ∈ order, a.Whole 10 := by
    simp [order, Arrival.Whole, Call.isLook]
  obtain ⟨d, hrun, hidle, halive, hcursors, hheld, hrecords⟩ : ∃ d,
      (ofHistory (.ofLog ⟨2, 10, .split⟩ (Log.vacant 2))).performAll [.write none [111, 10]] =
        .ok ([.written (.ok ⟨2, 1, 0⟩)], d) ∧
      d.history.assembler.pending.bytes = [] ∧ d.history.poisoned = false ∧ d.cursors = [] ∧
      d.history.held = 2 ∧ d.history.log.records = .ok [.ofBytes [111, 10]] :=
    ⟨_, rfl, rfl, rfl, rfl, rfl, rfl⟩
  obtain ⟨entries, hruns, -, -⟩ := performAll_eq_ok_iff.1 hrun
  obtain ⟨old, hold, huntorn, hserved⟩ := performAll_wholeLines hnew rfl hruns hidle hwhole
  obtain rfl : [.ofBytes [111, 10]] = old := by simpa using hrecords.symm.trans hold
  obtain ⟨replies, last, hlast, htaken⟩ := hserved halive (by simp [hcursors])
    (by simp [order, Arrival.Unlimited, Arrival.call, Call.InWords, Call.isPoison])
    (by rw [hheld]; decide)
  have hleft := huntorn order List.prefix_rfl replies last hlast
  rw [htaken] at hleft
  exact ⟨hnew, hwhole, entries, d, last, replies, hruns, hidle, hrecords, hlast, hleft,
    hleft.records_eq⟩

end Desk

end Scrollback
