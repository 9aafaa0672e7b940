import Scrollback.Proofs.Log.Insertion
import Scrollback.Proofs.Log.Teardown
/-!
# The log as a bounded queue

A log changes by insertions and teardowns. `Log.applyAll` is any finite number of them. After a run
the log retains the newest of the records inserted since the last teardown, and what it handed back
followed by what it retains is all that was ever inserted, in the same order.

The records retained at one moment are in memory together, so their bytes are a machine word
(`Log.Fits`). A run stops if that is not so, and for no other reason.
-/

namespace Scrollback

namespace Log

/-- Something that changes a log. -/
inductive Change where
  | insert (r : Record)
  | teardown
  deriving DecidableEq, Repr

/-- What a change hands back. -/
inductive Yield where
  | inserted (evicted : Option Evicted)
  | released (records : List Record)
  deriving DecidableEq, Repr

/-- The records that are handed back, oldest first. -/
def Yield.records : Yield → List Record
  | inserted evicted => evicted.toList.map Evicted.record
  | released records => records

/-- The record that a change inserts. -/
def Change.inserted? : Change → Option Record
  | insert r => some r
  | teardown => none

def apply (l : Log) : Change → Checked (Yield × Log)
  | .insert r => do
    let (evicted, next) ← l.insert r
    return (.inserted evicted, next)
  | .teardown => do
    let (records, next) ← l.teardown
    return (.released records, next)

def applyAll (l : Log) : List Change → Checked (List Yield × Log)
  | [] => .ok ([], l)
  | change :: changes => do
    let (yield, next) ← l.apply change
    let (yields, last) ← next.applyAll changes
    return (yield :: yields, last)

/-! ### What a run is about -/

/-- All records that changes insert, in order. -/
def inserted (changes : List Change) : List Record :=
  changes.filterMap Change.inserted?

/-- The records inserted since the last teardown. -/
def sinceTeardown (changes : List Change) : List Record :=
  inserted (changes.rtakeWhile fun change => change.inserted?.isSome)

/-- All records that changes hand back, in order. -/
def handedBack (yields : List Yield) : List Record :=
  yields.flatMap Yield.records

/-- The bytes retained at any moment of a run are a machine word. -/
def Fits (capacity : Nat) (changes : List Change) : Prop :=
  ∀ before, before <+: changes →
    Record.totalLength ((sinceTeardown before).rtake capacity) < wordCount

@[simp] theorem sinceTeardown_nil : sinceTeardown [] = [] := rfl

theorem sinceTeardown_concat_insert (changes : List Change) (r : Record) :
    sinceTeardown (changes ++ [.insert r]) = sinceTeardown changes ++ [r] := by
  rw [sinceTeardown, List.rtakeWhile_concat_pos _ _ _ rfl, inserted, List.filterMap_append]
  rfl

theorem sinceTeardown_concat_teardown (changes : List Change) :
    sinceTeardown (changes ++ [.teardown]) = [] := by
  rw [sinceTeardown, List.rtakeWhile_concat_neg _ _ _ (by decide)]
  rfl

theorem fits_concat {capacity : Nat} {changes : List Change} {change : Change} :
    Fits capacity (changes ++ [change]) ↔ Fits capacity changes ∧
      Record.totalLength ((sinceTeardown (changes ++ [change])).rtake capacity) < wordCount := by
  constructor
  · intro h
    exact ⟨fun before hb => h before (hb.trans (List.prefix_append _ _)), h _ List.prefix_rfl⟩
  · rintro ⟨hearlier, hlast⟩ before hb
    rcases List.prefix_concat_iff.1 hb with rfl | hb
    · exact hlast
    · exact hearlier before hb

/-! ### Steps and runs -/

theorem applyAll_concat (l : Log) (changes : List Change) (change : Change) :
    l.applyAll (changes ++ [change]) = (do
      let (yields, mid) ← l.applyAll changes
      let (yield, last) ← mid.apply change
      return (yields ++ [yield], last)) := by
  induction changes generalizing l with
  | nil =>
    cases h : l.apply change <;> simp [applyAll, h]
  | cons first changes ih =>
    rw [List.cons_append, applyAll, applyAll]
    cases l.apply first with
    | error e => rfl
    | ok out =>
      simp only [Checked.ok_bind, ih]
      cases out.2.applyAll changes with
      | error e => rfl
      | ok mid =>
        simp only [Checked.ok_bind, Checked.pure_eq_ok]
        cases mid.2.apply change <;> rfl

/-- The queue after one change. -/
def changed (capacity : Nat) (queue : List Record) : Change → List Record
  | .insert r => (queue ++ [r]).rtake capacity
  | .teardown => []

theorem changed_rtake (capacity : Nat) (changes : List Change) (change : Change) :
    changed capacity ((sinceTeardown changes).rtake capacity) change =
      (sinceTeardown (changes ++ [change])).rtake capacity := by
  cases change with
  | insert r => rw [changed, rtake_append_rtake, sinceTeardown_concat_insert]
  | teardown => rw [changed, sinceTeardown_concat_teardown, List.rtake_nil]

/-- One change turns the queue into the changed queue and hands back the rest, unless the bytes of
the changed queue are no machine word. -/
theorem Holds.apply_eq {l : Log} {queue : List Record} (h : l.Holds queue) (change : Change) :
    ∃ (yield : Yield) (next : Log), next.Holds (changed l.capacity queue change) ∧
      next.capacity = l.capacity ∧
      yield.records ++ changed l.capacity queue change = queue ++ change.inserted?.toList ∧
      l.apply change =
        if Record.totalLength (changed l.capacity queue change) < wordCount then .ok (yield, next)
        else .error .overflow := by
  cases change with
  | insert r =>
    obtain ⟨next, hnext, hcap, hinsert⟩ := h.insert_eq r
    refine ⟨.inserted (displaced l.capacity queue), next, hnext, hcap,
      displaced_append h.capacity_pos h.length_le r, ?_⟩
    rw [apply, hinsert, changed]
    split <;> rfl
  | teardown =>
    obtain ⟨next, hteardown, hnext, hcap⟩ := h.teardown_eq
    refine ⟨.released queue, next, hnext, hcap, rfl, ?_⟩
    rw [apply, hteardown, changed, if_pos (by decide)]
    rfl

/-- Where a run has come to: the log holds the newest records since the last teardown, and nothing
was lost on the way. -/
structure Reached (capacity : Nat) (changes : List Change) (yields : List Yield) (l : Log) :
    Prop where
  holds : l.Holds ((sinceTeardown changes).rtake capacity)
  capacity_eq : l.capacity = capacity
  conserved : handedBack yields ++ (sinceTeardown changes).rtake capacity = inserted changes

theorem Reached.apply_eq {capacity : Nat} {changes : List Change} {yields : List Yield} {l : Log}
    (h : Reached capacity changes yields l) (change : Change) :
    ∃ (yield : Yield) (next : Log),
      Reached capacity (changes ++ [change]) (yields ++ [yield]) next ∧
      l.apply change =
        if Record.totalLength ((sinceTeardown (changes ++ [change])).rtake capacity) < wordCount
        then .ok (yield, next) else .error .overflow := by
  obtain ⟨yield, next, hnext, hcap, hkept, happly⟩ := h.holds.apply_eq change
  simp only [h.capacity_eq, changed_rtake] at hnext hcap hkept happly
  refine ⟨yield, next, ⟨hnext, hcap, ?_⟩, happly⟩
  have hinserted : inserted (changes ++ [change]) =
      inserted changes ++ change.inserted?.toList := by
    cases change <;> simp [inserted, Change.inserted?]
  rw [handedBack, List.flatMap_append, hinserted, ← h.conserved, List.append_assoc]
  simpa [handedBack] using hkept

/-- A run of changes on a new log reaches its end exactly if the retained bytes are always a machine
word. -/
theorem applyAll_vacant {capacity : Nat} (hpos : 0 < capacity)
    (hblock : Record.entrySize * capacity ≤ blockBound) (changes : List Change) :
    (Fits capacity changes → ∃ yields l, (vacant capacity).applyAll changes = .ok (yields, l) ∧
      Reached capacity changes yields l) ∧
    ((∃ out, (vacant capacity).applyAll changes = .ok out) → Fits capacity changes) := by
  -- From the end: the last change meets the log that the changes before it have reached.
  induction changes using List.reverseRecOn with
  | nil =>
    have hnone : (sinceTeardown []).rtake capacity = [] := List.rtake_nil _
    refine ⟨fun _ => ⟨[], vacant capacity, rfl, ?_, capacity_vacant capacity, ?_⟩,
      fun _ before hb => ?_⟩
    · rw [hnone]
      exact holds_vacant hpos hblock
    · rw [hnone]
      rfl
    · rw [List.prefix_nil.1 hb, hnone]
      decide
  | append_singleton changes change ih =>
    obtain ⟨hrun, hfits⟩ := ih
    rw [applyAll_concat, fits_concat]
    constructor
    · rintro ⟨hearlier, hlast⟩
      obtain ⟨yields, l, hall, hreached⟩ := hrun hearlier
      obtain ⟨yield, next, hnext, happly⟩ := hreached.apply_eq change
      rw [if_pos hlast] at happly
      exact ⟨yields ++ [yield], next, by simp [hall, happly], hnext⟩
    · rintro ⟨out, hout⟩
      obtain ⟨mid, hall, -⟩ := Checked.bind_eq_ok.1 hout
      have hearlier := hfits ⟨mid, hall⟩
      obtain ⟨yields, l, hall, hreached⟩ := hrun hearlier
      obtain ⟨yield, next, -, happly⟩ := hreached.apply_eq change
      refine ⟨hearlier, ?_⟩
      by_contra hlast
      rw [if_neg hlast] at happly
      simp [hall, happly] at hout

theorem exists_applyAll_iff {capacity : Nat} (hpos : 0 < capacity)
    (hblock : Record.entrySize * capacity ≤ blockBound) (changes : List Change) :
    (∃ out, (vacant capacity).applyAll changes = .ok out) ↔ Fits capacity changes := by
  obtain ⟨hrun, hfits⟩ := applyAll_vacant hpos hblock changes
  refine ⟨hfits, fun h => ?_⟩
  obtain ⟨yields, l, hall, -⟩ := hrun h
  exact ⟨_, hall⟩

/-- Where a run that returned has come to. -/
theorem reached_of_applyAll {capacity : Nat} (hpos : 0 < capacity)
    (hblock : Record.entrySize * capacity ≤ blockBound) {changes : List Change}
    {yields : List Yield} {l : Log} (hall : (vacant capacity).applyAll changes = .ok (yields, l)) :
    Reached capacity changes yields l := by
  obtain ⟨hrun, hfits⟩ := applyAll_vacant hpos hblock changes
  obtain ⟨yields', l', hall', hreached⟩ := hrun (hfits ⟨_, hall⟩)
  rw [hall] at hall'
  obtain ⟨rfl, rfl⟩ := Prod.mk.inj (Except.ok.inj hall')
  exact hreached

/-- A log is a bounded queue that loses and repeats nothing. -/
theorem applyAll_boundedQueue {capacity : Nat} {new : Log}
    (hnew : create capacity = .ok (.ok new)) (changes : List Change) :
    ((∃ out, new.applyAll changes = .ok out) ↔ Fits capacity changes) ∧
    ∀ yields l, new.applyAll changes = .ok (yields, l) →
      ∃ live : List Record, live = (sinceTeardown changes).rtake capacity ∧
        l.records = .ok live ∧
        (∀ r evicted next, l.insert r = .ok (evicted, next) →
          (evicted.isSome ↔ live.length = capacity) ∧
          ∀ e, evicted = some e → live.head? = some e.record) ∧
        (∃ next, l.teardown = .ok (live, next)) ∧
        handedBack yields ++ live = inserted changes ∧
        l.liveBytes = (live.map Record.length).sum ∧
        l.length = .ok live.length := by
  obtain ⟨hpos, hblock, rfl⟩ := create_eq_ok hnew
  obtain ⟨hrun, hfits⟩ := applyAll_vacant hpos hblock changes
  refine ⟨⟨hfits, fun h => ?_⟩, ?_⟩
  · obtain ⟨yields, l, hall, -⟩ := hrun h
    exact ⟨_, hall⟩
  · intro yields l hall
    obtain ⟨yields', l', hall', hreached⟩ := hrun (hfits ⟨_, hall⟩)
    obtain ⟨rfl, rfl⟩ : yields' = yields ∧ l' = l := by
      rw [hall] at hall'
      simpa [eq_comm] using hall'
    obtain ⟨hholds, hcap, hconserved⟩ := hreached
    obtain ⟨torn, hteardown, -, -⟩ := hholds.teardown_eq
    refine ⟨_, rfl, hholds.records_eq, ?_, ⟨torn, hteardown⟩, hconserved, hholds.liveBytes_eq,
      hholds.length_eq⟩
    intro r evicted next hinsert
    obtain ⟨next', -, -, hcase⟩ := hholds.insert_eq r
    rw [hinsert] at hcase
    split at hcase
    · simp only [Except.ok.injEq, Prod.mk.injEq] at hcase
      rw [hcase.1, hcap]
      exact displaced_eq_some hpos
    · cases hcase

/-- Three records, an empty one among them, go through two slots and a teardown, and one more
follows. -/
theorem applyAll_boundedQueue_refilled :
    create 2 = .ok (.ok (vacant 2)) ∧
    ∃ yields l,
      (vacant 2).applyAll [.insert (.ofBytes [97, 10]), .insert (.ofBytes []),
        .insert (.ofBytes [98]), .teardown, .insert (.ofBytes [99, 10])] = .ok (yields, l) ∧
      l.records = .ok [.ofBytes [99, 10]] ∧
      handedBack yields ++ [.ofBytes [99, 10]] =
        [.ofBytes [97, 10], .ofBytes [], .ofBytes [98], .ofBytes [99, 10]] ∧
      l.liveBytes = 2 := by
  have hnew : create 2 = .ok (.ok (vacant 2)) := rfl
  have hrun : (vacant 2).applyAll [.insert (.ofBytes [97, 10]), .insert (.ofBytes []),
      .insert (.ofBytes [98]), .teardown, .insert (.ofBytes [99, 10])] =
      .ok ([.inserted none, .inserted none, .inserted (some ⟨.ofBytes [97, 10]⟩),
        .released [.ofBytes [], .ofBytes [98]], .inserted none],
        ⟨#[some (.ofBytes [99, 10]), none], 1, 0, false, 2⟩) := rfl
  obtain ⟨live, hlive, hrecords, -, -, hconserved, hbytes, -⟩ :=
    (applyAll_boundedQueue hnew _).2 _ _ hrun
  have hlast : live = [.ofBytes [99, 10]] := hlive.trans rfl
  subst hlast
  exact ⟨hnew, _, _, hrun, hrecords, hconserved, hbytes⟩

end Log

end Scrollback
