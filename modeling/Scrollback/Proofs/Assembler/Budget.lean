import Scrollback.Proofs.Assembler.Fragments
/-!
# The memory of an assembler

The pending buffer grows by doubling, is handed over with the first record of a fragment, and
survives refusals as it is, so its room depends on all that happened before. `Assembler.Snug` bounds
it nevertheless: with nothing pending there is no buffer, and otherwise it is at most twice as large
as what is pending, or of the least size. Each change keeps this.

With the buffer bounded, so is each block that an append may ask for (`Assembler.Snug.demands_le`).
A table that doubles while lines are copied takes at most two entries for each delimiter. Hence
there is a limit under which no append is refused.
-/

namespace Scrollback

namespace Demand

/-- No block of some demands is larger than a limit. -/
def Bounded (limit : Nat) (demands : List Demand) : Prop :=
  ∀ demand ∈ demands, demand.size ≤ limit

@[simp] theorem bounded_nil (limit : Nat) : Bounded limit [] := by
  simp [Bounded]

@[simp] theorem bounded_singleton (limit size request : Nat) :
    Bounded limit [⟨size, request⟩] ↔ size ≤ limit := by
  simp [Bounded]

@[simp] theorem bounded_append (limit : Nat) (first next : List Demand) :
    Bounded limit (first ++ next) ↔ Bounded limit first ∧ Bounded limit next := by
  simp [Bounded, or_imp, forall_and]

theorem Bounded.mono {limit larger : Nat} {demands : List Demand} (h : Bounded limit demands)
    (hle : limit ≤ larger) : Bounded larger demands :=
  fun demand hmem => (h demand hmem).trans hle

end Demand

open Demand (Bounded)

/-- An allowance with a limit refuses none of the demands within the limit, and one of any others. -/
theorem Allowance.refused?_some_eq_none_iff {limit : Nat} {demands : List Demand} :
    refused? (some limit) demands = none ↔ Bounded limit demands := by
  simp [refused?, grants, Bounded]

namespace Assembler

/-- Something that changes an assembler. -/
inductive Change where
  | append (allowance : Allowance) (fragment : Bytes)
  | discard
  deriving DecidableEq, Repr

/-- The assembler after a change, also after one that was refused. -/
def changed (a : Assembler) : Change → Assembler
  | .append allowance fragment => (a.feed allowance fragment).2
  | .discard => a.discard.2

def changedAll (a : Assembler) (changes : List Change) : Assembler :=
  changes.foldl changed a

/-- The pending buffer has room for what is pending, and little more. With nothing pending there is
no buffer. -/
structure Snug (a : Assembler) : Prop where
  length_le : a.pending.length ≤ a.room
  room_le : a.room ≤ max leastRoom (2 * a.pending.length)
  room_of_idle : a.pending.length = 0 → a.room = 0

/-- A limit that is enough for a fragment: for a table of four entries, for twice the pending bytes
and the fragment together, and for two entries of a table for each delimiter. -/
def enough (a : Assembler) (fragment : Bytes) : Nat :=
  max (Record.entrySize * 4) (max (2 * (a.pending.length + fragment.length))
    (Record.entrySize * (2 * fragment.count a.delimiter)))

/-! ### The room of the pending buffer -/

theorem mustGrow_iff {a : Assembler} {more : Nat} :
    a.mustGrow more = true ↔ a.room - a.pending.length < more := by
  simp [mustGrow]

theorem freshRoom_eq (bytes : Bytes) :
    freshRoom bytes = if bytes.length = 0 then 0 else max leastRoom bytes.length := by
  simp [freshRoom, List.isEmpty_iff]

namespace Snug

variable {a : Assembler}

/-- Whoever has nothing pending and no buffer has all the room that is needed. -/
theorem of_room_eq_zero (hpending : a.pending.length = 0) (hroom : a.room = 0) : Snug a :=
  ⟨by omega, by omega, fun _ => hroom⟩

/-- A buffer that had to grow was too small for what it holds then, so it has not become more than
twice as large as that. -/
theorem extended (h : Snug a) (fragment : Bytes) :
    Snug { a with
      pending := a.pending.append fragment
      room := if a.mustGrow fragment.length then a.grownRoom fragment.length else a.room
      bytesAppended := a.bytesAppended + fragment.length } := by
  obtain ⟨hlength, hroom, hidle⟩ := h
  simp only [leastRoom] at hroom
  by_cases hgrow : a.mustGrow fragment.length
  · have hshort := mustGrow_iff.1 hgrow
    constructor <;> simp only [hgrow, if_true, Pending.append, grownRoom, leastRoom] <;> omega
  · have hfits := mt mustGrow_iff.2 hgrow
    constructor <;> simp only [hgrow, if_false, Bool.false_eq_true, Pending.append, leastRoom] <;>
      omega

theorem accept (h : Snug a) (fragment : Bytes) : Snug (a.accept fragment).2 := by
  unfold Assembler.accept
  split
  next => exact h.extended fragment
  next head tail rest _ _ =>
    constructor <;> simp only [Pending.ofBytes, Pending.append, Pending.empty, freshRoom_eq] <;>
      split <;> omega
  next => exact of_room_eq_zero rfl rfl

/-- A fragment that is refused leaves the buffer as it was. -/
theorem feed (h : Snug a) (allowance : Allowance) (fragment : Bytes) :
    Snug (a.feed allowance fragment).2 := by
  rw [feed_eq]
  cases request allowance (a.demands fragment) with
  | error e => exact h
  | ok _ => exact h.accept fragment

theorem changed (h : Snug a) (change : Change) : Snug (a.changed change) := by
  cases change with
  | append allowance fragment => exact h.feed allowance fragment
  | discard => exact of_room_eq_zero rfl rfl

theorem changedAll (h : Snug a) (changes : List Change) : Snug (a.changedAll changes) := by
  induction changes generalizing a with
  | nil => exact h
  | cons change changes ih => exact ih (h.changed change)

end Snug

theorem changed_delimiter (a : Assembler) (change : Change) :
    (a.changed change).delimiter = a.delimiter := by
  cases change with
  | append allowance fragment =>
    rw [changed, feed_eq]
    cases request allowance (a.demands fragment) with
    | error e => rfl
    | ok _ => exact accept_delimiter a fragment
  | discard => rfl

theorem changedAll_delimiter (a : Assembler) (changes : List Change) :
    (a.changedAll changes).delimiter = a.delimiter := by
  induction changes generalizing a with
  | nil => rfl
  | cons change changes ih => exact (ih (a.changed change)).trans (changed_delimiter a change)

/-! ### The blocks that a fragment asks for -/

/-- A table that is full is doubled, and one that is not asks for nothing. -/
theorem tableDemands_le (held : Nat) :
    Bounded (max (Record.entrySize * 4) (Record.entrySize * (2 * held))) (tableDemands held) := by
  unfold tableDemands
  split
  next => exact (Demand.bounded_singleton _ _ _).2 (Nat.le_max_left _ _)
  next =>
    split
    next => exact (Demand.bounded_singleton _ _ _).2 (Nat.le_max_right _ _)
    next => exact Demand.bounded_nil _

theorem copyDemands_le (bytes : Bytes) : Bounded bytes.length (Record.copyDemands bytes) := by
  unfold Record.copyDemands
  split <;> simp

/-- Lines are copied one by one into a table with an entry for each of them. -/
theorem lineDemands_le (lines : List Bytes) :
    Bounded (max (Record.entrySize * 4)
      (max (Record.entrySize * (2 * lines.length)) lines.flatten.length)) (lineDemands lines) := by
  intro demand hmem
  obtain ⟨⟨line, held⟩, hline, hdemand⟩ := List.mem_flatMap.1 hmem
  rcases List.mem_append.1 hdemand with htable | hcopy
  · have hheld : held < lines.length := by simpa using List.snd_lt_of_mem_zipIdx hline
    have hsize := tableDemands_le held demand htable
    simp only [Record.entrySize] at hsize ⊢
    omega
  · have hcopied : demand.size ≤ line.length := copyDemands_le line demand hcopy
    have hmember : line ∈ lines := List.fst_mem_of_mem_zipIdx hline
    have hpart := (List.sublist_flatten_of_mem hmember).length_le
    omega

theorem nextDemands_le (rest : Bytes) : Bounded (max leastRoom rest.length) (nextDemands rest) := by
  unfold nextDemands
  split
  next => simp
  next hrest => simp [freshRoom, hrest]

theorem finishDemands_le (a : Assembler) (bytes : Bytes) :
    Bounded (a.pending.length + bytes.length) (a.finishDemands bytes) := by
  unfold finishDemands
  split <;> simp

/-- A buffer that has to grow is too small for what is pending and the fragment together, so its
double is less than twice of that. -/
theorem Snug.extendDemands_le {a : Assembler} (h : Snug a) (fragment : Bytes) :
    Bounded (max leastRoom (2 * (a.pending.length + fragment.length)))
      (a.extendDemands fragment) := by
  unfold extendDemands
  split
  next hgrow =>
    have hshort := mustGrow_iff.1 hgrow
    have hlength := h.length_le
    rw [Demand.bounded_singleton, grownRoom]
    omega
  next => simp

/-- No block that a fragment asks for is larger than what is enough. -/
theorem Snug.demands_le {a : Assembler} (h : Snug a) (fragment : Bytes) :
    Bounded (a.enough fragment) (a.demands fragment) := by
  have hcount := Framing.length_cut a.delimiter fragment
  have hbytes := congrArg List.length (Framing.flatten_cut a.delimiter fragment)
  unfold demands
  split
  next =>
    apply (h.extendDemands_le fragment).mono
    simp only [enough, Record.entrySize, leastRoom]
    omega
  next head tail rest hcut _ =>
    -- The lines and the rest are parts of the fragment, and each line has one delimiter.
    rw [hcut] at hcount hbytes
    simp only [List.length_cons, List.flatten_cons, List.length_append] at hcount hbytes
    have hlines := lineDemands_le tail
    have hnext := nextDemands_le rest
    have hfinish := finishDemands_le a head
    simp only [Demand.bounded_append, listDemands, Demand.bounded_singleton]
    refine ⟨⟨⟨hlines.mono ?_, hnext.mono ?_⟩, ?_⟩, hfinish.mono ?_⟩ <;>
      simp only [enough, Record.entrySize, leastRoom] <;> omega
  next =>
    have hfinish := finishDemands_le a fragment
    simp only [Demand.bounded_append, listDemands, Demand.bounded_singleton]
    refine ⟨?_, hfinish.mono ?_⟩ <;> simp only [enough, Record.entrySize] <;> omega

/-! ### Limits -/

/-- Under a limit a fragment is taken in exactly if each block that it asks for is within it. -/
theorem feed_some_eq_ok_iff {a next : Assembler} {limit : Nat} {fragment : Bytes}
    {assembly : Assembly} :
    a.feed (some limit) fragment = (.ok assembly, next) ↔
      Bounded limit (a.demands fragment) ∧ a.accept fragment = (assembly, next) := by
  rw [← Allowance.refused?_some_eq_none_iff, feed_eq, request]
  cases Allowance.refused? (some limit) (a.demands fragment) <;> simp [Prod.ext_iff]

theorem feed_mono {a next : Assembler} {fragment : Bytes} {assembly : Assembly} {limit larger : Nat}
    (hle : limit ≤ larger) (h : a.feed (some limit) fragment = (.ok assembly, next)) :
    a.feed (some larger) fragment = (.ok assembly, next) := by
  obtain ⟨hbounded, haccept⟩ := feed_some_eq_ok_iff.1 h
  exact feed_some_eq_ok_iff.2 ⟨hbounded.mono hle, haccept⟩

/-- A fragment is never refused under a limit that is enough. -/
theorem Snug.feed_enough {a : Assembler} (h : Snug a) {fragment : Bytes} {limit : Nat}
    (hle : a.enough fragment ≤ limit) : a.feed (some limit) fragment = a.feed none fragment := by
  rw [feed_none]
  exact feed_some_eq_ok_iff.2 ⟨(h.demands_le fragment).mono hle, rfl⟩

/-- Whatever an assembler was asked to append or to discard, under whatever allowances: with nothing
pending it has no buffer, and otherwise one with room for what is pending, of eight bytes or at most
twice as many as are pending. A limit of twice the bytes pending and to come, and of some entries
for the records, is enough for the next fragment. What is taken in under one limit is taken in under
each larger one, with the same result. -/
theorem changedAll_budget (delimiter : UInt8) (policy : Framing) (changes : List Change) :
    let a := (fresh delimiter policy).changedAll changes
    (a.pending.bytes = [] → a.room = 0) ∧
    (a.pending.bytes ≠ [] → a.pending.bytes.length ≤ a.room ∧
      a.room ≤ max 8 (2 * a.pending.bytes.length)) ∧
    ∀ fragment : Bytes,
      (∀ limit, max 96 (max (2 * (a.pending.bytes.length + fragment.length))
          (48 * fragment.count delimiter)) ≤ limit →
        ∃ assembly next, a.feed (some limit) fragment = (.ok assembly, next) ∧
          a.feed none fragment = (.ok assembly, next)) ∧
      ∀ limit assembly next, a.feed (some limit) fragment = (.ok assembly, next) →
        ∀ larger, limit ≤ larger → a.feed (some larger) fragment = (.ok assembly, next) := by
  intro a
  have hsnug : Snug a := (Snug.of_room_eq_zero rfl rfl).changedAll changes
  have hdelimiter : a.delimiter = delimiter := changedAll_delimiter _ changes
  rw [← Pending.length_eq]
  refine ⟨fun hidle => hsnug.room_of_idle ?_, fun _ => ⟨hsnug.length_le, hsnug.room_le⟩, ?_⟩
  · rw [Pending.length_eq, hidle, List.length_nil]
  · intro fragment
    refine ⟨fun limit hlimit => ⟨_, _, ?_, feed_none a fragment⟩, ?_⟩
    · rw [← feed_none]
      apply hsnug.feed_enough
      simp only [enough, Record.entrySize, hdelimiter]
      omega
    · intro limit assembly next hfeed larger hle
      exact feed_mono hle hfeed

/-- The buffer has grown from eight bytes to sixteen, and a third fragment was refused. The next one
brings six delimiters: the table of the lines after the first doubles once, to eight entries, and a
limit of twelve entries is enough. -/
theorem changedAll_budget_doubled :
    let a := (fresh 10 .split).changedAll
      [.append none [97, 98, 99], .append (some 16) [100, 101, 102, 103, 104, 105],
        .append (some 16) [106, 107, 108, 109, 110, 111, 112, 113]]
    a.pending.bytes.length = 9 ∧ a.room = 16 ∧ a.pending.bytes ≠ [] ∧
      a.room ≤ max 8 (2 * a.pending.bytes.length) ∧
    ∃ assembly next, a.feed (some 288) [10, 10, 10, 10, 10, 10, 98] = (.ok assembly, next) ∧
      a.feed (some 1000) [10, 10, 10, 10, 10, 10, 98] = (.ok assembly, next) := by
  intro a
  have hpending : a.pending.bytes ≠ [] := by decide
  obtain ⟨-, hroom, hlimits⟩ := changedAll_budget 10 .split
    [.append none [97, 98, 99], .append (some 16) [100, 101, 102, 103, 104, 105],
      .append (some 16) [106, 107, 108, 109, 110, 111, 112, 113]]
  obtain ⟨henough, hmono⟩ := hlimits [10, 10, 10, 10, 10, 10, 98]
  obtain ⟨assembly, next, hfeed, -⟩ := henough 288 (by decide)
  exact ⟨by decide, by decide, hpending, (hroom hpending).2, assembly, next, hfeed,
    hmono 288 assembly next hfeed 1000 (by decide)⟩

end Assembler

end Scrollback
