import Scrollback.Proofs.Assembler.Feeding
import Scrollback.Proofs.Framing
/-!
# Fragments of a stream

`Assembler.feedAll` feeds any number of fragments, each under an allowance of its own. With all
memory granted and under the split policy the fragments do not matter, only the stream that they
make up: the records are its lines and the pending bytes its remainder. What carries over from one
fragment to the next is that pending bytes and a fragment join as two parts of a stream do.
-/

namespace Scrollback

namespace Assembler

open Framing (cut join lines remainder)

/-- Feed fragments one after the other: what came of each, and the assembler after the last. -/
def feedAll (a : Assembler) :
    List (Allowance × Bytes) → List (Except HistoryError Assembly) × Assembler
  | [] => ([], a)
  | (allowance, fragment) :: rest =>
    let (result, next) := a.feed allowance fragment
    let (results, last) := next.feedAll rest
    (result :: results, last)

def acceptAll (a : Assembler) : List Bytes → List Assembly × Assembler
  | [] => ([], a)
  | fragment :: rest =>
    let (assembly, next) := a.accept fragment
    let (assemblies, last) := next.acceptAll rest
    (assembly :: assemblies, last)

/-! ### One fragment -/

theorem feed_none (a : Assembler) (fragment : Bytes) :
    a.feed none fragment = (.ok (a.accept fragment).1, (a.accept fragment).2) := by
  rw [feed_eq, request_none]

@[simp] theorem accept_delimiter (a : Assembler) (fragment : Bytes) :
    (a.accept fragment).2.delimiter = a.delimiter := by
  unfold accept
  split <;> rfl

@[simp] theorem accept_policy (a : Assembler) (fragment : Bytes) :
    (a.accept fragment).2.policy = a.policy := by
  unfold accept
  split <;> rfl

@[simp] theorem accept_bytesAppended (a : Assembler) (fragment : Bytes) :
    (a.accept fragment).2.bytesAppended = a.bytesAppended + fragment.length := by
  unfold accept
  split <;> rfl

@[simp] theorem accept_recordsCompleted (a : Assembler) (fragment : Bytes) :
    (a.accept fragment).2.recordsCompleted =
      a.recordsCompleted + (a.accept fragment).1.records.length := by
  unfold accept
  split <;> simp [Assembly.records]

/-- Under either policy no byte is lost: what was pending and the fragment are what is completed
and what is pending then. -/
theorem accept_bytes (a : Assembler) (fragment : Bytes) :
    (a.accept fragment).1.records.flatMap Record.bytes ++ (a.accept fragment).2.pending.bytes =
      a.pending.bytes ++ fragment := by
  have hcut := Framing.flatten_cut a.delimiter fragment
  unfold accept
  split
  next => simp [Assembly.records]
  next head tail rest hparts _ =>
    rw [hparts] at hcut
    simp [Assembly.records, ← hcut, List.flatMap_map]
  next => simp [Assembly.records]

/-- A fragment completes a record exactly if it has a delimiter. -/
theorem accept_complete_iff (a : Assembler) (fragment : Bytes) :
    (∃ records ≠ [], (a.accept fragment).1 = .complete records) ↔ a.delimiter ∈ fragment := by
  rw [← not_iff_not, ← Framing.cut_eq_nil_iff]
  unfold accept
  split
  next hcut => simp [hcut]
  next hcut _ => simp [hcut]
  next hcut _ => simp [hcut]

/-- Without a delimiter nothing is completed. -/
theorem accept_incomplete_iff (a : Assembler) (fragment : Bytes) :
    (a.accept fragment).1 = .incomplete ↔ a.delimiter ∉ fragment := by
  rw [← Framing.cut_eq_nil_iff]
  unfold accept
  split
  next hcut => simp [hcut]
  next hcut _ => simp [hcut]
  next hcut _ => simp [hcut]

/-- Under the split policy, pending bytes and a fragment join as parts of one stream. -/
theorem accept_split {a : Assembler} (hpolicy : a.policy = .split) (fragment : Bytes) :
    (a.accept fragment).1.records =
        (join ([], a.pending.bytes) (cut a.delimiter fragment)).1.map .ofBytes ∧
      (a.accept fragment).2.pending.bytes =
        (join ([], a.pending.bytes) (cut a.delimiter fragment)).2 := by
  unfold accept join
  split
  next rest hcut =>
    have hrest : rest = fragment := by
      simpa [hcut] using Framing.flatten_cut a.delimiter fragment
    simp [hcut, hrest, Assembly.records]
  next head tail rest hcut _ => simp [hcut, Assembly.records]
  next hfirst => simp [hpolicy] at hfirst

/-- Under the first-delimiter policy, a fragment with a delimiter completes what is pending, and any
other is added to it. -/
theorem accept_firstDelimiter {a : Assembler} (hpolicy : a.policy = .firstDelimiter)
    (fragment : Bytes) :
    (a.accept fragment).1.records =
        (if a.delimiter ∈ fragment then [.ofBytes (a.pending.bytes ++ fragment)] else []) ∧
      (a.accept fragment).2.pending.bytes =
        if a.delimiter ∈ fragment then [] else a.pending.bytes ++ fragment := by
  have hmem := @Framing.cut_eq_nil_iff a.delimiter fragment
  unfold accept
  split
  next hcut =>
    have hout : a.delimiter ∉ fragment := hmem.1 (by rw [hcut])
    rw [if_neg hout, if_neg hout]
    simp [Assembly.records]
  next hsplit => simp [hpolicy] at hsplit
  next hcut _ =>
    have hin : a.delimiter ∈ fragment := by simpa [hcut] using hmem
    rw [if_pos hin, if_pos hin]
    simp [Assembly.records]

/-! ### All fragments -/

theorem feedAll_none (a : Assembler) (fragments : List Bytes) :
    a.feedAll (fragments.map fun fragment => (none, fragment)) =
      ((a.acceptAll fragments).1.map .ok, (a.acceptAll fragments).2) := by
  induction fragments generalizing a with
  | nil => rfl
  | cons fragment fragments ih => simp [feedAll, acceptAll, feed_none, ih]

theorem acceptAll_counters (a : Assembler) (fragments : List Bytes) :
    (a.acceptAll fragments).2.bytesAppended = a.bytesAppended + fragments.flatten.length ∧
      (a.acceptAll fragments).2.recordsCompleted =
        a.recordsCompleted + ((a.acceptAll fragments).1.flatMap Assembly.records).length := by
  induction fragments generalizing a with
  | nil => exact ⟨rfl, rfl⟩
  | cons fragment fragments ih =>
    obtain ⟨hbytes, hrecords⟩ := ih (a.accept fragment).2
    rw [accept_bytesAppended] at hbytes
    rw [accept_recordsCompleted] at hrecords
    rw [acceptAll, List.flatten_cons, List.flatMap_cons, List.length_append, List.length_append]
    exact ⟨by rw [hbytes, Nat.add_assoc], by rw [hrecords, Nat.add_assoc]⟩

/-- However a stream arrives, its lines are completed and its remainder is pending. -/
theorem acceptAll_split {a : Assembler} (hpolicy : a.policy = .split) (fragments : List Bytes) :
    (a.acceptAll fragments).1.flatMap Assembly.records =
        (join ([], a.pending.bytes) (cut a.delimiter fragments.flatten)).1.map .ofBytes ∧
      (a.acceptAll fragments).2.pending.bytes =
        (join ([], a.pending.bytes) (cut a.delimiter fragments.flatten)).2 := by
  induction fragments generalizing a with
  | nil => simp [acceptAll, join]
  | cons fragment fragments ih =>
    obtain ⟨hrecords, hpending⟩ := accept_split hpolicy fragment
    obtain ⟨hmore, hlast⟩ := ih (a := (a.accept fragment).2) (by simpa using hpolicy)
    rw [accept_delimiter, hpending] at hmore hlast
    -- The lines of the first fragment come first; the rest goes on from its remainder.
    rw [acceptAll, List.flatten_cons, Framing.cut_append, ← Framing.join_assoc, Framing.join_eq]
    simp only [List.flatMap_cons, List.map_append, hrecords]
    exact ⟨by rw [hmore], hlast⟩

/-- Two fragments one after the other do what they do as one. -/
theorem accept_append {a : Assembler} (hpolicy : a.policy = .split) (first next : Bytes) :
    (a.accept first).1.records ++ ((a.accept first).2.accept next).1.records =
        (a.accept (first ++ next)).1.records ∧
      ((a.accept first).2.accept next).2.pending.bytes =
        (a.accept (first ++ next)).2.pending.bytes ∧
      ((a.accept first).2.accept next).2.stats = (a.accept (first ++ next)).2.stats := by
  obtain ⟨htwice, hpending⟩ := acceptAll_split hpolicy [first, next]
  obtain ⟨honce, hpending'⟩ := accept_split hpolicy (first ++ next)
  have hflatten : [first, next].flatten = first ++ next := by simp
  rw [hflatten, ← honce] at htwice
  rw [hflatten, ← hpending'] at hpending
  have hrecords : (a.accept first).1.records ++ ((a.accept first).2.accept next).1.records =
      (a.accept (first ++ next)).1.records := by
    simpa [acceptAll] using htwice
  refine ⟨hrecords, hpending, ?_⟩
  have hlength := congrArg List.length hpending
  simp only [← Pending.length_eq] at hlength
  have hcount := congrArg List.length hrecords
  simp only [stats, AssemblerStats.mk.injEq]
  refine ⟨hlength, ?_, ?_⟩
  · simp only [accept_recordsCompleted, Nat.add_assoc, ← hcount, List.length_append]
  · simp [Nat.add_assoc]

/-- Split framing does not depend on how the stream is fragmented. -/
theorem feedAll_split_eq_lines (delimiter : UInt8) (fragments : List Bytes) :
    (∃ (assemblies : List Assembly) (last : Assembler),
      (fresh delimiter .split).feedAll (fragments.map fun fragment => (none, fragment)) =
        (assemblies.map .ok, last) ∧
      (assemblies.flatMap Assembly.records).map Record.bytes =
        lines delimiter fragments.flatten ∧
      (∀ r ∈ assemblies.flatMap Assembly.records, Framing.IsLine delimiter r.bytes) ∧
      last.pending.bytes = remainder delimiter fragments.flatten ∧
      delimiter ∉ last.pending.bytes ∧
      last.recordsCompleted = fragments.flatten.count delimiter ∧
      last.bytesAppended = fragments.flatten.length) ∧
    ∀ a : Assembler, a.policy = .split →
      (∀ first next : Bytes, ∃ x y z mid twice once,
        a.feed none first = (.ok x, mid) ∧ mid.feed none next = (.ok y, twice) ∧
        a.feed none (first ++ next) = (.ok z, once) ∧
        x.records ++ y.records = z.records ∧
        twice.pending.bytes = once.pending.bytes ∧ twice.stats = once.stats) ∧
      ∀ fragment : Bytes, ∃ x next, a.feed none fragment = (.ok x, next) ∧
        ((∃ records ≠ [], x = .complete records) ↔ a.delimiter ∈ fragment) ∧
        (x = .incomplete ↔ a.delimiter ∉ fragment) := by
  constructor
  · obtain ⟨hrecords, hpending⟩ :=
      acceptAll_split (a := fresh delimiter .split) rfl fragments
    obtain ⟨hbytes, hcompleted⟩ := acceptAll_counters (fresh delimiter .split) fragments
    have hjoin : join ([], (fresh delimiter .split).pending.bytes)
        (cut (fresh delimiter .split).delimiter fragments.flatten) =
          cut delimiter fragments.flatten := Framing.join_nil_left _
    rw [hjoin] at hrecords hpending
    have hmap : ((cut delimiter fragments.flatten).1.map Record.ofBytes).map Record.bytes =
        (cut delimiter fragments.flatten).1 := by
      simp [Function.comp_def]
    refine ⟨_, _, feedAll_none _ fragments, ?_, ?_, ?_, ?_, ?_, ?_⟩
    · rw [hrecords, hmap, Framing.cut_fst]
    · intro r hr
      rw [hrecords] at hr
      exact Framing.isLine_of_mem_cut (hmap ▸ List.mem_map_of_mem hr)
    · rw [hpending, Framing.cut_snd]
    · rw [hpending]
      exact Framing.delimiter_notMem_cut delimiter _
    · rw [hcompleted, hrecords, List.length_map, Framing.length_cut]
      exact Nat.zero_add _
    · rw [hbytes]
      exact Nat.zero_add _
  · intro a hpolicy
    refine ⟨fun first next => ?_, fun fragment => ?_⟩
    · exact ⟨_, _, _, _, _, _, feed_none a first, feed_none _ next, feed_none a (first ++ next),
        accept_append hpolicy first next⟩
    · exact ⟨_, _, feed_none a fragment, accept_complete_iff a fragment,
        accept_incomplete_iff a fragment⟩

/-- A line that crosses three fragments, one of them empty, and two delimiters in one fragment. -/
theorem feedAll_split_eq_lines_crossing :
    (∃ (assemblies : List Assembly) (last : Assembler),
      (fresh 10 .split).feedAll [(none, [97]), (none, []), (none, [98, 10, 10, 99])] =
        (assemblies.map .ok, last) ∧
      (assemblies.flatMap Assembly.records).map Record.bytes = [[97, 98, 10], [10]] ∧
      last.pending.bytes = [99]) ∧
    (fresh 10 .split).policy = .split ∧
    ∃ x next, (fresh 10 .split).feed none [97] = (.ok x, next) ∧ x = .incomplete := by
  obtain ⟨⟨assemblies, last, hfeed, hrecords, -, hpending, -⟩, hall⟩ :=
    feedAll_split_eq_lines 10 [[97], [], [98, 10, 10, 99]]
  obtain ⟨x, next, hnext, -, hincomplete⟩ := (hall (fresh 10 .split) rfl).2 [97]
  exact ⟨⟨assemblies, last, hfeed, hrecords.trans (by decide), hpending.trans (by decide)⟩, rfl,
    x, next, hnext, hincomplete.2 (by decide)⟩

end Assembler

end Scrollback
