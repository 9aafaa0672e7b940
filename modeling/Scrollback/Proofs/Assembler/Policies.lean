import Scrollback.Proofs.Assembler.Fragments
/-!
# The two policies side by side

Under the first-delimiter policy it matters how a stream is fragmented: each fragment with a
delimiter ends a record, however many delimiters it has and wherever they stand. So the fragments
are cut as a stream is, with the fragments that have a delimiter in the place of the delimiters:
`Framing.Grouped` says what this gives.

`Assembler.Lockstep` relates an assembler with this policy to one that splits, both fed the same
fragments. The first one never holds back more than the end of what the second one does. If no
fragment has a delimiter before its last byte, one cannot tell the two apart.
-/

namespace Scrollback

namespace Framing

/-- The last of some fragments has a delimiter, and no other one. -/
def IsGroup (delimiter : UInt8) (group : List Bytes) : Prop :=
  ∃ before last, group = before ++ [last] ∧ (∀ fragment ∈ before, delimiter ∉ fragment) ∧
    delimiter ∈ last

/-- Fragments are cut after each one that has a delimiter, into groups and what is left open. -/
structure Grouped (delimiter : UInt8) (fragments : List Bytes) (groups : List (List Bytes))
    (left : List Bytes) : Prop where
  fragments_eq : fragments = groups.flatten ++ left
  isGroup : ∀ group ∈ groups, IsGroup delimiter group
  left_open : ∀ fragment ∈ left, delimiter ∉ fragment

/-- A fragment with a delimiter closes the group of those held before it. -/
theorem Grouped.cons {delimiter : UInt8} {held rest : List Bytes} {last : Bytes}
    {groups : List (List Bytes)} {left : List Bytes} (h : Grouped delimiter rest groups left)
    (hheld : ∀ fragment ∈ held, delimiter ∉ fragment) (hlast : delimiter ∈ last) :
    Grouped delimiter (held ++ last :: rest) ((held ++ [last]) :: groups) left where
  fragments_eq := by simp [h.fragments_eq]
  isGroup := List.forall_mem_cons.2 ⟨⟨held, last, rfl, hheld, hlast⟩, h.isGroup⟩
  left_open := h.left_open

theorem Grouped.delimiter_notMem {delimiter : UInt8} {fragments left : List Bytes}
    {groups : List (List Bytes)} (h : Grouped delimiter fragments groups left) :
    delimiter ∉ left.flatten := by
  intro hmem
  obtain ⟨fragment, hfragment, hin⟩ := List.mem_flatten.1 hmem
  exact h.left_open fragment hfragment hin

/-- A fragment whose only delimiter is its last byte is one line. -/
theorem cut_of_notMem_dropLast {delimiter : UInt8} {fragment : Bytes}
    (hinner : delimiter ∉ fragment.dropLast) (hmem : delimiter ∈ fragment) :
    cut delimiter fragment = ([fragment], []) := by
  obtain rfl | ⟨body, last, rfl⟩ := List.eq_nil_or_concat fragment
  · cases hmem
  · rw [List.concat_eq_append] at *
    rw [List.dropLast_concat] at hinner
    obtain rfl : delimiter = last := by simpa [hinner] using hmem
    rw [cut_append, cut_of_notMem hinner, cut_cons, cut_nil, prepend, if_pos rfl, join]
    simp

end Framing

namespace Assembler

/-! ### Either policy -/

/-- Without a delimiter a fragment is added to what is pending. -/
theorem accept_of_notMem {a : Assembler} {fragment : Bytes} (h : a.delimiter ∉ fragment) :
    (a.accept fragment).1 = .incomplete ∧
      (a.accept fragment).2.pending.bytes = a.pending.bytes ++ fragment := by
  have hnone := (accept_incomplete_iff a fragment).2 h
  have hall := accept_bytes a fragment
  rw [hnone] at hall
  exact ⟨hnone, hall⟩

/-- No byte is lost on the way through all fragments. -/
theorem acceptAll_bytes (a : Assembler) (fragments : List Bytes) :
    ((a.acceptAll fragments).1.flatMap Assembly.records).flatMap Record.bytes ++
        (a.acceptAll fragments).2.pending.bytes =
      a.pending.bytes ++ fragments.flatten := by
  induction fragments generalizing a with
  | nil => simp [acceptAll]
  | cons fragment fragments ih =>
    have hfirst := accept_bytes a fragment
    have hrest := ih (a.accept fragment).2
    rw [acceptAll, List.flatMap_cons, List.flatMap_append, List.append_assoc, hrest,
      ← List.append_assoc, hfirst, List.flatten_cons, List.append_assoc]

/-! ### The first delimiter -/

theorem length_records_le_one {a : Assembler} (hpolicy : a.policy = .firstDelimiter)
    (fragment : Bytes) : (a.accept fragment).1.records.length ≤ 1 := by
  rw [(accept_firstDelimiter hpolicy fragment).1]
  split <;> simp

theorem acceptAll_length_le_one {a : Assembler} (hpolicy : a.policy = .firstDelimiter)
    (fragments : List Bytes) :
    ∀ assembly ∈ (a.acceptAll fragments).1, assembly.records.length ≤ 1 := by
  induction fragments generalizing a with
  | nil => simp [acceptAll]
  | cons fragment fragments ih =>
    exact List.forall_mem_cons.2 ⟨length_records_le_one hpolicy fragment,
      ih ((accept_policy a fragment).trans hpolicy)⟩

/-- Each group gives one record, and what is left open is pending. The fragments held so far are
those that the pending bytes are made of. -/
theorem acceptAll_grouped {a : Assembler} (hpolicy : a.policy = .firstDelimiter)
    (held : List Bytes) (hheld : ∀ fragment ∈ held, a.delimiter ∉ fragment)
    (hpending : a.pending.bytes = held.flatten) (fragments : List Bytes) :
    ∃ groups left, Framing.Grouped a.delimiter (held ++ fragments) groups left ∧
      ((a.acceptAll fragments).1.flatMap Assembly.records).map Record.bytes =
        groups.map List.flatten ∧
      (a.acceptAll fragments).2.pending.bytes = left.flatten := by
  induction fragments generalizing a held with
  | nil => exact ⟨[], held, ⟨by simp, by simp, hheld⟩, rfl, hpending⟩
  | cons fragment fragments ih =>
    obtain ⟨hrecords, hnext⟩ := accept_firstDelimiter hpolicy fragment
    have hpolicy' := (accept_policy a fragment).trans hpolicy
    by_cases hmem : a.delimiter ∈ fragment
    · rw [if_pos hmem] at hrecords hnext
      obtain ⟨groups, left, hgrouped, hrest, hlast⟩ :=
        ih hpolicy' [] (by simp) (by rw [hnext]; rfl)
      rw [List.nil_append, accept_delimiter] at hgrouped
      refine ⟨_, left, hgrouped.cons hheld hmem, ?_, hlast⟩
      simp [acceptAll, hrecords, hrest, hpending]
    · rw [if_neg hmem] at hrecords hnext
      have hmore : ∀ f ∈ held ++ [fragment], a.delimiter ∉ f := by
        simpa [or_imp, forall_and, hmem] using hheld
      obtain ⟨groups, left, hgrouped, hrest, hlast⟩ :=
        ih hpolicy' (held ++ [fragment]) (by simpa using hmore) (by simp [hnext, hpending])
      rw [List.append_assoc, accept_delimiter] at hgrouped
      exact ⟨groups, left, hgrouped, by simp [acceptAll, hrecords, hrest], hlast⟩

/-! ### Both policies -/

/-- Where two assemblers stand that were fed the same fragments, the second of which splits. -/
structure Lockstep (a b : Assembler) : Prop where
  folds : a.policy = .firstDelimiter
  splits : b.policy = .split
  delimiter_eq : a.delimiter = b.delimiter
  bytes_eq : a.bytesAppended = b.bytesAppended
  records_le : a.recordsCompleted ≤ b.recordsCompleted
  pending_suffix : a.pending.bytes <:+ b.pending.bytes

theorem lockstep_fresh (delimiter : UInt8) :
    Lockstep (fresh delimiter .firstDelimiter) (fresh delimiter .split) :=
  ⟨rfl, rfl, rfl, rfl, le_rfl, List.suffix_rfl⟩

namespace Lockstep

variable {a b : Assembler}

/-- A delimiter completes one record on one side, and on the other side at least one. -/
theorem accept (h : Lockstep a b) (fragment : Bytes) :
    Lockstep (a.accept fragment).2 (b.accept fragment).2 where
  folds := by simpa using h.folds
  splits := by simpa using h.splits
  delimiter_eq := by simpa using h.delimiter_eq
  bytes_eq := by simpa using h.bytes_eq
  records_le := by
    rw [accept_recordsCompleted, accept_recordsCompleted]
    refine Nat.add_le_add h.records_le ?_
    by_cases hmem : a.delimiter ∈ fragment
    · obtain ⟨records, hne, hcomplete⟩ := (accept_complete_iff b fragment).2 (h.delimiter_eq ▸ hmem)
      rw [hcomplete]
      exact (length_records_le_one h.folds fragment).trans (List.length_pos_iff.2 hne)
    · rw [(accept_of_notMem hmem).1]
      exact Nat.zero_le _
  pending_suffix := by
    by_cases hmem : a.delimiter ∈ fragment
    · rw [(accept_firstDelimiter h.folds fragment).2, if_pos hmem]
      exact List.nil_suffix
    · rw [(accept_of_notMem hmem).2, (accept_of_notMem (h.delimiter_eq ▸ hmem)).2]
      exact (List.suffix_append_inj_of_length_eq rfl).2 ⟨h.pending_suffix, rfl⟩

theorem acceptAll (h : Lockstep a b) (fragments : List Bytes) :
    Lockstep (a.acceptAll fragments).2 (b.acceptAll fragments).2 := by
  induction fragments generalizing a b with
  | nil => exact h
  | cons fragment fragments ih => exact ih (h.accept fragment)

/-- A fragment with no delimiter before its last byte does the same on both sides. -/
theorem accept_eq (h : Lockstep a b) (hpending : a.pending.bytes = b.pending.bytes)
    {fragment : Bytes} (hinner : a.delimiter ∉ fragment.dropLast) :
    (a.accept fragment).1 = (b.accept fragment).1 ∧
      (a.accept fragment).2.pending.bytes = (b.accept fragment).2.pending.bytes := by
  by_cases hmem : a.delimiter ∈ fragment
  · have hcut := Framing.cut_of_notMem_dropLast hinner hmem
    have hcut' := hcut
    rw [h.delimiter_eq] at hcut'
    simp [Assembler.accept, hcut, hcut', h.folds, h.splits, hpending]
  · obtain ⟨hnone, hmore⟩ := accept_of_notMem hmem
    obtain ⟨hnone', hmore'⟩ := accept_of_notMem (a := b) (h.delimiter_eq ▸ hmem)
    exact ⟨hnone.trans hnone'.symm, by rw [hmore, hmore', hpending]⟩

theorem acceptAll_eq (h : Lockstep a b) (hpending : a.pending.bytes = b.pending.bytes)
    {fragments : List Bytes} (hinner : ∀ fragment ∈ fragments, a.delimiter ∉ fragment.dropLast) :
    (a.acceptAll fragments).1 = (b.acceptAll fragments).1 ∧
      (a.acceptAll fragments).2.pending.bytes = (b.acceptAll fragments).2.pending.bytes := by
  induction fragments generalizing a b with
  | nil => exact ⟨rfl, hpending⟩
  | cons fragment fragments ih =>
    rw [List.forall_mem_cons] at hinner
    obtain ⟨hfirst, hnext⟩ := h.accept_eq hpending hinner.1
    obtain ⟨hrest, hlast⟩ := ih (h.accept fragment) hnext (by simpa using hinner.2)
    exact ⟨congrArg₂ List.cons hfirst hrest, hlast⟩

end Lockstep

/-- Under the first-delimiter policy the records are the groups of the fragments, each put together.
An assembler that splits and is fed the same fragments has taken in the same bytes, in at least as
many records, and what the first one still holds is the end of what the second one holds. If no
fragment has a delimiter before its last byte, the two agree after each fragment. -/
theorem feedAll_firstDelimiter_groups (delimiter : UInt8) (fragments : List Bytes) :
    (∃ (folded split : List Assembly) (a b : Assembler),
      (fresh delimiter .firstDelimiter).feedAll (fragments.map fun fragment => (none, fragment)) =
        (folded.map .ok, a) ∧
      (fresh delimiter .split).feedAll (fragments.map fun fragment => (none, fragment)) =
        (split.map .ok, b) ∧
      (∃ groups left, Framing.Grouped delimiter fragments groups left ∧
        (folded.flatMap Assembly.records).map Record.bytes = groups.map List.flatten ∧
        a.pending.bytes = left.flatten) ∧
      delimiter ∉ a.pending.bytes ∧
      (∀ assembly ∈ folded, assembly.records.length ≤ 1) ∧
      a.bytesAppended = b.bytesAppended ∧
      (folded.flatMap Assembly.records).flatMap Record.bytes ++ a.pending.bytes =
        (split.flatMap Assembly.records).flatMap Record.bytes ++ b.pending.bytes ∧
      a.recordsCompleted ≤ b.recordsCompleted ∧
      a.pending.bytes <:+ b.pending.bytes) ∧
    ((∀ fragment ∈ fragments, delimiter ∉ fragment.dropLast) →
      ∀ before, before <+: fragments → ∃ (assemblies : List Assembly) (a b : Assembler),
        (fresh delimiter .firstDelimiter).feedAll (before.map fun fragment => (none, fragment)) =
          (assemblies.map .ok, a) ∧
        (fresh delimiter .split).feedAll (before.map fun fragment => (none, fragment)) =
          (assemblies.map .ok, b) ∧
        a.pending.bytes = b.pending.bytes) := by
  have hfresh := lockstep_fresh delimiter
  constructor
  · obtain ⟨groups, left, hgrouped, hrecords, hpending⟩ :=
      acceptAll_grouped (a := fresh delimiter .firstDelimiter) rfl [] (by simp) rfl
        fragments
    have hlast := hfresh.acceptAll fragments
    refine ⟨_, _, _, _, feedAll_none _ fragments, feedAll_none _ fragments,
      ⟨groups, left, hgrouped, hrecords, hpending⟩, ?_, acceptAll_length_le_one rfl fragments,
      hlast.bytes_eq, ?_, hlast.records_le, hlast.pending_suffix⟩
    · rw [hpending]
      exact hgrouped.delimiter_notMem
    · rw [acceptAll_bytes, acceptAll_bytes]
      rfl
  · intro hinner before hbefore
    obtain ⟨hsame, hpending⟩ := hfresh.acceptAll_eq rfl fun fragment hmem =>
      hinner fragment (hbefore.subset hmem)
    refine ⟨_, _, _, feedAll_none _ before, ?_, hpending⟩
    rw [feedAll_none, hsame]

/-- A fragment with two delimiters is one record with what was pending, where splitting finds two
and holds the last byte back. Two fragments that make up a line are the same on both sides. -/
theorem feedAll_firstDelimiter_groups_folded :
    (∃ a b, (fresh 10 .firstDelimiter).feedAll [(none, [97]), (none, [98, 10, 99, 10, 100])] =
        ([.ok .incomplete, .ok (.complete [.ofBytes [97, 98, 10, 99, 10, 100]])], a) ∧
      (fresh 10 .split).feedAll [(none, [97]), (none, [98, 10, 99, 10, 100])] =
        ([.ok .incomplete, .ok (.complete [.ofBytes [97, 98, 10], .ofBytes [99, 10]])], b) ∧
      a.pending.bytes <:+ b.pending.bytes) ∧
    (∀ fragment ∈ [[97], [98, 10]], (10 : UInt8) ∉ fragment.dropLast) ∧
    ∃ a b, (fresh 10 .firstDelimiter).feedAll [(none, [97]), (none, [98, 10])] =
        ([.ok .incomplete, .ok (.complete [.ofBytes [97, 98, 10]])], a) ∧
      (fresh 10 .split).feedAll [(none, [97]), (none, [98, 10])] =
        ([.ok .incomplete, .ok (.complete [.ofBytes [97, 98, 10]])], b) ∧
      a.pending.bytes = b.pending.bytes := by
  obtain ⟨folded, split, a, b, hfolded, hsplit, -, -, -, -, -, -, hsuffix⟩ :=
    (feedAll_firstDelimiter_groups 10 [[97], [98, 10, 99, 10, 100]]).1
  have hinner : ∀ fragment ∈ [[97], [98, 10]], (10 : UInt8) ∉ fragment.dropLast := by decide
  obtain ⟨same, c, d, hfirst, hnext, hpending⟩ :=
    (feedAll_firstDelimiter_groups 10 [[97], [98, 10]]).2 hinner _ List.prefix_rfl
  obtain ⟨-, rfl⟩ := Prod.mk.inj hfolded
  obtain ⟨-, rfl⟩ := Prod.mk.inj hsplit
  obtain ⟨-, rfl⟩ := Prod.mk.inj hfirst
  obtain ⟨-, rfl⟩ := Prod.mk.inj hnext
  exact ⟨⟨_, _, rfl, rfl, hsuffix⟩, hinner, _, _, rfl, rfl, hpending⟩

end Assembler

end Scrollback
