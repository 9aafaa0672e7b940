import Mathlib.Data.List.DropRight
import Scrollback.Framing
/-!
# Lines of a stream

`Framing.lines` are the delimiter-terminated pieces of a stream and `Framing.remainder` is what
follows the last delimiter, both read off the stream as a whole. `Framing.cut_eq` says that `cut`,
which goes through the bytes one by one, finds just these.

A stream may be cut in parts: `Framing.cut_append` joins what is left of the first part to the first
line of the second.
-/

namespace Scrollback

namespace Framing

/-- The pieces of a stream that a delimiter ends, each with its delimiter. -/
def lines (delimiter : UInt8) (stream : Bytes) : List Bytes :=
  (stream.splitOn delimiter).dropLast.map (· ++ [delimiter])

/-- What follows the last delimiter of a stream, all of it if there is none. -/
def remainder (delimiter : UInt8) (stream : Bytes) : Bytes :=
  stream.rtakeWhile (· != delimiter)

/-- A line ends in the delimiter and has it nowhere else. -/
def IsLine (delimiter : UInt8) (line : Bytes) : Prop :=
  ∃ body, delimiter ∉ body ∧ line = body ++ [delimiter]

/-! ### Cutting in parts -/

/-- Join a stream that is cut to one that follows it. -/
def join (first next : List Bytes × Bytes) : List Bytes × Bytes :=
  match next.1 with
  | [] => (first.1, first.2 ++ next.2)
  | line :: more => (first.1 ++ (first.2 ++ line) :: more, next.2)

theorem join_nil_left (next : List Bytes × Bytes) : join ([], []) next = next := by
  rw [join]
  split
  next hnil => exact Prod.ext hnil.symm rfl
  next line more hcons => exact Prod.ext hcons.symm rfl

/-- The lines of the first part come first, whatever follows. -/
theorem join_eq (first next : List Bytes × Bytes) :
    join first next = (first.1 ++ (join ([], first.2) next).1, (join ([], first.2) next).2) := by
  unfold join
  split <;> simp

theorem join_assoc (first next last : List Bytes × Bytes) :
    join (join first next) last = join first (join next last) := by
  obtain ⟨ls, r⟩ := first
  obtain ⟨ls', r'⟩ := next
  obtain ⟨ls'', r''⟩ := last
  cases ls' <;> cases ls'' <;> simp [join]

theorem prepend_join (delimiter b : UInt8) (first next : List Bytes × Bytes) :
    prepend delimiter b (join first next) = join (prepend delimiter b first) next := by
  obtain ⟨ls, r⟩ := first
  obtain ⟨ls', r'⟩ := next
  unfold prepend join
  by_cases hb : b = delimiter
  · cases ls' <;> simp [hb]
  · cases ls' <;> cases ls <;> simp [hb]

/-- To cut a stream is to cut its parts and to join them. -/
theorem cut_append (delimiter : UInt8) (first next : Bytes) :
    cut delimiter (first ++ next) = join (cut delimiter first) (cut delimiter next) := by
  induction first with
  | nil => rw [List.nil_append, cut_nil, join_nil_left]
  | cons b first ih => rw [List.cons_append, cut_cons, ih, prepend_join, cut_cons]

/-! ### What a cut consists of -/

theorem isLine_of_mem_cut {delimiter : UInt8} {stream line : Bytes}
    (h : line ∈ (cut delimiter stream).1) : IsLine delimiter line := by
  induction stream generalizing line with
  | nil => simp at h
  | cons b stream ih =>
    rw [cut_cons, prepend] at h
    split at h
    next hb =>
      rcases List.mem_cons.1 h with rfl | h
      · exact ⟨[], by simp, by simp [hb]⟩
      · exact ih h
    next hb =>
      split at h
      next first more hcut =>
        rcases List.mem_cons.1 h with rfl | h
        · obtain ⟨body, hbody, rfl⟩ := ih (hcut ▸ List.mem_cons_self)
          exact ⟨b :: body, by simp [hbody, Ne.symm hb], rfl⟩
        · exact ih (hcut ▸ List.mem_cons_of_mem _ h)
      next => simp at h

theorem delimiter_notMem_cut (delimiter : UInt8) (stream : Bytes) :
    delimiter ∉ (cut delimiter stream).2 := by
  induction stream with
  | nil => simp
  | cons b stream ih =>
    rw [cut_cons, prepend]
    split
    · exact ih
    next hb =>
      split
      · exact ih
      · simp [ih, Ne.symm hb]

/-- There is one line for each delimiter. -/
theorem length_cut (delimiter : UInt8) (stream : Bytes) :
    (cut delimiter stream).1.length = stream.count delimiter := by
  induction stream with
  | nil => rfl
  | cons b stream ih =>
    rw [cut_cons, prepend, List.count_cons, ← ih]
    split
    next hb => simp [hb]
    next hb =>
      split
      next hcut => simp [hcut, hb]
      next hcut => simp [hcut, hb]

theorem cut_eq_nil_iff {delimiter : UInt8} {stream : Bytes} :
    (cut delimiter stream).1 = [] ↔ delimiter ∉ stream := by
  rw [← List.length_eq_zero_iff, length_cut, List.count_eq_zero]

theorem cut_of_notMem {delimiter : UInt8} {stream : Bytes} (h : delimiter ∉ stream) :
    cut delimiter stream = ([], stream) := by
  have hlines := cut_eq_nil_iff.2 h
  have hall := flatten_cut delimiter stream
  rw [hlines] at hall
  exact Prod.ext hlines hall

/-! ### The lines of the whole stream -/

theorem splitOn_cons (delimiter b : UInt8) (stream : Bytes) :
    (b :: stream).splitOn delimiter =
      if b = delimiter then [] :: stream.splitOn delimiter
      else (stream.splitOn delimiter).modifyHead (b :: ·) := by
  rw [List.splitOn, List.splitOnP_cons_eq_if_modifyHead]
  simp only [beq_iff_eq]
  rfl

theorem cut_fst (delimiter : UInt8) (stream : Bytes) :
    (cut delimiter stream).1 = lines delimiter stream := by
  induction stream with
  | nil => rfl
  | cons b stream ih =>
    have hne : stream.splitOn delimiter ≠ [] := List.splitOnP_ne_nil _ _
    obtain ⟨piece, pieces, hpieces⟩ := List.exists_cons_of_ne_nil hne
    rw [lines, hpieces] at ih
    rw [cut_cons, prepend, ih, lines, splitOn_cons, hpieces]
    by_cases hb : b = delimiter
    · simp [hb]
    · cases pieces <;> simp [hb]

theorem cut_snd (delimiter : UInt8) (stream : Bytes) :
    (cut delimiter stream).2 = remainder delimiter stream := by
  have hall := flatten_cut delimiter stream
  have hrest : ∀ b ∈ (cut delimiter stream).2.reverse, (b != delimiter) = true := by
    intro b hb
    rw [bne_iff_ne]
    rintro rfl
    exact delimiter_notMem_cut b stream (List.mem_reverse.1 hb)
  -- Before the rest stands nothing, or a line, which ends in the delimiter.
  have hlines : (cut delimiter stream).1.flatten.reverse.takeWhile (· != delimiter) = [] := by
    obtain hnil | ⟨earlier, line, hlast⟩ := List.eq_nil_or_concat (cut delimiter stream).1
    · simp [hnil]
    · obtain ⟨body, -, rfl⟩ := isLine_of_mem_cut
        (show line ∈ (cut delimiter stream).1 by simp [hlast])
      simp [hlast]
  rw [remainder, List.rtakeWhile]
  conv_rhs => rw [← hall]
  rw [List.reverse_append, List.takeWhile_append_of_pos hrest, hlines, List.append_nil,
    List.reverse_reverse]

/-- The bytes taken one by one give the lines of the stream and its remainder. -/
theorem cut_eq (delimiter : UInt8) (stream : Bytes) :
    cut delimiter stream = (lines delimiter stream, remainder delimiter stream) :=
  Prod.ext (cut_fst delimiter stream) (cut_snd delimiter stream)

/-- A stream that goes on has the lines it had, and then those of its remainder and the rest. -/
theorem lines_append (delimiter : UInt8) (first next : Bytes) :
    lines delimiter (first ++ next) =
        lines delimiter first ++ lines delimiter (remainder delimiter first ++ next) ∧
      remainder delimiter (first ++ next) =
        remainder delimiter (remainder delimiter first ++ next) := by
  have hopen : cut delimiter (cut delimiter first).2 = ([], (cut delimiter first).2) :=
    cut_of_notMem (delimiter_notMem_cut delimiter first)
  have hwhole := cut_append delimiter first next
  rw [join_eq, ← hopen, ← cut_append] at hwhole
  simpa only [cut_eq, Prod.mk.injEq] using hwhole

theorem length_lines (delimiter : UInt8) (stream : Bytes) :
    (lines delimiter stream).length = stream.count delimiter := by
  rw [← cut_fst, length_cut]

/-! ### Lines put end to end -/

theorem IsLine.cut_eq {delimiter : UInt8} {line : Bytes} (h : IsLine delimiter line) :
    cut delimiter line = ([line], []) := by
  obtain ⟨body, hbody, rfl⟩ := h
  have hend : cut delimiter [delimiter] = ([[delimiter]], []) := by simp [prepend]
  rw [cut_append, cut_of_notMem hbody, hend, join]
  rfl

/-- Lines that are put end to end are cut into the same lines again. -/
theorem lines_flatten {delimiter : UInt8} {ls : List Bytes}
    (h : ∀ line ∈ ls, IsLine delimiter line) :
    lines delimiter ls.flatten = ls ∧ remainder delimiter ls.flatten = [] := by
  suffices hcut : cut delimiter ls.flatten = (ls, []) by
    rw [cut_eq, Prod.mk.injEq] at hcut
    exact hcut
  induction ls with
  | nil => rfl
  | cons line ls ih =>
    rw [List.forall_mem_cons] at h
    rw [List.flatten_cons, cut_append, h.1.cut_eq, ih h.2, join_eq, join_nil_left,
      List.singleton_append]

/-- There is one delimiter for each line. -/
theorem count_flatten {delimiter : UInt8} {ls : List Bytes}
    (h : ∀ line ∈ ls, IsLine delimiter line) : ls.flatten.count delimiter = ls.length := by
  rw [← length_lines, (lines_flatten h).1]

theorem isLine_of_mem_lines {delimiter : UInt8} {stream line : Bytes}
    (h : line ∈ lines delimiter stream) : IsLine delimiter line := by
  rw [← cut_fst] at h
  exact isLine_of_mem_cut h

theorem delimiter_notMem_remainder (delimiter : UInt8) (stream : Bytes) :
    delimiter ∉ remainder delimiter stream := by
  rw [← cut_snd]
  exact delimiter_notMem_cut delimiter stream

/-- Lines put end to end end in the delimiter, if there are any. -/
theorem getLast?_flatten {delimiter : UInt8} {ls : List Bytes}
    (h : ∀ line ∈ ls, IsLine delimiter line) :
    ls.flatten = [] ∨ ls.flatten.getLast? = some delimiter := by
  obtain rfl | ⟨earlier, line, rfl⟩ := List.eq_nil_or_concat ls
  · exact .inl rfl
  · obtain ⟨body, -, rfl⟩ := h line (by simp)
    exact .inr (by simp)

/-- Nothing follows the last delimiter of a stream that ends in it. -/
theorem remainder_of_getLast? {delimiter : UInt8} {stream : Bytes}
    (h : stream.getLast? = some delimiter) : remainder delimiter stream = [] := by
  obtain ⟨body, rfl⟩ := List.getLast?_eq_some_iff.1 h
  exact List.rtakeWhile_concat_neg _ _ _ (by simp)

end Framing

end Scrollback
