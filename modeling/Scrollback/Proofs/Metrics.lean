import Scrollback.Metrics
import Scrollback.Proofs.Text.PrefixFree
/-!
# What the export of the counters tells

The export is read by programs: they cut it at line breaks and each line at its equals sign. A value
is made of digits and at most a decimal point, whatever the counters are, a rate of nothing among
them. So no value can hold a line break or an equals sign, and the cuts give back the keys and the
values.

The export therefore tells each counter and the duration in whole milliseconds, and nothing else
(`Metrics.exportText_unambiguous`). The duration is the one that the run took, or while it goes on
what the clock shows.
-/

namespace Scrollback

/-- Lines are told by the text in which each of them is ended by a mark that stands in none. -/
theorem eq_of_flatMap_concat_eq {α : Type} {mark : α} {lines lines' : List (List α)}
    (hlines : ∀ line ∈ lines, mark ∉ line) (hlines' : ∀ line ∈ lines', mark ∉ line)
    (h : lines.flatMap (· ++ [mark]) = lines'.flatMap (· ++ [mark])) : lines = lines' := by
  induction lines generalizing lines' with
  | nil =>
    cases lines' with
    | nil => rfl
    | cons line' lines' => simp at h
  | cons line lines ih =>
    cases lines' with
    | nil => simp at h
    | cons line' lines' =>
      simp only [List.flatMap_cons, List.append_assoc, List.singleton_append] at h
      obtain ⟨hline, hmore⟩ := List.forall_mem_cons.1 hlines
      obtain ⟨hline', hmore'⟩ := List.forall_mem_cons.1 hlines'
      have hmark : ∀ rest : List α, ∀ c ∈ (mark :: rest).head?, ¬ c ≠ mark := by simp
      obtain ⟨rfl, hrest⟩ := append_inj_of_head? (p := (· ≠ mark))
        (fun c hc heq => hline (heq ▸ hc)) (fun c hc heq => hline' (heq ▸ hc))
        (hmark _) (hmark _) h
      rw [ih hmore hmore' (List.cons.inj hrest).2]

/-! ### Values -/

/-- Digits and the decimal point are all that a value is made of. -/
def IsValueChar (c : Char) : Prop :=
  c.isDigit = true ∨ c = '.'

theorem Decimal.isDigit_of_mem_padded {width n : Nat} {c : Char}
    (h : c ∈ (padded width n).toList) : c.isDigit = true := by
  rw [padded, String.toList_ofList, List.mem_append] at h
  obtain hzero | hdigit := h
  · rw [List.eq_of_mem_replicate hzero]
    rfl
  · exact Nat.isDigit_of_mem_toDigits (by decide) (by decide) hdigit

theorem Decimal.isValueChar_of_mem_fixed {places num den : Nat} {c : Char}
    (h : c ∈ (fixed places num den).toList) : IsValueChar c := by
  simp only [fixed, String.toList_append, List.mem_append] at h
  obtain (hwhole | hpoint) | hpart := h
  · exact .inl (Numeral.isDigit_of_mem_toString hwhole)
  · exact .inr (List.mem_singleton.1 hpoint)
  · exact .inl (isDigit_of_mem_padded hpart)

namespace Metrics

/-- The keys of the export. -/
def exportKeys : List String :=
  ["duration_ms", "fragments_written", "bytes_written", "alloc_failures", "records_completed",
    "partials_discarded", "records_evicted", "bytes_evicted", "eviction_rate", "reads",
    "bytes_read", "reads_at_end"]

/-- A line of the export, without its end. -/
def exportLine (entry : String × String) : List Char :=
  entry.1.toList ++ '=' :: entry.2.toList

def exportLines (m : Metrics) (reading : Nat) : List (List Char) :=
  (m.exported reading).map exportLine

theorem map_fst_exported (m : Metrics) (reading : Nat) :
    (m.exported reading).map Prod.fst = exportKeys := rfl

theorem isValueChar_of_mem_exported (m : Metrics) (reading : Nat) :
    ∀ entry ∈ m.exported reading, ∀ c ∈ entry.2.toList, IsValueChar c := by
  have hcount : ∀ n : Nat, ∀ c ∈ (toString n).toList, IsValueChar c :=
    fun n c hc => .inl (Numeral.isDigit_of_mem_toString hc)
  have hrate : ∀ c ∈ (m.evictionRate.fixed 4).toList, IsValueChar c :=
    fun c hc => Decimal.isValueChar_of_mem_fixed hc
  simp only [exported, List.forall_mem_cons]
  exact ⟨hcount _, hcount _, hcount _, hcount _, hcount _, hcount _, hcount _, hcount _, hrate,
    hcount _, hcount _, hcount _, by simp⟩

/-! ### Lines -/

section Line

variable {m : Metrics} {reading : Nat} {entry : String × String}

theorem not_mem_key (h : entry ∈ m.exported reading) :
    '=' ∉ entry.1.toList ∧ '\n' ∉ entry.1.toList := by
  have hkeys : ∀ key ∈ exportKeys, '=' ∉ key.toList ∧ '\n' ∉ key.toList := by decide
  exact hkeys _ (map_fst_exported m reading ▸ List.mem_map_of_mem h)

theorem not_mem_value (h : entry ∈ m.exported reading) :
    '=' ∉ entry.2.toList ∧ '\n' ∉ entry.2.toList := by
  have hvalue := isValueChar_of_mem_exported m reading entry h
  have hequals : ¬ IsValueChar '=' := by unfold IsValueChar; decide
  have hbreak : ¬ IsValueChar '\n' := by unfold IsValueChar; decide
  exact ⟨fun hmem => hequals (hvalue _ hmem), fun hmem => hbreak (hvalue _ hmem)⟩

theorem not_mem_exportLine (h : entry ∈ m.exported reading) : '\n' ∉ exportLine entry := by
  simp [exportLine, not_mem_key h, not_mem_value h]

theorem count_exportLine (h : entry ∈ m.exported reading) : (exportLine entry).count '=' = 1 := by
  rw [exportLine, List.count_append, List.count_cons_self,
    List.count_eq_zero.2 (not_mem_key h).1, List.count_eq_zero.2 (not_mem_value h).1]

/-- What stands before the equals sign is the key. -/
theorem takeWhile_exportLine (h : entry ∈ m.exported reading) :
    (exportLine entry).takeWhile (· ≠ '=') = entry.1.toList := by
  rw [exportLine, List.takeWhile_append_of_pos, List.takeWhile_cons_of_neg, List.append_nil]
  · simp
  · intro c hc
    simpa using fun heq : c = '=' => (not_mem_key h).1 (heq ▸ hc)

end Line

variable {m n : Metrics} {reading reading' : Nat}

theorem toList_exportText (m : Metrics) (reading : Nat) :
    (m.exportText reading).toList = (m.exportLines reading).flatMap (· ++ ['\n']) := by
  rw [exportText, String.toList_join, List.flatMap_map, exportLines, List.flatMap_map]
  refine List.flatMap_congr fun entry _ => ?_
  simp [exportLine]

/-- The lines tell just the counters and the whole milliseconds. -/
theorem exportLines_eq_iff : m.exportLines reading = n.exportLines reading' ↔
    { m with elapsed := none } = { n with elapsed := none } ∧
      m.elapsed.getD reading / 1000000 = n.elapsed.getD reading' / 1000000 := by
  constructor
  · intro h
    have hvalue : ∀ {key : String} {a b : Nat},
        exportLine (key, toString a) = exportLine (key, toString b) → a = b := by
      intro key a b hline
      have hdigits := List.append_cancel_left hline
      exact Numeral.toString_injective (String.toList_injective (List.cons.inj hdigits).2)
    simp only [exportLines, exported, List.map_cons, List.cons.injEq] at h
    obtain ⟨hmilliseconds, hfragments, hwritten, hfailures, hcompleted, hpartials, hevicted,
      hevictedBytes, -, hreads, hread, hends, -⟩ := h
    refine ⟨?_, hvalue hmilliseconds⟩
    rw [hvalue hfragments, hvalue hwritten, hvalue hfailures, hvalue hcompleted,
      hvalue hpartials, hvalue hevicted, hvalue hevictedBytes, hvalue hreads, hvalue hread,
      hvalue hends]
  · rintro ⟨hcounters, hduration⟩
    have hmilliseconds : m.milliseconds reading = n.milliseconds reading' := hduration
    have hsame : m.exported reading = n.exported reading' := by
      simp only [mk.injEq] at hcounters
      simp only [exported, evictionRate, hcounters, hmilliseconds]
    rw [exportLines, hsame, exportLines]

/-- The export consists of twelve lines, each with its end and just one equals sign, and what stands
before these signs are the keys in their order. Two exports are the same exactly if they are of the
same counters and of durations with the same whole milliseconds. A run that goes on has the duration
that the clock shows. -/
theorem exportText_unambiguous :
    (∀ (m : Metrics) (reading : Nat), ∃ lines : List (List Char),
      (m.exportText reading).toList = lines.flatMap (· ++ ['\n']) ∧
      lines.length = 12 ∧
      (∀ line ∈ lines, '\n' ∉ line ∧ line.count '=' = 1) ∧
      lines.map (·.takeWhile (· ≠ '=')) = exportKeys.map String.toList) ∧
    ∀ (m n : Metrics) (reading reading' : Nat), m.exportText reading = n.exportText reading' ↔
      { m with elapsed := none } = { n with elapsed := none } ∧
        m.elapsed.getD reading / 1000000 = n.elapsed.getD reading' / 1000000 := by
  have hbreaks : ∀ (m : Metrics) (reading : Nat), ∀ line ∈ m.exportLines reading, '\n' ∉ line :=
    fun m reading => List.forall_mem_map.2 fun entry => not_mem_exportLine
  have hsigns : ∀ (m : Metrics) (reading : Nat),
      ∀ line ∈ m.exportLines reading, line.count '=' = 1 :=
    fun m reading => List.forall_mem_map.2 fun entry => count_exportLine
  refine ⟨fun m reading => ⟨m.exportLines reading, toList_exportText m reading, rfl,
    fun line hline => ⟨hbreaks m reading line hline, hsigns m reading line hline⟩, ?_⟩,
    fun m n reading reading' => ?_⟩
  · rw [← map_fst_exported m reading, exportLines, List.map_map, List.map_map]
    exact List.map_congr_left fun entry => takeWhile_exportLine
  · rw [← exportLines_eq_iff, ← String.toList_inj, toList_exportText, toList_exportText]
    exact ⟨eq_of_flatMap_concat_eq (hbreaks m reading) (hbreaks n reading'), fun h => by rw [h]⟩

end Metrics

end Scrollback
