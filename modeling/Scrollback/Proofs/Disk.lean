import Scrollback.Disk
/-!
# What a disk keeps of a file

A file that got its content is at its place from then on, and nothing is lost with it: no directory,
no link and no other file.

A file that was written is read back by the path by which it was written (`Disk.locateOld_put`).
This needs an induction on the walk along the path, from one disk to the next: each step leads where
it led before, and there is something at the last place now (`Disk.walk_put`).
-/

namespace Scrollback.Disk

variable {d : Disk} {p q : Place} {path content : Bytes}

/-- What of the machine is at a place. A file of the session stands in its way. -/
def native? (d : Disk) (p : Place) : Option Node :=
  match d.file? p with
  | some _ => none
  | none => d.node? p

/-! ### Steps -/

/-- A step to a place where there is something, or to the last place. -/
theorem walk_step {mayBeNew : Bool} {step : Bytes} {rest : List Bytes} (next : Place)
    (henter : d.enter p step = .ok next) (hlink : d.link? next = none)
    (hholds : (d.holds next || (mayBeNew && rest.isEmpty)) = true) (links : Nat) :
    d.walk mayBeNew links p (step :: rest) = d.walk mayBeNew links next rest := by
  simp only [walk, henter, hlink, hholds, if_true]

/-- A step to a link. -/
theorem walk_link {mayBeNew : Bool} {step : Bytes} {rest : List Bytes} (next target : Place)
    (henter : d.enter p step = .ok next) (hlink : d.link? next = some target) (links : Nat) :
    d.walk mayBeNew (links + 1) p (step :: rest) = d.walk mayBeNew links [] (target ++ rest) := by
  simp only [walk, henter, hlink]

/-! ### A file that got its content -/

theorem file?_put_self : (d.put p content).file? p = some content := by
  have hrest : (d.files.filter (·.1 != p)).find? (·.1 == p) = none := by
    simp [List.find?_eq_none]
  rw [file?, put, List.find?_append, hrest]
  simp

theorem file?_put_of_ne (h : q ≠ p) : (d.put p content).file? q = d.file? q := by
  have hlast : [(p, content)].find? (·.1 == q) = none := by
    simp [h.symm]
  have hrest : (d.files.filter (·.1 != p)).find? (·.1 == q) = d.files.find? (·.1 == q) := by
    rw [List.find?_filter]
    congr 1
    funext entry
    by_cases hq : entry.1 = q <;> simp [hq, h]
  rw [file?, file?, put, List.find?_append, hlast, hrest, Option.or_none]

/-- What is at a place stays, or there is a new directory around the file. -/
theorem node?_put (d : Disk) (p : Place) (content : Bytes) (q : Place) :
    (d.put p content).node? q = d.node? q ∨
      d.node? q = none ∧ (d.put p content).node? q = some (.directory .shared) := by
  unfold node?
  cases hmachine : d.machine q with
  | some node => exact .inl (by simp only [put, hmachine])
  | none =>
    by_cases hbelow : d.files.any (·.1.isBelow q) = true
    · -- The file below was replaced by one at the same place or is still there.
      have hstill : (d.put p content).files.any (·.1.isBelow q) = true := by
        obtain ⟨entry, hentry, hq⟩ := List.any_eq_true.1 hbelow
        rw [put, List.any_append, Bool.or_eq_true, List.any_filter]
        by_cases hp : entry.1 = p
        · exact .inr (by simpa [hp] using hq)
        · exact .inl (List.any_eq_true.2 ⟨entry, hentry, by simpa [hp] using hq⟩)
      exact .inl (by rw [if_pos hbelow, if_pos hstill]; simp only [put, hmachine])
    · by_cases hnew : (d.put p content).files.any (·.1.isBelow q) = true
      · exact .inr (by simp only [if_neg hbelow, if_pos hnew]; simp only [put, hmachine, and_self])
      · exact .inl (by rw [if_neg hbelow, if_neg hnew]; simp only [put, hmachine])

theorem directory?_of_native (hp : d.native? p = none) : d.directory? p = none := by
  cases hfile : d.file? p <;> simp_all [native?, directory?]

theorem link?_of_native (hp : d.native? p = none) : d.link? p = none := by
  cases hfile : d.file? p <;> simp_all [native?, link?]

/-- No directory is lost. -/
theorem directory?_put (hp : d.native? p = none) {rules : DirectoryRules}
    (h : d.directory? q = some rules) : (d.put p content).directory? q = some rules := by
  have hq : q ≠ p := by
    rintro rfl
    rw [directory?_of_native hp] at h
    cases h
  rw [directory?, file?_put_of_ne hq]
  obtain hsame | ⟨hnone, hnew⟩ := node?_put d p content q
  · rw [hsame]
    exact h
  · rw [directory?, hnone] at h
    split at h <;> simp_all

/-- No link is lost, and none is made. -/
theorem link?_put (hp : d.native? p = none) : (d.put p content).link? q = d.link? q := by
  by_cases hq : q = p
  · rw [hq, link?_of_native hp, link?, file?_put_self]
  · rw [link?, link?, file?_put_of_ne hq]
    obtain hsame | ⟨hnone, hnew⟩ := node?_put d p content q
    · rw [hsame]
    · rw [hnone, hnew]
      cases d.file? q <;> rfl

theorem holds_put (h : d.holds q = true) : (d.put p content).holds q = true := by
  by_cases hq : q = p
  · rw [hq, holds, file?_put_self]
    rfl
  · rw [holds, file?_put_of_ne hq]
    obtain hsame | ⟨hnone, hnew⟩ := node?_put d p content q
    · rw [hsame]
      exact h
    · rw [hnew, Option.isSome_some, Bool.or_true]

theorem enter_put (hp : d.native? p = none) {step : Bytes} {next : Place}
    (h : d.enter q step = .ok next) : (d.put p content).enter q step = .ok next := by
  unfold enter at h ⊢
  cases hq : d.directory? q with
  | none =>
    rw [hq] at h
    cases h
  | some rules =>
    rw [hq] at h
    rw [directory?_put hp hq]
    exact h

/-- A walk that leads to the place of a file still does when the file has its content, and now
there is something at its end. -/
theorem walk_put (hp : d.native? p = none) {mayBeNew : Bool} (anew : Bool) {links : Nat}
    {steps : List Bytes} (h : d.walk mayBeNew links q steps = .ok p) :
    (d.put p content).walk anew links q steps = .ok p := by
  fun_induction walk d mayBeNew links q steps with
  | case1 q => rw [walk, h]
  | case2 | case3 | case6 => cases h
  | case4 q step rest next henter target links hlink ih =>
    rw [walk_link next target (enter_put hp henter) ((link?_put hp).trans hlink), ih h]
  | case5 q step rest next henter links hlink hholds ih =>
    have hthere : (d.put p content).holds next = true := by
      obtain hholds | hlast := Bool.or_eq_true_iff.1 hholds
      · exact holds_put hholds
      · -- This is the last step, so it leads to the file.
        obtain ⟨-, hrest⟩ := Bool.and_eq_true_iff.1 hlast
        rw [List.isEmpty_iff.1 hrest, walk] at h
        cases h
        rw [holds, file?_put_self]
        rfl
    rw [walk_step next (enter_put hp henter) ((link?_put hp).trans hlink) (by rw [hthere]; rfl),
      ih h]

theorem native?_put : (d.put p content).native? p = none := by
  rw [native?, file?_put_self]

/-! ### The place of a path -/

/-- The place of a path that ends in no slash, if it is a path at all. -/
theorem locateNew_eq_ok : d.locateNew path = .ok p ↔ Path.check path = .ok () ∧
    Path.endsInSlash path = false ∧ d.locate true path (Path.steps path) = .ok p := by
  cases hpath : Path.check path with
  | error f => simp [locateNew, hpath, bind, Except.bind]
  | ok =>
    cases hslash : Path.endsInSlash path with
    | true =>
      -- Such a path is refused in each case.
      simp only [locateNew, hpath, hslash, bind, Except.bind, if_true]
      split
      · simp
      · split <;> simp
    | false => simp [locateNew, hpath, hslash, bind, Except.bind]

theorem locateOld_eq (hpath : Path.check path = .ok ()) (hslash : Path.endsInSlash path = false) :
    d.locateOld path = d.locate false path (Path.steps path) := by
  simp only [locateOld, bind, Except.bind, hpath, hslash, Bool.and_false, Bool.false_eq_true,
    if_false]
  split
  · next h => rw [h]
  · next h => rw [h]

theorem locateNew_put (hp : d.native? p = none) (h : d.locateNew path = .ok p) :
    (d.put p content).locateNew path = .ok p := by
  obtain ⟨hpath, hslash, hleads⟩ := locateNew_eq_ok.1 h
  exact locateNew_eq_ok.2 ⟨hpath, hslash, walk_put hp true hleads⟩

/-- The path of a file that got its content leads to it for a reader. -/
theorem locateOld_put (hp : d.native? p = none) (h : d.locateNew path = .ok p) :
    (d.put p content).locateOld path = .ok p := by
  obtain ⟨hpath, hslash, hleads⟩ := locateNew_eq_ok.1 h
  rw [locateOld_eq hpath hslash]
  exact walk_put hp false hleads

/-! ### Paths of plain names -/

/-- A step that is neither of the two special ones and not too long. -/
def Plain (step : Bytes) : Prop :=
  step ≠ Path.here ∧ step ≠ Path.up ∧ step.length ≤ Path.longestName

instance (step : Bytes) : Decidable (Plain step) :=
  inferInstanceAs (Decidable (_ ∧ _ ∧ _))

section Plain

variable {rules : DirectoryRules} {mayBeNew : Bool} {links : Nat} {step : Bytes} {rest : List Bytes}

theorem enter_eq (h : d.directory? p = some rules) (henterable : rules.enterable = true)
    (hstep : Plain step) : d.enter p step = .ok (p.child step) := by
  obtain ⟨hhere, hup, hlength⟩ := hstep
  rw [enter, h]
  simp only [henterable, Bool.not_true, Bool.false_eq_true, if_false, hhere, hup]
  rw [if_neg]
  simp [hlength]

/-- A step to a directory. -/
theorem walk_directory (h : d.directory? p = some rules) (henterable : rules.enterable = true)
    (hstep : Plain step) {next : DirectoryRules} (hnext : d.directory? (p.child step) = some next) :
    d.walk mayBeNew links p (step :: rest) = d.walk mayBeNew links (p.child step) rest := by
  have hlink : d.link? (p.child step) = none := by
    unfold directory? at hnext
    split at hnext <;> simp_all [link?]
  have hholds : d.holds (p.child step) = true := by
    unfold directory? at hnext
    split at hnext <;> simp_all [holds]
  exact walk_step _ (enter_eq h henterable hstep) hlink (by rw [hholds, Bool.true_or]) links

/-- The last step. -/
theorem walk_last (h : d.directory? p = some rules) (henterable : rules.enterable = true)
    (hstep : Plain step) (hlink : d.link? (p.child step) = none)
    (hholds : (d.holds (p.child step) || mayBeNew) = true) :
    d.walk mayBeNew links p [step] = .ok (p.child step) := by
  rw [walk_step _ (enter_eq h henterable hstep) hlink (by simpa using hholds), walk]

end Plain

end Scrollback.Disk
