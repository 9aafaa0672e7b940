import Scrollback.Proofs.History.Effects
/-!
# Journals

The entries of a run are its journal: `Desk.Runs` says that they lead from one desk to another, and
`Desk.performAll_eq_ok_iff` that to perform calls is just this. `Desk.Runs.invariant` carries what
the effects of the calls keep from the start of a run to its end.
-/

namespace Scrollback

namespace Desk

/-- Calls made one after the other take a desk to another; the entries write them down. -/
inductive Runs : Desk → List Entry → Desk → Prop where
  | nil (d : Desk) : Runs d [] d
  | cons {d mid last : Desk} {call : Call} {reply : Reply} {entries : List Entry}
      (hcall : d.perform call = .ok (reply, mid)) (hrest : Runs mid entries last) :
      Runs d (⟨d, call, reply⟩ :: entries) last

/-- To run is to perform all the calls. -/
theorem performAll_eq_ok_iff {d last : Desk} {calls : List Call} {replies : List Reply} :
    d.performAll calls = .ok (replies, last) ↔
      ∃ entries, d.Runs entries last ∧ entries.map Entry.call = calls ∧
        entries.map Entry.reply = replies := by
  constructor
  · intro h
    induction calls generalizing d replies with
    | nil =>
      cases h
      exact ⟨[], .nil _, rfl, rfl⟩
    | cons call calls ih =>
      rw [performAll] at h
      obtain ⟨⟨reply, mid⟩, hcall, h⟩ := Checked.bind_eq_ok.1 h
      obtain ⟨⟨rest, final⟩, hrest, hout⟩ := Checked.bind_eq_ok.1 h
      cases hout
      obtain ⟨entries, hruns, rfl, rfl⟩ := ih hrest
      exact ⟨⟨d, call, reply⟩ :: entries, .cons hcall hruns, rfl, rfl⟩
  · rintro ⟨entries, hruns, rfl, rfl⟩
    induction hruns with
    | nil => rfl
    | cons hcall hrest ih =>
      exact Checked.bind_eq_ok.2 ⟨_, hcall, Checked.bind_eq_ok.2 ⟨_, ih, rfl⟩⟩

namespace Runs

theorem append_iff {d last : Desk} {first next : List Entry} :
    d.Runs (first ++ next) last ↔ ∃ mid, d.Runs first mid ∧ mid.Runs next last := by
  induction first generalizing d with
  | nil =>
    constructor
    · exact fun h => ⟨d, .nil d, h⟩
    · rintro ⟨mid, ⟨⟩, h⟩
      exact h
  | cons e first ih =>
    constructor
    · rintro ⟨⟩
      next mid call reply hcall hrest =>
        obtain ⟨mid', hfirst, hnext⟩ := ih.1 hrest
        exact ⟨mid', .cons hcall hfirst, hnext⟩
    · rintro ⟨mid, ⟨⟩, hnext⟩
      next mid' call reply hcall hfirst =>
        exact .cons hcall (ih.2 ⟨mid, hfirst, hnext⟩)

theorem split {d last : Desk} {earlier later : List Entry} {e : Entry}
    (hruns : d.Runs (earlier ++ e :: later) last) :
    ∃ next, d.Runs earlier e.before ∧ e.before.perform e.call = .ok (e.reply, next) ∧
      next.Runs later last := by
  obtain ⟨mid, hearlier, hrest⟩ := append_iff.1 hruns
  cases hrest with
  | cons hcall hlater => exact ⟨_, hearlier, hcall, hlater⟩

/-- What holds at the start and is kept by each effect holds at the end of a run. -/
theorem invariant {motive : List Entry → History → Prop} {d last : Desk} {entries : List Entry}
    (hruns : d.Runs entries last) (hs : d.history.Sound) (start : motive [] d.history)
    (step : ∀ {earlier : List Entry} {e : Entry} {next : History},
      motive earlier e.history → e.Effect next → motive (earlier ++ [e]) next) :
    last.history.Sound ∧ motive entries last.history := by
  -- The entries are taken one by one from the front, on top of those taken before.
  suffices h : ∀ earlier, motive earlier d.history →
      last.history.Sound ∧ motive (earlier ++ entries) last.history from h [] start
  clear start
  induction hruns with
  | nil =>
    intro earlier h
    rw [List.append_nil]
    exact ⟨hs, h⟩
  | cons hcall hrest ih =>
    intro earlier h
    obtain ⟨hmid, heffect⟩ := perform_effect hs hcall
    rw [List.append_cons]
    exact ih hmid _ (step h heffect)

theorem sound {d last : Desk} {entries : List Entry} (hruns : d.Runs entries last)
    (hs : d.history.Sound) : last.history.Sound :=
  (hruns.invariant (motive := fun _ _ => True) hs trivial fun _ _ => trivial).1

end Runs

/-! ### Cursors -/

theorem through_cursors {d next : Desk} {reader i : Nat} {reply : Reply}
    {serve : Cursor → Checked (Reply × Cursor × History)}
    (h : d.through reader serve = .ok (reply, next)) (hne : reader ≠ i) :
    next.cursors[i]? = d.cursors[i]? := by
  obtain ⟨-, -, rfl⟩ | ⟨c, last, after, -, -, rfl⟩ := through_eq_ok h
  · rfl
  · exact List.getElem?_set_ne hne

/-- A cursor stays where it is unless a call goes through it. -/
theorem perform_cursors {d next : Desk} {call : Call} {reply : Reply}
    (h : d.perform call = .ok (reply, next)) {reader : Nat} (hreader : call.reader? ≠ some reader)
    {c : Cursor} (hc : d.cursors[reader]? = some c) : next.cursors[reader]? = some c := by
  have hother : ∀ {i}, call.reader? = some i → i ≠ reader := by
    rintro i hi rfl
    exact hreader hi
  cases call with
  | read | readExact | drain | seek =>
    rw [through_cursors h (hother rfl)]
    exact hc
  | openCursor =>
    cases h
    obtain ⟨hlt, -⟩ := List.getElem?_eq_some_iff.1 hc
    exact (List.getElem?_append_left hlt).trans hc
  | poison =>
    cases h
    exact hc
  | write | readAt | contents | totalLength | discard | teardown | stats | counters =>
    obtain ⟨out, -, hout⟩ := Checked.bind_eq_ok.1 h
    cases hout
    exact hc

end Desk

theorem History.create_sound {s : Settings} {h : History} (hnew : create s = .ok (.ok h)) :
    h.Sound ∧ h.log.toList = [] := by
  have hagrees := create_agrees hnew
  have hempty : h.log.toList = [] := hagrees.holds.toList_eq
  exact ⟨⟨hempty ▸ hagrees.holds, by rw [hempty]; decide⟩, hempty⟩

end Scrollback
