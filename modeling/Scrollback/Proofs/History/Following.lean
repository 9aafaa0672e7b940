import Scrollback.Proofs.History.Journal
/-!
# Following a run

What a call did to the records and the pending bytes can be told from the call and its reply:
`Reference.after` tells it, and `Desk.perform_follows` shows that a history stands there after the
call. Refused writes, calls through cursors and a dead lock are included, so a history follows every
run (`Desk.Runs.follows`).

A dead lock is no part of a reference. It is the history with its lock revived that agrees.
-/

namespace Scrollback

/-- A history with its lock alive again. -/
def History.revived (h : History) : History :=
  { h with poisoned := false }

namespace Reference

/-- The reference after a call, if it was told what came back. -/
def after (s : Settings) (m : Reference) (e : Entry) : Reference :=
  match e.call, e.reply with
  | .write _ fragment, .written (.ok _) => (m.write s fragment).2
  | .discard, .discarded (.ok _) => { m with pending := [] }
  | .teardown, .released (.ok _) => { m with live := [], pending := [] }
  | _, _ => m

def afterAll (s : Settings) (m : Reference) (entries : List Entry) : Reference :=
  entries.foldl (after s) m

theorem after_of_isLook (s : Settings) (m : Reference) {e : Entry}
    (hlook : e.call.isLook = true) : m.after s e = m := by
  unfold after
  split
  next hcall _ => simp [hcall, Call.isLook] at hlook
  next hcall _ => simp [hcall, Call.isLook] at hlook
  next hcall _ => simp [hcall, Call.isLook] at hlook
  next => rfl

end Reference

open Reference (afterAll)

variable {s : Settings} {m : Reference} {d next last : Desk}

theorem Desk.perform_follows {call : Call} {reply : Reply} (hs : d.history.Sound)
    (hm : d.history.revived.Agrees s m) (h : d.perform call = .ok (reply, next)) :
    next.history.revived.Agrees s (m.after s ⟨d, call, reply⟩) := by
  have hlist : d.history.log.toList = m.live := hm.holds.toList_eq
  by_cases hlook : call.isLook = true
  · rw [Reference.after_of_isLook s m hlook, (perform_looked hs hlook h).2.next_eq]
    exact { hm with }
  cases call with
  | write allowance fragment =>
    obtain ⟨⟨result, after⟩, hwrite, hout⟩ := Checked.bind_eq_ok.1 h
    cases hout
    obtain ⟨hsound, ⟨rfl, rfl⟩ | ⟨request, rfl, rfl⟩ | ⟨log, rfl, -, hkept, hcap, rfl⟩⟩ :=
      History.write_eq_ok hs hwrite
    · exact hm
    · exact { hm with }
    · have hcap' : log.capacity = s.capacity := hcap.trans hm.capacity_eq
      have hcapacity : d.history.log.capacity = s.capacity := hm.capacity_eq
      rw [hlist, hcapacity] at hkept
      exact hm.wrote (hkept ▸ hsound.holds) hcap' _
  | discard =>
    obtain ⟨⟨result, after⟩, hdiscard, hout⟩ := Checked.bind_eq_ok.1 h
    cases hout
    obtain ⟨-, ⟨rfl, rfl⟩ | ⟨rfl, rfl⟩⟩ := History.discard_eq_ok hs hdiscard
    · exact hm
    · exact hm.discarded _
  | teardown =>
    obtain ⟨⟨result, after⟩, hteardown, hout⟩ := Checked.bind_eq_ok.1 h
    cases hout
    obtain ⟨hsound, ⟨rfl, rfl⟩ | ⟨log, hempty, hcap, rfl, rfl⟩⟩ :=
      History.teardown_eq_ok hs hteardown
    · exact hm
    · exact hm.released (hempty ▸ hsound.holds) (hcap.trans hm.capacity_eq) _
  | readAt | openCursor | read | readExact | drain | seek | contents | totalLength | stats |
    counters | poison => exact absurd rfl hlook

theorem Desk.Runs.follows {entries : List Entry} (hruns : d.Runs entries last)
    (hs : d.history.Sound) (hm : d.history.revived.Agrees s m) :
    last.history.revived.Agrees s (m.afterAll s entries) := by
  induction hruns generalizing m with
  | nil => exact hm
  | cons hcall hrest ih => exact ih (perform_effect hs hcall).1 (perform_follows hs hm hcall)

/-- Each history that can be reached follows its run from the start. -/
theorem Desk.Runs.follows_create {h : History} {entries : List Entry}
    (hnew : History.create s = .ok (.ok h)) (hruns : (Desk.ofHistory h).Runs entries last) :
    last.history.Sound ∧
      last.history.revived.Agrees s (Reference.fresh.afterAll s entries) := by
  have hs := (History.create_sound hnew).1
  have hm := History.create_agrees hnew
  exact ⟨hruns.sound hs, hruns.follows hs { hm with poisoned_eq := rfl }⟩

/-- A history with a living lock agrees as it is. -/
theorem History.Agrees.of_revived {h : History} (hm : h.revived.Agrees s m)
    (halive : h.poisoned = false) : h.Agrees s m :=
  { hm with poisoned_eq := halive }

/-! ### Lines -/

namespace Reference

/-- Under the split policy each record that a call leaves is a line, if each was before it. -/
theorem isLine_of_mem_after (hpolicy : s.policy = .split)
    (hlines : ∀ r ∈ m.live, Framing.IsLine s.delimiter r.bytes) (e : Entry) :
    ∀ r ∈ (m.after s e).live, Framing.IsLine s.delimiter r.bytes := by
  intro r hr
  unfold after at hr
  split at hr
  next allowance fragment outcome hcall hreply =>
    rw [write, frame, hpolicy] at hr
    obtain hold | hnew := List.mem_append.1 (List.mem_of_mem_drop hr)
    · exact hlines r hold
    · obtain ⟨line, hline, rfl⟩ := List.mem_map.1 hnew
      exact Framing.isLine_of_mem_lines hline
  next => exact hlines r hr
  next => cases hr
  next => exact hlines r hr

theorem isLine_of_mem_afterAll (hpolicy : s.policy = .split)
    (hlines : ∀ r ∈ m.live, Framing.IsLine s.delimiter r.bytes) (entries : List Entry) :
    ∀ r ∈ (m.afterAll s entries).live, Framing.IsLine s.delimiter r.bytes := by
  induction entries generalizing m with
  | nil => exact hlines
  | cons e entries ih => exact ih (isLine_of_mem_after hpolicy hlines e)

end Reference

end Scrollback
