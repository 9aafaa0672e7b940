import Scrollback.Proofs.History.Effects
/-!
# Failures

A call that fails leaves the history and every cursor as they were. Only a write that was refused
memory is remembered, by the count of refusals. `Desk.perform_failure` says so of each call that
takes the lock once; a loop of reads keeps the reads that it made before it failed.

A lock whose holder died stays dead. Each call that needs it is refused from then on, whatever is
done in between, and each call that does not need it does what it would do on any other history
(`Desk.Dead`).
-/

namespace Scrollback

namespace Call

/-- Whether a call makes read after read, each under the lock anew. -/
def isLoop : Call → Bool
  | readExact _ _ | drain _ _ => true
  | _ => false

/-- What a call that needs the lock is told once the lock is dead. -/
def refusal? : Call → Option Reply
  | write _ _ => some (.written (.error .lockPoisoned))
  | readAt _ buffer => some (.copied (.error .lockPoisoned) buffer)
  | read _ buffer => some (.read (.error (.history .lockPoisoned)) buffer)
  -- There is nothing to read into an empty buffer.
  | readExact _ [] => none
  | readExact _ (b :: buffer) => some (.filled (.error (.history .lockPoisoned)) (b :: buffer))
  | drain _ _ => some (.drained (.error .lockPoisoned))
  | seek _ (.fromEnd _) => some (.placed (.error (.history .lockPoisoned)))
  | contents _ => some (.contents (.error .lockPoisoned))
  | totalLength => some (.totalLength (.error .lockPoisoned))
  | discard => some (.discarded (.error .lockPoisoned))
  | teardown => some (.released (.error .lockPoisoned))
  | stats => some (.stats (.error .lockPoisoned))
  | counters => some (.counters (.error .lockPoisoned))
  | openCursor | seek _ (.start _) | seek _ (.current _) | poison => none

end Call

/-- The error that a call came back with. -/
def Reply.failure? : Reply → Option CursorError
  | written (.error e) | copied (.error e) _ | drained (.error e) | contents (.error e)
  | totalLength (.error e) | discarded (.error e) | released (.error e) | stats (.error e)
  | counters (.error e) => some (.history e)
  | read (.error e) _ | filled (.error e) _ | placed (.error e) => some e
  | _ => none

/-- To readers of bytes a dead lock is an error without a kind of its own, with the error of the
history inside. -/
theorem Call.refusal_failure {call : Call} {reply : Reply} (h : call.refusal? = some reply) :
    ∃ e, reply.failure? = some e ∧ e.kind = .other ∧ e.inner? = some .lockPoisoned := by
  unfold refusal? at h
  split at h
  all_goals cases h
  all_goals exact ⟨_, rfl, rfl, rfl⟩

/-! ### Operations that fail -/

namespace History

variable {h next : History} {e : HistoryError}

/-- What can fail only by a dead lock changes nothing if it fails. -/
theorem change_eq_error {α : Type} {act : History → Checked (Except HistoryError α × History)}
    (hact : ∀ after, act h ≠ .ok (.error e, after))
    (hchange : h.change act = .ok (.error e, next)) :
    next = h := by
  obtain ⟨-, -, hnext⟩ | ⟨-, hmade⟩ := change_eq_ok hchange
  · exact hnext
  · exact absurd hmade (hact next)

theorem write_eq_error {allowance : Allowance} {fragment : Bytes}
    (hwrite : h.write allowance fragment = .ok (.error e, next)) :
    (e = .lockPoisoned ∧ next = h) ∨
      ∃ request, e = .alloc request ∧ next = h.withRefusals (h.metrics.allocFailures + 1) := by
  obtain ⟨-, hresult, hnext⟩ | ⟨halive, -⟩ := change_eq_ok hwrite
  · exact .inl ⟨Except.error.inj hresult, hnext⟩
  · right
    obtain ⟨request, hrefused⟩ | hsame := write_eq halive allowance fragment
    · rw [hrefused] at hwrite
      cases hwrite
      exact ⟨request, rfl, rfl⟩
    · -- Without limit on memory the fragment is taken in, so there is no error to tell.
      rw [hsame, write, change_of_alive halive, Assembler.feed_none] at hwrite
      obtain ⟨out, -, hout⟩ := Checked.bind_eq_ok.1 hwrite
      cases hout

theorem discard_eq_error (hdiscard : h.discard = .ok (.error e, next)) : next = h := by
  apply change_eq_error _ hdiscard
  rintro after ⟨⟩

theorem teardown_eq_error (hteardown : h.teardown = .ok (.error e, next)) : next = h := by
  apply change_eq_error _ hteardown
  intro after hmade
  obtain ⟨out, -, hout⟩ := Checked.bind_eq_ok.1 hmade
  cases hout

theorem readInto_eq_error {position after : Nat} {buffer filled : Bytes}
    (hread : h.readInto position buffer = .ok (.error e, filled, after, next)) :
    filled = buffer ∧ after = position ∧ next = h := by
  obtain ⟨⟨result, moved, history⟩, hfound, hout⟩ := Checked.bind_eq_ok.1 hread
  obtain ⟨-, rfl, rfl, rfl⟩ | ⟨-, data, rfl, -, -⟩ := read_eq_ok hfound
  · cases hout
    exact ⟨rfl, rfl, rfl⟩
  · obtain ⟨laid, -, hlast⟩ := Checked.bind_eq_ok.1 hout
    cases hlast

end History

namespace Cursor

variable {c last : Cursor} {h : History}

theorem moveTo_eq_error {target : Option Nat} {e : CursorError}
    (hmove : c.moveTo target = (.error e, last)) : last = c := by
  cases target with
  | none =>
    cases hmove
    rfl
  | some position => cases hmove

theorem seek_eq_error {whence : Whence} {e : CursorError}
    (hseek : c.seek h whence = .ok (.error e, last)) : last = c := by
  cases whence with
  | start offset => cases hseek
  | current distance => exact moveTo_eq_error (Except.ok.inj hseek)
  | fromEnd distance =>
    obtain ⟨total, -, hout⟩ := Checked.bind_eq_ok.1 hseek
    cases total with
    | error e' =>
      cases hout
      rfl
    | ok total => exact moveTo_eq_error (Except.ok.inj hout)

end Cursor

namespace Desk

variable {d next : Desk} {call : Call} {reply : Reply}

theorem update_self {reader : Nat} {c : Cursor} (hc : d.cursors[reader]? = some c) :
    d.update reader c d.history = d := by
  obtain ⟨hlt, rfl⟩ := List.getElem?_eq_some_iff.1 hc
  rw [update, List.set_getElem_self]

theorem perform_failure {e : CursorError} (hloop : call.isLoop = false)
    (h : d.perform call = .ok (reply, next)) (hfail : reply.failure? = some e) :
    next =
      if Entry.isRefusal ⟨d, call, reply⟩ then d.withRefusals (d.refusals + 1) else d := by
  cases call with
  | write allowance fragment =>
    obtain ⟨⟨result, after⟩, hwrite, hout⟩ := Checked.bind_eq_ok.1 h
    cases hout
    cases result with
    | ok outcome => cases hfail
    | error e' =>
      obtain ⟨rfl, rfl⟩ | ⟨request, rfl, rfl⟩ := History.write_eq_error hwrite
      · rfl
      · rfl
  | readAt offset buffer =>
    obtain ⟨⟨result, filled, after, history⟩, hread, hout⟩ := Checked.bind_eq_ok.1 h
    cases hout
    cases result with
    | ok count => cases hfail
    | error e' =>
      obtain ⟨-, -, rfl⟩ := History.readInto_eq_error hread
      rfl
  | openCursor | poison =>
    cases h
    cases hfail
  | read reader buffer =>
    obtain ⟨-, rfl, -⟩ | ⟨c, last, after, hc, hserved, rfl⟩ := through_eq_ok h
    · cases hfail
    · obtain ⟨⟨result, filled, moved, history⟩, hread, hout⟩ := Checked.bind_eq_ok.1 hserved
      cases hout
      obtain ⟨⟨found, laid, position, history⟩, hfound, hlast⟩ := Checked.bind_eq_ok.1 hread
      cases hlast
      cases found with
      | ok count => cases hfail
      | error e' =>
        obtain ⟨-, rfl, rfl⟩ := History.readInto_eq_error hfound
        exact update_self hc
  | readExact | drain => cases hloop
  | seek reader whence =>
    obtain ⟨-, rfl, -⟩ | ⟨c, last, after, hc, hserved, rfl⟩ := through_eq_ok h
    · cases hfail
    · obtain ⟨⟨result, moved⟩, hseek, hout⟩ := Checked.bind_eq_ok.1 hserved
      cases hout
      cases result with
      | ok position => cases hfail
      | error e' =>
        obtain rfl := Cursor.seek_eq_error hseek
        exact update_self hc
  | contents | totalLength | stats | counters =>
    obtain ⟨result, -, hout⟩ := Checked.bind_eq_ok.1 h
    cases hout
    rfl
  | discard =>
    obtain ⟨⟨result, after⟩, hdiscard, hout⟩ := Checked.bind_eq_ok.1 h
    cases hout
    cases result with
    | ok count => cases hfail
    | error e' =>
      obtain rfl := History.discard_eq_error hdiscard
      rfl
  | teardown =>
    obtain ⟨⟨result, after⟩, hteardown, hout⟩ := Checked.bind_eq_ok.1 h
    cases hout
    cases result with
    | ok records => cases hfail
    | error e' =>
      obtain rfl := History.teardown_eq_error hteardown
      rfl

/-! ### A dead lock -/

theorem through_refused {reader : Nat} {serve : Cursor → Checked (Reply × Cursor × History)}
    (hreader : reader < d.cursors.length)
    (hserve : ∀ c, serve c = .ok (reply, c, d.history)) :
    d.through reader serve = .ok (reply, d) := by
  have hc := List.getElem?_eq_getElem hreader
  rw [through, hc]
  simp only [hserve, Checked.ok_bind, Checked.pure_eq_ok, update_self hc]

theorem perform_dead (hdead : d.history.poisoned = true) (hreply : call.refusal? = some reply)
    (hreader : ∀ reader, call.reader? = some reader → reader < d.cursors.length) :
    d.perform call = .ok (reply, d) := by
  cases call with
  | write | discard | teardown =>
    cases hreply
    exact Checked.bind_eq_ok.2 ⟨_, History.change_of_dead hdead _, rfl⟩
  | readAt offset buffer =>
    cases hreply
    exact Checked.bind_eq_ok.2 ⟨_, History.readInto_of_dead hdead offset buffer, rfl⟩
  | contents | totalLength | stats | counters =>
    cases hreply
    exact Checked.bind_eq_ok.2 ⟨_, History.inspect_of_dead hdead _, rfl⟩
  | openCursor | poison => cases hreply
  | read reader buffer =>
    cases hreply
    apply through_refused (hreader reader rfl)
    intro c
    rw [Cursor.readInto, History.readInto_of_dead hdead]
    rfl
  | readExact reader buffer =>
    cases buffer with
    | nil => cases hreply
    | cons b buffer =>
      cases hreply
      apply through_refused (hreader reader rfl)
      intro c
      rw [Cursor.readExact, List.length_cons, Cursor.fillFrom, if_neg (Nat.succ_ne_zero _),
        History.read_of_dead hdead]
      rfl
  | drain reader room =>
    cases hreply
    apply through_refused (hreader reader rfl)
    intro c
    rw [Cursor.drain_of_dead hdead]
    rfl
  | seek reader whence =>
    cases whence with
    | start | current => cases hreply
    | fromEnd distance =>
      cases hreply
      apply through_refused (hreader reader rfl)
      intro c
      rw [Cursor.seek, History.totalLength, History.inspect_of_dead hdead]
      rfl

theorem through_lockless {other : Desk} (hcursors : other.cursors = d.cursors) {reader : Nat}
    {serve serve' : Cursor → Checked (Reply × Cursor × History)}
    (hserve : ∀ c, ∃ reply last, serve c = .ok (reply, last, d.history) ∧
      serve' c = .ok (reply, last, other.history)) :
    ∃ reply cursors, d.through reader serve = .ok (reply, ⟨d.history, cursors⟩) ∧
      other.through reader serve' = .ok (reply, ⟨other.history, cursors⟩) := by
  rw [through, through, hcursors]
  cases d.cursors[reader]? with
  | none => exact ⟨_, _, rfl, by rw [← hcursors]⟩
  | some c =>
    obtain ⟨reply, last, hserved, hserved'⟩ := hserve c
    simp only [hserved, hserved', Checked.ok_bind, Checked.pure_eq_ok, update, hcursors]
    exact ⟨_, _, rfl, rfl⟩

/-- A call that needs no lock sees and changes the cursors only. -/
theorem perform_lockless (hnone : call.refusal? = none) (hpoison : call.isPoison = false)
    (d other : Desk) (hcursors : other.cursors = d.cursors) :
    ∃ reply cursors, d.perform call = .ok (reply, ⟨d.history, cursors⟩) ∧
      other.perform call = .ok (reply, ⟨other.history, cursors⟩) := by
  cases call with
  | openCursor =>
    simp only [perform, hcursors]
    exact ⟨_, _, rfl, rfl⟩
  | readExact reader buffer =>
    cases buffer with
    | nil =>
      apply through_lockless hcursors
      intro c
      exact ⟨_, _, rfl, rfl⟩
    | cons => cases hnone
  | seek reader whence =>
    apply through_lockless hcursors
    intro c
    cases whence with
    | start | current => exact ⟨_, _, rfl, rfl⟩
    | fromEnd => cases hnone
  | poison => cases hpoison
  | write | readAt | read | drain | contents | totalLength | discard | teardown | stats |
    counters => cases hnone

theorem perform_noCursor {reader : Nat} (hreader : call.reader? = some reader)
    (hnone : d.cursors.length ≤ reader) : d.perform call = .ok (.noCursor, d) := by
  have hmissing := List.getElem?_eq_none hnone
  cases call with
  | read | readExact | drain | seek =>
    cases hreader
    rw [perform, through, hmissing]
  | write | readAt | openCursor | contents | totalLength | discard | teardown | stats | counters |
    poison => cases hreader

/-- A dead lock lets every call return, and none change the history. -/
theorem perform_of_dead (hdead : d.history.poisoned = true) (call : Call) :
    ∃ reply cursors, d.perform call = .ok (reply, ⟨d.history, cursors⟩) := by
  by_cases hpoison : call.isPoison = true
  · cases call with
    | poison =>
      have hsame : { d.history with poisoned := true } = d.history := by
        rw [← hdead]
      refine ⟨.poisoned (!d.history.poisoned), d.cursors, ?_⟩
      rw [perform, History.poison, hsame]
      rfl
    | _ => cases hpoison
  · rw [Bool.not_eq_true] at hpoison
    cases hrefusal : call.refusal? with
    | none =>
      obtain ⟨reply, cursors, hcall, -⟩ := perform_lockless hrefusal hpoison d d rfl
      exact ⟨reply, cursors, hcall⟩
    | some reply =>
      by_cases hreader : ∀ reader, call.reader? = some reader → reader < d.cursors.length
      · exact ⟨reply, d.cursors, perform_dead hdead hrefusal hreader⟩
      · push Not at hreader
        obtain ⟨reader, hsome, hmissing⟩ := hreader
        exact ⟨.noCursor, d.cursors, perform_noCursor hsome hmissing⟩

theorem performAll_of_dead (hdead : d.history.poisoned = true) (calls : List Call) :
    ∃ replies cursors, d.performAll calls = .ok (replies, ⟨d.history, cursors⟩) := by
  induction calls generalizing d with
  | nil => exact ⟨[], d.cursors, rfl⟩
  | cons call calls ih =>
    obtain ⟨reply, between, hcall⟩ := perform_of_dead hdead call
    obtain ⟨replies, cursors, hrest⟩ := ih (d := ⟨d.history, between⟩) hdead
    exact ⟨_, _, Checked.bind_eq_ok.2 ⟨_, hcall, Checked.bind_eq_ok.2 ⟨_, hrest, rfl⟩⟩⟩

/-- What every call meets on a desk whose lock is dead. -/
structure Dead (d : Desk) : Prop where
  /-- A call that needs the lock is refused. -/
  refused : ∀ call reply, call.refusal? = some reply →
    (∀ reader, call.reader? = some reader → reader < d.cursors.length) →
      d.perform call = .ok (reply, d) ∧
        ∃ e, reply.failure? = some e ∧ e.kind = .other ∧ e.inner? = some .lockPoisoned
  /-- A read at a position of one's own is refused and leaves it. -/
  read : ∀ position buffer,
    d.history.readInto position buffer = .ok (.error .lockPoisoned, buffer, position, d.history)
  /-- A call that needs no lock does what it does on any other history. -/
  lockless : ∀ call, call.refusal? = none → call.isPoison = false → ∀ other : Desk,
    other.cursors = d.cursors →
      ∃ reply cursors, d.perform call = .ok (reply, ⟨d.history, cursors⟩) ∧
        other.perform call = .ok (reply, ⟨other.history, cursors⟩)

theorem Dead.of_poisoned (hdead : d.history.poisoned = true) : d.Dead where
  refused := by
    intro call reply hreply hreader
    exact ⟨perform_dead hdead hreply hreader, call.refusal_failure hreply⟩
  read := History.readInto_of_dead hdead
  lockless := by
    intro call hnone hpoison other hcursors
    exact perform_lockless hnone hpoison d other hcursors

/-- A call that fails leaves the history, the cursors and the position of its caller alone, except
that a refused write is counted. Once the lock is dead, whatever is called, the history stays as it
is and every later call meets a dead lock. -/
theorem failure_atomic_death_final (d : Desk) :
    (∀ call reply next e, call.isLoop = false → d.perform call = .ok (reply, next) →
        reply.failure? = some e →
        next =
          if Entry.isRefusal ⟨d, call, reply⟩ then d.withRefusals (d.refusals + 1) else d) ∧
      (∀ position buffer e filled after next,
        d.history.readInto position buffer = .ok (.error e, filled, after, next) →
        filled = buffer ∧ after = position ∧ next = d.history) ∧
      (d.history.poisoned = true → ∀ calls, ∃ replies last,
        d.performAll calls = .ok (replies, last) ∧ last.history = d.history ∧ last.Dead) := by
  refine ⟨?_, ?_, ?_⟩
  · intro call reply next e hloop h hfail
    exact perform_failure hloop h hfail
  · intro position buffer e filled after next hread
    exact History.readInto_eq_error hread
  · intro hdead calls
    obtain ⟨replies, cursors, hrun⟩ := performAll_of_dead hdead calls
    exact ⟨replies, ⟨d.history, cursors⟩, hrun, rfl, .of_poisoned hdead⟩

/-- A write is refused memory and a seek aims before the start. Then the lock dies; the cursor still
moves between the refusals of a write and of a read, as it would on the history before. -/
theorem failure_atomic_death_final_moving :
    ∃ (d refused moved dead last : Desk) (request : Nat),
      (ofHistory (.ofLog ⟨2, 10, .split⟩ (Log.vacant 2))).performAll
          [.write none [97, 10, 98], .openCursor] =
        .ok ([.written (.ok ⟨3, 1, 0⟩), .opened 0], d) ∧
      d.perform (.write (some 0) [99, 99, 99, 99, 99, 99, 99, 99]) =
        .ok (.written (.error (.alloc request)), refused) ∧
      refused = d.withRefusals (d.refusals + 1) ∧
      d.perform (.seek 0 (.fromEnd (-3))) = .ok (.placed (.error .seekOutOfRange), moved) ∧
      moved = d ∧
      d.perform .poison = .ok (.poisoned true, dead) ∧
      dead.performAll [.seek 0 (.start 7), .write none [10]] =
        .ok ([.placed (.ok 7), .written (.error .lockPoisoned)], last) ∧
      last.history = dead.history ∧
      last.perform (.read 0 [0]) = .ok (.read (.error (.history .lockPoisoned)) [0], last) ∧
      last.perform (.seek 0 (.current (-2))) = .ok (.placed (.ok 5), ⟨last.history, [⟨5⟩]⟩) ∧
      Desk.perform ⟨d.history, [⟨7⟩]⟩ (.seek 0 (.current (-2))) =
        .ok (.placed (.ok 5), ⟨d.history, [⟨5⟩]⟩) := by
  obtain ⟨d, refused, moved, dead, last, request, hrun, hwrite, hseek, hpoison, hdead, hlast,
      hcursors, hmoves⟩ : ∃ (d refused moved dead last : Desk) (request : Nat),
      (ofHistory (.ofLog ⟨2, 10, .split⟩ (Log.vacant 2))).performAll
          [.write none [97, 10, 98], .openCursor] =
        .ok ([.written (.ok ⟨3, 1, 0⟩), .opened 0], d) ∧
      d.perform (.write (some 0) [99, 99, 99, 99, 99, 99, 99, 99]) =
        .ok (.written (.error (.alloc request)), refused) ∧
      d.perform (.seek 0 (.fromEnd (-3))) = .ok (.placed (.error .seekOutOfRange), moved) ∧
      d.perform .poison = .ok (.poisoned true, dead) ∧ dead.history.poisoned = true ∧
      dead.performAll [.seek 0 (.start 7), .write none [10]] =
        .ok ([.placed (.ok 7), .written (.error .lockPoisoned)], last) ∧
      last.cursors = [⟨7⟩] ∧
      Desk.perform ⟨d.history, [⟨7⟩]⟩ (.seek 0 (.current (-2))) =
        .ok (.placed (.ok 5), ⟨d.history, [⟨5⟩]⟩) :=
    ⟨_, _, _, _, _, _, rfl, rfl, rfl, rfl, rfl, rfl, rfl, rfl⟩
  obtain ⟨hfailed, -, -⟩ := failure_atomic_death_final d
  obtain ⟨-, -, hfinal⟩ := failure_atomic_death_final dead
  obtain ⟨replies, final, hend, hsame, hmeets⟩ :=
    hfinal hdead [.seek 0 (.start 7), .write none [10]]
  cases hlast.symm.trans hend
  obtain ⟨hread, -⟩ := hmeets.refused (.read 0 [0]) _ rfl (by simp [Call.reader?, hcursors])
  obtain ⟨reply, cursors, hhere, hthere⟩ :=
    hmeets.lockless (.seek 0 (.current (-2))) rfl rfl ⟨d.history, [⟨7⟩]⟩ hcursors.symm
  cases hmoves.symm.trans hthere
  exact ⟨d, refused, moved, dead, last, request, hrun, hwrite, hfailed _ _ _ _ rfl hwrite rfl,
    hseek, hfailed _ _ _ _ rfl hseek rfl, hpoison, hlast, hsame, hread, hhere, hmoves⟩

end Desk

end Scrollback
