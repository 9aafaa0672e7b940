import Scrollback.Proofs.History.Journal
/-!
# The window on the stream

The records completed since the start or the last teardown make up one stream of bytes. What is
retained is always the end of it: all but the bytes of the records pushed out. So a position in the
retained data stands for a place in the stream, and the place moves on by what is pushed out while
the position stays.

`Journal.stream` and `Journal.lost` tell the stream and what is lost of it from the entries of a
run. `Journal.evicted_append_toList` is the invariant, and `Journal.reads_follow_stream` what it
means for readers.
-/

namespace Scrollback

open Record (totalLength)

/-- A read that returned: its position, the room there was, and the bytes that came back. -/
structure Reading where
  position : Nat
  room : Nat
  data : Bytes
  deriving DecidableEq, Repr

/-- A read returned the bytes of a stream from its position on, some of them unless there was no
room or no more data. What is lost of the stream does not count for the position. -/
structure Reading.Follows (r : Reading) (stream : Bytes) (lost : Nat) : Prop where
  data_eq : r.data = (stream.drop (lost + r.position)).take r.data.length
  length_le : r.data.length ≤ r.room
  nil_iff : r.data = [] ↔ r.room = 0 ∨ stream.length ≤ lost + r.position

namespace Entry

/-- The read that a call was, if it returned. -/
def reading? (e : Entry) : Option Reading :=
  match e.call, e.reply with
  | .readAt position buffer, .copied (.ok count) filled =>
    some ⟨position, buffer.length, filled.take count⟩
  | .read _ buffer, .read (.ok count) filled =>
    e.cursor?.map fun c => ⟨c.position, buffer.length, filled.take count⟩
  | _, _ => none

end Entry

namespace Journal

/-- The calls after the last teardown. -/
def sinceTeardown (entries : List Entry) : List Entry :=
  entries.rtakeWhile (!·.isTeardown)

/-- The bytes of all records completed since the last teardown. -/
def stream (entries : List Entry) : Bytes :=
  ((sinceTeardown entries).flatMap Entry.completed).flatMap Record.bytes

/-- The number of bytes in the records pushed out since the last teardown. -/
def lost (entries : List Entry) : Nat :=
  totalLength ((sinceTeardown entries).flatMap Entry.evicted)

theorem sinceTeardown_append {earlier later : List Entry}
    (h : ∀ e ∈ later, e.isTeardown = false) :
    sinceTeardown (earlier ++ later) = sinceTeardown earlier ++ later := by
  induction later using List.reverseRecOn with
  | nil => simp
  | append_singleton later e ih =>
    have hlater := ih fun e he => h e (List.mem_append_left _ he)
    have he := h e (by simp)
    rw [← List.append_assoc, sinceTeardown, List.rtakeWhile_concat_pos _ _ _ (by simp [he]),
      ← sinceTeardown, hlater, List.append_assoc]

theorem sinceTeardown_concat_teardown (earlier : List Entry) {e : Entry}
    (h : e.isTeardown = true) : sinceTeardown (earlier ++ [e]) = [] :=
  List.rtakeWhile_concat_neg _ _ _ (by simp [h])

theorem stream_append {earlier later : List Entry} (h : ∀ e ∈ later, e.isTeardown = false) :
    stream (earlier ++ later) =
      stream earlier ++ (later.flatMap Entry.completed).flatMap Record.bytes := by
  rw [stream, sinceTeardown_append h, List.flatMap_append, List.flatMap_append, stream]

theorem lost_append {earlier later : List Entry} (h : ∀ e ∈ later, e.isTeardown = false) :
    lost (earlier ++ later) = lost earlier + totalLength (later.flatMap Entry.evicted) := by
  rw [lost, sinceTeardown_append h, List.flatMap_append, Record.totalLength_append, lost]

/-! ### What is retained -/

variable {d last : Desk} {entries : List Entry}

/-- The records pushed out and those retained are the records completed, in the same order. -/
theorem evicted_append_toList (hruns : d.Runs entries last) (hs : d.history.Sound)
    (hempty : d.history.log.toList = []) :
    (sinceTeardown entries).flatMap Entry.evicted ++ last.history.log.toList =
      (sinceTeardown entries).flatMap Entry.completed := by
  refine (hruns.invariant (motive := fun entries h =>
    (sinceTeardown entries).flatMap Entry.evicted ++ h.log.toList =
      (sinceTeardown entries).flatMap Entry.completed) hs hempty ?_).2
  intro earlier e next hearlier heffect
  obtain hteardown | hteardown := Bool.eq_false_or_eq_true e.isTeardown
  · rw [sinceTeardown_concat_teardown earlier hteardown, heffect.toList_of_teardown hteardown]
    rfl
  · rw [sinceTeardown_append (by simpa using hteardown), List.flatMap_append, List.append_assoc,
      List.flatMap_singleton, heffect.evicted_append_toList hteardown, ← List.append_assoc,
      hearlier, List.flatMap_append, List.flatMap_singleton]

theorem stream_eq (hruns : d.Runs entries last) (hs : d.history.Sound)
    (hempty : d.history.log.toList = []) :
    (stream entries).drop (lost entries) = last.history.log.toList.flatMap Record.bytes ∧
      (stream entries).length = lost entries + totalLength last.history.log.toList := by
  rw [stream, lost, ← evicted_append_toList hruns hs hempty, List.flatMap_append]
  constructor
  · rw [← Record.length_flatMap_bytes]
    exact List.drop_left
  · simp only [List.length_append, Record.length_flatMap_bytes]

end Journal

namespace Reading

theorem follows_piece {stream : Bytes} {lost : Nat} {live : List Record}
    (hdrop : stream.drop lost = live.flatMap Record.bytes)
    (hlength : stream.length = lost + totalLength live) (position room : Nat) :
    Follows ⟨position, room, Log.piece live position room⟩ stream lost where
  data_eq := by
    rw [← List.drop_drop, hdrop]
    exact Log.piece_eq_take live position room
  length_le := (Log.length_piece_le live position room).1
  nil_iff := by
    rw [Log.piece_eq_nil_iff, hlength, Nat.add_le_add_iff_left]

/-- A stream that has grown since still has the data where it was. -/
theorem Follows.append_drop {r : Reading} {stream : Bytes} {lost : Nat}
    (h : r.Follows stream lost) (more : Bytes) :
    r.data ++ (stream ++ more).drop (lost + r.position + r.data.length) =
      (stream ++ more).drop (lost + r.position) := by
  by_cases hnil : r.data = []
  · simp [hnil]
  · have hstart : lost + r.position ≤ stream.length :=
      Nat.le_of_not_le fun hend => hnil (h.nil_iff.2 (.inr hend))
    obtain ⟨rest, hrest⟩ : r.data <+: stream.drop (lost + r.position) := by
      rw [h.data_eq]
      exact List.take_prefix _ _
    rw [← List.drop_drop, List.drop_append_of_le_length hstart, ← hrest, List.append_assoc,
      List.drop_left]

end Reading

/-! ### The reads of a run -/

theorem History.take_readInto {h next : History} (hs : h.Sound) {position count after : Nat}
    {buffer filled : Bytes}
    (hread : h.readInto position buffer = .ok (.ok count, filled, after, next)) :
    filled.take count = Log.piece h.log.toList position buffer.length ∧
      after = position + (filled.take count).length := by
  obtain ⟨hfailed, -⟩ | ⟨data, hdata, hcount, rfl, rfl, -⟩ := readInto_eq_ok hs hread
  · cases hfailed
  · obtain rfl := Except.ok.inj hcount
    rw [Bytes.overlay, List.take_left]
    exact ⟨hdata, rfl⟩

namespace Desk

/-- A read that returned delivered a piece of what is retained, and moved the cursor that it went
through to the end of the piece. -/
theorem perform_reading {d next : Desk} {call : Call} {reply : Reply} {r : Reading}
    (hs : d.history.Sound) (h : d.perform call = .ok (reply, next))
    (hr : Entry.reading? ⟨d, call, reply⟩ = some r) :
    r.data = Log.piece d.history.log.toList r.position r.room ∧
      ∀ reader, call.reader? = some reader →
        d.cursors[reader]? = some ⟨r.position⟩ ∧
        next.cursors[reader]? = some ⟨r.position + r.data.length⟩ := by
  unfold Entry.reading? at hr
  split at hr
  next position buffer count filled hcall hreply =>
    obtain rfl : call = _ := hcall
    obtain rfl : reply = _ := hreply
    obtain ⟨⟨result, laid, after, history⟩, hread, hout⟩ := Checked.bind_eq_ok.1 h
    cases hout
    cases hr
    exact ⟨(History.take_readInto hs hread).1, nofun⟩
  next reader buffer count filled hcall hreply =>
    obtain rfl : call = _ := hcall
    obtain rfl : reply = _ := hreply
    obtain ⟨-, hreply, -⟩ | ⟨c, last, after, hc, hserve, rfl⟩ := through_eq_ok h
    · cases hreply
    · obtain ⟨⟨result, laid, moved, history⟩, hread, hout⟩ := Checked.bind_eq_ok.1 hserve
      obtain ⟨⟨found, laid', position, history'⟩, hfound, hmoved⟩ := Checked.bind_eq_ok.1 hread
      cases hmoved
      cases found with
      | error e => cases hout
      | ok n =>
        cases hout
        obtain rfl : ⟨c.position, buffer.length, filled.take count⟩ = r := by
          simpa [Entry.cursor?, Call.reader?, hc] using hr
        obtain ⟨hdata, rfl⟩ := History.take_readInto hs hfound
        refine ⟨hdata, ?_⟩
        rintro _ ⟨⟩
        exact ⟨hc, List.getElem?_set_self (List.getElem?_eq_some_iff.1 hc).1⟩
  next => cases hr

/-- A cursor stays where it is while the reads through it return nothing. -/
theorem Runs.cursor_kept {d last : Desk} {entries : List Entry} (hruns : d.Runs entries last)
    (hs : d.history.Sound) {reader : Nat} {c : Cursor} (hc : d.cursors[reader]? = some c)
    (hidle : ∀ e ∈ entries, e.call.reader? = some reader →
      ∃ r, e.reading? = some r ∧ r.data = []) :
    last.cursors[reader]? = some c := by
  induction hruns with
  | nil => exact hc
  | @cons d mid last call reply entries hcall hrest ih =>
    rw [List.forall_mem_cons] at hidle
    refine ih (perform_effect hs hcall).1 ?_ hidle.2
    by_cases hreader : call.reader? = some reader
    · obtain ⟨r, hr, hnil⟩ := hidle.1 hreader
      obtain ⟨hbefore, hafter⟩ := (perform_reading hs hcall hr).2 reader hreader
      rw [hnil, List.length_nil, Nat.add_zero] at hafter
      rw [hafter, ← hbefore, hc]
    · exact perform_cursors hcall hreader hc

end Desk

namespace Entry

/-- A read completes nothing, pushes nothing out and gives nothing back. -/
theorem quiet_of_reading {e : Entry} {r : Reading} (hr : e.reading? = some r) :
    e.outcome? = none ∧ e.isTeardown = false := by
  unfold reading? at hr
  split at hr
  next hreply => simp [outcome?, isTeardown, released?, hreply]
  next hreply => simp [outcome?, isTeardown, released?, hreply]
  next => cases hr

end Entry

namespace Journal

variable {d last : Desk} {earlier between later : List Entry} {e e' : Entry} {r r' : Reading}

theorem reading_follows (hruns : d.Runs (earlier ++ e :: later) last) (hs : d.history.Sound)
    (hempty : d.history.log.toList = []) (hr : e.reading? = some r) :
    r.Follows (stream earlier) (lost earlier) := by
  obtain ⟨next, hearlier, hcall, -⟩ := hruns.split
  obtain ⟨hdrop, hlength⟩ := stream_eq hearlier hs hempty
  have hpiece := (Desk.perform_reading (hearlier.sound hs) hcall hr).1
  have hfollows := Reading.follows_piece hdrop hlength r.position r.room
  rwa [← hpiece] at hfollows

/-- If a read starts where another one ended, the bytes between the two are as many as were pushed
out meanwhile. -/
theorem reading_resumes (hruns : d.Runs (earlier ++ e :: (between ++ e' :: later)) last)
    (hs : d.history.Sound) (hempty : d.history.log.toList = [])
    (hkept : ∀ b ∈ between, b.isTeardown = false) (hr : e.reading? = some r)
    (hr' : e'.reading? = some r') (hposition : r'.position = r.position + r.data.length)
    (hdata : r'.data ≠ []) :
    r'.data = ((stream (earlier ++ e :: between)).drop (lost earlier + r.position + r.data.length +
        totalLength (between.flatMap Entry.evicted))).take r'.data.length ∧
      ∃ skipped : Bytes, skipped.length = totalLength (between.flatMap Entry.evicted) ∧
        (r.data ++ skipped ++ r'.data) <+:
          (stream (earlier ++ e :: between)).drop (lost earlier + r.position) := by
  obtain ⟨houtcome, hteardown⟩ := Entry.quiet_of_reading hr
  have hquiet : ∀ b ∈ e :: between, b.isTeardown = false :=
    List.forall_mem_cons.2 ⟨hteardown, hkept⟩
  have hfirst := reading_follows hruns hs hempty hr
  have hgrown := hfirst.append_drop (((e :: between).flatMap Entry.completed).flatMap Record.bytes)
  rw [← stream_append hquiet] at hgrown
  rw [← List.cons_append, ← List.append_assoc] at hruns
  have hnext := reading_follows hruns hs hempty hr'
  have hlost : lost (earlier ++ e :: between) =
      lost earlier + totalLength (between.flatMap Entry.evicted) := by
    rw [lost_append hquiet, List.flatMap_cons, Entry.evicted_of_outcome houtcome, List.nil_append]
  -- What remains is about places in one stream.
  generalize stream (earlier ++ e :: between) = whole at hgrown hnext ⊢
  generalize totalLength (between.flatMap Entry.evicted) = count at hlost ⊢
  -- The second read starts where the first one ended and what was pushed out since.
  have hstart : lost (earlier ++ e :: between) + r'.position =
      lost earlier + r.position + r.data.length + count := by
    omega
  have hinside : lost earlier + r.position + r.data.length + count < whole.length := by
    rw [← hstart]
    exact Nat.lt_of_not_le fun hend => hdata (hnext.nil_iff.2 (.inr hend))
  have hfound := hnext.data_eq
  rw [hstart] at hfound
  have hprefix : r'.data <+: whole.drop (lost earlier + r.position + r.data.length + count) := by
    rw [hfound]
    exact List.take_prefix _ _
  refine ⟨hfound, (whole.drop (lost earlier + r.position + r.data.length)).take count, ?_, ?_⟩
  · rw [List.length_take, List.length_drop]
    omega
  · rw [← hgrown, List.append_assoc, List.prefix_append_right_inj]
    conv_rhs => rw [← List.take_append_drop count (whole.drop _)]
    rwa [List.prefix_append_right_inj, List.drop_drop]

/-- A cursor that read nothing meanwhile reads on where it ended. -/
theorem reading_position (hruns : d.Runs (earlier ++ e :: (between ++ e' :: later)) last)
    (hs : d.history.Sound) {reader : Nat} (hreader : e.call.reader? = some reader)
    (hreader' : e'.call.reader? = some reader) (hr : e.reading? = some r)
    (hr' : e'.reading? = some r')
    (hidle : ∀ b ∈ between, b.call.reader? = some reader →
      ∃ idle, b.reading? = some idle ∧ idle.data = []) :
    r'.position = r.position + r.data.length := by
  obtain ⟨next, hearlier, hcall, hrest⟩ := hruns.split
  obtain ⟨last', hbetween, hcall', -⟩ := hrest.split
  have hbefore := hearlier.sound hs
  have hnext := (Desk.perform_effect hbefore hcall).1
  have hmoved := ((Desk.perform_reading hbefore hcall hr).2 reader hreader).2
  have hkept := hbetween.cursor_kept hnext hmoved hidle
  have hfound := ((Desk.perform_reading (hbetween.sound hnext) hcall' hr').2 reader hreader').1
  rw [hfound] at hkept
  simpa using hkept

/-- In every state that a run can reach, what is retained is the stream but for what is lost of it,
and a read at any position returns the bytes that stand there. Hence, if a read that is not empty
starts where an earlier one of the same run ended, with no teardown between them, the stream has
both of them in their order, and just the bytes that were pushed out meanwhile are skipped. A
cursor that read nothing meanwhile does start there. -/
theorem reads_follow_stream {s : Settings} {h : History} {entries : List Entry} {d : Desk}
    (hnew : History.create s = .ok (.ok h)) (hruns : (Desk.ofHistory h).Runs entries d) :
    (d.history.poisoned = false →
      d.history.contents none = .ok (.ok ((stream entries).drop (lost entries))) ∧
      ∀ (position : UInt64) (buffer : Bytes), ∃ (data : Bytes) (next : History),
        d.history.readInto position.toNat buffer =
          .ok (.ok data.length, buffer.overlay data, position.toNat + data.length, next) ∧
        Reading.Follows ⟨position.toNat, buffer.length, data⟩ (stream entries) (lost entries)) ∧
    (∀ (earlier between later : List Entry) (e e' : Entry) (r r' : Reading),
      entries = earlier ++ e :: (between ++ e' :: later) →
      e.reading? = some r → e'.reading? = some r' →
      r.Follows (stream earlier) (lost earlier) ∧
      ((∀ b ∈ between, b.isTeardown = false) → r'.position = r.position + r.data.length →
        r'.data ≠ [] →
        r'.data = ((stream (earlier ++ e :: between)).drop (lost earlier + r.position +
            r.data.length + totalLength (between.flatMap Entry.evicted))).take r'.data.length ∧
        ∃ skipped : Bytes, skipped.length = totalLength (between.flatMap Entry.evicted) ∧
          (r.data ++ skipped ++ r'.data) <+:
            (stream (earlier ++ e :: between)).drop (lost earlier + r.position)) ∧
      ∀ reader, e.call.reader? = some reader → e'.call.reader? = some reader →
        (∀ b ∈ between, b.call.reader? = some reader →
          ∃ idle, b.reading? = some idle ∧ idle.data = []) →
        r'.position = r.position + r.data.length) := by
  obtain ⟨hs, hempty⟩ := History.create_sound hnew
  constructor
  · intro halive
    obtain ⟨hdrop, hlength⟩ := stream_eq hruns hs hempty
    have hlast := hruns.sound hs
    constructor
    · rw [History.contents, History.inspect_of_alive halive, hlast.holds.contents_eq,
        Allowance.refused?_none, hdrop]
    · intro position buffer
      have hword : position.toNat < wordCount := position.toNat_lt
      have hread := History.readInto_eq hlast halive position.toNat buffer
      rw [if_pos hword] at hread
      exact ⟨_, _, hread, Reading.follows_piece hdrop hlength _ _⟩
  · rintro earlier between later e e' r r' rfl hr hr'
    exact ⟨reading_follows hruns hs hempty hr,
      fun hkept hposition hdata => reading_resumes hruns hs hempty hkept hr hr' hposition hdata,
      fun reader hreader hreader' => reading_position hruns hs hreader hreader' hr hr'⟩

/-- A reader has two of the three bytes of a line when a write pushes this line and the next one
out. Its next read goes on six bytes further on, in the second of the new lines. -/
theorem reads_follow_stream_overtaken :
    History.create ⟨2, 10, .split⟩ = .ok (.ok (.ofLog ⟨2, 10, .split⟩ (Log.vacant 2))) ∧
    ∃ (e₁ e₂ e₃ e₄ e₅ : Entry) (d : Desk),
      (Desk.ofHistory (.ofLog ⟨2, 10, .split⟩ (Log.vacant 2))).Runs [e₁, e₂, e₃, e₄, e₅] d ∧
      e₂.call = .write none [97, 98, 10, 99, 100, 10] ∧ e₄.call = .write none [101, 10, 102, 10] ∧
      e₃.reading? = some ⟨0, 2, [97, 98]⟩ ∧ e₅.reading? = some ⟨2, 4, [102, 10]⟩ ∧
      [102, 10] = ((stream [e₁, e₂, e₃, e₄]).drop 8).take 2 := by
  have hnew : History.create ⟨2, 10, .split⟩ =
      .ok (.ok (.ofLog ⟨2, 10, .split⟩ (Log.vacant 2))) := rfl
  obtain ⟨b₂, b₃, b₄, b₅, d, hruns, hfirst, hnext, hkept, hcount⟩ : ∃ b₂ b₃ b₄ b₅ d,
      (Desk.ofHistory (.ofLog ⟨2, 10, .split⟩ (Log.vacant 2))).Runs
        ([⟨Desk.ofHistory (.ofLog ⟨2, 10, .split⟩ (Log.vacant 2)), .openCursor, .opened 0⟩,
          ⟨b₂, .write none [97, 98, 10, 99, 100, 10], .written (.ok ⟨6, 2, 0⟩)⟩] ++
        ⟨b₃, .read 0 [0, 0], .read (.ok 2) [97, 98]⟩ ::
        ([⟨b₄, .write none [101, 10, 102, 10], .written (.ok ⟨4, 2, 2⟩)⟩] ++
        ⟨b₅, .read 0 [0, 0, 0, 0], .read (.ok 2) [102, 10, 0, 0]⟩ :: [])) d ∧
      Entry.reading? ⟨b₃, .read 0 [0, 0], .read (.ok 2) [97, 98]⟩ = some ⟨0, 2, [97, 98]⟩ ∧
      Entry.reading? ⟨b₅, .read 0 [0, 0, 0, 0], .read (.ok 2) [102, 10, 0, 0]⟩ =
        some ⟨2, 4, [102, 10]⟩ ∧
      lost [⟨Desk.ofHistory (.ofLog ⟨2, 10, .split⟩ (Log.vacant 2)), .openCursor, .opened 0⟩,
        ⟨b₂, .write none [97, 98, 10, 99, 100, 10], .written (.ok ⟨6, 2, 0⟩)⟩] = 0 ∧
      totalLength (List.flatMap Entry.evicted
        [⟨b₄, .write none [101, 10, 102, 10], .written (.ok ⟨4, 2, 2⟩)⟩]) = 6 :=
    ⟨_, _, _, _, _, .cons rfl (.cons rfl (.cons rfl (.cons rfl (.cons rfl (.nil _))))),
      rfl, rfl, rfl, rfl⟩
  obtain ⟨-, hpairs⟩ := reads_follow_stream hnew hruns
  obtain ⟨-, hresumes, hposition⟩ := hpairs _ _ _ _ _ _ _ rfl hfirst hnext
  obtain ⟨hdata, -⟩ := hresumes (by simp [Entry.isTeardown, Entry.released?])
    (hposition 0 rfl rfl (by simp [Call.reader?])) (by simp)
  rw [hkept, hcount] at hdata
  exact ⟨hnew, _, _, _, _, _, d, hruns, rfl, rfl, hfirst, hnext, hdata⟩

end Journal

end Scrollback
