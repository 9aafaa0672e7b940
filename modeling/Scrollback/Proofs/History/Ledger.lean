import Scrollback.Proofs.History.Journal
/-!
# The ledger

The counters of a history are kept in three places: the assembler counts what it took in, the ring
the bytes it holds, and the metrics both of these and the reads. `Journal.tally` counts the same
from the entries of a run alone. `Journal.metrics_balance` says that the metrics are this tally,
that the assembler agrees with them, and that neither a record nor a byte is lost on the way: each
one written is retained, pending, or left through one of the ways out.
-/

namespace Scrollback

open Record (totalLength)

namespace Journal

/-- What the writers were told whose fragments were taken in. -/
def outcomes (entries : List Entry) : List WriteOutcome :=
  entries.filterMap Entry.outcome?

/-- The records that teardowns gave back. -/
def released (entries : List Entry) : List Record :=
  (entries.filterMap Entry.released?).flatten

/-- The numbers of pending bytes that discards and teardowns dropped. -/
def dropped (entries : List Entry) : List Nat :=
  entries.filterMap Entry.dropped?

def transfers (entries : List Entry) : List Transfer :=
  entries.flatMap Entry.transfers

/-- The counters as the entries of a run tell them. -/
def tally (entries : List Entry) : Metrics where
  fragmentsWritten := (outcomes entries).length
  bytesWritten := ((outcomes entries).map WriteOutcome.accepted).sum
  allocFailures := entries.countP Entry.isRefusal
  recordsCompleted := ((outcomes entries).map WriteOutcome.completed).sum
  partialsDiscarded := (dropped entries).countP (0 < ·)
  recordsEvicted := ((outcomes entries).map WriteOutcome.evicted).sum
  bytesEvicted := totalLength (entries.flatMap Entry.evicted)
  reads := (transfers entries).length
  bytesRead := ((transfers entries).map Transfer.count).sum
  readsAtEnd := (transfers entries).countP Transfer.isAtEnd
  elapsed := none

/-- The books of a history agree with each other and with the entries of the run that led to it. -/
structure Balanced (entries : List Entry) (h : History) : Prop where
  metrics_eq : h.metrics = tally entries
  assembler_bytes : h.assembler.bytesAppended = h.metrics.bytesWritten
  assembler_records : h.assembler.recordsCompleted = h.metrics.recordsCompleted
  /-- Each record completed was pushed out, is retained, or was given back. -/
  records : h.metrics.recordsCompleted =
    h.metrics.recordsEvicted + h.log.toList.length + (released entries).length
  /-- Each byte written is in one of these records, is pending, or was dropped. -/
  bytes : h.metrics.bytesWritten =
    h.metrics.bytesEvicted + totalLength h.log.toList + h.assembler.pending.length +
      totalLength (released entries) + (dropped entries).sum

/-! ### One entry more -/

variable {entries : List Entry} {e : Entry}

@[simp] theorem outcomes_concat :
    outcomes (entries ++ [e]) = outcomes entries ++ e.outcome?.toList := by
  cases h : e.outcome? <;> simp [outcomes, h]

@[simp] theorem released_concat :
    released (entries ++ [e]) = released entries ++ e.released?.getD [] := by
  cases h : e.released? <;> simp [released, h]

@[simp] theorem dropped_concat :
    dropped (entries ++ [e]) = dropped entries ++ e.dropped?.toList := by
  cases h : e.dropped? <;> simp [dropped, h]

@[simp] theorem transfers_concat :
    transfers (entries ++ [e]) = transfers entries ++ e.transfers := by
  simp [transfers]

theorem countDiscard_eq (m : Metrics) (count : Nat) :
    History.countDiscard m count =
      { m with partialsDiscarded := m.partialsDiscarded + [count].countP (0 < ·) } := by
  unfold History.countDiscard
  split <;> simp_all [Nat.pos_iff_ne_zero]

theorem metrics_effect {next : History} (hmetrics : e.history.metrics = tally entries)
    (heffect : e.Effect next) : next.metrics = tally (entries ++ [e]) := by
  cases heffect with
  | looked _ houtcome hrefusal hreleased hdropped hnext =>
    rw [hnext]
    simp [History.counting, hmetrics, tally, houtcome, hrefusal, hdropped,
      Entry.evicted_of_outcome houtcome]
  | refused _ hreply hnext =>
    have houtcome : e.outcome? = none := by rw [Entry.outcome?, hreply]
    rw [hnext]
    simp [History.countRefusal, hmetrics, tally, houtcome, Entry.evicted_of_outcome houtcome,
      Entry.isRefusal, Entry.dropped?, Entry.transfers, hreply]
  | wrote fragment log hcompleted hreply hkept hnext =>
    rw [hnext]
    simp [History.countWrite, hmetrics, tally, Entry.outcome?, Entry.isRefusal, Entry.dropped?,
      Entry.transfers, hreply]
  | discarded hreply hnext =>
    have houtcome : e.outcome? = none := by rw [Entry.outcome?, hreply]
    rw [hnext]
    simp [countDiscard_eq, hmetrics, tally, houtcome, Entry.evicted_of_outcome houtcome,
      Entry.isRefusal, Entry.dropped?, Entry.transfers, hreply]
  | released log hreply hempty hnext =>
    have houtcome : e.outcome? = none := by rw [Entry.outcome?, hreply]
    rw [hnext]
    simp [countDiscard_eq, hmetrics, tally, houtcome, Entry.evicted_of_outcome houtcome,
      Entry.isRefusal, Entry.dropped?, Entry.transfers, hreply]

/-- The books stay balanced under each effect of a call. -/
theorem Balanced.effect {next : History} (h : Balanced entries e.history)
    (heffect : e.Effect next) : Balanced (entries ++ [e]) next := by
  have hmetrics := metrics_effect h.metrics_eq heffect
  obtain ⟨-, hbytes, hrecords, hkept, hconserved⟩ := h
  cases heffect with
  | looked _ houtcome hrefusal hreleased hdropped hnext =>
    subst hnext
    refine ⟨hmetrics, hbytes, hrecords, ?_, ?_⟩
    · simpa [History.counting, hreleased] using hkept
    · simpa [History.counting, hreleased, hdropped] using hconserved
  | refused _ hreply hnext =>
    subst hnext
    refine ⟨hmetrics, hbytes, hrecords, ?_, ?_⟩
    · simpa [History.countRefusal, Entry.released?, hreply] using hkept
    · simpa [History.countRefusal, Entry.released?, Entry.dropped?, hreply] using hconserved
  | wrote fragment log hcompleted hreply hparts hnext =>
    subst hnext
    have hreleased : released (entries ++ [e]) = released entries := by
      simp [Entry.released?, hreply]
    have hdropped : dropped (entries ++ [e]) = dropped entries := by
      simp [Entry.dropped?, hreply]
    -- The bytes that are framed come from the pending ones and the fragment, and each record framed
    -- is in the ring or has pushed another one out.
    have hlength := congrArg List.length hparts
    have htotal := congrArg totalLength hparts
    have hframed := congrArg List.length (e.history.assembler.accept_bytes fragment)
    simp only [List.length_append, Record.totalLength_append, Record.length_flatMap_bytes,
      ← Pending.length_eq, ← hcompleted] at hlength htotal hframed
    refine ⟨hmetrics, ?_, ?_, ?_, ?_⟩
    · simp [History.countWrite, hbytes]
    · simp [History.countWrite, hrecords, hcompleted]
    · simp only [History.countWrite, hreleased]
      omega
    · simp only [History.countWrite, hreleased, hdropped]
      omega
  | discarded hreply hnext =>
    subst hnext
    have hreleased : released (entries ++ [e]) = released entries := by
      simp [Entry.released?, hreply]
    have hdropped : (dropped (entries ++ [e])).sum =
        (dropped entries).sum + e.history.assembler.pending.length := by
      simp [Entry.dropped?, hreply]
    refine ⟨hmetrics, ?_, ?_, ?_, ?_⟩ <;>
      simp only [countDiscard_eq, Assembler.discard, Pending.empty, hreleased, hdropped] <;> omega
  | released log hreply hempty hnext =>
    subst hnext
    have hreleased : released (entries ++ [e]) = released entries ++ e.history.log.toList := by
      simp [Entry.released?, hreply]
    have hdropped : (dropped (entries ++ [e])).sum =
        (dropped entries).sum + e.history.assembler.pending.length := by
      simp [Entry.dropped?, hreply]
    refine ⟨hmetrics, ?_, ?_, ?_, ?_⟩ <;>
      simp only [countDiscard_eq, Assembler.discard, Pending.empty, hempty, hreleased, hdropped,
        List.length_append, List.length_nil, Record.totalLength_append, Record.totalLength_nil] <;>
      omega

/-- A new history has nothing in its books. -/
theorem Balanced.of_create {s : Settings} {h : History} (hnew : History.create s = .ok (.ok h)) :
    Balanced [] h := by
  obtain ⟨-, hempty⟩ := History.create_sound hnew
  obtain ⟨-, -, rfl⟩ := History.create_eq_ok hnew
  exact ⟨rfl, rfl, rfl, by rw [hempty]; rfl, by rw [hempty]; rfl⟩

/-- Whatever is asked of a new history, refused, failing and dead calls included, its books are
balanced after it. The records and bytes in them are those that the ring itself tells. -/
theorem metrics_balance {s : Settings} {h : History} {entries : List Entry} {d : Desk}
    (hnew : History.create s = .ok (.ok h)) (hruns : (Desk.ofHistory h).Runs entries d) :
    Balanced entries d.history ∧
      d.history.log.records = .ok d.history.log.toList ∧
      d.history.log.length = .ok d.history.log.toList.length ∧
      d.history.log.liveBytes = totalLength d.history.log.toList := by
  obtain ⟨hs, hbalanced⟩ := hruns.invariant (History.create_sound hnew).1 (Balanced.of_create hnew)
    fun hearlier heffect => hearlier.effect heffect
  exact ⟨hbalanced, hs.holds.records_eq, hs.holds.length_eq, hs.holds.liveBytes_eq⟩

/-- Two records go through a ring with one slot, and the third is given back. A refused write
counts as a refusal only, a read behind the data as one at the end, and of two discards the one
that found a byte. -/
theorem metrics_balance_emptied :
    History.create ⟨1, 10, .split⟩ = .ok (.ok (.ofLog ⟨1, 10, .split⟩ (Log.vacant 1))) ∧
    ∃ (entries : List Entry) (d : Desk),
      (Desk.ofHistory (.ofLog ⟨1, 10, .split⟩ (Log.vacant 1))).Runs entries d ∧
      entries.map Entry.call = [.write none [97, 10, 98], .write none [99, 10, 100, 10, 101],
        .write (some 0) [10], .readAt 0 [0], .readAt 2 [0], .discard, .discard, .teardown] ∧
      entries.map Entry.reply = [.written (.ok ⟨3, 1, 0⟩), .written (.ok ⟨5, 2, 2⟩),
        .written (.error (.alloc 1)), .copied (.ok 1) [100], .copied (.ok 0) [0],
        .discarded (.ok 1), .discarded (.ok 0), .released (.ok [.ofBytes [100, 10]])] ∧
      Balanced entries d.history ∧
      d.history.metrics = ⟨2, 8, 1, 3, 1, 2, 5, 2, 1, 1, none⟩ := by
  have hnew : History.create ⟨1, 10, .split⟩ =
      .ok (.ok (.ofLog ⟨1, 10, .split⟩ (Log.vacant 1))) := rfl
  obtain ⟨d, hrun, hmetrics⟩ : ∃ d,
      (Desk.ofHistory (.ofLog ⟨1, 10, .split⟩ (Log.vacant 1))).performAll
          [.write none [97, 10, 98], .write none [99, 10, 100, 10, 101], .write (some 0) [10],
            .readAt 0 [0], .readAt 2 [0], .discard, .discard, .teardown] =
        .ok ([.written (.ok ⟨3, 1, 0⟩), .written (.ok ⟨5, 2, 2⟩), .written (.error (.alloc 1)),
          .copied (.ok 1) [100], .copied (.ok 0) [0], .discarded (.ok 1), .discarded (.ok 0),
          .released (.ok [.ofBytes [100, 10]])], d) ∧
      d.history.metrics = ⟨2, 8, 1, 3, 1, 2, 5, 2, 1, 1, none⟩ :=
    ⟨_, rfl, rfl⟩
  obtain ⟨entries, hruns, hcalls, hreplies⟩ := Desk.performAll_eq_ok_iff.1 hrun
  exact ⟨hnew, entries, d, hruns, hcalls, hreplies, (metrics_balance hnew hruns).1, hmetrics⟩

end Journal

end Scrollback
