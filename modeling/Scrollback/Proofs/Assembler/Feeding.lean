import Scrollback.Assembler
import Scrollback.Checked
/-!
# Feeding is all or nothing

`Assembler.feed` asks for memory in up to five places, one of them a loop, while it works on the
assembler. `Assembler.feed_eq` is what all of it comes to: the first demand that is refused ends the
call and the assembler is as it was, else the fragment is accepted.
-/

namespace Scrollback

namespace Allowance

@[simp] theorem refused?_none (demands : List Demand) : refused? none demands = none := by
  simp [refused?, grants]

end Allowance

namespace Assembler

/-! ### Requests -/

@[simp] theorem request_nil (allowance : Allowance) : request allowance [] = .ok () := rfl

@[simp] theorem request_none (demands : List Demand) : request none demands = .ok () := by
  simp [request]

theorem request_append (allowance : Allowance) (first next : List Demand) :
    request allowance (first ++ next) = (do
      request allowance first
      request allowance next) := by
  unfold request Allowance.refused?
  rw [List.find?_append]
  cases first.find? fun demand => !allowance.grants demand.size <;> rfl

/-- A request can only fail for want of memory. -/
theorem request_eq_error {allowance : Allowance} {demands : List Demand} {e : HistoryError}
    (h : request allowance demands = .error e) : ∃ n, e = .alloc n := by
  unfold request at h
  split at h
  · exact ⟨_, (Except.error.inj h).symm⟩
  · cases h

theorem copyOf_eq (allowance : Allowance) (bytes : Bytes) :
    Record.copyOf allowance bytes = (do
      request allowance (Record.copyDemands bytes)
      return .ofBytes bytes) := by
  unfold Record.copyOf request
  cases allowance.refused? (Record.copyDemands bytes) <;> rfl

/-! ### Stages -/

theorem copyLines_eq (allowance : Allowance) (held : Nat) (copies : List Record)
    (lines : List Bytes) :
    copyLines allowance held copies lines = (do
      request allowance ((lines.zipIdx held).flatMap fun (line, held) =>
        tableDemands held ++ Record.copyDemands line)
      return copies.reverse ++ lines.map .ofBytes) := by
  induction lines generalizing held copies with
  | nil => simp [copyLines]
  | cons line lines ih =>
    rw [copyLines, List.zipIdx_cons, List.flatMap_cons, request_append, request_append, copyOf_eq]
    cases request allowance (tableDemands held) with
    | error e => rfl
    | ok _ =>
      cases request allowance (Record.copyDemands line) with
      | error e => rfl
      | ok _ => simp [ih]

theorem prepare_eq (allowance : Allowance) (tail : List Bytes) (rest : Bytes) :
    prepare allowance tail rest = (do
      request allowance (lineDemands tail ++ nextDemands rest ++ listDemands (tail.length + 1))
      return tail.map .ofBytes) := by
  rw [prepare, copyLines_eq, request_append, request_append, lineDemands]
  cases request allowance (tail.zipIdx.flatMap fun (line, held) =>
      tableDemands held ++ Record.copyDemands line) with
  | error e => rfl
  | ok _ =>
    cases request allowance (nextDemands rest) with
    | error e => rfl
    | ok _ =>
      simp only [Checked.ok_bind, Checked.pure_eq_ok, List.reverse_nil, List.nil_append,
        List.length_map]

/-- To reserve room changes nothing but the room, and that only if memory was granted. -/
theorem reserve_eq (a : Assembler) (allowance : Allowance) (more size : Nat) :
    a.reserve allowance more size =
      match request allowance (if a.mustGrow more then [⟨size, more⟩] else []) with
      | .error e => (.error e, a)
      | .ok () => (.ok (), { a with room := if a.mustGrow more then size else a.room }) := by
  unfold reserve
  split
  · rfl
  · simp

/-! ### The whole -/

/-- A fragment is accepted if all the memory it needs is granted, and otherwise changes nothing. -/
theorem feed_eq (a : Assembler) (allowance : Allowance) (fragment : Bytes) :
    a.feed allowance fragment =
      match request allowance (a.demands fragment) with
      | .error e => (.error e, a)
      | .ok () => (.ok (a.accept fragment).1, (a.accept fragment).2) := by
  -- One case for each way through `feed`, each with its requests before its first change.
  unfold feed demands accept
  split
  next hcut =>
    rw [extend, reserve_eq, extendDemands]
    cases request allowance
      (if a.mustGrow fragment.length then [⟨a.grownRoom fragment.length, fragment.length⟩] else [])
    <;> rfl
  next head tail rest hcut hpolicy =>
    rw [splitAll, prepare_eq, request_append _ _ (a.finishDemands head)]
    cases request allowance
        (lineDemands tail ++ nextDemands rest ++ listDemands (tail.length + 1)) with
    | error e => rfl
    | ok _ =>
      simp only [Checked.ok_bind, Checked.pure_eq_ok, reserve_eq, finishDemands]
      cases request allowance (if a.mustGrow head.length then
          [⟨a.pending.length + head.length, head.length⟩] else []) with
      | error e => rfl
      | ok _ => simp [complete]
  next head tail rest hcut hpolicy =>
    rw [foldIntoOne, request_append]
    cases request allowance (listDemands 1) with
    | error e => rfl
    | ok _ =>
      simp only [Checked.ok_bind, reserve_eq, finishDemands]
      cases request allowance (if a.mustGrow fragment.length then
          [⟨a.pending.length + fragment.length, fragment.length⟩] else []) with
      | error e => rfl
      | ok _ => simp [complete]

end Assembler

end Scrollback
