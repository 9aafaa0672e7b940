import Scrollback.Proofs.Log.Changes
/-!
# Records retained one after the other

To retain records is to insert each of them and to count what the log gives up. `Log.evictions` are
the records given up themselves. Whenever a log retains some records, these and what it holds after
are what it held before and the new records, in the same order (`Holds.retain_eq_ok`).
-/

namespace Scrollback

namespace Log

open Record (totalLength)

/-- The records that a log gives up if it retains some records. -/
def evictions (l : Log) (records : List Record) : List Record :=
  match l.applyAll (records.map .insert) with
  | .ok (yields, _) => handedBack yields
  | .error _ => []

theorem retain_eq_applyAll (l : Log) (evicted evictedBytes : Nat) (records : List Record) :
    l.retain evicted evictedBytes records = (do
      let (yields, next) ← l.applyAll (records.map .insert)
      return (next, evicted + (handedBack yields).length,
        evictedBytes + totalLength (handedBack yields))) := by
  induction records generalizing l evicted evictedBytes with
  | nil => rfl
  | cons r records ih =>
    rw [List.map_cons, applyAll, apply, retain]
    cases l.insert r with
    | error e => rfl
    | ok out =>
      obtain ⟨given, next⟩ := out
      simp only [Checked.ok_bind, Checked.pure_eq_ok]
      cases given with
      | none =>
        simp only [ih]
        cases next.applyAll (records.map .insert) <;> rfl
      | some e =>
        simp only [ih]
        cases next.applyAll (records.map .insert) with
        | error e => rfl
        | ok rest =>
          simp only [Checked.ok_bind, Checked.pure_eq_ok, handedBack, List.flatMap_cons,
            Yield.records, Option.toList_some, List.map_cons, List.map_nil, List.length_append,
            List.length_cons, List.length_nil, Record.totalLength_append, Record.totalLength_cons,
            Record.totalLength_nil]
          congr 3 <;> omega

namespace Holds

variable {l : Log} {queue : List Record}

/-- After insertions the log holds the newest records, and it gave up the others. -/
theorem applyAll_inserts (h : l.Holds queue) (hfits : totalLength queue < wordCount)
    {records : List Record} {yields : List Yield} {next : Log}
    (hrun : l.applyAll (records.map .insert) = .ok (yields, next)) :
    next.Holds ((queue ++ records).rtake l.capacity) ∧ next.capacity = l.capacity ∧
      totalLength ((queue ++ records).rtake l.capacity) < wordCount ∧
      handedBack yields ++ (queue ++ records).rtake l.capacity = queue ++ records := by
  induction records generalizing l queue yields with
  | nil =>
    cases hrun
    rw [List.append_nil, rtake_of_length_le h.length_le]
    exact ⟨h, rfl, hfits, rfl⟩
  | cons r records ih =>
    obtain ⟨yield, mid, hmid, hcap, hkept, happly⟩ := h.apply_eq (.insert r)
    rw [List.map_cons, applyAll] at hrun
    obtain ⟨⟨first, after⟩, hfirst, hrun⟩ := Checked.bind_eq_ok.1 hrun
    obtain ⟨⟨rest, last⟩, hrest, hout⟩ := Checked.bind_eq_ok.1 hrun
    cases hout
    -- The first insertion returned, so what it retained is counted by a machine word.
    rw [happly] at hfirst
    split at hfirst
    next hword =>
      cases hfirst
      obtain ⟨hnext, hncap, hnword, hall⟩ := ih hmid hword hrest
      have hmore : (changed l.capacity queue (.insert r) ++ records).rtake l.capacity =
          (queue ++ r :: records).rtake l.capacity := by
        rw [changed, rtake_append_rtake, List.append_assoc]
        rfl
      rw [hcap, hmore] at hnext hnword hall
      refine ⟨hnext, hncap.trans hcap, hnword, ?_⟩
      rw [handedBack, List.flatMap_cons, List.append_assoc]
      change yield.records ++ (handedBack rest ++ _) = _
      rw [hall, ← List.append_assoc, hkept, List.append_assoc]
      rfl
    next => cases hfirst

/-- What is given up and what is held after are what was held before and the new records. -/
theorem retain_eq_ok (h : l.Holds queue) (hfits : totalLength queue < wordCount)
    {evicted evictedBytes : Nat} {records : List Record} {next : Log} {count bytes : Nat}
    (hretain : l.retain evicted evictedBytes records = .ok (next, count, bytes)) :
    next.Holds ((queue ++ records).rtake l.capacity) ∧ next.capacity = l.capacity ∧
      totalLength ((queue ++ records).rtake l.capacity) < wordCount ∧
      l.evictions records ++ (queue ++ records).rtake l.capacity = queue ++ records ∧
      count = evicted + (l.evictions records).length ∧
      bytes = evictedBytes + totalLength (l.evictions records) := by
  rw [retain_eq_applyAll] at hretain
  obtain ⟨⟨yields, last⟩, hrun, hout⟩ := Checked.bind_eq_ok.1 hretain
  obtain ⟨rfl, rfl, rfl⟩ : last = next ∧ evicted + (handedBack yields).length = count ∧
      evictedBytes + totalLength (handedBack yields) = bytes := by simpa using hout
  obtain ⟨hnext, hcap, hword, hall⟩ := h.applyAll_inserts hfits hrun
  rw [evictions, hrun]
  exact ⟨hnext, hcap, hword, hall, rfl, rfl⟩

end Holds

end Log

end Scrollback
