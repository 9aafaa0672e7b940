import Scrollback.Proofs.History.Reference
/-!
# The reference of a stream

Under the split policy a reference is a function of the bytes written so far, whatever the fragments
they came in (`Reference.ofStream`): the newest of their lines are live, and the remainder is
pending. The data of a reference whose records are lines is such a stream itself, and it gives the
same records again (`Reference.ofStream_data`).
-/

namespace Scrollback

def Reference.writeAll (s : Settings) (m : Reference) (parts : List Bytes) : Reference :=
  parts.foldl (fun m fragment => (m.write s fragment).2) m

/-- The reference after a stream was written under the split policy. -/
def Reference.ofStream (s : Settings) (stream : Bytes) : Reference where
  live := ((Framing.lines s.delimiter stream).map Record.ofBytes).rtake s.capacity
  pending := Framing.remainder s.delimiter stream
  completed := (Framing.lines s.delimiter stream).length
  appended := stream.length

namespace Reference

theorem writeAll_appended (s : Settings) (m : Reference) (parts : List Bytes) :
    (m.writeAll s parts).appended = m.appended + parts.flatten.length := by
  induction parts generalizing m with
  | nil => rfl
  | cons fragment parts ih =>
    rw [writeAll, List.foldl_cons, ← writeAll, ih, List.flatten_cons, List.length_append,
      ← Nat.add_assoc]
    rfl

/-- Served one after the other, writes complete what they complete together. -/
theorem serveAll_writes (s : Settings) (m : Reference) (parts : List Bytes) :
    ∃ outcomes : List WriteOutcome,
      m.serveAll s (parts.map .write) =
        (outcomes.map fun outcome => .written (.ok outcome), m.writeAll s parts) ∧
      m.completed + (outcomes.map WriteOutcome.completed).sum = (m.writeAll s parts).completed := by
  induction parts generalizing m with
  | nil => exact ⟨[], rfl, rfl⟩
  | cons fragment parts ih =>
    obtain ⟨outcomes, hserve, hcompleted⟩ := ih (m.write s fragment).2
    refine ⟨(m.write s fragment).1 :: outcomes, ?_, ?_⟩
    · simp only [List.map_cons, serveAll, serve, hserve]
      rfl
    · rw [List.map_cons, List.sum_cons, ← Nat.add_assoc]
      exact hcompleted

theorem ofStream_nil (s : Settings) : ofStream s [] = fresh := by
  simp [ofStream, fresh, Framing.lines, Framing.remainder]

theorem write_ofStream {s : Settings} (hpolicy : s.policy = .split)
    (stream fragment : Bytes) :
    ((ofStream s stream).write s fragment).2 = ofStream s (stream ++ fragment) := by
  obtain ⟨hlines, hrest⟩ := Framing.lines_append s.delimiter stream fragment
  simp only [write, frame, hpolicy, ofStream, hlines, hrest, List.map_append, List.length_append,
    List.length_map, Log.rtake_append_rtake]

/-- Under the split policy the fragments do not matter, only the stream that they make up. -/
theorem writeAll_ofStream {s : Settings} (hpolicy : s.policy = .split) (stream : Bytes)
    (parts : List Bytes) :
    (ofStream s stream).writeAll s parts = ofStream s (stream ++ parts.flatten) := by
  induction parts generalizing stream with
  | nil => simp [writeAll]
  | cons fragment parts ih =>
    rw [writeAll, List.foldl_cons, write_ofStream hpolicy, ← writeAll, ih, List.flatten_cons,
      List.append_assoc]

theorem map_live_ofStream (s : Settings) (stream : Bytes) :
    (ofStream s stream).live.map Record.bytes =
      (Framing.lines s.delimiter stream).rtake s.capacity := by
  rw [ofStream, Log.map_rtake, List.map_map]
  simp [Function.comp_def]

theorem length_live_ofStream (s : Settings) (stream : Bytes) :
    (ofStream s stream).live.length = min s.capacity (stream.count s.delimiter) := by
  rw [ofStream, Log.length_rtake, List.length_map, Framing.length_lines]

theorem data_ofStream (s : Settings) (stream : Bytes) :
    (ofStream s stream).data = ((Framing.lines s.delimiter stream).rtake
      (min s.capacity (stream.count s.delimiter))).flatten := by
  have hcount : (Framing.lines s.delimiter stream).length -
      min s.capacity (Framing.lines s.delimiter stream).length =
      (Framing.lines s.delimiter stream).length - s.capacity := by
    omega
  rw [data, List.flatMap_def, map_live_ofStream, ← Framing.length_lines, List.rtake, List.rtake,
    hcount]

/-- While there is room for all lines of the stream, a write pushes nothing out. -/
theorem write_ofStream_outcome {s : Settings} (hpolicy : s.policy = .split)
    {stream fragment : Bytes} (hroom : (stream ++ fragment).count s.delimiter ≤ s.capacity) :
    ((ofStream s stream).write s fragment).1 =
      ⟨fragment.length, fragment.count s.delimiter, 0⟩ := by
  have hnext := congrArg (fun m => m.live.length) (write_ofStream hpolicy stream fragment)
  have hrest := List.count_eq_zero.2 (Framing.delimiter_notMem_remainder s.delimiter stream)
  simp only [length_live_ofStream] at hnext
  have hframed : (frame s (ofStream s stream).pending fragment).1.length =
      fragment.count s.delimiter := by
    simp only [frame, hpolicy, ofStream]
    rw [Framing.length_lines, List.count_append, hrest, Nat.zero_add]
  rw [List.count_append] at hroom hnext
  simp only [write, length_live_ofStream, List.length_map, hframed, WriteOutcome.mk.injEq,
    true_and] at hnext ⊢
  omega

/-- The data of records that are lines gives these records again, if there is room for them. -/
theorem ofStream_data {s : Settings} {live : List Record}
    (hlines : ∀ r ∈ live, Framing.IsLine s.delimiter r.bytes) (hroom : live.length ≤ s.capacity) :
    (ofStream s (live.flatMap Record.bytes)).live = live ∧
      (ofStream s (live.flatMap Record.bytes)).pending = [] := by
  have hall : ∀ line ∈ live.map Record.bytes, Framing.IsLine s.delimiter line :=
    List.forall_mem_map.2 hlines
  obtain ⟨hcut, hrest⟩ := Framing.lines_flatten hall
  have hlive : (live.map Record.bytes).map Record.ofBytes = live := by
    simp [Function.comp_def]
  rw [ofStream, List.flatMap_def, hcut, hlive]
  exact ⟨Log.rtake_of_length_le hroom, hrest⟩

end Reference

/-- Written to a new history that splits, in whatever fragments, a stream is cut into its lines: one
record is completed for each delimiter, and the history stands for the whole stream. -/
theorem Desk.performAll_writes {s : Settings} {h : History} (hnew : History.create s = .ok (.ok h))
    (hpolicy : s.policy = .split) (parts : List Bytes) (fits : parts.flatten.length < wordCount) :
    ∃ (outcomes : List WriteOutcome) (d : Desk),
      (ofHistory h).performAll (parts.map (.write none)) =
        .ok (outcomes.map fun outcome => .written (.ok outcome), d) ∧
      (outcomes.map WriteOutcome.completed).sum = parts.flatten.count s.delimiter ∧
      d.history.Agrees s (.ofStream s parts.flatten) := by
  obtain ⟨outcomes, hserve, hcompleted⟩ := Reference.serveAll_writes s .fresh parts
  have hend := Reference.writeAll_ofStream hpolicy [] parts
  rw [Reference.ofStream_nil, List.nil_append] at hend
  rw [hend] at hserve hcompleted
  have hwritten : (parts.map fun part => (Reference.Operation.write part).written).sum =
      parts.flatten.length := by
    rw [List.length_flatten]
    rfl
  obtain ⟨next, hrun, hnext⟩ := (History.create_agrees hnew).performAll_eq [] (parts.map .write) (by
    rwa [List.map_map, Reference.fresh, Nat.zero_add, Function.comp_def, hwritten])
  rw [hserve, List.map_map] at hrun
  rw [hserve] at hnext
  refine ⟨outcomes, ⟨next, []⟩, hrun, ?_, hnext⟩
  rw [← Framing.length_lines, ← Nat.zero_add (outcomes.map _).sum]
  exact hcompleted

end Scrollback
