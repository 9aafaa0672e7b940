import Scrollback.Proofs.Config
import Scrollback.Proofs.Pass.Retrying
/-!
# Blocks that no address spans

The arguments of a session are refused if nothing could be retained, written or read with them. How
large a number may be is bounded only by the machine word. Two of the numbers become blocks of
memory: the slots of the ring and the buffer of a read. A block has to be less than half of the
words, and one that is not is a defect and no error, so arguments that were accepted can make a pass
break off (`Pass.accepted_breaksOff`).

Nothing else can. Which accepted arguments lead to a defect is told by the two sizes alone, whatever
the input, the lengths of the fragments and the memory (`Pass.breaksOff_iff_oversized`).
-/

namespace Scrollback

open Scrollback.Random (Draw)

/-- Neither the slots nor the buffer of a pass are more than an address can span. -/
structure Config.FitsBlocks (c : Config) : Prop where
  slots_le : Record.entrySize * c.history.capacity ≤ blockBound
  buffer_le : c.readChunk ≤ blockBound

/-- With numbers in range, the two sizes are all that a pass can lack. -/
theorem Config.InRange.feasible {c : Config} (h : c.InRange) (hfits : c.FitsBlocks) : c.Feasible :=
  ⟨h.capacity_pos, h.maxFragment_pos, h.readChunk_pos, hfits.slots_le, hfits.buffer_le⟩

namespace Pass

variable {σ : Type} {draw : Draw σ} {start : σ} {c : Config} {input : Bytes}

/-! ### Breaking off -/

/-- Without a block for the slots there is no history. -/
theorem performDrawing_of_slots (hslots : blockBound < Record.entrySize * c.history.capacity)
    (memory : Memory) :
    (performDrawing draw start c memory input).run = .error .oversizedBlock := by
  have hcapacity : c.history.capacity ≠ 0 := by
    intro hzero
    rw [hzero] at hslots
    cases hslots
  have hcreate : History.create c.history = .error .oversizedBlock := by
    rw [History.create, Log.create, if_neg hcapacity, checkBlock, if_neg (Nat.not_le.2 hslots)]
    rfl
  rw [performDrawing_eq_reportOn, hcreate]
  rfl

/-- Without a block for the buffer nothing is read back, when all is written. -/
theorem performDrawing_of_buffer (hcapacity : 1 ≤ c.history.capacity)
    (hslots : Record.entrySize * c.history.capacity ≤ blockBound) (hfragment : 1 ≤ c.maxFragment)
    (hbuffer : blockBound < c.readChunk) (hinput : input.length < wordCount) :
    (performDrawing draw start c .ample input).run = .error .oversizedBlock := by
  have hcreate := History.create_eq hcapacity hslots
  obtain ⟨parts, hparts, rfl⟩ := fragments_eq draw start hfragment input
  obtain ⟨written, hwrite, -⟩ := writeAll_eq (History.create_agrees hcreate) 0 parts (by
    rwa [Reference.fresh, Nat.zero_add])
  have hrun : (writeAll (.ofLog c.history (Log.vacant c.history.capacity)) .ample 0 parts).run =
      .ok (.ok written) := by
    rw [hwrite]
    rfl
  have ht := trails_writeAll (.of_create hcreate) hrun
  have hreport := reportOn_eq ht.sound ht.alive c parts.flatten
  rw [checkBlock, if_neg (Nat.not_le.2 hbuffer)] at hreport
  rw [performDrawing_eq_reportOn, hcreate, hparts]
  simp only [during_ok, liftM_ok, pure_bind, hwrite]
  exact hreport

theorem performDrawing_of_fits (draw : Draw σ) (start : σ) (hc : c.InRange) (hfits : c.FitsBlocks)
    (hinput : input.length < wordCount) :
    ∃ report, (performDrawing draw start c .ample input).run = .ok (.ok report) := by
  obtain ⟨parts, metrics, -, hrun⟩ := performDrawing_agrees draw start (hc.feasible hfits) hinput
  exact ⟨_, hrun⟩

theorem performDrawing_of_not_fits (draw : Draw σ) (start : σ) (hc : c.InRange)
    (hfits : ¬ c.FitsBlocks) (hinput : input.length < wordCount) :
    (performDrawing draw start c .ample input).run = .error .oversizedBlock := by
  obtain hslots | hslots := Nat.lt_or_ge blockBound (Record.entrySize * c.history.capacity)
  · exact performDrawing_of_slots hslots .ample
  · have hbuffer : blockBound < c.readChunk := by
      by_contra hle
      exact hfits ⟨hslots, Nat.not_lt.1 hle⟩
    exact performDrawing_of_buffer hc.capacity_pos hslots hc.maxFragment_pos hbuffer hinput

/-! ### Accepted arguments -/

/-- Of arguments that are accepted, two numbers decide whether the pass can break off: that of the
slots and that of the room for a read, if one of them is more than a block can be. With memory for
everything the pass then does break off, and otherwise it returns a report; whatever memory is
refused, it never breaks off for another reason. That holds of every input and of every way to draw
the lengths of the fragments, for which the range is never empty. -/
theorem breaksOff_iff_oversized {words : List Bytes} {a : Arguments} {fallback : Nat}
    (hparse : Arguments.parse words = .ok (.pass a)) (hseed : a.seed = none → fallback < wordCount)
    (hresolve : Config.resolve fallback a = .ok c) (hinput : input.length < wordCount)
    (draw : Draw σ) (start : σ) :
    (∃ parts, fragments draw start c.maxFragment input = .ok parts) ∧
    ((performDrawing draw start c .ample input).run = .error .oversizedBlock ↔ ¬ c.FitsBlocks) ∧
    (c.FitsBlocks → ∃ report, (performDrawing draw start c .ample input).run = .ok (.ok report)) ∧
    ∀ memory, (∃ result, (performDrawing draw start c memory input).run = .ok result) ∨
      (performDrawing draw start c memory input).run = .error .oversizedBlock ∧ ¬ c.FitsBlocks := by
  have hc := Config.resolve_inRange (Arguments.parse_inRange hparse) hseed hresolve
  have hbreaks (hfits : ¬ c.FitsBlocks) := performDrawing_of_not_fits draw start hc hfits hinput
  have hreturns (hfits : c.FitsBlocks) := performDrawing_of_fits draw start hc hfits hinput
  obtain ⟨parts, hparts, -⟩ := fragments_eq draw start hc.maxFragment_pos input
  refine ⟨⟨parts, hparts⟩, ⟨fun h hfits => ?_, hbreaks⟩, hreturns, fun memory => ?_⟩
  · obtain ⟨report, hrun⟩ := hreturns hfits
    cases h.symm.trans hrun
  · -- Refused memory ends the pass with an error, or leaves a count behind.
    obtain ⟨length, request, hfailed⟩ | ⟨total, hsame⟩ :=
      performDrawing_withRefusals draw start c memory input
    · exact .inl ⟨_, hfailed⟩
    · by_cases hfits : c.FitsBlocks
      · obtain ⟨report, hrun⟩ := hreturns hfits
        rw [hrun] at hsame
        exact .inl ⟨_, hsame⟩
      · rw [hbreaks hfits] at hsame
        exact .inr ⟨hsame, hfits⟩

/-- The slots just fit a block, and the room for a read is one byte more than a block can be. -/
theorem breaksOff_iff_oversized_buffer :
    let words : List Bytes := ["--seed=1", "--capacity=384307168202282325", "--max-fragment=4",
      "--read-chunk=9223372036854775808"].map fun word => Utf8.encode word.toList
    let a : Arguments := ⟨none, none, some 1, some 384307168202282325, none, some 4,
      some 9223372036854775808, none, false, false, false, false⟩
    let c : Config := ⟨none, Config.defaultOutput, ⟨384307168202282325, 10, .split⟩, 1, 4,
      9223372036854775808, 100, false, true, false⟩
    Arguments.parse words = .ok (.pass a) ∧ (a.seed = none → 0 < wordCount) ∧
    Config.resolve 0 a = .ok c ∧ [(97 : UInt8), 10].length < wordCount ∧
    Record.entrySize * c.history.capacity ≤ blockBound ∧
    (perform c .ample [97, 10]).run = .error .oversizedBlock := by
  intro words a c
  have hparse : Arguments.parse words = .ok (.pass a) := by decide +kernel
  have hresolve : Config.resolve 0 a = .ok c := by decide +kernel
  have hinput : [(97 : UInt8), 10].length < wordCount := by decide
  obtain ⟨-, hiff, -⟩ := breaksOff_iff_oversized hparse nofun hresolve hinput
    (Random.wordSource.between 1) (Random.Stream.ofSeed c.seed)
  refine ⟨hparse, nofun, hresolve, hinput, by decide, hiff.2 fun hfits => ?_⟩
  exact absurd hfits.buffer_le (by decide)

/-- A capacity is accepted whose slots are more than a block can be, and no history is made for it:
memory that cannot be had is not told as an error here. -/
theorem accepted_breaksOff :
    let words : List Bytes := ["--seed=1", "--capacity=384307168202282326", "--max-fragment=4",
      "--read-chunk=8"].map fun word => Utf8.encode word.toList
    ∃ a c, Arguments.parse words = .ok (.pass a) ∧ Config.resolve 0 a = .ok c ∧
      (perform c .ample [97, 10]).run = .error .oversizedBlock := by
  intro words
  let a : Arguments := ⟨none, none, some 1, some 384307168202282326, none, some 4, some 8, none,
    false, false, false, false⟩
  let c : Config := ⟨none, Config.defaultOutput, ⟨384307168202282326, 10, .split⟩, 1, 4, 8, 100,
    false, true, false⟩
  have hparse : Arguments.parse words = .ok (.pass a) := by decide +kernel
  have hresolve : Config.resolve 0 a = .ok c := by decide +kernel
  have hslots : blockBound < Record.entrySize * c.history.capacity := by decide
  exact ⟨a, c, hparse, hresolve, performDrawing_of_slots hslots .ample⟩

end Pass

end Scrollback
