import TensorTorrent.Executor.DepGraph
import TensorTorrent.Schedule.Build

/-
  This file says which instructions a built schedule holds.

  Main declarations:
    * `mem_releaseAll`
    * `mem_lowered`
-/

namespace TensorTorrent

open List

----
-- Instructions of the Placements
----

/- Instructions that the loop over the placements makes. -/
inductive Emitted (input : BuildInput) : Instruction → Prop
| transfer (transfer producer) : Emitted input (transferOp transfer producer)
| record (transfer) : Emitted input (recordOp transfer)
| wait (transfer) : Emitted input (waitOp transfer)
| prefetch (placement host deps tensors sizes) : Emitted input
    (prefetchOp placement host deps tensors sizes)
| load (placement prefetched host deps tensors sizes) : Emitted input
    (loadOp placement prefetched host deps tensors sizes)
| parameterH2d (regionId needed sizes source dest deps) : Emitted input
    (parameterH2dOp regionId needed sizes source dest deps)
| compute {placement : Placement} (hPlacement : placement ∈ input.placements)
    (deps) : Emitted input (input.computeOp placement deps)
| evict (placement staging resource tensors sizes) : Emitted input
    (evictOp placement staging resource tensors sizes)

section Placements

variable {input : BuildInput}

/- Every instruction so far is one of these. -/
def AllEmitted (input : BuildInput) (state : BuildState) : Prop :=
  ∀ inst ∈ state.instructions, Emitted input inst

theorem AllEmitted.append {insts more : List Instruction}
    (hInsts : ∀ inst ∈ insts, Emitted input inst) (hMore : ∀ inst ∈ more, Emitted input inst) :
    ∀ inst ∈ insts ++ more, Emitted input inst := by
  intro inst hInst
  exact (mem_append.mp hInst).elim (hInsts inst) (hMore inst)

variable {state : BuildState}

section

variable (hState : AllEmitted input state)

include hState

theorem AllEmitted.ensureTransferOps (transfer : ScheduledTransfer) :
    AllEmitted input (state.ensureTransferOps transfer).1 := by
  unfold BuildState.ensureTransferOps
  simp only
  split
  · exact hState
  split
  · exact hState
  refine .append hState ?_
  simp only [mem_cons, not_mem_nil, or_false]
  rintro inst (rfl | rfl | rfl)
  · exact .transfer _ _
  · exact .record _
  · exact .wait _

theorem AllEmitted.ensureAll (transfers : List ScheduledTransfer) :
    AllEmitted input (state.ensureAll transfers).1 := by
  induction transfers generalizing state with
  | nil => exact hState
  | cons transfer rest ih => exact ih (hState.ensureTransferOps transfer)

theorem AllEmitted.appendRegionParameterH2d (regionId : RegionId) (tensors : List TensorId)
    (sizes : List (TensorId × Nat)) (source destination : ResourceId) (deps : List InstructionId) :
    AllEmitted input (state.appendRegionParameterH2d regionId tensors sizes
      source destination deps).1 := by
  unfold BuildState.appendRegionParameterH2d
  simp only
  split
  · exact hState
  refine .append hState ?_
  simp only [mem_singleton]
  rintro inst rfl
  exact .parameterH2d _ _ _ _ _ _

section

variable (index : Nat) (placement : Placement)

theorem AllEmitted.streamParameters (deps : List InstructionId) :
    AllEmitted input (input.streamParameters index placement deps state).1 := by
  have hBoth : ∀ (prefetched : Bool) (prefetch load : Instruction),
      Emitted input prefetch → Emitted input load →
      ∀ inst ∈ state.instructions ++ ((if prefetched then [prefetch] else []) ++ [load]),
        Emitted input inst := by
    intro prefetched prefetch load hPrefetch hLoad
    refine AllEmitted.append hState (AllEmitted.append ?_ ?_)
    · cases prefetched with
      | false => simp
      | true => simpa using hPrefetch
    · simpa using hLoad
  unfold BuildInput.streamParameters
  simp only
  split
  · exact hBoth _ _ _ (.prefetch _ _ _ _ _) (.load _ _ _ _ _ _)
  · refine .appendRegionParameterH2d ?_ _ _ _ _ _ _
    exact hBoth _ _ _ (.prefetch _ _ _ _ _) (.load _ _ _ _ _ _)

theorem AllEmitted.parameterOps (deps : List InstructionId) :
    AllEmitted input (input.parameterOps index placement deps state).1 := by
  unfold BuildInput.parameterOps
  split
  · exact hState.streamParameters index placement deps
  · split
    · exact hState.appendRegionParameterH2d _ _ _ _ _ _
    · exact hState

theorem AllEmitted.evictOps : AllEmitted input (input.evictOps index placement state) := by
  unfold BuildInput.evictOps
  simp only
  split
  · exact hState
  refine .append hState ?_
  simp only [mem_cons, Option.mem_toList, Option.map_eq_some_iff]
  rintro inst (rfl | ⟨host, _, rfl⟩)
  · exact .evict _ _ _ _ _
  · exact .evict _ _ _ _ _

end

theorem AllEmitted.placeRegion (index : Nat) {placement : Placement}
    (hPlacement : placement ∈ input.placements) :
    AllEmitted input (input.placeRegion index placement state) := by
  refine .evictOps ?_ index placement
  refine .append ((hState.parameterOps index placement _).ensureAll _) ?_
  simp only [mem_singleton]
  rintro inst rfl
  exact .compute hPlacement _

end

/- The loop makes no other instructions. -/
theorem mem_placeAll {inst : Instruction} (hInst : inst ∈ input.placeAll.instructions) :
    Emitted input inst := by
  have hFold : ∀ (entries : List (Placement × Nat)) (state : BuildState),
      (∀ entry ∈ entries, entry.1 ∈ input.placements) → AllEmitted input state →
      AllEmitted input (entries.foldl (fun state entry =>
            input.placeRegion entry.2 entry.1 state)
          state) := by
    intro entries
    induction entries with
    | nil => exact fun _ _ hState => hState
    | cons entry entries ih =>
      intro state hEntries hState
      exact ih _ (fun other hOther => hEntries other (by simp [hOther]))
        (hState.placeRegion entry.2 (hEntries entry (by simp)))
  refine hFold _ BuildState.start ?_ ?_ inst hInst
  · intro entry hEntry
    exact (mem_zipIdx hEntry).2.2 ▸ getElem_mem _
  · intro other hOther
    cases hOther

end Placements

----
-- Releases
----

/- A Release of one output of a producer. -/
structure IsReleaseOf (input : BuildInput) (producer : Placement) (out : TensorId)
    (inst : Instruction) : Prop where
  placed : producer ∈ input.placements
  output : out ∈ input.releasedOutputs producer
  made : ∃ emitted, inst = input.releaseOp producer out emitted

section Releases

variable {input : BuildInput} {inst : Instruction}

theorem mem_releaseAll {emitted : List Instruction} (hInst : inst ∈ input.releaseAll emitted) :
    inst ∈ emitted ∨ ∃ producer out, IsReleaseOf input producer out inst := by
  have hOutputs : ∀ (producer : Placement) (outs : List TensorId) (emitted : List Instruction),
      producer ∈ input.placements → (∀ out ∈ outs, out ∈ input.releasedOutputs producer) →
      inst ∈ outs.foldl (input.releaseOutput producer) emitted →
      inst ∈ emitted ∨ ∃ producer out, IsReleaseOf input producer out inst := by
    intro producer outs
    induction outs with
    | nil => exact fun _ _ _ h => Or.inl h
    | cons out outs ih =>
      intro emitted hPlaced hOuts hFold
      rcases ih _ hPlaced (fun o ho => hOuts o (by simp [ho])) hFold with hHere | hLater
      · unfold BuildInput.releaseOutput at hHere
        split at hHere
        · exact .inl hHere
        rcases mem_append.mp hHere with hOld | hNew
        · exact .inl hOld
        · exact .inr ⟨producer, out, hPlaced, hOuts out (by simp), emitted, mem_singleton.mp hNew⟩
      · exact .inr hLater
  have hProducers : ∀ (producers : List Placement) (emitted : List Instruction),
      (∀ producer ∈ producers, producer ∈ input.placements) →
      inst ∈ producers.foldl (fun emitted producer =>
          (input.releasedOutputs producer).foldl (input.releaseOutput producer) emitted)
        emitted →
      inst ∈ emitted ∨ ∃ producer out, IsReleaseOf input producer out inst := by
    intro producers
    induction producers with
    | nil => exact fun _ _ h => Or.inl h
    | cons producer producers ih =>
      intro emitted hPlaced hFold
      rcases ih _ (fun p hp => hPlaced p (by simp [hp])) hFold with hHere | hLater
      · exact hOutputs producer _ emitted (hPlaced producer (by simp)) (fun _ h => h) hHere
      · exact .inr hLater
  exact hProducers input.placements emitted (fun _ h => h) hInst

section

variable (hInst : inst ∈ input.lowered.instructions)

include hInst

/-
  An instruction of the lowered schedule comes from the
  placements unchanged, or it is a Release that also waits
  for the final readers of its tensor.
-/
theorem mem_lowered : (∃ raw, Emitted input raw ∧ inst = PlanStreams.withExplicitStreams raw) ∨
    ∃ producer out raw deps attrs, IsReleaseOf input producer out raw ∧
      inst = PlanStreams.withExplicitStreams { raw with
        dependsOn := deps
        attributes := raw.attributes ++ attrs } := by
  simp only [BuildInput.lowered, applyScheduleLiveness,
    map_map, mem_map, Function.comp_apply] at hInst
  rcases hInst with ⟨raw, hRaw, rfl⟩
  rcases mem_releaseAll hRaw with hPlaced | hRelease
  · have hEmitted := mem_placeAll hPlaced
    have hOpcode : raw.opcode ≠ .release := by
      cases hEmitted <;> simp [transferOp, recordOp, waitOp, prefetchOp, loadOp, parameterH2dOp,
        BuildInput.computeOp, evictOp]
    rw [if_pos hOpcode]
    exact .inl ⟨raw, hEmitted, rfl⟩
  · rcases hRelease with ⟨producer, out, hMade⟩
    have hOpcode : raw.opcode = .release := by
      rcases hMade.made with ⟨emitted, rfl⟩
      rfl
    rw [if_neg (by simp [hOpcode])]
    exact .inr ⟨producer, out, raw, _, _, hMade, rfl⟩

/- A Compute of the schedule runs a placed region. -/
theorem mem_lowered_compute (hCompute : inst.opcode = .compute) :
    ∃ placement ∈ input.placements, ∃ deps, inst = PlanStreams.withExplicitStreams
      (input.computeOp placement deps) := by
  rcases mem_lowered hInst with ⟨raw, hEmitted, rfl⟩ | ⟨producer, out, raw, deps, attrs, hMade, rfl⟩
  · cases hEmitted with
    | compute hPlacement deps => exact ⟨_, hPlacement, deps, rfl⟩
    | _ => cases hCompute
  · rcases hMade.made with ⟨emitted, rfl⟩
    cases hCompute

/- A Release of the schedule is for one activation. -/
theorem mem_lowered_release (hRelease : inst.opcode = .release) :
    ∃ producer out raw deps attrs, IsReleaseOf input producer out raw ∧
      inst = PlanStreams.withExplicitStreams { raw with
        dependsOn := deps
        attributes := raw.attributes ++ attrs } := by
  rcases mem_lowered hInst with ⟨raw, hEmitted, rfl⟩ | hMade
  · cases hEmitted <;> cases hRelease
  · exact hMade

end

end Releases

end TensorTorrent
