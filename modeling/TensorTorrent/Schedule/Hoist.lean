import TensorTorrent.Library.Bypass
import TensorTorrent.Schedule.Build

/-
  This file models the rewriting of a schedule for repeated
  inference (`hoist_resident_parameter_transfers` of
  `runtime/schedule/build.py`): parameters that stay on
  their device are neither copied nor evicted any more.
  Instructions that are dropped also vanish from the
  dependencies of the others.

  Main declarations:
    * `hoist_keeps_order_iff`
-/

namespace TensorTorrent

open List

namespace Hoist

----
-- Fate of an Instruction
----

/- The parameters that stay resident; `none` means all. -/
abbrev Residents := Option (List TensorId)

inductive Fate where
| keep
| drop
| shrink (inst : Instruction)

def Fate.isDrop : Fate → Bool
| .drop => true
| _ => false

def Fate.shrunk : Fate → Option Instruction
| .shrink inst => some inst
| _ => none

section

variable (inst : Instruction)

/- `inst.attributes[key] = value`. -/
def setAttr (key : String) (value : AttrValue) : Instruction :=
  { inst with
    attributes :=
      if (inst.attr key).isSome then
        inst.attributes.map (fun entry =>
          if entry.1 = key then (key, value) else entry)
      else inst.attributes ++ [(key, value)] }

def isParamH2d : Bool :=
  decide (inst.opcode = .transfer) && decide (inst.kind = "parameter_host_to_device") &&
    !Text.lowerContains (PlanStreams.orElse inst.destination inst.resource) "mock"

/- Sizes that an instruction records, as a dictionary. -/
def recordedSizes : List (String × Int) :=
  match inst.attr "tensor_nbytes" with
  | some (.intMap entries) => entries
  | some (.map entries) =>
    entries.filterMap (fun entry => entry.2.asI64.map (fun n => (entry.1, n)))
  | _ => []

/- Sizes of what is still copied. Without recorded sizes
   every tensor gets an equal share. -/
def keptNbytes (names remaining : List TensorId) : List (TensorId × Nat) :=
  let kept := (fromKeys remaining).map (fun name =>
    (name, max 1 (((recordedSizes inst).lookup name).getD 0).toNat))
  if totalSize kept ≤ remaining.length then
    (fromKeys remaining).map (fun name => (name, max 1 (max 1 inst.nbytes / max 1 names.length)))
  else kept

def shrunkTransfer (names remaining : List TensorId) : Instruction :=
  let kept := keptNbytes inst names remaining
  setAttr (setAttr
      { inst with inputs := remaining, outputs := remaining, nbytes := max 1 (totalSize kept) }
      "tensor_nbytes" (sizesAttr kept))
    "partial_persistent_shrunk" (.bool true)

end

/- A copy of resident parameters only is dropped. -/
def transferFate (residents : Residents) (inst : Instruction) : Fate :=
  let names := Validate.transferTensors inst
  if isParamH2d inst = false ∨ names = [] then .keep
  else
    match residents with
    | none => .drop
    | some ids =>
      let remaining := names.filter (fun name => name ∉ ids)
      if remaining = [] then .drop
      else if remaining.length < names.length then
        .shrink (shrunkTransfer inst names remaining)
      else .keep

def evictedTensors (inst : Instruction) : List TensorId :=
  if inst.inputs.isEmpty then inst.outputs else inst.inputs

def evictFate (residents : Residents) (inst : Instruction) : Fate :=
  let names := evictedTensors inst
  if inst.opcode ≠ .evict ∨ inst.kind ≠ "parameter_evict" ∨ names = [] then .keep
  else
    match residents with
    | none => .drop
    | some ids =>
      if names.all (fun name => name ∈ ids) then .drop
      else if names.any (fun name => name ∈ ids) then
        let remaining := names.filter (fun name => name ∉ ids)
        if remaining = [] then .drop
        else
          .shrink
            { inst with inputs := remaining, outputs := remaining }
      else .keep

section Rewrite

variable (schedule : ExecutableSchedule) (dropEvicts : Bool) (residents : Residents)

/- Is the instruction itself dropped? -/
def dropped (inst : Instruction) : Bool :=
  (transferFate residents inst).isDrop || dropEvicts && (evictFate residents inst).isDrop

def dropNames : List InstructionId :=
  (schedule.instructions.filter (fun inst =>
      (transferFate residents inst).isDrop)).map Instruction.name ++
    if dropEvicts then
      (schedule.instructions.filter (fun inst =>
        (evictFate residents inst).isDrop)).map Instruction.name
    else []

/- The dictionary `shrink`, in the order of insertion. -/
def shrunkByName : List (InstructionId × Instruction) :=
  schedule.instructions.filterMap (fun inst =>
      (transferFate residents inst).shrunk.map (fun small => (inst.name, small))) ++
    if dropEvicts then
      schedule.instructions.filterMap (fun inst =>
        (evictFate residents inst).shrunk.map (fun small => (inst.name, small)))
    else []

/- An instruction of the new schedule. -/
def rewritten (inst : Instruction) : Instruction :=
  let small := ((shrunkByName schedule dropEvicts residents).reverse.lookup inst.name).getD inst
  { small with
    dependsOn := small.dependsOn.filter (fun dep => dep ∉ dropNames schedule dropEvicts residents) }

end Rewrite

end Hoist

open Hoist in
def hoistResidentParameterTransfers (schedule : ExecutableSchedule) (dropEvicts : Bool)
    (residents : Residents) : ExecutableSchedule :=
  if residents = some [] then schedule
  else if dropNames schedule dropEvicts residents = [] ∧
      (shrunkByName schedule dropEvicts residents).isEmpty then
    schedule
  else
    { instructions :=
      (schedule.instructions.filter (fun inst =>
        inst.name ∉ dropNames schedule dropEvicts residents)).map
        (rewritten schedule dropEvicts residents) }

----
-- Dependencies After Hoisting
----

namespace Hoist

section Facts

variable {schedule : ExecutableSchedule} {dropEvicts : Bool} {residents : Residents}

/- An instruction of this name stays in the schedule. -/
def Kept (schedule : ExecutableSchedule) (dropEvicts : Bool) (residents : Residents)
    (name : InstructionId) : Prop :=
  ∃ inst ∈ schedule.instructions, inst.name = name ∧ dropped dropEvicts residents inst = false

instance (schedule : ExecutableSchedule)
    (dropEvicts : Bool)
    (residents : Residents)
    (name : InstructionId) : Decidable (Kept schedule dropEvicts residents name) :=
  inferInstanceAs (Decidable (∃ inst ∈ _, _))

theorem mem_dropNames {name : InstructionId} : name ∈ dropNames schedule dropEvicts residents ↔
    ∃ inst ∈ schedule.instructions, inst.name = name ∧
      dropped dropEvicts residents inst = true := by
  simp only [dropNames, dropped, mem_append, mem_map, mem_filter, Bool.or_eq_true, Bool.and_eq_true]
  constructor
  · rintro (⟨inst, ⟨hMem, hDrop⟩, hName⟩ | hEvict)
    · exact ⟨inst, hMem, hName, Or.inl hDrop⟩
    · split at hEvict
      · next hEvicts =>
        rcases mem_map.mp hEvict with ⟨inst, hInst, hName⟩
        rcases mem_filter.mp hInst with ⟨hMem, hDrop⟩
        exact ⟨inst, hMem, hName, Or.inr ⟨hEvicts, hDrop⟩⟩
      · cases hEvict
  · rintro ⟨inst, hMem, hName, hDrop | ⟨hEvicts, hDrop⟩⟩
    · exact .inl ⟨inst, ⟨hMem, hDrop⟩, hName⟩
    · refine .inr ?_
      rw [if_pos hEvicts]
      apply mem_map.mpr
      exact ⟨inst, mem_filter.mpr ⟨hMem, hDrop⟩, hName⟩

variable {small inst : Instruction}

/- Shrinking leaves name and dependencies alone. -/
theorem transferFate_shrunk (hShrunk : (transferFate residents inst).shrunk = some small) :
    small.name = inst.name ∧ small.dependsOn = inst.dependsOn := by
  unfold transferFate at hShrunk
  simp only at hShrunk
  split at hShrunk
  · cases hShrunk
  split at hShrunk
  · cases hShrunk
  split at hShrunk
  · cases hShrunk
  split at hShrunk
  · cases hShrunk
    exact ⟨rfl, rfl⟩
  · cases hShrunk

theorem evictFate_shrunk (hShrunk : (evictFate residents inst).shrunk = some small) :
    small.name = inst.name ∧ small.dependsOn = inst.dependsOn := by
  unfold evictFate at hShrunk
  simp only at hShrunk
  split at hShrunk
  · cases hShrunk
  split at hShrunk
  · cases hShrunk
  split at hShrunk
  · cases hShrunk
  split at hShrunk
  · split at hShrunk
    · cases hShrunk
    · cases hShrunk
      exact ⟨rfl, rfl⟩
  · cases hShrunk

variable {name : InstructionId}

theorem mem_shrunkByName (hMem : (name, small) ∈ shrunkByName schedule dropEvicts residents) :
    ∃ inst ∈ schedule.instructions, inst.name = name ∧ small.name = name ∧
      small.dependsOn = inst.dependsOn := by
  unfold shrunkByName at hMem
  rcases mem_append.mp hMem with hTransfer | hEvict
  · rcases mem_filterMap.mp hTransfer with ⟨inst, hInst, hEntry⟩
    rcases Option.map_eq_some_iff.mp hEntry with ⟨_, hShrunk, hPair⟩
    cases hPair
    rcases transferFate_shrunk hShrunk with ⟨hName, hDeps⟩
    exact ⟨inst, hInst, rfl, hName, hDeps⟩
  · split at hEvict
    · rcases mem_filterMap.mp hEvict with ⟨inst, hInst, hEntry⟩
      rcases Option.map_eq_some_iff.mp hEntry with ⟨_, hShrunk, hPair⟩
      cases hPair
      rcases evictFate_shrunk hShrunk with ⟨hName, hDeps⟩
      exact ⟨inst, hInst, rfl, hName, hDeps⟩
    · cases hEvict

/- Where an entry that replaces an instruction is from. -/
theorem lookup_shrunkByName
    (hLookup : (shrunkByName schedule dropEvicts residents).reverse.lookup name = some small) :
    ∃ inst ∈ schedule.instructions, inst.name = name ∧ small.name = name ∧
      small.dependsOn = inst.dependsOn := by
  rcases lookup_eq_some_iff.mp hLookup with ⟨front, back, hSplit, _⟩
  apply mem_shrunkByName
  rw [← mem_reverse, hSplit]
  simp

/- Names identify instructions. -/
def Distinct (schedule : ExecutableSchedule) : Prop :=
  (schedule.instructions.map Instruction.name).Nodup

instance (schedule : ExecutableSchedule) : Decidable (Distinct schedule) :=
  inferInstanceAs (Decidable (List.Nodup _))

theorem rewritten_name (inst : Instruction) :
    (rewritten schedule dropEvicts residents inst).name = inst.name := by
  unfold rewritten
  simp only
  cases hLookup : (shrunkByName schedule dropEvicts residents).reverse.lookup inst.name with
  | none => rfl
  | some small =>
    rcases lookup_shrunkByName hLookup with ⟨_, _, _, hName, _⟩
    exact hName

theorem rewritten_dependsOn (hDistinct : Distinct schedule) (hInst : inst ∈ schedule.instructions) :
    (rewritten schedule dropEvicts residents inst).dependsOn = inst.dependsOn.filter (fun dep =>
      dep ∉ dropNames schedule dropEvicts residents) := by
  unfold rewritten
  simp only
  cases hLookup : (shrunkByName schedule dropEvicts residents).reverse.lookup inst.name with
  | none => rfl
  | some small =>
    rcases lookup_shrunkByName hLookup with ⟨origin, hOrigin, hName, _, hDeps⟩
    have hSame : origin = inst := inj_on_of_nodup_map hDistinct hOrigin hInst hName
    rw [← hSame, Option.getD_some, hDeps]

/- With nothing to drop or shrink the rewriting changes
   nothing. -/
theorem rewritten_idle (hDrop : dropNames schedule dropEvicts residents = [])
    (hShrunk : shrunkByName schedule dropEvicts residents = []) (inst : Instruction) :
    rewritten schedule dropEvicts residents inst = inst := by
  unfold rewritten
  rw [hDrop, hShrunk]
  simp

theorem nothing_selected (inst : Instruction) :
    transferFate (some []) inst = .keep ∧ evictFate (some []) inst = .keep := by
  constructor
  · simp only [transferFate]
    split
    · rfl
    · next hSome =>
      have hNames : Validate.transferTensors inst ≠ [] := fun h => hSome (Or.inr h)
      simp [hNames]
  · simp only [evictFate]
    split
    · rfl
    · next hSome =>
      have hNames : evictedTensors inst ≠ [] := fun h => hSome (Or.inr (Or.inr h))
      simpa using exists_mem_of_ne_nil _ hNames

theorem idle_of_nothing_selected : dropNames schedule dropEvicts (some []) = [] ∧
    shrunkByName schedule dropEvicts (some []) = [] := by
  constructor
  · simp [dropNames, nothing_selected, Fate.isDrop]
  · simp [shrunkByName, nothing_selected, Fate.shrunk]

/- The instructions of the new schedule. -/
theorem mem_hoisted {after : Instruction} :
    after ∈ (hoistResidentParameterTransfers schedule dropEvicts residents).instructions ↔
      ∃ inst ∈ schedule.instructions, inst.name ∉ dropNames schedule dropEvicts residents ∧
        rewritten schedule dropEvicts residents inst = after := by
  have hIdle : dropNames schedule dropEvicts residents = [] →
      shrunkByName schedule dropEvicts residents = [] →
      (after ∈ schedule.instructions ↔ ∃ inst ∈ schedule.instructions, inst.name ∉
              dropNames schedule dropEvicts residents ∧
            rewritten schedule dropEvicts residents inst = after) := by
    intro hDrop hShrunk
    simp [hDrop, rewritten_idle hDrop hShrunk]
  unfold hoistResidentParameterTransfers
  split
  · next hNone =>
    subst hNone
    exact hIdle idle_of_nothing_selected.1 idle_of_nothing_selected.2
  · split
    · next hNothing => exact hIdle hNothing.1 (List.isEmpty_iff.mp hNothing.2)
    · simp only [mem_map, mem_filter,
        decide_not, Bool.not_eq_true', decide_eq_false_iff_not, and_assoc]

theorem waits_iff (hDistinct : Distinct schedule) (a b : InstructionId) :
    Waits (hoistResidentParameterTransfers schedule dropEvicts residents) a b ↔
      Waits schedule a b ∧ a ∉ dropNames schedule dropEvicts residents ∧
        b ∉ dropNames schedule dropEvicts residents := by
  constructor
  · rintro ⟨after, hAfter, hName, hDep⟩
    rcases mem_hoisted.mp hAfter with ⟨inst, hInst, hKept, rfl⟩
    rw [rewritten_name] at hName
    rw [rewritten_dependsOn hDistinct hInst, mem_filter] at hDep
    subst hName
    refine ⟨⟨inst, hInst, rfl, hDep.1⟩, ?_, hKept⟩
    simpa using hDep.2
  · rintro ⟨⟨inst, hInst, hName, hDep⟩, hA, hB⟩
    subst hName
    refine ⟨rewritten schedule dropEvicts residents inst, mem_hoisted.mpr ⟨inst, hInst, hB, rfl⟩,
      rewritten_name inst, ?_⟩
    rw [rewritten_dependsOn hDistinct hInst, mem_filter]
    exact ⟨hDep, by simpa using hA⟩

/- A kept instruction is no dropped one. -/
theorem Kept.not_mem (hDistinct : Distinct schedule)
    (hKept : Kept schedule dropEvicts residents name) :
    name ∉ dropNames schedule dropEvicts residents := by
  rcases hKept with ⟨inst, hInst, hName, hStays⟩
  rw [mem_dropNames]
  rintro ⟨other, hOther, hOtherName, hDrop⟩
  have hSame : other = inst := inj_on_of_nodup_map hDistinct hOther hInst
    (hOtherName.trans hName.symm)
  rw [hSame, hStays] at hDrop
  cases hDrop

theorem Kept.of_waits {a b : InstructionId} (hWaits : Waits schedule a b)
    (hStays : b ∉ dropNames schedule dropEvicts residents) :
    Kept schedule dropEvicts residents b := by
  rcases hWaits with ⟨inst, hInst, hName, _⟩
  refine ⟨inst, hInst, hName, ?_⟩
  cases hDrop : dropped dropEvicts residents inst with
  | false => rfl
  | true => exact absurd (mem_dropNames.mpr ⟨inst, hInst, hName, hDrop⟩) hStays

/- The new order runs along kept instructions. -/
theorem ancestor_iff (hDistinct : Distinct schedule) {a b : InstructionId}
    (hKept : Kept schedule dropEvicts residents a) :
    Ancestor (hoistResidentParameterTransfers schedule dropEvicts residents) a b ↔
      Relation.TransGen (Bypass.Among (Waits schedule)
        (Kept schedule dropEvicts residents)) a b := by
  have hAmong : ∀ x y, Kept schedule dropEvicts residents x →
      Waits (hoistResidentParameterTransfers schedule dropEvicts residents) x y →
      Bypass.Among (Waits schedule) (Kept schedule dropEvicts residents) x y := by
    intro x y hX hWaits
    rcases (waits_iff hDistinct x y).mp hWaits with ⟨hOld, _, hY⟩
    exact ⟨hOld, hX, Kept.of_waits hOld hY⟩
  constructor
  · intro hPath
    induction hPath with
    | single hWaits => exact Relation.TransGen.single (hAmong _ _ hKept hWaits)
    | tail hPath hWaits ih =>
      apply ih.tail
      apply hAmong _ _ _ hWaits
      rcases Relation.TransGen.tail'_iff.mp ih with ⟨_, _, hLast⟩
      exact hLast.2.2
  · intro hPath
    refine hPath.lift id ?_
    intro x y hEdge
    exact (waits_iff hDistinct x y).mpr ⟨hEdge.1, hEdge.2.1.not_mem hDistinct,
      hEdge.2.2.not_mem hDistinct⟩

end Facts

end Hoist

/-
  Hoisting keeps the order of the instructions it keeps iff
  each chain of dropped instructions between two kept ones
  is bypassed by dependencies among kept ones.
-/
theorem hoist_keeps_order_iff (schedule : ExecutableSchedule) (hDistinct : Hoist.Distinct schedule)
    (dropEvicts : Bool) (residents : Hoist.Residents) :
    (∀ a b, Hoist.Kept schedule dropEvicts residents a →
        Hoist.Kept schedule dropEvicts residents b → Ancestor schedule a b →
        Ancestor (hoistResidentParameterTransfers schedule dropEvicts residents) a b) ↔
      Bypass.Covered (Waits schedule) (Hoist.Kept schedule dropEvicts residents) := by
  rw [← Bypass.covered_iff]
  constructor
  · intro hOrder a b hA hB hPath
    exact (Hoist.ancestor_iff hDistinct hA).mp (hOrder a b hA hB hPath)
  · intro hOrder a b hA hB hPath
    exact (Hoist.ancestor_iff hDistinct hA).mpr (hOrder a b hA hB hPath)

/- Three layers that share a device; one weight stays. -/
def threeLayers : BuildInput :=
  { placements :=
      [{ regionId := "A", device := "cuda_0", stateBytes := 4 },
        { regionId := "B", device := "cuda_0", dependsOn := ["A"], stateBytes := 4 },
        { regionId := "C", device := "cuda_0", dependsOn := ["B"], stateBytes := 4 }]
    program := some
      { regions :=
          [{ regionId := "A", inputs := ["x", "u"], outputs := ["a"], stateInputs := ["u"] },
            { regionId := "B", inputs := ["a", "v"], outputs := ["b"], stateInputs := ["v"] },
            { regionId := "C", inputs := ["b", "w"], outputs := ["c"], stateInputs := ["w"] }]
        userInputs := ["x"]
        nodup_values := by decide
        outputRefs := [.value "c"] }
    prefetchDistance := 0 }

/- What hangs on a Compute when all weights stay. -/
def layerChains : List (InstructionId × InstructionId) :=
  [("compute::A", "evict::state::A"), ("compute::A", "transfer::state::B->cuda_0"),
    ("compute::B", "evict::state::B"), ("compute::B", "transfer::state::C->cuda_0"),
    ("compute::C", "evict::state::C")]

/- With all weights resident, each Compute still waits for
   the one before. -/
theorem resident_layers_keep_order :
    Hoist.Distinct threeLayers.lowered ∧ ∀ a b, Hoist.Kept threeLayers.lowered true none a →
      Hoist.Kept threeLayers.lowered true none b → Ancestor threeLayers.lowered a b →
      Ancestor (hoistResidentParameterTransfers threeLayers.lowered true none) a b := by
  have hDistinct : Hoist.Distinct threeLayers.lowered := by decide
  refine ⟨hDistinct, ?_⟩
  apply (hoist_keeps_order_iff threeLayers.lowered hDistinct true none).mpr
  have hFirst : ∀ inst ∈ threeLayers.lowered.instructions,
    ∀ dep ∈ inst.dependsOn, Hoist.Kept threeLayers.lowered true none dep →
      ¬ Hoist.Kept threeLayers.lowered true none inst.name →
      (dep, inst.name) ∈ layerChains := by decide
  have hNext : ∀ chain ∈ layerChains, ∀ inst ∈ threeLayers.lowered.instructions,
    chain.2 ∈ inst.dependsOn → ¬ Hoist.Kept threeLayers.lowered true none inst.name →
    (chain.1, inst.name) ∈ layerChains := by decide
  have hBridge : ∀ chain ∈ layerChains,
      ∀ inst ∈ threeLayers.lowered.instructions, chain.2 ∈ inst.dependsOn →
        Hoist.Kept threeLayers.lowered true none inst.name →
        Waits threeLayers.lowered chain.1 inst.name := by
    decide
  intro a d b hA hB hChain hEdge
  have hListed : (a, d) ∈ layerChains := by
    clear hEdge
    induction hChain with
    | first hWaits hRemoved =>
      rcases hWaits with ⟨inst, hInst, rfl, hDep⟩
      exact hFirst inst hInst a hDep hA hRemoved
    | next _ hWaits hRemoved ih =>
      rcases hWaits with ⟨inst, hInst, rfl, hDep⟩
      exact hNext _ ih inst hInst hDep hRemoved
  rcases hEdge with ⟨inst, hInst, rfl, hDep⟩
  have hAround := hBridge _ hListed inst hInst hDep hB
  exact Relation.TransGen.single ⟨hAround, hA, hB⟩

/-
  The copy of `w` waited for the Evict of `u` through the
  instructions of the resident `v`. After hoisting it waits
  for nothing, so both weights can be on the device.
-/
theorem hoisting_loses_evict_before_copy :
    Hoist.Kept threeLayers.lowered true (some ["v"]) "evict::state::A" ∧
      Hoist.Kept threeLayers.lowered true (some ["v"]) "transfer::state::C->cuda_0" ∧
      Ancestor threeLayers.lowered "evict::state::A" "transfer::state::C->cuda_0" ∧
      ¬ Ancestor (hoistResidentParameterTransfers threeLayers.lowered true (some ["v"]))
        "evict::state::A" "transfer::state::C->cuda_0" := by
  refine ⟨by decide, by decide, ?_, ?_⟩
  · have hCopy : Waits threeLayers.lowered "evict::state::A"
      "transfer::state::B->cuda_0" := by decide
    have hCompute : Waits threeLayers.lowered "transfer::state::B->cuda_0" "compute::B" := by decide
    have hEvict : Waits threeLayers.lowered "compute::B" "evict::state::B" := by decide
    have hNext : Waits threeLayers.lowered "evict::state::B"
      "transfer::state::C->cuda_0" := by decide
    exact (((Relation.TransGen.single hCopy).tail hCompute).tail hEvict).tail hNext
  · intro hPath
    rcases Relation.TransGen.tail'_iff.mp hPath with ⟨before, _, inst, hInst, hName, hDep⟩
    have hNone : ∀ inst ∈ (hoistResidentParameterTransfers
      threeLayers.lowered true (some ["v"])).instructions,
      inst.name = "transfer::state::C->cuda_0" → inst.dependsOn = [] := by decide
    rw [hNone inst hInst hName] at hDep
    cases hDep

end TensorTorrent
