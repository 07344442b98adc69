import TensorTorrent.Executor.Stocked
import TensorTorrent.Runtime.ActivationSlots
import TensorTorrent.Schedule.Emitted

/-
  This file says when the slots that a program's activations
  share are safe in the order the region executor runs it.
  The slots are planned for the order in which the regions
  are listed, but the executor runs them level by level.

  Main declarations:
    * `slots_safe_iff_waves_safe`
-/

namespace TensorTorrent

open List

variable {schedule : ExecutableSchedule}

----
-- Safe Overwrites
----

variable (program : RegionProgram) (around : Surroundings) (idx : Index schedule)

/-
  No other tensor of the slot that exists by then has a
  reader that is still to run, or is an output.
-/
def Overwrite.Safe (entry : Overwrite) : Prop :=
  ∀ t, t ≠ entry.tensor → reuseAssignment program t = some entry.slot → t ∈ entry.produced →
    t ∉ program.graphOutputs ∧ ∀ region ∈ program.regions, t ∈ region.inputs →
      region.regionId ∈ entry.executed

/- The state after a forward over the schedule. -/
def slotForward (schedule : ExecutableSchedule) (world : World SlotRun) : World SlotRun :=
  (Command.exec (executeRegionCbInline around.host around.options
      (regionHandler program around) around.instructionCb
      schedule)
    world).2

/- Every overwrite of every forward is safe. -/
def SlotsSafe (schedule : ExecutableSchedule) : Prop :=
  ∀ around world allocator, world.env = .start allocator →
    ∀ entry ∈ (slotForward program around schedule world).env.overwrites, entry.Safe program

def IsCompute : Prop :=
  (instAt idx).opcode = .compute

instance (idx : Index schedule) : Decidable (IsCompute idx) :=
  inferInstanceAs (Decidable (_ = _))

def regionIdAt : RegionId :=
  (invocation (instAt idx)).regionId

/- Outputs that a Compute publishes. -/
def outputsAt : List TensorId :=
  outputsOf program (regionIdAt idx)

/-
  When a Compute comes after another in the executor's
  order and the two have outputs in one slot, the older
  tensor is no output of the model and all its readers come
  no later than the second Compute.
-/
def WaveSafe (schedule : ExecutableSchedule) : Prop :=
  ∀ i j : Index schedule, IsCompute i → IsCompute j → Earlier i j →
    ∀ t ∈ outputsAt program i, ∀ u ∈ outputsAt program j, t ≠ u →
      (reuseAssignment program t).isSome = true →
      reuseAssignment program t = reuseAssignment program u →
      t ∉ program.graphOutputs ∧ ∀ region ∈ program.regions, t ∈ region.inputs →
        ∃ k : Index schedule, IsCompute k ∧ regionIdAt k = region.regionId ∧ (k = j ∨ Earlier k j)

instance (program : RegionProgram)
    (schedule : ExecutableSchedule) : Decidable (WaveSafe program schedule) :=
  inferInstanceAs (Decidable (∀ i j : Index schedule,
    _ → _ → _ → ∀ t ∈ outputsAt program i, ∀ u ∈ outputsAt program j,
      _ → _ → _ → _ ∧ ∀ region ∈ program.regions, _ → ∃ _ : Index schedule, _))

----
-- A Forward Replays the Waves
----

/- What holds level by level holds after a forward. -/
theorem slotForward_levels (hAccepted : Accepted schedule) (inv : Nat → World SlotRun → Prop)
    (failed : World SlotRun → Prop)
    (hTurn : ∀ bound state, AtLevel bound state → Command.Triple (inv bound)
      (regionWave around.host around.options (regionHandler program around)
        around.instructionCb state)
      (fun next world =>
        Command.TurnPost True (fun _ : LoopState schedule => inv (bound + 1) world) next)
      (fun _ world => failed world)) (world : World SlotRun) (hStart : inv 0 world) :
    failed (slotForward program around schedule world) ∨
      AfterLastLevel schedule inv (slotForward program around schedule world) := by
  have hRun := executeRegionCbInline_levels hAccepted _ _ _ _ inv failed hTurn world hStart
  unfold slotForward
  split at hRun
  all_goals
    rename_i hExec
    rw [hExec]
  · exact .inr hRun
  · exact hRun

section Forward

variable (program : RegionProgram) (around : Surroundings)

/- Steps of the Computes below a level, in order. -/
def stepsBelow (schedule : ExecutableSchedule) (bound : Nat) : List RegionStep :=
  (computesBelow schedule bound).flatMap (fun idx => stepsOf program (regionIdAt idx))

theorem stepsBelow_succ (schedule : ExecutableSchedule) (bound : Nat) :
    stepsBelow program schedule (bound + 1) = stepsBelow program schedule bound ++
      (invocations (wave schedule bound)).flatMap (fun inv => stepsOf program inv.regionId) := by
  rw [stepsBelow, computesBelow, flatMap_append]
  simp [stepsBelow, invocations, flatMap_map, regionIdAt]

/- All steps below a level, and no others, have run. -/
def ReplayedBelow (schedule : ExecutableSchedule) (run : SlotRun)
    (bound : Nat) (now : SlotRun) : Prop :=
  now = replayed program around (stepsBelow program schedule bound) run

/- A front of the steps of the waves has run. -/
def Replays (schedule : ExecutableSchedule) (run now : SlotRun) : Prop :=
  ∃ bound steps, steps <+: stepsBelow program schedule bound ∧
    now = replayed program around steps run

variable {program around}

theorem ReplayedBelow.replays {run now : SlotRun} {bound : Nat}
    (hNow : ReplayedBelow program around schedule run bound now) :
    Replays program around schedule run now :=
  ⟨bound, _, prefix_rfl, hNow⟩

variable (around)

/- The region batch of a level replays its steps. -/
theorem batchDoes_wave (schedule : ExecutableSchedule) (run : SlotRun) (bound : Nat) :
    BatchDoes (regionHandler program around) (ReplayedBelow program around schedule run bound)
      (ReplayedBelow program around schedule run (bound + 1))
      (Replays program around schedule run)
      (invocations (wave schedule bound)) := by
  intro world hEnv
  have hBatch := regionHandler_replays program around (invocations (wave schedule bound)) world
  rw [show world.env = _ from hEnv] at hBatch
  cases hRun : regionHandler program around (invocations (wave schedule bound)) world with
  | mk result next =>
    rw [hRun] at hBatch
    cases result with
    | ok value =>
      simp only at hBatch ⊢
      rw [ReplayedBelow, hBatch, stepsBelow_succ, replayed_append]
    | error err =>
      rcases hBatch with ⟨steps, hPrefix, hNext⟩
      refine ⟨bound + 1, stepsBelow program schedule bound ++ steps, ?_, ?_⟩
      · rw [stepsBelow_succ]
        exact (prefix_append_right_inj _).mpr hPrefix
      · rw [hNext, replayed_append]

section

variable (hAccepted : Accepted schedule) (hPlain : ComputesAndReleases schedule)

include hAccepted hPlain

/- A turn at a level replays the steps of its Computes. -/
theorem regionWave_replays (run : SlotRun) (bound : Nat) (state : LoopState schedule)
    (hLevel : AtLevel bound state) : Command.Triple (fun world =>
        ReplayedBelow program around schedule run bound world.env)
      (regionWave around.host around.options (regionHandler program around) around.instructionCb
        state)
      (fun next world =>
        Command.TurnPost True (fun _ =>
            ReplayedBelow program around schedule run (bound + 1) world.env)
          next)
      (fun _ world => Replays program around schedule run world.env) := by
  have hWave : readyComputes state = wave schedule bound := hLevel.computes_eq_wave hAccepted
  refine regionWave_env _ _ state hPlain
    (around.sides (ReplayedBelow program around schedule run bound))
    (around.sides (ReplayedBelow program around schedule run (bound + 1)))
    (fun _ h => h.replays) (fun _ h => h.replays) ?_ ?_
  · intro hNone env hEnv
    rw [hWave] at hNone
    rw [ReplayedBelow, show env = _ from hEnv, stepsBelow_succ, hNone]
    simp [invocations]
  · intro _
    rw [hWave]
    exact batchDoes_wave around schedule run bound

/- A forward replays a front of the steps of the waves. -/
theorem slotForward_replays (world : World SlotRun) :
    Replays program around schedule world.env (slotForward program around schedule world).env := by
  rcases slotForward_levels program around hAccepted
    (fun bound now => ReplayedBelow program around schedule world.env bound now.env)
    (fun now => Replays program around schedule world.env now.env)
    (regionWave_replays around hAccepted hPlain world.env)
    world rfl with hFailed | ⟨bound, _, hEnv⟩
  · exact hFailed
  · exact hEnv.replays

end

end Forward

----
-- Safe Waves Are Enough
----

/- A place in a concatenation lies in one of its parts. -/
private theorem flatMap_split {α β : Type} (f : α → List β) {list : List α} {front back : List β}
    {x : β} (hSplit : list.flatMap f = front ++ x :: back) :
    ∃ before item after pre post, list = before ++ item :: after ∧ f item = pre ++ x :: post ∧
      front = before.flatMap f ++ pre := by
  induction list generalizing front with
  | nil => simp at hSplit
  | cons head list ih =>
    rw [flatMap_cons] at hSplit
    rcases append_eq_append_iff.mp hSplit with ⟨rest, hFront, hRest⟩ | ⟨rest, hHead, hRest⟩
    · rcases ih hRest with ⟨before, item, after, pre, post, rfl, hItem, rfl⟩
      exact ⟨head :: before, item, after, pre, post, rfl, hItem, by simp [hFront]⟩
    · cases rest with
      | nil =>
        have hAll : list.flatMap f = [] ++ x :: back := hRest.symm
        rcases ih hAll with ⟨before, item, after, pre, post, rfl, hItem, hNil⟩
        refine ⟨head :: before, item, after, pre, post, rfl, hItem, ?_⟩
        rw [append_nil] at hHead
        rw [flatMap_cons, append_assoc, ← hNil, append_nil, hHead]
      | cons first rest =>
        cases hRest
        exact ⟨[], head, list, front, rest, rfl, hHead, by simp⟩

section Enough

variable {program : RegionProgram}

theorem regionIdAt_mem_front {before : List (Index schedule)} {k : Index schedule}
    (hMember : k ∈ before) (hKnown : (program.region (regionIdAt k)).isSome = true) :
    .ran (regionIdAt k) ∈ before.flatMap (fun idx => stepsOf program (regionIdAt idx)) :=
  mem_flatMap.mpr ⟨k, hMember, (mem_stepsOf_ran program _ _).mpr ⟨rfl, hKnown⟩⟩

/- In safe waves, each publication of a run is safe. -/
theorem stores_safe (hWaves : WaveSafe program schedule) {around : Surroundings}
    {allocator : ActivationAllocator} {bound : Nat} {front back : List RegionStep} {out : TensorId}
    (hSplit : stepsBelow program schedule bound = front ++ .publish out :: back) {entry : Overwrite}
    (hStores : SlotRun.Stores (reuseAssignment program) around.like
      (replayed program around front (.start allocator)) out entry) :
    entry.Safe program := by
  rcases flatMap_split _ hSplit with ⟨before, j, after, pre, post, hOrder, hSteps, rfl⟩
  have hComputeJ : IsCompute j := ((mem_computesBelow bound j).mp (by simp [hOrder])).1
  have hOut : out ∈ outputsAt program j := by
    refine (mem_stepsOf_publish program _ _).mp ?_
    rw [hSteps]
    simp
  intro t hNe hSlot hProduced
  rw [hStores.produced, replayed, SlotRun.mem_produced_replay] at hProduced
  rw [hStores.tensor] at hNe
  rcases mem_append.mp (hProduced.resolve_left not_mem_nil) with hBefore | hHere
  · -- An output of an earlier Compute.
    rcases mem_flatMap.mp hBefore with ⟨i, hI, hT⟩
    have hEarlier := (mem_front_iff hOrder i).mp hI
    have hSafe := hWaves i j hEarlier.1 hComputeJ hEarlier.2
      t ((mem_stepsOf_publish program _ _).mp hT) out hOut
      hNe (by simp [hSlot]) (by rw [hSlot, hStores.slot])
    refine ⟨hSafe.1, ?_⟩
    intro region hRegion hReads
    rcases hSafe.2 region hRegion hReads with ⟨k, hComputeK, hId, hOrderK⟩
    rw [hStores.executed, replayed, SlotRun.mem_executed_replay, ← hId]
    refine .inr (mem_append.mpr ?_)
    rcases hOrderK with rfl | hEarlierK
    · exact .inr (stepsOf_split program hSteps)
    · refine .inl (regionIdAt_mem_front ((mem_front_iff hOrder k).mpr ⟨hComputeK, hEarlierK⟩) ?_)
      rw [hId]
      exact RegionProgram.region_isSome hRegion
  · -- Another output of the same region.
    have hT : t ∈ outputsAt program j := by
      refine (mem_stepsOf_publish program _ _).mp ?_
      rw [hSteps]
      simp [hHere]
    unfold outputsAt outputsOf at hT hOut
    cases hRegion : program.region (regionIdAt j) with
    | none => simp [hRegion] at hT
    | some region =>
      rw [hRegion] at hT hOut
      exact absurd hStores.slot (reuseAssignment_same_region
        (RegionProgram.region_eq_some hRegion).1 hT hOut
        hNe hSlot)

theorem slotsSafe_of_waveSafe (hAccepted : Accepted schedule)
    (hPlain : ComputesAndReleases schedule) (hWaves : WaveSafe program schedule) :
    SlotsSafe program schedule := by
  intro around world allocator hStart entry hEntry
  rcases slotForward_replays around hAccepted hPlain world with ⟨bound, steps, ⟨rest, hSteps⟩, hEnv⟩
  rw [hEnv, hStart, replayed, SlotRun.mem_overwrites_replay] at hEntry
  rcases hEntry.resolve_left not_mem_nil with ⟨front, out, back, rfl, hStores⟩
  have hWhole : stepsBelow program schedule bound = front ++ .publish out :: (back ++ rest) := by
    rw [← hSteps, append_assoc, cons_append]
  exact stores_safe hWaves hWhole hStores

end Enough

----
-- Safe Waves Are Necessary
----

section Necessary

variable {program : RegionProgram}

/- Every slot has a buffer that fits an empty tensor. -/
def fullAllocator : ActivationAllocator :=
  { buffers := fun _ => some
      { generation := 0, numel := 1, device := "cpu" } }

def emptyLike : Like :=
  { nbytes := 0, device := "cpu" }

/- Surroundings in which nothing fails. -/
def smoothSurroundings : Surroundings :=
  { host :=
      { cancelRaised := fun _ => false
        virtualCompute := fun _ _ _ world => (.ok (), world)
        virtualTransfer := fun _ _ _ _ world => (.ok (), world)
        writeSpill := fun _ _ world => (.error "no spills", world)
        readSpill := fun _ world => (.error "no spills", world)
        removeSpill := fun _ world => world
        prefetch := fun _ world => world }
    options := .default, instructionCb := none
    like := fun _ _ => some emptyLike
    stops := fun _ _ => none
    mirror := fun _ world => { world.ctx with residency := stock }
    sides := fun _ =>
      { virtualCompute := fun _ _ _ _ h => h
        handleRelease := fun _ h => nomatch h
        parameterLoad := rfl } }

/- A forward over full slots and a full residency store. -/
def smoothWorld : World SlotRun :=
  { ctx := .fromResidency 0 stock, env := .start fullAllocator
    clock := 0, collected := [] }

theorem smooth_quiet : QuietHost smoothSurroundings.host :=
  ⟨fun _ => rfl, fun _ _ _ _ => rfl⟩

/- In these surroundings the buffers stay as they are. -/
theorem smooth_allocator (steps : List RegionStep) {run : SlotRun}
    (hFull : run.allocator = fullAllocator) :
    (replayed program smoothSurroundings steps run).allocator = fullAllocator := by
  induction steps generalizing run with
  | nil => exact hFull
  | cons step steps ih =>
    refine ih ?_
    cases step with
    | ran id => exact hFull
    | publish out =>
      simp only [SlotRun.perform, SlotRun.publish]
      split
      · next slot value _ hValue =>
        cases hValue
        rw [hFull]
        exact ActivationAllocator.acquire_of_reuses (by rfl)
      · exact hFull

/- Regions of the program succeed and refill the store. -/
theorem smooth_refills {batch : List (Index schedule)}
    (hKnown : ∀ idx ∈ batch, (program.region (regionIdAt idx)).isSome = true) :
    Refills (regionHandler program smoothSurroundings) batch := by
  induction batch with
  | nil => exact fun hNonempty => absurd rfl hNonempty
  | cons idx batch ih =>
    intro _ world
    rcases Option.isSome_iff_exists.mp (hKnown idx (by simp)) with ⟨region, hRegion⟩
    have hFirst : runRegion program smoothSurroundings (regionIdAt idx) world =
        (.ok (), { world with
          ctx := { world.ctx with residency := stock }
          env := replayed program smoothSurroundings (regionSteps region) world.env }) := by
      simp only [runRegion, hRegion]
      rfl
    have hHandler : ∀ next, runRegion program smoothSurroundings
          (regionIdAt idx) world = (.ok (), next) →
        regionHandler program smoothSurroundings (invocations (idx :: batch)) world =
          regionHandler program smoothSurroundings (invocations batch) next := by
      intro next hNext
      simp only [invocations, map_cons, regionHandler]
      rw [← regionIdAt, hNext]
    rw [hHandler _ hFirst]
    by_cases hRest : batch = []
    · subst hRest
      exact ⟨_, rfl, rfl⟩
    · exact ih (fun other hOther => hKnown other (by simp [hOther])) hRest _

section

variable (hAccepted : Accepted schedule) (hPlain : ComputesAndReleases schedule)
variable (hOnce : ReleasesOnce schedule)
variable (hKnown : ∀ idx : Index schedule, IsCompute idx →
    (program.region (regionIdAt idx)).isSome = true)

include hAccepted hPlain hOnce hKnown

/- The whole order runs in these surroundings. -/
theorem smooth_runs : ∃ bound, (∀ idx : Index schedule, levelOf idx < bound) ∧
    ReplayedBelow program smoothSurroundings schedule smoothWorld.env bound
      (slotForward program smoothSurroundings schedule smoothWorld).env := by
  have hRun := slotForward_levels program smoothSurroundings hAccepted (fun bound world =>
      ReplayedBelow program smoothSurroundings schedule smoothWorld.env bound world.env ∧
        StockedIn (takenBelow schedule bound) world)
    (fun _ => False) ?_ smoothWorld ⟨rfl, stockedWithout_stock _⟩
  · rcases hRun with hNever | ⟨bound, hLast, hEnv, _⟩
    · exact hNever.elim
    · exact ⟨bound, hLast, hEnv⟩
  · intro bound state hLevel
    have hComputes : ∀ idx ∈ readyComputes state, (program.region (regionIdAt idx)).isSome =
        true := by
      intro idx hIdx
      rw [show readyComputes state = _ from hLevel.computes_eq_wave hAccepted, mem_wave] at hIdx
      exact hKnown idx hIdx.1
    refine Command.Triple.conseq ((regionWave_replays
        smoothSurroundings hAccepted hPlain smoothWorld.env bound state hLevel).both
          (regionWave_stocks smooth_quiet rfl state _ hAccepted hPlain hOnce rfl hLevel
            (smooth_refills hComputes)))
      (fun _ h => h) ?_ (fun _ _ h => h.2)
    rintro next world ⟨hReplayed, hStocked⟩
    cases next with
    | none => exact trivial
    | some next => exact ⟨hReplayed, hStocked⟩

theorem waveSafe_of_slotsSafe (hSafe : SlotsSafe program schedule) : WaveSafe program schedule := by
  intro i j hComputeI hComputeJ hEarlier t hT u hU hNe hSlotted hShared
  rcases Option.isSome_iff_exists.mp hSlotted with ⟨slot, hSlotT⟩
  rcases smooth_runs hAccepted hPlain hOnce hKnown with ⟨bound, hLast, hEnv⟩
  -- The place where the second tensor is published.
  rcases append_of_mem ((mem_computesBelow bound j).mpr ⟨hComputeJ, hLast j⟩) with
    ⟨before, after, hOrder⟩
  rcases append_of_mem ((mem_stepsOf_publish program _ _).mpr hU) with ⟨pre, post, hSteps⟩
  let front := before.flatMap
    (fun idx => stepsOf program (regionIdAt idx)) ++ pre
  have hSplit : stepsBelow program schedule bound =
      front ++ .publish u :: (post ++ after.flatMap (fun idx =>
        stepsOf program (regionIdAt idx))) := by
    simp [stepsBelow, hOrder, hSteps, front]
  let run := replayed program smoothSurroundings front
    smoothWorld.env
  have hEntry := hSafe smoothSurroundings smoothWorld fullAllocator rfl
    { slot := slot, tensor := u, executed := run.executed, produced := run.produced } ?_
  · have hProduced : t ∈ run.produced := by
      refine (SlotRun.mem_produced_replay t front _).mpr (Or.inr (mem_append.mpr (Or.inl ?_)))
      refine mem_flatMap.mpr ⟨i, ?_, ?_⟩
      · exact (mem_front_iff hOrder i).mpr ⟨hComputeI, hEarlier⟩
      · exact (mem_stepsOf_publish program _ _).mpr hT
    rcases hEntry t hNe hSlotT hProduced with ⟨hKept, hReaders⟩
    refine ⟨hKept, ?_⟩
    intro region hRegion hReads
    have hRan := (SlotRun.mem_executed_replay _ front _).mp (hReaders region hRegion hReads)
    rcases mem_append.mp (hRan.resolve_left not_mem_nil) with hBefore | hHere
    · rcases mem_flatMap.mp hBefore with ⟨k, hK, hId⟩
      rcases (mem_front_iff hOrder k).mp hK with ⟨hComputeK, hEarlierK⟩
      exact ⟨k, hComputeK, ((mem_stepsOf_ran program _ _).mp hId).1.symm, Or.inr hEarlierK⟩
    · refine ⟨j, hComputeJ, ?_, Or.inl rfl⟩
      have hIn : .ran region.regionId ∈ stepsOf program (regionIdAt j) := by
        rw [hSteps]
        simp [hHere]
      exact ((mem_stepsOf_ran program _ _).mp hIn).1.symm
  · rw [hEnv, replayed, SlotRun.mem_overwrites_replay]
    refine .inr ⟨front, u, _, hSplit, ?_, ?_, rfl, rfl, rfl⟩
    · rw [← hShared, hSlotT]
    · have hFull : run.allocator = fullAllocator := smooth_allocator front rfl
      refine ⟨emptyLike, rfl, ?_⟩
      change run.allocator.reuses slot emptyLike = true
      rw [hFull]
      rfl

end

end Necessary

----
-- Built Schedules
----

section Built

variable {input : BuildInput}

theorem computesAndReleases_lowered
    (hOps : ∀ inst ∈ input.lowered.instructions, inst.opcode = .compute ∨ inst.opcode = .release) :
    ComputesAndReleases input.lowered := by
  intro inst hInst
  rcases hOps inst hInst with hCompute | hRelease
  · rcases mem_lowered_compute hInst hCompute with ⟨placement, _, deps, rfl⟩
    refine .inl ⟨rfl, ?_⟩
    unfold isNativeLaunch Instruction.attrBool Instruction.attr
    simp only [PlanStreams.withExplicitStreams, BuildInput.computeOp, mockDelayAttrs]
    split <;> simp [List.lookup_cons]
  · rcases mem_lowered_release hInst hRelease with ⟨producer, out, raw, deps, attrs, hMade, rfl⟩
    rcases hMade.made with ⟨emitted, rfl⟩
    refine .inr ⟨rfl, ?_, rfl, rfl, rfl⟩
    simp [Instruction.kind, Instruction.attrStr, Instruction.attr, PlanStreams.withExplicitStreams,
      BuildInput.releaseOp, AttrValue.asStr]

/- One Release for each tensor: they are named after it. -/
theorem releasesOnce_lowered (hAccepted : Accepted input.lowered) : ReleasesOnce input.lowered := by
  have hShape : ∀ idx : Index input.lowered, (instAt idx).opcode = .release →
      ∃ out, (instAt idx).inputs = [out] ∧ (instAt idx).name = "release::" ++ out := by
    intro idx hRelease
    rcases mem_lowered_release (instAt_mem idx) hRelease with
      ⟨producer, out, raw, deps, attrs, hMade, hInst⟩
    rcases hMade.made with ⟨emitted, rfl⟩
    exact ⟨out, by rw [hInst]; rfl, by rw [hInst]; rfl⟩
  refine ⟨?_, ?_⟩
  · intro idx hRelease
    rcases hShape idx hRelease with ⟨out, hInputs, _⟩
    rw [hInputs]
    exact nodup_singleton out
  · intro i j hI hJ tensor hTensorI hTensorJ
    rcases hShape i hI with ⟨outI, hInputsI, hNameI⟩
    rcases hShape j hJ with ⟨outJ, hInputsJ, hNameJ⟩
    rw [hInputsI, mem_singleton] at hTensorI
    rw [hInputsJ, mem_singleton] at hTensorJ
    refine hAccepted.instAt_injective ?_
    rw [hNameI, hNameJ, ← hTensorI, ← hTensorJ]

theorem regionIdAt_lowered {idx : Index input.lowered} (hCompute : IsCompute idx) :
    ∃ placement ∈ input.placements, regionIdAt idx = placement.regionId := by
  rcases mem_lowered_compute (instAt_mem idx) hCompute with ⟨placement, hPlacement, deps, hInst⟩
  refine ⟨placement, hPlacement, ?_⟩
  rw [regionIdAt, hInst]
  rfl

end Built

/-
  The slots of a program are safe in every forward over a
  schedule of Computes and Releases that was built for its
  regions, exactly when they are safe in the order of the
  waves.
-/
theorem slots_safe_iff_waves_safe (hashed : ∀ schedule, HashOrder schedule) (input : BuildInput)
    (program : RegionProgram) (schedule : ExecutableSchedule)
    (hPlaced : ∀ placement ∈ input.placements, (program.region placement.regionId).isSome = true)
    (hBuilt : buildExecutableSchedule hashed input = .ok schedule)
    (hOps : ∀ inst ∈ schedule.instructions, inst.opcode = .compute ∨ inst.opcode = .release) :
    SlotsSafe program schedule ↔ WaveSafe program schedule := by
  rcases build_ok hBuilt with ⟨rfl, hAccepted⟩
  have hPlain := computesAndReleases_lowered hOps
  constructor
  · refine waveSafe_of_slotsSafe hAccepted hPlain (releasesOnce_lowered hAccepted) ?_
    intro idx hCompute
    rcases regionIdAt_lowered hCompute with ⟨placement, hPlacement, hId⟩
    rw [hId]
    exact hPlaced placement hPlacement
  · exact slotsSafe_of_waveSafe hAccepted hPlain

/- Four regions in one chain. -/
def oneChain : RegionProgram :=
  { regions :=
      [{ regionId := "A", inputs := ["x"], outputs := ["a"] },
        { regionId := "B", inputs := ["a"], outputs := ["b"] },
        { regionId := "C", inputs := ["b"], outputs := ["c"] },
        { regionId := "D", inputs := ["c"], outputs := ["d"] }]
    userInputs := ["x"]
    values := [{ name := "x", nbytes := 4, kind := .input },
      { name := "a", nbytes := 4, kind := .activation },
      { name := "b", nbytes := 4, kind := .activation },
      { name := "c", nbytes := 4, kind := .activation },
      { name := "d", nbytes := 4, kind := .activation }]
    nodup_values := by decide
    outputRefs := [.value "d"] }

def oneChainPlan : BuildInput :=
  { placements :=
      [{ regionId := "A", device := "cpu" },
        { regionId := "B", device := "cpu", dependsOn := ["A"] },
        { regionId := "C", device := "cpu", dependsOn := ["B"] },
        { regionId := "D", device := "cpu", dependsOn := ["C"] }]
    program := some oneChain }

/- The chain shares a slot between `a` and `c`, safely. -/
theorem one_chain_slots_safe : reuseAssignment oneChain "a" = reuseAssignment oneChain "c" ∧
    SlotsSafe oneChain oneChainPlan.lowered := by
  refine ⟨by decide, ?_⟩
  have hBuilt : buildExecutableSchedule (fun schedule => .listed schedule)
      oneChainPlan = .ok oneChainPlan.lowered :=
    build_eq_ok (by decide)
  exact (slots_safe_iff_waves_safe _ oneChainPlan oneChain _
    (by decide) hBuilt (by decide)).mpr (by decide)

/- Two chains of two regions, listed one after the other. -/
def twoChains : RegionProgram :=
  { oneChain with
    regions :=
      [{ regionId := "A", inputs := ["x"], outputs := ["a"] },
        { regionId := "B", inputs := ["a"], outputs := ["b"] },
        { regionId := "C", inputs := ["x"], outputs := ["c"] },
        { regionId := "D", inputs := ["c"], outputs := ["d"] }]
    outputRefs := [.value "b", .value "d"] }

def twoChainsPlan : BuildInput :=
  { placements :=
      [{ regionId := "A", device := "cpu" },
        { regionId := "B", device := "cpu", dependsOn := ["A"] },
        { regionId := "C", device := "cpu" },
        { regionId := "D", device := "cpu", dependsOn := ["C"] }]
    program := some twoChains }

/- Activations of four bytes on the host. -/
def hostSurroundings : Surroundings :=
  { smoothSurroundings with
    like := fun _ _ => some { nbytes := 4, device := "cpu" }
    mirror := fun _ world => world.ctx }

/- The first forward of an executor. -/
def firstForward : World SlotRun :=
  { ctx := .fromResidency 0
      .empty
    env := .start .new, clock := 0, collected := [] }

/-
  The first wave runs A and C. The slot of `a` is planned to
  be free after B, so `c` overwrites `a` before B reads it.
-/
theorem two_chains_overwrite_unread_activation :
    buildExecutableSchedule (fun schedule => .listed schedule)
        twoChainsPlan = .ok twoChainsPlan.lowered ∧
      (∀ inst ∈ twoChainsPlan.lowered.instructions,
        inst.opcode = .compute ∨ inst.opcode = .release) ∧
      (slotForward twoChains hostSurroundings twoChainsPlan.lowered firstForward).env.overwrites =
        [{ slot := 0, tensor := "c", executed := ["C", "A"], produced := ["a"] }] ∧
      ¬ SlotsSafe twoChains twoChainsPlan.lowered := by
  have hOverwrites : (slotForward twoChains hostSurroundings
    twoChainsPlan.lowered firstForward).env.overwrites =
    [{ slot := 0, tensor := "c", executed := ["C", "A"]
       produced := ["a"] }] := by decide +kernel
  refine ⟨build_eq_ok (by decide), by decide, hOverwrites, ?_⟩
  intro hSafe
  have hEntry := hSafe hostSurroundings firstForward .new rfl _
    (by rw [hOverwrites]; exact mem_singleton.mpr rfl)
  have hB := (hEntry "a" (by decide) (by decide) (by decide)).2
    { regionId := "B", inputs := ["a"], outputs := ["b"] }
    (by decide) (by decide)
  exact absurd hB (by decide)

end TensorTorrent
