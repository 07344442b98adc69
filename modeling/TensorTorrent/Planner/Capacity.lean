import TensorTorrent.Planner.Problem

/-
  This file says when a larger capacity keeps a placement
  feasible (crate `tt-planner`, `extend_state` and
  `replay_assignment`), and where capacities come from
  (`planner/native.py`, `device_capacity_bytes`).

  Main declarations:
    * `Planner.capacity_monotone_iff`
-/

namespace TensorTorrent.Planner

----
-- Budgets of Devices
----

inductive ComputeClass where
| cpuSocket
| cpuNumaPool
| discreteGpu
| integratedGpu
| accelerator
| copyEngine
deriving DecidableEq, Repr

structure ComputeResource where
  computeClass : ComputeClass
  memoryAffinity : List String

/- Devices, and memories with their allocatable bytes. -/
structure ResourceGraph where
  compute : List (String × ComputeResource)
  memory : List (String × Int)

variable (state : SearchState)
variable (config : PlanningConfig)
variable (machine : ResourceGraph)
variable (problem : PlanningProblem)

def deviceCapacityBytes (deviceName : String) (vramBudgetBytes : Option Int) : Int :=
  match machine.compute.lookup deviceName with
  | none => 0
  | some device =>
    let total :=
      (device.memoryAffinity.filterMap (fun name => (machine.memory.lookup name).map (max 0 ·))).sum
    match vramBudgetBytes with
    | some budget =>
      if device.computeClass ∈ [.discreteGpu, .integratedGpu, .accelerator] then
        if 0 < total then min total budget else budget
      else total
    | none => total

/- The bindings clamp what Python passes: `v.max(0)`. -/
def nativeCapacity (vramBudgetBytes : Option Int) (deviceName : String) : Nat :=
  (deviceCapacityBytes machine deviceName vramBudgetBytes).toNat

----
-- Replays under Other Capacities
----

def PlanningProblem.withCapacities (capacities : List Nat) : PlanningProblem :=
  { problem with capacities := capacities }

/- Replays an assignment on a subset from the start. -/
def replay (subset : List Nat) (assignment : List (Nat × CandidateKernel)) : Option SearchState :=
  replayAssignment (subsetContext problem subset) assignment 0 none

/- Weight of the memory pressure in the score. -/
def pressureWeight : ℚ :=
  match config.objective with
  | .latency => 1 / 10 ^ 9
  | .throughput => 1 / 10 ^ 9
  | .memory => 1 / 10 ^ 3
  | .balanced => 5 / 100
  | .weighted => config.weightMemory

/- The score without its memory-pressure term. -/
def scoreApart (capacities : List Nat) : ℚ :=
  analyticScore state config capacities - pressureWeight config *
    memoryPressure state.peakBytes capacities

theorem scoreApart_eq (c c' : List Nat) :
    scoreApart state config c = scoreApart state config c' := by
  unfold scoreApart analyticScore pressureWeight
  cases config.objective <;> ring

/-
  What succeeds with the capacities `c` succeeds with `c'`,
  with the same state and score apart from the pressure.
-/
def Monotone (c c' : List Nat) : Prop :=
  ∀ (problem : PlanningProblem) (subset : List Nat) (assignment : List (Nat × CandidateKernel))
    (state : SearchState), replay (problem.withCapacities c) subset assignment = some state →
      replay (problem.withCapacities c') subset assignment = some state ∧
        scoreApart state problem.config c' = scoreApart state problem.config c

/-
  No device goes from capacity zero to a capacity that some
  number of bytes exceeds.
-/
def NoneFromZero (c c' : List Nat) : Prop :=
  ∀ device, c.getD device 0 = 0 → c'.getD device 0 = 0 ∨ 2 ^ 64 - 1 ≤ c'.getD device 0

theorem add64_lt (a b : Nat) : add64 a b < 2 ^ 64 :=
  Nat.mod_lt _ (by positivity)

section Capacities

variable {c c' : List Nat} (hLe : ∀ device, c.getD device 0 ≤ c'.getD device 0)
variable (hZero : NoneFromZero c c') (problem : PlanningProblem) (subset : List Nat)

include hLe hZero

/- The step: an extension that fits still fits. -/
theorem extendState_mono {state next : SearchState} {region candIdx : Nat}
    {candidate : CandidateKernel}
    (hRun : extendState (subsetContext (problem.withCapacities c) subset)
      state region candIdx candidate = some next) :
    extendState (subsetContext (problem.withCapacities c') subset)
      state region candIdx candidate = some next := by
  rw [extendState_eq_some_iff] at hRun ⊢
  rcases hRun with ⟨hAllowed, arrival, hArrival, hFits, hPlaced⟩
  refine ⟨hAllowed, arrival, hArrival, ?_, hPlaced⟩
  have hDemand : instantaneous (problem.withCapacities c) region candidate arrival < 2 ^ 64 :=
    add64_lt _ _
  have hDeviceLe := hLe candidate.device
  have hDeviceZero := hZero candidate.device
  change exceeds (c.getD candidate.device 0) (instantaneous (problem.withCapacities c) region
    candidate arrival) = false at hFits
  change exceeds (c'.getD candidate.device 0)
    (instantaneous (problem.withCapacities c) region candidate arrival) = false
  simp only [exceeds, Bool.and_eq_false_iff, decide_eq_false_iff_not] at hFits ⊢
  omega

/- The run: so does a whole replay. -/
theorem extendAll_mono :
    ∀ (choices : List (Nat × Nat × CandidateKernel)) {state last : SearchState},
      extendAll (subsetContext (problem.withCapacities c) subset) state choices = some last →
      extendAll (subsetContext (problem.withCapacities c') subset) state choices = some last := by
  intro choices
  induction choices with
  | nil => exact fun hRun => hRun
  | cons choice rest ih =>
    intro state last hRun
    rcases Option.bind_eq_some_iff.mp hRun with ⟨next, hNext, hRest⟩
    exact Option.bind_eq_some_iff.mpr ⟨next, extendState_mono hLe hZero problem subset hNext,
      ih hRest⟩

end Capacities

----
-- A Region That Needs More
----

/- One region without inputs, placed on a given device. -/
def soloProblem (device : Nat) : PlanningProblem :=
  { regions := [{ name := "r0" }]
    order := [0], candidates := [], deviceNames := List.replicate (device + 1) "accel"
    capacities := [], deviceMemory := [] }

/- Its kernel needs the given workspace. -/
def soloKernel (device workspace : Nat) : CandidateKernel :=
  { device := device, estimatedLatencyS := 1, workspaceBytes := workspace }

theorem allowedMask_solo (device : Nat) :
    (allowedMask (soloProblem device) [device]).getD device false = true := by
  simp [allowedMask, soloProblem]

/- It is placed unless its workspace exceeds the capacity. -/
theorem replay_solo (device workspace : Nat) (hWorkspace : workspace < 2 ^ 64)
    (capacities : List Nat) : (∃ state, replay ((soloProblem device).withCapacities capacities)
        [device] [(0, soloKernel device workspace)] = some state) ↔
      exceeds (capacities.getD device 0) workspace = false := by
  have hDemand : instantaneous ((soloProblem device).withCapacities capacities) 0
      (soloKernel device workspace)
      { state := (soloProblem device).root, ready := 0
        incomingRemote := 0 } = workspace := by
    have hSmall : workspace % 2 ^ 64 = workspace := Nat.mod_eq_of_lt hWorkspace
    simpa [instantaneous, add64, PlanningProblem.region, PlanningProblem.root, SearchState.new,
      PlanningProblem.withCapacities, soloProblem, soloKernel, List.getD] using hSmall
  have hStep : ∀ state, replay ((soloProblem device).withCapacities capacities)
      [device] [(0, soloKernel device workspace)] = some state ↔
      extendState (subsetContext ((soloProblem device).withCapacities capacities) [device])
        (soloProblem device).root 0 0
        (soloKernel device workspace) = some state := by
    intro state
    change Option.bind _ some = some state ↔ _
    rw [Option.bind_fun_some]
    rfl
  simp only [hStep, extendState_eq_some_iff]
  constructor
  · rintro ⟨state, -, arrival, hArrival, hFits, -⟩
    change some _ = some arrival at hArrival
    rw [Option.some.injEq] at hArrival
    rw [← hArrival] at hFits
    rw [← hDemand]
    exact hFits
  · intro hFits
    rw [← hDemand] at hFits
    exact ⟨_, allowedMask_solo device, _, rfl, hFits, rfl⟩

----
-- Capacity Monotonicity
----

/-
  Replays are monotone in the capacities exactly when no
  capacity leaves zero, which stands for no limit.
-/
theorem capacity_monotone_iff (c c' : List Nat)
    (hLe : ∀ device, c.getD device 0 ≤ c'.getD device 0) : Monotone c c' ↔ NoneFromZero c c' := by
  constructor
  · intro hMonotone device hZero
    by_contra hLimited
    -- one byte more than the new capacity
    have hWorkspace : c'.getD device 0 + 1 < 2 ^ 64 := by omega
    have hBefore := (replay_solo device _ hWorkspace c).mpr (by rw [hZero]; rfl)
    rcases hBefore with ⟨state, hState⟩
    have hAfter := (replay_solo device _ hWorkspace c').mp ⟨state, (hMonotone _ _ _ _ hState).1⟩
    simp only [exceeds, Bool.and_eq_false_iff, decide_eq_false_iff_not] at hAfter
    omega
  · intro hZero problem subset assignment state hRun
    refine ⟨?_, scoreApart_eq _ _ _ _⟩
    exact extendAll_mono hLe hZero problem subset _ hRun

/- Raising a positive capacity is safe. -/
theorem doubled_capacity_monotone :
    (∀ device, [10].getD device 0 ≤ [20].getD device 0) ∧ Monotone [10] [20] := by
  have hLe : ∀ device, [10].getD device 0 ≤ [20].getD device 0 := by
    intro device
    cases device <;> simp
  refine ⟨hLe, (capacity_monotone_iff [10] [20] hLe).mpr ?_⟩
  intro device hZero
  cases device with
  | zero => exact absurd hZero (by decide)
  | succ device => exact .inl (by simp)

/- One accelerator with the given allocatable bytes. -/
def oneAccelerator (allocatable : Int) : ResourceGraph :=
  { compute :=
      [("accel_0", { computeClass := .accelerator, memoryAffinity := ["vram_0"] })]
    memory := [("vram_0", allocatable)] }

/-
  With ten bytes left on the device the placement of a
  region that needs twenty is rejected, with no byte left
  it is accepted.
-/
theorem empty_device_accepts_placement : nativeCapacity (oneAccelerator 0) none "accel_0" = 0 ∧
    nativeCapacity (oneAccelerator 10) none "accel_0" = 10 ∧
    replay ((soloProblem 0).withCapacities [nativeCapacity (oneAccelerator 10) none "accel_0"])
      [0] [(0, soloKernel 0 20)] = none ∧
    (replay ((soloProblem 0).withCapacities [nativeCapacity (oneAccelerator 0) none "accel_0"])
      [0] [(0, soloKernel 0 20)]).isSome := by
  decide +kernel

end TensorTorrent.Planner
