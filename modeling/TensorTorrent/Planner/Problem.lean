import TensorTorrent.Simulator.Machine

/-
  This file models planning problems, partial assignments
  and their scores (crate `tt-planner`: `problem.rs`,
  `score.rs` and `extend_state`, `replay_assignment` of
  `search.rs`).

  Times are exact. Sums of bytes wrap at 64 bits, as in a
  release build, and region, device and link indices are in
  range, as the bindings build them: a default stands for
  the panic of an index that is not.

  Key definitions include:
    * `Planner.PlanningProblem`
    * `Planner.SearchState`
    * `Planner.analyticScore`
    * `Planner.comparableFinalistScore`
    * `Planner.extendState`
    * `Planner.replayAssignment`
-/

namespace TensorTorrent

namespace Planner

open Simulator (MachineModel TransferEstimate)

----
-- Planning Problems
----

inductive ObjectiveKind where
| latency
| throughput
| memory
| balanced
| weighted
deriving DecidableEq, Repr

/- Limits of the search and weights of its objective. -/
structure PlanningConfig where
  objective : ObjectiveKind := .latency
  weightLatency : ℚ := 1
  weightThroughput : ℚ := 0
  weightMemory : ℚ := 0
  beamWidth : Nat := 64
  candidatesPerDevice : Nat := 2
  localSearchIters : Nat := 2
  targetInflightRequests : Nat := 1
  plannerWorkers : Nat := 0
  allowParallelSubsets : Bool := true
  finalistCount : Nat := 12
  perSubsetFinalists : Nat := 0

/- Distinct terminal plans to keep from one subset. -/
def PlanningConfig.resolvedPerSubsetFinalists (config : PlanningConfig) : Nat :=
  if 0 < config.perSubsetFinalists then
    max config.perSubsetFinalists 1
  else min (max (max config.finalistCount 1) 2) 8

structure RegionSpec where
  name : String := ""
  dependsOn : List Nat := []
  outputBytes : Nat := 0
  stateBytes : Nat := 0
  consumerCount : Int := 0
deriving DecidableEq

structure CandidateKernel where
  device : Nat
  backendId : String := ""
  kernelId : String := ""
  dtype : String := ""
  estimatedLatencyS : ℚ
  workspaceBytes : Nat := 0
  measured : Bool := false
deriving DecidableEq

/- One region of a plan, with the kernel it runs. -/
structure PlacementRecord where
  regionId : String
  device : String
  backendId : String
  dtype : String
  kernelId : String
  estimatedLatencyS : ℚ
  dependsOn : List String
  measured : Bool
  outputBytes : Nat
  stateBytes : Nat
  workspaceBytes : Nat
deriving DecidableEq

/- Planning input with integer indices. -/
structure PlanningProblem where
  regions : List RegionSpec
  order : List Nat
  candidates : List (List CandidateKernel)
  deviceNames : List String
  capacities : List Nat
  deviceMemory : List String
  edgeBytes : List ((Nat × Nat) × Nat) := []
  subsets : List (List Nat) := []
  machine : MachineModel := {}
  config : PlanningConfig := {}

namespace PlanningProblem

section

variable (problem : PlanningProblem)

def region (index : Nat) : RegionSpec :=
  problem.regions.getD index {}

/- `capacities.get(device).copied().unwrap_or(0)`. -/
def capacity (device : Nat) : Nat :=
  problem.capacities.getD device 0

def memoryOf (device : Nat) : String :=
  problem.deviceMemory.getD device ""

def consumers : List Int :=
  problem.regions.map RegionSpec.consumerCount

end

end PlanningProblem

----
-- Partial Assignments
----

/- `a + b` on `u64` in a release build. -/
def add64 (a b : Nat) : Nat :=
  (a + b) % 2 ^ 64

/- `x as u16`. -/
def asU16 (x : Nat) : Nat :=
  x % 2 ^ 16

/- Device of a region that has not been placed. -/
def unplaced : Nat := 65535

structure SearchState where
  placementCands : List Nat
  finish : List ℚ
  deviceFree : List ℚ
  linkFree : List ℚ
  deviceBusy : List ℚ
  linkBusy : List ℚ
  liveActivationBytes : List Nat
  peakBytes : List Nat
  outputDevice : List Nat
  outputBytes : List Nat
  remainingConsumers : List Int
  transferBytes : Nat
  transferLatencyS : ℚ
  unmeasuredTransferCount : Nat
  hostStagedTransferCount : Nat
deriving DecidableEq

namespace SearchState

def new (nRegions nDevices : Nat) (consumers : List Int) : SearchState :=
  { placementCands := [], finish := List.replicate nRegions 0
    deviceFree := List.replicate nDevices 0, linkFree := [], deviceBusy := List.replicate nDevices 0
    linkBusy := [], liveActivationBytes := List.replicate nDevices 0
    peakBytes := List.replicate nDevices 0, outputDevice := List.replicate nRegions unplaced
    outputBytes := List.replicate nRegions 0, remainingConsumers := consumers, transferBytes := 0
    transferLatencyS := 0, unmeasuredTransferCount := 0, hostStagedTransferCount := 0 }

variable (state : SearchState)

/- Slots up to the given link, new ones free at zero. -/
def ensureLinkSlots (linkId : Nat) : SearchState :=
  let pad (slots : List ℚ) : List ℚ := slots ++ List.replicate (linkId + 1 - slots.length) 0
  { state with linkFree := pad state.linkFree, linkBusy := pad state.linkBusy }

def makespanS : ℚ :=
  state.finish.foldl max 0

def initiationIntervalS : ℚ :=
  max (max (state.deviceBusy.foldl max 0) (state.linkBusy.foldl max 0)) (1 / 10 ^ 12)

end SearchState

/- The empty assignment of a problem. -/
def PlanningProblem.root (problem : PlanningProblem) : SearchState :=
  .new problem.regions.length problem.deviceNames.length problem.consumers

----
-- Scores
----

/- Share of a device's capacity that its peak takes. -/
def devicePressure (peak capacity : Nat) : ℚ :=
  if 0 < capacity then peak / capacity
  else if 0 < peak then 1 else 0

def memoryPressure (peakBytes capacities : List Nat) : ℚ :=
  (peakBytes.mapIdx (fun i peak => devicePressure peak (capacities.getD i 0))).sum

/- Beam and local-search score, lower is better. -/
def analyticScore (state : SearchState) (config : PlanningConfig) (capacities : List Nat) : ℚ :=
  let latency := state.makespanS
  let cycle := state.initiationIntervalS
  let peak := (state.peakBytes.map (fun b => (b : ℚ))).sum
  let pressure := memoryPressure state.peakBytes capacities
  match config.objective with
  | .latency => latency + 1 / 10 ^ 6 * cycle + 1 / 10 ^ 9 * pressure
  | .throughput => cycle + 1 / 10 ^ 3 * latency + 1 / 10 ^ 9 * pressure
  | .memory => peak + 1 / 10 ^ 3 * pressure + 1 / 10 ^ 9 * latency
  | .balanced => latency + cycle + 5 / 100 * pressure
  | .weighted =>
    config.weightLatency * latency + config.weightThroughput * cycle +
      config.weightMemory * pressure

/- Score that ranks the results of different subsets. -/
def comparableFinalistScore (latencyS throughputPerS : ℚ) (peakBytes capacities : List Nat)
    (config : PlanningConfig) : ℚ :=
  let peakTotal := peakBytes.foldl add64 0
  let pressure := memoryPressure peakBytes capacities
  let period := 1 / max throughputPerS (1 / 10 ^ 12)
  match config.objective with
  | .throughput => period
  | .memory => peakTotal + 1 / 10 ^ 9 * latencyS
  | .balanced => latencyS + period + 5 / 100 * pressure
  | .weighted =>
    config.weightLatency * latencyS + config.weightThroughput * period +
      config.weightMemory * pressure
  | .latency => latencyS

----
-- Links
----

/- Interned link names; an id is an index of the list. -/
structure LinkIntern where
  names : List String

namespace LinkIntern

variable (links : LinkIntern) (name : String)

def intern : LinkIntern :=
  if name ∈ links.names then links
  else { names := links.names ++ [name] }

def id : Option Nat :=
  links.names.findIdx? (· = name)

end LinkIntern

variable (ctx : SubsetContext)
variable (problem : PlanningProblem)
variable (assignment : List (Nat × CandidateKernel))
variable (state : SearchState)

/- Every link resource that the machine can emit. -/
def seedLinkIntern : LinkIntern :=
  let declared := problem.machine.links.foldl (fun links link =>
        let named := if link.id = "" then links
          else links.intern link.id
        (named.intern (link.source ++ "->" ++ link.destination)).intern
          (link.destination ++ "->" ++ link.source))
      { names := [] }
  problem.deviceMemory.foldl (fun links a =>
      problem.deviceMemory.foldl (fun links b =>
          match problem.machine.estimateTransfer a b 1024 with
          | some est => links.intern est.resource
          | none => links)
        links)
    declared

----
-- Extending an Assignment
----

/- What the search of one subset is given. -/
structure SubsetContext where
  problem : PlanningProblem
  links : LinkIntern
  allowed : List Bool

/- The devices of a subset, among those of the problem. -/
def allowedMask (subset : List Nat) : List Bool :=
  subset.foldl (fun mask device => mask.set device true)
    (List.replicate problem.deviceNames.length false)

def subsetContext (subset : List Nat) : SubsetContext :=
  { problem := problem, links := seedLinkIntern problem, allowed := allowedMask problem subset }

/- `allowed_mask.get(device).copied().unwrap_or(false)`. -/
def SubsetContext.allows (device : Nat) : Bool :=
  ctx.allowed.getD device false

/- Running values of the loop over the dependencies. -/
structure Arrival where
  state : SearchState
  ready : ℚ
  incomingRemote : Nat

def edgeBytesOf (dep region : Nat) : Nat :=
  (problem.edgeBytes.lookup (dep, region)).getD (state.outputBytes.getD dep 0)

/- A transfer occupies its link after the producer ends. -/
def occupyLink (estimate : TransferEstimate) (linkId : Nat) (nbytes : Nat) (depFinish : ℚ)
    (arrival : Arrival) : Arrival :=
  let state := arrival.state.ensureLinkSlots linkId
  let start := max depFinish (state.linkFree.getD linkId 0)
  let finish := start + estimate.durationS
  { state :=
      { state with
        linkFree := state.linkFree.set linkId finish
        linkBusy := state.linkBusy.set linkId (state.linkBusy.getD linkId 0 + estimate.durationS)
        transferBytes := add64 state.transferBytes nbytes
        transferLatencyS := state.transferLatencyS + estimate.durationS
        unmeasuredTransferCount :=
          state.unmeasuredTransferCount + (if estimate.measured then 0 else 1)
        hostStagedTransferCount :=
          state.hostStagedTransferCount + (if estimate.hostStaged then 1 else 0) }
    ready := max arrival.ready finish, incomingRemote := add64 arrival.incomingRemote nbytes }

/- Brings the output of one dependency to the device. -/
def receive (region device : Nat) (arrival : Arrival) (dep : Nat) : Option Arrival :=
  let state := arrival.state
  let depFinish := state.finish.getD dep 0
  let depDevice := state.outputDevice.getD dep unplaced
  let nbytes := edgeBytesOf ctx.problem state dep region
  if depDevice = unplaced then none
  else if depDevice = device then
    some { arrival with ready := max arrival.ready depFinish }
  else do
    let estimate ← ctx.problem.machine.estimateTransfer (ctx.problem.memoryOf depDevice)
      (ctx.problem.memoryOf device) nbytes
    let linkId ← ctx.links.id estimate.resource
    some (occupyLink estimate linkId nbytes depFinish arrival)

/- Drops an output from the live bytes of its device. -/
def dropLive (device bytes : Nat) : SearchState :=
  { state with liveActivationBytes := state.liveActivationBytes.modify device (· - bytes) }

/- One consumer fewer; the last one frees the output. -/
def consume (dep : Nat) : SearchState :=
  if state.remainingConsumers.length ≤ dep then state
  else
    let left := state.remainingConsumers.getD dep 0 - 1
    let counted := { state with remainingConsumers := state.remainingConsumers.set dep left }
    if left ≤ 0 then
      dropLive counted (state.outputDevice.getD dep unplaced) (state.outputBytes.getD dep 0)
    else counted

/- Bytes on the device while the region runs. -/
def instantaneous (region : Nat) (candidate : CandidateKernel) (arrival : Arrival) : Nat :=
  add64 (add64 (add64 (add64 (arrival.state.liveActivationBytes.getD candidate.device 0)
        arrival.incomingRemote) (problem.region region).stateBytes)
      (problem.region region).outputBytes)
    candidate.workspaceBytes

def latencyOf (candidate : CandidateKernel) : ℚ :=
  max candidate.estimatedLatencyS (1 / 10 ^ 12)

/- The state after the region has run on its device. -/
def place (region candIdx : Nat) (candidate : CandidateKernel) (arrival : Arrival) : SearchState :=
  let state := arrival.state
  let device := candidate.device
  let latency := latencyOf candidate
  let finish := max arrival.ready (state.deviceFree.getD device 0) + latency
  let outputBytes := (problem.region region).outputBytes
  let produced := { state with
    peakBytes := state.peakBytes.modify device
      (max · (instantaneous problem region candidate arrival))
    liveActivationBytes := state.liveActivationBytes.modify device (add64 · outputBytes)
    outputDevice := state.outputDevice.set region (asU16 device)
    outputBytes := state.outputBytes.set region outputBytes }
  let kept :=
    if produced.remainingConsumers.getD region 0 ≤ 0 then
      dropLive produced device outputBytes
    else produced
  let consumed := (problem.region region).dependsOn.foldl consume kept
  { consumed with
    finish := consumed.finish.set region finish, deviceFree := consumed.deviceFree.set device finish
    deviceBusy := consumed.deviceBusy.modify device (· + latency)
    placementCands := consumed.placementCands ++ [candIdx] }

/- The loop over the dependencies of a region. -/
def arrive (region device : Nat) : Option Arrival :=
  (ctx.problem.region region).dependsOn.foldlM (receive ctx region device)
    { state := state, ready := 0, incomingRemote := 0 }

/- A positive capacity that the region would exceed. -/
def exceeds (capacity demand : Nat) : Bool :=
  0 < capacity && capacity < demand

def extendState (region candIdx : Nat) (candidate : CandidateKernel) : Option SearchState :=
  if ctx.allows candidate.device then do
    let arrival ← arrive ctx state region candidate.device
    if exceeds (ctx.problem.capacity candidate.device)
        (instantaneous ctx.problem region candidate arrival) then
      none
    else
      some (place ctx.problem region candIdx candidate arrival)
  else none

/- Everything an extension checks, and what it returns. -/
theorem extendState_eq_some_iff {ctx : SubsetContext} {state next : SearchState}
    {region candIdx : Nat} {candidate : CandidateKernel} :
    extendState ctx state region candIdx candidate = some next ↔
      ctx.allows candidate.device ∧ ∃ arrival,
        arrive ctx state region candidate.device = some arrival ∧
          exceeds (ctx.problem.capacity candidate.device)
              (instantaneous ctx.problem region candidate arrival) = false ∧
            place ctx.problem region candIdx candidate arrival = next := by
  unfold extendState
  by_cases hAllowed : ctx.allows candidate.device
  · simp only [hAllowed, if_true, true_and, Option.bind_eq_bind, Option.bind_eq_some_iff]
    refine exists_congr fun arrival => and_congr_right fun _ => ?_
    split
    · next hOver => simp [hOver]
    · next hFits => simp [hFits]
  · simp [hAllowed]

/- Extends by the choices of the given regions in order. -/
def extendAll (ctx : SubsetContext) :
    SearchState → List (Nat × Nat × CandidateKernel) → Option SearchState
| state, [] => some state
| state, (region, candIdx, candidate) :: rest => do
    let next ← extendState ctx state region candIdx candidate
    extendAll ctx next rest

/- The regions of the order with their choices. -/
def steps : List (Nat × Nat × CandidateKernel) :=
  problem.order.zip assignment

/-
  Replays an assignment from a step, given the state before
  that step, or from the start.
-/
def replayAssignment (fromStep : Nat) (earlier : Option SearchState) : Option SearchState :=
  match earlier, fromStep with
  | some state, step + 1 => extendAll ctx state ((steps ctx.problem assignment).drop (step + 1))
  | _, _ => extendAll ctx ctx.problem.root (steps ctx.problem assignment)

end Planner

end TensorTorrent
