import TensorTorrent.Compile.Program
import TensorTorrent.Ir.Validate
import TensorTorrent.Schedule.Resources

/-
  This file models the lowering of a placed region program
  to an executable schedule (`runtime/schedule/build.py`,
  with the helpers of `ir/liveness.py` and
  `runtime/schedule/streams.py` that it calls).

  The activation budget, which hands the result to another
  planner, is left out of the model; so are the notes.

  Key definitions include:
    * `BuildInput`
    * `EvictGate`
    * `BuildState`
    * `placeRegion`
    * `placeAll`
    * `applyScheduleLiveness`
    * `buildExecutableSchedule`
-/

namespace TensorTorrent

----
-- Dictionaries
----

/- `dict.fromkeys(keys)`: each key once, first use first. -/
def fromKeys {α : Type} [DecidableEq α] (keys : List α) : List α :=
  keys.reverse.dedup.reverse

/- A size table as an attribute. -/
def sizesAttr (sizes : List (TensorId × Nat)) : AttrValue :=
  .intMap (sizes.map (fun entry => (entry.1, (entry.2 : Int))))

/- `sum(sizes.values())`. -/
def totalSize (sizes : List (TensorId × Nat)) : Nat :=
  (sizes.map Prod.snd).sum

----
-- Inputs
----

/- Inputs, outputs and state of a region. -/
structure RegionIo where
  inputs : List TensorId
  outputs : List TensorId
  state : List TensorId

/- Arguments of `build_executable_schedule`. -/
structure BuildInput where
  placements : List Placement
  transfers : List ScheduledTransfer := []
  program : Option RegionProgram := none
  streaming : Bool := false
  prefetchDistance : Nat := 1
  machine : Option Machine := none
  forcePageable : Bool := false
  backends : List String := ["cpu", "cuda", "rocm", "xpu", "mock_accel"]

namespace BuildInput

variable (input : BuildInput)

def computeName (id : RegionId) : InstructionId :=
  "compute::" ++ id

/- Placement of a region: the last one listed. -/
def byId (id : RegionId) : Option Placement :=
  input.placements.reverse.find? (fun placement => placement.regionId = id)

/- `region_io.get(id)`. -/
def regionIo (id : RegionId) : Option RegionIo :=
  (input.program.bind (fun program => program.region id)).map (fun region =>
    { inputs := region.inputs, outputs := region.outputs, state := region.stateInputs })

/-
  Tensors of a placement. Synthetic names stand in for a
  region the program does not describe.
-/
def io (placement : Placement) : RegionIo :=
  let found :=
    (input.regionIo placement.regionId).getD
      { inputs :=
          placement.dependsOn.map ("activation::" ++ ·)
        outputs := ["activation::" ++ placement.regionId]
        state :=
          if placement.stateBytes ≠ 0 then
            ["state::" ++ placement.regionId]
          else [] }
  if found.state = [] ∧ 0 < placement.stateBytes then
    { found with state := ["state::" ++ placement.regionId] }
  else found

def valueNbytes (name : TensorId) : Nat :=
  (input.program.map (fun program => program.valueNbytes name)).getD 0

/- Known sizes of the named tensors. -/
def knownSizes (names : List TensorId) : List (TensorId × Nat) :=
  ((fromKeys names).filter (fun name => 0 < input.valueNbytes name)).map
    (fun name => (name, input.valueNbytes name))

/-
  Sizes per tensor; a single unknown one gets what is left
  of the total.
-/
def tensorSizes (names : List TensorId) (total : Nat) : List (TensorId × Nat) :=
  let sizes := input.knownSizes names
  let missing := names.filter (fun name => (sizes.lookup name).isNone)
  match missing with
  | [name] =>
    if totalSize sizes < total then
      sizes ++ [(name, total - totalSize sizes)]
    else sizes
  | _ => sizes

def onDevice (device : ResourceId) : Bool :=
  tierForDevice input.backends device = .device

/- Host memory that parameters of the placement pass. -/
def loadHost (placement : Placement) : ResourceId :=
  loadHostForDestination input.backends input.machine
    placement.device placement.stateBytes input.forcePageable

/- First host among the placements, for resident weights. -/
def residentHost : ResourceId :=
  ((input.placements.find? (fun placement =>
    isHostResource placement.device)).map Placement.device).getD "cpu"

/- First transfer of a value to a destination. -/
def transferByValueDest (value : TensorId) (dest : ResourceId) : Option ScheduledTransfer :=
  input.transfers.find? (fun transfer =>
    transfer.valueName = value ∧ transfer.destinationDevice = dest)

/-
  Transfers a consumer waits for: those listed for it, and
  any shared copy of one of its inputs on its device.
-/
def pendingTransfers (placement : Placement) : List ScheduledTransfer :=
  (input.io placement).inputs.foldl (fun pending value =>
      match input.transferByValueDest value placement.device with
      | some shared =>
        if shared ∈ pending then pending
        else pending ++ [shared]
      | none => pending)
    (input.transfers.filter (fun transfer => transfer.beforeRegion = placement.regionId))

/- State tensors that no later region lists. -/
def stateTensorsWithoutLaterUse (names : List TensorId) (index : Nat) : List TensorId :=
  let later :=
    (input.placements.drop (index + 1)).flatMap (fun placement =>
      ((input.regionIo placement.regionId).map RegionIo.state).getD [])
  names.filter (fun name => name ∉ later)

end BuildInput

----
-- Instructions
----

def transferResource (source destination : ResourceId) : ResourceId :=
  "copy_engine:" ++ source ++ "->" ++ destination

section

variable (transfer : ScheduledTransfer)

def transferName : String :=
  "transfer::" ++ transfer.afterRegion ++ "->" ++ transfer.beforeRegion ++ ":" ++ transfer.valueName

def simulatedAttr : String × AttrValue :=
  ("simulated_until_validated", .bool (transferIsSimulated transfer.sourceDevice
      transfer.destinationDevice))

def transferOp (producer : Option InstructionId) : Instruction :=
  { opcode := .transfer, name := transferName transfer
    resource := transferResource transfer.sourceDevice transfer.destinationDevice
    dependsOn := producer.toList, inputs := [transfer.valueName], outputs := [transfer.valueName]
    nbytes := transfer.nbytes, source := some transfer.sourceDevice
    destination := some transfer.destinationDevice
    attributes :=
      [("after_region", .string transfer.afterRegion),
        ("before_region", .string transfer.beforeRegion), simulatedAttr transfer] ++
        mockDelayAttrs transfer.destinationDevice true false ++
        [("tensor_nbytes", sizesAttr [(transfer.valueName, transfer.nbytes)])] }

def recordOp : Instruction :=
  { opcode := .recordEvent, name := "record::" ++ transferName transfer
    resource := transfer.sourceDevice, dependsOn := [transferName transfer]
    inputs := [transfer.valueName]
    attributes :=
      [("pairs_with_wait", .string ("wait::" ++ transferName transfer)), simulatedAttr transfer] }

def waitOp : Instruction :=
  { opcode := .waitEvent, name := "wait::" ++ transferName transfer
    resource := transfer.destinationDevice, dependsOn := ["record::" ++ transferName transfer]
    inputs := [transfer.valueName]
    attributes :=
      [("waits_for", .string ("record::" ++ transferName transfer)), simulatedAttr transfer] }

end

def prefetchOp (placement : Placement) (host : ResourceId) (deps : List InstructionId)
    (state : List TensorId) (sizes : List (TensorId × Nat)) : Instruction :=
  { opcode := .prefetch, name := "prefetch::" ++ placement.regionId, resource := "nvme_or_pack"
    dependsOn := fromKeys deps, inputs := state, outputs := state, nbytes := placement.stateBytes
    source := some "disk", destination := some host
    attributes :=
      [("region_id", .string placement.regionId), ("kind", .string "parameter_prefetch"),
        ("tensor_nbytes", sizesAttr sizes)] }

/- A Load after a Prefetch only acquires what was read. -/
def loadOp (placement : Placement) (prefetched : Bool) (host : ResourceId)
    (deps : List InstructionId) (state : List TensorId)
    (sizes : List (TensorId × Nat)) : Instruction :=
  { opcode := .load, name := "load::" ++ placement.regionId, resource := host
    dependsOn := fromKeys deps, inputs := state, outputs := state
    nbytes := if prefetched then 0 else placement.stateBytes
    source := some "disk", destination := some host
    attributes :=
      [("region_id", .string placement.regionId), ("kind", .string "parameter_materialize"),
        ("tensor_nbytes", sizesAttr sizes)] ++
        if prefetched then [("prefetched", .bool true)]
        else [] }

/- One copy of all the parameters a region still needs. -/
def parameterH2dOp (regionId : RegionId) (needed : List TensorId) (sizes : List (TensorId × Nat))
    (source destination : ResourceId) (deps : List InstructionId) : Instruction :=
  let tensorNbytes := (fromKeys needed).map (fun name => (name, max 1 ((sizes.lookup name).getD 0)))
  { opcode := .transfer, name := "transfer::state::" ++ regionId ++ "->" ++ destination
    resource := transferResource source destination, dependsOn := deps, inputs := needed
    outputs := needed, nbytes := max 1 (totalSize tensorNbytes), source := some source
    destination := some destination
    attributes :=
      [("region_id", .string regionId), ("kind", .string "parameter_host_to_device"),
        ("simulated_until_validated", .bool (transferIsSimulated source destination))] ++
        mockDelayAttrs destination true false ++ [("tensor_nbytes", sizesAttr tensorNbytes)] }

def BuildInput.computeInputs (input : BuildInput) (placement : Placement) : List TensorId :=
  let io := input.io placement
  if io.state = [] then io.inputs
  else fromKeys (io.inputs ++ io.state)

def BuildInput.computeOp (input : BuildInput) (placement : Placement)
    (deps : List InstructionId) : Instruction :=
  let io := input.io placement
  let inputs := input.computeInputs placement
  let known := input.knownSizes (inputs ++ io.outputs)
  let only (names : List TensorId) := known.filter (fun entry => entry.1 ∈ names)
  { opcode := .compute, name := BuildInput.computeName placement.regionId
    resource := placement.device, dependsOn := fromKeys deps, inputs := inputs
    outputs := io.outputs, nbytes := placement.outputBytes
    predictedDurationS := placement.estimatedLatencyS, executableRef := some placement.regionId
    attributes :=
      [("dtype", .string placement.dtype), ("kernel_id", .string placement.kernelId),
        ("measured", .bool placement.measured), ("state_bytes", .int placement.stateBytes),
        ("working_set_bytes", .int placement.workingSetBytes),
        ("workspace_bytes", .int placement.workspaceBytes), ("staging_bytes", .int 0),
        ("input_bytes", sizesAttr (only inputs)), ("output_bytes", sizesAttr (only io.outputs))] ++
        mockDelayAttrs placement.device false true ++ [("tensor_nbytes", sizesAttr known)] }

/- Evict of parameters; `staging` for the host side. -/
def evictOp (placement : Placement) (staging : Bool) (resource : ResourceId)
    (tensors : List TensorId) (sizes : List (TensorId × Nat)) : Instruction :=
  let nbytes := (fromKeys tensors).map (fun name => (name, (sizes.lookup name).getD 0))
  { opcode := .evict
    name := (if staging then "evict::state::staging::"
      else "evict::state::") ++ placement.regionId
    resource := resource, dependsOn := [BuildInput.computeName placement.regionId]
    inputs := tensors
    nbytes :=
      if totalSize nbytes = 0 then placement.stateBytes
      else totalSize nbytes
    destination := some resource
    attributes :=
      [("kind", .string "parameter_evict"), ("region_id", .string placement.regionId),
        ("tensor_nbytes", sizesAttr nbytes)] ++
        if staging then [("staging", .bool true)] else [] }

----
-- Evict Gate
----

/- Parameter Evicts of each placement: device, staging. -/
structure EvictGate where
  records : List (Option InstructionId × Option InstructionId)

namespace EvictGate

section

variable (gate : EvictGate) (index : Nat)

def padTo : EvictGate :=
  { records := gate.records ++ List.replicate (index + 1 - gate.records.length) (none, none) }

def record (device staging : Option InstructionId) : EvictGate :=
  { records := (gate.padTo index).records.set index
      (device, staging) }

def skip : EvictGate :=
  gate.padTo index

/- Evicts of the nearest earlier placement that has any. -/
def priorDeps : List InstructionId :=
  (((gate.records.take index).reverse.map (fun record => record.2.toList ++ record.1.toList)).find?
    (fun deps => deps ≠ [])).getD []

end

/- One Evict of the nearest placement up to `lead`. -/
def leadGate (gate : EvictGate) (lead : Nat) : Option InstructionId :=
  (gate.records.take (lead + 1)).reverse.findSome? (fun record => record.2.or record.1)

end EvictGate

----
-- Placing Regions
----

/- Local variables of the loop over the placements. -/
structure BuildState where
  instructions : List Instruction
  lastCompute : RegionId → Option InstructionId
  lastLoad : RegionId → Option InstructionId
  lastLoadHost : RegionId → Option ResourceId
  evictGate : EvictGate
  waitForValueDest : TensorId × ResourceId → Option InstructionId
  emittedTransfers : List String

namespace BuildState

def start : BuildState :=
  { instructions := []
    lastCompute := fun _ => none
    lastLoad := fun _ => none
    lastLoadHost := fun _ => none
    evictGate := { records := [] }
    waitForValueDest := fun _ => none
    emittedTransfers := [] }

def emit (state : BuildState) (insts : List Instruction) : BuildState :=
  { state with instructions := state.instructions ++ insts }

def valueDest (transfer : ScheduledTransfer) : TensorId × ResourceId :=
  (transfer.valueName, transfer.destinationDevice)

/-
  Emits a transfer with its event pair unless the value is
  already on its way; returns the wait to depend on.
-/
def ensureTransferOps (state : BuildState) (transfer : ScheduledTransfer) :
    BuildState × InstructionId :=
  let waitName := "wait::" ++ transferName transfer
  let waiting : BuildState :=
    { state with
      waitForValueDest :=
        Function.update state.waitForValueDest (valueDest transfer) (some waitName) }
  match state.waitForValueDest (valueDest transfer) with
  | some wait => (state, wait)
  | none =>
    if transferName transfer ∈ state.emittedTransfers then
      (waiting, waitName)
    else
      ({ waiting with emittedTransfers := transferName transfer :: state.emittedTransfers }.emit
        [transferOp transfer (state.lastCompute transfer.afterRegion),
          recordOp transfer, waitOp transfer],
        waitName)

/- Waits for every pending transfer, in order. -/
def ensureAll : BuildState → List ScheduledTransfer → BuildState × List InstructionId
| state, [] => (state, [])
| state, transfer :: rest =>
  let first := state.ensureTransferOps transfer
  let others := ensureAll first.1 rest
  (others.1, first.2 :: others.2)

/- Key under which a parameter's copy is remembered. -/
def stateKey (name : TensorId) (destination : ResourceId) : String :=
  "transfer::state::" ++ name ++ "->" ++ destination

/- The copy of the parameters not yet on the destination. -/
def appendRegionParameterH2d (state : BuildState) (regionId : RegionId)
    (stateInputs : List TensorId) (sizes : List (TensorId × Nat)) (source destination : ResourceId)
    (deps : List InstructionId) : BuildState × Option InstructionId :=
  let needed := stateInputs.filter (fun name => stateKey name destination ∉ state.emittedTransfers)
  if needed = [] then (state, none)
  else
    let op := parameterH2dOp regionId needed sizes source
      destination deps
    ({ state with
        emittedTransfers :=
          needed.map (stateKey · destination) ++ state.emittedTransfers }.emit [op],
      some op.name)

end BuildState

namespace BuildInput

variable (input : BuildInput)

/- Computes of same-device dependencies placed before. -/
def computeDeps (placement : Placement) (state : BuildState) : List InstructionId :=
  placement.dependsOn.filterMap (fun dep =>
    if (input.byId dep).map Placement.device = some placement.device then
      state.lastCompute dep
    else none)

/- `lead_gate(index - prefetch_distance - 1)`. -/
def leadEvict (index : Nat) (state : BuildState) : Option InstructionId :=
  if index < input.prefetchDistance + 1 then none
  else
    state.evictGate.leadGate (index - input.prefetchDistance - 1)

/- The placement a Prefetch may not overtake. -/
def leadCompute (index : Nat) (state : BuildState) : Option InstructionId :=
  if index < input.prefetchDistance + 1 then none
  else
    (input.placements[ index - input.prefetchDistance - 1]?).bind
      (fun lead => state.lastCompute lead.regionId)

/- Load of the placement listed just before. -/
def previousLoad (index : Nat) (state : BuildState) : Option InstructionId :=
  if index = 0 then none
  else
    (input.placements[index - 1]?).bind (fun previous => state.lastLoad previous.regionId)

section

variable (index : Nat) (placement : Placement) (deps : List InstructionId) (state : BuildState)

/-
  Streaming: Prefetch, Load and, when the staging host is
  another resource, the copy to the device.
-/
def streamParameters : BuildState × List InstructionId :=
  let tensors := (input.io placement).state
  let sizes := input.tensorSizes tensors placement.stateBytes
  let host := input.loadHost placement
  let prefetched := decide (0 < input.prefetchDistance)
  let prefetch := prefetchOp placement host
    ((input.previousLoad index state).toList ++ (input.leadEvict index state).toList ++
      (input.leadCompute index state).toList)
    tensors sizes
  let loadDeps :=
    if prefetched then [prefetch.name] else deps
  let load := loadOp placement prefetched host
    (loadDeps ++
      if 1 ≤ index then state.evictGate.priorDeps index
      else [])
    tensors sizes
  let loaded : BuildState :=
    { state.emit
        ((if prefetched then [prefetch] else []) ++ [load])
      with
      lastLoad := Function.update state.lastLoad placement.regionId (some load.name)
      lastLoadHost := Function.update state.lastLoadHost placement.regionId (some host) }
  if host = placement.device then
    (loaded, deps ++ [load.name])
  else
    let copied := loaded.appendRegionParameterH2d
      placement.regionId tensors sizes host placement.device
      [load.name]
    (copied.1, deps ++ [load.name] ++ copied.2.toList)

/- Resident weights: a copy from the host to the device. -/
def residentParameters : BuildState × List InstructionId :=
  let tensors := (input.io placement).state
  let copied := state.appendRegionParameterH2d
    placement.regionId tensors
    (input.tensorSizes tensors placement.stateBytes)
    input.residentHost placement.device
    (if 0 < input.prefetchDistance then
      (input.leadEvict index state).toList
    else fromKeys (state.evictGate.priorDeps index))
  (copied.1, deps ++ copied.2.toList)

/- What a placement does to get its parameters. -/
def parameterOps : BuildState × List InstructionId :=
  if 0 < placement.stateBytes ∧ input.streaming then
    input.streamParameters index placement deps state
  else if 0 < placement.stateBytes ∧ input.onDevice placement.device then
    input.residentParameters index placement deps state
  else (state, deps)

end

/- Parameters that a placement evicts after its Compute. -/
def evictTensors (index : Nat) (placement : Placement) : List TensorId :=
  if 0 < placement.stateBytes ∧ (input.streaming ∨ input.onDevice placement.device) then
    input.stateTensorsWithoutLaterUse (input.io placement).state index
  else []

/- Staging host to evict from, when it is not the device. -/
def stagingHost (placement : Placement) (state : BuildState) : Option ResourceId :=
  if input.streaming then
    (state.lastLoadHost placement.regionId).filter (fun host => host ≠ "" ∧ host ≠ placement.device)
  else none

def evictOps (index : Nat) (placement : Placement) (state : BuildState) : BuildState :=
  let tensors := input.evictTensors index placement
  let sizes := input.tensorSizes (input.io placement).state
    placement.stateBytes
  if tensors = [] then
    { state with evictGate := state.evictGate.skip index }
  else
    let device := evictOp placement false placement.device
      tensors sizes
    let staging := (input.stagingHost placement state).map
      (fun host => evictOp placement true host tensors sizes)
    { state.emit (device :: staging.toList) with
      evictGate := state.evictGate.record index (some device.name) (staging.map Instruction.name) }

/- One turn of the loop over the placements. -/
def placeRegion (index : Nat) (placement : Placement) (state : BuildState) : BuildState :=
  let parameters := input.parameterOps index placement
    (input.computeDeps placement state) state
  let transfers := parameters.1.ensureAll
    (input.pendingTransfers placement)
  let compute := input.computeOp placement
    (parameters.2 ++ transfers.2)
  let computed : BuildState :=
    { transfers.1.emit [compute] with
      lastCompute :=
        Function.update transfers.1.lastCompute placement.regionId (some compute.name) }
  input.evictOps index placement computed

/- The loop over the placements. -/
def placeAll : BuildState :=
  input.placements.zipIdx.foldl (fun state entry =>
      input.placeRegion entry.2 entry.1 state)
    .start

end BuildInput

----
-- Releases
----

namespace BuildInput

variable (input : BuildInput)

def graphOutputs : List TensorId :=
  (input.program.map RegionProgram.graphOutputs).getD []

/- Outputs of a producer, as the release loop sees them. -/
def releasedOutputs (producer : Placement) : List TensorId :=
  ((input.regionIo producer.regionId).map
    RegionIo.outputs).getD ["activation::" ++ producer.regionId]

/-
  Placements that read an output. Without a program they
  are those that depend on its producer.
-/
def consumers (producer : Placement) (out : TensorId) : List Placement :=
  let readers := input.placements.filter (fun placement =>
    out ∈ ((input.regionIo placement.regionId).map RegionIo.inputs).getD [])
  if readers = [] ∧ input.program.isNone then
    input.placements.filter (fun placement => producer.regionId ∈ placement.dependsOn)
  else readers

/- Size table of a Compute: `output_bytes` if the first is empty. -/
def sizeTable (inst : Instruction) : List (TensorId × Int) :=
  match inst.attr "tensor_nbytes", inst.attr "output_bytes" with
  | some (.intMap (entry :: rest)), _ => entry :: rest
  | _, some (.intMap entries) => entries
  | _, _ => []

/- Bytes a Release reports. -/
def releaseNbytes (producer : Placement) (out : TensorId) (emitted : List Instruction) : Nat :=
  let declared := input.valueNbytes out
  let recorded :=
    ((emitted.find? (fun inst =>
        inst.name = computeName producer.regionId)).bind
      (fun inst => (sizeTable inst).lookup out)).getD 0
  if 0 < declared then declared
  else if 0 < recorded then recorded.toNat
  else if (input.releasedOutputs producer).length = 1 then
    producer.outputBytes
  else 0

/- Events a Release waits for besides the consumers. -/
def releaseEvents (out : TensorId) (emitted : List Instruction) : List InstructionId :=
  (emitted.filter (fun inst =>
    inst.opcode ∈ [Opcode.recordEvent, .waitEvent] ∧ out ∈ inst.inputs)).map Instruction.name

def releaseOp (producer : Placement) (out : TensorId) (emitted : List Instruction) : Instruction :=
  let readers := input.consumers producer out
  let exact := input.releaseNbytes producer out emitted
  { opcode := .release, name := "release::" ++ out, resource := producer.device
    dependsOn := fromKeys (readers.map (fun reader =>
          computeName reader.regionId) ++
        releaseEvents out emitted)
    inputs := [out], nbytes := exact
    attributes :=
      [("kind", .string "activation"), ("producer_region", .string producer.regionId),
        ("consumer_count", .int readers.length), ("release_resource", .string producer.device),
        ("tensor_nbytes", sizesAttr (if 0 < exact then [(out, exact)] else []))] }

/- Graph outputs and outputs nobody reads are kept. -/
def releaseOutput (producer : Placement) (emitted : List Instruction)
    (out : TensorId) : List Instruction :=
  if out ∈ input.graphOutputs ∨ input.consumers producer out = [] then emitted
  else emitted ++ [input.releaseOp producer out emitted]

def releaseAll (emitted : List Instruction) : List Instruction :=
  input.placements.foldl (fun emitted producer =>
      (input.releasedOutputs producer).foldl (input.releaseOutput producer) emitted)
    emitted

end BuildInput

----
-- Schedule Liveness
----

namespace ScheduleLiveness

/- `by_name`: the last instruction of a name. -/
def find (schedule : ExecutableSchedule) (name : InstructionId) : Option Instruction :=
  schedule.instructions.reverse.find? (fun inst => inst.name = name)

/- The stack loop of `ancestors`; the head is its top. -/
def ancestorsLoop (schedule : ExecutableSchedule) :
    Nat → List InstructionId → List InstructionId → List InstructionId
| 0, _, seen => seen
| _ + 1, [], seen => seen
| fuel + 1, current :: stack, seen =>
  match find schedule current with
  | none => ancestorsLoop schedule fuel stack seen
  | some inst =>
    if current ∈ seen then
      ancestorsLoop schedule fuel stack seen
    else
      ancestorsLoop schedule fuel (inst.dependsOn.reverse ++ stack) (current :: seen)

/- Transitive dependencies of an instruction. -/
def ancestors (schedule : ExecutableSchedule) (name : InstructionId) : List InstructionId :=
  ancestorsLoop schedule (Validate.ancestorFuel schedule)
    (((find schedule name).map Instruction.dependsOn).getD []).reverse []

/- Readers of a tensor, Releases apart. -/
def consumers (schedule : ExecutableSchedule) (tensor : TensorId) : List InstructionId :=
  fromKeys ((schedule.instructions.filter (fun inst =>
    inst.opcode ≠ .release ∧ tensor ∈ inst.inputs)).map Instruction.name)

/- Readers that precede no other reader. -/
def finalConsumers (schedule : ExecutableSchedule) (tensor : TensorId) : List InstructionId :=
  let readers := consumers schedule tensor
  readers.filter (fun name =>
    !readers.any (fun other => other ≠ name && decide (name ∈ ancestors schedule other)))

def releaseDependencies (schedule : ExecutableSchedule) (inst : Instruction) : List InstructionId :=
  fromKeys (inst.inputs.flatMap (finalConsumers schedule))

end ScheduleLiveness

/- Releases wait for the final readers of their tensors. -/
def applyScheduleLiveness (schedule : ExecutableSchedule) : ExecutableSchedule :=
  { instructions := schedule.instructions.map (fun inst =>
    if inst.opcode ≠ .release then inst
    else
      let derived := ScheduleLiveness.releaseDependencies schedule inst
      { inst with
        dependsOn := fromKeys (inst.dependsOn ++ derived)
        attributes := inst.attributes ++ [("final_async_consumers",
            .list (derived.map .string))] }) }

----
-- Explicit Streams
----

namespace PlanStreams

/- `text or default`. -/
def orElse (text : Option String) (fallback : String) : String :=
  if ExecutableSchedule.missing text then fallback
  else text.getD ""

def resourceOf (inst : Instruction) : ResourceId :=
  if inst.resource = "" then "unknown" else inst.resource

def defaultStreamId (inst : Instruction) : StreamId :=
  match inst.opcode with
  | .compute => resourceOf inst ++ "::compute"
  | .transfer | .prefetch | .load => resourceOf inst ++ "::copy0"
  | .recordEvent | .waitEvent => resourceOf inst ++ "::sync"
  | .evict | .release => resourceOf inst ++ "::lifetime"

/- Fills the ids that the planner left out. -/
def withExplicitStreams (inst : Instruction) : Instruction :=
  let copies := decide (inst.opcode ∈ [.transfer, .prefetch, .load])
  let reads := decide (inst.opcode ∈ [.prefetch, .load])
  { inst with
    streamId := some (orElse inst.streamId (defaultStreamId inst))
    copyEngineId :=
      if copies then
        some (orElse inst.copyEngineId (resourceOf inst ++ "::copy0"))
      else inst.copyEngineId
    linkId :=
      if inst.opcode = .transfer then
        some (orElse inst.linkId (orElse inst.source "unknown" ++ "->" ++
          orElse inst.destination (resourceOf inst)))
      else inst.linkId
    ioQueueId :=
      if reads then
        some (orElse inst.ioQueueId (resourceOf inst ++ "::io0"))
      else inst.ioQueueId }

end PlanStreams

----
-- The Builder
----

/- The schedule before it is validated. -/
def BuildInput.lowered (input : BuildInput) : ExecutableSchedule :=
  let live := applyScheduleLiveness
    { instructions := input.releaseAll input.placeAll.instructions }
  { instructions := live.instructions.map PlanStreams.withExplicitStreams }

/-
  Lowers placements to a schedule, or returns the errors
  the validator finds in it. `hashed` are the iteration
  orders of the validator's maps.
-/
def buildExecutableSchedule (hashed : ∀ schedule, HashOrder schedule) (input : BuildInput) :
    Except (List String) ExecutableSchedule :=
  let schedule := input.lowered
  let errors := validateSchedule schedule (hashed schedule)
  if errors = [] then .ok schedule else .error errors

variable {hashed : ∀ schedule, HashOrder schedule} {input : BuildInput}

theorem build_eq_ok (hErrors : validateSchedule input.lowered (hashed input.lowered) = []) :
    buildExecutableSchedule hashed input = .ok input.lowered :=
  if_pos hErrors

theorem build_ok {schedule : ExecutableSchedule}
    (hBuilt : buildExecutableSchedule hashed input = .ok schedule) :
    schedule = input.lowered ∧ Accepted schedule := by
  unfold buildExecutableSchedule at hBuilt
  simp only at hBuilt
  split at hBuilt
  · next hErrors =>
    cases hBuilt
    exact ⟨rfl, _, hErrors⟩
  · cases hBuilt

end TensorTorrent
