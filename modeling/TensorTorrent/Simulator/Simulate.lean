import Mathlib.Data.List.AList
import TensorTorrent.Ir.Validate
import TensorTorrent.Memory.Residency
import TensorTorrent.Simulator.Machine

/-
  This file models the discrete-event walk over a schedule
  (crate `tt-runtime`: `simulator/sim.rs`). Times are exact.
  The queue of ready instructions starts in the order in
  which a hash map is iterated, which is an argument here.
  The logs of transfers and releases are left out.

  Key definitions include:
    * `Simulator.memFor`
    * `Simulator.installCopy`
    * `Simulator.dropCopy`
    * `Simulator.Sim`
    * `Simulator.process`
    * `Simulator.walk`
    * `Simulator.simulateSchedule`
-/

namespace TensorTorrent

open Function (update)

namespace Simulator

----
-- Results
----

structure TimelineEvent where
  name : InstructionId
  opcode : String
  resource : String
  startS : ℚ
  endS : ℚ
  nbytes : Nat
  criticalPred : Option InstructionId := none
  event : Option String := none
  memory : Option String := none
  residentBytes : Option Nat := none
  allocatableBytes : Option Nat := none
  atS : Option ℚ := none
  activationBytesWritten : Option Nat := none

structure SimulationResult where
  makespanS : ℚ
  peakBytes : String → Nat
  timeline : List TimelineEvent
  exposedTransferLatencyS : ℚ
  resourceBusyS : AList (fun _ : String => ℚ)
  initiationIntervalS : ℚ
  criticalPath : List InstructionId
  bytesRead : Nat
  bytesTransferred : Nat
  instructionCount : Nat
  activationPeakBytes : Nat

structure InfeasibilityReport where
  memory : String
  residentBytes : Nat
  allocatableBytes : Nat
  instruction : InstructionId
  atS : ℚ
  peakBytes : String → Nat

inductive SimulationOutcome where
| valid (result : SimulationResult)
| infeasibleMemory (report : InfeasibilityReport)

----
-- Memory Pools of Resources
----

def isDeviceMemory (entry : String × MemoryResource) : Bool :=
  Text.lowerContains entry.1 "vram" || Text.lowerContains entry.2.memoryClass "device"

def isPinnedMemory (entry : String × MemoryResource) : Bool :=
  !isDeviceMemory entry && (Text.lowerContains entry.1 "pinned" ||
    Text.lowerContains entry.2.memoryClass "pinned")

/- Ordinary host memory, neither device nor pinned. -/
def isHostMemory (entry : String × MemoryResource) : Bool :=
  !isDeviceMemory entry && !isPinnedMemory entry && (Text.lowerContains entry.1 "numa" ||
    Text.lowerContains entry.2.memoryClass "numa" || Text.lowerContains entry.1 "system" ||
    Text.lower entry.1 = "host_ram".toList || Text.lowerContains entry.1 "ram" ||
    Text.lowerContains entry.1 "host")

def isHostResource (resource : ResourceId) : Bool :=
  ["cpu", "host", "numa", "pinned", "system_ram", "disk"].any (Text.lowerContains resource)

/- Pinned memory is a small pool: it is the second choice. -/
def hostMemory (machine : MachineModel) : String :=
  (((machine.memory.find? isHostMemory).or (machine.memory.find? isPinnedMemory)).map
    Prod.fst).getD "host_ram"

def digitsOf (resource : ResourceId) : List Char :=
  (Text.lower resource).filter Char.isDigit

/- Device memory of the same number, else any, else the
   first memory of all. -/
def deviceMemory (machine : MachineModel) (resource : ResourceId) : String :=
  let numbered :=
    if digitsOf resource = [] then none
    else
      machine.memory.find? (fun entry =>
        isDeviceMemory entry && decide (digitsOf resource <:+: Text.lower entry.1))
  (((numbered.or (machine.memory.find? isDeviceMemory)).or
    machine.memory.head?).map Prod.fst).getD "host_ram"

def memFor (resource : ResourceId) (machine : MachineModel) : String :=
  if machine.hasMemory resource then resource
  else
    match (machine.memoryAffinity.lookup resource).filter machine.hasMemory with
    | some aff => aff
    | none =>
      if isHostResource resource then hostMemory machine
      else deviceMemory machine resource

----
-- Tensors of an Instruction
----

/- Tensors that an instruction of the schedule creates. -/
def producedTensorIds (schedule : ExecutableSchedule) : List TensorId :=
  schedule.instructions.flatMap (fun inst =>
    match inst.opcode with
    | .load | .prefetch => inst.outputsThenInputs
    | .compute => inst.outputs
    | _ => [])

def uniqueTensors (inst : Instruction) : List TensorId :=
  let tensors := inst.outputsThenInputs.eraseDups
  if tensors = [] ∧ 0 < inst.nbytes then
    ["anon::" ++ inst.name]
  else tensors

section

variable (inst : Instruction) (tensor : TensorId)

/- `inst.attributes[key][tensor]` in a map of integers. -/
def attrSize (key : String) : Option Nat :=
  match inst.attr key with
  | some (.intMap entries) => (entries.lookup tensor).map Int.toNat
  | _ => none

def tensorNbytes : Nat :=
  (((inst.tensorNbytes.lookup tensor).or (attrSize inst tensor "input_bytes")).or
    (attrSize inst tensor "output_bytes")).getD inst.nbytes

def allocationId (resource : ResourceId) : AllocationId :=
  let named :=
    match inst.attr "allocation_ids" with
    | some (.stringMap entries) => entries.lookup tensor
    | some (.map entries) => (entries.lookup tensor).bind AttrValue.asStr
    | _ => none
  named.getD ("sim::" ++ resource ++ "::" ++ tensor)

end

def attrF64 (value : AttrValue) : Option ℚ :=
  match value with
  | .float f => some f
  | .int i => some i
  | _ => none

def attrU64 (value : AttrValue) : Option Nat :=
  match value with
  | .int i => if 0 ≤ i then some i.toNat else none
  | .float f =>
    if 0 ≤ f then some (f.num.tdiv f.den).toNat else none
  | _ => none

----
-- Memory Accounting
----

structure Allocation where
  memory : String
  capacity : Nat
  refs : Nat

/- State of a kernel, held until the kernel ends. -/
structure Lease where
  endS : ℚ
  memory : String
  nbytes : Nat

/- When an allocation existed in simulated time. -/
structure Lifetime where
  allocation : AllocationId
  memory : String
  nbytes : Nat
  startS : ℚ
  -- When copies of it were dropped.
  drops : List ℚ
  live : Bool

/-
  Copies, allocations and pools. Pressure on a pool is noted
  on the shared timeline. The history is not kept by the
  source: it records when allocations were made and dropped.
-/
structure Memory where
  copies : AList (fun _ : TensorId × ResourceId => AllocationId)
  allocations : AList (fun _ : AllocationId => Allocation)
  resident : String → Nat
  peak : String → Nat
  leases : List Lease
  timeline : List TimelineEvent
  history : List Lifetime

namespace Memory

def empty : Memory :=
  { copies := ∅, allocations := ∅
    resident := fun _ => 0
    peak := fun _ => 0
    leases := [], timeline := [], history := [] }

def hasCopy (m : Memory) (tensor : TensorId) (resource : ResourceId) : Bool :=
  (m.copies.lookup (tensor, resource)).isSome

/- A copy of a live allocation is dropped, perhaps the last
   one. -/
def dropLifetime (allocation : AllocationId) (atS : ℚ) (last : Bool) (life : Lifetime) : Lifetime :=
  if life.allocation = allocation ∧ life.live = true then
    { life with drops := atS :: life.drops, live := !last }
  else life

/- Notes a further copy of a live allocation. -/
def shareLifetime (allocation : AllocationId) (nbytes : Nat) (atS : ℚ)
    (life : Lifetime) : Lifetime :=
  if life.allocation = allocation ∧ life.live = true then
    { life with nbytes := max life.nbytes nbytes, startS := min life.startS atS }
  else life

end Memory

def pressureEvent (machine : MachineModel) (mem : String) (live : Nat) (atS : ℚ)
    (reason : InstructionId) : TimelineEvent :=
  { name := reason, opcode := "EvictionPressure", resource := mem, startS := atS, endS := atS
    nbytes := 0, event := some "eviction_pressure", memory := some mem, residentBytes := some live
    allocatableBytes := some (machine.allocatable mem), atS := some atS }

/- The pool now holds `live` bytes. -/
def Memory.charge (m : Memory) (machine : MachineModel) (mem : String) (live : Nat) (atS : ℚ)
    (reason : InstructionId) : Memory :=
  { m with
    resident := update m.resident mem live, peak := update m.peak mem (max (m.peak mem) live)
    timeline :=
      if 0 < machine.allocatable mem ∧ machine.allocatable mem < live then
        m.timeline ++ [pressureEvent machine mem live atS reason]
      else m.timeline }

def bumpMem (machine : MachineModel) (mem : String) (nbytes : Nat) (atS : ℚ)
    (reason : InstructionId) (m : Memory) : Memory :=
  if nbytes = 0 then m
  else
    m.charge machine mem (saturatingAdd 64 (m.resident mem) nbytes) atS reason

/- Drops a copy and returns the bytes that it freed. -/
def dropCopy (tensor : TensorId) (resource : ResourceId) (atS : ℚ) (m : Memory) : Nat × Memory :=
  match m.copies.lookup (tensor, resource) with
  | none => (0, m)
  | some id =>
    let dropped := { m with copies := m.copies.erase (tensor, resource) }
    match m.allocations.lookup id with
    | none => (0, dropped)
    | some alloc =>
      if 1 < alloc.refs then
        (0, { dropped with
          allocations := m.allocations.insert id { alloc with refs := alloc.refs - 1 }
          history := m.history.map (Memory.dropLifetime id atS false) })
      else
        (alloc.capacity, { dropped with
          allocations := m.allocations.erase id
          resident := update m.resident alloc.memory (m.resident alloc.memory - alloc.capacity)
          history := m.history.map (Memory.dropLifetime id atS true) })

section

variable (m : Memory) (tensor : TensorId) (resource : ResourceId) (id : AllocationId)

/- One more copy of a known allocation. -/
def Memory.share (alloc : Allocation) (nbytes : Nat) (atS : ℚ) : Memory :=
  { m with
    copies := m.copies.insert (tensor, resource) id
    allocations := m.allocations.insert id
      { alloc with capacity := max alloc.capacity nbytes, refs := saturatingAdd 32 alloc.refs 1 }
    history := m.history.map (Memory.shareLifetime id nbytes atS) }

/- The first copy of a new allocation. -/
def Memory.create (mem : String) (nbytes : Nat) (atS : ℚ) : Memory :=
  { m with
    copies := m.copies.insert (tensor, resource) id
    allocations := m.allocations.insert id
      { memory := mem, capacity := nbytes, refs := 1 }
    history := m.history ++
      [{ allocation := id, memory := mem, nbytes := nbytes, startS := atS, drops := []
         live := true }] }

end

section

variable (machine : MachineModel) (inst : Instruction) (tensor : TensorId) (resource : ResourceId)
variable (nbytes : Nat) (atS : ℚ) (m : Memory)

/-
  A further copy of a known allocation may enlarge its
  record, but only a new allocation is charged to the pool.
-/
def addCopy : Memory :=
  match m.allocations.lookup (allocationId inst tensor resource) with
  | some alloc => m.share tensor resource (allocationId inst tensor resource) alloc nbytes atS
  | none =>
    bumpMem machine (memFor resource machine) nbytes atS inst.name (m.create tensor resource
      (allocationId inst tensor resource)
      (memFor resource machine) nbytes atS)

def installCopy : Memory :=
  if m.copies.lookup (tensor, resource) = some (allocationId inst tensor resource) then m
  else
    addCopy machine inst tensor resource nbytes atS (dropCopy tensor resource atS m).2

end

/- Leases that end by a time, with a small tolerance. -/
def releaseStateDue (atS : ℚ) (m : Memory) : Memory :=
  let due (lease : Lease) : Bool := lease.endS ≤ atS + 1 / 10 ^ 15
  { m with
    resident := (m.leases.filter due).foldl (fun resident lease =>
        update resident lease.memory (resident lease.memory - lease.nbytes))
      m.resident
    leases := m.leases.filter (fun lease => !due lease) }

def liveActivationBytes (m : Memory) (activationIds : List TensorId) : Nat :=
  let active :=
    (m.copies.entries.filter (fun entry =>
      entry.1.2 ≠ "disk" ∧ entry.1.1 ∈ activationIds)).map Sigma.snd
  (active.dedup.map (fun id => ((m.allocations.lookup id).map Allocation.capacity).getD 0)).sum

----
-- Contention
----

/- When a stream, engine or queue is free, and who used it
   last. -/
structure Clock where
  free : String → ℚ
  last : String → Option InstructionId

def Clock.new : Clock :=
  { free := fun _ => 0
    last := fun _ => none }

/- The time an instruction takes, and what it waited for. -/
structure Slot where
  start : ℚ
  finish : ℚ
  pred : Option InstructionId

/- Waits for the dependencies and for the key. -/
def Clock.slot (clock : Clock) (key : String) (free depEnd dur : ℚ)
    (pred : Option InstructionId) : Slot :=
  { start := max depEnd free, finish := max depEnd free + dur
    pred :=
      if (clock.last key).isSome ∧ depEnd ≤ free then
        clock.last key
      else pred }

def Clock.occupy (clock : Clock) (key : String) (finish : ℚ) (name : InstructionId) : Clock :=
  { free := update clock.free key finish, last := update clock.last key (some name) }

/- `id.map(format).filter(non-empty)`. -/
def keyOf (tag : String) (id : Option String) : Option String :=
  (id.filter (fun s => s ≠ "")).map (fun s => tag ++ s)

def computeKey (inst : Instruction) : String :=
  (keyOf "stream:" inst.streamId).getD ("resource:" ++ inst.resource)

def engineKey (inst : Instruction) : String :=
  ((keyOf "engine:" inst.copyEngineId).or (keyOf "stream:" inst.streamId)).getD
    ("resource:" ++ inst.resource)

def ioKey (inst : Instruction) : String :=
  ((keyOf "io:" inst.ioQueueId).or (keyOf "engine:" inst.copyEngineId)).getD "io:default"

def spillKey (inst : Instruction) : String :=
  (keyOf "io:" inst.ioQueueId).getD "io:default"

----
-- State of the Walk
----

/- `cp_finish` of the source always equals `inst_end`. -/
structure Sim where
  ready : List InstructionId
  remaining : InstructionId → List InstructionId
  computeClock : Clock
  copyClock : Clock
  ioClock : Clock
  linkFree : String → ℚ
  busy : AList (fun _ : String => ℚ)
  memory : Memory
  eventReadyAt : InstructionId → Option ℚ
  instEnd : AList (fun _ : InstructionId => ℚ)
  cpPred : InstructionId → Option (Option InstructionId)
  bytesRead : Nat
  bytesTransferred : Nat
  exposed : ℚ
  activationPeak : Nat
  activationIds : List TensorId

namespace Sim

section

variable (sim : Sim)

def endOf (name : InstructionId) : ℚ :=
  (sim.instEnd.lookup name).getD 0

def depEnd (inst : Instruction) : ℚ :=
  (inst.dependsOn.map sim.endOf).foldl max 0

/- `max_by` returns the last of several maxima. -/
def laterDep (best : Option InstructionId) (dep : InstructionId) : Option InstructionId :=
  match best with
  | none => some dep
  | some b =>
    if sim.endOf b ≤ sim.endOf dep then some dep
    else some b

def latestDep (inst : Instruction) : Option InstructionId :=
  inst.dependsOn.foldl sim.laterDep none

def addBusy (key : String) (dur : ℚ) : Sim :=
  { sim with busy := sim.busy.insert key ((sim.busy.lookup key).getD 0 + dur) }

def occupyLink (link : Option String) (dur finish : ℚ) : Sim :=
  match link with
  | some link =>
    { sim.addBusy ("link:" ++ link) dur with linkFree := update sim.linkFree link finish }
  | none => sim

def notePeak : Sim :=
  { sim with
    activationPeak := max sim.activationPeak (liveActivationBytes sim.memory sim.activationIds) }

end

end Sim

/- What an instruction leaves for the timeline. -/
structure Turn where
  sim : Sim
  slot : Slot
  nbytes : Nat
  resource : String
  event : Option String := none
  atS : Option ℚ := none
  written : Option Nat := none

----
-- Opcodes
----

section Arms

variable (machine : MachineModel) (inst : Instruction)

def computeDuration : ℚ :=
  let delayed :=
    match (inst.attr "mock_compute_delay_s").bind attrF64 with
    | some v => max inst.predictedDurationS v
    | none => inst.predictedDurationS
  if delayed ≤ 0 then 1 / 10 ^ 6 else delayed

/- State is leased for the kernel unless an input is already
   there. -/
def leaseState (start finish : ℚ) (m : Memory) : Memory :=
  match ((inst.attr "state_bytes").bind attrU64).filter (fun n => 0 < n) with
  | none => m
  | some n =>
    if inst.inputs.any (fun tensor => m.hasCopy tensor inst.resource) then m
    else
      { bumpMem machine (memFor inst.resource machine) n
          start inst.name m with
        leases := m.leases ++
          [{ endS := finish, memory := memFor inst.resource machine, nbytes := n }] }

def computeArm (depEnd : ℚ) (pred : Option InstructionId) (sim : Sim) : Turn :=
  let key := computeKey inst
  let dur := computeDuration inst
  let slot := sim.computeClock.slot key
    (sim.computeClock.free key) depEnd dur pred
  let leased := leaseState machine inst slot.start slot.finish sim.memory
  let outputs := inst.outputs.foldl
    (fun m out =>
      installCopy machine inst out inst.resource (tensorNbytes inst out) slot.start m) leased
  { sim :=
      ({ sim.addBusy inst.resource dur with
        computeClock := sim.computeClock.occupy key slot.finish inst.name, memory := outputs
        activationIds := sim.activationIds ++ inst.outputs }).notePeak
    slot := slot, nbytes := inst.nbytes, resource := inst.resource }

def transferDuration : ℚ :=
  let dur := machine.transferTime (inst.source.getD "") inst.dest (max inst.nbytes 1)
  match (inst.attr "mock_transfer_delay_s").bind attrF64 with
  | some v => max dur v
  | none => dur

def linkOf : Option String :=
  inst.linkId.filter (fun link => link ≠ "")

/- Copies are made one after another; a missing source ends
   the simulation. -/
def transferCopies (start : ℚ) : List TensorId → Memory → Except String Memory
| [], m => .ok m
| tensor :: rest, m =>
  if m.hasCopy tensor (inst.source.getD "") then
    transferCopies start rest (installCopy machine inst tensor inst.dest
      (tensorNbytes inst tensor) start m)
  else
    .error ("transfer " ++ Text.debug inst.name ++
      " source copy missing for tensor " ++ tensor ++
      " on " ++ inst.source.getD "")

def transferArm (depEnd : ℚ) (pred : Option InstructionId) (sim : Sim) : Except String Turn :=
  let key := engineKey inst
  let dur := transferDuration machine inst
  let free :=
    match linkOf inst with
    | some link => max (sim.copyClock.free key) (sim.linkFree link)
    | none => sim.copyClock.free key
  let slot := sim.copyClock.slot key free depEnd dur pred
  let linked := (sim.addBusy key dur).occupyLink (linkOf inst) dur slot.finish
  match transferCopies machine inst slot.start (uniqueTensors inst) sim.memory with
  | .error message => .error message
  | .ok copied =>
    .ok
      { sim :=
          ({ linked with
            copyClock := sim.copyClock.occupy key slot.finish inst.name
            bytesTransferred := sim.bytesTransferred + max inst.nbytes 1
            exposed := sim.exposed + dur, memory := copied }).notePeak
        slot := slot, nbytes := max inst.nbytes 1, resource := inst.resource }

/- A Load without bytes after its Prefetch costs nothing. -/
def ioBytes : Nat :=
  if inst.opcode = .load ∧ inst.kind = "parameter_materialize" ∧ inst.nbytes = 0 then 0
  else max inst.nbytes 1

/- A Prefetch only fills the pack cache. -/
def materializes : Bool :=
  inst.opcode = .load ∨ inst.kind = "activation_reload"

def ioDuration : ℚ :=
  if ioBytes inst = 0 then 0
  else machine.transferTime "disk" inst.dest (ioBytes inst)

def ioMemory (start : ℚ) (m : Memory) : Memory :=
  if materializes inst then
    (uniqueTensors inst).foldl (fun m tensor =>
      installCopy machine inst tensor inst.dest (tensorNbytes inst tensor) start m) m
  else m

/- Reloaded tensors count as activations again. -/
def noteReload (sim : Sim) : Sim :=
  if inst.kind = "activation_reload" then
    ({ sim with activationIds := sim.activationIds ++ uniqueTensors inst }).notePeak
  else sim

section

variable (depEnd : ℚ) (pred : Option InstructionId) (sim : Sim)

def ioArm : Turn :=
  let key := ioKey inst
  let dur := ioDuration machine inst
  let slot := sim.ioClock.slot key (sim.ioClock.free key)
    depEnd dur pred
  { sim :=
      noteReload inst
        { sim.addBusy key dur with
          ioClock := sim.ioClock.occupy key slot.finish inst.name
          bytesRead := sim.bytesRead + ioBytes inst
          memory := ioMemory machine inst slot.start sim.memory }
    slot := slot, nbytes := ioBytes inst, resource := inst.resource }

def recordArm : Turn :=
  { sim :=
      { sim with eventReadyAt := update sim.eventReadyAt inst.name (some depEnd) }
    slot := { start := depEnd, finish := depEnd, pred := pred }, nbytes := 0
    resource := inst.resource }

/- A missing event is never invented. -/
def waitArm : Except String Turn :=
  match (inst.attrStr "waits_for").or inst.dependsOn.head? with
  | none => .error ("WaitEvent " ++ Text.debug inst.name ++ " missing waits_for / depends_on")
  | some wf =>
    match sim.eventReadyAt wf with
    | none =>
      .error ("WaitEvent " ++ Text.debug inst.name ++ " references unknown event " ++ Text.debug wf)
    | some eventT =>
      .ok
        { sim := sim
          slot :=
            { start := max depEnd eventT, finish := max depEnd eventT, pred := pred }
          nbytes := 0, resource := inst.resource }

end

def spillResource : ResourceId :=
  ((inst.attrStr "spill_resource").or inst.source).getD inst.resource

def spillDuration : ℚ :=
  max ((max inst.nbytes 1 : Nat) / (500 * 2 ^ 20)) (1 / 10 ^ 6)

/- The copy moves to disk; it is in memory until the write
   ends. -/
def spillTensor (finish : ℚ) (state : Nat × Memory) (tensor : TensorId) : Nat × Memory :=
  let dropped := dropCopy tensor (spillResource inst) finish state.2
  (state.1 + dropped.1, installCopy machine inst tensor "disk"
    (max (tensorNbytes inst tensor) 1) finish dropped.2)

def spillArm (depEnd : ℚ) (pred : Option InstructionId) (sim : Sim) : Turn :=
  let key := spillKey inst
  let slot := sim.ioClock.slot key (sim.ioClock.free key)
    depEnd (spillDuration inst) pred
  let spilled := inst.inputs.foldl (spillTensor machine inst slot.finish) (0, sim.memory)
  { sim :=
      ({ sim with
        ioClock := sim.ioClock.occupy key slot.finish inst.name, memory := spilled.2 }).notePeak
    slot := slot, nbytes := spilled.1, resource := spillResource inst, event := some "Evict"
    atS := some slot.start
    written := some (inst.inputs.map (fun tensor => max (tensorNbytes inst tensor) 1)).sum }

def releaseTarget : ResourceId :=
  (inst.attrStr "release_resource").getD inst.resource

def releaseIdempotent : Bool :=
  match inst.attr "idempotent" with
  | some (.bool true) => true
  | _ => false

def releaseCopies (start : ℚ) : List TensorId → Nat × Memory → Except String (Nat × Memory)
| [], state => .ok state
| tensor :: rest, state =>
  let dropAt (resource : ResourceId) : Nat × Memory :=
    let dropped := dropCopy tensor resource start state.2
    (state.1 + dropped.1, dropped.2)
  if state.2.hasCopy tensor (releaseTarget inst) then
    releaseCopies start rest (dropAt (releaseTarget inst))
  else if state.2.hasCopy tensor "disk" then
    releaseCopies start rest (dropAt "disk")
  else if releaseIdempotent inst then
    releaseCopies start rest state
  else
    .error ("release/evict " ++ Text.debug inst.name ++
      " target missing for tensor " ++ tensor ++ " on " ++
      releaseTarget inst)

def releaseArm (depEnd : ℚ) (pred : Option InstructionId) (sim : Sim) : Except String Turn :=
  match releaseCopies inst depEnd inst.inputs
    (0, sim.memory) with
  | .error message => .error message
  | .ok released =>
    .ok
      { sim := ({ sim with memory := released.2 }).notePeak
        slot := { start := depEnd, finish := depEnd, pred := pred }
        nbytes := max released.1 inst.nbytes, resource := inst.resource }

/- The match over the opcodes. -/
def arm (depEnd : ℚ) (pred : Option InstructionId) (sim : Sim) : Except String Turn :=
  match inst.opcode with
  | .compute => .ok (computeArm machine inst depEnd pred sim)
  | .transfer => transferArm machine inst depEnd pred sim
  | .prefetch | .load => .ok (ioArm machine inst depEnd pred sim)
  | .recordEvent => .ok (recordArm inst depEnd pred sim)
  | .waitEvent => waitArm inst depEnd pred sim
  | .evict =>
    if inst.kind = "activation_spill" then
      .ok (spillArm machine inst depEnd pred sim)
    else releaseArm inst depEnd pred sim
  | .release => releaseArm inst depEnd pred sim

/- The entry of an instruction on the timeline. -/
def Turn.entry (turn : Turn) : TimelineEvent :=
  { name := inst.name, opcode := inst.opcode.asStr, resource := turn.resource
    startS := turn.slot.start, endS := turn.slot.finish, nbytes := turn.nbytes
    criticalPred := turn.slot.pred, event := turn.event, atS := turn.atS
    activationBytesWritten := turn.written }

def Turn.finish (turn : Turn) : Sim :=
  { turn.sim with
    instEnd := turn.sim.instEnd.insert inst.name turn.slot.finish
    cpPred := update turn.sim.cpPred inst.name (some turn.slot.pred)
    memory := { turn.sim.memory with timeline := turn.sim.memory.timeline ++ [turn.entry inst] } }

/- One instruction, up to the unlocking of its dependents. -/
def process (sim : Sim) : Except String Sim :=
  let due := { sim with memory := releaseStateDue (sim.depEnd inst) sim.memory }
  match arm machine inst (sim.depEnd inst) (sim.latestDep inst) due with
  | .error message => .error message
  | .ok turn => .ok (turn.finish inst)

end Arms

----
-- The Walk
----

/- `dependents`: one entry for each listed dependency. -/
def dependents (schedule : ExecutableSchedule) (name : InstructionId) : List InstructionId :=
  schedule.instructions.flatMap (fun inst =>
    (inst.dependsOn.filter (fun dep => dep = name)).map (fun _ => inst.name))

/-
  Removes a finished dependency from the set of each listed
  dependent and queues the dependent when its set is empty,
  also when it was empty before.
-/
def unlock (name : InstructionId) : List InstructionId → Sim → Sim
| [], sim => sim
| next :: rest, sim =>
  let deps := (sim.remaining next).filter (fun dep => dep ≠ name)
  unlock name rest
    { sim with
      remaining := update sim.remaining next deps
      ready :=
        if deps = [] then sim.ready ++ [next]
        else sim.ready }

/- One turn of the loop; `none` when nothing is ready. -/
def turn (schedule : ExecutableSchedule) (machine : MachineModel)
    (sim : Sim) : Option (Except String Sim) :=
  match sim.ready with
  | [] => none
  | name :: ready =>
    (schedule.byName name).map (fun inst =>
      match process machine inst { sim with ready := ready } with
      | .error message => .error message
      | .ok next => .ok (unlock name (dependents schedule name) next))

/- The loop with a bound on its turns, `none` beyond it. -/
def walk (schedule : ExecutableSchedule) (machine : MachineModel) :
    Nat → Sim → Option (Except String Sim)
| fuel, sim =>
  match turn schedule machine sim with
  | none => some (.ok sim)
  | some (.error message) => some (.error message)
  | some (.ok next) =>
    match fuel with
    | 0 => none
    | fuel + 1 => walk schedule machine fuel next

/- Inputs of the user are resident where the first Transfer
   reads them. -/
def installInputs (schedule : ExecutableSchedule) (machine : MachineModel) : Memory :=
  schedule.instructions.foldl (fun m inst =>
      if inst.opcode ≠ .transfer ∨ inst.source.getD "" = "" then m
      else
        ((uniqueTensors inst).filter (fun tensor =>
          tensor ∉ producedTensorIds schedule)).foldl (fun m tensor =>
            if m.hasCopy tensor (inst.source.getD "") then m
            else
              installCopy machine inst tensor (inst.source.getD "")
                (tensorNbytes inst tensor) 0 m) m)
    .empty

/- `order` is the iteration order of `remaining`. -/
def start (schedule : ExecutableSchedule) (machine : MachineModel)
    (order : List InstructionId) : Sim :=
  { ready := order.filter (fun name =>
      Validate.dependsOn schedule name = [])
    remaining := fun name => (Validate.dependsOn schedule name).dedup
    computeClock := .new, copyClock := .new, ioClock := .new
    linkFree := fun _ => 0
    busy := machine.compute.foldl (fun busy name => busy.insert name 0) ∅
    memory := installInputs schedule machine
    eventReadyAt := fun _ => none
    instEnd := ∅
    cpPred := fun _ => none
    bytesRead := 0, bytesTransferred := 0, exposed := 0, activationPeak := 0, activationIds := [] }

----
-- Reports
----

def Sim.makespan (sim : Sim) : ℚ :=
  (sim.instEnd.entries.map Sigma.snd).foldl max 0

/- The last name, in string order, that ends with the
   makespan. -/
def Sim.lastFinished (sim : Sim) : Option InstructionId :=
  ((sim.instEnd.entries.filter (fun entry =>
      |entry.2 - sim.makespan| < 1 / 10 ^ 12)).map Sigma.fst).foldl
    (fun best name =>
      match best with
      | none => some name
      | some b => if name < b then some b else some name)
    none

/- Follows the recorded predecessors, `none` when the bound
   on the length is exceeded. -/
def predecessors (cpPred : InstructionId → Option (Option InstructionId)) :
    Nat → InstructionId → Option (List InstructionId)
| fuel, cur =>
  match cpPred cur with
  | some (some p) =>
    match fuel with
    | 0 => none
    | fuel + 1 => (predecessors cpPred fuel p).map (fun path => path ++ [cur])
  | _ => some [cur]

def reconstructCriticalPath (sim : Sim) (fuel : Nat) : Option (List InstructionId) :=
  match sim.lastFinished with
  | none => some []
  | some name => predecessors sim.cpPred fuel name

def Sim.result (schedule : ExecutableSchedule) (sim : Sim)
    (path : List InstructionId) : SimulationResult :=
  { makespanS := sim.makespan, peakBytes := sim.memory.peak, timeline := sim.memory.timeline
    exposedTransferLatencyS := sim.exposed, resourceBusyS := sim.busy
    initiationIntervalS := max ((sim.busy.entries.map Sigma.snd).foldl max 0) (1 / 10 ^ 12)
    criticalPath := path, bytesRead := sim.bytesRead, bytesTransferred := sim.bytesTransferred
    instructionCount := schedule.instructions.length, activationPeakBytes := sim.activationPeak }

def isPressure (event : TimelineEvent) : Bool :=
  event.event = some "eviction_pressure"

/- Pressure on a memory is not a valid report. -/
def outcomeOf (result : SimulationResult) : SimulationOutcome :=
  match result.timeline.find? isPressure with
  | none => .valid result
  | some pressure =>
    .infeasibleMemory
      { memory := pressure.memory.getD "", residentBytes := pressure.residentBytes.getD 0
        allocatableBytes := pressure.allocatableBytes.getD 0, instruction := pressure.name
        atS := pressure.atS.getD 0, peakBytes := result.peakBytes }

/-
  The simulation with `fuel` turns of each of its two loops,
  for a schedule that the validator accepted; `none` when a
  loop needs more.
-/
def simulateSchedule (schedule : ExecutableSchedule) (machine : MachineModel)
    (order : List InstructionId) (fuel : Nat) : Option (Except String SimulationOutcome) :=
  match walk schedule machine fuel (start schedule machine order) with
  | none => none
  | some (.error message) => some (.error message)
  | some (.ok sim) =>
    (reconstructCriticalPath sim fuel).map (fun path => .ok (outcomeOf (sim.result schedule path)))

end Simulator

end TensorTorrent
