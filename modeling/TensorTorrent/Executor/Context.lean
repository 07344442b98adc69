import TensorTorrent.Library.Command
import TensorTorrent.Memory.Residency

/-
  This file defines the state of one forward and what the
  executors can call (crate `tt-runtime`: `context.rs`,
  `resources.rs`, `error.rs`, `capacity.rs` and the option
  and callback types of `executor/mod.rs`).

  Python callbacks, virtual accelerators and spill files
  are arbitrary functions on the state of the forward; `ω`
  is the part of that state which the executors never see.

  Key definitions include:
    * `RuntimeError`
    * `NativeExecutionContext`
    * `World`
    * `Exec`
    * `Host`
    * `ExecuteOptions`
    * `acquireCapacity`
    * `orderKey`
-/

namespace TensorTorrent

----
-- Errors and Reports
----

inductive RuntimeError where
| validation (message : String)
| instruction (instruction opcode : String) (region tensor resource : Option String)
    (cause : String)
| cancelled
| stalled (what : String)
| other (message : String)
deriving DecidableEq

/- Error of one instruction with its context. -/
def instErr (inst : Instruction) (cause : String) : RuntimeError :=
  .instruction inst.name inst.opcode.asStr inst.executableRef inst.inputs.head? (some inst.resource)
    cause

/- Event of an executed instruction, without its times. -/
structure InstructionTelemetry where
  name : String
  opcode : String
  resource : String
  nbytes : Nat
  simulated : Bool
  notes : String
deriving DecidableEq

structure ExecuteReport where
  events : List InstructionTelemetry
  peakActivationBytes : Nat
  allocationPeakBytes : Nat
  bytesRead : Nat
  bytesTransferred : Nat
  simulatedOps : Nat

----
-- The Execution Context
----

/- Capacity-limited engine or queue. -/
structure CapacityState where
  maxConcurrent : Nat
  inflight : Nat

namespace CapacityState

def new (maxConcurrent : Nat) : CapacityState :=
  { maxConcurrent := max maxConcurrent 1, inflight := 0 }

def tryAcquire (cap : CapacityState) : Option CapacityState :=
  if cap.inflight ≥ cap.maxConcurrent then none
  else some { cap with inflight := cap.inflight + 1 }

def release (cap : CapacityState) : CapacityState :=
  { cap with inflight := cap.inflight - 1 }

end CapacityState

/- Bytes in flight are kept for each link. -/
structure ResourceState where
  copyEngines : String → Option CapacityState
  ioQueues : String → Option CapacityState
  links : String → Nat

/- Metadata of a spilled activation. -/
structure SpillMeta where
  nbytes : Nat
  dtype : String
  shape : List Int

abbrev SpillPath := String
abbrev Bytes := List UInt8

structure ExecutionStorageState where
  spills : TensorId → Option SpillPath
  spillBudgetBytes : Option Nat
  spillLiveBytes : Nat

/- Authoritative mutable state of one schedule forward. -/
structure NativeExecutionContext where
  executionId : Nat
  residency : ResidencyStore
  completedEvents : List String
  allocCounter : Nat
  resources : ResourceState
  storage : ExecutionStorageState
  streaming : Bool
  packBindings : TensorId → Option String

namespace NativeExecutionContext

/- A fresh context over a residency store. -/
def fromResidency (executionId : Nat) (residency : ResidencyStore) : NativeExecutionContext :=
  { executionId := executionId, residency := residency, completedEvents := [], allocCounter := 0
    resources :=
      { copyEngines := fun _ => none
        ioQueues := fun _ => none
        links := fun _ => 0 }
    storage :=
      { spills := fun _ => none
        spillBudgetBytes := none, spillLiveBytes := 0 }
    streaming := false
    packBindings := fun _ => none }

variable (ctx : NativeExecutionContext)

def peakBytes : Nat :=
  ctx.residency.allocations.peakBytes

def packKey (tensor : TensorId) : String :=
  (ctx.packBindings tensor).getD tensor

end NativeExecutionContext

/-
  State of a forward. `clock` counts the reads of the cancel
  flag, which another thread may raise between any two of
  them; `collected` is the bucket of `run_release_wave`.
-/
structure World (ω : Type) where
  ctx : NativeExecutionContext
  env : ω
  clock : Nat
  collected : List (TensorId × ResourceId)

/- A step of the runtime on the state of a forward. -/
abbrev Exec (ω α : Type) :=
  Command (World ω) RuntimeError α

/- A call into code outside the executors. -/
abbrev Callback (ω α : Type) :=
  World ω → Except String α × World ω

----
-- Host Services and Options
----

structure RegionInvocation where
  regionId : String
  inputs : List TensorId
  outputs : List TensorId

structure InstructionCallbackResult where
  nbytes : Nat
  simulated : Bool
  notes : String

/-
  The cancel flag, the virtual accelerators, the files of
  the spill session and the streaming store.
-/
structure Host (ω : Type) where
  cancelRaised : World ω → Bool
  virtualCompute : ResourceId → StreamId → ℚ → Callback ω Unit
  virtualTransfer : ResourceId → StreamId → Nat → Option ℚ → Callback ω Unit
  writeSpill : SpillMeta → Bytes → Callback ω SpillPath
  readSpill : SpillPath → Callback ω (SpillMeta × Bytes)
  removeSpill : SpillPath → World ω → World ω
  prefetch : List String → World ω → World ω

abbrev RegionCallback (ω : Type) :=
  List RegionInvocation → Callback ω Unit

abbrev InstructionCallback (ω : Type) :=
  InstructionId → Callback ω InstructionCallbackResult

structure ExecuteOptions (ω : Type) where
  dematerialize : Option (TensorId → Callback ω (SpillMeta × Bytes))
  materialize : Option (TensorId → SpillMeta → Bytes → Callback ω Unit)
  parameterLoad : Option (List (TensorId × ResourceId) → Callback ω (List Nat))
  handleRelease : Option (List (TensorId × ResourceId) → Callback ω Unit)
  copySync : Option (List (TensorId × ResourceId × ResourceId × Nat) → Callback ω Unit)

/- Options without any callback. -/
def ExecuteOptions.default {ω : Type} : ExecuteOptions ω :=
  { dematerialize := none, materialize := none, parameterLoad := none, handleRelease := none
    copySync := none }

----
-- Steps on the Context
----

section Steps

variable {ω : Type}

def modifyCtx (change : NativeExecutionContext → NativeExecutionContext) : Exec ω Unit :=
  Command.update (fun world => { world with ctx := change world.ctx })

def modifyResidency (change : ResidencyStore → ResidencyStore) : Exec ω Unit :=
  modifyCtx (fun ctx => { ctx with residency := change ctx.residency })

/- A residency update that may fail and then changes nothing. -/
def tryResidency (inst : Instruction)
    (change : ResidencyStore → Except MemoryError ResidencyStore) : Exec ω Unit :=
  Command.attempt (fun world =>
      match change world.ctx.residency with
      | .error err => (.error err, world)
      | .ok residency =>
        (.ok (), { world with ctx := { world.ctx with residency := residency } }))
    (fun err => instErr inst err.message)

/- `residency.get(tensor, resource).is_ok()`. -/
def isResident (tensor : TensorId) (resource : ResourceId) : Exec ω Bool :=
  Command.read (fun world => world.ctx.residency.has tensor resource)

variable (host : Host ω) (id : String)

/- Reads the cancel flag. -/
def isCancelled : Exec ω Bool := do
  let raised ← Command.read host.cancelRaised
  Command.update (fun world => { world with clock := world.clock + 1 })
  pure raised

def nextAllocId : Exec ω AllocationId := do
  let id ← Command.read (fun (world : World ω) =>
    "ex-" ++ toString world.ctx.executionId ++ "-" ++ toString world.ctx.allocCounter)
  modifyCtx (fun ctx => { ctx with allocCounter := ctx.allocCounter + 1 })
  pure id

/-
  One turn of the wait loop: with a single thread nobody
  else can free the resource, so a failed attempt ends in
  the stall watchdog.
-/
def waitForResource (what : String)
    (tryAcquire : ResourceState → Option ResourceState) : Exec ω Unit := do
  let raised ← isCancelled host
  Command.onlyIf raised (throw .cancelled)
  Command.attempt (fun world =>
      match tryAcquire world.ctx.resources with
      | none => (.error (), world)
      | some resources =>
        (.ok (), { world with ctx := { world.ctx with resources := resources } }))
    (fun _ => .stalled what)

def tryCopyEngine (maxConcurrent : Nat) (rs : ResourceState) : Option ResourceState :=
  (((rs.copyEngines id).getD (.new maxConcurrent)).tryAcquire).map (fun cap =>
    { rs with copyEngines := Function.update rs.copyEngines id (some cap) })

def tryIoQueue (maxDepth : Nat) (rs : ResourceState) : Option ResourceState :=
  (((rs.ioQueues id).getD (.new maxDepth)).tryAcquire).map (fun cap =>
    { rs with ioQueues := Function.update rs.ioQueues id (some cap) })

/- One transfer per link at a time. -/
def tryLink (nbytes : Nat) (rs : ResourceState) : Option ResourceState :=
  if rs.links id > 0 then none
  else
    some { rs with links := Function.update rs.links id (max nbytes 1) }

end Steps

----
-- Order Keys
----

def isOrderedResource (resource : ResourceId) : Bool :=
  Text.lowerContains resource "mock" || Text.lowerContains resource "cuda" ||
    Text.lowerContains resource "rocm" || Text.lowerContains resource "gpu" ||
    Text.lowerContains resource "accel"

/-
  Instructions with the same key are serialised: by stream,
  else by copy engine, else by resource.
-/
def orderKey (inst : Instruction) : Option String :=
  if !isOrderedResource inst.resource then none
  else if !ExecutableSchedule.missing inst.streamId then
    some ("stream:" ++ inst.streamId.getD "")
  else if !ExecutableSchedule.missing inst.copyEngineId then
    some ("engine:" ++ inst.copyEngineId.getD "")
  else some ("resource:" ++ inst.resource)

end TensorTorrent
