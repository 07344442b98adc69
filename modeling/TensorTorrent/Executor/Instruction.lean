import TensorTorrent.Executor.Context

/-
  This file models the execution of one instruction (crate
  `tt-runtime`: `executor/instruction.rs` and
  `executor/spill.rs`). Virtual device buffers and stream
  counters are left out: no modelled function reads them.

  Key definitions include:
    * `nbytes`
    * `loadNotes`
    * `simulateMockCompute`
    * `runCompute`
    * `runLoad`
    * `runTransfer`
    * `runRelease`
    * `runInstruction`
    * `Untouched`
-/

namespace TensorTorrent

open Command (attempt onlyIf read update)

variable {ω : Type}

----
-- Sizes, Notes and Mock Delays
----

def nbytes (inst : Instruction) (tensor : TensorId) : Nat :=
  max ((inst.tensorNbytes.lookup tensor).getD inst.nbytes) 1

def loadNotes (inst : Instruction) (residency : ResidencyStore) : String :=
  if inst.opcode ≠ .load then "native_data_plane"
  else if inst.outputsThenInputs.all (fun tid => residency.has tid inst.dest) then
    "persistent_residency"
  else "native_data_plane"

def attrDelayS (inst : Instruction) (key : String) : Option ℚ :=
  match inst.attr key with
  | some (.float delay) => some delay
  | some (.int delay) => some (delay : ℚ)
  | _ => none

def isMock (resource : ResourceId) : Bool :=
  Text.contains resource "mock"

variable (host : Host ω)
variable (options : ExecuteOptions ω)
variable (regionCb : Option (RegionCallback ω))
variable (dryRun : Bool)

/- Simulated accelerator work after a region body. -/
def simulateMockCompute (inst : Instruction) : Exec ω Unit :=
  let delay := (attrDelayS inst "mock_compute_delay_s").getD 0
  let stream := inst.streamId.getD (inst.resource ++ "::compute0")
  if delay ≤ 0 ∧ !isMock inst.resource then pure ()
  else
    attempt (host.virtualCompute inst.resource stream delay)
      (fun e => instErr inst ("virtual backend compute (simulated): " ++ e))

def simulateMockTransfer (inst : Instruction) (dst : ResourceId) (bytes : Nat) : Exec ω Unit :=
  let delay := attrDelayS inst "mock_transfer_delay_s"
  let positiveDelay := decide (0 < delay.getD 0)
  let stream := inst.streamId.getD (dst ++ "::copy0")
  let resource := if isMock dst then dst else inst.resource
  if !positiveDelay && !isMock dst && !isMock inst.resource then pure ()
  else
    attempt (host.virtualTransfer resource stream (max bytes 1) delay)
      (fun e => instErr inst ("virtual backend transfer (simulated): " ++ e))

----
-- Registering Copies
----

/- Puts a tensor under a fresh allocation. -/
def putFresh (inst : Instruction) (tensor : TensorId) (resource : ResourceId)
    (metadata : TensorMetadata) : Exec ω Unit := do
  let id ← nextAllocId
  tryResidency inst (fun store => (store.put tensor resource id metadata none).map Prod.snd)

/- Accounts every output on the instruction's resource. -/
def putOutputs (inst : Instruction) : Exec ω Unit :=
  inst.outputs.forM (fun out => putFresh inst out inst.resource { nbytes := nbytes inst out })

/- Accounts the outputs a region callback did not mirror. -/
def putMissingOutputs (inst : Instruction) : Exec ω Unit :=
  inst.outputs.forM (fun out => do
    let resident ← isResident out inst.resource
    onlyIf (!resident) (putFresh inst out inst.resource { nbytes := nbytes inst out }))

----
-- Compute
----

def isNativeLaunch (inst : Instruction) : Bool :=
  (inst.attrBool "native_launch").getD false

def invocation (inst : Instruction) : RegionInvocation :=
  { regionId := inst.executableRef.getD "", inputs := inst.inputs, outputs := inst.outputs }

/- Backend launch without the Python region callback. -/
def runNativeLaunch (inst : Instruction) : Exec ω Bool := do
  let delay := (attrDelayS inst "mock_compute_delay_s").getD 0
  let stream := inst.streamId.getD (inst.resource ++ "::compute0")
  attempt (host.virtualCompute inst.resource stream delay)
    (fun e => instErr inst ("native_launch: " ++ e))
  putOutputs inst
  pure (isMock inst.resource)

/- The result says whether the work was simulated. -/
def runCompute (inst : Instruction) : Exec ω Bool :=
  if isNativeLaunch inst then runNativeLaunch host inst
  else
    match dryRun, regionCb with
    | false, some cb => do
        attempt (cb [invocation inst]) (fun cause =>
          .instruction inst.name inst.opcode.asStr (some (inst.executableRef.getD "")) none
            (some inst.resource) cause)
        onlyIf (isMock inst.resource) (simulateMockCompute host inst)
        putMissingOutputs inst
        pure (isMock inst.resource)
    | _, _ => do
        putOutputs inst
        onlyIf (isMock inst.resource) (simulateMockCompute host inst)
        pure (isMock inst.resource)

----
-- Activation Spill and Reload
----

/- Refuses a spill that would exceed the aggregate budget. -/
def checkSpillBudget (inst : Instruction) (spill : SpillMeta) : Exec ω Unit := do
  let storage ← read (fun (world : World ω) => world.ctx.storage)
  match storage.spillBudgetBytes with
  | none => pure ()
  | some budget =>
    if saturatingAdd 64 storage.spillLiveBytes spill.nbytes > budget then
      throw (instErr inst ("spill budget exceeded: live=" ++ toString storage.spillLiveBytes ++
        " + requested=" ++ toString spill.nbytes ++ " > budget=" ++ toString budget ++ " bytes" ++
        "                         " ++ " (raise CompileConfig.max_total_spill_bytes" ++
        " or lower" ++ "                         " ++ " activation pressure)"))

def releaseCopyStep (tensor : TensorId) (resource : ResourceId)
    (onError : MemoryError → RuntimeError) : Exec ω Unit :=
  attempt (fun world =>
      let released := world.ctx.residency.releaseCopy tensor resource
      (released.1.map (fun _ => ()),
        { world with ctx := { world.ctx with residency := released.2 } }))
    onError

/- The resource whose copy a spill drops. -/
def spillResource (inst : Instruction) : ResourceId :=
  ((inst.attrStr "spill_resource").or (inst.attrStr "release_resource")).getD inst.resource

def spillTensor (inst : Instruction)
    (demat : TensorId → Callback ω (SpillMeta × Bytes)) (tid : TensorId) : Exec ω Unit := do
  let (spill, bytes) ← attempt (demat tid) (instErr inst)
  checkSpillBudget inst spill
  let path ← attempt (host.writeSpill spill bytes) (instErr inst)
  modifyCtx (fun ctx =>
    { ctx with
      storage := { ctx.storage with
        spills := Function.update ctx.storage.spills tid (some path)
        spillLiveBytes := saturatingAdd 64 ctx.storage.spillLiveBytes spill.nbytes } })
  modifyResidency (fun store => store.releaseLeaseQuietly tid (spillResource inst))
  releaseCopyStep tid (spillResource inst) (fun e => instErr inst
    ("activation_spill failed to release " ++ tid ++
      " on " ++ spillResource inst ++ ": " ++ e.message))
  putFresh inst tid "disk" { nbytes := spill.nbytes, dtype := spill.dtype, shape := spill.shape }

def nativeActivationSpill (inst : Instruction) : Exec ω Unit :=
  match options.dematerialize with
  | none =>
    throw (instErr inst ("activation_spill requires dematerialize" ++
      " callback; refuse silent RAM drop"))
  | some demat => inst.inputs.forM (spillTensor host inst demat)

def reloadTensor (inst : Instruction)
    (mat : TensorId → SpillMeta → Bytes → Callback ω Unit) (tid : TensorId) : Exec ω Unit := do
  let found ← read (fun (world : World ω) => world.ctx.storage.spills tid)
  match found with
  | none => throw (instErr inst ("activation_reload missing spill file for " ++ tid))
  | some path => do
      let (spill, bytes) ← attempt (host.readSpill path) (instErr inst)
      attempt (mat tid spill bytes) (instErr inst)
      modifyCtx (fun ctx =>
        { ctx with
          storage := { ctx.storage with
            spills := Function.update ctx.storage.spills tid none
            spillLiveBytes := ctx.storage.spillLiveBytes - spill.nbytes } })
      update (host.removeSpill path)
      let resident ← isResident tid inst.dest
      onlyIf (!resident) (putFresh inst tid inst.dest
        { nbytes := spill.nbytes, dtype := spill.dtype, shape := spill.shape })

def nativeActivationReload (inst : Instruction) : Exec ω Unit :=
  match options.materialize with
  | none => throw (instErr inst "activation_reload requires materialize callback")
  | some mat => inst.inputs.forM (reloadTensor host inst mat)

----
-- Load and Prefetch
----

variable (residency : ResidencyStore)

/-
  Tensors of an instruction that are not resident at its
  destination, each once, in order.
-/
def missingTensors (inst : Instruction) : List (TensorId × ResourceId) :=
  inst.outputsThenInputs.foldl (fun need tid =>
      if residency.has tid inst.dest then need
      else if need.any (fun entry => entry.1 = tid) then need
      else need ++ [(tid, inst.dest)])
    []

/-
  The contract of `parameter_load`: one size for each
  tensor, each materialised with an opaque handle.
-/
def checkParameterLoad (need : List (TensorId × ResourceId))
    (sizes : List Nat) : Except String Unit :=
  if sizes.length ≠ need.length then
    .error ("parameter_load returned " ++ toString sizes.length ++ " sizes for " ++
      toString need.length ++ " tensors")
  else
    need.forM (fun entry =>
      match residency.get entry.1 entry.2 with
      | .error _ =>
        .error ("parameter_load did not materialize " ++ entry.1 ++ " on " ++ entry.2 ++
          " (refuse invent)")
      | .ok copy =>
        if copy.externalHandle.isNone then
          .error ("parameter_load left " ++ entry.1 ++ " on " ++ entry.2 ++
            " without opaque handle (refuse invent)")
        else .ok ())

def runParameterLoad (pload : List (TensorId × ResourceId) → Callback ω (List Nat))
    (inst : Instruction) : Exec ω Unit := do
  let need ← read (fun (world : World ω) => missingTensors world.ctx.residency inst)
  onlyIf (!need.isEmpty) (do
    let sizes ← attempt (pload need) (instErr inst)
    attempt (fun (world : World ω) =>
        (checkParameterLoad world.ctx.residency need sizes, world))
      (instErr inst))

/- A resident copy must exist, except in a dry run. -/
def runResidentLoad (inst : Instruction) : Exec ω Unit :=
  inst.outputsThenInputs.forM (fun tid => do
    let resident ← isResident tid inst.dest
    onlyIf (!resident) (if dryRun then
        putFresh inst tid inst.dest { nbytes := nbytes inst tid }
      else
        throw (instErr inst ("Load missing resident copy for tensor " ++ tid ++
          " on " ++ inst.dest ++ " (refuse invent)"))))

def runPrefetch (inst : Instruction) : Exec ω Unit :=
  update (fun world =>
    if world.ctx.streaming then
      host.prefetch (inst.outputsThenInputs.map world.ctx.packKey).dedup world
    else world)

def runLoad (inst : Instruction) : Exec ω Unit :=
  if inst.kind = "activation_reload" then
    nativeActivationReload host options inst
  else if inst.opcode = .prefetch then runPrefetch host inst
  else
    match options.parameterLoad with
    | some pload =>
      if inst.kind = "parameter_materialize" then
        runParameterLoad pload inst
      else runResidentLoad dryRun inst
    | none => runResidentLoad dryRun inst

----
-- Transfer
----

/- Rethrows a result that was observed before. -/
def rethrow {α : Type} : Except RuntimeError α → Exec ω α
| .ok value => pure value
| .error err => throw err

/-
  Copies one tensor from `src` to `dst`. The source is
  leased while the copy is registered, the destination
  until its Release.
-/
def copyTensor (inst : Instruction) (src dst : ResourceId) (tid : TensorId) : Exec ω Unit := do
  let _ ← attempt (fun (world : World ω) => (world.ctx.residency.get tid src, world))
    (fun e => instErr inst ("transfer source copy missing or stale for tensor " ++
      tid ++ " on " ++ src ++ ": " ++ e.message))
  tryResidency inst (fun store => store.acquireLease tid src)
  let id ← nextAllocId
  let replicated ← (tryResidency inst (fun store =>
    (store.replicate tid dst id none).map Prod.snd)).outcome
  modifyResidency (fun store => store.releaseLeaseQuietly tid src)
  rethrow replicated
  tryResidency inst (fun store => store.acquireLease tid dst)
  modifyResidency (fun store => store.endTransfer tid dst)

/- Entry of the batched handle synchronisation. -/
abbrev SyncEntry :=
  TensorId × ResourceId × ResourceId × Nat

/-
  One tensor of a Transfer. A destination that is already
  valid is leased only, and a copy already in progress is
  shared.
-/
def transferTensor (inst : Instruction) (src dst : ResourceId)
    (tid : TensorId) : Exec ω (List SyncEntry) := do
  let resident ← isResident tid dst
  if resident then
    tryResidency inst (fun store => store.acquireLease tid dst)
    pure []
  else
    let existing ← read (fun (world : World ω) =>
      (world.ctx.residency.beginTransfer tid dst inst.name).1)
    modifyResidency (fun store => (store.beginTransfer tid dst inst.name).2)
    if existing.isSome then pure []
    else
      copyTensor inst src dst tid
      pure [(tid, src, dst, nbytes inst tid)]

/- Every tensor of a Transfer once, outputs first. -/
def transferTensors (inst : Instruction) (src dst : ResourceId) : Exec ω (List SyncEntry) :=
  inst.outputsThenInputs.eraseDups.foldlM (fun batch tid => do
      let copied ← transferTensor inst src dst tid
      pure (batch ++ copied))
    []

def syncCopies (inst : Instruction) (synced : List SyncEntry) : Exec ω Unit :=
  match options.copySync with
  | some csync => onlyIf (!synced.isEmpty) (attempt (csync synced) (instErr inst))
  | none => pure ()

def runTransfer (inst : Instruction) : Exec ω Bool :=
  let src := inst.source.getD ""
  let dst := inst.dest
  let mockDelay := (attrDelayS inst "mock_transfer_delay_s").getD 0
  let simulated := isMock dst || isMock src || decide (0 < mockDelay)
  if src = "" then
    throw (instErr inst "transfer missing source resource")
  else do
    let synced ← transferTensors inst src dst
    syncCopies options inst synced
    onlyIf simulated (simulateMockTransfer host inst dst (max inst.nbytes 1))
    pure simulated

----
-- Events
----

def runRecordEvent (inst : Instruction) : Exec ω Unit :=
  modifyCtx (fun ctx => { ctx with completedEvents := inst.name :: ctx.completedEvents })

/- The event a WaitEvent waits for at run time. -/
def waitTarget (inst : Instruction) : Option String :=
  (inst.attrStr "waits_for").or inst.dependsOn.head?

def runWaitEvent (inst : Instruction) : Exec ω Unit :=
  match waitTarget inst with
  | none => throw (instErr inst "WaitEvent missing waits_for / depends_on")
  | some wf => do
      let recorded ← read (fun (world : World ω) => decide (wf ∈ world.ctx.completedEvents))
      onlyIf (!recorded) (throw (instErr inst
        ("WaitEvent target " ++ Text.debug wf ++ " was never recorded")))

----
-- Evict and Release
----

def isIdempotent (inst : Instruction) : Bool :=
  match inst.attr "idempotent" with
  | some (.bool true) => true
  | _ => false

def releaseResource (inst : Instruction) : ResourceId :=
  (inst.attrStr "release_resource").getD inst.resource

/- Errors that no idempotent release tolerates. -/
def isLeaseFailure (err : MemoryError) : Bool :=
  Text.lowerContains err.message "lease" || Text.lowerContains err.message "stale" ||
    Text.lowerContains err.message "active"

/-
  Releases one tensor. After a spill the live copy may only
  remain on disk. The result says whether a copy was
  released.
-/
def releaseTensor (inst : Instruction) (tid : TensorId) : Exec ω Bool := do
  let onResource ← isResident tid (releaseResource inst)
  let onDisk ← isResident tid "disk"
  let resource :=
    if !onResource && onDisk then "disk"
    else releaseResource inst
  modifyResidency (fun store => store.releaseLeaseQuietly tid resource)
  let released ← read (fun (world : World ω) =>
    (world.ctx.residency.releaseCopy tid resource).1)
  modifyResidency (fun store => (store.releaseCopy tid resource).2)
  match released with
  | .ok _ => pure true
  | .error err =>
    if isLeaseFailure err then
      throw (instErr inst err.message)
    else if !isIdempotent inst then
      throw (instErr inst ("release/evict target missing for tensor " ++
        tid ++ " on " ++ releaseResource inst ++ ": " ++ err.message))
    else pure false

/- Tensors of which a copy was released, in order. -/
def releaseTensors (inst : Instruction) : Exec ω (List TensorId) :=
  inst.inputs.foldlM (fun names tid => do
      let released ← releaseTensor inst tid
      pure (if released then names ++ [tid] else names))
    []

def releaseHandles (inst : Instruction) (released : List TensorId) : Exec ω Unit :=
  match options.handleRelease with
  | some href =>
    onlyIf (!released.isEmpty) (attempt (href (released.map
      (fun tid => (tid, releaseResource inst)))) (instErr inst))
  | none => pure ()

def runRelease (inst : Instruction) : Exec ω Unit :=
  if inst.kind = "activation_spill" then
    nativeActivationSpill host options inst
  else do
    let released ← releaseTensors inst
    releaseHandles options inst released

----
-- The Instruction
----

def runInstructionBody (inst : Instruction) : Exec ω Bool :=
  match inst.opcode with
  | .compute => runCompute host regionCb dryRun inst
  | .load | .prefetch => do
      runLoad host options dryRun inst
      pure false
  | .transfer => runTransfer host options inst
  | .recordEvent => do
      runRecordEvent inst
      pure false
  | .waitEvent => do
      runWaitEvent inst
      pure false
  | .evict | .release => do
      runRelease host options inst
      pure false

/- Takes a resource when the instruction names one. -/
def acquireNamed (id : Option String) (what : String → String)
    (tryAcquire : String → ResourceState → Option ResourceState) : Exec ω Unit :=
  match id with
  | some id => waitForResource host (what id) (tryAcquire id)
  | none => pure ()

/- Takes the copy engine, the I/O queue and the link. -/
def acquireResources (inst : Instruction) : Exec ω Unit := do
  acquireNamed host inst.copyEngineId (fun eng => "copy capacity on " ++ eng)
    (fun eng => tryCopyEngine eng 2)
  acquireNamed host inst.ioQueueId (fun qid => "io capacity on " ++ qid)
    (fun qid => tryIoQueue qid 2)
  acquireNamed host inst.linkId (fun link => "link " ++ link) (fun link => tryLink link inst.nbytes)

def releaseResources (inst : Instruction) (rs : ResourceState) : ResourceState :=
  { links :=
      match inst.linkId with
      | some link => Function.update rs.links link 0
      | none => rs.links
    ioQueues :=
      match inst.ioQueueId with
      | some qid => Function.update rs.ioQueues qid ((rs.ioQueues qid).map .release)
      | none => rs.ioQueues
    copyEngines :=
      match inst.copyEngineId with
      | some eng =>
        Function.update rs.copyEngines eng ((rs.copyEngines eng).map .release)
      | none => rs.copyEngines }

/-
  Runs one instruction. The resources are given back also
  when the body fails, but not those taken before a failed
  acquisition.
-/
def runInstruction (inst : Instruction) : Exec ω Bool := do
  acquireResources host inst
  let result ← (runInstructionBody host options regionCb dryRun inst).outcome
  modifyCtx (fun ctx => { ctx with resources := releaseResources inst ctx.resources })
  rethrow result

----
-- Frames
----

/- A property to which the executor's own tables do not
   matter, except the event table. -/
structure Untouched (kept : World ω → Prop) : Prop where
  ctx : ∀ world ctx, ctx.completedEvents = world.ctx.completedEvents → kept world →
    kept { world with ctx := ctx }
  clock : ∀ world clock, kept world → kept { world with clock := clock }

open Command (Keeps)

variable {kept : World ω → Prop} {inst : Instruction}

theorem rethrow_keeps {α : Type} (result : Except RuntimeError α) :
    Keeps kept (rethrow (ω := ω) result) := by
  unfold rethrow
  split
  · exact .pure
  · exact .throw

theorem simulateMockCompute_keeps {host : Host ω}
    (hCompute : ∀ resource stream delay world, kept world →
      kept (host.virtualCompute resource stream delay world).2) :
    Keeps kept (simulateMockCompute host inst) := by
  unfold simulateMockCompute
  dsimp only
  split
  · exact .pure
  · exact .attempt (hCompute _ _ _)

theorem releaseHandles_keeps {options : ExecuteOptions ω}
    (hHandles : ∀ href, options.handleRelease = some href →
      ∀ pairs world, kept world → kept (href pairs world).2)
    (released : List TensorId) : Keeps kept (releaseHandles options inst released) := by
  unfold releaseHandles
  split
  · next href hHref => exact .onlyIf (.attempt (hHandles href hHref _))
  · exact .pure

namespace Untouched

variable (hFrame : Untouched kept)

include hFrame

theorem modifyResidency {change : ResidencyStore → ResidencyStore} :
    Keeps kept (TensorTorrent.modifyResidency change) :=
  .update fun world => hFrame.ctx world _ rfl

theorem tryResidency {change : ResidencyStore → Except MemoryError ResidencyStore} :
    Keeps kept (TensorTorrent.tryResidency inst change) := by
  refine .attempt fun world hKept => ?_
  split
  · exact hKept
  · exact hFrame.ctx _ _ rfl hKept

theorem isCancelled {host : Host ω} : Keeps kept (TensorTorrent.isCancelled host) :=
  .bind .read fun _ => .bind (.update fun _ => hFrame.clock _ _) fun _ => .pure

theorem nextAllocId : Keeps kept (TensorTorrent.nextAllocId (ω := ω)) :=
  .bind .read fun _ => .bind (.update fun world => hFrame.ctx world _ rfl) fun _ => .pure

variable {resource : ResourceId} {tensor : TensorId}

theorem putFresh {metadata : TensorMetadata} :
    Keeps kept (TensorTorrent.putFresh inst tensor resource metadata) :=
  .bind hFrame.nextAllocId fun _ => hFrame.tryResidency

theorem putOutputs : Keeps kept (TensorTorrent.putOutputs inst) :=
  .forM _ fun _ => hFrame.putFresh

theorem putMissingOutputs : Keeps kept (TensorTorrent.putMissingOutputs inst) :=
  .forM _ fun _ => .bind .read fun _ => .onlyIf hFrame.putFresh

theorem runResidentLoad {dryRun : Bool} :
    Keeps kept (TensorTorrent.runResidentLoad dryRun inst) := by
  refine .forM _ fun _ => .bind .read fun _ => .onlyIf ?_
  split
  · exact hFrame.putFresh
  · exact .throw

theorem copyTensor {src dst : ResourceId} :
    Keeps kept (TensorTorrent.copyTensor inst src dst tensor) := by
  refine .bind (.attempt fun _ h => h) fun _ => ?_
  refine .bind hFrame.tryResidency fun _ => ?_
  refine .bind hFrame.nextAllocId fun _ => ?_
  refine .bind (.outcome hFrame.tryResidency) fun replicated => ?_
  refine .bind hFrame.modifyResidency fun _ => ?_
  exact .bind (rethrow_keeps replicated) fun _ =>
    .bind hFrame.tryResidency fun _ => hFrame.modifyResidency

theorem transferTensors {src dst : ResourceId} :
    Keeps kept (TensorTorrent.transferTensors inst src dst) := by
  refine .foldlM _ (fun _ tid _ => .bind ?_ fun _ => .pure) []
  refine .bind .read fun resident => ?_
  split
  · exact .bind hFrame.tryResidency fun _ => .pure
  refine .bind .read fun existing => ?_
  refine .bind hFrame.modifyResidency fun _ => ?_
  split
  · exact .pure
  · exact .bind hFrame.copyTensor fun _ => .pure

theorem releaseTensors : Keeps kept (TensorTorrent.releaseTensors inst) := by
  refine .foldlM _ (fun _ tid _ => .bind ?_ fun _ => .pure) []
  refine .bind .read fun _ => .bind .read fun _ => ?_
  refine .bind hFrame.modifyResidency fun _ => ?_
  refine .bind .read fun released => .bind hFrame.modifyResidency fun _ => ?_
  split
  · exact .pure
  split
  · exact .throw
  · split
    · exact .throw
    · exact .pure

theorem acquireResources {host : Host ω} :
    Keeps kept (TensorTorrent.acquireResources host inst) := by
  have hNamed : ∀ id what tryAcquire, Keeps kept (acquireNamed host id what tryAcquire) := by
    intro id what tryAcquire
    unfold acquireNamed
    split
    · refine .bind hFrame.isCancelled fun _ => .bind (.onlyIf .throw) fun _ =>
        .attempt fun world hKept => ?_
      split
      · exact hKept
      · exact hFrame.ctx _ _ rfl hKept
    · exact .pure
  exact .bind (hNamed _ _ _) fun _ => .bind (hNamed _ _ _) fun _ => hNamed _ _ _

end Untouched

end TensorTorrent
