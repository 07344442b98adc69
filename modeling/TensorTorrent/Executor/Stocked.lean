import TensorTorrent.Executor.Release
import TensorTorrent.Executor.WaveOrder

/-
  This file gives a run of the region executor that cannot
  fail: the callbacks succeed and the residency store holds
  a copy of every tensor that is still to be released.

  Main declarations:
    * `runInstruction_stocks`
    * `regionWave_stocks`
-/

namespace TensorTorrent

open Command (Triple)
open List

variable {ω : Type} {schedule : ExecutableSchedule} {α β ε : Type}

----
-- A Full Store
----

/- A copy of every tensor on every resource. -/
def stock : ResidencyStore :=
  { tensors := fun tensor => some
      { version := 1, metadata := {}, aliasGroup := none
        copies := fun resource => some
          { resource := resource, allocation := tensor, version := 1, readyEvent := none
            activeLeases := 0, valid := true, authoritative := true, storageOffset := 0, shape := []
            strides := [], externalHandle := none } }
    inflightTransfers := fun _ => none
    allocations :=
      { AllocationTable.empty with
        allocs := fun _ => some
          { resource := "", capacityBytes := 1, alignment := 64, referenceCount := 1 } } }

variable (released : List TensorId)

/- All copies are there but those of some tensors. -/
def StockedWithout (store : ResidencyStore) : Prop :=
  ∀ tensor, tensor ∉ released → store.tensors tensor = stock.tensors tensor ∧
    store.allocations.allocs tensor = stock.allocations.allocs tensor

theorem stockedWithout_stock : StockedWithout released stock :=
  fun _ _ => ⟨rfl, rfl⟩

section Store

variable {released : List TensorId} {store : ResidencyStore} {tid : TensorId}

section

variable (hStocked : StockedWithout released store) (hFresh : tid ∉ released)
variable (resource : ResourceId)

include hStocked hFresh resource

theorem StockedWithout.has : store.has tid resource = true := by
  simp [ResidencyStore.has, ResidencyStore.get,
    ResidencyStore.copy?, (hStocked tid hFresh).1, stock]

theorem StockedWithout.releaseLeaseQuietly : store.releaseLeaseQuietly tid resource = store := by
  simp [ResidencyStore.releaseLeaseQuietly, ResidencyStore.releaseLease, ResidencyStore.copy?,
    (hStocked tid hFresh).1, stock]

/- A copy that is there can be released once. -/
theorem StockedWithout.releaseCopy : (store.releaseCopy tid resource).1 = .ok 1 ∧
    StockedWithout (tid :: released) (store.releaseCopy tid resource).2 := by
  rcases hStocked tid hFresh with ⟨hTensor, hAlloc⟩
  have hRelease : store.releaseCopy tid resource = (.ok 1, { store.setCopy tid resource none with
      allocations :=
        { store.allocations with
          allocs := Function.update store.allocations.allocs tid none
          liveBytes := store.allocations.liveBytes - 1
          liveByResource := Function.update store.allocations.liveByResource ""
            (store.allocations.liveByResource "" - 1) } }) := by
    simp [ResidencyStore.releaseCopy, ResidencyStore.copy?,
      AllocationTable.release, hTensor, hAlloc, stock]
  rw [hRelease]
  refine ⟨rfl, ?_⟩
  intro other hOther
  rw [mem_cons, not_or] at hOther
  rw [← (hStocked other hOther.2).1, ← (hStocked other hOther.2).2]
  simp [ResidencyStore.setCopy, Function.update_of_ne hOther.1]

end

end Store

----
-- Commands That Succeed
----

/- The store of a world, likewise. -/
abbrev StockedIn (released : List TensorId) (world : World ω) : Prop :=
  StockedWithout released world.ctx.residency

/- A command that succeeds and leaves this stock. -/
def Stocks (before : List TensorId) (command : Command (World ω) ε α)
    (after : List TensorId) : Prop :=
  Triple (StockedIn before) command (fun _ => StockedIn after) (fun _ _ => False)

namespace Stocks

variable {before middle after : List TensorId}

theorem pure {value : α} : Stocks before (Pure.pure value : Command (World ω) ε α) before :=
  Triple.pure (fun _ h => h)

theorem read {value : World ω → α} :
    Stocks before (Command.read value : Command (World ω) ε α) before :=
  Triple.read (fun _ h => h)

variable {command : Command (World ω) ε α}

theorem bind {next : α → Command (World ω) ε β} (hFirst : Stocks before command middle)
    (hNext : ∀ value, Stocks middle (next value) after) : Stocks before (command >>= next) after :=
  Triple.bind _ hFirst hNext

theorem mapError {δ : Type} {command : Command (World ω) δ α} {onError : δ → ε}
    (hCommand : Stocks before command after) : Stocks before (Command.mapError command onError)
      after := by
  refine .attempt ?_ ?_
  · intro world value world' hBefore hRun
    have hAfter := hCommand world hBefore
    rw [hRun] at hAfter
    exact hAfter
  · intro world err world' hBefore hRun
    have hAfter := hCommand world hBefore
    rw [hRun] at hAfter
    exact hAfter

/- The observed result is not a failure. -/
theorem outcome (hCommand : Stocks before command after) :
    Triple (StockedIn before) (Command.outcome command)
      (fun result world => (∃ value, result = .ok value) ∧ StockedIn after world)
      (fun _ _ => False) := by
  intro world hBefore
  have hAfter := hCommand world hBefore
  change (∃ value, (command.exec world).1 = .ok value) ∧ StockedIn after (command.exec world).2
  cases hExec : command.exec world with
  | mk result world' =>
    rw [hExec] at hAfter
    cases result with
    | ok value => exact ⟨⟨value, rfl⟩, hAfter⟩
    | error err => exact hAfter.elim

/- Each item takes its own tensors from the store. -/
theorem foldlM {body : β → α → Command (World ω) ε β} (takes : α → List TensorId) (list : List α)
    (hBody : ∀ front item back acc, list = front ++ item :: back →
      Stocks (front.flatMap takes ++ before) (body acc item)
        ((front ++ [item]).flatMap takes ++ before))
    (acc : β) : Stocks before (list.foldlM body acc) (list.flatMap takes ++ before) :=
  Triple.foldlM (fun front _ => StockedIn (front.flatMap takes ++ before)) list hBody acc

end Stocks

open Stocks (foldlM pure mapError)

/- More may be missing than was taken. -/
theorem Stocks.weaken {before after wider : List TensorId} {command : Command (World ω) ε α}
    (hStocks : Stocks before command after) (hSubset : ∀ tensor ∈ after, tensor ∈ wider) :
    Stocks before command wider :=
  Triple.conseq hStocks (fun _ h => h) (fun _ _ hAfter tensor hTensor =>
      hAfter tensor (fun h => hTensor (hSubset tensor h)))
    (fun _ _ h => h)

/- A host that never cancels and always succeeds. -/
structure QuietHost (host : Host ω) : Prop where
  cancelRaised : ∀ world, host.cancelRaised world = false
  virtualCompute : ∀ resource stream delay world, host.virtualCompute resource stream delay world =
    (.ok (), world)

theorem checkCancel_stocks {host : Host ω} (hQuiet : QuietHost host) {before : List TensorId} :
    Stocks before (checkCancel host) before := by
  refine Triple.bind (fun raised world => raised = false ∧ StockedIn before world) ?_ ?_
  · intro world hStocked
    exact ⟨hQuiet.cancelRaised world, hStocked⟩
  · rintro raised world ⟨rfl, hStocked⟩
    exact hStocked

variable {released : List TensorId}

theorem releaseTensor_stocks (inst : Instruction) {tid : TensorId} (hFresh : tid ∉ released) :
    Stocks released (releaseTensor (ω := ω) inst tid) (tid :: released) := by
  intro world hStocked
  have hCopy := hStocked.releaseCopy hFresh (releaseResource inst)
  have hRun : Command.exec (releaseTensor inst tid) world = (.ok true, { world with
      ctx := { world.ctx with
        residency := (world.ctx.residency.releaseCopy tid (releaseResource inst)).2 } }) := by
    simp only [releaseTensor, isResident, modifyResidency,
      modifyCtx, Command.exec_bind, Command.exec_read, Command.exec_update, hStocked.has hFresh,
      hStocked.releaseLeaseQuietly hFresh, hCopy.1,
      Bool.not_true, Bool.false_and, Bool.false_eq_true, if_false, Command.exec_pure]
  rw [hRun]
  exact hCopy.2

variable {inst : Instruction}

theorem releaseTensors_stocks (hNodup : inst.inputs.Nodup)
    (hFresh : ∀ tid ∈ inst.inputs, tid ∉ released) :
    Stocks released (releaseTensors (ω := ω) inst) (inst.inputs ++ released) := by
  refine (foldlM (fun tid => [tid]) inst.inputs ?_ []).weaken (by simp)
  intro front tid back names hSplit
  have hNew : tid ∉ front.flatMap (fun tid => [tid]) ++ released := by
    rw [hSplit, nodup_middle] at hNodup
    simp_all
  refine .bind ((releaseTensor_stocks inst hNew).weaken ?_) (fun _ => pure)
  intro tensor hTensor
  simp at hTensor ⊢
  tauto

theorem runInstruction_stocks (host : Host ω) {options : ExecuteOptions ω}
    (hHandles : options.handleRelease = none) (regionCb : Option (RegionCallback ω))
    (hPlain : IsPlainRelease inst) (hNodup : inst.inputs.Nodup)
    (hFresh : ∀ tid ∈ inst.inputs, tid ∉ released) :
    Stocks released (runInstruction host options regionCb false inst)
      (inst.inputs ++ released) := by
  have hBody : Stocks released (runInstructionBody host options regionCb false inst)
      (inst.inputs ++ released) := by
    unfold runInstructionBody runRelease releaseHandles
    rw [hPlain.opcode, if_neg hPlain.kind, hHandles]
    exact .bind (Stocks.bind (releaseTensors_stocks hNodup hFresh) (fun _ => pure))
      (fun _ => pure)
  unfold runInstruction
  rw [acquireResources_eq host hPlain]
  refine .bind pure ?_
  intro _
  refine Triple.bind _ hBody.outcome ?_
  intro result
  refine .bind (fun _ world => (∃ value, result = .ok value) ∧
      StockedIn (inst.inputs ++ released) world)
    (Triple.update (fun _ h => h)) ?_
  rintro _ world ⟨⟨value, rfl⟩, hStocked⟩
  exact hStocked

/- Each tensor is released by one instruction, once. -/
structure ReleasesOnce (schedule : ExecutableSchedule) : Prop where
  nodup : ∀ idx : Index schedule, (instAt idx).opcode = .release → (instAt idx).inputs.Nodup
  unique : ∀ i j : Index schedule, (instAt i).opcode = .release →
    (instAt j).opcode = .release → ∀ tensor ∈ (instAt i).inputs,
      tensor ∈ (instAt j).inputs → i = j

/- Tensors released by the levels below a bound. -/
def takenBelow (schedule : ExecutableSchedule) (bound : Nat) : List TensorId :=
  ((indices schedule).filter (fun idx =>
      (instAt idx).opcode = .release ∧ levelOf idx < bound)).flatMap
    (fun idx => (instAt idx).inputs)

variable {bound : Nat}

theorem mem_takenBelow {tensor : TensorId} :
    tensor ∈ takenBelow schedule bound ↔ ∃ idx : Index schedule, (instAt idx).opcode = .release ∧
      levelOf idx < bound ∧ tensor ∈ (instAt idx).inputs := by
  simp [takenBelow, mem_indices, and_assoc]

section Turns

variable {host : Host ω} (hQuiet : QuietHost host) {options : ExecuteOptions ω}
variable (hHandles : options.handleRelease = none) (state : LoopState schedule)
variable {regionCb : RegionCallback ω} (instructionCb : Option (InstructionCallback ω))

include hQuiet

include hHandles in
theorem otherStep_stocks {idx : Index schedule} (hPlain : IsPlainRelease (instAt idx))
    (hNodup : (instAt idx).inputs.Nodup)
    (hFresh : ∀ tid ∈ (instAt idx).inputs, tid ∉ released) :
    Stocks released (otherStep host options regionCb instructionCb state idx)
      ((instAt idx).inputs ++ released) := by
  refine .bind (checkCancel_stocks hQuiet) ?_
  intro _
  simp only [runOther_eq regionCb instructionCb host options hPlain]
  refine .bind ?_ (fun _ => pure)
  refine .bind Stocks.read ?_
  intro notes
  exact .bind (mapError (runInstruction_stocks host hHandles (some regionCb) hPlain hNodup hFresh))
    (fun _ => pure)

omit hQuiet in
/- With a full store no output is missing. -/
theorem putMissingOutputs_stocks (inst : Instruction) :
    Stocks [] (putMissingOutputs (ω := ω) inst) [] := by
  unfold putMissingOutputs
  induction inst.outputs with
  | nil => exact .pure
  | cons out outputs ih =>
    refine .bind ?_ (fun _ => ih)
    refine Triple.bind (fun resident world => resident = true ∧ StockedIn [] world) ?_ ?_
    · intro world hStocked
      exact ⟨hStocked.has not_mem_nil _, hStocked⟩
    · rintro resident world ⟨rfl, hStocked⟩
      exact hStocked

theorem regionStep_stocks (note : String) (idx : Index schedule) :
    Stocks [] (regionStep host note state idx) [] := by
  have hMock : Stocks [] (simulateMockCompute host (instAt idx)) [] := by
    unfold simulateMockCompute
    simp only
    split
    · exact .pure
    refine .attempt ?_ ?_
    · intro world value world' hStocked hCall
      rw [hQuiet.virtualCompute] at hCall
      cases hCall
      exact hStocked
    · intro world err world' hStocked hCall
      rw [hQuiet.virtualCompute] at hCall
      cases hCall
  refine .bind (?_ : Stocks [] _ []) ?_
  · cases isMock (instAt idx).resource with
    | false => exact .pure
    | true => exact .mapError hMock
  · intro _
    exact .bind (mapError (putMissingOutputs_stocks _)) (fun _ => pure)

/- The region callback succeeds and refills the store. -/
def Refills (regionCb : RegionCallback ω) (batch : List (Index schedule)) : Prop :=
  batch ≠ [] → ∀ world, ∃ world', regionCb (invocations batch) world = (.ok (), world') ∧
    world'.ctx.residency = stock

theorem regionBatch_stocks {batch : List (Index schedule)} (hRefills : Refills regionCb batch)
    (released : List TensorId) :
    Stocks released (regionBatch host regionCb batch state) released := by
  unfold regionBatch
  split
  · exact .pure
  rename_i hNonempty
  rw [List.isEmpty_iff] at hNonempty
  refine .bind (?_ : Stocks released _ []) ?_
  · refine .attempt ?_ ?_
    · intro world value world' _ hCall
      rcases hRefills hNonempty world with ⟨next, hNext, hStock⟩
      rw [← invocations, hNext] at hCall
      cases hCall
      rw [StockedIn, hStock]
      exact stockedWithout_stock []
    · intro world err world' _ hCall
      rcases hRefills hNonempty world with ⟨next, hNext, hStock⟩
      rw [← invocations, hNext] at hCall
      cases hCall
  · intro _
    refine (foldlM (fun _ => []) batch ?_ state).weaken (by simp)
    intro front idx back state _
    refine .weaken (?_ : Stocks _ _ []) (by simp)
    have hNil : front.flatMap (fun _ => ([] : List TensorId)) ++ [] = [] := by simp
    rw [hNil]
    exact regionStep_stocks hQuiet state _ idx

include hHandles in
/-
  A turn whose Releases find their copies succeeds, and
  takes from the store what the level releases.
-/
theorem regionWave_stocks (hAccepted : Accepted schedule) (hPlain : ComputesAndReleases schedule)
    (hOnce : ReleasesOnce schedule) (hLoads : options.parameterLoad = none)
    (hLevel : AtLevel bound state) (hRefills : Refills regionCb (readyComputes state)) :
    Stocks (takenBelow schedule bound) (regionWave host options regionCb instructionCb state)
      (takenBelow schedule (bound + 1)) := by
  have hMore : ∀ tensor ∈ takenBelow schedule bound, tensor ∈ takenBelow schedule (bound + 1) := by
    intro tensor hTensor
    rcases mem_takenBelow.mp hTensor with ⟨idx, hRelease, hLess, hInput⟩
    exact mem_takenBelow.mpr ⟨idx, hRelease, by omega, hInput⟩
  have hTaken : ∀ tensor ∈ (readyOthers state).flatMap (fun idx => (instAt idx).inputs) ++
      takenBelow schedule bound, tensor ∈ takenBelow schedule (bound + 1) := by
    intro tensor hTensor
    rcases mem_append.mp hTensor with hOther | hOld
    · rcases mem_flatMap.mp hOther with ⟨idx, hIdx, hInput⟩
      rcases (mem_readyOthers state idx).mp hIdx with ⟨hReady, hOpcode⟩
      have hAt := (hLevel.mem_ready hAccepted idx).mp hReady
      exact mem_takenBelow.mpr ⟨idx, (hPlain.release hOpcode).opcode, by omega, hInput⟩
    · exact hMore tensor hOld
  have hNodup : (readyOthers state).Nodup := by
    rw [readyOthers, partition_eq_filter_filter]
    exact (hLevel.nodup_ready hAccepted).filter _
  rw [regionWave_eq regionCb instructionCb state hPlain hLoads]
  split
  · exact pure.weaken hMore
  refine .bind (checkCancel_stocks hQuiet) ?_
  intro _
  simp only [hHandles, Option.isSome_none, takeBatch, Bool.false_eq_true, if_false, releaseStep,
    isEmpty_nil, if_true, pure_bind]
  refine .bind ((foldlM (fun idx => (instAt idx).inputs) (readyOthers state) ?_ _).weaken hTaken) ?_
  · intro front idx back state' hSplit
    have hOther : idx ∈ readyOthers state := by simp [hSplit]
    rcases (mem_readyOthers state idx).mp hOther with ⟨hReady, hOpcode⟩
    have hRelease := hPlain.release hOpcode
    refine (otherStep_stocks hQuiet hHandles state' instructionCb hRelease
      (hOnce.nodup idx hRelease.opcode) ?_).weaken ?_
    · intro tid hInput hGone
      rcases mem_append.mp hGone with hFront | hOld
      · rcases mem_flatMap.mp hFront with ⟨other, hIn, hSame⟩
        have hOtherIn : other ∈ readyOthers state := by simp [hSplit, hIn]
        have hOtherOp := (hPlain.release ((mem_readyOthers state other).mp hOtherIn).2).opcode
        have hEq := hOnce.unique other idx hOtherOp hRelease.opcode tid hSame hInput
        rw [hSplit, nodup_middle, nodup_cons] at hNodup
        exact hNodup.1 (by simp [← hEq, hIn])
      · rcases mem_takenBelow.mp hOld with ⟨other, hOtherOp, hLess, hSame⟩
        have hEq := hOnce.unique idx other hRelease.opcode hOtherOp tid hInput hSame
        have hAt := (hLevel.mem_ready hAccepted idx).mp hReady
        rw [← hEq] at hLess
        omega
    · intro tensor hTensor
      rw [flatMap_append, append_assoc]
      simp only [mem_append] at hTensor ⊢
      rw [flatMap_singleton]
      exact or_left_comm.mp hTensor
  · intro state'
    exact .bind (regionBatch_stocks hQuiet _ hRefills _) (fun _ => pure)

end Turns

end TensorTorrent
