import TensorTorrent.Executor.Inline

/-
  This file says what Computes and Releases do to the part
  of the state that belongs to the callbacks: the runtime's
  own work never touches it.

  Main declarations:
    * `runInstruction_keepsEnv`
    * `regionWave_env`
-/

namespace TensorTorrent

open Command (Keeps Triple)

variable {ω : Type} {schedule : ExecutableSchedule} {α ε : Type}

----
-- Frames of the Runtime
----

/- The command keeps a property of the callbacks' state. -/
def KeepsEnv (kept : ω → Prop) (command : Command (World ω) ε α) : Prop :=
  Keeps (fun world => kept world.env) command

def CallbackKeeps (kept : ω → Prop) (callback : Callback ω α) : Prop :=
  ∀ world, kept world.env → kept (callback world).2.env

variable {kept : ω → Prop}

theorem untouched_env (kept : ω → Prop) : Untouched (fun world => kept world.env) :=
  ⟨fun _ _ _ h => h, fun _ _ h => h⟩

theorem checkCancel_keepsEnv (host : Host ω) : KeepsEnv kept (checkCancel host) :=
  .bind (.mapError (untouched_env kept).isCancelled) (fun _ => .onlyIf .throw)

theorem callback_orFail_keepsEnv {callback : Callback ω α} (hCallback : CallbackKeeps kept callback)
    (call : Call) (wrap : String → RuntimeError) :
    KeepsEnv kept (Callback.orFail callback call wrap) :=
  .attempt hCallback

----
-- Releases
----

/- A Release that is no spill and needs no copy resources. -/
structure IsPlainRelease (inst : Instruction) : Prop where
  opcode : inst.opcode = .release
  kind : inst.kind ≠ "activation_spill"
  copyEngine : inst.copyEngineId = none
  ioQueue : inst.ioQueueId = none
  link : inst.linkId = none

variable {inst : Instruction}

theorem acquireResources_eq (host : Host ω) (hPlain : IsPlainRelease inst) :
    acquireResources host inst = pure () := by
  simp [acquireResources, acquireNamed, hPlain.copyEngine, hPlain.ioQueue, hPlain.link]

section Handles

variable (host : Host ω) (options : ExecuteOptions ω)
  (hHandles : ∀ href, options.handleRelease = some href → ∀ pairs, CallbackKeeps kept (href pairs))

include hHandles

theorem runRelease_keepsEnv (hPlain : IsPlainRelease inst) :
    KeepsEnv kept (runRelease host options inst) := by
  unfold runRelease
  rw [if_neg hPlain.kind]
  exact .bind (untouched_env kept).releaseTensors (releaseHandles_keeps hHandles)

theorem runInstruction_keepsEnv (regionCb : Option (RegionCallback ω))
    (hPlain : IsPlainRelease inst) :
    KeepsEnv kept (runInstruction host options regionCb false inst) := by
  unfold runInstruction
  rw [acquireResources_eq host hPlain]
  refine .bind .pure ?_
  intro _
  refine .bind (.outcome ?_) ?_
  · unfold runInstructionBody
    rw [hPlain.opcode]
    exact .bind (runRelease_keepsEnv host options hHandles hPlain) (fun _ => .pure)
  · intro result
    exact .bind (.update (fun _ h => h)) (fun _ => rethrow_keeps result)

private theorem runNativeWave_keepsEnv {insts : List Instruction}
    (hPlain : ∀ inst ∈ insts, IsPlainRelease inst) :
    KeepsEnv kept (runNativeWave host options insts) := by
  refine .foldlM insts ?_ []
  intro teles inst hInst
  exact .bind (.mapError (runInstruction_keepsEnv host options hHandles none (hPlain inst hInst)))
    (fun _ => .pure)

end Handles

----
-- Turns of the Region Loop
----

/- A Compute that runs in the region callback. -/
structure IsPlainCompute (inst : Instruction) : Prop where
  opcode : inst.opcode = .compute
  native : isNativeLaunch inst = false

/- A schedule of Computes and Releases. -/
def ComputesAndReleases (schedule : ExecutableSchedule) : Prop :=
  ∀ inst ∈ schedule.instructions, IsPlainCompute inst ∨ IsPlainRelease inst

/- Callbacks other than the region callback keep a property. -/
structure SideCallbacksKeep (kept : ω → Prop) (host : Host ω)
    (options : ExecuteOptions ω) : Prop where
  virtualCompute : ∀ resource stream delay, CallbackKeeps kept
    (host.virtualCompute resource stream delay)
  handleRelease : ∀ href, options.handleRelease = some href →
    ∀ pairs, CallbackKeeps kept (href pairs)
  parameterLoad : options.parameterLoad = none

section Turns

variable {host : Host ω} {options : ExecuteOptions ω} {batch : List (Index schedule)}
variable {idx : Index schedule} (regionCb : RegionCallback ω)
variable (instructionCb : Option (InstructionCallback ω)) (state : LoopState schedule)

theorem runOther_eq (host : Host ω) (options : ExecuteOptions ω)
    (hPlain : IsPlainRelease inst) : runOther host options regionCb instructionCb inst =
      runOtherNative host options regionCb inst := by
  have hNative : needsPythonIo inst options = false := by simp [needsPythonIo, hPlain.opcode]
  simp [runOther, hNative]

section Side

variable (hSide : SideCallbacksKeep kept host options)

include hSide

theorem runReleaseWave_keepsEnv {insts : List Instruction}
    (hPlain : ∀ inst ∈ insts, IsPlainRelease inst) :
    KeepsEnv kept (runReleaseWave host options insts) := by
  refine .bind (.update (fun _ h => h)) ?_
  intro _
  refine .bind (runNativeWave_keepsEnv host _ ?_ hPlain) ?_
  · intro href hHref pairs world hKept
    rcases Option.map_eq_some_iff.mp hHref with ⟨_, _, hCollect⟩
    rw [← hCollect]
    exact hKept
  · intro teles
    refine .bind .read ?_
    intro pairs
    refine .bind ?_ (fun _ => .pure)
    unfold dropHandles
    split
    · next href hHref =>
      exact .onlyIf (callback_orFail_keepsEnv (hSide.handleRelease href hHref _) _ _)
    · exact .pure

theorem releaseStep_keepsEnv (hPlain : ∀ idx ∈ batch, IsPlainRelease (instAt idx)) :
    KeepsEnv kept (releaseStep host options batch state) := by
  unfold releaseStep
  split
  · exact .pure
  refine .bind (runReleaseWave_keepsEnv hSide ?_) (fun _ => .pure)
  intro inst hInst
  rcases List.mem_map.mp hInst with ⟨idx, hIdx, rfl⟩
  exact hPlain idx hIdx

theorem otherStep_keepsEnv (hPlain : IsPlainRelease (instAt idx)) :
    KeepsEnv kept (otherStep host options regionCb instructionCb state idx) := by
  refine .bind (checkCancel_keepsEnv host) ?_
  intro _
  simp only [runOther_eq regionCb instructionCb host options hPlain]
  refine .bind ?_ (fun _ => .pure)
  refine .bind .read ?_
  intro notes
  exact .bind (.mapError (runInstruction_keepsEnv host options
      hSide.handleRelease (some regionCb) hPlain))
    (fun _ => .pure)

theorem regionStep_keepsEnv (note : String) (idx : Index schedule) :
    KeepsEnv kept (regionStep host note state idx) := by
  refine .bind (.onlyIf ?_) ?_
  · exact .mapError (simulateMockCompute_keeps hSide.virtualCompute)
  · intro _
    exact .bind (.mapError (untouched_env kept).putMissingOutputs) (fun _ => .pure)

end Side

/- Computes of a turn, as the region callback gets them. -/
def invocations (batch : List (Index schedule)) : List RegionInvocation :=
  (batch.map instAt).map invocation

/- What a nonempty batch does to the callbacks' state. -/
def BatchDoes (regionCb : RegionCallback ω) (before after failed : ω → Prop)
    (batch : List RegionInvocation) : Prop :=
  ∀ world, before world.env → match regionCb batch world with
    | (.ok _, world') => after world'.env
    | (.error _, world') => failed world'.env

theorem regionBatch_env {before after failed : ω → Prop}
    (hSide : SideCallbacksKeep after host options) (hFailed : ∀ env, after env → failed env)
    (hEmpty : batch = [] → ∀ env, before env → after env)
    (hBatch : batch ≠ [] → BatchDoes regionCb before after failed (invocations batch)) :
    Triple (fun world => before world.env) (regionBatch host regionCb batch state)
      (fun _ world => after world.env)
      (fun _ world => failed world.env) := by
  unfold regionBatch
  split
  · next hNil =>
    rw [List.isEmpty_iff] at hNil
    exact .pure (fun world => hEmpty hNil world.env)
  · next hNonempty =>
    rw [List.isEmpty_iff] at hNonempty
    refine .bind (fun _ world => after world.env) ?_ ?_
    · refine .attempt ?_ ?_
      all_goals
        intro world result world' hBefore hCall
        have hDoes := hBatch hNonempty world hBefore
        rw [invocations, hCall] at hDoes
        exact hDoes
    · intro _
      exact .conseq (Keeps.foldlM batch (fun state idx _ =>
          regionStep_keepsEnv state hSide _ idx) state)
        (fun _ h => h) (fun _ _ h => h)
        (fun _ world h => hFailed world.env h)

/- Ready instructions of a turn other than Computes. -/
def readyOthers (state : LoopState schedule) : List (Index schedule) :=
  (state.ready.partition (fun idx => (instAt idx).opcode = .compute)).2

/- Ready Computes of a turn, in schedule order. -/
def readyComputes (state : LoopState schedule) : List (Index schedule) :=
  (state.ready.partition (fun idx => (instAt idx).opcode = .compute)).1.insertionSort (· ≤ ·)

theorem mem_readyOthers (idx : Index schedule) :
    idx ∈ readyOthers state ↔ idx ∈ state.ready ∧ (instAt idx).opcode ≠ .compute := by
  simp [readyOthers]

section

variable (hPlain : ComputesAndReleases schedule)

include hPlain

theorem ComputesAndReleases.release (hOpcode : (instAt idx).opcode ≠ .compute) :
    IsPlainRelease (instAt idx) := by
  rcases hPlain (instAt idx) (instAt_mem idx) with hCompute | hRelease
  · exact absurd hCompute.opcode hOpcode
  · exact hRelease

/- No Compute of a turn is launched natively. -/
private theorem readyComputes_launches : (readyComputes state).partition (fun idx =>
        isNativeLaunch (instAt idx)) =
      ([], readyComputes state) := by
  have hNone : ∀ idx ∈ readyComputes state, isNativeLaunch (instAt idx) = false := by
    intro idx hIdx
    rw [readyComputes, List.mem_insertionSort, List.partition_eq_filter_filter] at hIdx
    have hCompute := (List.mem_filter.mp hIdx).2
    rcases hPlain (instAt idx) (instAt_mem idx) with hPlainCompute | hRelease
    · exact hPlainCompute.native
    · simp [hRelease.opcode] at hCompute
  rw [List.partition_eq_filter_filter]
  refine Prod.ext ?_ ?_
  · exact List.filter_eq_nil_iff.mpr (fun idx hIdx => by simp [hNone idx hIdx])
  · exact List.filter_eq_self.mpr (fun idx hIdx => by simp [hNone idx hIdx])

/- What is left of a turn without loads and launches. -/
theorem regionWave_eq (hLoads : options.parameterLoad = none) :
    regionWave host options regionCb instructionCb state = (if state.ready.isEmpty then pure none
      else do
        checkCancel host
        let releases := takeBatch options.handleRelease.isSome
          isBatchedHandleRelease (readyOthers state)
        let state₁ ← releaseStep host options releases.1 { state with ready := [] }
        let state₂ ← releases.2.foldlM (otherStep host options regionCb instructionCb) state₁
        let state₃ ← regionBatch host regionCb (readyComputes state) state₂
        pure (some state₃)) := by
  have hLaunches := readyComputes_launches state hPlain
  unfold readyComputes at hLaunches
  unfold regionWave
  simp only [hLoads, Option.isSome_none, takeBatch,
    Bool.false_eq_true, if_false, hLaunches, loadStep,
    List.isEmpty_nil, if_true, pure_bind, List.foldlM_nil]
  rfl

/-
  A turn of a schedule of Computes and Releases changes the
  callbacks' state only through the one region batch.
-/
theorem regionWave_env {before after failed : ω → Prop}
    (hSide : SideCallbacksKeep before host options)
    (hSideAfter : SideCallbacksKeep after host options) (hFailed : ∀ env, before env → failed env)
    (hFailedAfter : ∀ env, after env → failed env)
    (hEmpty : readyComputes state = [] → ∀ env, before env → after env)
    (hBatch : readyComputes state ≠ [] → BatchDoes regionCb before after failed
        (invocations (readyComputes state))) : Triple (fun world => before world.env)
      (regionWave host options regionCb instructionCb state)
      (fun next world => Command.TurnPost True (fun _ => after world.env) next)
      (fun _ world => failed world.env) := by
  have hKeeps : ∀ {α : Type} {command : Executor ω α}, KeepsEnv before command →
      Triple (fun world => before world.env) command (fun _ world => before world.env)
        (fun _ world => failed world.env) := by
    intro α command hCommand
    exact .conseq hCommand (fun _ h => h) (fun _ _ h => h) (fun _ world h => hFailed world.env h)
  have hParts : ∀ idx, idx ∈ (takeBatch options.handleRelease.isSome
        isBatchedHandleRelease (readyOthers state)).1 ∨
      idx ∈ (takeBatch options.handleRelease.isSome
        isBatchedHandleRelease (readyOthers state)).2 → IsPlainRelease (instAt idx) := by
    intro idx hIdx
    have hOther := (takeBatch_perm options.handleRelease.isSome isBatchedHandleRelease
      (readyOthers state)).mem_iff.mp (List.mem_append.mpr hIdx)
    exact hPlain.release ((mem_readyOthers state idx).mp hOther).2
  rw [regionWave_eq regionCb instructionCb state hPlain hSide.parameterLoad]
  split
  · exact .pure (fun _ _ => trivial)
  refine .bind (fun _ world => before world.env) (hKeeps (checkCancel_keepsEnv host)) ?_
  intro _
  refine .bind (fun _ world => before world.env) (hKeeps (releaseStep_keepsEnv _ hSide
    (fun idx hIdx => hParts idx (Or.inl hIdx)))) ?_
  intro state₁
  refine .bind (fun _ world => before world.env) (hKeeps (.foldlM _
    (fun state idx hIdx => otherStep_keepsEnv regionCb instructionCb state hSide
      (hParts idx (Or.inr hIdx))) state₁)) ?_
  intro state₂
  refine .bind (fun _ world => after world.env)
    (regionBatch_env regionCb state₂ hSideAfter hFailedAfter hEmpty hBatch) ?_
  intro state₃
  exact .pure (fun _ h => h)

end

end Turns

end TensorTorrent
