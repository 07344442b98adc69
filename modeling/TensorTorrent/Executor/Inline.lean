import TensorTorrent.Executor.DepGraph
import TensorTorrent.Executor.Waves

/-
  This file models the three inline executors (crate
  `tt-runtime`, `executor/mod.rs`) and proves that each of
  them runs the whole dependency graph in order, or fails
  through one of the calls it makes.

  Main declarations:
    * `inline_executors_run_whole_schedule`
-/

namespace TensorTorrent

open Command (iterate read)

open InstructionTelemetry (name)

open Dependency List

variable {ω : Type} {schedule : ExecutableSchedule}

----
-- Loop State
----

/- Local variables of the inline loops. -/
structure LoopState (schedule : ExecutableSchedule) where
  remaining : Index schedule → Nat
  ready : List (Index schedule)
  events : List InstructionTelemetry
  bytesRead : Nat
  bytesTransferred : Nat
  simulatedOps : Nat

namespace LoopState

def start (schedule : ExecutableSchedule) : LoopState schedule :=
  { remaining := (DepGraph.build schedule).remaining
    ready := (DepGraph.build schedule).initialReady, events := [], bytesRead := 0
    bytesTransferred := 0, simulatedOps := 0 }

variable (state : LoopState schedule)

/-
  Records the event of an instruction and pushes the
  dependents it unlocks.
-/
def finish (idx : Index schedule) (tel : InstructionTelemetry)
    (bytesRead bytesTransferred : Nat) : LoopState schedule :=
  let next :=
    unlock (fun n queue => queue ++ [n]) state.remaining state.ready
      ((DepGraph.build schedule).dependents idx)
  { remaining := next.1, ready := next.2, events := state.events ++ [tel]
    bytesRead := state.bytesRead + bytesRead
    bytesTransferred := state.bytesTransferred + bytesTransferred
    simulatedOps := state.simulatedOps + if tel.simulated then 1 else 0 }

/- The report, once as many events as instructions exist. -/
def report (peakBytes : Nat) : ExecuteReport :=
  { events := state.events, peakActivationBytes := peakBytes, allocationPeakBytes := peakBytes
    bytesRead := state.bytesRead, bytesTransferred := state.bytesTransferred
    simulatedOps := state.simulatedOps }

end LoopState

/- Bytes an instruction counts as read. -/
def bytesReadOf (inst : Instruction) (n : Nat) : Nat :=
  if inst.opcode ∈ [.load, .prefetch] then n else 0

/- Bytes an instruction counts as transferred. -/
def bytesTransferredOf (inst : Instruction) (n : Nat) : Nat :=
  if inst.opcode = .transfer then n else 0

/-
  The check after each loop. `none` stands for a loop that
  did not end within its fuel.
-/
def checkFinished (unfinished : Nat → Nat → RuntimeError)
    (makeReport : LoopState schedule → ExecuteReport) (last : Option (LoopState schedule)) :
    Executor ω (Option ExecuteReport) :=
  match last with
  | none => pure none
  | some state =>
    if state.events.length ≠ schedule.instructions.length then
      throw
        { call := .unfinishedCheck
          error := unfinished state.events.length schedule.instructions.length }
    else pure (some (makeReport state))

----
-- Dry Run
----

def dryRunTurn (state : LoopState schedule) : Executor ω (Option (LoopState schedule)) :=
  match state.ready with
  | [] => pure none
  | idx :: ready =>
    let inst := instAt idx
    pure (some ({ state with ready := ready }.finish idx
      (telemetry inst inst.nbytes false "dry_run") 0 0))

def executeDryRunInline (schedule : ExecutableSchedule) : Executor ω (Option ExecuteReport) := do
  let last ← iterate dryRunTurn (schedule.instructions.length + 1) (.start schedule)
  checkFinished (fun _ _ => .validation "dry-run left unfinished instructions (cycle?)")
    (fun state => state.report 0)
    last

----
-- Instruction Callback
----

def instructionTurn (host : Host ω) (icb : InstructionCallback ω) (state : LoopState schedule) :
    Executor ω (Option (LoopState schedule)) :=
  match state.ready with
  | [] => pure none
  | idx :: ready => do
      checkCancel host
      let inst := instAt idx
      let outcome ← Callback.orFail (icb inst.name) .instructionCallback (instErr inst)
      pure (some ({ state with ready := ready }.finish idx
        (telemetry inst outcome.nbytes outcome.simulated outcome.notes)
        (bytesReadOf inst outcome.nbytes) (bytesTransferredOf inst outcome.nbytes)))

/- Peak bytes at the end of a run. -/
def readPeakBytes : Executor ω Nat :=
  read (fun world => world.ctx.peakBytes)

def unfinishedText (label : String) (done total : Nat) : RuntimeError :=
  .other (label ++ " schedule left unfinished: done=" ++
    toString done ++ " total=" ++ toString total)

def executeInstructionCbInline (host : Host ω) (icb : InstructionCallback ω)
    (schedule : ExecutableSchedule) : Executor ω (Option ExecuteReport) := do
  let last ← iterate (instructionTurn host icb) (schedule.instructions.length + 1)
    (.start schedule)
  let peak ← readPeakBytes
  checkFinished (unfinishedText "inline") (fun state => state.report peak) last

----
-- Region Callback
----

/- Does the instruction still need a Python body? -/
def needsPythonIo (inst : Instruction) (options : ExecuteOptions ω) : Bool :=
  match inst.opcode with
  | .load =>
    if inst.kind = "activation_reload" ∧ options.materialize.isSome then false
    else if inst.kind = "parameter_materialize" ∧ options.parameterLoad.isSome then false
    else
      inst.kind = "activation_reload" || inst.kind = "parameter_materialize"
  | .evict =>
    if inst.kind = "activation_spill" ∧ options.dematerialize.isSome then false
    else inst.kind = "activation_spill"
  | _ => false

/- Records a batch of events, one for each index. -/
def LoopState.finishBatch (state : LoopState schedule) (indices : List (Index schedule))
    (teles : List InstructionTelemetry) (bytesRead : InstructionTelemetry → Nat) :
    LoopState schedule :=
  (teles.zip indices).foldl (fun state entry =>
      state.finish entry.2 entry.1 (bytesRead entry.1) 0)
    state

/- Events of a release wave never count as read. -/
def releaseBytesRead (tel : InstructionTelemetry) : Nat :=
  if tel.opcode = "Load" ∨ tel.opcode = "Prefetch" then
    tel.nbytes
  else 0

section

variable (host : Host ω) (options : ExecuteOptions ω)
variable (batch : List (Index schedule)) (state : LoopState schedule)

def releaseStep : Executor ω (LoopState schedule) :=
  if batch.isEmpty then pure state
  else do
    let teles ← runReleaseWave host options (batch.map instAt)
    pure (state.finishBatch batch teles releaseBytesRead)

def loadStep : Executor ω (LoopState schedule) :=
  if batch.isEmpty then pure state
  else do
    let teles ← runParameterLoadWave host options (batch.map instAt)
    pure (state.finishBatch batch teles InstructionTelemetry.nbytes)

/- An instruction that runs natively, with its notes. -/
def runOtherNative (regionCb : RegionCallback ω) (inst : Instruction) :
    Executor ω InstructionCallbackResult := do
  let notes ← read (fun (world : World ω) => loadNotes inst world.ctx.residency)
  let simulated ← (runInstruction host options (some regionCb) false inst).orFail .runInstruction
  pure { nbytes := inst.nbytes, simulated := simulated, notes := notes }

section

variable (regionCb : RegionCallback ω) (instructionCb : Option (InstructionCallback ω))

def runOther (inst : Instruction) : Executor ω InstructionCallbackResult :=
  match needsPythonIo inst options, instructionCb with
  | true, some icb => Callback.orFail (icb inst.name) .instructionCallback (instErr inst)
  | _, _ => runOtherNative host options regionCb inst

def otherStep (state : LoopState schedule) (idx : Index schedule) :
    Executor ω (LoopState schedule) := do
  checkCancel host
  let inst := instAt idx
  let outcome ← runOther host options regionCb instructionCb inst
  pure (state.finish idx (telemetry inst outcome.nbytes outcome.simulated outcome.notes)
    (bytesReadOf inst outcome.nbytes) (bytesTransferredOf inst outcome.nbytes))

end

def nativeStep (state : LoopState schedule) (idx : Index schedule) :
    Executor ω (LoopState schedule) := do
  let inst := instAt idx
  let simulated ← (runInstruction host options none false inst).orFail .runInstruction
  pure (state.finish idx (telemetry inst inst.nbytes simulated "native_launch") 0 0)

end

/- Error of a region batch: it names the first region. -/
def batchError (batch : List Instruction) (cause : String) : RuntimeError :=
  .instruction ((batch.head?.map Instruction.name).getD "compute_batch") "Compute"
    (some ((batch.head?.map (fun inst => inst.executableRef.getD "")).getD ""))
    none none cause

/- Work after the region body of one batch member. -/
def regionStep (host : Host ω) (note : String) (state : LoopState schedule) (idx : Index schedule) :
    Executor ω (LoopState schedule) := do
  let inst := instAt idx
  Command.onlyIf (isMock inst.resource) ((simulateMockCompute host inst).orFail .mockCompute)
  (putMissingOutputs inst).orFail .residencyPut
  pure (state.finish idx (telemetry inst inst.nbytes (isMock inst.resource) note) 0 0)

def regionBatch (host : Host ω) (regionCb : RegionCallback ω) (batch : List (Index schedule))
    (state : LoopState schedule) : Executor ω (LoopState schedule) :=
  if batch.isEmpty then pure state
  else do
    let insts := batch.map instAt
    Callback.orFail (regionCb (insts.map invocation)) .regionCallback (batchError insts)
    let note :=
      if batch.length > 1 then
        "region_callback_batch:" ++ toString batch.length
      else "region_callback"
    batch.foldlM (regionStep host note) state

/- Ready indices of one kind, or none when not batched. -/
def takeBatch (batched : Bool) (test : Instruction → Bool) (ready : List (Index schedule)) :
    List (Index schedule) × List (Index schedule) :=
  if batched then
    ready.partition (fun idx => test (instAt idx))
  else ([], ready)

section

variable (host : Host ω) (options : ExecuteOptions ω) (regionCb : RegionCallback ω)
variable (instructionCb : Option (InstructionCallback ω))

/-
  One turn of the region loop: the whole ready queue is
  taken and run as releases, parameter loads, other
  instructions and then Computes in schedule order.
-/
def regionWave (state : LoopState schedule) : Executor ω (Option (LoopState schedule)) :=
  if state.ready.isEmpty then pure none
  else do
    checkCancel host
    let split := state.ready.partition (fun idx => (instAt idx).opcode = .compute)
    let computes := split.1.insertionSort (· ≤ ·)
    let releases := takeBatch options.handleRelease.isSome isBatchedHandleRelease split.2
    let loads := takeBatch options.parameterLoad.isSome isBatchedParameterLoad releases.2
    let launches := computes.partition (fun idx => isNativeLaunch (instAt idx))
    let state ← releaseStep host options releases.1 { state with ready := [] }
    let state ← loadStep host options loads.1 state
    let state ← loads.2.foldlM (otherStep host options regionCb instructionCb) state
    let state ← launches.1.foldlM (nativeStep host options) state
    let state ← regionBatch host regionCb launches.2 state
    pure (some state)

def executeRegionCbInline (schedule : ExecutableSchedule) : Executor ω (Option ExecuteReport) := do
  let last ← iterate (regionWave host options regionCb instructionCb)
    (schedule.instructions.length + 1)
    (.start schedule)
  let peak ← readPeakBytes
  checkFinished (unfinishedText "region-cb") (fun state => state.report peak) last

end

----
-- The Loop Invariant
----

namespace LoopState

/-
  The events recorded so far are those of `done`, and each
  unfinished instruction without open dependencies is once
  in the ready queue or in `held`, the part of the current
  turn that has not run yet. `target` is what will have run
  when `held` has.
-/
structure Running (target : List (Index schedule)) (held : List (Index schedule))
    (state : LoopState schedule) (done : List (Index schedule)) : Prop where
  names : state.events.map name = done.map (fun idx => (instAt idx).name)
  progress : Progress depIndices (indices schedule) done
    (fun idx => state.ready.count idx + held.count idx) state.remaining
  taken : (done ++ held).Perm target

variable {state : LoopState schedule} {done : List (Index schedule)}

/- The part of the turn that is left, in any order. -/
theorem Running.perm {target held held' : List (Index schedule)} (hPerm : held.Perm held')
    (hRunning : Running target held state done) : Running target held' state done := by
  refine ⟨hRunning.names, hRunning.progress.congr_pend ?_, ?_⟩
  · intro idx
    rw [hPerm.count_eq]
  · exact (hPerm.symm.append_left done).trans hRunning.taken

/- Running the next instruction of the turn. -/
theorem Running.finish {target held : List (Index schedule)} {idx : Index schedule}
    (hRunning : Running target (idx :: held) state done) {tel : InstructionTelemetry}
    (hName : tel.name = (instAt idx).name) (bytesRead bytesTransferred : Nat) :
    Running target held (state.finish idx tel bytesRead bytesTransferred) (done ++ [idx]) := by
  have hPend : 0 < state.ready.count idx + (idx :: held).count idx := by simp
  have hNext := hRunning.progress.finish (DepGraph.reverses schedule) hPend
  refine ⟨?_, ?_, ?_⟩
  · simp [LoopState.finish, hRunning.names, hName]
  · unfold LoopState.finish
    rw [unlock_eq]
    refine hNext.congr_pend ?_
    intro other
    rw [foldl_push_back, count_cons]
    by_cases hOther : other = idx
    · subst hOther
      simp
      omega
    · simp [hOther, Ne.symm hOther]
      omega
  · rw [append_assoc]
    exact hRunning.taken

/- One event for each finished instruction. -/
theorem Running.length_events {target : List (Index schedule)}
    (hRunning : Running target [] state done) : state.events.length = target.length := by
  have hNames := congrArg List.length hRunning.names
  have hTaken := hRunning.taken.length_eq
  rw [length_map, length_map] at hNames
  rw [append_nil] at hTaken
  rw [hNames, hTaken]

end LoopState

open LoopState

/- The invariant for some list of finished instructions. -/
def RunningState (target held : List (Index schedule)) (state : LoopState schedule) : Prop :=
  ∃ done, Running target held state done

variable {state : LoopState schedule}

theorem RunningState.perm {target held held' : List (Index schedule)} (hPerm : held.Perm held')
    (hRunning : RunningState target held state) : RunningState target held' state := by
  rcases hRunning with ⟨done, hDone⟩
  exact ⟨done, hDone.perm hPerm⟩

theorem RunningState.finish {target held : List (Index schedule)} {idx : Index schedule}
    (hRunning : RunningState target (idx :: held) state) {tel : InstructionTelemetry}
    (hName : tel.name = (instAt idx).name) (bytesRead bytesTransferred : Nat) :
    RunningState target held (state.finish idx tel bytesRead bytesTransferred) := by
  rcases hRunning with ⟨done, hDone⟩
  exact ⟨done ++ [idx], hDone.finish hName bytesRead bytesTransferred⟩

variable {target : List (Index schedule)}

theorem RunningState.finishBatch (bytesRead : InstructionTelemetry → Nat)
    (batch : List (Index schedule)) :
    ∀ {teles : List InstructionTelemetry} {held : List (Index schedule)}
      {state : LoopState schedule}, RunningState target (batch ++ held) state →
      teles.map name = (batch.map instAt).map Instruction.name →
      RunningState target held (state.finishBatch batch teles bytesRead) := by
  induction batch with
  | nil =>
    intro teles held state hRunning hNames
    have hTeles : teles = [] := by simpa using hNames
    subst hTeles
    exact hRunning
  | cons idx batch ih =>
    intro teles held state hRunning hNames
    cases teles with
    | nil => simp at hNames
    | cons tel teles =>
      simp only [map_cons, List.cons.injEq] at hNames
      exact ih (hRunning.finish hNames.1 _ _) hNames.2

/- At most as many have run as there are instructions. -/
theorem RunningState.length_le (hRunning : RunningState target [] state) :
    target.length ≤ schedule.instructions.length := by
  rcases hRunning with ⟨done, hDone⟩
  have hLength := hDone.progress.length_le
  have hTaken := hDone.taken.length_eq
  rw [length_indices] at hLength
  rw [append_nil] at hTaken
  rwa [← hTaken]

theorem RunningState.length_events (hRunning : RunningState target [] state) :
    state.events.length = target.length := by
  rcases hRunning with ⟨done, hDone⟩
  exact hDone.length_events

theorem RunningState.start (hAccepted : Accepted schedule) :
    RunningState [] [] (.start schedule) := by
  refine ⟨[], rfl, ?_, List.Perm.refl _⟩
  refine (DepGraph.initial_progress hAccepted).congr_pend ?_
  simp [LoopState.start]

/- A turn takes part of the ready queue. -/
theorem RunningState.take (held ready : List (Index schedule))
    (hRunning : RunningState target [] state) (hTaken : state.ready.Perm (held ++ ready)) :
    RunningState (target ++ held) held { state with ready := ready } := by
  rcases hRunning with ⟨done, hDone⟩
  refine ⟨done, hDone.names, hDone.progress.congr_pend ?_, ?_⟩
  · simp only [hTaken.count_eq, count_append, count_nil]
    omega
  · have hSame := hDone.taken
    rw [append_nil] at hSame
    exact hSame.append_right held

/- An empty queue means that everything has run. -/
theorem RunningState.complete (hAccepted : Accepted schedule)
    (hRunning : RunningState target [] state) (hReady : state.ready = []) :
    RanOnceInOrder schedule (state.events.map name) := by
  rcases hRunning with ⟨done, hDone⟩
  have hProgress : Progress depIndices (indices schedule) done (fun _ => 0) state.remaining := by
    refine hDone.progress.congr_pend ?_
    simp [hReady]
  rw [hDone.names]
  exact ranOnceInOrder_of_perm hAccepted (hProgress.complete_perm (nodup_indices schedule)
      (DepGraph.schedulable hAccepted))
    hProgress.ordered

----
-- Turns
----

/- The loop invariant between two turns. -/
def BetweenTurns (state : LoopState schedule) : Prop :=
  ∃ target, RunningState target [] state

/- Instructions that have not run yet. -/
def openCount (state : LoopState schedule) : Nat :=
  schedule.instructions.length - state.events.length

/- What a turn does to the loop invariant. -/
def TurnResult (state : LoopState schedule) : Option (LoopState schedule) → Prop :=
  Command.TurnPost (state.ready = []) (fun next =>
    BetweenTurns next ∧ openCount next < openCount state)

/- A turn that ran a part of the queue made progress. -/
theorem turnResult_some {next : LoopState schedule} {held : List (Index schedule)}
    (hState : RunningState target [] state) (hHeld : held ≠ [])
    (hRunning : RunningState (target ++ held) [] next) : TurnResult state (some next) := by
  have hLe := hRunning.length_le
  have hPos := length_pos_iff.mpr hHeld
  refine ⟨⟨_, hRunning⟩, ?_⟩
  unfold openCount
  rw [hRunning.length_events, hState.length_events]
  rw [length_append] at hLe ⊢
  omega

theorem dryRunTurn_result (state : LoopState schedule) (hState : BetweenTurns state) :
    Yields (fun _ _ => False) (dryRunTurn (ω := ω) state) (TurnResult state) := by
  unfold dryRunTurn
  cases hReady : state.ready with
  | nil => exact .pure hReady
  | cons idx ready =>
    rcases hState with ⟨target, hRunning⟩
    refine .pure (turnResult_some hRunning (cons_ne_nil idx []) ?_)
    have hTaken := hRunning.take [idx] ready (by simp [hReady])
    exact hTaken.finish rfl 0 0

/- What it means that a call of the instruction executor
   failed. -/
def InstructionFails (host : Host ω) (icb : InstructionCallback ω)
    (insts : List Instruction) : Call → World ω → Prop
| .cancelFlag, after => CancelRaised host after
| .instructionCallback, after => ∃ inst ∈ insts, Fails (icb inst.name) after
| _, _ => False

theorem instructionTurn_result (host : Host ω) (icb : InstructionCallback ω)
    (state : LoopState schedule) (hState : BetweenTurns state) :
    Yields (InstructionFails host icb schedule.instructions) (instructionTurn host icb state)
      (TurnResult state) := by
  unfold instructionTurn
  cases hReady : state.ready with
  | nil => exact .pure hReady
  | cons idx ready =>
    refine .andThen (checkCancel_yields host (fun _ hRaised => hRaised)) ?_
    intro _
    refine .andThen (Yields.callback_orFail (fun _ hFails => ⟨_, instAt_mem idx, hFails⟩)) ?_
    intro outcome
    rcases hState with ⟨target, hRunning⟩
    refine .pure (turnResult_some hRunning (cons_ne_nil idx []) ?_)
    have hTaken := hRunning.take [idx] ready (by simp [hReady])
    exact hTaken.finish rfl _ _

/- Folding a step that runs one index each. -/
theorem foldlM_running {fails : Call → World ω → Prop}
    {step : LoopState schedule → Index schedule → Executor ω (LoopState schedule)}
    (hStep : ∀ state idx held, RunningState target (idx :: held) state →
      Yields fails (step state idx) (RunningState target held))
    (batch held : List (Index schedule)) (hRunning : RunningState target (batch ++ held) state) :
    Yields fails (batch.foldlM step state) (RunningState target held) := by
  induction batch generalizing state with
  | nil => exact .pure hRunning
  | cons idx batch ih =>
    exact .bind _ (hStep state idx _ hRunning) (fun _ hNext => ih hNext)

theorem map_instAt_subset (batch : List (Index schedule)) :
    batch.map instAt ⊆ schedule.instructions := by
  intro inst hInst
  rcases mem_map.mp hInst with ⟨idx, _, rfl⟩
  exact instAt_mem idx

section

variable (host : Host ω) (options : ExecuteOptions ω) (regionCb : RegionCallback ω)
variable (instructionCb : Option (InstructionCallback ω))

section

variable {batch held : List (Index schedule)}
variable (hRunning : RunningState target (batch ++ held) state)

include hRunning

private theorem releaseStep_running :
    Yields (RegionFails host options regionCb instructionCb schedule.instructions)
      (releaseStep host options batch state) (RunningState target held) := by
  unfold releaseStep
  split
  · next hEmpty =>
    rw [List.isEmpty_iff] at hEmpty
    subst hEmpty
    exact .pure hRunning
  · refine .bind _ (runReleaseWave_names host options regionCb instructionCb
      (map_instAt_subset batch)) ?_
    intro teles hNames
    exact .pure (hRunning.finishBatch releaseBytesRead batch hNames)

private theorem loadStep_running :
    Yields (RegionFails host options regionCb instructionCb schedule.instructions)
      (loadStep host options batch state) (RunningState target held) := by
  unfold loadStep
  split
  · next hEmpty =>
    rw [List.isEmpty_iff] at hEmpty
    subst hEmpty
    exact .pure hRunning
  · refine .bind _ (runParameterLoadWave_names host options regionCb instructionCb
      (map_instAt_subset batch)) ?_
    intro teles hNames
    exact .pure (hRunning.finishBatch InstructionTelemetry.nbytes batch hNames)

private theorem regionBatch_running :
    Yields (RegionFails host options regionCb instructionCb schedule.instructions)
      (regionBatch host regionCb batch state) (RunningState target held) := by
  unfold regionBatch
  split
  · next hEmpty =>
    rw [List.isEmpty_iff] at hEmpty
    subst hEmpty
    exact .pure hRunning
  · refine .andThen (Yields.callback_orFail (fun _ hFails => ⟨_, hFails⟩)) ?_
    intro _
    refine foldlM_running ?_ batch held hRunning
    intro state idx held hRunning
    refine .andThen (Yields.onlyIf
      (Yields.exec_orFail (fun _ hFails => ⟨_, instAt_mem idx, hFails⟩))) ?_
    intro _
    refine .andThen (Yields.exec_orFail (fun _ hFails => ⟨_, instAt_mem idx, hFails⟩)) ?_
    intro _
    exact .pure (hRunning.finish rfl _ _)

end

private theorem runOther_yields {inst : Instruction} {insts : List Instruction}
    (hInst : inst ∈ insts) : Yields (RegionFails host options regionCb instructionCb insts)
      (runOther host options regionCb instructionCb inst) (fun _ => True) := by
  have hNative : Yields (RegionFails host options regionCb instructionCb insts)
      (runOtherNative host options regionCb inst) (fun _ => True) := by
    refine .andThen Yields.read ?_
    intro notes
    refine .andThen (Yields.exec_orFail (fun _ hFails =>
      ⟨inst, hInst, options, mem_cons_self, some regionCb, hFails⟩)) ?_
    intro simulated
    exact .pure trivial
  unfold runOther
  split
  · next icb _ =>
    exact .callback_orFail (fun _ hFails => ⟨icb, rfl, inst, hInst, hFails⟩)
  · exact hNative

private theorem otherStep_running (state : LoopState schedule) (idx : Index schedule)
    (held : List (Index schedule)) (hRunning : RunningState target (idx :: held) state) :
    Yields (RegionFails host options regionCb instructionCb schedule.instructions)
      (otherStep host options regionCb instructionCb state idx) (RunningState target held) := by
  refine .andThen (checkCancel_yields host (fun _ hRaised => hRaised)) ?_
  intro _
  refine .andThen (runOther_yields host options regionCb instructionCb (instAt_mem idx)) ?_
  intro outcome
  exact .pure (hRunning.finish rfl _ _)

private theorem nativeStep_running (state : LoopState schedule) (idx : Index schedule)
    (held : List (Index schedule)) (hRunning : RunningState target (idx :: held) state) :
    Yields (RegionFails host options regionCb instructionCb schedule.instructions)
      (nativeStep host options state idx) (RunningState target held) := by
  refine .andThen (Yields.exec_orFail (fun _ hFails =>
    ⟨_, instAt_mem idx, options, mem_cons_self, none, hFails⟩)) ?_
  intro simulated
  exact .pure (hRunning.finish rfl _ _)

end

theorem takeBatch_perm (batched : Bool) (test : Instruction → Bool)
    (ready : List (Index schedule)) :
    ((takeBatch batched test ready).1 ++ (takeBatch batched test ready).2).Perm ready := by
  unfold takeBatch
  cases batched with
  | false => simp
  | true =>
    simp only [partition_eq_filter_filter]
    exact filter_append_perm _ ready

open List in
/- The parts of a region turn are the queue it took. -/
private theorem regionParts_perm (options : ExecuteOptions ω) (ready : List (Index schedule)) :
    let split := ready.partition (fun idx => (instAt idx).opcode = .compute)
    let computes := split.1.insertionSort (· ≤ ·)
    let releases := takeBatch options.handleRelease.isSome isBatchedHandleRelease split.2
    let loads := takeBatch options.parameterLoad.isSome isBatchedParameterLoad releases.2
    let launches := computes.partition (fun idx => isNativeLaunch (instAt idx))
    ready.Perm (releases.1 ++ (loads.1 ++ (loads.2 ++ (launches.1 ++ (launches.2 ++ []))))) := by
  intro split computes releases loads launches
  have hSplit : (split.1 ++ split.2).Perm ready := by
    simp only [split, partition_eq_filter_filter]
    exact filter_append_perm _ ready
  have hComputes : computes.Perm split.1 := perm_insertionSort _ _
  have hLaunches : (launches.1 ++ launches.2).Perm computes := by
    simp only [launches, partition_eq_filter_filter]
    exact filter_append_perm _ computes
  have hReleases : (releases.1 ++ releases.2).Perm split.2 := takeBatch_perm _ _ _
  have hLoads : (loads.1 ++ loads.2).Perm releases.2 := takeBatch_perm _ _ _
  calc ready ~ split.1 ++ split.2 := hSplit.symm
    _ ~ split.2 ++ split.1 := perm_append_comm
    _ ~ (releases.1 ++ releases.2) ++ split.1 := hReleases.symm.append_right _
    _ ~ (releases.1 ++ (loads.1 ++ loads.2)) ++ split.1 :=
      (hLoads.symm.append_left _).append_right _
    _ ~ (releases.1 ++ (loads.1 ++ loads.2)) ++ (launches.1 ++ launches.2) :=
      (hComputes.symm.trans hLaunches.symm).append_left _
    _ = _ := by simp

section

variable (host : Host ω) (options : ExecuteOptions ω) (regionCb : RegionCallback ω)
variable (instructionCb : Option (InstructionCallback ω)) (state : LoopState schedule)

/-
  One region turn runs the whole queue it took: the parts
  it is cut into are a permutation of it.
-/
theorem regionWave_running (hState : RunningState target [] state) :
    Yields (RegionFails host options regionCb instructionCb schedule.instructions)
      (regionWave host options regionCb instructionCb state)
      (Command.TurnPost (state.ready = []) (RunningState (target ++ state.ready) [])) := by
  unfold regionWave
  split
  · next hEmpty =>
    rw [List.isEmpty_iff] at hEmpty
    exact .pure hEmpty
  · next hReady =>
    refine .andThen (checkCancel_yields host (fun _ hRaised => hRaised)) ?_
    intro _
    have hTaken := hState.take state.ready [] (by simp)
    refine .bind _ (releaseStep_running host options regionCb instructionCb
      (hTaken.perm (regionParts_perm options state.ready))) ?_
    intro state₁ hLoads
    refine .bind _ (loadStep_running host options regionCb instructionCb hLoads) ?_
    intro state₂ hOthers
    refine .bind _ (foldlM_running
      (otherStep_running host options regionCb instructionCb) _ _ hOthers) ?_
    intro state₃ hNatives
    refine .bind _ (foldlM_running
      (nativeStep_running host options regionCb instructionCb) _ _ hNatives) ?_
    intro state₄ hRegions
    refine .bind _ (regionBatch_running host options regionCb instructionCb hRegions) ?_
    intro state₅ hDone
    exact .pure hDone

theorem regionWave_result (hState : BetweenTurns state) :
    Yields (RegionFails host options regionCb instructionCb schedule.instructions)
      (regionWave host options regionCb instructionCb state) (TurnResult state) := by
  rcases hState with ⟨target, hRunning⟩
  by_cases hReady : state.ready = []
  · have hEnd : regionWave host options regionCb instructionCb state = pure none := by
      simp [regionWave, hReady]
    rw [hEnd]
    exact .pure hReady
  · refine Command.Triple.conseq (regionWave_running host options regionCb
        instructionCb state hRunning)
      (fun _ h => h) ?_ (fun _ _ h => h)
    intro result _ hResult
    cases result with
    | none => exact absurd hResult hReady
    | some next => exact turnResult_some hRunning hReady hResult

end

----
-- Whole Runs
----

/-
  Outcome of an executor: a report whose events are a
  complete run in dependency order, or the failure of a call
  that has failed and left the state in which it ended.
-/
def RunsWhole (schedule : ExecutableSchedule) (fails : Call → World ω → Prop)
    (result : Except Failure (Option ExecuteReport) × World ω) : Prop :=
  match result.1 with
  | .ok none => False
  | .ok (some report) => RanOnceInOrder schedule (report.events.map name)
  | .error failure => fails failure.call result.2

variable {fails : Call → World ω → Prop}

/- A loop of turns ends, and then everything has run. -/
theorem iterate_turns (hAccepted : Accepted schedule)
    {turn : LoopState schedule → Executor ω (Option (LoopState schedule))}
    (hTurn : ∀ state, BetweenTurns state → Yields fails (turn state) (TurnResult state)) :
    Yields fails (iterate turn (schedule.instructions.length + 1) (.start schedule))
      (fun last =>
        ∃ state, last = some state ∧ RanOnceInOrder schedule
          (state.events.map name)) := by
  have hStart : BetweenTurns (.start schedule) := ⟨[], RunningState.start hAccepted⟩
  have hLoop : Yields fails (iterate turn (schedule.instructions.length + 1) (.start schedule))
      (fun last => ∃ state, last = some state ∧ BetweenTurns state ∧ state.ready = []) :=
    Yields.iterate BetweenTurns (fun state => state.ready = []) openCount hTurn hStart
      (Nat.lt_succ_of_le (Nat.sub_le _ _))
  refine Command.Triple.conseq hLoop (fun _ h => h) ?_ (fun _ _ h => h)
  rintro last _ ⟨state, hLast, hState, hReady⟩
  rcases hState with ⟨target, hRunning⟩
  exact ⟨state, hLast, hRunning.complete hAccepted hReady⟩

/- The final check passes after a complete run. -/
theorem checkFinished_complete
    (hRan : RanOnceInOrder schedule (state.events.map name))
    (unfinished : Nat → Nat → RuntimeError) (peak : Nat) :
    Yields fails (checkFinished (ω := ω) unfinished (fun state => state.report peak) (some state))
      (fun result =>
        ∃ report, result = some report ∧ RanOnceInOrder schedule (report.events.map name)) := by
  have hLength : state.events.length = schedule.instructions.length := by
    simpa using hRan.1.length_eq
  simp only [checkFinished, hLength, ne_eq, not_true_eq_false]
  exact .pure ⟨_, rfl, hRan⟩

/- A command with such results has such an outcome. -/
theorem runsWhole_of_yields {command : Executor ω (Option ExecuteReport)}
    (hYields : Yields fails command (fun result =>
      ∃ report, result = some report ∧ RanOnceInOrder schedule (report.events.map name)))
    (world : World ω) : RunsWhole schedule fails (command.exec world) := by
  have hRun := hYields world trivial
  cases hExec : command.exec world with
  | mk outcome world' =>
    rw [hExec] at hRun
    cases outcome with
    | error failure => exact hRun
    | ok result =>
      rcases hRun with ⟨report, hReport, hRan⟩
      subst hReport
      exact hRan

/-
  Each inline executor runs the whole schedule in dependency
  order unless a call it makes fails, which then is the last
  thing it does; the dry run makes no call that could.
-/
theorem inline_executors_run_whole_schedule (schedule : ExecutableSchedule)
    (hAccepted : Accepted schedule) (host : Host ω) (options : ExecuteOptions ω)
    (regionCb : RegionCallback ω) (icb : InstructionCallback ω)
    (instructionCb : Option (InstructionCallback ω)) (world : World ω) :
    RunsWhole schedule (fun _ _ => False) ((executeDryRunInline schedule).exec world) ∧
      RunsWhole schedule (InstructionFails host icb schedule.instructions)
        ((executeInstructionCbInline host icb schedule).exec world) ∧
      RunsWhole schedule (RegionFails host options regionCb instructionCb schedule.instructions)
        ((executeRegionCbInline host options regionCb instructionCb schedule).exec world) := by
  refine ⟨runsWhole_of_yields ?_ world, runsWhole_of_yields ?_ world, runsWhole_of_yields ?_ world⟩
  · refine .bind _ (iterate_turns hAccepted dryRunTurn_result) ?_
    rintro last ⟨state, rfl, hRan⟩
    exact checkFinished_complete hRan _ _
  · refine .bind _ (iterate_turns hAccepted (instructionTurn_result host icb)) ?_
    rintro last ⟨state, rfl, hRan⟩
    refine .andThen Yields.read ?_
    intro peak
    exact checkFinished_complete hRan _ _
  · refine .bind _ (iterate_turns hAccepted
      (regionWave_result host options regionCb instructionCb)) ?_
    rintro last ⟨state, rfl, hRan⟩
    refine .andThen Yields.read ?_
    intro peak
    exact checkFinished_complete hRan _ _

----
-- Concrete Runs
----

/- A host without cancellation, accelerators or spills. -/
def quietHost : Host Unit :=
  { cancelRaised := fun _ => false
    virtualCompute := fun _ _ _ world => (.ok (), world)
    virtualTransfer := fun _ _ _ _ world => (.ok (), world)
    writeSpill := fun _ _ world => (.error "no spills", world)
    readSpill := fun _ world => (.error "no spills", world)
    removeSpill := fun _ world => world
    prefetch := fun _ world => world }

/- A forward over an empty residency store. -/
def freshWorld : World Unit :=
  { ctx := .fromResidency 1 .empty
    env := (), clock := 0, collected := [] }

/- A region callback that has nothing to do. -/
def idleRegion : RegionCallback Unit :=
  fun _ world => (.ok (), world)

/- An instruction callback that has nothing to do. -/
def idleInstruction : InstructionCallback Unit :=
  fun _ world => (.ok { nbytes := 0, simulated := false, notes := "" }, world)

/- One streaming parameter Load. -/
def singleLoad : ExecutableSchedule :=
  { instructions :=
    [{ opcode := .load, name := "load::w", resource := "cpu", outputs := ["w"]
       streamId := some "cpu::copy0", copyEngineId := some "cpu::copy0"
       attributes := [("kind", .string "parameter_materialize")] }] }

/- A `parameter_load` that succeeds but returns no sizes. -/
def emptyLoad : ExecuteOptions Unit :=
  { ExecuteOptions.default with parameterLoad := some (fun _ world => (.ok [], world)) }

/- The executors with quiet callbacks, on one Load. -/
theorem inline_executors_run_single_load : Accepted singleLoad ∧
    RunsWhole singleLoad (fun _ _ => False)
      ((executeDryRunInline singleLoad).exec freshWorld) ∧
    RunsWhole singleLoad (InstructionFails quietHost idleInstruction singleLoad.instructions)
      ((executeInstructionCbInline quietHost idleInstruction singleLoad).exec freshWorld) ∧
    RunsWhole singleLoad
      (RegionFails quietHost emptyLoad idleRegion none singleLoad.instructions)
      ((executeRegionCbInline quietHost emptyLoad idleRegion none singleLoad).exec freshWorld) :=
  have hAccepted : Accepted singleLoad := ⟨.listed singleLoad, by decide⟩
  ⟨hAccepted, inline_executors_run_whole_schedule singleLoad hAccepted
    quietHost emptyLoad idleRegion idleInstruction none freshWorld⟩

/-
  Every callback succeeds, nothing is cancelled and
  `run_instruction` is never called, but the region
  executor returns the error of its own check of what
  `parameter_load` returned.
-/
theorem region_executor_rejects_parameter_load_result :
    Accepted singleLoad ∧ (∀ world, quietHost.cancelRaised world = false) ∧
      (∀ batch world, (idleRegion batch world).1 = .ok ()) ∧
      (∀ pload, emptyLoad.parameterLoad = some pload →
        ∀ need world, (pload need world).1 = .ok []) ∧
      ((executeRegionCbInline quietHost emptyLoad idleRegion none singleLoad).exec freshWorld).1 =
        .error
          { call := .parameterLoadCheck
            error := .other ("parameter_load returned 0 sizes for " ++ "1 tensors") } := by
  refine ⟨⟨.listed singleLoad, by decide⟩, fun _ => rfl, fun _ _ => rfl, ?_, rfl⟩
  intro pload hPload need world
  cases hPload
  rfl

end TensorTorrent
