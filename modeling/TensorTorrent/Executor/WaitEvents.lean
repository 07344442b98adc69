import TensorTorrent.Ir.Verdict
import TensorTorrent.Executor.Instruction
import TensorTorrent.Simulator.Frames

/-
  This file says when a WaitEvent of an accepted schedule
  finds its event, in the executor (crate `tt-runtime`,
  `executor/instruction.rs`) and in the simulator
  (`simulator/sim.rs`), whatever linear extension of the
  dependencies runs.

  Main declarations:
    * `waits_find_events_iff`
-/

namespace TensorTorrent

open Command (Keeps Triple)
open List

----
-- The Event Table of the Executor
----

section Executor

variable {ω α β : Type}

/- A call that leaves the event table alone. -/
def CallbackQuiet (callback : Callback ω α) : Prop :=
  ∀ world, (callback world).2.ctx.completedEvents = world.ctx.completedEvents

/-
  The event table is private to the executor, so no call
  out of it can change the table.
-/
structure QuietEvents (host : Host ω) (options : ExecuteOptions ω)
    (regionCb : Option (RegionCallback ω)) : Prop where
  virtualCompute : ∀ resource stream delay,
    CallbackQuiet (host.virtualCompute resource stream delay)
  virtualTransfer : ∀ resource stream bytes delay, CallbackQuiet
    (host.virtualTransfer resource stream bytes delay)
  writeSpill : ∀ spill bytes, CallbackQuiet (host.writeSpill spill bytes)
  readSpill : ∀ path, CallbackQuiet (host.readSpill path)
  removeSpill : ∀ path world,
    (host.removeSpill path world).ctx.completedEvents = world.ctx.completedEvents
  prefetch : ∀ keys world,
    (host.prefetch keys world).ctx.completedEvents = world.ctx.completedEvents
  dematerialize : ∀ demat, options.dematerialize = some demat → ∀ tid, CallbackQuiet (demat tid)
  materialize : ∀ mat, options.materialize = some mat →
    ∀ tid spill bytes, CallbackQuiet (mat tid spill bytes)
  parameterLoad : ∀ pload, options.parameterLoad = some pload → ∀ need, CallbackQuiet (pload need)
  handleRelease : ∀ href, options.handleRelease = some href → ∀ pairs, CallbackQuiet (href pairs)
  copySync : ∀ csync, options.copySync = some csync → ∀ batch, CallbackQuiet (csync batch)
  region : ∀ cb, regionCb = some cb → ∀ calls, CallbackQuiet (cb calls)

/- These events are recorded. -/
abbrev Holds (events : List String) (world : World ω) : Prop :=
  world.ctx.completedEvents = events

/- The command leaves the event table alone. -/
def KeepsEvents (command : Exec ω α) : Prop :=
  ∀ events, Keeps (Holds events) command

theorem untouched_holds (events : List String) : Untouched (Holds (ω := ω) events) :=
  ⟨fun _ _ hSame hHolds => hSame.trans hHolds, fun _ _ hHolds => hHolds⟩

variable {events : List String}

theorem CallbackQuiet.keeps {callback : Callback ω α} (hQuiet : CallbackQuiet callback)
    (world : World ω) (hHolds : Holds events world) : Holds events (callback world).2 :=
  (hQuiet world).trans hHolds

section Calls

variable {host : Host ω} {options : ExecuteOptions ω} {regionCb : Option (RegionCallback ω)}
variable (hQuiet : QuietEvents host options regionCb) (dryRun : Bool) (inst : Instruction)

include hQuiet

theorem simulateMockTransfer_keeps (dst : ResourceId) (bytes : Nat) :
    Keeps (Holds events) (simulateMockTransfer host inst dst bytes) := by
  unfold simulateMockTransfer
  dsimp only
  split
  · exact .pure
  · exact .attempt (hQuiet.virtualTransfer _ _ _ _).keeps

theorem runCompute_keeps : Keeps (Holds events) (runCompute host regionCb dryRun inst) := by
  have hFrame := untouched_holds (ω := ω) events
  have hMock : Keeps (Holds events) (simulateMockCompute host inst) :=
    simulateMockCompute_keeps fun _ _ _ => (hQuiet.virtualCompute _ _ _).keeps
  unfold runCompute
  split
  · exact .bind (.attempt (hQuiet.virtualCompute _ _ _).keeps) fun _ =>
      .bind hFrame.putOutputs fun _ => .pure
  split
  · next cb =>
    exact .bind (.attempt (hQuiet.region cb rfl _).keeps) fun _ =>
      .bind (.onlyIf hMock) fun _ => .bind hFrame.putMissingOutputs fun _ => .pure
  · exact .bind hFrame.putOutputs fun _ => .bind (.onlyIf hMock) fun _ => .pure

theorem nativeActivationSpill_keeps :
    Keeps (Holds events) (nativeActivationSpill host options inst) := by
  have hFrame := untouched_holds (ω := ω) events
  unfold nativeActivationSpill
  split
  · exact .throw
  rename_i demat hDemat
  refine .forM _ fun tid => ?_
  refine .bind (.attempt (hQuiet.dematerialize demat hDemat _).keeps) fun spilled => ?_
  refine .bind ?_ fun _ => ?_
  · refine .bind .read fun storage => ?_
    split
    · exact .pure
    · split
      · exact .throw
      · exact .pure
  refine .bind (.attempt (hQuiet.writeSpill _ _).keeps) fun _ => ?_
  refine .bind (.update fun _ h => h) fun _ => ?_
  refine .bind hFrame.modifyResidency fun _ => ?_
  exact .bind (.attempt fun _ h => h) fun _ => hFrame.putFresh

theorem nativeActivationReload_keeps :
    Keeps (Holds events) (nativeActivationReload host options inst) := by
  unfold nativeActivationReload
  split
  · exact .throw
  rename_i mat hMat
  refine .forM _ fun tid => ?_
  refine .bind .read fun found => ?_
  split
  · exact .throw
  refine .bind (.attempt (hQuiet.readSpill _).keeps) fun _ => ?_
  refine .bind (.attempt (hQuiet.materialize mat hMat _ _ _).keeps) fun _ => ?_
  refine .bind (.update fun _ h => h) fun _ => ?_
  refine .bind (.update fun world h => (hQuiet.removeSpill _ world).trans h) fun _ => ?_
  exact .bind .read fun _ => .onlyIf (untouched_holds events).putFresh

theorem runLoad_keeps : Keeps (Holds events) (runLoad host options dryRun inst) := by
  have hFrame := untouched_holds (ω := ω) events
  unfold runLoad
  split
  · exact nativeActivationReload_keeps hQuiet inst
  split
  · refine .update fun world h => ?_
    split
    · exact (hQuiet.prefetch _ _).trans h
    · exact h
  · split
    · next pload hPload =>
      split
      · exact .bind .read fun _ => .onlyIf (.bind
          (.attempt (hQuiet.parameterLoad pload hPload _).keeps) fun _ => .attempt fun _ h => h)
      · exact hFrame.runResidentLoad
    · exact hFrame.runResidentLoad

theorem runTransfer_keeps : Keeps (Holds events) (runTransfer host options inst) := by
  have hMock : ∀ dst bytes, Keeps (Holds events) (simulateMockTransfer host inst dst bytes) :=
    simulateMockTransfer_keeps hQuiet inst
  unfold runTransfer syncCopies
  dsimp only
  split
  · exact .throw
  refine .bind (untouched_holds events).transferTensors fun synced => .bind ?_ fun _ =>
    .bind (.onlyIf (hMock _ _)) fun _ => .pure
  split
  · next csync hSync => exact .onlyIf (.attempt (hQuiet.copySync csync hSync _).keeps)
  · exact .pure

theorem runRelease_keeps : Keeps (Holds events) (runRelease host options inst) := by
  unfold runRelease
  split
  · exact nativeActivationSpill_keeps hQuiet inst
  · exact .bind (untouched_holds events).releaseTensors (releaseHandles_keeps
      fun href hHref pairs => (hQuiet.handleRelease href hHref pairs).keeps)

/- Only a RecordEvent changes the table. -/
theorem runInstructionBody_keepsEvents (hOther : inst.opcode ≠ .recordEvent) :
    KeepsEvents (runInstructionBody host options regionCb dryRun inst) := by
  intro events
  unfold runInstructionBody
  split
  · exact runCompute_keeps hQuiet dryRun inst
  · exact .bind (runLoad_keeps hQuiet dryRun inst) fun _ => .pure
  · exact .bind (runLoad_keeps hQuiet dryRun inst) fun _ => .pure
  · exact runTransfer_keeps hQuiet inst
  · next hOpcode => exact absurd hOpcode hOther
  · unfold runWaitEvent
    refine .bind ?_ fun _ => .pure
    split
    · exact .throw
    · exact .bind .read fun _ => .onlyIf .throw
  · exact .bind (runRelease_keeps hQuiet inst) fun _ => .pure
  · exact .bind (runRelease_keeps hQuiet inst) fun _ => .pure

end Calls

variable (insts : List Instruction)

/- Events that a list of instructions records. -/
def recordedBy : List String :=
  (insts.filter (fun inst => inst.opcode = .recordEvent)).map Instruction.name

theorem mem_recordedBy (name : String) :
    name ∈ recordedBy insts ↔ ∃ inst ∈ insts, inst.opcode = .recordEvent ∧ inst.name = name := by
  simp only [recordedBy, mem_map, mem_filter, decide_eq_true_eq, and_assoc]

theorem recordedBy_cons (inst : Instruction) (rest : List Instruction) :
    recordedBy (inst :: rest) = recordedBy [inst] ++ recordedBy rest := by
  rw [recordedBy, recordedBy, recordedBy, ← map_append, ← filter_append, singleton_append]

/- Several instructions, one after the other. -/
def runInstructions (host : Host ω) (options : ExecuteOptions ω)
    (regionCb : Option (RegionCallback ω)) (dryRun : Bool)
    (insts : List Instruction) : Exec ω Unit :=
  insts.forM (fun inst => do
    let _ ← runInstruction host options regionCb dryRun inst
    pure ())

section Runs

variable {host : Host ω} {options : ExecuteOptions ω} {regionCb : Option (RegionCallback ω)}

section

variable (hQuiet : QuietEvents host options regionCb) (dryRun : Bool)

include hQuiet dryRun

private theorem body_events (inst : Instruction) (events : List String) :
    Triple (Holds events) (runInstructionBody host options regionCb dryRun inst)
      (fun _ => Holds ((recordedBy [inst]).reverse ++ events)) (fun _ _ => True) := by
  by_cases hRecord : inst.opcode = .recordEvent
  · unfold runInstructionBody
    simp only [hRecord]
    refine .bind _ (Triple.update fun world hEvents => ?_)
      (fun _ => Triple.pure fun _ hDone => hDone)
    simp [recordedBy, hRecord, hEvents]
  · refine .conseq (runInstructionBody_keepsEvents hQuiet dryRun inst hRecord events)
      (fun _ hPre => hPre) (fun _ world hKept => ?_)
      (fun _ _ _ => trivial)
    simpa [recordedBy, hRecord] using hKept

/- The step: one instruction and its event, if any. -/
private theorem runInstruction_events (inst : Instruction) (events : List String) :
    Triple (Holds events) (runInstruction host options regionCb dryRun inst)
      (fun _ => Holds ((recordedBy [inst]).reverse ++ events)) (fun _ _ => True) := by
  have hBody := body_events hQuiet dryRun inst events
  refine .bind _ ((untouched_holds events).acquireResources.conseq (fun _ hPre => hPre)
      (fun _ _ hKept => hKept) (fun _ _ _ => trivial))
    fun _ => ?_
  -- a failed body still gives its resources back
  refine .bind (fun result world => ∀ value, result = Except.ok value →
    Holds ((recordedBy [inst]).reverse ++ events) world) ?_ ?_
  · intro world hEvents value hValue
    have hRun := hBody world hEvents
    split at hRun
    · next hExec =>
      rw [hExec]
      exact hRun
    · next hExec =>
      rw [hExec] at hValue
      exact absurd hValue (by simp)
  · intro result
    refine .bind (fun _ world => ∀ value, result = Except.ok value →
        Holds ((recordedBy [inst]).reverse ++ events) world)
      (Triple.update fun _ hKept => hKept) fun _ => ?_
    cases result with
    | ok value => exact .pure fun _ hKept => hKept value rfl
    | error err => exact .throw fun _ _ => trivial

/- The run: the table holds what has been recorded. -/
theorem runInstructions_events (insts : List Instruction) :
    ∀ events : List String, Triple (Holds events)
      (runInstructions host options regionCb dryRun insts)
      (fun _ => Holds ((recordedBy insts).reverse ++ events)) (fun _ _ => True) := by
  induction insts with
  | nil =>
    intro events
    exact .pure fun _ hEvents => by
      simpa [recordedBy] using hEvents
  | cons inst rest ih =>
    intro events
    refine .bind (fun _ => Holds ((recordedBy [inst]).reverse ++ events)) ?_ fun _ => ?_
    · exact .bind _ (runInstruction_events hQuiet dryRun inst events)
        fun _ => Triple.pure fun _ hDone => hDone
    · refine (ih _).conseq (fun _ hPre => hPre) (fun _ world hDone => ?_) (fun _ _ _ => trivial)
      rw [Holds, hDone, ← append_assoc, ← reverse_append, ← recordedBy_cons]

end

/- A WaitEvent fails unless the table has its target. -/
theorem wait_ok_iff (dryRun : Bool) {wait : Instruction} (hWait : wait.opcode = .waitEvent)
    (world : World ω) :
    (((runInstructionBody host options regionCb dryRun wait).exec world).1 = .ok false) ↔
      ∃ wf, waitTarget wait = some wf ∧ wf ∈ world.ctx.completedEvents := by
  unfold runInstructionBody runWaitEvent
  simp only [hWait]
  cases waitTarget wait with
  | none => simp
  | some wf =>
    by_cases hFound : wf ∈ world.ctx.completedEvents
    · simp [Command.exec_bind, Command.onlyIf, hFound]
    · simp [Command.exec_bind, Command.onlyIf, hFound]

end Runs

end Executor

----
-- The Event Table of the Simulator
----

namespace Simulator

variable (machine : MachineModel) {inst : Instruction}

private theorem arm_events {depEnd : ℚ} {pred : Option InstructionId} {sim : Sim} {turn : Turn}
    (hRun : arm machine inst depEnd pred sim = .ok turn) (name : InstructionId) :
    (turn.sim.eventReadyAt name).isSome ↔ (sim.eventReadyAt name).isSome ∨
      name ∈ recordedBy [inst] := by
  by_cases hRecord : inst.opcode = .recordEvent
  · simp only [arm, hRecord, recordArm, Except.ok.injEq] at hRun
    rw [← hRun]
    by_cases hName : name = inst.name
    · simp [hName, mem_recordedBy, hRecord]
    · simp [Function.update_of_ne hName, mem_recordedBy, Ne.symm hName]
  · have hSame : turn.sim.eventReadyAt = sim.eventReadyAt := by
      have hReleases : releaseArm inst depEnd pred sim = .ok turn →
          turn.sim.eventReadyAt = sim.eventReadyAt := by
        intro hArm
        simp only [releaseArm] at hArm
        split at hArm <;> cases hArm
        rfl
      cases hOpcode : inst.opcode <;> simp only [arm, hOpcode] at hRun
      case compute =>
        cases hRun
        rfl
      case transfer =>
        simp only [transferArm] at hRun
        split at hRun <;> cases hRun
        cases linkOf inst <;> rfl
      case prefetch | load =>
        cases hRun
        simp only [ioArm, noteReload]
        split <;> rfl
      case recordEvent => exact absurd hOpcode hRecord
      case waitEvent =>
        simp only [waitArm] at hRun
        repeat' split at hRun
        all_goals cases hRun
        rfl
      case evict =>
        split at hRun
        · cases hRun
          rfl
        · exact hReleases hRun
      case release => exact hReleases hRun
    rw [hSame]
    simp [recordedBy, hRecord]

private theorem process_events {sim next : Sim} (hRun : process machine inst sim = .ok next)
    (name : InstructionId) : (next.eventReadyAt name).isSome ↔ (sim.eventReadyAt name).isSome ∨
      name ∈ recordedBy [inst] := by
  simp only [process] at hRun
  split at hRun <;> cases hRun
  next turn hArm => exact arm_events machine hArm name

/- Several instructions, one after the other. -/
def processAll : List Instruction → Sim → Except String Sim
| [], sim => .ok sim
| inst :: rest, sim =>
  match process machine inst sim with
  | .error message => .error message
  | .ok next => processAll rest next

theorem processAll_events (insts : List Instruction) :
    ∀ {sim last : Sim}, processAll machine insts sim = .ok last →
      ∀ name, (last.eventReadyAt name).isSome ↔ (sim.eventReadyAt name).isSome ∨
        name ∈ recordedBy insts := by
  induction insts with
  | nil =>
    intro sim last hRun name
    rw [processAll, Except.ok.injEq] at hRun
    simp [hRun, recordedBy]
  | cons inst rest ih =>
    intro sim last hRun name
    rw [processAll] at hRun
    split at hRun
    · simp at hRun
    · next next hStep =>
      rw [ih hRun name, process_events machine hStep name,
        or_assoc, ← mem_append, ← recordedBy_cons]

theorem wait_processed_iff {wait : Instruction} (hWait : wait.opcode = .waitEvent) (sim : Sim) :
    (∃ next, process machine wait sim = .ok next) ↔
      ∃ wf, waitTarget wait = some wf ∧ (sim.eventReadyAt wf).isSome := by
  unfold process arm waitArm waitTarget
  simp only [hWait]
  cases (wait.attrStr "waits_for").or wait.dependsOn.head? with
  | none => simp
  | some wf => cases hReady : sim.eventReadyAt wf <;> simp [hReady]

end Simulator

----
-- Accepted Schedules
----

open Validate

variable {schedule : ExecutableSchedule}

/- The event looked up has been recorded before. -/
def FindsEvent (before : List Instruction) (wait : Instruction) : Prop :=
  ∃ wf, waitTarget wait = some wf ∧ wf ∈ recordedBy before

/- Every WaitEvent finds its event in every run. -/
def WaitsFindEvents (schedule : ExecutableSchedule) : Prop :=
  ∀ run, LinearExtension schedule run → ∀ before wait after, run = before ++ wait :: after →
    wait.opcode = .waitEvent → FindsEvent before wait

/-
  What a WaitEvent names in its attribute is a RecordEvent
  it depends on, directly or not.
-/
def WaitsForAncestor (schedule : ExecutableSchedule) : Prop :=
  ∀ wait ∈ schedule.instructions, wait.opcode = .waitEvent →
    ∀ wf, wait.attrStr "waits_for" = some wf → ∃ event ∈ schedule.instructions,
      event.opcode = .recordEvent ∧ event.name = wf ∧ Ancestor schedule wf wait.name

/-
  Without the attribute the validator has checked that the
  first dependency is a RecordEvent.
-/
private theorem first_dependency_recorded (hFixed : FixedChecks schedule) {wait : Instruction}
    (hMem : wait ∈ schedule.instructions) (hWait : wait.opcode = .waitEvent)
    (hNone : wait.attrStr "waits_for" = none) :
    ∃ event ∈ schedule.instructions, event.opcode = .recordEvent ∧
      wait.dependsOn.head? = some event.name := by
  have hErrors := hFixed.waits wait hMem hWait
  have hTarget : waitsFor schedule wait ≠ none := by
    intro hNoTarget
    simp [waitErrors, hNoTarget] at hErrors
  rcases Option.ne_none_iff_exists'.mp hTarget with ⟨target, hTarget⟩
  simp only [waitsFor, hNone, ExecutableSchedule.missing,
    Option.getD_none, decide_true, if_true] at hTarget
  rcases Option.bind_eq_some_iff.mp hTarget with ⟨event, hFound, hRecord⟩
  rcases Option.bind_eq_some_iff.mp hFound with ⟨dep, hHead, hByName⟩
  rcases ExecutableSchedule.byName_eq_some_imp hByName with ⟨hEvent, hName⟩
  refine ⟨event, hEvent, ?_, hName ▸ hHead⟩
  by_contra hOther
  simp [hOther] at hRecord

private theorem finds_of_ancestor (hNodup : (schedule.instructions.map Instruction.name).Nodup)
    {run before after : List Instruction} {wait event : Instruction}
    (hRun : LinearExtension schedule run) (hSplit : run = before ++ wait :: after)
    (hEvent : event ∈ schedule.instructions) (hRecord : event.opcode = .recordEvent)
    (hPath : Precedes schedule event.name wait.name) : event.name ∈ recordedBy before := by
  rcases hPath.before hNodup hRun hSplit with ⟨done, hDone, hName⟩
  have hSame : done = event := inj_on_of_nodup_map hNodup
    (hRun.1.mem_iff.mp (by simp [hSplit, hDone])) hEvent
    hName
  exact (mem_recordedBy _ _).mpr ⟨done, hDone, hSame ▸ hRecord, hName⟩

/- A run can start with what a WaitEvent depends on. -/
private theorem exists_early_run (hFixed : FixedChecks schedule) {wait : Instruction}
    (hMem : wait ∈ schedule.instructions) :
    ∃ run before after, LinearExtension schedule run ∧ run = before ++ wait :: after ∧
      ∀ done ∈ before, Precedes schedule done.name wait.name := by
  rcases hFixed.schedulable.exists_early ((schedule.mem_names _).mpr ⟨wait, hMem, rfl⟩) with
    ⟨front, back, hNodup, hNames, hOrdered, hEarly⟩
  rcases exists_linearExtension hFixed.nodup hNodup hNames hOrdered with ⟨run, hRun, hMap⟩
  rcases map_eq_append_iff.mp hMap with ⟨before, rest, hParts, hBefore, hRest⟩
  rcases map_eq_cons_iff.mp hRest with ⟨found, after, hCons, hName, -⟩
  rw [hCons] at hParts
  have hFound : found = wait := inj_on_of_nodup_map hFixed.nodup
    (hRun.1.mem_iff.mp (by simp [hParts])) hMem hName
  rw [hFound] at hParts
  refine ⟨run, before, after, hRun, hParts, ?_⟩
  intro done hDone
  exact hEarly done.name (hBefore ▸ mem_map_of_mem hDone)

private theorem Accepted.waitsFindEvents_iff (hAccepted : Accepted schedule) :
    WaitsFindEvents schedule ↔ WaitsForAncestor schedule := by
  rcases hAccepted with ⟨order, hNone⟩
  have hFixed := ((validateSchedule_eq_nil_iff order).mp hNone).1
  have hPrecedes := ancestor_iff_precedes hFixed.nodup
  constructor
  · intro hFinds wait hMem hWait wf hWf
    rcases exists_early_run hFixed hMem with ⟨run, before, after, hRun, hSplit, hEarly⟩
    rcases hFinds run hRun before wait after hSplit hWait with ⟨target, hTarget, hRecorded⟩
    simp only [waitTarget, hWf, Option.some_or, Option.some.injEq] at hTarget
    rw [← hTarget] at hRecorded
    rcases (mem_recordedBy _ _).mp hRecorded with ⟨event, hEvent, hRecord, hName⟩
    refine ⟨event, hRun.1.mem_iff.mp (by simp [hSplit, hEvent]), hRecord, hName, ?_⟩
    rw [hPrecedes, ← hName]
    exact hEarly event hEvent
  · intro hAncestors run hRun before wait after hSplit hWait
    have hMem : wait ∈ schedule.instructions := hRun.1.mem_iff.mp (by simp [hSplit])
    cases hWf : wait.attrStr "waits_for" with
    | some wf =>
      rcases hAncestors wait hMem hWait wf hWf with ⟨event, hEvent, hRecord, hName, hPath⟩
      rw [hPrecedes, ← hName] at hPath
      refine ⟨event.name, by simp [waitTarget, hWf, hName], ?_⟩
      exact finds_of_ancestor hFixed.nodup hRun hSplit hEvent hRecord hPath
    | none =>
      rcases first_dependency_recorded hFixed hMem hWait hWf with ⟨event, hEvent, hRecord, hHead⟩
      refine ⟨event.name, by simp [waitTarget, hWf, hHead], ?_⟩
      refine finds_of_ancestor hFixed.nodup hRun hSplit hEvent hRecord (Relation.TransGen.single ?_)
      rw [Validate.Lists, dependsOn_of_byName ((ExecutableSchedule.byName_eq_some_iff
        hFixed.nodup).mpr ⟨hMem, rfl⟩)]
      exact mem_of_head? hHead

/-
  In an accepted schedule the WaitEvents find their events
  in every run exactly when those named by the attribute
  are ancestors. Finding the event is what decides whether
  the executor and the simulator get past the WaitEvent.
-/
theorem waits_find_events_iff (schedule : ExecutableSchedule) (hAccepted : Accepted schedule) :
    (WaitsFindEvents schedule ↔ WaitsForAncestor schedule) ∧
    ∀ (before : List Instruction) (wait : Instruction), wait.opcode = .waitEvent →
      (∀ (ω : Type) (host : Host ω) (options : ExecuteOptions ω)
        (regionCb : Option (RegionCallback ω)) (dryRun : Bool) (world world' : World ω),
        QuietEvents host options regionCb → world.ctx.completedEvents = [] →
        (runInstructions host options regionCb dryRun before).exec world = (.ok (), world') →
        (((runInstructionBody host options regionCb dryRun wait).exec world').1 = .ok false ↔
          FindsEvent before wait)) ∧
      ∀ (machine : Simulator.MachineModel) (sim sim' : Simulator.Sim),
        (∀ name, sim.eventReadyAt name = none) →
        Simulator.processAll machine before sim = .ok sim' →
        ((∃ next, Simulator.process machine wait sim' = .ok next) ↔ FindsEvent before wait) := by
  refine ⟨hAccepted.waitsFindEvents_iff, ?_⟩
  intro before wait hWait
  constructor
  · intro ω host options regionCb dryRun world world' hQuiet hEmpty hRun
    have hEvents := runInstructions_events hQuiet dryRun before [] world hEmpty
    rw [hRun] at hEvents
    rw [wait_ok_iff dryRun hWait world', hEvents]
    simp [FindsEvent]
  · intro machine sim sim' hEmpty hRun
    have hEvents := Simulator.processAll_events machine before hRun
    rw [Simulator.wait_processed_iff machine hWait sim']
    simp [FindsEvent, hEvents, hEmpty]

def recordX : Instruction :=
  { opcode := .recordEvent, name := "event::x", resource := "cuda_0" }

variable (waitsFor : String) (dependsOn : List InstructionId)

/- A WaitEvent that names an event in its attribute. -/
def waitX : Instruction :=
  { opcode := .waitEvent, name := "wait::x", resource := "cpu", dependsOn := dependsOn
    attributes := [("waits_for", .string waitsFor)] }

theorem waitTarget_waitX : waitTarget (waitX waitsFor dependsOn) = some waitsFor := by
  simp [waitTarget, waitX, Instruction.attrStr, Instruction.attr, AttrValue.asStr]

/- The WaitEvent depends on the event it names. -/
def waitAfterEvent : ExecutableSchedule :=
  { instructions := [recordX, waitX "event::x" ["event::x"]] }

theorem dependent_wait_finds_event : Accepted waitAfterEvent ∧ WaitsFindEvents waitAfterEvent := by
  have hAccepted : Accepted waitAfterEvent := ⟨.listed _, by decide⟩
  refine ⟨hAccepted, (waits_find_events_iff _ hAccepted).1.mpr ?_⟩
  have hListed : ∀ wait ∈ waitAfterEvent.instructions,
      wait.opcode = .waitEvent → wait.attrStr "waits_for" = some "event::x" ∧
        wait.name = "wait::x" := by
    decide
  intro wait hMem hWait wf hWf
  rcases hListed wait hMem hWait with ⟨hAttr, hName⟩
  rw [hAttr, Option.some.injEq] at hWf
  rw [← hWf, hName]
  exact ⟨recordX, mem_cons_self, by decide, by decide, Relation.TransGen.single (by decide)⟩

/- No dependency orders the WaitEvent after its event. -/
def waitBesideEvent : ExecutableSchedule :=
  { instructions := [waitX "event::x" [], recordX] }

/- The attribute is empty, the first dependency records. -/
def waitForEmptyName : ExecutableSchedule :=
  { instructions := [recordX, waitX "" ["event::x"]] }

/-
  Both schedules are accepted. The first WaitEvent can run
  before its event, the second looks up the empty name; the
  executor then fails.
-/
theorem accepted_wait_misses_event :
    (Accepted waitBesideEvent ∧ ¬ WaitsFindEvents waitBesideEvent) ∧
    (Accepted waitForEmptyName ∧ ¬ WaitsFindEvents waitForEmptyName) ∧
    ∀ (ω : Type) (host : Host ω) (options : ExecuteOptions ω)
      (regionCb : Option (RegionCallback ω)) (dryRun : Bool)
      (world : World ω), world.ctx.completedEvents = ["event::x"] →
      ((runInstructionBody host options regionCb dryRun (waitX "" ["event::x"])).exec world).1 =
        .error (instErr (waitX "" ["event::x"]) "WaitEvent target \"\" was never recorded") := by
  have hBeside : Accepted waitBesideEvent := ⟨.listed _, by decide⟩
  have hEmptyName : Accepted waitForEmptyName := ⟨.listed _, by decide⟩
  refine ⟨⟨hBeside, ?_⟩, ⟨hEmptyName, ?_⟩, ?_⟩
  · intro hFinds
    rcases hBeside.waitsFindEvents_iff.mp hFinds (waitX "event::x" []) mem_cons_self
      rfl "event::x" (by decide) with ⟨_, _, _, _, hPath⟩
    rcases Relation.TransGen.tail'_iff.mp hPath with ⟨dep, -, hWaits⟩
    have hNoDeps : ∀ inst ∈ waitBesideEvent.instructions, inst.dependsOn = [] := by decide
    rcases hWaits with ⟨inst, hInst, -, hDep⟩
    rw [hNoDeps inst hInst] at hDep
    exact absurd hDep not_mem_nil
  · intro hFinds
    rcases hEmptyName.waitsFindEvents_iff.mp hFinds (waitX "" ["event::x"])
      (mem_cons_of_mem _ mem_cons_self)
      rfl "" (by decide) with ⟨event, hEvent, _, hName, _⟩
    have hNamed : ∀ inst ∈ waitForEmptyName.instructions, inst.name ≠ "" := by decide
    exact absurd hName (hNamed event hEvent)
  · intro ω host options regionCb dryRun world hEvents
    unfold runInstructionBody runWaitEvent
    simp only [waitTarget_waitX]
    simp [waitX, Command.exec_bind, Command.onlyIf, hEvents]
    decide

end TensorTorrent
