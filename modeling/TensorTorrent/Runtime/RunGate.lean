import TensorTorrent.Library.Transition
import TensorTorrent.Ir.Schedule

/-
  This file models the in-flight gate of a schedule executor
  with its callers (`runtime/inflight.py`, `run`, `close`,
  `release_device_residency` and `replace_schedule` of
  `runtime/schedule_executor.py`, and the parameter hoist
  of `runtime/native_bridge/residency.py`).

  Threads interleave at the points where they read or write
  shared state. A thread that waits for the gate can go on
  only in a state without runners.

  Main declarations:
    * `RunGate.no_self_wait_without_out_of_memory`
    * `RunGate.closed_executor_drained`
-/

namespace TensorTorrent

open Transition
open Function (update update_of_ne update_self)

----
-- The Gate
----

/- Many runners; `close` waits until none is left. -/
structure InFlightGate where
  inflight : Nat
  closed : Bool
deriving DecidableEq

namespace InFlightGate

def new : InFlightGate :=
  { inflight := 0, closed := false }

def enter (gate : InFlightGate) : Except String InFlightGate :=
  if gate.closed then .error "gate closed"
  else .ok { gate with inflight := gate.inflight + 1 }

def leave (gate : InFlightGate) : Except String InFlightGate :=
  if gate.inflight ≤ 0 then
    .error "InFlightGate leave without matching enter"
  else .ok { gate with inflight := gate.inflight - 1 }

/- The condition both wait loops wait for. -/
def idle (gate : InFlightGate) : Bool :=
  gate.inflight = 0

end InFlightGate

----
-- Threads of an Executor
----

namespace RunGate

abbrev Thread := Nat

/- A parameter and the device it is hoisted to. -/
abbrev Target := TensorId × ResourceId

/- Calls from outside a forward that wait for an idle gate. -/
inductive IdleCall where
| releaseDeviceResidency (demoteHoist : Bool)
| replaceSchedule (targets : List Target)
deriving DecidableEq

/- Where a thread is; `hoisting` to `waitIdleInRun` hold
   the parameter lock. -/
inductive Phase where
| outside
| runCalled (enableGrad : Bool)
| runEntering (enableGrad : Bool)
| registering (enableGrad : Bool)
| hoisting (left : List Target)
| outOfMemory
| waitIdleInRun
| running
| leaving
| closing
| waitClosed
| waitIdle (call : IdleCall)
deriving DecidableEq

/- Between `enter` and `leave` of the gate. -/
def Phase.insideGate : Phase → Bool
| registering _ | hoisting _ | outOfMemory
| waitIdleInRun | running | leaving => true
| _ => false

/- In `wait_idle` or `mark_closed_and_wait`. -/
def Phase.waitsForGate : Phase → Bool
| waitIdleInRun | waitClosed | waitIdle _ => true
| _ => false

/- In the handler of memory exhaustion of a hoist. -/
def Phase.inHandler : Phase → Bool
| outOfMemory | waitIdleInRun => true
| _ => false

/- What a thread does next. -/
inductive Event where
| callRun (enableGrad : Bool)
| checkClosed
| enterGate
| takeLock
| cacheHit
| moved
| hoistOutOfMemory
| raised
| unlock
| releaseDeviceResidency
| wake
| rebuildFailed
| runEnded
| leaveGate
| callClose
| markClosed
| call (idle : IdleCall)
deriving DecidableEq

/- The shared fields of the executor and its threads. -/
structure ScheduleExecutor where
  gate : InFlightGate
  closed : Bool
  persistentParamLock : Option Thread
  needsPrefetch : Bool
  hoistResidentParameters : Bool
  partialHoistOom : Bool
  residentParameterTargets : List Target
  deviceParamCache : List Target
  phase : Thread → Phase

/- A new executor: every thread is outside. -/
def ScheduleExecutor.new (needsPrefetch hoistResidentParameters : Bool)
    (targets : List Target) : ScheduleExecutor :=
  { gate := .new, closed := false, persistentParamLock := none
    needsPrefetch := needsPrefetch, hoistResidentParameters := hoistResidentParameters
    partialHoistOom := false, residentParameterTargets := targets, deviceParamCache := []
    phase := fun _ => .outside }

section

variable (exec : ScheduleExecutor)

def ScheduleExecutor.moveTo (thread : Thread) (phase : Phase) : ScheduleExecutor :=
  { exec with phase := update exec.phase thread phase }

/- Targets the hoist loop of a forward visits. -/
def hoistTargets (enableGrad : Bool) : List Target :=
  if !enableGrad && exec.hoistResidentParameters && !exec.partialHoistOom then
    exec.residentParameterTargets
  else []

/- Shared fields after `release_device_residency` waited. -/
def releaseResidency (demoteHoist : Bool) : ScheduleExecutor :=
  if demoteHoist && !exec.hoistResidentParameters then
    { exec with deviceParamCache := [] }
  else
    { exec with
      deviceParamCache := [], residentParameterTargets := []
      hoistResidentParameters := if demoteHoist then false
        else exec.hoistResidentParameters
      partialHoistOom := true }

/- Shared fields after `replace_schedule` waited. -/
def installSchedule (targets : List Target) : ScheduleExecutor :=
  if exec.closed then exec
  else
    { exec with
      partialHoistOom := false, residentParameterTargets := targets, deviceParamCache := [] }

def afterWait : IdleCall → ScheduleExecutor
| .releaseDeviceResidency demote => releaseResidency exec demote
| .replaceSchedule targets => installSchedule exec targets

end

open ScheduleExecutor (moveTo)

----
-- Steps of a Forward
----

section

variable (exec : ScheduleExecutor) (thread : Thread)

/- `run` up to the gate. -/
def stepEnter : Phase → Event → Option ScheduleExecutor
| .runCalled grad, .checkClosed =>
  some (exec.moveTo thread (if exec.closed then .outside
    else .runEntering grad))
| .runEntering grad, .enterGate =>
  match exec.gate.enter with
  | .error _ => some (exec.moveTo thread .outside)
  | .ok gate => some ({ exec with gate := gate }.moveTo thread (.registering grad))
| _, _ => none

/-
  `_register_persistent_residency`: with a streaming store
  it returns at once, otherwise the hoist runs under the
  parameter lock. An error other than memory exhaustion
  leaves the lock and the gate.
-/
def stepRegister : Phase → Event → Option ScheduleExecutor
| .registering grad, .takeLock =>
  if exec.needsPrefetch then
    some (exec.moveTo thread .running)
  else if exec.persistentParamLock = none then
    some ({ exec with
      persistentParamLock := some thread }.moveTo thread (.hoisting (hoistTargets exec grad)))
  else none
| .hoisting (target :: left), .cacheHit =>
  if target ∈ exec.deviceParamCache then
    some (exec.moveTo thread (.hoisting left))
  else none
| .hoisting (target :: left), .moved =>
  some ({ exec with
    deviceParamCache := target :: exec.deviceParamCache }.moveTo thread (.hoisting left))
| .hoisting (_ :: _), .hoistOutOfMemory => some (exec.moveTo thread .outOfMemory)
| .hoisting _, .raised => some ({ exec with persistentParamLock := none }.moveTo thread .leaving)
| .hoisting [], .unlock => some ({ exec with persistentParamLock := none }.moveTo thread .running)
| _, _ => none

/-
  The handler of memory exhaustion: it still holds the gate
  and the lock when it calls `release_device_residency`.
-/
def stepOutOfMemory : Event → Option ScheduleExecutor
| .releaseDeviceResidency =>
  some (exec.moveTo thread (if exec.closed then .hoisting []
    else .waitIdleInRun))
| _ => none

/- The end of `wait_idle` inside the handler. -/
def stepWaitIdleInRun : Event → Option ScheduleExecutor
| .wake =>
  if exec.gate.idle then
    some ((releaseResidency exec false).moveTo thread (.hoisting []))
  else none
| .rebuildFailed =>
  if exec.gate.idle then
    some ({ releaseResidency exec false with persistentParamLock := none }.moveTo thread .leaving)
  else none
| _ => none

/- The schedule itself and the way out. -/
def stepLeave : Phase → Event → Option ScheduleExecutor
| .running, .runEnded => some (exec.moveTo thread .leaving)
| .leaving, .leaveGate =>
  match exec.gate.leave with
  | .error _ => some (exec.moveTo thread .outside)
  | .ok gate => some ({ exec with gate := gate }.moveTo thread .outside)
| _, _ => none

end

----
-- Steps Outside Forwards
----

section

variable (exec : ScheduleExecutor) (thread : Thread)

/- A thread that is in no call makes one. -/
def stepOutside : Event → Option ScheduleExecutor
| .callRun grad => some (exec.moveTo thread (.runCalled grad))
| .callClose => some (exec.moveTo thread (if exec.closed then .outside else .closing))
| .call (.releaseDeviceResidency demote) =>
  some (exec.moveTo thread (if exec.closed then .outside
    else .waitIdle (.releaseDeviceResidency demote)))
| .call (.replaceSchedule targets) =>
  some (exec.moveTo thread (.waitIdle (.replaceSchedule targets)))
| _ => none

/- `close` after its first check. -/
def stepClose : Phase → Event → Option ScheduleExecutor
| .closing, .markClosed =>
  some ({ exec with gate := { exec.gate with closed := true } }.moveTo thread .waitClosed)
| .waitClosed, .wake =>
  if exec.gate.idle then
    some ((if exec.closed then exec
      else { exec with closed := true, deviceParamCache := [] }).moveTo thread .outside)
  else none
| _, _ => none

/- The end of `release_device_residency` or
   `replace_schedule`. -/
def stepIdleCall (call : IdleCall) : Event → Option ScheduleExecutor
| .wake =>
  if exec.gate.idle then
    some ((afterWait exec call).moveTo thread .outside)
  else none
| _ => none

end

/- One step of one thread. -/
def step (exec : ScheduleExecutor) (label : Thread × Event) : Option ScheduleExecutor :=
  match exec.phase label.1 with
  | .outside => stepOutside exec label.1 label.2
  | .runCalled grad => stepEnter exec label.1 (.runCalled grad) label.2
  | .runEntering grad => stepEnter exec label.1 (.runEntering grad) label.2
  | .registering grad => stepRegister exec label.1 (.registering grad) label.2
  | .hoisting left => stepRegister exec label.1 (.hoisting left) label.2
  | .outOfMemory => stepOutOfMemory exec label.1 label.2
  | .waitIdleInRun => stepWaitIdleInRun exec label.1 label.2
  | .running => stepLeave exec label.1 .running label.2
  | .leaving => stepLeave exec label.1 .leaving label.2
  | .closing => stepClose exec label.1 .closing label.2
  | .waitClosed => stepClose exec label.1 .waitClosed label.2
  | .waitIdle call => stepIdleCall exec label.1 call label.2

----
-- What a Step Does to the Gate
----

/-
  Effect of a step on the gate and on `_closed`, when the
  thread goes on to `phase`.
-/
inductive Effect (exec exec' : ScheduleExecutor) (before phase : Phase) : Prop where
| quiet (hGate : exec'.gate = exec.gate) (hClosed : exec'.closed = exec.closed)
    (hInside : phase.insideGate = before.insideGate) (hWait : phase ≠ .waitClosed)
| enter (hOpen : exec.gate.closed = false)
    (hGate : exec'.gate = { exec.gate with inflight := exec.gate.inflight + 1 })
    (hClosed : exec'.closed = exec.closed) (hBefore : before.insideGate = false)
    (hInside : phase.insideGate = true)
| leave (hGate : exec'.gate = { exec.gate with inflight := exec.gate.inflight - 1 })
    (hClosed : exec'.closed = exec.closed) (hBefore : before.insideGate = true)
    (hOutside : phase = .outside)
| mark (hGate : exec'.gate = { exec.gate with closed := true })
    (hClosed : exec'.closed = exec.closed) (hBefore : before.insideGate = false)
    (hWait : phase = .waitClosed)
| shut (hIdle : exec.gate.inflight = 0) (hGate : exec'.gate = exec.gate)
    (hBefore : before = .waitClosed) (hOutside : phase = .outside)

/-
  The thread moves on and the others stay; only memory
  exhaustion leads into its handler.
-/
def Moves (exec exec' : ScheduleExecutor) (thread : Thread) (event : Event)
    (before : Phase) : Prop :=
  ∃ phase, exec'.phase = update exec.phase thread phase ∧ Effect exec exec' before phase ∧
    (phase.inHandler = true → before.inHandler = true ∨ event = .hoistOutOfMemory)

variable {exec exec' : ScheduleExecutor} {thread : Thread} {event : Event} {phase : Phase}

attribute [local simp] Phase.insideGate Phase.inHandler

private theorem moves_quiet {before : Phase} (changed : ScheduleExecutor)
    (hPhase : changed.phase = exec.phase) (hGate : changed.gate = exec.gate)
    (hClosed : changed.closed = exec.closed) (hInside : phase.insideGate = before.insideGate)
    (hWait : phase ≠ .waitClosed ∧ (phase.inHandler = true →
      before.inHandler = true ∨ event = .hoistOutOfMemory)) :
    Moves exec (changed.moveTo thread phase) thread event before :=
  ⟨phase, by simp [moveTo, hPhase], .quiet hGate hClosed hInside hWait.1, hWait.2⟩

private theorem stepOutside_moves (hStep : stepOutside exec thread event = some exec') :
    Moves exec exec' thread event .outside := by
  unfold stepOutside at hStep
  split at hStep <;> cases hStep
  · exact moves_quiet exec rfl rfl rfl rfl (by simp)
  · refine moves_quiet exec rfl rfl rfl ?_ ?_ <;> split <;> simp
  · refine moves_quiet exec rfl rfl rfl ?_ ?_ <;> split <;> simp
  · exact moves_quiet exec rfl rfl rfl rfl (by simp)

variable {before : Phase}

private theorem stepEnter_moves (hStep : stepEnter exec thread before event = some exec') :
    Moves exec exec' thread event before := by
  unfold stepEnter at hStep
  split at hStep
  · cases hStep
    refine moves_quiet exec rfl rfl rfl ?_ ?_ <;> split <;> simp
  · unfold InFlightGate.enter at hStep
    cases hClosed : exec.gate.closed <;> rw [hClosed] at hStep <;> cases hStep
    · exact ⟨_, rfl, .enter hClosed (by rw [← hClosed]; rfl) rfl rfl rfl, by simp⟩
    · exact moves_quiet exec rfl rfl rfl rfl (by simp)
  · cases hStep

private theorem stepRegister_moves (hStep : stepRegister exec thread before event = some exec') :
    Moves exec exec' thread event before := by
  unfold stepRegister at hStep
  repeat' split at hStep
  all_goals cases hStep
  all_goals exact moves_quiet _ rfl rfl rfl rfl (by simp)

private theorem afterWait_frame (exec : ScheduleExecutor) (call : IdleCall) :
    (afterWait exec call).phase = exec.phase ∧ (afterWait exec call).gate = exec.gate ∧
      (afterWait exec call).closed = exec.closed := by
  unfold afterWait releaseResidency installSchedule
  repeat' split
  all_goals exact ⟨rfl, rfl, rfl⟩

private theorem stepOutOfMemory_moves (hStep : stepOutOfMemory exec thread event = some exec') :
    Moves exec exec' thread event .outOfMemory := by
  unfold stepOutOfMemory at hStep
  split at hStep <;> cases hStep
  refine moves_quiet exec rfl rfl rfl ?_ ?_ <;> split <;> simp

private theorem stepWaitIdleInRun_moves (hStep : stepWaitIdleInRun exec thread event = some exec') :
    Moves exec exec' thread event .waitIdleInRun := by
  rcases afterWait_frame exec (.releaseDeviceResidency false) with ⟨hPhase, hGate, hClosed⟩
  unfold stepWaitIdleInRun at hStep
  repeat' split at hStep
  all_goals cases hStep
  all_goals exact moves_quiet _ hPhase hGate hClosed rfl (by simp)

private theorem stepLeave_moves (hStep : stepLeave exec thread before event = some exec') :
    Moves exec exec' thread event before := by
  unfold stepLeave at hStep
  split at hStep
  · cases hStep
    exact moves_quiet exec rfl rfl rfl rfl (by simp)
  · unfold InFlightGate.leave at hStep
    by_cases hZero : exec.gate.inflight ≤ 0
    · rw [if_pos hZero] at hStep
      cases hStep
      refine ⟨.outside, rfl, .leave ?_ rfl rfl rfl, by simp⟩
      have hNone : exec.gate.inflight = 0 := by omega
      cases hGate : exec.gate with
      | mk inflight closed =>
        rw [hGate] at hNone
        simp only at hNone
        simp [moveTo, hGate, hNone]
    · rw [if_neg hZero] at hStep
      cases hStep
      exact ⟨.outside, rfl, .leave rfl rfl rfl rfl, by simp⟩
  · cases hStep

private theorem stepClose_moves (hStep : stepClose exec thread before event = some exec') :
    Moves exec exec' thread event before := by
  unfold stepClose at hStep
  split at hStep
  · cases hStep
    exact ⟨.waitClosed, rfl, .mark rfl rfl rfl rfl, by simp⟩
  · split at hStep <;> cases hStep
    next hIdle =>
    refine ⟨.outside, ?_, .shut ?_ ?_ rfl rfl, by simp⟩
    · split <;> rfl
    · simpa [InFlightGate.idle] using hIdle
    · split <;> rfl
  · cases hStep

private theorem stepIdleCall_moves {call : IdleCall}
    (hStep : stepIdleCall exec thread call event = some exec') :
    Moves exec exec' thread event (.waitIdle call) := by
  rcases afterWait_frame exec call with ⟨hPhase, hGate, hClosed⟩
  unfold stepIdleCall at hStep
  repeat' split at hStep
  all_goals cases hStep
  exact moves_quiet _ hPhase hGate hClosed rfl (by simp)

/- What any step does. -/
theorem step_moves (hStep : step exec (thread, event) = some exec') :
    Moves exec exec' thread event (exec.phase thread) := by
  unfold step at hStep
  split at hStep <;> rename_i hPhase <;> rw [hPhase]
  · exact stepOutside_moves hStep
  · exact stepEnter_moves hStep
  · exact stepEnter_moves hStep
  · exact stepRegister_moves hStep
  · exact stepRegister_moves hStep
  · exact stepOutOfMemory_moves hStep
  · exact stepWaitIdleInRun_moves hStep
  · exact stepLeave_moves hStep
  · exact stepLeave_moves hStep
  · exact stepClose_moves hStep
  · exact stepClose_moves hStep
  · exact stepIdleCall_moves hStep

----
-- Invariants of the Gate
----

/- The gate counts the threads inside it. -/
def Counted (exec : ScheduleExecutor) : Prop :=
  ∃ inside : Finset Thread, (∀ thread, thread ∈ inside ↔ (exec.phase thread).insideGate = true) ∧
    inside.card = exec.gate.inflight

/- A closed executor has a closed gate and no runner. -/
structure Closed (exec : ScheduleExecutor) : Prop where
  drained : exec.closed = true → exec.gate.closed = true ∧ exec.gate.inflight = 0
  marked : ∀ thread, exec.phase thread = .waitClosed → exec.gate.closed = true

/- Threads inside the gate keep it from being idle. -/
theorem Counted.pos (hCounted : Counted exec) (hInside : (exec.phase thread).insideGate = true) :
    0 < exec.gate.inflight := by
  rcases hCounted with ⟨inside, hMem, hCard⟩
  rw [← hCard]
  exact Finset.card_pos.mpr ⟨thread, (hMem thread).mpr hInside⟩

variable {other : Thread}

/- Moving one thread changes membership of that one only. -/
private theorem mem_update {inside : Finset Thread}
    (hMem : ∀ other, other ∈ inside ↔ (exec.phase other).insideGate = true)
    (hPhase : exec'.phase = update exec.phase thread phase) (hOther : other ≠ thread) :
    (exec'.phase other).insideGate = true ↔ other ∈ inside := by
  rw [hPhase, update_of_ne hOther]
  exact (hMem other).symm

theorem Counted.step (hCounted : Counted exec)
    (hStep : RunGate.step exec (thread, event) = some exec') : Counted exec' := by
  rcases hCounted with ⟨inside, hMem, hCard⟩
  rcases step_moves hStep with ⟨phase, hPhase, hEffect, _⟩
  have hSelf : exec'.phase thread = phase := by rw [hPhase, update_self]
  -- The set stays when the thread is inside before and
  -- after, or outside before and after.
  have hSame : phase.insideGate = (exec.phase thread).insideGate →
      ∀ other, other ∈ inside ↔ (exec'.phase other).insideGate = true := by
    intro hInside other
    by_cases hOther : other = thread
    · subst hOther
      rw [hSelf, hInside]
      exact hMem other
    · exact (mem_update hMem hPhase hOther).symm
  cases hEffect with
  | quiet hGate _ hInside _ => exact ⟨inside, hSame hInside, by rw [hGate, hCard]⟩
  | mark hGate _ hBefore hWait =>
    refine ⟨inside, hSame ?_, by rw [hGate, hCard]⟩
    rw [hWait, hBefore]
    rfl
  | shut _ hGate hBefore hOutside =>
    refine ⟨inside, hSame ?_, by rw [hGate, hCard]⟩
    rw [hOutside, hBefore]
    rfl
  | enter _ hGate _ hBefore hInside =>
    have hFresh : thread ∉ inside := by
      rw [hMem thread, hBefore]
      simp
    refine ⟨insert thread inside, ?_, ?_⟩
    · intro other
      by_cases hOther : other = thread
      · subst hOther
        simpa [hSelf] using hInside
      · rw [mem_update hMem hPhase hOther]
        simp [hOther]
    · rw [Finset.card_insert_of_notMem hFresh, hCard, hGate]
  | leave hGate _ hBefore hOutside =>
    have hThread : thread ∈ inside := (hMem thread).mpr hBefore
    refine ⟨inside.erase thread, ?_, ?_⟩
    · intro other
      by_cases hOther : other = thread
      · subst hOther
        simp [hSelf, hOutside]
      · rw [mem_update hMem hPhase hOther]
        simp [hOther]
    · rw [Finset.card_erase_of_mem hThread, hCard, hGate]

theorem Closed.step (hClosed : Closed exec)
    (hStep : RunGate.step exec (thread, event) = some exec') : Closed exec' := by
  rcases step_moves hStep with ⟨phase, hPhase, hEffect, _⟩
  -- A thread other than the moving one keeps its mark.
  have hOthers : phase ≠ .waitClosed → exec.gate.closed = exec'.gate.closed →
      ∀ other, exec'.phase other = .waitClosed → exec'.gate.closed = true := by
    intro hWait hGate other hPhaseOther
    rw [hPhase] at hPhaseOther
    by_cases hOther : other = thread
    · subst hOther
      rw [update_self] at hPhaseOther
      exact absurd hPhaseOther hWait
    · rw [update_of_ne hOther] at hPhaseOther
      rw [← hGate]
      exact hClosed.marked other hPhaseOther
  cases hEffect with
  | quiet hGate hFlag hInside hWait =>
    refine ⟨?_, hOthers hWait (by rw [hGate])⟩
    rw [hGate, hFlag]
    exact hClosed.drained
  | enter hOpen hGate hFlag hBefore hInside =>
    refine ⟨?_, hOthers ?_ (by rw [hGate])⟩
    · intro hFlagSet
      rw [hFlag] at hFlagSet
      have hGateClosed := (hClosed.drained hFlagSet).1
      rw [hOpen] at hGateClosed
      cases hGateClosed
    · intro hWait
      rw [hWait] at hInside
      cases hInside
  | leave hGate hFlag hBefore hOutside =>
    refine ⟨?_, hOthers ?_ (by rw [hGate])⟩
    · intro hFlagSet
      rw [hFlag] at hFlagSet
      rcases hClosed.drained hFlagSet with ⟨hGateClosed, hNone⟩
      rw [hGate]
      exact ⟨hGateClosed, by simp [hNone]⟩
    · rw [hOutside]
      simp
  | mark hGate hFlag hBefore hWait =>
    refine ⟨?_, fun _ _ => by rw [hGate]⟩
    intro hFlagSet
    rw [hFlag] at hFlagSet
    rw [hGate]
    exact ⟨rfl, (hClosed.drained hFlagSet).2⟩
  | shut hIdle hGate hBefore hOutside =>
    refine ⟨?_, hOthers ?_ (by rw [hGate])⟩
    · intro _
      rw [hGate]
      exact ⟨hClosed.marked thread hBefore, hIdle⟩
    · rw [hOutside]
      simp

theorem Counted.new (needsPrefetch hoist : Bool) (targets : List Target) :
    Counted (.new needsPrefetch hoist targets) :=
  ⟨∅, by simp [ScheduleExecutor.new], rfl⟩

theorem Closed.new (needsPrefetch hoist : Bool) (targets : List Target) :
    Closed (.new needsPrefetch hoist targets) :=
  ⟨by simp [ScheduleExecutor.new], by simp [ScheduleExecutor.new]⟩

----
-- Waiting Inside the Gate
----

/- A thread inside the gate waits for the same gate. -/
def SelfWait (exec : ScheduleExecutor) (thread : Thread) : Prop :=
  (exec.phase thread).insideGate = true ∧ (exec.phase thread).waitsForGate = true

/- Steps in which no hoist runs out of memory. -/
def WithinMemory (_ : ScheduleExecutor) (label : Thread × Event) : Prop :=
  label.2 ≠ .hoistOutOfMemory

/- Without memory exhaustion nobody enters the handler. -/
theorem step_outside_handler (hStep : step exec (thread, event) = some exec')
    (hEvent : event ≠ .hoistOutOfMemory) (hNone : ∀ other, (exec.phase other).inHandler = false) :
    ∀ other, (exec'.phase other).inHandler = false := by
  rcases step_moves hStep with ⟨phase, hPhase, _, hHandler⟩
  intro other
  rw [hPhase]
  by_cases hOther : other = thread
  · subst hOther
    by_contra hIn
    rcases hHandler (by simpa using hIn) with hBefore | hOom
    · rw [hNone other] at hBefore
      cases hBefore
    · exact hEvent hOom
  · rw [update_of_ne hOther]
    exact hNone other

/- A thread in the handler is inside the gate. -/
private theorem insideGate_of_inHandler (hHandler : phase.inHandler = true) :
    phase.insideGate = true := by
  cases phase <;> first | rfl | cases hHandler

/-
  A thread that ran out of memory stays in the handler: the
  executor cannot be closed and the gate cannot drain while
  that thread is inside.
-/
theorem step_stays_in_handler (hCounted : Counted exec) (hClosed : Closed exec)
    (hStep : step exec (thread, event) = some exec')
    (hOther : (exec.phase other).inHandler = true) : (exec'.phase other).inHandler = true := by
  have hBusy : exec.gate.inflight ≠ 0 := by
    have hPos := hCounted.pos (insideGate_of_inHandler hOther)
    omega
  have hNotIdle : exec.gate.idle = false := by simpa [InFlightGate.idle] using hBusy
  have hOpen : exec.closed = false := by
    by_contra hFlag
    exact hBusy (hClosed.drained (by simpa using hFlag)).2
  by_cases hSame : thread = other
  · subst hSame
    cases hPhase : exec.phase thread with
    | outOfMemory =>
      simp only [step, hPhase] at hStep
      unfold stepOutOfMemory at hStep
      split at hStep <;> cases hStep
      simp [moveTo, hOpen]
    | waitIdleInRun =>
      simp only [step, hPhase] at hStep
      unfold stepWaitIdleInRun at hStep
      split at hStep <;> simp [hNotIdle] at hStep
    | _ => simp [hPhase] at hOther
  · rcases step_moves hStep with ⟨phase, hPhase, _, _⟩
    rw [hPhase, update_of_ne (Ne.symm hSame)]
    exact hOther

/-
  Without memory exhaustion no thread ever waits for the
  gate it is in. With it the deadlock is certain: the thread
  never gets out of its handler again, so the rebuilt
  schedule is never reached.
-/
theorem no_self_wait_without_out_of_memory (needsPrefetch hoist : Bool) (targets : List Target) :
    (∀ exec, Reachable step WithinMemory (.new needsPrefetch hoist targets)
        exec →
      ∀ thread, ¬ SelfWait exec thread) ∧
    (∀ exec, Reachable step always (.new needsPrefetch hoist targets)
        exec →
      ∀ thread, exec.phase thread = .outOfMemory → ∀ exec',
        Reachable step always exec exec' → (exec'.phase thread).inHandler = true) := by
  constructor
  · intro exec hReach thread hWait
    have hNone : ∀ other, (exec.phase other).inHandler = false := by
      refine hReach.invariant (fun exec =>
          ∀ other, (exec.phase other).inHandler = false)
        ?_ ?_
      · intro exec label exec' hNone hMemory hStep
        exact step_outside_handler hStep hMemory hNone
      · intro other
        rfl
    rcases hWait with ⟨hInside, hWaits⟩
    have hHandler := hNone thread
    cases hPhase : exec.phase thread <;> simp_all [Phase.waitsForGate]
  · intro exec hReach thread hPhase exec' hReach'
    have hGate : Counted exec ∧ Closed exec := by
      refine hReach.invariant (fun exec => Counted exec ∧ Closed exec) ?_
        ⟨.new needsPrefetch hoist targets, .new needsPrefetch hoist targets⟩
      intro exec label exec' hInv _ hStep
      exact ⟨hInv.1.step hStep, hInv.2.step hStep⟩
    have hStuck : Counted exec' ∧ Closed exec' ∧ (exec'.phase thread).inHandler = true := by
      refine hReach'.invariant (fun exec =>
          Counted exec ∧ Closed exec ∧ (exec.phase thread).inHandler = true) ?_
        ⟨hGate.1, hGate.2, by rw [hPhase]; rfl⟩
      rintro exec label exec' ⟨hCounted, hClosed, hIn⟩ _ hStep
      exact ⟨hCounted.step hStep, hClosed.step hStep,
        step_stays_in_handler hCounted hClosed hStep hIn⟩
    exact hStuck.2.2

/- One forward whose only hoist succeeds. -/
def hoistFits : List (Thread × Event) :=
  [(0, .callRun false), (0, .checkClosed), (0, .enterGate),
    (0, .takeLock), (0, .moved), (0, .unlock)]

/- That forward gets to run its schedule. -/
theorem hoist_within_memory_runs :
    ∃ exec, run step (.new false true [("w", "cuda:0")]) hoistFits = some exec ∧
      exec.phase 0 = .running ∧ ∀ thread, ¬ SelfWait exec thread := by
  have hFits : ∀ label ∈ hoistFits, label.2 ≠ .hoistOutOfMemory := by decide
  refine ⟨_, rfl, rfl, ?_⟩
  exact (no_self_wait_without_out_of_memory false true [("w", "cuda:0")]).1 _
    (Reachable.of_run hoistFits (Meets.of_forall hoistFits
      (fun label hLabel _ => hFits label hLabel) _) rfl)

/- One forward whose only hoist runs out of memory. -/
def hoistOom : List (Thread × Event) :=
  [(0, .callRun false), (0, .checkClosed), (0, .enterGate), (0, .takeLock), (0, .hoistOutOfMemory),
    (0, .releaseDeviceResidency)]

/- The forward waits for the gate it is in. -/
theorem hoist_out_of_memory_waits_for_itself :
    ∃ exec, run step (.new false true [("w", "cuda:0")]) hoistOom = some exec ∧
      SelfWait exec 0 :=
  ⟨_, rfl, rfl, rfl⟩

----
-- A Closed Executor
----

/- Nobody gets past a closed gate that has drained. -/
theorem step_drained (hCounted : Counted exec) (hStep : step exec (thread, event) = some exec')
    (hClosed : exec.gate.closed = true) (hNone : exec.gate.inflight = 0) :
    exec'.gate.closed = true ∧ exec'.gate.inflight = 0 := by
  rcases step_moves hStep with ⟨phase, hPhase, hEffect, _⟩
  cases hEffect with
  | quiet hGate => exact hGate ▸ ⟨hClosed, hNone⟩
  | enter hOpen =>
    rw [hClosed] at hOpen
    cases hOpen
  | leave _ _ hBefore =>
    have hPos := hCounted.pos hBefore
    omega
  | mark hGate => exact hGate ▸ ⟨rfl, hNone⟩
  | shut _ hGate => exact hGate ▸ ⟨hClosed, hNone⟩

/-
  The gate counts the threads inside it in every
  interleaving, and once `close` has returned no forward is
  inside, then or ever after.
-/
theorem closed_executor_drained (needsPrefetch hoist : Bool) (targets : List Target)
    (hReach : Reachable step always (.new needsPrefetch hoist targets) exec) :
    Counted exec ∧ (exec.closed = true → ∀ exec', Reachable step always exec exec' →
      ∀ thread, (exec'.phase thread).insideGate = false) := by
  have hGate : Counted exec ∧ Closed exec := by
    refine hReach.invariant (fun exec => Counted exec ∧ Closed exec) ?_ ⟨.new .., .new ..⟩
    intro exec label exec' hInv _ hStep
    exact ⟨hInv.1.step hStep, hInv.2.step hStep⟩
  refine ⟨hGate.1, ?_⟩
  intro hFlag exec' hLater thread
  have hDrained : Counted exec' ∧ exec'.gate.closed = true ∧ exec'.gate.inflight = 0 := by
    refine hLater.invariant (fun exec =>
      Counted exec ∧ exec.gate.closed = true ∧ exec.gate.inflight = 0) ?_
      ⟨hGate.1, hGate.2.drained hFlag⟩
    rintro exec label exec' ⟨hCounted, hClosed, hNone⟩ _ hStep
    exact ⟨hCounted.step hStep, step_drained hCounted hStep hClosed hNone⟩
  by_contra hInside
  have hPos := hDrained.1.pos (by simpa using hInside)
  omega

/- The call to close comes while a forward is in the gate. -/
def closeDuringRun : List (Thread × Event) :=
  [(1, .callRun false), (1, .checkClosed), (1, .enterGate), (0, .callClose), (0, .markClosed)]

/- The forward ends and leaves. -/
def endRun : List (Thread × Event) :=
  [(1, .takeLock), (1, .unlock), (1, .runEnded), (1, .leaveGate)]

/- Close wakes up only after the forward has left. -/
theorem closed_after_forward_drained :
    run step (.new false true []) (closeDuringRun ++ [(0, .wake)]) = none ∧
    ∃ exec, run step (.new false true []) (closeDuringRun ++ endRun ++ [(0, .wake)]) = some exec ∧
      exec.closed = true ∧ ∀ exec', Reachable step always exec exec' →
        ∀ thread, (exec'.phase thread).insideGate = false :=
  ⟨rfl, _, rfl, rfl, (closed_executor_drained false true []
    (.of_run_always (closeDuringRun ++ endRun ++ [(0, .wake)]) rfl)).2 rfl⟩

end RunGate

end TensorTorrent
