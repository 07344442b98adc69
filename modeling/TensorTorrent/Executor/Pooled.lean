import TensorTorrent.Library.Transition
import TensorTorrent.Ir.Validate
import TensorTorrent.Executor.Waves

/-
  This file models the dispatcher of the pooled executor
  (crate `tt-runtime`: `executor/pooled.rs` with the queue
  helpers of `executor/waves.rs`).

  Jobs run on worker pools; all the dispatcher sees of one
  is its completion. A label of the step function says which
  completion arrives next, so runs over labels cover every
  order of arrival. Batched releases and parameter loads run
  on the dispatcher itself and send no completion.

  Main declarations:
    * `Pooled.dispatcher_never_strands`
    * `Pooled.dispatcher_runs_once`
-/

namespace TensorTorrent

open Dependency List
open Function (update update_apply update_of_ne update_self)

namespace Pooled

open Validate (dependsOn)

----
-- Dispatcher State
----

/- What the dispatcher reads of its options: the bound on
   jobs in flight and which callbacks are present. -/
structure Config where
  maxInflight : Nat
  handleRelease : Bool
  parameterLoad : Bool
  regionCb : Bool

/- Loops of the dispatcher: completions, launches, waiting. -/
inductive Phase where
| drain
| launch
| wait
deriving DecidableEq

/- Instructions that wait to be launched. -/
structure Queues where
  ready : List InstructionId
  resourceQueues : String → List InstructionId

structure State where
  remaining : InstructionId → Nat
  queues : Queues
  resourceBusy : String → Bool
  inflight : Nat
  -- Launched jobs whose completion was not received yet.
  flying : List InstructionId
  scheduleDone : List InstructionId
  finished : Nat
  failure : Bool
  phase : Phase

section

variable (schedule : ExecutableSchedule)

/- The order in which the counters are iterated is free. -/
def start (ready : List InstructionId) : State :=
  { remaining := fun name =>
      (dependsOn schedule name).length
    queues :=
      { ready := ready
        resourceQueues := fun _ => [] }
    resourceBusy := fun _ => false
    inflight := 0, flying := [], scheduleDone := [], finished := 0, failure := false
    phase := .drain }

/- Instructions without dependencies. -/
def sources : List InstructionId :=
  schedule.names.filter (fun name => (dependsOn schedule name).length = 0)

def total : Nat :=
  schedule.instructions.length

def keyOf (name : InstructionId) : Option String :=
  (schedule.byName name).bind orderKey

end

namespace Queues

variable (queues : Queues) (key : String) (name : InstructionId)

def pushReady : Queues :=
  { queues with ready := queues.ready ++ [name] }

/- Append to the queue of an order key. -/
def park : Queues :=
  { queues with
    resourceQueues := update queues.resourceQueues key (queues.resourceQueues key ++ [name]) }

/- Move the head of an order key's queue to `ready`. -/
def popKey : Queues :=
  match queues.resourceQueues key with
  | [] => queues
  | next :: rest =>
    { ready := queues.ready ++ [next], resourceQueues := update queues.resourceQueues key rest }

end Queues

variable (schedule : ExecutableSchedule)

def enqueueReady (busy : String → Bool) (name : InstructionId) (queues : Queues) : Queues :=
  match keyOf schedule name with
  | some key =>
    if busy key then queues.park key name
    else queues.pushReady name
  | none => queues.pushReady name

def dependents : InstructionId → List InstructionId :=
  reverse (dependsOn schedule) schedule.names

variable (s : State) (name : InstructionId)

/- Record an instruction as done and unlock dependents. -/
def markDone : State :=
  let next :=
    unlock (enqueueReady schedule s.resourceBusy) s.remaining s.queues (dependents schedule name)
  { s with
    remaining := next.1, queues := next.2, scheduleDone := s.scheduleDone ++ [name]
    finished := s.finished + 1 }

----
-- Completions
----

/- Free a stream or engine and hand it to the next in its
   queue. -/
def freeKey : Option String → State
| none => s
| some key =>
  { s with resourceBusy := update s.resourceBusy key false, queues := s.queues.popKey key }

/- A completion with an `Ok` result. -/
def receive : State :=
  markDone schedule (freeKey { s with inflight := s.inflight - 1, flying := s.flying.erase name }
      (keyOf schedule name))
    name

/- An error forces the loops to end. -/
def fail : State :=
  { s with failure := true, finished := total schedule }

----
-- Launches
----

/- Ready instructions of one kind, and the others. -/
def takeReady (batched : Instruction → Bool) (ready : List InstructionId) :
    List InstructionId × List InstructionId :=
  (ready.filter (fun name => (schedule.byName name).any batched), ready.filter (fun name =>
    (schedule.byName name).any (fun i => !batched i)))

/- A wave runs on the dispatcher, one name after another. -/
def runWave (wave rest : List InstructionId) : State :=
  wave.foldl (markDone schedule) { s with queues := { s.queues with ready := rest } }

/- Hand a job to a worker pool. -/
def launchJob : State :=
  { s with flying := s.flying ++ [name], inflight := s.inflight + 1 }

/- The gate of an order key, then the job. -/
def submit : State :=
  match keyOf schedule name with
  | some key =>
    if s.resourceBusy key then
      { s with queues := s.queues.park key name }
    else
      launchJob { s with resourceBusy := update s.resourceBusy key true } name
  | none => launchJob s name

/- I/O that is launched ahead of computes. -/
def prefersLaunch (inst : Instruction) : Bool :=
  inst.opcode ∈ [.prefetch, .transfer, .load, .evict] && !isBatchedHandleRelease inst

def isCompute : Bool :=
  (schedule.byName name).any (fun i => i.opcode = .compute)

/-
  `take_ready_compute_wave` and the jobs of the wave: a
  compute whose key is busy is parked, the others are
  launched and mark their keys busy.
-/
def launchComputes : State :=
  (s.queues.ready.filter (isCompute schedule)).foldl (submit schedule)
    { s with
      queues :=
        { s.queues with ready := s.queues.ready.filter (fun name => !isCompute schedule name) } }

/- A launchable compute makes `take_ready_compute_wave`
   return a wave. -/
def hasComputeWave : Bool :=
  (launchComputes schedule s).inflight ≠ s.inflight

/- The oldest ready instruction, or the end of the loop. -/
def launchOldest : State :=
  match s.queues.ready with
  | [] => { s with phase := .wait }
  | name :: rest => submit schedule { s with queues := { s.queues with ready := rest } } name

section

variable (config : Config) (s : State)

/- Computes first when there is a region callback; parked
   computes leave `ready` even without a wave. -/
def launchCompute : State :=
  if config.regionCb then
    if hasComputeWave schedule s then launchComputes schedule s
    else launchOldest schedule (launchComputes schedule s)
  else launchOldest schedule s

/- I/O ahead of computes. -/
def launchPreferred : State :=
  match s.queues.ready.find? (fun name => (schedule.byName name).any prefersLaunch) with
  | some name =>
    submit schedule
      { s with
        queues :=
          { s.queues with ready := s.queues.ready.filter (fun n => n ≠ name) } }
      name
  | none => launchCompute schedule config s

/- Parameter loads as a wave. -/
def launchLoads : State :=
  let loads := takeReady schedule isBatchedParameterLoad s.queues.ready
  if config.parameterLoad && !loads.1.isEmpty then
    runWave schedule s loads.1 loads.2
  else launchPreferred schedule config s

/- One turn of the launch loop. -/
def launchTurn : State :=
  let releases := takeReady schedule isBatchedHandleRelease s.queues.ready
  if ¬ s.inflight < config.maxInflight then
    { s with phase := .wait }
  else if config.handleRelease && !releases.1.isEmpty then
    runWave schedule s releases.1 releases.2
  else launchLoads schedule config s

end

----
-- Steps
----

inductive Event where
| receive (name : InstructionId)
| receiveError (name : InstructionId)
| cancelled
-- No completion is there to receive.
| drained
| launch
-- The callback of a wave fails.
| waveError
| wake
deriving DecidableEq

def step (config : Config) (s : State) (event : Event) : Option State :=
  if s.failure then none
  else
    match s.phase, event with
    | .drain, .receive name =>
      if name ∈ s.flying then
        some (receive schedule s name)
      else none
    | .drain, .receiveError name =>
      if name ∈ s.flying then some (fail schedule s)
      else none
    | .drain, .cancelled => some (fail schedule s)
    | .drain, .drained => some { s with phase := .launch }
    | .launch, .launch => some (launchTurn schedule config s)
    | .launch, .waveError => some (fail schedule s)
    | .wait, .wake =>
      if s.finished < total schedule then
        some { s with phase := .drain }
      else none
    | _, _ => none

variable {s : State} {config : Config} {s' : State}

/- What a step can do. -/
theorem step_cases {schedule : ExecutableSchedule} {event : Event}
    (hStep : step schedule config s event = some s') :
    s.failure = false ∧ (s' = fail schedule s ∨ (∃ name ∈ s.flying, event = .receive name ∧
          s' = receive schedule s name) ∨ (event = .launch ∧ s' = launchTurn schedule config s) ∨
        ∃ phase, s' = { s with phase := phase }) := by
  unfold step at hStep
  split at hStep
  · cases hStep
  · split at hStep <;> grind

----
-- Property and Condition
----

/- Runs on the dispatcher, without a completion. -/
def isBatched (config : Config) (name : InstructionId) : Bool :=
  (schedule.byName name).any (fun inst =>
    config.handleRelease && isBatchedHandleRelease inst ||
      config.parameterLoad && isBatchedParameterLoad inst)

/- Unfinished work that nothing will launch any more. -/
def Stranded (s : State) : Prop :=
  s.finished < total schedule ∧ s.inflight = 0 ∧ s.queues.ready = []

/- The key is taken, or a ready instruction will take it and
   free it by its completion. -/
def Attended (config : Config) (busy : String → Bool) (queues : Queues) (key : String) : Prop :=
  busy key = true ∨ ∃ name ∈ queues.ready, keyOf schedule name = some key ∧
    isBatched schedule config name = false

/- Where an unfinished instruction may wait. -/
def Placed (config : Config) (s : State) (name : InstructionId) : Prop :=
  name ∈ s.queues.ready ∨ name ∈ s.flying ∨ ∃ key, name ∈ s.queues.resourceQueues key ∧
    Attended schedule config s.resourceBusy s.queues key

/-
  When the completion of a key hands the key to a batched
  instruction, nothing is queued behind it or another ready
  instruction of the key will send a completion.
-/
def KeyHandedOn (config : Config) (s : State) : Event → Prop
| .receive name =>
  ∀ key, keyOf schedule name = some key → ∀ next rest, s.queues.resourceQueues key = next :: rest →
    isBatched schedule config next = true →
    rest = [] ∨ ∃ other ∈ s.queues.ready, keyOf schedule other = some key ∧
      isBatched schedule config other = false
| _ => True

----
-- Waiting Places
----

variable {schedule}

/- How often an instruction waits to be launched. -/
def Queues.waiting (schedule : ExecutableSchedule) (queues : Queues) (name : InstructionId) : Nat :=
  queues.ready.count name + match keyOf schedule name with
    | some key => (queues.resourceQueues key).count name
    | none => 0

/- Queues of order keys hold instructions of the key. -/
def Queues.Keyed (schedule : ExecutableSchedule) (queues : Queues) : Prop :=
  ∀ key, ∀ name ∈ queues.resourceQueues key, keyOf schedule name = some key

private theorem count_filter_split (p : InstructionId → Bool) (names : List InstructionId)
    (name : InstructionId) :
    names.count name = (names.filter (fun n => !p n)).count name + (names.filter p).count name := by
  rw [← (filter_append_perm p names).count_eq name, count_append]
  exact Nat.add_comm _ _

private theorem count_cons_eq (names : List InstructionId) (name other : InstructionId) :
    (name :: names).count other = names.count other + if other = name then 1 else 0 := by
  by_cases hOther : other = name
  · simp [hOther]
  · simp [hOther, Ne.symm hOther]

namespace Queues

variable {queues : Queues}

theorem waiting_pushReady (name other : InstructionId) :
    (queues.pushReady name).waiting schedule other = queues.waiting schedule other +
      if other = name then 1 else 0 := by
  simp only [waiting, pushReady, count_append, count_cons_eq, count_nil]
  omega

variable {name : InstructionId} {key : String} (hKeyed : queues.Keyed schedule)

theorem waiting_park (hKey : keyOf schedule name = some key) (other : InstructionId) :
    (queues.park key name).waiting schedule other = queues.waiting schedule other +
      if other = name then 1 else 0 := by
  unfold waiting park
  by_cases hOther : other = name
  · subst hOther
    simp only [hKey, update_self, count_append, count_cons_eq, count_nil, Nat.zero_add]
    exact (Nat.add_assoc _ _ _).symm
  · rw [if_neg hOther]
    cases hOtherKey : keyOf schedule other with
    | none => rfl
    | some otherKey =>
      by_cases hSame : otherKey = key
      · subst hSame
        simp [Ne.symm hOther]
      · simp [update_of_ne hSame]

variable (busy : String → Bool)

theorem waiting_enqueueReady (name other : InstructionId) :
    (enqueueReady schedule busy name queues).waiting schedule other =
      queues.waiting schedule other +
        if other = name then 1 else 0 := by
  unfold enqueueReady
  split
  · next key hKey =>
    split
    · exact waiting_park hKey other
    · exact waiting_pushReady name other
  · exact waiting_pushReady name other

include hKeyed

theorem keyed_park (hKey : keyOf schedule name = some key) :
    (queues.park key name).Keyed schedule := by
  intro other waiting hWaiting
  unfold park at hWaiting
  by_cases hOther : other = key
  · subst hOther
    simp only [update_self] at hWaiting
    rcases mem_append.mp hWaiting with hOld | hNew
    · exact hKeyed other waiting hOld
    · rw [mem_singleton.mp hNew]
      exact hKey
  · simp only [update_of_ne hOther] at hWaiting
    exact hKeyed other waiting hWaiting

theorem keyed_enqueueReady (name : InstructionId) :
    (enqueueReady schedule busy name queues).Keyed schedule := by
  unfold enqueueReady
  split
  · next key hKey =>
    split
    · exact keyed_park hKeyed hKey
    · exact hKeyed
  · exact hKeyed

/- Moving the head of a queue to `ready` loses nothing. -/
theorem waiting_popKey (key : String) (other : InstructionId) :
    (queues.popKey key).waiting schedule other = queues.waiting schedule other := by
  unfold popKey
  split
  · rfl
  rename_i next rest hQueue
  have hNext : keyOf schedule next = some key := hKeyed key next (by simp [hQueue])
  unfold waiting
  rw [count_append, count_cons_eq, count_nil]
  cases hOtherKey : keyOf schedule other with
  | none =>
    have hOther : other ≠ next := by
      intro hSame
      rw [hSame, hNext] at hOtherKey
      cases hOtherKey
    simp [hOther]
  | some otherKey =>
    by_cases hSame : otherKey = key
    · subst hSame
      simp only [hQueue, update_self, count_cons_eq]
      omega
    · have hOther : other ≠ next := by
        intro hEq
        rw [hEq, hNext] at hOtherKey
        exact hSame (Option.some.inj hOtherKey).symm
      simp [update_of_ne hSame, hOther]

theorem keyed_popKey (key : String) : (queues.popKey key).Keyed schedule := by
  unfold popKey
  split
  · exact hKeyed
  rename_i next rest hQueue
  intro other name hName
  by_cases hOther : other = key
  · subst hOther
    simp only [update_self] at hName
    exact hKeyed other name (by simp [hQueue, hName])
  · simp only [update_of_ne hOther] at hName
    exact hKeyed other name hName

omit hKeyed

/- Several instructions enqueued one after another. -/
theorem waiting_foldl (names : List InstructionId) (other : InstructionId) (queues : Queues) :
    (names.foldl (fun q name => enqueueReady schedule busy name q) queues).waiting schedule other =
      queues.waiting schedule other + names.count other := by
  induction names generalizing queues with
  | nil => simp
  | cons name names ih =>
    rw [foldl_cons, ih, waiting_enqueueReady, count_cons_eq]
    omega

end Queues

----
-- Every Instruction Has One Place
----

/-
  Every unlocked instruction is at one place: it waits, is
  in flight, is done, or is in the hand of the dispatcher.
  The busy keys are those of the jobs in flight.
-/
structure Located (schedule : ExecutableSchedule) (hand : List InstructionId)
    (s : State) : Prop where
  progress : Progress (dependsOn schedule) schedule.names s.scheduleDone
    (fun name => s.queues.waiting schedule name + s.flying.count name + hand.count name)
    s.remaining
  keyed : s.queues.Keyed schedule
  inflight_eq : s.inflight = s.flying.length
  finished_eq : s.finished = s.scheduleDone.length
  busy_iff : ∀ key, s.resourceBusy key = true ↔ key ∈ s.flying.filterMap (keyOf schedule)
  flying_keys : (s.flying.filterMap (keyOf schedule)).Nodup

private theorem dependents_reverses (schedule : ExecutableSchedule) :
    Reverses (dependsOn schedule) (dependents schedule) schedule.names :=
  reverse_reverses _ schedule.nodup_names

namespace Located

variable {hand : List InstructionId} {s : State}

/- Before the first step exactly the sources are ready. -/
theorem start {ready : List InstructionId} (hReady : ready.Perm (sources schedule)) :
    Located schedule [] (start schedule ready) := by
  have hCount : ∀ name, ready.count name =
      if name ∈ schedule.names ∧ (dependsOn schedule name).length = 0
      then 1 else 0 := by
    intro name
    rw [hReady.count_eq, sources, (schedule.nodup_names.filter _).count]
    simp only [mem_filter, decide_eq_true_eq]
  have hWaiting : ∀ name, (Pooled.start schedule ready).queues.waiting schedule
      name = ready.count name := by
    intro name
    unfold Queues.waiting Pooled.start
    cases keyOf schedule name <;> simp
  constructor
  case progress =>
    refine .initial ?_ ?_
    · intro name hName
      rw [hWaiting, hCount name]
      simp [Pooled.start, hName]
    · intro name hName
      rw [hWaiting, hCount name]
      simp [Pooled.start, hName]
  case keyed => exact fun key name hName => by cases hName
  case inflight_eq => rfl
  case finished_eq => rfl
  case busy_iff => exact fun key => by simp [Pooled.start]
  case flying_keys => exact nodup_nil

theorem setPhase (hLocated : Located schedule hand s) (phase : Phase) :
    Located schedule hand { s with phase := phase } :=
  { hLocated with }

/- Taking instructions out of `ready`. -/
theorem take (hLocated : Located schedule hand s) (taken ready : List InstructionId)
    (hTaken : ∀ name, s.queues.ready.count name = ready.count name + taken.count name) :
    Located schedule (taken ++ hand) { s with queues := { s.queues with ready := ready } } := by
  refine { hLocated with progress := ?_ }
  refine hLocated.progress.congr_pend ?_
  intro name
  simp only [Queues.waiting, count_append]
  rw [hTaken name]
  omega

variable {name : InstructionId}

/- An instruction in hand is recorded as done. -/
theorem markDone (hLocated : Located schedule (name :: hand) s) :
    Located schedule hand (markDone schedule s name) := by
  have hInHand : 0 < s.queues.waiting schedule name +
      s.flying.count name + (name :: hand).count name := by
    simp
  have hFinish := hLocated.progress.finish (dependents_reverses schedule) hInHand
  unfold Pooled.markDone
  rw [unlock_eq]
  refine { hLocated with progress := ?_, keyed := ?_, finished_eq := ?_ }
  · refine hFinish.congr_pend ?_
    intro other
    simp only [Queues.waiting_foldl, count_cons_eq]
    split <;> omega
  · exact foldlRecOn _ _ hLocated.keyed (fun _ hKeyed next _ =>
      Queues.keyed_enqueueReady hKeyed _ next)
  · simp only [length_append, length_singleton]
    rw [hLocated.finished_eq]

/- A wave in hand is recorded one by one. -/
theorem markWave (wave : List InstructionId) (hLocated : Located schedule (wave ++ hand) s) :
    Located schedule hand (wave.foldl (Pooled.markDone schedule) s) := by
  induction wave generalizing s with
  | nil => exact hLocated
  | cons name wave ih => exact ih hLocated.markDone

private theorem launchJob {busy : String → Bool} (hLocated : Located schedule (name :: hand) s)
    (hBusy : ∀ key, busy key = true ↔ s.resourceBusy key = true ∨ keyOf schedule name = some key)
    (hFree : ∀ key, keyOf schedule name = some key → s.resourceBusy key = false) :
    Located schedule hand (launchJob { s with resourceBusy := busy } name) := by
  have hKeys : (s.flying ++ [name]).filterMap (keyOf schedule) =
      s.flying.filterMap (keyOf schedule) ++ (keyOf schedule name).toList := by
    cases hKey : keyOf schedule name <;> simp [hKey]
  refine { hLocated with progress := ?_, inflight_eq := ?_, busy_iff := ?_, flying_keys := ?_ }
  · refine hLocated.progress.congr_pend ?_
    simp only [Pooled.launchJob, count_append, count_cons, count_nil]
    omega
  · simp [Pooled.launchJob, hLocated.inflight_eq]
  · intro key
    simp only [Pooled.launchJob]
    rw [hBusy key, hKeys, mem_append, hLocated.busy_iff key, Option.mem_toList]
  · simp only [Pooled.launchJob]
    rw [hKeys]
    refine List.Nodup.append hLocated.flying_keys ?_ ?_
    · cases keyOf schedule name <;> simp
    · intro key hFlying hKey
      have hTaken := (hLocated.busy_iff key).mpr hFlying
      rw [hFree key (Option.mem_toList.mp hKey)] at hTaken
      cases hTaken

/- An instruction in hand is parked or launched. -/
theorem submit (hLocated : Located schedule (name :: hand) s) :
    Located schedule hand (submit schedule s name) := by
  unfold Pooled.submit
  split
  · next key hKey =>
    split
    · refine { hLocated with progress := ?_, keyed := Queues.keyed_park hLocated.keyed hKey }
      refine hLocated.progress.congr_pend ?_
      intro other
      simp only [Queues.waiting_park hKey, count_cons_eq]
      omega
    · next hBusy =>
      apply hLocated.launchJob
      · intro other
        rw [hKey]
        by_cases hOther : other = key
        · simp [hOther]
        · simp [hOther, Ne.symm hOther]
      · intro other hOther
        rw [hKey] at hOther
        cases hOther
        simpa using hBusy
  · next hKey =>
    apply hLocated.launchJob
    · simp [hKey]
    · intro other hOther
      rw [hKey] at hOther
      cases hOther

/- Instructions in hand are submitted one by one. -/
theorem submitAll (names : List InstructionId) (hLocated : Located schedule (names ++ hand) s) :
    Located schedule hand (names.foldl (Pooled.submit schedule) s) := by
  induction names generalizing s with
  | nil => exact hLocated
  | cons name names ih => exact ih hLocated.submit

/- A received completion frees the key of its job. -/
theorem free (hLocated : Located schedule hand s) (hFlying : name ∈ s.flying) :
    Located schedule (name :: hand) (freeKey
      { s with inflight := s.inflight - 1, flying := s.flying.erase name }
      (keyOf schedule name)) := by
  have hPerm : s.flying.Perm (name :: s.flying.erase name) := perm_cons_erase hFlying
  have hCount := fun other => (hPerm.count_eq other).trans (count_cons_eq _ name other)
  have hInflight : s.inflight - 1 = (s.flying.erase name).length := by
    rw [hLocated.inflight_eq, hPerm.length_eq]
    rfl
  have hKeys := hPerm.filterMap (keyOf schedule)
  have hNodup := hKeys.nodup_iff.mp hLocated.flying_keys
  cases hKey : keyOf schedule name with
  | none =>
    rw [filterMap_cons_none hKey] at hKeys hNodup
    refine ⟨?_, hLocated.keyed, hInflight, hLocated.finished_eq, ?_, hNodup⟩
    · refine hLocated.progress.congr_pend ?_
      intro other
      simp only [freeKey, hCount, count_cons_eq]
      omega
    · intro key
      exact (hLocated.busy_iff key).trans hKeys.mem_iff
  | some key =>
    rw [filterMap_cons_some hKey] at hKeys hNodup
    rw [nodup_cons] at hNodup
    refine ⟨?_, Queues.keyed_popKey hLocated.keyed key,
      hInflight, hLocated.finished_eq, ?_, hNodup.2⟩
    · refine hLocated.progress.congr_pend ?_
      intro other
      simp only [freeKey, Queues.waiting_popKey hLocated.keyed, hCount, count_cons_eq]
      omega
    · intro other
      simp only [freeKey, update_apply]
      by_cases hOther : other = key
      · subst hOther
        simp [hNodup.1]
      · rw [if_neg hOther, hLocated.busy_iff other, hKeys.mem_iff]
        simp [hOther]

theorem receive (hLocated : Located schedule [] s) (hFlying : name ∈ s.flying) :
    Located schedule [] (receive schedule s name) :=
  (hLocated.free hFlying).markDone

/- A waiting instruction is one of the schedule. -/
theorem known (hLocated : Located schedule hand s) (hReady : name ∈ s.queues.ready) :
    ∃ inst, schedule.byName name = some inst := by
  have hCount : 0 < s.queues.ready.count name := count_pos_iff.mpr hReady
  have hPend : 0 < s.queues.waiting schedule name + s.flying.count name + hand.count name := by
    unfold Queues.waiting
    omega
  have hName := hLocated.progress.pending_mem_nodes hPend
  rcases (schedule.mem_names name).mp hName with ⟨inst, hInst, hSame⟩
  rw [← Option.isSome_iff_exists]
  unfold ExecutableSchedule.byName
  rw [find?_isSome]
  exact ⟨inst, hInst, by simp [hSame]⟩

section

variable (hLocated : Located schedule [] s)

include hLocated

/- A wave is taken out of `ready` and recorded. -/
theorem runWave (batched : Instruction → Bool) :
    Located schedule [] (runWave schedule s (takeReady schedule batched s.queues.ready).1
      (takeReady schedule batched s.queues.ready).2) := by
  apply markWave
  apply hLocated.take
  intro name
  have hRest : (takeReady schedule batched s.queues.ready).2 = s.queues.ready.filter
      (fun n => !(schedule.byName n).any batched) := by
    apply filter_congr
    intro other hOther
    rcases hLocated.known hOther with ⟨inst, hInst⟩
    simp [hInst]
  rw [hRest]
  exact count_filter_split _ _ name

/- The computes are taken out of `ready` and submitted. -/
theorem launchComputes : Located schedule [] (launchComputes schedule s) := by
  apply submitAll
  apply hLocated.take
  exact count_filter_split _ _

theorem launchOldest : Located schedule [] (launchOldest schedule s) := by
  unfold Pooled.launchOldest
  split
  · exact hLocated.setPhase .wait
  rename_i name rest hReady
  apply submit
  apply hLocated.take [name]
  rw [hReady]
  simp only [count_cons, count_nil]
  omega

/- An instruction found in `ready` is there once. -/
private theorem takeFound (hReady : name ∈ s.queues.ready) : Located schedule [name]
    { s with
      queues :=
        { s.queues with ready := s.queues.ready.filter (fun n => n ≠ name) } } := by
  have hName : name ∈ schedule.names := by
    apply hLocated.progress.pending_mem_nodes
    have hCount := count_pos_iff.mpr hReady
    unfold Queues.waiting
    omega
  have hPlace := hLocated.progress.located name hName
  have hOnce : s.queues.ready.count name ≤ 1 := by
    have hOne : (if s.remaining name = 0 then 1 else 0) ≤ 1 := by split <;> omega
    unfold Queues.waiting at hPlace
    omega
  have hPos := count_pos_iff.mpr hReady
  apply hLocated.take [name]
  intro other
  by_cases hOther : other = name
  · subst hOther
    have hGone : (s.queues.ready.filter (fun n => n ≠ other)).count other = 0 := by
      rw [count_eq_zero]
      simp
    rw [count_singleton_self]
    omega
  · rw [count_filter (by simpa using hOther)]
    simp [Ne.symm hOther]

theorem launchTurn (config : Config) : Located schedule [] (launchTurn schedule config s) := by
  simp only [Pooled.launchTurn]
  split
  · exact hLocated.setPhase .wait
  split
  · exact hLocated.runWave isBatchedHandleRelease
  simp only [Pooled.launchLoads]
  split
  · exact hLocated.runWave isBatchedParameterLoad
  unfold Pooled.launchPreferred
  split
  · next name hFound =>
    apply submit
    exact hLocated.takeFound (mem_of_find?_eq_some hFound)
  · unfold Pooled.launchCompute
    split
    · split
      · exact hLocated.launchComputes
      · exact hLocated.launchComputes.launchOldest
    · exact hLocated.launchOldest

end

end Located

----
-- Queued Keys Are Attended
----

/-
  A key with a queue is attended, or an instruction of the
  key is in the hand of the dispatcher.
-/
def Served (schedule : ExecutableSchedule) (config : Config) (hand : List InstructionId)
    (busy : String → Bool) (queues : Queues) : Prop :=
  ∀ key, queues.resourceQueues key ≠ [] → Attended schedule config busy queues key ∨
    ∃ name ∈ hand, keyOf schedule name = some key

/- The same for the keys and queues of a state. -/
abbrev ServedIn (schedule : ExecutableSchedule) (config : Config) (hand : List InstructionId)
    (s : State) : Prop :=
  Served schedule config hand s.resourceBusy s.queues

namespace Served

variable {hand : List InstructionId} {busy : String → Bool} {queues : Queues}

section

variable (hServed : Served schedule config hand busy queues)

include hServed

private theorem pushReady (name : InstructionId) :
    Served schedule config hand busy (queues.pushReady name) := by
  intro key hQueue
  rcases hServed key hQueue with (hBusy | ⟨other, hReady, hOther⟩) | hHand
  · exact .inl (.inl hBusy)
  · exact .inl (.inr ⟨other, mem_append_left _ hReady, hOther⟩)
  · exact .inr hHand

private theorem park {key : String} (hBusy : busy key = true) (name : InstructionId) :
    Served schedule config hand busy (queues.park key name) := by
  intro other hQueue
  by_cases hOther : other = key
  · subst hOther
    exact .inl (.inl hBusy)
  · apply hServed other
    simpa only [Queues.park, update_of_ne hOther] using hQueue

private theorem enqueueReady (name : InstructionId) :
    Served schedule config hand busy (enqueueReady schedule busy name queues) := by
  unfold Pooled.enqueueReady
  split
  · split
    · next hBusy => exact hServed.park hBusy name
    · exact hServed.pushReady name
  · exact hServed.pushReady name

end

/- Unlocking dependents parks only behind busy keys. -/
theorem markDone (hServed : ServedIn schedule config hand s) (name : InstructionId) :
    ServedIn schedule config hand (markDone schedule s name) := by
  simp only [Pooled.markDone, unlock_eq]
  exact foldlRecOn _ _ hServed (fun _ hQueues next _ => hQueues.enqueueReady next)

theorem markWave (wave : List InstructionId) (hServed : ServedIn schedule config hand s) :
    ServedIn schedule config hand (wave.foldl (Pooled.markDone schedule) s) :=
  foldlRecOn wave _ hServed (fun _ hServed name _ => hServed.markDone name)

/- Instructions taken out of `ready` are in hand. -/
theorem take (hServed : Served schedule config [] busy queues) {taken ready : List InstructionId}
    (hTaken : ∀ name ∈ queues.ready, name ∈ ready ∨ name ∈ taken) :
    Served schedule config taken busy { queues with ready := ready } := by
  intro key hQueue
  rcases hServed key hQueue with (hBusy | ⟨name, hReady, hName⟩) | ⟨_, hNone, _⟩
  · exact .inl (.inl hBusy)
  · rcases hTaken name hReady with hLeft | hHand
    · exact .inl (.inr ⟨name, hLeft, hName⟩)
    · exact .inr ⟨name, hHand, hName.1⟩
  · cases hNone

variable {batched : Instruction → Bool}

/- Taking batched instructions leaves the attending ones. -/
theorem takeBatched (hServed : Served schedule config [] busy queues)
    (hBatched : ∀ name inst, schedule.byName name = some inst → batched inst = true →
        isBatched schedule config name = true) : Served schedule config [] busy
      { queues with ready := (takeReady schedule batched queues.ready).2 } := by
  intro key hQueue
  rcases hServed key hQueue with (hBusy | ⟨name, hReady, hKey, hAttends⟩) | ⟨_, hNone, _⟩
  · exact .inl (.inl hBusy)
  · refine .inl (.inr ⟨name, ?_, hKey, hAttends⟩)
    rcases Option.bind_eq_some_iff.mp hKey with ⟨inst, hInst, _⟩
    refine mem_filter.mpr ⟨hReady, ?_⟩
    cases hKind : batched inst with
    | false => simp [hInst, hKind]
    | true =>
      rw [hBatched name inst hInst hKind] at hAttends
      cases hAttends
  · cases hNone

/- A submitted instruction leaves its key busy. -/
theorem submit {name : InstructionId} (hServed : ServedIn schedule config (name :: hand) s) :
    ServedIn schedule config hand (submit schedule s name) := by
  -- Only the key of the instruction itself is at stake.
  have hOthers : ∀ key, keyOf schedule name ≠ some key → s.queues.resourceQueues key ≠ [] →
      Attended schedule config s.resourceBusy s.queues key ∨
        ∃ other ∈ hand, keyOf schedule other = some key := by
    intro key hKey hQueue
    rcases hServed key hQueue with hAttended | ⟨other, hHand, hOther⟩
    · exact .inl hAttended
    · rcases mem_cons.mp hHand with rfl | hLeft
      · exact absurd hOther hKey
      · exact .inr ⟨other, hLeft, hOther⟩
  unfold Pooled.submit
  split
  · next key hKey =>
    split
    · next hBusy =>
      intro other hQueue
      by_cases hOther : other = key
      · subst hOther
        exact .inl (.inl hBusy)
      apply hOthers other
      · rw [hKey]
        simpa using Ne.symm hOther
      · simpa only [Queues.park, update_of_ne hOther] using hQueue
    · intro other hQueue
      by_cases hOther : other = key
      · subst hOther
        exact .inl (.inl (update_self _ _ _))
      have hKept := hOthers other (by rw [hKey]; simpa using Ne.symm hOther) hQueue
      rcases hKept with (hBusy | hReady) | hHand
      · left
        left
        simp only [launchJob]
        rw [update_of_ne hOther]
        exact hBusy
      · exact .inl (.inr hReady)
      · exact .inr hHand
  · next hKey =>
    intro other hQueue
    exact hOthers other (by rw [hKey]; simp) hQueue

theorem submitAll (names : List InstructionId) (hServed : ServedIn schedule config names s) :
    ServedIn schedule config [] (names.foldl (Pooled.submit schedule) s) := by
  induction names generalizing s with
  | nil => exact hServed
  | cons name names ih => exact ih hServed.submit

section Turns

variable {s : State} (hServed : ServedIn schedule config [] s)

include hServed

theorem runWave (hBatched : ∀ name inst, schedule.byName name = some inst → batched inst = true →
      isBatched schedule config name = true) :
    ServedIn schedule config [] (runWave schedule s (takeReady schedule batched s.queues.ready).1
      (takeReady schedule batched s.queues.ready).2) :=
  markWave _ (hServed.takeBatched hBatched)

theorem launchComputes : ServedIn schedule config [] (launchComputes schedule s) := by
  apply submitAll
  apply hServed.take
  intro name hReady
  cases hKind : isCompute schedule name with
  | true => exact .inr (mem_filter.mpr ⟨hReady, hKind⟩)
  | false => exact .inl (mem_filter.mpr ⟨hReady, by simp [hKind]⟩)

theorem launchOldest : ServedIn schedule config [] (launchOldest schedule s) := by
  unfold Pooled.launchOldest
  split
  · exact hServed
  rename_i name rest hReady
  apply submit
  apply hServed.take
  intro other hOther
  rw [hReady] at hOther
  rcases mem_cons.mp hOther with rfl | hRest
  · exact .inr (mem_singleton_self _)
  · exact .inl hRest

theorem launchTurn : ServedIn schedule config [] (launchTurn schedule config s) := by
  simp only [Pooled.launchTurn]
  split
  · exact hServed
  split
  · next hWave =>
    apply hServed.runWave
    intro name inst hInst hBatched
    simp only [Bool.and_eq_true] at hWave
    simp [isBatched, hInst, hBatched, hWave.1]
  · simp only [Pooled.launchLoads]
    split
    · next hWave =>
      apply hServed.runWave
      intro name inst hInst hBatched
      simp only [Bool.and_eq_true] at hWave
      simp [isBatched, hInst, hBatched, hWave.1]
    · unfold Pooled.launchPreferred
      split
      · next name hFound =>
        apply submit
        apply hServed.take
        intro other hOther
        by_cases hSame : other = name
        · exact .inr (by simp [hSame])
        · exact .inl (mem_filter.mpr ⟨hOther, by simpa using hSame⟩)
      · unfold Pooled.launchCompute
        split
        · split
          · exact hServed.launchComputes
          · exact hServed.launchComputes.launchOldest
        · exact hServed.launchOldest

/- A completion hands its key on. -/
theorem receive (hKeyed : s.queues.Keyed schedule) {name : InstructionId}
    (hHandedOn : KeyHandedOn schedule config s (.receive name)) :
    ServedIn schedule config [] (receive schedule s name) := by
  apply markDone
  cases hKey : keyOf schedule name with
  | none => exact hServed
  | some key =>
    intro other hQueue
    simp only [freeKey, Queues.popKey] at hQueue ⊢
    cases hHead : s.queues.resourceQueues key with
    | nil =>
      rw [hHead] at hQueue
      have hOther : other ≠ key := by
        intro hSame
        rw [hSame] at hQueue
        exact hQueue hHead
      rcases hServed other hQueue with (hBusy | hReady) | hHand
      · left
        left
        rw [update_of_ne hOther]
        exact hBusy
      · exact .inl (.inr hReady)
      · exact .inr hHand
    | cons next rest =>
      rw [hHead] at hQueue
      simp only at hQueue
      by_cases hOther : other = key
      · subst hOther
        rw [update_self] at hQueue
        have hNext : keyOf schedule next = some other := hKeyed other next (by simp [hHead])
        left
        right
        cases hBatched : isBatched schedule config next with
        | false => exact ⟨next, by simp, hNext, hBatched⟩
        | true =>
          rcases hHandedOn other hKey next rest hHead hBatched with
            hNone | ⟨attending, hReady, hAttends⟩
          · exact absurd hNone hQueue
          · exact ⟨attending, mem_append_left _ hReady, hAttends⟩
      · rw [update_of_ne hOther] at hQueue
        rcases hServed other hQueue with (hBusy | ⟨attending, hReady, hAttends⟩) | hHand
        · left
          left
          rw [update_of_ne hOther]
          exact hBusy
        · exact .inl (.inr ⟨attending, mem_append_left _ hReady, hAttends⟩)
        · exact .inr hHand

end Turns

end Served

----
-- Nothing Is Stranded
----

/- A run that has not failed tracks every instruction. -/
def Tracked (schedule : ExecutableSchedule) (config : Config) (s : State) : Prop :=
  (s.failure = true ∧ s.finished = total schedule) ∨ (Located schedule [] s ∧
    Served schedule config [] s.resourceBusy s.queues)

theorem Tracked.step (event : Event) (hTracked : Tracked schedule config s)
    (hHandedOn : KeyHandedOn schedule config s event)
    (hStep : Pooled.step schedule config s event = some s') : Tracked schedule config s' := by
  obtain ⟨hRunning, hNext⟩ := step_cases hStep
  rcases hTracked with ⟨hFailed, _⟩ | ⟨hLocated, hServed⟩
  · rw [hFailed] at hRunning
    cases hRunning
  rcases hNext with rfl | ⟨name, hFlying, rfl, rfl⟩ | ⟨_, rfl⟩ | ⟨phase, rfl⟩
  · exact .inl ⟨rfl, rfl⟩
  · exact .inr ⟨hLocated.receive hFlying, hServed.receive hLocated.keyed hHandedOn⟩
  · exact .inr ⟨hLocated.launchTurn config, hServed.launchTurn⟩
  · exact .inr ⟨hLocated.setPhase phase, hServed⟩

/- Without jobs in flight and ready instructions no queue
   is left and everything is done. -/
theorem Located.finished_of_idle (hAccepted : Accepted schedule) (hLocated : Located schedule [] s)
    (hServed : ServedIn schedule config [] s) (hInflight : s.inflight = 0)
    (hReady : s.queues.ready = []) : s.finished = total schedule := by
  have hFlying : s.flying = [] := by
    rw [hLocated.inflight_eq] at hInflight
    exact length_eq_zero_iff.mp hInflight
  have hQueues : ∀ key, s.queues.resourceQueues key = [] := by
    intro key
    by_contra hQueue
    rcases hServed key hQueue with (hBusy | ⟨name, hName, _⟩) | ⟨name, hName, _⟩
    · rw [hLocated.busy_iff, hFlying] at hBusy
      cases hBusy
    · rw [hReady] at hName
      cases hName
    · cases hName
  have hNone : Progress (dependsOn schedule) schedule.names s.scheduleDone (fun _ => 0)
      s.remaining := by
    refine hLocated.progress.congr_pend ?_
    intro name
    unfold Queues.waiting
    rw [hReady, hFlying]
    cases keyOf schedule name with
    | none => rfl
    | some key => simp [hQueues key]
  have hPerm := hNone.complete_perm schedule.nodup_names hAccepted.schedulable
  rw [hLocated.finished_eq, hPerm.length_eq]
  unfold ExecutableSchedule.names total
  rw [hAccepted.nodup_names.dedup, length_map]

/- An unfinished instruction whose dependencies are done is
   at one of the places. -/
theorem Located.placed (hLocated : Located schedule [] s)
    (hServed : ServedIn schedule config [] s) {name : InstructionId}
    (hName : name ∈ schedule.names) (hUndone : name ∉ s.scheduleDone)
    (hDeps : ∀ dep ∈ dependsOn schedule name, dep ∈ s.scheduleDone) :
    Placed schedule config s name := by
  have hZero : s.remaining name = 0 := by
    rw [hLocated.progress.counted name hName, countP_eq_zero]
    intro dep hDep
    simpa using hDeps dep hDep
  have hPlace := hLocated.progress.located name hName
  rw [if_pos hZero, count_eq_zero_of_not_mem hUndone, count_nil] at hPlace
  unfold Queues.waiting at hPlace
  by_cases hReady : name ∈ s.queues.ready
  · exact .inl hReady
  by_cases hFlying : name ∈ s.flying
  · exact .inr (.inl hFlying)
  rw [count_eq_zero_of_not_mem hReady, count_eq_zero_of_not_mem hFlying] at hPlace
  cases hKey : keyOf schedule name with
  | none =>
    rw [hKey] at hPlace
    simp at hPlace
  | some key =>
    rw [hKey] at hPlace
    have hQueued : name ∈ s.queues.resourceQueues key := by
      apply count_pos_iff.mp
      simp only at hPlace
      omega
    refine .inr (.inr ⟨key, hQueued, ?_⟩)
    rcases hServed key (ne_nil_of_mem hQueued) with hAttended | ⟨_, hHand, _⟩
    · exact hAttended
    · cases hHand

/-
  When completions never hand a key to a batched instruction
  in front of others, no instruction is stranded, whatever
  the schedule, the options and the order of completions.
-/
theorem dispatcher_never_strands (schedule : ExecutableSchedule) (hAccepted : Accepted schedule)
    (config : Config) (ready : List InstructionId) (hReady : ready.Perm (sources schedule))
    (s : State)
    (hReach : Transition.Reachable (step schedule config) (KeyHandedOn schedule config)
      (start schedule ready) s) :
    ¬ Stranded schedule s ∧ (s.failure = false → ∀ name ∈ schedule.names, name ∉ s.scheduleDone →
      (∀ dep ∈ dependsOn schedule name, dep ∈ s.scheduleDone) →
      Placed schedule config s name) := by
  have hStart : Tracked schedule config (start schedule ready) :=
    .inr ⟨.start hReady, fun key hQueue => absurd rfl hQueue⟩
  have hTracked : Tracked schedule config s := hReach.invariant (Tracked schedule config)
    (fun _ event _ hBefore hHandedOn hStep => hBefore.step event hHandedOn hStep)
    hStart
  rcases hTracked with ⟨hFailed, hFinished⟩ | ⟨hLocated, hServed⟩
  · constructor
    · rintro ⟨hLess, _⟩
      omega
    · intro hRunning
      rw [hFailed] at hRunning
      cases hRunning
  · constructor
    · rintro ⟨hLess, hInflight, hEmpty⟩
      have hAll := hLocated.finished_of_idle hAccepted hServed hInflight hEmpty
      omega
    · intro _ name hName hUndone hDeps
      exact hLocated.placed hServed hName hUndone hDeps

/- A spill and two releases on one lifetime stream; the
   releases wait for a compute on the host. -/
def lifetimeStream : ExecutableSchedule :=
  { instructions :=
    [{ opcode := .evict, name := "spill::a", resource := "cuda:0", inputs := ["a"]
       streamId := some "cuda:0::lifetime"
       attributes := [("kind", .string "activation_spill")] },
      { opcode := .compute, name := "compute::b", resource := "cpu", executableRef := some "b"
        outputs := ["b"], streamId := some "cpu::compute" },
      { opcode := .release, name := "release::x", resource := "cuda:0"
        dependsOn := ["compute::b"], inputs := ["x"], streamId := some "cuda:0::lifetime" },
      { opcode := .release, name := "release::y", resource := "cuda:0"
        dependsOn := ["compute::b"], inputs := ["y"], streamId := some "cuda:0::lifetime" }] }

/- Only the batched handle release is installed. -/
def releaseConfig : Config :=
  { maxInflight := 64, handleRelease := true, parameterLoad := false, regionCb := false }

/- Both jobs are launched, then the dispatcher waits. -/
def launchBoth : List Event :=
  [.drained, .launch, .launch, .launch, .wake]

/- One completion, then everything that can be launched. -/
def completion (name : InstructionId) : List Event :=
  [.receive name, .drained, .launch]

theorem lifetimeStream_accepted : Accepted lifetimeStream :=
  ⟨.listed lifetimeStream, by decide⟩

/- The spill completes first: both releases run. -/
theorem spill_first_finishes : ∃ s, Transition.run (step lifetimeStream releaseConfig)
      (start lifetimeStream ["spill::a", "compute::b"])
      (launchBoth ++ completion "spill::a" ++ [.wake] ++ completion "compute::b") = some s ∧
    s.finished = 4 ∧ ¬ Stranded lifetimeStream s := by
  refine ⟨_, rfl, rfl, ?_⟩
  refine (dispatcher_never_strands lifetimeStream lifetimeStream_accepted releaseConfig
    ["spill::a", "compute::b"] (List.Perm.refl _) _ ?_).1
  apply Transition.Reachable.of_run
    (launchBoth ++ completion "spill::a" ++ [.wake] ++ completion "compute::b") _ rfl
  iterate 5
    refine ⟨trivial, ?_⟩
    rintro _ ⟨⟩
  constructor
  · intro key _ next rest hQueue
    cases hQueue
  rintro _ ⟨⟩
  iterate 3
    refine ⟨trivial, ?_⟩
    rintro _ ⟨⟩
  constructor
  · intro key hKey
    cases hKey
  rintro _ ⟨⟩
  iterate 2
    refine ⟨trivial, ?_⟩
    rintro _ ⟨⟩
  trivial

/- The compute completes first: the spill hands the stream
   to one release and the other one stays queued. -/
theorem compute_first_strands_release :
    Accepted lifetimeStream ∧ ∃ s, Transition.run (step lifetimeStream releaseConfig)
            (start lifetimeStream ["spill::a", "compute::b"])
            (launchBoth ++ completion "compute::b" ++ [.wake] ++ completion "spill::a") = some s ∧
          Stranded lifetimeStream s ∧
          s.queues.resourceQueues "stream:cuda:0::lifetime" = ["release::y"] := by
  refine ⟨lifetimeStream_accepted, _, rfl, ⟨?_, rfl, rfl⟩, rfl⟩
  decide

----
-- Once and in Order
----

/-
  Whatever the order of completions: an instruction is in
  flight once and after its dependencies are done, and a run
  that ends without a failure has done all of them in order.
-/
theorem dispatcher_runs_once (schedule : ExecutableSchedule) (config : Config)
    (ready : List InstructionId) (hReady : ready.Perm (sources schedule)) (s : State)
    (hReach : Transition.Reachable (step schedule config) Transition.always
      (start schedule ready) s) (hRunning : s.failure = false) :
    (s.scheduleDone ++ s.flying).Nodup ∧ Ordered (dependsOn schedule) s.scheduleDone ∧
      (∀ name ∈ s.flying, ∀ dep ∈ dependsOn schedule name, dep ∈ s.scheduleDone) ∧
      (s.finished = total schedule → s.scheduleDone.Perm schedule.names) := by
  have hTracked : s.failure = true ∨ Located schedule [] s := by
    refine hReach.invariant (fun s => s.failure = true ∨ Located schedule [] s) ?_
      (.inr (.start hReady))
    intro s event s' hBefore _ hStep
    rcases step_cases hStep with ⟨hRunning, hNext⟩
    have hLocated := hBefore.resolve_left (by simp [hRunning])
    rcases hNext with rfl | ⟨name, hFlying, _, rfl⟩ | ⟨_, rfl⟩ | ⟨phase, rfl⟩
    · exact .inl rfl
    · exact .inr (hLocated.receive hFlying)
    · exact .inr (hLocated.launchTurn config)
    · exact .inr (hLocated.setPhase phase)
  have hLocated := hTracked.resolve_left (by simp [hRunning])
  have hProgress := hLocated.progress
  refine ⟨?_, hProgress.ordered, ?_, ?_⟩
  · rw [nodup_iff_count_le_one]
    intro name
    rw [count_append]
    by_cases hName : name ∈ schedule.names
    · have hPlace := hProgress.located name hName
      split at hPlace <;> omega
    · have hNone := hProgress.outside name hName
      omega
  · intro name hFlying
    refine hProgress.deps_done ?_
    have hCount := count_pos_iff.mpr hFlying
    omega
  · intro hFinished
    have hSubperm := hProgress.nodup.subperm (fun _ hDone => hProgress.mem_nodes hDone)
    refine hSubperm.perm_of_length_le ?_
    rw [← hLocated.finished_eq, hFinished, ExecutableSchedule.names, total]
    exact (dedup_sublist _).length_le.trans_eq (length_map _)

/- The spill completes first, then the compute, and all four
   instructions have run. -/
theorem lifetime_stream_runs_once : ∃ s, Transition.run (step lifetimeStream releaseConfig)
    (start lifetimeStream ["spill::a", "compute::b"])
      (launchBoth ++ completion "spill::a" ++ [.wake] ++ completion "compute::b") = some s ∧
    (s.scheduleDone ++ s.flying).Nodup ∧ s.scheduleDone.Perm lifetimeStream.names := by
  refine ⟨_, rfl, ?_⟩
  have hOnce := dispatcher_runs_once lifetimeStream releaseConfig ["spill::a", "compute::b"]
    (.refl _) _ (.of_run_always
      (launchBoth ++ completion "spill::a" ++ [.wake] ++ completion "compute::b") rfl) rfl
  exact ⟨hOnce.1, hOnce.2.2.2 rfl⟩

end Pooled

end TensorTorrent
