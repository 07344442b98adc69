import TensorTorrent.Library.Transition

/-
  This file models the accounting of inference requests
  (`serve/app.py`): admission, the slot of the model, the
  future with its callback, and the outcome. A future can be
  cancelled before it is picked up by a worker.

  Main declarations:
    * `InferenceService.request_accounting_exact`
-/

namespace TensorTorrent

open Transition
open Function (update)

/- Where a call of `infer` is. It is `refused` without a slot
   and `failed` without a future. -/
inductive InferPhase where
| idle
| admitted
| refused
| acquired
| rejected
| failed
| submitted
| registered
| waiting
| ended
deriving DecidableEq

/- The future: picked up by a worker, past `task_started`,
   past the release of the slot, finished. -/
inductive FutureState where
| absent
| pending
| picked
| started
| freed
| done
| cancelled
deriving DecidableEq

/- `_finished`: its first part is the release. -/
inductive CallbackState where
| unset
| set
| run
| popped
deriving DecidableEq

inductive RequestOutcome where
| success
| failed
| cancelled
deriving DecidableEq

structure Request where
  rid : String
  phase : InferPhase
  future : FutureState
  callback : CallbackState
  taskStarted : Bool
  released : Nat

/- Admitted, neither failed before submission nor done with
   its callback. -/
@[grind]
def Request.Live (r : Request) : Prop :=
  r.phase ≠ .idle ∧ r.phase ≠ .refused ∧ r.phase ≠ .failed ∧ r.callback ≠ .popped

@[grind]
def Request.Registered (r : Request) : Prop :=
  r.phase = .registered ∨ r.phase = .waiting ∨ r.phase = .ended

@[grind]
def Request.Over (r : Request) : Prop :=
  r.phase = .refused ∨ r.phase = .failed ∨ r.phase = .ended

/- The service, with the live calls and the outcome of each
   call that is over. -/
structure InferenceService (C : Type) where
  ready : Bool
  maxQueueDepth : Nat
  queueDepth : Nat
  reserved : List String
  active : String → Option C
  metrics : RequestOutcome → Nat
  requests : C → Request
  live : List C
  results : List (C × RequestOutcome)

namespace InferenceService

variable {C : Type}

def new (maxQueueDepth : Nat) : InferenceService C :=
  { ready := true, maxQueueDepth := maxQueueDepth, queueDepth := 0, reserved := []
    active := fun _ => none
    metrics := fun _ => 0
    requests := fun _ => ⟨"", .idle, .absent, .unset, false, 0⟩
    live := [], results := [] }

inductive Event (C : Type) where
| accept (c : C) (rid : String)
| acquireFails (c : C)
| acquire (c : C)
| submitRaises (c : C)
| submitFails (c : C)
| submit (c : C)
| register (c : C)
| hook (c : C)
| pick (c : C)
| start (c : C)
| free (c : C)
| finish (c : C)
| cancel (c : C)
| callback (c : C)
| pop (c : C)
| outcome (c : C) (result : RequestOutcome)
| stop

variable [DecidableEq C]

def put (s : InferenceService C) (c : C) (r : Request) : InferenceService C :=
  { s with requests := update s.requests c r }

/- The call no longer counts as queued. -/
def dequeue (s : InferenceService C) (c : C) : InferenceService C :=
  { s with
    reserved := s.reserved.filter (· ≠ (s.requests c).rid), queueDepth := s.queueDepth - 1
    live := s.live.erase c }

def count (s : InferenceService C) (c : C) (result : RequestOutcome) : InferenceService C :=
  { s with
    metrics := update s.metrics result (s.metrics result + 1), results := (c, result) :: s.results }

def step (s : InferenceService C) (event : Event C) : Option (InferenceService C) :=
  match event with
  | .accept c rid =>
    if (s.requests c).phase = .idle ∧ s.ready = true ∧ s.active rid = none ∧
        rid ∉ s.reserved ∧ s.queueDepth < s.maxQueueDepth then
      some
        { s.put c { s.requests c with rid := rid, phase := .admitted } with
          reserved := rid :: s.reserved, queueDepth := s.queueDepth + 1, live := c :: s.live }
    else none
  | .acquireFails c =>
    if (s.requests c).phase = .admitted then
      some (((s.dequeue c).count c .failed).put c
        { s.requests c with phase := .refused })
    else none
  | .acquire c =>
    if (s.requests c).phase = .admitted then
      some (s.put c { s.requests c with phase := .acquired })
    else none
  | .submitRaises c =>
    if (s.requests c).phase = .acquired then
      some (s.put c
        { s.requests c with
          phase := .rejected, released := (s.requests c).released + 1 })
    else none
  | .submitFails c =>
    if (s.requests c).phase = .rejected then
      some (((s.dequeue c).count c .failed).put c
        { s.requests c with phase := .failed })
    else none
  | .submit c =>
    if (s.requests c).phase = .acquired then
      some (s.put c { s.requests c with phase := .submitted, future := .pending })
    else none
  | .register c =>
    if (s.requests c).phase = .submitted then
      some
        { s.put c { s.requests c with phase := .registered } with
          active := update s.active (s.requests c).rid (some c)
          reserved := s.reserved.filter (· ≠ (s.requests c).rid) }
    else none
  | .hook c =>
    if (s.requests c).phase = .registered then
      some (s.put c { s.requests c with phase := .waiting, callback := .set })
    else none
  | .pick c =>
    if (s.requests c).future = .pending then
      some (s.put c { s.requests c with future := .picked })
    else none
  | .start c =>
    -- the task waits for `task_registered`
    if (s.requests c).future = .picked ∧ (s.requests c).callback ≠ .unset then
      some (s.put c { s.requests c with future := .started, taskStarted := true })
    else none
  | .free c =>
    if (s.requests c).future = .started then
      some (s.put c
        { s.requests c with
          future := .freed, released := (s.requests c).released + 1 })
    else none
  | .finish c =>
    if (s.requests c).future = .freed then
      some (s.put c { s.requests c with future := .done })
    else none
  | .cancel c =>
    if (s.requests c).future = .pending then
      some (s.put c { s.requests c with future := .cancelled })
    else none
  | .callback c =>
    let r := s.requests c
    if r.callback = .set ∧ (r.future = .done ∨ r.future = .cancelled) then
      some (s.put c
        { r with
          callback := .run
          released :=
            if r.future = .cancelled ∧ r.taskStarted = false then r.released + 1
            else r.released })
    else none
  | .pop c =>
    if (s.requests c).callback = .run then
      some
        { (s.dequeue c).put c { s.requests c with callback := .popped } with
          active := update s.active (s.requests c).rid none }
    else none
  | .outcome c result =>
    let f := (s.requests c).future
    if (s.requests c).phase = .waiting ∧
        (result = .cancelled ∨ f = .done ∨ result = .failed ∧ f = .cancelled) then
      some ((s.count c result).put c { s.requests c with phase := .ended })
    else none
  | .stop => some { s with ready := false, reserved := [] }

/- The books: live calls are queued, the registered ones are
   active, and calls that are over have one outcome. -/
@[grind cases]
structure Exact (s : InferenceService C) : Prop where
  depth : s.queueDepth = s.live.length
  nodup : s.live.Nodup
  live : ∀ c, c ∈ s.live ↔ (s.requests c).Live
  active : ∀ rid c, s.active rid = some c ↔
    (s.requests c).Live ∧ (s.requests c).Registered ∧ (s.requests c).rid = rid
  once : (s.results.map Prod.fst).Nodup
  ended : ∀ c, c ∈ s.results.map Prod.fst ↔ (s.requests c).Over
  metrics : ∀ result, s.metrics result = (s.results.map Prod.snd).count result

/- Where a call has given its slot back. -/
@[grind]
def Freed (r : Request) : Prop :=
  r.phase = .rejected ∨ r.phase = .failed ∨ r.future = .freed ∨ r.future = .done ∨
    r.future = .cancelled ∧ (r.callback = .run ∨ r.callback = .popped)

/- What the parts of a request say about each other. -/
@[grind]
def Sound (r : Request) : Prop :=
  (r.future = .absent ↔ ¬ r.Registered ∧ r.phase ≠ .submitted) ∧
  (r.callback = .unset ↔ r.phase ≠ .waiting ∧ r.phase ≠ .ended) ∧
  (r.callback = .run ∨ r.callback = .popped → r.future = .done ∨ r.future = .cancelled) ∧
  (r.taskStarted = true → r.future = .started ∨ r.future = .freed ∨ r.future = .done) ∧
  (Freed r → r.released = 1) ∧ (¬ Freed r → r.released = 0)

@[grind cases]
structure Accounted (s : InferenceService C) : Prop extends Exact s where
  sound : ∀ c, Sound (s.requests c)
  distinct : ∀ c d, (s.requests c).Live → (s.requests d).Live →
    (s.requests c).rid = (s.requests d).rid → c = d
  reserved : s.ready = true → ∀ c, (s.requests c).Live →
    (s.requests c).Registered ∨ (s.requests c).rid ∈ s.reserved

variable {s s' : InferenceService C}

section

variable {c : C} (hAccounted : Accounted s)

include hAccounted

/- A call goes on without changing its place in the books. -/
theorem Accounted.put {r : Request} (hSound : Sound r)
    (hSame : r.rid = (s.requests c).rid ∧ (r.Live ↔ (s.requests c).Live) ∧
      (r.Registered ↔ (s.requests c).Registered) ∧ (r.Over ↔ (s.requests c).Over)) :
    Accounted (s.put c r) := by
  have hBooks : ∀ d, (update s.requests c r d).rid = (s.requests d).rid ∧
      ((update s.requests c r d).Live ↔ (s.requests d).Live) ∧
      ((update s.requests c r d).Registered ↔ (s.requests d).Registered) ∧
      ((update s.requests c r d).Over ↔ (s.requests d).Over) ∧ Sound (update s.requests c r d) := by
    intro d
    by_cases hCall : d = c
    · subst hCall
      simpa [hSound] using hSame
    · simp [hCall, hAccounted.sound d]
  have hExact := hAccounted.toExact
  unfold InferenceService.put
  refine ⟨⟨hExact.depth, hExact.nodup, ?_, ?_, hExact.once, ?_, hExact.metrics⟩, ?_, ?_, ?_⟩
  all_goals grind

theorem Accounted.accept {rid : String} (hStep : step s (.accept c rid) = some s') :
    Accounted s' := by
  simp only [InferenceService.step, Option.ite_none_right_eq_some] at hStep
  rcases hStep with ⟨⟨hPhase, hReady, hInactive, hUnreserved, _⟩, ⟨⟩⟩
  -- no live call has the id
  have hFree : ∀ d, (s.requests d).Live → (s.requests d).rid ≠ rid := by
    intro d hLive hRid
    rcases hAccounted.reserved hReady d hLive with hRegistered | hReserved
    · have hActive := (hAccounted.active rid d).mpr ⟨hLive, hRegistered, hRid⟩
      rw [hInactive] at hActive
      cases hActive
    · exact hUnreserved (hRid ▸ hReserved)
  have hIdle : ¬ (s.requests c).Live := fun hLive => hLive.1 hPhase
  have hNew : c ∉ s.live := mt (hAccounted.live c).mp hIdle
  unfold InferenceService.put
  refine ⟨⟨?_, ?_, ?_, ?_, hAccounted.once, ?_, hAccounted.metrics⟩, ?_, ?_, ?_⟩
  -- the call is queued
  · rw [hAccounted.depth, List.length_cons]
  · exact List.nodup_cons.mpr ⟨hNew, hAccounted.nodup⟩
  · grind
  -- it is neither registered nor over
  all_goals grind

/- A call ends before it has a future. -/
theorem Accounted.fail {phase : InferPhase}
    (hPhase : (s.requests c).phase = .admitted ∧ phase = .refused ∨
      (s.requests c).phase = .rejected ∧ phase = .failed) :
    Accounted (((s.dequeue c).count c .failed).put c { s.requests c with phase := phase }) := by
  have hLive : (s.requests c).Live := by grind
  have hQueued := (hAccounted.live c).mpr hLive
  have hFirst : c ∉ s.results.map Prod.fst := by grind
  simp only [InferenceService.put, dequeue, count]
  refine ⟨⟨?_, hAccounted.nodup.erase c, ?_, ?_, ?_, ?_, ?_⟩, ?_, ?_, ?_⟩
  -- the call leaves the queue and was never active
  · rw [hAccounted.depth, List.length_erase_of_mem hQueued]
  · grind
  · grind
  -- it is counted for the first time
  · exact List.nodup_cons.mpr ⟨hFirst, hAccounted.once⟩
  all_goals grind

theorem Accounted.register (hStep : step s (.register c) = some s') : Accounted s' := by
  simp only [InferenceService.step, Option.ite_none_right_eq_some] at hStep
  rcases hStep with ⟨hPhase, ⟨⟩⟩
  have hExact := hAccounted.toExact
  unfold InferenceService.put
  refine ⟨⟨hExact.depth, hExact.nodup, ?_, ?_, hExact.once, ?_, hExact.metrics⟩, ?_, ?_, ?_⟩
  all_goals grind

theorem Accounted.pop (hStep : step s (.pop c) = some s') : Accounted s' := by
  simp only [InferenceService.step, Option.ite_none_right_eq_some] at hStep
  rcases hStep with ⟨hRun, ⟨⟩⟩
  have hExact := hAccounted.toExact
  have hLive : (s.requests c).Live := by grind
  have hQueued := (hExact.live c).mpr hLive
  simp only [InferenceService.put, dequeue]
  refine ⟨⟨?_, hExact.nodup.erase c, ?_, ?_, hExact.once, ?_, hExact.metrics⟩, ?_, ?_, ?_⟩
  · rw [hExact.depth, List.length_erase_of_mem hQueued]
  all_goals grind

theorem Accounted.outcome {result : RequestOutcome} (hStep : step s (.outcome c result) = some s') :
    Accounted s' := by
  simp only [InferenceService.step, Option.ite_none_right_eq_some] at hStep
  rcases hStep with ⟨hWaits, ⟨⟩⟩
  have hExact := hAccounted.toExact
  have hFirst : c ∉ s.results.map Prod.fst := by grind
  simp only [InferenceService.put, count]
  refine ⟨⟨hExact.depth, hExact.nodup, ?_, ?_, ?_, ?_, ?_⟩, ?_, ?_, ?_⟩
  case refine_3 => exact List.nodup_cons.mpr ⟨hFirst, hExact.once⟩
  all_goals grind

end

theorem Accounted.step (hAccounted : Accounted s) {event : Event C}
    (hStep : step s event = some s') : Accounted s' := by
  cases event with
  | accept c rid => exact hAccounted.accept hStep
  | acquire c | submitRaises c | submit c | hook c | pick c | start c | free c
  | finish c | cancel c | callback c =>
    simp only [InferenceService.step, Option.ite_none_right_eq_some] at hStep
    rcases hStep with ⟨hBefore, ⟨⟩⟩
    have hSound := hAccounted.sound c
    exact hAccounted.put (by grind) (by grind)
  | acquireFails c | submitFails c =>
    simp only [InferenceService.step, Option.ite_none_right_eq_some] at hStep
    rcases hStep with ⟨hPhase, ⟨⟩⟩
    exact hAccounted.fail (by simp [hPhase])
  | register c => exact hAccounted.register hStep
  | pop c => exact hAccounted.pop hStep
  | outcome c result => exact hAccounted.outcome hStep
  | stop =>
    cases hStep
    exact { hAccounted with reserved := nofun }

/-
  A slot is given back once. The queue, the active requests
  and the outcomes are exact up to the callbacks that have
  not run.
-/
theorem request_accounting_exact {maxQueueDepth : Nat}
    (hReach : Reachable step always (new maxQueueDepth) s) : (∀ c, (s.requests c).released ≤ 1 ∧
      (¬ (s.requests c).Live → (s.requests c).phase ≠ .idle →
        (s.requests c).phase ≠ .refused → (s.requests c).released = 1)) ∧
      Exact s := by
  have hAccounted : Accounted s := by
    refine hReach.invariant Accounted (fun _ _ _ hAccounted _ hStep => hAccounted.step hStep) ?_
    constructor
    · constructor <;> simp [new, Request.Live, Request.Over]
    all_goals simp [new, Request.Live, Sound, Freed, Request.Registered]
  refine ⟨fun c => ?_, hAccounted.toExact⟩
  have hSound := hAccounted.sound c
  grind

/- A request up to the end of its future. -/
def toDone : List (Event Nat) :=
  [.accept 0 "r", .acquire 0, .submit 0, .register 0, .hook 0, .pick 0, .start 0,
    .free 0, .finish 0]

theorem one_request_exact :
    (run step (new 1) toDone).map (fun s => (s.requests 0).released) = some 1 ∧
      ∀ s ∈ run step (new 1) toDone, Exact s := by
  refine ⟨rfl, fun s hRun => ?_⟩
  exact (request_accounting_exact (Reachable.of_run_always toDone hRun)).2

/- A submitted request that is not active yet, and one that
   is queued and active although its future is done. -/
theorem request_accounting_lags : (run step (new 1) (toDone.take 3)).map (fun s =>
      ((s.requests 0).future, s.active "r")) = some (.pending, none) ∧
    (run step (new 1) toDone).map (fun s =>
      ((s.requests 0).future, s.queueDepth, s.active "r")) = some (.done, 1, some 0) :=
  ⟨rfl, rfl⟩

end InferenceService

end TensorTorrent
