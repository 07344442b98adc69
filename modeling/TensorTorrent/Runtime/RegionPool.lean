import TensorTorrent.Library.Transition

/-
  This file models the thread pool that the waves of
  concurrent forwards share (`_ensure_region_pool` in
  `runtime/schedule_executor.py` and `region_handler` in
  `native_bridge/run.py`). There is no lock: every read of
  the executor's pool is a step of its own.

  Main declarations:
    * `RegionPool.growth_disturbs_nobody`
-/

namespace TensorTorrent

open Transition

/- Where a wave is: before its call, at the comparison of
   the sizes, at the shutdown, at the assignment, at the
   last read of the pool, or past the call. -/
inductive WavePhase where
| waiting
| comparing (workers : Nat)
| growing (workers : Nat)
| creating (workers : Nat)
| returning
| holding
deriving DecidableEq

/- The calls that a wave has yet to submit, those that no
   worker has started, and what became of others. -/
structure Wave where
  phase : WavePhase
  pool : Option Nat
  unsubmitted : Nat
  queued : Nat
  started : Nat
  cancelled : Nat
  rejected : Nat

/- `_region_pool`, and every pool ever created with its size
   and whether it was shut down. -/
structure RegionPool (W : Type) where
  current : Option Nat
  created : Nat
  maxWorkers : Nat → Nat
  down : Nat → Bool
  waves : W → Wave

namespace RegionPool

variable {W : Type}

def new : RegionPool W :=
  { current := none, created := 0
    maxWorkers := fun _ => 0
    down := fun _ => false
    waves := fun _ => ⟨.waiting, none, 0, 0, 0, 0, 0⟩ }

inductive Event (W : Type) where
| ensure (w : W) (workers : Nat)
| compare (w : W)
| shutdown (w : W)
| create (w : W)
| return (w : W) (calls : Nat)
| submit (w : W)
| start (w : W)
| finish (w : W)

variable [DecidableEq W]

def setWave (s : RegionPool W) (w : W) (wave : Wave) : RegionPool W :=
  { s with waves := Function.update s.waves w wave }

/- Work that has not started is cancelled with its pool. -/
def Wave.cancelFor (wave : Wave) (pool : Nat) : Wave :=
  if wave.pool = some pool then
    { wave with queued := 0, cancelled := wave.cancelled + wave.queued }
  else wave

def step (s : RegionPool W) : Event W → Option (RegionPool W)
| .ensure w workers =>
  let wave := s.waves w
  if wave.phase = .waiting then
    some (s.setWave w { wave with
      phase :=
        if s.current = none then
          .creating (max 1 workers)
        else .comparing (max 1 workers) })
  else none
| .compare w =>
  let wave := s.waves w
  match wave.phase, s.current with
  | .comparing n, some p =>
    some (s.setWave w { wave with
      phase :=
        if s.maxWorkers p < n then .growing n
        else .returning })
  | _, _ => none
| .shutdown w =>
  match (s.waves w).phase, s.current with
  | .growing n, some p =>
    some
      { s with
        down := Function.update s.down p true
        waves := fun v =>
          let wave := Wave.cancelFor (s.waves v) p
          if v = w then
            { wave with phase := .creating n }
          else wave }
  | _, _ => none
| .create w =>
  match (s.waves w).phase with
  | .creating n =>
    some
      { s.setWave w { s.waves w with phase := .returning } with
        current := some s.created, created := s.created + 1
        maxWorkers := Function.update s.maxWorkers s.created n }
  | _ => none
| .return w calls =>
  let wave := s.waves w
  if wave.phase = .returning then
    some (s.setWave w { wave with phase := .holding, pool := s.current, unsubmitted := calls })
  else none
| .submit w =>
  let wave := s.waves w
  match wave.pool with
  | some p =>
    if 0 < wave.unsubmitted then
      some (s.setWave w (if s.down p then
          { wave with unsubmitted := 0, rejected := wave.rejected + 1 }
        else
          { wave with unsubmitted := wave.unsubmitted - 1, queued := wave.queued + 1 }))
    else none
  | none => none
| .start w =>
  let wave := s.waves w
  if 0 < wave.queued then
    some (s.setWave w { wave with queued := wave.queued - 1, started := wave.started + 1 })
  else none
| .finish w =>
  let wave := s.waves w
  if 0 < wave.started then
    some (s.setWave w { wave with started := wave.started - 1 })
  else none

/- Inside `_ensure_region_pool`. -/
def Inside (wave : Wave) : Prop :=
  wave.phase ≠ .waiting ∧ wave.phase ≠ .holding

/- About to assign a new pool. -/
def Creates (wave : Wave) : Prop :=
  ∃ n, wave.phase = .creating n

/- One wave at a time gets the pool, and the pool is only
   grown when all calls on it have started. -/
def Calm (s : RegionPool W) : Event W → Prop
| .ensure _ _ => ∀ v, ¬ Inside (s.waves v)
| .shutdown _ => ∀ v, (s.waves v).pool = s.current →
    (s.waves v).unsubmitted = 0 ∧ (s.waves v).queued = 0
| _ => True

/- A wave inside finds a pool unless it is to create one,
   and its calls wait on an open pool. -/
structure Served (s : RegionPool W) (wave : Wave) : Prop where
  known : Inside wave → s.current = none → Creates wave
  held : 0 < wave.unsubmitted + wave.queued → ∃ p, wave.pool = some p ∧ s.down p = false
  clean : wave.cancelled = 0 ∧ wave.rejected = 0

/- Only the current pool is open, and no pool is while a
   wave is about to create one. -/
structure Kept (s : RegionPool W) : Prop where
  one : ∀ v w, Inside (s.waves v) → Inside (s.waves w) → v = w
  opened : ∀ p < s.created, s.down p = false ↔ s.current = some p ∧ ∀ w, ¬ Creates (s.waves w)
  fresh : ∀ p, s.created ≤ p → s.down p = false ∧ s.current ≠ some p
  served : ∀ w, Served s (s.waves w)

variable {s s' : RegionPool W} {w : W} {wave : Wave}

omit [DecidableEq W] in
theorem Creates.inside (hCreates : Creates wave) : Inside wave := by
  rcases hCreates with ⟨n, hPhase⟩
  simp [Inside, hPhase]

/- A wave changes and the pools stay. -/
theorem Kept.setWave
    (hKept : Kept s)
    (hOne : Inside wave → ∀ v, Inside (s.waves v) → v = w)
    (hCreates : s.current = none ∨ (Creates wave ↔ Creates (s.waves w)))
    (hServed : Served s wave) :
    Kept (s.setWave w wave) := by
  have hWaves : ∀ v, (s.setWave w wave).waves v = if v = w then wave else s.waves v :=
    fun v => Function.update_apply _ _ _ _
  constructor
  case one =>
    intro u v hU hV
    rw [hWaves] at hU hV
    split at hU <;> split at hV
    · next hFirst hSecond => exact hFirst.trans hSecond.symm
    · next hSame _ => exact hSame.trans (hOne hU v hV).symm
    · next hSame => exact (hOne hV u hU).trans hSame.symm
    · exact hKept.one u v hU hV
  case opened =>
    intro p hCreated
    refine (hKept.opened p hCreated).trans (and_congr_right fun hCurrent => forall_congr' fun v => ?_)
    rw [hWaves]
    split
    · next hSame => rw [hSame, hCreates.resolve_left (by simp [hCurrent])]
    · rfl
  case fresh => exact hKept.fresh
  case served =>
    intro v
    rw [hWaves]
    split
    · exact ⟨hServed.known, hServed.held, hServed.clean⟩
    · exact ⟨(hKept.served v).known, (hKept.served v).held, (hKept.served v).clean⟩

/- A wave goes on with its calls. -/
theorem Kept.proceed
    (hKept : Kept s)
    (hPhase : wave.phase = (s.waves w).phase)
    (hPool : wave.pool = (s.waves w).pool)
    (hCalls : 0 < wave.unsubmitted + wave.queued →
      0 < (s.waves w).unsubmitted + (s.waves w).queued)
    (hClean : wave.cancelled = 0 ∧ wave.rejected = 0) :
    Kept (s.setWave w wave) := by
  have hInside : Inside wave ↔ Inside (s.waves w) := by rw [Inside, Inside, hPhase]
  have hCreates : Creates wave ↔ Creates (s.waves w) := by rw [Creates, Creates, hPhase]
  have hServed := hKept.served w
  refine hKept.setWave ?_ (.inr hCreates) ⟨?_, ?_, hClean⟩
  · exact fun hIn v hV => hKept.one v w hV (hInside.mp hIn)
  · rw [hInside, hCreates]
    exact hServed.known
  · exact fun hSome => hPool ▸ hServed.held (hCalls hSome)

theorem Kept.ensure
    (hKept : Kept s)
    {workers : Nat}
    (hCalm : Calm s (.ensure w workers))
    (hStep : step s (.ensure w workers) = some s') :
    Kept s' := by
  rcases Option.ite_none_right_eq_some.mp hStep with ⟨-, ⟨⟩⟩
  refine hKept.setWave ?_ ?_ ⟨?_, (hKept.served w).held, (hKept.served w).clean⟩
  · exact fun _ v hV => absurd hV (hCalm v)
  · by_cases hNone : s.current = none
    · exact .inl hNone
    · refine .inr (iff_of_false ?_ fun hCreates => hCalm w hCreates.inside)
      simp [Creates, hNone]
  · exact fun _ hNone => ⟨max 1 workers, if_pos hNone⟩

/- The pool that a wave gets is open. -/
theorem Kept.return
    (hKept : Kept s)
    {calls : Nat}
    (hStep : step s (.return w calls) = some s') :
    Kept s' := by
  rcases Option.ite_none_right_eq_some.mp hStep with ⟨hPhase, ⟨⟩⟩
  have hInside : Inside (s.waves w) := by simp [Inside, hPhase]
  have hNot : ¬ Creates (s.waves w) := by simp [Creates, hPhase]
  have hNone : ∀ v, ¬ Creates (s.waves v) :=
    fun v hCreates => hNot (hKept.one v w hCreates.inside hInside ▸ hCreates)
  refine hKept.setWave ?_ (.inr ?_) ⟨?_, fun _ => ?_, (hKept.served w).clean⟩
  · exact fun hIn => absurd rfl hIn.2
  · exact iff_of_false (fun hCreates => hCreates.inside.2 rfl) hNot
  · exact fun hIn => absurd rfl hIn.2
  · cases hCurrent : s.current with
    | none => exact absurd ((hKept.served w).known hInside hCurrent) hNot
    | some p =>
      have hCreated : p < s.created := by
        by_contra hLater
        exact (hKept.fresh p (by omega)).2 hCurrent
      exact ⟨p, rfl, (hKept.opened p hCreated).mpr ⟨hCurrent, hNone⟩⟩

/- No call waits on the pool that is shut down. -/
theorem Kept.shutdown
    (hKept : Kept s)
    (hCalm : Calm s (.shutdown w))
    (hStep : step s (.shutdown w) = some s') :
    Kept s' := by
  simp only [RegionPool.step] at hStep
  split at hStep
  · next n p hPhase hCurrent =>
    cases hStep
    have hOnly : ∀ v, Inside (s.waves v) → v = w :=
      fun v hV => hKept.one v w hV (by simp [Inside, hPhase])
    constructor <;> dsimp only
    case one => grind [Wave.cancelFor, Inside]
    case opened =>
      intro q hCreated
      refine iff_of_false (fun hOpen => ?_) (fun hNone => hNone.2 w ⟨n, by simp⟩)
      by_cases hSame : q = p
      · simp [hSame] at hOpen
      · rw [Function.update_of_ne hSame, hKept.opened q hCreated, hCurrent] at hOpen
        exact hSame (Option.some.inj hOpen.1).symm
    case fresh =>
      intro q hLater
      have hFresh := hKept.fresh q hLater
      have hNe : q ≠ p := fun hSame => hFresh.2 (hSame ▸ hCurrent)
      rwa [Function.update_of_ne hNe]
    case served =>
      intro v
      have hCalls := hCalm v
      rcases hKept.served v with ⟨-, hHeld, hClean⟩
      constructor
      case known => simp [hCurrent]
      all_goals grind [Wave.cancelFor]
  · cases hStep

/- All earlier pools are shut down when a pool is created. -/
theorem Kept.create
    (hKept : Kept s)
    (hStep : step s (.create w) = some s') :
    Kept s' := by
  simp only [RegionPool.step] at hStep
  split at hStep
  · next n hPhase =>
    cases hStep
    have hCreates : Creates (s.waves w) := ⟨n, hPhase⟩
    have hOnly : ∀ v, Inside (s.waves v) → v = w :=
      fun v hV => hKept.one v w hV hCreates.inside
    constructor <;> simp only [RegionPool.setWave, Function.update_apply]
    case one => grind
    case opened =>
      intro p hCreated
      rcases Nat.lt_succ_iff_lt_or_eq.mp hCreated with hBefore | rfl
      · refine iff_of_false (fun hOpen => ?_) (fun hCurrent => ?_)
        · exact ((hKept.opened p hBefore).mp hOpen).2 w hCreates
        · exact hBefore.ne (Option.some.inj hCurrent.1).symm
      · refine iff_of_true (hKept.fresh _ le_rfl).1 ⟨rfl, fun v => ?_⟩
        split
        · simp [Creates]
        · next hNe => exact fun hOther => hNe (hOnly v hOther.inside)
    case fresh => exact fun p hLater => ⟨(hKept.fresh p (by omega)).1, by simp; omega⟩
    case served =>
      intro v
      refine ⟨by simp, ?_, ?_⟩
      all_goals
        have hServed := hKept.served v
        grind [Served]
  · cases hStep

theorem Kept.step
    (hKept : Kept s)
    {event : Event W}
    (hCalm : Calm s event)
    (hStep : step s event = some s') :
    Kept s' := by
  cases event with
  | ensure w workers => exact hKept.ensure hCalm hStep
  | compare w =>
    simp only [RegionPool.step] at hStep
    split at hStep
    · next n p hPhase hCurrent =>
      cases hStep
      refine hKept.setWave ?_ (.inr ?_) ⟨?_, (hKept.served w).held, (hKept.served w).clean⟩
      · exact fun _ v hV => hKept.one v w hV (by simp [Inside, hPhase])
      · split <;> simp [Creates, hPhase]
      · simp [hCurrent]
    · cases hStep
  | shutdown w => exact hKept.shutdown hCalm hStep
  | create w => exact hKept.create hStep
  | «return» w calls => exact hKept.return hStep
  | submit w =>
    have hServed := hKept.served w
    simp only [RegionPool.step] at hStep
    split at hStep
    · split at hStep
      · next p hPool hCalls =>
        rcases hServed.held (by omega) with ⟨q, hQ, hOpen⟩
        rw [hPool] at hQ
        cases hQ
        cases hStep
        simp only [hOpen, Bool.false_eq_true]
        exact hKept.proceed rfl rfl (fun _ => by omega) hServed.clean
      · cases hStep
    · cases hStep
  | start w | finish w =>
    rcases Option.ite_none_right_eq_some.mp hStep with ⟨hCalls, ⟨⟩⟩
    exact hKept.proceed rfl rfl (fun _ => by omega) (hKept.served w).clean

/-
  When waves get the pool one at a time and it grows only
  after all calls on it have started, no call is rejected or
  cancelled, and only the current pool is not shut down.
-/
theorem growth_disturbs_nobody (hReach : Reachable step Calm new s) :
    (∀ w, (s.waves w).cancelled = 0 ∧ (s.waves w).rejected = 0) ∧ ∀ p < s.created,
      s.current = some p ∨ s.down p = true := by
  have hKept : Kept s := by
    refine hReach.invariant Kept (fun _ _ _ hKept hCalm hStep => hKept.step hCalm hStep) ?_
    constructor
    case served => exact fun w => ⟨by simp [new, Inside], by simp [new], by simp [new]⟩
    all_goals simp [new, Inside]
  refine ⟨fun w => (hKept.served w).clean, fun p hCreated => ?_⟩
  cases hDown : s.down p with
  | true => exact .inr rfl
  | false => exact .inl ((hKept.opened p hCreated).mp hDown).1

instance (s : RegionPool Bool) (event : Event Bool) : Decidable (Calm s event) := by
  unfold Calm Inside
  cases event <;> infer_instance

/- The calls of one wave have started when the other wave
   needs a larger pool. -/
def grownPool : List (Event Bool) :=
  [.ensure false 2, .create false, .return false 2, .submit false, .submit false, .start false,
    .start false, .ensure true 4, .compare true, .shutdown true, .create true, .return true 4,
    .submit true]

theorem grown_pool_kept :
    (run step new grownPool).map (fun s => (s.current, s.down 0, (s.waves false).started)) =
        some (some 1, true, 2) ∧
      ∀ s ∈ run step new grownPool, ∀ w, (s.waves w).cancelled = 0 ∧ (s.waves w).rejected = 0 := by
  refine ⟨rfl, fun s hRun => ?_⟩
  have hMeets : Meets step Calm new grownPool := by
    iterate 13 apply Meets.cons rfl (by decide)
    trivial
  exact (growth_disturbs_nobody (Reachable.of_run _ hMeets hRun)).1

/- Two waves create a pool each and the first of them stays
   open; a third wave grows the second under their calls. -/
theorem growth_disturbs : (run step new [.ensure 0 2, .ensure 1 2, .create 0, .create 1,
      .return 0 2, .return 1 2, .submit 0, .ensure 2 4, .compare 2, .shutdown 2, .submit 1,
      .create 2, .return 2 4]).map
    (fun s => (s.current, s.down 0, (s.waves 0).cancelled, (s.waves 1).rejected)) =
    some (some 2, false, 1, 1) :=
  rfl

end RegionPool

end TensorTorrent
