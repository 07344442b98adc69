import TensorTorrent.Library.Transition

/-
  This file models how served models are published, retired
  and closed (`serve/model_manager.py`). A generation is
  known by the number of its load, which stands for its
  version, its slot and its module. Every operation is one
  or two critical sections; modules are closed outside.

  Main declarations:
    * `ModelManager.served_models_closed_once`
    * `ModelManager.repeated_release_harmless`
-/

namespace TensorTorrent

open Transition List

structure ModelSlot where
  modelId : String
  concurrencyLimit : Nat
  inFlight : Nat
  retired : Bool
  closed : Bool

structure ModelManager where
  slots : Nat → ModelSlot
  models : String → Option Nat
  retired : List Nat
  loads : Nat

namespace ModelManager

def setSlot (m : ModelManager) (v : Nat) (slot : ModelSlot) : ModelManager :=
  { m with slots := Function.update m.slots v slot }

/- The generation to be closed, and the manager. -/
def load (m : ModelManager) (modelId : String) (concurrencyLimit capacity : Nat) :
    Except String (Option Nat × ModelManager) :=
  if modelId = "" then
    .error "model_id must be a non-empty string"
  else if concurrencyLimit < 1 then
    .error "concurrency_limit must be an integer >= 1"
  else if capacity < 1 then
    .error ("model '" ++ modelId ++ "' cannot admit one " ++
      "request under the configured capacity budgets")
  else
    let published :=
      { m.setSlot m.loads
          { modelId := modelId, concurrencyLimit := min concurrencyLimit capacity, inFlight := 0
            retired := false, closed := false } with
        models := Function.update m.models modelId (some m.loads), loads := m.loads + 1 }
    match m.models modelId with
    | none => .ok (none, published)
    | some old =>
      let slot := m.slots old
      if slot.inFlight = 0 then
        .ok (some old, published.setSlot old { slot with retired := true, closed := true })
      else
        .ok (none,
          { published.setSlot old
              { slot with retired := true } with
            retired := m.retired ++ [old] })

def notLoaded (modelId : String) : String :=
  "model not loaded: " ++ modelId

section

variable (m : ModelManager)

/- The first section of `unload`, before the drain. -/
def unload (modelId : String) : Except String (Nat × ModelManager) :=
  match m.models modelId with
  | none => .error (notLoaded modelId)
  | some v =>
    let slot := m.slots v
    .ok (v, { m.setSlot v { slot with retired := true } with
      models := Function.update m.models modelId none
      retired :=
        if 0 < slot.inFlight then m.retired ++ [v]
        else m.retired })

/- Its second section; also whether to close. -/
def unloadDrained (v : Nat) : Bool × ModelManager :=
  let slot := m.slots v
  if slot.inFlight = 0 ∧ slot.closed = false then
    (true, { m.setSlot v { slot with closed := true } with retired := m.retired.erase v })
  else (false, m)

def acquire (modelId : String) : Except String (Nat × ModelManager) :=
  match m.models modelId with
  | none => .error (notLoaded modelId)
  | some v =>
    let slot := m.slots v
    if slot.concurrencyLimit ≤ slot.inFlight then
      .error ("backpressure: model " ++ modelId ++ " at concurrency limit " ++
        toString slot.concurrencyLimit)
    else
      .ok (v, m.setSlot v { slot with inFlight := slot.inFlight + 1 })

def releaseSlot (v : Nat) : Bool × ModelManager :=
  let slot := m.slots v
  if slot.inFlight = 0 then (false, m)
  else
    let slot := { slot with inFlight := slot.inFlight - 1 }
    if slot.retired = true ∧ slot.inFlight = 0 ∧ slot.closed = false then
      (true, { m.setSlot v { slot with closed := true } with retired := m.retired.erase v })
    else (false, m.setSlot v slot)

/- The last section of `shutdown`. -/
def closeIdle : List Nat × ModelManager :=
  let idle (v : Nat) : Bool := (m.slots v).inFlight = 0 ∧ (m.slots v).closed = false
  (m.retired.filter idle,
    { m with
      slots := fun v =>
        if v ∈ m.retired ∧ idle v then
          { m.slots v with closed := true }
        else m.slots v
      retired := m.retired.filter (fun v => !idle v) })

end

----
-- Interleavings
----

/- The manager, the unloads between their sections, the
   modules to be closed and those that were, who holds a
   slot and who gave one back once. -/
structure State where
  manager : ModelManager
  draining : List Nat
  pending : List Nat
  passed : List Nat
  holders : List Nat
  released : List Nat

def State.new : State :=
  { manager :=
      { slots := fun _ => ⟨"", 0, 0, false, false⟩
        models := fun _ => none
        retired := [], loads := 0 }
    draining := [], pending := [], passed := [], holders := [], released := [] }

inductive Event where
| load (modelId : String) (concurrencyLimit capacity : Nat)
| unload (modelId : String)
| unloadDrained (v : Nat)
| unloadRaises (v : Nat)
| acquire (modelId : String)
| release (v : Nat)
| releaseAgain (v : Nat)
| closeIdle
| closeModule (v : Nat)

/- A drain that has to wait raises when its timeout is too
   large for the lock to wait on; one that times out goes on
   to the second section of `unload`. -/
def step (s : State) : Event → Option State
| .load modelId concurrencyLimit capacity =>
  (s.manager.load modelId concurrencyLimit capacity).toOption.map (fun result =>
    { s with manager := result.2, pending := s.pending ++ result.1.toList })
| .unload modelId =>
  (s.manager.unload modelId).toOption.map (fun result =>
    { s with manager := result.2, draining := result.1 :: s.draining })
| .unloadDrained v =>
  let result := s.manager.unloadDrained v
  if v ∈ s.draining then
    some
      { s with
        manager := result.2, draining := s.draining.erase v
        pending :=
          if result.1 then s.pending ++ [v] else s.pending }
  else none
| .unloadRaises v =>
  if v ∈ s.draining ∧ 0 < (s.manager.slots v).inFlight then
    some { s with draining := s.draining.erase v }
  else none
| .acquire modelId =>
  (s.manager.acquire modelId).toOption.map (fun result =>
    { s with manager := result.2, holders := result.1 :: s.holders })
| .release v =>
  let result := s.manager.releaseSlot v
  if v ∈ s.holders then
    some
      { s with
        manager := result.2, holders := s.holders.erase v, released := v :: s.released
        pending :=
          if result.1 then s.pending ++ [v] else s.pending }
  else none
| .releaseAgain v =>
  let result := s.manager.releaseSlot v
  if v ∈ s.released then
    some
      { s with
        manager := result.2, released := s.released.erase v
        pending :=
          if result.1 then s.pending ++ [v] else s.pending }
  else none
| .closeIdle =>
  let result := s.manager.closeIdle
  some
    { s with manager := result.2, pending := s.pending ++ result.1 }
| .closeModule v =>
  if v ∈ s.pending then
    some
      { s with pending := s.pending.erase v, passed := v :: s.passed }
  else none

abbrev State.doomed (s : State) : List Nat :=
  s.passed ++ s.pending

/- A generation is in service, on its way out while a holder
   or an unload sees to it, or closed. -/
inductive Stage (slot : ModelSlot) (held doomed listed drains : Nat) : Prop where
| serving (hFlags : slot.retired = false ∧ slot.closed = false)
    (hLists : doomed = 0 ∧ listed = 0 ∧ drains = 0)
| leaving (hFlags : slot.retired = true ∧ slot.closed = false)
    (hLists : doomed = 0 ∧ listed ≤ 1 ∧ 0 < held + drains)
| closed (hFlags : slot.retired = true ∧ slot.closed = true)
    (hLists : doomed = 1 ∧ listed ≤ 1 ∧ held = 0)

@[grind cases]
structure Managed (s : State) : Prop where
  stage : ∀ v, Stage (s.manager.slots v) (s.holders.count v) (s.doomed.count v)
    (s.manager.retired.count v) (s.draining.count v)
  counts : ∀ v, (s.manager.slots v).inFlight = s.holders.count v
  limits : ∀ v, (s.manager.slots v).inFlight ≤ (s.manager.slots v).concurrencyLimit
  current : ∀ modelId v, s.manager.models modelId = some v → (s.manager.slots v).modelId = modelId ∧
    (s.manager.slots v).retired = false ∧ v < s.manager.loads
  unloaded : ∀ v, s.manager.loads ≤ v → s.holders.count v = 0 ∧ (s.manager.slots v).retired = false

theorem Managed.new : Managed .new := by
  refine ⟨fun v => .serving ⟨rfl, rfl⟩ ?_, ?_, ?_, ?_, ?_⟩
  all_goals simp [State.new]

/- A second release finds no other holder. -/
def Alone (s : State) : Event → Prop
| .releaseAgain v => v ∉ s.holders
| _ => True

theorem Stage.of_current {slot : ModelSlot} {held doomed listed drains : Nat}
    (hStage : Stage slot held doomed listed drains) (hCurrent : slot.retired = false) :
    slot.closed = false ∧ doomed = 0 ∧ listed = 0 ∧ drains = 0 := by
  cases hStage with
  | serving hFlags hLists => exact ⟨hFlags.2, hLists⟩
  | leaving hFlags | closed hFlags => simp [hFlags] at hCurrent

variable {s s' : State}

section

variable (hManaged : Managed s) {modelId : String} {v : Nat}

include hManaged

/- The load before the generation it replaces is retired. -/
theorem Managed.publish (limit : Nat) : Managed
    { s with manager :=
      { s.manager.setSlot s.manager.loads ⟨modelId, limit, 0, false, false⟩ with
        models := Function.update s.manager.models modelId (some s.manager.loads)
        loads := s.manager.loads + 1 } } := by
  have hUnloaded := (hManaged.unloaded _ le_rfl).2
  unfold setSlot
  refine ⟨fun u => ?_, by grind, by grind, by grind, by grind⟩
  by_cases hSame : u = s.manager.loads
  · subst hSame
    simp only [Function.update_self]
    exact .serving ⟨rfl, rfl⟩ ((hManaged.stage _).of_current hUnloaded).2
  · simpa [hSame] using hManaged.stage u

theorem Managed.load {concurrencyLimit capacity : Nat}
    (hStep : step s (.load modelId concurrencyLimit capacity) = some s') : Managed s' := by
  simp only [ModelManager.step, ModelManager.load] at hStep
  split at hStep
  · cases hStep
  split at hStep
  · cases hStep
  split at hStep
  · cases hStep
  have hPublished := @Managed.publish s hManaged modelId (min concurrencyLimit capacity)
  unfold setSlot at hPublished hStep
  split at hStep
  · cases hStep
    simpa using hPublished
  next old hModel =>
  have hOld := hManaged.current modelId old hModel
  have hLists := (hManaged.stage old).of_current hOld.2.1
  -- The old generation is closed now or by its last holder.
  split at hStep <;> cases hStep
  · refine ⟨fun u => ?_, by grind, by grind, by grind, by grind⟩
    by_cases hSame : u = old
    · subst hSame
      simp only [Function.update_self]
      exact .closed ⟨rfl, rfl⟩ (by grind)
    · simpa [hSame, Ne.symm hSame] using hPublished.stage u
  · refine ⟨fun u => ?_, by grind, by grind, by grind, by grind⟩
    by_cases hSame : u = old
    · subst hSame
      simp only [Function.update_self]
      exact .leaving ⟨rfl, hLists.1⟩ (by grind)
    · simpa [hSame, Ne.symm hSame] using hPublished.stage u

theorem Managed.unload (hStep : step s (.unload modelId) = some s') : Managed s' := by
  simp only [ModelManager.step, ModelManager.unload, setSlot] at hStep
  split at hStep <;> cases hStep
  next v hModel =>
  have hCurrent := (hManaged.current modelId v hModel).2
  refine ⟨fun u => ?_, by grind, by grind, by grind, by grind⟩
  by_cases hSame : u = v
  · subst hSame
    have hLists := (hManaged.stage u).of_current hCurrent.1
    simp only [Function.update_self]
    exact .leaving ⟨rfl, hLists.1⟩ (by grind)
  · split <;> simpa [hSame, Ne.symm hSame] using hManaged.stage u

theorem Managed.acquire (hStep : step s (.acquire modelId) = some s') : Managed s' := by
  simp only [ModelManager.step, ModelManager.acquire, setSlot] at hStep
  split at hStep
  · cases hStep
  next v hModel =>
  split at hStep <;> cases hStep
  have hCurrent := (hManaged.current modelId v hModel).2
  refine ⟨fun u => ?_, by grind, by grind, by grind, by grind⟩
  by_cases hSame : u = v
  · subst hSame
    have hLists := (hManaged.stage u).of_current hCurrent.1
    simp only [Function.update_self]
    exact .serving ⟨hCurrent.1, hLists.1⟩ hLists.2
  · simpa [hSame, Ne.symm hSame] using hManaged.stage u

/- The last holder of a retired generation closes it. -/
theorem Managed.release (hStep : step s (.release v) = some s') : Managed s' := by
  simp only [ModelManager.step, Option.ite_none_right_eq_some] at hStep
  rcases hStep with ⟨hHolds, ⟨⟩⟩
  have hHeld := count_pos_iff.mpr hHolds
  have hCounts := hManaged.counts v
  simp only [releaseSlot, hCounts, if_neg hHeld.ne', setSlot]
  constructor
  case stage =>
    intro u
    by_cases hSame : u = v
    · subst hSame
      cases hManaged.stage u with
      | serving hFlags hLists =>
        simp only [hFlags]
        exact .serving (by simp) hLists
      | leaving hFlags hLists =>
        split
        · exact .closed (by simp [hFlags]) (by grind)
        · exact .leaving (by simp [hFlags]) (by grind)
      | closed _ hLists => omega
    · split <;> simpa [hSame, Ne.symm hSame] using hManaged.stage u
  all_goals split <;> grind

/- An unload ends when others see to the generation. -/
theorem Managed.undrain (hSeen : 0 < s.holders.count v ∨ (s.manager.slots v).closed = true) :
    Managed { s with draining := s.draining.erase v } := by
  refine { hManaged with stage := fun u => ?_ }
  by_cases hSame : u = v
  · subst hSame
    cases hManaged.stage u with
    | serving hFlags hLists => exact .serving hFlags (by simp [hLists])
    | leaving hFlags hLists =>
      have hHeld := hSeen.resolve_right (by simp [hFlags])
      exact .leaving hFlags ⟨hLists.1, hLists.2.1, Nat.add_pos_left hHeld _⟩
    | closed hFlags hLists => exact .closed hFlags hLists
  · simpa [hSame] using hManaged.stage u

theorem Managed.unloadDrained (hStep : step s (.unloadDrained v) = some s') : Managed s' := by
  simp only [ModelManager.step, Option.ite_none_right_eq_some] at hStep
  rcases hStep with ⟨hDrains, ⟨⟩⟩
  have hCounts := hManaged.counts v
  simp only [ModelManager.unloadDrained, setSlot]
  split
  · next hLast =>
    refine ⟨fun u => ?_, by grind, by grind, by grind, by grind⟩
    by_cases hSame : u = v
    · subst hSame
      have hWaits := count_pos_iff.mpr hDrains
      simp only [Function.update_self]
      cases hManaged.stage u with
      | serving _ hLists => omega
      | leaving hFlags hLists => exact .closed ⟨hFlags.1, rfl⟩ (by grind)
      | closed hFlags => simp [hFlags] at hLast
    · simpa [hSame, Ne.symm hSame] using hManaged.stage u
  · exact hManaged.undrain (by grind)

theorem Managed.closeIdle (hStep : step s .closeIdle = some s') : Managed s' := by
  cases hStep
  simp only [ModelManager.closeIdle]
  refine ⟨fun u => ?_, by grind, by grind, by grind, by grind⟩
  have hCounts := hManaged.counts u
  have hListed := count_pos_iff (a := u) (l := s.manager.retired)
  have hFilter (p : Nat → Bool) : count u (s.manager.retired.filter p) =
      if p u then s.manager.retired.count u else 0 := by
    split
    · next hTrue => exact count_filter hTrue
    · next hFalse => exact count_eq_zero_of_not_mem (fun h => hFalse (mem_filter.mp h).2)
  simp only [count_append, hFilter]
  cases hManaged.stage u with
  | serving hFlags hLists =>
    rw [if_neg (by grind)]
    exact .serving hFlags (by grind)
  | leaving hFlags hLists =>
    split
    · exact .closed ⟨hFlags.1, rfl⟩ (by grind)
    · exact .leaving hFlags (by grind)
  | closed hFlags hLists =>
    rw [if_neg (by simp [hFlags])]
    exact .closed hFlags (by grind)

theorem Managed.step {event : Event} (hAlone : Alone s event) (hStep : step s event = some s') :
    Managed s' := by
  cases event with
  | load modelId concurrencyLimit capacity => exact hManaged.load hStep
  | unload modelId => exact hManaged.unload hStep
  | unloadDrained v => exact hManaged.unloadDrained hStep
  | unloadRaises v =>
    simp only [ModelManager.step, Option.ite_none_right_eq_some] at hStep
    rcases hStep with ⟨hHeld, ⟨⟩⟩
    exact hManaged.undrain (.inl (hManaged.counts v ▸ hHeld.2))
  | acquire modelId => exact hManaged.acquire hStep
  | release v => exact hManaged.release hStep
  | releaseAgain v =>
    -- Without another holder the counter is zero.
    have hZero : (s.manager.slots v).inFlight = 0 := by
      rw [hManaged.counts, count_eq_zero_of_not_mem hAlone]
    simp only [ModelManager.step, releaseSlot, hZero, Option.ite_none_right_eq_some] at hStep
    rcases hStep with ⟨_, ⟨⟩⟩
    exact { hManaged with }
  | closeIdle => exact hManaged.closeIdle hStep
  | closeModule v =>
    simp only [ModelManager.step, Option.ite_none_right_eq_some] at hStep
    rcases hStep with ⟨hPending, ⟨⟩⟩
    refine { hManaged with stage := fun u => ?_ }
    have hDoomed := ((perm_cons_erase hPending).append_left s.passed).trans perm_middle
    simpa only [State.doomed, cons_append, hDoomed.count_eq u] using hManaged.stage u

/- What is to be closed is listed once and has no holders. -/
theorem Managed.closed_once : s.doomed.Nodup ∧ ∀ v ∈ s.doomed, v ∉ s.holders := by
  have hOnce : ∀ v, s.doomed.count v ≤ 1 ∧ (0 < s.doomed.count v → s.holders.count v = 0) := by
    intro v
    cases hManaged.stage v with
    | serving _ hLists | leaving _ hLists | closed _ hLists => omega
  refine ⟨nodup_iff_count_le_one.mpr (fun v => (hOnce v).1), fun v hDoomed => ?_⟩
  exact count_eq_zero.mp ((hOnce v).2 (count_pos_iff.mpr hDoomed))

end

/- Every acquirer releases its slot once. -/
def Once (_ : State) : Event → Prop
| .releaseAgain _ => False
| _ => True

/-
  A module is closed at most once and not while a slot on it
  is held, slots are held up to their limit, and when no
  operation is under way every retired generation without
  holders was closed.
-/
theorem served_models_closed_once (hReach : Reachable step Once .new s) :
    s.passed.Nodup ∧ (∀ v ∈ s.passed, v ∉ s.holders) ∧ (∀ v, (s.manager.slots v).inFlight ≤
        (s.manager.slots v).concurrencyLimit) ∧
      (s.pending = [] → s.draining = [] → ∀ v, (s.manager.slots v).retired = true →
        v ∉ s.holders → v ∈ s.passed) := by
  have hManaged : Managed s := by
    refine hReach.invariant Managed ?_ .new
    intro s event s' hManaged hOnce hStep
    refine hManaged.step ?_ hStep
    cases event <;> trivial
  rcases hManaged.closed_once with ⟨hNodup, hUnused⟩
  refine ⟨hNodup.of_append_left, ?_, hManaged.limits, ?_⟩
  · exact fun v hPassed => hUnused v (mem_append_left _ hPassed)
  · intro hPending hDraining v hRetired hFree
    rw [← count_eq_zero] at hFree
    cases hManaged.stage v with
    | serving hFlags => simp [hFlags] at hRetired
    | leaving _ hLists => simp [hDraining, hFree] at hLists
    | closed _ hLists =>
      rw [← count_pos_iff]
      simp_all

/- A model is unloaded while a request holds its slot. -/
def unloadHeld : List Event :=
  [.load "m" 2 2, .acquire "m", .unload "m", .unloadDrained 0, .release 0, .closeModule 0]

theorem unloaded_model_closed_once : (run step .new unloadHeld).map (·.passed) = some [0] ∧
    ∀ s ∈ run step .new unloadHeld, s.passed.Nodup := by
  refine ⟨rfl, fun s hRun => ?_⟩
  have hOnce : ∀ event ∈ unloadHeld, ∀ s, Once s event := by simp [unloadHeld, Once]
  exact (served_models_closed_once (Reachable.of_run unloadHeld (Meets.of_forall _ hOnce _) hRun)).1

/-
  The slot has one counter for all its holders. A second
  release by one of them that finds no other holder changes
  nothing.
-/
theorem repeated_release_harmless (hReach : Reachable step Alone .new s) :
    (∀ v, (s.manager.slots v).inFlight = s.holders.count v) ∧ ∀ v ∈ s.passed, v ∉ s.holders := by
  have hManaged : Managed s := hReach.invariant Managed (fun _ _ _ hManaged hAlone hStep =>
        hManaged.step hAlone hStep)
      .new
  refine ⟨hManaged.counts, fun v hPassed => ?_⟩
  exact hManaged.closed_once.2 v (mem_append_left _ hPassed)

/- The only holder releases twice. -/
def releaseTwice : List Event :=
  [.load "m" 2 2, .acquire "m", .release 0, .releaseAgain 0]

theorem second_release_alone : (run step .new releaseTwice).map (·.holders) = some [] ∧
    ∀ s ∈ run step .new releaseTwice, (s.manager.slots 0).inFlight = s.holders.count 0 := by
  refine ⟨rfl, fun s hRun => ?_⟩
  have hMeets : Meets step Alone .new releaseTwice :=
    .cons rfl trivial (.cons rfl trivial (.cons rfl trivial (.cons rfl not_mem_nil trivial)))
  exact (repeated_release_harmless (Reachable.of_run _ hMeets hRun)).1 0

/- One of two holders releases twice: the module is closed
   under the other. -/
theorem second_release_closes_held : (run step .new [.load "m" 2 2, .acquire "m", .acquire "m",
      .unload "m", .release 0, .releaseAgain 0, .closeModule 0]).map
    (fun s => (s.passed, s.holders, (s.manager.slots 0).inFlight)) = some ([0], [0], 0) :=
  rfl

end ModelManager

end TensorTorrent
