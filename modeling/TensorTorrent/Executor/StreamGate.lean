import TensorTorrent.Executor.Pooled

/-
  This file shows what the gate of the pooled dispatcher
  keeps apart: jobs in flight have different order keys, and
  a wave that the dispatcher runs itself has no key of a job
  in flight.

  Main declarations:
    * `Pooled.streams_exclusive`
-/

namespace TensorTorrent

open Transition List

namespace Pooled

variable {schedule : ExecutableSchedule} {config : Config} {s s' : State}

/- The instructions that a launch turn runs as a wave. -/
def waveOf (schedule : ExecutableSchedule) (config : Config) (s : State) : List InstructionId :=
  let releases := takeReady schedule isBatchedHandleRelease s.queues.ready
  let loads := takeReady schedule isBatchedParameterLoad s.queues.ready
  if config.handleRelease && !releases.1.isEmpty then
    releases.1
  else if config.parameterLoad && !loads.1.isEmpty then
    loads.1
  else []

variable {name : InstructionId}

theorem batched_of_mem_waveOf (hName : name ∈ waveOf schedule config s) :
    name ∈ s.queues.ready ∧ isBatched schedule config name = true := by
  unfold isBatched
  cases hInst : schedule.byName name <;> grind [waveOf, takeReady]

/- Before a turn without a wave nothing batched is ready. -/
theorem not_batched_of_waveOf (hNone : waveOf schedule config s = [])
    (hReady : name ∈ s.queues.ready) : isBatched schedule config name = false := by
  have hTaken : ∀ batched : Instruction → Bool, (schedule.byName name).any batched = true →
      name ∈ (takeReady schedule batched s.queues.ready).1 :=
    fun _ hKind => mem_filter.mpr ⟨hReady, hKind⟩
  unfold isBatched
  cases hInst : schedule.byName name <;> grind [waveOf]

/- A batched instruction is ready only while its key is
   free. -/
def Cleared (schedule : ExecutableSchedule) (config : Config) (busy : String → Bool)
    (queues : Queues) : Prop :=
  ∀ name ∈ queues.ready, isBatched schedule config name = true →
    ∀ key, keyOf schedule name = some key → busy key = false

/- The same for the keys and queues of a state. -/
abbrev ClearedIn (schedule : ExecutableSchedule) (config : Config) (s : State) : Prop :=
  Cleared schedule config s.resourceBusy s.queues

namespace Cleared

variable {busy : String → Bool} {queues : Queues}

/- Instructions leave `ready`, or are not batched. -/
theorem of_ready (hCleared : Cleared schedule config busy queues) {queues' : Queues}
    (hReady : ∀ name ∈ queues'.ready, name ∈ queues.ready) : Cleared schedule config busy queues' :=
  fun name hName => hCleared name (hReady name hName)

theorem enqueueReady (hCleared : Cleared schedule config busy queues) (name : InstructionId) :
    Cleared schedule config busy (enqueueReady schedule busy name queues) := by
  unfold Pooled.enqueueReady
  split
  · next key hKey =>
    split
    · exact hCleared
    rename_i hBusy
    intro other hOther hBatched otherKey hOtherKey
    rcases mem_append.mp hOther with hOld | hNew
    · exact hCleared other hOld hBatched otherKey hOtherKey
    · rw [mem_singleton.mp hNew, hKey] at hOtherKey
      cases hOtherKey
      simpa using hBusy
  · next hKey =>
    intro other hOther hBatched otherKey hOtherKey
    rcases mem_append.mp hOther with hOld | hNew
    · exact hCleared other hOld hBatched otherKey hOtherKey
    · rw [mem_singleton.mp hNew, hKey] at hOtherKey
      cases hOtherKey

theorem ready_submit (name : InstructionId) :
    (submit schedule s name).queues.ready = s.queues.ready := by
  unfold submit
  split
  · split <;> rfl
  · rfl

theorem ready_submitAll (names : List InstructionId) :
    (names.foldl (submit schedule) s).queues.ready = s.queues.ready := by
  induction names generalizing s with
  | nil => rfl
  | cons name names ih =>
    rw [foldl_cons, ih, ready_submit]

section

variable (hCleared : ClearedIn schedule config s)

include hCleared

theorem markDone (name : InstructionId) : ClearedIn schedule config (markDone schedule s name) := by
  simp only [Pooled.markDone, Dependency.unlock_eq]
  exact foldlRecOn _ _ hCleared (fun _ hQueues next _ => hQueues.enqueueReady next)

theorem markWave (wave : List InstructionId) :
    ClearedIn schedule config (wave.foldl (Pooled.markDone schedule) s) :=
  foldlRecOn wave _ hCleared (fun _ hCleared name _ => hCleared.markDone name)

/- The freed key goes to the head of its queue. -/
theorem receive (hKeyed : s.queues.Keyed schedule) (name : InstructionId) :
    ClearedIn schedule config (receive schedule s name) := by
  apply markDone
  cases hKey : keyOf schedule name with
  | none => exact hCleared
  | some key =>
    intro other hOther hBatched otherKey hOtherKey
    by_cases hSame : otherKey = key
    · simp [freeKey, hSame]
    simp only [freeKey, Function.update_of_ne hSame]
    refine hCleared other ?_ hBatched otherKey hOtherKey
    simp only [freeKey, Queues.popKey] at hOther
    split at hOther
    · exact hOther
    rename_i next rest hQueue
    rcases mem_append.mp hOther with hOld | hNew
    · exact hOld
    have hNext := hKeyed key next (by simp [hQueue])
    rw [mem_singleton.mp hNew, hNext] at hOtherKey
    cases hOtherKey
    exact absurd rfl hSame

/- What is launched takes keys when nothing batched is
   ready. -/
theorem launchTurn : ClearedIn schedule config (launchTurn schedule config s) := by
  simp only [Pooled.launchTurn]
  split
  · exact hCleared
  split
  · apply markWave
    exact hCleared.of_ready fun _ => mem_of_mem_filter
  rename_i hReleases
  simp only [Pooled.launchLoads]
  split
  · apply markWave
    exact hCleared.of_ready fun _ => mem_of_mem_filter
  rename_i hLoads
  have hNone : waveOf schedule config s = [] := by
    simp only [waveOf, hReleases, hLoads]
    rfl
  have hRest : ∀ t : State, t.queues.ready ⊆ s.queues.ready → ClearedIn schedule config t := by
    intro t hReady name hName hBatched
    rw [not_batched_of_waveOf hNone (hReady hName)] at hBatched
    cases hBatched
  have hComputes : (launchComputes schedule s).queues.ready ⊆ s.queues.ready := by
    rw [launchComputes, ready_submitAll]
    exact fun _ => mem_of_mem_filter
  have hOldest : ∀ t : State, (launchOldest schedule t).queues.ready ⊆ t.queues.ready := by
    intro t
    unfold launchOldest
    split
    · exact List.Subset.refl _
    · next name rest hReady =>
      rw [ready_submit, hReady]
      exact subset_cons_self _ _
  apply hRest
  unfold launchPreferred
  split
  · rw [ready_submit]
    exact fun _ => mem_of_mem_filter
  unfold launchCompute
  split
  · split
    · exact hComputes
    · exact List.Subset.trans (hOldest _) hComputes
  · exact hOldest s

end

end Cleared

/- A run up to its failure, if it failed. -/
def Traced (schedule : ExecutableSchedule) (config : Config) (s : State) : Prop :=
  ∃ t, (s = t ∨ s = fail schedule t) ∧ Located schedule [] t ∧
    Cleared schedule config t.resourceBusy t.queues

theorem Traced.step {event : Event} (hTraced : Traced schedule config s)
    (hStep : step schedule config s event = some s') : Traced schedule config s' := by
  rcases hTraced with ⟨t, hSame, hLocated, hCleared⟩
  rcases step_cases hStep with ⟨hRunning, hNext⟩
  have hEq : s = t := by
    refine hSame.resolve_right fun hFailed => ?_
    rw [hFailed] at hRunning
    cases hRunning
  subst hEq
  rcases hNext with rfl | ⟨name, hFlying, _, rfl⟩ | ⟨_, rfl⟩ | ⟨phase, rfl⟩
  · exact ⟨s, .inr rfl, hLocated, hCleared⟩
  · exact ⟨_, .inl rfl, hLocated.receive hFlying, hCleared.receive hLocated.keyed name⟩
  · exact ⟨_, .inl rfl, hLocated.launchTurn config, hCleared.launchTurn⟩
  · exact ⟨_, .inl rfl, hLocated.setPhase phase, hCleared⟩

variable {ready : List InstructionId}

theorem Traced.of_reachable (hReady : ready.Perm (sources schedule))
    {allowed : State → Event → Prop}
    (hReach : Reachable (Pooled.step schedule config) allowed (start schedule ready) s) :
    Traced schedule config s := by
  refine hReach.invariant (Traced schedule config) (fun _ _ _ hTraced _ hStep => hTraced.step hStep)
    ⟨_, .inl rfl, Located.start hReady, ?_⟩
  intro name _ _ key _
  rfl

/-
  Jobs in flight have different order keys, and none of
  these is the key of an instruction inside a wave.
-/
theorem streams_exclusive (schedule : ExecutableSchedule) (config : Config)
    (hReady : ready.Perm (sources schedule))
    (hReach : Reachable (step schedule config) always (start schedule ready) s) :
    (s.flying.filterMap (keyOf schedule)).Nodup ∧ ∀ name ∈ waveOf schedule config s, ∀ key,
      keyOf schedule name = some key → key ∉ s.flying.filterMap (keyOf schedule) := by
  rcases Traced.of_reachable hReady hReach with ⟨t, hSame, hLocated, hCleared⟩
  have hFlying : s.flying = t.flying := by rcases hSame with rfl | rfl <;> rfl
  have hQueues : s.queues = t.queues := by rcases hSame with rfl | rfl <;> rfl
  rw [hFlying]
  refine ⟨hLocated.flying_keys, ?_⟩
  intro name hName key hKey hTaken
  rcases batched_of_mem_waveOf hName with ⟨hIn, hBatched⟩
  rw [hQueues] at hIn
  have hBusy := (hLocated.busy_iff key).mpr hTaken
  rw [hCleared name hIn hBatched key hKey] at hBusy
  cases hBusy

/- The spill and the compute in flight. -/
theorem releases_exclusive : (run (step lifetimeStream releaseConfig)
      (start lifetimeStream ["spill::a", "compute::b"]) launchBoth).map (·.flying) =
    some ["spill::a", "compute::b"] ∧ ∀ s ∈ run (step lifetimeStream releaseConfig)
      (start lifetimeStream ["spill::a", "compute::b"])
      launchBoth, (s.flying.filterMap (keyOf lifetimeStream)).Nodup := by
  refine ⟨rfl, fun s hRun => ?_⟩
  exact (streams_exclusive lifetimeStream releaseConfig (List.Perm.refl ["spill::a", "compute::b"])
    (Reachable.of_run_always _ hRun)).1

/- Both jobs of the lifetime stream are done and its
   releases are ready. -/
def releasesReady : List Event :=
  launchBoth ++ completion "spill::a" ++ [.wake, .receive "compute::b", .drained]

/- Two releases of one stream inside a wave. -/
theorem wave_shares_stream : Accepted lifetimeStream ∧ ∃ s, run (step lifetimeStream releaseConfig)
    (start lifetimeStream ["spill::a", "compute::b"])
    releasesReady = some s ∧ ¬ ((s.flying ++ waveOf lifetimeStream releaseConfig s).filterMap
      (keyOf lifetimeStream)).Nodup :=
  ⟨lifetimeStream_accepted, _, rfl, by decide⟩

end Pooled

end TensorTorrent
