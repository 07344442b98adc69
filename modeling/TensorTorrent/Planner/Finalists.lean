import Mathlib.Data.List.GetD
import TensorTorrent.Planner.LocalSearch

/-
  This file says what the finalists of a plan report (crate
  `tt-planner`, `plan_placements`): one candidate for each
  region, in order, with the figures of their replay. It
  holds when no pool stores two candidates under the same
  16-bit index.

  Main declarations:
    * `Planner.finalists_sound`
-/

namespace TensorTorrent

open List

namespace Planner

open Ranking

----
-- Plans and Their Replays
----

/- No peak exceeds a positive capacity. -/
def Fits (problem : PlanningProblem) (state : SearchState) : Prop :=
  ∀ device, 0 < problem.capacity device → state.peakBytes.getD device 0 ≤ problem.capacity device

/-
  A result reports one candidate for each region, on the
  devices of the subset, and the state they replay to.
-/
structure Replays (problem : PlanningProblem) (subset : List Nat) (result : SearchResult)
    (path : List (Nat × Choice)) (state : SearchState) : Prop where
  once : path.map Prod.fst = problem.order ∧ ∀ region < problem.regions.length,
    (path.map Prod.fst).count region = 1
  candidates : ∀ step ∈ path, step.2.2 ∈ problem.candidates.getD step.1 [] ∧
    step.2.2.device ∈ subset
  placements : result.placements = path.map (fun step => placementRecord problem step.1 step.2.2)
  devices : result.subsetDevices = subsetDevices problem subset
  replay : extendAll (subsetContext problem subset) problem.root path = some state
  fits : ∀ k, ∃ reached, extendAll (subsetContext problem subset) problem.root
    (path.take k) = some reached ∧ Fits problem reached
  latency : result.latencyS = state.makespanS
  peaks : result.peakBytes = peakByName problem state.peakBytes
  transfers : result.transferBytes = state.transferBytes ∧
    result.transferLatencyS = state.transferLatencyS ∧ result.unmeasuredTransferCount =
      state.unmeasuredTransferCount ∧
    result.hostStagedTransferCount = state.hostStagedTransferCount

----
-- Capacities
----

section Capacities

variable {ctx : SubsetContext}

theorem Fits.root : Fits ctx.problem ctx.problem.root := by
  intro device _
  change (List.replicate _ 0).getD device 0 ≤ _
  rw [getD_eq_getElem?_getD, getElem?_getD_replicate_default_eq]
  exact Nat.zero_le _

/- The step: the region fits on its device. -/
theorem Fits.extend {state next : SearchState} (hFits : Fits ctx.problem state)
    {region candIdx : Nat} {candidate : CandidateKernel}
    (hNext : extendState ctx state region candIdx candidate = some next) :
    Fits ctx.problem next := by
  rcases peak_extendState hNext with ⟨demand, hDemand, hPeak⟩
  intro device hPositive
  have hOld := hFits device hPositive
  rw [hPeak, getD_eq_getElem?_getD, getElem?_modify]
  rw [getD_eq_getElem?_getD] at hOld
  simp only [exceeds, Bool.and_eq_false_iff, decide_eq_false_iff_not] at hDemand
  split
  · next hSame =>
    rw [hSame] at hDemand
    cases hPeakAt : state.peakBytes[device]? with
    | none => simp
    | some peak =>
      rw [hPeakAt] at hOld
      simp only [Option.map_eq_map, Option.map_some, Option.getD_some] at hOld ⊢
      omega
  · simpa using hOld

/- The run: so does every region of a replay. -/
theorem Fits.extendAll (path : List (Nat × Choice)) :
    ∀ {state last : SearchState}, Fits ctx.problem state → extendAll ctx state path = some last →
      Fits ctx.problem last := by
  induction path with
  | nil =>
    intro state last hFits hRun
    rw [← Option.some.inj hRun]
    exact hFits
  | cons step path ih =>
    intro state last hFits hRun
    rcases Option.bind_eq_some_iff.mp hRun with ⟨next, hNext, hRest⟩
    exact ih (hFits.extend hNext) hRest

end Capacities

----
-- Results of a Subset
----

variable {problem : PlanningProblem} {subset : List Nat}

theorem mem_subset_of_allows {device : Nat}
    (hAllows : (subsetContext problem subset).allows device = true) : device ∈ subset := by
  have hMask : ∀ (devices : List Nat) (mask : List Bool), (devices.foldl
        (fun mask d => mask.set d true) mask).getD device false = true →
      device ∈ devices ∨ mask.getD device false = true := by
    intro devices
    induction devices with
    | nil => exact fun _ => Or.inr
    | cons first devices ih =>
      intro mask hSet
      rcases ih _ hSet with hIn | hHead
      · exact .inl (mem_cons_of_mem _ hIn)
      by_cases hSame : first = device
      · exact .inl (hSame ▸ mem_cons_self)
      · refine .inr ?_
        rwa [getD_eq_getElem?_getD, getElem?_set_ne hSame, ← getD_eq_getElem?_getD] at hHead
  refine (hMask subset _ hAllows).resolve_right ?_
  rw [getD_eq_getElem?_getD, getElem?_getD_replicate_default_eq]
  exact Bool.false_ne_true

section Results

variable {ctx : SubsetContext} {subset : List Nat}

/- A collected result is that of its state. -/
theorem mem_collectTerminals {toResult : SearchState → Option SearchResult} {keep : Nat}
    (states : List SearchState) :
    ∀ {seen : List (List Nat)} {out : List (SearchState × SearchResult)}
      {entry : SearchState × SearchResult}, entry ∈ collectTerminals toResult keep seen states out →
      entry ∈ out ∨ (entry.1 ∈ states ∧ toResult entry.1 = some entry.2) := by
  induction states with
  | nil => exact fun hEntry => Or.inl hEntry
  | cons state states ih =>
    intro seen out entry hEntry
    have hLater : ∀ {seen out}, entry ∈ collectTerminals toResult keep seen states out →
        entry ∈ out ∨ (entry.1 ∈ state :: states ∧ toResult entry.1 = some entry.2) :=
      fun hIn => (ih hIn).imp_right (And.imp_left (mem_cons_of_mem _))
    have hNew : ∀ {result}, toResult state = some result → entry ∈ out ++ [(state, result)] →
        entry ∈ out ∨ (entry.1 ∈ state :: states ∧ toResult entry.1 = some entry.2) := by
      intro result hResult hIn
      rcases mem_append.mp hIn with hOut | hLast
      · exact .inl hOut
      · rw [mem_singleton.mp hLast]
        exact .inr ⟨mem_cons_self, hResult⟩
    unfold collectTerminals at hEntry
    split at hEntry
    · exact hLater hEntry
    split at hEntry
    · exact hLater hEntry
    rename_i result hResult
    split at hEntry
    · exact hNew hResult hEntry
    · rcases hLater hEntry with hIn | hFound
      · exact hNew hResult hIn
      · exact .inr hFound

/- Terminals are replays of choices from the pools. -/
theorem terminals_reached (hDistinct : DistinctIndices ctx) {final : BeamState}
    (hFinal : ∀ state ∈ final.beam, Reached ctx ctx.problem.order state)
    {entry : SearchState × SearchResult} (hEntry : entry ∈ terminals ctx subset final) :
    Reached ctx ctx.problem.order entry.1 ∧
      ∃ counts, resultFromState ctx subset counts entry.1 = some entry.2 := by
  unfold terminals at hEntry
  split at hEntry
  · exact absurd hEntry not_mem_nil
  rename_i best others hSorted
  have hBeam : ∀ state ∈ best :: others, Reached ctx ctx.problem.order state := by
    intro state hState
    rw [← hSorted, mem_sortOn] at hState
    exact hFinal state hState
  rcases (mem_collectTerminals _ hEntry).resolve_left not_mem_nil with ⟨hIn, hResult⟩
  refine ⟨?_, _, hResult⟩
  rcases mem_cons.mp (mem_sortOn.mp hIn) with hBest | hOther
  · rw [hBest]
    exact localSearchImprove_reached hDistinct (hBeam best mem_cons_self) _ _
  · exact hBeam _ (mem_cons_of_mem _ hOther)

/- The records of a state are those of its choices. -/
theorem placementsFromState_eq (hDistinct : DistinctIndices ctx) {path : List (Nat × Choice)}
    (hDrawn : Drawn ctx ctx.problem.order path) {state : SearchState}
    (hRun : extendAll ctx ctx.problem.root path = some state) :
    placementsFromState ctx state = some (path.map (fun step =>
      placementRecord ctx.problem step.1 step.2.2)) := by
  have hRecords : ∀ path : List (Nat × Choice), (∀ step ∈ path,
        findChoice ctx step.1 step.2.1 = some step.2) →
      ((path.map Prod.fst).zip (path.map (fun step => step.2.1))).mapM (fun step =>
          (placedCandidate ctx step.1 step.2).map (placementRecord ctx.problem step.1)) =
        some (path.map (fun step => placementRecord ctx.problem step.1 step.2.2)) := by
    intro path
    induction path with
    | nil => exact fun _ => rfl
    | cons step path ih =>
      intro hFound
      have hRest := ih (fun other hOther => hFound other (mem_cons_of_mem _ hOther))
      rw [map_cons, map_cons, map_cons, zip_cons_cons, mapM_cons, hRest,
        placedCandidate, hFound step mem_cons_self]
      rfl
  unfold placementsFromState
  rw [cands_extendAll path hRun, ← hDrawn.1]
  exact hRecords path (findChoice_of_drawn hDistinct hDrawn)

end Results

/- Every result of a subset reports its replay. -/
theorem searchSubsetEx_replays (hOrder : problem.order.Perm (List.range problem.regions.length))
    (hDistinct : DistinctIndices (subsetContext problem subset)) {execution : Execution}
    {result : SearchResult} (hResult : result ∈ searchSubsetEx problem subset execution) :
    ∃ path state, Replays problem subset result path state := by
  rcases mem_map.mp hResult with ⟨⟨state, found⟩, hEntry, hEq⟩
  have hTerminal : ∃ final, beamSearch (subsetContext problem subset) execution = some final ∧
      (state, found) ∈ terminals (subsetContext problem subset) subset final := by
    unfold searchTerminals at hEntry
    dsimp only at hEntry
    split at hEntry
    · exact absurd hEntry not_mem_nil
    split at hEntry
    · exact absurd hEntry not_mem_nil
    · split at hEntry
      · exact absurd hEntry not_mem_nil
      · next final hFinal => exact ⟨final, hFinal, hEntry⟩
  rcases hTerminal with ⟨final, hFinal, hIn⟩
  rcases terminals_reached hDistinct (beamSearch_reached hFinal) hIn with
    ⟨⟨path, hDrawn, hRun⟩, counts, hFrom⟩
  unfold resultFromState at hFrom
  rw [placementsFromState_eq hDistinct hDrawn hRun, Option.map_some, Option.some.injEq] at hFrom
  have hRegions : path.map Prod.fst = problem.order := hDrawn.1
  refine ⟨path, state, ?_⟩
  rw [← hEq, ← hFrom]
  exact
    { once := by
        refine ⟨hRegions, fun region hRegion => ?_⟩
        rw [hRegions, hOrder.count_eq]
        exact count_eq_one_of_mem nodup_range (mem_range.mpr hRegion)
      candidates := by
        intro step hStep
        have hPool := mem_candidates_of_pool (hDrawn.2 step hStep)
        exact ⟨hPool.1, mem_subset_of_allows hPool.2⟩
      placements := rfl, devices := rfl, replay := hRun
      fits := by
        intro k
        have hSplit := hRun
        rw [← take_append_drop k path, extendAll_append] at hSplit
        rcases Option.bind_eq_some_iff.mp hSplit with ⟨reached, hReached, -⟩
        exact ⟨reached, hReached, .extendAll _ .root hReached⟩
      latency := rfl, peaks := rfl, transfers := ⟨rfl, rfl, rfl, rfl⟩ }

----
-- Finalists
----

/- A finalist is one of the feasible results. -/
theorem selectFinalists_mem {config : PlanningConfig} {feasible : List SearchResult}
    {plan : FinalistPlan} (hPlan : plan ∈ selectFinalists config feasible) :
    plan.result ∈ feasible := by
  have hPass : ∀ (k : Nat) (cap : Option Nat) (ranked : List (SearchResult × Nat))
      (list : Shortlist),
      (∀ entry ∈ ranked, entry.1 ∈ feasible) → (∀ plan ∈ list.finalists, plan.result ∈ feasible) →
      ∀ plan ∈ (ranked.foldl (consider k cap) list).finalists, plan.result ∈ feasible := by
    intro k cap ranked
    induction ranked with
    | nil => exact fun _ _ hList => hList
    | cons entry ranked ih =>
      intro list hRanked hList
      have hFirst := hRanked entry mem_cons_self
      have hPushed : ∀ plan ∈ (list.push entry.2 entry.1).finalists, plan.result ∈ feasible := by
        intro plan hIn
        rcases mem_append.mp hIn with hOld | hNew
        · exact hList plan hOld
        · rw [mem_singleton.mp hNew]
          exact hFirst
      refine ih _ (fun other hOther => hRanked other (mem_cons_of_mem _ hOther)) ?_
      unfold consider
      dsimp only
      split
      · exact hList
      split
      · exact hList
      split
      · split
        · exact hList
        · exact hPushed
      · exact hPushed
  have hRanked : ∀ entry ∈ feasible.zipIdx, entry.1 ∈ feasible :=
    fun entry hEntry => fst_mem_of_mem_zipIdx hEntry
  refine hPass _ none _ _ hRanked ?_ plan hPlan
  exact hPass _ _ _ _ hRanked (fun _ hNone => absurd hNone not_mem_nil)

/-
  Finalists are sound when no pool of a subset repeats an
  index, under any worker counts and map orders.
-/
theorem finalists_sound (problem : PlanningProblem)
    (hOrder : problem.order.Perm (List.range problem.regions.length))
    (hDistinct : ∀ subset ∈ problem.subsets, DistinctIndices (subsetContext problem subset))
    (executions : Nat → Execution) :
    ∀ plan ∈ planPlacements problem executions, ∃ subset ∈ problem.subsets, ∃ path state,
      Replays problem subset plan.result path state := by
  intro plan hPlan
  have hFeasible := mem_sortOn.mp (selectFinalists_mem hPlan)
  rcases mem_flatten.mp hFeasible with ⟨results, hResults, hIn⟩
  rcases mem_mapIdx.mp hResults with ⟨i, hi, hEq⟩
  rw [← hEq] at hIn
  refine ⟨problem.subsets[i], getElem_mem hi, ?_⟩
  exact searchSubsetEx_replays hOrder (hDistinct _ (getElem_mem hi)) hIn

theorem finalists_sound_two_kernels : [0].Perm (List.range 1) ∧ ∀ plan ∈ planPlacements
    { crowded 1 with candidates := [[fastKernel 1, slowKernel]] }
    (fun _ => .serial), ∃ subset ∈ [[0]], ∃ path state, Replays
      { crowded 1 with candidates := [[fastKernel 1, slowKernel]] }
      subset plan.result path state := by
  refine ⟨List.Perm.refl _, finalists_sound _ (List.Perm.refl _) ?_ _⟩
  intro subset _
  refine distinctIndices_of_small ?_
  intro region hRegion
  rw [mem_singleton.mp hRegion]
  exact Nat.le_of_ble_eq_true rfl

/- Latency of the only region, whatever index is stored. -/
theorem makespan_crowded (index : Nat) {state : SearchState}
    (hRun : extendAll (crowdedCtx 1) (crowded 1).root [(0, index, fastKernel 1)] = some state) :
    state.makespanS = 1 := by
  have hState : extendAll (crowdedCtx 1) (crowded 1).root [(0, index, fastKernel 1)] = some
    { crowdedState 1 (fastKernel 1) with placementCands := [index] } := rfl
  rw [hState, Option.some.injEq] at hRun
  rw [← hRun]
  change (crowdedState 1 (fastKernel 1)).makespanS = 1
  decide +kernel

/- The plan names one kernel and has the other's latency. -/
theorem crowded_names_other_kernel : ∃ plan ∈ planPlacements (crowded 1) (fun _ => .serial),
    ¬ ∃ subset ∈ (crowded 1).subsets, ∃ path state,
      Replays (crowded 1) subset plan.result path state := by
  have hRows : (expand (crowdedCtx 1) 0 [(crowded 1).root]).rows =
      [{ score := 1 / 10, state := crowdedState 1 (fastKernel 1), deviceSeq := [0] },
        { score := 0, state := crowdedState 1 slowKernel
          deviceSeq := [0] }] := by
    unfold expand
    rw [poolOf_crowded]
    decide +kernel
  have hBeam : selectBeam (championsAfter (crowdedCtx 1) .serial 0 [(crowded 1).root]) 64 =
      [crowdedState 1 slowKernel, crowdedState 1 (fastKernel 1)] := by
    rw [championsAfter, hRows]
    decide +kernel
  rcases searchSubsetEx_crowded hBeam rfl rfl (by decide +kernel) with
    ⟨result, hResult, hLatency, hPlacements⟩
  have hPlans := planPlacements_crowded hResult
  rcases map_eq_singleton_iff.mp hPlans with ⟨plan, hPlan, hIs⟩
  refine ⟨plan, hPlan ▸ mem_singleton_self plan, ?_⟩
  rintro ⟨subset, hSubset, path, state, hReplays⟩
  have hSlow : plan.result.latencyS = 2 := by
    rw [hIs, hLatency]
    decide +kernel
  rw [mem_singleton.mp hSubset] at hReplays
  rcases map_eq_singleton_iff.mp hReplays.once.1 with ⟨⟨region, index, kernel⟩, hPath, hRegion⟩
  rw [hPath, show region = 0 from hRegion] at hReplays
  have hName : kernel.kernelId = "fast" := by
    have hRecords := hReplays.placements
    rw [hIs, hPlacements] at hRecords
    exact congrArg PlacementRecord.kernelId (singleton_inj.mp hRecords).symm
  have hKernel : kernel = fastKernel 1 := by
    rcases hReplays.candidates _ mem_cons_self with ⟨hMember, hDevice⟩
    rcases mem_cons.mp hMember with hFast | hRest
    · exact hFast
    rcases mem_append.mp hRest with hOther | hLast
    · rw [eq_of_mem_replicate hOther] at hDevice
      exact absurd hDevice (by decide)
    · have hSlowName := congrArg CandidateKernel.kernelId (mem_singleton.mp hLast)
      rw [hName] at hSlowName
      exact absurd hSlowName (by decide)
  rw [hKernel] at hReplays
  have hFast := makespan_crowded index hReplays.replay
  rw [← hReplays.latency, hSlow] at hFast
  norm_num at hFast

end Planner

end TensorTorrent
