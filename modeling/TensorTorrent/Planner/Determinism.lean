import TensorTorrent.Planner.Beam

/-
  This file says when the results of the planner do not
  depend on the worker count and on the iteration order of
  the dominance map (crate `tt-planner`, `search.rs` and
  `lib.rs`): when no pool stores two candidates under the
  same 16-bit index.

  Main declarations:
    * `Planner.placements_deterministic`
-/

namespace TensorTorrent

open List

namespace Planner

open Ranking

section Search

variable {ctx : SubsetContext} (hDistinct : DistinctIndices ctx)

include hDistinct

----
-- One Region
----

section

variable {done : List Nat} {region : Nat} (hOrder : ∀ r ∈ done ++ [region], r ∈ ctx.problem.order)

include hOrder

variable {states : List SearchState}

/- Rows of one expansion differ in their indices. -/
theorem row_eq_of_cands (hReached : ∀ state ∈ states, Reached ctx done state) {row row' : Row}
    (hRow : row ∈ (expand ctx region states).rows) (hRow' : row' ∈ (expand ctx region states).rows)
    (hCands : row.state.placementCands = row'.state.placementCands) : row = row' := by
  rcases mem_expand_rows.mp hRow with ⟨parent, hParent, choice, hChoice, hBy⟩
  rcases mem_expand_rows.mp hRow' with ⟨parent', hParent', choice', hChoice', hBy'⟩
  rcases expandBy_eq_some_iff.mp hBy with ⟨next, hNext, hIs⟩
  rcases expandBy_eq_some_iff.mp hBy' with ⟨next', hNext', hIs'⟩
  rw [hIs, hIs'] at hCands
  change next.placementCands = next'.placementCands at hCands
  rw [cands_extendState hNext, cands_extendState hNext'] at hCands
  rcases append_inj' hCands rfl with ⟨hFront, hLast⟩
  have hParents : parent = parent' := (hReached parent hParent).eq_of_cands hDistinct
    (fun r hr => hOrder r (mem_append_left _ hr))
    (hReached parent' hParent') hFront
  have hChoices : choice = choice' := inj_on_of_nodup_map
    (hDistinct region (hOrder region (by simp)))
    hChoice hChoice' (singleton_inj.mp hLast)
  rw [hParents, hChoices, hBy'] at hBy
  exact (Option.some.inj hBy).symm

/- The selection does not see the order of the map. -/
theorem selectBeam_congr (hReached : ∀ state ∈ states, Reached ctx done state)
    {rows rows' : List Row} (hRows : rows.Perm (dominant (expand ctx region states).rows))
    (hRows' : rows'.Perm (dominant (expand ctx region states).rows)) (beamWidth : Nat) :
    selectBeam rows beamWidth = selectBeam rows' beamWidth := by
  have hSorted : sortOn beamRank rows = sortOn beamRank rows' := by
    refine sortOn_eq_of_perm (hRows.trans hRows'.symm) ?_
    intro a hA b hB hRank
    have hCands : a.state.placementCands = b.state.placementCands :=
      congrArg (fun r => (ofLex (ofLex r).2).2) hRank
    exact row_eq_of_cands hDistinct hOrder hReached (champions_subset _ _ (hRows.mem_iff.mp hA))
      (champions_subset _ _ (hRows.mem_iff.mp hB)) hCands
  unfold selectBeam
  rw [hSorted]

/- The step: one region, under any two executions. -/
theorem beamStep_congr {current : BeamState}
    (hReached : ∀ state ∈ current.beam, Reached ctx done state) (execution execution' : Execution) :
    beamStep ctx execution current region = beamStep ctx execution' current region := by
  unfold beamStep
  dsimp only
  rw [expandBeam_eq, expandBeam_eq, selectBeam_congr hDistinct hOrder hReached
      (execution.values_perm _) (execution'.values_perm _), (execution.values_perm _).length_eq,
    (execution'.values_perm _).length_eq]

end

----
-- All Regions
----

private theorem foldlM_beamStep_congr (execution execution' : Execution) :
    ∀ (rest done : List Nat) (current : BeamState), ctx.problem.order = done ++ rest →
      (∀ state ∈ current.beam, Reached ctx done state) →
      rest.foldlM (beamStep ctx execution) current =
        rest.foldlM (beamStep ctx execution') current := by
  intro rest
  induction rest with
  | nil => exact fun _ _ _ _ => rfl
  | cons region rest ih =>
    intro done current hOrder hReached
    have hStep : beamStep ctx execution current region =
        beamStep ctx execution' current region := by
      refine beamStep_congr hDistinct ?_ hReached _ _
      intro r hr
      rw [hOrder, append_cons]
      exact mem_append_left _ hr
    rw [foldlM_cons, foldlM_cons, hStep]
    refine Option.bind_congr fun next hNext => ?_
    refine ih (done ++ [region]) next (by simp [hOrder]) ?_
    intro state hState
    rcases beamStep_mem hNext hState with ⟨parent, hParent, choice, hChoice, hExtended⟩
    exact (hReached parent hParent).extend hChoice hExtended

/- The run: the last beam. -/
theorem beamSearch_congr (execution execution' : Execution) :
    beamSearch ctx execution = beamSearch ctx execution' := by
  refine foldlM_beamStep_congr hDistinct execution execution' ctx.problem.order [] _ rfl ?_
  intro state hState
  rw [mem_singleton.mp hState]
  exact .root

end Search

----
-- Results and Finalists
----

/- The results of a subset. -/
theorem searchSubsetEx_congr {problem : PlanningProblem} {subset : List Nat}
    (hDistinct : DistinctIndices (subsetContext problem subset))
    (execution execution' : Execution) :
    searchSubsetEx problem subset execution = searchSubsetEx problem subset execution' := by
  unfold searchSubsetEx searchTerminals
  dsimp only
  rw [beamSearch_congr hDistinct execution execution']

/-
  Results do not depend on workers, chunks and the order of
  the dominance map when no pool of a subset repeats an
  index.
-/
theorem placements_deterministic (problem : PlanningProblem)
    (hDistinct : ∀ subset ∈ problem.subsets, DistinctIndices (subsetContext problem subset)) :
    (∀ subset ∈ problem.subsets, ∀ execution execution' : Execution,
        searchSubsetEx problem subset execution = searchSubsetEx problem subset execution') ∧
      ∀ executions executions' : Nat → Execution, planPlacements problem executions =
        planPlacements problem executions' := by
  refine ⟨fun subset hSubset => searchSubsetEx_congr (hDistinct subset hSubset), ?_⟩
  intro executions executions'
  have hFeasible : problem.subsets.mapIdx (fun i subset =>
        searchSubsetEx problem subset (executions i)) =
      problem.subsets.mapIdx (fun i subset => searchSubsetEx problem subset (executions' i)) := by
    refine ext_getElem (by simp) fun i hi hi' => ?_
    rw [getElem_mapIdx, getElem_mapIdx]
    exact searchSubsetEx_congr (hDistinct _ (getElem_mem _)) _ _
  unfold planPlacements
  rw [hFeasible]

/- The map yields the last row first. -/
def Execution.reversed : Execution :=
  { workers := 1, values := List.reverse, values_perm := reverse_perm }

/- A pool of two kernels. -/
theorem two_kernels_deterministic : planPlacements
    { crowded 0 with candidates := [[fastKernel 0, slowKernel]] }
    (fun _ => .serial) = planPlacements
    { crowded 0 with candidates := [[fastKernel 0, slowKernel]] }
    (fun _ => .reversed) := by
  refine (placements_deterministic _ ?_).2 _ _
  intro subset _
  refine distinctIndices_of_small ?_
  intro region hRegion
  rw [mem_singleton.mp hRegion]
  exact Nat.le_of_ble_eq_true rfl

/- Two kernels under one index: the map decides. -/
theorem crowded_depends_on_order :
    (planPlacements (crowded 0) (fun _ => .serial)).map (fun plan => plan.result.latencyS) = [1] ∧
      (planPlacements (crowded 0) (fun _ => .reversed)).map
        (fun plan => plan.result.latencyS) = [2] := by
  have hRows : (expand (crowdedCtx 0) 0 [(crowded 0).root]).rows =
      [{ score := 0, state := crowdedState 0 (fastKernel 0), deviceSeq := [0] },
        { score := 0, state := crowdedState 0 slowKernel
          deviceSeq := [0] }] := by
    unfold expand
    dsimp only
    rw [poolOf_crowded]
    decide +kernel
  have hLatency : ∀ (execution : Execution) (a b : SearchState),
      selectBeam (championsAfter (crowdedCtx 0) execution 0 [(crowded 0).root]) 64 = [a, b] →
      a.placementCands = [0] → b.placementCands = [0] →
      stateScore (crowdedCtx 0) a ≤ stateScore (crowdedCtx 0) b →
      (planPlacements (crowded 0) (fun _ => execution)).map
        (fun plan => plan.result.latencyS) = [a.makespanS] := by
    intro execution a b hBeam hA hB hLe
    rcases searchSubsetEx_crowded hBeam hA hB hLe with ⟨result, hResult, hLatency, -⟩
    have hPlans := planPlacements_crowded hResult
    rw [← hLatency]
    exact (map_map.symm.trans (congrArg (List.map SearchResult.latencyS) hPlans))
  constructor
  · refine (hLatency _ (crowdedState 0 (fastKernel 0))
      (crowdedState 0 slowKernel) ?_ rfl rfl ?_).trans ?_
    · rw [championsAfter, hRows]
      decide +kernel
    · decide +kernel
    · decide +kernel
  · refine (hLatency _ (crowdedState 0 slowKernel)
      (crowdedState 0 (fastKernel 0)) ?_ rfl rfl ?_).trans ?_
    · rw [championsAfter, hRows]
      decide +kernel
    · decide +kernel
    · decide +kernel

end Planner

end TensorTorrent
