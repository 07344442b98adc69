import TensorTorrent.Planner.Search

/-
  This file says what the states of the beam are (crate
  `tt-planner`, `search.rs`): replays of choices from the
  pools, one for each region searched so far. It also says
  that the worker count does not matter, and when the
  stored 16-bit indices tell the choices of a pool apart.

  Main declarations:
    * `Planner.beamSearch_reached`
    * `Planner.distinctIndices_of_small`
-/

namespace TensorTorrent

open Option List

namespace Planner

open Ranking

variable {ctx : SubsetContext}

----
-- Workers
----

private theorem flatten_chunks_aux {α : Type} (size : Nat) (items : List α) :
    ∀ count, ((List.range count).map (fun i =>
      (items.drop (i * size)).take size)).flatten = items.take (count * size) := by
  intro count
  induction count with
  | zero => simp
  | succ count ih =>
    rw [range_succ, map_append, flatten_append, ih, Nat.succ_mul, take_add]
    simp

/- Chunks of a positive size make up the list. -/
theorem flatten_chunks {α : Type} {size : Nat} (hSize : 0 < size) (items : List α) :
    (chunks size items).flatten = items := by
  rw [chunks, flatten_chunks_aux]
  refine take_of_length_le ?_
  have hDiv := Nat.div_add_mod (items.length + size - 1) size
  have hMod := Nat.mod_lt (items.length + size - 1) hSize
  rw [Nat.mul_comm] at hDiv
  omega

private theorem expand_flatten (ctx : SubsetContext) (region : Nat)
    (parts : List (List SearchState)) : (parts.map (expand ctx region)).flatMap Expansion.rows =
        (expand ctx region parts.flatten).rows ∧
      ((parts.map (expand ctx region)).map Expansion.expanded).sum =
        (expand ctx region parts.flatten).expanded ∧
      ((parts.map (expand ctx region)).map Expansion.pruned).sum =
        (expand ctx region parts.flatten).pruned := by
  induction parts with
  | nil => simp [expand]
  | cons part parts ih =>
    rcases ih with ⟨hRows, hExpanded, hPruned⟩
    simp only [map_cons, flatMap_cons, sum_cons, flatten_cons, hRows, hExpanded, hPruned]
    simp only [expand, flatMap_append, filterMap_append, length_append, countP_append, and_self]

/- A parallel expansion is the serial one. -/
theorem expandBeam_eq (execution : Execution) (region : Nat) (beam : List SearchState) :
    expandBeam ctx execution region beam = expand ctx region beam := by
  unfold expandBeam
  split
  · have hSize : 0 < chunkSize beam.length execution.workers :=
      lt_of_lt_of_le Nat.one_pos (Nat.le_max_right _ _)
    have hParts := expand_flatten ctx region (chunks (chunkSize beam.length execution.workers) beam)
    rw [flatten_chunks hSize] at hParts
    simp only [hParts.1, hParts.2.1, hParts.2.2]
  · rfl

variable {region : Nat}

theorem mem_expand_rows {states : List SearchState} {row : Row} :
    row ∈ (expand ctx region states).rows ↔ ∃ state ∈ states, ∃ choice ∈ poolOf ctx region,
      expandBy ctx region state choice = some row := by
  simp [expand]

variable {choice : Choice} {state : SearchState}

theorem expandBy_eq_some_iff {row : Row} : expandBy ctx region state choice = some row ↔ ∃ next,
    extendState ctx state region choice.1 choice.2 = some next ∧ row =
      { score := stateScore ctx next, state := next
        deviceSeq := deviceSeqOf ctx state ++ [asU16 choice.2.device] } := by
  unfold expandBy
  rw [map_eq_some_iff]
  simp only [stateScore, @eq_comm Row row]

----
-- Reached States
----

/- Choices for given regions, each from its pool. -/
def Drawn (ctx : SubsetContext) (regions : List Nat) (path : List (Nat × Choice)) : Prop :=
  path.map Prod.fst = regions ∧ ∀ step ∈ path, step.2 ∈ poolOf ctx step.1

/- The replay of choices for the given regions. -/
def Reached (ctx : SubsetContext) (regions : List Nat) (state : SearchState) : Prop :=
  ∃ path, Drawn ctx regions path ∧ extendAll ctx ctx.problem.root path = some state

theorem Drawn.append {front back : List Nat} {path path' : List (Nat × Choice)}
    (hFront : Drawn ctx front path) (hBack : Drawn ctx back path') :
    Drawn ctx (front ++ back) (path ++ path') := by
  refine ⟨by simp [hFront.1, hBack.1], fun step hStep => ?_⟩
  rcases mem_append.mp hStep with hIn | hIn
  · exact hFront.2 step hIn
  · exact hBack.2 step hIn

theorem Drawn.single (hChoice : choice ∈ poolOf ctx region) :
    Drawn ctx [region] [(region, choice)] := by
  refine ⟨rfl, fun step hStep => ?_⟩
  rw [mem_singleton.mp hStep]
  exact hChoice

theorem extendAll_append (path path' : List (Nat × Choice)) :
    ∀ state : SearchState, extendAll ctx state (path ++ path') =
      (extendAll ctx state path).bind (extendAll ctx · path') := by
  induction path with
  | nil => exact fun _ => rfl
  | cons step path ih =>
    intro state
    change (extendState ctx state step.1 step.2.1 step.2.2).bind (extendAll ctx · (path ++ path')) =
      ((extendState ctx state step.1 step.2.1
        step.2.2).bind (extendAll ctx · path)).bind (extendAll ctx · path')
    rw [bind_assoc]
    exact congrArg _ (funext ih)

theorem extendAll_single (state : SearchState) (region : Nat) (choice : Choice) :
    extendAll ctx state [(region, choice)] = extendState ctx state region choice.1 choice.2 := by
  exact bind_fun_some _

theorem Reached.root : Reached ctx [] ctx.problem.root :=
  ⟨[], ⟨rfl, by simp⟩, rfl⟩

variable {next : SearchState} {regions : List Nat}

/- The step: one more region. -/
theorem Reached.extend (hReached : Reached ctx regions state) (hChoice : choice ∈ poolOf ctx region)
    (hNext : extendState ctx state region choice.1 choice.2 = some next) :
    Reached ctx (regions ++ [region]) next := by
  rcases hReached with ⟨path, hDrawn, hPath⟩
  refine ⟨path ++ [(region, choice)], hDrawn.append (Drawn.single hChoice), ?_⟩
  rw [extendAll_append, hPath, bind_some, extendAll_single, hNext]

variable {region : Nat}

/- What transfers do not touch arrives unchanged. -/
theorem view_arrive {β : Type} (view : SearchState → β)
    (hView : ∀ estimate linkId nbytes depFinish arrival,
      view (occupyLink estimate linkId nbytes depFinish arrival).state = view arrival.state)
    {device : Nat} (deps : List Nat) :
    ∀ {before after : Arrival}, deps.foldlM (receive ctx region device) before = some after →
      view after.state = view before.state := by
  induction deps with
  | nil =>
    intro before after hAfter
    rw [Option.some.inj hAfter]
  | cons dep deps ih =>
    intro before after hAfter
    rcases Option.bind_eq_some_iff.mp hAfter with ⟨middle, hMiddle, hRest⟩
    refine (ih hRest).trans ?_
    unfold receive at hMiddle
    dsimp only at hMiddle
    split at hMiddle
    · exact absurd hMiddle (by simp)
    split at hMiddle
    · rw [← Option.some.inj hMiddle]
    simp only [bind_eq_bind, bind_eq_some_iff, Option.some.injEq] at hMiddle
    rcases hMiddle with ⟨estimate, -, linkId, -, hEq⟩
    rw [← hEq]
    exact hView _ _ _ _ _

/- So does what consumers do not touch. -/
theorem view_consume {β : Type} (view : SearchState → β) (hView : ∀ state remaining live, view
      { state with remainingConsumers := remaining, liveActivationBytes := live } = view state)
    (deps : List Nat) (state : SearchState) : view (deps.foldl consume state) = view state := by
  apply foldlRecOn (motive := fun now => view now = view state) deps consume rfl
  intro now hSame dep _
  rw [← hSame]
  unfold consume
  split
  · rfl
  dsimp only
  split
  · exact hView now _ _
  · exact hView now _ _

section

variable {candIdx : Nat} {candidate : CandidateKernel}
variable (hNext : extendState ctx state region candIdx candidate = some next)

include hNext

/- The stored indices are those of the choices. -/
theorem cands_extendState : next.placementCands = state.placementCands ++ [candIdx] := by
  rcases extendState_eq_some_iff.mp hNext with ⟨-, arrival, hArrival, -, hPlaced⟩
  have hCands : arrival.state.placementCands = state.placementCands :=
    view_arrive SearchState.placementCands (fun _ _ _ _ _ => rfl) _ hArrival
  rw [← hPlaced, ← hCands]
  unfold place
  dsimp only
  rw [view_consume SearchState.placementCands (fun _ _ _ => rfl)]
  split
  · rfl
  · rfl

/- Only the peak of the device that runs it can grow. -/
theorem peak_extendState :
    ∃ demand, exceeds (ctx.problem.capacity candidate.device) demand = false ∧
      next.peakBytes = state.peakBytes.modify candidate.device (max · demand) := by
  rcases extendState_eq_some_iff.mp hNext with ⟨-, arrival, hArrival, hFits, hPlaced⟩
  have hPeak : arrival.state.peakBytes = state.peakBytes :=
    view_arrive SearchState.peakBytes (fun _ _ _ _ _ => rfl) _ hArrival
  refine ⟨_, hFits, ?_⟩
  rw [← hPlaced, ← hPeak]
  unfold place
  rw [view_consume SearchState.peakBytes (fun _ _ _ => rfl)]
  split
  · rfl
  · rfl

end

variable {pool : List CandidateKernel} (path : List (Nat × Choice)) (workspace : Nat)

theorem cands_extendAll : ∀ {state last : SearchState}, extendAll ctx state path = some last →
    last.placementCands = state.placementCands ++ path.map (fun step => step.2.1) := by
  induction path with
  | nil =>
    intro state last hRun
    rw [← Option.some.inj hRun]
    simp
  | cons step path ih =>
    intro state last hRun
    rcases Option.bind_eq_some_iff.mp hRun with ⟨next, hNext, hRest⟩
    rw [ih hRest, cands_extendState hNext]
    simp

----
-- States of the Beam
----

variable {execution : Execution}

/- The best row of each key, after one region. -/
abbrev championsAfter (ctx : SubsetContext) (execution : Execution) (region : Nat)
    (beam : List SearchState) : List Row :=
  execution.values (dominant (expand ctx region beam).rows)

/- What one region of the search returns. -/
theorem beamStep_eq_some_iff {current next : BeamState} :
    beamStep ctx execution current region = some next ↔
      (expand ctx region current.beam).rows ≠ [] ∧ next =
        let champions := championsAfter ctx execution region current.beam
        let beam := selectBeam champions ctx.problem.config.beamWidth
        { beam := beam
          expanded := current.expanded + (expand ctx region current.beam).expanded
          pruned := current.pruned + (expand ctx region current.beam).pruned +
            (champions.length - beam.length) } := by
  unfold beamStep
  dsimp only
  rw [expandBeam_eq]
  split
  · next hEmpty => simp [hEmpty]
  · next hRows =>
    simp only [Option.some.injEq, ne_eq, hRows, not_false_eq_true, true_and]
    exact eq_comm

/- A selected state extends one of the beam before. -/
theorem beamStep_mem {current next : BeamState}
    (hStep : beamStep ctx execution current region = some next) (hState : state ∈ next.beam) :
    ∃ parent ∈ current.beam, ∃ choice ∈ poolOf ctx region,
      extendState ctx parent region choice.1 choice.2 = some state := by
  rcases beamStep_eq_some_iff.mp hStep with ⟨-, hNext⟩
  rw [hNext] at hState
  rcases mem_map.mp hState with ⟨row, hRow, hEq⟩
  have hSorted := mem_of_mem_take hRow
  have hChampion := (execution.values_perm _).mem_iff.mp (mem_sortOn.mp hSorted)
  rcases mem_expand_rows.mp (champions_subset _ _ hChampion)
    with ⟨parent, hParent, choice, hChoice, hBy⟩
  rcases expandBy_eq_some_iff.mp hBy with ⟨extended, hExtended, hIs⟩
  refine ⟨parent, hParent, choice, hChoice, ?_⟩
  rw [hExtended, ← hEq, hIs]

variable {final : BeamState}

/- A property of beams that each region carries on. -/
theorem beamSearch_induct (execution : Execution) (holds : List Nat → BeamState → Prop)
    (hRoot : holds [] { beam := [ctx.problem.root], expanded := 0, pruned := 0 })
    (hStep : ∀ done region rest current next, ctx.problem.order = done ++ region :: rest →
      holds done current → beamStep ctx execution current region = some next →
      holds (done ++ [region]) next) (hFinal : beamSearch ctx execution = some final) :
    holds ctx.problem.order final := by
  have hFrom : ∀ (rest done : List Nat) (current final : BeamState),
      ctx.problem.order = done ++ rest → holds done current →
      rest.foldlM (beamStep ctx execution) current = some final →
      holds ctx.problem.order final := by
    intro rest
    induction rest with
    | nil =>
      intro done current final hOrder hHolds hRun
      rw [append_nil] at hOrder
      rw [hOrder, ← Option.some.inj hRun]
      exact hHolds
    | cons region rest ih =>
      intro done current final hOrder hHolds hRun
      rcases Option.bind_eq_some_iff.mp hRun with ⟨next, hNext, hRest⟩
      exact ih (done ++ [region]) next final (by rw [hOrder, append_assoc, singleton_append])
        (hStep done region rest current next hOrder hHolds hNext) hRest
  exact hFrom ctx.problem.order [] _ final rfl hRoot hFinal

/- The run: every state of the beam is a replay. -/
theorem beamSearch_reached (hFinal : beamSearch ctx execution = some final) :
    ∀ state ∈ final.beam, Reached ctx ctx.problem.order state := by
  refine beamSearch_induct execution (fun done current =>
      ∀ state ∈ current.beam, Reached ctx done state)
    ?_ ?_ hFinal
  · intro state hState
    rw [mem_singleton.mp hState]
    exact .root
  · intro done region rest current next _ hReached hStep state hState
    rcases beamStep_mem hStep hState with ⟨parent, hParent, choice, hChoice, hNext⟩
    exact (hReached parent hParent).extend hChoice hNext

----
-- Indices of Choices
----

/- A pool keeps only candidates of the region. -/
theorem mem_filterPool (hChoice : choice ∈ filterPool ctx pool) :
    choice ∈ allowedChoices ctx pool := by
  rcases mem_flatMap.mp hChoice with ⟨device, -, hTake⟩
  exact (mem_filter.mp (mem_sortOn.mp (mem_of_mem_take hTake))).1

theorem mem_candidates_of_pool (hChoice : choice ∈ poolOf ctx region) :
    choice.2 ∈ ctx.problem.candidates.getD region [] ∧ ctx.allows choice.2.device := by
  rcases mem_filter.mp (mem_filterPool hChoice) with ⟨hMapped, hAllowed⟩
  rcases mem_mapIdx.mp hMapped with ⟨i, hi, hEq⟩
  refine ⟨?_, hAllowed⟩
  rw [← hEq]
  exact getElem_mem hi

/- No two choices of a pool share their 16-bit index. -/
def DistinctIndices (ctx : SubsetContext) : Prop :=
  ∀ region ∈ ctx.problem.order, ((poolOf ctx region).map Prod.fst).Nodup

/- The choice that an index of the pool stands for. -/
theorem findChoice_eq (hNodup : ((poolOf ctx region).map Prod.fst).Nodup)
    (hChoice : choice ∈ poolOf ctx region) : findChoice ctx region choice.1 = some choice := by
  cases hFound : findChoice ctx region choice.1 with
  | none =>
    have hNone := find?_eq_none.mp hFound choice hChoice
    simp at hNone
  | some other =>
    have hOther := mem_of_find?_eq_some hFound
    have hIndex := find?_some hFound
    rw [decide_eq_true_eq] at hIndex
    rw [inj_on_of_nodup_map hNodup hOther hChoice hIndex]

private theorem nodup_filterPool (hNodup : ((allowedChoices ctx pool).map Prod.fst).Nodup) :
    ((filterPool ctx pool).map Prod.fst).Nodup := by
  have hChoices := List.Nodup.of_map Prod.fst hNodup
  refine List.Nodup.map_on ?_ ?_
  · intro a hA b hB hEq
    exact inj_on_of_nodup_map hNodup (mem_filterPool hA) (mem_filterPool hB) hEq
  · refine nodup_flatMap.mpr ⟨?_, ?_⟩
    · intro device _
      refine List.Nodup.sublist (take_sublist _ _) ?_
      exact (sortOn_perm _ _).nodup_iff.mpr (hChoices.filter _)
    · refine List.Pairwise.imp ?_ ((sortOn_perm id _).nodup_iff.mpr (nodup_dedup _))
      intro device device' hOther choice hIn hIn'
      have hDevice := (mem_filter.mp (mem_sortOn.mp (mem_of_mem_take hIn))).2
      have hDevice' := (mem_filter.mp (mem_sortOn.mp (mem_of_mem_take hIn'))).2
      rw [decide_eq_true_eq] at hDevice hDevice'
      exact hOther (hDevice.symm.trans hDevice')

private theorem indices_eq (pool : List CandidateKernel) :
    (pool.mapIdx (fun i c => (asU16 i, c))).map Prod.fst = (List.range pool.length).map asU16 := by
  refine ext_getElem (by simp) fun i hi hi' => ?_
  simp

/- Up to 65536 candidates have distinct indices. -/
theorem distinctIndices_of_small (hSmall : ∀ region ∈ ctx.problem.order,
    (ctx.problem.candidates.getD region []).length ≤ 2 ^ 16) : DistinctIndices ctx := by
  intro region hRegion
  refine nodup_filterPool ?_
  refine List.Nodup.sublist (List.Sublist.map _ filter_sublist) ?_
  rw [indices_eq]
  refine List.Nodup.map_on ?_ nodup_range
  intro i hi j hj hEq
  have hLength := hSmall region hRegion
  rw [mem_range] at hi hj
  unfold asU16 at hEq
  rwa [Nat.mod_eq_of_lt (by omega), Nat.mod_eq_of_lt (by omega)] at hEq

private theorem path_eq_of_indices :
    ∀ {regions : List Nat} {path' : List (Nat × Choice)}, (∀ region ∈ regions,
        ((poolOf ctx region).map Prod.fst).Nodup) →
      Drawn ctx regions path → Drawn ctx regions path' →
      path.map (fun step => step.2.1) = path'.map (fun step => step.2.1) → path = path' := by
  induction path with
  | nil =>
    intro regions path' _ _ _ hIndices
    exact (map_eq_nil_iff.mp hIndices.symm).symm
  | cons step path ih =>
    rintro regions path' hDistinct ⟨hRegions, hPools⟩ ⟨hRegions', hPools'⟩ hIndices
    rcases map_eq_cons_iff.mp hIndices.symm with ⟨step', rest, rfl, hIndex, hRest⟩
    rw [← hRegions', map_cons, map_cons, List.cons.injEq] at hRegions
    have hStep := hPools step mem_cons_self
    have hStep' := hPools' step' mem_cons_self
    rw [hRegions.1] at hStep
    have hSame : step = step' := Prod.ext hRegions.1 (inj_on_of_nodup_map (hDistinct step'.1
      (hRegions' ▸ mem_cons_self)) hStep hStep' hIndex.symm)
    have hTail := ih (fun region hRegion =>
          hDistinct region (hRegions' ▸ mem_cons_of_mem _ hRegion))
        ⟨hRegions.2, fun s hs => hPools s (mem_cons_of_mem _ hs)⟩
        ⟨rfl, fun s hs => hPools' s (mem_cons_of_mem _ hs)⟩
        hRest.symm
    rw [hSame, hTail]

/- A replay is determined by its stored indices. -/
theorem Reached.eq_of_cands (hDistinct : DistinctIndices ctx)
    (hRegions : ∀ region ∈ regions, region ∈ ctx.problem.order) {state' : SearchState}
    (hState : Reached ctx regions state) (hState' : Reached ctx regions state')
    (hCands : state.placementCands = state'.placementCands) : state = state' := by
  rcases hState with ⟨path, hDrawn, hRun⟩
  rcases hState' with ⟨path', hDrawn', hRun'⟩
  rw [cands_extendAll path hRun, cands_extendAll path' hRun'] at hCands
  have hPath : path = path' := path_eq_of_indices path (fun region hRegion =>
        hDistinct region (hRegions region hRegion))
      hDrawn hDrawn' hCands
  rw [hPath, hRun'] at hRun
  exact (Option.some.inj hRun).symm

----
-- Results
----

/- Without passes the local search keeps its state. -/
theorem localSearchImprove_best (hIters : ctx.problem.config.localSearchIters = 0)
    (best : SearchState) (expanded pruned : Nat) :
    (localSearchImprove ctx best expanded pruned).best = best := by
  unfold localSearchImprove
  split
  · rfl
  · rw [hIters]
    rfl

/- A single result is the only finalist. -/
theorem selectFinalists_single (config : PlanningConfig) (result : SearchResult) :
    (selectFinalists config [result]).map FinalistPlan.result = [result] := by
  simp [selectFinalists, consider, Shortlist.push]

----
-- A Crowded Region
----

def fastKernel : CandidateKernel :=
  { device := 0, kernelId := "fast", estimatedLatencyS := 1, workspaceBytes := workspace }

def slowKernel : CandidateKernel :=
  { device := 0, kernelId := "slow", estimatedLatencyS := 2 }

def otherKernel : CandidateKernel :=
  { device := 1, kernelId := "other", estimatedLatencyS := 1 }

/-
  One region whose first and last candidate are 65536 apart,
  on the device of the only subset.
-/
def crowded : PlanningProblem :=
  { regions := [{ name := "r0" }]
    order := [0]
    candidates := [fastKernel workspace :: (List.replicate 65535 otherKernel ++ [slowKernel])]
    deviceNames := ["d0", "d1"], capacities := [10, 10], deviceMemory := ["m0", "m1"]
    subsets := [[0]]
    config :=
      { objective := .weighted, weightLatency := 0, weightMemory := 1, localSearchIters := 0 } }

/- Both candidates of the subset have the index zero. -/
theorem poolOf_crowded : poolOf (subsetContext (crowded workspace) [0]) 0 =
    [(0, fastKernel workspace), (0, slowKernel)] := by
  have hOthers : ((List.replicate 65535 otherKernel).mapIdx (fun i c => (asU16 (i + 1), c))).filter
      (fun choice => (subsetContext (crowded workspace) [0]).allows choice.2.device) = [] := by
    rw [filter_eq_nil_iff]
    intro choice hChoice
    rcases mem_mapIdx.mp hChoice with ⟨i, hi, hEq⟩
    rw [← hEq, getElem_replicate]
    exact Bool.false_ne_true
  have hAllowed : allowedChoices (subsetContext (crowded workspace) [0])
        (fastKernel workspace :: (List.replicate 65535 otherKernel ++ [slowKernel])) =
      [(0, fastKernel workspace), (0, slowKernel)] := by
    unfold allowedChoices
    rw [mapIdx_cons, mapIdx_append,
      filter_cons_of_pos rfl, filter_append, hOthers, length_replicate]
    rfl
  change filterPool _ (fastKernel workspace :: _) = _
  unfold filterPool
  rw [hAllowed]
  rfl

section Crowded

variable (workspace : Nat)

/- The search of the only subset. -/
abbrev crowdedCtx : SubsetContext :=
  subsetContext (crowded workspace) [0]

/- Either state is reported with the first kernel. -/
theorem resultFromState_crowded (counts : SearchCounts) (hCands : state.placementCands = [0]) :
    ∃ result, resultFromState (crowdedCtx workspace) [0] counts state = some result ∧
      result.latencyS = state.makespanS ∧
      result.placements = [placementRecord (crowded workspace) 0 (fastKernel workspace)] := by
  have hPlacements : placementsFromState (crowdedCtx workspace) state =
      some [placementRecord (crowded workspace) 0 (fastKernel workspace)] := by
    unfold placementsFromState placedCandidate findChoice
    rw [hCands]
    change List.mapM _ [(0, 0)] = _
    rw [mapM_cons]
    rw [poolOf_crowded]
    rfl
  unfold resultFromState
  rw [hPlacements]
  exact ⟨_, rfl, rfl, rfl⟩

variable {workspace} {execution : Execution}

/- The first state of the beam is the only result. -/
theorem searchSubsetEx_crowded {a b : SearchState}
    (hBeam : selectBeam (championsAfter (crowdedCtx workspace) execution 0
      [(crowded workspace).root]) 64 = [a, b])
    (hA : a.placementCands = [0]) (hB : b.placementCands = [0])
    (hLe : stateScore (crowdedCtx workspace) a ≤ stateScore (crowdedCtx workspace) b) :
    ∃ result, searchSubsetEx (crowded workspace) [0] execution = [result] ∧
      result.latencyS = a.makespanS ∧
      result.placements = [placementRecord (crowded workspace) 0 (fastKernel workspace)] := by
  have hRows : (expand (crowdedCtx workspace) 0 [(crowded workspace).root]).rows ≠ [] := by
    intro hNone
    rw [championsAfter, hNone] at hBeam
    have hEmpty := (execution.values_perm []).eq_nil
    change selectBeam (execution.values []) 64 = _ at hBeam
    rw [hEmpty] at hBeam
    exact cons_ne_nil _ _ hBeam.symm
  have hSearch : ∃ final, beamSearch (crowdedCtx workspace) execution =
      some final ∧ final.beam = [a, b] := by
    have hRun : beamSearch (crowdedCtx workspace) execution =
        beamStep (crowdedCtx workspace) execution
          { beam := [(crowded workspace).root], expanded := 0, pruned := 0 } 0 :=
      bind_fun_some _
    exact ⟨_, hRun.trans (beamStep_eq_some_iff.mpr ⟨hRows, rfl⟩), hBeam⟩
  rcases hSearch with ⟨final, hSearch, hFinal⟩
  have hRank : terminalRank (crowdedCtx workspace) a ≤ terminalRank (crowdedCtx workspace) b := by
    refine Prod.Lex.toLex_mono ⟨hLe, ?_⟩
    rw [hA, hB]
  have hSorted : sortOn (terminalRank (crowdedCtx workspace)) [a, b] = [a, b] := by
    simp [sortOn, hRank]
  have hPool : (crowded workspace).order.any (fun region =>
      (poolOf (crowdedCtx workspace) region).isEmpty) = false := by
    change ((poolOf (crowdedCtx workspace) 0).isEmpty || false) = false
    rw [poolOf_crowded]
    rfl
  have hTerminals : ∃ result, terminals (crowdedCtx workspace) [0] final = [(a, result)] ∧
      result.latencyS = a.makespanS ∧
      result.placements = [placementRecord (crowded workspace) 0 (fastKernel workspace)] := by
    unfold terminals
    rw [hFinal, hSorted]
    dsimp only
    rw [localSearchImprove_best rfl, hSorted]
    generalize localSearchImprove _ _ _ _ = improved
    rcases resultFromState_crowded workspace
        { expanded := improved.expanded, pruned := improved.pruned
          improvements := improved.improvements } hA with
      ⟨result, hResult, hReported⟩
    refine ⟨result, ?_, hReported⟩
    simp only [collectTerminals, hA, hB, not_mem_nil, hResult]
    rfl
  rcases hTerminals with ⟨result, hResult, hReported⟩
  refine ⟨result, ?_, hReported⟩
  unfold searchSubsetEx searchTerminals
  dsimp only
  rw [hPool, hSearch]
  change (terminals _ _ _).map _ = _
  rw [hResult]
  rfl

theorem planPlacements_crowded {result : SearchResult}
    (hResult : searchSubsetEx (crowded workspace) [0] execution = [result]) :
    (planPlacements (crowded workspace) (fun _ => execution)).map FinalistPlan.result =
      [result] := by
  have hSubsets : (crowded workspace).subsets = [[0]] := rfl
  unfold planPlacements
  rw [hSubsets, mapIdx_cons, hResult]
  exact selectFinalists_single _ result

/- The state after the region ran one of its kernels. -/
def crowdedState (workspace : Nat) (kernel : CandidateKernel) : SearchState :=
  place (crowded workspace) 0 0 kernel
    { state := (crowded workspace).root, ready := 0, incomingRemote := 0 }

end Crowded

end Planner

end TensorTorrent
