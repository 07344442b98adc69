import TensorTorrent.Planner.Beam

/-
  This file says what the local search returns (crate
  `tt-planner`, `search.rs`): the replay of its own choices,
  each from the pool of its region, whatever it takes from
  the states that it stored before a step.

  Main declarations:
    * `Planner.replayAssignment_set`
    * `Planner.localSearchImprove_reached`
-/

namespace TensorTorrent

open List

namespace Planner

variable {ctx : SubsetContext}

----
-- One Choice Replaced
----

section Steps

variable {assignment : List Choice} (index : Nat) (choice : Choice)

theorem take_steps_set : (steps ctx.problem (assignment.set index choice)).take index =
    (steps ctx.problem assignment).take index := by
  unfold steps
  rw [zip_eq_zipWith, zip_eq_zipWith, take_zipWith, take_zipWith, take_set_of_le le_rfl]

theorem length_le_of_drawn (hDrawn : Drawn ctx ctx.problem.order (steps ctx.problem assignment)) :
    ctx.problem.order.length ≤ assignment.length := by
  have hLength := congrArg List.length hDrawn.1
  rw [length_map, steps, length_zip] at hLength
  omega

variable {index choice}

/- The other choices stay. -/
theorem Drawn.set (hDrawn : Drawn ctx ctx.problem.order (steps ctx.problem assignment))
    (hChoice : choice ∈ poolOf ctx (ctx.problem.order.getD index 0)) :
    Drawn ctx ctx.problem.order (steps ctx.problem (assignment.set index choice)) := by
  have hLength := length_le_of_drawn hDrawn
  refine ⟨map_fst_zip (by simpa using hLength), ?_⟩
  intro step hStep
  rcases mem_iff_getElem.mp hStep with ⟨i, hi, hEq⟩
  have hBound : i < ctx.problem.order.length := by
    rw [steps, length_zip] at hi
    omega
  have hOld := hDrawn.2 (ctx.problem.order[i], assignment[i])
    (mem_iff_getElem.mpr ⟨i, by simp [steps]; omega, by simp [steps]⟩)
  rw [← hEq]
  simp only [steps, getElem_zip, getElem_set]
  split
  · next hSame =>
    rw [hSame, getD_eq_getElem?_getD, getElem?_eq_getElem hBound] at hChoice
    exact hChoice
  · exact hOld

theorem set_current (hCurrent : assignment[index]? = some choice) :
    assignment.set index choice = assignment := by
  rcases List.getElem?_eq_some_iff.mp hCurrent with ⟨hBound, hEq⟩
  rw [← hEq, set_getElem_self]

end Steps

----
-- The Invariant
----

/-
  The best state is the replay of the assignment, and so
  are the stored states of its first choices.
-/
structure Replayed (ctx : SubsetContext) (search : LocalSearch) : Prop where
  drawn : Drawn ctx ctx.problem.order (steps ctx.problem search.assignment)
  best : extendAll ctx ctx.problem.root (steps ctx.problem search.assignment) = some search.best
  prefixes : ∀ k state, search.prefixes[k]? = some state → extendAll ctx ctx.problem.root
    ((steps ctx.problem search.assignment).take k) = some state

/- A stored state saves only work. -/
theorem replayAssignment_of_front {assignment : List Choice} {index : Nat} (choice : Choice)
    {state : SearchState} (hFront : extendAll ctx ctx.problem.root
      ((steps ctx.problem assignment).take index) = some state) :
    replayAssignment ctx (assignment.set index choice) index (some state) =
      extendAll ctx ctx.problem.root (steps ctx.problem (assignment.set index choice)) := by
  rw [← take_steps_set index choice] at hFront
  cases index with
  | zero => rfl
  | succ step =>
    conv_rhs => rw [← take_append_drop (step + 1) (steps ctx.problem _), extendAll_append, hFront]
    rfl

section Replays

variable {search : LocalSearch} (hReplayed : Replayed ctx search)

include hReplayed

theorem replayAssignment_set (index : Nat) (choice : Choice) :
    replayAssignment ctx (search.assignment.set index choice) index (search.prefixes[index]?) =
      extendAll ctx ctx.problem.root (steps ctx.problem (search.assignment.set index choice)) := by
  cases hState : search.prefixes[index]? with
  | none => rfl
  | some state => exact replayAssignment_of_front choice (hReplayed.prefixes _ state hState)

/- A replacement from the pool, with its replay. -/
def Stands (ctx : SubsetContext) (search : LocalSearch) (index : Nat)
    (incumbent : Incumbent) : Prop :=
  incumbent.choice ∈ poolOf ctx (ctx.problem.order.getD index 0) ∧
    extendAll ctx ctx.problem.root (steps ctx.problem
      (search.assignment.set index incumbent.choice)) = some incumbent.state

variable {index : Nat}

/- The step: one alternative. -/
theorem tryAlternate_stands {incumbent : Incumbent} (hStands : Stands ctx search index incumbent)
    {alternate : Choice} (hAlternate : alternate ∈ poolOf ctx (ctx.problem.order.getD index 0)) :
    Stands ctx search index (tryAlternate ctx search.assignment search.prefixes
      index incumbent alternate) := by
  unfold tryAlternate
  rw [replayAssignment_set hReplayed]
  split
  · exact hStands
  dsimp only
  split
  · exact hStands
  rename_i state hState
  split
  · exact ⟨hAlternate, hState⟩
  · exact hStands

/- The step: one position of the assignment. -/
theorem improveAt_replayed (hIndex : index < ctx.problem.order.length) :
    Replayed ctx (improveAt ctx search index) := by
  unfold improveAt
  split
  · exact hReplayed
  rename_i current hCurrent
  have hPool : current ∈ poolOf ctx (ctx.problem.order.getD index 0) := by
    rcases List.getElem?_eq_some_iff.mp hCurrent with ⟨hBound, hEq⟩
    have hStep := hReplayed.drawn.2 (ctx.problem.order[index], search.assignment[index])
      (mem_iff_getElem.mpr ⟨index, by simp [steps]; omega, by simp [steps]⟩)
    rw [getD_eq_getElem?_getD, getElem?_eq_getElem hIndex, ← hEq]
    exact hStep
  have hBest := hReplayed.best
  rw [← set_current hCurrent] at hBest
  have hStart : Stands ctx search index
    { choice := current, state := search.best, score := stateScore ctx search.best
      expanded := search.expanded, pruned := search.pruned } := ⟨hPool, hBest⟩
  have hFound := foldlRecOn (motive := Stands ctx search index) _ _ hStart
    (fun _ hStands _ hAlternate => tryAlternate_stands hReplayed hStands hAlternate)
  dsimp only
  split
  · exact { hReplayed with }
  · exact ⟨hReplayed.drawn.set hFound.1, hFound.2, fun k state hState => by simp at hState⟩

end Replays

----
-- Passes
----

private theorem eq_map_some (states : List (Option SearchState))
    (hAll : states.all Option.isSome = true) : states = (states.filterMap id).map some := by
  induction states with
  | nil => rfl
  | cons state states ih =>
    rw [all_cons, Bool.and_eq_true] at hAll
    rcases Option.isSome_iff_exists.mp hAll.1 with ⟨found, hFound⟩
    rw [hFound]
    exact congrArg (some found :: ·) (ih hAll.2)

theorem buildPrefixes_getElem {assignment : List Choice} {k : Nat} {state : SearchState}
    (hState : (buildPrefixes ctx assignment)[k]? = some state) :
    extendAll ctx ctx.problem.root ((steps ctx.problem assignment).take k) = some state := by
  unfold buildPrefixes at hState
  dsimp only at hState
  split at hState
  · next hAll =>
    have hStates := congrArg (Option.map some) hState
    rw [← getElem?_map, ← eq_map_some _ hAll, Option.map_some] at hStates
    rcases List.getElem?_eq_some_iff.mp hStates with ⟨hBound, hEq⟩
    rw [getElem_map, getElem_range] at hEq
    exact hEq
  · simp at hState

/-
  Passes keep what one position keeps, whatever states are
  stored when a pass begins.
-/
theorem localPasses_induct (holds : LocalSearch → Prop) (hRebuild : ∀ search, holds search → holds
      { search with improved := false, prefixes := buildPrefixes ctx search.assignment })
    (hAt : ∀ search, holds search → ∀ index < ctx.problem.order.length,
      holds (improveAt ctx search index)) (iters : Nat) : ∀ {search : LocalSearch},
      holds search → holds (localPasses ctx iters search) := by
  have hPass : ∀ search, holds search → holds (localPass ctx search) := by
    intro search hSearch
    refine foldlRecOn (motive := holds) _ _ (hRebuild search hSearch) ?_
    intro search hSearch index hIndex
    exact hAt search hSearch index (mem_range.mp hIndex)
  induction iters with
  | zero => exact fun hSearch => hSearch
  | succ iters ih =>
    intro search hSearch
    unfold localPasses
    dsimp only
    split
    · exact ih (hPass search hSearch)
    · exact hPass search hSearch

theorem localPasses_replayed (iters : Nat) {search : LocalSearch}
    (hReplayed : Replayed ctx search) : Replayed ctx (localPasses ctx iters search) := by
  refine localPasses_induct (Replayed ctx) ?_ ?_ iters hReplayed
  · intro search hSearch
    exact ⟨hSearch.drawn, hSearch.best, fun _ _ hState => buildPrefixes_getElem hState⟩
  · intro search hSearch index hIndex
    exact improveAt_replayed hSearch hIndex

----
-- The Score
----

/- The recorded score is that of the incumbent's state. -/
theorem tryAlternate_score {incumbent : Incumbent} (assignment : List Choice)
    (prefixes : List SearchState) (index : Nat) (alternate : Choice) {bound : ℚ}
    (hScore : incumbent.score = stateScore ctx incumbent.state ∧ incumbent.score ≤ bound) :
    let next := tryAlternate ctx assignment prefixes index incumbent alternate
    next.score = stateScore ctx next.state ∧ next.score ≤ bound := by
  unfold tryAlternate
  split
  · exact hScore
  dsimp only
  split
  · exact hScore
  split
  · next hLess =>
    refine ⟨rfl, le_trans (le_of_lt ?_) hScore.2⟩
    exact lt_trans (lt_add_of_pos_right _ (by norm_num)) hLess
  · exact hScore

theorem improveAt_score (search : LocalSearch) (index : Nat) :
    stateScore ctx (improveAt ctx search index).best ≤ stateScore ctx search.best := by
  unfold improveAt
  split
  · exact le_rfl
  rename_i current hCurrent
  have hFound := foldlRecOn (motive := fun incumbent : Incumbent =>
      incumbent.score = stateScore ctx incumbent.state ∧
        incumbent.score ≤ stateScore ctx search.best)
    (poolOf ctx (ctx.problem.order.getD index 0))
    (tryAlternate ctx search.assignment search.prefixes index)
    (b := { choice := current, state := search.best, score := stateScore ctx search.best
            expanded := search.expanded, pruned := search.pruned }) ⟨rfl, le_rfl⟩
    (fun _ hScore alternate _ => tryAlternate_score _ _ _ alternate hScore)
  dsimp only
  split
  · exact le_rfl
  · exact hFound.1 ▸ hFound.2

theorem localSearchImprove_score (best : SearchState) (expanded pruned : Nat) :
    stateScore ctx (localSearchImprove ctx best expanded pruned).best ≤ stateScore ctx best := by
  unfold localSearchImprove
  split
  · exact le_rfl
  refine localPasses_induct (fun search => stateScore ctx search.best ≤ stateScore ctx best)
    (fun _ hSearch => hSearch) ?_ _ le_rfl
  intro search hSearch index _
  exact (improveAt_score search index).trans hSearch

----
-- The Improved State
----

/- With distinct indices a state names its choices. -/
theorem mapM_findChoice (path : List (Nat × Choice))
    (hFound : ∀ step ∈ path, findChoice ctx step.1 step.2.1 = some step.2) :
    ((path.map Prod.fst).zip (path.map (fun step => step.2.1))).mapM
      (fun step => findChoice ctx step.1 step.2) = some (path.map Prod.snd) := by
  induction path with
  | nil => rfl
  | cons step path ih =>
    have hRest := ih (fun other hOther => hFound other (mem_cons_of_mem _ hOther))
    rw [map_cons, map_cons, map_cons, zip_cons_cons, mapM_cons, hFound step mem_cons_self, hRest]
    rfl

theorem findChoice_of_drawn (hDistinct : DistinctIndices ctx) {path : List (Nat × Choice)}
    (hDrawn : Drawn ctx ctx.problem.order path) :
    ∀ step ∈ path, findChoice ctx step.1 step.2.1 = some step.2 := by
  intro step hStep
  refine findChoice_eq (hDistinct step.1 ?_) (hDrawn.2 step hStep)
  rw [← hDrawn.1]
  exact mem_map_of_mem hStep

/- A replay is that of the choices it stores. -/
theorem Reached.replay (hDistinct : DistinctIndices ctx) {state : SearchState}
    (hState : Reached ctx ctx.problem.order state) : ∃ assignment,
      assignmentOf ctx state = some assignment ∧
        Drawn ctx ctx.problem.order (steps ctx.problem assignment) ∧
        extendAll ctx ctx.problem.root (steps ctx.problem assignment) = some state := by
  rcases hState with ⟨path, hDrawn, hRun⟩
  have hSteps : steps ctx.problem (path.map Prod.snd) = path := by
    unfold steps
    rw [← hDrawn.1]
    exact (zip_of_prod rfl rfl).symm
  refine ⟨path.map Prod.snd, ?_, hSteps.symm ▸ hDrawn, hSteps.symm ▸ hRun⟩
  unfold assignmentOf
  rw [cands_extendAll path hRun, ← hDrawn.1]
  exact mapM_findChoice path (findChoice_of_drawn hDistinct hDrawn)

theorem localSearchImprove_reached (hDistinct : DistinctIndices ctx) {best : SearchState}
    (hBest : Reached ctx ctx.problem.order best) (expanded pruned : Nat) :
    Reached ctx ctx.problem.order (localSearchImprove ctx best expanded pruned).best := by
  rcases hBest.replay hDistinct with ⟨assignment, hAssignment, hDrawn, hRun⟩
  unfold localSearchImprove
  rw [hAssignment]
  have hReplayed := localPasses_replayed ctx.problem.config.localSearchIters (show Replayed ctx
    { assignment := assignment, best := best, prefixes := [], improvements := 0
      improved := false, expanded := expanded, pruned := pruned } from
    ⟨hDrawn, hRun, fun k state hState => by simp at hState⟩)
  exact ⟨_, hReplayed.drawn, hReplayed.best⟩

/-
  The local search returns the replay of its own choices,
  never with a higher score. A stored state gives the same
  replay as the empty one.
-/
theorem local_search_never_worse (hDistinct : DistinctIndices ctx) {best : SearchState}
    (hBest : Reached ctx ctx.problem.order best) (expanded pruned : Nat) :
    let found := (localSearchImprove ctx best expanded pruned).best
    (∃ assignment, assignmentOf ctx found = some assignment ∧
        extendAll ctx ctx.problem.root (steps ctx.problem assignment) = some found) ∧
      stateScore ctx found ≤ stateScore ctx best ∧
      ∀ (assignment : List Choice) (index : Nat) (choice : Choice) (state : SearchState),
        (buildPrefixes ctx assignment)[index]? = some state →
          replayAssignment ctx (assignment.set index choice) index (some state) =
            extendAll ctx ctx.problem.root (steps ctx.problem (assignment.set index choice)) := by
  refine ⟨?_, localSearchImprove_score best expanded pruned, ?_⟩
  · rcases (localSearchImprove_reached hDistinct hBest expanded pruned).replay hDistinct with
      ⟨assignment, hAssignment, _, hRun⟩
    exact ⟨assignment, hAssignment, hRun⟩
  · intro assignment index choice state hState
    exact replayAssignment_of_front choice (buildPrefixes_getElem hState)

/- The crowded region with one pass. -/
def crowdedPass (candidates : List (List CandidateKernel)) : SubsetContext :=
  subsetContext { crowded 1 with
    candidates := candidates, config := { (crowded 1).config with localSearchIters := 1 } } [0]

theorem reached_fast {candidates : List (List CandidateKernel)}
    (hChoice : (0, fastKernel 1) ∈ poolOf (crowdedPass candidates) 0) :
    Reached (crowdedPass candidates) [0] (crowdedState 1 (fastKernel 1)) :=
  ⟨[(0, 0, fastKernel 1)], .single hChoice, rfl⟩

theorem two_kernels_never_worse : DistinctIndices (crowdedPass [[fastKernel 1, slowKernel]]) ∧
    stateScore (crowdedPass [[fastKernel 1, slowKernel]]) (localSearchImprove
        (crowdedPass [[fastKernel 1, slowKernel]]) (crowdedState 1 (fastKernel 1)) 0 0).best ≤
      stateScore (crowdedPass [[fastKernel 1, slowKernel]]) (crowdedState 1 (fastKernel 1)) := by
  have hDistinct : DistinctIndices (crowdedPass [[fastKernel 1, slowKernel]]) := by
    intro region hRegion
    rw [mem_singleton.mp hRegion]
    decide +kernel
  have hBest := @reached_fast [[fastKernel 1, slowKernel]] (by decide +kernel)
  exact ⟨hDistinct, (local_search_never_worse hDistinct hBest 0 0).2.1⟩

section Crowded

variable {candidates : List (List CandidateKernel)}
variable (hPool : poolOf (crowdedPass candidates) 0 = [(0, fastKernel 1), (0, slowKernel)])

include hPool

theorem assignmentOf_crowded (kernel : CandidateKernel) :
    assignmentOf (crowdedPass candidates) (crowdedState 1 kernel) = some [(0, fastKernel 1)] := by
  change List.mapM _ [(0, 0)] = _
  rw [mapM_cons, mapM_nil]
  dsimp only [findChoice]
  rw [hPool]
  rfl

/- The search takes the other kernel of the same index. -/
theorem localSearchImprove_crowded : (localSearchImprove (crowdedPass candidates)
    (crowdedState 1 (fastKernel 1)) 0 0).best = crowdedState 1 slowKernel := by
  have hScore : stateScore (crowdedPass candidates) (crowdedState 1 slowKernel) + 1 / 10 ^ 15 <
      stateScore (crowdedPass candidates) (crowdedState 1 (fastKernel 1)) := by
    change stateScore (crowdedPass []) _ + _ < stateScore (crowdedPass []) _
    decide +kernel
  have hPass : ∀ search, localPasses (crowdedPass candidates) 1 search =
      improveAt (crowdedPass candidates) { search with
        improved := false
        prefixes := buildPrefixes (crowdedPass candidates) search.assignment } 0 :=
    fun _ => ite_self _
  have hReplay : ∀ earlier, replayAssignment (crowdedPass candidates) [(0, slowKernel)] 0 earlier =
      some (crowdedState 1 slowKernel) := by
    intro earlier
    cases earlier <;> rfl
  have hSelf : sameKernel (fastKernel 1) (fastKernel 1) = true := rfl
  have hOther : sameKernel slowKernel (fastKernel 1) = false := rfl
  unfold localSearchImprove
  rw [assignmentOf_crowded hPool]
  change (localPasses _ 1 _).best = _
  rw [hPass]
  simp only [improveAt, getElem?_cons_zero]
  rw [show poolOf _ ((crowdedPass candidates).problem.order.getD 0 0) = _ from hPool]
  simp [tryAlternate, hReplay, hSelf, hOther, -one_div, hScore]

theorem not_replayed_crowded : ¬ ∃ assignment,
    assignmentOf (crowdedPass candidates) (crowdedState 1 slowKernel) = some assignment ∧
      extendAll (crowdedPass candidates) (crowded 1).root (steps (crowded 1) assignment) =
        some (crowdedState 1 slowKernel) := by
  rintro ⟨assignment, hFirst, hRun⟩
  rw [assignmentOf_crowded hPool, Option.some.injEq] at hFirst
  rw [← hFirst] at hRun
  have hFast : crowdedState 1 (fastKernel 1) = crowdedState 1 slowKernel := Option.some.inj hRun
  exact absurd (congrArg SearchState.makespanS hFast) (by decide +kernel)

end Crowded

theorem crowded_search_not_replayed : ∃ (ctx : SubsetContext) (best : SearchState),
    Reached ctx ctx.problem.order best ∧ ¬ ∃ assignment,
      assignmentOf ctx (localSearchImprove ctx best 0 0).best = some assignment ∧
        extendAll ctx ctx.problem.root (steps ctx.problem assignment) =
          some (localSearchImprove ctx best 0 0).best := by
  have hPool : poolOf (crowdedPass (crowded 1).candidates) 0 =
    [(0, fastKernel 1), (0, slowKernel)] := poolOf_crowded 1
  refine ⟨_, _, reached_fast (hPool ▸ mem_cons_self), ?_⟩
  rw [localSearchImprove_crowded hPool]
  exact not_replayed_crowded hPool

end Planner

end TensorTorrent
