import Mathlib.Data.String.Basic
import TensorTorrent.Library.Ranking
import TensorTorrent.Planner.Problem

/-
  This file models the placement search (crate
  `tt-planner`: `search.rs` and `lib.rs`): the candidate
  pools of a device subset, the beam search with its
  dominance table, the local search, and the selection of
  finalists.

  The worker count and the iteration order of the dominance
  hash map are explicit. Times of the search and the
  statistics of a whole plan are left out.

  Key definitions include:
    * `Planner.filterPool`
    * `Planner.Execution`
    * `Planner.beamStep`
    * `Planner.localSearchImprove`
    * `Planner.searchSubsetEx`
    * `Planner.planPlacements`
-/

namespace TensorTorrent.Planner

open Ranking

----
-- Candidate Pools
----

/- A candidate with its 16-bit index. -/
abbrev Choice := Nat × CandidateKernel

/- Latency first, then workspace, dtype and kernel. -/
def kernelRank (choice : Choice) : ℚ ×ₗ (Nat ×ₗ (String ×ₗ String)) :=
  toLex (choice.2.estimatedLatencyS, toLex (choice.2.workspaceBytes,
    toLex (choice.2.dtype, choice.2.kernelId)))

variable (problem : PlanningProblem) (ctx : SubsetContext) (region : Nat) (state : SearchState)
variable (assignment : List Choice)
variable (pool : List CandidateKernel)
variable (subset : List Nat)
variable (execution : Execution)

/- Allowed candidates, each with its index `as u16`. -/
def allowedChoices : List Choice :=
  (pool.mapIdx (fun i c => (asU16 i, c))).filter (fun choice => ctx.allows choice.2.device)

/- The best candidates of each device, devices ascending. -/
def filterPool : List Choice :=
  let choices := allowedChoices ctx pool
  let devices := sortOn id (choices.map (fun c => c.2.device)).dedup
  devices.flatMap (fun device =>
    (sortOn kernelRank (choices.filter (fun c => c.2.device = device))).take
      (max ctx.problem.config.candidatesPerDevice 1))

/- The pool of a region on the subset. -/
def poolOf : List Choice :=
  filterPool ctx (ctx.problem.candidates.getD region [])

/- The choice that a stored index stands for. -/
def findChoice (region index : Nat) : Option Choice :=
  (poolOf ctx region).find? (fun choice => choice.1 = index)

----
-- Dominance
----

/- A state with its score and the devices it uses. -/
structure Row where
  score : ℚ
  state : SearchState
  deviceSeq : List Nat
deriving DecidableEq

/- `(v * 1e12).round() as i64` of a positive time. -/
def picoseconds (v : ℚ) : Int :=
  min ⌊v * 10 ^ 12 + 1 / 2⌋ (2 ^ 63 - 1)

/- Positive entries of a vector with their indices. -/
def positiveTimes (times : List ℚ) : List (Nat × Int) :=
  (times.mapIdx (fun i v => (i, v))).filterMap (fun entry =>
    if 0 < entry.2 then some (entry.1, picoseconds entry.2)
    else none)

structure DomKey where
  deviceSeq : List Nat
  live : List (Nat × Nat)
  deviceFree : List (Nat × Int)
  linkFree : List (Nat × Int)
deriving DecidableEq

variable (row : Row) (rows : List Row)

def dominanceKey : DomKey :=
  { deviceSeq := row.deviceSeq
    live :=
      (row.state.liveActivationBytes.mapIdx (fun i b => (i, b))).filter (fun entry => 0 < entry.2)
    deviceFree := positiveTimes row.state.deviceFree, linkFree := positiveTimes row.state.linkFree }

/- The stored row stays when this holds. -/
def staysDominant (prev row : Row) : Bool :=
  prev.score < row.score || (|prev.score - row.score| < 1 / 10 ^ 18 &&
    prev.state.placementCands ≤ row.state.placementCands)

/- The hash map after all rows, in insertion order. -/
def dominant : List Row :=
  champions dominanceKey staysDominant rows

def beamRank : ℚ ×ₗ (List Nat ×ₗ List Nat) :=
  toLex (row.score, toLex (row.deviceSeq, row.state.placementCands))

def selectBeam (beamWidth : Nat) : List SearchState :=
  ((sortOn beamRank rows).take (max beamWidth 1)).map Row.state

----
-- Expanding the Beam
----

/-
  How a search is executed: the number of workers, and the
  order in which the dominance map yields its values.
-/
structure Execution where
  workers : Nat
  values : List Row → List Row
  values_perm : ∀ rows, (values rows).Perm rows

/- One worker, values in insertion order. -/
def Execution.serial : Execution :=
  { workers := 1, values := id
    values_perm := fun _ => List.Perm.refl _ }

def shouldParallelizeBeam (beamLen poolLen workers : Nat) : Bool :=
  !(workers ≤ 1 || beamLen < 32 || poolLen < 4) && 512 ≤ beamLen * poolLen

/- Consecutive chunks of the given size. -/
def chunks {α : Type} (size : Nat) (items : List α) : List (List α) :=
  (List.range ((items.length + size - 1) / size)).map (fun i => (items.drop (i * size)).take size)

def chunkSize (beamLen workers : Nat) : Nat :=
  let nChunks := max (min workers beamLen) 1
  max ((beamLen + nChunks - 1) / nChunks) 1

/- An index that the pool lacks counts as device zero. -/
def deviceSeqOf : List Nat :=
  (ctx.problem.order.zip state.placementCands).map (fun step =>
    ((findChoice ctx step.1 step.2).map (fun choice => asU16 choice.2.device)).getD 0)

/- A state extended by one candidate of the region. -/
def expandBy (choice : Choice) : Option Row :=
  (extendState ctx state region choice.1 choice.2).map (fun extended =>
    { score := analyticScore extended ctx.problem.config ctx.problem.capacities
      state := extended, deviceSeq := deviceSeqOf ctx state ++ [asU16 choice.2.device] })

/- Rows of some states, and how many extensions failed. -/
structure Expansion where
  rows : List Row
  expanded : Nat
  pruned : Nat

def expand (states : List SearchState) : Expansion :=
  let tried := states.flatMap (fun state => (poolOf ctx region).map (expandBy ctx region state))
  { rows := tried.filterMap id, expanded := tried.length, pruned := tried.countP Option.isNone }

/- Parallel expansions are concatenated in chunk order. -/
def expandBeam (region : Nat) (beam : List SearchState) : Expansion :=
  if shouldParallelizeBeam beam.length (poolOf ctx region).length execution.workers then
    let parts := (chunks (chunkSize beam.length execution.workers) beam).map (expand ctx region)
    { rows := parts.flatMap Expansion.rows, expanded := (parts.map Expansion.expanded).sum
      pruned := (parts.map Expansion.pruned).sum }
  else expand ctx region beam

/- The beam and its counters between two regions. -/
structure BeamState where
  beam : List SearchState
  expanded : Nat
  pruned : Nat

/- One region: expand, drop dominated rows, select. -/
def beamStep (current : BeamState) (region : Nat) : Option BeamState :=
  let expansion := expandBeam ctx execution region current.beam
  let ranked := execution.values (dominant expansion.rows)
  let beam := selectBeam ranked ctx.problem.config.beamWidth
  if expansion.rows = [] then none
  else
    some
      { beam := beam, expanded := current.expanded + expansion.expanded
        pruned := current.pruned + expansion.pruned + (ranked.length - beam.length) }

def beamSearch : Option BeamState :=
  ctx.problem.order.foldlM (beamStep ctx execution)
    { beam := [ctx.problem.root], expanded := 0, pruned := 0 }

----
-- Local Search
----

def stateScore : ℚ :=
  analyticScore state ctx.problem.config ctx.problem.capacities

def sameKernel (a b : CandidateKernel) : Bool :=
  a.device = b.device && a.kernelId = b.kernelId && a.dtype = b.dtype

/- The best replacement of one choice found so far. -/
structure Incumbent where
  choice : Choice
  state : SearchState
  score : ℚ
  expanded : Nat
  pruned : Nat

/- Tries one alternative at a position of the assignment. -/
def tryAlternate (prefixes : List SearchState)
    (index : Nat) (incumbent : Incumbent) (alternate : Choice) : Incumbent :=
  if alternate.1 = incumbent.choice.1 && sameKernel alternate.2 incumbent.choice.2 &&
    alternate.2.backendId = incumbent.choice.2.backendId then incumbent
  else
    let counted :=
      { incumbent with expanded := incumbent.expanded + (ctx.problem.order.length - index) }
    match replayAssignment ctx (assignment.set index alternate) index (prefixes[index]?) with
    | none => { counted with pruned := counted.pruned + 1 }
    | some state =>
      if stateScore ctx state + 1 / 10 ^ 15 < counted.score then
        { counted with choice := alternate, state := state, score := stateScore ctx state }
      else counted

structure LocalSearch where
  assignment : List Choice
  best : SearchState
  prefixes : List SearchState
  improvements : Nat
  improved : Bool
  expanded : Nat
  pruned : Nat

/- An improved choice invalidates the stored prefixes. -/
def improveAt (search : LocalSearch) (index : Nat) : LocalSearch :=
  match search.assignment[index]? with
  | none => search
  | some current =>
    let found :=
      (poolOf ctx (ctx.problem.order.getD index 0)).foldl
        (tryAlternate ctx search.assignment search.prefixes index)
        { choice := current, state := search.best, score := stateScore ctx search.best
          expanded := search.expanded, pruned := search.pruned }
    let counted :=
      { search with expanded := found.expanded, pruned := found.pruned }
    if found.choice.1 = current.1 && sameKernel found.choice.2 current.2 then counted
    else
      { counted with
        assignment := search.assignment.set index found.choice, best := found.state
        improvements := search.improvements + 1, improved := true, prefixes := [] }

/- States before each step, none when the replay fails. -/
def buildPrefixes : List SearchState :=
  let states :=
    (List.range (ctx.problem.order.length + 1)).map (fun k =>
      extendAll ctx ctx.problem.root ((steps ctx.problem assignment).take k))
  if states.all Option.isSome then states.filterMap id
  else []

def localPass (search : LocalSearch) : LocalSearch :=
  (List.range ctx.problem.order.length).foldl (improveAt ctx)
    { search with improved := false, prefixes := buildPrefixes ctx search.assignment }

/- Passes until one improves nothing. -/
def localPasses (ctx : SubsetContext) : Nat → LocalSearch → LocalSearch
| 0, search => search
| iters + 1, search =>
  let passed := localPass ctx search
  if passed.improved then localPasses ctx iters passed
  else passed

/- The choices of a complete state, if all are found. -/
def assignmentOf : Option (List Choice) :=
  (ctx.problem.order.zip state.placementCands).mapM (fun step => findChoice ctx step.1 step.2)

def localSearchImprove (best : SearchState) (expanded pruned : Nat) : LocalSearch :=
  let start :=
    { assignment := [], best := best, prefixes := [], improvements := 0, improved := false
      expanded := expanded, pruned := pruned }
  match assignmentOf ctx best with
  | none => start
  | some assignment =>
    localPasses ctx ctx.problem.config.localSearchIters { start with assignment := assignment }

----
-- Results of a Subset
----

structure SearchResult where
  placements : List PlacementRecord
  latencyS : ℚ
  throughputPerS : ℚ
  peakBytes : String → Option Nat
  transferBytes : Nat
  transferLatencyS : ℚ
  unmeasuredTransferCount : Nat
  hostStagedTransferCount : Nat
  statesExpanded : Nat
  statesPruned : Nat
  beamWidth : Nat
  localImprovements : Nat
  subsetDevices : List String
  analyticScore : ℚ

def placementRecord (candidate : CandidateKernel) : PlacementRecord :=
  { regionId := (problem.region region).name, device := problem.deviceNames.getD candidate.device ""
    backendId := candidate.backendId, dtype := candidate.dtype, kernelId := candidate.kernelId
    estimatedLatencyS := latencyOf candidate
    dependsOn := (problem.region region).dependsOn.map (fun dep => (problem.region dep).name)
    measured := candidate.measured, outputBytes := (problem.region region).outputBytes
    stateBytes := (problem.region region).stateBytes, workspaceBytes := candidate.workspaceBytes }

/- The pool first, then the unfiltered candidates. -/
def placedCandidate (region index : Nat) : Option CandidateKernel :=
  ((findChoice ctx region index).map Prod.snd).or ((ctx.problem.candidates.getD region [])[index]?)

def placementsFromState : Option (List PlacementRecord) :=
  (ctx.problem.order.zip state.placementCands).mapM (fun step =>
    (placedCandidate ctx step.1 step.2).map (placementRecord ctx.problem step.1))

/- Positive peaks under the names of their devices. -/
def peakByName (peakBytes : List Nat) : String → Option Nat :=
  (peakBytes.mapIdx (fun i bytes => (i, bytes))).foldl (fun peak entry =>
      if 0 < entry.2 then
        Function.update peak (problem.deviceNames.getD entry.1 "") (some entry.2)
      else peak)
    (fun _ => none)

def throughputOf (config : PlanningConfig) (state : SearchState) : ℚ :=
  min (1 / state.initiationIntervalS) ((max config.targetInflightRequests 1 : Nat) /
    max state.makespanS (1 / 10 ^ 12))

/- Counters that all results of a subset share. -/
structure SearchCounts where
  expanded : Nat
  pruned : Nat
  improvements : Nat

def subsetDevices : List String :=
  (subset.filter (fun d => d < problem.deviceNames.length)).map
    (fun d => problem.deviceNames.getD d "")

def resultFromState (counts : SearchCounts) (state : SearchState) : Option SearchResult :=
  (placementsFromState ctx state).map (fun placements =>
    let config := ctx.problem.config
    let throughput := throughputOf config state
    { placements := placements, latencyS := state.makespanS, throughputPerS := throughput
      peakBytes := peakByName ctx.problem state.peakBytes, transferBytes := state.transferBytes
      transferLatencyS := state.transferLatencyS
      unmeasuredTransferCount := state.unmeasuredTransferCount
      hostStagedTransferCount := state.hostStagedTransferCount, statesExpanded := counts.expanded
      statesPruned := counts.pruned, beamWidth := config.beamWidth
      localImprovements := counts.improvements, subsetDevices := subsetDevices ctx.problem subset
      analyticScore :=
        comparableFinalistScore state.makespanS throughput
          state.peakBytes ctx.problem.capacities config })

def terminalRank : ℚ ×ₗ List Nat :=
  toLex (stateScore ctx state, state.placementCands)

/- The first `keep` distinct terminals with a result. -/
def collectTerminals (toResult : SearchState → Option SearchResult) (keep : Nat) :
    List (List Nat) → List SearchState → List (SearchState × SearchResult) →
      List (SearchState × SearchResult)
| _, [], out => out
| seen, state :: rest, out =>
  if state.placementCands ∈ seen then
    collectTerminals toResult keep seen rest out
  else
    match toResult state with
    | none => collectTerminals toResult keep (state.placementCands :: seen) rest out
    | some result =>
      if keep ≤ (out ++ [(state, result)]).length then
        out ++ [(state, result)]
      else
        collectTerminals toResult keep (state.placementCands :: seen) rest
          (out ++ [(state, result)])

/- Improves the best state of the last beam, then ranks. -/
def terminals (final : BeamState) : List (SearchState × SearchResult) :=
  match sortOn (terminalRank ctx) final.beam with
  | [] => []
  | best :: others =>
    let improved := localSearchImprove ctx best final.expanded final.pruned
    collectTerminals (resultFromState ctx subset
        { expanded := improved.expanded, pruned := improved.pruned
          improvements := improved.improvements })
      ctx.problem.config.resolvedPerSubsetFinalists []
      (sortOn (terminalRank ctx) (improved.best :: others))
      []

section

variable (problem : PlanningProblem) (subset : List Nat) (execution : Execution)

/- The terminals of a subset, with their results. -/
def searchTerminals : List (SearchState × SearchResult) :=
  let ctx := subsetContext problem subset
  if problem.regions = [] ∨ subset = [] then []
  else if problem.order.any (fun region => (poolOf ctx region).isEmpty) then []
  else
    match beamSearch ctx execution with
    | none => []
    | some final => terminals ctx subset final

def searchSubsetEx : List SearchResult :=
  (searchTerminals problem subset execution).map Prod.snd

end

----
-- Finalists
----

def placementSignature (placements : List PlacementRecord) : String :=
  "|".intercalate (placements.map (fun p =>
    p.regionId ++ ":" ++ p.device ++ ":" ++ p.backendId ++ ":" ++ p.kernelId ++ ":" ++ p.dtype))

/- A result with its ranks; `search_rank` is the first. -/
structure FinalistPlan where
  result : SearchResult
  analyticRank : Nat
  finalistRank : Nat
  placementSignature : String

def feasibleRank (result : SearchResult) : ℚ ×ₗ (String ×ₗ List String) :=
  toLex (result.analyticScore, toLex (placementSignature result.placements, result.subsetDevices))

/- The selection of finalists while it runs. -/
structure Shortlist where
  finalists : List FinalistPlan
  seen : List String
  counts : List String → Nat

def Shortlist.push (list : Shortlist) (rank : Nat) (result : SearchResult) : Shortlist :=
  let sig := placementSignature result.placements
  { list with
    finalists := list.finalists ++
      [{ result := result, analyticRank := rank, finalistRank := list.finalists.length
         placementSignature := sig }]
    counts := Function.update list.counts result.subsetDevices
      (list.counts result.subsetDevices + 1) }

/-
  One result of a pass. The signature is recorded also when
  the cap of the subset defers the result; the fill pass
  has no cap.
-/
def consider (k : Nat) (cap : Option Nat) (list : Shortlist)
    (ranked : SearchResult × Nat) : Shortlist :=
  let sig := placementSignature ranked.1.placements
  if k ≤ list.finalists.length then list
  else if sig ∈ list.seen then list
  else
    let noted := { list with seen := sig :: list.seen }
    match cap with
    | some cap =>
      if cap ≤ list.counts ranked.1.subsetDevices then noted
      else noted.push ranked.2 ranked.1
    | none => noted.push ranked.2 ranked.1

def selectFinalists (config : PlanningConfig) (feasible : List SearchResult) : List FinalistPlan :=
  let k := max config.finalistCount 1
  let cap := max (min config.resolvedPerSubsetFinalists k) 1
  let ranked := feasible.zipIdx
  let first :=
    ranked.foldl (consider k (some cap)) { finalists := [], seen := [], counts := fun _ => 0 }
  let fill := { first with seen := first.finalists.map FinalistPlan.placementSignature }
  (ranked.foldl (consider k none) fill).finalists

/- Every subset is searched under its own execution. -/
def planPlacements (problem : PlanningProblem) (executions : Nat → Execution) : List FinalistPlan :=
  let feasible :=
    (problem.subsets.mapIdx (fun i subset => searchSubsetEx problem subset (executions i))).flatten
  selectFinalists problem.config (sortOn feasibleRank feasible)

end TensorTorrent.Planner
