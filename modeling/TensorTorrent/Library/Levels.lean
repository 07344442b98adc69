import TensorTorrent.Library.Dependency

/-
  Levels of a dependency graph.

  The level of a node is zero when it depends on nothing and
  otherwise one more than the highest level it depends on. A
  run that takes all pending nodes at once, finishes them
  and only then looks at what they unlocked works level by
  level.

  Key definitions include:
    * `Dependency.levelWithin`
    * `Dependency.level`
    * `Dependency.DoneBelow`

  Key theorems include:
    * `Dependency.level_le_iff`
    * `Dependency.Progress.pend_eq`
    * `Dependency.DoneBelow.next`
-/

----
-- Levels
----

namespace Dependency

open List

variable {N : Type} [DecidableEq N]

/- Longest chain of dependencies of at most this length. -/
def levelWithin (deps : N → List N) : Nat → N → Nat
| 0, _ => 0
| fuel + 1, node => ((deps node).map (fun dep => levelWithin deps fuel dep + 1)).foldr max 0

def level (deps : N → List N) (nodes : List N) (node : N) : Nat :=
  levelWithin deps nodes.length node

private theorem foldr_max_le_iff (list : List Nat) (bound : Nat) :
    list.foldr max 0 ≤ bound ↔ ∀ n ∈ list, n ≤ bound := by
  induction list with
  | nil => simp
  | cons n list ih => simp [ih]

omit [DecidableEq N] in
/-
  A node with few predecessors in some order has no long
  chains. The induction is on their number: a dependency has
  fewer of them.
-/
private theorem levelWithin_stable {deps : N → List N} {order : List N}
    (hOrdered : Ordered deps order) (bound : Nat) :
    ∀ before node after, order = before ++ node :: after → before.length ≤ bound →
      ∀ fuel, bound ≤ fuel → levelWithin deps fuel node = levelWithin deps bound node := by
  induction bound with
  | zero =>
    intro before node after hSplit hLength fuel _
    have hNil : before = [] := length_eq_zero_iff.mp (by omega)
    have hDeps : deps node = [] := by
      rw [eq_nil_iff_forall_not_mem]
      intro dep hDep
      have hBefore := hOrdered before node after hSplit dep hDep
      simp [hNil] at hBefore
    cases fuel with
    | zero => rfl
    | succ fuel => simp [levelWithin, hDeps]
  | succ bound ih =>
    intro before node after hSplit hLength fuel hFuel
    cases fuel with
    | zero => omega
    | succ fuel =>
      have hSame : (deps node).map (fun dep => levelWithin deps fuel dep + 1) =
          (deps node).map (fun dep => levelWithin deps bound dep + 1) := by
        refine map_congr_left ?_
        intro dep hDep
        have hBefore := hOrdered before node after hSplit dep hDep
        rcases append_of_mem hBefore with ⟨front, back, hFront⟩
        have hShort : front.length ≤ bound := by
          have hLengths := congrArg List.length hFront
          simp at hLengths
          omega
        rw [ih front dep (back ++ node :: after) (by simp [hSplit, hFront]) hShort fuel (by omega)]
      rw [levelWithin, levelWithin, hSame]

variable {deps : N → List N} {nodes : List N}

omit [DecidableEq N] in
/- Dependencies of a schedulable graph stay inside it. -/
theorem Schedulable.dep_mem (hSchedulable : Schedulable deps nodes) {node dep : N}
    (hNode : node ∈ nodes) (hDep : dep ∈ deps node) : dep ∈ nodes := by
  rcases hSchedulable with ⟨order, _, hMem, hOrdered⟩
  rcases append_of_mem ((hMem node).mpr hNode) with ⟨before, after, hSplit⟩
  have hBefore := hOrdered before node after hSplit dep hDep
  exact (hMem dep).mp (by simp [hSplit, hBefore])

omit [DecidableEq N] in
/- A level bounds the levels below it, and nothing else. -/
theorem level_le_iff (hSchedulable : Schedulable deps nodes) {node : N} (hNode : node ∈ nodes)
    (bound : Nat) :
    level deps nodes node ≤ bound ↔ ∀ dep ∈ deps node, level deps nodes dep < bound := by
  rcases hSchedulable with ⟨order, hNodup, hMem, hOrdered⟩
  have hLength : order.length ≤ nodes.length :=
    (hNodup.subperm (fun _ hIn => (hMem _).mp hIn)).length_le
  rcases append_of_mem ((hMem node).mpr hNode) with ⟨before, after, hSplit⟩
  have hShort : before.length < nodes.length := by
    have hLengths := congrArg List.length hSplit
    simp at hLengths
    omega
  obtain ⟨fuel, hFuel⟩ : ∃ fuel, nodes.length = fuel + 1 := ⟨nodes.length - 1, by omega⟩
  -- one step of the recursion does not shorten the chains
  -- of a dependency, which has fewer predecessors
  have hSame : ∀ dep ∈ deps node, levelWithin deps fuel dep = level deps nodes dep := by
    intro dep hDep
    have hBefore := hOrdered before node after hSplit dep hDep
    rcases append_of_mem hBefore with ⟨front, back, hFront⟩
    have hFront' : front.length ≤ fuel := by
      have hLengths := congrArg List.length hFront
      simp at hLengths
      omega
    exact (levelWithin_stable hOrdered fuel front dep
      (back ++ node :: after) (by simp [hSplit, hFront]) hFront' nodes.length (by omega)).symm
  conv => lhs; unfold level
  rw [hFuel, levelWithin, foldr_max_le_iff]
  simp only [mem_map, forall_exists_index, and_imp, forall_apply_eq_imp_iff₂]
  constructor
  · intro hAll dep hDep
    have hDepLe := hAll dep hDep
    rw [hSame dep hDep] at hDepLe
    exact hDepLe
  · intro hAll dep hDep
    rw [hSame dep hDep]
    exact hAll dep hDep

----
-- Runs by Level
----

/- Exactly the nodes below a level are done. -/
def DoneBelow (deps : N → List N) (nodes : List N) (bound : Nat) (done : List N) : Prop :=
  ∀ node, node ∈ done ↔ node ∈ nodes ∧ level deps nodes node < bound

variable {done : List N} {pend remaining : N → Nat} {bound : Nat}

/- What is pending then is the next level. -/
theorem Progress.pend_eq (hSchedulable : Schedulable deps nodes)
    (hProgress : Progress deps nodes done pend remaining) (hBelow : DoneBelow deps nodes bound done)
    (node : N) : pend node =
      if node ∈ nodes ∧ level deps nodes node = bound then 1
      else 0 := by
  by_cases hNode : node ∈ nodes
  · have hLocated := hProgress.located node hNode
    have hZero : remaining node = 0 ↔ level deps nodes node ≤ bound := by
      rw [hProgress.counted node hNode, countP_eq_zero, level_le_iff hSchedulable hNode]
      refine forall₂_congr ?_
      intro dep hDep
      simp [hBelow dep, hSchedulable.dep_mem hNode hDep]
    have hCount : done.count node =
        if level deps nodes node < bound then 1 else 0 := by
      rw [hProgress.nodup.count]
      simp [hBelow node, hNode]
    rw [hCount] at hLocated
    simp only [hNode, true_and]
    by_cases hLess : level deps nodes node < bound
    · rw [if_pos hLess, if_pos (hZero.mpr hLess.le)] at hLocated
      rw [if_neg (by omega)]
      omega
    · rw [if_neg hLess] at hLocated
      by_cases hEq : level deps nodes node = bound
      · rw [if_pos (hZero.mpr hEq.le)] at hLocated
        rw [if_pos hEq]
        omega
      · rw [if_neg (fun h => hEq (le_antisymm (hZero.mp h) (by omega)))] at hLocated
        rw [if_neg hEq]
        omega
  · rw [(hProgress.outside node hNode).2]
    simp [hNode]

omit [DecidableEq N] in
/- Finishing all of the next level. -/
theorem DoneBelow.next {wave after : List N} (hBelow : DoneBelow deps nodes bound done)
    (hWave : ∀ node, node ∈ wave ↔ node ∈ nodes ∧ level deps nodes node = bound)
    (hAfter : after.Perm (done ++ wave)) : DoneBelow deps nodes (bound + 1) after := by
  intro node
  rw [hAfter.mem_iff, mem_append, hBelow node, hWave node, Nat.lt_succ_iff_lt_or_eq, and_or_left]

end Dependency
