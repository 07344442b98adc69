import Mathlib.Tactic

/-
  Dependency counting over an arbitrary node type.

  A node carries the list of nodes it depends on, repeats
  included. A counter holds the number of unmet dependencies
  of each node; finishing a node decrements the counter of
  every dependent, once for each listed edge, and the nodes
  whose counter reaches zero are handed to a queue.

  Key definitions include:
    * `Dependency.Ordered`
    * `Dependency.Schedulable`
    * `Dependency.unlock`
    * `Dependency.newly`
    * `Dependency.Progress`

  Key theorems include:
    * `Dependency.Ordered.path_mem`
    * `Dependency.Schedulable.acyclic`
    * `Dependency.Schedulable.exists_early`
    * `Dependency.unlock_eq`
    * `Dependency.newly_eq_filter`
    * `Dependency.Progress.finish`
    * `Dependency.Progress.complete`
    * `Dependency.kahn_perm`
-/

----
-- Dependency-Respecting Lists
----

namespace Dependency

open List

variable {N : Type}

/- Every element comes after all it depends on. -/
def Ordered (deps : N → List N) (order : List N) : Prop :=
  ∀ before node after, order = before ++ node :: after → ∀ dep ∈ deps node, dep ∈ before

/-
  Some repetition-free list of exactly the given nodes
  respects the dependencies.
-/
def Schedulable (deps : N → List N) (nodes : List N) : Prop :=
  ∃ order : List N, order.Nodup ∧ (∀ node, node ∈ order ↔ node ∈ nodes) ∧ Ordered deps order

variable {deps : N → List N} {nodes order : List N} {node : N}

theorem ordered_nil (deps : N → List N) : Ordered deps [] := by
  intro before node after hSplit
  simp at hSplit

/- Appending a node whose dependencies are present. -/
theorem Ordered.append_singleton (hOrdered : Ordered deps order) {last : N}
    (hDeps : ∀ dep ∈ deps last, dep ∈ order) : Ordered deps (order ++ [last]) := by
  intro before node after hSplit dep hDep
  rcases eq_nil_or_concat after with hNil | ⟨front, final, hFinal⟩
  · subst hNil
    have hParts := append_inj' hSplit (by simp)
    have hNode : last = node := by simpa using hParts.2
    subst hNode
    rw [← hParts.1]
    exact hDeps dep hDep
  · subst hFinal
    have hSplit' : order ++ [last] = (before ++ node :: front) ++ [final] := by simpa using hSplit
    have hParts := append_inj' hSplit' (by simp)
    exact hOrdered before node front hParts.1 dep hDep

/- A prefix of an ordered list is ordered. -/
theorem Ordered.of_append {front back : List N} (hOrdered : Ordered deps (front ++ back)) :
    Ordered deps front := by
  intro before node after hSplit
  subst hSplit
  exact hOrdered before node (after ++ back) (by simp)

/- What a node depends on, directly or not, precedes it. -/
theorem Ordered.path_mem (hOrdered : Ordered deps order) {a b : N}
    (hPath : Relation.TransGen (fun x y => x ∈ deps y) a b) :
    ∀ before after, order = before ++ b :: after → a ∈ before := by
  induction hPath with
  | single hEdge =>
    intro before after hSplit
    exact hOrdered before _ after hSplit _ hEdge
  | @tail c d hFirst hEdge ih =>
    intro before after hSplit
    have hMiddle := hOrdered before d after hSplit c hEdge
    rcases append_of_mem hMiddle with ⟨front, back, hBefore⟩
    rw [hBefore]
    refine mem_append_left _ (ih front (back ++ d :: after) ?_)
    rw [hSplit, hBefore, append_assoc, cons_append]

/- A schedulable graph has no cycle through its nodes. -/
theorem Schedulable.acyclic (hSchedulable : Schedulable deps nodes) (hNode : node ∈ nodes) :
    ¬ Relation.TransGen (fun x y => x ∈ deps y) node node := by
  intro hCycle
  rcases hSchedulable with ⟨order, -, hMem, hOrdered⟩
  rcases eq_append_cons_of_mem ((hMem node).mpr hNode) with ⟨before, after, hSplit, hFirst⟩
  exact hFirst (hOrdered.path_mem hCycle before after hSplit)

/- A part that is closed under dependencies is ordered. -/
theorem Ordered.filter {p : N → Bool} (hClosed : ∀ node, p node → ∀ dep ∈ deps node, p dep)
    (hOrdered : Ordered deps order) : Ordered deps (order.filter p) := by
  induction order using List.reverseRecOn with
  | nil => exact ordered_nil deps
  | append_singleton front last ih =>
    rw [filter_append, filter_singleton, Bool.cond_eq_ite]
    split
    · next hLast =>
      refine (ih hOrdered.of_append).append_singleton ?_
      intro dep hDep
      exact mem_filter.mpr ⟨hOrdered front last [] rfl dep hDep, hClosed last hLast dep hDep⟩
    · simpa using ih hOrdered.of_append

----
-- Renaming Nodes
----

/-
  A graph that can be scheduled stays so when its nodes are
  renamed: `name` names the new nodes, `find` finds them.
-/
theorem Schedulable.rename {M : Type} {deps : M → List M} {nodes : List M}
    (hSchedulable : Schedulable deps nodes) {deps' : N → List N} {nodes' : List N} (name : N → M)
    (find : M → Option N) (hFind : ∀ m node, find m = some node ↔ node ∈ nodes' ∧ name node = m)
    (hNodes : ∀ node ∈ nodes', name node ∈ nodes)
    (hDeps : ∀ node ∈ nodes', ∀ dep ∈ deps' node, dep ∈ nodes' ∧ name dep ∈ deps (name node)) :
    Schedulable deps' nodes' := by
  rcases hSchedulable with ⟨order, hNodup, hMem, hOrdered⟩
  have hInjective : ∀ m m' node, node ∈ find m → node ∈ find m' → m = m' := by
    intro m m' node hLeft hRight
    rw [← ((hFind m node).mp hLeft).2, ← ((hFind m' node).mp hRight).2]
  have hMember : ∀ before after, order = before ++ after →
      ∀ node ∈ nodes', name node ∈ before → node ∈ before.filterMap find := by
    intro before after _ node hNode hBefore
    exact mem_filterMap.mpr ⟨name node, hBefore, (hFind (name node) node).mpr ⟨hNode, rfl⟩⟩
  refine ⟨order.filterMap find, hNodup.filterMap hInjective, ?_, ?_⟩
  · intro node
    constructor
    · intro hNode
      rcases mem_filterMap.mp hNode with ⟨m, _, hFound⟩
      exact ((hFind m node).mp hFound).1
    · intro hNode
      exact hMember order [] (by simp) node hNode ((hMem (name node)).mpr (hNodes node hNode))
  · intro before node after hSplit dep hDep
    rcases filterMap_eq_append_iff.mp hSplit with ⟨front, back, hOrder, hFront, hBack⟩
    rcases filterMap_eq_cons_iff.mp hBack with ⟨skipped, m, rest, hBackEq, hSkipped, hFound, _⟩
    rcases (hFind m node).mp hFound with ⟨hNode, hName⟩
    subst hName
    rcases hDeps node hNode dep hDep with ⟨hDepNode, hDepName⟩
    have hEarlier : name dep ∈ front ++ skipped := hOrdered (front ++ skipped) (name node) rest
      (by simp [hOrder, hBackEq]) (name dep) hDepName
    rcases mem_append.mp hEarlier with hIn | hIn
    · rw [← hFront]
      exact hMember front back hOrder dep hDepNode hIn
    -- A skipped name is not found, but `dep` is.
    have hNone := hSkipped (name dep) hIn
    rw [(hFind (name dep) dep).mpr ⟨hDepNode, rfl⟩] at hNone
    cases hNone

----
-- Early Nodes
----

variable [DecidableEq N]

/- What is left of an ordered list may follow any part. -/
theorem Ordered.append_rest {front : List N} (hFront : Ordered deps front)
    (hOrdered : Ordered deps order) :
    Ordered deps (front ++ order.filter (fun node => node ∉ front)) := by
  induction order using List.reverseRecOn with
  | nil => simpa using hFront
  | append_singleton before last ih =>
    rw [filter_append, filter_singleton, Bool.cond_eq_ite, ← append_assoc]
    split
    · refine (ih hOrdered.of_append).append_singleton ?_
      intro dep hDep
      have hBefore := hOrdered before last [] rfl dep hDep
      by_cases hIn : dep ∈ front
      · exact mem_append_left _ hIn
      · exact mem_append_right _ (mem_filter.mpr ⟨hBefore, by simpa using hIn⟩)
    · simpa using ih hOrdered.of_append

/-
  A schedulable graph can be scheduled so that a node comes
  right after the nodes it depends on.
-/
theorem Schedulable.exists_early (hSchedulable : Schedulable deps nodes) (hNode : node ∈ nodes) :
    ∃ before after : List N, (before ++ node :: after).Nodup ∧
      (∀ x, x ∈ before ++ node :: after ↔ x ∈ nodes) ∧ Ordered deps (before ++ node :: after) ∧
      ∀ x ∈ before, Relation.TransGen (fun x y => x ∈ deps y) x node := by
  classical
  have hAcyclic := hSchedulable.acyclic hNode
  rcases hSchedulable with ⟨order, hNodup, hMem, hOrdered⟩
  let needed : N → Bool := fun x => decide (Relation.TransGen (fun x y => x ∈ deps y) x node)
  let before := order.filter needed
  let front := before ++ [node]
  let after := order.filter (fun x => x ∉ front)
  have hBefore : Ordered deps before := by
    refine hOrdered.filter ?_
    intro x hX dep hDep
    rw [decide_eq_true_eq] at hX ⊢
    exact Relation.TransGen.head hDep hX
  have hFront : Ordered deps front := by
    refine hBefore.append_singleton ?_
    intro dep hDep
    rcases append_of_mem ((hMem node).mpr hNode) with ⟨left, right, hSplit⟩
    refine mem_filter.mpr ⟨?_, ?_⟩
    · rw [hSplit]
      exact mem_append_left _ (hOrdered left node right hSplit dep hDep)
    · exact decide_eq_true (Relation.TransGen.single hDep)
  have hShape : before ++ node :: after = front ++ after := by simp [front]
  have hFresh : node ∉ before := by
    intro hIn
    have hNeeded := (mem_filter.mp hIn).2
    exact hAcyclic (of_decide_eq_true hNeeded)
  refine ⟨before, after, ?_, ?_, ?_, ?_⟩
  · rw [hShape]
    refine List.Nodup.append ?_ (hNodup.filter _) ?_
    · refine List.Nodup.append (hNodup.filter _) (by simp) ?_
      simpa using hFresh
    · intro x hIn hOut
      have hNotIn := (mem_filter.mp hOut).2
      exact of_decide_eq_true hNotIn hIn
  · intro x
    rw [hShape, ← hMem x, mem_append, mem_filter, decide_eq_true_eq]
    constructor
    · rintro (hIn | hOut)
      · rcases mem_append.mp hIn with hEarly | hLast
        · exact (mem_filter.mp hEarly).1
        · rw [mem_singleton.mp hLast]
          exact (hMem node).mpr hNode
      · exact hOut.1
    · intro hX
      by_cases hIn : x ∈ front
      · exact .inl hIn
      · exact .inr ⟨hX, hIn⟩
  · rw [hShape]
    exact hFront.append_rest hOrdered
  · intro x hX
    exact of_decide_eq_true (mem_filter.mp hX).2

----
-- Unlocking Dependents
----

variable {Q : Type}

/- Set the counter of one node. -/
def setCount (remaining : N → Nat) (node : N) (count : Nat) : N → Nat :=
  fun other =>
    if other = node then count else remaining other

/-
  Decrement the counter of each listed dependent and push
  the ones that reach zero, in list order.
-/
def unlock (push : N → Q → Q) (remaining : N → Nat) (queue : Q) : List N → (N → Nat) × Q
| [] => (remaining, queue)
| next :: rest =>
  let degree := remaining next - 1
  unlock push (setCount remaining next degree) (if degree = 0 then push next queue else queue) rest

/- The nodes that `unlock` pushes, in order. -/
def newly (remaining : N → Nat) : List N → List N
| [] => []
| next :: rest =>
  let degree := remaining next - 1
  let later := newly (setCount remaining next degree) rest
  if degree = 0 then next :: later else later

/- Unlocking subtracts multiplicities and pushes `newly`. -/
theorem unlock_eq (push : N → Q → Q) (remaining : N → Nat) (queue : Q) (dependents : List N) :
    unlock push remaining queue dependents = (fun node => remaining node - dependents.count node,
      (newly remaining dependents).foldl (fun queue node => push node queue) queue) := by
  induction dependents generalizing remaining queue with
  | nil => simp [unlock, newly]
  | cons next rest ih =>
    simp only [unlock, newly, ih]
    refine Prod.ext ?_ ?_
    · funext node
      by_cases hNode : node = next
      · subst hNode
        simp only [setCount, if_true, count_cons_self]
        omega
      · simp [setCount, hNode, count_cons_of_ne (Ne.symm hNode)]
    · split <;> simp

theorem count_setCount {next : N} {rest : List N} {remaining : N → Nat}
    (hEnough : ∀ node, (next :: rest).count node ≤ remaining node) (node : N) :
    rest.count node ≤ setCount remaining next (remaining next - 1) node ∧
      (setCount remaining next (remaining next - 1) node = rest.count node ↔
        remaining node = (next :: rest).count node) := by
  have hBound := hEnough node
  by_cases hNode : node = next
  · subst hNode
    rw [count_cons_self] at hBound ⊢
    simp only [setCount, if_true]
    omega
  · rw [count_cons_of_ne (Ne.symm hNode)] at hBound ⊢
    simpa [setCount, hNode] using hBound

section

variable (remaining : N → Nat) (dependents : List N)
variable (hEnough : ∀ node, dependents.count node ≤ remaining node)

include hEnough

/-
  When no counter is overdrawn, a node is pushed once if its
  edges use up its counter and never otherwise.
-/
theorem count_newly (node : N) : (newly remaining dependents).count node =
    if 0 < dependents.count node ∧ dependents.count node = remaining node then 1 else 0 := by
  induction dependents generalizing remaining with
  | nil => simp [newly]
  | cons next rest ih =>
    have hNext := hEnough next
    rw [count_cons_self] at hNext
    have hLater := ih _ (fun other => (count_setCount hEnough other).1)
    simp only [newly]
    by_cases hNode : node = next
    · subst hNode
      rw [count_cons_self]
      simp only [setCount] at hLater
      by_cases hZero : remaining node - 1 = 0
      · rw [if_pos hZero, count_cons_self, hLater]
        have hNone : rest.count node = 0 := by omega
        have hOne : remaining node = 1 := by omega
        simp [hNone, hOne]
      · rw [if_neg hZero, hLater]
        by_cases hLast : rest.count node = remaining node - 1
        · rw [if_pos ⟨by omega, hLast⟩, if_pos ⟨by omega, by omega⟩]
        · rw [if_neg (fun h => hLast h.2), if_neg (fun h => hLast (by omega))]
    · simp only [setCount, hNode, if_false] at hLater
      rw [count_cons_of_ne (Ne.symm hNode)]
      split
      · rw [count_cons_of_ne (Ne.symm hNode), hLater]
      · exact hLater

/-
  When no node that becomes free is listed twice, the nodes
  pushed are those whose edges use up their counter.
-/
theorem newly_eq_filter (hOnce : ∀ node ∈ dependents, remaining node = dependents.count node →
      dependents.count node = 1) : newly remaining dependents = dependents.filter (fun node =>
    remaining node = dependents.count node) := by
  induction dependents generalizing remaining with
  | nil => simp [newly]
  | cons next rest ih =>
    have hCount := count_setCount hEnough
    have hLater := ih _ (fun node => (hCount node).1) ?_
    swap
    · intro node hIn hEq
      have hTotal := hOnce node (mem_cons_of_mem next hIn) ((hCount node).2.mp hEq)
      have hPos := count_pos_iff.mpr hIn
      have hLe := Sublist.count_le node (sublist_cons_self next rest)
      omega
    have hHead : remaining next - 1 = 0 ↔ remaining next = (next :: rest).count next := by
      have hBound := hEnough next
      have hOne := hOnce next (by simp)
      rw [count_cons_self] at hBound hOne ⊢
      omega
    simp only [newly, hLater, hCount, filter_cons, hHead, decide_eq_true_eq]

end

omit [DecidableEq N] in
/- Pushing at the back appends the new nodes in order. -/
theorem foldl_push_back (queue fresh : List N) :
    fresh.foldl (fun queue node => queue ++ [node]) queue = queue ++ fresh := by
  induction fresh generalizing queue with
  | nil => simp
  | cons node rest ih => simp [ih]

----
-- Progress of a Dependency-Counted Run
----

/-
  `dependents` lists the edges of `deps` in reverse, with
  the same multiplicities, for the nodes of a graph.
-/
def Reverses (deps dependents : N → List N) (nodes : List N) : Prop :=
  ∀ dep ∈ nodes, ∀ node, (dependents dep).count node =
    if node ∈ nodes then (deps node).count dep else 0

/-
  State of a run that has finished `done`, in this order.
  `pend node` counts the places where an unfinished node is
  waiting or executing: a node is in exactly one place once
  its counter is zero and in none before that.
-/
structure Progress (deps : N → List N) (nodes : List N) (done : List N) (pend : N → Nat)
    (remaining : N → Nat) : Prop where
  located : ∀ node ∈ nodes, done.count node + pend node = if remaining node = 0 then 1 else 0
  outside : ∀ node, node ∉ nodes → done.count node = 0 ∧ pend node = 0
  counted : ∀ node ∈ nodes, remaining node = (deps node).countP (fun dep => dep ∉ done)
  ordered : Ordered deps done

variable {dependents : N → List N} {done : List N} {pend remaining : N → Nat}

namespace Progress

/- Nothing finished, the sources of the graph pending. -/
theorem initial (hInside : ∀ node ∈ nodes, pend node = if (deps node).length = 0 then 1 else 0)
    (hOutside : ∀ node, node ∉ nodes → pend node = 0) :
    Progress deps nodes [] pend (fun node => (deps node).length) := by
  refine ⟨?_, ?_, ?_, ordered_nil deps⟩
  · intro node hNode
    simpa using hInside node hNode
  · intro node hNode
    exact ⟨by simp, hOutside node hNode⟩
  · simp

section

variable (hProgress : Progress deps nodes done pend remaining)

include hProgress

theorem nodup : done.Nodup := by
  rw [nodup_iff_count_le_one]
  intro node
  by_cases hNode : node ∈ nodes
  · have hLocated := hProgress.located node hNode
    split at hLocated <;> omega
  · have hOutside := (hProgress.outside node hNode).1
    omega

theorem mem_nodes (hDone : node ∈ done) : node ∈ nodes := by
  by_contra hNode
  have hCount := (hProgress.outside node hNode).1
  exact count_eq_zero.mp hCount hDone

theorem pending_mem_nodes (hPend : 0 < pend node) : node ∈ nodes := by
  by_contra hNode
  have hNone := (hProgress.outside node hNode).2
  omega

theorem pending_zero (hPend : 0 < pend node) : remaining node = 0 := by
  have hLocated := hProgress.located node (hProgress.pending_mem_nodes hPend)
  by_contra hPos
  rw [if_neg hPos] at hLocated
  omega

/- A pending node has met all its dependencies. -/
theorem deps_done (hPend : 0 < pend node) : ∀ dep ∈ deps node, dep ∈ done := by
  have hCounted := hProgress.counted node (hProgress.pending_mem_nodes hPend)
  rw [hProgress.pending_zero hPend] at hCounted
  intro dep hDep
  have hNone := countP_eq_zero.mp hCounted.symm
  simpa using hNone dep hDep

theorem pending_not_done (hPend : 0 < pend node) : node ∉ done := by
  have hNode := hProgress.pending_mem_nodes hPend
  have hLocated := hProgress.located node hNode
  intro hDone
  have hCount := count_pos_iff.mpr hDone
  split at hLocated <;> omega

end

/- The waiting places may be rearranged. -/
theorem congr_pend {pend' : N → Nat} (hSame : ∀ node, pend node = pend' node)
    (hProgress : Progress deps nodes done pend remaining) :
    Progress deps nodes done pend' remaining := by
  have hEq : pend = pend' := funext hSame
  rwa [← hEq]

private theorem countP_append_singleton (edges : List N) (node : N) (hFresh : node ∉ done) :
    edges.countP (fun dep => dep ∉ done) =
      edges.countP (fun dep => dep ∉ done ++ [node]) + edges.count node := by
  induction edges with
  | nil => simp
  | cons edge rest ih =>
    by_cases hEdge : edge = node
    · subst hEdge
      simp only [countP_cons, ih]
      simp [hFresh]
      omega
    · rw [countP_cons, countP_cons, count_cons_of_ne hEdge, ih]
      simp only [mem_append, mem_singleton, hEdge, or_false]
      omega

section

variable (hReverses : Reverses deps dependents nodes)
variable (hProgress : Progress deps nodes done pend remaining) (hPend : 0 < pend node)

include hReverses hProgress hPend

/-
  The counter of a node splits into the edges to the node
  that finishes now and those that stay unmet.
-/
theorem split_count {other : N} (hOther : other ∈ nodes) :
    remaining other = (deps other).countP (fun dep => dep ∉ done ++ [node]) +
      (dependents node).count other := by
  have hNode := hProgress.pending_mem_nodes hPend
  rw [hProgress.counted other hOther, hReverses node hNode other, if_pos hOther]
  exact countP_append_singleton (deps other) node (hProgress.pending_not_done hPend)

/- No counter is overdrawn. -/
theorem enough (other : N) : (dependents node).count other ≤ remaining other := by
  by_cases hOther : other ∈ nodes
  · have hEq := hProgress.split_count hReverses hPend hOther
    omega
  · rw [hReverses node (hProgress.pending_mem_nodes hPend) other, if_neg hOther]
    omega

/-
  Finishing a pending node: it moves to the end of `done`,
  its dependents are decremented and exactly the nodes that
  `newly` reports become pending.
-/
theorem finish : Progress deps nodes (done ++ [node]) (fun other =>
      pend other - (if other = node then 1 else 0) +
        (newly remaining (dependents node)).count other)
    (fun other => remaining other - (dependents node).count other) := by
  have hNode := hProgress.pending_mem_nodes hPend
  have hDeps := hProgress.deps_done hPend
  have hEdges := hReverses node hNode
  have hEnough := hProgress.enough hReverses hPend
  refine ⟨?_, ?_, ?_, ?_⟩
  · intro other hOther
    have hLocated := hProgress.located other hOther
    rw [count_newly remaining (dependents node) hEnough, count_append]
    have hBound := hEnough other
    by_cases hSame : other = node
    · subst hSame
      have hSelf := hProgress.pending_zero hPend
      have hNoEdge : (dependents other).count other = 0 := by omega
      simp only [hSelf, hNoEdge, if_true, count_cons_self, count_nil] at hLocated ⊢
      simp
      omega
    · have hSingle : [node].count other = 0 := by
        simp [Ne.symm hSame]
      rw [hSingle, if_neg hSame]
      by_cases hZero : remaining other = 0
      · have hNoEdge : (dependents node).count other = 0 := by omega
        rw [if_pos hZero] at hLocated
        simp only [hNoEdge, hZero]
        simpa using hLocated
      · rw [if_neg hZero] at hLocated
        by_cases hLast : (dependents node).count other = remaining other
        · rw [if_pos ⟨by omega, hLast⟩, if_pos (by omega)]
          omega
        · rw [if_neg (fun h => hLast h.2), if_neg (by omega)]
          omega
  · intro other hOther
    have hNone := hProgress.outside other hOther
    have hSame : other ≠ node := by
      intro hEq
      exact hOther (hEq ▸ hNode)
    have hNoEdge : (dependents node).count other = 0 := by rw [hEdges other, if_neg hOther]
    refine ⟨?_, ?_⟩
    · simp [hNone.1, Ne.symm hSame]
    · rw [count_newly remaining (dependents node) hEnough]
      simp [hNone.2, hNoEdge]
  · intro other hOther
    have hEq := hProgress.split_count hReverses hPend hOther
    omega
  · exact hProgress.ordered.append_singleton hDeps

end

/-
  A run with nothing pending has finished every node of an
  ordered list: each node there has its dependencies earlier
  in it, hence done.
-/
theorem ordered_done (hProgress : Progress deps nodes done (fun _ => 0) remaining)
    (hOrdered : Ordered deps order) (hNodes : ∀ node ∈ order, node ∈ nodes) :
    ∀ node ∈ order, node ∈ done := by
  induction order using reverseRecOn with
  | nil => simp
  | append_singleton before last ih =>
    have hBefore := ih hOrdered.of_append (fun node hNode => hNodes node (mem_append_left _ hNode))
    intro node hNode
    rcases mem_append.mp hNode with hIn | hLast
    · exact hBefore node hIn
    rw [mem_singleton.mp hLast]
    have hLastNode := hNodes last (by simp)
    have hZero : remaining last = 0 := by
      rw [hProgress.counted last hLastNode, countP_eq_zero]
      intro dep hDep
      simpa using hBefore dep (hOrdered before last [] rfl dep hDep)
    have hLocated := hProgress.located last hLastNode
    rw [if_pos hZero] at hLocated
    exact count_pos_iff.mp (by omega)

/- So it has finished all of a schedulable graph. -/
theorem complete (hSchedulable : Schedulable deps nodes)
    (hProgress : Progress deps nodes done (fun _ => 0) remaining) :
    ∀ node ∈ nodes, node ∈ done := by
  rcases hSchedulable with ⟨order, _, hMem, hOrdered⟩
  intro node hNode
  exact hProgress.ordered_done hOrdered (fun node => (hMem node).mp) node ((hMem node).mpr hNode)

/- Nothing pending: the finished nodes are a permutation. -/
theorem complete_perm (hNodes : nodes.Nodup) (hSchedulable : Schedulable deps nodes)
    (hProgress : Progress deps nodes done (fun _ => 0) remaining) : done.Perm nodes := by
  rw [perm_ext_iff_of_nodup hProgress.nodup hNodes]
  intro node
  exact ⟨hProgress.mem_nodes, hProgress.complete hSchedulable node⟩

/- A run never finishes more nodes than there are. -/
theorem length_le (hProgress : Progress deps nodes done pend remaining) :
    done.length ≤ nodes.length := by
  have hSubperm : List.Subperm done nodes := hProgress.nodup.subperm
    (fun _ hDone => hProgress.mem_nodes hDone)
  exact hSubperm.length_le

end Progress

----
-- Reverse Edges and Kahn's Loop
----

/-
  The reverse edges as a loop over `nodes` collects them:
  one entry for each edge, in the order of the nodes.
-/
def reverse (deps : N → List N) (nodes : List N) (dep : N) : List N :=
  nodes.flatMap (fun node => ((deps node).filter (· = dep)).map (fun _ => node))

theorem reverse_reverses (deps : N → List N) (hNodes : nodes.Nodup) :
    Reverses deps (reverse deps nodes) nodes := by
  intro dep hDep node
  clear hDep
  have hOwn : ∀ other, (((deps other).filter (· = dep)).map (fun _ => other)).count node =
      if other = node then (deps node).count dep
      else 0 := by
    intro other
    by_cases hOther : other = node
    · subst hOther
      rw [map_const', count_replicate_self, if_pos rfl, count_eq_length_filter]
      rfl
    · simp [count_replicate, hOther]
  unfold reverse
  induction nodes with
  | nil => simp
  | cons first rest ih =>
    rw [nodup_cons] at hNodes
    have hRest := ih hNodes.2
    rw [flatMap_cons, count_append, hOwn first, hRest]
    by_cases hFirst : first = node
    · subst hFirst
      simp [hNodes.1]
    · simp [hFirst, Ne.symm hFirst]

/-
  Kahn's loop: take the oldest ready node, append it to the
  order and decrement its dependents. Each turn uses one
  unit of fuel.
-/
def kahn (dependents : N → List N) : Nat → (N → Nat) → List N → List N → List N
| 0, _, _, order => order
| _ + 1, _, [], order => order
| fuel + 1, remaining, node :: ready, order =>
  let next := unlock (fun n queue => queue ++ [n]) remaining ready (dependents node)
  kahn dependents fuel next.1 next.2 (order ++ [node])

variable {ready : List N}

/-
  Popping a node from the front of the queue and unlocking
  its dependents at the back keeps the queue's counts equal
  to the pending counts.
-/
theorem Progress.pop_front (hReverses : Reverses deps dependents nodes)
    (hProgress : Progress deps nodes done (fun other => (node :: ready).count other) remaining) :
    let next := unlock (fun n queue => queue ++ [n]) remaining ready (dependents node)
    Progress deps nodes (done ++ [node]) (fun other => next.2.count other) next.1 := by
  have hPend : 0 < (node :: ready).count node := by simp
  have hFinish := hProgress.finish hReverses hPend
  rw [unlock_eq]
  refine hFinish.congr_pend ?_
  intro other
  rw [foldl_push_back, count_cons]
  by_cases hOther : other = node
  · subst hOther
    simp
  · simp [hOther, Ne.symm hOther]

/-
  What Kahn's loop returns: an order in progress, and with
  enough fuel nothing is left in the queue.
-/
theorem Progress.kahn (hReverses : Reverses deps dependents nodes) (fuel : Nat)
    (hProgress : Progress deps nodes done (fun other => ready.count other) remaining) :
    ∃ left remaining', Progress deps nodes (Dependency.kahn dependents fuel remaining ready done)
        (fun other => left.count other) remaining' ∧
      (nodes.length < fuel + done.length → left = []) := by
  fun_induction Dependency.kahn dependents fuel remaining ready done with
  | case1 remaining ready done =>
    refine ⟨ready, remaining, hProgress, ?_⟩
    have hLength := hProgress.length_le
    omega
  | case2 fuel remaining done => exact ⟨[], remaining, hProgress, fun _ => rfl⟩
  | case3 fuel remaining node ready done next ih =>
    rcases ih (hProgress.pop_front hReverses) with ⟨left, remaining', hEnd, hEmpty⟩
    refine ⟨left, remaining', hEnd, ?_⟩
    intro hFuel
    apply hEmpty
    rw [length_append, length_singleton]
    omega

/- Kahn's loop only appends to the order. -/
theorem kahn_extends (dependents : N → List N) (fuel : Nat) (remaining : N → Nat)
    (ready order : List N) : order <+: kahn dependents fuel remaining ready order := by
  fun_induction kahn dependents fuel remaining ready order with
  | case1 remaining ready order => exact prefix_refl order
  | case2 fuel remaining order => exact prefix_refl order
  | case3 fuel remaining node ready order next ih => exact (prefix_append order [node]).trans ih

/- A queue that holds the sources of the graph once. -/
theorem Progress.sources (hNodes : nodes.Nodup)
    (hReady : ready.Perm (nodes.filter (fun n => (deps n).length = 0))) :
    Progress deps nodes [] (fun node => ready.count node) (fun node => (deps node).length) := by
  have hCount : ∀ node, ready.count node =
      if node ∈ nodes ∧ (deps node).length = 0
        then 1 else 0 := by
    intro node
    rw [hReady.count_eq, (hNodes.filter _).count]
    simp only [mem_filter, decide_eq_true_eq]
  refine .initial ?_ ?_
  · intro node hNode
    rw [hCount node]
    simp [hNode]
  · intro node hNode
    rw [hCount node]
    simp [hNode]

section

variable (hNodes : nodes.Nodup)
variable (hReverses : Reverses deps dependents nodes)
variable (hReady : ready.Perm (nodes.filter (fun n => (deps n).length = 0)))

include hNodes hReverses hReady

/- Kahn's loop lists every node of a schedulable graph. -/
theorem kahn_perm (hSchedulable : Schedulable deps nodes) :
    (kahn dependents (nodes.length + 1) (fun n => (deps n).length) ready []).Perm nodes := by
  rcases Progress.kahn hReverses (nodes.length + 1) (Progress.sources hNodes hReady) with
    ⟨left, remaining', hEnd, hEmpty⟩
  have hNone := hEmpty (by simp)
  subst hNone
  have hEnd' : Progress deps nodes _ (fun _ => 0) remaining' := hEnd.congr_pend (fun _ => by simp)
  exact hEnd'.complete_perm hNodes hSchedulable

/-
  Kahn's test: the loop orders as many nodes as there are
  exactly when the graph can be scheduled.
-/
theorem kahn_length_eq_iff :
    (kahn dependents (nodes.length + 1) (fun n => (deps n).length) ready []).length = nodes.length ↔
      Schedulable deps nodes := by
  constructor
  · intro hLength
    rcases Progress.kahn hReverses (nodes.length + 1) (Progress.sources hNodes hReady) with
      ⟨left, remaining', hEnd, _⟩
    have hPerm : (kahn dependents (nodes.length + 1)
        (fun n => (deps n).length) ready []).Perm nodes :=
      (hEnd.nodup.subperm (fun _ h => hEnd.mem_nodes h)).perm_of_length_le (by omega)
    exact ⟨_, hEnd.nodup, fun _ => hPerm.mem_iff, hEnd.ordered⟩
  · intro hSchedulable
    exact (kahn_perm hNodes hReverses hReady hSchedulable).length_eq

end

end Dependency
