import TensorTorrent.Ir.Validate

/-
  This file proves that the memoised ancestor closure of
  the validator (crate `tt-ir`, `validate.rs`, `ancestors`)
  is the transitive closure of the listed dependencies,
  whatever closures earlier calls have stored.

  Main declarations:
    * `Validate.ancestors_transitive_closure`
-/

namespace TensorTorrent

open List

namespace Validate

variable {schedule : ExecutableSchedule}

----
-- Precedence of Names
----

/- Does the instruction found under `b` list `a`? -/
def Lists (schedule : ExecutableSchedule) (a b : InstructionId) : Prop :=
  a ∈ dependsOn schedule b

/- Transitive dependency between names. -/
def Precedes (schedule : ExecutableSchedule) : InstructionId → InstructionId → Prop :=
  Relation.TransGen (Lists schedule)

variable {inst : Instruction} {name : InstructionId}

theorem dependsOn_of_byName (hFound : schedule.byName name = some inst) :
    dependsOn schedule name = inst.dependsOn := by
  simp [dependsOn, hFound]

theorem dependsOn_of_unknown (hUnknown : schedule.byName name = none) :
    dependsOn schedule name = [] := by
  simp [dependsOn, hUnknown]

/- A name that lists a dependency is known. -/
theorem Lists.known {a b : InstructionId} (hLists : Lists schedule a b) :
    ∃ inst, schedule.byName b = some inst := by
  rw [← Option.isSome_iff_exists, Option.isSome_iff_ne_none]
  intro hUnknown
  rw [Lists, dependsOn_of_unknown hUnknown] at hLists
  exact not_mem_nil hLists

----
-- Fuel of the Loop
----

/- Dependencies listed by instructions not yet seen. -/
def unseenDependencies (schedule : ExecutableSchedule) (seen : List InstructionId) : Nat :=
  ((schedule.instructions.filter (fun inst => inst.name ∉ seen)).map
    (fun inst => inst.dependsOn.length)).sum

private theorem unseen_anti (insts : List Instruction) {seen seen' : List InstructionId}
    (hSub : seen ⊆ seen') :
    ((insts.filter (fun inst => inst.name ∉ seen')).map (fun inst => inst.dependsOn.length)).sum ≤
      ((insts.filter (fun inst => inst.name ∉ seen)).map
        (fun inst => inst.dependsOn.length)).sum := by
  refine Sublist.sum_le_sum ((monotone_filter_right insts ?_).map _) (fun _ _ => Nat.zero_le _)
  intro inst hUnseen
  rw [decide_eq_true_eq] at hUnseen ⊢
  exact fun hSeen => hUnseen (hSub hSeen)

/- Expanding a name pays for what it pushes. -/
private theorem unseenDependencies_expand {cur : InstructionId} {seen : List InstructionId}
    (hFound : schedule.byName cur = some inst) (hUnseen : cur ∉ seen) :
    unseenDependencies schedule (cur :: seen) + inst.dependsOn.length ≤
      unseenDependencies schedule seen := by
  rcases ExecutableSchedule.byName_eq_some_imp hFound with ⟨hMem, hName⟩
  rcases append_of_mem hMem with ⟨front, back, hSplit⟩
  have hFront := unseen_anti front (subset_cons_self cur seen)
  have hBack := unseen_anti back (subset_cons_self cur seen)
  simp only [unseenDependencies, hSplit, filter_append, filter_cons, hName, hUnseen, map_append,
    sum_append, mem_cons_self, not_true_eq_false, decide_false, not_false_eq_true, decide_true,
    if_true, Bool.false_eq_true, if_false, map_cons, sum_cons]
  omega

----
-- The Stack Loop
----

/- Stored closures are the closures of their names. -/
def AncestorCache.Sound (schedule : ExecutableSchedule) (cache : AncestorCache) : Prop :=
  ∀ name hit, cache name = some hit → ∀ a, a ∈ hit ↔ Precedes schedule a name

/-
  What the loop keeps: pushed and seen names precede the
  root, and a dependency of the root or of a seen name is
  itself seen or still on the stack.
-/
structure Exploring (schedule : ExecutableSchedule) (root : InstructionId)
    (stack seen : List InstructionId) : Prop where
  pushed : ∀ a ∈ stack, Precedes schedule a root
  found : ∀ a ∈ seen, Precedes schedule a root
  roots : ∀ a, Lists schedule a root → a ∈ seen ∨ a ∈ stack
  closed : ∀ b ∈ seen, ∀ a, Lists schedule a b → a ∈ seen ∨ a ∈ stack

namespace Exploring

variable {root cur : InstructionId} {stack seen : List InstructionId}

/- With an empty stack the seen names are the closure. -/
theorem finished (hExploring : Exploring schedule root [] seen) (a : InstructionId) :
    a ∈ seen ↔ Precedes schedule a root := by
  constructor
  · exact hExploring.found a
  · intro hPath
    induction hPath using Relation.TransGen.head_induction_on
    with
    | single hEdge => exact (hExploring.roots _ hEdge).resolve_right not_mem_nil
    | head hEdge _ ih => exact (hExploring.closed _ ih _ hEdge).resolve_right not_mem_nil

/- A name met before is dropped from the stack. -/
theorem skip (hExploring : Exploring schedule root (cur :: stack) seen) (hSeen : cur ∈ seen) :
    Exploring schedule root stack seen := by
  have hMove : ∀ a, a ∈ seen ∨ a ∈ cur :: stack → a ∈ seen ∨ a ∈ stack := by
    rintro a (hA | hA)
    · exact .inl hA
    · rcases mem_cons.mp hA with hEq | hTail
      · exact .inl (hEq ▸ hSeen)
      · exact .inr hTail
  exact
    { pushed := fun a hA =>
        hExploring.pushed a (mem_cons_of_mem _ hA)
      found := hExploring.found
      roots := fun a hA => hMove a (hExploring.roots a hA)
      closed := fun b hB a hA => hMove a (hExploring.closed b hB a hA) }

/-
  A fresh name joins the seen ones with `more` others that
  precede it, if `next` and the new seen names cover its
  dependencies.
-/
theorem visit (hExploring : Exploring schedule root (cur :: stack) seen)
    (next more : List InstructionId) (hNext : ∀ a ∈ next, Precedes schedule a cur)
    (hMore : ∀ a ∈ more, Precedes schedule a cur)
    (hCur : ∀ a, Lists schedule a cur → a ∈ more ∨ a ∈ next)
    (hClosed : ∀ b ∈ more, ∀ a, Lists schedule a b → a ∈ more) :
    Exploring schedule root (next ++ stack) (more ++ cur :: seen) := by
  have hRoot := hExploring.pushed cur mem_cons_self
  have hMove : ∀ a, a ∈ seen ∨ a ∈ cur :: stack → a ∈ more ++ cur :: seen ∨ a ∈ next ++ stack := by
    intro a hA
    simp only [mem_append, mem_cons] at hA ⊢
    tauto
  refine
    { pushed := ?_, found := ?_
      roots := fun a hA => hMove a (hExploring.roots a hA)
      closed := ?_ }
  · intro a hA
    rcases mem_append.mp hA with hNew | hOld
    · exact (hNext a hNew).trans hRoot
    · exact hExploring.pushed a (mem_cons_of_mem _ hOld)
  · intro a hA
    rcases mem_append.mp hA with hNew | hOld
    · exact (hMore a hNew).trans hRoot
    · rcases mem_cons.mp hOld with hEq | hSeen
      · exact hEq ▸ hRoot
      · exact hExploring.found a hSeen
  · intro b hB a hA
    rcases mem_append.mp hB with hNew | hOld
    · exact .inl (mem_append_left _ (hClosed b hNew a hA))
    rcases mem_cons.mp hOld with hEq | hSeen
    · rw [hEq] at hA
      exact (hCur a hA).imp (mem_append_left _) (mem_append_left _)
    · exact hMove a (hExploring.closed b hSeen a hA)

end Exploring

variable {cache : AncestorCache}

/-
  The loop computes the closure when its fuel covers the
  stack and the dependencies still to be pushed.
-/
theorem mem_ancestorsLoop (hCache : cache.Sound schedule) {root : InstructionId} :
    ∀ (fuel : Nat) {stack seen : List InstructionId}, Exploring schedule root stack seen →
      stack.length + unseenDependencies schedule seen ≤ fuel →
      ∀ a, a ∈ ancestorsLoop schedule cache fuel stack seen ↔ Precedes schedule a root := by
  intro fuel
  induction fuel with
  | zero =>
    intro stack seen hExploring hFuel a
    have hEmpty : stack = [] := length_eq_zero_iff.mp (by omega)
    rw [hEmpty] at hExploring
    exact hExploring.finished a
  | succ fuel ih =>
    intro stack seen hExploring hFuel a
    cases stack with
    | nil => exact hExploring.finished a
    | cons cur stack =>
      rw [length_cons] at hFuel
      rw [ancestorsLoop]
      split
      · next hSeen => exact ih (hExploring.skip hSeen) (by omega) a
      rename_i hFresh
      split
      · next hUnknown =>
        have hNone : ∀ a, ¬ Lists schedule a cur := by
          intro a hA
          rcases hA.known with ⟨inst, hInst⟩
          rw [hUnknown] at hInst
          cases hInst
        have hSeen : unseenDependencies schedule (cur :: seen) ≤ unseenDependencies schedule seen :=
          unseen_anti _ (subset_cons_self _ _)
        exact ih (hExploring.visit [] [] (by simp) (by simp)
            (fun a hA => absurd hA (hNone a)) (by simp))
          (by simp only [nil_append]; omega) a
      · next hit _ hHit =>
        have hMem := hCache cur hit hHit
        have hSeen : unseenDependencies schedule (hit ++ cur :: seen) ≤
            unseenDependencies schedule seen :=
          unseen_anti _ (fun _ hA => mem_append_right _ (mem_cons_of_mem _ hA))
        exact ih (hExploring.visit [] hit (by simp) (fun a hA => (hMem a).mp hA)
            (fun a hA => Or.inl ((hMem a).mpr (.single hA)))
            (fun b hB a hA => (hMem a).mpr (.head hA ((hMem b).mp hB))))
          (by simp only [nil_append]; omega) a
      · next inst hFound _ =>
        have hSeen := unseenDependencies_expand hFound hFresh
        have hDeps := dependsOn_of_byName hFound
        exact ih (hExploring.visit inst.dependsOn.reverse [] (fun a hA => .single (by
              rw [Lists, hDeps]
              exact mem_reverse.mp hA))
            (by simp)
            (fun a hA => Or.inr (by
              rw [Lists, hDeps] at hA
              exact mem_reverse.mpr hA))
            (by simp))
          (by
            rw [length_append, length_reverse, nil_append]
            omega) a

----
-- The Memoised Closure
----

private theorem length_dependsOn_le (schedule : ExecutableSchedule) (name : InstructionId) :
    (dependsOn schedule name).length ≤ unseenDependencies schedule [] := by
  cases hFound : schedule.byName name with
  | none => simp [dependsOn_of_unknown hFound]
  | some inst =>
    rw [dependsOn_of_byName hFound]
    exact (Nat.le_add_left _ _).trans (unseenDependencies_expand hFound not_mem_nil)

/- A call returns the closure and keeps the cache sound. -/
theorem mem_ancestors (hCache : cache.Sound schedule) (name a : InstructionId) :
    a ∈ (ancestors schedule name cache).1 ↔ Precedes schedule a name := by
  unfold ancestors
  split
  · next hit hHit => exact hCache name hit hHit a
  refine mem_ancestorsLoop hCache _ ?_ ?_ a
  · exact
      { pushed := fun a hA => .single (mem_reverse.mp hA)
        found := by simp
        roots := fun a hA => Or.inr (mem_reverse.mpr hA)
        closed := by simp }
  · have hLength := length_dependsOn_le schedule name
    have hTotal : unseenDependencies schedule [] = (schedule.instructions.map
        (fun inst => inst.dependsOn.length)).sum := by
      simp [unseenDependencies]
    rw [length_reverse, ancestorFuel]
    omega

theorem ancestors_sound (hCache : cache.Sound schedule) (name : InstructionId) :
    (ancestors schedule name cache).2.Sound schedule := by
  have hClosure := mem_ancestors hCache name
  unfold ancestors at hClosure ⊢
  split at hClosure
  · exact hCache
  dsimp only
  intro other hit hHit a
  by_cases hSame : other = name
  · rw [hSame, Function.update_self, Option.some.injEq] at hHit
    rw [← hHit, hSame]
    exact hClosure a
  · rw [Function.update_of_ne hSame] at hHit
    exact hCache other hit hHit a

/- The cache after earlier queries, in any order. -/
def memoised (schedule : ExecutableSchedule) (queries : List InstructionId) : AncestorCache :=
  queries.foldl (fun cache name => (ancestors schedule name cache).2) (fun _ => none)

theorem memoised_sound (schedule : ExecutableSchedule) (queries : List InstructionId) :
    (memoised schedule queries).Sound schedule := by
  refine foldlRecOn queries _ ?_ ?_
  · intro name hit hHit
    cases hHit
  · intro cache hCache name _
    exact ancestors_sound hCache name

/- A dependency on an instruction of the schedule. -/
def DependsOnKnown (schedule : ExecutableSchedule) (a b : InstructionId) : Prop :=
  a ∈ dependsOn schedule b ∧ a ∈ schedule.names

theorem Lists.mem_names {a b : InstructionId} (hLists : Lists schedule a b) :
    b ∈ schedule.names := by
  rcases hLists.known with ⟨inst, hFound⟩
  exact (schedule.mem_names b).mpr ⟨inst, ExecutableSchedule.byName_eq_some_imp hFound⟩

/- Only the first name of a path can be unknown. -/
theorem precedes_known_iff (a : InstructionId) : Precedes schedule a name ∧ a ∈ schedule.names ↔
    Relation.TransGen (DependsOnKnown schedule) a name := by
  constructor
  · intro ⟨hPath, hA⟩
    induction hPath using Relation.TransGen.head_induction_on
    with
    | single hEdge => exact .single ⟨hEdge, hA⟩
    | head hEdge _ ih => exact .head ⟨hEdge, hA⟩ (ih hEdge.mem_names)
  · intro hPath
    rcases Relation.TransGen.head'_iff.mp hPath with ⟨_, hEdge, _⟩
    exact ⟨Relation.TransGen.mono (fun _ _ hKnown => hKnown.1) a name hPath, hEdge.2⟩

/-
  What earlier queries have stored does not matter: the set
  of a name holds its transitive dependencies among the
  instructions, and nothing else once the cycle check has
  passed, as it has when the validator asks for sets.
-/
theorem ancestors_transitive_closure (schedule : ExecutableSchedule) (order : HashOrder schedule)
    (queries : List InstructionId) (name a : InstructionId) :
    (a ∈ (ancestors schedule name (memoised schedule queries)).1 ∧ a ∈ schedule.names ↔
      Relation.TransGen (DependsOnKnown schedule) a name) ∧
    ((topologicalOrder schedule order).length = schedule.names.length →
      a ∈ (ancestors schedule name (memoised schedule queries)).1 → a ∈ schedule.names) := by
  rw [mem_ancestors (memoised_sound schedule queries)]
  refine ⟨precedes_known_iff a, ?_⟩
  intro hChecked hPath
  rcases (topologicalOrder_length_eq_iff schedule order).mp hChecked with
    ⟨listed, -, hListed, hOrdered⟩
  rcases Relation.TransGen.head'_iff.mp hPath with ⟨b, hEdge, _⟩
  rcases append_of_mem ((hListed b).mpr hEdge.mem_names) with ⟨before, after, hSplit⟩
  have hA := hOrdered before b after hSplit a hEdge
  exact (hListed a).mp (hSplit ▸ mem_append_left _ hA)

/- Three instructions in a row. -/
def chained : ExecutableSchedule :=
  { instructions :=
    [{ opcode := .compute, name := "a", resource := "cpu" },
      { opcode := .compute, name := "b", resource := "cpu", dependsOn := ["a"] },
      { opcode := .compute, name := "c", resource := "cpu", dependsOn := ["b"] }] }

theorem chained_closure : Relation.TransGen (DependsOnKnown chained) "a" "c" ∧ "d" ∉
    (ancestors chained "c" (memoised chained ["b"])).1 := by
  have hClosure := ancestors_transitive_closure chained (.listed chained) ["b"] "c"
  refine ⟨(hClosure "a").1.mp (by decide), ?_⟩
  exact fun hMember => absurd ((hClosure "d").2 (by decide) hMember) (by decide)

end Validate

end TensorTorrent
