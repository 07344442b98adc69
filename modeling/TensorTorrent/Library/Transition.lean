import Mathlib.Tactic

/-
  This file is a small library of labelled transition
  systems given by a partial step function. A label resolves
  every choice of the environment, and `allowed` restricts
  the steps of a run by a condition on the state before
  each step.

  Main declarations:
    * `Transition.Reachable.invariant`
    * `Transition.Reachable.of_run`
    * `Transition.run_project`
-/

namespace Transition

variable {S L : Type}

/- One allowed step. -/
def Next (step : S → L → Option S) (allowed : S → L → Prop) (s s' : S) : Prop :=
  ∃ label, allowed s label ∧ step s label = some s'

/- States reached by runs whose steps are all allowed. -/
def Reachable (step : S → L → Option S) (allowed : S → L → Prop) : S → S → Prop :=
  Relation.ReflTransGen (Next step allowed)

/- No restriction on the steps. -/
def always (_ : S) (_ : L) : Prop :=
  True

/- A run along a list of labels. -/
def run (step : S → L → Option S) : S → List L → Option S
| s, [] => some s
| s, label :: labels => (step s label).bind (fun s' => run step s' labels)

/- The point of a call after one of them moved. -/
theorem moved_cases {C P : Type} [DecidableEq C] {calls : C → Option P} {call other : C}
    {after q : P} (hQ : Function.update calls call (some after) other = some q) :
    other = call ∧ q = after ∨ other ≠ call ∧ calls other = some q := by
  by_cases hSame : other = call
  · subst hSame
    rw [Function.update_self] at hQ
    exact .inl ⟨rfl, (Option.some.inj hQ).symm⟩
  · rw [Function.update_of_ne hSame] at hQ
    exact .inr ⟨hSame, hQ⟩

theorem run_cons {step : S → L → Option S} {s s' : S} {label : L} {labels : List L}
    (hRun : run step s (label :: labels) = some s') :
    ∃ m, step s label = some m ∧ run step m labels = some s' :=
  Option.bind_eq_some_iff.mp hRun

theorem run_append (step : S → L → Option S) (first second : List L) :
    ∀ s, run step s (first ++ second) = (run step s first).bind (fun s' => run step s' second) := by
  induction first with
  | nil => exact fun _ => rfl
  | cons label first ih =>
    intro s
    simp only [List.cons_append, run]
    cases step s label with
    | none => rfl
    | some m => exact ih m

/- Every step of the run is allowed in the state before
   it. -/
def Meets (step : S → L → Option S) (allowed : S → L → Prop) : S → List L → Prop
| _, [] => True
| s, label :: labels =>
  allowed s label ∧ ∀ s', step s label = some s' → Meets step allowed s' labels

variable {step : S → L → Option S} {allowed : S → L → Prop}

theorem Meets.cons {s s' : S} {label : L} {labels : List L} (hStep : step s label = some s')
    (hAllowed : allowed s label) (hRest : Meets step allowed s' labels) :
    Meets step allowed s (label :: labels) := by
  refine ⟨hAllowed, ?_⟩
  intro m hM
  rw [hStep] at hM
  cases hM
  exact hRest

theorem Meets.of_forall (labels : List L) (hAllowed : ∀ label ∈ labels, ∀ s, allowed s label) :
    ∀ s, Meets step allowed s labels := by
  induction labels with
  | nil => exact fun _ => trivial
  | cons label labels ih =>
    intro s
    refine ⟨hAllowed label (by simp) s, fun s' _ => ?_⟩
    exact ih (fun l hl => hAllowed l (by simp [hl])) s'

namespace Reachable

/-
  A property of the first state that every allowed step
  keeps holds in every state reached.
-/
theorem invariant {s s' : S} (inv : S → Prop)
    (hStep : ∀ s label s', inv s → allowed s label → step s label = some s' → inv s')
    (hReach : Reachable step allowed s s') (hStart : inv s) : inv s' := by
  induction hReach with
  | refl => exact hStart
  | tail _ hNext ih =>
    rcases hNext with ⟨label, hAllowed, hResult⟩
    exact hStep _ label _ ih hAllowed hResult

/- A run that succeeds reaches its last state. -/
theorem of_run (labels : List L) :
    ∀ {s s' : S}, Meets step allowed s labels → run step s labels = some s' →
      Reachable step allowed s s' := by
  induction labels with
  | nil =>
    intro s s' _ hRun
    cases hRun
    exact Relation.ReflTransGen.refl
  | cons label labels ih =>
    intro s s' hMeets hRun
    rcases run_cons hRun with ⟨m, hStep, hRun⟩
    have hFirst : Next step allowed s m := ⟨label, hMeets.1, hStep⟩
    have hRest : Reachable step allowed m s' := ih (hMeets.2 m hStep) hRun
    exact Relation.ReflTransGen.head hFirst hRest

theorem of_run_always {s s' : S} (labels : List L) (hRun : run step s labels = some s') :
    Reachable step always s s' :=
  of_run labels (Meets.of_forall labels (fun _ _ _ => trivial) s) hRun

end Reachable

/-
  Unwinding. When a relation between two states is kept by
  an own step taken on both sides and by any other step
  taken on the left side alone, a run and the run of its
  own labels end in related states.
-/
theorem run_project (own : L → Bool) (rel : S → S → Prop)
    (hOwn : ∀ s t label s', rel s t → allowed s label → own label = true → step s label = some s' →
      ∃ t', step t label = some t' ∧ rel s' t')
    (hOther : ∀ s t label s', rel s t → allowed s label →
      own label = false → step s label = some s' → rel s' t)
    (labels : List L) :
    ∀ {s t s' : S}, rel s t → Meets step allowed s labels → run step s labels = some s' →
      ∃ t', run step t (labels.filter own) = some t' ∧ rel s' t' := by
  induction labels with
  | nil =>
    intro s t s' hRel _ hRun
    cases hRun
    exact ⟨t, rfl, hRel⟩
  | cons label labels ih =>
    intro s t s' hRel hMeets hRun
    rcases run_cons hRun with ⟨m, hStep, hRun⟩
    have hRest := hMeets.2 m hStep
    cases hKind : own label with
    | true =>
      rcases hOwn s t label m hRel hMeets.1 hKind hStep with ⟨n, hNext, hAfter⟩
      rcases ih hAfter hRest hRun with ⟨t', hRun', hRel'⟩
      refine ⟨t', ?_, hRel'⟩
      rw [List.filter_cons_of_pos hKind, run, hNext]
      exact hRun'
    | false =>
      have hAfter := hOther s t label m hRel hMeets.1 hKind hStep
      rw [List.filter_cons_of_neg (by simp [hKind])]
      exact ih hAfter hRest hRun

----
-- Contributions
----

/-
  How far the steps with some labels have changed a value
  along a run, whatever the other steps did to it.
-/
def contribution (step : S → L → Option S) (mine : L → Bool) (observe : S → Int) : S → List L → Int
| _, [] => 0
| s, label :: labels =>
  match step s label with
  | none => 0
  | some s' =>
    (if mine label then observe s' - observe s else 0) + contribution step mine observe s' labels

/-
  A relation between the state and the change so far that
  own steps keep, with the change they make, and that other
  steps keep as well.
-/
theorem contribution_invariant (mine : L → Bool) (observe : S → Int) (rel : S → Int → Prop)
    (hMine : ∀ s n label s', rel s n → mine label = true → step s label = some s' →
      rel s' (n + (observe s' - observe s)))
    (hOther : ∀ s n label s', rel s n → mine label = false → step s label = some s' → rel s' n)
    (labels : List L) : ∀ {s s' : S} {n : Int}, rel s n → run step s labels = some s' →
      rel s' (n + contribution step mine observe s labels) := by
  induction labels with
  | nil =>
    intro s s' n hRel hRun
    cases hRun
    simpa [contribution] using hRel
  | cons label labels ih =>
    intro s s' n hRel hRun
    rcases run_cons hRun with ⟨m, hStep, hRun⟩
    simp only [contribution, hStep, ← add_assoc]
    cases hLabel : mine label with
    | true =>
      apply ih _ hRun
      exact hMine s n label m hRel hLabel hStep
    | false =>
      simp only [Bool.false_eq_true, if_false, add_zero]
      apply ih _ hRun
      exact hOther s n label m hRel hLabel hStep

----
-- Tallies
----

/- What the steps of a run count together. -/
def tally (step : S → L → Option S) (count : S → L → S → Nat) : S → List L → Nat
| _, [] => 0
| s, label :: labels =>
  match step s label with
  | none => 0
  | some s' => count s label s' + tally step count s' labels

/-
  A relation between the state and two counts that every
  allowed step keeps, with what the step counts, holds
  between the last state and the counts of the run.
-/
theorem tally_invariant (up down : S → L → S → Nat) (rel : S → Nat → Nat → Prop)
    (hStep : ∀ s ups downs label s', rel s ups downs → allowed s label → step s label = some s' →
      rel s' (ups + up s label s') (downs + down s label s'))
    (labels : List L) :
    ∀ {s s' : S} {ups downs : Nat}, rel s ups downs → Meets step allowed s labels →
      run step s labels = some s' →
      rel s' (ups + tally step up s labels) (downs + tally step down s labels) := by
  induction labels with
  | nil =>
    intro s s' ups downs hRel _ hRun
    cases hRun
    exact hRel
  | cons label labels ih =>
    intro s s' ups downs hRel hMeets hRun
    rcases run_cons hRun with ⟨m, hFirst, hRun⟩
    have hNext := hStep s ups downs label m hRel hMeets.1 hFirst
    simp only [tally, hFirst, ← add_assoc]
    exact ih hNext (hMeets.2 m hFirst) hRun

end Transition
