import Mathlib.Tactic

/-
  Ranked lists and tables of champions.

  A list can be sorted by a rank, keeping the order of rows
  of equal rank. A table keeps one row for each key: a new
  row replaces the one of its key unless that one holds its
  place.

  Key definitions include:
    * `Ranking.sortOn`
    * `Ranking.enter`
    * `Ranking.champions`

  Key theorems include:
    * `Ranking.sortOn_eq_of_perm`
    * `Ranking.champions_subset`
-/

namespace Ranking

variable {α ι : Type}

----
-- Sorting by a Rank
----

section Sorting

variable [LinearOrder ι]

/- Stable sort by a rank, smallest first. -/
def sortOn (rank : α → ι) (rows : List α) : List α :=
  rows.insertionSort (fun a b => rank a ≤ rank b)

theorem sortOn_perm (rank : α → ι) (rows : List α) : (sortOn rank rows).Perm rows :=
  List.perm_insertionSort _ rows

variable {rank : α → ι}

theorem mem_sortOn {rows : List α} {row : α} : row ∈ sortOn rank rows ↔ row ∈ rows :=
  (sortOn_perm rank rows).mem_iff

theorem sortOn_sorted (rank : α → ι) (rows : List α) :
    (sortOn rank rows).Pairwise (fun a b => rank a ≤ rank b) := by
  exact List.pairwise_insertionSort _ rows

/- With distinct ranks the sorted list is determined. -/
theorem sortOn_eq_of_perm {rows rows' : List α} (hPerm : rows.Perm rows')
    (hDistinct : ∀ a ∈ rows, ∀ b ∈ rows, rank a = rank b → a = b) :
    sortOn rank rows = sortOn rank rows' := by
  refine List.Perm.eq_of_pairwise ?_ (sortOn_sorted rank rows) (sortOn_sorted rank rows')
    ((sortOn_perm rank rows).trans (hPerm.trans (sortOn_perm rank rows').symm))
  intro a b hA hB hAB hBA
  exact hDistinct a (mem_sortOn.mp hA) b (hPerm.mem_iff.mpr (mem_sortOn.mp hB))
    (le_antisymm hAB hBA)

end Sorting

----
-- Champions
----

section Champions

variable {K : Type} [DecidableEq K] (key : α → K) (holds : α → α → Bool)

/- Enters a row unless the one of its key holds. -/
def enter (table : List α) (row : α) : List α :=
  match table.find? (fun old => key old = key row) with
  | none => table ++ [row]
  | some old =>
    if holds old row then table
    else
      table.map (fun old =>
        if key old = key row then row else old)

/- The table after all rows have been entered in order. -/
def champions (rows : List α) : List α :=
  rows.foldl (enter key holds) []

variable {key holds}

theorem mem_enter_imp {table : List α} {row other : α}
    (hOther : other ∈ enter key holds table row) : other ∈ table ∨ other = row := by
  unfold enter at hOther
  split at hOther
  · simpa using hOther
  split at hOther
  · exact .inl hOther
  rcases List.mem_map.mp hOther with ⟨old, hOld, hEq⟩
  split at hEq
  · exact .inr hEq.symm
  · exact .inl (hEq ▸ hOld)

private theorem foldl_enter (rows : List α) :
    ∀ {table : List α}, ∀ row ∈ rows.foldl (enter key holds) table, row ∈ table ∨ row ∈ rows := by
  induction rows with
  | nil => exact fun _ => Or.inl
  | cons row rest ih =>
    intro table other hOther
    rcases ih other hOther with hTable | hRest
    · rcases mem_enter_imp hTable with hOld | hEq
      · exact .inl hOld
      · exact .inr (hEq ▸ List.mem_cons_self)
    · exact .inr (List.mem_cons_of_mem _ hRest)

variable (key holds)

theorem champions_subset {rows : List α} {row : α} (hRow : row ∈ champions key holds rows) :
    row ∈ rows :=
  (foldl_enter rows row hRow).resolve_left List.not_mem_nil

end Champions

end Ranking
