import Mathlib.Tactic

/-
  Weighted items that are counted when a test holds. The
  items of a pool that are held at an instant, or those that
  were never given back, are two such tests over one list,
  and comparing the tests compares the weights.

  Main declarations:
    * `Occupancy.total_le`
    * `Occupancy.total_split`
-/

namespace Occupancy

open List

variable {α : Type}

/- The weight of the items that pass a test. -/
def total (weight : α → Nat) (counts : α → Bool) (items : List α) : Nat :=
  (items.map (fun item =>
    if counts item then weight item else 0)).sum

variable {weight : α → Nat} {counts counts' : α → Bool}

theorem total_append (items more : List α) :
    total weight counts (items ++ more) = total weight counts items + total weight counts more := by
  simp [total]

theorem total_singleton (item : α) :
    total weight counts [item] = if counts item then weight item else 0 := by
  simp [total]

variable {items : List α}

/- A test that passes fewer items weighs no more. -/
theorem total_le (hCounts : ∀ item ∈ items, counts item = true → counts' item = true) :
    total weight counts items ≤ total weight counts' items := by
  apply sum_le_sum
  intro item hItem
  by_cases hHere : counts item = true
  · simp [hHere, hCounts item hItem hHere]
  · simp [hHere]

theorem total_congr (hCounts : ∀ item ∈ items, counts item = counts' item) :
    total weight counts items = total weight counts' items := by
  unfold total
  congr 1
  apply map_congr_left
  intro item hItem
  rw [hCounts item hItem]

/- Items that weigh the same weigh the same together. -/
theorem total_congr_weight {weight' : α → Nat}
    (hItems : ∀ item ∈ items, counts item = counts' item ∧ weight item = weight' item) :
    total weight counts items = total weight' counts' items := by
  unfold total
  congr 1
  apply map_congr_left
  intro item hItem
  rw [(hItems item hItem).1, (hItems item hItem).2]

/- Taking one item out takes its weight out. -/
theorem total_erase [DecidableEq α] {item : α} (hItem : item ∈ items) :
    total weight counts items = (if counts item then weight item else 0) +
      total weight counts (items.erase item) := by
  unfold total
  rw [((perm_cons_erase hItem).map _).sum_eq]
  simp

/- A second test splits the weight in two. -/
theorem total_split (test : α → Bool) (items : List α) :
    total weight counts items = total weight (fun item => counts item && test item) items +
      total weight (fun item => counts item && !test item) items := by
  induction items with
  | nil => simp [total]
  | cons item rest ih =>
    simp only [total, map_cons, sum_cons] at ih ⊢
    rw [ih]
    by_cases hCounts : counts item = true
    · by_cases hTest : test item = true
      · simp [hTest]
        omega
      · simp [hTest]
        omega
    · simp [hCounts]

/- Counting the items that were kept. -/
theorem total_filter (keep : α → Bool) (items : List α) :
    total weight counts (items.filter keep) = total weight (fun item => counts item && keep item)
      items := by
  induction items with
  | nil => simp [total]
  | cons item rest ih =>
    by_cases hKeep : keep item = true
    · rw [filter_cons_of_pos hKeep]
      simp only [total, map_cons, sum_cons, hKeep, Bool.and_true] at ih ⊢
      rw [ih]
    · rw [filter_cons_of_neg hKeep]
      simp only [total, map_cons, hKeep] at ih ⊢
      simpa using ih

/- Changing the items changes the test when the weights
   stay. -/
theorem total_map (f : α → α) (items : List α)
    (hWeight : ∀ item ∈ items, weight (f item) = weight item) :
    total weight counts (items.map f) = total weight (fun item => counts (f item)) items := by
  unfold total
  rw [map_map]
  congr 1
  apply map_congr_left
  intro item hItem
  simp only [Function.comp_apply, hWeight item hItem]

/- One counted item weighs no more than all. -/
theorem weight_le_total {item : α} (hItem : item ∈ items) (hCounts : counts item = true) :
    weight item ≤ total weight counts items := by
  have hMem : weight item ∈ items.map (fun item =>
      if counts item then weight item else 0) :=
    mem_map.mpr ⟨item, hItem, by simp [hCounts]⟩
  exact single_le_sum (by simp) _ hMem

end Occupancy
