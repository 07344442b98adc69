import Mathlib.Tactic

/-
  This file is a small library of eviction sweeps: items of
  a cache are visited from the least recently used one on,
  and those that may go are dropped until an incoming item
  has room.

  Main declarations:
    * `Eviction.mem_sweep_iff`
    * `Eviction.sweep_full`
-/

namespace Eviction

open List

variable {α : Type} (weight : α → Nat)

/- The weight of all items. -/
def load (items : List α) : Nat :=
  (items.map weight).sum

variable (keep : α → Bool) (limit incoming : Nat)

/-
  Sweeps a list of items; `used` is what they and anything
  beside them weigh.
-/
def sweep : Nat → List α → List α × Nat
| used, [] => ([], used)
| used, item :: items =>
  if used + incoming ≤ limit then (item :: items, used)
  else if keep item then
    (item :: (sweep used items).1, (sweep used items).2)
  else sweep (used - weight item) items

/-
  The item may go, and what may go before it does not make
  enough room.
-/
def Taken (used : Nat) (items : List α) (item : α) : Prop :=
  ∃ front back, items = front ++ item :: back ∧ keep item = false ∧
    limit + load weight (front.filter (fun i => !keep i)) < used + incoming

variable {weight keep limit incoming}

@[simp]
theorem load_nil : load weight [] = 0 :=
  rfl

@[simp]
theorem load_cons (item : α) (items : List α) :
    load weight (item :: items) = weight item + load weight items := by
  simp [load]

@[simp]
theorem load_append (items more : List α) :
    load weight (items ++ more) = load weight items + load weight more := by
  simp [load]

variable {items : List α}

theorem load_le_of_subperm {more : List α} (hSubperm : items.Subperm more) :
    load weight items ≤ load weight more := by
  rcases hSubperm with ⟨middle, hPerm, hSublist⟩
  have hSame : load weight items = load weight middle := ((hPerm.map weight).sum_eq).symm
  rw [hSame]
  exact (hSublist.map weight).sum_le_sum (fun _ _ => Nat.zero_le _)

theorem sweep_sublist (used : Nat) (items : List α) :
    (sweep weight keep limit incoming used items).1.Sublist items := by
  induction items generalizing used with
  | nil => exact List.Sublist.refl _
  | cons item items ih =>
    unfold sweep
    split
    · exact List.Sublist.refl _
    · split
      · exact (ih used).cons_cons item
      · exact (ih _).cons item

/- What stands beside the items does not change. -/
theorem sweep_load (used : Nat) (items : List α) (hUsed : load weight items ≤ used) :
    load weight items + (sweep weight keep limit incoming used items).2 =
      used + load weight (sweep weight keep limit incoming used items).1 := by
  induction items generalizing used with
  | nil => simp [sweep]
  | cons item items ih =>
    rw [load_cons] at hUsed
    unfold sweep
    split
    · simp only [load_cons]
      omega
    split
    · have hRest := ih used (by omega)
      simp only [load_cons]
      omega
    · have hRest := ih (used - weight item) (by omega)
      simp only [load_cons]
      omega

variable {used : Nat}

/- Whoever is swept after a first item. -/
theorem taken_cons_iff {first : α} (hFirst : weight first ≤ used) (item : α) :
    Taken weight keep limit incoming used (first :: items) item ↔
      (item = first ∧ keep first = false ∧ limit < used + incoming) ∨
      Taken weight keep limit incoming (if keep first then used else used - weight first)
        items item := by
  constructor
  · rintro ⟨front, back, hSplit, hGoes, hRoom⟩
    cases front with
    | nil =>
      cases hSplit
      exact .inl ⟨rfl, hGoes, by simpa using hRoom⟩
    | cons head front =>
      cases hSplit
      refine .inr ⟨front, back, rfl, hGoes, ?_⟩
      cases hKeep : keep first with
      | true => simpa [hKeep] using hRoom
      | false =>
        simp only [filter_cons, hKeep, Bool.not_false, if_true, load_cons] at hRoom
        simp only [Bool.false_eq_true, if_false]
        omega
  · rintro (⟨rfl, hGoes, hRoom⟩ | hLater)
    · exact ⟨[], items, rfl, hGoes, by simpa using hRoom⟩
    · rcases hLater with ⟨front, back, rfl, hGoes, hRoom⟩
      refine ⟨first :: front, back, rfl, hGoes, ?_⟩
      cases hKeep : keep first with
      | true => simpa [hKeep] using hRoom
      | false =>
        simp only [hKeep, Bool.false_eq_true, if_false] at hRoom
        simp only [filter_cons, hKeep, Bool.not_false, if_true, load_cons]
        omega

theorem not_taken_of_room (hRoom : used + incoming ≤ limit) (item : α) :
    ¬ Taken weight keep limit incoming used items item := by
  rintro ⟨front, back, _, _, hFull⟩
  omega

/- The sweep drops exactly the items that are taken. -/
theorem mem_sweep_iff (used : Nat) (items : List α) (hUsed : load weight items ≤ used)
    (hNodup : items.Nodup) (item : α) :
    item ∈ (sweep weight keep limit incoming used items).1 ↔ item ∈ items ∧
      ¬ Taken weight keep limit incoming used items item := by
  induction items generalizing used with
  | nil => simp [sweep]
  | cons first items ih =>
    rw [load_cons] at hUsed
    rw [nodup_cons] at hNodup
    unfold sweep
    by_cases hRoom : used + incoming ≤ limit
    · rw [if_pos hRoom]
      simp [not_taken_of_room hRoom item]
    rw [if_neg hRoom, taken_cons_iff (by omega)]
    cases hKeep : keep first with
    | true =>
      simp only [if_true, mem_cons, ih used (by omega) hNodup.2]
      constructor
      · rintro (rfl | hStays)
        · refine ⟨Or.inl rfl, ?_⟩
          rintro (hGoes | ⟨front, back, _, hGoes, _⟩)
          · cases hGoes.2.1
          · rw [hKeep] at hGoes
            cases hGoes
        · refine ⟨Or.inr hStays.1, ?_⟩
          rintro (hGoes | hGoes)
          · cases hGoes.2.1
          · exact hStays.2 hGoes
      · rintro ⟨rfl | hItem, hStays⟩
        · exact .inl rfl
        · exact .inr ⟨hItem, fun h => hStays (Or.inr h)⟩
    | false =>
      simp only [Bool.false_eq_true, if_false, mem_cons,
        ih (used - weight first) (by omega) hNodup.2]
      constructor
      · rintro ⟨hItem, hStays⟩
        refine ⟨Or.inr hItem, ?_⟩
        rintro (⟨rfl, _⟩ | hGoes)
        · exact hNodup.1 hItem
        · exact hStays hGoes
      · rintro ⟨rfl | hItem, hStays⟩
        · exact absurd (Or.inl ⟨rfl, trivial, by omega⟩) hStays
        · exact ⟨hItem, fun h => hStays (Or.inr h)⟩

/- A sweep that does not make room keeps the rest only. -/
theorem sweep_full (used : Nat) (items : List α)
    (hFull : limit < (sweep weight keep limit incoming used items).2 + incoming) :
    (sweep weight keep limit incoming used items).1 = items.filter keep := by
  induction items generalizing used with
  | nil => rfl
  | cons first items ih =>
    unfold sweep at hFull ⊢
    by_cases hRoom : used + incoming ≤ limit
    · rw [if_pos hRoom] at hFull
      omega
    rw [if_neg hRoom] at hFull ⊢
    cases hKeep : keep first with
    | true =>
      simp only [hKeep, if_true] at hFull ⊢
      rw [filter_cons_of_pos hKeep, ih used hFull]
    | false =>
      simp only [hKeep, Bool.false_eq_true, if_false] at hFull ⊢
      rw [filter_cons_of_neg (by simp [hKeep]), ih _ hFull]

end Eviction
