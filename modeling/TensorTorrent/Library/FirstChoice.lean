import Mathlib.Tactic

/-
  Choices that an iteration order makes.

  Every key has candidates among the nodes of a list, and
  an iteration order gives each key the first of them.
  Some candidates suit the key and some do not. This file
  says when no order, some order or every order gives each
  key a candidate that suits it.

  Key definitions include:
    * `FirstChoice.Suits`
    * `FirstChoice.Stuck`

  Key theorems include:
    * `FirstChoice.exists_suits_iff`
    * `FirstChoice.forall_suits_iff`
-/

namespace FirstChoice

open List

variable {K N : Type}

/- Every key gets a candidate that is good for it. -/
def Suits (candidate : K → N → Bool) (good : K → N → Prop) (keys : List K)
    (order : List N) : Prop :=
  ∀ key ∈ keys, ∀ node, order.find? (candidate key) = some node → good key node

/-
  Keys that no order can serve: whatever candidate of one
  of them comes first is bad for one of them.
-/
def Stuck (candidate : K → N → Bool) (good : K → N → Prop) (nodes : List N)
    (keys : List K) : Prop :=
  (∃ key ∈ keys, ∃ node ∈ nodes, candidate key node) ∧
    ∀ key ∈ keys, ∀ node ∈ nodes, candidate key node →
      ∃ other ∈ keys, candidate other node ∧ ¬ good other node

variable {candidate : K → N → Bool} {good : K → N → Prop} {nodes : List N} {keys : List K}

/- Stuck keys are not served by any order. -/
theorem Stuck.not_suits (hStuck : Stuck candidate good nodes keys) {order : List N}
    (hOrder : order.Perm nodes) : ¬ Suits candidate good keys order := by
  intro hSuits
  rcases hStuck with ⟨⟨key, hKey, node, hNode, hCand⟩, hBad⟩
  -- the first node of the order that any of the keys can take
  cases hFirst : order.find? (fun node => keys.any (candidate · node)) with
  | none =>
    have hNone := find?_eq_none.mp hFirst node (hOrder.mem_iff.mpr hNode)
    exact hNone (any_eq_true.mpr ⟨key, hKey, hCand⟩)
  | some first =>
    have hAny := find?_some hFirst
    rcases any_eq_true.mp hAny with ⟨taker, hTaker, hTakes⟩
    rcases hBad taker hTaker first (hOrder.mem_iff.mp (mem_of_find?_eq_some hFirst))
      hTakes with ⟨other, hOther, hOtherCand, hNotGood⟩
    refine hNotGood (hSuits other hOther first ?_)
    rcases find?_eq_some_iff_append.mp hFirst with ⟨-, before, after, hSplit, hBefore⟩
    refine find?_eq_some_iff_append.mpr ⟨hOtherCand, before, after, hSplit, ?_⟩
    intro earlier hEarlier
    have hNone := hBefore earlier hEarlier
    rw [Bool.not_eq_true', any_eq_false] at hNone
    simpa using hNone other hOther

/-
  Keys without a stuck part are served one candidate at a
  time: each round takes a node that is good for every key
  it is a candidate of.
-/
private theorem exists_picks [DecidableEq N] (candidate : K → N → Bool) (good : K → N → Prop)
    (nodes : List N) : ∀ (size : Nat) (keys : List K), keys.length ≤ size →
      (∀ part : List K, part ⊆ keys → ¬ Stuck candidate good nodes part) →
      ∃ picks : List N, picks.Nodup ∧ (∀ node ∈ picks, node ∈ nodes ∧
        ∃ key ∈ keys, candidate key node) ∧ ∀ key ∈ keys, ∀ rest : List N, rest ⊆ nodes → ∀ node,
          (picks ++ rest).find? (candidate key) = some node → good key node := by
  intro size
  induction size with
  | zero =>
    intro keys hSize _
    have hEmpty : keys = [] := length_eq_zero_iff.mp (Nat.le_zero.mp hSize)
    exact ⟨[], by simp [hEmpty]⟩
  | succ size ih =>
    intro keys hSize hFree
    by_cases hOpen : ∃ key ∈ keys, ∃ node ∈ nodes, candidate key node
    · have hNotStuck := hFree keys (fun _ => id)
      simp only [Stuck, hOpen, true_and, not_forall, not_exists, not_and, not_not] at hNotStuck
      rcases hNotStuck with ⟨key, hKey, node, hNode, hCand, hGood⟩
      let left := keys.filter (fun key => !candidate key node)
      have hLeft : left ⊆ keys := filter_subset_self _
      have hShorter : left.length < keys.length := by
        refine length_filter_lt_length_iff_exists.mpr ⟨key, hKey, ?_⟩
        simp [hCand]
      rcases ih left (by omega) (fun part hPart =>
          hFree part (List.Subset.trans hPart hLeft)) with
        ⟨picks, hNodup, hPicks, hServed⟩
      have hFresh : node ∉ picks := by
        intro hMem
        rcases (hPicks node hMem).2 with ⟨taker, hTaker, hTakes⟩
        simpa [hTakes] using (mem_filter.mp hTaker).2
      refine ⟨node :: picks, nodup_cons.mpr ⟨hFresh, hNodup⟩, ?_, ?_⟩
      · intro other hOther
        rcases mem_cons.mp hOther with hEq | hTail
        · exact hEq ▸ ⟨hNode, key, hKey, hCand⟩
        · rcases hPicks other hTail with ⟨hIn, taker, hTaker, hTakes⟩
          exact ⟨hIn, taker, hLeft hTaker, hTakes⟩
      · intro served hServedKey rest hRest first hFirst
        by_cases hTakes : candidate served node = true
        · rw [cons_append, find?_cons_of_pos hTakes, Option.some.injEq] at hFirst
          exact hFirst ▸ hGood served hServedKey hTakes
        · rw [cons_append, find?_cons_of_neg hTakes] at hFirst
          refine hServed served ?_ rest hRest first hFirst
          exact mem_filter.mpr ⟨hServedKey, by simpa using hTakes⟩
    · refine ⟨[], nodup_nil, by simp, ?_⟩
      intro key hKey rest hRest node hFirst
      exact absurd ⟨key, hKey, node, hRest (mem_of_find?_eq_some hFirst), find?_some hFirst⟩ hOpen

/- Some order serves the keys unless a part is stuck. -/
theorem exists_suits_iff [DecidableEq N] (hNodes : nodes.Nodup) :
    (∃ order : List N, order.Perm nodes ∧ Suits candidate good keys order) ↔
    ∀ part : List K, part ⊆ keys → ¬ Stuck candidate good nodes part := by
  constructor
  · rintro ⟨order, hOrder, hSuits⟩ part hPart hStuck
    exact hStuck.not_suits hOrder (fun key hKey => hSuits key (hPart hKey))
  · intro hFree
    rcases exists_picks candidate good nodes keys.length keys
      le_rfl hFree with ⟨picks, hNodup, hPicks, hServed⟩
    let rest := nodes.filter (fun node => node ∉ picks)
    have hRest : rest ⊆ nodes := filter_subset_self _
    refine ⟨picks ++ rest, ?_, fun key hKey => hServed key hKey rest hRest⟩
    refine (perm_ext_iff_of_nodup (hNodup.append (hNodes.filter _) ?_) hNodes).mpr ?_
    · intro node hPick hLeft
      simpa [hPick] using (mem_filter.mp hLeft).2
    · intro node
      rw [mem_append, mem_filter, decide_eq_true_eq]
      constructor
      · rintro (hPick | hLeft)
        · exact (hPicks node hPick).1
        · exact hLeft.1
      · intro hNode
        by_cases hPick : node ∈ picks
        · exact .inl hPick
        · exact .inr ⟨hNode, hPick⟩

/- Every order serves the keys if all candidates are good. -/
theorem forall_suits_iff [DecidableEq N] :
    (∀ order : List N, order.Perm nodes → Suits candidate good keys order) ↔
    ∀ key ∈ keys, ∀ node ∈ nodes, candidate key node → good key node := by
  constructor
  · intro hAll key hKey node hNode hCand
    -- the order that puts this candidate first
    refine hAll (node :: nodes.erase node) (perm_cons_erase hNode).symm key hKey node ?_
    exact find?_cons_of_pos hCand
  · intro hGood order hOrder key hKey node hFirst
    exact hGood key hKey node (hOrder.mem_iff.mp (mem_of_find?_eq_some hFirst)) (find?_some hFirst)

end FirstChoice
