import Mathlib.Logic.Relation

/-
  Removing nodes from a graph. The order that remains
  between the kept nodes is the old one iff every chain of
  removed nodes between two kept ones is bypassed.

  Key definitions include:
    * `Bypass.Among`
    * `Bypass.Hangs`
    * `Bypass.Covered`

  Key theorems include:
    * `Bypass.covered_iff`
-/

namespace Bypass

variable {N : Type} (r : N → N → Prop) (kept : N → Prop)

/- The edges that remain. -/
def Among (a b : N) : Prop :=
  r a b ∧ kept a ∧ kept b

/- A removed node that comes after `a`, with nothing but
   removed nodes in between. -/
inductive Hangs (a : N) : N → Prop where
| first {d : N} (hEdge : r a d) (hRemoved : ¬ kept d) : Hangs a d
| next {d e : N} (hChain : Hangs a d) (hEdge : r d e) (hRemoved : ¬ kept e) : Hangs a e

/- Chains of removed nodes have a way around them. -/
def Covered : Prop :=
  ∀ a d b, kept a → kept b → Hangs r kept a d → r d b → Relation.TransGen (Among r kept) a b

variable {r kept}

theorem Hangs.transGen {a d : N} (hChain : Hangs r kept a d) : Relation.TransGen r a d := by
  induction hChain with
  | first hEdge => exact Relation.TransGen.single hEdge
  | next _ hEdge _ ih => exact ih.tail hEdge

/-
  The end of a path from a kept node: it is reached along
  kept nodes, or it hangs on one that is.
-/
theorem Covered.path (hCovered : Covered r kept) {a b : N} (hStart : kept a)
    (hPath : Relation.TransGen r a b) :
    (kept b → Relation.TransGen (Among r kept) a b) ∧ (¬ kept b → ∃ c, kept c ∧
      Relation.ReflTransGen (Among r kept) a c ∧ Hangs r kept c b) := by
  induction hPath with
  | single hEdge =>
    constructor
    · intro hEnd
      exact Relation.TransGen.single ⟨hEdge, hStart, hEnd⟩
    · intro hRemoved
      exact ⟨a, hStart, Relation.ReflTransGen.refl, Hangs.first hEdge hRemoved⟩
  | @tail c b _ hEdge ih =>
    by_cases hMiddle : kept c
    · have hReach := ih.1 hMiddle
      constructor
      · intro hEnd
        exact hReach.tail ⟨hEdge, hMiddle, hEnd⟩
      · intro hRemoved
        exact ⟨c, hMiddle, hReach.to_reflTransGen, Hangs.first hEdge hRemoved⟩
    · rcases ih.2 hMiddle with ⟨anchor, hAnchor, hReach, hChain⟩
      constructor
      · intro hEnd
        have hAround := hCovered anchor c b hAnchor hEnd hChain hEdge
        exact hAround.trans_right hReach
      · intro hRemoved
        exact ⟨anchor, hAnchor, hReach, hChain.next hEdge hRemoved⟩

/- When the kept nodes keep their order. -/
theorem covered_iff :
    (∀ a b, kept a → kept b → Relation.TransGen r a b → Relation.TransGen (Among r kept) a b) ↔
    Covered r kept := by
  constructor
  · intro hOrder a d b hA hB hChain hEdge
    exact hOrder a b hA hB (hChain.transGen.tail hEdge)
  · intro hCovered a b hA hB hPath
    exact (hCovered.path hA hPath).1 hB

end Bypass
