import Mathlib.Data.Set.Card

/-
  This file develops exact reference counts. Every holder
  refers to at most one object, and the count of an object
  is the number of its holders.

  Main declarations:
    * `References.Exact.take`
    * `References.Exact.drop`
-/

namespace References

open Function (update update_eq_self update_idem update_of_ne update_self)

variable {H R : Type}

/- The holders of an object. -/
def holders (refs : H → Option R) (object : R) : Set H :=
  { holder | refs holder = some object }

/- The counts are the numbers of holders. -/
structure Exact (refs : H → Option R) (count : R → Nat) : Prop where
  finite : ∀ object, (holders refs object).Finite
  eq_ncard : ∀ object, count object = (holders refs object).ncard

theorem exact_none : Exact (fun _ : H => (none : Option R)) (fun _ => 0) := by
  have hEmpty : ∀ object : R, holders (fun _ : H => none) object = ∅ := by
    simp [holders]
  constructor
  · intro object
    rw [hEmpty]
    exact Set.finite_empty
  · intro object
    rw [hEmpty, Set.ncard_empty]

variable {refs : H → Option R} {count : R → Nat} {holder : H} {object : R}

section Updates

variable [DecidableEq H]

theorem holders_update_some (refs : H → Option R) (holder : H) (object : R) :
    holders (update refs holder (some object)) object = insert holder (holders refs object) := by
  ext other
  by_cases hSame : other = holder
  · simp [holders, hSame]
  · simp [holders, hSame]

theorem holders_update_other (value : Option R) (hBefore : refs holder ≠ some object)
    (hAfter : value ≠ some object) :
    holders (update refs holder value) object = holders refs object := by
  ext other
  by_cases hSame : other = holder
  · simp [holders, hSame, hBefore, hAfter]
  · simp [holders, hSame]

theorem holders_update_none (refs : H → Option R) (holder : H) (object : R) :
    holders (update refs holder none) object = holders refs object \ {holder} := by
  ext other
  by_cases hSame : other = holder
  · simp [holders, hSame]
  · simp [holders, hSame]

end Updates

namespace Exact

/- An object that somebody holds is counted. -/
theorem pos (hExact : Exact refs count) (hHolds : refs holder = some object) :
    0 < count object := by
  rw [hExact.eq_ncard, Set.ncard_pos (hExact.finite object)]
  exact ⟨holder, hHolds⟩

variable [DecidableEq H] [DecidableEq R]

/- An idle holder takes a reference. -/
theorem take (hExact : Exact refs count) (hIdle : refs holder = none) (object : R) :
    Exact (update refs holder (some object)) (update count object (count object + 1)) := by
  have hNotMem : holder ∉ holders refs object := by simp [holders, hIdle]
  have hOther : ∀ other, other ≠ object → holders (update refs holder (some object))
      other = holders refs other := by
    intro other hNe
    apply holders_update_other
    · simp [hIdle]
    · simpa using Ne.symm hNe
  constructor
  · intro other
    by_cases hSame : other = object
    · subst hSame
      rw [holders_update_some]
      exact (hExact.finite other).insert holder
    · rw [hOther other hSame]
      exact hExact.finite other
  · intro other
    by_cases hSame : other = object
    · subst hSame
      rw [holders_update_some, update_self, Set.ncard_insert_of_notMem hNotMem
        (hExact.finite other), hExact.eq_ncard]
    · rw [hOther other hSame, update_of_ne hSame]
      exact hExact.eq_ncard other

/- A holder drops its reference. -/
theorem drop (hExact : Exact refs count) (hHolds : refs holder = some object) :
    Exact (update refs holder none) (update count object (count object - 1)) := by
  constructor
  · intro other
    rw [holders_update_none]
    exact (hExact.finite other).sdiff
  · intro other
    by_cases hSame : other = object
    · subst hSame
      rw [holders_update_none, update_self, hExact.eq_ncard]
      have hMem : holder ∈ holders refs other := hHolds
      exact (Set.ncard_sdiff_singleton_of_mem hMem).symm
    · rw [update_of_ne hSame, holders_update_other]
      · exact hExact.eq_ncard other
      · rw [hHolds]
        simpa using Ne.symm hSame
      · simp

/- A reference passes from one holder to an idle one. -/
theorem move (hExact : Exact refs count) (hHolds : refs holder = some object) {heir : H}
    (hIdle : refs heir = none) :
    Exact (update (update refs holder none) heir (some object)) count := by
  have hDropped := hExact.drop hHolds
  have hStillIdle : update refs holder none heir = none := by
    by_cases hSame : heir = holder
    · rw [hSame, update_self]
    · rw [update_of_ne hSame]
      exact hIdle
  have hTaken := hDropped.take hStillIdle object
  have hPos := hExact.pos hHolds
  rw [update_idem, update_self, Nat.sub_add_cancel hPos, update_eq_self] at hTaken
  exact hTaken

end Exact

end References
