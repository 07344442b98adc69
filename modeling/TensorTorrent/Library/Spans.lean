import Mathlib.Data.List.Sort

/-
  A sweep over byte ranges that are sorted by their start. It
  keeps how far the ranges seen so far reach, and refuses a
  range that starts before that point. Empty ranges take part
  in nothing.

  Main declarations:
    * `sweep_iff`
    * `sweep_sorted_iff`
-/

namespace TensorTorrent

/- The bytes from `start` up to `stop`. -/
structure Span where
  start : Nat
  stop : Nat
  name : String
deriving DecidableEq

namespace Spans

/-
  The loop over the sorted ranges. `active` is the end of the
  range that reaches furthest, with its name; the error names
  it and the range that starts too early.
-/
def sweep : List Span → Option (Nat × String) → Except (String × String) Unit
| [], _ => .ok ()
| span :: spans, none =>
  sweep spans (if span.start < span.stop then
      some (span.stop, span.name)
    else none)
| span :: spans, some (reach, name) =>
  if span.start < reach ∧ span.start < span.stop then
    .error (name, span.name)
  else
    sweep spans (if span.start < span.stop ∧ reach < span.stop then
        some (span.stop, span.name)
      else some (reach, name))

/- How far the ranges seen so far reach. -/
def reach : Option (Nat × String) → Nat
| none => 0
| some (stop, _) => stop

/- No byte is in both ranges. -/
def Apart (first second : Span) : Prop :=
  first.stop ≤ first.start ∨ second.stop ≤ second.start ∨
    first.stop ≤ second.start ∨ second.stop ≤ first.start

theorem Apart.symm {first second : Span} (hApart : Apart first second) : Apart second first := by
  unfold Apart at *
  omega

variable (active : Option (Nat × String)) (span : Span)

/- The reach after one more range. -/
def advance : Option (Nat × String) :=
  if span.start < span.stop ∧ reach active < span.stop then
    some (span.stop, span.name)
  else active

/- One turn of the loop. -/
theorem sweep_cons_iff (spans : List Span) (active : Option (Nat × String)) :
    sweep (span :: spans) active = .ok () ↔ (span.start < span.stop → reach active ≤ span.start) ∧
      sweep spans (advance active span) = .ok () := by
  cases active with
  | none =>
    have hNext : advance none span =
        if span.start < span.stop then
          some (span.stop, span.name)
        else none := by
      unfold advance
      by_cases hBytes : span.start < span.stop
      · have hPos : reach none < span.stop := Nat.lt_of_le_of_lt (Nat.zero_le _) hBytes
        rw [if_pos ⟨hBytes, hPos⟩, if_pos hBytes]
      · rw [if_neg (fun hBoth => hBytes hBoth.1), if_neg hBytes]
    rw [hNext, sweep]
    simp [reach]
  | some active =>
    obtain ⟨stop, name⟩ := active
    rw [sweep]
    by_cases hEarly : span.start < stop ∧ span.start < span.stop
    · have hNot : ¬ (span.start < span.stop → reach (some (stop, name)) ≤ span.start) := by
        intro hLate
        have hLe : stop ≤ span.start := hLate hEarly.2
        omega
      simp only [if_pos hEarly, hNot, false_and, iff_false]
      exact fun hOk => nomatch hOk
    · have hLate : span.start < span.stop → reach (some (stop, name)) ≤ span.start := by
        intro hBytes
        change stop ≤ span.start
        omega
      rw [if_neg hEarly]
      exact ⟨fun hOk => ⟨hLate, hOk⟩, fun hBoth => hBoth.2⟩

theorem reach_advance : reach (advance active span) = if span.start < span.stop then
      max (reach active) span.stop
    else reach active := by
  unfold advance
  by_cases hBytes : span.start < span.stop
  · rw [if_pos hBytes]
    by_cases hFurther : reach active < span.stop
    · rw [if_pos ⟨hBytes, hFurther⟩]
      change span.stop = _
      omega
    · rw [if_neg (fun hBoth => hFurther hBoth.2)]
      omega
  · rw [if_neg (fun hBoth => hBytes hBoth.1), if_neg hBytes]

/- On sorted ranges the sweep finds every overlap. -/
theorem sweep_iff {spans : List Span}
    (hSorted : spans.Pairwise (fun first second => first.start ≤ second.start))
    (active : Option (Nat × String)) :
    sweep spans active = .ok () ↔ (∀ span ∈ spans, span.start < span.stop →
      reach active ≤ span.start) ∧ spans.Pairwise Apart := by
  induction spans generalizing active with
  | nil => simp [sweep]
  | cons span spans ih =>
    obtain ⟨hFirst, hRest⟩ := List.pairwise_cons.mp hSorted
    rw [sweep_cons_iff, ih hRest, List.forall_mem_cons, List.pairwise_cons, reach_advance]
    by_cases hBytes : span.start < span.stop
    · rw [if_pos hBytes]
      constructor
      · rintro ⟨hHere, hLater, hApart⟩
        refine ⟨⟨hHere, ?_⟩, ?_, hApart⟩
        · intro other hOther hOtherBytes
          have := hLater other hOther hOtherBytes
          omega
        · intro other hOther
          by_cases hOtherBytes : other.start < other.stop
          · have := hLater other hOther hOtherBytes
            unfold Apart
            omega
          · unfold Apart
            omega
      · rintro ⟨⟨hHere, hLater⟩, hApart, hOthers⟩
        refine ⟨hHere, ?_, hOthers⟩
        intro other hOther hOtherBytes
        have hStart := hFirst other hOther
        have hBoth := hApart other hOther
        unfold Apart at hBoth
        omega
    · rw [if_neg hBytes]
      constructor
      · rintro ⟨hHere, hLater, hApart⟩
        refine ⟨⟨hHere, hLater⟩, ?_, hApart⟩
        intro other hOther
        exact .inl (by omega)
      · rintro ⟨⟨hHere, hLater⟩, -, hOthers⟩
        exact ⟨hHere, hLater, hOthers⟩

/- Sorting by any order that respects the starts is enough. -/
theorem sweep_sorted_iff {le : Span → Span → Bool}
    (hTotal : ∀ first second, (le first second || le second first) = true)
    (hTrans : ∀ first second third,
      le first second = true → le second third = true → le first third = true)
    (hStart : ∀ first second, le first second = true → first.start ≤ second.start)
    (spans : List Span) : sweep (spans.mergeSort le) none = .ok () ↔ spans.Pairwise Apart := by
  have hSorted : (spans.mergeSort le).Pairwise (fun first second =>
      first.start ≤ second.start) :=
    (List.pairwise_mergeSort hTrans hTotal spans).imp (fun hLe => hStart _ _ hLe)
  have hPerm : (spans.mergeSort le).Pairwise Apart ↔ spans.Pairwise Apart :=
    (List.mergeSort_perm spans le).pairwise_iff Apart.symm
  rw [sweep_iff hSorted, hPerm]
  simp [reach]

end Spans

end TensorTorrent
