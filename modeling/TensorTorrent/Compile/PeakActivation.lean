import TensorTorrent.Compile.Program
import Mathlib.Algebra.BigOperators.Group.Finset.Basic

/-
  This file models the estimate of live activation bytes
  (`RegionProgram.estimate_peak_activation_bytes`). The
  counter goes up by what a region produces and down by
  every value at its last use, produced or not.

  Main declarations:
    * `PeakActivation.activation_estimate_bounds_iff`
-/

namespace TensorTorrent

open List

namespace PeakActivation

variable (program : RegionProgram) (name : TensorId)

def isState : Bool :=
  (program.stateBindings.lookup name).isSome

def size : Int :=
  if isState program name then 0 else program.valueNbytes name

/- How often regions and the outputs read a value; a count
   of zero is a key that is not in the dictionary. -/
def consumers : Nat :=
  (if isState program name then 0 else (program.regions.flatMap Region.inputs).count name) +
    program.graphOutputs.count name

structure Counter where
  live : Int
  peak : Int
  remaining : TensorId → Nat

def useInput (counter : Counter) (name : TensorId) : Counter :=
  if isState program name ∨ counter.remaining name = 0 then counter
  else
    { counter with
      remaining := Function.update counter.remaining name (counter.remaining name - 1)
      live :=
        if counter.remaining name = 1 then counter.live - size program name
        else counter.live }

def runRegion (counter : Counter) (region : Region) : Counter :=
  let live := counter.live + (region.outputs.map (size program)).sum
  region.inputs.foldl (useInput program)
    { counter with live := live, peak := max counter.peak live }

def estimatePeakActivationBytes : Int :=
  (program.regions.foldl (runRegion program)
    { live := 0, peak := 0, remaining := consumers program }).peak

----
-- Live Activations
----

/- The outputs of the regions up to a point of the run,
   the region at the point among them. -/
def produced (point : Nat) : Finset TensorId :=
  ((program.regions.take (point + 1)).flatMap Region.outputs).toFinset

/- What the region at a point, the later ones and the
   graph outputs read. -/
def needed (point : Nat) : List TensorId :=
  (program.regions.drop point).flatMap Region.inputs ++ program.graphOutputs

/- Bytes of the outputs that are produced and still needed
   while the region at a point runs. -/
def liveBytes (point : Nat) : Int :=
  ∑ name ∈ produced program point with name ∈ needed program point, (program.valueNbytes name : Int)

/- Bytes of the outputs so far that nothing ever reads. -/
def unreadBytes (point : Nat) : Int :=
  ∑ name ∈ produced program point with name ∉ needed program 0, size program name

/- What earlier regions read and nothing needs any more. -/
def spent (used needed : List TensorId) : Finset TensorId :=
  used.toFinset.filter (fun name => name ∉ needed)

/- Bytes of the values from outside, such as user inputs,
   whose last use is in a region before the point. -/
def spentInputBytes (point : Nat) : Int :=
  ∑ name ∈ spent ((program.regions.take point).flatMap Region.inputs) (needed program point)
    with name ∉ produced program point, size program name

/- Every value has one producer, and bound state has none. -/
structure SingleAssignment : Prop where
  once : (program.regions.flatMap Region.outputs).Nodup
  computed : ∀ name ∈ program.regions.flatMap Region.outputs, ¬ isState program name

----
-- The Counter
----

/- The counter holds what was produced without what is
   spent, produced or not. -/
structure Counts (made used later : List TensorId) (counter : Counter) : Prop where
  remaining : ∀ name, ¬ isState program name →
    counter.remaining name = (later ++ program.graphOutputs).count name
  live : counter.live + ∑ name ∈ spent used (later ++ program.graphOutputs), size program name =
      (made.map (size program)).sum

variable {program} {made used later : List TensorId} {counter : Counter} {region : Region}

/- A value joins the spent ones at its last use. -/
theorem sum_spent_append (name : TensorId) (used later : List TensorId) :
    ∑ other ∈ spent (used ++ [name]) later, size program other =
      (∑ other ∈ spent used (name :: later), size program other) +
        if name ∈ later then 0 else size program name := by
  have hMember : ∀ other, other ∈ spent (used ++ [name]) later ↔
      (other ∈ used ∨ other = name) ∧ other ∉ later := by
    simp [spent, or_comm]
  by_cases hLater : name ∈ later
  · rw [if_pos hLater, add_zero]
    refine Finset.sum_congr (Finset.ext (fun other => ?_)) (fun _ _ => rfl)
    rw [hMember]
    simp only [spent, Finset.mem_filter, mem_toFinset, mem_cons]
    grind
  · have hFresh : name ∉ spent used (name :: later) := by simp [spent]
    rw [if_neg hLater, add_comm, ← Finset.sum_insert hFresh]
    refine Finset.sum_congr (Finset.ext (fun other => ?_)) (fun _ _ => rfl)
    rw [hMember]
    simp only [spent, Finset.mem_insert, Finset.mem_filter, mem_toFinset, mem_cons]
    grind

theorem Counts.useInput {name : TensorId} (hCounts : Counts program made used (name :: later) counter) :
    Counts program made (used ++ [name]) later (useInput program counter name) := by
  have hLive := hCounts.live
  have hSpent := @sum_spent_append program name used (later ++ program.graphOutputs)
  rw [cons_append] at hLive
  unfold PeakActivation.useInput
  by_cases hState : isState program name
  · rw [if_pos (Or.inl hState)]
    constructor
    · intro other hOther
      have hNe : name ≠ other := fun hSame => hOther (hSame ▸ hState)
      rw [hCounts.remaining other hOther, cons_append, count_cons_of_ne hNe]
    · have hZero : size program name = 0 := if_pos hState
      rw [hSpent, hZero, ite_self, add_zero]
      exact hLive
  · have hName := hCounts.remaining name hState
    rw [cons_append, count_cons_self] at hName
    rw [if_neg (by simp [hState, hName])]
    constructor
    · intro other hOther
      have hCount := hCounts.remaining other hOther
      by_cases hSame : other = name
      · subst hSame
        simp [hName]
      · rw [cons_append, count_cons_of_ne (Ne.symm hSame)] at hCount
        simpa [hSame] using hCount
    · -- the count was one exactly when nothing reads it later
      have hLast : counter.remaining name = 1 ↔ name ∉ later ++ program.graphOutputs := by
        rw [hName, Nat.add_eq_right, count_eq_zero]
      rw [hSpent]
      by_cases hLater : name ∈ later ++ program.graphOutputs
      · rw [if_neg (fun hOne => hLast.mp hOne hLater), if_pos hLater, add_zero]
        exact hLive
      · rw [if_pos (hLast.mpr hLater), if_neg hLater]
        dsimp only
        omega

theorem useInput_peak (names : List TensorId) (counter : Counter) :
    (names.foldl (useInput program) counter).peak = counter.peak := by
  induction names generalizing counter with
  | nil => rfl
  | cons name rest ih =>
    rw [foldl_cons, ih]
    unfold useInput
    split <;> rfl

theorem Counts.useInputs (names : List TensorId)
    (hCounts : Counts program made used (names ++ later) counter) :
    Counts program made (used ++ names) later (names.foldl (PeakActivation.useInput program) counter) := by
  induction names generalizing used counter with
  | nil => simpa using hCounts
  | cons name rest ih =>
    rw [append_cons]
    exact ih hCounts.useInput

theorem Counts.runRegion (hCounts : Counts program made used (region.inputs ++ later) counter) :
    Counts program (made ++ region.outputs) (used ++ region.inputs) later
      (runRegion program counter region) := by
  refine Counts.useInputs region.inputs ⟨hCounts.remaining, ?_⟩
  rw [map_append, sum_append, ← hCounts.live]
  dsimp only
  omega

/- The counter while the region at a point runs. -/
def counted (program : RegionProgram) (point : Nat) : Int :=
  (((program.regions.take (point + 1)).flatMap Region.outputs).map (size program)).sum -
    ∑ name ∈ spent ((program.regions.take point).flatMap Region.inputs) (needed program point),
      size program name

def counterAt (program : RegionProgram) (point : Nat) : Counter :=
  (program.regions.take point).foldl (runRegion program)
    { live := 0, peak := 0, remaining := consumers program }

theorem counterAt_succ {point : Nat} (hPoint : point < program.regions.length) :
    counterAt program (point + 1) =
      runRegion program (counterAt program point) program.regions[point] := by
  rw [counterAt, take_succ_eq_append_getElem hPoint, foldl_append]
  rfl

theorem counts_counterAt {point : Nat} (hPoint : point ≤ program.regions.length) :
    Counts program ((program.regions.take point).flatMap Region.outputs)
      ((program.regions.take point).flatMap Region.inputs)
      ((program.regions.drop point).flatMap Region.inputs) (counterAt program point) := by
  induction point with
  | zero =>
    refine ⟨fun name hName => ?_, by simp [spent, counterAt]⟩
    simp [counterAt, consumers, hName, count_append]
  | succ point ih =>
    have hCounts := ih (by omega)
    rw [drop_eq_getElem_cons hPoint, flatMap_cons] at hCounts
    have hNext := hCounts.runRegion
    rw [← counterAt_succ hPoint] at hNext
    rw [take_succ_eq_append_getElem hPoint, flatMap_append, flatMap_append, flatMap_singleton,
      flatMap_singleton]
    exact hNext

theorem counterAt_peak {point : Nat} (hPoint : point < program.regions.length) :
    (counterAt program (point + 1)).peak = max (counterAt program point).peak (counted program point) := by
  have hLive := (counts_counterAt hPoint.le).live
  rw [counterAt_succ hPoint, runRegion, useInput_peak, counted, needed,
    take_succ_eq_append_getElem hPoint, flatMap_append, map_append, sum_append, ← hLive]
  simp [add_sub_right_comm]

theorem le_peak_iff {bytes : Int} {point : Nat} (hPoint : point ≤ program.regions.length) :
    bytes ≤ (counterAt program point).peak ↔
      bytes ≤ 0 ∨ ∃ reached < point, bytes ≤ counted program reached := by
  induction point with
  | zero => simp [counterAt]
  | succ point ih =>
    rw [counterAt_peak hPoint, le_max_iff, ih (by omega), or_assoc]
    refine or_congr_right ⟨?_, ?_⟩
    · rintro (⟨reached, hReached, hBytes⟩ | hBytes)
      · exact ⟨reached, by omega, hBytes⟩
      · exact ⟨point, by omega, hBytes⟩
    · rintro ⟨reached, hReached, hBytes⟩
      rcases Nat.lt_succ_iff_lt_or_eq.mp hReached with hBefore | rfl
      · exact Or.inl ⟨reached, hBefore, hBytes⟩
      · exact Or.inr hBytes

/- The estimate is the largest value of the counter. -/
theorem le_estimate_iff {bytes : Int} (hRegions : program.regions ≠ []) :
    bytes ≤ estimatePeakActivationBytes program ↔
      ∃ reached < program.regions.length, bytes ≤ counted program reached := by
  have hPeak : estimatePeakActivationBytes program = (counterAt program program.regions.length).peak := by
    rw [counterAt, take_length, estimatePeakActivationBytes]
  rw [hPeak, le_peak_iff (le_refl _), or_iff_right_of_imp]
  intro hBytes
  refine ⟨0, length_pos_iff.mpr hRegions, hBytes.trans ?_⟩
  -- nothing is spent at the first region
  have hSize : ∀ name, 0 ≤ size program name := by
    intro name
    unfold size
    split <;> simp
  simp only [counted, take_zero, flatMap_nil, spent, toFinset_nil, Finset.filter_empty,
    Finset.sum_empty, sub_zero]
  refine sum_nonneg (fun bytes hMember => ?_)
  obtain ⟨name, -, rfl⟩ := mem_map.mp hMember
  exact hSize name

/-
  The counter is off by the outputs that are never read,
  which stay in it, and by the values from outside that are
  spent, which were never in it.
-/
theorem counted_eq (hProgram : SingleAssignment program) (point : Nat) :
    counted program point =
      liveBytes program point + unreadBytes program point - spentInputBytes program point := by
  have hSublist : ((program.regions.take (point + 1)).flatMap Region.outputs).Sublist
    (program.regions.flatMap Region.outputs) := (take_sublist _ _).flatMap _
  have hMade : (((program.regions.take (point + 1)).flatMap Region.outputs).map (size program)).sum =
      ∑ name ∈ produced program point, size program name :=
    (sum_toFinset _ (hProgram.once.sublist hSublist)).symm
  have hLive : liveBytes program point =
      ∑ name ∈ produced program point with name ∈ needed program point, size program name := by
    refine Finset.sum_congr rfl (fun name hName => ?_)
    have hOutput := hSublist.subset (mem_toFinset.mp (Finset.mem_filter.mp hName).1)
    simp [size, hProgram.computed name hOutput]
  have hAll : ∀ name, name ∈ needed program 0 ↔
      name ∈ (program.regions.take point).flatMap Region.inputs ∨ name ∈ needed program point := by
    intro name
    have hInputs : program.regions.flatMap Region.inputs =
        (program.regions.take point).flatMap Region.inputs ++
          (program.regions.drop point).flatMap Region.inputs := by
      rw [← flatMap_append, take_append_drop]
    rw [needed, needed, drop_zero, hInputs, append_assoc, mem_append]
  -- an output that is no longer needed was never read or is spent
  have hGone : ∑ name ∈ produced program point with name ∉ needed program point, size program name =
      (∑ name ∈ spent ((program.regions.take point).flatMap Region.inputs) (needed program point)
        with name ∈ produced program point, size program name) + unreadBytes program point := by
    rw [← Finset.sum_filter_add_sum_filter_not _ (fun name => name ∈ needed program 0), unreadBytes]
    congr 1
    all_goals
      refine Finset.sum_congr (Finset.ext (fun name => ?_)) (fun _ _ => rfl)
      simp only [spent, Finset.mem_filter, mem_toFinset, hAll]
      tauto
  have hNeeded := Finset.sum_filter_add_sum_filter_not (produced program point)
    (fun name => name ∈ needed program point) (size program)
  have hSpent := Finset.sum_filter_add_sum_filter_not
    (spent ((program.regions.take point).flatMap Region.inputs) (needed program point))
    (fun name => name ∈ produced program point) (size program)
  rw [counted, hMade, hLive, ← hNeeded, ← hSpent, hGone, spentInputBytes]
  omega

/-
  The estimate bounds the live outputs exactly when every
  live total is reached at a point where the unread outputs
  make up for the inputs spent before.
-/
theorem activation_estimate_bounds_iff
    (program : RegionProgram)
    (hProgram : SingleAssignment program) :
    (∀ point < program.regions.length,
      liveBytes program point ≤ estimatePeakActivationBytes program) ↔
    ∀ point < program.regions.length, ∃ reached < program.regions.length,
      liveBytes program point + spentInputBytes program reached ≤
        liveBytes program reached + unreadBytes program reached := by
  refine forall₂_congr (fun point hPoint => ?_)
  have hRegions : program.regions ≠ [] := ne_nil_of_length_pos (by omega)
  rw [le_estimate_iff hRegions]
  refine exists_congr (fun reached => and_congr_right (fun _ => ?_))
  rw [counted_eq hProgram]
  omega

/- An input of 100 bytes that is spent after the peak. -/
def spentLate : RegionProgram :=
  { regions := [⟨"r1", ["x"], ["a"], []⟩, ⟨"r2", ["a", "x"], ["b"], []⟩, ⟨"r3", ["b"], ["c"], []⟩]
    userInputs := ["x"]
    values := [⟨"x", 100, .input⟩, ⟨"a", 10, .activation⟩, ⟨"b", 50, .activation⟩,
      ⟨"c", 5, .activation⟩]
    nodup_values := by decide
    outputRefs := [.value "c"] }

theorem late_input_keeps_bound :
    (∀ point < 3, liveBytes spentLate point ≤ estimatePeakActivationBytes spentLate) ∧
      liveBytes spentLate 1 = 60 :=
  ⟨(activation_estimate_bounds_iff spentLate ⟨by decide, by decide⟩).mpr (by decide), by decide⟩

/- An input of 100 bytes is taken off the counter. -/
def shrinking : RegionProgram :=
  { regions := [⟨"r1", ["x"], ["a"], []⟩, ⟨"r2", ["a"], ["b"], []⟩], userInputs := ["x"]
    values := [⟨"x", 100, .input⟩, ⟨"a", 10, .activation⟩, ⟨"b", 50, .activation⟩]
    nodup_values := by decide
    outputRefs := [.value "b"] }

theorem input_hides_activations : estimatePeakActivationBytes shrinking = 10 ∧
    liveBytes shrinking 1 = 60 := by
  decide

end PeakActivation

end TensorTorrent
