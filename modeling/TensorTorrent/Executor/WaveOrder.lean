import TensorTorrent.Executor.Inline
import TensorTorrent.Library.Levels

/-
  This file determines the order in which the region
  executor runs Computes: level by level of the dependency
  graph, and by schedule index inside a level.

  Main declarations:
    * `executeRegionCbInline_levels`
-/

namespace TensorTorrent

open Command (Triple)
open List

variable {ω : Type} {schedule : ExecutableSchedule}

----
-- The Order
----

/- Longest chain of dependencies below an instruction. -/
def levelOf (idx : Index schedule) : Nat :=
  Dependency.level depIndices (indices schedule) idx

/- The wave decides, then the position in the schedule. -/
def Earlier (i j : Index schedule) : Prop :=
  levelOf i < levelOf j ∨ levelOf i = levelOf j ∧ i < j

instance (i j : Index schedule) : Decidable (Earlier i j) :=
  inferInstanceAs (Decidable (_ ∨ _))

theorem Earlier.asymm {i j : Index schedule} (hEarlier : Earlier i j) : ¬ Earlier j i := by
  rintro (hLevel | ⟨hLevel, hIndex⟩)
  · rcases hEarlier with h | h <;> omega
  · rcases hEarlier with h | ⟨_, h⟩
    · omega
    · exact lt_asymm h hIndex

/- The Computes of a level, in schedule order. -/
def wave (schedule : ExecutableSchedule) (bound : Nat) : List (Index schedule) :=
  (indices schedule).filter (fun idx => (instAt idx).opcode = .compute ∧ levelOf idx = bound)

/- The Computes below a level, in the order they run. -/
def computesBelow (schedule : ExecutableSchedule) : Nat → List (Index schedule)
| 0 => []
| bound + 1 => computesBelow schedule bound ++ wave schedule bound

variable {bound : Nat}

theorem mem_wave (idx : Index schedule) :
    idx ∈ wave schedule bound ↔ (instAt idx).opcode = .compute ∧ levelOf idx = bound := by
  simp [wave, mem_indices]

theorem mem_computesBelow (bound : Nat) (idx : Index schedule) :
    idx ∈ computesBelow schedule bound ↔ (instAt idx).opcode = .compute ∧ levelOf idx < bound := by
  induction bound with
  | zero => simp [computesBelow]
  | succ bound ih =>
    rw [computesBelow, mem_append, ih, mem_wave, Nat.lt_succ_iff_lt_or_eq, and_or_left]

theorem pairwise_wave (schedule : ExecutableSchedule) (bound : Nat) :
    (wave schedule bound).Pairwise (· < ·) :=
  List.Pairwise.filter _ (pairwise_lt_finRange _)

theorem pairwise_computesBelow (schedule : ExecutableSchedule) (bound : Nat) :
    (computesBelow schedule bound).Pairwise Earlier := by
  induction bound with
  | zero => exact List.Pairwise.nil
  | succ bound ih =>
    rw [computesBelow, pairwise_append]
    refine ⟨ih, ?_, ?_⟩
    · refine List.Pairwise.imp_of_mem ?_ (pairwise_wave schedule bound)
      intro i j hI hJ hLess
      have hLevelI := ((mem_wave i).mp hI).2
      have hLevelJ := ((mem_wave j).mp hJ).2
      exact .inr ⟨hLevelI.trans hLevelJ.symm, hLess⟩
    · intro i hI j hJ
      have hLevelI := ((mem_computesBelow bound i).mp hI).2
      have hLevelJ := ((mem_wave j).mp hJ).2
      exact .inl (by omega)

/- In a split of the order, the front is what is earlier. -/
theorem mem_front_iff {front back : List (Index schedule)} {j : Index schedule}
    (hSplit : computesBelow schedule bound = front ++ j :: back) (i : Index schedule) :
    i ∈ front ↔ (instAt i).opcode = .compute ∧ Earlier i j := by
  have hPairwise := pairwise_computesBelow schedule bound
  rw [hSplit, pairwise_append, pairwise_cons] at hPairwise
  have hMem := mem_computesBelow bound i
  rw [hSplit, mem_append, mem_cons] at hMem
  have hBound : levelOf j < bound := ((mem_computesBelow bound j).mp (by simp [hSplit])).2
  constructor
  · intro hFront
    exact ⟨(hMem.mp (Or.inl hFront)).1, hPairwise.2.2 i hFront j (by simp)⟩
  · rintro ⟨hCompute, hEarlier⟩
    have hLevel : levelOf i < bound := by rcases hEarlier with h | h <;> omega
    rcases hMem.mpr ⟨hCompute, hLevel⟩ with hFront | hSame | hBack
    · exact hFront
    · subst hSame
      exact absurd hEarlier hEarlier.asymm
    · exact absurd (hPairwise.2.1.1 i hBack) hEarlier.asymm

----
-- The Loop by Level
----

/- Between turns, exactly the lower levels have run. -/
def AtLevel (bound : Nat) (state : LoopState schedule) : Prop :=
  ∃ target, RunningState target [] state ∧
    Dependency.DoneBelow depIndices (indices schedule) bound target

theorem AtLevel.start (hAccepted : Accepted schedule) : AtLevel 0 (.start schedule) := by
  refine ⟨[], RunningState.start hAccepted, ?_⟩
  intro idx
  simp

variable {state : LoopState schedule}

section

variable (hAccepted : Accepted schedule) (hLevel : AtLevel bound state)

include hAccepted hLevel

/- The queue holds the next level, each index once. -/
theorem AtLevel.count_ready (idx : Index schedule) :
    state.ready.count idx = if levelOf idx = bound then 1 else 0 := by
  rcases hLevel with ⟨target, ⟨done, hRunning⟩, hBelow⟩
  have hDone : Dependency.DoneBelow depIndices (indices schedule) bound done := by
    intro node
    have hTaken := hRunning.taken
    rw [append_nil] at hTaken
    rw [hTaken.mem_iff]
    exact hBelow node
  have hPend := hRunning.progress.pend_eq (DepGraph.schedulable hAccepted) hDone idx
  rw [count_nil, Nat.add_zero] at hPend
  rw [hPend]
  exact if_congr (by simp [mem_indices, levelOf]) rfl rfl

theorem AtLevel.mem_ready (idx : Index schedule) : idx ∈ state.ready ↔ levelOf idx = bound := by
  rw [← count_pos_iff, hLevel.count_ready hAccepted idx]
  split <;> simp [*]

theorem AtLevel.nodup_ready : state.ready.Nodup := by
  rw [nodup_iff_count_le_one]
  intro idx
  rw [hLevel.count_ready hAccepted idx]
  split <;> omega

/- The Computes a turn takes are those of the level. -/
theorem AtLevel.computes_eq_wave : (state.ready.partition (fun idx =>
      (instAt idx).opcode = .compute)).1.insertionSort (· ≤ ·) =
    wave schedule bound := by
  rw [partition_eq_filter_filter]
  refine List.Perm.eq_of_pairwise' (pairwise_insertionSort (· ≤ ·) _)
    ((pairwise_wave schedule bound).imp (fun hLess => le_of_lt hLess)) ?_
  refine (perm_insertionSort _ _).trans ?_
  refine (perm_ext_iff_of_nodup ((hLevel.nodup_ready hAccepted).filter _)
    ((nodup_indices schedule).filter _)).mpr ?_
  intro idx
  rw [mem_filter, hLevel.mem_ready hAccepted]
  simp [mem_indices, and_comm]

end

/- A turn of the region loop finishes the level. -/
theorem AtLevel.regionWave (hAccepted : Accepted schedule) (host : Host ω)
    (options : ExecuteOptions ω) (regionCb : RegionCallback ω)
    (instructionCb : Option (InstructionCallback ω)) (hLevel : AtLevel bound state) :
    Yields (RegionFails host options regionCb instructionCb schedule.instructions)
      (TensorTorrent.regionWave host options regionCb instructionCb state)
      (Command.TurnPost (state.ready = []) (AtLevel (bound + 1))) := by
  have hReady := hLevel.mem_ready hAccepted
  rcases hLevel with ⟨target, hRunning, hBelow⟩
  refine .conseq (regionWave_running host options regionCb instructionCb state hRunning)
    (fun _ h => h) ?_ (fun _ _ h => h)
  intro result _ hResult
  cases result with
  | none => exact hResult
  | some next =>
    refine ⟨target ++ state.ready, hResult, ?_⟩
    refine hBelow.next ?_ (List.Perm.refl _)
    intro idx
    rw [hReady idx]
    simp [mem_indices, levelOf]

/- When the queue is empty, every level has run. -/
theorem AtLevel.level_lt (hAccepted : Accepted schedule) (hLevel : AtLevel bound state)
    (hReady : state.ready = []) (idx : Index schedule) : levelOf idx < bound := by
  rcases hLevel with ⟨target, ⟨done, hRunning⟩, hBelow⟩
  have hProgress : Dependency.Progress depIndices (indices schedule) done
      (fun _ => 0) state.remaining := by
    refine hRunning.progress.congr_pend ?_
    simp [hReady]
  have hDone := hProgress.complete (DepGraph.schedulable hAccepted) idx (mem_indices idx)
  have hTaken := hRunning.taken
  rw [append_nil] at hTaken
  exact ((hBelow idx).mp (hTaken.mem_iff.mp hDone)).2

----
-- Whole Runs by Level
----

/- The property of the state after the last level. -/
def AfterLastLevel (schedule : ExecutableSchedule) (inv : Nat → World ω → Prop)
    (world : World ω) : Prop :=
  ∃ bound, (∀ idx : Index schedule, levelOf idx < bound) ∧ inv bound world

/-
  What holds level by level in the turns of the region
  executor holds after the last level at its end.
-/
theorem executeRegionCbInline_levels (hAccepted : Accepted schedule) (host : Host ω)
    (options : ExecuteOptions ω) (regionCb : RegionCallback ω)
    (instructionCb : Option (InstructionCallback ω)) (inv : Nat → World ω → Prop)
    (failed : World ω → Prop)
    (hTurn : ∀ bound state, AtLevel bound state → Triple (inv bound)
      (TensorTorrent.regionWave host options regionCb instructionCb state) (fun next world =>
        Command.TurnPost True (fun _ : LoopState schedule => inv (bound + 1) world) next)
      (fun _ world => failed world)) :
    Triple (inv 0) (executeRegionCbInline host options regionCb instructionCb schedule)
      (fun _ world => AfterLastLevel schedule inv world)
      (fun _ world => failed world ∨ AfterLastLevel schedule inv world) := by
  have hBody : ∀ state : LoopState schedule, Triple (fun world =>
        ∃ bound, AtLevel bound state ∧ inv bound world)
      (TensorTorrent.regionWave host options regionCb instructionCb state)
      (fun next world =>
        Command.TurnPost ((∃ bound, AtLevel bound state ∧ inv bound world) ∧ state.ready = [])
          (fun next =>
            (∃ bound, AtLevel bound next ∧ inv bound world) ∧ openCount next < openCount state)
          next)
      (fun _ world => failed world ∨ AfterLastLevel schedule inv world) := by
    rintro state world ⟨bound, hLevel, hInv⟩
    by_cases hReady : state.ready = []
    · have hEnd : TensorTorrent.regionWave host options regionCb
          instructionCb state = pure none := by
        simp [TensorTorrent.regionWave, hReady]
      rw [hEnd]
      exact ⟨⟨bound, hLevel, hInv⟩, hReady⟩
    have hState : BetweenTurns state := by
      rcases hLevel with ⟨target, hRunning, _⟩
      exact ⟨target, hRunning⟩
    -- The order, the progress and the invariant of a turn.
    have hAll := ((hLevel.regionWave hAccepted host options
      regionCb instructionCb).both ((regionWave_result host options regionCb
        instructionCb state hState).both (hTurn bound state hLevel))) world
          ⟨trivial, trivial, hInv⟩
    cases hExec : Command.exec (TensorTorrent.regionWave host
      options regionCb instructionCb state) world with
    | mk result world' =>
      rw [hExec] at hAll
      cases result with
      | error err => exact .inl hAll.2.2
      | ok next =>
        cases next with
        | none => exact absurd hAll.1 hReady
        | some next => exact ⟨⟨bound + 1, hAll.1, hAll.2.2⟩, hAll.2.1.2⟩
  refine .bind (fun _ world => AfterLastLevel schedule inv world) ?_ ?_
  · refine .conseq (Triple.iterate _ _ openCount hBody (schedule.instructions.length + 1)
        (.start schedule) (Nat.lt_succ_of_le (Nat.sub_le _ _)))
      (fun _ hInv => ⟨0, AtLevel.start hAccepted, hInv⟩)
      ?_ (fun _ _ h => h)
    rintro last world ⟨state, _, ⟨bound, hLevel, hInv⟩, hReady⟩
    exact ⟨bound, hLevel.level_lt hAccepted hReady, hInv⟩
  · intro last
    refine .bind (fun _ world => AfterLastLevel schedule inv world) (Triple.read (fun _ h => h)) ?_
    intro peak
    unfold checkFinished
    split
    · exact .pure (fun _ h => h)
    · split
      · exact .throw (fun _ h => Or.inr h)
      · exact .pure (fun _ h => h)

end TensorTorrent
