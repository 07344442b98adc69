import Mathlib.Tactic.Common

/-
  Publication of an artifact bundle
  (`atomic_replace_directory`, `artifact_io.py`): what the
  three directories hold after each file-system operation.

  Main declarations:
    * `publication_atomic_iff`
-/

namespace TensorTorrent.Publication

/- The bundle at the destination and its two neighbours. -/
structure Bundles (B : Type) where
  destination : Option B
  stage : Option B
  backup : Option B

inductive Operation where
| write
| backUp
| publish
| sync
| restore
| resync
| removeBackup
| removeStage
deriving DecidableEq

/- An interrupted operation takes effect and then raises. -/
inductive Outcome where
| done
| failed
| interrupted
deriving DecidableEq

/- The directories now and after every operation so far. -/
structure Run (B : Type) where
  disk : Bundles B
  seen : List (Bundles B)
  raised : Bool

variable {B : Type}

namespace Run

section

variable (outcomes : Operation → Outcome) (run : Run B) (op : Operation)
variable (change : Bundles B → Bundles B)

def perform : Run B :=
  let disk := if outcomes op = .failed then run.disk else change run.disk
  { disk := disk, seen := disk :: run.seen, raised := decide (outcomes op ≠ .done) }

/- `shutil.rmtree(..., ignore_errors=True)`. -/
def remove : Run B :=
  let removed := run.perform outcomes op change
  { removed with raised := run.raised || decide (outcomes op = .interrupted) }

/- The inner `try`. -/
def publish : Run B :=
  let swapped := run.perform outcomes .publish (fun disk =>
    { disk with destination := disk.stage, stage := none })
  if swapped.raised then swapped else swapped.perform outcomes .sync id

/- Its handler, which raises again. -/
def restore : Run B :=
  let restored :=
    if run.disk.backup.isSome && run.disk.destination.isNone then
      let back := run.perform outcomes .restore (fun disk =>
        { disk with destination := disk.backup, backup := none })
      if back.raised then back else back.perform outcomes .resync id
    else run
  { restored with raised := true }

def removeBackup : Run B :=
  if run.disk.backup.isSome then
    run.remove outcomes .removeBackup (fun disk => { disk with backup := none })
  else run

/- The `finally`: the stage, and a backup that is no longer needed. -/
def cleanUp (published : Bool) : Run B :=
  let cleared :=
    if run.disk.stage.isSome then
      run.remove outcomes .removeStage (fun disk => { disk with stage := none })
    else run
  if published then cleared.removeBackup outcomes else cleared

end

end Run

def atomicReplaceDirectory (outcomes : Operation → Outcome) (new : B) (start : Bundles B) : Run B :=
  let run : Run B := { disk := start, seen := [start], raised := false }
  let wrote := run.perform outcomes .write (fun disk => { disk with stage := some new })
  if wrote.raised then wrote.cleanUp outcomes false
  else
    let moved :=
      if wrote.disk.destination.isSome then
        wrote.perform outcomes .backUp (fun disk =>
          { disk with destination := none, backup := disk.destination })
      else wrote
    if moved.raised then moved.cleanUp outcomes false
    else
      let tried := moved.publish outcomes
      if tried.raised then (tried.restore outcomes).cleanUp outcomes false
      else (tried.removeBackup outcomes).cleanUp outcomes true

----
-- Every State of a Run
----

/- A complete bundle is there, or the old one in the backup. -/
def Safe (old new : B) (disk : Bundles B) : Prop :=
  disk.destination = some old ∨ disk.destination = some new ∨
    disk.destination = none ∧ disk.backup = some old

namespace Run

/- The directories have had the property throughout. -/
def Every (P : Bundles B → Prop) (run : Run B) : Prop :=
  P run.disk ∧ ∀ disk ∈ run.seen, P disk

/- A later run, with the property throughout. -/
structure Grows (P : Bundles B → Prop) (run next : Run B) : Prop where
  every : next.Every P
  seen : run.seen ⊆ next.seen

variable (outcomes : Operation → Outcome) {run next : Run B} {old new : B}

section

variable {P : Bundles B → Prop} {op : Operation} {change : Bundles B → Bundles B}

theorem Grows.trans {last : Run B} (hFirst : Grows P run next) (hSecond : Grows P next last) :
    Grows P run last :=
  ⟨hSecond.every, List.Subset.trans hFirst.seen hSecond.seen⟩

variable (hEvery : run.Every P)

include hEvery

theorem Every.grows : Grows P run run :=
  ⟨hEvery, List.Subset.refl _⟩

/- An operation has taken effect or it has not. -/
theorem Every.perform (hChange : P (change run.disk)) :
    Grows P run (run.perform outcomes op change) := by
  have hDisk : P (run.perform outcomes op change).disk := by
    dsimp only [Run.perform]
    split
    · exact hEvery.1
    · exact hChange
  exact ⟨⟨hDisk, List.forall_mem_cons.mpr ⟨hDisk, hEvery.2⟩⟩, List.subset_cons_self _ _⟩

theorem Every.remove (hChange : P (change run.disk)) :
    Grows P run (run.remove outcomes op change) :=
  ⟨(hEvery.perform outcomes hChange).every, (hEvery.perform outcomes hChange).seen⟩

/- A cleanup after an exception leaves the destination alone. -/
theorem Every.cleanUp (hStage : P { run.disk with stage := none }) :
    Grows P run (run.cleanUp outcomes false) := by
  simp only [Run.cleanUp, Bool.false_eq_true, if_false]
  split
  · exact hEvery.remove outcomes hStage
  · exact hEvery.grows

end

theorem raised_cleanUp (hRaised : run.raised = true) :
    (run.cleanUp outcomes false).raised = true := by
  simp only [Run.cleanUp, Bool.false_eq_true, if_false]
  split
  · simp [Run.remove, hRaised]
  · exact hRaised

/- The second rename fills the place that the first one left. -/
theorem publish_safe (hSafe : run.Every (Safe old new)) (hStage : run.disk.stage = some new) :
    Grows (Safe old new) run (run.publish outcomes) ∧
      ((run.publish outcomes).raised = false →
        (run.publish outcomes).disk.destination = some new) := by
  have hSwapped : Grows (Safe old new) run (run.perform outcomes .publish (fun disk =>
      { disk with destination := disk.stage, stage := none })) :=
    hSafe.perform outcomes (Or.inr (Or.inl hStage))
  dsimp only [Run.publish]
  split
  · next hRaised => exact ⟨hSwapped, fun hDone => absurd hRaised (by simp [hDone])⟩
  · next hDone =>
    refine ⟨hSwapped.trans (hSwapped.every.perform outcomes hSwapped.every.1), fun _ => ?_⟩
    have hPublished : outcomes .publish = .done := by simpa [Run.perform] using hDone
    simp [Run.perform, hPublished, hStage]

/- The backup goes back to a destination that is empty. -/
theorem restore_safe (hSafe : run.Every (Safe old new)) :
    Grows (Safe old new) run (run.restore outcomes) := by
  have hGrows : ∀ restored : Run B, Grows (Safe old new) run restored →
      Grows (Safe old new) run { restored with raised := true } :=
    fun _ hRestored => ⟨hRestored.every, hRestored.seen⟩
  apply hGrows
  split
  · next hLost =>
    have hBackup : run.disk.backup = some old := by
      rw [Bool.and_eq_true, Option.isNone_iff_eq_none] at hLost
      rcases hSafe.1 with hOld | hNew | hGap
      · cases hLost.2.symm.trans hOld
      · cases hLost.2.symm.trans hNew
      · exact hGap.2
    have hBack : Grows (Safe old new) run (run.perform outcomes .restore (fun disk =>
        { disk with destination := disk.backup, backup := none })) :=
      hSafe.perform outcomes (Or.inl hBackup)
    dsimp only
    split
    · exact hBack
    · exact hBack.trans (hBack.every.perform outcomes hBack.every.1)
  · exact hSafe.grows

/- The run goes on with the new bundle in place. -/
def Holds (old new : B) (run next : Run B) : Prop :=
  Grows (Safe old new) run next ∧ next.disk.destination = some new

theorem holds_remove {op : Operation} {change : Bundles B → Bundles B}
    (hSafe : run.Every (Safe old new)) (hNew : run.disk.destination = some new)
    (hKeeps : (change run.disk).destination = run.disk.destination) :
    Holds old new run (run.remove outcomes op change) := by
  refine ⟨hSafe.remove outcomes (Or.inr (Or.inl (hKeeps.trans hNew))), ?_⟩
  dsimp only [Run.remove, Run.perform]
  split
  · exact hNew
  · exact hKeeps.trans hNew

theorem holds_removeBackup (hSafe : run.Every (Safe old new))
    (hNew : run.disk.destination = some new) : Holds old new run (run.removeBackup outcomes) := by
  unfold Run.removeBackup
  split
  · exact holds_remove outcomes hSafe hNew rfl
  · exact ⟨hSafe.grows, hNew⟩

/- Without an exception the new bundle stays. -/
theorem finish_safe (hSafe : run.Every (Safe old new)) (hNew : run.disk.destination = some new) :
    Holds old new run ((run.removeBackup outcomes).cleanUp outcomes true) := by
  have hTidy := holds_removeBackup outcomes hSafe hNew
  dsimp only [Run.cleanUp]
  rw [if_pos rfl]
  split
  · have hCleared : Holds old new (run.removeBackup outcomes) ((run.removeBackup outcomes).remove
        outcomes .removeStage (fun disk => { disk with stage := none })) :=
      holds_remove outcomes hTidy.1.every hTidy.2 rfl
    have hLast := holds_removeBackup outcomes hCleared.1.every hCleared.2
    exact ⟨(hTidy.1.trans hCleared.1).trans hLast.1, hLast.2⟩
  · have hLast := holds_removeBackup outcomes hTidy.1.every hTidy.2
    exact ⟨hTidy.1.trans hLast.1, hLast.2⟩

end Run

/-
  The old bundle or the new one can be found in every state
  of every run. The destination itself holds one of them
  throughout, the old one after an exception, exactly when
  the old bundle is never moved away.
-/
theorem publication_atomic_iff (outcomes : Operation → Outcome) (old new staged : B) :
    let run := atomicReplaceDirectory outcomes new
      { destination := some old, stage := some staged, backup := none }
    (∀ disk ∈ run.seen, Safe old new disk) ∧
      (run.raised = false → run.disk.destination = some new) ∧
      ((∀ disk ∈ run.seen, disk.destination = some old ∨ disk.destination = some new) ∧
          (run.raised → run.disk.destination = some old) ↔
        outcomes .write ≠ .done ∨ outcomes .backUp = .failed) := by
  intro run
  have hRun : run = atomicReplaceDirectory outcomes new
    { destination := some old, stage := some staged, backup := none } := rfl
  by_cases hEarly : outcomes .write ≠ .done ∨ outcomes .backUp = .failed
  · -- The call raises before anything happens to the destination.
    have hStopped : ∃ before : Run B, before.Every (fun disk => disk.destination = some old) ∧
        before.raised = true ∧ run = before.cleanUp outcomes false := by
      by_cases hWrite : outcomes .write = .done
      · have hBackUp := hEarly.resolve_left (by simp [hWrite])
        refine ⟨_, ?_, ?_, by
          simp [hRun, atomicReplaceDirectory, Run.perform, hWrite, hBackUp]
          rfl⟩
        · simp [Run.Every]
        · rfl
      · refine ⟨_, ?_, ?_, by
          simp [hRun, atomicReplaceDirectory, Run.perform, hWrite]
          rfl⟩
        · cases hOutcome : outcomes .write <;> simp [Run.Every]
        · rfl
    rcases hStopped with ⟨before, hBefore, hRaised, hSame⟩
    have hOld := (hBefore.cleanUp outcomes hBefore.1).every
    have hAgain := before.raised_cleanUp outcomes hRaised
    rw [← hSame] at hOld hAgain
    refine ⟨fun disk hDisk => Or.inl (hOld.2 disk hDisk), ?_, iff_of_true ⟨?_, ?_⟩ hEarly⟩
    · simp [hAgain]
    · exact fun disk hDisk => Or.inl (hOld.2 disk hDisk)
    · exact fun _ => hOld.1
  · rw [not_or, not_not] at hEarly
    let moved : Run B :=
      { disk := { destination := none, stage := some new, backup := some old }
        seen := [{ destination := none, stage := some new, backup := some old },
          { destination := some old, stage := some new, backup := none },
          { destination := some old, stage := some staged, backup := none }]
        raised := decide (outcomes .backUp ≠ .done) }
    have hMoved : moved.Every (Safe old new) := by simp [Run.Every, moved, Safe]
    have hGap : moved.disk ∈ moved.seen := List.mem_cons_self
    have hFinal : Run.Grows (Safe old new) moved run ∧
        (run.raised = false → run.disk.destination = some new) := by
      have hSteps : run = if moved.raised then moved.cleanUp outcomes false
          else if (moved.publish outcomes).raised then
            ((moved.publish outcomes).restore outcomes).cleanUp outcomes false
          else ((moved.publish outcomes).removeBackup outcomes).cleanUp outcomes true := by
        simp [hRun, atomicReplaceDirectory, Run.perform, hEarly, moved]
      rcases Run.publish_safe outcomes hMoved rfl with ⟨hTried, hNew⟩
      rw [hSteps]
      split
      · next hRaised =>
        refine ⟨hMoved.cleanUp outcomes hMoved.1, ?_⟩
        simp [Run.raised_cleanUp outcomes hRaised]
      · split
        · have hBack := Run.restore_safe outcomes hTried.every
          refine ⟨(hTried.trans hBack).trans (hBack.every.cleanUp outcomes hBack.every.1), ?_⟩
          have hAgain : ((moved.publish outcomes).restore outcomes).raised = true := rfl
          simp [Run.raised_cleanUp outcomes hAgain]
        · next hDone =>
          rcases Run.finish_safe outcomes hTried.every (hNew (by simpa using hDone)) with
            ⟨hLast, hHeld⟩
          exact ⟨hTried.trans hLast, fun _ => hHeld⟩
    -- a reader who looks between the two renames finds nothing
    refine ⟨hFinal.1.every.2, hFinal.2, iff_of_false (fun hAtomic => ?_) ?_⟩
    · have hFound := hAtomic.1 _ (hFinal.1.seen hGap)
      simp [moved] at hFound
    · simp [hEarly]

/- Between the two renames a reader finds no bundle. -/
theorem renames_leave_gap : ∃ disk ∈ (atomicReplaceDirectory (fun _ => .done) "new"
    { destination := some "old", stage := some "", backup := none }).seen,
    disk.destination = none := by
  decide

end TensorTorrent.Publication
