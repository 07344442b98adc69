import TensorTorrent.Executor.Effects
import TensorTorrent.Schedule.SpillPlan

/-
  This file compares the execution of a schedule in list
  order with that of its spill plan. The planner looks only
  at Computes and does not compare where a shared reload has
  put a tensor, so a plan may read a spilled tensor where it
  has no copy.

  Main declarations:
    * `SpillPlan.spilling_keeps_executable_iff`
    * `SpillPlan.spilling_only_inserts`
-/

namespace TensorTorrent

open Transition List

namespace SpillPlan

open Effects

----
-- When Reads Are Safe
----

/- The planner has spilled the tensor at some point. -/
def Planner.everSpilled (p : Planner) (tensor : TensorId) : Bool :=
  (p.spillNbytes tensor).isSome

/-
  A tensor that was spilled before is read by a Compute while
  it is spilled, which reloads it, or where the plan so far
  has left a copy of it.
-/
def ReadsInPlace (start : Copies) (p : Planner) (entry : Instruction × Nat) : Prop :=
  ∀ read ∈ reads entry.1, p.everSpilled read.1 = true →
    (entry.1.opcode = .compute ∧ read.1 ∈ p.spilled) ∨ after start p.out read.1 read.2 = true

instance (start : Copies)
    (p : Planner)
    (entry : Instruction × Nat) : Decidable (ReadsInPlace start p entry) := by
  unfold ReadsInPlace
  infer_instance

/- The scan as a transition system. -/
def planStep (args : Args) (instructions : List Instruction) (p : Planner)
    (entry : Instruction × Nat) : Option Planner :=
  (planInstruction args instructions p entry.1 entry.2).toOption

----
-- What the Planner Knows
----

/-
  The planned instructions so far, run from `start`, compared
  with the copies `now` of the input: the two agree on every
  tensor that was never spilled. A tensor that is spilled now
  has no reload that a Compute could share.
-/
structure Tracked (start now : Copies) (p : Planner) : Prop where
  same : ∀ tensor, p.everSpilled tensor = false → after start p.out tensor = now tensor
  gone : ∀ tensor ∈ p.spilled, p.everSpilled tensor = true ∧ p.sharedReload tensor = none

/- The planner forgets some of what is live or spilled. -/
structure Forgets (p q : Planner) : Prop where
  out : q.out = p.out
  ever : q.spillNbytes = p.spillNbytes
  shared : q.sharedReload = p.sharedReload
  spilled : q.spilled ⊆ p.spilled

section

variable {start now : Copies} {p q : Planner} {inst : Instruction} {tensor : TensorId}

theorem everSpilled_congr (hEver : q.spillNbytes = p.spillNbytes) :
    q.everSpilled = p.everSpilled := by
  funext tensor
  unfold Planner.everSpilled
  rw [hEver]

theorem forgets_foldl {step : Planner → TensorId → Planner}
    (hStep : ∀ p tensor, Forgets p (step p tensor)) (tensors : List TensorId) (p : Planner) :
    Forgets p (tensors.foldl step p) := by
  apply foldlRecOn (motive := Forgets p) tensors
  · exact ⟨rfl, rfl, rfl, Subset.refl _⟩
  · intro q hForgets tensor _
    have hLast := hStep q tensor
    constructor
    · exact hLast.out.trans hForgets.out
    · exact hLast.ever.trans hForgets.ever
    · exact hLast.shared.trans hForgets.shared
    · exact Subset.trans hLast.spilled hForgets.spilled

theorem forgets_dropLive (p : Planner) (tensor : TensorId) : Forgets p (p.dropLive tensor) :=
  ⟨rfl, rfl, rfl, Subset.refl _⟩

theorem forgets_release (p : Planner) (tensor : TensorId) :
    Forgets p ((p.dropLive tensor).unspill tensor) :=
  ⟨rfl, rfl, rfl, filter_subset_self _⟩

theorem forgets_noteOutput (args : Args) (inst : Instruction) (p : Planner) (tensor : TensorId) :
    Forgets p (noteOutput args inst p tensor) :=
  ⟨rfl, rfl, rfl, filter_subset_self _⟩

/- One more instruction runs when it finds what it reads. -/
theorem executable_emit (start : Copies) (out : List Instruction) (inst : Instruction) :
    executable start (out ++ [inst]) = true ↔
      executable start out = true ∧ finds (after start out) inst = true := by
  rw [executable_append, Bool.and_eq_true]
  simp [executable]

theorem after_emit (start : Copies) (out : List Instruction) (inst : Instruction) :
    after start (out ++ [inst]) = effect (after start out) inst :=
  after_append start out [inst]

theorem finds_of_no_reads (hReads : reads inst = []) (copies : Copies) :
    finds copies inst = true := by
  unfold finds
  rw [hReads]
  rfl

namespace Tracked

theorem initial (start : Copies) : Tracked start start .start :=
  { same := fun _ _ => rfl
    gone := nofun }

variable (hTracked : Tracked start now p)

include hTracked

/- What is read is there unless it was spilled. -/
theorem finds_iff (hNow : finds now inst = true) : finds (after start p.out) inst = true ↔
    ∀ read ∈ reads inst, p.everSpilled read.1 = true →
      after start p.out read.1 read.2 = true := by
  unfold finds at hNow ⊢
  rw [all_eq_true] at hNow ⊢
  constructor
  · exact fun hAll read hRead _ => hAll read hRead
  · intro hSpilled read hRead
    cases hEver : p.everSpilled read.1 with
    | true => exact hSpilled read hRead hEver
    | false =>
      rw [hTracked.same read.1 hEver]
      exact hNow read hRead

/- An instruction of the input, passed on. -/
theorem pass (hForgets : Forgets p q) (inst : Instruction) :
    Tracked start (effect now inst) (q.emit inst) := by
  have hEver : (q.emit inst).everSpilled = p.everSpilled := everSpilled_congr hForgets.ever
  constructor
  · intro tensor hNever
    have hOut : (q.emit inst).out = p.out ++ [inst] := by rw [← hForgets.out]; rfl
    rw [hOut, after_emit]
    apply effect_local
    apply hTracked.same
    rwa [← hEver]
  · intro tensor hMember
    have hGone := hTracked.gone tensor (hForgets.spilled hMember)
    rw [hEver]
    exact ⟨hGone.1, (congrFun hForgets.shared tensor).trans hGone.2⟩

/- Bookkeeping alone. -/
theorem forget (hForgets : Forgets p q) : Tracked start now q := by
  have hEver := everSpilled_congr hForgets.ever
  constructor
  · intro tensor hNever
    rw [hForgets.out]
    apply hTracked.same
    rwa [← hEver]
  · intro tensor hMember
    have hGone := hTracked.gone tensor (hForgets.spilled hMember)
    rw [hEver, hForgets.shared]
    exact hGone

end Tracked

end

----
-- Reloads
----

section Reloads

variable {args : Args} {inst : Instruction} {start now : Copies} {p : Planner} {tensor : TensorId}

theorem effect_reloadOp (copies : Copies) (spillOp : Option InstructionId) (nbytes : Nat) :
    effect copies (reloadOp args inst tensor spillOp nbytes) =
      copies.place tensor (reloadHost args inst) := by
  have hKind : (reloadOp args inst tensor spillOp nbytes).kind = "activation_reload" := by
    simp [Instruction.kind, Instruction.attrStr, Instruction.attr, reloadOp, AttrValue.asStr]
  have hDest : (reloadOp args inst tensor spillOp nbytes).dest = reloadHost args inst := by
    simp [Instruction.dest, reloadOp]
  unfold effect touched
  simp only [hKind, if_true]
  rw [← hDest]
  rfl

theorem effect_reloadTransferOp (copies : Copies) (nbytes : Nat) :
    effect copies (reloadTransferOp args inst tensor nbytes) = copies.add tensor inst.resource := by
  have hTouched : touched (reloadTransferOp args inst tensor nbytes) = [tensor] := by
    change [tensor, tensor].eraseDups = [tensor]
    simp [eraseDups_cons]
  unfold effect
  rw [hTouched]
  rfl

/-
  What the reloads in front of a Compute do to the plan: the
  spilled ones among some tensors come back to its resource,
  every other tensor is left alone.
-/
structure Reloads (start : Copies) (inst : Instruction) (tensors : List TensorId)
    (p q : Planner) : Prop where
  runs : executable start q.out = true ↔ executable start p.out = true
  ever : q.spillNbytes = p.spillNbytes
  spilled : ∀ tid, tid ∈ q.spilled ↔ tid ∈ p.spilled ∧ tid ∉ tensors
  shared : ∀ tid ∈ q.spilled, q.sharedReload tid = p.sharedReload tid
  restored : ∀ tid ∈ tensors, tid ∈ p.spilled → after start q.out tid inst.resource = true
  kept : ∀ tid, tid ∉ tensors ∨ tid ∉ p.spilled → after start q.out tid = after start p.out tid

theorem reloads_nothing (hLive : tensor ∉ p.spilled) : Reloads start inst [tensor] p p := by
  constructor
  · exact Iff.rfl
  · rfl
  · intro tid
    rw [mem_singleton]
    exact ⟨fun hMember => ⟨hMember, fun hTensor => hLive (hTensor ▸ hMember)⟩, And.left⟩
  · exact fun _ _ => rfl
  · intro tid hMember hSpilled
    rw [mem_singleton.1 hMember] at hSpilled
    exact absurd hSpilled hLive
  · exact fun _ _ => rfl

/- The tensor is loaded to the host. -/
theorem reloadToHost_reloads (hSpilled : tensor ∈ p.spilled)
    (hHost : reloadHost args inst = inst.resource) :
    Reloads start inst [tensor] p (reloadToHost args inst p tensor) := by
  have hOut : (reloadToHost args inst p tensor).out = p.out ++
    [reloadOp args inst tensor (p.spillOpFor tensor) (reloadNbytes args inst p tensor)] := rfl
  constructor
  · rw [hOut, executable_emit, finds_of_no_reads rfl]
    simp
  · rfl
  · intro tid
    rw [mem_singleton]
    exact Planner.mem_unspill
  · intro tid hMember
    exact Function.update_of_ne (Planner.mem_unspill.1 hMember).2 ..
  · intro tid hMember _
    rw [mem_singleton.1 hMember, hOut, after_emit, effect_reloadOp, ← hHost, Copies.place_here]
  · intro tid hOther
    have hTensor : tid ≠ tensor := by
      rintro rfl
      simp [hSpilled] at hOther
    rw [hOut, after_emit, effect_reloadOp, Copies.place_of_ne hTensor]

/- The device copy is made from the host copy. -/
theorem reloadToDevice_reloads (hSpilled : tensor ∈ p.spilled) (nbytes : Nat) :
    Reloads start inst [tensor] p
      (reloadToDevice args inst (reloadToHost args inst p tensor) tensor nbytes) := by
  have hOut : (reloadToDevice args inst (reloadToHost args inst p tensor) tensor nbytes).out =
    p.out ++ [reloadOp args inst tensor (p.spillOpFor tensor) (reloadNbytes args inst p tensor)]
      ++ [reloadTransferOp args inst tensor nbytes] := rfl
  constructor
  · rw [hOut, executable_emit, executable_emit, finds_of_no_reads rfl, after_emit, effect_reloadOp]
    simp [finds, reads, reloadTransferOp, Instruction.outputsThenInputs]
  · rfl
  · intro tid
    rw [mem_singleton]
    exact Planner.mem_unspill
  · intro tid hMember
    have hTensor : tid ≠ tensor := (Planner.mem_unspill.1 hMember).2
    exact (Function.update_of_ne hTensor ..).trans (Function.update_of_ne hTensor ..)
  · intro tid hMember _
    rw [mem_singleton.1 hMember, hOut, after_emit, effect_reloadTransferOp, Copies.add_here]
  · intro tid hOther
    have hTensor : tid ≠ tensor := by
      rintro rfl
      simp [hSpilled] at hOther
    rw [hOut, after_emit, effect_reloadTransferOp, Copies.add_of_ne hTensor, after_emit,
      effect_reloadOp, Copies.place_of_ne hTensor]

theorem Tracked.reloadInput (args : Args) (inst : Instruction) (hTracked : Tracked start now p)
    (tensor : TensorId) : Reloads start inst [tensor] p (reloadInput args inst p tensor).1 := by
  unfold SpillPlan.reloadInput
  split
  · rename_i op hShared
    apply reloads_nothing
    intro hSpilled
    rw [(hTracked.gone tensor hSpilled).2] at hShared
    cases hShared
  · split
    · rename_i hLive
      exact reloads_nothing hLive
    rename_i hSpilled
    have hSpilled : tensor ∈ p.spilled := by simpa using hSpilled
    dsimp only
    split
    · rename_i hHost
      exact reloadToHost_reloads hSpilled hHost
    · exact reloadToDevice_reloads hSpilled _

variable {q r : Planner} {tensors others : List TensorId}

theorem Reloads.trans (hFirst : Reloads start inst tensors p q)
    (hRest : Reloads start inst others q r) : Reloads start inst (tensors ++ others) p r := by
  constructor
  · exact hRest.runs.trans hFirst.runs
  · exact hRest.ever.trans hFirst.ever
  · intro tid
    rw [hRest.spilled, hFirst.spilled, mem_append, not_or, and_assoc]
  · intro tid hMember
    rw [hRest.shared tid hMember, hFirst.shared tid ((hRest.spilled tid).1 hMember).1]
  · intro tid hMember hSpilled
    by_cases hHere : tid ∈ tensors
    · -- Restored already, so the rest leaves it alone.
      rw [hRest.kept tid (.inr (fun hStill => ((hFirst.spilled tid).1 hStill).2 hHere))]
      exact hFirst.restored tid hHere hSpilled
    · have hLater := (mem_append.1 hMember).resolve_left hHere
      exact hRest.restored tid hLater ((hFirst.spilled tid).2 ⟨hSpilled, hHere⟩)
  · intro tid hOther
    have hFirstOther : tid ∉ tensors ∨ tid ∉ p.spilled := by
      rw [mem_append, not_or] at hOther
      exact hOther.imp_left And.left
    have hRestOther : tid ∉ others ∨ tid ∉ q.spilled := by
      rw [mem_append, not_or] at hOther
      rw [hFirst.spilled]
      exact hOther.imp And.right (fun hLive hStill => hLive hStill.1)
    rw [hRest.kept tid hRestOther, hFirst.kept tid hFirstOther]

theorem Tracked.of_reloads (hTracked : Tracked start now p)
    (hReloads : Reloads start inst tensors p q) : Tracked start now q := by
  have hEver := everSpilled_congr hReloads.ever
  constructor
  · intro tid hNever
    rw [hEver] at hNever
    have hLive : tid ∉ p.spilled := by
      intro hSpilled
      rw [(hTracked.gone tid hSpilled).1] at hNever
      cases hNever
    rw [hReloads.kept tid (.inr hLive), hTracked.same tid hNever]
  · intro tid hMember
    have hGone := hTracked.gone tid ((hReloads.spilled tid).1 hMember).1
    rw [hEver, hReloads.shared tid hMember]
    exact hGone

theorem Tracked.reloadInputs (args : Args) (inst : Instruction) (tensors : List TensorId) :
    ∀ {p : Planner}, Tracked start now p →
      Reloads start inst tensors p (reloadInputs args inst tensors p).1 := by
  induction tensors with
  | nil =>
    intro p _
    exact ⟨Iff.rfl, rfl, by simp [SpillPlan.reloadInputs], fun _ _ => rfl, nofun, fun _ _ => rfl⟩
  | cons tensor rest ih =>
    intro p hTracked
    have hFirst := hTracked.reloadInput args inst tensor
    exact hFirst.trans (ih (hTracked.of_reloads hFirst))

end Reloads

----
-- Computes and Spills
----

section Computes

variable {start now : Copies} {p : Planner} {inst : Instruction}

theorem effect_withDeps (copies : Copies) (inst : Instruction) (deps : List InstructionId) :
    effect copies (withDeps inst deps) = effect copies inst := by
  unfold withDeps
  split <;> rfl

theorem finds_withDeps (copies : Copies) (inst : Instruction) (deps : List InstructionId) :
    finds copies (withDeps inst deps) = finds copies inst := by
  unfold withDeps
  split <;> rfl

theorem Tracked.planCompute (args : Args) (hTracked : Tracked start now p)
    (hCompute : inst.opcode = .compute) (hNow : Effects.finds now inst = true) (index : Nat) :
    Tracked start (effect now inst) (planCompute args inst p) ∧
      (executable start (SpillPlan.planCompute args inst p).out = true ↔
        executable start p.out = true ∧ ReadsInPlace start p (inst, index)) := by
  have hReloads := hTracked.reloadInputs args inst inst.inputs
  have hAfter := hTracked.of_reloads hReloads
  have hReads : reads inst = inst.inputs.map (fun tensor => (tensor, inst.resource)) := by
    unfold reads
    rw [hCompute]
  unfold SpillPlan.planCompute
  rcases hResult : SpillPlan.reloadInputs args inst inst.inputs p with ⟨q, deps⟩
  rw [hResult] at hReloads hAfter
  have hNoted := forgets_foldl (forgets_noteOutput args inst) inst.outputs
    (q.emit (withDeps inst deps))
  constructor
  · rw [← effect_withDeps now inst deps]
    exact (hAfter.pass ⟨rfl, rfl, rfl, Subset.refl _⟩ (withDeps inst deps)).forget hNoted
  have hOut : (q.emit (withDeps inst deps)).out = q.out ++ [withDeps inst deps] := rfl
  rw [hNoted.out, hOut, executable_emit, hReloads.runs, finds_withDeps, hAfter.finds_iff hNow,
    everSpilled_congr hReloads.ever]
  unfold ReadsInPlace
  rw [hReads]
  -- A spilled input was reloaded, the others are as before.
  have hRead : ∀ tensor ∈ inst.inputs, after start q.out tensor inst.resource = true ↔
      tensor ∈ p.spilled ∨ after start p.out tensor inst.resource = true := by
    intro tensor hInput
    by_cases hSpilled : tensor ∈ p.spilled
    · simp [hSpilled, hReloads.restored tensor hInput hSpilled]
    · simp [hSpilled, hReloads.kept tensor (.inr hSpilled)]
  simp only [forall_mem_map, hCompute, true_and]
  constructor
  · rintro ⟨hRuns, hAll⟩
    exact ⟨hRuns, fun tensor hInput hEver => (hRead tensor hInput).1 (hAll tensor hInput hEver)⟩
  · rintro ⟨hRuns, hAll⟩
    exact ⟨hRuns, fun tensor hInput hEver => (hRead tensor hInput).2 (hAll tensor hInput hEver)⟩

/- A spill reads nothing and concerns one tensor. -/
theorem Tracked.spill (hTracked : Tracked start now p) (compute : Instruction)
    (entry : LiveTensor) : Tracked start now (spill compute p entry) ∧
      (executable start (SpillPlan.spill compute p entry).out = true ↔
        executable start p.out = true) := by
  have hOut : (SpillPlan.spill compute p entry).out = p.out ++ [spillOp compute p entry] := rfl
  have hEver (tensor : TensorId) : (SpillPlan.spill compute p entry).everSpilled tensor =
      (decide (tensor = entry.tensor) || p.everSpilled tensor) := by
    unfold Planner.everSpilled SpillPlan.spill
    by_cases hTensor : tensor = entry.tensor
    · simp [hTensor]
    · simp [hTensor]
  refine ⟨⟨?_, ?_⟩, ?_⟩
  · intro tensor hNever
    rw [hEver, Bool.or_eq_false_iff, decide_eq_false_iff_not] at hNever
    have hOther : tensor ∉ touched (spillOp compute p entry) := by
      change tensor ∉ [entry.tensor]
      rw [mem_singleton]
      exact hNever.1
    rw [hOut, after_emit, effect_frame _ _ hOther, hTracked.same tensor hNever.2]
  · intro tensor hMember
    rw [hEver]
    by_cases hTensor : tensor = entry.tensor
    · simp [hTensor, SpillPlan.spill]
    have hBefore : tensor ∈ p.spilled := by
      simpa [SpillPlan.spill, hTensor] using hMember
    have hGone := hTracked.gone tensor hBefore
    refine ⟨by simp [hGone.1], ?_⟩
    rw [← hGone.2]
    exact Function.update_of_ne hTensor ..
  · rw [hOut, executable_emit, finds_of_no_reads rfl]
    simp

theorem Tracked.spillLoop (args : Args) (instructions : List Instruction) (index : Nat)
    (compute : Instruction) (fuel : Nat) : ∀ {p : Planner}, Tracked start now p →
      Tracked start now (spillLoop args instructions index compute fuel p) ∧
        (executable start (SpillPlan.spillLoop args instructions index compute fuel p).out = true ↔
          executable start p.out = true) := by
  induction fuel with
  | zero => exact fun hTracked => ⟨hTracked, Iff.rfl⟩
  | succ fuel ih =>
    intro p hTracked
    unfold SpillPlan.spillLoop
    split
    · exact ⟨hTracked, Iff.rfl⟩
    split
    · exact ⟨hTracked, Iff.rfl⟩
    · rename_i entry _
      have hSpill := hTracked.spill compute entry
      have hRest := ih hSpill.1
      exact ⟨hRest.1, hRest.2.trans hSpill.2⟩

end Computes

----
-- Plans
----

variable {args : Args} {instructions : List Instruction}

theorem checkBudget_eq_ok {p q : Planner} (hCheck : checkBudget args p = .ok q) : q = p := by
  unfold checkBudget at hCheck
  dsimp only at hCheck
  split at hCheck
  · cases hCheck
  · cases hCheck
    rfl

section

variable {start now : Copies} {p q : Planner} {inst : Instruction} {index : Nat}
variable (hTracked : Tracked start now p)

include hTracked

/- An instruction that the planner passes on as it is. -/
theorem Tracked.passOn (hForgets : Forgets p q) (hOther : inst.opcode ≠ .compute)
    (hNow : Effects.finds now inst = true) :
    Tracked start (effect now inst) (q.emit inst) ∧
      (executable start (q.emit inst).out = true ↔
        executable start p.out = true ∧ ReadsInPlace start p (inst, index)) := by
  refine ⟨hTracked.pass hForgets inst, ?_⟩
  have hOut : (q.emit inst).out = p.out ++ [inst] := by rw [← hForgets.out]; rfl
  rw [hOut, executable_emit, hTracked.finds_iff hNow]
  simp [ReadsInPlace, hOther]

theorem Tracked.planInstruction (hNow : Effects.finds now inst = true)
    (hPlan : planInstruction args instructions p inst index = .ok q) :
    Tracked start (effect now inst) q ∧
      (executable start q.out = true ↔
        executable start p.out = true ∧ ReadsInPlace start p (inst, index)) := by
  have hSame : Forgets p p := ⟨rfl, rfl, rfl, Subset.refl _⟩
  unfold SpillPlan.planInstruction at hPlan
  split at hPlan
  · rename_i hCompute
    rw [checkBudget_eq_ok hPlan]
    have hComputed := hTracked.planCompute args hCompute hNow index
    have hSpilled := hComputed.1.spillLoop args instructions index inst
      (SpillPlan.planCompute args inst p).live.length
    exact ⟨hSpilled.1, hSpilled.2.trans hComputed.2⟩
  · rename_i hRelease
    cases hPlan
    exact hTracked.passOn (forgets_foldl forgets_release inst.inputs p) (by simp [hRelease]) hNow
  · rename_i hEvict
    split at hPlan
    · cases hPlan
      exact hTracked.passOn hSame (by simp [hEvict]) hNow
    · cases hPlan
      exact hTracked.passOn (forgets_foldl forgets_dropLive inst.inputs p) (by simp [hEvict]) hNow
  · rename_i hOther _ _
    cases hPlan
    exact hTracked.passOn hSame hOther hNow

end

/- The scan follows the execution of the input. -/
theorem Tracked.planAll {start : Copies} (entries : List (Instruction × Nat)) :
    ∀ {now : Copies} {p last : Planner}, Tracked start now p →
      executable now (entries.map Prod.fst) = true →
      planAll args instructions entries p = .ok last →
      (executable start last.out = true ↔ executable start p.out = true ∧
        Meets (planStep args instructions) (ReadsInPlace start) p entries) := by
  induction entries with
  | nil =>
    intro now p last _ _ hPlan
    cases hPlan
    simp [Meets]
  | cons entry rest ih =>
    intro now p last hTracked hNow hPlan
    rw [map_cons, executable, Bool.and_eq_true] at hNow
    unfold SpillPlan.planAll at hPlan
    split at hPlan
    · cases hPlan
    rename_i next hNext
    have hStep : planStep args instructions p entry = some next := by
      unfold planStep
      rw [hNext]
      rfl
    have hFirst := hTracked.planInstruction hNow.1 hNext
    rw [ih hFirst.1 hNow.2 hPlan, hFirst.2, and_assoc]
    simp [Meets, hStep]

def noCopies : Copies := fun _ _ => false

/- The smaller output is read again after the larger one
   was computed. -/
def rereadOnHost : ExecutableSchedule :=
  { instructions :=
    [computeOp "first" "cpu" [] ["a"] 4, computeOp "second" "cpu" [] ["b"] 8,
      computeOp "third" "cpu" ["a"] ["c"] 0] }

def transferOp (name : InstructionId) (tensor : TensorId)
    (source destination : ResourceId) : Instruction :=
  { opcode := .transfer, name := name, resource := transferResource source destination
    inputs := [tensor], outputs := [tensor], source := some source
    destination := some destination }

/- The smaller output is copied to a second device after the
   larger one was computed. -/
def movedLater : ExecutableSchedule :=
  { instructions :=
    [computeOp "first" "cuda:0" [] ["a"] 4, computeOp "second" "cuda:0" [] ["b"] 8,
      transferOp "move" "a" "cuda:0" "cuda:1", computeOp "third" "cuda:1" ["a"] ["c"] 0] }

/- The same instruction, with perhaps more to wait for. -/
structure Waits (inst later : Instruction) : Prop where
  deps : inst.dependsOn ⊆ later.dependsOn
  rest : { later with dependsOn := inst.dependsOn } = inst

theorem Waits.refl (inst : Instruction) : Waits inst inst :=
  ⟨Subset.refl _, rfl⟩

theorem withDeps_waits (inst : Instruction) (deps : List InstructionId) :
    Waits inst (withDeps inst deps) := by
  unfold withDeps
  split
  · exact .refl inst
  · refine ⟨fun dep hDep => ?_, rfl⟩
    simp [fromKeys, hDep]

/- The instructions `front` in their order, between others
   that compute nothing. -/
def Keeps (front out : List Instruction) : Prop :=
  ∃ kept, Forall₂ Waits front kept ∧ kept.Sublist out ∧
    out.filter (·.opcode = .compute) = kept.filter (·.opcode = .compute)

section Keeps

variable {front out : List Instruction}

theorem Keeps.keep (hKeeps : Keeps front out) {inst later : Instruction}
    (hWaits : Waits inst later) : Keeps (front ++ [inst]) (out ++ [later]) := by
  rcases hKeeps with ⟨kept, hFront, hOut, hComputes⟩
  refine ⟨kept ++ [later], rel_append hFront (.cons hWaits .nil), hOut.append_right _, ?_⟩
  rw [filter_append, filter_append, hComputes]

theorem Keeps.insert (hKeeps : Keeps front out) {op : Instruction}
    (hOther : op.opcode ≠ .compute) : Keeps front (out ++ [op]) := by
  rcases hKeeps with ⟨kept, hFront, hOut, hComputes⟩
  refine ⟨kept, hFront, hOut.trans (sublist_append_left _ _), ?_⟩
  simp [hComputes, hOther]

theorem Keeps.reloadInputs (args : Args) (inst : Instruction) (tensors : List TensorId) :
    ∀ {p : Planner}, Keeps front p.out →
      Keeps front (reloadInputs args inst tensors p).1.out := by
  induction tensors with
  | nil => exact id
  | cons tensor rest ih =>
    intro p hKeeps
    apply ih
    unfold reloadInput
    have hLoad : Keeps front (reloadToHost args inst p tensor).out := hKeeps.insert nofun
    split
    · exact hKeeps
    split
    · exact hKeeps
    dsimp only
    split
    · exact hLoad
    · exact hLoad.insert nofun

theorem Keeps.spillLoop (args : Args) (instructions : List Instruction) (index : Nat)
    (compute : Instruction) (fuel : Nat) : ∀ {p : Planner}, Keeps front p.out →
      Keeps front (spillLoop args instructions index compute fuel p).out := by
  induction fuel with
  | zero => exact id
  | succ fuel ih =>
    intro p hKeeps
    unfold SpillPlan.spillLoop
    split
    · exact hKeeps
    split
    · exact hKeeps
    · exact ih (hKeeps.insert nofun)

theorem Keeps.planInstruction {args : Args} {instructions : List Instruction} {index : Nat}
    {inst : Instruction} {p q : Planner} (hKeeps : Keeps front p.out)
    (hPlan : planInstruction args instructions p inst index = .ok q) :
    Keeps (front ++ [inst]) q.out := by
  have hSame := Waits.refl inst
  unfold SpillPlan.planInstruction at hPlan
  split at hPlan
  · rw [checkBudget_eq_ok hPlan]
    apply Keeps.spillLoop
    unfold planCompute
    rw [(forgets_foldl (forgets_noteOutput args inst) inst.outputs _).out]
    exact (hKeeps.reloadInputs args inst inst.inputs).keep (withDeps_waits inst _)
  · cases hPlan
    have hOut := (forgets_foldl forgets_release inst.inputs p).out
    exact Keeps.keep (hOut ▸ hKeeps) hSame
  · split at hPlan
    · cases hPlan
      exact hKeeps.keep hSame
    · cases hPlan
      have hOut := (forgets_foldl forgets_dropLive inst.inputs p).out
      exact Keeps.keep (hOut ▸ hKeeps) hSame
  · cases hPlan
    exact hKeeps.keep hSame

theorem Keeps.planAll {args : Args} {instructions : List Instruction}
    (entries : List (Instruction × Nat)) : ∀ {front : List Instruction} {p last : Planner},
      Keeps front p.out → planAll args instructions entries p = .ok last →
      Keeps (front ++ entries.map Prod.fst) last.out := by
  induction entries with
  | nil =>
    intro front p last hKeeps hPlan
    cases hPlan
    simpa using hKeeps
  | cons entry rest ih =>
    intro front p last hKeeps hPlan
    unfold SpillPlan.planAll at hPlan
    split at hPlan
    · cases hPlan
    rename_i next hNext
    simpa using ih (hKeeps.planInstruction hNext) hPlan

end Keeps

/- A plan computes what its schedule computes, in the same
   order, and drops none of its instructions. -/
theorem spilling_only_inserts (args : Args) (schedule planned : ExecutableSchedule)
    (hPlan : planActivationSpills args schedule = .ok planned) :
    Keeps schedule.instructions planned.instructions := by
  unfold planActivationSpills at hPlan
  split at hPlan
  · cases hPlan
    exact ⟨_, forall₂_same.mpr (fun inst _ => .refl inst), .refl _, rfl⟩
  split at hPlan
  · cases hPlan
  rename_i last hLast
  cases hPlan
  have hStart : Keeps [] Planner.start.out := ⟨[], .nil, .slnil, rfl⟩
  simpa [zipIdx_map_fst] using hStart.planAll _ hLast

/- Three spills and a reload around three Computes. -/
theorem reread_plan_only_inserts : ∃ planned,
    planActivationSpills (budgetOf 8 ["b"]) rereadOnHost = .ok planned ∧
      planned.instructions.length = 7 ∧ Keeps rereadOnHost.instructions planned.instructions :=
  ⟨_, rfl, rfl, spilling_only_inserts (budgetOf 8 ["b"]) rereadOnHost _ rfl⟩

end SpillPlan

end TensorTorrent
