import TensorTorrent.Library.Transition
import TensorTorrent.Schedule.Build

/-
  This file models activation spill planning
  (`plan_activation_spills` of
  `runtime/schedule/spill_plan.py`): a scan over a schedule
  that keeps the bytes of live activations within a budget
  by spilling them to disk and loading them again before
  they are read.

  Main declarations:
    * `SpillPlan.spill_plan_bounds_unprotected`
-/

namespace TensorTorrent

open List
open Function (update)

namespace SpillPlan

----
-- Arguments and State
----

/- Arguments besides the schedule. -/
structure Args where
  budgetBytes : Int
  protectedTensors : List TensorId := []
  program : Option RegionProgram := none
  machine : Option Machine := none
  backends : List String := ["cpu", "cuda", "rocm", "xpu", "mock_accel"]

/- A live tensor: where it is and how large. -/
structure LiveTensor where
  tensor : TensorId
  resource : ResourceId
  nbytes : Nat
deriving DecidableEq

/- Local variables of the scan. -/
structure Planner where
  live : List LiveTensor
  spilled : List TensorId
  spillOpFor : TensorId → Option InstructionId
  spillNbytes : TensorId → Option Nat
  sharedReload : TensorId → Option InstructionId
  out : List Instruction

namespace Planner

def start : Planner :=
  { live := [], spilled := []
    spillOpFor := fun _ => none
    spillNbytes := fun _ => none
    sharedReload := fun _ => none
    out := [] }

def emit (p : Planner) (inst : Instruction) : Planner :=
  { p with out := p.out ++ [inst] }

/- `live.get(tensor)`. -/
def find (p : Planner) (tensor : TensorId) : Option LiveTensor :=
  p.live.find? (fun entry => entry.tensor = tensor)

/- `live[entry.tensor] = ..`: a known key keeps its place. -/
def setLive (p : Planner) (entry : LiveTensor) : Planner :=
  { p with
    live :=
      if (p.find entry.tensor).isSome then
        p.live.map (fun old =>
          if old.tensor = entry.tensor then entry else old)
      else p.live ++ [entry] }

/- `live.pop(tensor, None)`. -/
def dropLive (p : Planner) (tensor : TensorId) : Planner :=
  { p with live := p.live.filter (fun entry => entry.tensor ≠ tensor) }

/- `spilled.discard(tensor)`. -/
def unspill (p : Planner) (tensor : TensorId) : Planner :=
  { p with spilled := p.spilled.filter (fun other => other ≠ tensor) }

def liveBytes (p : Planner) : Nat :=
  (p.live.map LiveTensor.nbytes).sum

end Planner

----
-- Sizes
----

section Scan

variable (args : Args)

/- Sizes that the program declares, zero left out. -/
def valueNbytes (tensor : TensorId) : Option Nat :=
  (args.program.map (fun program => program.valueNbytes tensor)).filter (fun n => 0 < n)

/- Is an attribute a dictionary with entries, or anything
   else that counts as true? -/
def truthy : AttrValue → Bool
| .null => false
| .bool value => value
| .int value => value ≠ 0
| .float value => value ≠ 0
| .string value => value ≠ ""
| .intMap entries => !entries.isEmpty
| .stringMap entries => !entries.isEmpty
| .list values => !values.isEmpty
| .map entries => !entries.isEmpty

/- Sizes of the tensors of an instruction. -/
def recordedSizes (inst : Instruction) : List (TensorId × Int) :=
  let raw :=
    if ((inst.attr "tensor_nbytes").map truthy).getD false then
      inst.attr "tensor_nbytes"
    else inst.attr "output_bytes"
  match raw with
  | some (.intMap entries) => entries
  | some (.map entries) => entries.map (fun entry => (entry.1, entry.2.asI64.getD 0))
  | _ => []

/- A size that is missing or zero counts as one byte. -/
def tensorNbytes (inst : Instruction) (tensor : TensorId) : Nat :=
  match valueNbytes args tensor, (recordedSizes inst).lookup tensor with
  | some n, _ => n
  | none, some n => max 1 n.toNat
  | none, none =>
    if inst.outputs = [] ∨ inst.outputs = [tensor] then
      max 1 inst.nbytes
    else 1

----
-- Reloads
----

section

variable (inst : Instruction)

def reloadName (tensor : TensorId) : InstructionId :=
  "load::spill::" ++ tensor ++ "::" ++ inst.name

def reloadTransferName (tensor : TensorId) : InstructionId :=
  "transfer::spill::" ++ tensor ++ "->" ++ inst.resource ++ "::" ++ inst.name

def reloadHost : ResourceId :=
  loadHostForDestination args.backends args.machine inst.resource 0 false

def reloadOp (tensor : TensorId) (spillOp : Option InstructionId) (nbytes : Nat) : Instruction :=
  { opcode := .load, name := reloadName inst tensor, resource := reloadHost args inst
    dependsOn := spillOp.toList, inputs := [tensor], outputs := [tensor], nbytes := nbytes
    source := some "disk", destination := some (reloadHost args inst)
    attributes :=
      [("kind", .string "activation_reload"), ("spill_resource", .string (reloadHost args inst)),
        ("consumer", .string inst.name), ("tensor_nbytes", sizesAttr [(tensor, nbytes)])] }

def reloadTransferOp (tensor : TensorId) (nbytes : Nat) : Instruction :=
  { opcode := .transfer, name := reloadTransferName inst tensor
    resource := transferResource (reloadHost args inst) inst.resource
    dependsOn := [reloadName inst tensor], inputs := [tensor], outputs := [tensor], nbytes := nbytes
    source := some (reloadHost args inst), destination := some inst.resource
    attributes :=
      [("kind", .string "activation_reload_transfer"), ("before_region",
          .string (inst.executableRef.getD "")),
        ("simulated_until_validated", .bool (Text.contains inst.resource "mock")),
        ("tensor_nbytes", sizesAttr [(tensor, nbytes)])] }

end

section

variable (inst : Instruction) (p : Planner) (tensor : TensorId)

/- Bytes of a reload: what was spilled. -/
def reloadNbytes : Nat :=
  (p.spillNbytes tensor).getD ((valueNbytes args tensor).getD (max 1 inst.nbytes))

/- A spilled tensor comes back to the host. -/
def reloadToHost : Planner :=
  let nbytes := reloadNbytes args inst p tensor
  let loaded :=
    ((p.emit (reloadOp args inst tensor (p.spillOpFor tensor) nbytes)).unspill tensor).setLive
      { tensor := tensor, resource := reloadHost args inst, nbytes := nbytes }
  { loaded with
    sharedReload := update p.sharedReload tensor (some (reloadName inst tensor))
    spillOpFor := update p.spillOpFor tensor none }

/- And from there to the device that reads it. -/
def reloadToDevice (nbytes : Nat) : Planner :=
  let moved :=
    (p.emit (reloadTransferOp args inst tensor nbytes)).setLive
      { tensor := tensor, resource := inst.resource, nbytes := nbytes }
  { moved with
    sharedReload := update p.sharedReload tensor (some (reloadTransferName inst tensor)) }

/-
  One input of a Compute, with the dependencies it adds. A
  restored tensor is found by name only: on which resource
  it was restored is not compared.
-/
def reloadInput : Planner × List InstructionId :=
  match p.sharedReload tensor with
  | some op => (p, [op])
  | none =>
    if tensor ∉ p.spilled then (p, [])
    else
      let onHost := reloadToHost args inst p tensor
      if reloadHost args inst = inst.resource then
        (onHost, [reloadName inst tensor])
      else
        (reloadToDevice args inst onHost tensor (reloadNbytes args inst p tensor),
          [reloadName inst tensor, reloadTransferName inst tensor])

end

def reloadInputs (inst : Instruction) : List TensorId → Planner → Planner × List InstructionId
| [], p => (p, [])
| tensor :: rest, p =>
  let first := reloadInput args inst p tensor
  let others := reloadInputs inst rest first.1
  (others.1, first.2 ++ others.2)

----
-- Outputs and Spills
----

def withDeps (inst : Instruction) (deps : List InstructionId) : Instruction :=
  if deps = [] then inst
  else
    { inst with dependsOn := fromKeys (inst.dependsOn ++ deps) }

/- An output is live where it was computed. -/
def noteOutput (inst : Instruction) (p : Planner) (tensor : TensorId) : Planner :=
  let noted :=
    (p.setLive
      { tensor := tensor, resource := inst.resource
        nbytes := tensorNbytes args inst tensor }).unspill tensor
  { noted with spillOpFor := update p.spillOpFor tensor none }

/- First Compute after `index` that reads the tensor. -/
def nextUse (instructions : List Instruction) (index : Nat) (tensor : TensorId) : Nat :=
  ((instructions.zipIdx.find? (fun entry =>
    entry.1.opcode = .compute ∧ tensor ∈ entry.1.inputs ∧
      index < entry.2)).map Prod.snd).getD (10 ^ 9)

/- Order of `_score`: the last one is read latest, and the
   smallest among those. -/
def ScoreLe (instructions : List Instruction) (index : Nat) (a b : LiveTensor) : Prop :=
  nextUse instructions index a.tensor < nextUse instructions index b.tensor ∨
    nextUse instructions index a.tensor = nextUse instructions index b.tensor ∧ b.nbytes ≤ a.nbytes

instance (instructions : List Instruction)
    (index : Nat) : DecidableRel (ScoreLe instructions index) :=
  fun _ _ => inferInstanceAs (Decidable (_ ∨ _))

def candidates (p : Planner) : List LiveTensor :=
  p.live.filter (fun entry => entry.tensor ∉ args.protectedTensors ∧ entry.tensor ∉ p.spilled)

/- `sorted(candidates, key=_score)[-1]`. -/
def victim (instructions : List Instruction) (index : Nat) (p : Planner) : Option LiveTensor :=
  ((candidates args p).insertionSort (ScoreLe instructions index)).getLast?

def spillName (compute : Instruction) (tensor : TensorId) : InstructionId :=
  "evict::spill::" ++ tensor ++ "::" ++ compute.name

/- A spill waits for every reader emitted so far. -/
def spillOp (compute : Instruction) (p : Planner) (entry : LiveTensor) : Instruction :=
  let readers :=
    (p.out.filter (fun prev =>
      prev.opcode = .compute ∧ entry.tensor ∈ prev.inputs)).map Instruction.name
  { opcode := .evict, name := spillName compute entry.tensor, resource := entry.resource
    dependsOn := fromKeys (compute.name :: readers), inputs := [entry.tensor]
    nbytes := entry.nbytes, source := some entry.resource, destination := some "disk"
    attributes :=
      [("kind", .string "activation_spill"), ("spill_resource", .string entry.resource),
        ("producer_compute", .string compute.name),
        ("tensor_nbytes", sizesAttr [(entry.tensor, entry.nbytes)])] }

def spill (compute : Instruction) (p : Planner) (entry : LiveTensor) : Planner :=
  let gone := (p.emit (spillOp compute p entry)).dropLive entry.tensor
  { gone with
    spilled := entry.tensor :: p.spilled
    spillOpFor := update p.spillOpFor entry.tensor (some (spillName compute entry.tensor))
    spillNbytes := update p.spillNbytes entry.tensor (some entry.nbytes)
    sharedReload := update p.sharedReload entry.tensor none }

/- Spills while the budget is exceeded. Every turn removes a
   live tensor, so their number bounds the turns. -/
def spillLoop (instructions : List Instruction) (index : Nat) (compute : Instruction) :
    Nat → Planner → Planner
| 0, p => p
| fuel + 1, p =>
  if (p.liveBytes : Int) ≤ args.budgetBytes then p
  else
    match victim args instructions index p with
    | none => p
    | some entry => spillLoop instructions index compute fuel (spill compute p entry)

/- `repr` of a list of strings without quotes in them. -/
def reprNames (names : List String) : String :=
  "[" ++ ", ".intercalate (names.map (fun name => "'" ++ name ++ "'")) ++ "]"

/- The check after the spill loop. -/
def checkBudget (p : Planner) : Except String Planner :=
  let leftover :=
    (p.live.filter (fun entry => entry.tensor ∉ args.protectedTensors)).map LiveTensor.tensor
  if leftover ≠ [] ∧ args.budgetBytes < p.liveBytes then
    .error ("activation budget " ++ toString args.budgetBytes ++
      " bytes cannot be met; spillable live tensors=" ++ reprNames leftover ++ " bytes=" ++
      toString p.liveBytes)
  else .ok p

----
-- The Scan
----

/- A Compute with its reloads, before any spill. -/
def planCompute (inst : Instruction) (p : Planner) : Planner :=
  let reloaded := reloadInputs args inst inst.inputs p
  inst.outputs.foldl (noteOutput args inst) (reloaded.1.emit (withDeps inst reloaded.2))

def isSpill (inst : Instruction) : Bool :=
  inst.kind = "activation_spill"

/- One turn of the loop over the instructions. -/
def planInstruction (instructions : List Instruction) (p : Planner) (inst : Instruction)
    (index : Nat) : Except String Planner :=
  match inst.opcode with
  | .compute =>
    checkBudget args (spillLoop args instructions index inst (planCompute args inst p).live.length
      (planCompute args inst p))
  | .release =>
    .ok ((inst.inputs.foldl (fun p tensor => (p.dropLive tensor).unspill tensor) p).emit inst)
  | .evict =>
    if isSpill inst then .ok (p.emit inst)
    else
      .ok ((inst.inputs.foldl .dropLive p).emit inst)
  | _ => .ok (p.emit inst)

def planAll (instructions : List Instruction) :
    List (Instruction × Nat) → Planner → Except String Planner
| [], p => .ok p
| (inst, index) :: rest, p =>
  match planInstruction args instructions p inst index with
  | .error message => .error message
  | .ok next => planAll instructions rest next

end Scan

end SpillPlan

open SpillPlan in
def planActivationSpills (args : Args) (schedule : ExecutableSchedule) :
    Except String ExecutableSchedule :=
  if args.budgetBytes < 0 then .ok schedule
  else
    match planAll args schedule.instructions schedule.instructions.zipIdx .start with
    | .error message => .error message
    | .ok p => .ok { instructions := p.out }

namespace SpillPlan

/- The planner after the first `n` instructions. -/
def plannerAfter (args : Args) (schedule : ExecutableSchedule) (n : Nat) : Except String Planner :=
  planAll args schedule.instructions (schedule.instructions.zipIdx.take n) .start

/- Bytes of live tensors that may not be spilled. -/
def protectedBytes (args : Args) (p : Planner) : Nat :=
  ((p.live.filter (fun entry => entry.tensor ∈ args.protectedTensors)).map LiveTensor.nbytes).sum

----
-- Live and Spilled Tensors
----

/- No tensor is both live and spilled. -/
def Apart (p : Planner) : Prop :=
  ∀ entry ∈ p.live, entry.tensor ∉ p.spilled

namespace Planner

@[simp]
theorem setLive_spilled (p : Planner) (entry : LiveTensor) :
    (p.setLive entry).spilled = p.spilled :=
  rfl

@[simp]
theorem unspill_live (p : Planner) (tensor : TensorId) : (p.unspill tensor).live = p.live :=
  rfl

variable {p : Planner}

theorem mem_setLive {entry other : LiveTensor} (hMember : other ∈ (p.setLive entry).live) :
    other = entry ∨ other ∈ p.live ∧ other.tensor ≠ entry.tensor := by
  unfold setLive at hMember
  split at hMember
  · rcases mem_map.1 hMember with ⟨old, hOld, hSame⟩
    split at hSame
    · exact .inl hSame.symm
    · rename_i hTensor
      rw [← hSame]
      exact .inr ⟨hOld, hTensor⟩
  · rename_i hFresh
    rcases mem_append.1 hMember with hOld | hNew
    · right
      constructor
      · exact hOld
      · intro hTensor
        apply hFresh
        unfold find
        rw [find?_isSome]
        exact ⟨other, hOld, by simpa using hTensor⟩
    · exact .inl (by simpa using hNew)

theorem mem_dropLive {tensor : TensorId} {entry : LiveTensor} :
    entry ∈ (p.dropLive tensor).live ↔ entry ∈ p.live ∧ entry.tensor ≠ tensor := by
  simp [dropLive]

theorem mem_unspill {tensor other : TensorId} :
    other ∈ (p.unspill tensor).spilled ↔ other ∈ p.spilled ∧ other ≠ tensor := by
  simp [unspill]

end Planner

namespace Apart

theorem start : Apart .start := by
  intro entry hMember
  cases hMember

variable {p : Planner} (hApart : Apart p)

include hApart

theorem emit (inst : Instruction) : Apart (p.emit inst) :=
  hApart

/- A tensor that becomes live is no longer spilled. -/
theorem restore (entry : LiveTensor) : Apart ((p.unspill entry.tensor).setLive entry) := by
  intro other hMember hSpilled
  have hBefore := Planner.mem_unspill.1 (by simpa using hSpilled)
  rcases Planner.mem_setLive hMember with hNew | hOld
  · exact hBefore.2 (by rw [hNew])
  · exact hApart other hOld.1 hBefore.1

theorem dropLive (tensor : TensorId) : Apart (p.dropLive tensor) := by
  intro entry hMember
  exact hApart entry (Planner.mem_dropLive.1 hMember).1

theorem unspill (tensor : TensorId) : Apart (p.unspill tensor) := by
  intro entry hMember hSpilled
  exact hApart entry hMember (Planner.mem_unspill.1 hSpilled).1

/- A live tensor that moves stays live. -/
theorem move (entry : LiveTensor) (hTensor : entry.tensor ∉ p.spilled) :
    Apart (p.setLive entry) := by
  intro other hMember hSpilled
  rcases Planner.mem_setLive hMember with hNew | hOld
  · exact hTensor (by simpa [hNew] using hSpilled)
  · exact hApart other hOld.1 hSpilled

variable {args : Args}

theorem reloadInput (inst : Instruction) (tensor : TensorId) :
    Apart (reloadInput args inst p tensor).1 := by
  unfold SpillPlan.reloadInput
  have hHost : Apart (reloadToHost args inst p tensor) := hApart.restore _
  split
  · exact hApart
  split
  · exact hApart
  dsimp only
  split
  · exact hHost
  · apply move hHost
    intro hSpilled
    exact (Planner.mem_unspill.1 hSpilled).2 rfl

theorem reloadInputs (inst : Instruction) (tensors : List TensorId) :
    Apart (reloadInputs args inst tensors p).1 := by
  induction tensors generalizing p with
  | nil => exact hApart
  | cons tensor rest ih => exact ih (hApart.reloadInput inst tensor)

theorem noteOutput (inst : Instruction) (tensor : TensorId) :
    Apart (noteOutput args inst p tensor) := by
  intro other hMember hSpilled
  have hBefore := Planner.mem_unspill.1 hSpilled
  rcases Planner.mem_setLive hMember with hNew | hOld
  · exact hBefore.2 (by rw [hNew])
  · exact hApart other hOld.1 hBefore.1

theorem planCompute (inst : Instruction) : Apart (planCompute args inst p) := by
  unfold SpillPlan.planCompute
  apply foldlRecOn inst.outputs _ ((hApart.reloadInputs inst inst.inputs).emit _)
  intro p hApart tensor _
  exact hApart.noteOutput inst tensor

/- A spilled tensor is no longer live. -/
theorem spill (compute : Instruction) (entry : LiveTensor) : Apart (spill compute p entry) := by
  intro other hMember hSpilled
  have hBefore := Planner.mem_dropLive.1 hMember
  rcases mem_cons.1 hSpilled with hSame | hOld
  · exact hBefore.2 hSame
  · exact hApart other hBefore.1 hOld

end Apart

----
-- The Spill Loop
----

/- Within the budget, or nothing is left to spill. -/
def Settled (args : Args) (p : Planner) : Prop :=
  (p.liveBytes : Int) ≤ args.budgetBytes ∨ ∀ entry ∈ p.live, entry.tensor ∈ args.protectedTensors

variable {args : Args} {p : Planner} {index : Nat} {instructions : List Instruction}

theorem victim_mem {entry : LiveTensor} (hVictim : victim args instructions index p = some entry) :
    entry ∈ candidates args p := by
  have hSorted := mem_of_getLast? hVictim
  simpa using hSorted

theorem victim_none (hApart : Apart p) (hVictim : victim args instructions index p = none) :
    ∀ entry ∈ p.live, entry.tensor ∈ args.protectedTensors := by
  intro entry hMember
  by_contra hFree
  have hCandidate : entry ∈ candidates args p := by
    simp [candidates, hMember, hFree, hApart entry hMember]
  have hSorted : entry ∈ (candidates args p).insertionSort (ScoreLe instructions index) := by
    simpa using hCandidate
  unfold victim at hVictim
  rw [getLast?_eq_none_iff.1 hVictim] at hSorted
  cases hSorted

theorem spill_length (compute : Instruction) {entry : LiveTensor} (hMember : entry ∈ p.live) :
    (spill compute p entry).live.length < p.live.length := by
  apply length_filter_lt_length_iff_exists.2
  exact ⟨entry, hMember, by simp⟩

theorem spillLoop_done (args : Args) (instructions : List Instruction) (index : Nat)
    (compute : Instruction) (fuel : Nat) : ∀ {p : Planner}, Apart p → p.live.length ≤ fuel →
      Apart (spillLoop args instructions index compute fuel p) ∧ Settled args
        (spillLoop args instructions index compute fuel p) := by
  induction fuel with
  | zero =>
    intro p hApart hLength
    constructor
    · exact hApart
    · right
      intro entry hMember
      have hEmpty : p.live = [] := length_eq_zero_iff.1 (by omega)
      have hMember : entry ∈ p.live := hMember
      simp [hEmpty] at hMember
  | succ fuel ih =>
    intro p hApart hLength
    unfold spillLoop
    split
    · rename_i hFits
      exact ⟨hApart, Or.inl hFits⟩
    split
    · rename_i hVictim
      exact ⟨hApart, Or.inr (victim_none hApart hVictim)⟩
    rename_i entry hVictim
    have hLive : entry ∈ p.live := mem_of_mem_filter (victim_mem hVictim)
    have hShorter := spill_length compute hLive
    exact ih (hApart.spill compute entry) (by omega)

/- The check that follows the loop never fails. -/
theorem checkBudget_ok (hSettled : Settled args p) : checkBudget args p = .ok p := by
  unfold checkBudget
  apply if_neg
  rintro ⟨hLeft, hOver⟩
  rcases hSettled with hFits | hProtected
  · omega
  apply hLeft
  rw [map_eq_nil_iff, filter_eq_nil_iff]
  intro entry hMember
  simpa using hProtected entry hMember

----
-- The Whole Scan
----

section

variable (args : Args) (instructions : List Instruction)

theorem planInstruction_ok (inst : Instruction) (index : Nat) (hApart : Apart p) :
    ∃ next, planInstruction args instructions p inst index = .ok next ∧ Apart next ∧
      (inst.opcode = .compute → Settled args next) := by
  unfold planInstruction
  have hEmit := hApart.emit inst
  cases hOpcode : inst.opcode with
  | compute =>
    have hComputed : Apart (planCompute args inst p) := hApart.planCompute inst
    have hDone := spillLoop_done args instructions index inst _ hComputed le_rfl
    exact ⟨_, checkBudget_ok hDone.2, hDone.1, fun _ => hDone.2⟩
  | release =>
    refine ⟨_, rfl, ?_, nofun⟩
    apply Apart.emit
    apply foldlRecOn inst.inputs _ hApart
    intro p hApart tensor _
    exact (hApart.dropLive tensor).unspill tensor
  | evict =>
    dsimp only
    split
    · exact ⟨_, rfl, hEmit, nofun⟩
    refine ⟨_, rfl, ?_, nofun⟩
    apply Apart.emit
    apply foldlRecOn inst.inputs _ hApart
    intro p hApart tensor _
    exact hApart.dropLive tensor
  | prefetch => exact ⟨_, rfl, hEmit, nofun⟩
  | load => exact ⟨_, rfl, hEmit, nofun⟩
  | transfer => exact ⟨_, rfl, hEmit, nofun⟩
  | recordEvent => exact ⟨_, rfl, hEmit, nofun⟩
  | waitEvent => exact ⟨_, rfl, hEmit, nofun⟩

theorem planAll_ok (entries : List (Instruction × Nat)) : ∀ {p : Planner}, Apart p → ∃ last,
    planAll args instructions entries p = .ok last ∧ Apart last := by
  induction entries with
  | nil => exact fun {p} hApart => ⟨p, rfl, hApart⟩
  | cons entry rest ih =>
    intro p hApart
    rcases planInstruction_ok args instructions entry.1
      entry.2 hApart with ⟨next, hNext, hApart', _⟩
    simp only [planAll, hNext]
    exact ih hApart'

theorem planAll_append (front : List (Instruction × Nat)) (back : List (Instruction × Nat)) :
    ∀ {p next : Planner}, planAll args instructions front p = .ok next →
      planAll args instructions (front ++ back) p = planAll args instructions back next := by
  induction front with
  | nil =>
    intro p next hFront
    cases hFront
    rfl
  | cons entry rest ih =>
    intro p next hFront
    simp only [planAll, cons_append] at hFront ⊢
    split at hFront
    · cases hFront
    · exact ih hFront

end

/- Planning under a budget never fails, and returns what
   the planner has emitted. -/
theorem planActivationSpills_ok (args : Args) (schedule : ExecutableSchedule)
    (hBudget : 0 ≤ args.budgetBytes) :
    ∃ last, plannerAfter args schedule schedule.instructions.length = .ok last ∧
      planActivationSpills args schedule = .ok { instructions := last.out } := by
  rcases planAll_ok args schedule.instructions schedule.instructions.zipIdx Apart.start with
    ⟨last, hLast, _⟩
  refine ⟨last, ?_, ?_⟩
  · unfold plannerAfter
    rwa [take_of_length_le (by simp)]
  · unfold planActivationSpills
    rw [if_neg (by omega), hLast]

theorem plannerAfter_settled (args : Args) (schedule : ExecutableSchedule) {inst : Instruction}
    (hInst : schedule.instructions[index]? = some inst) (hCompute : inst.opcode = .compute) :
    ∃ p, plannerAfter args schedule (index + 1) = .ok p ∧ Settled args p := by
  rcases planAll_ok args schedule.instructions (schedule.instructions.zipIdx.take index)
    Apart.start with ⟨before, hBefore, hApart⟩
  rcases planInstruction_ok args schedule.instructions
    inst index hApart with ⟨next, hNext, _, hSettled⟩
  refine ⟨next, ?_, hSettled hCompute⟩
  have hEntry : schedule.instructions.zipIdx[index]? = some (inst, index) := by
    simp [getElem?_zipIdx, hInst]
  unfold plannerAfter
  rw [take_add_one, hEntry, planAll_append _ _ _ _ hBefore]
  simp [planAll, hNext]

theorem Settled.fits_iff (hSettled : Settled args p) :
    (p.liveBytes : Int) ≤ args.budgetBytes ↔ (protectedBytes args p : Int) ≤ args.budgetBytes := by
  have hPart : protectedBytes args p ≤ p.liveBytes := by
    apply List.Sublist.sum_le_sum
    · exact (filter_sublist).map _
    · simp
  constructor
  · omega
  · intro hFits
    rcases hSettled with hWithin | hProtected
    · exact hWithin
    have hAll : p.live.filter (fun entry =>
        entry.tensor ∈ args.protectedTensors) = p.live := by
      rw [filter_eq_self]
      intro entry hMember
      simpa using hProtected entry hMember
    unfold protectedBytes at hFits
    rwa [hAll] at hFits

/-
  Planning under a budget always returns. After each Compute
  and its spills the live bytes fit the budget exactly when
  the protected tensors among them do.
-/
theorem spill_plan_bounds_unprotected (args : Args) (schedule : ExecutableSchedule)
    (hBudget : 0 ≤ args.budgetBytes) :
    (∃ last, plannerAfter args schedule schedule.instructions.length = .ok last ∧
        planActivationSpills args schedule = .ok { instructions := last.out }) ∧
      ∀ (index : Nat) (inst : Instruction), schedule.instructions[index]? = some inst →
        inst.opcode = .compute → ∃ p, plannerAfter args schedule (index + 1) = .ok p ∧
          ((p.liveBytes : Int) ≤ args.budgetBytes ↔
            (protectedBytes args p : Int) ≤ args.budgetBytes) := by
  constructor
  · exact planActivationSpills_ok args schedule hBudget
  · intro index inst hInst hCompute
    rcases plannerAfter_settled args schedule hInst hCompute with ⟨p, hAfter, hSettled⟩
    exact ⟨p, hAfter, hSettled.fits_iff⟩

----
-- Concrete Plans
----

def computeOp (name : InstructionId) (resource : ResourceId) (inputs outputs : List TensorId)
    (nbytes : Nat) : Instruction :=
  { opcode := .compute, name := name, resource := resource, inputs := inputs, outputs := outputs
    nbytes := nbytes }

/- Two outputs, of which the larger one is returned to the
   caller, under a budget for the larger one. -/
def twoOutputs : ExecutableSchedule :=
  { instructions := [computeOp "first" "cpu" [] ["a"] 4, computeOp "second" "cpu" [] ["b"] 8] }

def budgetOf (budget : Int) (protectedTensors : List TensorId) : Args :=
  { budgetBytes := budget, protectedTensors := protectedTensors }

/- The first output is spilled after the second Compute. -/
theorem unprotected_output_is_spilled : (0 : Int) ≤ (budgetOf 8 ["b"]).budgetBytes ∧
    ∃ p, plannerAfter (budgetOf 8 ["b"]) twoOutputs 2 = .ok p ∧ ((p.liveBytes : Int) ≤ 8 ↔
      (protectedBytes (budgetOf 8 ["b"]) p : Int) ≤ 8) := by
  constructor
  · decide
  · exact (spill_plan_bounds_unprotected (budgetOf 8 ["b"]) twoOutputs (by decide)).2 1 _ rfl rfl

/- A protected output alone exceeds the budget, and the
   plan is returned all the same. -/
theorem protected_output_exceeds_budget : (0 : Int) ≤ (budgetOf 0 ["a"]).budgetBytes ∧ (∃ planned,
      planActivationSpills (budgetOf 0 ["a"]) twoOutputs = .ok planned) ∧
    ∃ p, plannerAfter (budgetOf 0 ["a"]) twoOutputs 1 = .ok p ∧
      (budgetOf 0 ["a"]).budgetBytes < p.liveBytes := by
  refine ⟨by decide, ⟨_, rfl⟩, _, rfl, ?_⟩
  decide

end SpillPlan

end TensorTorrent
