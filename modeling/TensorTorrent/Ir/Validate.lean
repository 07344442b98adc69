import TensorTorrent.Ir.Schedule
import TensorTorrent.Library.Dependency

/-
  This file models structural schedule validation (crate
  `tt-ir`, `validate.rs`). The hash maps of the source are
  iterated in an unspecified order, which is an explicit
  argument here.

  Main declarations:
    * `Accepted.known_dependency`
    * `Accepted.schedulable`
-/

namespace TensorTorrent

open Dependency List
open ExecutableSchedule (missing)

/-
  Iteration orders of the two hash maps whose order the
  validator can observe.
-/
structure HashOrder (schedule : ExecutableSchedule) where
  byName : List InstructionId
  byName_perm : byName.Perm schedule.names
  indegree : List InstructionId
  indegree_perm : indegree.Perm schedule.names

/- Both maps iterated in the order of the schedule. -/
def HashOrder.listed (schedule : ExecutableSchedule) : HashOrder schedule :=
  { byName := schedule.names, byName_perm := schedule.names_perm, indegree := schedule.names
    indegree_perm := schedule.names_perm }

/- Both maps iterated in a given order. -/
def HashOrder.ofNames {schedule : ExecutableSchedule} (order : List InstructionId)
    (hOrder : order.Perm schedule.names) : HashOrder schedule :=
  { byName := order, byName_perm := hOrder, indegree := order, indegree_perm := hOrder }

----
-- Checks of Single Instructions
----

namespace Validate

open Text

/- Second and later instructions of a name, in order. -/
def duplicateErrors : List InstructionId → List Instruction → List String
| _, [] => []
| seen, inst :: rest =>
  if inst.name ∈ seen then
    ("duplicate instruction id: " ++ debug inst.name) :: duplicateErrors seen rest
  else duplicateErrors (inst.name :: seen) rest

variable (schedule : ExecutableSchedule) (inst : Instruction)

def unknownDependencyErrors : List String :=
  (inst.dependsOn.filter (fun dep => (schedule.byName dep).isNone)).map (fun dep =>
    debug inst.name ++ " depends on unknown instruction " ++ debug dep)

/- One error for each empty tensor id of an instruction. -/
def emptyTensorErrors (label : String) (inst : Instruction) : List String :=
  (inst.inputsThenOutputs.filter (fun tid => tid = "")).map (fun _ =>
    label ++ " " ++ debug inst.name ++ " has empty tensor id")

/- `errors.push(message)` under a condition. -/
def errorWhen (failed : Bool) (message : String) : List String :=
  if failed then [message] else []

def opcodeErrors : List String :=
  match inst.opcode with
  | .recordEvent => []
  | .waitEvent => []
  | .transfer =>
    errorWhen (inst.source.isNone || inst.destination.isNone)
      ("transfer " ++ debug inst.name ++ " missing source or destination") ++
    errorWhen (inst.inputs.isEmpty && inst.outputs.isEmpty)
      ("transfer " ++ debug inst.name ++ " references no tensors") ++
    emptyTensorErrors "transfer" inst
  | .compute =>
    errorWhen (inst.resource = "") ("compute " ++ debug inst.name ++ " missing resource") ++
    errorWhen inst.executableRef.isNone ("compute " ++ debug inst.name ++
      " missing executable_ref") ++
    emptyTensorErrors "compute" inst
  | .load | .prefetch | .evict | .release =>
    emptyTensorErrors inst.opcode.asStr inst ++
    errorWhen (inst.opcode = .load && inst.inputs.isEmpty && inst.outputs.isEmpty)
      ("load " ++ debug inst.name ++ " references no tensors") ++
    errorWhen (inst.opcode = .release && inst.inputs.isEmpty)
      ("release " ++ debug inst.name ++ " references no tensors") ++
    errorWhen (inst.opcode = .evict && inst.inputs.isEmpty)
      ("evict " ++ debug inst.name ++ " references no tensors")

/- Streams, copy engines and links must be explicit. -/
def resourceIdErrors : List String :=
  errorWhen (inst.opcode ∈ [.compute, .transfer, .load, .prefetch] && missing inst.streamId)
    (inst.opcode.asStr ++ " " ++ debug inst.name ++ " missing stream_id") ++
  errorWhen (inst.opcode ∈ [.transfer, .load, .prefetch] && missing inst.copyEngineId)
    (inst.opcode.asStr ++ " " ++ debug inst.name ++ " missing copy_engine_id") ++
  errorWhen (inst.opcode = .transfer && missing inst.linkId)
    ("transfer " ++ debug inst.name ++ " missing link_id")

def instructionErrors : List String :=
  unknownDependencyErrors schedule inst ++ opcodeErrors inst ++ resourceIdErrors inst

end Validate

----
-- Cycle Detection
----

namespace Validate

variable (schedule : ExecutableSchedule) (order : HashOrder schedule)

/- Dependencies of a name, none when it is unknown. -/
def dependsOn (name : InstructionId) : List InstructionId :=
  ((schedule.byName name).map Instruction.dependsOn).getD []

/- Kahn's loop over the names of the schedule. -/
def topologicalOrder : List InstructionId :=
  kahn (reverse (dependsOn schedule) order.byName) (schedule.names.length + 1)
    (fun name => (dependsOn schedule name).length)
    (order.indegree.filter (fun name => (dependsOn schedule name).length = 0))
    []

/- `{:?}` of a vector of strings. -/
def debugList (names : List String) : String :=
  "[" ++ ", ".intercalate (names.map Text.debug) ++ "]"

def cycleError : String :=
  "dependency cycle involves: " ++ debugList (order.byName.filter
    (fun name => name ∉ topologicalOrder schedule order))

end Validate

----
-- Ancestors
----

namespace Validate

/- Closures that earlier calls of `ancestors` stored. -/
abbrev AncestorCache :=
  InstructionId → Option (List InstructionId)

/-
  The stack loop of `ancestors`. The head of `stack` is the
  end of the source's vector. A name enters `seen` before
  it is known to exist, as `seen.insert` runs first.
-/
def ancestorsLoop (schedule : ExecutableSchedule) (cache : AncestorCache) :
    Nat → List InstructionId → List InstructionId → List InstructionId
| 0, _, seen => seen
| _ + 1, [], seen => seen
| fuel + 1, cur :: stack, seen =>
  if cur ∈ seen then
    ancestorsLoop schedule cache fuel stack seen
  else
    match schedule.byName cur, cache cur with
    | none, _ => ancestorsLoop schedule cache fuel stack (cur :: seen)
    | some _, some hit => ancestorsLoop schedule cache fuel stack (hit ++ cur :: seen)
    | some inst, none =>
      ancestorsLoop schedule cache fuel (inst.dependsOn.reverse ++ stack) (cur :: seen)

variable (schedule : ExecutableSchedule)

/- Every dependency is pushed at most twice. -/
def ancestorFuel : Nat :=
  2 * (schedule.instructions.map (fun inst => inst.dependsOn.length)).sum + 1

/- Memoised transitive dependencies of a name. -/
def ancestors (name : InstructionId) (cache : AncestorCache) : List InstructionId × AncestorCache :=
  match cache name with
  | some hit => (hit, cache)
  | none =>
    let seen :=
      ancestorsLoop schedule cache (ancestorFuel schedule) (dependsOn schedule name).reverse []
    (seen, Function.update cache name (some seen))

end Validate

----
-- Ordering Checks
----

namespace Validate

open Text

/- Tensors a Transfer delivers. -/
def transferTensors (inst : Instruction) : List TensorId :=
  if inst.outputs.isEmpty then inst.inputs
  else inst.outputs

/- Does this instruction complete a copy of the tensor? -/
def completesTransfer (inst : Instruction) (tensor : TensorId) (dest : ResourceId) : Bool :=
  match inst.opcode with
  | .waitEvent => inst.resource = dest && tensor ∈ inst.inputs
  | .transfer => inst.destination.getD "" = dest && tensor ∈ transferTensors inst
  | _ => false

section

variable (schedule : ExecutableSchedule) (order : HashOrder schedule) (tensor : TensorId)

/- `or_insert` keeps the first instruction of the order. -/
def transferCompletionFor (dest : ResourceId) : Option InstructionId :=
  order.byName.find? (fun name =>
    ((schedule.byName name).map (fun inst => completesTransfer inst tensor dest)).getD false)

def consumersByTensor : List InstructionId :=
  order.byName.flatMap (fun name =>
    match schedule.byName name with
    | none => []
    | some inst => (inst.inputs.filter (· = tensor)).map (fun _ => name))

end

def producedTensors (inst : Instruction) : List TensorId :=
  match inst.opcode with
  | .compute => inst.outputs
  | .transfer | .load => inst.outputsThenInputs
  | _ => []

section

variable (schedule : ExecutableSchedule) (inst : Instruction) (order : HashOrder schedule)

def producersByTensor (tensor : TensorId) : List InstructionId :=
  order.byName.flatMap (fun name =>
    match schedule.byName name with
    | none => []
    | some inst => ((producedTensors inst).filter (· = tensor)).map (fun _ => name))

def recordedEvents : List InstructionId :=
  (schedule.instructions.filter (fun inst => inst.opcode = .recordEvent)).map Instruction.name

/- The event a WaitEvent waits for, if it names one. -/
def waitsFor : Option InstructionId :=
  if missing (inst.attrStr "waits_for") then
    (inst.dependsOn.head?.bind schedule.byName).bind (fun dep =>
      if dep.opcode = .recordEvent then some dep.name
      else none)
  else inst.attrStr "waits_for"

def waitErrors : List String :=
  match waitsFor schedule inst with
  | none => ["wait " ++ debug inst.name ++ " has no RecordEvent target"]
  | some wf =>
    if wf = "" then
      ["wait " ++ debug inst.name ++ " has no RecordEvent target"]
    else if wf ∉ recordedEvents schedule ∧ (schedule.byName wf).isNone then
      ["wait " ++ debug inst.name ++ " references unknown event " ++ debug wf]
    else
      match schedule.byName wf with
      | some target =>
        if target.opcode ≠ .recordEvent then
          ["wait " ++ debug inst.name ++ " waits for non-RecordEvent " ++ debug wf]
        else
          errorWhen (wf ∉ recordedEvents schedule) ("wait " ++ debug inst.name ++
            " for event that is never recorded: " ++ debug wf)
      | none =>
        errorWhen (wf ∉ recordedEvents schedule) ("wait " ++ debug inst.name ++
          " for event that is never recorded: " ++ debug wf)

/-
  Every reader of a released tensor must precede the
  Release in the dependency graph.
-/
def releaseErrors (name : InstructionId) (inst : Instruction)
    (anc : List InstructionId) : List String :=
  inst.inputs.flatMap (fun value =>
    ((consumersByTensor schedule order value).filter (fun consumer =>
        consumer ≠ name && consumer ∉ anc)).map
      (fun consumer =>
        "release " ++ debug inst.name ++ " of " ++ debug value ++ " happens before consumer " ++
          debug consumer))

end

/- Does a producer leave the tensor on this resource? -/
def producesLocally (resource : ResourceId) (inst : Instruction) : Bool :=
  match inst.opcode with
  | .compute => inst.resource = resource
  | .transfer => inst.destination = some resource
  | .load => inst.dest = resource
  | _ => false

variable (schedule : ExecutableSchedule) (order : HashOrder schedule)

def computeInputErrors
    (inst : Instruction) (anc : List InstructionId) (tid : TensorId) : List String :=
  let completion := (transferCompletionFor schedule order tid inst.resource).or
    (transferCompletionFor schedule order tid "")
  let producers := (producersByTensor schedule order tid).filterMap schedule.byName
  (match completion with
    | none => []
    | some completion =>
      errorWhen (completion ∉ anc) ("compute " ++ debug inst.name ++ " reads " ++ debug tid ++
        " without depending on transfer completion " ++ debug completion)) ++
  errorWhen (producers.any (fun p => p.opcode = .compute) &&
      !producers.any (producesLocally inst.resource))
    ("compute " ++ debug inst.name ++ " requires copy of " ++
      debug tid ++ " on " ++ debug inst.resource ++ " but schedule only produces it elsewhere" ++
      " (no silent reuse)")

def orderingErrors (name : InstructionId) (cache : AncestorCache) : List String × AncestorCache :=
  match schedule.byName name with
  | none => ([], cache)
  | some inst =>
    match inst.opcode with
    | .waitEvent => (waitErrors schedule inst, cache)
    | .release =>
      let anc := ancestors schedule name cache
      (releaseErrors schedule order name inst anc.1, anc.2)
    | .compute =>
      let anc := ancestors schedule name cache
      (inst.inputs.flatMap (computeInputErrors schedule order inst anc.1), anc.2)
    | _ => ([], cache)

/- The last pass, with its cache threaded through. -/
def orderingPass (schedule : ExecutableSchedule) (order : HashOrder schedule) :
    List InstructionId → AncestorCache → List String
| [], _ => []
| name :: rest, cache =>
  let found := orderingErrors schedule order name cache
  found.1 ++ orderingPass schedule order rest found.2

end Validate

----
-- The Validator
----

variable (schedule : ExecutableSchedule)

open Validate in
/-
  Errors of a schedule. A dependency cycle ends the
  validation before the ordering checks.
-/
def validateSchedule (order : HashOrder schedule) : List String :=
  let structural :=
    duplicateErrors [] schedule.instructions ++ schedule.instructions.flatMap
      (instructionErrors schedule)
  if (topologicalOrder schedule order).length ≠ schedule.names.length then
    structural ++ [cycleError schedule order]
  else
    structural ++ orderingPass schedule order order.byName (fun _ => none)

/- Some iteration order makes the validator accept. -/
def Accepted : Prop :=
  ∃ order : HashOrder schedule, validateSchedule schedule order = []

----
-- What Acceptance Gives
----

namespace Validate

variable (insts : List Instruction)

private theorem duplicateErrors_seen :
    ∀ seen : List InstructionId, duplicateErrors seen insts = [] ↔
      (insts.map Instruction.name).Nodup ∧ ∀ inst ∈ insts, inst.name ∉ seen := by
  induction insts with
  | nil => simp [duplicateErrors]
  | cons inst rest ih =>
    intro seen
    rw [duplicateErrors]
    split
    · next hSeen => simp [hSeen]
    rename_i hFresh
    rw [ih, map_cons, nodup_cons]
    simp only [mem_cons, not_or, mem_map, forall_eq_or_imp]
    constructor
    · rintro ⟨hRest, hSeen⟩
      refine ⟨⟨?_, hRest⟩, hFresh, ?_⟩
      · rintro ⟨other, hOther, hName⟩
        exact (hSeen other hOther).1 hName
      · exact fun other hOther => (hSeen other hOther).2
    · rintro ⟨⟨hNew, hRest⟩, -, hSeen⟩
      refine ⟨hRest, fun other hOther => ⟨?_, ?_⟩⟩
      · exact fun hName => hNew ⟨other, hOther, hName⟩
      · exact hSeen other hOther

/- No duplicate is reported when the names are distinct. -/
theorem duplicateErrors_eq_nil_iff :
    duplicateErrors [] insts = [] ↔ (insts.map Instruction.name).Nodup := by
  simp [duplicateErrors_seen]

/- The loop's verdict is that of the dependency graph. -/
theorem topologicalOrder_length_eq_iff (schedule : ExecutableSchedule)
    (order : HashOrder schedule) :
    (topologicalOrder schedule order).length = schedule.names.length ↔
      Schedulable (dependsOn schedule) schedule.names := by
  have hReverses : Reverses (dependsOn schedule) (reverse (dependsOn schedule)
      order.byName) schedule.names := by
    have hOrder := reverse_reverses (dependsOn schedule)
      (order.byName_perm.nodup_iff.mpr schedule.nodup_names)
    intro dep hDep node
    rw [hOrder dep (order.byName_perm.mem_iff.mpr hDep) node]
    simp only [order.byName_perm.mem_iff]
  exact kahn_length_eq_iff schedule.nodup_names hReverses (order.indegree_perm.filter _)

end Validate

namespace Accepted

open Validate

variable {schedule : ExecutableSchedule}

section

variable (hAccepted : Accepted schedule)

include hAccepted

private theorem structural : duplicateErrors [] schedule.instructions = [] ∧
    (∀ inst ∈ schedule.instructions, instructionErrors schedule inst = []) ∧
    ∃ order : HashOrder schedule, (topologicalOrder schedule order).length =
      schedule.names.length := by
  rcases hAccepted with ⟨order, hNone⟩
  unfold validateSchedule at hNone
  split at hNone
  · simp at hNone
  · next hLength =>
    simp only [append_eq_nil_iff, flatMap_eq_nil_iff] at hNone
    exact ⟨hNone.1.1, hNone.1.2, order, not_not.mp hLength⟩

/- Instruction names are distinct. -/
theorem nodup_names : (schedule.instructions.map Instruction.name).Nodup :=
  (duplicateErrors_eq_nil_iff schedule.instructions).mp hAccepted.structural.1

variable {inst : Instruction}

/- Every dependency names an instruction. -/
theorem known_dependency (hInst : inst ∈ schedule.instructions) {dep : InstructionId}
    (hDep : dep ∈ inst.dependsOn) : ∃ other ∈ schedule.instructions, other.name = dep := by
  have hErrors := hAccepted.structural.2.1 inst hInst
  unfold instructionErrors unknownDependencyErrors at hErrors
  simp only [append_eq_nil_iff, map_eq_nil_iff, filter_eq_nil_iff] at hErrors
  have hSome := hErrors.1.1 dep hDep
  cases hFound : schedule.byName dep with
  | none => simp [hFound] at hSome
  | some other =>
    rcases ExecutableSchedule.byName_eq_some_imp hFound with ⟨hMem, hName⟩
    exact ⟨other, hMem, hName⟩

/- The dependency graph over names has a schedule. -/
theorem schedulable : Schedulable (dependsOn schedule) schedule.names := by
  rcases hAccepted.structural.2.2 with ⟨order, hLength⟩
  exact (topologicalOrder_length_eq_iff schedule order).mp hLength

/- With distinct names, a listed instruction is found. -/
theorem byName_eq (hInst : inst ∈ schedule.instructions) : schedule.byName inst.name = some inst :=
  (ExecutableSchedule.byName_eq_some_iff hAccepted.nodup_names).mpr ⟨hInst, rfl⟩

end

end Accepted

end TensorTorrent
