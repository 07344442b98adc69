import Mathlib.Tactic

/-
  This file defines the executable schedule that planner,
  simulator and runtime share (crate `tt-ir`: `opcode.rs`,
  `instruction.rs`, `schedule.rs`).

  Wall-clock figures are left out of the model, and so are
  the instruction fields that no modelled function reads
  (`memory_tier`, `backend_id`, `transfer_backend`,
  `sync_required`).

  Key definitions include:
    * `Opcode`
    * `AttrValue`
    * `Instruction`
    * `Instruction.tensorNbytes`
    * `ExecutableSchedule`
    * `Ancestor`
-/

namespace TensorTorrent

----
-- Identifiers
----

abbrev InstructionId := String
abbrev TensorId := String
abbrev ResourceId := String
abbrev RegionId := String
abbrev StreamId := String
abbrev AllocationId := String

instance : LawfulBEq (TensorId × ResourceId) := inferInstance

namespace Text

/- `text.contains(pattern)`. -/
def contains (text pattern : String) : Bool :=
  decide (pattern.toList <:+: text.toList)

/-
  Lower case of one character. Two characters outside ASCII
  lower to text that starts with an ASCII letter; the rest
  of the non-ASCII range cannot create an ASCII pattern.
-/
def lowerChar (c : Char) : List Char :=
  if c.toNat = 0x212A then ['k']
  else if c.toNat = 0x130 then ['i', Char.ofNat 0x307]
  else [c.toLower]

/- `text.to_lowercase()`, as the list of its characters. -/
def lower (text : String) : List Char :=
  text.toList.flatMap lowerChar

/- `text.to_lowercase().contains(pattern)`. -/
def lowerContains (text pattern : String) : Bool :=
  decide (pattern.toList <:+: lower text)

/-
  `{:?}` of a string, for strings without characters that
  Rust escapes.
-/
def debug (text : String) : String :=
  "\"" ++ text ++ "\""

end Text

----
-- Opcodes and Attributes
----

inductive Opcode where
| prefetch
| load
| transfer
| recordEvent
| waitEvent
| compute
| evict
| release
deriving DecidableEq, Repr

/- Display and debug text of an opcode coincide. -/
def Opcode.asStr : Opcode → String
| .prefetch => "Prefetch"
| .load => "Load"
| .transfer => "Transfer"
| .recordEvent => "RecordEvent"
| .waitEvent => "WaitEvent"
| .compute => "Compute"
| .evict => "Evict"
| .release => "Release"

/-
  JSON-compatible attribute value. Floats are rationals:
  the modelled functions only compare and truncate them.
-/
inductive AttrValue where
| null
| bool (value : Bool)
| int (value : Int)
| float (value : ℚ)
| string (value : String)
| intMap (entries : List (String × Int))
| stringMap (entries : List (String × String))
| list (values : List AttrValue)
| map (entries : List (String × AttrValue))

namespace AttrValue

def asStr : AttrValue → Option String
| string value => some value
| _ => none

/- A float is truncated towards zero. -/
def asI64 : AttrValue → Option Int
| int value => some value
| float value => some (value.num.tdiv value.den)
| _ => none

def asBool : AttrValue → Option Bool
| bool value => some value
| _ => none

end AttrValue

----
-- Instructions
----

/- One immutable scheduled operation. -/
structure Instruction where
  opcode : Opcode
  name : InstructionId
  resource : ResourceId
  dependsOn : List InstructionId := []
  inputs : List TensorId := []
  outputs : List TensorId := []
  nbytes : Nat := 0
  predictedDurationS : ℚ := 0
  executableRef : Option RegionId := none
  source : Option ResourceId := none
  destination : Option ResourceId := none
  streamId : Option StreamId := none
  copyEngineId : Option String := none
  linkId : Option String := none
  ioQueueId : Option String := none
  attributes : List (String × AttrValue) := []

namespace Instruction

section

variable (inst : Instruction) (key : String)

def attr : Option AttrValue :=
  inst.attributes.lookup key

def attrStr : Option String :=
  (inst.attr key).bind AttrValue.asStr

def attrBool : Option Bool :=
  (inst.attr key).bind AttrValue.asBool

end

section

variable (inst : Instruction)

/- `inst.attr_str("kind").unwrap_or("")`. -/
def kind : String :=
  (inst.attrStr "kind").getD ""

/-
  Exact sizes per tensor. `output_bytes` is only read when
  `tensor_nbytes` is absent.
-/
def tensorNbytes : List (String × Nat) :=
  match (inst.attr "tensor_nbytes").or (inst.attr "output_bytes") with
  | some (.intMap entries) => entries.map (fun entry => (entry.1, entry.2.toNat))
  | some (.map entries) =>
    entries.filterMap (fun entry => entry.2.asI64.map (fun n => (entry.1, n.toNat)))
  | _ => []

/- Tensors an instruction writes, then those it reads. -/
def outputsThenInputs : List TensorId :=
  inst.outputs ++ inst.inputs

def inputsThenOutputs : List TensorId :=
  inst.inputs ++ inst.outputs

/- Destination of a copy, the resource itself by default. -/
def dest : ResourceId :=
  inst.destination.getD inst.resource

end

end Instruction

----
-- Schedules
----

/- The executable plan, without its labels and notes. -/
structure ExecutableSchedule where
  instructions : List Instruction

namespace ExecutableSchedule

/- Distinct instruction names: the keys of `by_name`. -/
def names (schedule : ExecutableSchedule) : List InstructionId :=
  (schedule.instructions.map Instruction.name).dedup

/- `by_name.get(name)`: the first instruction so named. -/
def byName (schedule : ExecutableSchedule) (name : InstructionId) : Option Instruction :=
  schedule.instructions.find? (fun inst => inst.name = name)

/- `s.map(|s| s.is_empty()).unwrap_or(true)`. -/
def missing (id : Option String) : Bool :=
  id.getD "" = ""

theorem nodup_names (schedule : ExecutableSchedule) : schedule.names.Nodup :=
  List.nodup_dedup _

theorem names_perm (schedule : ExecutableSchedule) : schedule.names.Perm schedule.names :=
  .refl _

theorem mem_names (schedule : ExecutableSchedule) (name : InstructionId) :
    name ∈ schedule.names ↔ ∃ inst ∈ schedule.instructions, inst.name = name := by
  simp [names]

variable {schedule : ExecutableSchedule} {name : InstructionId} {inst : Instruction}

theorem byName_eq_some_imp (hFound : schedule.byName name = some inst) :
    inst ∈ schedule.instructions ∧ inst.name = name := by
  have hName := List.find?_some hFound
  exact ⟨List.mem_of_find?_eq_some hFound, by simpa using hName⟩

/- With distinct names, a listed instruction is found. -/
theorem byName_eq_some_iff (hNodup : (schedule.instructions.map Instruction.name).Nodup) :
    schedule.byName name = some inst ↔ inst ∈ schedule.instructions ∧ inst.name = name := by
  constructor
  · exact byName_eq_some_imp
  · rintro ⟨hMem, hName⟩
    cases hFound : schedule.byName name with
    | none =>
      have hNone := List.find?_eq_none.mp hFound inst hMem
      simp [hName] at hNone
    | some other =>
      rcases byName_eq_some_imp hFound with ⟨hOther, hOtherName⟩
      rw [List.inj_on_of_nodup_map hNodup hOther hMem (hOtherName.trans hName.symm)]

end ExecutableSchedule

----
-- Order of a Schedule
----

variable (schedule : ExecutableSchedule)

/- Does an instruction named `b` list `a`? -/
def Waits (a b : InstructionId) : Prop :=
  ∃ inst ∈ schedule.instructions, inst.name = b ∧ a ∈ inst.dependsOn

instance (schedule : ExecutableSchedule)
    (a b : InstructionId) : Decidable (Waits schedule a b) :=
  inferInstanceAs (Decidable (∃ inst ∈ _, _))

/- `a` comes before `b` in every run of the schedule. -/
def Ancestor : InstructionId → InstructionId → Prop :=
  Relation.TransGen (Waits schedule)

end TensorTorrent
