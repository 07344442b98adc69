import TensorTorrent.Library.Json
import TensorTorrent.Schedule.Resources

/-
  This file models how an executable schedule is written to
  JSON and read back (`instruction.rs` and `schedule.rs` of
  `tt-ir`, with the code that serde derives). A text is the
  value it stands for, and a map is the list of its entries.

  Main declarations:
    * `ScheduleJson.schedule_json_round_trip_iff`
-/

namespace TensorTorrent

open List

----
-- Maps
----

namespace Json

variable {α : Type} {parse : Json ℚ → Option α} {make : α → Json ℚ} {entries : List (String × α)}

/- Reads a map whose values `parse` accepts. -/
def collect (parse : Json ℚ → Option α) (fields : List (String × Json ℚ)) :
    Option (List (String × α)) :=
  fields.mapM (fun field => (parse field.2).map (fun value => (field.1, value)))

theorem collect_map (hParse : ∀ entry ∈ entries, parse (make entry.2) = some entry.2) :
    collect parse (entries.map (fun entry => (entry.1, make entry.2))) = some entries := by
  induction entries with
  | nil => rfl
  | cons entry entries ih =>
    have hRest := ih (fun other hOther => hParse other (mem_cons_of_mem _ hOther))
    rw [collect] at hRest ⊢
    simp [hParse entry, hRest]

/- One value that does not fit is enough to fail. -/
theorem collect_eq_none {fields : List (String × Json ℚ)} :
    collect parse fields = none ↔ ∃ field ∈ fields, parse field.2 = none := by
  induction fields with
  | nil => simp [collect]
  | cons first fields ih =>
    cases hFirst : parse first.2 with
    | none => simp [collect, hFirst]
    | some value =>
      have hRest : collect parse (first :: fields) =
          (collect parse fields).map ((first.1, value) :: ·) := by
        simp [collect, hFirst, Option.map_eq_bind]
      simp [hRest, ih, hFirst]

end Json

----
-- Attribute Values
----

namespace AttrValue

/- An untagged value is written without its variant. -/
def toJson : AttrValue → Json ℚ
| null => .null
| bool value => .bool value
| int value => .int value
| float value => .float value
| string value => .str value
| intMap entries => .object (entries.map (fun entry => (entry.1, .int entry.2)))
| stringMap entries => .object (entries.map (fun entry => (entry.1, .str entry.2)))
| list values => .list (values.map toJson)
| map entries => .object (entries.map (fun entry => (entry.1, toJson entry.2)))
decreasing_by all_goals (simp_wf; have := sizeOf_lt_of_mem ‹_›; grind)

/- The first variant that fits: `IntMap` comes before
   `StringMap`, and `Map` is last. -/
def ofJson : Json ℚ → AttrValue
| .null => null
| .bool value => bool value
| .int value => int value
| .float value => float value
| .str value => string value
| .list items => list (items.map ofJson)
| .object fields =>
  match Json.collect Json.asInt fields with
  | some entries => intMap entries
  | none =>
    match Json.collect Json.asStr fields with
    | some entries => stringMap entries
    | none => map (fields.map (fun field => (field.1, ofJson field.2)))
decreasing_by all_goals (simp_wf; have := sizeOf_lt_of_mem ‹_›; grind)

/-
  No map, at any depth, also fits a variant before its own:
  a map of strings has an entry, and a general map has a
  value that is no integer and one that is no string.
-/
def Canonical : AttrValue → Prop
| stringMap entries => entries ≠ []
| list values => ∀ value ∈ values, Canonical value
| map entries =>
  (∀ entry ∈ entries, Canonical entry.2) ∧ (∃ entry ∈ entries, ∀ n, entry.2 ≠ int n) ∧
    ∃ entry ∈ entries, ∀ text, entry.2 ≠ string text
| _ => True
decreasing_by all_goals (simp_wf; have := sizeOf_lt_of_mem ‹_›; grind)

theorem asInt_toJson {value : AttrValue} : value.toJson.asInt = none ↔ ∀ n, value ≠ int n := by
  cases value <;> simp [toJson, Json.asInt]

theorem asStr_toJson {value : AttrValue} :
    value.toJson.asStr = none ↔ ∀ text, value ≠ string text := by
  cases value <;> simp [toJson, Json.asStr]

/- Exactly the canonical values are read back. -/
theorem ofJson_toJson (value : AttrValue) : ofJson (toJson value) = value ↔ Canonical value := by
  fun_induction toJson value with
  | case1 | case2 | case3 | case4 | case5 => simp [ofJson, Canonical]
  | case6 entries =>
    rw [ofJson, Json.collect_map (fun _ _ => rfl)]
    simp [Canonical]
  | case7 entries =>
    rw [ofJson, Json.collect_map (fun _ _ => rfl), Canonical]
    cases entries with
    | nil => simp [Json.collect]
    | cons entry rest =>
      rw [Json.collect_eq_none.mpr ⟨_, mem_map_of_mem mem_cons_self, rfl⟩]
      simp
  | case8 values ih =>
    rw [ofJson, Canonical, map_map, list.injEq]
    nth_rewrite 2 [← map_id values]
    rw [map_inj_left]
    exact forall₂_congr ih
  | case9 entries ih =>
    rw [ofJson, Canonical]
    generalize hFields : entries.map (fun entry => (entry.1, toJson entry.2)) = fields
    have hInts : Json.collect Json.asInt fields = none ↔
        ∃ entry ∈ entries, ∀ n, entry.2 ≠ int n := by
      rw [Json.collect_eq_none, ← hFields]
      simp [asInt_toJson]
    have hTexts : Json.collect Json.asStr fields = none ↔
        ∃ entry ∈ entries, ∀ text, entry.2 ≠ string text := by
      rw [Json.collect_eq_none, ← hFields]
      simp [asStr_toJson]
    rw [← hInts, ← hTexts]
    cases Json.collect Json.asInt fields with
    | some ints => simp
    | none =>
      cases Json.collect Json.asStr fields with
      | some texts => simp
      | none =>
        simp only [← hFields, map_map, map.injEq, and_true]
        nth_rewrite 2 [← map_id entries]
        rw [map_inj_left]
        refine forall₂_congr (fun entry hEntry => ?_)
        rw [← ih entry hEntry]
        simp [Prod.ext_iff]

end AttrValue

----
-- Instructions
----

namespace ScheduleJson

def opcodes : List Opcode :=
  [.prefetch, .load, .transfer, .recordEvent, .waitEvent, .compute, .evict, .release]

def tiers : List MemoryTier :=
  [.disk, .systemRam, .pinnedRam, .numaRam, .device, .unknown]

def tierStr : MemoryTier → String
| .disk => "disk"
| .systemRam => "system_ram"
| .pinnedRam => "pinned_ram"
| .numaRam => "numa_ram"
| .device => "device"
| .unknown => "unknown"

/- An instruction with the fields that only labels use. -/
structure Op extends Instruction where
  memoryTier : MemoryTier := .unknown
  backendId : Option String := none
  transferBackend : Option String := none
  syncRequired : Bool := false

/- `skip_serializing_if`: only fields with a value. -/
def written (fields : List (String × Option (Json ℚ))) : List (String × Json ℚ) :=
  fields.filterMap (fun field => field.2.map (fun value => (field.1, value)))

def texts (items : List String) : Json ℚ :=
  .list (items.map .str)

/- `Vec::is_empty`. -/
def unlessEmpty (items : List String) : Option (Json ℚ) :=
  if items = [] then none else some (texts items)

namespace Op

def fields (op : Op) : List (String × Option (Json ℚ)) :=
  [("opcode", some (.str op.opcode.asStr)), ("name", some (.str op.name)),
    ("resource", some (.str op.resource)), ("depends_on", unlessEmpty op.dependsOn),
    ("inputs", unlessEmpty op.inputs), ("outputs", unlessEmpty op.outputs),
    ("nbytes", some (.int op.nbytes)), ("memory_tier", some (.str (tierStr op.memoryTier))),
    ("predicted_duration_s", some (.float op.predictedDurationS)),
    ("executable_ref", op.executableRef.map .str), ("source", op.source.map .str),
    ("destination", op.destination.map .str), ("backend_id", op.backendId.map .str),
    ("transfer_backend", op.transferBackend.map .str),
    ("sync_required", some (.bool op.syncRequired)), ("stream_id", op.streamId.map .str),
    ("copy_engine_id", op.copyEngineId.map .str), ("link_id", op.linkId.map .str),
    ("io_queue_id", op.ioQueueId.map .str), ("attributes",
      if op.attributes.isEmpty then none
      else some (.object (op.attributes.map (fun entry => (entry.1, entry.2.toJson)))))]

def toJson (op : Op) : Json ℚ :=
  .object (written op.fields)

end Op

----
-- Reading
----

section

variable {α : Type} (value : Json ℚ) (key : String)

/- A field without a default. -/
def required (parse : Json ℚ → Option α) : Option α :=
  (value.get key).bind parse

/- `#[serde(default)]`: an absent field has its default. -/
def defaulted (fallback : α) (parse : Json ℚ → Option α) : Option α :=
  match value.get key with
  | none => some fallback
  | some found => parse found

/- `null` reads as no value. -/
def optional : Option (Option String) :=
  defaulted value key none (fun found =>
    match found with
    | .null => some none
    | other => other.asStr.map some)

end

def asTexts (value : Json ℚ) : Option (List String) :=
  value.asList.bind (fun items => items.mapM Json.asStr)

def asNat (value : Json ℚ) : Option Nat :=
  value.asInt.bind (fun n => if 0 ≤ n then some n.toNat else none)

def asFloat : Json ℚ → Option ℚ
| .float value => some value
| .int value => some value
| _ => none

def asBool : Json ℚ → Option Bool
| .bool value => some value
| _ => none

def asOpcode (value : Json ℚ) : Option Opcode :=
  value.asStr.bind (fun text => opcodes.find? (fun opcode => opcode.asStr = text))

def asTier (value : Json ℚ) : Option MemoryTier :=
  value.asStr.bind (fun text => tiers.find? (fun tier => tierStr tier = text))

def asAttributes : Json ℚ → Option (List (String × AttrValue))
| .object fields => some (fields.map (fun field => (field.1, .ofJson field.2)))
| _ => none

def Op.ofJson (value : Json ℚ) : Option Op := do
  let opcode ← required value "opcode" asOpcode
  let name ← required value "name" Json.asStr
  let resource ← required value "resource" Json.asStr
  let dependsOn ← defaulted value "depends_on" [] asTexts
  let inputs ← defaulted value "inputs" [] asTexts
  let outputs ← defaulted value "outputs" [] asTexts
  let nbytes ← defaulted value "nbytes" 0 asNat
  let memoryTier ← defaulted value "memory_tier" .unknown asTier
  let predictedDurationS ← defaulted value "predicted_duration_s" 0 asFloat
  let executableRef ← optional value "executable_ref"
  let source ← optional value "source"
  let destination ← optional value "destination"
  let backendId ← optional value "backend_id"
  let transferBackend ← optional value "transfer_backend"
  let syncRequired ← defaulted value "sync_required" false asBool
  let streamId ← optional value "stream_id"
  let copyEngineId ← optional value "copy_engine_id"
  let linkId ← optional value "link_id"
  let ioQueueId ← optional value "io_queue_id"
  let attributes ← defaulted value "attributes" [] asAttributes
  pure
    { opcode, name, resource, dependsOn, inputs, outputs, nbytes, memoryTier, predictedDurationS
      executableRef, source, destination, backendId, transferBackend, syncRequired, streamId
      copyEngineId, linkId, ioQueueId, attributes }

----
-- Round Trips
----

theorem lookup_written (key name : String) (found : Option (Json ℚ))
    (fields : List (String × Option (Json ℚ))) : (written ((name, found) :: fields)).lookup key =
      if key = name then found.or ((written fields).lookup key)
      else (written fields).lookup key := by
  by_cases hKey : key = name
  · cases found <;> simp [written, hKey]
  · have hNot : (key == name) = false := by simp [hKey]
    cases found <;> simp [written, lookup_cons, hKey, hNot]

variable {key : String} {value : Json ℚ}

theorem asTexts_texts (items : List String) : asTexts (texts items) = some items := by
  induction items with
  | nil => rfl
  | cons item items ih =>
    simp only [asTexts, texts, Json.asList, Option.bind_some] at ih ⊢
    simp [ih, Json.asStr]

theorem defaulted_texts {items : List String} (hGet : value.get key = unlessEmpty items) :
    defaulted value key [] asTexts = some items := by
  rw [defaulted, hGet, unlessEmpty]
  by_cases hEmpty : items = []
  · simp [hEmpty]
  · simp [hEmpty, asTexts_texts]

theorem optional_text {text : Option String} (hGet : value.get key = text.map .str) :
    optional value key = some text := by
  rw [optional, defaulted, hGet]
  cases text <;> rfl

theorem asOpcode_asStr (opcode : Opcode) : asOpcode (.str opcode.asStr) = some opcode := by
  cases opcode <;> decide

theorem asTier_tierStr (tier : MemoryTier) : asTier (.str (tierStr tier)) = some tier := by
  cases tier <;> decide

/- The instruction that is read for a written one. -/
def Op.reread (op : Op) : Op :=
  { op with attributes := op.attributes.map (fun entry => (entry.1, .ofJson entry.2.toJson)) }

theorem Op.reread_eq_self (op : Op) :
    op.reread = op ↔ ∀ entry ∈ op.attributes, entry.2.Canonical := by
  have hSame : op.reread = op ↔ op.attributes.map (fun entry =>
      (entry.1, AttrValue.ofJson entry.2.toJson)) = op.attributes.map id := by
    rw [map_id]
    exact ⟨fun hOp => congrArg (fun op : Op => op.attributes) hOp, fun hAttributes => by
      rw [Op.reread, hAttributes]⟩
  rw [hSame, map_inj_left]
  refine forall₂_congr (fun entry _ => ?_)
  rw [← AttrValue.ofJson_toJson]
  simp [Prod.ext_iff]

theorem defaulted_attributes {attributes : List (String × AttrValue)}
    (hGet : value.get key = if attributes.isEmpty then none
      else some (.object (attributes.map (fun entry => (entry.1, entry.2.toJson))))) :
    defaulted value key [] asAttributes =
      some (attributes.map (fun entry => (entry.1, .ofJson entry.2.toJson))) := by
  rw [defaulted, hGet]
  cases attributes with
  | nil => rfl
  | cons first rest => simp [asAttributes]

theorem Op.ofJson_toJson (op : Op) : Op.ofJson op.toJson = some op.reread := by
  have hGet : ∀ field ∈ op.fields, op.toJson.get field.1 = field.2 := by
    have hNone : ∀ key, (written []).lookup key = none := fun _ => rfl
    simp [Op.fields, Op.toJson, Json.get, lookup_written, hNone]
  simp only [Op.fields, forall_mem_cons] at hGet
  rcases hGet with ⟨hOpcode, hName, hResource, hDepends, hInputs, hOutputs, hNbytes, hTier, hTime,
    hRef, hSource, hDest, hBackend, hTransfer, hSync, hStream, hCopy, hLink, hIo, hAttributes, -⟩
  rw [Op.ofJson]
  simp only [required, hOpcode, hName, hResource, defaulted_texts hDepends, defaulted_texts hInputs,
    defaulted_texts hOutputs, optional_text hRef, optional_text hSource, optional_text hDest,
    optional_text hBackend, optional_text hTransfer, optional_text hStream, optional_text hCopy,
    optional_text hLink, optional_text hIo, defaulted_attributes hAttributes]
  simp [defaulted, hNbytes, hTier, hTime, hSync, asOpcode_asStr, asTier_tierStr, asNat, asFloat,
    asBool, Json.asStr, Json.asInt, Op.reread]

----
-- Schedules
----

/- The executable plan with its labels and notes. -/
structure Schedule where
  graphName : String
  fingerprint : String
  instructions : List Op
  notes : List String

def filled (id : Option String) (fallback : String) : Option String :=
  if ExecutableSchedule.missing id then some fallback else id

def Op.streamSuffix (op : Op) : String :=
  match op.opcode with
  | .compute => "::compute"
  | .transfer | .load | .prefetch => "::copy0"
  | .recordEvent | .waitEvent => "::sync"
  | .evict | .release => "::lifetime"

def Op.explicit (op : Op) : Op :=
  { op with
    streamId := filled op.streamId (op.resource ++ op.streamSuffix)
    copyEngineId :=
      if op.opcode ∈ [.transfer, .load, .prefetch] then
        filled op.copyEngineId (op.resource ++ "::copy0")
      else op.copyEngineId
    linkId :=
      if op.opcode = .transfer then
        filled op.linkId (op.source.getD "unknown" ++ "->" ++ op.destination.getD op.resource)
      else op.linkId
    ioQueueId :=
      if op.opcode ∈ [.prefetch, .load] then filled op.ioQueueId (op.resource ++ "::io0")
      else op.ioQueueId }

namespace Schedule

def ensureExplicitStreams (schedule : Schedule) : Schedule :=
  { schedule with instructions := schedule.instructions.map .explicit }

def new (graphName fingerprint : String) (instructions : List Op) (notes : List String) :
    Schedule :=
  ensureExplicitStreams { graphName, fingerprint, instructions, notes }

def toJson (schedule : Schedule) : Json ℚ :=
  .object [("graph_name", .str schedule.graphName), ("fingerprint", .str schedule.fingerprint),
    ("instructions", .list (schedule.instructions.map Op.toJson)), ("notes", texts schedule.notes)]

def fromJson (value : Json ℚ) : Option Schedule := do
  let graphName ← required value "graph_name" Json.asStr
  let fingerprint ← required value "fingerprint" Json.asStr
  let instructions ← defaulted value "instructions" [] (fun found =>
    found.asList.bind (fun items => items.mapM Op.ofJson))
  let notes ← defaulted value "notes" [] asTexts
  pure (ensureExplicitStreams { graphName, fingerprint, instructions, notes })

end Schedule

theorem filled_filled (id : Option String) (fallback : String) :
    filled (filled id fallback) fallback = filled id fallback := by
  unfold filled
  split <;> simp_all

theorem Op.explicit_explicit (op : Op) : op.explicit.explicit = op.explicit := by
  cases hOpcode : op.opcode <;> simp [Op.explicit, Op.streamSuffix, hOpcode, filled_filled]

theorem Op.explicit_reread (op : Op) : op.reread.explicit = op.explicit.reread :=
  rfl

theorem mapM_ofJson (ops : List Op) :
    (ops.map Op.toJson).mapM Op.ofJson = some (ops.map Op.reread) := by
  induction ops with
  | nil => rfl
  | cons op ops ih => simp [Op.ofJson_toJson, ih]

/-
  A schedule is read back as it was written exactly when no
  map among its attributes fits an earlier variant.
-/
theorem schedule_json_round_trip_iff (graphName fingerprint : String) (ops : List Op)
    (notes : List String) :
    Schedule.fromJson (Schedule.new graphName fingerprint ops notes).toJson =
        some (Schedule.new graphName fingerprint ops notes) ↔
      ∀ op ∈ ops, ∀ entry ∈ op.attributes, entry.2.Canonical := by
  have hRead : Schedule.fromJson (Schedule.new graphName fingerprint ops notes).toJson =
      some { Schedule.new graphName fingerprint ops notes with
        instructions := ops.map (fun op => op.explicit.reread) } := by
    have hOps := mapM_ofJson (ops.map Op.explicit)
    have hTwice : ((ops.map Op.explicit).map Op.reread).map Op.explicit =
        ops.map (fun op => op.explicit.reread) := by
      simp [Op.explicit_reread, Op.explicit_explicit]
    simp only [Schedule.fromJson, Schedule.toJson, Schedule.new, Schedule.ensureExplicitStreams,
      required, defaulted, Json.get]
    simp [-map_map, lookup_cons, Json.asStr, Json.asList, asTexts_texts, hOps, hTwice]
  have hSame : ∀ op : Op, op.explicit.reread = op.explicit ↔
      ∀ entry ∈ op.attributes, entry.2.Canonical :=
    fun op => op.explicit.reread_eq_self
  rw [hRead, Option.some.injEq, Schedule.mk.injEq]
  simp only [Schedule.new, Schedule.ensureExplicitStreams, map_inj_left, hSame, true_and, and_true]

def kernelWith (value : AttrValue) : List Op :=
  [{ opcode := .compute, name := "k", resource := "cpu", attributes := [("sizes", value)] }]

theorem int_map_round_trips :
    Schedule.fromJson (Schedule.new "g" "f" (kernelWith (.intMap [])) []).toJson =
      some (Schedule.new "g" "f" (kernelWith (.intMap [])) []) :=
  (schedule_json_round_trip_iff "g" "f" _ []).mpr (by simp [kernelWith, AttrValue.Canonical])

/- An empty map comes back as a map of integers. -/
theorem empty_map_not_kept :
    Schedule.fromJson (Schedule.new "g" "f" (kernelWith (.map [])) []).toJson ≠
      some (Schedule.new "g" "f" (kernelWith (.map [])) []) := by
  have hRead : AttrValue.ofJson (AttrValue.map []).toJson = .intMap [] := by
    simp [AttrValue.toJson, AttrValue.ofJson, Json.collect]
  simp [kernelWith, Schedule.new, Schedule.ensureExplicitStreams, Schedule.toJson,
    Schedule.fromJson, Op.toJson, Op.fields, Op.explicit, Op.ofJson, required, defaulted, optional,
    written, texts, unlessEmpty, filled, ExecutableSchedule.missing, Json.get, lookup_cons,
    Json.asStr, Json.asInt, Json.asList, asTexts, asNat, asFloat, asBool, asAttributes,
    asOpcode_asStr, asTier_tierStr, hRead]

end ScheduleJson

end TensorTorrent
