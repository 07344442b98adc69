import TensorTorrent.Compile.Program

/-
  This file models buffer-reuse planning: the lowering of a
  region program to the portable graph
  (`frontend/lower.py`), alias and liveness analysis
  (`ir/alias.py`, `ir/liveness.py`) and the first-fit
  assignment of activations to slots
  (`runtime/buffer_reuse.py`).

  Main declarations:
    * `planBufferReuse_disjoint`
    * `reuseAssignment_disjoint`
-/

namespace TensorTorrent

open List

----
-- The Portable Graph
----

inductive TensorKind where
| parameter
| activation
| workspace
deriving DecidableEq, Repr

structure TensorMeta where
  tensorId : TensorId
  sizeBytes : Nat
  kind : TensorKind
  mutable : Bool := false
  storageId : Option String := none
  aliasGroup : Option String := none
  viewOf : Option TensorId := none
deriving DecidableEq, Repr

/- What the analyses read of an instruction. -/
structure GraphInstruction where
  inputs : List TensorId := []
  outputs : List TensorId

structure HeterogeneousGraph where
  tensors : List TensorMeta
  instructions : List GraphInstruction
  parameters : List TensorId
  outputs : List TensorId
  stateBindings : List (TensorId × String)

namespace HeterogeneousGraph

def tensor (graph : HeterogeneousGraph) (id : TensorId) : Option TensorMeta :=
  graph.tensors.find? (fun tensor => tensor.tensorId = id)

end HeterogeneousGraph

variable (program : RegionProgram)

def tensorMeta (spec : ValueSpec) : TensorMeta :=
  let storage := program.stateBindings.lookup spec.name
  { tensorId := spec.name, sizeBytes := spec.nbytes
    kind :=
      match spec.kind with
      | .parameter | .buffer | .constant => .parameter
      | .input | .activation => .activation
    storageId := storage, aliasGroup := storage.map ("storage::" ++ ·) }

/- A Load for each state value, a Compute for each region. -/
def irFromRegionProgram : HeterogeneousGraph :=
  { tensors := program.values.map (tensorMeta program)
    instructions :=
      program.stateBindings.map (fun entry => { outputs := [entry.1] }) ++
        program.regions.map (fun region =>
          { inputs := region.inputs, outputs := region.outputs })
    parameters := program.stateBindings.map Prod.fst, outputs := program.graphOutputs
    stateBindings := program.stateBindings }

----
-- Alias Analysis
----

/- `first or second`: an empty text counts as missing. -/
def firstText (first second : Option String) : Option String :=
  if ExecutableSchedule.missing first then
    second.filter (fun text => text ≠ "")
  else first

/- Storage ids and groups while the tensors are analysed. -/
structure AliasState where
  storageId : TensorId → Option String
  groups : List (TensorId × String)

section

variable (graph : HeterogeneousGraph)

section

variable (state : AliasState) (tensor : TensorMeta)

/- Storage of a tensor: a view has that of its source. -/
def storageOf : Option String :=
  let own := firstText (state.storageId tensor.tensorId)
    (graph.stateBindings.lookup tensor.tensorId)
  match firstText tensor.viewOf none with
  | some source =>
    if (graph.tensor source).isSome then firstText (state.storageId source) none else own
  | none => own

def aliasGroupOf : String :=
  match storageOf graph state tensor, firstText tensor.viewOf none with
  | some id, _ => "storage::" ++ id
  | none, some source => "view::" ++ (firstText (state.groups.lookup source) none).getD source
  | none, none => (firstText tensor.aliasGroup none).getD tensor.tensorId

/- A tensor without a storage id is given the one found. -/
def analyseAlias : AliasState :=
  { storageId := Function.update state.storageId tensor.tensorId
      (firstText (state.storageId tensor.tensorId) (storageOf graph state tensor))
    groups := state.groups ++ [(tensor.tensorId, aliasGroupOf graph state tensor)] }

end

/- The analysis after some of the tensors. -/
def aliasState (tensors : List TensorMeta) : AliasState :=
  tensors.foldl (analyseAlias graph)
    { storageId := fun id => (graph.tensor id).bind TensorMeta.storageId
      groups := [] }

def aliasGroups : List (TensorId × String) :=
  (aliasState graph graph.tensors).groups

/- A mutable tensor that shares storage with a parameter. -/
def mutableAliasErrors (groups : List (TensorId × String)) : List String :=
  (graph.tensors.filter TensorMeta.mutable).flatMap (fun tensor =>
    let group := (groups.lookup tensor.tensorId).getD ""
    let siblings := graph.tensors.filter (fun other =>
      other.tensorId ≠ tensor.tensorId ∧ groups.lookup other.tensorId = some group ∧
        other.kind = .parameter)
    siblings.map (fun sibling =>
      "Mutable tensor " ++ tensor.tensorId ++ " aliases parameter/storage group " ++ group ++
        " (also used by " ++ sibling.tensorId ++ "); in-place mutation of shared weights is " ++
        "unsupported"))

/- Alias groups, or the first unsupported mutation. -/
def runAliasAnalysis : Except String (List (TensorId × String)) :=
  let groups := aliasGroups graph
  match mutableAliasErrors graph groups with
  | [] => .ok groups
  | err :: _ => .error err

end

----
-- Liveness
----

/- First definition and last use of a tensor, if any. -/
abbrev Interval := Option Nat × Option Nat

/- The two tables of the analysis. -/
structure LivenessTables where
  produced : TensorId → Option Nat
  lastUse : TensorId → Option Nat

namespace LivenessTables

def empty : LivenessTables :=
  { produced := fun _ => none
    lastUse := fun _ => none }

section

variable (tables : LivenessTables) (tid : TensorId) (index : Nat)

/- `produced.setdefault(tid, index)`. -/
def produceDefault : LivenessTables :=
  { tables with
    produced := Function.update tables.produced tid (some ((tables.produced tid).getD index)) }

/- `last_use[tid] = max(last_use.get(tid, index), index)`. -/
def useAt : LivenessTables :=
  { tables with
    lastUse := Function.update tables.lastUse tid
      (some (max ((tables.lastUse tid).getD index) index)) }

/- `last_use.setdefault(tid, index)`. -/
def useDefault : LivenessTables :=
  { tables with
    lastUse := Function.update tables.lastUse tid (some ((tables.lastUse tid).getD index)) }

end

variable (last : Nat) (graph : HeterogeneousGraph) (index : Nat) (tables : LivenessTables)
variable (tid : TensorId)

def output : LivenessTables :=
  (tables.produceDefault tid index).useAt tid index

/- An input that nothing produced is live from the start. -/
def input : LivenessTables :=
  let used := tables.useAt tid index
  if (graph.tensor tid).isSome then used.produceDefault tid 0
  else used

def instruction (entry : GraphInstruction × Nat) : LivenessTables :=
  entry.1.inputs.foldl (input graph entry.2) (entry.1.outputs.foldl (output entry.2) tables)

/- Graph outputs stay live through the end. -/
def graphOutput : LivenessTables :=
  (tables.useAt tid last).produceDefault tid 0

def parameter : LivenessTables :=
  (tables.produceDefault tid 0).useDefault tid last

end LivenessTables

variable (graph : HeterogeneousGraph)
variable (liveness : TensorId → Interval)
variable (intervals : TensorId → Option Interval)
variable (aliases : Option (List (TensorId × String)))

def livenessTables : LivenessTables :=
  let last := graph.instructions.length - 1
  graph.parameters.foldl (.parameter last) (graph.outputs.foldl (.graphOutput last)
    (graph.instructions.zipIdx.foldl (.instruction graph) .empty))

variable (interval : TensorId → Interval)
variable (plan : BufferReusePlan)
variable (tensor : TensorMeta)
variable (tid : TensorId)

/- `liveness.intervals.get(tid, (None, None))`. -/
def runLivenessAnalysis : Interval :=
  if (graph.tensor tid).isSome then
    ((livenessTables graph).produced tid, (livenessTables graph).lastUse tid)
  else (none, none)

def rangesOverlap : Interval → Interval → Bool
| (some a₀, some a₁), (some b₀, some b₁) => !(a₁ < b₀ || b₁ < a₀)
| _, _ => true

----
-- First Fit
----

/- Tensors of the group of a tensor. -/
def aliasMembers (groups : List (TensorId × String)) (graph : HeterogeneousGraph)
    (tid : TensorId) : List TensorId :=
  match groups.lookup tid with
  | none => []
  | some group =>
    ((groups.filter (fun entry => entry.2 = group ∧ (graph.tensor entry.1).isSome)).map Prod.fst)

/- Live range of a tensor together with other members. -/
def widenedInterval (members : List TensorId) (tid : TensorId) : Interval :=
  let starts := members.filterMap (fun name => (liveness name).1)
  let finishes := members.filterMap (fun name => (liveness name).2)
  if members.length < 2 ∨ tid ∉ members then liveness tid
  else
    match starts.min?, finishes.max? with
    | some start, some finish => (some start, some finish)
    | _, _ => liveness tid

/-
  Live range of a tensor, widened to that of its whole
  alias group. The groups are disjoint, so the loop of the
  source can be read one group at a time.
-/
def effectiveInterval : Interval :=
  widenedInterval liveness ((aliases.map (fun groups => aliasMembers groups graph tid)).getD []) tid

structure BufferSlot where
  slotId : Nat
  capacityBytes : Nat
  assigned : List TensorId
deriving DecidableEq, Repr

structure BufferReusePlan where
  assignment : List (TensorId × Nat)
  slots : List BufferSlot
deriving DecidableEq, Repr

/- Larger tensors first, then by name. -/
def placedBefore (a b : TensorMeta) : Prop :=
  b.sizeBytes < a.sizeBytes ∨ a.sizeBytes = b.sizeBytes ∧ a.tensorId ≤ b.tensorId

instance (a b : TensorMeta) : Decidable (placedBefore a b) :=
  inferInstanceAs (Decidable (_ ∨ _))

def reuseCandidates : List TensorMeta :=
  (graph.tensors.filter (fun tensor =>
    tensor.kind = .activation ∧ !tensor.mutable ∧ 0 < tensor.sizeBytes)).insertionSort placedBefore

/- Is the slot large enough and free during the interval? -/
def BufferSlot.fits (slot : BufferSlot) : Bool :=
  decide (tensor.sizeBytes ≤ slot.capacityBytes) && slot.assigned.all (fun other =>
    !rangesOverlap (interval tensor.tensorId) (interval other))

/- Puts a tensor into the first slot that fits it. -/
def BufferReusePlan.place : BufferReusePlan :=
  match plan.slots.findIdx? (BufferSlot.fits interval tensor)
  with
  | some index =>
    { assignment :=
        (tensor.tensorId, ((plan.slots[index]?).map BufferSlot.slotId).getD 0) :: plan.assignment
      slots := plan.slots.modify index (fun slot =>
        { slot with assigned := slot.assigned ++ [tensor.tensorId] }) }
  | none =>
    { assignment :=
        (tensor.tensorId, plan.slots.length) :: plan.assignment
      slots := plan.slots ++
        [{ slotId := plan.slots.length, capacityBytes := tensor.sizeBytes
           assigned := [tensor.tensorId] }] }

def planBufferReuse : BufferReusePlan :=
  (reuseCandidates graph).foldl (.place (effectiveInterval graph liveness aliases))
    { assignment := [], slots := [] }

/- `saved_bytes` of a plan: what the slots save. -/
def savedBytes : Int :=
  max 0 (((reuseCandidates graph).map TensorMeta.sizeBytes).sum -
    (plan.slots.map BufferSlot.capacityBytes).sum)

/- `intervals.get(tid, (None, None))`. -/
def known : Interval :=
  (intervals tid).getD (none, none)

/- The widened intervals as a dictionary: only a merge adds a key. -/
def effectiveIntervals : Option Interval :=
  let range := effectiveInterval graph (known intervals) aliases tid
  if (intervals tid).isSome ∨ range.1.isSome then some range else none

inductive ReuseError where
| keyError (key : TensorId)
| runtimePlanError (text : String)

/- `intervals[left]` and `intervals[right]` raise for a missing key. -/
def checkPair (slotId : Nat) (left right : TensorId) : Except ReuseError Unit :=
  match intervals left, intervals right with
  | none, _ => .error (.keyError left)
  | _, none => .error (.keyError right)
  | some a, some b =>
    if rangesOverlap a b then
      .error (.runtimePlanError s!"Unsafe buffer reuse in slot {slotId}: {left} overlaps {right}")
    else .ok ()

def checkSlot (intervals : TensorId → Option Interval) (slotId : Nat) :
    List TensorId → Except ReuseError Unit
| [] => .ok ()
| left :: rest => do
  rest.forM (checkPair intervals slotId left)
  checkSlot intervals slotId rest

def assertReuseSafe : Except ReuseError Unit :=
  let entries := plan.assignment.reverse
  (entries.map Prod.snd).eraseDups.forM (fun slotId =>
    checkSlot intervals slotId ((entries.filter (fun entry => entry.2 = slotId)).map Prod.fst))

/- Slot of a tensor, as compiled into the artifact. -/
def reuseAssignment (program : RegionProgram) (tid : TensorId) : Option Nat :=
  let graph := irFromRegionProgram program
  match runAliasAnalysis graph with
  | .error _ => none
  | .ok groups =>
    (planBufferReuse graph (runLivenessAnalysis graph) (some groups)).assignment.lookup tid

----
-- Liveness Facts
----

namespace LivenessTables

variable (tid : TensorId) (index : Nat) (tables : LivenessTables)

/- The tensor is used at this index or later. -/
def UsedUntil : Prop :=
  ∃ finish, tables.lastUse tid = some finish ∧ index ≤ finish

/- The tensor is defined at this index or before. -/
def DefinedBy : Prop :=
  ∃ start, tables.produced tid = some start ∧ start ≤ index

/- Nothing is defined after this index. -/
def BoundedBy : Prop :=
  ∀ tid start, tables.produced tid = some start → start ≤ index

/- A property that no operation on the tables can end. -/
structure Stable (property : LivenessTables → Prop) : Prop where
  produceDefault : ∀ tables tid index, property tables → property (tables.produceDefault tid index)
  useAt : ∀ tables tid index, property tables → property (tables.useAt tid index)
  useDefault : ∀ tables tid index, property tables → property (tables.useDefault tid index)

theorem usedUntil_stable : Stable (UsedUntil tid index) := by
  refine ⟨fun _ _ _ h => h, ?_, ?_⟩
  · rintro tables other at' ⟨finish, hFinish, hLe⟩
    by_cases hSame : tid = other
    · subst hSame
      exact ⟨max finish at', by simp [useAt, hFinish], hLe.trans (le_max_left _ _)⟩
    · exact ⟨finish, by simp [useAt, hSame, hFinish], hLe⟩
  · rintro tables other at' ⟨finish, hFinish, hLe⟩
    by_cases hSame : tid = other
    · subst hSame
      exact ⟨finish, by simp [useDefault, hFinish], hLe⟩
    · exact ⟨finish, by simp [useDefault, hSame, hFinish], hLe⟩

theorem definedBy_stable : Stable (DefinedBy tid index) := by
  refine ⟨?_, fun _ _ _ h => h, fun _ _ _ h => h⟩
  rintro tables other at' ⟨start, hStart, hLe⟩
  by_cases hSame : tid = other
  · subst hSame
    exact ⟨start, by simp [produceDefault, hStart], hLe⟩
  · exact ⟨start, by simp [produceDefault, hSame, hStart], hLe⟩

namespace Stable

variable {property : LivenessTables → Prop} {graph : HeterogeneousGraph} {tables : LivenessTables}

/- A fold of operations that each keep a property. -/
private theorem foldl {α : Type} {step : LivenessTables → α → LivenessTables}
    (hStep : ∀ tables item, property tables → property (step tables item)) (list : List α)
    (hTables : property tables) : property (list.foldl step tables) :=
  foldlRecOn (motive := property) list step hTables (fun tables h item _ => hStep tables item h)

variable (hStable : Stable property)

include hStable

theorem output (index : Nat) (tid : TensorId) (hTables : property tables) :
    property (.output index tables tid) :=
  hStable.useAt _ _ _ (hStable.produceDefault _ _ _ hTables)

theorem input (index : Nat) (tid : TensorId) (hTables : property tables) :
    property (.input graph index tables tid) := by
  have hUsed := hStable.useAt _ tid index hTables
  unfold LivenessTables.input
  split
  · exact hStable.produceDefault _ _ _ hUsed
  · exact hUsed

theorem instruction (entry : GraphInstruction × Nat) (hTables : property tables) :
    property (.instruction graph tables entry) :=
  foldl (fun _ tid h => hStable.input _ tid h) _
    (foldl (fun _ tid h => hStable.output _ tid h) _ hTables)

/- What holds after some instructions holds at the end. -/
theorem livenessTables {before after : List GraphInstruction}
    (hSplit : graph.instructions = before ++ after)
    (hBefore : property (before.zipIdx.foldl (.instruction graph) empty)) :
    property (TensorTorrent.livenessTables graph) := by
  have hAll : property (graph.instructions.zipIdx.foldl (.instruction graph) empty) := by
    rw [hSplit, zipIdx_append, foldl_append]
    exact foldl (fun _ entry h => hStable.instruction entry h) _ hBefore
  refine foldl ?_ _ (foldl ?_ _ hAll)
  · intro tables tid h
    exact hStable.useDefault _ _ _ (hStable.produceDefault _ _ _ h)
  · intro tables tid h
    exact hStable.produceDefault _ _ _ (hStable.useAt _ _ _ h)

end Stable

variable {tables : LivenessTables} {bound index : Nat}

theorem produceDefault_boundedBy (hBounded : BoundedBy bound tables) (tid : TensorId)
    (hIndex : index ≤ bound) : BoundedBy bound (tables.produceDefault tid index) := by
  intro other start hStart
  by_cases hSame : other = tid
  · subst hSame
    cases hProduced : tables.produced other with
    | none =>
      simp [produceDefault, hProduced] at hStart
      omega
    | some old =>
      simp [produceDefault, hProduced] at hStart
      exact hStart ▸ hBounded other old hProduced
  · simp only [produceDefault, Function.update_of_ne hSame] at hStart
    exact hBounded other start hStart

theorem output_boundedBy (hBounded : BoundedBy bound tables) (tid : TensorId) :
    BoundedBy bound (output bound tables tid) :=
  produceDefault_boundedBy hBounded tid le_rfl

theorem instruction_boundedBy (graph : HeterogeneousGraph) (hBounded : BoundedBy bound tables)
    (inst : GraphInstruction) : BoundedBy bound (instruction graph tables (inst, bound)) := by
  refine Stable.foldl ?_ _ (Stable.foldl ?_ _ hBounded)
  · intro tables tid h
    unfold input
    split
    · exact produceDefault_boundedBy h tid (Nat.zero_le _)
    · exact h
  · intro tables tid h
    exact output_boundedBy h tid

theorem BoundedBy.mono {bound' : Nat} (hBounded : BoundedBy bound tables) (hLe : bound ≤ bound') :
    BoundedBy bound' tables :=
  fun tid start hStart => (hBounded tid start hStart).trans hLe

/- A prefix of the instructions defines nothing after it. -/
theorem foldl_boundedBy (graph : HeterogeneousGraph) (insts : List GraphInstruction) :
    BoundedBy insts.length (insts.zipIdx.foldl (instruction graph) empty) := by
  induction insts using List.reverseRecOn with
  | nil =>
    intro tid start hStart
    cases hStart
  | append_singleton insts inst ih =>
    rw [zipIdx_append, foldl_append, length_append]
    simp only [zipIdx_singleton, foldl_cons, Nat.zero_add]
    exact (instruction_boundedBy graph ih inst).mono (Nat.le_add_right _ _)

theorem useAt_usedUntil (tables : LivenessTables) (tid : TensorId) (index : Nat) :
    UsedUntil tid index (tables.useAt tid index) :=
  ⟨max ((tables.lastUse tid).getD index) index, by simp [useAt], le_max_right _ _⟩

theorem output_definedBy (hBounded : BoundedBy index tables) (tid : TensorId) :
    DefinedBy tid index (output index tables tid) := by
  refine ⟨(tables.produced tid).getD index, ?_, ?_⟩
  · simp [output, produceDefault, useAt]
  · cases hProduced : tables.produced tid with
    | none => exact le_rfl
    | some old => exact hBounded tid old hProduced

/-
  A step that establishes a property for one item does so
  in a fold when the other steps keep it.
-/
private theorem foldl_establishes {α : Type} {property : LivenessTables → Prop}
    (invariant : LivenessTables → Prop) {step : LivenessTables → α → LivenessTables}
    (hKeeps : ∀ tables item, property tables → property (step tables item))
    (hInvariant : ∀ tables item, invariant tables → invariant (step tables item)) {item : α}
    (hItem : ∀ tables, invariant tables → property (step tables item)) (list : List α)
    (hMem : item ∈ list) (hTables : invariant tables) : property (list.foldl step tables) := by
  rcases append_of_mem hMem with ⟨front, back, hSplit⟩
  rw [hSplit, foldl_append]
  exact Stable.foldl hKeeps back (hItem _ (Stable.foldl hInvariant front hTables))

end LivenessTables

open LivenessTables

section Facts

variable {graph : HeterogeneousGraph} {before after : List GraphInstruction}
variable {inst : GraphInstruction} {tid : TensorId}

/- The tables right after an instruction. -/
private theorem foldl_snoc (graph : HeterogeneousGraph) (before : List GraphInstruction)
    (inst : GraphInstruction) : (before ++ [inst]).zipIdx.foldl (.instruction graph) empty =
      .instruction graph (before.zipIdx.foldl (.instruction graph) empty)
        (inst, before.length) := by
  rw [zipIdx_append]
  simp

/- An output is live at the index that produces it. -/
theorem livenessTables_output (hSplit : graph.instructions = before ++ inst :: after)
    (hOutput : tid ∈ inst.outputs) : DefinedBy tid before.length (livenessTables graph) ∧
      UsedUntil tid before.length (livenessTables graph) := by
  have hSplit' : graph.instructions = (before ++ [inst]) ++ after := by simpa using hSplit
  have hBounded := foldl_boundedBy graph before
  constructor
  · refine (definedBy_stable tid _).livenessTables hSplit' ?_
    rw [foldl_snoc]
    refine Stable.foldl (fun _ other h => (definedBy_stable tid _).input _ other h) _ ?_
    exact foldl_establishes (BoundedBy before.length) (fun _ other h =>
        (definedBy_stable tid _).output _ other h)
      (fun _ other h => output_boundedBy h other)
      (fun _ h => output_definedBy h tid)
      inst.outputs hOutput hBounded
  · refine (usedUntil_stable tid _).livenessTables hSplit' ?_
    rw [foldl_snoc]
    refine Stable.foldl (fun _ other h => (usedUntil_stable tid _).input _ other h) _ ?_
    exact foldl_establishes (fun _ => True) (fun _ other h =>
        (usedUntil_stable tid _).output _ other h)
      (fun _ _ h => h)
      (fun _ _ => useAt_usedUntil _ _ _)
      inst.outputs hOutput trivial

/- An input is live until the index that reads it. -/
theorem livenessTables_input (hSplit : graph.instructions = before ++ inst :: after)
    (hInput : tid ∈ inst.inputs) : UsedUntil tid before.length (livenessTables graph) := by
  have hSplit' : graph.instructions = (before ++ [inst]) ++ after := by simpa using hSplit
  refine (usedUntil_stable tid _).livenessTables hSplit' ?_
  rw [foldl_snoc]
  refine foldl_establishes (fun _ => True)
    (fun _ other h => (usedUntil_stable tid _).input _ other h)
    (fun _ _ h => h) ?_ inst.inputs hInput trivial
  intro tables _
  have hUsed := useAt_usedUntil tables tid before.length
  unfold LivenessTables.input
  split
  · exact hUsed
  · exact hUsed

/- A graph output is live until the last instruction. -/
theorem livenessTables_graphOutput (hOutput : tid ∈ graph.outputs) :
    UsedUntil tid (graph.instructions.length - 1) (livenessTables graph) := by
  refine Stable.foldl ?_ _ ?_
  · intro tables other h
    exact (usedUntil_stable tid _).useDefault _ _ _ h
  · refine foldl_establishes (fun _ => True) ?_ (fun _ _ h => h) ?_ graph.outputs hOutput trivial
    · intro tables other h
      exact (usedUntil_stable tid _).useAt _ _ _ h
    · intro tables _
      exact useAt_usedUntil _ _ _

end Facts

----
-- Slots Hold Disjoint Intervals
----

/- Two intervals that do not overlap have known ends. -/
theorem rangesOverlap_eq_false {a b : Interval} (hDisjoint : rangesOverlap a b = false) :
    ∃ a₀ a₁ b₀ b₁, a = (some a₀, some a₁) ∧ b = (some b₀, some b₁) ∧ (a₁ < b₀ ∨ b₁ < a₀) := by
  rcases a with ⟨_ | a₀, _ | a₁⟩ <;> rcases b with ⟨_ | b₀, _ | b₁⟩ <;>
    simp [rangesOverlap] at hDisjoint ⊢
  by_cases hLess : a₁ < b₀
  · exact .inl hLess
  · exact .inr (hDisjoint (by omega))

theorem rangesOverlap_comm (a b : Interval) : rangesOverlap a b = rangesOverlap b a := by
  rcases a with ⟨_ | a₀, _ | a₁⟩ <;> rcases b with ⟨_ | b₀, _ | b₁⟩ <;>
    simp [rangesOverlap, Bool.and_comm]

namespace BufferReusePlan

variable {interval : TensorId → Interval}

/- Invariant of the first-fit loop. -/
structure Placed (interval : TensorId → Interval) (plan : BufferReusePlan) : Prop where
  slotIds : ∀ (index : Nat) (slot : BufferSlot), plan.slots[index]? = some slot →
    slot.slotId = index
  disjoint : ∀ (index : Nat) (slot : BufferSlot), plan.slots[index]? = some slot →
    ∀ t ∈ slot.assigned, ∀ u ∈ slot.assigned, t ≠ u →
      rangesOverlap (interval t) (interval u) = false

theorem placed_empty (interval : TensorId → Interval) :
    Placed interval { assignment := [], slots := [] } := by
  constructor <;> simp

variable {plan : BufferReusePlan}

/- What a placement does: the slot at `index` gains the tensor. -/
structure Gains (interval : TensorId → Interval) (tensor : TensorMeta) (index : Nat)
    (slot : BufferSlot) (plan next : BufferReusePlan) : Prop where
  assignment : next.assignment = (tensor.tensorId, index) :: plan.assignment
  others : ∀ i, i ≠ index → next.slots[i]? = plan.slots[i]?
  gained : next.slots[index]? = some { slot with assigned := slot.assigned ++ [tensor.tensorId] }
  fits : slot.fits interval tensor = true
  before : plan.slots[index]? = some slot ∨
    index = plan.slots.length ∧ slot = ⟨index, tensor.sizeBytes, []⟩
  total : (next.slots.map BufferSlot.capacityBytes).sum ≤
    (plan.slots.map BufferSlot.capacityBytes).sum + tensor.sizeBytes

variable {tensor : TensorMeta} {index : Nat} {slot : BufferSlot} {next : BufferReusePlan}

theorem Placed.place_gains (hPlaced : Placed interval plan) (tensor : TensorMeta) :
    ∃ index slot, Gains interval tensor index slot plan (plan.place interval tensor) := by
  unfold BufferReusePlan.place
  cases hFound : plan.slots.findIdx? (BufferSlot.fits interval tensor) with
  | none =>
    refine ⟨plan.slots.length, ⟨plan.slots.length, tensor.sizeBytes, []⟩, ⟨rfl, ?_, ?_, ?_, ?_, ?_⟩⟩
    · grind
    · simp
    · simp [BufferSlot.fits]
    · exact .inr ⟨rfl, rfl⟩
    · simp
  | some index =>
    rcases findIdx?_eq_some_iff_getElem.mp hFound with ⟨hIndex, hFits, _⟩
    have hSlot : plan.slots[index]? = some plan.slots[index] := getElem?_eq_getElem hIndex
    have hId := hPlaced.slotIds index _ hSlot
    refine ⟨index, plan.slots[index], ⟨?_, ?_, ?_, hFits, Or.inl hSlot, ?_⟩⟩
    · simp [hSlot, hId]
    · intro i hNe
      simp [Ne.symm hNe]
    · simp [hSlot]
    · have hSame : (plan.slots.modify index (fun slot => { slot with assigned :=
            slot.assigned ++ [tensor.tensorId] })).map BufferSlot.capacityBytes =
          plan.slots.map BufferSlot.capacityBytes := by
        refine ext_getElem? (fun i => ?_)
        by_cases hAt : index = i <;> cases hOld : plan.slots[i]? <;> simp [hAt, hOld]
      exact hSame ▸ Nat.le_add_right _ _

variable (hGains : Gains interval tensor index slot plan next)

include hGains

theorem Gains.slot_cases {i : Nat} {found : BufferSlot} (hFound : next.slots[i]? = some found) :
    i ≠ index ∧ plan.slots[i]? = some found ∨
      i = index ∧ found = { slot with assigned := slot.assigned ++ [tensor.tensorId] } := by
  by_cases hAt : i = index
  · rw [hAt, hGains.gained] at hFound
    exact .inr ⟨hAt, (Option.some.inj hFound).symm⟩
  · rw [hGains.others i hAt] at hFound
    exact .inl ⟨hAt, hFound⟩

theorem Gains.apart : ∀ other ∈ slot.assigned,
    rangesOverlap (interval tensor.tensorId) (interval other) = false := by
  have hFits := hGains.fits
  simp only [BufferSlot.fits, Bool.and_eq_true, all_eq_true, Bool.not_eq_true'] at hFits
  exact hFits.2

/- A tensor stays in its slot, whose capacity stays. -/
theorem Gains.keeps {i : Nat} {old : BufferSlot} {tid : TensorId} (hOld : plan.slots[i]? = some old)
    (hMem : tid ∈ old.assigned) : ∃ found, next.slots[i]? = some found ∧ tid ∈ found.assigned ∧
      found.capacityBytes = old.capacityBytes := by
  by_cases hAt : i = index
  · subst hAt
    rcases hGains.before with hSlot | ⟨hLength, _⟩
    · obtain rfl : slot = old := by simpa [hSlot] using hOld
      exact ⟨_, hGains.gained, mem_append_left _ hMem, rfl⟩
    · simp [hLength] at hOld
  · exact ⟨old, (hGains.others i hAt).trans hOld, hMem, rfl⟩

/- The step: the slot is old, or it is new and empty. -/
theorem Placed.gains (hPlaced : Placed interval plan) : Placed interval next := by
  have hId : slot.slotId = index := by
    rcases hGains.before with hOld | ⟨_, hNew⟩
    · exact hPlaced.slotIds index slot hOld
    · rw [hNew]
  have hApart : ∀ t ∈ slot.assigned, ∀ u ∈ slot.assigned, t ≠ u →
      rangesOverlap (interval t) (interval u) = false := by
    rcases hGains.before with hOld | ⟨_, hNew⟩
    · exact hPlaced.disjoint index slot hOld
    · simp [hNew]
  constructor
  · intro i found hFound
    rcases hGains.slot_cases hFound with ⟨_, hOld⟩ | ⟨hAt, hNew⟩
    · exact hPlaced.slotIds i found hOld
    · rw [hNew, hAt]
      exact hId
  · intro i found hFound t hT u hU hNe
    rcases hGains.slot_cases hFound with ⟨_, hOld⟩ | ⟨_, hNew⟩
    · exact hPlaced.disjoint i found hOld t hT u hU hNe
    rw [hNew, mem_append, mem_singleton] at hT hU
    rcases hT with hT | hT <;> rcases hU with hU | hU
    · exact hApart t hT u hU hNe
    · rw [hU, rangesOverlap_comm]
      exact hGains.apart t hT
    · rw [hT]
      exact hGains.apart u hU
    · exact absurd (hT.trans hU.symm) hNe

/- The tensors placed so far, each in one slot. -/
structure Covers (done : List TensorMeta) (plan : BufferReusePlan) : Prop where
  keys : plan.assignment.map Prod.fst = (done.map TensorMeta.tensorId).reverse
  held : ∀ entry ∈ plan.assignment, ∃ slot, plan.slots[entry.2]? = some slot ∧
    entry.1 ∈ slot.assigned
  located : ∀ (i : Nat) (slot : BufferSlot), plan.slots[i]? = some slot →
    ∀ tid ∈ slot.assigned, (tid, i) ∈ plan.assignment
  roomy : ∀ tensor ∈ done, ∃ (i : Nat) (slot : BufferSlot), plan.slots[i]? = some slot ∧
    tensor.tensorId ∈ slot.assigned ∧ tensor.sizeBytes ≤ slot.capacityBytes
  total : (plan.slots.map BufferSlot.capacityBytes).sum ≤ (done.map TensorMeta.sizeBytes).sum

variable {done : List TensorMeta} (hCovers : Covers done plan)

include hCovers

theorem Covers.gains : Covers (done ++ [tensor]) next := by
  have hIn : tensor.tensorId ∈ slot.assigned ++ [tensor.tensorId] := by simp
  refine ⟨?_, ?_, ?_, ?_, ?_⟩
  · simp [hGains.assignment, hCovers.keys]
  · rw [hGains.assignment]
    intro entry hEntry
    rcases mem_cons.mp hEntry with rfl | hEntry
    · exact ⟨_, hGains.gained, hIn⟩
    · rcases hCovers.held entry hEntry with ⟨old, hOld, hMem⟩
      rcases hGains.keeps hOld hMem with ⟨found, hFound, hStays, _⟩
      exact ⟨found, hFound, hStays⟩
  · intro i found hFound tid hMem
    rw [hGains.assignment, mem_cons, Prod.mk.injEq]
    rcases hGains.slot_cases hFound with ⟨_, hOld⟩ | ⟨hAt, hNew⟩
    · exact .inr (hCovers.located i found hOld tid hMem)
    rw [hNew, mem_append, mem_singleton] at hMem
    rcases hMem with hMem | hSame
    · rcases hGains.before with hOld | ⟨_, hEmpty⟩
      · exact .inr (hCovers.located i slot (hAt ▸ hOld) tid hMem)
      · simp [hEmpty] at hMem
    · exact .inl ⟨hSame, hAt⟩
  · intro other hOther
    rcases mem_append.mp hOther with hOther | hOther
    · rcases hCovers.roomy other hOther with ⟨i, old, hOld, hMem, hRoom⟩
      rcases hGains.keeps hOld hMem with ⟨found, hFound, hStays, hSame⟩
      exact ⟨i, found, hFound, hStays, hSame ▸ hRoom⟩
    · have hFits := hGains.fits
      simp only [BufferSlot.fits, Bool.and_eq_true, decide_eq_true_eq] at hFits
      rw [mem_singleton.mp hOther]
      exact ⟨index, _, hGains.gained, hIn, hFits.1⟩
  · have hTotal := hGains.total
    have hDone := hCovers.total
    simp only [map_append, sum_append, map_cons, map_nil, sum_singleton]
    omega

omit hGains

variable {slotId : Nat} {tid : TensorId}

theorem Covers.held_lookup (hTid : plan.assignment.lookup tid = some slotId) :
    ∃ slot, plan.slots[slotId]? = some slot ∧ tid ∈ slot.assigned := by
  rcases lookup_eq_some_iff.mp hTid with ⟨before, after, hEntries, -⟩
  exact hCovers.held (tid, slotId) (by simp [hEntries])

theorem Covers.held_filter (hTid : tid ∈ ((plan.assignment.reverse.filter (fun entry =>
      entry.2 = slotId)).map Prod.fst)) :
    ∃ slot, plan.slots[slotId]? = some slot ∧ tid ∈ slot.assigned := by
  rcases mem_map.mp hTid with ⟨entry, hEntry, rfl⟩
  rw [mem_filter, mem_reverse] at hEntry
  rw [← of_decide_eq_true hEntry.2]
  exact hCovers.held entry hEntry.1

omit hCovers

/- The run: the whole loop. -/
theorem foldl_place (tensors : List TensorMeta) : ∀ {done : List TensorMeta}
    {plan : BufferReusePlan}, Placed interval plan → Covers done plan →
      Placed interval (tensors.foldl (.place interval) plan) ∧
        Covers (done ++ tensors) (tensors.foldl (.place interval) plan) := by
  induction tensors with
  | nil =>
    intro done plan hPlaced hCovers
    exact ⟨hPlaced, (append_nil done).symm ▸ hCovers⟩
  | cons tensor tensors ih =>
    intro done plan hPlaced hCovers
    rcases hPlaced.place_gains tensor with ⟨index, slot, hGains⟩
    rw [append_cons]
    exact ih (hPlaced.gains hGains) (hCovers.gains hGains)

end BufferReusePlan

theorem planBufferReuse_covers (graph : HeterogeneousGraph) (liveness : TensorId → Interval)
    (aliases : Option (List (TensorId × String))) :
    BufferReusePlan.Placed (effectiveInterval graph liveness aliases)
        (planBufferReuse graph liveness aliases) ∧
      BufferReusePlan.Covers (reuseCandidates graph) (planBufferReuse graph liveness aliases) := by
  have hEmpty : BufferReusePlan.Covers [] { assignment := [], slots := [] } := by
    constructor <;> simp
  exact BufferReusePlan.foldl_place (reuseCandidates graph) (BufferReusePlan.placed_empty _) hEmpty

variable {graph : HeterogeneousGraph} {liveness : TensorId → Interval}
variable {aliases : Option (List (TensorId × String))} {slotId : Nat}

/- Tensors of one slot have disjoint live ranges. -/
theorem planBufferReuse_disjoint {t u : TensorId}
    (hT : (planBufferReuse graph liveness aliases).assignment.lookup t = some slotId)
    (hU : (planBufferReuse graph liveness aliases).assignment.lookup u = some slotId)
    (hNe : t ≠ u) : rangesOverlap (effectiveInterval graph liveness aliases t)
      (effectiveInterval graph liveness aliases u) = false := by
  have hPlan := planBufferReuse_covers graph liveness aliases
  rcases hPlan.2.held_lookup hT with ⟨slot, hSlot, hMemT⟩
  rcases hPlan.2.held_lookup hU with ⟨other, hOther, hMemU⟩
  rw [hSlot] at hOther
  cases hOther
  exact hPlan.1.disjoint slotId slot hSlot t hMemT u hMemU hNe

----
-- The Checker
----

theorem forM_eq_ok {α ε : Type} {check : α → Except ε Unit} {list : List α}
    (hEach : ∀ item ∈ list, check item = .ok ()) : list.forM check = .ok () := by
  induction list with
  | nil => rfl
  | cons item list ih =>
    rw [List.forM, hEach item mem_cons_self]
    exact ih (fun other hOther => hEach other (mem_cons_of_mem _ hOther))

/- A tensor with unknown ends shares no slot. -/
theorem checkPair_eq_ok {intervals : TensorId → Option Interval} {t u : TensorId}
    (hApart : rangesOverlap (effectiveInterval graph (known intervals) aliases t)
      (effectiveInterval graph (known intervals) aliases u) = false) :
    checkPair (effectiveIntervals graph intervals aliases) slotId t u = .ok () := by
  rcases rangesOverlap_eq_false hApart with ⟨a₀, a₁, b₀, b₁, hA, hB, _⟩
  rw [hA, hB] at hApart
  simp [checkPair, effectiveIntervals, hA, hB, hApart]

theorem checkSlot_eq_ok {intervals : TensorId → Option Interval} {tids : List TensorId}
    (hPairs : tids.Pairwise (fun t u => checkPair intervals slotId t u = .ok ())) :
    checkSlot intervals slotId tids = .ok () := by
  induction hPairs with
  | nil => rfl
  | cons hFirst _ ih =>
    rw [checkSlot, forM_eq_ok hFirst]
    exact ih

variable (hIds : (graph.tensors.map TensorMeta.tensorId).Nodup)

include hIds

theorem nodup_keys (liveness : TensorId → Interval) (aliases : Option (List (TensorId × String))) :
    ((planBufferReuse graph liveness aliases).assignment.map Prod.fst).Nodup := by
  rw [(planBufferReuse_covers graph liveness aliases).2.keys, nodup_reverse]
  refine ((perm_insertionSort _ _).map _).nodup_iff.mpr ?_
  exact hIds.sublist (filter_sublist.map _)

theorem assertReuseSafe_planned (intervals : TensorId → Option Interval) :
    assertReuseSafe (effectiveIntervals graph intervals aliases)
      (planBufferReuse graph (known intervals) aliases) = .ok () := by
  have hPlan := planBufferReuse_covers graph (known intervals) aliases
  refine forM_eq_ok (fun slotId _ => checkSlot_eq_ok ?_)
  have hNodup := nodup_reverse.mpr (nodup_keys hIds (known intervals) aliases)
  rw [← map_reverse] at hNodup
  refine (hNodup.sublist (filter_sublist.map _)).imp_of_mem (fun {t u} hT hU hNe => ?_)
  rcases hPlan.2.held_filter hT with ⟨slot, hSlot, hMemT⟩
  rcases hPlan.2.held_filter hU with ⟨other, hOther, hMemU⟩
  obtain rfl : slot = other := by simpa [hSlot] using hOther
  exact checkPair_eq_ok (hPlan.1.disjoint slotId slot hSlot t hMemT u hMemU hNe)

/-
  Each candidate has one slot, large enough, which it shares
  with no tensor that is live at the same time; the checker
  accepts the plan.
-/
theorem reuse_respects_intervals (intervals : TensorId → Option Interval)
    (aliases : Option (List (TensorId × String))) :
    let plan := planBufferReuse graph (known intervals) aliases
    (∀ tensor ∈ graph.tensors, tensor.kind = .activation → tensor.mutable = false →
        0 < tensor.sizeBytes → ∃ (i : Nat) (slot : BufferSlot), plan.slots[i]? = some slot ∧
          (tensor.tensorId, i) ∈ plan.assignment ∧ tensor.tensorId ∈ slot.assigned ∧
          tensor.sizeBytes ≤ slot.capacityBytes ∧
          ∀ (j : Nat) (other : BufferSlot), plan.slots[j]? = some other →
            tensor.tensorId ∈ other.assigned → j = i) ∧
      (∀ slot ∈ plan.slots, ∀ t ∈ slot.assigned, ∀ u ∈ slot.assigned, t ≠ u →
        rangesOverlap (effectiveInterval graph (known intervals) aliases t)
          (effectiveInterval graph (known intervals) aliases u) = false) ∧
      assertReuseSafe (effectiveIntervals graph intervals aliases) plan = .ok () ∧
      savedBytes graph plan = ((reuseCandidates graph).map TensorMeta.sizeBytes).sum -
        ((plan.slots.map BufferSlot.capacityBytes).sum : Int) := by
  intro plan
  have hPlan : BufferReusePlan.Placed _ plan ∧ BufferReusePlan.Covers _ plan :=
    planBufferReuse_covers graph (known intervals) aliases
  refine ⟨?_, ?_, assertReuseSafe_planned hIds intervals, ?_⟩
  · intro tensor hTensor hKind hFixed hSize
    have hCandidate : tensor ∈ reuseCandidates graph := by
      simp [reuseCandidates, hTensor, hKind, hFixed, hSize]
    rcases hPlan.2.roomy tensor hCandidate with ⟨i, slot, hSlot, hMem, hRoom⟩
    have hEntry := hPlan.2.located i slot hSlot _ hMem
    refine ⟨i, slot, hSlot, hEntry, hMem, hRoom, fun j other hOther hIn => ?_⟩
    have hSame := inj_on_of_nodup_map (nodup_keys hIds _ _) (hPlan.2.located j other hOther _ hIn)
      hEntry rfl
    exact congrArg Prod.snd hSame
  · intro slot hSlot
    rcases mem_iff_getElem?.mp hSlot with ⟨i, hAt⟩
    exact hPlan.1.disjoint i slot hAt
  · have hTotal := hPlan.2.total
    unfold savedBytes
    omega

omit hIds

def twoActivations : HeterogeneousGraph :=
  { tensors := [⟨"x", 8, .activation, false, none, none, none⟩,
      ⟨"y", 4, .activation, false, none, none, none⟩]
    instructions := [], parameters := [], outputs := [], stateBindings := [] }

theorem two_activations_reused : (twoActivations.tensors.map TensorMeta.tensorId).Nodup ∧
    savedBytes twoActivations (planBufferReuse twoActivations (known (fun tid =>
      if tid = "x" then some (some 0, some 1) else some (some 2, some 3))) none) = 4 := by
  have hSaved := (@reuse_respects_intervals twoActivations (by decide) (fun tid =>
    if tid = "x" then some (some 0, some 1) else some (some 2, some 3)) none).2.2.2
  exact ⟨by decide, hSaved.trans (by decide)⟩

----
-- Slots of a Region Program
----

/- A widened range contains the range itself. -/
theorem widenedInterval_cases (liveness : TensorId → Interval) (members : List TensorId)
    (tid : TensorId) : widenedInterval liveness members tid = liveness tid ∨
      ∃ first last, widenedInterval liveness members tid = (some first, some last) ∧
        (∀ start, (liveness tid).1 = some start → first ≤ start) ∧
        ∀ finish, (liveness tid).2 = some finish → finish ≤ last := by
  simp only [widenedInterval]
  split
  · exact .inl rfl
  rename_i hMembers
  have hIn := (not_or.mp hMembers).2
  rw [not_not] at hIn
  split
  · next first last hMin hMax =>
    refine .inr ⟨first, last, rfl, ?_, ?_⟩
    · intro start hStart
      exact (min?_eq_some_iff.mp hMin).2 start (mem_filterMap.mpr ⟨tid, hIn, hStart⟩)
    · intro finish hFinish
      exact (max?_eq_some_iff.mp hMax).2 finish (mem_filterMap.mpr ⟨tid, hIn, hFinish⟩)
  · exact .inl rfl

variable {tid : TensorId}

/- The known ends of a tensor are in the widened range. -/
theorem effectiveInterval_contains {first last : Nat}
    (hRange : effectiveInterval graph liveness aliases tid = (some first, some last)) :
    (∀ start, (liveness tid).1 = some start → first ≤ start) ∧
      ∀ finish, (liveness tid).2 = some finish → finish ≤ last := by
  unfold effectiveInterval at hRange
  rcases widenedInterval_cases liveness _ tid with hSame | ⟨_, _, hEq, hContains⟩
  · rw [← hSame, hRange]
    simp
  · rw [hEq] at hRange
    cases hRange
    exact hContains

/- A tensor the graph does not know has no range. -/
theorem effectiveInterval_unknown (hUnknown : (graph.tensor tid).isSome = false)
    (groups : List (TensorId × String)) :
    effectiveInterval graph (runLivenessAnalysis graph) (some groups) tid = (none, none) := by
  have hNotIn : tid ∉ aliasMembers groups graph tid := by
    unfold aliasMembers
    split
    · simp
    intro hIn
    rcases mem_map.mp hIn with ⟨entry, hEntry, hFst⟩
    have hSome := (mem_filter.mp hEntry).2
    simp [hFst, hUnknown] at hSome
  simp [effectiveInterval, widenedInterval, hNotIn, runLivenessAnalysis, hUnknown]

/-
  Indices over which a tensor of a program is live when the
  regions run in the order they are listed. The Loads of
  the state come first.
-/
structure Spans (program : RegionProgram) (tid : TensorId) (range : Nat × Nat) : Prop where
  produced : ∀ front region back, program.regions = front ++ region :: back → tid ∈ region.outputs →
    range.1 ≤ program.stateBindings.length + front.length ∧
      program.stateBindings.length + front.length ≤ range.2
  read : ∀ front region back, program.regions = front ++ region :: back → tid ∈ region.inputs →
    program.stateBindings.length + front.length ≤ range.2
  returned : tid ∈ program.graphOutputs → ∀ front region back,
    program.regions = front ++ region :: back →
    program.stateBindings.length + front.length ≤ range.2

variable {program : RegionProgram} {region : Region}

/- Position of a region's Compute in the portable graph. -/
private theorem instructions_split {front back : List Region}
    (hSplit : program.regions = front ++ region :: back) :
    ∃ before after, (irFromRegionProgram program).instructions = before ++
          { inputs := region.inputs, outputs := region.outputs } :: after ∧
        before.length = program.stateBindings.length + front.length := by
  refine ⟨program.stateBindings.map (fun entry => { outputs := [entry.1] }) ++
    front.map (fun region =>
      { inputs := region.inputs, outputs := region.outputs }), back.map (fun region =>
    { inputs := region.inputs
      outputs := region.outputs }), ?_, by simp⟩
  simp only [irFromRegionProgram, hSplit, map_append, map_cons, append_assoc]

theorem spans_of_effectiveInterval {groups : List (TensorId × String)} {first last : Nat}
    (hRange : effectiveInterval (irFromRegionProgram program)
      (runLivenessAnalysis (irFromRegionProgram program))
      (some groups) tid = (some first, some last)) : Spans program tid (first, last) := by
  have hKnown : ((irFromRegionProgram program).tensor tid).isSome = true := by
    by_contra hUnknown
    rw [Bool.not_eq_true] at hUnknown
    rw [effectiveInterval_unknown hUnknown groups] at hRange
    cases hRange
  have hTables : runLivenessAnalysis (irFromRegionProgram program) tid =
      ((livenessTables (irFromRegionProgram program)).produced tid,
        (livenessTables (irFromRegionProgram program)).lastUse tid) := by
    rw [runLivenessAnalysis, if_pos hKnown]
  have hContains := effectiveInterval_contains hRange
  have hFirst : ∀ index, DefinedBy tid index (livenessTables (irFromRegionProgram program)) →
      first ≤ index := by
    rintro index ⟨start, hStart, hLe⟩
    exact (hContains.1 start ((congrArg Prod.fst hTables).trans hStart)).trans hLe
  have hLast : ∀ index, UsedUntil tid index (livenessTables (irFromRegionProgram program)) →
      index ≤ last := by
    rintro index ⟨finish, hFinish, hLe⟩
    exact hLe.trans (hContains.2 finish ((congrArg Prod.snd hTables).trans hFinish))
  constructor
  · intro front region back hSplit hOutput
    rcases instructions_split hSplit with ⟨before, after, hInsts, hLength⟩
    have hLive := livenessTables_output hInsts hOutput
    rw [hLength] at hLive
    exact ⟨hFirst _ hLive.1, hLast _ hLive.2⟩
  · intro front region back hSplit hInput
    rcases instructions_split hSplit with ⟨before, after, hInsts, hLength⟩
    have hLive := livenessTables_input hInsts hInput
    rw [hLength] at hLive
    exact hLast _ hLive
  · intro hOutput front region back hSplit
    have hLive : UsedUntil tid ((irFromRegionProgram program).instructions.length - 1)
        (livenessTables (irFromRegionProgram program)) :=
      livenessTables_graphOutput hOutput
    refine le_trans ?_ (hLast _ hLive)
    simp [irFromRegionProgram, hSplit]
    omega

/- Tensors of one slot are never live together in listed order. -/
theorem reuseAssignment_disjoint {t u : TensorId} (hT : reuseAssignment program t = some slotId)
    (hU : reuseAssignment program u = some slotId) (hNe : t ≠ u) :
    ∃ a b, Spans program t a ∧ Spans program u b ∧ (a.2 < b.1 ∨ b.2 < a.1) := by
  unfold reuseAssignment at hT hU
  cases hAlias : runAliasAnalysis (irFromRegionProgram program) with
  | error err => simp [hAlias] at hT
  | ok groups =>
    simp only [hAlias] at hT hU
    rcases rangesOverlap_eq_false (planBufferReuse_disjoint hT hU hNe) with
      ⟨a₀, a₁, b₀, b₁, hA, hB, hApart⟩
    exact ⟨(a₀, a₁), (b₀, b₁), spans_of_effectiveInterval hA, spans_of_effectiveInterval hB, hApart⟩

/- Two outputs of one region never share a slot. -/
theorem reuseAssignment_same_region (hRegion : region ∈ program.regions) {t u : TensorId}
    (hT : t ∈ region.outputs) (hU : u ∈ region.outputs) (hNe : t ≠ u)
    (hSlotT : reuseAssignment program t = some slotId) :
    reuseAssignment program u ≠ some slotId := by
  intro hSlotU
  rcases reuseAssignment_disjoint hSlotT hSlotU hNe with ⟨a, b, hSpanT, hSpanU, hApart⟩
  rcases append_of_mem hRegion with ⟨front, back, hSplit⟩
  have hAtT := hSpanT.produced front region back hSplit hT
  have hAtU := hSpanU.produced front region back hSplit hU
  omega

end TensorTorrent
