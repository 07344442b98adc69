import TensorTorrent.Ir.Ancestors
import TensorTorrent.Library.FirstChoice

/-
  This file says what the verdict of the validator (crate
  `tt-ir`, `validate.rs`) means for the dependency graph,
  and how far it depends on the order in which the hash
  maps are iterated.

  Main declarations:
    * `Validate.accepted_releases_last`
    * `Validate.verdict_steady_iff`
-/

namespace TensorTorrent

open List
open ExecutableSchedule (byName_eq_some_iff byName_eq_some_imp)

namespace Validate

variable {schedule : ExecutableSchedule}

----
-- The Checks as Propositions
----

/- Every other reader of a released tensor precedes it. -/
def ReleasedLast (schedule : ExecutableSchedule) (inst : Instruction) : Prop :=
  ∀ value ∈ inst.inputs, ∀ reader ∈ schedule.instructions,
    value ∈ reader.inputs → reader.name ≠ inst.name → Precedes schedule reader.name inst.name

/- A tensor that regions produce is produced locally. -/
def CopyAvailable (schedule : ExecutableSchedule) (inst : Instruction) (tid : TensorId) : Prop :=
  (∃ p ∈ schedule.instructions, tid ∈ producedTensors p ∧ p.opcode = .compute) →
  ∃ p ∈ schedule.instructions, tid ∈ producedTensors p ∧ producesLocally inst.resource p

/- The checks that do not look at iteration orders. -/
structure FixedChecks (schedule : ExecutableSchedule) : Prop where
  nodup : (schedule.instructions.map Instruction.name).Nodup
  clean : ∀ inst ∈ schedule.instructions, instructionErrors schedule inst = []
  schedulable : Dependency.Schedulable (dependsOn schedule) schedule.names
  waits : ∀ inst ∈ schedule.instructions, inst.opcode = .waitEvent → waitErrors schedule inst = []
  released : ∀ inst ∈ schedule.instructions, inst.opcode = .release → ReleasedLast schedule inst
  copied : ∀ inst ∈ schedule.instructions, inst.opcode = .compute →
    ∀ tid ∈ inst.inputs, CopyAvailable schedule inst tid

/- The inputs of the Compute instructions. -/
def readers (schedule : ExecutableSchedule) : List (Instruction × TensorId) :=
  (schedule.instructions.filter (fun inst => inst.opcode = .compute)).flatMap
    (fun inst => inst.inputs.map (fun tid => (inst, tid)))

theorem mem_readers (key : Instruction × TensorId) :
    key ∈ readers schedule ↔ key.1 ∈ schedule.instructions ∧
      key.1.opcode = .compute ∧ key.2 ∈ key.1.inputs := by
  simp only [readers, mem_flatMap, mem_filter, decide_eq_true_eq, mem_map]
  constructor
  · rintro ⟨inst, ⟨hInst, hOpcode⟩, tid, hTid, rfl⟩
    exact ⟨hInst, hOpcode, hTid⟩
  · rintro ⟨hInst, hOpcode, hTid⟩
    exact ⟨key.1, ⟨hInst, hOpcode⟩, key.2, hTid, rfl⟩

/- Does the instruction under a name complete a copy? -/
def completesAt (schedule : ExecutableSchedule) (tid : TensorId) (dest : ResourceId)
    (name : InstructionId) : Bool :=
  ((schedule.byName name).map (fun inst => completesTransfer inst tid dest)).getD false

section

variable (schedule : ExecutableSchedule) (key : Instruction × TensorId)

/-
  The destination under which the completion of an input is
  looked up: the empty one if none completes at its
  resource.
-/
def completionDest : ResourceId :=
  if schedule.names.any (completesAt schedule key.2 key.1.resource) then
    key.1.resource
  else ""

/- Can this name become the completion of an input? -/
def completes (name : InstructionId) : Bool :=
  completesAt schedule key.2 (completionDest schedule key) name

/- The check of one completion. -/
def CompletionPrecedes (name : InstructionId) : Prop :=
  Precedes schedule name key.1.name

end

/- The first completion in the order is the one looked up. -/
theorem transferCompletionFor_or (order : HashOrder schedule) (key : Instruction × TensorId) :
    (transferCompletionFor schedule order key.2 key.1.resource).or
      (transferCompletionFor schedule order key.2 "") =
    order.byName.find? (completes schedule key) := by
  change (order.byName.find? (completesAt schedule key.2 key.1.resource)).or
      (order.byName.find? (completesAt schedule key.2 "")) =
    order.byName.find? (completesAt schedule key.2 (completionDest schedule key))
  have hAny : schedule.names.any (completesAt schedule key.2 key.1.resource) =
      (order.byName.find? (completesAt schedule key.2 key.1.resource)).isSome := by
    rw [isSome_find?, order.byName_perm.any_eq]
  rw [completionDest, hAny]
  cases hFound : order.byName.find? (completesAt schedule key.2 key.1.resource) with
  | none => simp
  | some found => simp [hFound]

----
-- The Ordering Pass
----

private theorem errorWhen_eq_nil_iff (failed : Bool) (message : String) :
    errorWhen failed message = [] ↔ failed = false := by
  cases failed <;> simp [errorWhen]

section

variable (hNodup : (schedule.instructions.map Instruction.name).Nodup)
variable (order : HashOrder schedule)

include hNodup

private theorem mem_consumersByTensor (value : TensorId) (consumer : InstructionId) :
    consumer ∈ consumersByTensor schedule order value ↔ ∃ reader ∈ schedule.instructions,
      value ∈ reader.inputs ∧ reader.name = consumer := by
  rw [consumersByTensor, mem_flatMap]
  constructor
  · rintro ⟨name, hName, hMem⟩
    split at hMem
    · exact absurd hMem not_mem_nil
    rename_i reader hFound
    rcases mem_map.mp hMem with ⟨tid, hTid, hEq⟩
    rw [mem_filter, decide_eq_true_eq] at hTid
    rcases byName_eq_some_imp hFound with ⟨hReader, hReaderName⟩
    exact ⟨reader, hReader, hTid.2 ▸ hTid.1, hReaderName.trans hEq⟩
  · rintro ⟨reader, hReader, hValue, hName⟩
    refine ⟨consumer, order.byName_perm.mem_iff.mpr
      ((schedule.mem_names consumer).mpr ⟨reader, hReader, hName⟩), ?_⟩
    rw [(byName_eq_some_iff hNodup).mpr ⟨hReader, hName⟩]
    exact mem_map.mpr ⟨value, mem_filter.mpr ⟨hValue, by simp⟩, rfl⟩

private theorem mem_producers (tid : TensorId) (p : Instruction) :
    p ∈ (producersByTensor schedule order tid).filterMap schedule.byName ↔
      p ∈ schedule.instructions ∧ tid ∈ producedTensors p := by
  rw [mem_filterMap]
  constructor
  · rintro ⟨name, hName, hFound⟩
    rcases mem_flatMap.mp hName with ⟨other, -, hMem⟩
    split at hMem
    · exact absurd hMem not_mem_nil
    rename_i inst hOther
    rcases mem_map.mp hMem with ⟨value, hValue, hEq⟩
    rw [mem_filter, decide_eq_true_eq] at hValue
    rw [← hEq, hOther, Option.some.injEq] at hFound
    rw [← hFound]
    exact ⟨(byName_eq_some_imp hOther).1, hValue.2 ▸ hValue.1⟩
  · rintro ⟨hMem, hProduced⟩
    have hFound := (byName_eq_some_iff hNodup).mpr ⟨hMem, rfl⟩
    refine ⟨p.name, mem_flatMap.mpr ⟨p.name, order.byName_perm.mem_iff.mpr
      ((schedule.mem_names _).mpr ⟨p, hMem, rfl⟩), ?_⟩, hFound⟩
    rw [hFound]
    exact mem_map.mpr ⟨tid, mem_filter.mpr ⟨hProduced, by simp⟩, rfl⟩

section

variable {anc : List InstructionId} (inst : Instruction)
variable (hAnc : ∀ a, a ∈ anc ↔ Precedes schedule a inst.name)

include hAnc

private theorem releaseErrors_eq_nil_iff :
    releaseErrors schedule order inst.name inst anc = [] ↔ ReleasedLast schedule inst := by
  simp only [releaseErrors, flatMap_eq_nil_iff, map_eq_nil_iff, filter_eq_nil_iff,
    mem_consumersByTensor hNodup, Bool.and_eq_true, decide_eq_true_eq, hAnc, not_and, not_not]
  constructor
  · intro hNone value hValue reader hReader hReads hOther
    exact hNone value hValue reader.name ⟨reader, hReader, hReads, rfl⟩ hOther
  · rintro hLast value hValue consumer ⟨reader, hReader, hReads, hName⟩ hOther
    rw [← hName] at hOther ⊢
    exact hLast value hValue reader hReader hReads hOther

private theorem computeInputErrors_eq_nil_iff (tid : TensorId) :
    computeInputErrors schedule order inst anc tid = [] ↔ (∀ name,
      order.byName.find? (completes schedule (inst, tid)) = some name →
        CompletionPrecedes schedule (inst, tid) name) ∧ CopyAvailable schedule inst tid := by
  have hCompletion := transferCompletionFor_or order (inst, tid)
  rw [computeInputErrors, append_eq_nil_iff, errorWhen_eq_nil_iff, hCompletion]
  refine and_congr ?_ ?_
  · cases order.byName.find? (completes schedule (inst, tid)) with
    | none => simp
    | some completion => simp [errorWhen_eq_nil_iff, hAnc, CompletionPrecedes]
  · simp only [Bool.and_eq_false_imp, any_eq_true, mem_producers hNodup, decide_eq_true_eq,
      Bool.not_eq_false', CopyAvailable, and_assoc]

end

/- The checks of one instruction in the last pass. -/
def OrderChecked (schedule : ExecutableSchedule) (order : HashOrder schedule)
    (inst : Instruction) : Prop :=
  match inst.opcode with
  | .waitEvent => waitErrors schedule inst = []
  | .release => ReleasedLast schedule inst
  | .compute =>
    ∀ tid ∈ inst.inputs, (∀ name, order.byName.find? (completes schedule (inst, tid)) = some name →
      CompletionPrecedes schedule (inst, tid) name) ∧ CopyAvailable schedule inst tid
  | _ => True

/- One step of the pass, with whatever was cached. -/
private theorem orderingErrors_eq_nil_iff {cache : AncestorCache} (hCache : cache.Sound schedule)
    {inst : Instruction} (hInst : inst ∈ schedule.instructions) :
    ((orderingErrors schedule order inst.name cache).1 = [] ↔ OrderChecked schedule order inst) ∧
    (orderingErrors schedule order inst.name cache).2.Sound schedule := by
  have hAnc := mem_ancestors hCache inst.name
  have hNext := ancestors_sound hCache inst.name
  unfold orderingErrors OrderChecked
  rw [(byName_eq_some_iff hNodup).mpr ⟨hInst, rfl⟩]
  cases hOpcode : inst.opcode with
  | waitEvent => simp [hOpcode, hCache]
  | release =>
    simp only [hOpcode]
    exact ⟨releaseErrors_eq_nil_iff hNodup order inst hAnc, hNext⟩
  | compute =>
    simp only [hOpcode, flatMap_eq_nil_iff,
      computeInputErrors_eq_nil_iff hNodup order inst hAnc, iff_self, true_and]
    exact hNext
  | _ => simp [hOpcode, hCache]

private theorem orderingPass_eq_nil_iff : ∀ (names : List InstructionId) {cache : AncestorCache},
    cache.Sound schedule →
    (∀ name ∈ names, name ∈ schedule.names) → (orderingPass schedule order names cache = [] ↔
      ∀ inst ∈ schedule.instructions, inst.name ∈ names → OrderChecked schedule order inst) := by
  intro names
  induction names with
  | nil => simp [orderingPass]
  | cons name rest ih =>
    intro cache hCache hKnown
    rcases (schedule.mem_names name).mp (hKnown name mem_cons_self) with ⟨inst, hInst, hName⟩
    have hStep := orderingErrors_eq_nil_iff hNodup order hCache hInst
    rw [hName] at hStep
    rw [orderingPass, append_eq_nil_iff, hStep.1, ih hStep.2 (fun other hOther =>
      hKnown other (mem_cons_of_mem _ hOther))]
    constructor
    · rintro ⟨hFirst, hRest⟩ other hOther hMem
      rcases mem_cons.mp hMem with hEq | hTail
      · rwa [inj_on_of_nodup_map hNodup hOther hInst (hEq.trans hName.symm)]
      · exact hRest other hOther hTail
    · intro hAll
      exact ⟨hAll inst hInst (by simp [hName]), fun other hOther hTail =>
        hAll other hOther (mem_cons_of_mem _ hTail)⟩

end

----
-- The Verdict
----

/- Every Compute input gets a completion that precedes it. -/
def CompletionsPrecede (schedule : ExecutableSchedule) (order : List InstructionId) : Prop :=
  FirstChoice.Suits (completes schedule) (CompletionPrecedes schedule) (readers schedule) order

variable (order : HashOrder schedule)

private theorem orderChecked_iff :
    (∀ inst ∈ schedule.instructions, OrderChecked schedule order inst) ↔
    ((∀ inst ∈ schedule.instructions, inst.opcode = .waitEvent → waitErrors schedule inst = []) ∧
      (∀ inst ∈ schedule.instructions, inst.opcode = .release → ReleasedLast schedule inst) ∧
      ∀ inst ∈ schedule.instructions, inst.opcode = .compute → ∀ tid ∈ inst.inputs,
        CopyAvailable schedule inst tid) ∧ CompletionsPrecede schedule order.byName := by
  constructor
  · intro hAll
    refine ⟨⟨?_, ?_, ?_⟩, ?_⟩
    · intro inst hInst hOpcode
      simpa [OrderChecked, hOpcode] using hAll inst hInst
    · intro inst hInst hOpcode
      simpa [OrderChecked, hOpcode] using hAll inst hInst
    · intro inst hInst hOpcode tid hTid
      have hChecked := hAll inst hInst
      simp only [OrderChecked, hOpcode] at hChecked
      exact (hChecked tid hTid).2
    · intro key hKey
      rcases (mem_readers key).mp hKey with ⟨hInst, hOpcode, hTid⟩
      have hChecked := hAll key.1 hInst
      simp only [OrderChecked, hOpcode] at hChecked
      exact (hChecked key.2 hTid).1
  · rintro ⟨⟨hWaits, hReleased, hCopied⟩, hCompleted⟩ inst hInst
    unfold OrderChecked
    split
    · next hOpcode => exact hWaits inst hInst hOpcode
    · next hOpcode => exact hReleased inst hInst hOpcode
    · next hOpcode =>
      intro tid hTid
      exact ⟨hCompleted (inst, tid) ((mem_readers _).mpr ⟨hInst, hOpcode, hTid⟩),
        hCopied inst hInst hOpcode tid hTid⟩
    · trivial

/-
  A schedule passes if it passes the fixed checks and each
  completion that the order chooses precedes its reader.
-/
theorem validateSchedule_eq_nil_iff : validateSchedule schedule order = [] ↔ FixedChecks schedule ∧
    CompletionsPrecede schedule order.byName := by
  have hEmpty : AncestorCache.Sound schedule (fun _ => none) := fun _ _ hHit => nomatch hHit
  have hVerdict := topologicalOrder_length_eq_iff schedule order
  have hMem : ∀ inst ∈ schedule.instructions, inst.name ∈ order.byName := by
    intro inst hInst
    exact order.byName_perm.mem_iff.mpr ((schedule.mem_names _).mpr ⟨inst, hInst, rfl⟩)
  unfold validateSchedule
  constructor
  · intro hNone
    split at hNone
    · simp at hNone
    rename_i hLength
    simp only [append_eq_nil_iff, flatMap_eq_nil_iff] at hNone
    rcases hNone with ⟨⟨hDuplicates, hClean⟩, hPass⟩
    have hNodup := (duplicateErrors_eq_nil_iff _).mp hDuplicates
    rcases (orderChecked_iff order).mp (fun inst hInst =>
        (orderingPass_eq_nil_iff hNodup order _ hEmpty
          (fun _ => order.byName_perm.mem_iff.mp)).mp hPass inst hInst (hMem inst hInst)) with
      ⟨⟨hWaits, hReleased, hCopied⟩, hCompleted⟩
    exact
      ⟨{ nodup := hNodup, clean := hClean, schedulable := hVerdict.mp (not_not.mp hLength)
         waits := hWaits, released := hReleased, copied := hCopied }, hCompleted⟩
  · rintro ⟨hFixed, hCompleted⟩
    rw [if_neg (not_not.mpr (hVerdict.mpr hFixed.schedulable))]
    simp only [append_eq_nil_iff, flatMap_eq_nil_iff]
    refine ⟨⟨(duplicateErrors_eq_nil_iff _).mpr hFixed.nodup, hFixed.clean⟩, ?_⟩
    refine (orderingPass_eq_nil_iff hFixed.nodup order _ hEmpty
      (fun _ => order.byName_perm.mem_iff.mp)).mpr ?_
    intro inst hInst _
    exact (orderChecked_iff order).mpr
      ⟨⟨hFixed.waits, hFixed.released, hFixed.copied⟩, hCompleted⟩ inst hInst

end Validate

----
-- Linear Extensions
----

/- All instructions, each after the ones it lists. -/
def LinearExtension (schedule : ExecutableSchedule) (run : List Instruction) : Prop :=
  run.Perm schedule.instructions ∧ ∀ before inst after, run = before ++ inst :: after →
    ∀ dep ∈ inst.dependsOn, ∃ done ∈ before, done.name = dep

namespace Validate

variable {schedule : ExecutableSchedule}

section

variable (hNodup : (schedule.instructions.map Instruction.name).Nodup)

include hNodup

variable {run : List Instruction}

/- The names of a linear extension respect dependencies. -/
theorem ordered_names (hRun : LinearExtension schedule run) :
    Dependency.Ordered (dependsOn schedule) (run.map Instruction.name) := by
  intro before name after hSplit dep hDep
  rcases map_eq_append_iff.mp hSplit with ⟨front, back, hParts, hFront, hBack⟩
  rcases map_eq_cons_iff.mp hBack with ⟨inst, rest, hRest, hName, -⟩
  rw [hRest] at hParts
  have hMem : inst ∈ schedule.instructions := hRun.1.mem_iff.mp (by simp [hParts])
  rw [dependsOn_of_byName ((byName_eq_some_iff hNodup).mpr ⟨hMem, hName⟩)] at hDep
  rcases hRun.2 front inst rest hParts dep hDep with ⟨done, hDone, hDoneName⟩
  rw [← hFront]
  exact mem_map.mpr ⟨done, hDone, hDoneName⟩

/- The instructions behind an ordering of the names. -/
theorem exists_linearExtension {order : List InstructionId} (hOrderNodup : order.Nodup)
    (hMem : ∀ name, name ∈ order ↔ name ∈ schedule.names)
    (hOrdered : Dependency.Ordered (dependsOn schedule) order) :
    ∃ run, LinearExtension schedule run ∧ run.map Instruction.name = order := by
  have hNames : ∀ names : List InstructionId, (∀ name ∈ names, name ∈ schedule.names) →
      (names.filterMap schedule.byName).map Instruction.name = names := by
    intro names
    induction names with
    | nil => simp
    | cons name rest ih =>
      intro hKnown
      rcases (schedule.mem_names name).mp (hKnown name mem_cons_self) with ⟨inst, hInst, hName⟩
      rw [filterMap_cons_some ((byName_eq_some_iff hNodup).mpr ⟨hInst, hName⟩), map_cons, hName,
        ih (fun other hOther => hKnown other (mem_cons_of_mem _ hOther))]
  let run := order.filterMap schedule.byName
  have hRun : run.map Instruction.name = order := hNames order (fun name => (hMem name).mp)
  refine ⟨run, ⟨?_, ?_⟩, hRun⟩
  · refine (perm_ext_iff_of_nodup (List.Nodup.of_map Instruction.name (hRun ▸ hOrderNodup))
      (List.Nodup.of_map Instruction.name hNodup)).mpr ?_
    intro inst
    rw [mem_filterMap]
    constructor
    · rintro ⟨name, -, hFound⟩
      exact (byName_eq_some_imp hFound).1
    · intro hInst
      exact ⟨inst.name, (hMem _).mpr ((schedule.mem_names _).mpr ⟨inst, hInst, rfl⟩),
        (byName_eq_some_iff hNodup).mpr ⟨hInst, rfl⟩⟩
  · intro before inst after hSplit dep hDep
    have hInst : inst ∈ run := by simp [hSplit]
    rcases mem_filterMap.mp hInst with ⟨name, -, hFound⟩
    have hName := (byName_eq_some_imp hFound).2
    rw [← dependsOn_of_byName hFound, ← hName] at hDep
    have hBefore := hOrdered (before.map Instruction.name) inst.name (after.map Instruction.name)
      (by rw [← hRun, hSplit]; simp) dep hDep
    exact mem_map.mp hBefore

/- What precedes an instruction runs before it. -/
theorem Precedes.before (hRun : LinearExtension schedule run) {before after : List Instruction}
    {inst : Instruction} (hSplit : run = before ++ inst :: after) {name : InstructionId}
    (hPath : Precedes schedule name inst.name) : ∃ done ∈ before, done.name = name := by
  have hMem := (ordered_names hNodup hRun).path_mem hPath (before.map Instruction.name)
    (after.map Instruction.name) (by simp [hSplit])
  exact mem_map.mp hMem

/- With distinct names the two graphs coincide. -/
theorem waits_iff_lists (a b : InstructionId) : Waits schedule a b ↔ Lists schedule a b := by
  constructor
  · rintro ⟨inst, hInst, hName, hDep⟩
    rw [Lists, dependsOn_of_byName ((byName_eq_some_iff hNodup).mpr ⟨hInst, hName⟩)]
    exact hDep
  · intro hLists
    rcases hLists.known with ⟨inst, hFound⟩
    rcases byName_eq_some_imp hFound with ⟨hInst, hName⟩
    rw [Lists, dependsOn_of_byName hFound] at hLists
    exact ⟨inst, hInst, hName, hLists⟩

theorem ancestor_iff_precedes (a b : InstructionId) :
    Ancestor schedule a b ↔ Precedes schedule a b := by
  have hSame : Waits schedule = Lists schedule := by
    funext x y
    exact propext (waits_iff_lists hNodup x y)
  rw [Ancestor, Precedes, hSame]

end

namespace FixedChecks

theorem acyclic (hFixed : FixedChecks schedule) (name : InstructionId) :
    ¬ Ancestor schedule name name := by
  rw [ancestor_iff_precedes hFixed.nodup]
  intro hCycle
  rcases Relation.TransGen.tail'_iff.mp hCycle with ⟨last, -, hEdge⟩
  rcases hEdge.known with ⟨inst, hFound⟩
  refine hFixed.schedulable.acyclic ((schedule.mem_names name).mpr ⟨inst,
    byName_eq_some_imp hFound⟩) hCycle

/- Nothing reads a tensor after its Release. -/
theorem not_read_after (hFixed : FixedChecks schedule) {run : List Instruction}
    (hRun : LinearExtension schedule run) {before after : List Instruction} {release : Instruction}
    (hSplit : run = before ++ release :: after) (hOpcode : release.opcode = .release)
    {value : TensorId} (hValue : value ∈ release.inputs) {reader : Instruction}
    (hReader : reader ∈ after) : value ∉ reader.inputs := by
  intro hReads
  have hMem : ∀ inst ∈ run, inst ∈ schedule.instructions := fun inst => hRun.1.mem_iff.mp
  have hNames : (before.map Instruction.name ++
      release.name :: after.map Instruction.name).Nodup := by
    have hNodup := (hRun.1.map Instruction.name).nodup_iff.mpr hFixed.nodup
    simpa [hSplit] using hNodup
  have hReaderName : reader.name ∈ after.map Instruction.name := mem_map_of_mem hReader
  rw [nodup_append, nodup_cons] at hNames
  have hOther : reader.name ≠ release.name := fun hEq => hNames.2.1.1 (hEq ▸ hReaderName)
  have hPath := hFixed.released release (hMem _ (by simp [hSplit])) hOpcode
    value hValue reader (hMem _ (by simp [hSplit, hReader]))
    hReads hOther
  rcases hPath.before hFixed.nodup hRun hSplit with ⟨done, hDone, hName⟩
  exact hNames.2.2 done.name (mem_map_of_mem hDone)
    reader.name (mem_cons_of_mem _ hReaderName) hName

end FixedChecks

/-
  Accepted schedules are acyclic graphs of distinct names
  in which every tensor is released last, whatever linear
  extension runs. Schedules that are no such graph are
  rejected.
-/
theorem accepted_releases_last (schedule : ExecutableSchedule) (order : HashOrder schedule) :
    (validateSchedule schedule order = [] → (schedule.instructions.map Instruction.name).Nodup ∧
      (∀ inst ∈ schedule.instructions, ∀ dep ∈ inst.dependsOn,
        ∃ other ∈ schedule.instructions, other.name = dep) ∧
      (∀ name, ¬ Ancestor schedule name name) ∧
      ∀ run, LinearExtension schedule run → ∀ before release after,
        run = before ++ release :: after → release.opcode = .release →
        ∀ value ∈ release.inputs, ∀ reader ∈ after, value ∉ reader.inputs) ∧
    ((∃ name, Ancestor schedule name name) ∨ ¬ (schedule.instructions.map Instruction.name).Nodup ∨
      (∃ inst ∈ schedule.instructions, ∃ dep ∈ inst.dependsOn,
        ∀ other ∈ schedule.instructions, other.name ≠ dep) →
      validateSchedule schedule order ≠ []) := by
  constructor
  · intro hAccepted
    have hFixed := ((validateSchedule_eq_nil_iff order).mp hAccepted).1
    exact ⟨hFixed.nodup, fun inst hInst dep hDep =>
        Accepted.known_dependency ⟨order, hAccepted⟩ hInst hDep,
      hFixed.acyclic,
      fun run hRun before release after hSplit hOpcode value hValue reader hReader =>
        hFixed.not_read_after hRun hSplit hOpcode hValue hReader⟩
  · intro hDefect hAccepted
    have hFixed := ((validateSchedule_eq_nil_iff order).mp hAccepted).1
    rcases hDefect with ⟨name, hCycle⟩ | hRepeated | ⟨inst, hInst, dep, hDep, hUnknown⟩
    · exact hFixed.acyclic name hCycle
    · exact hRepeated hFixed.nodup
    · rcases Accepted.known_dependency ⟨order, hAccepted⟩ hInst hDep with ⟨other, hOther, hName⟩
      exact hUnknown other hOther hName

/- One region and the Release of what it reads. -/
def releaseAfterRead : ExecutableSchedule :=
  { instructions :=
    [{ opcode := .compute, name := "compute::A", resource := "cpu", inputs := ["x"]
       outputs := ["y"], executableRef := some "A", streamId := some "cpu::compute" },
     { opcode := .release, name := "release::x", resource := "cpu", dependsOn := ["compute::A"]
       inputs := ["x"] }] }

theorem release_after_read_accepted : validateSchedule releaseAfterRead (.listed _) = [] ∧
    ∀ run, LinearExtension releaseAfterRead run → ∀ before release after,
      run = before ++ release :: after → release.opcode = .release →
      ∀ value ∈ release.inputs, ∀ reader ∈ after, value ∉ reader.inputs :=
  have hAccepted : validateSchedule releaseAfterRead (.listed _) = [] := by decide
  ⟨hAccepted, ((accepted_releases_last releaseAfterRead (HashOrder.listed _)).1 hAccepted).2.2.2⟩

----
-- Dependence on the Order
----

variable {other : ExecutableSchedule}

section

variable (hPerm : other.instructions.Perm schedule.instructions)

include hPerm

private theorem names_perm : other.names.Perm schedule.names :=
  (hPerm.map Instruction.name).dedup

section

variable (hNodup : (schedule.instructions.map Instruction.name).Nodup)

include hNodup

/- The same instructions in another order. -/
private theorem byName_perm : other.byName = schedule.byName := by
  have hOther : (other.instructions.map Instruction.name).Nodup :=
    (hPerm.map Instruction.name).nodup_iff.mpr hNodup
  funext name
  refine Option.ext fun inst => ?_
  rw [byName_eq_some_iff hOther, byName_eq_some_iff hNodup, hPerm.mem_iff]

private theorem dependsOn_perm : dependsOn other = dependsOn schedule := by
  funext name
  rw [dependsOn, dependsOn, byName_perm hPerm hNodup]

private theorem precedes_perm : Precedes other = Precedes schedule := by
  have hLists : Lists other = Lists schedule := by
    funext a b
    rw [Lists, Lists, dependsOn_perm hPerm hNodup]
  rw [Precedes, Precedes, hLists]

private theorem waitErrors_perm (inst : Instruction) :
    waitErrors other inst = waitErrors schedule inst := by
  have hRecorded : ∀ name, name ∈ recordedEvents other ↔ name ∈ recordedEvents schedule := by
    intro name
    simp only [recordedEvents, mem_map, mem_filter, hPerm.mem_iff]
  unfold waitErrors waitsFor
  simp only [byName_perm hPerm hNodup, hRecorded]

private theorem completes_perm : completes other = completes schedule := by
  have hAt : completesAt other = completesAt schedule := by
    funext tid dest name
    rw [completesAt, completesAt, byName_perm hPerm hNodup]
  funext key name
  rw [completes, completes, completionDest, completionDest, hAt, (names_perm hPerm).any_eq]

private theorem completionsPrecede_perm (order : List InstructionId) :
    CompletionsPrecede other order ↔ CompletionsPrecede schedule order := by
  have hReaders : ∀ key, key ∈ readers other ↔ key ∈ readers schedule := by
    intro key
    rw [mem_readers, mem_readers, hPerm.mem_iff]
  unfold CompletionsPrecede FirstChoice.Suits CompletionPrecedes
  simp only [hReaders, completes_perm hPerm hNodup, precedes_perm hPerm hNodup]

end

private theorem fixedChecks_perm (hFixed : FixedChecks schedule) : FixedChecks other := by
  have hNodup := hFixed.nodup
  have hBy := byName_perm hPerm hNodup
  refine
    { nodup :=
        (hPerm.map Instruction.name).nodup_iff.mpr hNodup
      clean := ?_, schedulable := ?_, waits := ?_, released := ?_, copied := ?_ }
  · intro inst hInst
    have hClean := hFixed.clean inst (hPerm.mem_iff.mp hInst)
    unfold instructionErrors unknownDependencyErrors at *
    rwa [hBy]
  · rcases hFixed.schedulable with ⟨order, hOrderNodup, hMem, hOrdered⟩
    rw [dependsOn_perm hPerm hNodup]
    exact ⟨order, hOrderNodup, fun name =>
      (hMem name).trans (names_perm hPerm).mem_iff.symm,
      hOrdered⟩
  · intro inst hInst hOpcode
    rw [waitErrors_perm hPerm hNodup]
    exact hFixed.waits inst (hPerm.mem_iff.mp hInst) hOpcode
  · intro inst hInst hOpcode value hValue reader hReader
    rw [precedes_perm hPerm hNodup]
    exact hFixed.released inst (hPerm.mem_iff.mp hInst) hOpcode
      value hValue reader (hPerm.mem_iff.mp hReader)
  · intro inst hInst hOpcode tid hTid
    have hCopied := hFixed.copied inst (hPerm.mem_iff.mp hInst) hOpcode tid hTid
    unfold CopyAvailable at hCopied ⊢
    simpa only [hPerm.mem_iff] using hCopied

/- Acceptance of any arrangement of the instructions. -/
private theorem arrangement_accepted_iff (order : HashOrder other) :
    validateSchedule other order = [] ↔ FixedChecks schedule ∧
      CompletionsPrecede schedule order.byName := by
  rw [validateSchedule_eq_nil_iff]
  constructor
  · rintro ⟨hFixed, hCompleted⟩
    have hSame := fixedChecks_perm hPerm.symm hFixed
    exact ⟨hSame, (completionsPrecede_perm hPerm hSame.nodup _).mp hCompleted⟩
  · rintro ⟨hFixed, hCompleted⟩
    exact ⟨fixedChecks_perm hPerm hFixed,
      (completionsPrecede_perm hPerm hFixed.nodup _).mpr hCompleted⟩

end

/-
  When the order cannot matter: a fixed check fails, or all
  completions of Compute inputs precede their readers, or
  some Compute inputs have only completions that fail one
  of them.
-/
def Steady (schedule : ExecutableSchedule) : Prop :=
  ¬ FixedChecks schedule ∨ (∀ key ∈ readers schedule, ∀ name ∈ schedule.names,
      completes schedule key name → CompletionPrecedes schedule key name) ∨
    ∃ part : List (Instruction × TensorId), part ⊆ readers schedule ∧
      FirstChoice.Stuck (completes schedule) (CompletionPrecedes schedule) schedule.names part

/-
  The verdict is the same for every order of the hash maps
  and of the instructions exactly for steady schedules.
-/
theorem verdict_steady_iff (schedule : ExecutableSchedule) :
    (∀ other : ExecutableSchedule, other.instructions.Perm schedule.instructions →
      ∀ (order : HashOrder schedule) (otherOrder : HashOrder other),
        validateSchedule schedule order = [] ↔ validateSchedule other otherOrder = []) ↔
    Steady schedule := by
  constructor
  · intro hSame
    by_contra hUnsteady
    simp only [Steady, not_or, not_not, not_exists, not_and] at hUnsteady
    rcases hUnsteady with ⟨hFixed, hBad, hFree⟩
    rcases (FirstChoice.exists_suits_iff schedule.nodup_names).mpr hFree with
      ⟨order, hOrder, hSuits⟩
    refine hBad (FirstChoice.forall_suits_iff.mp ?_)
    intro second hSecond
    have hAccepted := (validateSchedule_eq_nil_iff (.ofNames order hOrder)).mpr ⟨hFixed, hSuits⟩
    rw [hSame schedule (List.Perm.refl _) _ (HashOrder.ofNames second hSecond),
      validateSchedule_eq_nil_iff] at hAccepted
    exact hAccepted.2
  · intro hSteady other hPerm order otherOrder
    have hOther : otherOrder.byName.Perm schedule.names :=
      otherOrder.byName_perm.trans (names_perm hPerm)
    rw [validateSchedule_eq_nil_iff, arrangement_accepted_iff hPerm]
    refine and_congr_right fun hFixed => ?_
    rcases hSteady with hFails | hAll | ⟨part, hPart, hStuck⟩
    · exact absurd hFixed hFails
    · have hEvery := FirstChoice.forall_suits_iff.mpr hAll
      exact iff_of_true (hEvery _ order.byName_perm) (hEvery _ hOther)
    have hNever : ∀ names : List InstructionId, names.Perm schedule.names →
        ¬ CompletionsPrecede schedule names :=
      fun names hNames hSuits => hStuck.not_suits hNames (fun key hKey => hSuits key (hPart hKey))
    exact iff_of_false (hNever _ order.byName_perm) (hNever _ hOther)

/- A Transfer of the input of region A to its device. -/
def copyToDevice (name : InstructionId) (dependsOn : List InstructionId) : Instruction :=
  { opcode := .transfer, name := name, resource := "cuda_0", dependsOn := dependsOn, inputs := ["x"]
    source := some "cpu", destination := some "cuda_0", streamId := some "cuda_0::copy0"
    copyEngineId := some "cuda_0::copy0", linkId := some "cpu->cuda_0" }

def computeOnDevice (dependsOn : List InstructionId) : Instruction :=
  { opcode := .compute, name := "compute::A", resource := "cuda_0", dependsOn := dependsOn
    inputs := ["x"], outputs := ["y"], executableRef := some "A"
    streamId := some "cuda_0::compute" }

/- A region that waits for both Transfers of its input. -/
def bothCopiesBefore : ExecutableSchedule :=
  { instructions :=
    [copyToDevice "transfer::1" [], copyToDevice "transfer::2" [],
     computeOnDevice ["transfer::1", "transfer::2"]] }

theorem both_copies_before_steady :
    ∀ other : ExecutableSchedule, other.instructions.Perm bothCopiesBefore.instructions →
      ∀ (order : HashOrder bothCopiesBefore) (otherOrder : HashOrder other),
        validateSchedule bothCopiesBefore order = [] ↔ validateSchedule other otherOrder = [] :=
  have hListed : ∀ key ∈ readers bothCopiesBefore,
      ∀ name ∈ bothCopiesBefore.names, completes bothCopiesBefore key name →
        name ∈ dependsOn bothCopiesBefore key.1.name := by
    decide
  (verdict_steady_iff bothCopiesBefore).mpr (Or.inr (Or.inl (fun key hKey name hName hCompletes =>
    Relation.TransGen.single (hListed key hKey name hName hCompletes))))

/-
  A region that waits for the first of two Transfers, the
  second of which follows it.
-/
def copiedTwice : ExecutableSchedule :=
  { instructions :=
    [copyToDevice "transfer::1" [], computeOnDevice ["transfer::1"],
     copyToDevice "transfer::2" ["compute::A"]] }

/- The map yields the second Transfer first. -/
def secondCopyFirst : HashOrder copiedTwice :=
  .ofNames ["transfer::2", "compute::A", "transfer::1"] (by decide)

theorem copied_twice_accepted_or_rejected :
    validateSchedule copiedTwice (.listed copiedTwice) = [] ∧
      validateSchedule copiedTwice secondCopyFirst =
        ["compute \"compute::A\" reads \"x\" without " ++ "depending on transfer completion " ++
          "\"transfer::2\""] := by
  decide

end Validate

end TensorTorrent
