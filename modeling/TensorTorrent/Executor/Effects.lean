import TensorTorrent.Executor.Instruction
import TensorTorrent.Memory.Copies

/-
  This file says what an instruction does to the set of
  valid copies and what it reads, and connects that with the
  commands of the executor.

  Main declarations:
    * `Effects.releaseTensors_effect`
    * `Effects.spillTensor_effect`
-/

namespace TensorTorrent

open ResidencyStore

open Command (Triple)
open List
open Function (update update_eq_self update_idem)

namespace Effects

----
-- Execution in List Order
----

variable (copies : Copies) (inst : Instruction)

/- Tensors whose copies an instruction changes. -/
def touched : List TensorId :=
  match inst.opcode with
  | .compute => inst.outputs
  | .load =>
    if inst.kind = "activation_reload" then inst.inputs
    else inst.outputsThenInputs
  | .prefetch =>
    if inst.kind = "activation_reload" then inst.inputs
    else []
  | .transfer => inst.outputsThenInputs.eraseDups
  | .evict | .release => inst.inputs
  | .recordEvent | .waitEvent => []

/- What it does to the copies of one of them. -/
def touch (copies : Copies) (tensor : TensorId) : Copies :=
  match inst.opcode with
  | .compute => copies.only tensor inst.resource
  | .load | .prefetch => copies.place tensor inst.dest
  | .transfer => copies.add tensor inst.dest
  | .evict | .release =>
    if inst.kind = "activation_spill" then
      copies.only tensor "disk"
    else copies.release tensor (releaseResource inst)
  | .recordEvent | .waitEvent => copies

/- Copies after an instruction. -/
def effect : Copies :=
  (touched inst).foldl (touch inst) copies

/- Where an instruction reads, and what. -/
def reads : List (TensorId × ResourceId) :=
  match inst.opcode with
  | .compute => inst.inputs.map (fun tensor => (tensor, inst.resource))
  | .transfer => inst.outputsThenInputs.map (fun tensor => (tensor, inst.source.getD ""))
  | _ => []

/- Everything that is read is there. -/
def finds : Bool :=
  (reads inst).all (fun read => copies read.1 read.2)

def after (instructions : List Instruction) : Copies :=
  instructions.foldl effect copies

/- Every instruction finds what it reads, in list order. -/
def executable (copies : Copies) : List Instruction → Bool
| [] => true
| inst :: rest => finds copies inst && executable (effect copies inst) rest

theorem after_append (front back : List Instruction) :
    after copies (front ++ back) = after (after copies front) back :=
  foldl_append ..

theorem executable_append (front back : List Instruction) :
    ∀ copies, executable copies (front ++ back) = (executable copies front &&
      executable (after copies front) back) := by
  induction front with
  | nil => exact fun _ => rfl
  | cons inst rest ih =>
    intro copies
    rw [cons_append, executable, executable, ih, Bool.and_assoc]
    rfl

----
-- Frame
----

theorem touch_frame (copies : Copies) {tensor tid : TensorId}
    (hOther : tid ≠ tensor) : touch inst copies tensor tid = copies tid := by
  unfold touch
  cases inst.opcode with
  | evict =>
    split <;> simp [hOther]
  | release =>
    split <;> simp [hOther]
  | _ => simp [hOther]

variable {tid : TensorId}

/- What happens to a tensor depends on its own copies. -/
theorem touch_local (inst : Instruction) (tensor : TensorId) {c d : Copies}
    (hSame : c tid = d tid) : touch inst c tensor tid = touch inst d tensor tid := by
  by_cases hTensor : tid = tensor
  · subst hTensor
    unfold touch
    cases inst.opcode with
    | compute => simp
    | load => simp [Copies.place_self, hSame]
    | prefetch => simp [Copies.place_self, hSame]
    | transfer => simp [Copies.add_self, hSame]
    | evict =>
      split
      · simp
      · simp [Copies.release_self, hSame]
    | release =>
      split
      · simp
      · simp [Copies.release_self, hSame]
    | recordEvent => exact hSame
    | waitEvent => exact hSame
  · rw [touch_frame inst c hTensor, touch_frame inst d hTensor, hSame]

theorem foldl_touch_frame (inst : Instruction) (tensors : List TensorId) (hOther : tid ∉ tensors)
    (copies : Copies) : tensors.foldl (touch inst) copies tid = copies tid := by
  apply foldlRecOn (motive := fun now : Copies => now tid = copies tid) tensors _ rfl
  intro now hSame tensor hTensor
  rw [touch_frame inst now (ne_of_mem_of_not_mem hTensor hOther).symm, hSame]

theorem effect_frame (inst : Instruction) (copies : Copies) (hOther : tid ∉ touched inst) :
    effect copies inst tid = copies tid :=
  foldl_touch_frame inst _ hOther copies

theorem effect_local (inst : Instruction) {c d : Copies} (hSame : c tid = d tid) :
    effect c inst tid = effect d inst tid := by
  unfold effect
  induction touched inst generalizing c d with
  | nil => exact hSame
  | cons tensor rest ih => exact ih (touch_local inst tensor hSame)

----
-- Commands of the Executor
----

section Commands

variable {ω : Type}

/- Which copies are in progress, and for whom. -/
abbrev Inflight :=
  TensorId × ResourceId → Option InstructionId

def idle : Inflight := fun _ => none

variable (copies : Copies) (inflight : Inflight)

/- The valid copies of a store and those in progress. -/
def Shows (store : ResidencyStore) : Prop :=
  store.has = copies ∧ store.inflightTransfers = inflight

abbrev ShowsIn (world : World ω) : Prop :=
  Shows copies inflight world.ctx.residency

/- A command that turns one set of copies into another
   when it succeeds. -/
def Turns {α : Type} (inflight : Inflight) (before : Copies) (command : Exec ω α)
    (after : Copies) : Prop :=
  Triple (fun world => Shows before inflight world.ctx.residency) command
    (fun _ world => Shows after inflight world.ctx.residency)
    (fun _ _ => True)

variable {α β : Type} {inflight : Inflight} {before middle next : Copies} {inst : Instruction}
variable (tensor : TensorId) (resource : ResourceId)

namespace Turns

theorem bind {command : Exec ω α} {rest : α → Exec ω β}
    (hFirst : Turns inflight before command middle)
    (hRest : ∀ value, Turns inflight middle (rest value) next) :
    Turns inflight before (command >>= rest) next :=
  Triple.bind _ hFirst hRest

theorem pure (value : α) : Turns inflight before (Pure.pure value : Exec ω α) before :=
  Triple.pure (fun _ hShows => hShows)

theorem tryResidency {change : ResidencyStore → Except MemoryError ResidencyStore}
    (hChange : ∀ store after, store.has = before → change store = .ok after →
      after.has = next ∧ after.inflightTransfers = store.inflightTransfers) :
    Turns inflight before (tryResidency inst change : Exec ω Unit) next := by
  apply Triple.attempt
  · intro world value world' hShows hCall
    split at hCall
    · cases hCall
    rename_i after hAfter
    cases hCall
    have hNext := hChange _ _ hShows.1 hAfter
    exact ⟨hNext.1, hNext.2.trans hShows.2⟩
  · exact fun _ _ _ _ _ => trivial

theorem modifyResidency {change : ResidencyStore → ResidencyStore}
    (hChange : ∀ store, store.has = before → (change store).has = next ∧
      (change store).inflightTransfers = store.inflightTransfers) :
    Turns inflight before (modifyResidency change : Exec ω Unit) next := by
  intro world hShows
  have hNext := hChange world.ctx.residency hShows.1
  exact ⟨hNext.1, hNext.2.trans hShows.2⟩

theorem nextAllocId : Turns inflight before (nextAllocId : Exec ω AllocationId) before :=
  fun _ hShows => hShows

/- Leases are not part of the view. -/
theorem acquireLease : Turns inflight before (TensorTorrent.tryResidency inst (fun store =>
      store.acquireLease tensor resource) : Exec ω Unit)
    before := by
  apply tryResidency
  intro store after hHas hLease
  rw [← hHas]
  exact has_acquireLease hLease

theorem releaseLease : Turns inflight before (TensorTorrent.modifyResidency (fun store =>
      store.releaseLeaseQuietly tensor resource) : Exec ω Unit)
    before := by
  apply modifyResidency
  intro store hHas
  rw [← hHas]
  exact has_releaseLeaseQuietly store tensor resource

variable {change : Copies → TensorId → Copies}

/- A fold applies the change of each tensor in order. -/
theorem foldlM {body : β → TensorId → Exec ω β}
    (hBody : ∀ copies acc tensor, Turns inflight copies (body acc tensor) (change copies tensor))
    (tensors : List TensorId) :
    ∀ {copies : Copies} (acc : β), Turns inflight copies (tensors.foldlM body acc)
      (tensors.foldl change copies) := by
  induction tensors with
  | nil => exact fun acc => pure acc
  | cons tensor rest ih =>
    intro copies acc
    exact (hBody copies acc tensor).bind (fun acc => ih acc)

theorem forM {body : TensorId → Exec ω Unit}
    (hBody : ∀ copies tensor, Turns inflight copies (body tensor) (change copies tensor))
    (tensors : List TensorId) : ∀ {copies : Copies}, Turns inflight copies (tensors.forM body)
      (tensors.foldl change copies) := by
  induction tensors with
  | nil => exact pure ()
  | cons tensor rest ih =>
    intro copies
    exact (hBody copies tensor).bind (fun _ => ih)

end Turns

theorem putFresh_turns (metadata : TensorMetadata) :
    Turns inflight before (putFresh inst tensor resource metadata : Exec ω Unit)
      (before.only tensor resource) := by
  apply Turns.nextAllocId.bind
  intro id
  apply Turns.tryResidency
  intro store after hHas hPut
  rw [← hHas]
  cases hResult : store.put tensor resource id metadata none with
  | error err =>
    rw [hResult] at hPut
    cases hPut
  | ok result =>
    rw [hResult] at hPut
    cases hPut
    exact has_putOpaque hResult

/- Compute without a region callback. -/
theorem putOutputs_effect (hCompute : inst.opcode = .compute) (copies : Copies) :
    Turns inflight copies (putOutputs inst : Exec ω Unit) (effect copies inst) := by
  unfold effect touched
  rw [hCompute]
  apply Turns.forM
  intro copies tensor
  unfold touch
  rw [hCompute]
  exact putFresh_turns tensor inst.resource _

theorem replicate_turns (id : AllocationId) : Turns inflight before (tryResidency inst (fun store =>
      (store.replicate tensor resource id none).map Prod.snd) : Exec ω Unit)
    (before.add tensor resource) := by
  apply Turns.tryResidency
  intro store after hHas hReplicate
  rw [← hHas]
  cases hResult : store.replicate tensor resource id none with
  | error err =>
    rw [hResult] at hReplicate
    cases hReplicate
  | ok result =>
    rw [hResult] at hReplicate
    cases hReplicate
    exact has_replicate hResult

/- The end of a copy takes its entry away. -/
theorem endTransfer_turns (owner : InstructionId) :
    Triple (ShowsIn (ω := ω) before (update idle (tensor, resource) (some owner)))
      (modifyResidency (fun store => store.endTransfer tensor resource))
      (fun _ => ShowsIn before idle)
      (fun _ _ => True) := by
  intro world hShows
  refine ⟨hShows.1, ?_⟩
  change update world.ctx.residency.inflightTransfers (tensor, resource) none = idle
  rw [hShows.2, update_idem]
  exact update_eq_self (f := idle) (tensor, resource)

/- A failed replication is rethrown after the lease of the
   source is given back. -/
theorem outcome_turns {command : Exec ω Unit} {rest : Exec ω β} {post : β → World ω → Prop}
    (hCommand : Turns inflight before command middle)
    (hRest : Triple (ShowsIn middle inflight) rest post (fun _ _ => True)) :
    Triple (ShowsIn before inflight) (do
        let result ← command.outcome
        modifyResidency (fun store => store.releaseLeaseQuietly tensor resource)
        rethrow result
        rest)
      post (fun _ _ => True) := by
  apply Triple.bind (fun result world =>
    ∀ value, result = .ok value → ShowsIn middle inflight world)
  · intro world hShows
    have hAfter := hCommand world hShows
    change ∀ value, (command.exec world).1 = .ok value →
      ShowsIn middle inflight (command.exec world).2
    cases hExec : command.exec world with
    | mk result world' =>
      rw [hExec] at hAfter
      rintro value rfl
      exact hAfter
  · intro result
    cases result with
    | error err => exact fun _ _ => trivial
    | ok value =>
      apply Triple.conseq (Triple.bind _ (Turns.releaseLease tensor resource) (fun _ => hRest))
      · exact fun _ hShows => hShows value rfl
      · exact fun _ _ h => h
      · exact fun _ _ h => h

/- What follows the check of the source. -/
theorem copyTail_turns (src dst : ResourceId) (owner : InstructionId) :
    Triple (ShowsIn before (update idle (tensor, dst) (some owner))) (do
        tryResidency inst (fun store => store.acquireLease tensor src)
        let id ← nextAllocId
        let replicated ← (tryResidency inst (fun store =>
          (store.replicate tensor dst id none).map Prod.snd)).outcome
        modifyResidency (fun store => store.releaseLeaseQuietly tensor src)
        rethrow replicated
        tryResidency inst (fun store => store.acquireLease tensor dst)
        modifyResidency (fun store => store.endTransfer tensor dst) : Exec ω Unit)
      (fun _ => ShowsIn (before.add tensor dst) idle)
      (fun _ _ => True) := by
  apply Triple.bind _ (Turns.acquireLease tensor src)
  intro _
  apply Triple.bind _ Turns.nextAllocId
  intro id
  apply outcome_turns _ _ (replicate_turns tensor dst id)
  apply Triple.bind _ (Turns.acquireLease tensor dst)
  intro _
  exact endTransfer_turns tensor dst owner

/- A copy reads its source. -/
theorem copyTensor_turns (src dst : ResourceId) (owner : InstructionId) :
    Triple (ShowsIn before (update idle (tensor, dst) (some owner)))
      (copyTensor inst src dst tensor : Exec ω Unit)
      (fun _ world => before tensor src = true ∧ ShowsIn (before.add tensor dst) idle world)
      (fun _ _ => True) := by
  apply Triple.bind (fun _ world =>
    before tensor src = true ∧ ShowsIn before (update idle (tensor, dst) (some owner)) world)
  · apply Triple.attempt
    · intro world copy world' hShows hGet
      rw [Prod.mk.injEq] at hGet
      rw [← hGet.2, ← hShows.1]
      exact ⟨has_of_get hGet.1, rfl, hShows.2⟩
    · exact fun _ _ _ _ _ => trivial
  · rintro copy world ⟨hSource, hShows⟩
    apply Triple.conseq (copyTail_turns tensor src dst owner) (fun _ h => h)
    · exact fun _ _ hAfter => ⟨hSource, hAfter⟩
    · exact fun _ _ h => h
    · exact hShows

/- A copy that nobody has begun is begun. -/
theorem beginTransfer_turns (dst : ResourceId) : Triple (ShowsIn before idle)
    (do
      let existing ← Command.read (fun (world : World ω) =>
        (world.ctx.residency.beginTransfer tensor dst inst.name).1)
      modifyResidency (fun store => (store.beginTransfer tensor dst inst.name).2)
      pure existing : Exec ω (Option InstructionId))
    (fun existing world =>
      existing = none ∧ ShowsIn before (update idle (tensor, dst) (some inst.name)) world)
    (fun _ _ => True) := by
  intro world hShows
  have hNone : world.ctx.residency.inflightTransfers (tensor, dst) = none := by
    rw [hShows.2]
    rfl
  have hBegin : world.ctx.residency.beginTransfer tensor dst inst.name =
      (none, { world.ctx.residency with
        inflightTransfers := update world.ctx.residency.inflightTransfers
          (tensor, dst) (some inst.name) }) := by
    unfold beginTransfer
    rw [hNone]
  constructor
  · exact congrArg Prod.fst hBegin
  · change Shows before _ (world.ctx.residency.beginTransfer tensor dst inst.name).2
    rw [hBegin]
    refine ⟨hShows.1, ?_⟩
    rw [← hShows.2]

theorem transferTensor_turns (src dst : ResourceId) :
    Turns idle before (transferTensor inst src dst tensor : Exec ω (List SyncEntry))
      (before.add tensor dst) := by
  apply Triple.bind (fun resident world => resident = before tensor dst ∧ ShowsIn before idle world)
  · intro world hShows
    refine ⟨?_, hShows⟩
    rw [← hShows.1]
  · rintro resident world ⟨hResident, hShows⟩
    cases resident with
    | true =>
      rw [Copies.add_of_has hResident.symm]
      exact ((Turns.acquireLease tensor dst).bind (fun _ => Turns.pure _)) world hShows
    | false =>
      have hRest : Turns idle before (do
        let existing ← (do
          let existing ← Command.read (fun (world : World ω) =>
            (world.ctx.residency.beginTransfer tensor dst inst.name).1)
          modifyResidency (fun store => (store.beginTransfer tensor dst inst.name).2)
          pure existing : Exec ω _)
        if existing.isSome then pure []
        else
          copyTensor inst src dst tensor
          pure [(tensor, src, dst, nbytes inst tensor)] :
        Exec ω (List SyncEntry))
          (before.add tensor dst) := by
        apply Triple.bind _ (beginTransfer_turns tensor dst)
        rintro existing world ⟨rfl, hShows⟩
        apply Triple.bind _ (copyTensor_turns tensor src dst inst.name) _ world hShows
        intro _
        exact .pure (fun _ h => h.2)
      exact hRest world hShows

/- The copies of a Transfer. -/
theorem transferTensors_effect (hTransfer : inst.opcode = .transfer) (src : ResourceId)
    (copies : Copies) :
    Turns idle copies (transferTensors inst src inst.dest : Exec ω (List SyncEntry))
      (effect copies inst) := by
  unfold effect touched
  rw [hTransfer]
  apply Turns.foldlM
  intro copies acc tensor
  unfold touch
  rw [hTransfer]
  exact (transferTensor_turns tensor src inst.dest).bind (fun _ => Turns.pure _)

theorem lower_append (front back : String) :
    Text.lower (front ++ back) = Text.lower front ++ Text.lower back := by
  unfold Text.lower
  rw [String.toList_append, flatMap_append]

theorem infix_append {pattern front : List Char} (hInfix : pattern <:+: front) (back : List Char) :
    pattern <:+: front ++ back :=
  hInfix.trans (prefix_append front back).isInfix

theorem isLeaseFailure_active (leases : Nat) :
    isLeaseFailure (.aliasUnsafeRelease tensor leases) = true := by
  have hStart : "lease".toList <:+: Text.lower "alias-unsafe release of tensor " := by decide
  have hSplit : (MemoryError.aliasUnsafeRelease tensor leases).message =
      "alias-unsafe release of tensor " ++ (tensor ++ ": active_leases=" ++ toString leases) := by
    change "alias-unsafe release of tensor " ++ tensor ++ ": active_leases=" ++ toString leases = _
    rw [String.append_assoc, String.append_assoc, String.append_assoc]
  have hWhole : "lease".toList <:+: Text.lower
      (MemoryError.aliasUnsafeRelease tensor leases).message := by
    rw [hSplit, lower_append]
    exact infix_append hStart _
  unfold isLeaseFailure Text.lowerContains
  rw [decide_eq_true hWhole]
  rfl

/- The copy that a Release or an Evict drops. -/
def releaseTarget (inst : Instruction) (copies : Copies) (tensor : TensorId) : ResourceId :=
  if !copies tensor (releaseResource inst) && copies tensor "disk" then "disk"
  else releaseResource inst

theorem release_eq_drop (inst : Instruction) (copies : Copies) (tensor : TensorId) :
    copies.release tensor (releaseResource inst) =
      copies.drop tensor (releaseTarget inst copies tensor) := by
  unfold Copies.release releaseTarget
  by_cases hDisk : copies tensor (releaseResource inst) = false ∧ copies tensor "disk" = true
  · simp [hDisk]
  · rw [if_neg hDisk, if_neg]
    simpa using hDisk

/- What the result of `release_copy` is turned into. -/
def releaseVerdict (inst : Instruction) (tensor : TensorId) : Except MemoryError Nat → Exec ω Bool
| .ok _ => pure true
| .error err =>
  if isLeaseFailure err then
    throw (instErr inst err.message)
  else if !isIdempotent inst then
    throw (instErr inst ("release/evict target missing for tensor " ++
      tensor ++ " on " ++ releaseResource inst ++ ": " ++ err.message))
  else pure false

theorem releaseVerdict_keeps {kept : World ω → Prop} (released : Except MemoryError Nat) :
    Triple kept (releaseVerdict inst tensor released : Exec ω Bool)
      (fun _ => kept) (fun _ _ => True) := by
  unfold releaseVerdict
  split
  · exact .pure (fun _ h => h)
  split
  · exact fun _ _ => trivial
  · split
    · exact fun _ _ => trivial
    · exact .pure (fun _ h => h)

theorem releaseVerdict_active (leases : Nat) :
    (releaseVerdict inst tensor (.error (.aliasUnsafeRelease tensor leases)) : Exec ω Bool) =
      throw (instErr inst (MemoryError.aliasUnsafeRelease tensor leases).message) :=
  if_pos (isLeaseFailure_active tensor leases)

/- The copy is dropped, or its lease is still active. -/
theorem releaseTail_turns : Turns inflight before (do
      modifyResidency (fun store => store.releaseLeaseQuietly tensor resource)
      let released ← Command.read (fun (world : World ω) =>
        (world.ctx.residency.releaseCopy tensor resource).1)
      modifyResidency (fun store => (store.releaseCopy tensor resource).2)
      releaseVerdict inst tensor released : Exec ω Bool)
    (before.drop tensor resource) := by
  apply (Turns.releaseLease tensor resource).bind
  intro _ world hShows
  simp only [Command.exec_bind, Command.exec_read, modifyResidency]
  rcases has_releaseCopy world.ctx.residency
    tensor resource with ⟨leases, hActive⟩ | hDropped
  · rw [hActive, releaseVerdict_active]
    trivial
  · apply releaseVerdict_keeps
    exact ⟨by rw [← hShows.1]; exact hDropped.1, hDropped.2.trans hShows.2⟩

/- One tensor of a Release or of an Evict without a spill. -/
theorem releaseTensor_turns : Turns inflight before (releaseTensor inst tensor : Exec ω Bool)
    (before.release tensor (releaseResource inst)) := by
  rw [release_eq_drop]
  apply Triple.bind (fun onResource world =>
    onResource = before tensor (releaseResource inst) ∧ ShowsIn before inflight world)
  · intro world hShows
    exact ⟨by rw [← hShows.1], hShows⟩
  intro onResource
  apply Triple.bind (fun onDisk world =>
    onResource = before tensor (releaseResource inst) ∧ onDisk = before tensor "disk" ∧
      ShowsIn before inflight world)
  · rintro world ⟨hResource, hShows⟩
    exact ⟨hResource, by rw [← hShows.1], hShows⟩
  rintro onDisk world ⟨rfl, rfl, hShows⟩
  exact releaseTail_turns tensor (releaseTarget inst before tensor) world hShows

/- A Release, or an Evict without a spill. -/
theorem releaseTensors_effect (hRelease : inst.opcode = .release ∨ inst.opcode = .evict)
    (hKind : inst.kind ≠ "activation_spill") (copies : Copies) :
    Turns inflight copies (releaseTensors inst : Exec ω (List TensorId)) (effect copies inst) := by
  have hTouched : touched inst = inst.inputs := by
    unfold touched
    rcases hRelease with hOpcode | hOpcode <;> rw [hOpcode]
  unfold effect
  rw [hTouched]
  apply Turns.foldlM
  intro copies names tensor
  have hTouch : touch inst copies tensor = copies.release tensor (releaseResource inst) := by
    unfold touch
    rcases hRelease with hOpcode | hOpcode <;> simp [hOpcode, hKind]
  rw [hTouch]
  exact (releaseTensor_turns tensor).bind (fun _ => Turns.pure _)

/- After a spill only the copy on disk is left, whatever the
   callbacks did. -/
theorem spillTensor_effect (host : Host ω) (demat : TensorId → Callback ω (SpillMeta × Bytes)) :
    Triple (fun _ => True) (spillTensor host inst demat tensor) (fun _ world =>
        world.ctx.residency.has tensor = fun resource => decide (resource = "disk"))
      (fun _ _ => True) := by
  have hAlways {γ : Type} (command : Exec ω γ) : Triple (fun _ => True) command
      (fun _ _ => True) (fun _ _ => True) := by
    intro world _
    split <;> trivial
  apply Triple.bind _ (hAlways _)
  intro result
  apply Triple.bind _ (hAlways _)
  intro _
  apply Triple.bind _ (hAlways _)
  intro path
  apply Triple.bind _ (hAlways _)
  intro _
  apply Triple.bind _ (hAlways _)
  intro _
  apply Triple.bind _ (hAlways _)
  intro _ world _
  have hPut : Turns world.ctx.residency.inflightTransfers world.ctx.residency.has
      (putFresh inst tensor "disk"
        { nbytes := result.1.nbytes, dtype := result.1.dtype
          shape := result.1.shape } : Exec ω Unit)
      (Copies.only world.ctx.residency.has tensor "disk") :=
    putFresh_turns tensor "disk" _
  apply Triple.conseq hPut (fun _ h => h)
  · intro _ after hShows
    rw [hShows.1]
    exact Copies.only_self
  · exact fun _ _ h => h
  · exact ⟨rfl, rfl⟩

end Commands

end Effects

end TensorTorrent
