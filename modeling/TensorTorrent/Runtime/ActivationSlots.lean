import TensorTorrent.Executor.Release
import TensorTorrent.Executor.WaveOrder
import TensorTorrent.Runtime.BufferReuse

/-
  This file models the physical buffers of the reuse slots
  (`runtime/allocation_pool.py`) and the region callback of
  a forward with one worker, as far as it uses them
  (`region_handler` of `native_bridge/run.py` and
  `_exec_compute` of `runtime/schedule_executor.py`).

  Main declarations:
    * `mem_overwrites_replay`
    * `regionHandler_replays`
-/

namespace TensorTorrent

open List

----
-- Slot Buffers
----

abbrev SlotId := Nat

/- What `acquire` reads of the tensor it stores. -/
structure Like where
  nbytes : Nat
  device : ResourceId
deriving DecidableEq

/-
  The byte buffer of a slot. `generation` counts the buffers
  the slot had before: two of one slot differ in it.
-/
structure SlotBuffer where
  generation : Nat
  numel : Nat
  device : ResourceId
deriving DecidableEq

/- Growable physical buffer per reuse slot. -/
structure ActivationAllocator where
  buffers : SlotId → Option SlotBuffer

namespace ActivationAllocator

def new : ActivationAllocator :=
  { buffers := fun _ => none }

section

variable (alloc : ActivationAllocator) (slot : SlotId) (like : Like)

/-
  Does a tensor fit the slot's buffer as it is? The device
  of the slot's record is always that of its buffer.
-/
def reuses : Bool :=
  match alloc.buffers slot with
  | none => false
  | some buffer => like.nbytes ≤ buffer.numel && buffer.device = like.device

/- The buffer that will hold a tensor of the slot. -/
def pick : SlotBuffer :=
  match alloc.buffers slot with
  | none =>
    { generation := 0, numel := max like.nbytes 1, device := like.device }
  | some buffer =>
    if alloc.reuses slot like then buffer
    else
      { generation := buffer.generation + 1, numel := max like.nbytes 1, device := like.device }

/- The slots after a tensor was stored. -/
def acquire : ActivationAllocator :=
  { buffers := Function.update alloc.buffers slot (some (alloc.pick slot like)) }

end

/- A buffer that fits stays the slot's buffer. -/
theorem acquire_of_reuses {alloc : ActivationAllocator} {slot : SlotId} {like : Like}
    (hReuses : alloc.reuses slot like = true) : alloc.acquire slot like = alloc := by
  cases hBuffer : alloc.buffers slot with
  | none => simp [reuses, hBuffer] at hReuses
  | some buffer =>
    have hPick : alloc.pick slot like = buffer := by simp [pick, hBuffer, hReuses]
    rw [acquire, hPick, ← hBuffer, Function.update_eq_self]

end ActivationAllocator

----
-- Slots in a Forward
----

/-
  A store of a tensor into a buffer that was there before,
  with what had run and what had been produced by then.
-/
structure Overwrite where
  slot : SlotId
  tensor : TensorId
  executed : List RegionId
  produced : List TensorId
deriving DecidableEq

/- The slots and the history of one forward. -/
structure SlotRun where
  allocator : ActivationAllocator
  executed : List RegionId
  produced : List TensorId
  overwrites : List Overwrite

/- A forward before its first region. -/
def SlotRun.start (allocator : ActivationAllocator) : SlotRun :=
  { allocator := allocator, executed := [], produced := [], overwrites := [] }

/- A region body has returned, or one output is published. -/
inductive RegionStep where
| ran (id : RegionId)
| publish (out : TensorId)
deriving DecidableEq

/- The steps of a region in `_exec_compute`. -/
def regionSteps (region : Region) : List RegionStep :=
  .ran region.regionId :: region.outputs.map .publish

section Replay

variable (slots : TensorId → Option SlotId) (like : TensorId → SlotRun → Option Like)

namespace SlotRun

variable (entry : Overwrite) (steps : List RegionStep) (out : TensorId) (run : SlotRun)

/- An output without a slot, or that is no tensor, is kept. -/
def publish : SlotRun :=
  let published := { run with produced := out :: run.produced }
  match slots out, like out run with
  | some slot, some value =>
    { published with
      allocator := run.allocator.acquire slot value
      overwrites :=
        if run.allocator.reuses slot value then
          run.overwrites ++
            [{ slot := slot, tensor := out, executed := run.executed, produced := run.produced }]
        else run.overwrites }
  | _, _ => published

def perform : RegionStep → SlotRun
| .ran id => { run with executed := id :: run.executed }
| .publish out => publish slots like out run

def replay : SlotRun :=
  steps.foldl (perform slots like) run

@[simp]
theorem replay_nil : replay slots like [] run = run := rfl

@[simp]
theorem replay_cons (step : RegionStep) (steps : List RegionStep) (run : SlotRun) :
    replay slots like (step :: steps) run = replay slots like steps
      (perform slots like run step) := rfl

theorem replay_append (front back : List RegionStep) (run : SlotRun) :
    replay slots like (front ++ back) run = replay slots like back (replay slots like front run) :=
  foldl_append

variable {slots like}

theorem publish_executed : (publish slots like out run).executed = run.executed := by
  unfold publish
  split <;> rfl

theorem publish_produced : (publish slots like out run).produced = out :: run.produced := by
  unfold publish
  split <;> rfl

theorem mem_executed_replay (id : RegionId) (steps : List RegionStep) (run : SlotRun) :
    id ∈ (replay slots like steps run).executed ↔ id ∈ run.executed ∨ .ran id ∈ steps := by
  induction steps generalizing run with
  | nil => simp
  | cons step steps ih =>
    rw [replay_cons, ih]
    cases step with
    | ran other => simp [perform, or_assoc, or_left_comm]
    | publish out => simp [perform, publish_executed]

theorem mem_produced_replay (tensor : TensorId) (steps : List RegionStep) (run : SlotRun) :
    tensor ∈ (replay slots like steps run).produced ↔
      tensor ∈ run.produced ∨ .publish tensor ∈ steps := by
  induction steps generalizing run with
  | nil => simp
  | cons step steps ih =>
    rw [replay_cons, ih]
    cases step with
    | ran other => simp [perform]
    | publish out => simp [perform, publish_produced, or_assoc, or_left_comm]

/- The entry a publication adds when it reuses a buffer. -/
structure Stores (slots : TensorId → Option SlotId) (like : TensorId → SlotRun → Option Like)
    (run : SlotRun) (out : TensorId) (entry : Overwrite) : Prop where
  slot : slots out = some entry.slot
  reused : ∃ value, like out run = some value ∧ run.allocator.reuses entry.slot value = true
  tensor : entry.tensor = out
  executed : entry.executed = run.executed
  produced : entry.produced = run.produced

theorem mem_overwrites_publish :
    entry ∈ (publish slots like out run).overwrites ↔ entry ∈ run.overwrites ∨
      Stores slots like run out entry := by
  unfold publish
  split
  · next slot value hSlot hValue =>
    by_cases hReused : run.allocator.reuses slot value = true
    · rw [if_pos hReused]
      simp only [mem_append, mem_singleton]
      refine or_congr_right ?_
      constructor
      · rintro rfl
        exact ⟨hSlot, ⟨value, hValue, hReused⟩, rfl, rfl, rfl⟩
      · rintro ⟨hSame, _, hTensor, hExecuted, hProduced⟩
        cases entry
        simp_all
    · rw [if_neg hReused]
      refine (or_iff_left ?_).symm
      rintro ⟨hSame, ⟨value', hValue', hReused'⟩, _, _, _⟩
      rw [hSlot, Option.some.injEq] at hSame
      rw [hValue, Option.some.injEq] at hValue'
      exact hReused (by rw [hSame, hValue', hReused'])
  · next hNone =>
    refine (or_iff_left ?_).symm
    rintro ⟨hSame, ⟨value, hValue, _⟩, _, _, _⟩
    exact hNone _ _ hSame hValue

/- Each entry comes from one publication of the replay. -/
theorem mem_overwrites_replay :
    entry ∈ (replay slots like steps run).overwrites ↔ entry ∈ run.overwrites ∨ ∃ front out back,
      steps = front ++ .publish out :: back ∧
        Stores slots like (replay slots like front run) out entry := by
  induction steps generalizing run with
  | nil => simp
  | cons step steps ih =>
    rw [replay_cons, ih]
    constructor
    · rintro (hBefore | ⟨front, out, back, rfl, hStores⟩)
      · cases step with
        | ran id => exact .inl hBefore
        | publish out =>
          refine ((mem_overwrites_publish entry out run).mp hBefore).imp_right ?_
          intro hStores
          exact ⟨[], out, steps, rfl, hStores⟩
      · exact .inr ⟨step :: front, out, back, rfl, hStores⟩
    · rintro (hBefore | ⟨front, out, back, hSplit, hStores⟩)
      · refine .inl ?_
        cases step with
        | ran id => exact hBefore
        | publish out => exact (mem_overwrites_publish entry out run).mpr (Or.inl hBefore)
      · cases front with
        | nil =>
          cases hSplit
          exact .inl ((mem_overwrites_publish entry out run).mpr (Or.inr hStores))
        | cons first front =>
          cases hSplit
          exact .inr ⟨front, out, back, rfl, hStores⟩

end SlotRun

end Replay

----
-- The Region Callback
----

/-
  What a forward meets outside the modelled code: the host,
  the callbacks for releases, the tensors that the regions
  compute, where a region raises, and what publishing does
  to the native context. Only regions touch the slots.
-/
structure Surroundings where
  host : Host SlotRun
  options : ExecuteOptions SlotRun
  instructionCb : Option (InstructionCallback SlotRun)
  like : TensorId → SlotRun → Option Like
  stops : RegionId → World SlotRun → Option (Nat × String)
  mirror : RegionId → World SlotRun → NativeExecutionContext
  sides : ∀ kept, SideCallbacksKeep kept host options

section Handler

variable (program : RegionProgram) (around : Surroundings)

/- The slots after some steps of this forward. -/
def replayed (steps : List RegionStep) (run : SlotRun) : SlotRun :=
  SlotRun.replay (reuseAssignment program) around.like steps run

variable (id : RegionId)

/- One region; a raise leaves the steps before it done. -/
def runRegion : Callback SlotRun Unit :=
  fun world =>
    match program.region id, around.stops id world with
    | none, _ => (.error ("'" ++ id ++ "'"), world)
    | some region, none =>
      (.ok (), { world with
        ctx := around.mirror id world
        env := replayed program around (regionSteps region) world.env })
    | some region, some (count, cause) =>
      (.error cause, { world with
        ctx := around.mirror id world
        env := replayed program around ((regionSteps region).take count) world.env })

/- A batch runs one region after another. -/
def regionHandler : RegionCallback SlotRun
| [], world => (.ok (), world)
| inv :: batch, world =>
  match runRegion program around inv.regionId world with
  | (.ok _, next) => regionHandler batch next
  | (.error err, next) => (.error err, next)

/- Steps of a region that a program describes. -/
def stepsOf : List RegionStep :=
  ((program.region id).map regionSteps).getD []

/- Outputs of a region that a program describes. -/
def outputsOf : List TensorId :=
  ((program.region id).map Region.outputs).getD []

theorem mem_stepsOf_publish (tensor : TensorId) :
    .publish tensor ∈ stepsOf program id ↔ tensor ∈ outputsOf program id := by
  unfold stepsOf outputsOf
  cases program.region id with
  | none => simp
  | some region => simp [regionSteps]

theorem mem_stepsOf_ran (id other : RegionId) :
    .ran other ∈ stepsOf program id ↔ other = id ∧ (program.region id).isSome = true := by
  unfold stepsOf
  cases hRegion : program.region id with
  | none => simp
  | some region =>
    have hId := (RegionProgram.region_eq_some hRegion).2
    simp [regionSteps, hId]

/- A region body runs before its outputs are published. -/
theorem stepsOf_split {id : RegionId} {front back : List RegionStep} {out : TensorId}
    (hSplit : stepsOf program id = front ++ .publish out :: back) : .ran id ∈ front := by
  unfold stepsOf at hSplit
  cases hRegion : program.region id with
  | none => simp [hRegion] at hSplit
  | some region =>
    have hId := (RegionProgram.region_eq_some hRegion).2
    rw [hRegion, Option.map_some, Option.getD_some, regionSteps, hId] at hSplit
    cases front with
    | nil => cases hSplit
    | cons first front =>
      rw [cons_append, List.cons.injEq] at hSplit
      simp [← hSplit.1]

theorem replayed_append (front back : List RegionStep) (run : SlotRun) :
    replayed program around (front ++ back) run = replayed program around back
      (replayed program around front run) :=
  SlotRun.replay_append _ _ front back run

theorem runRegion_replays (world : World SlotRun) : match runRegion program around id world with
    | (.ok _, next) => next.env = replayed program around (stepsOf program id) world.env
    | (.error _, next) =>
      ∃ steps, steps <+: stepsOf program id ∧ next.env =
        replayed program around steps world.env := by
  unfold runRegion stepsOf
  split
  · next hEq =>
    split at hEq
    · cases hEq
    · next hRegion _ =>
      cases hEq
      rw [hRegion]
      rfl
    · cases hEq
  · next hEq =>
    split at hEq
    · cases hEq
      exact ⟨[], nil_prefix, rfl⟩
    · cases hEq
    rename_i hRegion _
    cases hEq
    rw [hRegion]
    exact ⟨_, take_prefix _ _, rfl⟩

/- A batch replays its regions, or a front of their steps. -/
theorem regionHandler_replays (batch : List RegionInvocation) (world : World SlotRun) :
    match regionHandler program around batch world with
    | (.ok _, next) =>
      next.env = replayed program around (batch.flatMap (fun inv => stepsOf program inv.regionId))
        world.env
    | (.error _, next) =>
      ∃ steps, steps <+: batch.flatMap (fun inv => stepsOf program inv.regionId) ∧
        next.env = replayed program around steps world.env := by
  induction batch generalizing world with
  | nil => rfl
  | cons inv batch ih =>
    have hFirst := runRegion_replays program around inv.regionId world
    rw [regionHandler, flatMap_cons]
    cases hRun : runRegion program around inv.regionId world with
    | mk result next =>
      rw [hRun] at hFirst
      cases result with
      | error err =>
        rcases hFirst with ⟨steps, hPrefix, hEnv⟩
        exact ⟨steps, hPrefix.trans (prefix_append _ _), hEnv⟩
      | ok value =>
        have hRest := ih next
        simp only
        cases hBatch : regionHandler program around batch next with
        | mk result' last =>
          rw [hBatch] at hRest
          cases result' with
          | ok value' =>
            simp only
            rw [hRest, hFirst, replayed_append]
          | error err =>
            rcases hRest with ⟨steps, hPrefix, hEnv⟩
            refine ⟨stepsOf program inv.regionId ++ steps, ?_, ?_⟩
            · exact (prefix_append_right_inj _).mpr hPrefix
            · rw [hEnv, hFirst, replayed_append]

end Handler

end TensorTorrent
