import TensorTorrent.Library.Streams
import TensorTorrent.Runtime.DeviceStreams
import TensorTorrent.Ir.Schedule

/-
  This file models the order of the device work that
  forwards issue through one stream runtime: transfers
  (`copy_sync_cb`), computes (`_exec_compute`) and releases
  (`handle_release_cb`), with the pool of device buffers
  that they share.

  Main declarations:
    * `BufferPool.overwrites_ordered_after_readers`
-/

namespace TensorTorrent

open List

namespace BufferPool

open DeviceStreamRuntime (newObjects)
open Streams (Order)

----
-- Forwards on One Runtime
----

abbrev Op := Nat

abbrev Forward := Nat

/- The streams of a device, and the one that is current
   outside them. -/
inductive Stream where
| copy (index : Nat)
| compute (index : Nat)
| current
deriving DecidableEq

/- An entry of the copy store of one forward. -/
structure Copy where
  forward : Forward
  tensor : TensorId
  resource : ResourceId
  value : Tensor
  readyEvent : Option (Streams.Event Op)

def Copy.isAt (copy : Copy) (forward : Forward) (tensor : TensorId)
    (resource : ResourceId) : Bool :=
  copy.forward = forward && copy.tensor = tensor && copy.resource = resource

/-
  A copy into a buffer: the computes that were launched with
  the buffer so far and what the copy comes after.
-/
structure Overwrite where
  storage : StorageId
  readers : List Op
  before : List Op

structure State where
  runtime : DeviceStreamRuntime
  order : Order Stream Op
  copies : List Copy
  nextOp : Op
  nextStorage : StorageId
  -- Computes that received a tensor on the storage.
  readers : StorageId → List Op
  overwrites : List Overwrite

def State.new (pairs : List Nat) : State :=
  { runtime := .new pairs, order := .new, copies := [], nextOp := 0
    nextStorage := 0
    readers := fun _ => []
    overwrites := [] }

namespace State

section

variable (s : State) (forward : Forward) (tensor : TensorId)

def copy? (resource : ResourceId) : Option Copy :=
  s.copies.find? (fun c => c.isAt forward tensor resource)

/- The ready events of all copies of a tensor. -/
def readyEvents : List (Streams.Event Op) :=
  (s.copies.filter (fun c => c.forward = forward && c.tensor = tensor) ).filterMap Copy.readyEvent

def drop (resource : ResourceId) : State :=
  { s with copies := s.copies.filter (fun c => !c.isAt forward tensor resource) }

end

/- Store or replace a copy. -/
def publish (s : State) (copy : Copy) : State :=
  let dropped := s.drop copy.forward copy.tensor copy.resource
  { dropped with
    copies := dropped.copies ++ [copy], nextStorage := max s.nextStorage (copy.value.storage + 1) }

end State

inductive Event where
  -- An input, a parameter or an alias, without an event.
| publish (forward : Forward) (tensor : TensorId) (resource : ResourceId) (value : Tensor)
| transfer (forward : Forward) (tensor : TensorId) (src dst : ResourceId) (target : Device)
    (pinned : Option Ident) (buffer : Ident)
-- `device` is `none` for a resource without a device.
| compute (forward : Forward) (resource : ResourceId) (device : Option Device)
    (inputs : List TensorId)
    (outputs : List (TensorId × Tensor))
| release (forward : Forward) (tensor : TensorId) (resource : ResourceId)
-- `wait_ready` when outputs are collected.
| collect (forward : Forward) (tensor : TensorId) (resource : ResourceId)
-- The context of a forward is dropped.
| finish (forward : Forward)
| close

----
-- Transfers
----

variable (s : State) (forward : Forward) (resource : ResourceId) (device : Option Device)

/- A new tensor on the target, in memory of its own. -/
def movedTensor (source : Tensor) (target : Device) (ident : Ident) : Tensor :=
  { source with ident := ident, storage := s.nextStorage + 1, device := target, pinned := false }

/- A copy on the copy stream of a device. -/
def copyOnStream (index : Nat) (dest : Option Tensor) : State :=
  { s with
    order := s.order.launch (.copy index) s.nextOp, nextOp := s.nextOp + 1
    overwrites := (dest.map (fun buf =>
          ⟨buf.storage, s.readers buf.storage, s.order.before (.copy index)⟩)).toList ++
        s.overwrites }

/- The tables after a call of `transfer`. -/
def withTables (runtime : DeviceStreamRuntime) : State :=
  { s with runtime := runtime, nextStorage := s.nextStorage + 2 }

/- `transfer` and the replica that `copy_sync_cb` then
   publishes. -/
def transfer (tensor : TensorId) (dst : ResourceId) (value : Tensor)
    (target : Device) (pinned : Option Ident) (buffer : Ident) : State :=
  let result := s.runtime.transfer value target (newObjects s.nextStorage value pinned buffer)
  let after := withTables s result.2
  match result.1 with
  | .resident => after.publish ⟨forward, tensor, dst, value, none⟩
  | .blocking source =>
    after.publish ⟨forward, tensor, dst, movedTensor s source target buffer, none⟩
  | .onCopyStream index source dest _ =>
    let copied := copyOnStream after index dest
    copied.publish ⟨forward, tensor, dst, dest.getD (movedTensor s source target buffer),
      some (copied.order.record (.copy index))⟩

----
-- Computes and Releases
----

/- `wait_on_compute` for every input, then the launch. -/
def launchCompute (events : List (Streams.Event Op)) :
    Order Stream Op × Option (Streams.Event Op) :=
  match device with
  | none => (s.order.launch .current s.nextOp, none)
  | some d =>
    match s.runtime.pairForDevice d with
    | some index =>
      let order := (s.order.waitEvents (.compute index) events).launch (.compute index) s.nextOp
      (order, some (order.record (.compute index)))
    | none =>
      let order := (s.order.synchronizeAll events).launch .current s.nextOp
      -- On the host the call returns when it is done.
      (if d.isCuda then order
        else order.synchronize [s.nextOp], none)

/- The computes of a storage after one with these
   arguments. -/
def addReader (readers : StorageId → List Op) (args : List Copy) (op : Op) : StorageId → List Op :=
  fun storage =>
    if storage ∈ args.map (fun c => c.value.storage) then
      op :: readers storage
    else readers storage

def compute (args : List Copy) (outputs : List (TensorId × Tensor)) : State :=
  let launched := launchCompute s device (args.filterMap Copy.readyEvent)
  outputs.foldl (fun (after : State) output =>
      after.publish ⟨forward, output.1, resource, output.2, launched.2⟩)
    { s with
      order := launched.1, nextOp := s.nextOp + 1, readers := addReader s.readers args s.nextOp }

/- The copies a compute reads; a missing one raises. -/
def computeArgs (inputs : List TensorId) : Option (List Copy) :=
  inputs.mapM (fun tensor => s.copy? forward tensor resource)

section

variable (s : State) (forward : Forward) (tensor : TensorId) (resource : ResourceId)

/- The resource whose copy a release drops. -/
def releasedResource : ResourceId :=
  if (s.copy? forward tensor resource).isNone && (s.copy? forward tensor "disk").isSome then "disk"
  else resource

/- The copy that a release drops. -/
def droppedCopy : Option Copy :=
  s.copy? forward tensor (releasedResource s forward tensor resource)

/-
  `handle_release_cb` for one pair: the host waits for the
  events of the copies themselves, then the buffer goes back
  to the pool.
-/
def release : State :=
  let rid := releasedResource s forward tensor resource
  let runtime :=
    match droppedCopy s forward tensor resource with
    | some dropped => s.runtime.releaseBuffer dropped.value
    | none => s.runtime
  { s with
    order := s.order.synchronizeAll (s.readyEvents forward tensor)
    runtime := runtime }.drop forward tensor rid

end

/- `synchronize_all` in `close`. -/
def synchronizeStreams (s : State) : Order Stream Op :=
  s.order.synchronizeAll (s.runtime.pairs.flatMap (fun index =>
    [s.order.record (.compute index), s.order.record (.copy index)]))

def step (s : State) : Event → Option State
| .publish forward tensor resource value =>
  some (s.publish ⟨forward, tensor, resource, value, none⟩)
| .transfer forward tensor src dst target pinned buffer =>
  if src = dst then none
  else if (s.copy? forward tensor dst).isSome then none
  else
    (s.copy? forward tensor src).map (fun copy =>
      transfer s forward tensor dst copy.value target pinned buffer)
| .compute forward resource device inputs outputs =>
  (computeArgs s forward resource inputs).map (fun args =>
    compute s forward resource device args outputs)
| .release forward tensor resource => some (release s forward tensor resource)
| .collect forward tensor resource =>
  (s.copy? forward tensor resource).map (fun copy =>
    { s with order := s.order.synchronizeAll copy.readyEvent.toList })
| .finish forward =>
  some { s with copies := s.copies.filter (fun c => c.forward ≠ forward) }
| .close =>
  some { s with order := synchronizeStreams s, runtime := .new [] }

----
-- Property and Condition
----

/- Every copy into a buffer so far comes after the computes
   that were launched with the buffer before. -/
def OverwritesOrdered (s : State) : Prop :=
  ∀ overwrite ∈ s.overwrites, ∀ op ∈ overwrite.readers, op ∈ overwrite.before

/-
  When a buffer that was handed out is released, the host
  has waited for the computes that were launched with it,
  counting the events the release itself waits for, and no
  compute receives a buffer that is in the pool.
-/
def ReadersAwaited (s : State) : Event → Prop
| .compute forward resource _ inputs _ =>
  ∀ args, computeArgs s forward resource inputs = some args →
    ∀ arg ∈ args, ∀ key, ∀ buf ∈ s.runtime.bufferPool key, buf.storage ≠ arg.value.storage
| .release forward tensor resource =>
  ∀ dropped, droppedCopy s forward tensor resource = some dropped →
    dropped.value.device.isCuda = true → s.runtime.issued dropped.value.ident = true →
    ∀ op ∈ s.readers dropped.value.storage, op ∈ s.order.host ∨
      ∃ event ∈ s.readyEvents forward tensor, op ∈ event
| _ => True

----
-- Invariant
----

/-
  The host has waited for every compute that was launched
  with a pooled buffer; memory that is not allocated yet has
  no such compute.
-/
structure Settled (s : State) : Prop where
  copy_allocated : ∀ copy ∈ s.copies, copy.value.storage < s.nextStorage
  pooled_allocated : ∀ key, ∀ buf ∈ s.runtime.bufferPool key, buf.storage < s.nextStorage
  pooled_awaited : ∀ key, ∀ buf ∈ s.runtime.bufferPool key,
    ∀ op ∈ s.readers buf.storage, op ∈ s.order.host
  fresh_unread : ∀ storage, s.nextStorage ≤ storage → s.readers storage = []
  ordered : OverwritesOrdered s

variable {resource : ResourceId} {forward : Forward}

theorem State.copy?_mem {s : State} {tensor : TensorId} {copy : Copy}
    (hCopy : s.copy? forward tensor resource = some copy) : copy ∈ s.copies :=
  mem_of_find?_eq_some hCopy

private theorem computeArgs_subset {s : State} {inputs : List TensorId} {args : List Copy}
    (hArgs : computeArgs s forward resource inputs = some args) : args ⊆ s.copies := by
  induction inputs generalizing args with
  | nil =>
    cases hArgs
    exact nil_subset _
  | cons tensor inputs ih =>
    unfold computeArgs at hArgs ih
    rw [mapM_cons] at hArgs
    rcases Option.bind_eq_some_iff.mp hArgs with ⟨copy, hCopy, hRest⟩
    rcases Option.bind_eq_some_iff.mp hRest with ⟨rest, hFound, hPure⟩
    cases hPure
    exact cons_subset.mpr ⟨State.copy?_mem hCopy, ih hFound⟩

namespace Settled

variable {s s' : State}

theorem new (pairs : List Nat) : Settled (.new pairs) := by
  constructor <;> simp [State.new, DeviceStreamRuntime.new, OverwritesOrdered]

section

variable (hSettled : Settled s)

include hSettled

/- Fewer copies, a smaller pool and more waiting keep the
   invariant. -/
private theorem weaken (order : Order Stream Op) (runtime : DeviceStreamRuntime)
    (copies : List Copy) (more : Nat) (hHost : s.order.host ⊆ order.host)
    (hPool : ∀ key, runtime.bufferPool key ⊆ s.runtime.bufferPool key)
    (hCopies : copies ⊆ s.copies) : Settled { s with
      order := order, runtime := runtime, copies := copies
      nextStorage := s.nextStorage + more } := by
  refine ⟨?_, ?_, ?_, ?_, hSettled.ordered⟩
  · intro copy hCopy
    exact Nat.lt_add_right more (hSettled.copy_allocated copy (hCopies hCopy))
  · intro key buf hBuf
    exact Nat.lt_add_right more (hSettled.pooled_allocated key buf (hPool key hBuf))
  · intro key buf hBuf op hOp
    apply hHost
    exact hSettled.pooled_awaited key buf (hPool key hBuf) op hOp
  · intro storage hFresh
    exact hSettled.fresh_unread storage ((Nat.le_add_right _ more).trans hFresh)

private theorem publish (copy : Copy) : Settled (s.publish copy) := by
  have hMore : s.nextStorage ≤ max s.nextStorage (copy.value.storage + 1) := le_max_left _ _
  refine { hSettled with copy_allocated := ?_, pooled_allocated := ?_, fresh_unread := ?_ }
  · intro other hOther
    rcases mem_append.mp hOther with hOld | hNew
    · exact lt_of_lt_of_le (hSettled.copy_allocated other (mem_of_mem_filter hOld)) hMore
    · rw [mem_singleton.mp hNew]
      exact lt_of_lt_of_le (Nat.lt_succ_self _) (le_max_right _ _)
  · intro key buf hBuf
    exact lt_of_lt_of_le (hSettled.pooled_allocated key buf hBuf) hMore
  · intro storage hFresh
    exact hSettled.fresh_unread storage (hMore.trans hFresh)

/- Several copies, published one after the other. -/
private theorem publishAll {α : Type} (outputs : List α) (copy : α → Copy) :
    Settled (outputs.foldl (fun (after : State) output => after.publish (copy output)) s) := by
  induction outputs generalizing s with
  | nil => exact hSettled
  | cons output outputs ih => exact ih (publish hSettled (copy output))

/- A copy into a buffer that was pooled or is new. -/
private theorem copyOnStream (index : Nat) (dest : Option Tensor)
    (hDest : ∀ buf, dest = some buf → ∀ op ∈ s.readers buf.storage, op ∈ s.order.host) :
    Settled (BufferPool.copyOnStream s index dest) := by
  refine { hSettled with ordered := ?_ }
  intro overwrite hOverwrite op hOp
  rcases mem_append.mp hOverwrite with hNew | hOld
  · rcases Option.map_eq_some_iff.mp (Option.mem_toList.mp hNew) with ⟨buf, hBuf, rfl⟩
    exact Order.mem_before_of_host _ (hDest buf hBuf op hOp)
  · exact hSettled.ordered overwrite hOld op hOp

private theorem transfer (forward : Forward) (tensor : TensorId) (dst : ResourceId) (value : Tensor)
    (target : Device) (pinned : Option Ident) (buffer : Ident) :
    Settled (BufferPool.transfer s forward tensor dst value target pinned buffer) := by
  have hAfter : Settled (withTables s (s.runtime.transfer value target
      (newObjects s.nextStorage value pinned buffer)).2) :=
    weaken hSettled s.order _ s.copies 2 (List.Subset.refl _)
      (DeviceStreamRuntime.transfer_pool_subset _ _ _)
      (List.Subset.refl _)
  simp only [BufferPool.transfer]
  split
  · exact publish hAfter _
  · exact publish hAfter _
  rename_i index source dest nonBlocking hStream
  apply publish
  apply copyOnStream hAfter
  intro buf hBuf op hOp
  rw [hBuf] at hStream
  rcases DeviceStreamRuntime.transfer_dest hStream with ⟨key, hPooled⟩ | hNew
  · exact hSettled.pooled_awaited key buf hPooled op hOp
  have hUnread : s.readers buf.storage = [] := by
    apply hSettled.fresh_unread
    rw [hNew]
    exact Nat.le_succ _
  simp only [withTables, hUnread] at hOp
  cases hOp

end

private theorem host_subset_launchCompute (s : State) (device : Option Device)
    (events : List (Streams.Event Op)) : s.order.host ⊆ (launchCompute s device events).1.host := by
  unfold launchCompute
  split
  · exact List.Subset.refl _
  split
  · simp
  have hWaited := Order.host_subset_synchronizeAll s.order events
  split
  · exact hWaited
  · intro op hOp
    exact mem_append_right _ (hWaited hOp)

/- A compute with arguments that are allocated and not in
   the pool. -/
private theorem compute (hSettled : Settled s) (forward : Forward) (resource : ResourceId)
    (device : Option Device) (args : List Copy) (outputs : List (TensorId × Tensor))
    (hArgs : args ⊆ s.copies)
    (hPool : ∀ arg ∈ args, ∀ key, ∀ buf ∈ s.runtime.bufferPool key,
      buf.storage ≠ arg.value.storage) :
    Settled (BufferPool.compute s forward resource device args outputs) := by
  have hLaunched : Settled { s with
      order := (launchCompute s device (args.filterMap Copy.readyEvent)).1
      nextOp := s.nextOp + 1
      readers := addReader s.readers args s.nextOp } := by
    refine { hSettled with pooled_awaited := ?_, fresh_unread := ?_ }
    · intro key buf hBuf op hOp
      apply host_subset_launchCompute
      have hNotRead : buf.storage ∉ args.map (fun c => c.value.storage) := by
        intro hRead
        rcases mem_map.mp hRead with ⟨arg, hArg, hSame⟩
        exact hPool arg hArg key buf hBuf hSame.symm
      simp only [addReader, if_neg hNotRead] at hOp
      exact hSettled.pooled_awaited key buf hBuf op hOp
    · intro storage hFresh
      have hNotRead : storage ∉ args.map (fun c => c.value.storage) := by
        intro hRead
        rcases mem_map.mp hRead with ⟨arg, hArg, hSame⟩
        have hLow := hSettled.copy_allocated arg (hArgs hArg)
        rw [hSame] at hLow
        exact Nat.not_lt_of_le hFresh hLow
      simp only [addReader, if_neg hNotRead]
      exact hSettled.fresh_unread storage hFresh
  exact publishAll hLaunched outputs _

/- The buffer of the dropped copy joins the pool. -/
private theorem release (hSettled : Settled s) (forward : Forward) (tensor : TensorId)
    (resource : ResourceId) (hAwaited : ReadersAwaited s (.release forward tensor resource)) :
    Settled (BufferPool.release s forward tensor resource) := by
  have hHost := Order.host_subset_synchronizeAll s.order (s.readyEvents forward tensor)
  -- What is pooled afterwards was pooled or is dropped now.
  have hPool : ∀ key, ∀ buf ∈ (BufferPool.release s forward tensor resource).runtime.bufferPool key,
      buf ∈ s.runtime.bufferPool key ∨ ∃ dropped,
        droppedCopy s forward tensor resource = some dropped ∧ buf = dropped.value ∧
          dropped.value.device.isCuda = true ∧ s.runtime.issued dropped.value.ident = true := by
    intro key buf hBuf
    simp only [BufferPool.release] at hBuf
    split at hBuf
    · next dropped hDropped =>
      rcases DeviceStreamRuntime.releaseBuffer_pool hBuf with hOld | hNew
      · exact .inl hOld
      · exact .inr ⟨dropped, hDropped, hNew⟩
    · exact .inl hBuf
  refine { hSettled with copy_allocated := ?_, pooled_allocated := ?_, pooled_awaited := ?_ }
  · intro copy hCopy
    exact hSettled.copy_allocated copy (mem_of_mem_filter hCopy)
  · intro key buf hBuf
    rcases hPool key buf hBuf with hOld | ⟨dropped, hDropped, rfl, _⟩
    · exact hSettled.pooled_allocated key buf hOld
    · exact hSettled.copy_allocated dropped (State.copy?_mem hDropped)
  · intro key buf hBuf op hOp
    rcases hPool key buf hBuf with hOld | ⟨dropped, hDropped, rfl, hCuda, hIssued⟩
    · apply hHost
      exact hSettled.pooled_awaited key buf hOld op hOp
    · apply (Order.mem_synchronizeAll_host _ _ op).mpr
      exact hAwaited dropped hDropped hCuda hIssued op hOp

/- An allowed step keeps the invariant. -/
theorem step (hSettled : Settled s) (event : Event) (hAwaited : ReadersAwaited s event)
    (hStep : BufferPool.step s event = some s') : Settled s' := by
  cases event with
  | publish forward tensor resource value =>
    cases hStep
    exact hSettled.publish _
  | transfer forward tensor src dst target pinned buffer =>
    simp only [BufferPool.step] at hStep
    split at hStep
    · cases hStep
    split at hStep
    · cases hStep
    · rcases Option.map_eq_some_iff.mp hStep with ⟨copy, _, rfl⟩
      exact hSettled.transfer _ _ _ _ _ _ _
  | compute forward resource device inputs outputs =>
    rcases Option.map_eq_some_iff.mp hStep with ⟨args, hArgs, rfl⟩
    exact hSettled.compute forward resource device args outputs (computeArgs_subset hArgs)
      (hAwaited args hArgs)
  | release forward tensor resource =>
    cases hStep
    exact hSettled.release forward tensor resource hAwaited
  | collect forward tensor resource =>
    rcases Option.map_eq_some_iff.mp hStep with ⟨copy, _, rfl⟩
    exact hSettled.weaken _ s.runtime s.copies 0 (Order.host_subset_synchronizeAll _ _)
      (fun _ => List.Subset.refl _) (List.Subset.refl _)
  | finish forward =>
    cases hStep
    exact hSettled.weaken s.order s.runtime _ 0 (List.Subset.refl _) (fun _ => List.Subset.refl _)
      (filter_subset_self _)
  | close =>
    cases hStep
    exact hSettled.weaken _ _ s.copies 0 (Order.host_subset_synchronizeAll _ _)
      (fun _ => nil_subset _) (List.Subset.refl _)

end Settled

----
-- Overwrites Come After Readers
----

/-
  When the host has waited for the readers of every buffer
  that is released, every copy into a buffer comes after the
  computes that were launched with the buffer before.
-/
theorem overwrites_ordered_after_readers (pairs : List Nat) (s : State)
    (hReach : Transition.Reachable step ReadersAwaited (.new pairs) s) : OverwritesOrdered s := by
  have hSettled : Settled s := hReach.invariant Settled (fun _ event _ hBefore hAwaited hStep =>
        hBefore.step event hAwaited hStep)
      (.new pairs)
  exact hSettled.ordered

/- A weight of four floats. -/
def weight (ident : Ident) (storage : StorageId) (device : Device) : Tensor :=
  { ident, storage, device
    shape := [4], dtype := "float32", pinned := false }

/- A weight is moved and a compute is launched with it. -/
def launchRun : List Event :=
  [.publish 0 "w" "cpu" (weight 100 0 .cpu),
    .transfer 0 "w" "cpu" "cuda:0" (.cuda (some 0)) (some 101) 102,
    .compute 0 "cuda:0" (some (.cuda (some 0))) ["w"] [("y", weight 103 3 (.cuda (some 0)))]]

/- The weight is released and the next one takes over its
   buffer. -/
def reuseRun : List Event :=
  [.release 0 "w" "cuda:0", .publish 0 "v" "cpu" (weight 104 4 .cpu),
    .transfer 0 "v" "cpu" "cuda:0" (.cuda (some 0)) (some 105) 106]

/- The host waits for the compute before the release. -/
theorem awaited_reuse_ordered : ∃ s, Transition.run step (.new [0])
      (launchRun ++ [.collect 0 "y" "cuda:0"] ++ reuseRun) = some s ∧
    (s.overwrites.map Overwrite.readers) = [[1], []] ∧ OverwritesOrdered s := by
  refine ⟨_, rfl, rfl, ?_⟩
  apply overwrites_ordered_after_readers [0]
  apply Transition.Reachable.of_run (launchRun ++ [.collect 0 "y" "cuda:0"] ++ reuseRun) _ rfl
  refine ⟨trivial, ?_⟩
  rintro _ ⟨⟩
  refine ⟨trivial, ?_⟩
  rintro _ ⟨⟩
  constructor
  · rintro args _ arg _ key buf hBuf
    have hEmpty := DeviceStreamRuntime.transfer_pool_subset _ _ _ key hBuf
    cases hEmpty
  rintro _ ⟨⟩
  refine ⟨trivial, ?_⟩
  rintro _ ⟨⟩
  constructor
  · rintro dropped ⟨⟩ _ _ op hOp
    have hOne : op = 1 := mem_singleton.mp hOp
    subst hOne
    decide
  rintro _ ⟨⟩
  refine ⟨trivial, ?_⟩
  rintro _ ⟨⟩
  exact ⟨trivial, fun _ _ => trivial⟩

/- The second copy does not come after the compute that
   reads the buffer. -/
theorem reuse_overwrites_pending_reader :
    ∃ s, Transition.run step (.new [0]) (launchRun ++ reuseRun) = some s ∧
      ¬ OverwritesOrdered s := by
  refine ⟨_, rfl, ?_⟩
  intro hOrdered
  have hAfter := hOrdered _ (mem_cons_self ..) 1 (by decide)
  revert hAfter
  decide

end BufferPool

end TensorTorrent
