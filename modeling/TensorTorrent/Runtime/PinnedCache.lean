import TensorTorrent.Runtime.DeviceStreams

/-
  This file models host memory around `transfer`
  (`runtime/device_streams.py`): tensors are allocated,
  viewed, mutated in place and freed between transfers, and
  a transfer from page-locked memory copies later, when the
  copy stream gets to it.

  Main declarations:
    * `PinnedCache.transfers_copy_current_value`
-/

namespace TensorTorrent

open Function (update update_of_ne update_self)

namespace PinnedCache

open DeviceStreamRuntime (newObjects)

variable {V : Type}

----
-- Host Memory
----

/-
  A copy that a copy stream will run. `expected` records
  what the transferred tensor held when it was called.
-/
structure Pending (V : Type) where
  index : Nat
  source : StorageId
  expected : V
deriving DecidableEq

/- A copy that was run, with the bytes it copied. -/
structure Copied (V : Type) where
  bytes : V
  expected : V
deriving DecidableEq

structure State (V : Type) where
  -- Live tensor objects of the callers.
  objects : Ident → Option Tensor
  contents : StorageId → V
  nextStorage : StorageId
  runtime : DeviceStreamRuntime
  pending : List (Pending V)
  copied : List (Copied V)

/- No tensor yet; memory holds arbitrary contents. -/
def State.new (pairs : List Nat) (contents : StorageId → V) : State V :=
  { objects := fun _ => none
    contents := contents, nextStorage := 0, runtime := .new pairs, pending := []
    copied := [] }

inductive Event (V : Type) where
| allocate (ident : Ident) (device : Device) (shape : List Nat) (dtype : String) (pinned : Bool)
    (bytes : V)
-- A new object on the memory of another one.
| view (ident base : Ident) (shape : List Nat)
| mutate (ident : Ident) (bytes : V)
| free (ident : Ident)
-- `pinned` is the identity of a new page-locked copy, or
-- `none` when page-locking does not happen.
| transfer (ident : Ident) (target : Device) (pinned : Option Ident) (buffer : Ident)
-- The copy stream of a device runs its next copy.
| copyDone (index : Nat)
| close
deriving DecidableEq

----
-- Steps
----

variable (s : State V) (value : Tensor)

def allocate (tensor : Tensor) (bytes : V) : State V :=
  { s with
    objects := update s.objects tensor.ident (some tensor)
    contents := update s.contents tensor.storage bytes, nextStorage := s.nextStorage + 1 }

/- A page-locked copy holds what the value holds now. -/
def pinContents : StorageId → V :=
  update s.contents s.nextStorage (s.contents value.storage)

/-
  A copy from page-locked memory is left to the copy stream;
  any other copy has been made when the call returns.
-/
def launch : DeviceStreamRuntime.Transfer → State V
| .resident => s
| .blocking source =>
  { s with copied := ⟨s.contents source.storage, s.contents value.storage⟩ :: s.copied }
| .onCopyStream index source _ nonBlocking =>
  if nonBlocking then
    { s with pending := s.pending ++ [⟨index, source.storage, s.contents value.storage⟩] }
  else
    { s with copied := ⟨s.contents source.storage, s.contents value.storage⟩ :: s.copied }

/- `transfer`; copies from other than host tensors to CUDA
   devices are not followed. -/
def transfer (target : Device) (pinned : Option Ident) (buffer : Ident) : State V :=
  let result := s.runtime.transfer value target (newObjects s.nextStorage value pinned buffer)
  let after : State V := { s with
    contents := pinContents s value, nextStorage := s.nextStorage + 2, runtime := result.2 }
  if value.device = .cpu ∧ target.isCuda then
    launch after value result.1
  else after

/- The oldest pending copy of one copy stream. -/
def copyDone (index : Nat) : Option (State V) :=
  (s.pending.find? (fun copy => copy.index = index)).map (fun copy =>
    { s with
      pending := s.pending.eraseP (fun c => c.index = index)
      copied := ⟨s.contents copy.source, copy.expected⟩ :: s.copied })

def step : Event V → Option (State V)
| .allocate ident device shape dtype pinned bytes =>
  if s.objects ident = none then
    some (allocate s ⟨ident, s.nextStorage, device, shape, dtype, pinned⟩ bytes)
  else none
| .view ident base shape =>
  match s.objects base, s.objects ident with
  | some tensor, none =>
    some { s with
      objects := update s.objects ident (some { tensor with ident := ident, shape := shape }) }
  | _, _ => none
| .mutate ident bytes =>
  (s.objects ident).map (fun tensor =>
    { s with contents := update s.contents tensor.storage bytes })
| .free ident =>
  -- An object that is its own cache entry stays alive.
  if s.objects ident ≠ none ∧ s.runtime.pinnedCache ident ≠ s.objects ident then
    some { s with objects := update s.objects ident none }
  else none
| .transfer ident target pinned buffer =>
  (s.objects ident).map (fun value => transfer s value target pinned buffer)
| .copyDone index => copyDone s index
| .close =>
  -- `synchronize_all` comes first.
  if s.pending = [] then
    some { s with runtime := .new [] }
  else none

----
-- Property and Condition
----

/- Every copy so far copied what its tensor held at the
   call. -/
def CopiesCurrent : Prop :=
  ∀ copy ∈ s.copied, copy.bytes = copy.expected

/- A live tensor on the storage has a separate page-locked
   copy in the cache. -/
def HasSeparateCopy (storage : StorageId) : Prop :=
  ∃ key tensor cached, s.objects key = some tensor ∧ tensor.storage = storage ∧
    s.runtime.pinnedCache key = some cached ∧ cached ≠ tensor

/-
  No tensor is mutated while the cache holds a separate copy
  of it or while a copy from it is pending, and a new object
  does not take an identity that is a key of the cache.
-/
def SourceKept : Event V → Prop
| .allocate ident _ _ _ _ _ => s.runtime.pinnedCache ident = none
| .view ident _ _ => s.runtime.pinnedCache ident = none
| .mutate ident _ =>
  ∀ tensor, s.objects ident = some tensor → ¬ HasSeparateCopy s tensor.storage ∧
    ∀ copy ∈ s.pending, copy.source ≠ tensor.storage
| _ => True

----
-- Invariant
----

/-
  A cache entry is the object of its key or memory that no
  object shares, and holds what the object holds.
-/
structure Entry (objects : Ident → Option Tensor) (contents : StorageId → V)
    (nextStorage : StorageId) (key : Ident) (cached : Tensor) : Prop where
  allocated : cached.storage < nextStorage
  owned : objects key = some cached ∨ ∀ ident tensor, objects ident = some tensor →
    tensor.storage ≠ cached.storage
  current : ∀ tensor, objects key = some tensor → contents cached.storage = contents tensor.storage

structure Faithful (s : State V) : Prop where
  object_ident : ∀ ident tensor, s.objects ident = some tensor → tensor.ident = ident
  object_allocated : ∀ ident tensor, s.objects ident = some tensor → tensor.storage < s.nextStorage
  entry : ∀ key cached, s.runtime.pinnedCache key = some cached →
    Entry s.objects s.contents s.nextStorage key cached
  pending_current : ∀ copy ∈ s.pending, copy.source < s.nextStorage ∧
    s.contents copy.source = copy.expected
  copied_current : CopiesCurrent s

namespace Faithful

variable {s s' : State V}

theorem new (pairs : List Nat) (contents : StorageId → V) : Faithful (.new pairs contents) := by
  constructor <;> simp [State.new, DeviceStreamRuntime.new, CopiesCurrent]

section

variable (hFaithful : Faithful s)

include hFaithful

variable (tensor : Tensor) (bytes : V)

/-
  Writing memory that is not allocated yet changes nothing
  that the invariant talks about.
-/
private theorem write_fresh (more : Nat) : Faithful { s with
    contents := update s.contents s.nextStorage bytes
    nextStorage := s.nextStorage + more } := by
  have hOld : ∀ storage, storage < s.nextStorage → update s.contents s.nextStorage bytes
      storage = s.contents storage :=
    fun storage hLt => update_of_ne hLt.ne _ _
  refine { hFaithful with object_allocated := ?_, entry := ?_, pending_current := ?_ }
  · intro ident tensor hObject
    exact Nat.lt_add_right more (hFaithful.object_allocated ident tensor hObject)
  · intro key cached hCached
    have hEntry := hFaithful.entry key cached hCached
    refine ⟨Nat.lt_add_right more hEntry.allocated, hEntry.owned, ?_⟩
    intro tensor hObject
    simp only
    rw [hOld _ hEntry.allocated, hOld _ (hFaithful.object_allocated key tensor hObject)]
    exact hEntry.current tensor hObject
  · intro copy hCopy
    rcases hFaithful.pending_current copy hCopy with ⟨hAllocated, hCurrent⟩
    refine ⟨Nat.lt_add_right more hAllocated, ?_⟩
    simp only
    rw [hOld _ hAllocated]
    exact hCurrent

/-
  A new object keeps the invariant when no cache entry
  stands under its identity or owns its memory.
-/
private theorem add_object (hAllocated : tensor.storage < s.nextStorage)
    (hKey : s.runtime.pinnedCache tensor.ident = none)
    (hShared : (∃ ident other, s.objects ident = some other ∧ other.storage = tensor.storage) ∨
      ∀ key cached, s.runtime.pinnedCache key = some cached → tensor.storage ≠ cached.storage) :
    Faithful { s with objects := update s.objects tensor.ident (some tensor) } := by
  -- Only the new identity holds another object than before.
  have hObjects : ∀ ident other, update s.objects tensor.ident (some tensor) ident = some other →
      (ident = tensor.ident ∧ other = tensor) ∨ s.objects ident = some other := by
    intro ident other hObject
    by_cases hSame : ident = tensor.ident
    · subst hSame
      rw [update_self] at hObject
      exact .inl ⟨rfl, (Option.some.inj hObject).symm⟩
    · rw [update_of_ne hSame] at hObject
      exact .inr hObject
  refine { hFaithful with object_ident := ?_, object_allocated := ?_, entry := ?_ }
  · intro ident other hObject
    rcases hObjects ident other hObject with ⟨rfl, rfl⟩ | hOld
    · rfl
    · exact hFaithful.object_ident ident other hOld
  · intro ident other hObject
    rcases hObjects ident other hObject with ⟨_, rfl⟩ | hOld
    · exact hAllocated
    · exact hFaithful.object_allocated ident other hOld
  · intro key cached hCached
    have hEntry := hFaithful.entry key cached hCached
    have hOther : key ≠ tensor.ident := by
      intro hSame
      simp only [hSame, hKey] at hCached
      cases hCached
    refine ⟨hEntry.allocated, ?_, ?_⟩
    · rcases hEntry.owned with hSelf | hAlone
      · left
        simp only
        rw [update_of_ne hOther]
        exact hSelf
      · right
        intro ident other hObject
        rcases hObjects ident other hObject with ⟨_, rfl⟩ | hOld
        · rcases hShared with ⟨base, owner, hOwner, hStorage⟩ | hOwn
          · rw [← hStorage]
            exact hAlone base owner hOwner
          · exact hOwn key cached hCached
        · exact hAlone ident other hOld
    · intro other hObject
      rcases hObjects key other hObject with ⟨hSame, _⟩ | hOld
      · exact absurd hSame hOther
      · exact hEntry.current other hOld

private theorem allocate (hStorage : tensor.storage = s.nextStorage)
    (hKey : s.runtime.pinnedCache tensor.ident = none) :
    Faithful (PinnedCache.allocate s tensor bytes) := by
  have hWritten := write_fresh hFaithful bytes 1
  unfold PinnedCache.allocate
  rw [hStorage]
  apply add_object hWritten tensor
  · rw [hStorage]
    exact Nat.lt_succ_self _
  · exact hKey
  · right
    intro key cached hCached
    rw [hStorage]
    exact (hFaithful.entry key cached hCached).allocated.ne'

variable {ident : Ident}

private theorem mutate {tensor : Tensor} (bytes : V) (hObject : s.objects ident = some tensor)
    (hSeparate : ¬ HasSeparateCopy s tensor.storage)
    (hPending : ∀ copy ∈ s.pending, copy.source ≠ tensor.storage) :
    Faithful { s with contents := update s.contents tensor.storage bytes } := by
  refine { hFaithful with entry := ?_, pending_current := ?_ }
  · intro key cached hCached
    have hEntry := hFaithful.entry key cached hCached
    refine ⟨hEntry.allocated, hEntry.owned, ?_⟩
    intro other hOther
    rcases hEntry.owned with hSelf | hAlone
    · have hSame : cached = other := Option.some.inj (hSelf.symm.trans hOther)
      rw [hSame]
    · have hCachedKept : cached.storage ≠ tensor.storage := (hAlone ident tensor hObject).symm
      have hOtherKept : other.storage ≠ tensor.storage := by
        intro hStorage
        apply hSeparate
        refine ⟨key, other, cached, hOther, hStorage, hCached, ?_⟩
        intro hSame
        exact hAlone key other hOther (by rw [hSame])
      simp only
      rw [update_of_ne hCachedKept, update_of_ne hOtherKept]
      exact hEntry.current other hOther
  · intro copy hCopy
    rcases hFaithful.pending_current copy hCopy with ⟨hAllocated, hCurrent⟩
    refine ⟨hAllocated, ?_⟩
    simp only
    rw [update_of_ne (hPending copy hCopy)]
    exact hCurrent

private theorem free (hNotKept : s.runtime.pinnedCache ident ≠ s.objects ident) :
    Faithful { s with objects := update s.objects ident none } := by
  have hObjects : ∀ other tensor, update s.objects ident none other = some tensor →
      s.objects other = some tensor := by
    intro other tensor hObject
    by_cases hSame : other = ident
    · subst hSame
      rw [update_self] at hObject
      cases hObject
    · rwa [update_of_ne hSame] at hObject
  refine { hFaithful with object_ident := ?_, object_allocated := ?_, entry := ?_ }
  · intro other tensor hObject
    exact hFaithful.object_ident other tensor (hObjects other tensor hObject)
  · intro other tensor hObject
    exact hFaithful.object_allocated other tensor (hObjects other tensor hObject)
  · intro key cached hCached
    have hEntry := hFaithful.entry key cached hCached
    refine ⟨hEntry.allocated, ?_, fun tensor hObject =>
      hEntry.current tensor (hObjects key tensor hObject)⟩
    rcases hEntry.owned with hSelf | hAlone
    · have hOther : key ≠ ident := by
        intro hSame
        subst hSame
        exact hNotKept (hCached.trans hSelf.symm)
      left
      simp only
      rw [update_of_ne hOther]
      exact hSelf
    · right
      intro other tensor hObject
      exact hAlone other tensor (hObjects other tensor hObject)

/- New tables keep the invariant when every entry of their
   cache is in order. -/
private theorem set_runtime (runtime : DeviceStreamRuntime)
    (hEntries : ∀ key cached, runtime.pinnedCache key = some cached →
      Entry s.objects s.contents s.nextStorage key cached) :
    Faithful { s with runtime := runtime } :=
  { hFaithful with entry := hEntries }

/- A copy that was made from memory equal to the value. -/
private theorem add_copied (copy : Copied V) (hCurrent : copy.bytes = copy.expected) :
    Faithful { s with copied := copy :: s.copied } := by
  refine { hFaithful with copied_current := ?_ }
  intro other hOther
  rcases List.mem_cons.mp hOther with rfl | hOld
  · exact hCurrent
  · exact hFaithful.copied_current other hOld

/- Other pending copies, each from memory that holds what
   it is expected to copy. -/
private theorem set_pending (pending : List (Pending V))
    (hPending : ∀ copy ∈ pending, copy.source < s.nextStorage ∧
      s.contents copy.source = copy.expected) : Faithful { s with pending := pending } :=
  { hFaithful with pending_current := hPending }

variable {value : Tensor}

/- A launch from memory that holds what the value holds. -/
private theorem launch {source : Tensor} (hAllocated : source.storage < s.nextStorage)
    (hCurrent : s.contents source.storage = s.contents value.storage)
    (transfer : DeviceStreamRuntime.Transfer)
    (hTransfer : transfer = .blocking source ∨ ∃ index dest nonBlocking, transfer =
      .onCopyStream index source dest nonBlocking) :
    Faithful (PinnedCache.launch s value transfer) := by
  rcases hTransfer with rfl | ⟨index, dest, nonBlocking, rfl⟩
  · exact add_copied hFaithful _ hCurrent
  cases nonBlocking with
  | false => exact add_copied hFaithful _ hCurrent
  | true =>
    apply set_pending hFaithful
    intro copy hCopy
    rcases List.mem_append.mp hCopy with hOld | hNew
    · exact hFaithful.pending_current copy hOld
    · rw [List.mem_singleton.mp hNew]
      exact ⟨hAllocated, hCurrent⟩

/-
  After a source was looked up every entry is in order: a
  new entry is the value itself or a copy in new memory.
-/
private theorem pinnedHost_entry (hValue : s.objects value.ident = some value)
    (pinned : Option Ident) (buffer : Ident) (key : Ident) (cached : Tensor)
    (hCached : (s.runtime.pinnedHost value (newObjects s.nextStorage value pinned buffer).pinMemory
      ).2.pinnedCache key = some cached) :
    Entry s.objects (pinContents s value) (s.nextStorage + 2) key cached := by
  have hWritten := write_fresh hFaithful (s.contents value.storage) 2
  have hLow := hFaithful.object_allocated _ value hValue
  rcases s.runtime.pinnedHost_cases value
      (newObjects s.nextStorage value pinned buffer).pinMemory with
    ⟨_, _, hResult⟩ | ⟨source, _, hSource, hResult⟩
  · rw [hResult] at hCached
    exact hWritten.entry key cached hCached
  rw [hResult] at hCached
  by_cases hKey : key = value.ident
  · subst hKey
    simp only [update_self] at hCached
    cases hCached
    have hSelf : ∀ tensor, s.objects value.ident = some tensor → tensor = value :=
      fun tensor hTensor => Option.some.inj (hTensor.symm.trans hValue)
    rcases hSource with rfl | hCopy
    · refine ⟨Nat.lt_add_right 2 hLow, .inl hValue, ?_⟩
      intro tensor hTensor
      rw [hSelf tensor hTensor]
    · have hNew : cached.storage = s.nextStorage := by
        rcases Option.map_eq_some_iff.mp hCopy with ⟨_, _, hCopied⟩
        rw [← hCopied]
      refine ⟨?_, .inr ?_, ?_⟩
      · rw [hNew]
        exact Nat.lt_add_of_pos_right (by decide)
      · intro ident tensor hTensor
        rw [hNew]
        exact (hFaithful.object_allocated ident tensor hTensor).ne
      · intro tensor hTensor
        rw [hSelf tensor hTensor, hNew]
        unfold pinContents
        rw [update_self, update_of_ne hLow.ne]
  · simp only [update_of_ne hKey] at hCached
    exact hWritten.entry key cached hCached

private theorem transfer (hValue : s.objects value.ident = some value) (target : Device)
    (pinned : Option Ident) (buffer : Ident) :
    Faithful (PinnedCache.transfer s value target pinned buffer) := by
  have hWritten := write_fresh hFaithful (s.contents value.storage) 2
  unfold PinnedCache.transfer
  split
  · next hToDevice =>
    have hEntries := pinnedHost_entry hFaithful hValue pinned buffer
    rcases s.runtime.transfer_toDevice (newObjects s.nextStorage value pinned buffer)
        hToDevice.1 hToDevice.2 with
      hBlocking | ⟨index, dest, nonBlocking, hStream, hCache⟩
    · rw [hBlocking]
      exact launch hWritten (Nat.lt_add_right 2 (hFaithful.object_allocated _ value hValue))
        rfl _ (.inl rfl)
    · have hSource := hEntries value.ident _ (DeviceStreamRuntime.pinnedHost_cached value _)
      have hTables := set_runtime hWritten (s.runtime.transfer value target
            (newObjects s.nextStorage value pinned buffer)).2
          (by rw [hCache]; exact hEntries)
      exact launch hTables hSource.allocated (hSource.current value hValue) _
        (.inr ⟨index, dest, nonBlocking, hStream⟩)
  · next hOther =>
    apply set_runtime hWritten
    rw [DeviceStreamRuntime.transfer_otherwise _ hOther]
    exact hWritten.entry

private theorem copyDone {index : Nat} (hDone : PinnedCache.copyDone s index = some s') :
    Faithful s' := by
  rcases Option.map_eq_some_iff.mp hDone with ⟨copy, hFound, rfl⟩
  have hCopy : copy ∈ s.pending := List.mem_of_find?_eq_some hFound
  have hLeft := set_pending hFaithful (s.pending.eraseP (fun c => c.index = index))
    (fun other hOther => hFaithful.pending_current other (List.mem_of_mem_eraseP hOther))
  exact add_copied hLeft _ (hFaithful.pending_current copy hCopy).2

/- An allowed step keeps the invariant. -/
theorem step (event : Event V) (hKept : SourceKept s event)
    (hStep : PinnedCache.step s event = some s') : Faithful s' := by
  cases event with
  | allocate ident device shape dtype pinned bytes =>
    simp only [PinnedCache.step] at hStep
    split at hStep
    · cases hStep
      exact hFaithful.allocate _ bytes rfl hKept
    · cases hStep
  | view ident base shape =>
    simp only [PinnedCache.step] at hStep
    split at hStep
    · next tensor hBase _ =>
      cases hStep
      exact hFaithful.add_object { tensor with ident := ident, shape := shape }
        (hFaithful.object_allocated base tensor hBase) hKept
        (.inl ⟨base, tensor, hBase, rfl⟩)
    · cases hStep
  | mutate ident bytes =>
    rcases Option.map_eq_some_iff.mp hStep with ⟨tensor, hObject, rfl⟩
    rcases hKept tensor hObject with ⟨hSeparate, hPending⟩
    exact hFaithful.mutate bytes hObject hSeparate hPending
  | free ident =>
    simp only [PinnedCache.step] at hStep
    split at hStep
    · next hGuard =>
      cases hStep
      exact hFaithful.free hGuard.2
    · cases hStep
  | transfer ident target pinned buffer =>
    rcases Option.map_eq_some_iff.mp hStep with ⟨value, hObject, rfl⟩
    have hIdent := hFaithful.object_ident ident value hObject
    subst hIdent
    exact hFaithful.transfer hObject target pinned buffer
  | copyDone index => exact hFaithful.copyDone hStep
  | close =>
    simp only [PinnedCache.step] at hStep
    split at hStep
    · cases hStep
      apply hFaithful.set_runtime
      intro key cached hCached
      cases hCached
    · cases hStep

end

end Faithful

----
-- Transfers Copy the Current Value
----

/-
  When sources of cached and pending copies are kept, every
  copy to a device holds what the transferred tensor held
  when `transfer` was called.
-/
theorem transfers_copy_current_value (pairs : List Nat) (contents : StorageId → V) (s : State V)
    (hReach : Transition.Reachable step SourceKept (.new pairs contents) s) : CopiesCurrent s := by
  have hFaithful : Faithful s := hReach.invariant Faithful (fun _ event _ hBefore hKept hStep =>
        hBefore.step event hKept hStep)
      (.new pairs contents)
  exact hFaithful.copied_current

/- A page-locked weight is its own cache entry: it may be
   updated once its copy is done. -/
def pinnedRun : List (Event Nat) :=
  [.allocate 1 .cpu [2] "float32" true 10, .transfer 1 (.cuda (some 0)) none 2, .copyDone 0,
    .mutate 1 20, .transfer 1 (.cuda (some 0)) none 3, .copyDone 0]

theorem pinned_run_copies_current_value :
    ∃ s, Transition.run step (.new [0] (fun _ => 0)) pinnedRun = some s ∧
      s.copied = [⟨20, 20⟩, ⟨10, 10⟩] ∧ CopiesCurrent s := by
  refine ⟨_, rfl, rfl, ?_⟩
  apply transfers_copy_current_value [0] (fun _ => 0)
  apply Transition.Reachable.of_run pinnedRun _ rfl
  refine ⟨rfl, ?_⟩
  rintro _ ⟨⟩
  refine ⟨trivial, ?_⟩
  rintro _ ⟨⟩
  refine ⟨trivial, ?_⟩
  rintro _ ⟨⟩
  constructor
  · rintro tensor ⟨⟩
    refine ⟨?_, fun copy hCopy => by cases hCopy⟩
    rintro ⟨key, other, cached, hObject, _, hCached, hNe⟩
    by_cases hKey : key = 1
    · subst hKey
      cases hObject
      cases hCached
      exact hNe rfl
    · change update _ 1 _ key = _ at hObject
      rw [update_of_ne hKey] at hObject
      cases hObject
  rintro _ ⟨⟩
  refine ⟨trivial, ?_⟩
  rintro _ ⟨⟩
  exact ⟨trivial, fun _ _ => trivial⟩

/- A weight is moved, updated in place and moved again. -/
def mutatedRun : List (Event Nat) :=
  [.allocate 1 .cpu [2] "float32" false 10, .transfer 1 (.cuda (some 0)) (some 2) 3, .copyDone 0,
    .mutate 1 20, .transfer 1 (.cuda (some 0)) none 4, .copyDone 0]

/- The second copy holds the contents before the update. -/
theorem mutated_weight_copies_stale_value :
    ∃ s, Transition.run step (.new [0] (fun _ => 0)) mutatedRun = some s ∧ ¬ CopiesCurrent s := by
  refine ⟨_, rfl, ?_⟩
  intro hCurrent
  have hStale := hCurrent ⟨10, 20⟩ (List.mem_cons_self ..)
  cases hStale

end PinnedCache

end TensorTorrent
