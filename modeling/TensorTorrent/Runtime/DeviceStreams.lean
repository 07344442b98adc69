import TensorTorrent.Library.Transition

/-
  This file models the tables of a device stream runtime
  (`runtime/device_streams.py`, `runtime/pinning.py`): the
  cache of page-locked copies, the pool of device buffers
  and the set of buffers that were handed out. The functions
  decide what a call copies; what runs when is modelled
  where they are used.

  Main declarations:
    * `DeviceStreamRuntime.pinnedHost_cases`
    * `DeviceStreamRuntime.transfer_toDevice`
-/

namespace TensorTorrent

open Function (update update_apply update_self)

----
-- Tensors
----

/- `id(...)` of an object; free to be used again later. -/
abbrev Ident := Nat

/- A block of memory; its number is never used again. -/
abbrev StorageId := Nat

/- A `torch.device`; a CUDA device may leave its index
   open. -/
inductive Device where
| cpu
| cuda (index : Option Nat)
| other (name : String)
deriving DecidableEq

namespace Device

def isCuda : Device → Bool
| cuda _ => true
| _ => false

/- `int(device.index) if device.index is not None else 0` -/
def indexOrZero : Device → Nat
| cuda (some index) => index
| _ => 0

end Device

structure Tensor where
  ident : Ident
  storage : StorageId
  device : Device
  shape : List Nat
  dtype : String
  pinned : Bool
deriving DecidableEq

----
-- Tables of the Runtime
----

/- Device index, shape and data type of pooled buffers. -/
abbrev PoolKey := Nat × List Nat × String

structure DeviceStreamRuntime where
  -- Indices of the devices that have a pair of streams.
  pairs : List Nat
  pinnedCache : Ident → Option Tensor
  bufferPool : PoolKey → List Tensor
  issued : Ident → Bool

namespace DeviceStreamRuntime

def poolKeep : Nat := 8

def new (pairs : List Nat) : DeviceStreamRuntime :=
  { pairs := pairs
    pinnedCache := fun _ => none
    bufferPool := fun _ => []
    issued := fun _ => false }

def pairForDevice (runtime : DeviceStreamRuntime) (device : Device) : Option Nat :=
  if !device.isCuda then none
  else if runtime.pairs.contains device.indexOrZero then
    some device.indexOrZero
  else none

variable (pinMemory : Option Tensor) (tensor : Tensor)

/-
  `pin_for_dma`. `pinMemory` is the new tensor, or `none`
  when CUDA is not available or page-locking raises.
-/
def pinForDma : Tensor :=
  if tensor.device ≠ .cpu ∨ tensor.pinned then tensor
  else pinMemory.getD tensor

/- `_pinned_host`: the key is the identity alone. -/
def pinnedHost (runtime : DeviceStreamRuntime) (value : Tensor) (pinMemory : Option Tensor) :
    Tensor × DeviceStreamRuntime :=
  match runtime.pinnedCache value.ident with
  | some cached => (cached, runtime)
  | none =>
    (pinForDma pinMemory value, { runtime with
      pinnedCache := update runtime.pinnedCache value.ident (some (pinForDma pinMemory value)) })

/-
  `acquire_buffer` on a CUDA device: the last buffer of the
  pool, or a new one with the given identity and storage. A
  new buffer always knows its index.
-/
def acquireBuffer (runtime : DeviceStreamRuntime) (shape : List Nat) (dtype : String)
    (device : Device) (ident : Ident) (storage : StorageId) : Tensor × DeviceStreamRuntime :=
  let key : PoolKey := (device.indexOrZero, shape, dtype)
  let empty : Tensor :=
    { ident, storage, shape, dtype
      device := .cuda (some device.indexOrZero), pinned := false }
  let buf := (runtime.bufferPool key).getLast?.getD empty
  (buf, { runtime with
    bufferPool := update runtime.bufferPool key (runtime.bufferPool key).dropLast
    issued := update runtime.issued buf.ident true })

def releaseKey : PoolKey :=
  (tensor.device.indexOrZero, tensor.shape, tensor.dtype)

/- `release_buffer`: a full pool lets the buffer go. -/
def releaseBuffer (runtime : DeviceStreamRuntime) (tensor : Tensor) : DeviceStreamRuntime :=
  if !tensor.device.isCuda then runtime
  else if !runtime.issued tensor.ident then runtime
  else
    let pool := runtime.bufferPool (releaseKey tensor)
    { runtime with
      issued := update runtime.issued tensor.ident false
      bufferPool :=
        update runtime.bufferPool (releaseKey tensor)
          (if pool.length < poolKeep then pool ++ [tensor]
          else pool) }

----
-- Transfers
----

/- What a call of `transfer` copies, and how. -/
inductive Transfer where
  -- The tensor is on the target already.
| resident
-- `value.to(target)` on the current stream.
| blocking (source : Tensor)
-- On the copy stream of a device; without a buffer the
-- destination is a new tensor.
| onCopyStream (index : Nat) (source : Tensor) (dest : Option Tensor) (nonBlocking : Bool)
deriving DecidableEq

/- Names for the objects a call may create. -/
structure NewObjects where
  pinMemory : Option Tensor
  bufferIdent : Ident
  bufferStorage : StorageId

/-
  The objects a transfer of `value` may create, in memory
  from `next` on. `pinned` is the identity of the page-locked
  copy, or `none` when page-locking does not happen.
-/
def newObjects (next : StorageId) (value : Tensor) (pinned : Option Ident)
    (buffer : Ident) : NewObjects :=
  { pinMemory :=
      pinned.map (fun ident =>
        { value with ident := ident, storage := next, pinned := true })
    bufferIdent := buffer, bufferStorage := next + 1 }

/- The source of the copy and the tables after looking
   it up. -/
def transferSource (runtime : DeviceStreamRuntime) (value : Tensor) (target : Device)
    (objects : NewObjects) : Tensor × DeviceStreamRuntime :=
  if target.isCuda && value.device = .cpu then
    runtime.pinnedHost value objects.pinMemory
  else (value, runtime)

/- The destination buffer, for a CUDA target. -/
def transferDest (runtime : DeviceStreamRuntime) (source : Tensor) (target : Device)
    (objects : NewObjects) : Option Tensor × DeviceStreamRuntime :=
  if target.isCuda then
    let acquired :=
      runtime.acquireBuffer source.shape source.dtype target
        objects.bufferIdent objects.bufferStorage
    (some acquired.1, acquired.2)
  else (none, runtime)

/- The buffer serves when shape and data type agree. -/
def usableDest (source : Tensor) (dest : Option Tensor) : Option Tensor :=
  dest.filter (fun buf => buf.shape = source.shape && buf.dtype = source.dtype)

def transfer (runtime : DeviceStreamRuntime) (value : Tensor) (target : Device)
    (objects : NewObjects) : Transfer × DeviceStreamRuntime :=
  if value.device = target then (.resident, runtime)
  else
    match runtime.pairForDevice (if target.isCuda then target else value.device) with
    | none => (.blocking value, runtime)
    | some index =>
      let found := runtime.transferSource value target objects
      let dest := found.2.transferDest found.1 target objects
      (.onCopyStream index found.1 (usableDest found.1 dest.1)
        (found.1.pinned || found.1.device.isCuda), dest.2)

----
-- What the Functions Do
----

variable {runtime : DeviceStreamRuntime}

@[simp]
theorem transferDest_pinnedCache (runtime : DeviceStreamRuntime) (source : Tensor) (target : Device)
    (objects : NewObjects) :
    (runtime.transferDest source target objects).2.pinnedCache = runtime.pinnedCache := by
  unfold transferDest
  split_ifs <;> rfl

/- Page-locking gives the tensor itself or the copy. -/
theorem pinForDma_cases :
    pinForDma pinMemory tensor = tensor ∨ pinMemory = some (pinForDma pinMemory tensor) := by
  unfold pinForDma
  split_ifs
  · exact .inl rfl
  · cases pinMemory with
    | none => exact .inl rfl
    | some copy => exact .inr rfl

/-
  A source is found in the cache, or is the value or its
  new copy and is then cached under the value's identity.
-/
theorem pinnedHost_cases (value : Tensor) (pinMemory : Option Tensor) :
    (∃ cached, runtime.pinnedCache value.ident = some cached ∧
      runtime.pinnedHost value pinMemory = (cached, runtime)) ∨
    ∃ source, runtime.pinnedCache value.ident = none ∧ (source = value ∨ pinMemory = some source) ∧
      runtime.pinnedHost value pinMemory = (source, { runtime with
        pinnedCache := update runtime.pinnedCache value.ident (some source) }) := by
  unfold pinnedHost
  cases hCached : runtime.pinnedCache value.ident with
  | some cached => exact .inl ⟨cached, rfl, rfl⟩
  | none => exact .inr ⟨pinForDma pinMemory value, rfl, pinForDma_cases pinMemory value, rfl⟩

/- Afterwards the source is what the cache holds. -/
theorem pinnedHost_cached (value : Tensor) (pinMemory : Option Tensor) :
    (runtime.pinnedHost value pinMemory).2.pinnedCache value.ident =
      some (runtime.pinnedHost value pinMemory).1 := by
  rcases pinnedHost_cases value pinMemory with ⟨cached, hCached, hResult⟩ | ⟨source, _, _, hResult⟩
  · rw [hResult]
    exact hCached
  · rw [hResult]
    exact update_self _ _ _

variable {target : Device} {value : Tensor}

/-
  A transfer from the host to a CUDA device either copies
  the value and leaves the cache, or copies what
  `_pinned_host` gives.
-/
theorem transfer_toDevice (objects : NewObjects) (hHost : value.device = .cpu)
    (hCuda : target.isCuda = true) :
    (runtime.transfer value target objects = (.blocking value, runtime)) ∨
    ∃ index dest nonBlocking, (runtime.transfer value target objects).1 =
        .onCopyStream index (runtime.pinnedHost value objects.pinMemory).1 dest nonBlocking ∧
      (runtime.transfer value target objects).2.pinnedCache =
        (runtime.pinnedHost value objects.pinMemory).2.pinnedCache := by
  have hMoves : value.device ≠ target := by
    intro hSame
    rw [← hSame, hHost] at hCuda
    cases hCuda
  unfold transfer
  rw [if_neg hMoves]
  cases hPair : runtime.pairForDevice (if target.isCuda = true then target
    else value.device) with
  | none => exact .inl rfl
  | some index =>
    have hSource : runtime.transferSource value target objects =
        runtime.pinnedHost value objects.pinMemory := by
      simp [transferSource, hHost, hCuda]
    simp only [hSource]
    exact .inr ⟨index, _, _, rfl, transferDest_pinnedCache _ _ _ _⟩

/- Other transfers leave the cache alone. -/
theorem transfer_otherwise (objects : NewObjects)
    (hOther : ¬ (value.device = .cpu ∧ target.isCuda = true)) :
    (runtime.transfer value target objects).2.pinnedCache = runtime.pinnedCache := by
  have hSource : runtime.transferSource value target objects = (value, runtime) := by
    simp only [transferSource]
    rw [if_neg (by simpa [and_comm] using hOther)]
  unfold transfer
  split
  · rfl
  · split
    · rfl
    · simp [hSource]

/- A buffer comes from the pool or is new. -/
theorem acquireBuffer_cases (shape : List Nat) (dtype : String) (device : Device) (ident : Ident)
    (storage : StorageId) :
    (∃ key, (runtime.acquireBuffer shape dtype device ident storage).1 ∈ runtime.bufferPool key) ∨
    (runtime.acquireBuffer shape dtype device ident storage).1.storage = storage := by
  simp only [acquireBuffer]
  cases hLast : (runtime.bufferPool (device.indexOrZero, shape, dtype)).getLast? with
  | none =>
    right
    rfl
  | some buf =>
    left
    exact ⟨_, List.mem_of_getLast? hLast⟩

private theorem transferSource_bufferPool (value : Tensor) (target : Device)
    (objects : NewObjects) :
    (runtime.transferSource value target objects).2.bufferPool = runtime.bufferPool := by
  unfold transferSource pinnedHost
  split_ifs
  · split <;> rfl
  · rfl

private theorem transferDest_pool_subset (runtime : DeviceStreamRuntime) (source : Tensor)
    (target : Device) (objects : NewObjects) (key : PoolKey) :
    (runtime.transferDest source target objects).2.bufferPool key ⊆ runtime.bufferPool key := by
  unfold transferDest acquireBuffer
  split_ifs
  · intro buf hBuf
    simp only [update_apply] at hBuf
    split at hBuf
    · next hKey =>
      rw [hKey]
      exact List.mem_of_mem_dropLast hBuf
    · exact hBuf
  · exact List.Subset.refl _

/- A transfer puts nothing into the pool. -/
theorem transfer_pool_subset (value : Tensor) (target : Device) (objects : NewObjects)
    (key : PoolKey) :
    (runtime.transfer value target objects).2.bufferPool key ⊆ runtime.bufferPool key := by
  unfold transfer
  split
  · exact List.Subset.refl _
  split
  · exact List.Subset.refl _
  have hDest := (runtime.transferSource value target objects).2.transferDest_pool_subset
    (runtime.transferSource value target objects).1
    target objects key
  rw [transferSource_bufferPool] at hDest
  exact hDest

/- A copy goes to a pooled buffer or to new memory. -/
theorem transfer_dest {objects : NewObjects} {index : Nat} {source buf : Tensor}
    {nonBlocking : Bool}
    (hTransfer : (runtime.transfer value target objects).1 =
      .onCopyStream index source (some buf) nonBlocking) :
    (∃ key, buf ∈ runtime.bufferPool key) ∨ buf.storage = objects.bufferStorage := by
  unfold transfer at hTransfer
  split at hTransfer
  · cases hTransfer
  split at hTransfer
  · cases hTransfer
  rw [← transferSource_bufferPool value target objects]
  have hDest := Transfer.onCopyStream.inj hTransfer
  have hUsed := Option.eq_some_of_filter_eq_some hDest.2.2.1
  unfold transferDest at hUsed
  split at hUsed
  · cases hUsed
    exact acquireBuffer_cases _ _ _ _ _
  · cases hUsed

/- A release puts at most the tensor into the pool, and
   only one that was handed out. -/
theorem releaseBuffer_pool {tensor buf : Tensor} {key : PoolKey}
    (hBuf : buf ∈ (runtime.releaseBuffer tensor).bufferPool key) :
    buf ∈ runtime.bufferPool key ∨ (buf = tensor ∧ tensor.device.isCuda = true ∧
      runtime.issued tensor.ident = true) := by
  unfold releaseBuffer at hBuf
  split at hBuf
  · exact .inl hBuf
  rename_i hCuda
  split at hBuf
  · exact .inl hBuf
  rename_i hIssued
  simp only [update_apply] at hBuf
  split at hBuf
  · next hKey =>
    rw [hKey]
    split at hBuf
    · rcases List.mem_append.mp hBuf with hOld | hNew
      · exact .inl hOld
      · exact .inr ⟨List.mem_singleton.mp hNew, by simpa using hCuda, by simpa using hIssued⟩
    · exact .inl hBuf
  · exact .inl hBuf

end DeviceStreamRuntime

end TensorTorrent
