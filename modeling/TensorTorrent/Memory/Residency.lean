import TensorTorrent.Ir.Schedule

/-
  This file models physical allocation accounting and the
  multi-copy residency store (crate `tt-memory`:
  `allocation.rs`, `residency.rs`, `error.rs`). Hash maps
  that are only looked up are functions into `Option`.

  Key definitions include:
    * `MemoryError`
    * `AllocationTable`
    * `AllocationTable.register`
    * `AllocationTable.release`
    * `ResidencyStore`
    * `ResidencyStore.get`
    * `ResidencyStore.putOpaque`
    * `ResidencyStore.replicate`
    * `ResidencyStore.releaseCopy`
-/

namespace TensorTorrent

open Function (update)

----
-- Errors and Machine Integers
----

/- `saturating_add` at a width. -/
def saturatingAdd (width a b : Nat) : Nat :=
  min (a + b) (2 ^ width - 1)

inductive MemoryError where
| notResident (tensor : TensorId) (resource : ResourceId)
| versionMismatch (tensor : TensorId) (expected found : UInt64)
| allocationMissing (allocation : AllocationId)
| leaseUnderflow (tensor : TensorId) (resource : ResourceId)
| aliasUnsafeRelease (tensor : TensorId) (leases : Nat)
| capacityExceeded (resource : ResourceId) (need free : Nat)
| other (message : String)
deriving DecidableEq

/- Display text of a memory error. -/
def MemoryError.message : MemoryError → String
| notResident tensor resource => "tensor " ++ tensor ++ " not resident on resource " ++ resource
| versionMismatch tensor expected found =>
  "tensor " ++ tensor ++ " version mismatch: expected " ++
    toString expected ++ ", found " ++ toString found
| allocationMissing allocation => "allocation " ++ allocation ++ " not found"
| leaseUnderflow tensor resource => "lease underflow for tensor " ++ tensor ++ " on " ++ resource
| aliasUnsafeRelease tensor leases =>
  "alias-unsafe release of tensor " ++ tensor ++ ": active_leases=" ++ toString leases
| capacityExceeded resource need free =>
  "capacity exceeded on resource " ++ resource ++ ": need " ++ toString need ++ ", free " ++
    toString free
| other message => message

----
-- Physical Allocations
----

structure PhysicalAllocation where
  resource : ResourceId
  capacityBytes : Nat
  alignment : Nat
  referenceCount : Nat

/- Allocation accounting with optional resource ceilings. -/
structure AllocationTable where
  allocs : AllocationId → Option PhysicalAllocation
  liveBytes : Nat
  peakBytes : Nat
  capacityLimits : ResourceId → Option Nat
  liveByResource : ResourceId → Nat

namespace AllocationTable

def empty : AllocationTable :=
  { allocs := fun _ => none
    liveBytes := 0, peakBytes := 0
    capacityLimits := fun _ => none
    liveByResource := fun _ => 0 }

section

variable (table : AllocationTable) (id : AllocationId)

/-
  Registers an allocation or bumps its reference count. A
  known id keeps its first resource.
-/
def register (resource : ResourceId) (capacityBytes alignment : Nat) :
    Except MemoryError AllocationTable :=
  match table.allocs id with
  | some rec =>
    if rec.capacityBytes ≠ capacityBytes ∨ rec.alignment ≠ alignment then
      .error (.other ("allocation " ++ id ++ " metadata mismatch: capacity/alignment " ++
        toString rec.capacityBytes ++ "/" ++ toString rec.alignment ++ " != " ++
        toString capacityBytes ++ "/" ++ toString alignment))
    else if rec.referenceCount + 1 ≥ 2 ^ 32 then
      .error (.other ("allocation " ++ id ++ " reference count overflow"))
    else
      .ok { table with
        allocs := update table.allocs id
          (some { rec with referenceCount := rec.referenceCount + 1 }) }
  | none =>
    let live := table.liveByResource resource
    let added := saturatingAdd 64 live capacityBytes
    let inserted : AllocationTable :=
      { table with
        allocs := update table.allocs id (some
          { resource := resource, capacityBytes := capacityBytes, alignment := alignment
            referenceCount := 1 })
        liveBytes := saturatingAdd 64 table.liveBytes capacityBytes
        peakBytes := max table.peakBytes (saturatingAdd 64 table.liveBytes capacityBytes)
        liveByResource := update table.liveByResource resource added }
    match table.capacityLimits resource with
    | some limit =>
      if added > limit then
        .error (.capacityExceeded resource capacityBytes (limit - live))
      else .ok inserted
    | none => .ok inserted

/- Drops one reference and returns the bytes it freed. -/
def release : Except MemoryError (Nat × AllocationTable) :=
  match table.allocs id with
  | none => .error (.allocationMissing id)
  | some rec =>
    if rec.referenceCount = 0 then
      .error (.allocationMissing id)
    else if rec.referenceCount - 1 > 0 then
      .ok (0, { table with
        allocs := update table.allocs id
          (some { rec with referenceCount := rec.referenceCount - 1 }) })
    else
      .ok (rec.capacityBytes, { table with
        allocs := update table.allocs id none, liveBytes := table.liveBytes - rec.capacityBytes
        liveByResource :=
          update table.liveByResource rec.resource
            (table.liveByResource rec.resource - rec.capacityBytes) })

/- `let _ = allocations.release(id)`. -/
def releaseQuietly : AllocationTable :=
  match table.release id with
  | .ok freed => freed.2
  | .error _ => table

def referenceCount : Option Nat :=
  (table.allocs id).map PhysicalAllocation.referenceCount

end

end AllocationTable

----
-- Logical Tensors
----

structure TensorMetadata where
  shape : List Int := []
  strides : List Int := []
  storageOffset : Int := 0
  dtype : String := ""
  nbytes : Nat := 0
  storageNbytes : Nat := 0
  aliasGroup : Option String := none

/- Bytes a copy of the tensor occupies. -/
def TensorMetadata.capacity (metadata : TensorMetadata) : Nat :=
  max (max metadata.storageNbytes metadata.nbytes) 1

structure ResidentCopy where
  resource : ResourceId
  allocation : AllocationId
  version : UInt64
  readyEvent : Option String
  activeLeases : Nat
  valid : Bool
  authoritative : Bool
  storageOffset : Int
  shape : List Int
  strides : List Int
  externalHandle : Option Nat

structure LogicalTensorRecord where
  version : UInt64
  metadata : TensorMetadata
  aliasGroup : Option String
  copies : ResourceId → Option ResidentCopy

/- Authoritative multi-copy residency store. -/
structure ResidencyStore where
  tensors : TensorId → Option LogicalTensorRecord
  inflightTransfers : TensorId × ResourceId → Option InstructionId
  allocations : AllocationTable

namespace ResidencyStore

def empty : ResidencyStore :=
  { tensors := fun _ => none
    inflightTransfers := fun _ => none
    allocations := .empty }

section

variable (store : ResidencyStore) (tensor : TensorId) (resource : ResourceId)

/- A copy that is stored, valid or not. -/
def copy? : Option ResidentCopy :=
  (store.tensors tensor).bind (fun entry => entry.copies resource)

/- Replaces or removes one stored copy of a known tensor. -/
def setCopy (copy : Option ResidentCopy) : ResidencyStore :=
  { store with
    tensors := update store.tensors tensor ((store.tensors tensor).map (fun entry =>
      { entry with copies := update entry.copies resource copy })) }

/- A valid copy; a stale one counts as missing. -/
def get : Except MemoryError ResidentCopy :=
  match store.copy? tensor resource with
  | none => .error (.notResident tensor resource)
  | some copy =>
    if copy.valid then .ok copy
    else .error (.notResident tensor resource)

/- `residency.get(tensor, resource).is_ok()`. -/
def has : Bool :=
  match store.get tensor resource with
  | .ok _ => true
  | .error _ => false

end

/- Sibling copies lose validity when a tensor is written. -/
def invalidateSiblings (resource : ResourceId) (copies : ResourceId → Option ResidentCopy)
    (rid : ResourceId) : Option ResidentCopy :=
  if rid = resource then copies rid
  else (copies rid).map (fun copy => { copy with valid := false, authoritative := false })

/-
  Allocation bookkeeping when a stored copy is replaced:
  the previous reference goes, or the extra one just taken
  when the allocation is the same. Both cases release the
  previous copy's id.
-/
def releasePrevious (table : AllocationTable) (prev : Option ResidentCopy) : AllocationTable :=
  match prev with
  | none => table
  | some copy => table.releaseQuietly copy.allocation

section

variable (store : ResidencyStore) (tensor : TensorId)

section

variable (resource : ResourceId) (allocation : AllocationId) (metadata : TensorMetadata)
variable (readyEvent : Option String)

/-
  Writes a tensor on one resource: the logical version
  grows and every sibling copy becomes stale.
-/
def putOpaque (externalHandle : Option Nat) : Except MemoryError (ResidentCopy × ResidencyStore) :=
  match store.allocations.register allocation resource metadata.capacity 64 with
  | .error err => .error err
  | .ok registered =>
    let entry := store.tensors tensor
    let version := (entry.map (fun t => t.version + 1)).getD 1
    let copies := (entry.map LogicalTensorRecord.copies).getD (fun _ => none)
    let copy : ResidentCopy :=
      { resource := resource, allocation := allocation, version := version, readyEvent := readyEvent
        activeLeases := 0, valid := true, authoritative := true
        storageOffset := metadata.storageOffset, shape := metadata.shape
        strides := metadata.strides, externalHandle := externalHandle }
    .ok (copy, { store with
      allocations := releasePrevious registered (copies resource)
      tensors := update store.tensors tensor (some
        { version := version, metadata := metadata, aliasGroup := metadata.aliasGroup
          copies := update (invalidateSiblings resource copies) resource (some copy) }) })

def put : Except MemoryError (ResidentCopy × ResidencyStore) :=
  store.putOpaque tensor resource allocation metadata readyEvent none

end

/-
  Maps a valid copy onto another resource name with the
  same allocation.
-/
def aliasSameAllocation (srcResource dstResource : ResourceId) :
    Except MemoryError (ResidentCopy × ResidencyStore) :=
  match store.get tensor srcResource with
  | .error err => .error err
  | .ok src =>
    if srcResource = dstResource then .ok (src, store)
    else
      let capacity :=
        max (((store.allocations.allocs src.allocation).map
          PhysicalAllocation.capacityBytes).getD 1) 1
      match store.allocations.register src.allocation dstResource capacity 64 with
      | .error err => .error err
      | .ok registered =>
        match store.tensors tensor with
        | none => .error (.notResident tensor dstResource)
        | some entry =>
          if entry.version ≠ src.version then
            .error (.versionMismatch tensor src.version entry.version)
          else
            let copy : ResidentCopy :=
              { src with
                resource := dstResource, activeLeases := 0, valid := true, authoritative := false }
            .ok (copy, { store.setCopy tensor dstResource (some copy) with
              allocations := releasePrevious registered (entry.copies dstResource) })

section

variable (resource : ResourceId)

/- Copies a tensor across resources at its own version. -/
def replicate (allocation : AllocationId) (readyEvent : Option String) :
    Except MemoryError (ResidentCopy × ResidencyStore) :=
  match store.tensors tensor with
  | none => .error (.notResident tensor resource)
  | some entry =>
    match store.allocations.register allocation resource entry.metadata.capacity 64 with
    | .error err => .error err
    | .ok registered =>
      let copy : ResidentCopy :=
        { resource := resource, allocation := allocation, version := entry.version
          readyEvent := readyEvent, activeLeases := 0, valid := true, authoritative := false
          storageOffset := entry.metadata.storageOffset, shape := entry.metadata.shape
          strides := entry.metadata.strides, externalHandle := none }
      .ok (copy, { store.setCopy tensor resource (some copy) with
        allocations := releasePrevious registered (entry.copies resource) })

/- Binds the opaque handle of a valid copy. -/
def setExternalHandle (handle : Nat) : Except MemoryError ResidencyStore :=
  match store.get tensor resource with
  | .error err => .error err
  | .ok copy =>
    .ok (store.setCopy tensor resource (some { copy with externalHandle := some handle }))

def acquireLease : Except MemoryError ResidencyStore :=
  match store.get tensor resource with
  | .error err => .error err
  | .ok copy =>
    .ok (store.setCopy tensor resource
      (some { copy with activeLeases := saturatingAdd 32 copy.activeLeases 1 }))

/- Drops a lease of a stored copy, even of a stale one. -/
def releaseLease : Except MemoryError ResidencyStore :=
  match store.copy? tensor resource with
  | none => .error (.notResident tensor resource)
  | some copy =>
    if copy.activeLeases = 0 then
      .error (.leaseUnderflow tensor resource)
    else
      .ok (store.setCopy tensor resource (some { copy with activeLeases := copy.activeLeases - 1 }))

/- `let _ = residency.release_lease(tensor, resource)`. -/
def releaseLeaseQuietly : ResidencyStore :=
  match store.releaseLease tensor resource with
  | .ok released => released
  | .error _ => store

/-
  Removes a stored copy without leases. The copy is already
  gone when its allocation turns out to be missing.
-/
def releaseCopy : Except MemoryError Nat × ResidencyStore :=
  match store.copy? tensor resource with
  | none => (.error (.notResident tensor resource), store)
  | some copy =>
    if copy.activeLeases > 0 then
      (.error (.aliasUnsafeRelease tensor copy.activeLeases), store)
    else
      let removed := store.setCopy tensor resource none
      match store.allocations.release copy.allocation with
      | .error err => (.error err, removed)
      | .ok freed => (.ok freed.1, { removed with allocations := freed.2 })

end

/- Notes a transfer unless one is already in progress. -/
def beginTransfer (dest : ResourceId) (transferId : InstructionId) :
    Option InstructionId × ResidencyStore :=
  match store.inflightTransfers (tensor, dest) with
  | some existing => (some existing, store)
  | none =>
    (none, { store with
      inflightTransfers := update store.inflightTransfers (tensor, dest) (some transferId) })

def endTransfer (dest : ResourceId) : ResidencyStore :=
  { store with inflightTransfers := update store.inflightTransfers (tensor, dest) none }

def logicalVersion : UInt64 :=
  ((store.tensors tensor).map LogicalTensorRecord.version).getD 0

end

end ResidencyStore

end TensorTorrent
