import TensorTorrent.Library.References
import TensorTorrent.Library.Transition
import TensorTorrent.Memory.Residency

/-
  This file models concurrent calls of the residency store
  (`residency.rs`). Two mutexes protect it: one for the
  tensors and one for the allocation table. A call is a
  sequence of critical sections; it drops the locks between
  them, except that it keeps the tensor lock while it
  releases the allocation of a copy it replaces.

  Main declarations:
    * `Sections.reference_counts_exact`
-/

namespace TensorTorrent

open AllocationTable References Transition
open Function (update update_eq_self update_of_ne update_self)

namespace Sections

----
-- Calls
----

structure PutOpaque where
  tensor : TensorId
  resource : ResourceId
  allocation : AllocationId
  metadata : TensorMetadata
  readyEvent : Option String
  externalHandle : Option Nat

structure AliasSameAllocation where
  tensor : TensorId
  srcResource : ResourceId
  dstResource : ResourceId

structure Replicate where
  tensor : TensorId
  resource : ResourceId
  allocation : AllocationId
  readyEvent : Option String

inductive Reply where
| copy (copy : ResidentCopy)
| done
| freed (bytes : Nat)

/-
  The next critical section of a call, with the values the
  call has read so far.
-/
inductive Point where
| putRegister (args : PutOpaque)
| putWrite (args : PutOpaque)
| aliasGet (args : AliasSameAllocation)
| aliasCapacity (args : AliasSameAllocation) (src : ResidentCopy)
| aliasRegister (args : AliasSameAllocation) (src : ResidentCopy) (capacity : Nat)
| aliasWrite (args : AliasSameAllocation) (src : ResidentCopy)
| replicateDescribe (args : Replicate)
| replicateRegister (args : Replicate) (version : UInt64) (metadata : TensorMetadata)
| replicateWrite (args : Replicate) (version : UInt64) (metadata : TensorMetadata)
| releasePrevious (tensor : TensorId) (copy : ResidentCopy) (prev : AllocationId)
| install (tensor : TensorId) (copy : ResidentCopy)
| undo (locked : Bool) (allocation : AllocationId) (err : MemoryError)
| setExternalHandle (tensor : TensorId) (resource : ResourceId) (handle : Nat)
| acquireLease (tensor : TensorId) (resource : ResourceId)
| releaseLease (tensor : TensorId) (resource : ResourceId)
| releaseCopy (tensor : TensorId) (resource : ResourceId)
| free (allocation : AllocationId)
| returned (result : Except MemoryError Reply)

/- Where calls start. -/
def Point.isEntry : Point → Bool
| .putRegister _ => true
| .aliasGet _ => true
| .replicateDescribe _ => true
| .setExternalHandle _ _ _ => true
| .acquireLease _ _ => true
| .releaseLease _ _ => true
| .releaseCopy _ _ => true
| _ => false

/- Sections that begin with `self.inner.lock()`. -/
def Point.locksInner : Point → Bool
| .putWrite _ => true
| .aliasGet _ => true
| .aliasWrite _ _ => true
| .replicateDescribe _ => true
| .replicateWrite _ _ _ => true
| .setExternalHandle _ _ _ => true
| .acquireLease _ _ => true
| .releaseLease _ _ => true
| .releaseCopy _ _ => true
| _ => false

/- Sections that begin while the call has the tensor lock. -/
def Point.holdsInner : Point → Bool
| .releasePrevious _ _ _ => true
| .install _ _ => true
| .undo locked _ _ => locked
| _ => false

----
-- Critical Sections
----

/-
  A previous copy under the same key gives its reference
  back before the new copy is inserted. For the same
  allocation that undoes the call's own registration.
-/
def replace (tensor : TensorId) (copy : ResidentCopy) (prev : Option ResidentCopy) : Point :=
  match prev with
  | none => .install tensor copy
  | some old => .releasePrevious tensor copy old.allocation

def ended (store : ResidencyStore) (result : Except MemoryError ResidencyStore) :
    ResidencyStore × Point :=
  match result with
  | .error err => (store, .returned (.error err))
  | .ok store' => (store', .returned (.ok .done))

namespace Point

section Write

variable (store : ResidencyStore)

/- The new version is visible; the copy is inserted last. -/
def writePut (args : PutOpaque) : ResidencyStore × Point :=
  let entry := store.tensors args.tensor
  let version := (entry.map (fun t => t.version + 1)).getD 1
  let copies := (entry.map LogicalTensorRecord.copies).getD (fun _ => none)
  let copy : ResidentCopy :=
    { resource := args.resource, allocation := args.allocation, version := version
      readyEvent := args.readyEvent, activeLeases := 0, valid := true, authoritative := true
      storageOffset := args.metadata.storageOffset, shape := args.metadata.shape
      strides := args.metadata.strides, externalHandle := args.externalHandle }
  ({ store with
      tensors := update store.tensors args.tensor (some
        { version := version, metadata := args.metadata, aliasGroup := args.metadata.aliasGroup
          copies := ResidencyStore.invalidateSiblings args.resource copies }) },
    replace args.tensor copy (copies args.resource))

def stillCurrent (src : ResidentCopy) (now : Option ResidentCopy) : Bool :=
  match now with
  | none => false
  | some copy => copy.valid && copy.version = src.version && copy.allocation = src.allocation

/- A missing record returns without undoing anything. -/
def writeAlias (args : AliasSameAllocation) (src : ResidentCopy) : ResidencyStore × Point :=
  match store.tensors args.tensor with
  | none => (store, .returned (.error (.notResident args.tensor args.dstResource)))
  | some entry =>
    if entry.version ≠ src.version ∨ stillCurrent src (entry.copies args.srcResource) = false then
      (store, .undo false src.allocation (.versionMismatch args.tensor src.version entry.version))
    else
      let copy : ResidentCopy :=
        { src with
          resource := args.dstResource, activeLeases := 0, valid := true, authoritative := false }
      (store, replace args.tensor copy (entry.copies args.dstResource))

def writeReplicate (args : Replicate) (version : UInt64)
    (metadata : TensorMetadata) : ResidencyStore × Point :=
  match store.tensors args.tensor with
  | none => (store, .undo true args.allocation (.notResident args.tensor args.resource))
  | some entry =>
    if entry.version ≠ version then
      (store, .undo false args.allocation (.versionMismatch args.tensor version entry.version))
    else
      let copy : ResidentCopy :=
        { resource := args.resource, allocation := args.allocation, version := version
          readyEvent := args.readyEvent, activeLeases := 0, valid := true, authoritative := false
          storageOffset := metadata.storageOffset, shape := metadata.shape
          strides := metadata.strides, externalHandle := none }
      (store, replace args.tensor copy (entry.copies args.resource))

/- The copy goes first, its reference in a later section. -/
def dropCopy (tensor : TensorId) (resource : ResourceId) : ResidencyStore × Point :=
  match store.copy? tensor resource with
  | none => (store, .returned (.error (.notResident tensor resource)))
  | some copy =>
    if copy.activeLeases > 0 then
      (store, .returned (.error (.aliasUnsafeRelease tensor copy.activeLeases)))
    else
      (store.setCopy tensor resource none, .free copy.allocation)

variable (allocation : AllocationId)

def register (resource : ResourceId) (capacity : Nat) (next : Point) : ResidencyStore × Point :=
  match store.allocations.register allocation resource capacity 64 with
  | .error err => (store, .returned (.error err))
  | .ok table => ({ store with allocations := table }, next)

/- `let _ = self.allocations.release(..)`. -/
def release (next : Point) : ResidencyStore × Point :=
  ({ store with allocations := store.allocations.releaseQuietly allocation }, next)

end Write

/- Runs the next critical section of a call. -/
def runSection (store : ResidencyStore) : Point → Option (ResidencyStore × Point)
| .putRegister args =>
  some (register store args.allocation args.resource args.metadata.capacity (.putWrite args))
| .putWrite args => some (writePut store args)
| .aliasGet args =>
  match store.get args.tensor args.srcResource with
  | .error err => some (store, .returned (.error err))
  | .ok src =>
    if args.srcResource = args.dstResource then
      some (store, .returned (.ok (.copy src)))
    else some (store, .aliasCapacity args src)
| .aliasCapacity args src =>
  some (store, .aliasRegister args src (max (((store.allocations.allocs src.allocation).map
    PhysicalAllocation.capacityBytes).getD 1) 1))
| .aliasRegister args src capacity =>
  some (register store src.allocation args.dstResource capacity (.aliasWrite args src))
| .aliasWrite args src => some (writeAlias store args src)
| .replicateDescribe args =>
  match store.tensors args.tensor with
  | none => some (store, .returned (.error (.notResident args.tensor args.resource)))
  | some entry => some (store, .replicateRegister args entry.version entry.metadata)
| .replicateRegister args version metadata =>
  some (register store args.allocation args.resource metadata.capacity
    (.replicateWrite args version metadata))
| .replicateWrite args version metadata => some (writeReplicate store args version metadata)
| .releasePrevious tensor copy prev => some (release store prev (.install tensor copy))
| .install tensor copy =>
  some (store.setCopy tensor copy.resource (some copy), .returned (.ok (.copy copy)))
| .undo _ allocation err => some (release store allocation (.returned (.error err)))
| .setExternalHandle tensor resource handle =>
  some (ended store (store.setExternalHandle tensor resource handle))
| .acquireLease tensor resource => some (ended store (store.acquireLease tensor resource))
| .releaseLease tensor resource => some (ended store (store.releaseLease tensor resource))
| .releaseCopy tensor resource => some (dropCopy store tensor resource)
| .free allocation =>
  match store.allocations.release allocation with
  | .error err => some (store, .returned (.error err))
  | .ok freed => some ({ store with allocations := freed.2 }, .returned (.ok (.freed freed.1)))
| .returned _ => none

end Point

----
-- Interleavings
----

abbrev CallId := Nat

/-
  A store with its calls. `locked` is the call that has the
  tensor lock between two of its sections.
-/
structure State where
  store : ResidencyStore
  locked : Option CallId
  calls : CallId → Option Point

/- A new store on a table with capacity limits. -/
def State.new (limits : ResourceId → Option Nat) : State :=
  { store :=
      { ResidencyStore.empty with allocations := { empty with capacityLimits := limits } }
    locked := none
    calls := fun _ => none }

inductive Event where
| invoke (call : CallId) (point : Point)
| advance (call : CallId)

def Event.call : Event → CallId
| .invoke call _ => call
| .advance call => call

/- The tensor lock after a section of a call. -/
def lockAfter (locked : Option CallId) (call : CallId) (next : Point) : Option CallId :=
  if next.holdsInner then some call
  else if locked = some call then none
  else locked

/- The state after a section of a call. -/
def State.next (s : State) (call : CallId) (result : ResidencyStore × Point) : State :=
  { store := result.1, locked := lockAfter s.locked call result.2
    calls := update s.calls call (some result.2) }

/- A section that needs the tensor lock waits for it. -/
def step (s : State) : Event → Option State
| .invoke call point =>
  if point.isEntry = true ∧ (s.calls call).isNone then
    some { s with calls := update s.calls call (some point) }
  else none
| .advance call =>
  (s.calls call).bind (fun point =>
    if point.locksInner = true ∧ s.locked.isSome then none
    else
      (point.runSection s.store).map (s.next call))

----
-- Calls Without Interruption
----

/- A call runs its sections one after the other. -/
def complete : Nat → ResidencyStore → Point → ResidencyStore × Point
| 0, store, point => (store, point)
| n + 1, store, point =>
  match point.runSection store with
  | none => (store, point)
  | some result => complete n result.1 result.2

/- The store and the point at which an atomic call ends. -/
def answered (store : ResidencyStore)
    (result : Except MemoryError (ResidentCopy × ResidencyStore)) : ResidencyStore × Point :=
  match result with
  | .error err => (store, .returned (.error err))
  | .ok copy => (copy.2, .returned (.ok (.copy copy.1)))

open ResidencyStore (aliasSameAllocation copy? invalidateSiblings putOpaque releaseCopy replicate
  setCopy)

/- The last sections of a write. -/
theorem complete_replace (store : ResidencyStore) (tensor : TensorId) (copy : ResidentCopy)
    (prev : Option ResidentCopy) : complete 2 store (replace tensor copy prev) =
      ({ store.setCopy tensor copy.resource (some copy) with
          allocations := ResidencyStore.releasePrevious store.allocations prev },
        .returned (.ok (.copy copy))) := by
  cases prev <;> rfl

theorem complete_putOpaque (store : ResidencyStore) (args : PutOpaque) :
    complete 4 store (.putRegister args) = answered store (store.putOpaque args.tensor args.resource
      args.allocation args.metadata args.readyEvent args.externalHandle) := by
  cases hTable : store.allocations.register args.allocation
    args.resource args.metadata.capacity 64 with
  | error err =>
    simp [complete, Point.runSection, Point.register, putOpaque, answered, hTable]
  | ok table =>
    rw [complete]
    simp only [Point.runSection, Point.register, hTable]
    rw [complete]
    simp only [Point.runSection, Point.writePut]
    rw [complete_replace]
    simp [putOpaque, answered, hTable, setCopy]

theorem complete_replicate (store : ResidencyStore) (args : Replicate) :
    complete 5 store (.replicateDescribe args) = answered store
      (store.replicate args.tensor args.resource args.allocation args.readyEvent) := by
  cases hEntry : store.tensors args.tensor with
  | none => simp [complete, Point.runSection, replicate, answered, hEntry]
  | some entry =>
    rw [complete]
    simp only [Point.runSection, hEntry]
    rw [complete]
    cases hTable : store.allocations.register args.allocation
      args.resource entry.metadata.capacity 64 with
    | error err =>
      simp [complete, Point.runSection, Point.register, replicate, answered, hTable, hEntry]
    | ok table =>
      simp only [Point.runSection, Point.register, hTable]
      rw [complete]
      simp only [Point.runSection, Point.writeReplicate, hEntry, ne_eq, not_true_eq_false, if_false]
      rw [complete_replace]
      simp [replicate, answered, hTable, hEntry, setCopy]

variable {copy : ResidentCopy} {resource : ResourceId} {store : ResidencyStore} {tensor : TensorId}

theorem get_entry (hGet : store.get tensor resource = .ok copy) :
    ∃ entry, store.tensors tensor = some entry ∧ entry.copies resource = some copy ∧
      copy.valid = true := by
  unfold ResidencyStore.get copy? at hGet
  cases hEntry : store.tensors tensor with
  | none => simp [hEntry] at hGet
  | some entry =>
    cases hCopy : entry.copies resource with
    | none => simp [hEntry, hCopy] at hGet
    | some found =>
      simp only [hEntry, hCopy, Option.bind_some] at hGet
      split at hGet
      · next hValid =>
        cases hGet
        exact ⟨entry, rfl, hCopy, hValid⟩
      · cases hGet

/- The source just read is current as long as a valid copy
   has the version of its tensor. -/
theorem complete_aliasSameAllocation (store : ResidencyStore) (args : AliasSameAllocation)
    (hCurrent : ∀ entry copy, store.tensors args.tensor = some entry →
      entry.copies args.srcResource = some copy →
      copy.valid = true → copy.version = entry.version) :
    complete 6 store (.aliasGet args) = answered store (store.aliasSameAllocation args.tensor
      args.srcResource args.dstResource) := by
  cases hGet : store.get args.tensor args.srcResource with
  | error err =>
    simp [complete, Point.runSection, aliasSameAllocation, answered, hGet]
  | ok src =>
    rw [complete]
    simp only [Point.runSection, hGet]
    by_cases hSame : args.srcResource = args.dstResource
    · simp only [if_pos hSame, aliasSameAllocation, hGet]
      rfl
    simp only [if_neg hSame]
    rcases get_entry hGet with ⟨entry, hEntry, hCopy, hValid⟩
    have hVersion := hCurrent entry src hEntry hCopy hValid
    have hStill : Point.stillCurrent src (entry.copies args.srcResource) = true := by
      simp [Point.stillCurrent, hCopy, hValid]
    rw [complete]
    simp only [Point.runSection]
    rw [complete]
    simp only [Point.runSection, Point.register]
    cases hTable : store.allocations.register src.allocation args.dstResource
      (max (((store.allocations.allocs src.allocation).map
        PhysicalAllocation.capacityBytes).getD 1) 1)
      64 with
    | error err =>
      simp [complete, Point.runSection, aliasSameAllocation, answered, hGet, hSame, hTable]
    | ok table =>
      rw [complete]
      simp only [Point.runSection, Point.writeAlias, hEntry, hVersion, hStill, ne_eq,
        not_true_eq_false, Bool.true_eq_false, or_self, if_false]
      rw [complete_replace]
      simp [aliasSameAllocation, answered, hGet, hSame, hTable, hEntry, hVersion, setCopy]

theorem complete_releaseCopy (store : ResidencyStore) (tensor : TensorId) (resource : ResourceId) :
    complete 2 store (.releaseCopy tensor resource) =
      ((store.releaseCopy tensor resource).2, .returned
        ((store.releaseCopy tensor resource).1.map .freed)) := by
  cases hCopy : store.copy? tensor resource with
  | none =>
    simp [complete, Point.runSection, Point.dropCopy, releaseCopy, hCopy, Except.map]
  | some copy =>
    by_cases hLeases : copy.activeLeases > 0
    · simp [complete, Point.runSection, Point.dropCopy, releaseCopy, hCopy, hLeases, Except.map]
    · cases hRelease : store.allocations.release copy.allocation <;>
        simp [complete, Point.runSection, Point.dropCopy,
          releaseCopy, hCopy, hLeases, setCopy, hRelease, Except.map]

----
-- Counts of the Allocation Table
----

def count (table : AllocationTable) (id : AllocationId) : Nat :=
  (table.referenceCount id).getD 0

/- No allocation stays in the table without a reference. -/
def Positive (table : AllocationTable) : Prop :=
  ∀ id rec, table.allocs id = some rec → 0 < rec.referenceCount

variable {table : AllocationTable}

theorem Positive.isSome_iff (hPositive : Positive table) (id : AllocationId) :
    (table.referenceCount id).isSome ↔ 0 < count table id := by
  unfold count referenceCount
  cases hRec : table.allocs id with
  | none => simp
  | some rec => simp [hPositive id rec hRec]

variable {id : AllocationId} {value : Option PhysicalAllocation}

theorem count_update {table' : AllocationTable}
    (hAllocs : table'.allocs = update table.allocs id value) :
    count table' = update (count table) id
      ((value.map PhysicalAllocation.referenceCount).getD 0) := by
  funext other
  unfold count referenceCount
  rw [hAllocs]
  by_cases hSame : other = id
  · subst hSame
    simp
  · simp [hSame]

theorem positive_update {table' : AllocationTable} (hPositive : Positive table)
    (hAllocs : table'.allocs = update table.allocs id value)
    (hValue : ∀ rec, value = some rec → 0 < rec.referenceCount) : Positive table' := by
  intro other rec hRec
  rw [hAllocs] at hRec
  by_cases hSame : other = id
  · subst hSame
    rw [update_self] at hRec
    exact hValue rec hRec
  · rw [update_of_ne hSame] at hRec
    exact hPositive other rec hRec

/- Registering adds one reference. -/
theorem register_ok {table' : AllocationTable} (hPositive : Positive table)
    {capacity alignment : Nat}
    (hRegister : table.register id resource capacity alignment = .ok table') :
    count table' = update (count table) id (count table id + 1) ∧ Positive table' := by
  unfold register at hRegister
  cases hRec : table.allocs id with
  | none =>
    have hZero : count table id = 0 := by simp [count, referenceCount, hRec]
    simp only [hRec] at hRegister
    have hInserted : ∀ added : AllocationTable, ∀ resource,
        added.allocs = update table.allocs id (some
          { resource := resource, capacityBytes := capacity, alignment := alignment
            referenceCount := 1 }) →
        count added = update (count table) id (count table id + 1) ∧ Positive added := by
      intro added resource hAllocs
      rw [count_update hAllocs, hZero]
      refine ⟨rfl, positive_update hPositive hAllocs ?_⟩
      intro rec hSome
      cases hSome
      exact Nat.one_pos
    repeat' split at hRegister
    all_goals cases hRegister
    all_goals exact hInserted _ resource rfl
  | some rec =>
    have hCount : count table id = rec.referenceCount := by
      simp [count, referenceCount, hRec]
    simp only [hRec] at hRegister
    repeat' split at hRegister
    all_goals cases hRegister
    rw [count_update rfl, hCount]
    refine ⟨rfl, positive_update hPositive rfl ?_⟩
    intro bumped hSome
    cases hSome
    exact Nat.succ_pos _

/- A counted reference can be released. -/
theorem release_ok (hPositive : Positive table) (hCounted : 0 < count table id) :
    ∃ freed table', table.release id = .ok (freed, table') ∧
      count table' = update (count table) id (count table id - 1) ∧ Positive table' := by
  cases hRec : table.allocs id with
  | none => simp [count, referenceCount, hRec] at hCounted
  | some rec =>
    have hCount : count table id = rec.referenceCount := by
      simp [count, referenceCount, hRec]
    have hPos := hPositive id rec hRec
    rw [hCount]
    simp only [release, hRec]
    rw [if_neg (Nat.ne_of_gt hPos)]
    split
    · next hMore =>
      refine ⟨_, _, rfl, ?_, ?_⟩
      · rw [count_update rfl]
        rfl
      · apply positive_update hPositive rfl
        intro lowered hSome
        cases hSome
        exact hMore
    · next hLast =>
      have hOne : rec.referenceCount - 1 = 0 := by omega
      rw [hOne]
      refine ⟨_, _, rfl, ?_, ?_⟩
      · rw [count_update rfl]
        rfl
      · apply positive_update hPositive rfl
        intro lowered hSome
        cases hSome

theorem releaseQuietly_ok (hPositive : Positive table) (hCounted : 0 < count table id) :
    count (table.releaseQuietly id) = update (count table) id (count table id - 1) ∧
      Positive (table.releaseQuietly id) := by
  rcases release_ok hPositive hCounted with ⟨freed, table', hRelease, hCount, hAfter⟩
  simp only [releaseQuietly, hRelease]
  exact ⟨hCount, hAfter⟩

----
-- References
----

abbrev CopyKey := TensorId × ResourceId

/- The allocation of a stored copy, valid or not. -/
def allocationAt (store : ResidencyStore) (key : CopyKey) : Option AllocationId :=
  (store.copy? key.1 key.2).map ResidentCopy.allocation

/- How many stored copies have an allocation. -/
noncomputable def copiesOf (store : ResidencyStore) (id : AllocationId) : Nat :=
  (holders (allocationAt store) id).ncard

/- The reference that a call has between two sections. -/
def Point.ref : Point → Option AllocationId
| .putWrite args => some args.allocation
| .aliasWrite _ src => some src.allocation
| .replicateWrite args _ _ => some args.allocation
| .releasePrevious _ copy _ => some copy.allocation
| .install _ copy => some copy.allocation
| .undo _ allocation _ => some allocation
| .free allocation => some allocation
| _ => none

/- The copy whose reference is already given back. -/
def Point.replaces : Point → Option CopyKey
| .install tensor copy => some (tensor, copy.resource)
| _ => none

/- The tensor whose record a call has seen. -/
def Point.seen : Point → Option TensorId
| .aliasCapacity args _ => some args.tensor
| .aliasRegister args _ _ => some args.tensor
| .aliasWrite args _ => some args.tensor
| .releasePrevious tensor _ _ => some tensor
| .install tensor _ => some tensor
| _ => none

namespace State

def Replaced (s : State) (key : CopyKey) : Prop :=
  ∃ call point, s.calls call = some point ∧ point.replaces = some key

open Classical in
/- What a stored copy, or a call, refers to. -/
noncomputable def ref (s : State) : CopyKey ⊕ CallId → Option AllocationId
| .inl key =>
  if s.Replaced key then none
  else allocationAt s.store key
| .inr call => (s.calls call).bind Point.ref

end State

variable {s : State} {key : CopyKey}

theorem ref_replaced (hReplaced : s.Replaced key) : s.ref (.inl key) = none :=
  if_pos hReplaced

theorem ref_stored (hStored : ¬ s.Replaced key) : s.ref (.inl key) = allocationAt s.store key :=
  if_neg hStored

/- References are exact, and the calls know what they
   rely on. -/
structure Counted (s : State) : Prop where
  exact : Exact s.ref (count s.store.allocations)
  positive : Positive s.store.allocations
  seen : ∀ call point tensor, s.calls call = some point → point.seen = some tensor →
    (s.store.tensors tensor).isSome
  locked : ∀ call point, s.calls call = some point → point.holdsInner = true → s.locked = some call
  previous : ∀ call tensor copy prev, s.calls call = some (.releasePrevious tensor copy prev) →
    allocationAt s.store (tensor, copy.resource) = some prev

section Next

variable {s : State} {call : CallId} {point after : Point}

variable {s' : State} (hCalls : s'.calls = update s.calls call (some after))

include hCalls

theorem moved_replaced (hBefore : ∀ point, s.calls call = some point → point.replaces = none)
    (key : CopyKey) : s'.Replaced key ↔ after.replaces = some key ∨ s.Replaced key := by
  constructor
  · rintro ⟨other, q, hQ, hKey⟩
    rw [hCalls] at hQ
    rcases moved_cases hQ with ⟨_, rfl⟩ | ⟨_, hOld⟩
    · exact .inl hKey
    · exact .inr ⟨other, q, hOld, hKey⟩
  · rintro (hKey | ⟨other, q, hQ, hKey⟩)
    · exact ⟨call, after, by simp [hCalls], hKey⟩
    · have hNe : other ≠ call := by
        rintro rfl
        simp [hBefore q hQ] at hKey
      exact ⟨other, q, by simp [hCalls, hNe, hQ], hKey⟩

theorem moved_ref_call (other : CallId) :
    s'.ref (.inr other) = update s.ref (.inr call) after.ref (.inr other) := by
  by_cases hSame : other = call <;> simp [State.ref, hCalls, hSame]

/- The stored copies keep their allocations. -/
theorem moved_ref_quiet (hBefore : ∀ point, s.calls call = some point → point.replaces = none)
    (hAfter : ∀ key, after.replaces = some key → allocationAt s.store key = none)
    (hSame : allocationAt s'.store = allocationAt s.store) :
    s'.ref = update s.ref (.inr call) after.ref := by
  funext holder
  cases holder with
  | inr other => exact moved_ref_call hCalls other
  | inl key =>
    rw [update_of_ne (by simp)]
    have hReplaced := moved_replaced hCalls hBefore key
    by_cases hOld : s.Replaced key
    · rw [ref_replaced hOld, ref_replaced (hReplaced.mpr (Or.inr hOld))]
    rw [ref_stored hOld]
    by_cases hNew : after.replaces = some key
    · rw [ref_replaced (hReplaced.mpr (Or.inl hNew)), hAfter key hNew]
    · rw [ref_stored (by simp [hReplaced, hNew, hOld]), hSame]

/- One stored copy changes its reference. -/
theorem moved_ref_at {value : Option AllocationId} (hHere : s'.ref (.inl key) = value)
    (hElse : ∀ other, other ≠ key → s'.ref (.inl other) = s.ref (.inl other)) :
    s'.ref = update (update s.ref (.inr call) after.ref) (.inl key) value := by
  funext holder
  cases holder with
  | inr other =>
    exact moved_ref_call hCalls other
  | inl other =>
    by_cases hKey : other = key
    · rw [hKey, update_self, hHere]
    · rw [update_of_ne (by simpa using hKey), update_of_ne (by simp), hElse other hKey]

end Next

----
-- Stored Copies
----

section Copies

variable {resource : ResourceId}

theorem allocationAt_setCopy (hKnown : (store.tensors tensor).isSome) (resource : ResourceId)
    (copy : Option ResidentCopy) : allocationAt (store.setCopy tensor resource copy) =
      update (allocationAt store) (tensor, resource) (copy.map ResidentCopy.allocation) := by
  rcases Option.isSome_iff_exists.mp hKnown with ⟨entry, hEntry⟩
  funext key
  rcases key with ⟨other, place⟩
  by_cases hTensor : other = tensor
  · subst hTensor
    by_cases hPlace : place = resource
    · subst hPlace
      simp [allocationAt, copy?, setCopy, hEntry]
    simp [allocationAt, copy?, setCopy, hEntry, hPlace]
  · simp [allocationAt, copy?, setCopy, hTensor]

theorem known_of_copy (hCopy : store.copy? tensor resource = some copy) :
    (store.tensors tensor).isSome := by
  unfold copy? at hCopy
  cases hEntry : store.tensors tensor with
  | none => simp [hEntry] at hCopy
  | some entry => rfl

/- A copy may change in everything but its allocation. -/
theorem allocationAt_setCopy_same {old : ResidentCopy}
    (hOld : store.copy? tensor resource = some old) (hSame : copy.allocation = old.allocation) :
    allocationAt (store.setCopy tensor resource (some copy)) = allocationAt store := by
  rw [allocationAt_setCopy (known_of_copy hOld) resource, Option.map_some, hSame]
  have hAt : allocationAt store (tensor, resource) = some old.allocation := by
    simp [allocationAt, hOld]
  rw [← hAt, update_eq_self]

variable {other : TensorId}

theorem known_setCopy (copy : Option ResidentCopy) (hKnown : (store.tensors other).isSome) :
    ((store.setCopy tensor resource copy).tensors other).isSome := by
  by_cases hSame : other = tensor
  · subst hSame
    simpa [setCopy] using hKnown
  · simpa [setCopy, hSame] using hKnown

theorem get_ok (hGet : store.get tensor resource = .ok copy) :
    store.copy? tensor resource = some copy := by
  rcases get_entry hGet with ⟨entry, hEntry, hCopy, _⟩
  simp [copy?, hEntry, hCopy]

theorem allocationAt_writePut (store : ResidencyStore) (args : PutOpaque) :
    allocationAt (Point.writePut store args).1 = allocationAt store := by
  funext key
  rcases key with ⟨other, place⟩
  by_cases hTensor : other = args.tensor
  · subst hTensor
    simp only [allocationAt, copy?, Point.writePut, update_self,
      Option.bind_some, invalidateSiblings]
    cases store.tensors args.tensor with
    | none => simp
    | some entry =>
      split
      · rfl
      · simp [Function.comp_def]
  · simp [allocationAt, copy?, Point.writePut, hTensor]

theorem known_writePut (args : PutOpaque)
    (hKnown : (store.tensors other).isSome ∨ other = args.tensor) :
    ((Point.writePut store args).1.tensors other).isSome := by
  by_cases hSame : other = args.tensor
  · subst hSame
    simp [Point.writePut]
  · have hOld := hKnown.resolve_right hSame
    simpa [Point.writePut, hSame] using hOld

end Copies

----
-- What a Section Does
----

/-
  What a section does to the references of the stored
  copies, to the one of its call and to the counts.
-/
inductive Effect (before : ResidencyStore) (point : Point) (store : ResidencyStore)
    (after : Point) : Prop where
| quiet (hTable : store.allocations = before.allocations)
    (hSame : allocationAt store = allocationAt before) (hBefore : point.replaces = none)
    (hAfter : ∀ key, after.replaces = some key → allocationAt before key = none)
    (hRef : after.ref = point.ref)
| take (allocation : AllocationId)
    (hCount : count store.allocations = update (count before.allocations) allocation
      (count before.allocations allocation + 1))
    (hSame : allocationAt store = allocationAt before) (hBefore : point.replaces = none)
    (hAfter : after.replaces = none) (hIdle : point.ref = none) (hRef : after.ref = some allocation)
| giveBack (allocation : AllocationId) (hPos : 0 < count before.allocations allocation)
    (hCount : count store.allocations = update (count before.allocations) allocation
      (count before.allocations allocation - 1))
    (hSame : allocationAt store = allocationAt before) (hBefore : point.replaces = none)
    (hAfter : after.replaces = none) (hRef : point.ref = some allocation) (hIdle : after.ref = none)
| releasePrevious (tensor : TensorId) (copy : ResidentCopy) (prev : AllocationId)
    (hPoint : point = .releasePrevious tensor copy prev) (hNext : after = .install tensor copy)
    (hCount : count store.allocations = update (count before.allocations) prev
      (count before.allocations prev - 1))
    (hSame : allocationAt store = allocationAt before)
| install (tensor : TensorId) (copy : ResidentCopy) (hPoint : point = .install tensor copy)
    (hNext : after = .returned (.ok (.copy copy))) (hTable : store.allocations = before.allocations)
    (hCopies : allocationAt store = update (allocationAt before)
      (tensor, copy.resource) (some copy.allocation))
| remove (tensor : TensorId) (resource : ResourceId) (allocation : AllocationId)
    (hPoint : point = .releaseCopy tensor resource) (hNext : after = .free allocation)
    (hTable : store.allocations = before.allocations)
    (hOld : allocationAt before (tensor, resource) = some allocation)
    (hCopies : allocationAt store = update (allocationAt before) (tensor, resource) none)

variable {point after : Point}

/- Allocations of copies change under the tensor lock. -/
theorem Effect.same_or_locks {before : ResidencyStore} (hEffect : Effect before point store after) :
    allocationAt store = allocationAt before ∨
      point.locksInner = true ∨ point.holdsInner = true := by
  cases hEffect with
  | install tensor copy hIs =>
    subst hIs
    exact .inr (Or.inr rfl)
  | remove tensor resource allocation hIs =>
    subst hIs
    exact .inr (Or.inl rfl)
  | _ =>
    left
    assumption

/- The rest of what the invariant needs to know. -/
structure Keeps (before : ResidencyStore) (point : Point) (store : ResidencyStore)
    (after : Point) : Prop where
  positive : Positive store.allocations
  known : ∀ tensor, (before.tensors tensor).isSome → (store.tensors tensor).isSome
  seen : ∀ tensor, after.seen = some tensor → (store.tensors tensor).isSome
  locks : after.holdsInner = true → point.locksInner = true ∨ point.holdsInner = true
  previous : ∀ tensor copy prev, after = .releasePrevious tensor copy prev →
    allocationAt store (tensor, copy.resource) = some prev

/- A section as the invariant sees it. -/
abbrev Done (before : ResidencyStore) (point : Point) (store : ResidencyStore) (after : Point) :
    Prop :=
  Effect before point store after ∧ Keeps before point store after

section Sections

variable {call : CallId} {store before : ResidencyStore}

section Kept

variable (hPositive : Positive store.allocations)
variable (hKnown : ∀ tensor, (before.tensors tensor).isSome → (store.tensors tensor).isSome)

include hPositive hKnown

/- A section that leaves the tensor lock free. -/
theorem keeps_free (hSeen : ∀ tensor, after.seen = some tensor → (store.tensors tensor).isSome)
    (hHolds : after.holdsInner = false) : Keeps before point store after :=
  { positive := hPositive, known := hKnown, seen := hSeen
    locks := by simp [hHolds]
    previous := by
      rintro tensor copy prev rfl
      cases hHolds }

theorem keeps_returned (result : Except MemoryError Reply) :
    Keeps before point store (.returned result) :=
  keeps_free hPositive hKnown (fun _ h => nomatch h) rfl

variable {tensor : TensorId} {prev : Option ResidentCopy}

theorem keeps_replace (hTensor : (store.tensors tensor).isSome)
    (hPrev : allocationAt store (tensor, copy.resource) = prev.map ResidentCopy.allocation)
    (hLocks : point.locksInner = true) : Keeps before point store (replace tensor copy prev) :=
  { positive := hPositive, known := hKnown
    seen := by
      intro other hSeen
      cases prev <;> cases hSeen <;> exact hTensor
    locks := fun _ => Or.inl hLocks
    previous := by
      intro other new old hAfter
      cases prev with
      | none => cases hAfter
      | some found =>
        cases hAfter
        exact hPrev }

end Kept

variable {allocation : AllocationId} {err : MemoryError} {locked : Bool}

/- A write section that gives up keeps its reference. -/
theorem effect_undo (hBefore : point.replaces = none) (hRef : point.ref = some allocation) :
    Effect before point before (.undo locked allocation err) :=
  .quiet rfl rfl hBefore (fun _ h => nomatch h) hRef.symm

theorem keeps_undo (hPositive : Positive before.allocations) (hLocks : point.locksInner = true) :
    Keeps before point before (.undo locked allocation err) :=
  { positive := hPositive
    known := fun _ h => h
    seen := by
      intro tensor hSeen
      cases hSeen
    locks := fun _ => Or.inl hLocks
    previous := by
      intro tensor copy prev hPrev
      cases hPrev }

variable {tensor : TensorId} {prev : Option ResidentCopy}

/- The write sections look for the previous copy. -/
theorem effect_replace (hTable : store.allocations = before.allocations)
    (hSame : allocationAt store = allocationAt before)
    (hPrev : allocationAt before (tensor, copy.resource) = prev.map ResidentCopy.allocation)
    (hBefore : point.replaces = none) (hRef : point.ref = some copy.allocation) :
    Effect before point store (replace tensor copy prev) := by
  apply Effect.quiet hTable hSame hBefore
  · intro key hKey
    cases prev with
    | none =>
      cases hKey
      exact hPrev
    | some old => cases hKey
  · rw [hRef]
    cases prev <;> rfl

/- A copy that differs in its leases or its handle. -/
structure Adjusted (old copy : ResidentCopy) : Prop where
  allocation : copy.allocation = old.allocation
  version : copy.version = old.version
  valid : copy.valid = old.valid
  authoritative : copy.authoritative = old.authoritative

/- How a section changes the leases of a stored copy. -/
inductive Leased (tensor : TensorId) (resource : ResourceId)
    (old copy : ResidentCopy) : Point → Prop where
| handle (handle : Nat)
    (hLeases : copy.activeLeases = old.activeLeases) : Leased tensor resource old copy
      (.setExternalHandle tensor resource handle)
| acquire (hLeases : copy.activeLeases = saturatingAdd 32 old.activeLeases 1) :
    Leased tensor resource old copy (.acquireLease tensor resource)
| release (hHeld : old.activeLeases ≠ 0)
    (hLeases : copy.activeLeases = old.activeLeases - 1) : Leased tensor resource old copy
      (.releaseLease tensor resource)

/- A section that only adjusts a stored copy. -/
def Adjusts (before store : ResidencyStore) (tensor : TensorId) (resource : ResourceId)
    (point : Point) : Prop :=
  ∃ old copy, before.copy? tensor resource = some old ∧
    store = before.setCopy tensor resource (some copy) ∧ Adjusted old copy ∧
    Leased tensor resource old copy point

section Idle

variable {resource : ResourceId} (hPositive : Positive before.allocations)
variable (hBefore : point.replaces = none) (hIdle : point.ref = none)

include hPositive hBefore hIdle

/- A section that only answers. -/
theorem returned_section (result : Except MemoryError Reply) :
    Done before point before (.returned result) :=
  ⟨.quiet rfl rfl hBefore (fun _ h => nomatch h) hIdle.symm,
    keeps_returned hPositive (fun _ h => h) _⟩

/- A section that only reads. -/
theorem reading_section (hAfter : after.replaces = none) (hRef : after.ref = none)
    (hHolds : after.holdsInner = false)
    (hSeen : ∀ tensor, after.seen = some tensor → (before.tensors tensor).isSome) :
    Done before point before after := by
  constructor
  · apply Effect.quiet rfl rfl hBefore
    · intro key hKey
      rw [hAfter] at hKey
      cases hKey
    · rw [hRef, hIdle]
  · exact keeps_free hPositive (fun _ h => h) hSeen hHolds

/- A section that registers an allocation. -/
theorem register_section {capacity : Nat} {next : Point} (hAfter : next.replaces = none)
    (hRef : next.ref = some allocation) (hHolds : next.holdsInner = false)
    (hSeen : ∀ tensor, next.seen = some tensor → (before.tensors tensor).isSome)
    (hRun : Point.register before allocation resource capacity next = (store, after)) :
    Done before point store after := by
  unfold Point.register at hRun
  split at hRun
  · cases hRun
    exact returned_section hPositive hBefore hIdle _
  rename_i table hTable
  cases hRun
  rcases register_ok hPositive hTable with ⟨hCount, hPositive'⟩
  constructor
  · exact .take allocation hCount rfl hBefore hAfter hIdle hRef
  · exact keeps_free hPositive' (fun _ h => h) hSeen hHolds

/- Handles and leases do not touch allocations. -/
theorem ended_section {result : Except MemoryError ResidencyStore}
    (hResult : ∀ store', result = .ok store' → Adjusts before store' tensor resource point)
    (hRun : ended before result = (store, after)) : Done before point store after := by
  cases result with
  | error err =>
    cases hRun
    exact returned_section hPositive hBefore hIdle _
  | ok store' =>
    rcases hResult store' rfl with ⟨old, copy, hOld, rfl, hAdjusted, _⟩
    cases hRun
    constructor
    · apply Effect.quiet
      · rfl
      · exact allocationAt_setCopy_same hOld hAdjusted.allocation
      · exact hBefore
      · intro key hKey
        cases hKey
      · exact hIdle.symm
    · apply keeps_returned
      · exact hPositive
      · exact fun _ h => known_setCopy (some copy) h

end Idle

/- A section that gives the call's own reference back. -/
theorem release_section (hPositive : Positive before.allocations)
    (hCounted : 0 < count before.allocations allocation) (hBefore : point.replaces = none)
    (hRef : point.ref = some allocation) (err : MemoryError) :
    Done before point (Point.release before allocation (.returned (.error err))).1
      (.returned (.error err)) := by
  rcases releaseQuietly_ok hPositive hCounted with ⟨hCount, hPositive'⟩
  constructor
  · exact .giveBack allocation hCounted hCount rfl hBefore rfl hRef rfl
  · apply keeps_returned
    · exact hPositive'
    · exact fun _ h => h

variable {resource : ResourceId} {store' : ResidencyStore}

theorem adjusted_setExternalHandle {handle : Nat}
    (hOk : before.setExternalHandle tensor resource handle = .ok store') :
    Adjusts before store' tensor resource (.setExternalHandle tensor resource handle) := by
  unfold ResidencyStore.setExternalHandle at hOk
  split at hOk <;> cases hOk
  next old hGet => exact ⟨old, _, get_ok hGet, rfl, ⟨rfl, rfl, rfl, rfl⟩, .handle handle rfl⟩

theorem adjusted_acquireLease (hOk : before.acquireLease tensor resource = .ok store') :
    Adjusts before store' tensor resource (.acquireLease tensor resource) := by
  unfold ResidencyStore.acquireLease at hOk
  split at hOk <;> cases hOk
  next old hGet => exact ⟨old, _, get_ok hGet, rfl, ⟨rfl, rfl, rfl, rfl⟩, .acquire rfl⟩

theorem adjusted_releaseLease (hOk : before.releaseLease tensor resource = .ok store') :
    Adjusts before store' tensor resource (.releaseLease tensor resource) := by
  unfold ResidencyStore.releaseLease at hOk
  repeat' split at hOk
  all_goals cases hOk
  next old hOld hHeld => exact ⟨old, _, hOld, rfl, ⟨rfl, rfl, rfl, rfl⟩, .release hHeld rfl⟩

end Sections

section Writes

variable {store before : ResidencyStore}
variable (hPositive : Positive before.allocations)

include hPositive

theorem writePut_section {args : PutOpaque} (hRun : Point.writePut before args = (store, after)) :
    Done before (.putWrite args) store after := by
  have hSame := allocationAt_writePut before args
  have hPrev : allocationAt before (args.tensor, args.resource) =
      (((before.tensors args.tensor).map LogicalTensorRecord.copies).getD
        (fun _ => none) args.resource).map ResidentCopy.allocation := by
    unfold allocationAt copy?
    cases before.tensors args.tensor <;> rfl
  cases hRun
  constructor
  · exact effect_replace rfl hSame hPrev rfl rfl
  · apply keeps_replace
    · exact hPositive
    · intro tensor hKnown
      exact known_writePut args (Or.inl hKnown)
    · exact known_writePut args (Or.inr rfl)
    · rw [← hPrev]
      exact congrFun hSame (args.tensor, args.resource)
    · rfl

theorem writeAlias_section {args : AliasSameAllocation} {src : ResidentCopy}
    (hSeen : (before.tensors args.tensor).isSome)
    (hRun : Point.writeAlias before args src = (store, after)) :
    Done before (.aliasWrite args src) store after := by
  rcases Option.isSome_iff_exists.mp hSeen with ⟨entry, hEntry⟩
  simp only [Point.writeAlias, hEntry] at hRun
  split at hRun
  · cases hRun
    exact ⟨effect_undo rfl rfl, keeps_undo hPositive rfl⟩
  have hPrev : allocationAt before (args.tensor, args.dstResource) =
      (entry.copies args.dstResource).map ResidentCopy.allocation := by
    simp [allocationAt, copy?, hEntry]
  cases hRun
  constructor
  · exact effect_replace rfl rfl hPrev rfl rfl
  · exact keeps_replace hPositive (fun _ h => h) hSeen hPrev rfl

theorem writeReplicate_section {args : Replicate} {version : UInt64} {metadata : TensorMetadata}
    (hRun : Point.writeReplicate before args version metadata = (store, after)) :
    Done before (.replicateWrite args version metadata) store after := by
  cases hEntry : before.tensors args.tensor with
  | none =>
    simp only [Point.writeReplicate, hEntry] at hRun
    cases hRun
    exact ⟨effect_undo rfl rfl, keeps_undo hPositive rfl⟩
  | some entry =>
    simp only [Point.writeReplicate, hEntry] at hRun
    split at hRun
    · cases hRun
      exact ⟨effect_undo rfl rfl, keeps_undo hPositive rfl⟩
    have hPrev : allocationAt before (args.tensor, args.resource) =
        (entry.copies args.resource).map ResidentCopy.allocation := by
      simp [allocationAt, copy?, hEntry]
    cases hRun
    constructor
    · exact effect_replace rfl rfl hPrev rfl rfl
    · apply keeps_replace hPositive (fun _ h => h) _ hPrev rfl
      rw [hEntry]
      rfl

theorem dropCopy_section (hRun : Point.dropCopy before tensor resource = (store, after)) :
    Done before (.releaseCopy tensor resource) store after := by
  unfold Point.dropCopy at hRun
  split at hRun
  · cases hRun
    exact returned_section hPositive rfl rfl _
  rename_i copy hCopy
  split at hRun
  · cases hRun
    exact returned_section hPositive rfl rfl _
  cases hRun
  constructor
  · have hOld : allocationAt before (tensor, resource) = some copy.allocation := by
      simp [allocationAt, hCopy]
    have hRemoved := allocationAt_setCopy (known_of_copy hCopy) resource none
    exact .remove tensor resource copy.allocation rfl rfl rfl hOld hRemoved
  · exact keeps_free hPositive (fun _ h => known_setCopy none h) nofun rfl

end Writes

section Advance

variable {s : State} {call : CallId} {point after : Point} {store : ResidencyStore}
variable (hCounted : Counted s)

include hCounted

/- Only the call with the tensor lock replaces a copy. -/
theorem Counted.replaces_locked (hPoint : s.calls call = some point)
    (hReplaces : point.replaces = some key) : s.locked = some call := by
  apply hCounted.locked call point hPoint
  cases point with
  | install tensor copy => rfl
  | _ => cases hReplaces

/- While a call can have the lock, no other one does. -/
theorem Counted.other_replaces (hLock : s.locked = none ∨ s.locked = some call) {other : CallId}
    (hOther : other ≠ call) (hPoint : s.calls other = some point) (key : CopyKey) :
    point.replaces ≠ some key := by
  intro hReplaces
  have hTheirs := hCounted.replaces_locked hPoint hReplaces
  rcases hLock with hFree | hMine
  · rw [hFree] at hTheirs
    cases hTheirs
  · rw [hMine] at hTheirs
    cases hTheirs
    exact hOther rfl

theorem Counted.next_ref_locked (store : ResidencyStore) (after : Point)
    (hLock : s.locked = none ∨ s.locked = some call) (key : CopyKey) :
    (s.next call (store, after)).ref (.inl key) =
      if after.replaces = some key then none else allocationAt store key := by
  split
  · next hKey => exact ref_replaced ⟨call, after, by simp [State.next], hKey⟩
  rename_i hKey
  refine ref_stored ?_
  rintro ⟨other, q, hQ, hReplaces⟩
  rcases moved_cases hQ with ⟨_, rfl⟩ | ⟨hOther, hOld⟩
  · exact hKey hReplaces
  · exact hCounted.other_replaces hLock hOther hOld key hReplaces

variable (hPoint : s.calls call = some point)

include hPoint

theorem Counted.replaced_iff (hLock : s.locked = none ∨ s.locked = some call) (key : CopyKey) :
    s.Replaced key ↔ point.replaces = some key := by
  constructor
  · rintro ⟨other, q, hQ, hKey⟩
    by_cases hSame : other = call
    · subst hSame
      rw [hPoint] at hQ
      cases hQ
      exact hKey
    · exact absurd hKey (hCounted.other_replaces hLock hSame hQ key)
  · exact fun hKey => ⟨call, point, hPoint, hKey⟩

theorem Counted.ref_pos {allocation : AllocationId} (hRef : point.ref = some allocation) :
    0 < count s.store.allocations allocation := by
  have hHolds : s.ref (.inr call) = some allocation := by simp [State.ref, hPoint, hRef]
  exact hCounted.exact.pos hHolds

theorem section_effect (hRun : point.runSection s.store = some (store, after)) :
    Done s.store point store after := by
  have hPositive := hCounted.positive
  cases point with
  | putRegister args =>
    have hSection := Option.some.inj hRun
    exact register_section hPositive rfl rfl rfl rfl rfl (by rintro _ ⟨⟩) hSection
  | putWrite args => exact writePut_section hPositive (Option.some.inj hRun)
  | aliasGet args =>
    simp only [Point.runSection] at hRun
    split at hRun
    · cases hRun
      exact returned_section hPositive rfl rfl _
    rename_i src hGet
    split at hRun
    · cases hRun
      exact returned_section hPositive rfl rfl _
    · cases hRun
      exact reading_section hPositive rfl rfl rfl rfl rfl (fun tensor hSeen =>
        Option.some.inj hSeen ▸ known_of_copy (get_ok hGet))
  | aliasCapacity args src =>
    cases hRun
    exact reading_section hPositive rfl rfl rfl rfl rfl (fun tensor hSeen =>
      hCounted.seen call _ tensor hPoint hSeen)
  | aliasRegister args src capacity =>
    have hSection := Option.some.inj hRun
    apply register_section hPositive rfl rfl rfl rfl rfl _ hSection
    intro tensor hSeen
    exact hCounted.seen call _ tensor hPoint hSeen
  | aliasWrite args src =>
    have hSeen := hCounted.seen call _ args.tensor hPoint rfl
    exact writeAlias_section hPositive hSeen (Option.some.inj hRun)
  | replicateDescribe args =>
    simp only [Point.runSection] at hRun
    split at hRun
    · cases hRun
      exact returned_section hPositive rfl rfl _
    · cases hRun
      exact reading_section hPositive rfl rfl rfl rfl rfl (fun tensor hSeen => nomatch hSeen)
  | replicateRegister args version metadata =>
    have hSection := Option.some.inj hRun
    exact register_section hPositive rfl rfl rfl rfl rfl (by rintro _ ⟨⟩) hSection
  | replicateWrite args version metadata =>
    exact writeReplicate_section hPositive (Option.some.inj hRun)
  | releasePrevious tensor copy prev =>
    cases hRun
    have hPrev := hCounted.previous call tensor copy prev hPoint
    have hMine := hCounted.locked call _ hPoint rfl
    have hHolds : s.ref (.inl (tensor, copy.resource)) = some prev := by
      rw [ref_stored]
      · exact hPrev
      · rw [hCounted.replaced_iff hPoint (Or.inr hMine)]
        exact fun h => nomatch h
    rcases releaseQuietly_ok hPositive (hCounted.exact.pos hHolds) with ⟨hCount, hPositive'⟩
    constructor
    · exact .releasePrevious tensor copy prev rfl rfl hCount rfl
    · exact
        { positive := hPositive'
          known := fun _ h => h
          seen := fun other hSeen => hCounted.seen call _ other hPoint hSeen
          locks := fun _ => Or.inr rfl
          previous := by
            intro other new old hAfter
            cases hAfter }
  | install tensor copy =>
    cases hRun
    have hKnown := hCounted.seen call _ tensor hPoint rfl
    have hCopies := allocationAt_setCopy hKnown copy.resource (some copy)
    constructor
    · exact .install tensor copy rfl rfl rfl hCopies
    · apply keeps_returned
      · exact hPositive
      · exact fun _ h => known_setCopy (some copy) h
  | undo locked allocation err =>
    cases hRun
    exact release_section hPositive (hCounted.ref_pos hPoint rfl) rfl rfl err
  | setExternalHandle tensor resource handle =>
    exact ended_section hPositive rfl rfl (fun _ h => adjusted_setExternalHandle h)
      (Option.some.inj hRun)
  | acquireLease tensor resource =>
    exact ended_section hPositive rfl rfl (fun _ h => adjusted_acquireLease h)
      (Option.some.inj hRun)
  | releaseLease tensor resource =>
    exact ended_section hPositive rfl rfl (fun _ h => adjusted_releaseLease h)
      (Option.some.inj hRun)
  | releaseCopy tensor resource => exact dropCopy_section hPositive (Option.some.inj hRun)
  | free allocation =>
    have hPos := hCounted.ref_pos hPoint rfl
    rcases release_ok hPositive hPos with ⟨freed, table, hRelease, hCount, hPositive'⟩
    simp only [Point.runSection, hRelease] at hRun
    cases hRun
    constructor
    · exact .giveBack allocation hPos hCount rfl rfl rfl rfl rfl
    · apply keeps_returned
      · exact hPositive'
      · exact fun _ h => h
  | returned result => cases hRun

/- While a call can have the lock, its point says which copy is
   replaced. -/
theorem Counted.ref_locked (hLock : s.locked = none ∨ s.locked = some call) (key : CopyKey) :
    s.ref (.inl key) =
      if point.replaces = some key then none else allocationAt s.store key := by
  split
  · next hKey => exact ref_replaced ⟨call, point, hPoint, hKey⟩
  · next hKey => exact ref_stored (fun h => hKey ((hCounted.replaced_iff hPoint hLock key).mp h))

/- The references after a section are exact again. -/
theorem Counted.exact_next (hLock : point.locksInner = true ∨ point.holdsInner = true →
      s.locked = none ∨ s.locked = some call)
    (hEffect : Effect s.store point store after) :
    Exact (s.next call (store, after)).ref (count store.allocations) := by
  have hExact := hCounted.exact
  have hMine : s.ref (.inr call) = point.ref := by simp [State.ref, hPoint]
  cases hEffect with
  | quiet hTable hSame hBefore hAfter hRef =>
    rw [moved_ref_quiet rfl (by simpa [hPoint] using hBefore) hAfter hSame, hRef, ← hMine,
      update_eq_self, hTable]
    exact hExact
  | take allocation hCount hSame hBefore hAfter hIdle hRef =>
    rw [moved_ref_quiet rfl (by simpa [hPoint] using hBefore) (by simp [hAfter]) hSame, hRef,
      hCount]
    exact hExact.take (hMine.trans hIdle) allocation
  | giveBack allocation hPos hCount hSame hBefore hAfter hRef hIdle =>
    rw [moved_ref_quiet rfl (by simpa [hPoint] using hBefore) (by simp [hAfter]) hSame, hIdle,
      hCount]
    exact hExact.drop (hMine.trans hRef)
  | releasePrevious tensor copy prev hIs hNext hCount hSame =>
    subst hIs hNext
    have hFree := hLock (Or.inr rfl)
    have hOld := hCounted.ref_locked hPoint hFree
    have hNew := hCounted.next_ref_locked store (.install tensor copy) hFree
    rw [moved_ref_at rfl (hNew (tensor, copy.resource)) ?_, hCount]
    · simp only [Point.replaces, Point.ref]
      rw [show some copy.allocation = s.ref (.inr call) from hMine.symm, update_eq_self]
      exact hExact.drop ((hOld _).trans (hCounted.previous call tensor copy prev hPoint))
    · intro other hOther
      simp [hOld, hNew, Point.replaces, hSame, Ne.symm hOther]
  | install tensor copy hIs hNext hTable hCopies =>
    subst hIs hNext
    have hFree := hLock (Or.inr rfl)
    have hOld := hCounted.ref_locked hPoint hFree
    have hNew := hCounted.next_ref_locked store (.returned (.ok (.copy copy))) hFree
    rw [moved_ref_at rfl (hNew (tensor, copy.resource)) ?_, hTable, hCopies]
    · simp only [update_self]
      exact hExact.move hMine (ref_replaced ⟨call, _, hPoint, rfl⟩)
    · intro other hOther
      simp [hOld, hNew, Point.replaces, hCopies, hOther, Ne.symm hOther]
  | remove tensor resource allocation hIs hNext hTable hHeld hCopies =>
    subst hIs hNext
    have hFree := hLock (Or.inl rfl)
    have hOld := hCounted.ref_locked hPoint hFree
    have hNew := hCounted.next_ref_locked store (.free allocation) hFree
    rw [moved_ref_at rfl (hNew (tensor, resource)) ?_, hTable, hCopies,
      Function.update_comm (by simp)]
    · simp only [update_self]
      exact hExact.move ((hOld _).trans hHeld) hMine
    · intro other hOther
      simp [hOld, hNew, Point.replaces, hCopies, hOther]

/- One critical section keeps the invariant. -/
theorem Counted.next (hWaits : point.locksInner = true → s.locked = none)
    (hRun : point.runSection s.store = some (store, after)) :
    Counted (s.next call (store, after)) := by
  have hLock : point.locksInner = true ∨ point.holdsInner = true →
      s.locked = none ∨ s.locked = some call := by
    rintro (hLocks | hHolds)
    · exact .inl (hWaits hLocks)
    · exact .inr (hCounted.locked call point hPoint hHolds)
  have hElsewhere : ∀ other, other ≠ call → s.locked = some other →
      ¬ (s.locked = none ∨ s.locked = some call) := by
    intro other hOther hTheirs
    rw [hTheirs]
    simpa using hOther
  rcases section_effect hCounted hPoint hRun with ⟨hEffect, hKeeps⟩
  constructor
  case exact => exact hCounted.exact_next hPoint hLock hEffect
  case positive => exact hKeeps.positive
  case seen =>
    intro other q tensor hQ hSeen
    rcases moved_cases hQ with ⟨_, rfl⟩ | ⟨_, hOld⟩
    · exact hKeeps.seen tensor hSeen
    · exact hKeeps.known tensor (hCounted.seen other q tensor hOld hSeen)
  case locked =>
    intro other q hQ hHolds
    rcases moved_cases hQ with ⟨rfl, rfl⟩ | ⟨hOther, hOld⟩
    · simp [State.next, lockAfter, hHolds]
    have hTheirs := hCounted.locked other q hOld hHolds
    have hNot := hElsewhere other hOther hTheirs
    have hFree : ¬ after.holdsInner = true := fun hTrue => hNot (hLock (hKeeps.locks hTrue))
    simp only [State.next, lockAfter, if_neg hFree, if_neg (fun h => hNot (Or.inr h))]
    exact hTheirs
  case previous =>
    intro other tensor copy prev hQ
    rcases moved_cases hQ with ⟨_, hAfter⟩ | ⟨hOther, hOld⟩
    · exact hKeeps.previous tensor copy prev hAfter.symm
    have hTheirs := hCounted.locked other _ hOld rfl
    rcases hEffect.same_or_locks with hUnchanged | hLocks
    · exact (congrFun hUnchanged _).trans (hCounted.previous other tensor copy prev hOld)
    · exact absurd (hLock hLocks) (hElsewhere other hOther hTheirs)

end Advance

----
-- Runs
----

variable (limits : ResourceId → Option Nat)

theorem Counted.new : Counted (.new limits) := by
  constructor
  case exact =>
    have hRef : (State.new limits).ref = fun _ => none := by
      funext holder
      cases holder with
      | inl key =>
        rw [ref_stored]
        · rfl
        · rintro ⟨call, point, hPoint, _⟩
          cases hPoint
      | inr call => rfl
    rw [hRef]
    exact exact_none
  case positive => exact fun _ _ hRec => nomatch hRec
  case seen => exact fun _ _ _ hPoint => nomatch hPoint
  case locked => exact fun _ _ hPoint => nomatch hPoint
  case previous => exact fun _ _ _ _ hPoint => nomatch hPoint

/- What a call does first. -/
theorem entry_facts (hEntry : point.isEntry = true) :
    point.ref = none ∧ point.replaces = none ∧ point.seen = none ∧ point.holdsInner = false := by
  cases point <;> first
    | exact ⟨rfl, rfl, rfl, rfl⟩
    | cases hEntry

variable {call : CallId} {s' : State}

theorem Counted.invoke (hCounted : Counted s) (hNew : s.calls call = none)
    (hEntry : point.isEntry = true) : Counted
      { s with calls := update s.calls call (some point) } := by
  rcases entry_facts hEntry with ⟨hRef, hReplaces, hSeen, hHolds⟩
  constructor
  case exact =>
    have hIdle : s.ref (.inr call) = none := by simp [State.ref, hNew]
    have hMoved : State.ref { s with calls := update s.calls call (some point) } =
        update s.ref (.inr call) point.ref :=
      moved_ref_quiet rfl (by simp [hNew]) (by simp [hReplaces]) rfl
    rw [hMoved, hRef, ← hIdle, update_eq_self]
    exact hCounted.exact
  case positive => exact hCounted.positive
  case seen =>
    intro other q tensor hQ hTensor
    rcases moved_cases hQ with ⟨_, rfl⟩ | ⟨_, hOld⟩
    · simp [hSeen] at hTensor
    · exact hCounted.seen other q tensor hOld hTensor
  case locked =>
    intro other q hQ hTrue
    rcases moved_cases hQ with ⟨_, rfl⟩ | ⟨_, hOld⟩
    · simp [hHolds] at hTrue
    · exact hCounted.locked other q hOld hTrue
  case previous =>
    intro other tensor copy prev hQ
    rcases moved_cases hQ with ⟨_, rfl⟩ | ⟨_, hOld⟩
    · cases hHolds
    · exact hCounted.previous other tensor copy prev hOld

/- What a step can do. -/
theorem step_invoke (hStep : step s (.invoke call point) = some s') :
    point.isEntry = true ∧ s.calls call = none ∧
      s' = { s with calls := update s.calls call (some point) } := by
  simp only [Sections.step] at hStep
  split at hStep
  · next hEntry =>
    cases hStep
    exact ⟨hEntry.1, by simpa using hEntry.2, rfl⟩
  · cases hStep

theorem step_advance (hStep : step s (.advance call) = some s') :
    ∃ point store after, s.calls call = some point ∧ (point.locksInner = true → s.locked = none) ∧
      point.runSection s.store = some (store, after) ∧ s' = s.next call (store, after) := by
  simp only [Sections.step, Option.bind_eq_some_iff] at hStep
  rcases hStep with ⟨point, hPoint, hStep⟩
  split at hStep
  · cases hStep
  rename_i hWaits
  simp only [Option.map_eq_some_iff] at hStep
  rcases hStep with ⟨⟨store, after⟩, hRun, rfl⟩
  refine ⟨point, store, after, hPoint, ?_, hRun, rfl⟩
  intro hLocks
  cases hLocked : s.locked with
  | none => rfl
  | some other =>
    rw [hLocked] at hWaits
    exact absurd ⟨hLocks, rfl⟩ hWaits

variable {event : Event}

/- Every section of every call keeps the counts exact. -/
theorem Counted.step (hCounted : Counted s) (hStep : step s event = some s') : Counted s' := by
  cases event with
  | invoke call point =>
    rcases step_invoke hStep with ⟨hEntry, hNew, rfl⟩
    exact hCounted.invoke hNew hEntry
  | advance call =>
    rcases step_advance hStep with ⟨point, store, after, hPoint, hWaits, hRun, rfl⟩
    exact hCounted.next hPoint hWaits hRun

theorem step_calls_other (hStep : step s event = some s')
    (hOther : call ≠ event.call) : s'.calls call = s.calls call := by
  cases event with
  | invoke other point =>
    rcases step_invoke hStep with ⟨_, _, rfl⟩
    exact update_of_ne hOther _ _
  | advance other =>
    rcases step_advance hStep with ⟨point, store, after, _, _, _, rfl⟩
    exact update_of_ne hOther _ _

theorem Counted.of_run (events : List Event)
    (hRun : run Sections.step (.new limits) events = some s) : Counted s := by
  have hReach := Reachable.of_run_always events hRun
  exact hReach.invariant Counted (fun _ _ _ hCounted _ hStep => hCounted.step hStep) (.new limits)

/- When no call is in progress, only copies refer. -/
theorem Counted.quiescent (hCounted : Counted s)
    (hIdle : ∀ call point, s.calls call = some point → ∃ result, point = .returned result)
    (id : AllocationId) : count s.store.allocations id = copiesOf s.store id := by
  have hStored : ∀ key, ¬ s.Replaced key := by
    rintro key ⟨call, point, hPoint, hKey⟩
    rcases hIdle call point hPoint with ⟨result, rfl⟩
    cases hKey
  have hHolders : holders s.ref id = Sum.inl '' holders (allocationAt s.store) id := by
    ext holder
    cases holder with
    | inl key => simp [holders, ref_stored (hStored key)]
    | inr call =>
      have hNone : s.ref (.inr call) = none := by
        cases hPoint : s.calls call with
        | none => simp [State.ref, hPoint]
        | some point =>
          rcases hIdle call point hPoint with ⟨result, rfl⟩
          simp [State.ref, hPoint, Point.ref]
      simp [holders, hNone]
  rw [hCounted.exact.eq_ncard, hHolders]
  exact Set.ncard_image_of_injective _ Sum.inl_injective

/- Calls that can no longer fail. -/
def Point.decided : Point → Bool
| .install _ _ => true
| .free _ => true
| .returned (.ok _) => true
| _ => false

theorem Counted.decided_next (hCounted : Counted s) (hPoint : s.calls call = some point)
    (hRun : point.runSection s.store = some (store, after)) (hDecided : point.decided = true) :
    after.decided = true := by
  cases point with
  | install tensor copy =>
    cases hRun
    rfl
  | free allocation =>
    rcases release_ok hCounted.positive (hCounted.ref_pos hPoint rfl) with
      ⟨freed, table, hRelease, _, _⟩
    simp only [Point.runSection, hRelease] at hRun
    cases hRun
    rfl
  | returned result => cases hRun
  | _ => cases hDecided

/- The change a call owes, by its point, until it is sure
   to succeed. -/
def Owes (call : CallId) (owed : Point → Int) (s : State) (change : Int) : Prop :=
  Counted s ∧ (s.calls call = none → change = 0) ∧ ∀ point, s.calls call = some point →
    point.decided = false → change = owed point

section Contributions

variable {call : CallId} {observe : ResidencyStore → Int} {owed : Point → Int}
variable (hEntry : ∀ point, point.isEntry = true → owed point = 0)
variable (hSection : ∀ before point store after, Effect before point store after →
    after.decided = false → observe store - observe before = owed after - owed point)

include hEntry hSection

theorem Owes.own_step {change : Int} (hOwes : Owes call owed s change)
    (hMine : event.call = call) (hStep : step s event = some s') :
    Owes call owed s' (change + (observe s'.store - observe s.store)) := by
  rcases hOwes with ⟨hCounted, hNone, hSome⟩
  have hAfter := hCounted.step hStep
  cases event with
  | invoke other point =>
    cases hMine
    rcases step_invoke hStep with ⟨hFirst, hNew, rfl⟩
    refine ⟨hAfter, ?_, ?_⟩
    · intro hGone
      simp [Event.call] at hGone
    · intro q hQ _
      have hPoint : point = q := by simpa [Event.call] using hQ
      subst hPoint
      rw [hNone hNew, hEntry point hFirst, sub_self, add_zero]
  | advance other =>
    cases hMine
    rcases step_advance hStep with ⟨point, store, after, hPoint, _, hRun, rfl⟩
    have hCalls : (s.next other (store, after)).calls other = some after := update_self _ _ _
    refine ⟨hAfter, ?_, ?_⟩
    · intro hGone
      cases hCalls.symm.trans hGone
    · intro q hQ hOpen
      cases hCalls.symm.trans hQ
      have hUndecided : point.decided = false := by
        cases hDecided : point.decided with
        | false => rfl
        | true =>
          rw [hCounted.decided_next hPoint hRun hDecided] at hOpen
          cases hOpen
      rcases section_effect hCounted hPoint hRun with ⟨hEffect, _⟩
      have hChange := hSection _ _ _ _ hEffect hOpen
      rw [hSome point hPoint hUndecided]
      simp only [State.next]
      omega

/- What an undecided call has changed along a run. -/
theorem contribution_eq_owed (limits : ResourceId → Option Nat) (events : List Event) {s : State}
    (hRun : run step (.new limits) events = some s)
    (hPoint : s.calls call = some point) (hUndecided : point.decided = false) :
    contribution step (fun event => event.call = call)
      (fun s => observe s.store) (.new limits) events = owed point := by
  have hMine : ∀ s change event s', Owes call owed s change → decide (event.call = call) = true →
      step s event = some s' →
      Owes call owed s' (change + (observe s'.store - observe s.store)) := by
    intro s change event s' hOwes hCall hStep
    exact hOwes.own_step hEntry hSection (of_decide_eq_true hCall) hStep
  have hOther : ∀ s change event s', Owes call owed s change → decide (event.call = call) = false →
      step s event = some s' → Owes call owed s' change := by
    intro s change event s' hOwes hCall hStep
    rcases hOwes with ⟨hCounted, hNone, hSome⟩
    have hNe : event.call ≠ call := of_decide_eq_false hCall
    have hCalls : s'.calls call = s.calls call := step_calls_other hStep (Ne.symm hNe)
    rw [← hCalls] at hNone hSome
    exact ⟨hCounted.step hStep, hNone, hSome⟩
  have hStart : Owes call owed (.new limits) 0 := by
    refine ⟨.new limits, fun _ => rfl, ?_⟩
    intro point hPoint
    cases hPoint
  have hEnd := contribution_invariant _ (fun s => observe s.store) (Owes call owed) hMine hOther
    events hStart hRun
  rw [zero_add] at hEnd
  exact hEnd.2.2 point hPoint hUndecided

end Contributions

/- A call owes the reference that it has. -/
def owedCount (id : AllocationId) (point : Point) : Int :=
  if point.ref = some id then 1 else 0

theorem count_section (id : AllocationId) (before : ResidencyStore) (point : Point)
    (store : ResidencyStore) (after : Point) (hEffect : Effect before point store after)
    (hOpen : after.decided = false) :
    (count store.allocations id : Int) - count before.allocations id =
      owedCount id after - owedCount id point := by
  unfold owedCount
  cases hEffect with
  | quiet hTable hSame hBefore hAfter hRef =>
    rw [hTable, hRef, sub_self, sub_self]
  | take allocation hCount hSame hBefore hAfter hIdle hRef =>
    rw [hCount, hIdle, hRef]
    by_cases hId : id = allocation
    · subst hId
      simp
    · simp [hId, Ne.symm hId]
  | giveBack allocation hPos hCount hSame hBefore hAfter hRef hIdle =>
    rw [hCount, hIdle, hRef]
    by_cases hId : id = allocation
    · subst hId
      simp
      omega
    · simp [hId, Ne.symm hId]
  | _ =>
    subst_vars
    cases hOpen

theorem owedCount_entry (id : AllocationId) (point : Point) (hEntry : point.isEntry = true) :
    owedCount id point = 0 := by
  rw [owedCount, (entry_facts hEntry).1]
  rfl

/- A call owes no copies. -/
def owedCopies (_ : Point) : Int :=
  0

theorem copies_section (id : AllocationId) (before : ResidencyStore) (point : Point)
    (store : ResidencyStore) (after : Point) (hEffect : Effect before point store after)
    (hOpen : after.decided = false) :
    (copiesOf store id : Int) - copiesOf before id = owedCopies after - owedCopies point := by
  have hCopies : allocationAt store = allocationAt before := by
    cases hEffect with
    | install tensor copy hIs hNext =>
      subst hNext
      cases hOpen
    | remove tensor resource allocation hIs hNext =>
      subst hNext
      cases hOpen
    | _ => assumption
  unfold copiesOf owedCopies
  rw [hCopies, sub_self, sub_self]

/-
  Whenever no call is in progress, the reference count of an
  allocation is the number of copies that have it, and the
  table knows the allocation iff there is one. A call that
  failed has changed neither number.
-/
theorem reference_counts_exact (limits : ResourceId → Option Nat) (events : List Event) {s : State}
    (hRun : run step (.new limits) events = some s) :
    ((∀ call point, s.calls call = some point → ∃ result, point = .returned result) →
      ∀ id, (s.store.allocations.referenceCount id).getD 0 = copiesOf s.store id ∧
        ((s.store.allocations.referenceCount id).isSome ↔ 0 < copiesOf s.store id)) ∧
    ∀ call err, s.calls call = some (.returned (.error err)) →
      ∀ id, contribution step (fun event => event.call = call)
        (fun s => (count s.store.allocations id : Int))
        (.new limits) events = 0 ∧ contribution step (fun event => event.call = call)
        (fun s => (copiesOf s.store id : Int))
        (.new limits) events = 0 := by
  have hCounted := Counted.of_run limits events hRun
  constructor
  · intro hIdle id
    have hCount := hCounted.quiescent hIdle id
    refine ⟨hCount, ?_⟩
    rw [← hCount]
    exact hCounted.positive.isSome_iff id
  · intro call err hFailed id
    constructor
    · exact contribution_eq_owed (owedCount_entry id)
        (count_section id) limits events hRun hFailed rfl
    · exact contribution_eq_owed (fun _ _ => rfl) (copies_section id) limits events hRun hFailed rfl

/- Writes a tensor on the cpu. -/
def putOnCpu (allocation : AllocationId) : Point :=
  .putRegister
    { tensor := "t", resource := "cpu", allocation := allocation, metadata := { nbytes := 4 }
      readyEvent := none, externalHandle := none }

/-
  The source of an alias is overwritten while the alias has
  its reference; the alias fails and gives it back.
-/
def overwrittenAlias : List Event :=
  [.invoke 0 (putOnCpu "a"), .advance 0, .advance 0, .advance 0, .invoke 1 (.aliasGet
      { tensor := "t", srcResource := "cpu"
        dstResource := "host" }), .advance 1, .advance 1, .advance 1, .invoke 2 (putOnCpu "b"),
    .advance 2, .advance 2, .advance 2, .advance 2, .advance 1, .advance 1]

theorem overwritten_alias_counts_exact :
    ∃ s, run step (.new (fun _ => none)) overwrittenAlias = some s ∧
      (s.store.allocations.referenceCount "b").getD 0 = copiesOf s.store "b" ∧
      ((s.store.allocations.referenceCount "a").isSome ↔ 0 < copiesOf s.store "a") ∧
      contribution step (fun event => event.call = 1)
        (fun s => (count s.store.allocations "a" : Int))
        (.new (fun _ => none)) overwrittenAlias = 0 := by
  refine ⟨_, rfl, ?_⟩
  have hExact := reference_counts_exact (fun _ => none) overwrittenAlias rfl
  have hIdle := hExact.1 (fun call point hPoint => by
    match call with
    | 0 => exact ⟨_, (Option.some.inj hPoint).symm⟩
    | 1 => exact ⟨_, (Option.some.inj hPoint).symm⟩
    | 2 => exact ⟨_, (Option.some.inj hPoint).symm⟩
    | n + 3 => cases hPoint)
  have hFailed := hExact.2 1 _ rfl "a"
  exact ⟨(hIdle "b").1, (hIdle "a").2, hFailed.1⟩

end Sections

end TensorTorrent
