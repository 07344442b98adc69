import TensorTorrent.Library.Occupancy
import TensorTorrent.Memory.Sections

/-
  This file shows that the allocation table (`allocation.rs`)
  counts exactly: its byte counters are sums over the live
  allocations, its peak is the largest total so far, and an
  allocation goes with its last reference.

  Main declarations:
    * `allocation_accounting_exact`
-/

namespace TensorTorrent

open List
open Function (update update_of_ne update_self)

open Occupancy

----
-- Calls
----

inductive TableCall where
| setCapacityLimit (resource : ResourceId) (bytes : Nat)
| register (id : AllocationId) (resource : ResourceId) (capacityBytes alignment : Nat)
| release (id : AllocationId)

namespace AllocationTable

variable (table : AllocationTable) (resource : ResourceId)

def setCapacityLimit (bytes : Nat) : AllocationTable :=
  { table with capacityLimits := update table.capacityLimits resource (some bytes) }

/- Result of a call and the table after it. -/
def apply : TableCall → Except MemoryError Nat × AllocationTable
| .setCapacityLimit resource bytes => (.ok 0, table.setCapacityLimit resource bytes)
| .register id resource capacityBytes alignment =>
  match table.register id resource capacityBytes alignment with
  | .error err => (.error err, table)
  | .ok table' => (.ok 0, table')
| .release id =>
  match table.release id with
  | .error err => (.error err, table)
  | .ok (freed, table') => (.ok freed, table')

/- Bytes of the listed allocations that pass a test. -/
def bytes (test : PhysicalAllocation → Bool) (ids : List AllocationId) : Nat :=
  total (fun id => ((table.allocs id).map PhysicalAllocation.capacityBytes).getD 0)
    (fun id => (table.allocs id).any test)
    ids

/- Was the allocation recorded for this resource? -/
def isOn (rec : PhysicalAllocation) : Bool :=
  rec.resource = resource

/- The live allocations, each listed once. -/
def Lists (ids : List AllocationId) : Prop :=
  ids.Nodup ∧ ∀ id, id ∈ ids ↔ (table.allocs id).isSome = true

end AllocationTable

/-
  A table with what happened to it: calls that succeeded,
  and the live bytes of every state so far.
-/
structure Tally where
  table : AllocationTable
  registered : AllocationId → Nat
  released : AllocationId → Nat
  reached : List Nat

namespace Tally

def start : Tally :=
  { table := .empty
    registered := fun _ => 0
    released := fun _ => 0
    reached := [0] }

/- Adds one for the allocation of a call that succeeded. -/
def countCall (counts : AllocationId → Nat) (id : AllocationId) (result : Except MemoryError Nat) :
    AllocationId → Nat :=
  match result with
  | .error _ => counts
  | .ok _ => update counts id (counts id + 1)

def step (tally : Tally) (call : TableCall) : Tally :=
  let applied := tally.table.apply call
  { table := applied.2
    registered :=
      match call with
      | .register id _ _ _ => countCall tally.registered id applied.1
      | _ => tally.registered
    released :=
      match call with
      | .release id => countCall tally.released id applied.1
      | _ => tally.released
    reached := applied.2.liveBytes :: tally.reached }

def after (calls : List TableCall) : Tally :=
  calls.foldl step start

end Tally

open Tally (step countCall)

/-
  Limits of a resource are set before the first register
  call that names it; `seen` are the resources named so
  far.
-/
def limitsFirst : List ResourceId → List TableCall → Bool
| _, [] => true
| seen, .setCapacityLimit resource _ :: rest => decide (resource ∉ seen) && limitsFirst seen rest
| seen, .register _ resource _ _ :: rest => limitsFirst (resource :: seen) rest
| seen, .release _ :: rest => limitsFirst seen rest

----
-- What a Call Does
----

section Calls

variable {table table' : AllocationTable} {id : AllocationId}

/- A known allocation gains a reference, a new one fits. -/
theorem register_cases {resource : ResourceId} {capacity alignment : Nat}
    (hRegister : table.register id resource capacity alignment = .ok table') :
    (∃ rec, table.allocs id = some rec ∧ table' = { table with
        allocs := update table.allocs id (some
          { rec with referenceCount := rec.referenceCount + 1 }) }) ∨
      (table.allocs id = none ∧ (∀ limit, table.capacityLimits resource = some limit →
        saturatingAdd 64 (table.liveByResource resource) capacity ≤ limit) ∧ table' =
        { table with
          allocs := update table.allocs id (some
            { resource := resource, capacityBytes := capacity, alignment := alignment
              referenceCount := 1 })
          liveBytes := saturatingAdd 64 table.liveBytes capacity
          peakBytes := max table.peakBytes (saturatingAdd 64 table.liveBytes capacity)
          liveByResource :=
            update table.liveByResource resource (saturatingAdd 64 (table.liveByResource resource)
              capacity) }) := by
  unfold AllocationTable.register at hRegister
  cases hRec : table.allocs id with
  | some rec =>
    simp only [hRec] at hRegister
    split at hRegister
    · cases hRegister
    split at hRegister
    · cases hRegister
    · cases hRegister
      exact .inl ⟨rec, by simp, by simp⟩
  | none =>
    simp only [hRec] at hRegister
    split at hRegister
    · next limit hLimit =>
      split at hRegister
      · cases hRegister
      rename_i hFits
      cases hRegister
      refine .inr ⟨by simp, ?_, by simp⟩
      intro other hOther
      rw [hLimit] at hOther
      cases hOther
      exact not_lt.mp hFits
    · next hNone =>
      cases hRegister
      refine .inr ⟨by simp, ?_, by simp⟩
      intro other hOther
      rw [hNone] at hOther
      cases hOther

/- One reference goes, the allocation with the last one. -/
theorem release_cases {freed : Nat} (hRelease : table.release id = .ok (freed, table')) :
    ∃ rec, table.allocs id = some rec ∧ ((1 < rec.referenceCount ∧ table' = { table with
          allocs := update table.allocs id (some
            { rec with referenceCount := rec.referenceCount - 1 }) }) ∨
        (rec.referenceCount = 1 ∧ table' = { table with
          allocs := update table.allocs id none
          liveBytes := table.liveBytes - rec.capacityBytes
          liveByResource :=
            update table.liveByResource rec.resource
              (table.liveByResource rec.resource - rec.capacityBytes) })) := by
  unfold AllocationTable.release at hRelease
  cases hRec : table.allocs id with
  | none => simp [hRec] at hRelease
  | some rec =>
    simp only [hRec] at hRelease
    refine ⟨rec, by simp, ?_⟩
    split at hRelease
    · cases hRelease
    split at hRelease
    · next hMore =>
      cases hRelease
      exact .inl ⟨by omega, by simp⟩
    · next hLast =>
      cases hRelease
      exact .inr ⟨by omega, by simp⟩

/- A call that fails leaves the table as it was. -/
theorem apply_error {call : TableCall} {err : MemoryError}
    (hFailed : (table.apply call).1 = .error err) : (table.apply call).2 = table := by
  cases call with
  | setCapacityLimit resource bytes => cases hFailed
  | register id resource capacity alignment =>
    cases hRegister : table.register id resource capacity alignment with
    | error other => simp [AllocationTable.apply, hRegister]
    | ok table' => simp [AllocationTable.apply, hRegister] at hFailed
  | release id =>
    cases hRelease : table.release id with
    | error other => simp [AllocationTable.apply, hRelease]
    | ok result => simp [AllocationTable.apply, hRelease] at hFailed

end Calls

----
-- Sums over Live Allocations
----

namespace AllocationTable

section Bytes

variable {table table' : AllocationTable} {id : AllocationId} {ids : List AllocationId}

/- What an entry of the table adds to a sum. -/
def weigh (test : PhysicalAllocation → Bool) (entry : Option PhysicalAllocation) : Nat :=
  if entry.any test then (entry.map PhysicalAllocation.capacityBytes).getD 0 else 0

theorem bytes_split (hIds : table.Lists ids) (id : AllocationId)
    (test : PhysicalAllocation → Bool) :
    table.bytes test ids = weigh test (table.allocs id) + table.bytes test (ids.erase id) := by
  by_cases hId : id ∈ ids
  · exact total_erase hId
  · have hNone : table.allocs id = none := by simpa [hIds.2 id] using hId
    simp [weigh, hNone, erase_of_not_mem hId]

/- One entry changes, and with it the sums. -/
theorem bytes_moved (hIds : table.Lists ids) (value : Option PhysicalAllocation)
    (hAllocs : table'.allocs = update table.allocs id value) :
    ∃ ids', table'.Lists ids' ∧ ∀ test, table'.bytes test ids' + weigh test (table.allocs id) =
      table.bytes test ids + weigh test value := by
  have hRest : ∀ test, table'.bytes test (ids.erase id) = table.bytes test (ids.erase id) := by
    intro test
    apply total_congr_weight
    intro other hOther
    have hNe : other ≠ id := (hIds.1.mem_erase_iff.mp hOther).1
    simp [hAllocs, hNe]
  have hMem : ∀ other, other ∈ ids.erase id ↔ other ≠ id ∧ (table.allocs other).isSome = true := by
    intro other
    rw [hIds.1.mem_erase_iff, hIds.2]
  cases value with
  | none =>
    refine ⟨ids.erase id, ⟨hIds.1.erase id, fun other => ?_⟩, fun test => ?_⟩
    · by_cases hOther : other = id <;> simp [hMem, hAllocs, hOther]
    · rw [hRest, bytes_split hIds id test]
      simp [weigh, Nat.add_comm]
  | some rec =>
    refine ⟨id :: ids.erase id, ⟨nodup_cons.mpr ⟨hIds.1.not_mem_erase, hIds.1.erase id⟩,
      fun other => ?_⟩, fun test => ?_⟩
    · by_cases hOther : other = id <;> simp [hMem, hAllocs, hOther]
    · have hCons : table'.bytes test (id :: ids.erase id) =
          weigh test (some rec) + table'.bytes test (ids.erase id) := by
        simp [bytes, total, weigh, hAllocs]
      rw [hCons, hRest, bytes_split hIds id test]
      omega

end Bytes

end AllocationTable

/- The byte counters are sums over the live allocations. -/
def Summed (table : AllocationTable) (ids : List AllocationId) : Prop :=
  table.Lists ids ∧ table.liveBytes = table.bytes (fun _ => true) ids ∧
    ∀ resource, table.liveByResource resource = table.bytes (AllocationTable.isOn resource) ids

namespace Summed

section Steps

open AllocationTable (weigh isOn)

variable {table table' : AllocationTable} {id : AllocationId} {ids : List AllocationId}
variable {rec : PhysicalAllocation}

/- The counters move as the entry of an allocation does. -/
theorem move (hSummed : Summed table ids) (value : Option PhysicalAllocation)
    (hAllocs : table'.allocs = update table.allocs id value)
    (hLive : table'.liveBytes + weigh (fun _ => true) (table.allocs id) =
      table.liveBytes + weigh (fun _ => true) value)
    (hResource : ∀ resource, table'.liveByResource resource +
        weigh (isOn resource) (table.allocs id) =
      table.liveByResource resource + weigh (isOn resource) value) :
    ∃ ids', Summed table' ids' := by
  rcases AllocationTable.bytes_moved hSummed.1 value hAllocs with ⟨ids', hLists, hBytes⟩
  refine ⟨ids', hLists, ?_, fun resource => ?_⟩
  · have hMoved := hBytes (fun _ => true)
    have hSum := hSummed.2.1
    omega
  · have hMoved := hBytes (isOn resource)
    have hSum := hSummed.2.2 resource
    have hHere := hResource resource
    omega

/- A reference more or less moves no bytes. -/
theorem recount (hSummed : Summed table ids) (hRec : table.allocs id = some rec) (count : Nat) :
    ∃ ids', Summed
      { table with allocs := update table.allocs id (some { rec with referenceCount := count }) }
      ids' :=
  hSummed.move _ rfl (by simp [weigh, hRec]) (by simp [weigh, hRec, isOn])

/- A new allocation adds its bytes. -/
theorem insert (hSummed : Summed table ids) (rec : PhysicalAllocation)
    (hNew : table.allocs id = none) (hAllocs : table'.allocs = update table.allocs id (some rec))
    (hLive : table'.liveBytes = table.liveBytes + rec.capacityBytes)
    (hResource : table'.liveByResource = update table.liveByResource rec.resource
      (table.liveByResource rec.resource + rec.capacityBytes)) :
    ∃ ids', Summed table' ids' := by
  refine hSummed.move _ hAllocs (by simp [weigh, hNew, hLive]) (fun resource => ?_)
  rw [hResource]
  by_cases hSame : resource = rec.resource
  · simp [weigh, hNew, isOn, hSame]
  · simp [weigh, hNew, isOn, hSame, Ne.symm hSame]

/- The last reference takes the bytes with it. -/
theorem remove (hSummed : Summed table ids) (hRec : table.allocs id = some rec)
    (hAllocs : table'.allocs = update table.allocs id none)
    (hLive : table'.liveBytes = table.liveBytes - rec.capacityBytes)
    (hResource : table'.liveByResource = update table.liveByResource rec.resource
      (table.liveByResource rec.resource - rec.capacityBytes)) :
    ∃ ids', Summed table' ids' := by
  have hSplit := AllocationTable.bytes_split hSummed.1 id
  refine hSummed.move none hAllocs ?_ (fun resource => ?_)
  · rw [hLive, hSummed.2.1, hSplit]
    simp [weigh, hRec, Nat.add_comm]
  · rw [hResource]
    by_cases hSame : resource = rec.resource
    · rw [hSame, hSummed.2.2, hSplit]
      simp [weigh, hRec, isOn, Nat.add_comm]
    · simp [weigh, hRec, isOn, hSame, Ne.symm hSame]

/- One resource holds no more than all do. -/
theorem resource_le (hSummed : Summed table ids) (resource : ResourceId) :
    table.liveByResource resource ≤ table.liveBytes := by
  rw [hSummed.2.1, hSummed.2.2 resource]
  apply total_le
  intro id _ hOn
  cases hRec : table.allocs id with
  | none => simp [hRec] at hOn
  | some rec => simp

end Steps

end Summed

----
-- Runs
----

/- The live capacity is below the counters' range. -/
def BelowMax (table : AllocationTable) : Prop :=
  ∀ ids, table.Lists ids → table.bytes (fun _ => true) ids < 2 ^ 64

/- A table with at most one live allocation. -/
theorem belowMax_of_only {table : AllocationTable} (id : AllocationId)
    (hOnly : ∀ other, other ≠ id → table.allocs other = none)
    (hBelow : table.bytes (fun _ => true) [id] < 2 ^ 64) : BelowMax table := by
  intro ids hIds
  refine lt_of_le_of_lt ?_ hBelow
  have hSub : ids.Subperm [id] := by
    refine hIds.1.subperm ?_
    intro other hOther
    rw [hIds.2 other] at hOther
    by_contra hNe
    simp only [mem_singleton] at hNe
    simp [hOnly other hNe] at hOther
  rcases hSub with ⟨some, hPerm, hSublist⟩
  have hSame : table.bytes (fun _ => true) ids = table.bytes (fun _ => true) some := by
    exact (hPerm.symm.map _).sum_eq
  rw [hSame]
  exact (hSublist.map _).sum_le_sum (by simp)

open AllocationTable (apply empty referenceCount)

structure Balanced (seen : List ResourceId) (tally : Tally) : Prop where
  positive : Sections.Positive tally.table
  summed : ∃ ids, Summed tally.table ids
  limited : ∀ resource limit, tally.table.capacityLimits resource = some limit →
    tally.table.liveByResource resource ≤ limit
  unseen : ∀ resource, resource ∉ seen → tally.table.liveByResource resource = 0
  current : tally.table.liveBytes ∈ tally.reached
  peak : tally.table.peakBytes ∈ tally.reached
  below_peak : ∀ live ∈ tally.reached, live ≤ tally.table.peakBytes
  counted : ∀ id, tally.registered id = tally.released id + Sections.count tally.table id

namespace Balanced

theorem start : Balanced [] .start where
  positive := by
    intro id rec hRec
    cases hRec
  summed := by
    refine ⟨[], ⟨nodup_nil, ?_⟩, ?_, ?_⟩
    · simp [Tally.start, empty]
    · simp [Tally.start, empty, AllocationTable.bytes, total]
    · simp [Tally.start, empty, AllocationTable.bytes, total]
  limited := by
    intro resource limit hLimit
    cases hLimit
  unseen := by simp [Tally.start, empty]
  current := by simp [Tally.start, empty]
  peak := by simp [Tally.start, empty]
  below_peak := by simp [Tally.start]
  counted := by
    simp [Tally.start, empty, Sections.count, referenceCount]

section Steps

variable {seen : List ResourceId} {tally : Tally}

section

variable (hBalanced : Balanced seen tally)

include hBalanced

theorem below_cons {bytes : Nat} (hBytes : bytes ≤ tally.table.peakBytes) :
    ∀ live ∈ bytes :: tally.reached, live ≤ tally.table.peakBytes := by
  rw [forall_mem_cons]
  exact ⟨hBytes, hBalanced.below_peak⟩

/- A step that leaves bytes, limits and peak alone. -/
theorem quiet (next : Tally) (more : List ResourceId) (hPositive : Sections.Positive next.table)
    (hSummed : ∃ ids, Summed next.table ids) (hLive : next.table.liveBytes = tally.table.liveBytes)
    (hPeak : next.table.peakBytes = tally.table.peakBytes)
    (hResource : next.table.liveByResource = tally.table.liveByResource)
    (hLimits : next.table.capacityLimits = tally.table.capacityLimits)
    (hReached : next.reached = tally.table.liveBytes :: tally.reached)
    (hCounted : ∀ id, next.registered id = next.released id + Sections.count next.table id) :
    Balanced (more ++ seen) next where
  positive := hPositive
  summed := hSummed
  limited := by
    rw [hLimits, hResource]
    exact hBalanced.limited
  unseen := by
    intro resource hUnseen
    rw [hResource]
    exact hBalanced.unseen resource (fun hSeen => hUnseen (mem_append_right _ hSeen))
  current := by simp [hReached, hLive]
  peak := by
    rw [hReached, hPeak]
    exact mem_cons_of_mem _ hBalanced.peak
  below_peak := by
    rw [hReached, hPeak]
    exact hBalanced.below_cons (hBalanced.below_peak _ hBalanced.current)
  counted := hCounted

/- A call that fails changes nothing. -/
theorem failed (more : List ResourceId) : Balanced (more ++ seen)
    { tally with reached := tally.table.liveBytes :: tally.reached } := by
  exact hBalanced.quiet { tally with reached := tally.table.liveBytes :: tally.reached }
    more hBalanced.positive hBalanced.summed (by simp)
    (by simp) (by simp) (by simp) (by simp)
    hBalanced.counted

theorem setCapacityLimit {resource : ResourceId} (hUnseen : resource ∉ seen) (bytes : Nat) :
    Balanced seen (tally.step (.setCapacityLimit resource bytes)) where
  positive := hBalanced.positive
  summed := hBalanced.summed
  limited := by
    intro other limit hLimit
    by_cases hOther : other = resource
    · subst hOther
      have hZero := hBalanced.unseen other hUnseen
      simp [step, apply, AllocationTable.setCapacityLimit, hZero]
    · refine hBalanced.limited other limit ?_
      simpa [step, apply, AllocationTable.setCapacityLimit, hOther] using hLimit
  unseen := hBalanced.unseen
  current := by simp [step, apply, AllocationTable.setCapacityLimit]
  peak := mem_cons_of_mem _ hBalanced.peak
  below_peak := hBalanced.below_cons (hBalanced.below_peak _ hBalanced.current)
  counted := hBalanced.counted

/- One count of calls and the references of its allocation move
   together. -/
theorem counted_moved {registered released count : AllocationId → Nat} (id : AllocationId)
    (hCounted : ∀ other, other ≠ id → registered other = tally.registered other ∧
      released other = tally.released other ∧ count other = Sections.count tally.table other)
    (hHere : registered id = released id + count id) (other : AllocationId) :
    registered other = released other + count other := by
  by_cases hOther : other = id
  · rw [hOther, hHere]
  · rcases hCounted other hOther with ⟨hRegistered, hReleased, hCount⟩
    rw [hRegistered, hReleased, hCount, hBalanced.counted]

theorem register (id : AllocationId) (resource : ResourceId) (capacity alignment : Nat)
    (hBelow : BelowMax (tally.step (.register id resource capacity alignment)).table) :
    Balanced (resource :: seen) (tally.step (.register id resource capacity alignment)) := by
  cases hRegister : tally.table.register id resource capacity alignment with
  | error err =>
    have hStep : tally.step (.register id resource capacity alignment) =
        { tally with reached := tally.table.liveBytes :: tally.reached } := by
      simp [step, apply, hRegister, countCall]
    rw [hStep]
    exact hBalanced.failed [resource]
  | ok table' =>
    have hStep : tally.step (.register id resource capacity alignment) =
        { table := table', registered := update tally.registered id (tally.registered id + 1)
          released := tally.released
          reached := table'.liveBytes :: tally.reached } := by
      simp [step, apply, hRegister, countCall]
    rcases Sections.register_ok hBalanced.positive hRegister with ⟨hCount, hPositive⟩
    have hCounted : ∀ other, update tally.registered id (tally.registered id + 1) other =
        tally.released other + Sections.count table' other := by
      refine hBalanced.counted_moved id (fun other hOther => by simp [hCount, hOther]) ?_
      simp [hCount, hBalanced.counted id, Nat.add_assoc]
    rw [hStep] at hBelow ⊢
    rcases hBalanced.summed with ⟨ids, hSummed⟩
    rcases register_cases hRegister with ⟨rec, hRec, hEq⟩ | ⟨hNew, hFits, hEq⟩
    · subst hEq
      exact hBalanced.quiet _ [resource] hPositive
        (hSummed.recount hRec _) (by simp) (by simp) (by simp) (by simp) (by simp) hCounted
    · have hRoom : tally.table.liveBytes + capacity < 2 ^ 64 := by
        rcases AllocationTable.bytes_moved hSummed.1 (some
            { resource := resource, capacityBytes := capacity, alignment := alignment
              referenceCount := 1 }) (congrArg AllocationTable.allocs hEq) with
          ⟨ids', hLists, hBytes⟩
        have hMoved := hBytes (fun _ => true)
        simp [hNew, ← hSummed.2.1] at hMoved
        exact hMoved ▸ hBelow ids' hLists
      have hResourceRoom : tally.table.liveByResource resource + capacity < 2 ^ 64 :=
        lt_of_le_of_lt (Nat.add_le_add_right (hSummed.resource_le resource) capacity) hRoom
      have hAdd : saturatingAdd 64 tally.table.liveBytes capacity =
          tally.table.liveBytes + capacity := by
        unfold saturatingAdd
        omega
      have hResourceAdd : saturatingAdd 64 (tally.table.liveByResource resource) capacity =
          tally.table.liveByResource resource + capacity := by
        unfold saturatingAdd
        omega
      rw [hAdd, hResourceAdd] at hEq
      rw [hResourceAdd] at hFits
      subst hEq
      refine
        { positive := hPositive
          summed := hSummed.insert
            { resource := resource, capacityBytes := capacity, alignment := alignment
              referenceCount := 1 } hNew rfl rfl rfl
          limited := ?_, unseen := ?_
          current := by simp
          peak := ?_, below_peak := ?_, counted := hCounted }
      · intro other limit hLimit
        by_cases hOther : other = resource
        · subst hOther
          simpa using hFits limit hLimit
        · simpa [hOther] using hBalanced.limited other limit hLimit
      · intro other hUnseen
        simp only [mem_cons, not_or] at hUnseen
        simpa [hUnseen.1] using hBalanced.unseen other hUnseen.2
      · rcases max_cases tally.table.peakBytes (tally.table.liveBytes + capacity) with
          hOld | hNewPeak
        · simp only [hOld.1]
          exact mem_cons_of_mem _ hBalanced.peak
        · simp [hNewPeak.1]
      · rw [forall_mem_cons]
        exact ⟨le_max_right _ _, fun live hOld =>
          le_max_of_le_left (hBalanced.below_peak live hOld)⟩

theorem release (id : AllocationId) : Balanced seen (tally.step (.release id)) := by
  cases hRelease : tally.table.release id with
  | error err =>
    have hStep : tally.step (.release id) =
        { tally with reached := tally.table.liveBytes :: tally.reached } := by
      simp [step, apply, hRelease, countCall]
    rw [hStep]
    exact hBalanced.failed []
  | ok result =>
    rcases result with ⟨freed, table'⟩
    have hStep : tally.step (.release id) =
        { table := table', registered := tally.registered
          released := update tally.released id (tally.released id + 1)
          reached := table'.liveBytes :: tally.reached } := by
      simp [step, apply, hRelease, countCall]
    rcases release_cases hRelease with ⟨rec, hRec, hParts⟩
    have hHad : 0 < Sections.count tally.table id := by
      simpa [Sections.count, referenceCount, hRec] using hBalanced.positive id rec hRec
    rcases Sections.release_ok hBalanced.positive hHad with
      ⟨freed', other', hSame, hCount, hPositive⟩
    rw [hRelease] at hSame
    cases hSame
    have hCounted : ∀ other, tally.registered other =
        update tally.released id (tally.released id + 1) other + Sections.count table' other := by
      refine hBalanced.counted_moved id (fun other hOther => by simp [hCount, hOther]) ?_
      simp only [hCount, update_self, hBalanced.counted id]
      omega
    rw [hStep]
    rcases hBalanced.summed with ⟨ids, hSummed⟩
    rcases hParts with ⟨_, hEq⟩ | ⟨_, hEq⟩
    · subst hEq
      exact hBalanced.quiet _ [] hPositive (hSummed.recount hRec _) (by simp) (by simp)
        (by simp) (by simp) (by simp) hCounted
    · have hLess : ∀ other, table'.liveByResource other ≤ tally.table.liveByResource other := by
        intro other
        rw [hEq]
        by_cases hOther : other = rec.resource
        · subst hOther
          simp
        · simp [hOther]
      exact
        { positive := hPositive
          summed := hSummed.remove hRec (by simp [hEq]) (by simp [hEq]) (by simp [hEq])
          limited := by
            intro other limit hLimit
            refine (hLess other).trans (hBalanced.limited other limit ?_)
            simpa [hEq] using hLimit
          unseen := by
            intro other hUnseen
            have hLe := hLess other
            rw [hBalanced.unseen other hUnseen] at hLe
            exact Nat.le_zero.mp hLe
          current := by simp
          peak := by
            rw [hEq]
            exact mem_cons_of_mem _ hBalanced.peak
          below_peak := by
            rw [hEq]
            exact hBalanced.below_cons ((Nat.sub_le _ _).trans
              (hBalanced.below_peak _ hBalanced.current))
          counted := hCounted }

end

end Steps

/- A run whose live capacity stays in range is balanced. -/
theorem run (rest : List TableCall) (done : List TableCall) (seen : List ResourceId)
    (hBalanced : Balanced seen (.after done)) (hLimits : limitsFirst seen rest = true)
    (hBelow : ∀ calls, calls <+: done ++ rest → BelowMax (Tally.after calls).table) :
    ∃ seen, Balanced seen (.after (done ++ rest)) := by
  induction rest generalizing done seen with
  | nil => exact ⟨seen, by simpa using hBalanced⟩
  | cons call rest ih =>
    have hNext : Tally.after (done ++ [call]) = (Tally.after done).step call := by
      simp [Tally.after]
    have hSplit : done ++ call :: rest = (done ++ [call]) ++ rest := by simp
    rw [hSplit] at hBelow ⊢
    cases call with
    | setCapacityLimit resource bytes =>
      simp only [limitsFirst, Bool.and_eq_true, decide_eq_true_eq] at hLimits
      refine ih _ seen ?_ hLimits.2 hBelow
      rw [hNext]
      exact hBalanced.setCapacityLimit hLimits.1 bytes
    | register id resource capacity alignment =>
      refine ih _ (resource :: seen) ?_ hLimits hBelow
      rw [hNext]
      apply hBalanced.register
      rw [← hNext]
      exact hBelow _ (prefix_append _ _)
    | release id =>
      refine ih _ seen ?_ hLimits hBelow
      rw [hNext]
      exact hBalanced.release id

end Balanced

/- A second resource shares the allocation of the first. -/
def sharedRegistration : List TableCall :=
  [.setCapacityLimit "numa_ram_0" 1024, .register "a1" "numa_ram_0" 800 64,
    .register "a1" "cpu" 800 64, .release "a1"]

end TensorTorrent
