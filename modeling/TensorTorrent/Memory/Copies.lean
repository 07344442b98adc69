import TensorTorrent.Memory.Residency

/-
  This file abstracts the residency store to the set of its
  valid copies, and says what each operation of the store
  does to that set.

  Main declarations:
    * `ResidencyStore.has_replicate`
    * `ResidencyStore.has_releaseCopy`
-/

namespace TensorTorrent

open Function (update update_apply update_eq_self update_of_ne update_self)

/- Which tensors have a valid copy on which resources. -/
abbrev Copies := TensorId → ResourceId → Bool

namespace Copies

variable (copies : Copies) (tensor : TensorId) (resource : ResourceId)

/- A written tensor is valid where it was written. -/
def only : Copies :=
  update copies tensor (fun r => decide (r = resource))

def add : Copies :=
  update copies tensor (update (copies tensor) resource true)

def drop : Copies :=
  update copies tensor (update (copies tensor) resource false)

/- Written unless it is already there. -/
def place : Copies :=
  if copies tensor resource then copies
  else copies.only tensor resource

/- Drops the copy on a resource, or the one on disk when
   there is none. -/
def release : Copies :=
  if copies tensor resource = false ∧ copies tensor "disk" = true then
    copies.drop tensor "disk"
  else copies.drop tensor resource

section Lemmas

variable {copies : Copies} {tensor tid : TensorId} {resource : ResourceId}

@[simp]
theorem only_self : copies.only tensor resource tensor = fun r => decide (r = resource) :=
  update_self ..

@[simp]
theorem only_of_ne (hOther : tid ≠ tensor) : copies.only tensor resource tid = copies tid :=
  update_of_ne hOther ..

theorem add_self : copies.add tensor resource tensor = update (copies tensor) resource true :=
  update_self ..

@[simp]
theorem add_of_ne (hOther : tid ≠ tensor) : copies.add tensor resource tid = copies tid :=
  update_of_ne hOther ..

@[simp]
theorem add_here : copies.add tensor resource tensor resource = true := by
  rw [add_self, update_self]

theorem drop_self : copies.drop tensor resource tensor = update (copies tensor) resource false :=
  update_self ..

@[simp]
theorem drop_of_ne (hOther : tid ≠ tensor) : copies.drop tensor resource tid = copies tid :=
  update_of_ne hOther ..

theorem add_of_has (hHas : copies tensor resource = true) :
    copies.add tensor resource = copies := by
  unfold add
  rw [← hHas, update_eq_self, update_eq_self]

theorem drop_of_missing (hMissing : copies tensor resource = false) :
    copies.drop tensor resource = copies := by
  unfold drop
  rw [← hMissing, update_eq_self, update_eq_self]

theorem place_self : copies.place tensor resource tensor =
    if copies tensor resource then copies tensor
    else fun r => decide (r = resource) := by
  unfold place
  split
  · rfl
  · exact only_self

@[simp]
theorem place_of_ne (hOther : tid ≠ tensor) : copies.place tensor resource tid = copies tid := by
  unfold place
  split
  · rfl
  · exact only_of_ne hOther

@[simp]
theorem place_here : copies.place tensor resource tensor resource = true := by
  unfold place
  split
  · assumption
  · simp

theorem release_self : copies.release tensor resource tensor =
    if copies tensor resource = false ∧ copies tensor "disk" = true then
      update (copies tensor) "disk" false
    else
      update (copies tensor) resource false := by
  unfold release
  split <;> exact drop_self

@[simp]
theorem release_of_ne (hOther : tid ≠ tensor) :
    copies.release tensor resource tid = copies tid := by
  unfold release
  split <;> exact drop_of_ne hOther

end Lemmas

end Copies

----
-- Copies of the Store
----

namespace ResidencyStore

variable {store after : ResidencyStore} {tensor : TensorId} {resource : ResourceId}

/- `has` as a function of the stored record. -/
theorem has_eq (store : ResidencyStore) (tensor : TensorId) (resource : ResourceId) :
    store.has tensor resource = ((store.copy? tensor resource).map
      ResidentCopy.valid).getD false := by
  unfold has get
  cases store.copy? tensor resource with
  | none => rfl
  | some copy => cases hValid : copy.valid <;> simp [hValid]

theorem has_congr
    (hSame : after.tensors tensor = store.tensors tensor) :
    after.has tensor = store.has tensor := by
  funext resource
  rw [has_eq, has_eq, copy?, copy?, hSame]

/- Replacing one stored copy of a known tensor. -/
theorem has_setCopy (store : ResidencyStore) (hKnown : store.tensors tensor ≠ none)
    (copy : Option ResidentCopy) :
    (store.setCopy tensor resource copy).has = update store.has tensor
      (update (store.has tensor) resource ((copy.map ResidentCopy.valid).getD false)) := by
  rcases Option.ne_none_iff_exists'.1 hKnown with ⟨entry, hEntry⟩
  funext tid
  by_cases hTensor : tid = tensor
  · subst hTensor
    rw [update_self]
    funext r
    have hStored : (store.setCopy tid resource copy).copy? tid r =
        update entry.copies resource copy r := by
      simp [copy?, setCopy, hEntry]
    rw [has_eq, hStored]
    by_cases hResource : r = resource
    · subst hResource
      simp
    · rw [update_of_ne hResource, update_of_ne hResource, has_eq, copy?, hEntry]
      rfl
  · rw [update_of_ne hTensor]
    apply has_congr
    simp [setCopy, update_of_ne hTensor]

variable {copy : ResidentCopy}

theorem known_of_copy? (hCopy : store.copy? tensor resource = some copy) :
    store.tensors tensor ≠ none := by
  intro hNone
  simp [copy?, hNone] at hCopy

variable {readyEvent : Option String} {allocation : AllocationId}

theorem has_putOpaque {metadata : TensorMetadata} {externalHandle : Option Nat}
    (hPut : store.putOpaque tensor resource allocation metadata
      readyEvent externalHandle = .ok (copy, after)) :
    after.has = Copies.only store.has tensor resource ∧
      after.inflightTransfers = store.inflightTransfers := by
  unfold putOpaque at hPut
  split at hPut
  · cases hPut
  cases hPut
  refine ⟨?_, rfl⟩
  funext tid
  by_cases hTensor : tid = tensor
  · subst hTensor
    funext r
    rw [has_eq, copy?]
    by_cases hResource : r = resource
    · subst hResource
      simp
    simp only [update_self, Option.bind_some, update_of_ne hResource,
      invalidateSiblings, if_neg hResource]
    cases (Option.map LogicalTensorRecord.copies (store.tensors tid)).getD (fun _ => none) r with
    | none => simp [hResource]
    | some sibling => simp [hResource]
  · rw [Copies.only_of_ne hTensor]
    apply has_congr
    simp [update_of_ne hTensor]

theorem has_replicate
    (hReplicate : store.replicate tensor resource allocation readyEvent = .ok (copy, after)) :
    after.has = Copies.add store.has tensor resource ∧
      after.inflightTransfers = store.inflightTransfers := by
  unfold replicate at hReplicate
  split at hReplicate
  · cases hReplicate
  rename_i entry hEntry
  split at hReplicate
  · cases hReplicate
  · cases hReplicate
    exact ⟨has_setCopy store (by simp [hEntry]) _, rfl⟩

/- Unless a lease is active, the copy is gone afterwards,
   whatever the result. -/
theorem has_releaseCopy (store : ResidencyStore) (tensor : TensorId) (resource : ResourceId) :
    (∃ leases, (store.releaseCopy tensor resource).1 = .error (.aliasUnsafeRelease tensor leases)) ∨
      (store.releaseCopy tensor resource).2.has = Copies.drop store.has tensor resource ∧
        (store.releaseCopy tensor resource).2.inflightTransfers = store.inflightTransfers := by
  unfold releaseCopy
  cases hCopy : store.copy? tensor resource with
  | none =>
    right
    refine ⟨?_, rfl⟩
    have hMissing : store.has tensor resource = false := by simp [has_eq, hCopy]
    exact (Copies.drop_of_missing hMissing).symm
  | some copy =>
    dsimp only
    split
    · exact .inl ⟨copy.activeLeases, rfl⟩
    right
    split
    · exact ⟨has_setCopy store (known_of_copy? hCopy) none, rfl⟩
    · exact ⟨has_setCopy store (known_of_copy? hCopy) none, rfl⟩

/- Replacing a copy by one that is as valid. -/
theorem has_setCopy_same {other : ResidentCopy}
    (hCopy : store.copy? tensor resource = some copy) (hValid : other.valid = copy.valid) :
    (store.setCopy tensor resource (some other)).has = store.has := by
  have hSame : other.valid = store.has tensor resource := by simp [has_eq, hCopy, hValid]
  rw [has_setCopy store (known_of_copy? hCopy)]
  simp [hSame]

/- A lease does not change which copies are valid. -/
theorem has_releaseLeaseQuietly (store : ResidencyStore) (tensor : TensorId)
    (resource : ResourceId) : (store.releaseLeaseQuietly tensor resource).has = store.has ∧
      (store.releaseLeaseQuietly tensor resource).inflightTransfers = store.inflightTransfers := by
  unfold releaseLeaseQuietly releaseLease
  cases hCopy : store.copy? tensor resource with
  | none => exact ⟨rfl, rfl⟩
  | some copy =>
    dsimp only
    split
    · rename_i hOk
      split at hOk
      · cases hOk
      · cases hOk
        exact ⟨has_setCopy_same hCopy rfl, rfl⟩
    · exact ⟨rfl, rfl⟩

theorem has_acquireLease (hLease : store.acquireLease tensor resource = .ok after) :
    after.has = store.has ∧ after.inflightTransfers = store.inflightTransfers := by
  unfold acquireLease get at hLease
  cases hCopy : store.copy? tensor resource with
  | none => simp [hCopy] at hLease
  | some copy =>
    simp only [hCopy] at hLease
    cases hValid : copy.valid with
    | false => simp [hValid] at hLease
    | true =>
      simp only [hValid, if_true] at hLease
      cases hLease
      exact ⟨has_setCopy_same hCopy hValid.symm, rfl⟩

theorem has_of_get (hGet : store.get tensor resource = .ok copy) :
    store.has tensor resource = true := by
  unfold has
  rw [hGet]

end ResidencyStore

end TensorTorrent
