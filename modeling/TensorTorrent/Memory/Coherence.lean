import TensorTorrent.Memory.Copies
import TensorTorrent.Memory.Sections

/-
  This file proves coherence of the copies of a tensor over
  all interleavings of calls of the residency store
  (`residency.rs`): valid copies have the tensor's version,
  and at most one of them is authoritative.

  A call that replaces a copy keeps the tensor lock until
  the new copy is in. The store with that copy already in is
  the settled store; each section changes it at once.

  Main declarations:
    * `Sections.residency_coherent`
    * `Sections.uninterrupted_call_atomic`
-/

namespace TensorTorrent

open ResidencyStore Transition Function

namespace Sections

----
-- Stored Copies After a Write
----

section Stored

variable {store : ResidencyStore} {tensor : TensorId}

theorem copy?_setCopy (hKnown : (store.tensors tensor).isSome) (resource : ResourceId)
    (copy : Option ResidentCopy) (other : TensorId) (place : ResourceId) :
    (store.setCopy tensor resource copy).copy? other place =
      if other = tensor ∧ place = resource then copy
      else store.copy? other place := by
  rcases Option.isSome_iff_exists.mp hKnown with ⟨entry, hEntry⟩
  by_cases hTensor : other = tensor
  · subst hTensor
    by_cases hPlace : place = resource
    · subst hPlace
      simp [copy?, setCopy, hEntry]
    · simp [copy?, setCopy, hEntry, hPlace]
  · simp [copy?, setCopy, hTensor]

theorem logicalVersion_setCopy (resource : ResourceId) (copy : Option ResidentCopy)
    (other : TensorId) :
    (store.setCopy tensor resource copy).logicalVersion other = store.logicalVersion other := by
  by_cases hTensor : other = tensor
  · subst hTensor
    cases hEntry : store.tensors other <;> simp [logicalVersion, setCopy, hEntry]
  · simp [logicalVersion, setCopy, hTensor]

theorem copy?_writePut (store : ResidencyStore) (args : PutOpaque) (other : TensorId)
    (place : ResourceId) : (Point.writePut store args).1.copy? other place =
      if other = args.tensor then
        invalidateSiblings args.resource (store.copy? args.tensor) place
      else store.copy? other place := by
  by_cases hTensor : other = args.tensor
  · subst hTensor
    cases hEntry : store.tensors args.tensor <;> simp [copy?, Point.writePut, hEntry,
      invalidateSiblings]
  · simp [copy?, Point.writePut, hTensor]

theorem logicalVersion_writePut (store : ResidencyStore) (args : PutOpaque) (other : TensorId) :
    (Point.writePut store args).1.logicalVersion other =
      if other = args.tensor then
        store.logicalVersion other + 1
      else store.logicalVersion other := by
  by_cases hTensor : other = args.tensor
  · subst hTensor
    cases hEntry : store.tensors args.tensor <;>
      simp [logicalVersion, Point.writePut, hEntry]
  · simp [logicalVersion, Point.writePut, hTensor]

variable {after : ResidencyStore}

theorem copy?_congr (hTensors : after.tensors = store.tensors) : after.copy? = store.copy? := by
  funext other place
  rw [copy?, copy?, hTensors]

theorem logicalVersion_congr (hTensors : after.tensors = store.tensors) :
    after.logicalVersion = store.logicalVersion := by
  funext other
  rw [logicalVersion, logicalVersion, hTensors]

end Stored

----
-- What a Section Does to the Tensors
----

/- The copy that a call with the tensor lock will insert. -/
def Point.pending : Point → Option (TensorId × ResidentCopy)
| .releasePrevious tensor copy _ => some (tensor, copy)
| .install tensor copy => some (tensor, copy)
| _ => none

theorem pending_replace (tensor : TensorId) (copy : ResidentCopy) (prev : Option ResidentCopy) :
    (replace tensor copy prev).pending = some (tensor, copy) := by
  cases prev <;> rfl

variable {point : Point}

theorem pending_of_free (hFree : point.holdsInner = false) : point.pending = none := by
  cases point <;> first | rfl | cases hFree

theorem pending_entry (hEntry : point.isEntry = true) : point.pending = none := by
  cases point <;> first | rfl | cases hEntry

/- The key under which a section begins to replace the copy;
   an alias or a replicate that comes too late does not. -/
def Point.overwrites (store : ResidencyStore) : Point → Option CopyKey
| .putWrite args => some (args.tensor, args.resource)
| .aliasWrite args src =>
  (store.tensors args.tensor).bind (fun entry =>
    if entry.version ≠ src.version ∨
      stillCurrent src (entry.copies args.srcResource) = false then none
    else some (args.tensor, args.dstResource))
| .replicateWrite args version _ =>
  (store.tensors args.tensor).bind (fun entry =>
    if entry.version ≠ version then none
    else some (args.tensor, args.resource))
| _ => none

/- What a section does to the tensors of the store. -/
inductive Touch (before : ResidencyStore) (point : Point) (store : ResidencyStore)
    (after : Point) : Prop where
| quiet (hTensors : store.tensors = before.tensors) (hPending : after.pending = point.pending)
    (hAfter : after ≠ .returned (.ok .done))
| put (args : PutOpaque) (copy : ResidentCopy) (hPoint : point = .putWrite args)
    (hTensors : store.tensors = (Point.writePut before args).1.tensors)
    (hPending : after.pending = some (args.tensor, copy))
    (hResource : copy.resource = args.resource)
    (hVersion : copy.version = before.logicalVersion args.tensor + 1)
    (hLeases : copy.activeLeases = 0) (hValid : copy.valid = true)
    (hAuthoritative : copy.authoritative = true)
| copy (tensor : TensorId) (copy : ResidentCopy) (hLocks : point.locksInner = true)
    (hWrites : point.overwrites before = some (tensor, copy.resource))
    (hKnown : (before.tensors tensor).isSome) (hTensors : store.tensors = before.tensors)
    (hPending : after.pending = some (tensor, copy))
    (hVersion : copy.version = before.logicalVersion tensor) (hLeases : copy.activeLeases = 0)
    (hValid : copy.valid = true) (hAuthoritative : copy.authoritative = false)
| install (tensor : TensorId) (copy : ResidentCopy) (hPoint : point = .install tensor copy)
    (hStore : store = before.setCopy tensor copy.resource (some copy))
    (hAfter : after = .returned (.ok (.copy copy)))
| adjust (tensor : TensorId) (resource : ResourceId) (old copy : ResidentCopy)
    (hOld : before.copy? tensor resource = some old)
    (hStore : store = before.setCopy tensor resource (some copy)) (hAdjusted : Adjusted old copy)
    (hLeased : Leased tensor resource old copy point) (hAfter : after = .returned (.ok .done))
| remove (tensor : TensorId) (resource : ResourceId) (old : ResidentCopy)
    (hPoint : point = .releaseCopy tensor resource) (hOld : before.copy? tensor resource = some old)
    (hLeases : old.activeLeases = 0) (hStore : store = before.setCopy tensor resource none)
    (hAfter : after = .free old.allocation)

section Sections

variable {before store : ResidencyStore} {point after : Point} {resource : ResourceId}

theorem touch_register {allocation : AllocationId} {capacity : Nat} {next : Point}
    (hRun : Point.register before allocation resource capacity next = (store, after))
    (hPending : point.pending = none) (hNext : next.pending = none)
    (hDone : next ≠ .returned (.ok .done)) : Touch before point store after := by
  unfold Point.register at hRun
  split at hRun <;> cases hRun
  · exact .quiet rfl hPending.symm nofun
  · exact .quiet rfl (hNext.trans hPending.symm) hDone

variable {tensor : TensorId}

theorem touch_ended {result : Except MemoryError ResidencyStore} (hPending : point.pending = none)
    (hResult : ∀ store', result = .ok store' → Adjusts before store' tensor resource point)
    (hRun : ended before result = (store, after)) : Touch before point store after := by
  cases result with
  | error err =>
    cases hRun
    exact .quiet rfl hPending.symm nofun
  | ok store' =>
    rcases hResult store' rfl with ⟨old, copy, hOld, hStore, hAdjusted, hLeased⟩
    cases hRun
    exact .adjust tensor resource old copy hOld hStore hAdjusted hLeased rfl

theorem touch_writePut {args : PutOpaque} (hRun : Point.writePut before args = (store, after)) :
    Touch before (.putWrite args) store after := by
  have hVersion : ((before.tensors args.tensor).map (fun t => t.version + 1)).getD 1 =
      before.logicalVersion args.tensor + 1 := by
    unfold logicalVersion
    cases before.tensors args.tensor <;> rfl
  have hStore := congrArg Prod.fst hRun
  have hAfter := congrArg Prod.snd hRun
  subst hStore hAfter
  exact .put args _ rfl rfl (pending_replace _ _ _) rfl hVersion rfl rfl rfl

theorem touch_writeAlias {args : AliasSameAllocation} {src : ResidentCopy}
    (hRun : Point.writeAlias before args src = (store, after)) :
    Touch before (.aliasWrite args src) store after := by
  unfold Point.writeAlias at hRun
  repeat' split at hRun
  all_goals cases hRun
  · exact .quiet rfl rfl nofun
  · exact .quiet rfl rfl nofun
  · next entry hEntry hCurrent =>
    have hVersion : src.version = before.logicalVersion args.tensor := by
      rw [not_or, not_not] at hCurrent
      simp [logicalVersion, hEntry, hCurrent.1]
    have hWrites : (Point.aliasWrite args src).overwrites before =
        some (args.tensor, args.dstResource) := by
      simp only [Point.overwrites, hEntry, Option.bind_some, if_neg hCurrent]
    exact .copy args.tensor _ rfl hWrites (by simp [hEntry]) rfl (pending_replace _ _ _)
      hVersion rfl rfl rfl

theorem touch_writeReplicate {args : Replicate} {version : UInt64} {metadata : TensorMetadata}
    (hRun : Point.writeReplicate before args version metadata = (store, after)) :
    Touch before (.replicateWrite args version metadata) store after := by
  unfold Point.writeReplicate at hRun
  repeat' split at hRun
  all_goals cases hRun
  · exact .quiet rfl rfl nofun
  · exact .quiet rfl rfl nofun
  · next entry hEntry hCurrent =>
    have hVersion : version = before.logicalVersion args.tensor := by
      rw [not_not] at hCurrent
      simp [logicalVersion, hEntry, hCurrent]
    have hWrites : (Point.replicateWrite args version metadata).overwrites before =
        some (args.tensor, args.resource) := by
      simp only [Point.overwrites, hEntry, Option.bind_some, if_neg hCurrent]
    exact .copy args.tensor _ rfl hWrites (by simp [hEntry]) rfl (pending_replace _ _ _)
      hVersion rfl rfl rfl

theorem touch_dropCopy (hRun : Point.dropCopy before tensor resource = (store, after)) :
    Touch before (.releaseCopy tensor resource) store after := by
  unfold Point.dropCopy at hRun
  repeat' split at hRun
  all_goals cases hRun
  · exact .quiet rfl rfl nofun
  · exact .quiet rfl rfl nofun
  · next old hOld hLeases =>
    exact .remove tensor resource old rfl hOld (Nat.eq_zero_of_not_pos hLeases) rfl rfl

/- Everything a section can do to the tensors. -/
theorem section_touch (hRun : point.runSection before = some (store, after)) :
    Touch before point store after := by
  cases point with
  | putRegister args => exact touch_register (Option.some.inj hRun) rfl rfl (by simp)
  | putWrite args => exact touch_writePut (Option.some.inj hRun)
  | aliasGet args =>
    simp only [Point.runSection] at hRun
    repeat' split at hRun
    all_goals cases hRun
    all_goals exact .quiet rfl rfl (by simp)
  | aliasRegister args src capacity =>
    exact touch_register (Option.some.inj hRun) rfl rfl (by simp)
  | aliasWrite args src => exact touch_writeAlias (Option.some.inj hRun)
  | replicateDescribe args =>
    simp only [Point.runSection] at hRun
    split at hRun <;> cases hRun <;> exact .quiet rfl rfl (by simp)
  | replicateRegister args version metadata =>
    exact touch_register (Option.some.inj hRun) rfl rfl (by simp)
  | replicateWrite args version metadata => exact touch_writeReplicate (Option.some.inj hRun)
  | install tensor copy =>
    cases hRun
    exact .install tensor copy rfl rfl rfl
  | setExternalHandle tensor resource handle =>
    exact touch_ended rfl (fun _ h => adjusted_setExternalHandle h) (Option.some.inj hRun)
  | acquireLease tensor resource =>
    exact touch_ended rfl (fun _ h => adjusted_acquireLease h) (Option.some.inj hRun)
  | releaseLease tensor resource =>
    exact touch_ended rfl (fun _ h => adjusted_releaseLease h) (Option.some.inj hRun)
  | releaseCopy tensor resource => exact touch_dropCopy (Option.some.inj hRun)
  | free allocation =>
    simp only [Point.runSection] at hRun
    split at hRun <;> cases hRun <;> exact .quiet rfl rfl (by simp)
  | returned result => cases hRun
  | _ =>
    cases hRun
    exact .quiet rfl rfl (by simp)

end Sections

section

variable {before store : ResidencyStore} {after : Point} (hTouch : Touch before point store after)

include hTouch

/- The tensors change under the tensor lock only. -/
theorem Touch.quiet_of_unlocked (hLocks : point.locksInner = false)
    (hHolds : point.holdsInner = false) : store.tensors = before.tensors := by
  cases hTouch with
  | quiet hTensors => exact hTensors
  | put args copy hPoint =>
    subst hPoint
    cases hLocks
  | copy tensor copy hTrue =>
    rw [hTrue] at hLocks
    cases hLocks
  | install tensor copy hPoint =>
    subst hPoint
    cases hHolds
  | adjust tensor resource old copy hOld hStore hAdjusted hLeased =>
    cases hLeased <;> cases hLocks
  | remove tensor resource old hPoint =>
    subst hPoint
    cases hLocks

/- A section leaves a version or moves it on by one. -/
theorem Touch.logicalVersion_cases (tensor : TensorId) :
    store.logicalVersion tensor = before.logicalVersion tensor ∨
      store.logicalVersion tensor = before.logicalVersion tensor + 1 := by
  cases hTouch with
  | quiet hTensors => exact .inl (by rw [logicalVersion_congr hTensors])
  | put args copy hPoint hTensors =>
    rw [logicalVersion_congr hTensors, logicalVersion_writePut]
    split
    · exact .inr rfl
    · exact .inl rfl
  | copy other copy hLocks hWrites hKnown hTensors =>
    exact .inl (by rw [logicalVersion_congr hTensors])
  | install other copy hPoint hStore => exact .inl (by rw [hStore, logicalVersion_setCopy])
  | adjust other resource old copy hOld hStore =>
    exact .inl (by rw [hStore, logicalVersion_setCopy])
  | remove other resource old hPoint hOld hLeases hStore =>
    exact .inl (by rw [hStore, logicalVersion_setCopy])

end

----
-- Coherence
----

/-
  Valid copies have the version of their tensor, and no two
  of them are authoritative.
-/
structure Coherent (store : ResidencyStore) : Prop where
  current : ∀ tensor resource copy, store.copy? tensor resource = some copy → copy.valid = true →
    copy.version = store.logicalVersion tensor
  single : ∀ tensor first second copy other, store.copy? tensor first = some copy →
    store.copy? tensor second = some other → copy.valid = true → copy.authoritative = true →
    other.valid = true → other.authoritative = true → first = second

/- No other copy of the tensor is valid. -/
def OnlyValid (store : ResidencyStore) (tensor : TensorId) (resource : ResourceId) : Prop :=
  ∀ r, store.has tensor r = true ↔ r = resource

namespace Coherent

variable {store after : ResidencyStore} {tensor : TensorId} {resource : ResourceId}

theorem congr (hCoherent : Coherent store) (hTensors : after.tensors = store.tensors) :
    Coherent after := by
  constructor
  · rw [copy?_congr hTensors, logicalVersion_congr hTensors]
    exact hCoherent.current
  · rw [copy?_congr hTensors]
    exact hCoherent.single

/- A current copy that no authoritative one excludes, or none. -/
theorem setCopy (hCoherent : Coherent store) (hKnown : (store.tensors tensor).isSome)
    (copy : Option ResidentCopy)
    (hVersion : ∀ new ∈ copy, new.valid = true → new.version = store.logicalVersion tensor)
    (hOnly : ∀ new ∈ copy, new.valid = true → new.authoritative = true →
      ∀ r other, store.copy? tensor r = some other →
        other.valid = true → other.authoritative = true → r = resource) :
    Coherent (store.setCopy tensor resource copy) := by
  constructor
  · intro t r found hFound hValid
    rw [logicalVersion_setCopy]
    rw [copy?_setCopy hKnown] at hFound
    split at hFound
    · next hHere =>
      rw [hHere.1]
      exact hVersion found hFound hValid
    · exact hCoherent.current t r found hFound hValid
  · intro t first second one two hOne hTwo hValid hAuth hValid' hAuth'
    rw [copy?_setCopy hKnown] at hOne hTwo
    split at hOne
    · next hFirst =>
      split at hTwo
      · next hSecond => rw [hFirst.2, hSecond.2]
      · rw [hFirst.2]
        rw [hFirst.1] at hTwo
        exact (hOnly one hOne hValid hAuth second two hTwo hValid' hAuth').symm
    · split at hTwo
      · next hSecond =>
        rw [hSecond.2]
        rw [hSecond.1] at hOne
        exact hOnly two hTwo hValid' hAuth' first one hOne hValid hAuth
      · exact hCoherent.single t first second one two hOne hTwo hValid hAuth hValid' hAuth'

end Coherent

variable {copy : ResidentCopy}

section Put

variable {before store : ResidencyStore} {args : PutOpaque}
  (hTensors : store.tensors = (Point.writePut before args).1.tensors)
  (hResource : copy.resource = args.resource) (hValid : copy.valid = true)

include hTensors

theorem known_put : (store.tensors args.tensor).isSome := by
  rw [hTensors]
  exact known_writePut args (Or.inr rfl)

include hResource hValid

/- A written tensor has one valid copy, the new one. -/
theorem onlyValid_put :
    OnlyValid (store.setCopy args.tensor copy.resource (some copy)) args.tensor copy.resource := by
  have hKnown := known_put hTensors
  intro r
  rw [has_eq, copy?_setCopy hKnown, copy?_congr hTensors, copy?_writePut]
  by_cases hHere : r = copy.resource
  · simp [hHere, hValid]
  rw [hResource] at hHere
  cases hOld : before.copy? args.tensor r <;>
    simp [invalidateSiblings, hHere, hOld, hResource]

theorem coherent_put (hCoherent : Coherent before)
    (hVersion : copy.version = before.logicalVersion args.tensor + 1) :
    Coherent (store.setCopy args.tensor copy.resource (some copy)) := by
  have hOnly := onlyValid_put hTensors hResource hValid
  have hKnown := known_put hTensors
  have hHere : ∀ r found, (store.setCopy args.tensor copy.resource
        (some copy)).copy? args.tensor r = some found →
      found.valid = true → r = copy.resource := by
    intro r found hFound hTrue
    apply (hOnly r).mp
    rw [has_eq, hFound]
    exact hTrue
  -- Copies of other tensors are where they were.
  have hOther : ∀ t r, t ≠ args.tensor → (store.setCopy args.tensor copy.resource
      (some copy)).copy? t r = before.copy? t r := by
    intro t r hTensor
    rw [copy?_setCopy hKnown, if_neg (fun h => hTensor h.1),
      copy?_congr hTensors, copy?_writePut, if_neg hTensor]
  constructor
  · intro t r found hFound hTrue
    rw [logicalVersion_setCopy, logicalVersion_congr hTensors, logicalVersion_writePut]
    by_cases hTensor : t = args.tensor
    · subst hTensor
      have hR := hHere r found hFound hTrue
      rw [copy?_setCopy hKnown, if_pos ⟨rfl, hR⟩] at hFound
      cases hFound
      rw [if_pos rfl]
      exact hVersion
    · rw [if_neg hTensor]
      rw [hOther t r hTensor] at hFound
      exact hCoherent.current t r found hFound hTrue
  · intro t first second one two hOne hTwo hValid' hAuth hValid'' hAuth'
    by_cases hTensor : t = args.tensor
    · subst hTensor
      rw [hHere first one hOne hValid', hHere second two hTwo hValid'']
    · rw [hOther t _ hTensor] at hOne hTwo
      exact hCoherent.single t first second one two hOne hTwo hValid' hAuth hValid'' hAuth'

end Put

----
-- Settled Stores
----

/- The store once a pending copy is in. -/
def settle (store : ResidencyStore) : Option (TensorId × ResidentCopy) → ResidencyStore
| none => store
| some (tensor, copy) => store.setCopy tensor copy.resource (some copy)

def State.pending (s : State) : Option (TensorId × ResidentCopy) :=
  s.locked.bind (fun call => (s.calls call).bind Point.pending)

def State.settled (s : State) : ResidencyStore :=
  settle s.store s.pending

open State (pending settled)

theorem settle_congr {store after : ResidencyStore} (hTensors : after.tensors = store.tensors)
    (pending : Option (TensorId × ResidentCopy)) :
    (settle after pending).tensors = (settle store pending).tensors := by
  cases pending with
  | none => exact hTensors
  | some entry => simp [settle, setCopy, hTensors]

structure Settled (s : State) : Prop where
  counted : Counted s
  coherent : Coherent s.settled
  written : ∀ tensor copy, s.pending = some (tensor, copy) → copy.authoritative = true →
    OnlyValid s.settled tensor copy.resource

section Advance

variable {s : State} {call : CallId} {point after : Point} {store : ResidencyStore}

/- A section with the tensor lock has the pending copy. -/
theorem pending_of_locks (store : ResidencyStore) (after : Point) (hCounted : Counted s)
    (hPoint : s.calls call = some point) (hWaits : point.locksInner = true → s.locked = none)
    (hLock : point.locksInner = true ∨ point.holdsInner = true) :
    s.pending = point.pending ∧ (s.next call (store, after)).pending = after.pending := by
  have hOwner : s.locked = none ∨ s.locked = some call := hLock.elim (fun h => Or.inl (hWaits h))
    (fun h => Or.inr (hCounted.locked call point hPoint h))
  constructor
  · rcases hLock with hLocks | hHolds
    · rw [pending, hWaits hLocks]
      cases point <;> first | rfl | cases hLocks
    · rw [pending, hCounted.locked call point hPoint hHolds]
      simp [hPoint]
  · cases hAfter : after.holdsInner with
    | true => simp [pending, State.next, lockAfter, hAfter]
    | false =>
      rw [pending_of_free hAfter]
      rcases hOwner with hNone | hMine
      · simp [pending, State.next, lockAfter, hAfter, hNone]
      · simp [pending, State.next, lockAfter, hAfter, hMine]

/- Any other section leaves it alone. -/
theorem pending_of_unlocked (hPoint : s.calls call = some point)
    (hBefore : point.holdsInner = false) (hAfter : after.holdsInner = false) :
    (s.next call (store, after)).pending = s.pending := by
  simp only [pending, State.next, lockAfter, hAfter, Bool.false_eq_true, if_false]
  split
  · next hMine => simp [hMine, hPoint, pending_of_free hBefore]
  rename_i hOther
  cases hLocked : s.locked with
  | none => rfl
  | some other =>
    have hNe : other ≠ call := by
      rintro rfl
      exact hOther hLocked
    simp [hNe]

theorem Settled.next_same (hSettled : Settled s) (hCounted' : Counted (s.next call (store, after)))
    (hPending : (s.next call (store, after)).pending = s.pending)
    (hTensors : store.tensors = s.store.tensors) : Settled (s.next call (store, after)) := by
  have hSame : (s.next call (store, after)).settled.tensors = s.settled.tensors := by
    rw [settled, hPending]
    exact settle_congr hTensors s.pending
  refine ⟨hCounted', hSettled.coherent.congr hSame, ?_⟩
  intro tensor copy hIs hAuth
  rw [hPending] at hIs
  have hOnly := hSettled.written tensor copy hIs hAuth
  intro r
  rw [has_congr (congrFun hSame tensor)]
  exact hOnly r

/- The store once the copy that is pending now is in. -/
theorem Settled.next_settled (hCounted : Counted (s.next call (store, after)))
    (hPending : (s.next call (store, after)).pending = after.pending)
    (hCoherent : Coherent (settle store after.pending))
    (hWritten : ∀ tensor copy, after.pending = some (tensor, copy) → copy.authoritative = true →
      OnlyValid (settle store after.pending) tensor copy.resource) :
    Settled (s.next call (store, after)) := by
  refine ⟨hCounted, ?_, ?_⟩
  · rw [settled, hPending]
    exact hCoherent
  · rw [settled, hPending]
    exact hWritten

theorem Settled.next (hSettled : Settled s) (hPoint : s.calls call = some point)
    (hWaits : point.locksInner = true → s.locked = none)
    (hRun : point.runSection s.store = some (store, after)) :
    Settled (s.next call (store, after)) := by
  have hCounted := hSettled.counted
  have hCounted' := hCounted.next hPoint hWaits hRun
  have hTouch := section_touch hRun
  by_cases hLock : point.locksInner = true ∨ point.holdsInner = true
  · rcases pending_of_locks store after hCounted hPoint hWaits hLock with ⟨hBefore, hAfter⟩
    have hStart := hSettled.coherent
    rw [settled, hBefore] at hStart
    cases hTouch with
    | quiet hTensors hPending =>
      apply hSettled.next_same hCounted' _ hTensors
      rw [hAfter, hPending, hBefore]
    | put args copy hIs hTensors hPending hResource hVersion hLeases hValid hAuth =>
      subst hIs
      refine .next_settled hCounted' hAfter ?_ ?_
      · rw [hPending]
        exact coherent_put hTensors hResource hValid hStart hVersion
      · intro tensor new hNew _
        rw [hPending] at hNew ⊢
        cases hNew
        exact onlyValid_put hTensors hResource hValid
    | copy tensor copy hLocks hWrites hKnown hTensors hPending hVersion hLeases hValid hAuth =>
      rw [← hBefore, pending, hWaits hLocks] at hStart
      refine .next_settled hCounted' hAfter ?_ ?_
      · rw [hPending]
        refine (hStart.congr hTensors).setCopy (hTensors ▸ hKnown) _ ?_ ?_
        · rintro _ ⟨⟩ _
          rw [logicalVersion_congr hTensors]
          exact hVersion
        · rintro _ ⟨⟩ _ hTrue
          rw [hAuth] at hTrue
          cases hTrue
      · intro other new hNew hTrue
        rw [hPending] at hNew
        cases hNew
        rw [hAuth] at hTrue
        cases hTrue
    | install tensor copy hIs hStore hEnd =>
      subst hIs hStore hEnd
      exact .next_settled hCounted' hAfter hStart (fun _ _ hNew => nomatch hNew)
    | adjust tensor resource old copy hOld hStore hAdjusted hLeased hEnd =>
      subst hStore hEnd
      have hNone : point.pending = none := by cases hLeased <;> rfl
      rw [hNone] at hStart
      refine .next_settled hCounted' hAfter ?_ (fun _ _ hNew => nomatch hNew)
      refine hStart.setCopy (known_of_copy hOld) _ ?_ ?_
      · rintro _ ⟨⟩ hValid
        rw [hAdjusted.valid] at hValid
        rw [hAdjusted.version]
        exact hStart.current tensor resource old hOld hValid
      · rintro _ ⟨⟩ hValid hAuth r other hOther hValid' hAuth'
        rw [hAdjusted.valid] at hValid
        rw [hAdjusted.authoritative] at hAuth
        exact hStart.single tensor r resource other old hOther hOld hValid' hAuth' hValid hAuth
    | remove tensor resource old hIs hOld hLeases hStore hEnd =>
      subst hIs hStore hEnd
      refine .next_settled hCounted' hAfter ?_ (fun _ _ hNew => nomatch hNew)
      exact hStart.setCopy (known_of_copy hOld) none nofun nofun
  · rw [not_or, Bool.not_eq_true, Bool.not_eq_true] at hLock
    have hTensors := hTouch.quiet_of_unlocked hLock.1 hLock.2
    have hKeeps := (section_effect hCounted hPoint hRun).2
    have hAfter : after.holdsInner = false := by
      by_contra hTrue
      rcases hKeeps.locks (by simpa using hTrue) with hLocks | hHolds
      · simp [hLocks] at hLock
      · simp [hHolds] at hLock
    exact hSettled.next_same hCounted' (pending_of_unlocked hPoint hLock.2 hAfter) hTensors

end Advance

theorem Settled.new (limits : ResourceId → Option Nat) : Settled (.new limits) := by
  refine ⟨.new limits, ⟨?_, ?_⟩, ?_⟩
  · exact fun _ _ _ hCopy => nomatch hCopy
  · exact fun _ _ _ _ _ hCopy => nomatch hCopy
  · exact fun _ _ hPending => nomatch hPending

variable {call : CallId} {s : State}

/- A call that starts is not the one with the lock. -/
theorem Settled.invoke (hSettled : Settled s) (hNew : s.calls call = none)
    (hEntry : point.isEntry = true) :
    Settled { s with calls := update s.calls call (some point) } := by
  have hPending : pending { s with calls := update s.calls call (some point) } = s.pending := by
    unfold pending
    cases s.locked with
    | none => rfl
    | some owner =>
      by_cases hSame : owner = call
      · subst hSame
        simp [hNew, pending_entry hEntry]
      · simp [hSame]
  refine ⟨hSettled.counted.invoke hNew hEntry, ?_, ?_⟩
  · rw [settled, hPending]
    exact hSettled.coherent
  · rw [settled, hPending]
    exact hSettled.written

variable {s' : State} {event : Event}

/- Every section keeps the settled store coherent. -/
theorem Settled.step (hSettled : Settled s) (hStep : step s event = some s') : Settled s' := by
  cases event with
  | invoke call point =>
    rcases step_invoke hStep with ⟨hEntry, hNew, rfl⟩
    exact hSettled.invoke hNew hEntry
  | advance call =>
    rcases step_advance hStep with ⟨point, store, after, hPoint, hWaits, hRun, rfl⟩
    exact hSettled.next hPoint hWaits hRun

theorem Settled.of_run (limits : ResourceId → Option Nat) (events : List Event)
    (hRun : run Sections.step (.new limits) events = some s) : Settled s := by
  have hReach := Reachable.of_run_always events hRun
  exact hReach.invariant Settled (fun _ _ _ hSettled _ hStep => hSettled.step hStep) (.new limits)

----
-- Calls That Write a Copy
----

/-
  The copy that a call writes, and whether it is a `put`.
-/
def Point.task : Point → Option (Bool × CopyKey)
| .putRegister args => some (true, (args.tensor, args.resource))
| .putWrite args => some (true, (args.tensor, args.resource))
| .aliasGet args => some (false, (args.tensor, args.dstResource))
| .aliasCapacity args _ => some (false, (args.tensor, args.dstResource))
| .aliasRegister args _ _ => some (false, (args.tensor, args.dstResource))
| .aliasWrite args _ => some (false, (args.tensor, args.dstResource))
| .replicateDescribe args => some (false, (args.tensor, args.resource))
| .replicateRegister args _ _ => some (false, (args.tensor, args.resource))
| .replicateWrite args _ _ => some (false, (args.tensor, args.resource))
| .releasePrevious tensor copy _ => some (copy.authoritative, (tensor, copy.resource))
| .install tensor copy => some (copy.authoritative, (tensor, copy.resource))
| _ => none

/- The call only undoes its registration, or has ended. -/
def Point.ending : Point → Bool
| .undo _ _ _ => true
| .returned _ => true
| _ => false

def Point.Serves (point : Point) (task : Bool × CopyKey) : Prop :=
  point.task = some task ∨ point.ending = true

section Tasks

variable {before store : ResidencyStore} {point after : Point} {task : Bool × CopyKey}
variable {copy : ResidentCopy}

theorem serves_replace {tensor : TensorId} {prev : Option ResidentCopy}
    (hTask : task = (copy.authoritative, (tensor, copy.resource))) :
    (replace tensor copy prev).Serves task := by
  subst hTask
  cases prev <;> exact .inl rfl

theorem serves_register {allocation : AllocationId} {resource : ResourceId} {capacity : Nat}
    {next : Point} (hRun : Point.register before allocation resource capacity next = (store, after))
    (hNext : next.task = some task) : after.Serves task := by
  unfold Point.register at hRun
  split at hRun <;> cases hRun
  · exact .inr rfl
  · exact .inl hNext

/- A call keeps to its copy until it returns. -/
theorem Point.Serves.runSection (hServes : point.Serves task)
    (hRun : point.runSection before = some (store, after)) : after.Serves task := by
  rcases hServes with hTask | hEnding
  · cases point with
    | putRegister args => exact serves_register (Option.some.inj hRun) hTask
    | putWrite args =>
      cases hRun
      cases hTask
      exact serves_replace rfl
    | aliasGet args =>
      simp only [Point.runSection] at hRun
      repeat' split at hRun
      all_goals cases hRun
      · exact .inr rfl
      · exact .inr rfl
      · exact .inl hTask
    | aliasCapacity args src =>
      cases hRun
      exact .inl hTask
    | aliasRegister args src capacity => exact serves_register (Option.some.inj hRun) hTask
    | aliasWrite args src =>
      simp only [Point.runSection, Point.writeAlias] at hRun
      repeat' split at hRun
      all_goals cases hRun
      · exact .inr rfl
      · exact .inr rfl
      · cases hTask
        exact serves_replace rfl
    | replicateDescribe args =>
      simp only [Point.runSection] at hRun
      split at hRun <;> cases hRun
      · exact .inr rfl
      · exact .inl hTask
    | replicateRegister args version metadata => exact serves_register (Option.some.inj hRun) hTask
    | replicateWrite args version metadata =>
      simp only [Point.runSection, Point.writeReplicate] at hRun
      repeat' split at hRun
      all_goals cases hRun
      · exact .inr rfl
      · exact .inr rfl
      · cases hTask
        exact serves_replace rfl
    | releasePrevious tensor copy prev =>
      cases hRun
      exact .inl hTask
    | install tensor copy =>
      cases hRun
      exact .inr rfl
    | _ => cases hTask
  · cases point with
    | undo locked allocation err =>
      cases hRun
      exact .inr rfl
    | returned result => cases hRun
    | _ => cases hEnding

variable {key : CopyKey}

/- `put` answers with the copy it has just inserted. -/
theorem Point.Serves.installed (hServes : point.Serves (true, key))
    (hRun : point.runSection before = some (store, .returned (.ok (.copy copy)))) :
    point = .install key.1 copy ∧ copy.resource = key.2 ∧ copy.authoritative = true := by
  rcases hServes with hTask | hEnding
  · cases point with
    | putRegister args =>
      simp only [Point.runSection, Point.register] at hRun
      split at hRun <;> cases hRun
    | putWrite args =>
      have hAfter := congrArg Prod.snd (Option.some.inj hRun)
      simp only [Point.writePut, replace] at hAfter
      split at hAfter <;> cases hAfter
    | releasePrevious tensor other prev => cases hRun
    | install tensor other =>
      cases hRun
      simp only [Point.task, Option.some.injEq, Prod.mk.injEq] at hTask
      rcases hTask with ⟨hAuth, hKey⟩
      subst hKey
      exact ⟨rfl, rfl, hAuth⟩
    | _ => cases hTask
  · cases point with
    | undo locked allocation err => cases hRun
    | returned result => cases hRun
    | _ => cases hEnding

/- `replicate` and `alias_same_allocation` touch one copy. -/
theorem Point.Serves.frame (hServes : point.Serves (false, key))
    (hRun : point.runSection before = some (store, after))
    (hKnown : ∀ tensor, point.seen = some tensor → (before.tensors tensor).isSome) :
    store.logicalVersion = before.logicalVersion ∧ ∀ tensor resource, (tensor, resource) ≠ key →
      store.copy? tensor resource = before.copy? tensor resource := by
  cases section_touch hRun with
  | quiet hTensors =>
    rw [logicalVersion_congr hTensors, copy?_congr hTensors]
    exact ⟨rfl, fun _ _ _ => rfl⟩
  | put args copy hPoint =>
    subst hPoint
    exact hServes.elim nofun nofun
  | copy tensor copy hLocks hWrites hSome hTensors =>
    rw [logicalVersion_congr hTensors, copy?_congr hTensors]
    exact ⟨rfl, fun _ _ _ => rfl⟩
  | install tensor copy hPoint hStore =>
    subst hPoint hStore
    rcases hServes with hTask | hEnding
    · simp only [Point.task, Option.some.injEq, Prod.mk.injEq] at hTask
      refine ⟨funext (logicalVersion_setCopy _ _), ?_⟩
      intro other place hOther
      rw [copy?_setCopy (hKnown tensor rfl), if_neg]
      rintro ⟨rfl, rfl⟩
      exact hOther hTask.2
    · cases hEnding
  | adjust tensor resource old copy hOld hStore hAdjusted hLeased =>
    rcases hServes with hTask | hEnding
    · cases hLeased <;> cases hTask
    · cases hLeased <;> cases hEnding
  | remove tensor resource old hPoint =>
    subst hPoint
    exact hServes.elim nofun nofun

end Tasks

theorem advance_at (hPoint : s.calls call = some point)
    (hStep : Sections.step s (.advance call) = some s') : ∃ store after,
      point.runSection s.store = some (store, after) ∧ s' = s.next call (store, after) := by
  rcases step_advance hStep with ⟨now, store, after, hNow, _, hRun, hNext⟩
  rw [hPoint] at hNow
  cases hNow
  exact ⟨store, after, hRun, hNext⟩

/- The call is in progress, or over, with its task. -/
def State.Serves (s : State) (call : CallId) (task : Bool × CopyKey) : Prop :=
  ∃ point, s.calls call = some point ∧ point.Serves task

variable {task : Bool × CopyKey}

theorem State.Serves.step (hServes : s.Serves call task) (hStep : Sections.step s event = some s') :
    s'.Serves call task := by
  rcases hServes with ⟨point, hPoint, hTask⟩
  by_cases hOther : call = event.call
  · cases event with
    | invoke other entry =>
      rcases step_invoke hStep with ⟨_, hNew, _⟩
      rw [hOther, Event.call, hNew] at hPoint
      cases hPoint
    | advance other =>
      rw [hOther] at hPoint
      rcases advance_at hPoint hStep with ⟨store, after, hRun, rfl⟩
      refine ⟨after, ?_, hTask.runSection hRun⟩
      simp [State.next, hOther]
  · refine ⟨point, ?_, hTask⟩
    rw [step_calls_other hStep hOther]
    exact hPoint

/- A call that was started has its task ever after. -/
theorem State.Serves.of_invoked {entry : Point} (hTask : entry.task = some task)
    {events : List Event} (hMember : .invoke call entry ∈ events)
    (hRun : run Sections.step s events = some s') : s'.Serves call task := by
  rcases List.append_of_mem hMember with ⟨earlier, later, rfl⟩
  rw [run_append] at hRun
  rcases Option.bind_eq_some_iff.mp hRun with ⟨m, _, hRest⟩
  rcases run_cons hRest with ⟨started, hStep, hLater⟩
  have hStarted : started.Serves call task := by
    rcases step_invoke hStep with ⟨_, _, rfl⟩
    exact ⟨entry, by simp, Or.inl hTask⟩
  exact (Reachable.of_run_always later hLater).invariant (fun s => s.Serves call task)
    (fun _ _ _ hServes _ hStep => hServes.step hStep) hStarted

/- The copy that an alias or a replicate writes. -/
def Copying (events : List Event) (call : CallId) (key : CopyKey) : Prop :=
  (∃ args, .invoke call (.aliasGet args) ∈ events ∧ key = (args.tensor, args.dstResource)) ∨
    ∃ args, .invoke call (.replicateDescribe args) ∈ events ∧ key = (args.tensor, args.resource)

theorem Copying.serves {limits : ResourceId → Option Nat} {events : List Event}
    (hRun : run Sections.step (.new limits) events = some s) {key : CopyKey}
    (hCopying : Copying events call key) : s.Serves call (false, key) := by
  rcases hCopying with ⟨args, hMember, rfl⟩ | ⟨args, hMember, rfl⟩
  · exact .of_invoked rfl hMember hRun
  · exact .of_invoked rfl hMember hRun

theorem Settled.put_returns (hSettled : Settled s) {key : CopyKey}
    (hServes : s.Serves call (true, key)) (hStep : Sections.step s (.advance call) = some s')
    (hReturned : s'.calls call = some (.returned (.ok (.copy copy)))) :
    s'.store.copy? key.1 key.2 = some copy ∧ OnlyValid s'.store key.1 key.2 := by
  rcases hServes with ⟨point, hPoint, hTask⟩
  rcases advance_at hPoint hStep with ⟨store, after, hRun, rfl⟩
  simp only [State.next, update_self, Option.some.injEq] at hReturned
  subst hReturned
  rcases hTask.installed hRun with ⟨rfl, hResource, hAuth⟩
  cases hRun
  have hCounted := hSettled.counted
  have hMine := hCounted.locked call _ hPoint rfl
  have hPending : s.pending = some (key.1, copy) := by
    simp [pending, hMine, hPoint, Point.pending]
  have hOnly := hSettled.written key.1 copy hPending hAuth
  rw [settled, hPending] at hOnly
  rw [← hResource]
  refine ⟨?_, hOnly⟩
  have hKnown := hCounted.seen call _ key.1 hPoint rfl
  simp only [State.next]
  rw [copy?_setCopy hKnown, if_pos ⟨rfl, rfl⟩]

theorem Counted.copying_frame (hCounted : Counted s) {key : CopyKey}
    (hServes : s.Serves call (false, key)) (hStep : Sections.step s (.advance call) = some s') :
    s'.store.logicalVersion = s.store.logicalVersion ∧ ∀ tensor resource, (tensor, resource) ≠ key →
      s'.store.has tensor resource = s.store.has tensor resource := by
  rcases hServes with ⟨point, hPoint, hTask⟩
  rcases advance_at hPoint hStep with ⟨store, after, hRun, rfl⟩
  have hFrame := hTask.frame hRun (fun tensor hSeen => hCounted.seen call _ tensor hPoint hSeen)
  refine ⟨hFrame.1, ?_⟩
  intro tensor resource hOther
  rw [has_eq, has_eq]
  simp only [State.next]
  rw [hFrame.2 tensor resource hOther]

theorem step_logicalVersion (hStep : step s event = some s') (tensor : TensorId) :
    s'.store.logicalVersion tensor = s.store.logicalVersion tensor ∨
      s'.store.logicalVersion tensor = s.store.logicalVersion tensor + 1 := by
  cases event with
  | invoke call point =>
    rcases step_invoke hStep with ⟨_, _, rfl⟩
    exact .inl rfl
  | advance call =>
    rcases step_advance hStep with ⟨point, store, after, _, _, hRun, rfl⟩
    exact (section_touch hRun).logicalVersion_cases tensor

/- A version counts at most the steps of the run. -/
theorem logicalVersion_le_length {events : List Event} (hRun : run step s events = some s')
    (tensor : TensorId) : (s'.store.logicalVersion tensor).toNat ≤
      (s.store.logicalVersion tensor).toNat + events.length := by
  induction events generalizing s with
  | nil =>
    cases hRun
    exact Nat.le_refl _
  | cons event events ih =>
    rcases run_cons hRun with ⟨m, hStep, hRun⟩
    have hRest := ih hRun
    rw [List.length_cons]
    rcases step_logicalVersion hStep tensor with hSame | hNext
    · rw [hSame] at hRest
      omega
    · have hLe := Nat.mod_le ((s.store.logicalVersion tensor).toNat + 1) (2 ^ 64)
      rw [hNext, UInt64.toNat_add, UInt64.toNat_one] at hRest
      omega

/- Before 2 ^ 64 steps no version wraps around. -/
theorem logicalVersion_le_of_short {events : List Event} (hRun : run step s events = some s')
    {s'' : State} (hStep : step s' event = some s'') (tensor : TensorId)
    (hStart : s.store.logicalVersion tensor = 0) (hShort : events.length + 1 < 2 ^ 64) :
    s'.store.logicalVersion tensor ≤ s''.store.logicalVersion tensor := by
  have hLength := logicalVersion_le_length hRun tensor
  rw [hStart, UInt64.toNat_zero, zero_add] at hLength
  rcases step_logicalVersion hStep tensor with hSame | hNext
  · rw [hSame]
    exact UInt64.le_refl _
  · rw [hNext, UInt64.le_iff_toNat_le, UInt64.toNat_add, UInt64.toNat_one,
      Nat.mod_eq_of_lt (by omega)]
    omega

/-
  Whenever the tensor lock is free, valid copies have the
  tensor's version and at most one is authoritative. No
  section lowers a version before the counter of 64 bits
  wraps; `put` returns with its copy the only valid one; sections of `replicate` and
  `alias_same_allocation` change neither a version nor the
  validity of another copy.
-/
theorem residency_coherent (limits : ResourceId → Option Nat) (events : List Event) {s : State}
    (hRun : run step (.new limits) events = some s) :
    (s.locked = none → Coherent s.store) ∧ ∀ event s', step s event = some s' →
      (events.length + 1 < 2 ^ 64 → ∀ tensor,
        s.store.logicalVersion tensor ≤ s'.store.logicalVersion tensor) ∧
      (∀ call args copy, .invoke call (.putRegister args) ∈ events → event = .advance call →
        s'.calls call = some (.returned (.ok (.copy copy))) →
        s'.store.copy? args.tensor args.resource = some copy ∧
          OnlyValid s'.store args.tensor args.resource) ∧
      ∀ call key, Copying events call key → event = .advance call →
        s'.store.logicalVersion = s.store.logicalVersion ∧
          ∀ tensor resource, (tensor, resource) ≠ key →
            s'.store.has tensor resource = s.store.has tensor resource := by
  have hSettled := Settled.of_run limits events hRun
  constructor
  · intro hFree
    have hCoherent := hSettled.coherent
    rw [settled, pending, hFree] at hCoherent
    exact hCoherent
  · intro event s' hStep
    refine ⟨fun hShort tensor => logicalVersion_le_of_short hRun hStep tensor rfl hShort, ?_, ?_⟩
    · rintro call args copy hPut rfl hReturned
      have hServes : s.Serves call (true, (args.tensor, args.resource)) := .of_invoked rfl hPut hRun
      exact hSettled.put_returns hServes hStep hReturned
    · rintro call key hCopying rfl
      exact hSettled.counted.copying_frame (hCopying.serves hRun) hStep

/-
  A tensor is written on the cpu and replicated to the gpu;
  the next section inserts a second write on the cpu.
-/
def rewritten : List Event :=
  [.invoke 0 (putOnCpu "a"), .advance 0, .advance 0, .advance 0, .invoke 1 (.replicateDescribe
      { tensor := "t", resource := "gpu"
        allocation := "b", readyEvent := none }), .advance 1, .advance 1, .advance 1, .advance 1,
    .invoke 2 (putOnCpu "c"), .advance 2, .advance 2, .advance 2]

theorem rewritten_coherent : ∃ s s', run step (.new (fun _ => none)) rewritten = some s ∧
    step s (.advance 2) = some s' ∧ s.store.has "t" "gpu" = false ∧
    s.store.logicalVersion "t" ≤ s'.store.logicalVersion "t" ∧
    OnlyValid s'.store "t" "cpu" := by
  have hPut : .invoke 2 (putOnCpu "c") ∈ rewritten := List.mem_of_getElem? (i := 9) rfl
  have hCoherent := residency_coherent (fun _ => none) rewritten rfl
  refine ⟨_, _, rfl, rfl, rfl, ?_⟩
  have hStep := hCoherent.2 (.advance 2) _ rfl
  have hPut := hStep.2.1 2 _ _ hPut rfl rfl
  exact ⟨hStep.1 (by decide) "t", hPut.2⟩

----
-- Calls That Nothing Interrupts
----

/- What the method of an entry point answers. -/
def atomic (store : ResidencyStore) : Point → ResidencyStore × Point
| .putRegister args =>
  answered store (store.putOpaque args.tensor args.resource args.allocation args.metadata
    args.readyEvent args.externalHandle)
| .aliasGet args =>
  answered store (store.aliasSameAllocation args.tensor args.srcResource args.dstResource)
| .replicateDescribe args =>
  answered store (store.replicate args.tensor args.resource args.allocation args.readyEvent)
| .setExternalHandle tensor resource handle =>
  ended store (store.setExternalHandle tensor resource handle)
| .acquireLease tensor resource => ended store (store.acquireLease tensor resource)
| .releaseLease tensor resource => ended store (store.releaseLease tensor resource)
| .releaseCopy tensor resource =>
  ((store.releaseCopy tensor resource).2,
    .returned ((store.releaseCopy tensor resource).1.map .freed))
| point => (store, point)

theorem atomic_returned (store : ResidencyStore) {point : Point} (hEntry : point.isEntry = true) :
    ∃ reply, (atomic store point).2 = .returned reply := by
  cases point with
  | putRegister | aliasGet | replicateDescribe =>
    dsimp only [atomic, answered]
    split <;> exact ⟨_, rfl⟩
  | setExternalHandle | acquireLease | releaseLease =>
    dsimp only [atomic, ended]
    split <;> exact ⟨_, rfl⟩
  | releaseCopy => exact ⟨_, rfl⟩
  | _ => cases hEntry

/- The sections of a method in a row are the method. -/
theorem complete_entry {store : ResidencyStore} (hCoherent : Coherent store) {point : Point}
    (hEntry : point.isEntry = true) : ∃ n, complete n store point = atomic store point := by
  cases point with
  | putRegister args => exact ⟨4, complete_putOpaque store args⟩
  | replicateDescribe args => exact ⟨5, complete_replicate store args⟩
  | aliasGet args =>
    refine ⟨6, complete_aliasSameAllocation store args ?_⟩
    intro entry copy hEntry hCopy hValid
    have hCurrent := hCoherent.current args.tensor args.srcResource copy
    simp only [copy?, logicalVersion, hEntry] at hCurrent
    exact hCurrent hCopy hValid
  | releaseCopy tensor resource => exact ⟨2, complete_releaseCopy store tensor resource⟩
  | setExternalHandle tensor resource handle => exact ⟨1, rfl⟩
  | acquireLease tensor resource => exact ⟨1, rfl⟩
  | releaseLease tensor resource => exact ⟨1, rfl⟩
  | _ => cases hEntry

/- The lock while only this call goes on. -/
def lockOf (call : CallId) (point : Point) : Option CallId :=
  if point.holdsInner then some call else none

theorem run_alone {call : CallId} (n : Nat) : ∀ {s : State} {point : Point},
    s.calls call = some point → s.locked = lockOf call point →
      ∃ m, run step s (List.replicate m (.advance call)) = some
        { store := (complete n s.store point).1
          locked := lockOf call (complete n s.store point).2
          calls := update s.calls call (some (complete n s.store point).2) } := by
  induction n with
  | zero =>
    intro s point hPoint hLocked
    refine ⟨0, ?_⟩
    rw [complete, ← hLocked, ← hPoint, update_eq_self]
    rfl
  | succ n ih =>
    intro s point hPoint hLocked
    rw [complete]
    cases hRun : point.runSection s.store with
    | none =>
      refine ⟨0, ?_⟩
      rw [← hLocked, ← hPoint, update_eq_self]
      rfl
    | some result =>
      have hFree : ¬ (point.locksInner = true ∧ s.locked.isSome) := by
        rw [hLocked, lockOf]
        cases point <;> simp [Point.locksInner, Point.holdsInner]
      have hStep : step s (.advance call) = some (s.next call result) := by
        simp only [step, hPoint, Option.bind_some, if_neg hFree, hRun, Option.map_some]
      have hNext : (s.next call result).locked = lockOf call result.2 := by
        change lockAfter s.locked call result.2 = _
        rw [lockAfter, hLocked, lockOf, lockOf]
        cases result.2.holdsInner <;> cases point.holdsInner <;> simp
      rcases ih (s := s.next call result) (update_self ..) hNext with ⟨m, hRest⟩
      refine ⟨m + 1, ?_⟩
      rw [List.replicate_succ, run, hStep, Option.bind_some, hRest]
      simp [State.next]

/-
  From every state that an interleaving reaches with the
  tensor lock free, a new call that nothing interrupts any
  more answers as the method of the store does at once.
-/
theorem uninterrupted_call_atomic (limits : ResourceId → Option Nat) (events : List Event)
    {s : State} (hRun : run step (.new limits) events = some s) (hFree : s.locked = none)
    (call : CallId) (hNew : s.calls call = none) (point : Point) (hEntry : point.isEntry = true) :
    (∃ reply, (atomic s.store point).2 = .returned reply) ∧
      ∃ n, run step s (.invoke call point :: List.replicate n (.advance call)) = some
        { store := (atomic s.store point).1, locked := none
          calls := update s.calls call (some (atomic s.store point).2) } := by
  have hCoherent : Coherent s.store := by
    have hSettled := (Settled.of_run limits events hRun).coherent
    rw [settled, pending, hFree] at hSettled
    exact hSettled
  rcases complete_entry hCoherent hEntry with ⟨n, hComplete⟩
  rcases atomic_returned s.store hEntry with ⟨reply, hReply⟩
  refine ⟨⟨reply, hReply⟩, ?_⟩
  have hInvoke : step s (.invoke call point) = some
      { s with calls := update s.calls call (some point) } := by
    simp [step, hEntry, hNew]
  have hHolds : point.holdsInner = false := by
    cases point <;> first | rfl | cases hEntry
  rcases run_alone n (s := { s with calls := update s.calls call (some point) })
    (update_self ..) (by simp [lockOf, hHolds, hFree]) with ⟨m, hAlone⟩
  refine ⟨m, ?_⟩
  rw [run, hInvoke, Option.bind_some, hAlone]
  simp [hComplete, hReply, lockOf, Point.holdsInner]

def copyToGpu : Point :=
  .replicateDescribe { tensor := "t", resource := "gpu", allocation := "b", readyEvent := none }

/- After a write on the cpu. -/
theorem copyToGpu_atomic : ∃ s n s',
    run step (.new (fun _ => none)) (rewritten.take 4) = some s ∧
      run step s (.invoke 1 copyToGpu :: List.replicate n (.advance 1)) = some s' ∧
      s'.store.has "t" "gpu" = true := by
  rcases (uninterrupted_call_atomic (fun _ => none) (rewritten.take 4) rfl rfl 1 rfl
    copyToGpu rfl).2 with ⟨n, hRun⟩
  exact ⟨_, n, _, rfl, hRun, rfl⟩

end Sections

end TensorTorrent
