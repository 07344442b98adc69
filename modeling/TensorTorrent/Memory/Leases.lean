import TensorTorrent.Memory.Coherence

/-
  This file proves what a lease protects, over all
  interleavings of calls of the residency store
  (`residency.rs`). `release_copy` refuses a leased copy,
  but `put_opaque`, `alias_same_allocation` and `replicate`
  replace the copy under their key without looking at its
  leases. Leases are exact in runs in which they do not meet
  a leased copy.

  Main declarations:
    * `Sections.leased_copy_protected`
-/

namespace TensorTorrent

open Transition

namespace Sections

----
-- Leases of a Stored Copy
----

def leasesAt (store : ResidencyStore) (key : CopyKey) : Nat :=
  ((store.copy? key.1 key.2).map ResidentCopy.activeLeases).getD 0

section Leases

variable {store before : ResidencyStore} {tensor : TensorId} {resource : ResourceId}

theorem leasesAt_congr (hTensors : store.tensors = before.tensors) :
    leasesAt store = leasesAt before := by
  funext key
  rw [leasesAt, leasesAt, copy?_congr hTensors]

theorem leasesAt_setCopy (hKnown : (store.tensors tensor).isSome) (copy : Option ResidentCopy)
    (key : CopyKey) : leasesAt (store.setCopy tensor resource copy) key =
      if (tensor, resource) = key then
        (copy.map ResidentCopy.activeLeases).getD 0
      else leasesAt store key := by
  rcases key with ⟨other, place⟩
  rw [leasesAt, copy?_setCopy hKnown]
  by_cases hHere : (tensor, resource) = (other, place)
  · cases hHere
    rw [if_pos ⟨rfl, rfl⟩, if_pos rfl]
  · rw [if_neg hHere, if_neg, leasesAt]
    rintro ⟨rfl, rfl⟩
    exact hHere rfl

theorem leasesAt_of_copy {copy : ResidentCopy} (hCopy : store.copy? tensor resource = some copy) :
    leasesAt store (tensor, resource) = copy.activeLeases := by
  rw [leasesAt, hCopy]
  rfl

/- Invalidated copies keep their leases. -/
theorem leasesAt_writePut (store : ResidencyStore) (args : PutOpaque) :
    leasesAt (Point.writePut store args).1 = leasesAt store := by
  funext key
  rcases key with ⟨other, place⟩
  rw [leasesAt, leasesAt, copy?_writePut]
  split
  · next hTensor =>
    rw [hTensor, ResidencyStore.invalidateSiblings]
    split
    · rfl
    · cases store.copy? args.tensor place <;> rfl
  · rfl

end Leases

----
-- Successful Leases
----

variable (key : CopyKey)

/- `acquire_lease` on the key returned `Ok`. -/
def Point.acquires : Point → Point → Bool
| .acquireLease tensor resource, .returned (.ok .done) => (tensor, resource) = key
| _, _ => false

/- `release_lease` on the key returned `Ok`. -/
def Point.releases : Point → Point → Bool
| .releaseLease tensor resource, .returned (.ok .done) => (tensor, resource) = key
| _, _ => false

/- Counts a step whose section passes a test. -/
def ofSection (test : Point → Point → Bool) (s : State) (event : Event) (s' : State) : Nat :=
  match event with
  | .invoke _ _ => 0
  | .advance call =>
    match s.calls call, s'.calls call with
    | some point, some after => (test point after).toNat
    | _, _ => 0

def acquires : State → Event → State → Nat :=
  ofSection (Point.acquires key)

def releases : State → Event → State → Nat :=
  ofSection (Point.releases key)

variable {s : State} {call : CallId}

theorem ofSection_next {point after : Point} (test : Point → Point → Bool) (store : ResidencyStore)
    (hPoint : s.calls call = some point) :
    ofSection test s (.advance call) (s.next call (store, after)) = (test point after).toNat := by
  simp [ofSection, State.next, hPoint]

section Tests

variable {point after : Point}

theorem acquires_eq_false (key : CopyKey) (hAfter : after ≠ .returned (.ok .done)) :
    point.acquires key after = false := by
  unfold Point.acquires
  split
  · exact absurd rfl hAfter
  · rfl

theorem releases_eq_false (key : CopyKey) (hAfter : after ≠ .returned (.ok .done)) :
    point.releases key after = false := by
  unfold Point.releases
  split
  · exact absurd rfl hAfter
  · rfl

theorem ne_done_of_pending {entry : TensorId × ResidentCopy}
    (hPending : after.pending = some entry) : after ≠ .returned (.ok .done) := by
  rintro rfl
  cases hPending

end Tests

----
-- Steps That Spare Leases
----

/-
  The step begins to replace no leased copy, and it does not
  acquire a lease when the count is at its maximum.
-/
def Spares (s : State) (event : Event) : Prop :=
  ∀ call point, event = .advance call → s.calls call = some point →
    (∀ key, point.overwrites s.store = some key → leasesAt s.store key = 0) ∧
    ∀ tensor resource, point = .acquireLease tensor resource →
      leasesAt s.store (tensor, resource) < 2 ^ 32 - 1

/- A copy about to be replaced has no lease. -/
structure Guarded (s : State) : Prop where
  counted : Counted s
  unleased : ∀ call point tensor copy, s.calls call = some point →
    point.pending = some (tensor, copy) → leasesAt s.store (tensor, copy.resource) = 0 ∧
      copy.activeLeases = 0

section Advance

variable {point after : Point} {store : ResidencyStore}

section

variable (hGuarded : Guarded s) (hPoint : s.calls call = some point)
variable (hSpares : Spares s (.advance call))
variable (hRun : point.runSection s.store = some (store, after))

include hGuarded hPoint hSpares hRun

/- What a section does to the leases of a copy. -/
theorem leases_section (key : CopyKey) : leasesAt store key + (point.releases key after).toNat =
    leasesAt s.store key + (point.acquires key after).toNat := by
  have hQuiet : after ≠ .returned (.ok .done) → leasesAt store key = leasesAt s.store key →
      leasesAt store key + (point.releases key after).toNat =
        leasesAt s.store key + (point.acquires key after).toNat := by
    intro hAfter hSame
    rw [acquires_eq_false key hAfter, releases_eq_false key hAfter, hSame]
  cases section_touch hRun with
  | quiet hTensors hPending hAfter => exact hQuiet hAfter (congrFun (leasesAt_congr hTensors) key)
  | put args copy hIs hTensors hPending =>
    apply hQuiet (ne_done_of_pending hPending)
    rw [leasesAt_congr hTensors, leasesAt_writePut]
  | copy tensor copy hLocks hWrites hKnown hTensors hPending =>
    exact hQuiet (ne_done_of_pending hPending) (congrFun (leasesAt_congr hTensors) key)
  | install tensor copy hIs hStore hAfter =>
    subst hIs hStore hAfter
    have hKnown := hGuarded.counted.seen call _ tensor hPoint rfl
    have hNone := hGuarded.unleased call _ tensor copy hPoint rfl
    rw [leasesAt_setCopy hKnown]
    split
    · next hHere =>
      rw [← hHere, hNone.1]
      exact hNone.2
    · rfl
  | adjust tensor resource old copy hOld hStore hAdjusted hLeased hAfter =>
    subst hStore hAfter
    rw [leasesAt_setCopy (known_of_copy hOld)]
    by_cases hHere : (tensor, resource) = key
    · subst hHere
      rw [leasesAt_of_copy hOld]
      cases hLeased with
      | handle handle hLeases => simp [Point.acquires, Point.releases, hLeases]
      | acquire hLeases =>
        have hRoom := (hSpares call _ rfl hPoint).2 tensor resource rfl
        rw [leasesAt_of_copy hOld] at hRoom
        have hOne : copy.activeLeases = old.activeLeases + 1 := by
          rw [hLeases, saturatingAdd]
          omega
        simp [Point.acquires, Point.releases, hOne]
      | release hHeld hLeases =>
        have hOne : copy.activeLeases + 1 = old.activeLeases := by omega
        simp [Point.acquires, Point.releases, hOne]
    · cases hLeased <;> simp [Point.acquires, Point.releases, hHere]
  | remove tensor resource old hIs hOld hLeases hStore hAfter =>
    subst hIs hStore hAfter
    rw [leasesAt_setCopy (known_of_copy hOld)]
    split
    · next hHere =>
      rw [← hHere, leasesAt_of_copy hOld, hLeases]
      rfl
    · rfl

/- The copy that the section leaves pending. -/
theorem unleased_section {tensor : TensorId} {copy : ResidentCopy}
    (hPending : after.pending = some (tensor, copy)) :
    leasesAt store (tensor, copy.resource) = 0 ∧ copy.activeLeases = 0 := by
  cases section_touch hRun with
  | quiet hTensors hSame =>
    rw [hSame] at hPending
    rw [leasesAt_congr hTensors]
    exact hGuarded.unleased call point tensor copy hPoint hPending
  | put args new hIs hTensors hNew hResource hVersion hLeases =>
    subst hIs
    rw [hNew] at hPending
    cases hPending
    rw [leasesAt_congr hTensors, leasesAt_writePut, hResource]
    exact ⟨(hSpares call _ rfl hPoint).1 _ rfl, hLeases⟩
  | copy other new hLocks hWrites hKnown hTensors hNew hVersion hLeases =>
    rw [hNew] at hPending
    cases hPending
    rw [leasesAt_congr hTensors]
    exact ⟨(hSpares call _ rfl hPoint).1 _ hWrites, hLeases⟩
  | _ =>
    subst_vars
    cases hPending

end

theorem Guarded.next (hGuarded : Guarded s) (hPoint : s.calls call = some point)
    (hWaits : point.locksInner = true → s.locked = none) (hSpares : Spares s (.advance call))
    (hRun : point.runSection s.store = some (store, after)) :
    Guarded (s.next call (store, after)) := by
  have hCounted := hGuarded.counted
  refine ⟨hCounted.next hPoint hWaits hRun, ?_⟩
  intro other q tensor copy hQ hPending
  rcases moved_cases hQ with ⟨rfl, rfl⟩ | ⟨hSame, hOld⟩
  · exact unleased_section hGuarded hPoint hSpares hRun hPending
  -- The other call has the lock, so this section does not.
  have hOwns : q.holdsInner = true := by
    by_contra hFree
    simp [pending_of_free (by simpa using hFree)] at hPending
  have hTheirs := hCounted.locked other q hOld hOwns
  have hLocks : point.locksInner = false := by
    by_contra hTrue
    rw [hWaits (by simpa using hTrue)] at hTheirs
    cases hTheirs
  have hHolds : point.holdsInner = false := by
    by_contra hTrue
    have hMine := hCounted.locked call point hPoint (by simpa using hTrue)
    exact hSame (Option.some.inj (hTheirs.symm.trans hMine))
  have hTensors := (section_touch hRun).quiet_of_unlocked hLocks hHolds
  simp only [State.next]
  rw [leasesAt_congr hTensors]
  exact hGuarded.unleased other q tensor copy hOld hPending

end Advance

variable (limits : ResourceId → Option Nat)

theorem Guarded.new : Guarded (.new limits) :=
  ⟨.new limits, fun _ _ _ _ hPoint => nomatch hPoint⟩

variable {event : Event}

/- Leases change by acquiring and releasing only. -/
theorem Guarded.step {s' : State} (hGuarded : Guarded s) (hSpares : Spares s event)
    (hStep : Sections.step s event = some s') (key : CopyKey) :
    Guarded s' ∧ leasesAt s'.store key + releases key s event s' =
      leasesAt s.store key + acquires key s event s' := by
  cases event with
  | invoke call point =>
    rcases step_invoke hStep with ⟨hEntry, hNew, rfl⟩
    refine ⟨⟨hGuarded.counted.invoke hNew hEntry, ?_⟩, rfl⟩
    intro other q tensor copy hQ hPending
    rcases moved_cases hQ with ⟨_, rfl⟩ | ⟨_, hOld⟩
    · rw [pending_entry hEntry] at hPending
      cases hPending
    · exact hGuarded.unleased other q tensor copy hOld hPending
  | advance call =>
    rcases step_advance hStep with ⟨point, store, after, hPoint, hWaits, hRun, rfl⟩
    refine ⟨hGuarded.next hPoint hWaits hSpares hRun, ?_⟩
    unfold acquires releases
    rw [ofSection_next _ store hPoint, ofSection_next _ store hPoint]
    exact leases_section hGuarded hPoint hSpares hRun key

/- The leases of a copy are the ones not yet released. -/
theorem Guarded.of_run (events : List Event)
    (hMeets : Meets Sections.step Spares (.new limits) events)
    (hRun : run Sections.step (.new limits) events = some s) (key : CopyKey) :
    Guarded s ∧ leasesAt s.store key + tally Sections.step (releases key) (.new limits) events =
      tally Sections.step (acquires key) (.new limits) events := by
  have hStart : Guarded (State.new limits) ∧ leasesAt (State.new limits).store key + 0 = 0 :=
    ⟨.new limits, rfl⟩
  have hEnd := tally_invariant (acquires key) (releases key) (fun s ups downs =>
      Guarded s ∧ leasesAt s.store key + downs = ups)
    (fun s ups downs event s' hRel hSpares hStep => by
      rcases hRel.1.step hSpares hStep key with ⟨hGuarded, hLeases⟩
      exact ⟨hGuarded, by omega⟩)
    events hStart hMeets hRun
  simpa using hEnd

----
-- Protection
----

variable {resource : ResourceId}

/- A leased copy is not the one being replaced. -/
theorem Guarded.live (hGuarded : Guarded s) {tensor : TensorId} {copy : ResidentCopy}
    (hCopy : s.store.copy? tensor resource = some copy) (hLeased : 0 < copy.activeLeases) :
    (s.store.allocations.referenceCount copy.allocation).isSome := by
  have hStored : ¬ s.Replaced (tensor, resource) := by
    rintro ⟨call, point, hPoint, hReplaces⟩
    cases point with
    | install other new =>
      have hNone := hGuarded.unleased call _ other new hPoint rfl
      cases hReplaces
      rw [leasesAt_of_copy hCopy] at hNone
      omega
    | _ => cases hReplaces
  have hRef : s.ref (.inl (tensor, resource)) = some copy.allocation := by
    rw [ref_stored hStored, allocationAt, hCopy]
    rfl
  have hCounted := hGuarded.counted
  rw [hCounted.positive.isSome_iff]
  exact hCounted.exact.pos hRef

/- Replacing and removing pass a leased copy by. -/
theorem Guarded.step_keeps {s' : State} (hGuarded : Guarded s) (hSpares : Spares s event)
    (hStep : Sections.step s event = some s') {tensor : TensorId} {copy : ResidentCopy}
    (hCopy : s.store.copy? tensor resource = some copy) (hLeased : 0 < copy.activeLeases) :
    ∃ copy', s'.store.copy? tensor resource = some copy' ∧ copy'.allocation = copy.allocation := by
  cases event with
  | invoke call point =>
    rcases step_invoke hStep with ⟨_, _, rfl⟩
    exact ⟨copy, hCopy, rfl⟩
  | advance call =>
    rcases step_advance hStep with ⟨point, store, after, hPoint, hWaits, hRun, rfl⟩
    simp only [State.next]
    cases section_touch hRun with
    | quiet hTensors =>
      rw [copy?_congr hTensors]
      exact ⟨copy, hCopy, rfl⟩
    | put args new hIs hTensors =>
      rw [copy?_congr hTensors, copy?_writePut]
      split
      · next hTensor =>
        rw [hTensor] at hCopy
        rw [ResidencyStore.invalidateSiblings, hCopy]
        split
        · exact ⟨copy, rfl, rfl⟩
        · exact ⟨_, rfl, rfl⟩
      · exact ⟨copy, hCopy, rfl⟩
    | copy other new hLocks hWrites hKnown hTensors =>
      rw [copy?_congr hTensors]
      exact ⟨copy, hCopy, rfl⟩
    | install other new hIs hStore =>
      subst hIs hStore
      have hKnown := hGuarded.counted.seen call _ other hPoint rfl
      have hNone := hGuarded.unleased call _ other new hPoint rfl
      rw [copy?_setCopy hKnown]
      split
      · next hHere =>
        rw [← hHere.1, ← hHere.2, leasesAt_of_copy hCopy] at hNone
        omega
      · exact ⟨copy, hCopy, rfl⟩
    | adjust other place old new hOld hStore hAdjusted =>
      subst hStore
      rw [copy?_setCopy (known_of_copy hOld)]
      split
      · next hHere =>
        rw [hHere.1, hHere.2, hOld] at hCopy
        cases hCopy
        exact ⟨new, rfl, hAdjusted.allocation⟩
      · exact ⟨copy, hCopy, rfl⟩
    | remove other place old hIs hOld hLeases hStore =>
      subst hStore
      rw [copy?_setCopy (known_of_copy hOld)]
      split
      · next hHere =>
        rw [hHere.1, hHere.2, hOld] at hCopy
        cases hCopy
        omega
      · exact ⟨copy, hCopy, rfl⟩

/-
  In runs whose steps spare leased copies: a key that was
  acquired more often than released has a stored copy with
  exactly that many leases; its allocation is live, a
  release of the lease succeeds, and no further such step
  takes the copy's allocation away or changes the count
  other than by acquiring and releasing.
-/
theorem leased_copy_protected (limits : ResourceId → Option Nat) (events : List Event)
    (hMeets : Meets step Spares (.new limits) events) {s : State}
    (hRun : run step (.new limits) events = some s) (tensor : TensorId)
    (resource : ResourceId)
    (hHeld : tally step (releases (tensor, resource)) (.new limits) events <
      tally step (acquires (tensor, resource)) (.new limits) events) :
    ∃ copy, s.store.copy? tensor resource = some copy ∧ copy.activeLeases +
          tally step (releases (tensor, resource)) (.new limits) events =
        tally step (acquires (tensor, resource)) (.new limits) events ∧
      (s.store.allocations.referenceCount copy.allocation).isSome ∧
      (∃ store, s.store.releaseLease tensor resource = .ok store) ∧
      ∀ event s', Spares s event → step s event = some s' →
        ∃ copy', s'.store.copy? tensor resource = some copy' ∧ copy'.allocation = copy.allocation ∧
          copy'.activeLeases + releases (tensor, resource) s event s' =
            copy.activeLeases + acquires (tensor, resource) s event s' := by
  rcases Guarded.of_run limits events hMeets hRun (tensor, resource) with ⟨hGuarded, hBalance⟩
  cases hCopy : s.store.copy? tensor resource with
  | none =>
    simp only [leasesAt, hCopy, Option.map_none, Option.getD_none] at hBalance
    omega
  | some copy =>
    rw [leasesAt_of_copy hCopy] at hBalance
    have hLeased : 0 < copy.activeLeases := by omega
    refine ⟨copy, rfl, hBalance, hGuarded.live hCopy hLeased, ?_, ?_⟩
    · simp only [ResidencyStore.releaseLease, hCopy]
      rw [if_neg (by omega)]
      exact ⟨_, rfl⟩
    · intro event s' hSpares hStep
      rcases hGuarded.step_keeps hSpares hStep hCopy hLeased with ⟨copy', hCopy', hSame⟩
      have hLeases := (hGuarded.step hSpares hStep (tensor, resource)).2
      rw [leasesAt_of_copy hCopy, leasesAt_of_copy hCopy'] at hLeases
      exact ⟨copy', hCopy', hSame, hLeases⟩

/- A tensor is written on the cpu and leased there. -/
def leasedOnCpu : List Event :=
  [.invoke 0 (putOnCpu "a"), .advance 0, .advance 0, .advance 0,
    .invoke 1 (.acquireLease "t" "cpu"), .advance 1]

theorem spares_invoke (s : State) (call : CallId) (entry : Point) : Spares s (.invoke call entry) :=
  fun _ _ hEvent => nomatch hEvent

theorem spares_advance {point : Point} (hPoint : s.calls call = some point)
    (hWrites : ∀ key, point.overwrites s.store = some key → leasesAt s.store key = 0)
    (hAcquires : ∀ tensor resource, point = .acquireLease tensor resource →
      leasesAt s.store (tensor, resource) < 2 ^ 32 - 1) : Spares s (.advance call) := by
  intro other found hEvent hFound
  cases hEvent
  rw [hPoint] at hFound
  cases hFound
  exact ⟨hWrites, hAcquires⟩

theorem leasedOnCpu_spares : Meets step Spares (.new (fun _ => none)) leasedOnCpu := by
  apply Meets.cons rfl (spares_invoke _ _ _)
  apply Meets.cons rfl
  · exact spares_advance rfl nofun (fun _ _ h => nomatch h)
  apply Meets.cons rfl
  · apply spares_advance rfl
    · intro key hKey
      rfl
    · intro tensor resource hPoint
      cases hPoint
  apply Meets.cons rfl
  · exact spares_advance rfl nofun (fun _ _ h => nomatch h)
  apply Meets.cons rfl (spares_invoke _ _ _)
  apply Meets.cons rfl
  · apply spares_advance rfl
    · intro key hKey
      cases hKey
    · intro tensor resource hPoint
      cases hPoint
      decide
  trivial

theorem leased_on_cpu_protected : ∃ s copy, run step (.new (fun _ => none)) leasedOnCpu = some s ∧
    s.store.copy? "t" "cpu" = some copy ∧ copy.activeLeases = 1 ∧
    (s.store.allocations.referenceCount copy.allocation).isSome := by
  rcases leased_copy_protected (fun _ => none) leasedOnCpu
      leasedOnCpu_spares rfl "t" "cpu" (by decide) with
    ⟨copy, hCopy, hLeases, hLive, _⟩
  exact ⟨_, copy, rfl, hCopy, hLeases, hLive⟩

/-
  A second `put` under the key of a leased copy: the count
  starts again at zero, the first allocation is freed and
  the lease can no longer be released.
-/
theorem put_replaces_leased_copy : ∃ s copy, run step (.new (fun _ => none)) (leasedOnCpu ++
      [.invoke 2 (putOnCpu "b"), .advance 2, .advance 2, .advance 2, .advance 2]) = some s ∧
    s.store.copy? "t" "cpu" = some copy ∧ copy.allocation = "b" ∧ copy.activeLeases = 0 ∧
    s.store.allocations.referenceCount "a" = none ∧
    s.store.releaseLease "t" "cpu" = .error (.leaseUnderflow "t" "cpu") :=
  ⟨_, _, rfl, rfl, rfl, rfl, rfl, rfl⟩

end Sections

end TensorTorrent
