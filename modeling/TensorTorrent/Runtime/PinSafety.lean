import TensorTorrent.Runtime.TensorStore

/-
  This file proves what pins of the streaming parameter
  store protect, over all interleavings of its calls
  (`tensor_store.py`). `_load` makes a block visible before
  `acquire` pins it, so a section that makes room for
  another block can evict it in between, also while other
  calls wait for it. Pins are safe in runs in which this
  does not happen.

  Main declarations:
    * `TensorStore.streaming_store_keeps_pins`
-/

namespace TensorTorrent

open Eviction Transition
open Function (update update_of_ne update_self)

namespace TensorStore

----
-- Blocks Not Yet Pinned
----

/- The tensor that a call has loaded or found. -/
def Point.holds : Point → Option Key
| .popInflight key => some key
| .setEvent key _ => some key
| .pin key => some key
| _ => none

/- The block that a call will pin: it has the tensor, or it
   waits in `_load` for another call to load it. -/
def Point.claims : Point → Option Key
| .waitLoad key _ => some key
| point => point.holds

/-
  A section that makes room for a block takes none that a
  call claims: claimed blocks are pinned, or blocks used
  less recently free enough.
-/
def Spares (pack : Pack) (s : State) (event : Event) : Prop :=
  ∀ call key, event = .advance call → s.calls call = some (.load key) →
    key ∉ s.store.cache → key ∉ s.store.staging →
    ∀ other point claimed, s.calls other = some point → point.claims = some claimed →
      ¬ Taken pack.nbytes (fun key => 0 < s.store.pinned key) pack.budget
        (pack.nbytes key) (s.store.residentBytes pack)
        s.store.cache claimed

section Evict

variable {pack : Pack} {store : Store}

theorem mem_evicted (hFits : store.Fits pack) {incoming : Nat} {key : Key}
    (hCached : key ∈ store.cache)
    (hStays : ¬ Taken pack.nbytes (fun key => 0 < store.pinned key) pack.budget
      incoming (store.residentBytes pack) store.cache key) :
    key ∈ (store.evicted pack incoming).cache := by
  apply (mem_sweep_iff _ _ _ hFits.nodup_cache key).mpr
  · exact ⟨hCached, hStays⟩
  · exact Nat.le_add_right _ _

theorem not_taken_of_pinned {incoming used : Nat} {items : List Key} {key : Key}
    (hPinned : 0 < store.pinned key) :
    ¬ Taken pack.nbytes (fun key => 0 < store.pinned key) pack.budget incoming used items key := by
  rintro ⟨front, back, _, hGoes, _⟩
  simp [hPinned] at hGoes

/- A release finds the store within its budget. -/
theorem dropPins_evicted (hFits : store.Fits pack) (names : List String) :
    (Point.dropPins pack store names).evicted pack 0 = Point.dropPins pack store names := by
  apply Store.evicted_of_room
  rw [dropPins_fields]
  exact hFits.room

end Evict

----
-- Counting Pins
----

/- An `acquire` of the block has returned. -/
def Point.returns (key : Key) : Point → Nat
| .held found => if found = key then 1 else 0
| _ => 0

/- How often a `release` names the block. -/
def Point.drops (pack : Pack) (key : Key) : Point → Nat
| .release names => names.countP (fun name => pack.envToKey name = some key)
| _ => 0

def acquires (key : Key) (_ : State) (event : Event) (s' : State) : Nat :=
  match event with
  | .invoke _ _ => 0
  | .advance call => ((s'.calls call).map (Point.returns key)).getD 0

def releases (pack : Pack) (key : Key) (s : State) (event : Event) (_ : State) : Nat :=
  match event with
  | .invoke _ _ => 0
  | .advance call => ((s.calls call).map (Point.drops pack key)).getD 0

theorem pinned_le_dropPins (pack : Pack) (key : Key) (names : List String) :
    ∀ store : Store, store.pinned key ≤
      (Point.dropPins pack store names).pinned key + names.countP (fun name =>
        pack.envToKey name = some key) := by
  induction names with
  | nil => exact fun _ => le_rfl
  | cons name names ih =>
    intro store
    unfold Point.dropPins at ih ⊢
    rw [List.foldl_cons, List.countP_cons]
    cases hName : pack.envToKey name with
    | none => simpa [hName] using ih store
    | some other =>
      have hRest := ih (store.unpin other)
      by_cases hSame : other = key
      · subst hSame
        simp only [Store.unpin, update_self] at hRest ⊢
        simp only [decide_true, if_true]
        omega
      · have hOther : key ≠ other := fun h => hSame h.symm
        simp only [Store.unpin, update_of_ne hOther] at hRest
        simp [hSame]
        exact hRest

theorem dropPins_pinned_le (pack : Pack) (key : Key) (names : List String) :
    ∀ store : Store, (Point.dropPins pack store names).pinned key ≤ store.pinned key := by
  intro store
  apply List.foldlRecOn (motive := fun now : Store => now.pinned key ≤ store.pinned key) names _
    le_rfl
  intro now hNow name _
  cases pack.envToKey name with
  | none => exact hNow
  | some other =>
    refine le_trans ?_ hNow
    by_cases hSame : key = other
    · subst hSame
      simp [Store.unpin]
    · simp [Store.unpin, hSame]

variable {pack : Pack} {point : Point}

/- Pins cover the tensors that were not given back. -/
theorem Turn.pinned_covers {before store : Store} {after : Point}
    (hTurn : Turn pack before point store after) (hFits : before.Fits pack) (key : Key) :
    before.pinned key + after.returns key ≤ store.pinned key + point.drops pack key := by
  have hPin : ∀ other, before.pinned key + (Point.held other).returns key ≤
      update before.pinned other (before.pinned other + 1) key := by
    intro other
    by_cases hSame : other = key
    · subst hSame
      simp [Point.returns]
    · have hNe : key ≠ other := fun h => hSame h.symm
      simp [Point.returns, hSame, update_of_ne hNe]
  cases hTurn with
  | hit other hWants hCached hStore hAfter =>
    subst hStore hAfter
    exact (hPin other).trans (Nat.le_add_right _ _)
  | pin other hPoint hStore hAfter =>
    subst hStore hAfter
    exact (hPin other).trans (Nat.le_add_right _ _)
  | release names hPoint hStore hAfter =>
    subst hPoint hStore
    have hNone : after.returns key = 0 := by
      cases after with
      | held found => cases hAfter
      | _ => rfl
    rw [hNone]
    exact pinned_le_dropPins pack key names before
  | search other hWants hMissing hStore hAfter =>
    subst hStore
    rcases hAfter with rfl | ⟨event, rfl⟩ <;> exact Nat.le_add_right _ _
  | _ => simp_all [Point.returns, Store.evicted, Store.staged]

----
-- Kept Blocks
----

/-
  Pinned and held blocks are cached; a block that a call
  waits for is cached or still being loaded, and then its
  event is not set.
-/
structure Kept (pack : Pack) (s : State) : Prop where
  sound : Sound pack s
  pinned : ∀ key, 0 < s.store.pinned key → key ∈ s.store.cache
  held : ∀ call point key, s.calls call = some point → point.holds = some key → key ∈ s.store.cache
  waiting : ∀ call key event, s.calls call = some (.waitLoad key event) → key ∈ s.store.cache ∨
    (key ∈ s.store.staging ∧ s.store.inflight key = some event)
  unset : ∀ key event, s.store.inflight key = some event → event < s.store.events ∧
    s.store.signalled event = false
  made : ∀ event, s.store.signalled event = true → event < s.store.events
  setting : ∀ call key event, s.calls call = some (.setEvent key (some event)) →
    event < s.store.events ∧ ∀ other, s.store.inflight other ≠ some event
  single : ∀ first second event, s.store.inflight first = some event →
    s.store.inflight second = some event → first = second

/- What a section does to the events of blocks. -/
inductive Marks (before : Store) (point : Point) (store : Store) : Prop where
| same (hInflight : store.inflight = before.inflight) (hEvents : store.events = before.events)
| made (key : Key) (hPoint : point = .load key) (hNone : before.inflight key = none)
    (hInflight : store.inflight = update before.inflight key (some before.events))
    (hEvents : store.events = before.events + 1)
| popped (key : Key) (hPoint : point = .popInflight key)
    (hInflight : store.inflight = update before.inflight key none)
    (hEvents : store.events = before.events)

section Frames

variable {pack : Pack} {before store : Store} {point after : Point} {key : Key}

section

variable (hTurn : Turn pack before point store after)

include hTurn

/- Blocks that are spared stay cached. -/
theorem Turn.mem_cache (hFits : before.Fits pack) (hCached : key ∈ before.cache)
    (hStays : ∀ other, point = .load other → other ∉ before.cache → other ∉ before.staging →
      ¬ Taken pack.nbytes (fun key => 0 < before.pinned key) pack.budget
        (pack.nbytes other) (before.residentBytes pack) before.cache key) :
    key ∈ store.cache := by
  have hTouched : ∀ other, key ∈ before.cache.erase other ++ [other] := by
    intro other
    by_cases hSame : key = other
    · simp [hSame]
    · exact List.mem_append_left _ ((List.mem_erase_of_ne hSame).mpr hCached)
  cases hTurn with
  | hit other hWants hHit hStore =>
    rw [hStore]
    exact hTouched other
  | refuse other message hPoint hMissing hIdle hFull hStore =>
    rw [hStore]
    exact mem_evicted hFits hCached (hStays other hPoint hMissing hIdle)
  | stage other hPoint hMissing hIdle hRoom hStore =>
    rw [hStore, Store.staged, Store.setdefault_cache]
    exact mem_evicted hFits hCached (hStays other hPoint hMissing hIdle)
  | publish other hPoint hStore =>
    rw [hStore]
    exact hTouched other
  | release names hPoint hStore =>
    rw [hStore, dropPins_evicted hFits, dropPins_fields]
    exact hCached
  | _ => simp_all [Store.pin]

variable {event : EventId}

theorem Turn.marks : Marks before point store := by
  have hDefault : ∀ (other : Key) (now : Store), point = .load other →
      store = (now.setdefault other).1 → now.inflight = before.inflight →
      now.events = before.events → Marks before point store := by
    rintro other now hPoint rfl hInflight hEvents
    unfold Store.setdefault
    split
    · exact .same hInflight hEvents
    · next hNone =>
      rw [hInflight] at hNone
      exact .made other hPoint hNone (by rw [hInflight, hEvents]) (by rw [hEvents])
  cases hTurn with
  | wait other hPoint hStaging hStore => exact hDefault other _ hPoint hStore rfl rfl
  | stage other hPoint hMissing hIdle hRoom hStore => exact hDefault other _ hPoint hStore rfl rfl
  | pop other hPoint hStore =>
    subst hStore
    exact .popped other hPoint rfl rfl
  | release names hPoint hStore =>
    subst hStore
    exact .same (by simp [Store.evicted]) (by simp [Store.evicted])
  | _ =>
    subst_vars
    exact .same rfl rfl

/- An event stays the one of its block until it is popped. -/
theorem Turn.inflight_of_other (hInflight : before.inflight key = some event)
    (hOther : point ≠ .popInflight key) : store.inflight key = some event := by
  cases hTurn.marks with
  | same hSame => rw [hSame, hInflight]
  | made other hPoint hNone hNew =>
    have hNe : key ≠ other := by
      rintro rfl
      cases hNone.symm.trans hInflight
    rw [hNew, update_of_ne hNe, hInflight]
  | popped other hPoint hGone =>
    have hNe : key ≠ other := by
      rintro rfl
      exact hOther hPoint
    rw [hGone, update_of_ne hNe, hInflight]

/- A new entry has a new event, for a block being loaded. -/
theorem Turn.inflight_cases (hInflight : store.inflight key = some event) :
    before.inflight key = some event ∨ (point = .load key ∧ event = before.events ∧
      store.events = before.events + 1) := by
  cases hTurn.marks with
  | same hSame => exact .inl (hSame ▸ hInflight)
  | made other hPoint hNone hNew hEvents =>
    rw [hNew] at hInflight
    rcases moved_cases hInflight with ⟨rfl, hEvent⟩ | ⟨_, hOld⟩
    · exact .inr ⟨hPoint, hEvent, hEvents⟩
    · exact .inl hOld
  | popped other hPoint hGone =>
    rw [hGone, Function.update_apply] at hInflight
    split at hInflight
    · cases hInflight
    · exact .inl hInflight

theorem Turn.events_le : before.events ≤ store.events := by
  cases hTurn.marks with
  | same hSame hEvents => exact hEvents.ge
  | made other hPoint hNone hNew hEvents => exact hEvents ▸ Nat.le_succ _
  | popped other hPoint hGone hEvents => exact hEvents.ge

theorem Turn.signalled_cases (hSet : store.signalled event = true) :
    before.signalled event = true ∨ ∃ key, point = .setEvent key (some event) := by
  cases hTurn with
  | set other id hPoint hStore =>
    subst hStore
    by_cases hSame : event = id
    · subst hSame
      exact .inr ⟨other, hPoint⟩
    · simp only [update_of_ne hSame] at hSet
      exact .inl hSet
  | _ => simp_all [Store.pin, Store.moveToEnd, Store.evicted, Store.staged]

/- Blocks are pinned when they are cached, or by the call
   that has loaded them. -/
theorem Turn.pinned_cases (hFits : before.Fits pack) (hPinned : 0 < store.pinned key) :
    0 < before.pinned key ∨ point.holds = some key ∧ store.cache = before.cache ∨
      key ∈ store.cache := by
  have hUpdate : ∀ other, key ≠ other → 0 < update before.pinned other
      (before.pinned other + 1) key → 0 < before.pinned key := by
    intro other hNe hPos
    rwa [update_of_ne hNe] at hPos
  cases hTurn with
  | hit other hWants hCached hStore =>
    subst hStore
    by_cases hSame : key = other
    · subst hSame
      exact .inr (Or.inr (by
        simp [Store.pin, Store.moveToEnd]))
    · exact .inl (hUpdate other hSame hPinned)
  | pin other hPoint hStore =>
    subst hPoint hStore
    by_cases hSame : key = other
    · subst hSame
      exact .inr (Or.inl ⟨rfl, rfl⟩)
    · exact .inl (hUpdate other hSame hPinned)
  | release names hPoint hStore =>
    rw [hStore, dropPins_evicted hFits] at hPinned
    exact .inl (hPinned.trans_le (dropPins_pinned_le _ _ _ _))
  | _ => simp_all [Store.evicted, Store.staged]

/- What a call holds after a section. -/
theorem Turn.holds_cases (hHolds : after.holds = some key) :
    point.holds = some key ∧ store.cache = before.cache ∨ key ∈ store.cache := by
  cases hTurn with
  | search other hWants hMissing hStore hAfter =>
    rcases hAfter with rfl | ⟨event, rfl⟩ <;> cases hHolds
  | found other hWants hCached hStore hAfter =>
    subst hStore hAfter
    cases hHolds
    exact .inr hCached
  | publish other hPoint hStore hAfter =>
    subst hStore hAfter
    cases hHolds
    exact .inr (by simp)
  | pop other hPoint hStore hAfter =>
    subst hPoint hStore hAfter
    exact .inl ⟨hHolds, rfl⟩
  | set other event hPoint hStore hAfter =>
    subst hPoint hStore hAfter
    exact .inl ⟨hHolds, rfl⟩
  | unset other hPoint hStore hAfter =>
    subst hPoint hStore hAfter
    exact .inl ⟨hHolds, rfl⟩
  | release names hPoint hStore hAfter =>
    cases after with
    | popInflight other => cases hAfter
    | setEvent other event => cases hAfter
    | pin other => cases hAfter
    | _ => cases hHolds
  | _ => simp_all [Point.holds]

end

end Frames

section Next

variable {pack : Pack} {s : State} {call : CallId} {point after : Point} {store : Store}
variable {other : CallId}

/- What another call claims is spared. -/
theorem Spares.mem_cache (hSpares : Spares pack s (.advance call)) (hFits : s.store.Fits pack)
    (hPoint : s.calls call = some point) (hTurn : Turn pack s.store point store after)
    {found : Point} {key : Key} (hFound : s.calls other = some found)
    (hClaims : found.claims = some key) (hCached : key ∈ s.store.cache) : key ∈ store.cache := by
  apply hTurn.mem_cache hFits hCached
  rintro incoming rfl hMissing hIdle
  exact hSpares call incoming rfl hPoint hMissing hIdle other found key hFound hClaims

theorem claims_of_holds {key : Key} (hHolds : point.holds = some key) :
    point.claims = some key := by
  cases point with
  | waitLoad other event => cases hHolds
  | _ => exact hHolds

section

variable (hKept : Kept pack s) (hPoint : s.calls call = some point)
variable (hSpares : Spares pack s (.advance call)) (hTurn : Turn pack s.store point store after)

include hKept hPoint hSpares hTurn

theorem Kept.waiting_next {key : Key} {event : EventId}
    (hOther : s.calls other = some (.waitLoad key event)) :
    key ∈ store.cache ∨ (key ∈ store.staging ∧ store.inflight key = some event) := by
  have hFits := hKept.sound.fits
  rcases hKept.waiting other key event hOther with hCached | ⟨hStaging, hInflight⟩
  · exact .inl (hSpares.mem_cache hFits hPoint hTurn hOther rfl hCached)
  by_cases hRead : point = .read key
  · left
    cases hTurn with
    | publish found hIs hStore =>
      rw [hRead] at hIs
      cases hIs
      simp [hStore]
    | _ => simp_all [Point.wants]
  · refine .inr ⟨hTurn.staging_of_other hStaging hRead, ?_⟩
    apply hTurn.inflight_of_other hInflight
    rintro rfl
    -- Its loader has published it before it pops the event.
    exact hFits.apart key hStaging (hKept.held call _ key hPoint rfl)

theorem Kept.next : Kept pack (s.next call (store, after)) := by
  have hFits := hKept.sound.fits
  have hMade : ∀ event, store.signalled event = true → event < s.store.events := by
    intro event hSet
    rcases hTurn.signalled_cases hSet with hBefore | ⟨other, rfl⟩
    · exact hKept.made event hBefore
    · exact (hKept.setting call other event hPoint).1
  constructor
  case sound => exact hKept.sound.next hPoint hTurn
  case pinned =>
    intro key hPinned
    rcases hTurn.pinned_cases hFits hPinned with hOld | ⟨hHolds, hSame⟩ | hCached
    · exact hTurn.mem_cache hFits (hKept.pinned key hOld) (fun _ _ _ _ => not_taken_of_pinned hOld)
    · simp only [State.next]
      rw [hSame]
      exact hKept.held call point key hPoint hHolds
    · exact hCached
  case held =>
    intro other found key hFound hHolds
    rcases moved_cases hFound with ⟨_, rfl⟩ | ⟨_, hOld⟩
    · rcases hTurn.holds_cases hHolds with ⟨hBefore, hSame⟩ | hCached
      · simp only [State.next]
        rw [hSame]
        exact hKept.held call point key hPoint hBefore
      · exact hCached
    · exact hSpares.mem_cache hFits hPoint hTurn hOld (claims_of_holds hHolds)
        (hKept.held other found key hOld hHolds)
  case waiting =>
    intro other key event hFound
    rcases moved_cases hFound with ⟨_, hAfter⟩ | ⟨_, hOld⟩
    · cases hTurn with
      | wait found hIs hStaging hStore hEnd =>
        rw [hEnd] at hAfter
        cases hAfter
        subst hStore
        right
        simp only [State.next, Store.setdefault_staging]
        refine ⟨hStaging, ?_⟩
        unfold Store.setdefault
        split
        · next hSome => exact hSome
        · simp
      | search found hWants hMissing hStore hEnd =>
        rcases hEnd with rfl | ⟨other, rfl⟩ <;> cases hAfter
      | release names hIs hStore hEnd =>
        cases (congrArg (Point.key pack) hAfter).trans hEnd
      | _ => simp_all
    · exact hKept.waiting_next hPoint hSpares hTurn hOld
  case unset =>
    intro key event hInflight
    rcases hTurn.inflight_cases hInflight with hOld | ⟨_, hEvent, hEvents⟩
    · have hUnset := hKept.unset key event hOld
      refine ⟨hUnset.1.trans_le hTurn.events_le, ?_⟩
      by_contra hSet
      rw [Bool.not_eq_false] at hSet
      rcases hTurn.signalled_cases hSet with hBefore | ⟨other, rfl⟩
      · rw [hUnset.2] at hBefore
        cases hBefore
      · exact (hKept.setting call other event hPoint).2 key hOld
    · constructor
      · simp only [State.next]
        rw [hEvents, hEvent]
        exact Nat.lt_succ_self _
      · by_contra hSet
        rw [Bool.not_eq_false] at hSet
        exact (hMade event hSet).ne hEvent
  case made => exact fun event hSet => (hMade event hSet).trans_le hTurn.events_le
  case setting =>
    intro other key event hFound
    rcases moved_cases hFound with ⟨_, hAfter⟩ | ⟨_, hOld⟩
    · cases hTurn with
      | pop found hIs hStore hEnd =>
        rw [hEnd] at hAfter
        injection hAfter with hKey hInflight
        subst hKey hStore
        refine ⟨(hKept.unset key event hInflight.symm).1, ?_⟩
        intro third hThird
        by_cases hSame : third = key
        · subst hSame
          simp [State.next] at hThird
        · simp only [State.next, update_of_ne hSame] at hThird
          exact hSame (hKept.single third key event hThird hInflight.symm)
      | search found hWants hMissing hStore hEnd =>
        rcases hEnd with rfl | ⟨other, rfl⟩ <;> cases hAfter
      | release names hIs hStore hEnd =>
        cases (congrArg (Point.key pack) hAfter).trans hEnd
      | _ => simp_all
    · have hSetting := hKept.setting other key event hOld
      refine ⟨hSetting.1.trans_le hTurn.events_le, ?_⟩
      intro third hThird
      rcases hTurn.inflight_cases hThird with hBefore | ⟨_, hEvent, _⟩
      · exact hSetting.2 third hBefore
      · exact hSetting.1.ne hEvent
  case single =>
    intro first second event hFirst hSecond
    rcases hTurn.inflight_cases hFirst with hOld | ⟨hLoad, hEvent, _⟩
    · rcases hTurn.inflight_cases hSecond with
        hOther | ⟨_, hEvent, _⟩
      · exact hKept.single first second event hOld hOther
      · exact absurd hEvent (hKept.unset first event hOld).1.ne
    · rcases hTurn.inflight_cases hSecond with
        hOther | ⟨hLoad', _, _⟩
      · exact absurd hEvent (hKept.unset second event hOther).1.ne
      · rw [hLoad] at hLoad'
        cases hLoad'
        rfl

end

end Next

theorem Kept.new (pack : Pack) : Kept pack .new := by
  constructor
  case sound => exact .new pack
  case pinned => exact fun _ hPinned => nomatch hPinned
  case held => exact fun _ _ _ hCall => nomatch hCall
  case waiting => exact fun _ _ _ hCall => nomatch hCall
  case unset => exact fun _ _ hInflight => nomatch hInflight
  case made => exact fun _ hSet => nomatch hSet
  case setting => exact fun _ _ _ hCall => nomatch hCall
  case single => exact fun _ _ _ hFirst => nomatch hFirst

variable {s : State} {call : CallId}

theorem Kept.invoke (hKept : Kept pack s) (hEntry : point.isEntry = true) :
    Kept pack (s.next call (s.store, point)) := by
  refine { hKept with sound := hKept.sound.invoke hEntry, held := ?_, waiting := ?_, setting := ?_ }
  · intro other found key hFound hHolds
    rcases moved_cases hFound with ⟨_, rfl⟩ | ⟨_, hOld⟩
    · cases found with
      | acquire name => cases hHolds
      | release names => cases hHolds
      | _ => cases hEntry
    · exact hKept.held other found key hOld hHolds
  · intro other key event hFound
    rcases moved_cases hFound with ⟨_, rfl⟩ | ⟨_, hOld⟩
    · cases hEntry
    · exact hKept.waiting other key event hOld
  · intro other key event hFound
    rcases moved_cases hFound with ⟨_, rfl⟩ | ⟨_, hOld⟩
    · cases hEntry
    · exact hKept.setting other key event hOld

/- A step keeps the blocks, and the pins that cover them. -/
theorem Kept.step {s s' : State} (hKept : Kept pack s) {event : Event}
    (hSpares : Spares pack s event) (hStep : TensorStore.step pack s event = some s') (key : Key) :
    Kept pack s' ∧ s.store.pinned key + acquires key s event s' ≤
      s'.store.pinned key + releases pack key s event s' := by
  cases event with
  | invoke call point =>
    rcases step_invoke hStep with ⟨hEntry, _, rfl⟩
    exact ⟨hKept.invoke hEntry, le_rfl⟩
  | advance call =>
    rcases step_advance hStep with ⟨point, store, after, hPoint, hRun, rfl⟩
    have hTurn := section_turn hRun
    refine ⟨hKept.next hPoint hSpares hTurn, ?_⟩
    have hCovers := hTurn.pinned_covers hKept.sound.fits key
    simpa [acquires, releases, State.next, hPoint] using hCovers

theorem Kept.of_run (events : List Event)
    (hMeets : Meets (TensorStore.step pack) (Spares pack) .new events)
    (hRun : run (TensorStore.step pack) .new events = some s) (key : Key) :
    Kept pack s ∧ tally (TensorStore.step pack) (acquires key) .new events ≤
      s.store.pinned key + tally (TensorStore.step pack) (releases pack key) .new events := by
  have hStart : Kept pack .new ∧ 0 ≤ State.new.store.pinned key + 0 := ⟨.new pack, Nat.zero_le _⟩
  have hEnd := tally_invariant (acquires key) (releases pack key) (fun s ups downs =>
      Kept pack s ∧ ups ≤ s.store.pinned key + downs)
    (fun s ups downs event s' hRel hSpares hStep => by
      rcases hRel.1.step hSpares hStep key with ⟨hKept, hCovers⟩
      exact ⟨hKept, by omega⟩)
    events hStart hMeets hRun
  simpa using hEnd

/- A call fails for want of room only. -/
theorem Kept.fails_full (hKept : Kept pack s) {key : Key} (hPoint : s.calls call = some point)
    (hKey : point.key pack = some key) {store : Store} {err : StoreError}
    (hTurn : Turn pack s.store point store (.failed err)) :
    pack.budget < s.store.pinnedBytes pack + s.store.stagingBytes pack + pack.nbytes key := by
  cases hTurn with
  | unknown name hIs hName =>
    subst hIs
    have hSome : pack.envToKey name = some key := hKey
    rw [hName] at hSome
    cases hSome
  | lost other event hIs hSet hMissing =>
    subst hIs
    cases hKey
    rcases hKept.waiting call key event hPoint with hCached | ⟨_, hInflight⟩
    · exact absurd hCached hMissing
    · rw [(hKept.unset key event hInflight).2] at hSet
      cases hSet
  | refuse other message hIs hMissing hIdle hFull =>
    subst hIs
    cases hKey
    exact hFull
  | search other hWants hMissing hStore hAfter =>
    rcases hAfter with hAfter | ⟨event, hAfter⟩ <;> cases hAfter
  | release names hIs =>
    subst hIs
    cases hKey
  | _ => contradiction

/- The block is in the hands of an acquirer: it was acquired
   more often than released, or a call has its tensor. -/
def Holding (pack : Pack) (events : List Event) (s : State) (key : Key) : Prop :=
  tally (step pack) (releases pack key) .new events < tally (step pack) (acquires key) .new events ∨
  ∃ call point, s.calls call = some point ∧ point.holds = some key

/-
  In runs whose sections spare claimed blocks: a block that
  was acquired more often than released is cached, the
  stored sizes of cached and held blocks are within the
  budget, and an `acquire` fails only when the pinned and
  the staged blocks leave no room.
-/
theorem streaming_store_keeps_pins (pack : Pack) (events : List Event)
    (hMeets : Meets (step pack) (Spares pack) .new events) {s : State}
    (hRun : run (step pack) .new events = some s) :
    (∀ key, tally (step pack) (releases pack key) .new events <
      tally (step pack) (acquires key) .new events → key ∈ s.store.cache) ∧
    (∀ keys : List Key, keys.Nodup → (∀ key ∈ keys,
      key ∈ s.store.cache ∨ Holding pack events s key) → load pack.nbytes keys ≤ pack.budget) ∧
    ∀ call point key s' err, s.calls call = some point → point.key pack = some key →
      step pack s (.advance call) = some s' → s'.calls call = some (.failed err) →
      pack.budget < s.store.pinnedBytes pack + s.store.stagingBytes pack + pack.nbytes key := by
  have hPins : ∀ key, tally (step pack) (releases pack key) .new events <
      tally (step pack) (acquires key) .new events → key ∈ s.store.cache := by
    intro key hMore
    rcases Kept.of_run events hMeets hRun key with ⟨hKept, hCovers⟩
    exact hKept.pinned key (by omega)
  have hKept : Kept pack s := (Kept.of_run events hMeets hRun "").1
  refine ⟨hPins, ?_, ?_⟩
  · intro keys hNodup hKeys
    have hSubset : ∀ key ∈ keys, key ∈ s.store.cache := by
      intro key hKey
      rcases hKeys key hKey with hCached | hMore | ⟨call, point, hPoint, hHolds⟩
      · exact hCached
      · exact hPins key hMore
      · exact hKept.held call point key hPoint hHolds
    calc load pack.nbytes keys ≤ load pack.nbytes s.store.cache :=
          load_le_of_subperm (List.subperm_of_subset hNodup hSubset)
      _ ≤ s.store.residentBytes pack := Nat.le_add_right _ _
      _ ≤ pack.budget := hKept.sound.fits.room
  · intro call point key s' err hPoint hKey hStep hFailed
    rcases step_advance hStep with ⟨now, store, after, hNow, hSection, rfl⟩
    rw [hPoint] at hNow
    cases hNow
    simp only [State.next, update_self, Option.some.injEq] at hFailed
    subst hFailed
    exact hKept.fails_full hPoint hKey (section_turn hSection)

/- Two blocks of four bytes, and room for one. -/
def tightPack : Pack :=
  { envToKey := fun name =>
      if name = "a" ∨ name = "b" then some name else none
    blocks := fun _ => { nbytes := 4, shape := [4] }, budget := 4 }

/- One block after the other; the second takes the place of
   the first. -/
def oneAfterTheOther : List Event :=
  [.invoke 0 (.acquire "a"), .advance 0, .advance 0, .advance 0, .advance 0, .advance 0, .advance 0,
    .invoke 1 (.release ["a"]), .advance 1, .invoke 2 (.acquire "b"), .advance 2, .advance 2,
    .advance 2, .advance 2, .advance 2, .advance 2]

theorem spares_invoke (pack : Pack) (s : State) (call : CallId) (point : Point) :
    Spares pack s (.invoke call point) := by
  intro other key hEvent
  cases hEvent

theorem spares_advance (hCalls : ∀ key, s.calls call = some (.load key) →
      ∀ other point, s.calls other = some point → point.claims = none) :
    Spares pack s (.advance call) := by
  intro other key hEvent hLoad _ _ third point claimed hThird hClaims
  cases hEvent
  rw [hCalls key hLoad third point hThird] at hClaims
  cases hClaims

theorem oneAfterTheOther_spares :
    Meets (step tightPack) (Spares tightPack) .new oneAfterTheOther := by
  have hAway {s call} (hCalls : ∀ key, s.calls call ≠ some (.load key)) :
      Spares tightPack s (.advance call) :=
    spares_advance (fun key hLoad => absurd hLoad (hCalls key))
  apply Meets.cons rfl (spares_invoke _ _ _ _)
  apply Meets.cons rfl (hAway (by intro key h; cases h))
  apply Meets.cons rfl
  · -- Nobody else is there.
    apply spares_advance
    intro key _ other point hPoint
    match other with
    | 0 =>
      cases hPoint
      rfl
    | n + 1 => cases hPoint
  iterate 4 apply Meets.cons rfl (hAway (by intro key h; cases h))
  apply Meets.cons rfl (spares_invoke _ _ _ _)
  apply Meets.cons rfl (hAway (by intro key h; cases h))
  apply Meets.cons rfl (spares_invoke _ _ _ _)
  apply Meets.cons rfl (hAway (by intro key h; cases h))
  apply Meets.cons rfl
  · apply spares_advance
    intro key _ other point hPoint
    match other with
    | 0 =>
      cases hPoint
      rfl
    | 1 =>
      cases hPoint
      rfl
    | 2 =>
      cases hPoint
      rfl
    | n + 3 => cases hPoint
  iterate 4 apply Meets.cons rfl (hAway (by intro key h; cases h))
  trivial

theorem one_after_the_other_is_cached : ∃ s, run (step tightPack) .new oneAfterTheOther = some s ∧
    "b" ∈ s.store.cache ∧ "a" ∉ s.store.cache := by
  have hKept := streaming_store_keeps_pins tightPack oneAfterTheOther oneAfterTheOther_spares rfl
  refine ⟨_, rfl, hKept.1 "b" (by decide), ?_⟩
  exact fun h => nomatch h

/-
  The second load evicts the first block between its load
  and its pin: the block is pinned and not cached, and the
  two tensors take twice the budget.
-/
theorem loaded_block_is_evicted_before_its_pin : ∃ s, run (step tightPack) .new
      [.invoke 0 (.acquire "a"), .advance 0, .advance 0,
        .advance 0, .invoke 1 (.acquire "b"), .advance 1,
        .advance 1, .advance 1, .advance 0, .advance 0, .advance 0] = some s ∧
    s.calls 0 = some (.held "a") ∧ s.store.pinned "a" = 1 ∧ s.store.cache = ["b"] ∧
    s.store.residentBytes tightPack = tightPack.budget :=
  ⟨_, rfl, rfl, rfl, rfl, rfl⟩

end TensorStore

end TensorTorrent
