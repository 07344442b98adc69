import TensorTorrent.Library.Eviction
import TensorTorrent.Library.Transition

/-
  This file models concurrent calls of the streaming
  parameter store (`tensor_store.py`,
  `StreamingParameterStore.acquire` and `release`). A call
  is a sequence of critical sections of the store's lock,
  with waits for events between them; reading a block from
  the pack succeeds. Statistics, prefetching and `close` are
  left out.

  Main declarations:
    * `TensorStore.decoded_bytes_within_budget_iff`
    * `TensorStore.staged_bytes_within_budget`
-/

namespace TensorTorrent

open Option Eviction Transition List
open Function (update update_eq_self update_of_ne update_self)

namespace TensorStore

----
-- Blocks of a Pack
----

/- A storage id of the pack. -/
abbrev Key := String

inductive CompressionKind where
| none
| int8Affine
deriving DecidableEq

structure Block where
  nbytes : Nat
  shape : List Nat
  compression : CompressionKind := .none
  logicalShape : Option (List Nat) := Option.none
  logicalDtype : Option String := Option.none

/- `block.logical_shape or block.shape`. -/
def Block.decodedShape (block : Block) : List Nat :=
  match block.logicalShape with
  | some (dim :: dims) => dim :: dims
  | _ => block.shape

/-
  The bytes of the tensor that `_load` makes of a block: a
  view of the stored bytes, or the dequantised tensor.
  `itemsize` is the width of a dtype of the framework.
-/
def Block.decodedBytes (itemsize : String → Nat) (block : Block) : Nat :=
  match block.compression with
  | .none => block.nbytes
  | .int8Affine => block.decodedShape.prod * itemsize (block.logicalDtype.getD "float32")

/- What a store is opened with. -/
structure Pack where
  envToKey : String → Option Key
  blocks : Key → Block
  budget : Nat

def Pack.nbytes (pack : Pack) (key : Key) : Nat :=
  (pack.blocks key).nbytes

inductive StoreError where
| storage (message : String)
| memoryCapacity (message : String)
deriving DecidableEq

----
-- The Store
----

abbrev EventId := Nat

/-
  The fields under the lock. The cache has its keys in the
  order of their last use. A key that is not in the
  dictionary of pins has no pin. `signalled` has the events
  that are set, and events are numbered as they are made.
-/
structure Store where
  cache : List Key
  pinned : Key → Nat
  staging : List Key
  inflight : Key → Option EventId
  events : EventId
  signalled : EventId → Bool

namespace Store

def new : Store :=
  { cache := []
    pinned := fun _ => 0
    staging := []
    inflight := fun _ => none
    events := 0
    signalled := fun _ => false }

section

variable (store : Store) (key : Key)

/- `self._cache.move_to_end(key)`. -/
def moveToEnd : Store :=
  { store with cache := store.cache.erase key ++ [key] }

def pin : Store :=
  { store with pinned := update store.pinned key (store.pinned key + 1) }

/- A pin that is not there is not dropped. -/
def unpin : Store :=
  { store with pinned := update store.pinned key (store.pinned key - 1) }

/- `self._inflight.setdefault(name, threading.Event())`. -/
def setdefault : Store × EventId :=
  match store.inflight key with
  | some event => (store, event)
  | none =>
    ({ store with
        inflight := update store.inflight key (some store.events), events := store.events + 1 },
      store.events)

end

variable (pack : Pack) (store : Store)

def residentBytes : Nat :=
  load pack.nbytes store.cache + load pack.nbytes store.staging

/- Cached blocks with a pin. -/
def pinnedBytes : Nat :=
  load pack.nbytes (store.cache.filter (fun key => 0 < store.pinned key))

def stagingBytes : Nat :=
  load pack.nbytes store.staging

/- Drops unpinned blocks until the incoming one fits. -/
def evicted (incoming : Nat) : Store :=
  { store with
    cache := (sweep pack.nbytes (fun key => 0 < store.pinned key) pack.budget incoming
      (store.residentBytes pack) store.cache).1 }

def capacityMessage (incoming : Nat) (staging : String) : String :=
  "Cannot stage " ++ toString incoming ++ " bytes within a " ++ toString pack.budget ++
    " byte budget; " ++ toString (store.pinnedBytes pack) ++
    " bytes are pinned by in-flight regions" ++ staging ++
    ". Increase ram_budget_bytes or reduce max_region_nodes."

/- The blocks are gone also when the call fails. -/
def evictIfNeeded (incoming : Nat) : Store × Option StoreError :=
  if store.residentBytes pack + incoming ≤ pack.budget then
    (store, none)
  else
    let after := store.evicted pack incoming
    if (sweep pack.nbytes (fun key => 0 < store.pinned key)
        pack.budget incoming (store.residentBytes pack)
        store.cache).2 + incoming > pack.budget then
      (after, some (.memoryCapacity (after.capacityMessage pack incoming
        (if after.stagingBytes pack = 0 then ""
        else " and " ++ toString (after.stagingBytes pack) ++ " bytes are staging"))))
    else (after, none)

end Store

----
-- Calls
----

/-
  Where a call is: in `acquire` up to the load, in `_load`,
  before the pin at the end, or in `release`.
-/
inductive Point where
| acquire (name : String)
| waitInflight (key : Key) (event : EventId)
| load (key : Key)
| waitLoad (key : Key) (event : EventId)
| read (key : Key)
| popInflight (key : Key)
| setEvent (key : Key) (event : Option EventId)
| pin (key : Key)
| release (names : List String)
| held (key : Key)
| released
| failed (err : StoreError)

def Point.isEntry : Point → Bool
| .acquire _ => true
| .release _ => true
| _ => false

namespace Point

variable (pack : Pack) (store : Store) (names : List String) (key : Key)

/- The first section of `acquire`. -/
def lookup : Store × Point :=
  if key ∈ store.cache then
    ((store.moveToEnd key).pin key, .held key)
  else
    match store.inflight key with
    | some event => (store, .waitInflight key event)
    | none => (store, .load key)

/- After the wait: another load may have brought the block. -/
def recheck : Store × Point :=
  if key ∈ store.cache then
    ((store.moveToEnd key).pin key, .held key)
  else (store, .load key)

/- Reserves room for a block nobody else is loading. -/
def stage : Store × Point :=
  match store.evictIfNeeded pack (pack.nbytes key) with
  | (after, some err) => (after, .failed err)
  | (after, none) =>
    if after.residentBytes pack + pack.nbytes key > pack.budget then
      (after, .failed (.memoryCapacity (after.capacityMessage pack (pack.nbytes key) "")))
    else
      ((Store.setdefault { after with staging := after.staging ++ [key] } key).1, .read key)

/- The first section of `_load`. A cached block keeps its
   place in the order. -/
def startLoad : Store × Point :=
  if key ∈ store.cache then (store, .pin key)
  else if key ∈ store.staging then
    ((store.setdefault key).1, .waitLoad key (store.setdefault key).2)
  else stage pack store key

/- The block becomes visible; it is not yet pinned. -/
def publish : Store × Point :=
  ({ store with cache := store.cache.erase key ++ [key], staging := store.staging.erase key },
    .popInflight key)

def dropPins : Store :=
  names.foldl (fun store name =>
    match pack.envToKey name with
    | none => store
    | some key => store.unpin key) store

def unpinAll : Store × Point :=
  match (dropPins pack store names).evictIfNeeded pack 0 with
  | (after, some err) => (after, .failed err)
  | (after, none) => (after, .released)

/- The next section of a call; a wait for an event that is
   not set has none. -/
def runSection : Point → Option (Store × Point)
| .acquire name =>
  match pack.envToKey name with
  | none => some (store, .failed (.storage ("Unknown parameter " ++ name)))
  | some key => some (lookup store key)
| .waitInflight key event =>
  if store.signalled event then
    some (recheck store key)
  else none
| .load key => some (startLoad pack store key)
| .waitLoad key event =>
  if store.signalled event then
    if key ∈ store.cache then some (store, .pin key)
    else some (store, .failed (.storage ("Failed to stage parameter " ++ key)))
  else none
| .read key => some (publish store key)
| .popInflight key =>
  some ({ store with inflight := update store.inflight key none },
    .setEvent key (store.inflight key))
| .setEvent key event =>
  match event with
  | none => some (store, .pin key)
  | some id =>
    some ({ store with signalled := update store.signalled id true }, .pin key)
| .pin key => some (store.pin key, .held key)
| .release names => some (unpinAll pack store names)
| .held _ => none
| .released => none
| .failed _ => none

end Point

abbrev CallId := Nat

structure State where
  store : Store
  calls : CallId → Option Point

def State.new : State :=
  { store := .new
    calls := fun _ => none }

inductive Event where
| invoke (call : CallId) (point : Point)
| advance (call : CallId)

def State.next (s : State) (call : CallId) (result : Store × Point) : State :=
  { store := result.1, calls := update s.calls call (some result.2) }

def step (pack : Pack) (s : State) : Event → Option State
| .invoke call point =>
  if point.isEntry = true ∧ (s.calls call).isNone then
    some { s with calls := update s.calls call (some point) }
  else none
| .advance call =>
  (s.calls call).bind (fun point => (point.runSection pack s.store).map (s.next call))

variable {pack : Pack} {call : CallId} {point : Point}

theorem step_invoke {s s' : State} (hStep : step pack s (.invoke call point) = some s') :
    point.isEntry = true ∧ s.calls call = none ∧ s' = { s with
      calls := update s.calls call (some point) } := by
  simp only [step] at hStep
  split at hStep
  · next hEntry =>
    cases hStep
    exact ⟨hEntry.1, by simpa using hEntry.2, rfl⟩
  · cases hStep

theorem step_advance {s s' : State} (hStep : step pack s (.advance call) = some s') :
    ∃ point store after, s.calls call = some point ∧
      point.runSection pack s.store = some (store, after) ∧ s' = s.next call (store, after) := by
  simp only [step, bind_eq_some_iff, map_eq_some_iff] at hStep
  rcases hStep with ⟨point, hPoint, ⟨store, after⟩, hRun, rfl⟩
  exact ⟨point, store, after, hPoint, hRun, rfl⟩

----
-- What a Section Does
----

/- The block that a call looks for. -/
def Point.wants (pack : Pack) : Point → Option Key
| .acquire name => pack.envToKey name
| .waitInflight key _ => some key
| .load key => some key
| .waitLoad key _ => some key
| _ => none

/- The block that a call is about. -/
def Point.key (pack : Pack) : Point → Option Key
| .read key => some key
| .popInflight key => some key
| .setEvent key _ => some key
| .pin key => some key
| .held key => some key
| point => point.wants pack

variable {key : Key}

theorem key_of_wants (hWants : point.wants pack = some key) : point.key pack = some key := by
  cases point with
  | acquire name => exact hWants
  | waitInflight other event => exact hWants
  | load other => exact hWants
  | waitLoad other event => exact hWants
  | _ => cases hWants

namespace Store

variable {pack : Pack} {store : Store} {incoming : Nat}

theorem residentBytes_evicted (pack : Pack) (store : Store) (incoming : Nat) :
    (store.evicted pack incoming).residentBytes pack =
      (sweep pack.nbytes (fun key => 0 < store.pinned key)
        pack.budget incoming (store.residentBytes pack)
        store.cache).2 := by
  have hCache : load pack.nbytes store.cache ≤ store.residentBytes pack := Nat.le_add_right _ _
  have hLoad : load pack.nbytes store.cache + (sweep pack.nbytes
        (fun key => 0 < store.pinned key) pack.budget
        incoming (store.residentBytes pack)
        store.cache).2 =
      store.residentBytes pack + load pack.nbytes (store.evicted pack incoming).cache :=
    sweep_load _ _ hCache
  have hStaging : (store.evicted pack incoming).staging = store.staging := rfl
  rw [residentBytes, hStaging]
  unfold residentBytes at hLoad ⊢
  omega

theorem evicted_of_room (hRoom : store.residentBytes pack + incoming ≤ pack.budget) :
    store.evicted pack incoming = store := by
  unfold evicted
  cases hCache : store.cache with
  | nil =>
    rw [sweep]
    simp [← hCache]
  | cons key cache =>
    rw [sweep, if_pos hRoom]
    simp [← hCache]

/- What stays is within the budget, or the call fails. -/
theorem evictIfNeeded_eq (pack : Pack) (store : Store) (incoming : Nat) :
    ∃ err, store.evictIfNeeded pack incoming = (store.evicted pack incoming,
      if (store.evicted pack incoming).residentBytes pack + incoming > pack.budget then
        some (.memoryCapacity err)
      else none) := by
  unfold evictIfNeeded
  by_cases hRoom : store.residentBytes pack + incoming ≤ pack.budget
  · refine ⟨"", ?_⟩
    rw [if_pos hRoom, evicted_of_room hRoom, if_neg (by omega)]
  rw [if_neg hRoom, ← residentBytes_evicted]
  by_cases hFull : (store.evicted pack incoming).residentBytes pack + incoming > pack.budget
  · simp only [if_pos hFull]
    exact ⟨_, rfl⟩
  · refine ⟨"", ?_⟩
    rw [if_neg hFull, if_neg hFull]

/- When there is no room, only pinned blocks are left. -/
theorem residentBytes_full
    (hFull : (store.evicted pack incoming).residentBytes pack + incoming > pack.budget) :
    (store.evicted pack incoming).residentBytes pack =
      store.pinnedBytes pack + store.stagingBytes pack := by
  have hSwept := sweep_full (store.residentBytes pack) store.cache
    (by rwa [residentBytes_evicted] at hFull)
  unfold residentBytes evicted
  rw [hSwept]
  rfl

/- A block with room reserved for it. -/
def staged (pack : Pack) (store : Store) (key : Key) : Store :=
  (Store.setdefault
    { store.evicted pack (pack.nbytes key) with staging := store.staging ++ [key] } key).1

section

variable (store : Store) (key : Key)

@[simp]
theorem setdefault_cache : (store.setdefault key).1.cache = store.cache := by
  unfold setdefault
  split <;> rfl

@[simp]
theorem setdefault_pinned : (store.setdefault key).1.pinned = store.pinned := by
  unfold setdefault
  split <;> rfl

@[simp]
theorem setdefault_staging : (store.setdefault key).1.staging = store.staging := by
  unfold setdefault
  split <;> rfl

@[simp]
theorem setdefault_signalled : (store.setdefault key).1.signalled = store.signalled := by
  unfold setdefault
  split <;> rfl

end

end Store

inductive Turn (pack : Pack) (before : Store) (point : Point) (store : Store)
    (after : Point) : Prop where
| unknown (name : String) (hPoint : point = .acquire name) (hName : pack.envToKey name = none)
    (hStore : store = before) (hAfter : after = .failed (.storage ("Unknown parameter " ++ name)))
| search (key : Key) (hWants : point.wants pack = some key) (hMissing : key ∉ before.cache)
    (hStore : store = before)
    (hAfter : after = .load key ∨ ∃ event, after = .waitInflight key event)
| hit (key : Key) (hWants : point.wants pack = some key) (hCached : key ∈ before.cache)
    (hStore : store = (before.moveToEnd key).pin key) (hAfter : after = .held key)
| found (key : Key) (hWants : point.wants pack = some key) (hCached : key ∈ before.cache)
    (hStore : store = before) (hAfter : after = .pin key)
| lost (key : Key) (event : EventId) (hPoint : point = .waitLoad key event)
    (hSet : before.signalled event = true) (hMissing : key ∉ before.cache) (hStore : store = before)
    (hAfter : after = .failed (.storage ("Failed to stage parameter " ++ key)))
| wait (key : Key) (hPoint : point = .load key) (hStaging : key ∈ before.staging)
    (hStore : store = (before.setdefault key).1)
    (hAfter : after = .waitLoad key (before.setdefault key).2)
| refuse (key : Key) (message : String) (hPoint : point = .load key) (hMissing : key ∉ before.cache)
    (hIdle : key ∉ before.staging)
    (hFull : pack.budget < before.pinnedBytes pack + before.stagingBytes pack + pack.nbytes key)
    (hStore : store = before.evicted pack (pack.nbytes key))
    (hAfter : after = .failed (.memoryCapacity message))
| stage (key : Key) (hPoint : point = .load key) (hMissing : key ∉ before.cache)
    (hIdle : key ∉ before.staging)
    (hRoom :
      (before.evicted pack (pack.nbytes key)).residentBytes pack + pack.nbytes key ≤ pack.budget)
    (hStore : store = before.staged pack key) (hAfter : after = .read key)
| publish (key : Key) (hPoint : point = .read key)
    (hStore : store =
      { before with
        cache := before.cache.erase key ++ [key], staging := before.staging.erase key })
    (hAfter : after = .popInflight key)
| pop (key : Key) (hPoint : point = .popInflight key)
    (hStore : store =
      { before with inflight := update before.inflight key none })
    (hAfter : after = .setEvent key (before.inflight key))
| set (key : Key) (event : EventId) (hPoint : point = .setEvent key (some event))
    (hStore : store =
      { before with signalled := update before.signalled event true })
    (hAfter : after = .pin key)
| unset (key : Key) (hPoint : point = .setEvent key none) (hStore : store = before)
    (hAfter : after = .pin key)
| pin (key : Key) (hPoint : point = .pin key) (hStore : store = before.pin key)
    (hAfter : after = .held key)
| release (names : List String) (hPoint : point = .release names)
    (hStore : store = (Point.dropPins pack before names).evicted pack 0)
    (hAfter : after.key pack = none)
    (hFails : ∀ err, after = .failed err → pack.budget <
      ((Point.dropPins pack before names).evicted pack 0).residentBytes pack)

section Turns

variable {pack : Pack} {before store : Store} {point after : Point}

theorem turn_stage (hMissing : key ∉ before.cache) (hIdle : key ∉ before.staging)
    (hRun : Point.stage pack before key = (store, after)) :
    Turn pack before (.load key) store after := by
  rcases before.evictIfNeeded_eq pack (pack.nbytes key) with ⟨message, hEvict⟩
  unfold Point.stage at hRun
  rw [hEvict] at hRun
  by_cases hFull : (before.evicted pack (pack.nbytes key)).residentBytes
    pack + pack.nbytes key > pack.budget
  · rw [if_pos hFull] at hRun
    cases hRun
    have hLeft := Store.residentBytes_full hFull
    exact .refuse key message rfl hMissing hIdle (by omega) rfl rfl
  · rw [if_neg hFull] at hRun
    simp only [if_neg hFull] at hRun
    cases hRun
    exact .stage key rfl hMissing hIdle (by omega) rfl rfl

theorem turn_startLoad (hRun : Point.startLoad pack before key = (store, after)) :
    Turn pack before (.load key) store after := by
  unfold Point.startLoad at hRun
  split at hRun
  · next hCached =>
    cases hRun
    exact .found key rfl hCached rfl rfl
  · next hMissing =>
    split at hRun
    · next hStaging =>
      cases hRun
      exact .wait key rfl hStaging rfl rfl
    · next hIdle => exact turn_stage hMissing hIdle hRun

theorem turn_unpinAll {names : List String}
    (hRun : Point.unpinAll pack before names = (store, after)) :
    Turn pack before (.release names) store after := by
  rcases (Point.dropPins pack before names).evictIfNeeded_eq pack 0 with ⟨message, hEvict⟩
  unfold Point.unpinAll at hRun
  rw [hEvict] at hRun
  by_cases hFull : ((Point.dropPins pack before names).evicted pack
    0).residentBytes pack + 0 > pack.budget
  · rw [if_pos hFull] at hRun
    cases hRun
    exact .release names rfl rfl rfl (fun _ _ => hFull)
  · rw [if_neg hFull] at hRun
    cases hRun
    exact .release names rfl rfl rfl (fun _ h => nomatch h)

/- Everything a section can do. -/
theorem section_turn (hRun : point.runSection pack before = some (store, after)) :
    Turn pack before point store after := by
  cases point with
  | acquire name =>
    simp only [Point.runSection] at hRun
    cases hName : pack.envToKey name with
    | none =>
      rw [hName] at hRun
      cases hRun
      exact .unknown name rfl hName rfl rfl
    | some key =>
      simp only [hName, Point.lookup] at hRun
      split at hRun
      · next hCached =>
        cases hRun
        exact .hit key hName hCached rfl rfl
      · next hMissing =>
        split at hRun <;> cases hRun
        · exact .search key hName hMissing rfl (Or.inr ⟨_, rfl⟩)
        · exact .search key hName hMissing rfl (Or.inl rfl)
  | waitInflight key event =>
    simp only [Point.runSection, Point.recheck] at hRun
    split at hRun
    · split at hRun
      · next hCached =>
        cases hRun
        exact .hit key rfl hCached rfl rfl
      · next hMissing =>
        cases hRun
        exact .search key rfl hMissing rfl (Or.inl rfl)
    · cases hRun
  | load key => exact turn_startLoad (Option.some.inj hRun)
  | waitLoad key event =>
    simp only [Point.runSection] at hRun
    split at hRun
    · next hSet =>
      split at hRun
      · next hCached =>
        cases hRun
        exact .found key rfl hCached rfl rfl
      · next hMissing =>
        cases hRun
        exact .lost key event rfl hSet hMissing rfl rfl
    · cases hRun
  | read key =>
    cases hRun
    exact .publish key rfl rfl rfl
  | popInflight key =>
    cases hRun
    exact .pop key rfl rfl rfl
  | setEvent key event =>
    cases event with
    | none =>
      cases hRun
      exact .unset key rfl rfl rfl
    | some id =>
      cases hRun
      exact .set key id rfl rfl rfl
  | pin key =>
    cases hRun
    exact .pin key rfl rfl rfl
  | release names => exact turn_unpinAll (Option.some.inj hRun)
  | _ => cases hRun

end Turns

----
-- Stored Sizes
----

/- A block that some parameter of the program names. -/
def Pack.Bound (pack : Pack) (key : Key) : Prop :=
  ∃ name, pack.envToKey name = some key

/-
  Cached and staged blocks are different ones, and their
  stored sizes are within the budget.
-/
structure Store.Fits (pack : Pack) (store : Store) : Prop where
  nodup_cache : store.cache.Nodup
  nodup_staging : store.staging.Nodup
  apart : ∀ key ∈ store.staging, key ∉ store.cache
  room : store.residentBytes pack ≤ pack.budget
  bound : ∀ key, key ∈ store.cache ∨ key ∈ store.staging → pack.Bound key

namespace Store.Fits

variable {pack : Pack} {store after : Store} {key : Key}

theorem iff_keys : store.Fits pack ↔ (store.cache ++ store.staging).Nodup ∧
    load pack.nbytes (store.cache ++ store.staging) ≤ pack.budget ∧
    ∀ key ∈ store.cache ++ store.staging, pack.Bound key := by
  simp only [nodup_append', disjoint_right, load_append, mem_append]
  constructor
  · rintro ⟨hCache, hStaging, hApart, hRoom, hBound⟩
    exact ⟨⟨hCache, hStaging, hApart⟩, hRoom, hBound⟩
  · rintro ⟨⟨hCache, hStaging, hApart⟩, hRoom, hBound⟩
    exact ⟨hCache, hStaging, hApart, hRoom, hBound⟩

section

variable (hFits : store.Fits pack)

include hFits

/- Blocks may go, and go from one place to the other. -/
theorem subperm (hKeys : (after.cache ++ after.staging).Subperm (store.cache ++ store.staging)) :
    after.Fits pack := by
  rw [iff_keys] at hFits ⊢
  rcases hFits with ⟨hNodup, hRoom, hBound⟩
  refine ⟨?_, (load_le_of_subperm hKeys).trans hRoom, fun key hKey =>
    hBound key (hKeys.subset hKey)⟩
  rcases hKeys with ⟨middle, hPerm, hSublist⟩
  exact hPerm.nodup_iff.mp (hSublist.nodup hNodup)

theorem perm (hCache : after.cache.Perm store.cache) (hStaging : after.staging = store.staging) :
    after.Fits pack := by
  apply hFits.subperm
  rw [hStaging]
  exact (hCache.append_right _).subperm

theorem moveToEnd (hCached : key ∈ store.cache) : (store.moveToEnd key).Fits pack :=
  hFits.perm ((perm_append_singleton key _).trans (perm_cons_erase hCached).symm) rfl

theorem evicted (incoming : Nat) : (store.evicted pack incoming).Fits pack :=
  hFits.subperm ((sweep_sublist _ _).append_right _).subperm

theorem staged (hMissing : key ∉ store.cache) (hIdle : key ∉ store.staging)
    (hRoom : (store.evicted pack (pack.nbytes key)).residentBytes
      pack + pack.nbytes key ≤ pack.budget)
    (hBound : pack.Bound key) : (store.staged pack key).Fits pack := by
  have hEvicted := iff_keys.mp (hFits.evicted (pack.nbytes key))
  have hKeys : (store.staged pack key).cache ++ (store.staged pack key).staging =
      ((store.evicted pack (pack.nbytes key)).cache ++ store.staging) ++ [key] := by
    simp [Store.staged]
  have hPerm := perm_append_singleton key
    ((store.evicted pack (pack.nbytes key)).cache ++ store.staging)
  rw [iff_keys, hKeys]
  refine ⟨hPerm.nodup_iff.mpr (nodup_cons.mpr ⟨?_, hEvicted.1⟩), ?_, ?_⟩
  · rw [mem_append, not_or]
    exact ⟨fun hCached => hMissing ((sweep_sublist _ _).subset hCached), hIdle⟩
  · rw [load_append, load_append]
    exact hRoom
  · intro other hOther
    rcases mem_cons.mp (hPerm.mem_iff.mp hOther) with rfl | hOld
    · exact hBound
    · exact hEvicted.2.2 other hOld

/- A block goes from the staging area to the cache. -/
theorem publish (hStaging : key ∈ store.staging) :
    Store.Fits pack { store with
      cache := store.cache.erase key ++ [key]
      staging := store.staging.erase key } := by
  apply hFits.subperm
  rw [erase_of_not_mem (hFits.apart key hStaging), append_assoc]
  exact ((perm_cons_erase hStaging).symm.append_left _).subperm

end

end Store.Fits

theorem dropPins_fields (pack : Pack) (names : List String) :
    ∀ store : Store, Point.dropPins pack store names =
      { store with pinned := (Point.dropPins pack store names).pinned }
      := by
  induction names with
  | nil => exact fun _ => rfl
  | cons name names ih =>
    intro store
    unfold Point.dropPins at ih ⊢
    rw [foldl_cons, ih]
    cases pack.envToKey name <;> rfl

@[simp]
theorem dropPins_kept (pack : Pack) (store : Store) (names : List String) :
    (Point.dropPins pack store names).cache = store.cache ∧
      (Point.dropPins pack store names).staging = store.staging ∧
      (Point.dropPins pack store names).inflight = store.inflight ∧
      (Point.dropPins pack store names).events = store.events ∧
      (Point.dropPins pack store names).signalled = store.signalled := by
  rw [dropPins_fields]
  exact ⟨rfl, rfl, rfl, rfl, rfl⟩

structure Sound (pack : Pack) (s : State) : Prop where
  fits : s.store.Fits pack
  reading : ∀ call key, s.calls call = some (.read key) → key ∈ s.store.staging
  reader : ∀ call other key, s.calls call = some (.read key) →
    s.calls other = some (.read key) → call = other
  bound : ∀ call point key, s.calls call = some point → point.key pack = some key → pack.Bound key

namespace Turn

variable {pack : Pack} {before store : Store} {point after : Point}

section

variable (hTurn : Turn pack before point store after)

include hTurn

theorem fits (hFits : before.Fits pack) (hReading : ∀ key, point = .read key → key ∈ before.staging)
    (hBound : ∀ key, point.key pack = some key → pack.Bound key) : store.Fits pack := by
  cases hTurn with
  | hit key hWants hCached hStore =>
    rw [hStore]
    exact (hFits.moveToEnd hCached).perm (List.Perm.refl _) rfl
  | wait key hPoint hStaging hStore =>
    rw [hStore]
    exact hFits.perm (by simp) (by simp)
  | refuse key message hPoint hMissing hIdle hFull hStore =>
    rw [hStore]
    exact hFits.evicted _
  | stage key hPoint hMissing hIdle hRoom hStore =>
    rw [hStore]
    exact hFits.staged hMissing hIdle hRoom (hBound key (by rw [hPoint]; rfl))
  | publish key hPoint hStore =>
    rw [hStore]
    exact hFits.publish (hReading key hPoint)
  | release names hPoint hStore =>
    rw [hStore]
    exact (hFits.perm (by simp) (by simp)).evicted 0
  | _ =>
    subst_vars
    exact hFits.perm (List.Perm.refl _) rfl

/- A call goes on about the same block. -/
theorem key_eq (hKey : after.key pack = some key) : point.key pack = some key := by
  cases hTurn with
  | search other hWants hMissing hStore hAfter =>
    rcases hAfter with rfl | ⟨event, rfl⟩ <;> cases hKey <;> exact key_of_wants hWants
  | hit other hWants hCached hStore hAfter =>
    rw [hAfter] at hKey
    cases hKey
    exact key_of_wants hWants
  | found other hWants hCached hStore hAfter =>
    rw [hAfter] at hKey
    cases hKey
    exact key_of_wants hWants
  | _ => simp_all [Point.key, Point.wants]

/- Only the reader of a block takes it out of the staging
   area. -/
theorem staging_of_other (hStaging : key ∈ before.staging) (hOther : point ≠ .read key) :
    key ∈ store.staging := by
  cases hTurn with
  | publish other hPoint hStore =>
    rw [hStore]
    have hNe : key ≠ other := by
      rintro rfl
      exact hOther hPoint
    exact (mem_erase_of_ne hNe).mpr hStaging
  | _ => simp_all [Store.pin, Store.moveToEnd, Store.evicted, Store.staged]

/- A block that a call begins to read was in nobody's
   hands. -/
theorem read_new (hAfter : after = .read key) : key ∉ before.staging ∧ key ∈ store.staging := by
  cases hTurn with
  | stage other hPoint hMissing hIdle hRoom hStore hIs =>
    rw [hIs] at hAfter
    cases hAfter
    refine ⟨hIdle, ?_⟩
    rw [hStore, Store.staged, Store.setdefault_staging]
    exact mem_append_right _ (mem_singleton.mpr rfl)
  | search other hWants hMissing hStore hIs =>
    rcases hIs with rfl | ⟨event, rfl⟩ <;> cases hAfter
  | _ => simp_all [Point.key]

end

end Turn

variable {s : State} {store : Store} {after : Point}

theorem Sound.next (hSound : Sound pack s) (hPoint : s.calls call = some point)
    (hTurn : Turn pack s.store point store after) : Sound pack (s.next call (store, after)) := by
  constructor
  case fits =>
    apply hTurn.fits hSound.fits
    · intro key hRead
      exact hSound.reading call key (hRead ▸ hPoint)
    · exact fun key => hSound.bound call point key hPoint
  case reading =>
    intro other key hOther
    rcases moved_cases hOther with ⟨_, hAfter⟩ | ⟨hNe, hOld⟩
    · exact (hTurn.read_new hAfter.symm).2
    · apply hTurn.staging_of_other (hSound.reading other key hOld)
      rintro rfl
      exact hNe (hSound.reader other call key hOld hPoint)
  case reader =>
    intro first second key hFirst hSecond
    rcases moved_cases hFirst with ⟨rfl, hAfter⟩ | ⟨hNe, hOld⟩
    · rcases moved_cases hSecond with ⟨rfl, _⟩ | ⟨_, hOther⟩
      · rfl
      · exact absurd (hSound.reading second key hOther) (hTurn.read_new hAfter.symm).1
    · rcases moved_cases hSecond with ⟨rfl, hAfter⟩ | ⟨_, hOther⟩
      · exact absurd (hSound.reading first key hOld) (hTurn.read_new hAfter.symm).1
      · exact hSound.reader first second key hOld hOther
  case bound =>
    intro other found key hOther hKey
    rcases moved_cases hOther with ⟨_, rfl⟩ | ⟨_, hOld⟩
    · exact hSound.bound call point key hPoint (hTurn.key_eq hKey)
    · exact hSound.bound other found key hOld hKey

theorem Sound.new (pack : Pack) : Sound pack .new := by
  constructor
  case fits =>
    constructor
    case nodup_cache => exact nodup_nil
    case nodup_staging => exact nodup_nil
    case apart => exact fun _ hOther => nomatch hOther
    case room => exact Nat.zero_le _
    case bound =>
      rintro key (hCached | hStaging)
      · cases hCached
      · cases hStaging
  case reading => exact fun _ _ hCall => nomatch hCall
  case reader => exact fun _ _ _ hCall => nomatch hCall
  case bound => exact fun _ _ _ hCall => nomatch hCall

theorem Sound.invoke (hSound : Sound pack s) (hEntry : point.isEntry = true) :
    Sound pack (s.next call (s.store, point)) := by
  have hNotRead : ∀ key, point ≠ .read key := by
    rintro key rfl
    cases hEntry
  constructor
  case fits => exact hSound.fits
  case reading =>
    intro other key hOther
    rcases moved_cases hOther with ⟨_, hSame⟩ | ⟨_, hOld⟩
    · exact absurd hSame.symm (hNotRead key)
    · exact hSound.reading other key hOld
  case reader =>
    intro first second key hFirst hSecond
    rcases moved_cases hFirst with ⟨_, hSame⟩ | ⟨_, hOld⟩
    · exact absurd hSame.symm (hNotRead key)
    rcases moved_cases hSecond with ⟨_, hSame⟩ | ⟨_, hOther⟩
    · exact absurd hSame.symm (hNotRead key)
    · exact hSound.reader first second key hOld hOther
  case bound =>
    intro other found key hOther hKey
    rcases moved_cases hOther with ⟨_, hSame⟩ | ⟨_, hOld⟩
    · subst hSame
      cases found with
      | acquire name => exact ⟨name, hKey⟩
      | release names => cases hKey
      | _ => cases hEntry
    · exact hSound.bound other found key hOld hKey

theorem Sound.step {s s' : State} (hSound : Sound pack s) {event : Event}
    (hStep : TensorStore.step pack s event = some s') : Sound pack s' := by
  cases event with
  | invoke call point =>
    rcases step_invoke hStep with ⟨hEntry, _, rfl⟩
    exact hSound.invoke hEntry
  | advance call =>
    rcases step_advance hStep with ⟨point, store, after, hPoint, hRun, rfl⟩
    exact hSound.next hPoint (section_turn hRun)

theorem Sound.of_run (events : List Event)
    (hRun : run (TensorStore.step pack) .new events = some s) : Sound pack s := by
  have hReach := Reachable.of_run_always events hRun
  exact hReach.invariant (Sound pack) (fun _ _ _ hSound _ hStep => hSound.step hStep) (.new pack)

----
-- Decoded Sizes
----

section Sequential

variable {pack : Pack}

/- The sections of one call without interruption. -/
def sections (pack : Pack) : Nat → Store → Point → Option (Store × Point)
| 0, store, point => some (store, point)
| n + 1, store, point =>
  (point.runSection pack store).bind (fun result => sections pack n result.1 result.2)

theorem run_sections {call : CallId} (n : Nat) :
    ∀ {s : State} {point : Point} {result : Store × Point}, s.calls call = some point →
      sections pack n s.store point = some result →
      run (step pack) s (List.replicate n (.advance call)) = some (s.next call result) := by
  induction n with
  | zero =>
    intro s point result hPoint hSections
    cases hSections
    simp only [replicate_zero, run, State.next, ← hPoint, update_eq_self]
  | succ n ih =>
    intro s point result hPoint hSections
    simp only [sections, bind_eq_some_iff] at hSections
    rcases hSections with ⟨first, hFirst, hRest⟩
    have hStep : step pack s (.advance call) = some (s.next call first) := by
      simp [step, hPoint, hFirst]
    have hNow : (s.next call first).calls call = some first.2 := by simp [State.next]
    have hNext := ih hNow hRest
    rw [replicate_succ, run, hStep, bind_some, hNext]
    simp [State.next]

/- A missing block with room for it ends in the cache. -/
theorem sections_acquire {name : String} (hName : pack.envToKey name = some key)
    (hMissing : key ∉ store.cache) (hStaging : store.staging = [])
    (hInflight : store.inflight = fun _ => none)
    (hRoom : load pack.nbytes store.cache + pack.nbytes key ≤ pack.budget) :
    ∃ store', sections pack 6 store (.acquire name) = some (store', .held key) ∧
      store'.cache = store.cache ++ [key] ∧ store'.staging = [] ∧
      store'.inflight = fun _ => none := by
  have hResident : store.residentBytes pack + pack.nbytes key ≤ pack.budget := by
    simpa [Store.residentBytes, hStaging] using hRoom
  have hEvict : store.evictIfNeeded pack (pack.nbytes key) = (store, none) := by
    rw [Store.evictIfNeeded, if_pos hResident]
  have hStage : Point.stage pack store key = ((Store.setdefault
      { store with staging := store.staging ++ [key] }
      key).1, .read key) := by
    rw [Point.stage, hEvict]
    simp only [if_neg (not_lt.mpr hResident)]
  simp only [sections, Point.runSection, hName, Point.lookup, if_neg hMissing, hInflight,
    bind_some, Point.startLoad, hStaging, not_mem_nil, if_false, hStage, Point.publish,
    Store.setdefault, update_self]
  refine ⟨_, rfl, ?_, ?_, ?_⟩
  · simp [Store.pin, erase_of_not_mem hMissing]
  · simp [Store.pin]
  · simp [Store.pin]

/- Blocks that fit together by their stored sizes can all
   be cached. -/
theorem exists_run_cached (keys : List Key) :
    ∀ {s : State} {n : Nat}, (∀ call, n ≤ call → s.calls call = none) → s.store.staging = [] →
      (s.store.inflight = fun _ => none) → (s.store.cache ++ keys).Nodup →
      (∀ key ∈ keys, pack.Bound key) → load pack.nbytes (s.store.cache ++ keys) ≤ pack.budget →
      ∃ events s', run (step pack) s events = some s' ∧ s'.store.cache = s.store.cache ++ keys := by
  induction keys with
  | nil =>
    intro s n _ _ _ _ _ _
    exact ⟨[], s, rfl, (append_nil _).symm⟩
  | cons key keys ih =>
    intro s n hIdle hStaging hInflight hNodup hBound hLoad
    rcases hBound key (by simp) with ⟨name, hName⟩
    have hMissing : key ∉ s.store.cache := by
      intro hCached
      exact (nodup_append.mp hNodup).2.2 key hCached key (by simp) rfl
    have hRoom : load pack.nbytes s.store.cache + pack.nbytes key ≤ pack.budget := by
      simp only [load_append, load_cons] at hLoad
      omega
    rcases sections_acquire hName hMissing hStaging hInflight hRoom with
      ⟨store, hSections, hCache, hStaging', hInflight'⟩
    -- The call with the next number acquires the block.
    have hStart : step pack s (.invoke n (.acquire name)) =
        some (s.next n (s.store, .acquire name)) := by
      simp [step, Point.isEntry, hIdle n le_rfl, State.next]
    have hPoint : (s.next n (s.store, .acquire name)).calls n = some (.acquire name) := by
      simp [State.next]
    have hCall := run_sections 6 hPoint hSections
    have hLater : ∀ call, n + 1 ≤ call → ((s.next n (s.store, .acquire name)).next n
        (store, .held key)).calls call = none := by
      intro call hCall
      have hNe : call ≠ n := by omega
      simp only [State.next, update_of_ne hNe]
      exact hIdle call (by omega)
    have hJoined : store.cache ++ keys = s.store.cache ++ key :: keys := by
      rw [hCache, append_assoc]
      rfl
    rcases ih hLater hStaging' hInflight' (by rw [State.next, hJoined]; exact hNodup)
        (fun other hOther => hBound other (by simp [hOther]))
        (by rw [State.next, hJoined]; exact hLoad) with
      ⟨events, s', hRest, hEnd⟩
    refine ⟨.invoke n (.acquire name) :: (List.replicate 6 (.advance n) ++ events), s', ?_, ?_⟩
    · rw [run, hStart, bind_some, run_append, hCall, bind_some]
      exact hRest
    · rw [hEnd]
      exact hJoined

end Sequential

/-
  The decoded tensors in the cache stay within the budget in
  every run exactly when this holds of any blocks of the
  pack whose stored sizes are within it.
-/
theorem decoded_bytes_within_budget_iff (itemsize : String → Nat) (pack : Pack) :
    (∀ events s, run (step pack) .new events = some s → load (fun key =>
      (pack.blocks key).decodedBytes itemsize) s.store.cache ≤ pack.budget) ↔
    ∀ keys : List Key, keys.Nodup → (∀ key ∈ keys, pack.Bound key) →
      load pack.nbytes keys ≤ pack.budget → load (fun key =>
        (pack.blocks key).decodedBytes itemsize) keys ≤ pack.budget := by
  constructor
  · intro hRuns keys hNodup hBound hLoad
    rcases exists_run_cached keys (s := .new) (n := 0)
        (fun _ _ => rfl) rfl rfl hNodup hBound hLoad with
      ⟨events, s, hRun, hCache⟩
    have hHere := hRuns events s hRun
    rw [hCache] at hHere
    exact hHere
  · intro hSizes events s hRun
    have hFits := (Sound.of_run events hRun).fits
    apply hSizes s.store.cache hFits.nodup_cache
    · exact fun key hCached => hFits.bound key (Or.inl hCached)
    · exact (Nat.le_add_right _ _).trans hFits.room

/- One quantised block of four elements in a budget of its
   stored size. -/
def quantisedPack : Pack :=
  { envToKey := fun name => if name = "w" then some "w" else none
    blocks := fun _ =>
      { nbytes := 4, shape := [4], compression := .int8Affine, logicalShape := some [4]
        logicalDtype := some "float32" }
    budget := 4 }

theorem quantised_block_exceeds_budget : ∃ s, run (step quantisedPack) .new
      (.invoke 0 (.acquire "w") :: List.replicate 6 (.advance 0)) = some s ∧
    s.store.cache = ["w"] ∧ quantisedPack.budget < load (fun key =>
      (quantisedPack.blocks key).decodedBytes (fun _ => 4)) s.store.cache := by
  refine ⟨_, rfl, rfl, ?_⟩
  decide

----
-- Every Interleaving
----

/-
  Whatever the interleaving: what is cached or being staged
  fits in the budget, no block is kept twice, and no two
  calls read one block, nor one that is cached.
-/
theorem staged_bytes_within_budget (pack : Pack) (events : List Event) {s : State}
    (hRun : run (step pack) .new events = some s) :
    s.store.residentBytes pack ≤ pack.budget ∧ (s.store.cache ++ s.store.staging).Nodup ∧
      ∀ call key, s.calls call = some (.read key) → key ∉ s.store.cache ∧
        ∀ other, s.calls other = some (.read key) → other = call := by
  have hSound := Sound.of_run events hRun
  refine ⟨hSound.fits.room, (Store.Fits.iff_keys.mp hSound.fits).1, ?_⟩
  intro call key hRead
  refine ⟨hSound.fits.apart key (hSound.reading call key hRead), ?_⟩
  intro other hOther
  exact hSound.reader other call key hOther hRead

theorem quantised_block_staged : ∃ s, run (step quantisedPack) .new
    (.invoke 0 (.acquire "w") :: replicate 2 (.advance 0)) = some s ∧
      s.calls 0 = some (.read "w") ∧ "w" ∉ s.store.cache := by
  refine ⟨_, rfl, rfl, ?_⟩
  exact ((staged_bytes_within_budget quantisedPack
    (.invoke 0 (.acquire "w") :: replicate 2 (.advance 0)) rfl).2.2 0 "w" rfl).1

end TensorStore

end TensorTorrent
