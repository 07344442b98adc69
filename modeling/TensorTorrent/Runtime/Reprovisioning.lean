import TensorTorrent.Runtime.Provisioning
import TensorTorrent.Storage.PackRoundTrip

/-
  A second parameter store for a program whose weights were
  streamed: the module only holds sentinels by then, and the
  weights are where the first store reads them.

  Main declarations:
    * `reprovision_keeps_iff`
-/

namespace TensorTorrent.Provisioning

open Fallible List Pack
open Json (width width_pos)
open Function (update update_of_ne update_self)

----
-- Released Weights
----

/- What a release leaves of an attribute. -/
def Emptied : Attribute → Prop
| .noOwner => False
| .tensor value => value.shape = [0] ∧ value.bytes = []
| _ => True

variable {binding : String × String}

theorem releaseNext_emptied {root next : String → Attribute}
    (hNext : releaseNext root binding = .ok next) :
    Emptied (next binding.2) ∧ ∀ target, Emptied (root target) → Emptied (next target) := by
  unfold releaseNext at hNext
  split at hNext
  · cases hNext
  · next value hValue =>
    cases hNext
    constructor
    · rw [update_self]
      exact ⟨rfl, rfl⟩
    · intro target hTarget
      by_cases hSame : target = binding.2
      · rw [hSame, update_self]
        exact ⟨rfl, rfl⟩
      · rwa [update_of_ne hSame]
  · next hNoOwner hNoTensor =>
    cases hNext
    refine ⟨?_, fun _ hTarget => hTarget⟩
    cases hFound : root binding.2 with
    | noOwner => exact absurd hFound hNoOwner
    | absent => trivial
    | object => trivial
    | tensor value => exact absurd hFound (hNoTensor value)

/- Every bound attribute was released. -/
abbrev Released (program : Program) (root : String → Attribute) : Prop :=
  ∀ binding ∈ program.stateBindings, Emptied (root binding.2)

variable {program : Program}

theorem releaseResidentState_emptied {root next : String → Attribute}
    (hOk : releaseResidentState program root = .ok next) : Released program next := by
  apply foldlM_invariant (fun done root =>
      ∀ binding ∈ done, Emptied (root binding.2))
    nofun _ hOk
  intro done state binding after hDone hNext
  obtain ⟨hHere, hKept⟩ := releaseNext_emptied hNext
  intro other hOther
  rcases mem_append.mp hOther with hOld | hNew
  · exact hKept _ (hDone other hOld)
  · rw [mem_singleton.mp hNew]
    exact hHere

variable {root : String → Attribute}

theorem releaseNext_ok (hEmptied : Emptied (root binding.2)) :
    ∃ next, releaseNext root binding = .ok next := by
  unfold releaseNext
  split
  · next hNone =>
    rw [hNone] at hEmptied
    exact hEmptied.elim
  · exact ⟨_, rfl⟩
  · exact ⟨_, rfl⟩

/- Sentinels are released again. -/
theorem releaseResidentState_again (hEmptied : Released program root) :
    ∃ next, releaseResidentState program root = .ok next := by
  unfold releaseResidentState
  unfold Released at hEmptied
  generalize program.stateBindings = bindings at hEmptied
  induction bindings generalizing root with
  | nil => exact ⟨root, rfl⟩
  | cons binding bindings ih =>
    obtain ⟨hHere, hRest⟩ := forall_mem_cons.mp hEmptied
    obtain ⟨middle, hMiddle⟩ := releaseNext_ok hHere
    have hKept := (releaseNext_emptied hMiddle).2
    obtain ⟨next, hNext⟩ := ih (fun other hOther => hKept _ (hRest other hOther))
    refine ⟨next, ?_⟩
    exact (bind_eq_ok_iff _ _ _).mpr ⟨middle, hMiddle, hNext⟩

----
-- The Path That Is Recorded
----

variable (setup : Setup) {files : Path → Option (List UInt8)}

theorem resolvePackPath_absolute {candidate path : Path} {artifactDir cacheDir : Option Path}
    (hAbsolute : candidate.absolute = true)
    (hOk : resolvePackPath setup files candidate artifactDir cacheDir = .ok path) :
    path = setup.os.resolve candidate := by
  unfold resolvePackPath at hOk
  simp only [hAbsolute, Bool.true_eq_false, if_false] at hOk
  split at hOk
  · cases hOk
  split at hOk
  · cases hOk
  · cases hOk
    rfl

/- With the cache directory as the only root. -/
theorem resolvePackPath_cached {candidate cacheDir : Path} (hAbsolute : candidate.absolute = true) :
    resolvePackPath setup files candidate none (some cacheDir) =
      if (setup.os.resolve candidate).isWithin (setup.os.resolve cacheDir) = false then
        .error (.packOutside (setup.os.resolve candidate) [setup.os.resolve cacheDir])
      else if fileExists setup files (setup.os.resolve candidate) = false then
        .error (.packMissing (setup.os.resolve candidate))
      else .ok (setup.os.resolve candidate) := by
  simp [resolvePackPath, hAbsolute]

theorem writePack_ok_iff (disk : Disk) (world packed : World) (path : Path) :
    writePack setup disk world = .ok (path, packed) ↔ path = packFile setup disk ∧
      checkPackDiskSpace disk (packDirectory setup disk)
        (if setup.program.totalStateBytes = 0 then 1
          else setup.program.totalStateBytes) = .ok () ∧
      setup.os.isSymlink path = false ∧ disk.writes path = true ∧
      ∃ state pack file, stateDictForPack setup.program world.root = .ok state ∧
        packStateDict setup state = .ok (pack, file) ∧ packed = { world with
          files := update world.files (setup.os.resolve path) (some file)
          packedModelPath := some path } := by
  unfold writePack
  simp only [bind_eq_ok_iff, ensure_eq_ok_iff, pure_eq_ok_iff, Prod.mk.injEq]
  constructor
  · rintro ⟨_, hSpace, state, hState, _, hLink, ⟨pack, file⟩, hPack, _, hWrites, rfl, rfl⟩
    exact ⟨rfl, hSpace, hLink, hWrites, state, pack, file, hState, hPack, rfl⟩
  · rintro ⟨rfl, hSpace, hLink, hWrites, state, pack, file, hState, hPack, rfl⟩
    exact ⟨(), hSpace, state, hState, (), hLink, (pack, file), hPack, (), hWrites, rfl, rfl⟩

variable {call : Call} {disk : Disk} {path : Path} {world packed : World}

/-
  A pack path is recorded, and an absolute one leads to the
  file that is opened.
-/
theorem ensurePack_recorded (hOk : ensurePack setup call disk world = .ok (path, packed)) :
    ∃ recorded, packed.packedModelPath = some recorded ∧
      (recorded.absolute = true → setup.os.resolve path = setup.os.resolve recorded) := by
  have hAgain := setup.os.resolve_resolve
  unfold ensurePack at hOk
  split at hOk
  · next bundled hBundled =>
    cases hOk
    exact ⟨bundled, rfl, fun _ => hAgain bundled⟩
  · split at hOk
    · next found hFound =>
      cases hOk
      obtain ⟨recorded, hRecorded, hResolved⟩ := Option.bind_eq_some_iff.mp hFound
      refine ⟨recorded, hRecorded, ?_⟩
      intro hAbsolute
      have hSome : resolvePackPath setup world.files recorded
            call.artifactDir (some setup.config.cacheDir) =
          .ok path := by
        revert hResolved
        cases resolvePackPath setup world.files recorded
          call.artifactDir (some setup.config.cacheDir) with
        | error err => exact fun hNone => nomatch hNone
        | ok resolved =>
          intro hResolved
          rw [Except.toOption, Option.some.injEq] at hResolved
          rw [hResolved]
      rw [resolvePackPath_absolute setup hAbsolute hSome]
      exact hAgain recorded
    · obtain ⟨-, -, -, -, state, pack, file, -, -, rfl⟩ :=
        (writePack_ok_iff setup disk world packed path).mp hOk
      exact ⟨path, rfl, fun _ => rfl⟩

----
-- What a Store Is Made Of
----

/- The blocks and the reader come from the file alone. -/
structure Opens (file : List UInt8) (budget : Nat) (blocks : List (String × Block))
    (reader : PackReader) (manifest : Json PyFloat)
    (native : PackManifest) : Prop where
  loaded : loadPackManifest setup.host file = .ok manifest
  collected : setup.program.stateBindings.foldlM (blockNext manifest) [] = .ok blocks
  fits : (blocks.map (fun block => block.2.nbytes)).foldl max 0 ≤ (budget : Int)
  capacity : 1 ≤ budget
  ioWorkers : 1 ≤ setup.config.storageIoWorkers
  queueLimit : 1 ≤ setup.config.storageQueueDepth
  available : setup.os.nativeAvailable = true
  bounded : setup.config.storageIoWorkers ≤ maxIoWorkers
  read : nativeManifest manifest = some native
  opened : PackReader.open file native = .ok reader

theorem openNative_ok_iff (path : Path) (file : List UInt8) (manifest : Json PyFloat)
    (capacity : Nat) (reader : PackReader) :
    openNativeStreamingStore setup path file manifest capacity = .ok reader ↔
      1 ≤ capacity ∧ 1 ≤ setup.config.storageIoWorkers ∧ 1 ≤ setup.config.storageQueueDepth ∧
        setup.os.nativeAvailable = true ∧ setup.config.storageIoWorkers ≤ maxIoWorkers ∧
        ∃ native, nativeManifest manifest = some native ∧
          PackReader.open file native = .ok reader := by
  simp only [openNativeStreamingStore, bind_eq_ok_iff, ensure_eq_ok_iff,
    exists_and_left, exists_const]
  cases nativeManifest manifest with
  | none => simp
  | some native => simp [mapError_eq_ok_iff]

theorem init_ok_iff (files : Path → Option (List UInt8)) (path : Path) (budget : Nat)
    (store : StreamingStore) : StreamingStore.init setup files path budget = .ok store ↔
      setup.os.isSymlink path = false ∧ ∃ file blocks reader manifest native,
        files (setup.os.resolve path) = some file ∧
          Opens setup file budget blocks reader manifest native ∧ store =
            { path := path, blocks := blocks
              reader := reader } := by
  unfold StreamingStore.init
  rw [bind_eq_ok_iff]
  simp only [ensure_eq_ok_iff, exists_and_left, exists_const]
  refine and_congr_right fun _ => ?_
  cases hFile : files (setup.os.resolve path) with
  | none => simp
  | some file =>
    simp only [bind_eq_ok_iff, mapError_eq_ok_iff, ensure_eq_ok_iff,
      pure_eq_ok_iff, openNative_ok_iff, Option.some.injEq, exists_eq_left']
    constructor
    · rintro ⟨manifest, hLoaded, blocks, hBlocks, _, hFits,
        reader, ⟨hCapacity, hWorkers, hQueue, hNative, hBound,
        native, hRead, hOpen⟩, rfl⟩
      exact ⟨blocks, reader, manifest, native,
        ⟨hLoaded, hBlocks, hFits, hCapacity, hWorkers, hQueue, hNative, hBound, hRead, hOpen⟩, rfl⟩
    · rintro ⟨blocks, reader, manifest, native, hOpens, rfl⟩
      exact ⟨manifest, hOpens.loaded, blocks, hOpens.collected, (), hOpens.fits, reader,
        ⟨hOpens.capacity, hOpens.ioWorkers, hOpens.queueLimit,
          hOpens.available, hOpens.bounded, native,
          hOpens.read, hOpens.opened⟩, rfl⟩

variable {budget : Nat} {store : StreamingStore}

theorem init_path (hStore : StreamingStore.init setup files path budget = .ok store) :
    store.path = path := by
  obtain ⟨-, _, _, _, _, _, -, -, rfl⟩ := (init_ok_iff setup _ _ _ _).mp hStore
  rfl

variable {T : Type} (torch : Torch T)

/- Two stores on one file serve the same tensors. -/
theorem acquire_same_file {path other : Path} {again : StreamingStore}
    (hStore : StreamingStore.init setup files path budget = .ok store)
    (hAgain : StreamingStore.init setup files other budget = .ok again)
    (hSame : setup.os.resolve other = setup.os.resolve path) (name : String) :
    again.acquire setup torch name = store.acquire setup torch name := by
  obtain ⟨-, file, blocks, reader, manifest, native, hFile,
    hOpens, rfl⟩ := (init_ok_iff setup _ _ _ _).mp hStore
  obtain ⟨-, file', blocks', reader', manifest', native',
    hFile', hOpens', rfl⟩ := (init_ok_iff setup _ _ _ _).mp hAgain
  rw [hSame, hFile, Option.some.injEq] at hFile'
  subst hFile'
  have hManifest : manifest = manifest' := Except.ok.inj (hOpens.loaded.symm.trans hOpens'.loaded)
  subst hManifest
  have hBlocks : blocks = blocks' := Except.ok.inj (hOpens.collected.symm.trans hOpens'.collected)
  have hNative : native = native' := Option.some.inj (hOpens.read.symm.trans hOpens'.read)
  subst hNative
  have hReader : reader = reader' := Except.ok.inj (hOpens.opened.symm.trans hOpens'.opened)
  rw [hBlocks, hReader]
  rfl

----
-- A Pack of Sentinels
----

/- What is packed: every bound attribute once. -/
structure Packed (root : String → Attribute) (bindings : List (String × String))
    (state : List (String × Loader)) : Prop where
  bound : ∀ named ∈ state, ∃ binding ∈ bindings, named.1 = binding.2 ∧
    (root binding.2).loader = some named.2
  listed : ∀ binding ∈ bindings, ∃ loader, (binding.2, loader) ∈ state

theorem packNext_packed {done : List (String × String)} {state next : List (String × Loader)}
    (hDone : Packed root done state) (hNext : packNext root state binding = .ok next) :
    Packed root (done ++ [binding]) next := by
  have hMore : ∀ named ∈ state, ∃ other ∈ done ++ [binding], named.1 = other.2 ∧
      (root other.2).loader = some named.2 := by
    intro named hNamed
    obtain ⟨other, hOther, hFound⟩ := hDone.bound named hNamed
    exact ⟨other, mem_append_left _ hOther, hFound⟩
  unfold packNext at hNext
  split at hNext
  · next hOld =>
    cases hNext
    refine ⟨hMore, ?_⟩
    intro other hOther
    rcases mem_append.mp hOther with hOther | hNew
    · exact hDone.listed other hOther
    · obtain ⟨named, hNamed, hName⟩ := mem_map.mp hOld
      rw [mem_singleton.mp hNew, ← hName]
      exact ⟨named.2, hNamed⟩
  · split at hNext
    · cases hNext
    rename_i loader hLoader
    cases hNext
    constructor
    · intro named hNamed
      rcases mem_append.mp hNamed with hOld | hNew
      · exact hMore named hOld
      · rw [mem_singleton.mp hNew]
        exact ⟨binding, by simp, rfl, hLoader⟩
    · intro other hOther
      rcases mem_append.mp hOther with hOther | hNew
      · obtain ⟨found, hFound⟩ := hDone.listed other hOther
        exact ⟨found, mem_append_left _ hFound⟩
      · rw [mem_singleton.mp hNew]
        exact ⟨loader, by simp⟩

theorem stateDictForPack_packed {state : List (String × Loader)}
    (hOk : stateDictForPack program root = .ok state) :
    Packed root program.stateBindings state := by
  apply foldlM_invariant (Packed root) ⟨by simp, by simp⟩ _ hOk
  intro done state binding next hDone hNext
  exact packNext_packed hDone hNext

/- A sentinel has no payload, quantised or not. -/
theorem payload_empty {host : Pack.Host} {name : String} {value : Pack.Tensor} {quantize : Bool}
    {raw : RawMeta} {payload : Payload} (hShape : value.shape = [0])
    (hBytes : value.bytes = [])
    (hDescribed : describeValue host name (.tensor value) quantize = .ok (raw, payload)) :
    payload.bytes = [] := by
  unfold describeValue at hDescribed
  simp only at hDescribed
  split at hDescribed
  · obtain ⟨⟨scale, bytes⟩, hQuantized, hPayload⟩ := (bind_eq_ok_iff _ _ _).mp hDescribed
    simp only [Except.ok.injEq, Prod.mk.injEq] at hPayload
    rw [← hPayload.2]
    simp only [quantizePerTensor, elements, hShape, prod_cons, zero_mul, range_zero,
      map_nil, all_nil, if_true, Except.ok.injEq, Prod.mk.injEq] at hQuantized
    rw [← hQuantized.2]
    rfl
  · simp only [Except.ok.injEq, Prod.mk.injEq] at hDescribed
    rw [← hDescribed.2]
    exact hBytes

theorem second_emptied {found : Attribute} {loader : Loader} {value : Value}
    (hEmptied : Emptied found) (hLoader : found.loader = some loader)
    (hSecond : loader.second = .ok value) :
    ∃ tensor : Pack.Tensor, value = .tensor tensor ∧ tensor.shape = [0] ∧ tensor.bytes = [] := by
  cases found with
  | noOwner => exact hEmptied.elim
  | absent => cases hLoader
  | object =>
    cases hLoader
    cases hSecond
  | tensor tensor =>
    cases hLoader
    cases hSecond
    exact ⟨tensor, rfl, hEmptied⟩

/- `json.loads` on the manifest of a pack of the state. -/
def Loads (root : String → Attribute) : Prop :=
  ∀ state pack file, stateDictForPack setup.program root = .ok state →
    packStateDict setup state = .ok (pack, file) → setup.host.loads
          (manifestBytes setup.host pack.tensors) =
        some (manifest pack.tensors)

/- A store on a pack of sentinels serves no tensor. -/
theorem acquire_writePack (hLoads : Loads setup world.root)
    (hEmptied : Released setup.program world.root)
    (hWrite : writePack setup disk world = .ok (path, packed))
    (hStore : StreamingStore.init setup packed.files path budget = .ok store) (name : String) :
    store.acquire setup torch name = none := by
  obtain ⟨-, -, -, -, state, pack, file, hState, hPack, rfl⟩ :=
    (writePack_ok_iff setup _ _ _ _).mp hWrite
  obtain ⟨-, found, blocks, reader, manifest, native, hFile,
    hOpens, rfl⟩ := (init_ok_iff setup _ _ _ _).mp hStore
  simp only [update_self, Option.some.injEq] at hFile
  subst hFile
  have hLoads := hLoads state pack file hState hPack
  rw [packStateDict, mapError_eq_ok_iff] at hPack
  obtain ⟨checked, metas, hPacks, hLoose, rfl, rfl⟩ :=
    (packTensors_ok_iff setup.host _ _ _ _ _).mp hPack
  have hPacked := stateDictForPack_packed hState
  unfold StreamingStore.acquire
  cases hKey : setup.program.stateBindings.lookup name with
  | none => rfl
  | some key =>
    have hBinding : (name, key) ∈ setup.program.stateBindings := by
      obtain ⟨before, after, hSplit, -⟩ := lookup_eq_some_iff.mp hKey
      rw [hSplit]
      simp
    obtain ⟨loader, hLoader⟩ := hPacked.listed _ hBinding
    obtain ⟨binding, hBound, hSame, hFound⟩ := hPacked.bound _ hLoader
    obtain ⟨value, raw, payload, hSecond, hDescribed, hRead⟩ :=
      pread_opened hPacks hLoose hLoads hOpens.loaded hOpens.read hOpens.opened hLoader
    obtain ⟨tensor, rfl, hShape, hBytes⟩ := second_emptied (hEmptied binding hBound) hFound hSecond
    rw [payload_empty hShape hBytes hDescribed] at hRead
    cases hBlock : blocks.lookup key with
    | none => simp [hBlock]
    | some block => simp [hBlock, hRead, Except.toOption, torch.decode_empty]

----
-- The Second Call
----

variable {after : World}

theorem build_ok_iff {result : ParameterStore}
    (hStreams : needsParameterStreaming setup.config setup.program.totalStateBytes = true) :
    buildParameterStore setup call disk world = .ok (result, after) ↔
      ∃ budget path packed store root, streamingBudget setup = .ok budget ∧
        ensurePack setup call disk world = .ok (path, packed) ∧
        StreamingStore.init setup packed.files path budget = .ok store ∧
        releaseResidentState setup.program packed.root = .ok root ∧ result = .streaming store ∧
        after = { packed with root := root } := by
  unfold buildParameterStore
  rw [if_neg (by simp [hStreams])]
  simp only [bind_eq_ok_iff, pure_eq_ok_iff, Prod.mk.injEq]
  constructor
  · rintro ⟨budget, hBudget, ⟨path, packed⟩, hPack, store, hStore, root, hRoot, rfl, rfl⟩
    exact ⟨budget, path, packed, store, root, hBudget, hPack, hStore, hRoot, rfl, rfl⟩
  · rintro ⟨budget, path, packed, store, root, hBudget, hPack, hStore, hRoot, rfl, rfl⟩
    exact ⟨budget, hBudget, (path, packed), hPack, store, hStore, root, hRoot, rfl, rfl⟩

/- A streaming store comes from a program that streams. -/
theorem streams_of_build
    (hFirst : buildParameterStore setup call disk world = .ok (.streaming store, after)) :
    needsParameterStreaming setup.config setup.program.totalStateBytes = true := by
  by_contra hResident
  rw [Bool.not_eq_true] at hResident
  unfold buildParameterStore at hFirst
  rw [if_pos hResident] at hFirst
  obtain ⟨_, _, hFirst⟩ := (bind_eq_ok_iff _ _ _).mp hFirst
  obtain ⟨_, _, hFirst⟩ := (bind_eq_ok_iff _ _ _).mp hFirst
  cases hFirst

/-
  What the world before a call for feedback has to offer: the
  recorded path still leads to the first store's file, or to
  one that holds the same tensors or is refused; or it is
  refused itself, and no pack of sentinels can take its
  place, or there was no tensor to lose.
-/
inductive Keeps {T : Type} (torch : Torch T) (disk : Disk) (world : World)
    (store : StreamingStore) : Prop where
| sameFile {recorded path : Path} (hRecorded : world.packedModelPath = some recorded)
  (hResolved : resolvePackPath setup world.files recorded none
    (some setup.config.cacheDir) = .ok path)
  (hFile : setup.os.resolve path = setup.os.resolve store.path)
| otherFile {recorded path : Path} (hRecorded : world.packedModelPath = some recorded)
  (hRelative : recorded.absolute = false)
  (hResolved : resolvePackPath setup world.files recorded none
    (some setup.config.cacheDir) = .ok path)
  (hTensors : ∀ budget other, setup.config.ramBudgetBytes = some budget →
    StreamingStore.init setup world.files path budget = .ok other →
      ∀ name, other.acquire setup torch name = store.acquire setup torch name)
| noSentinels {recorded : Path} {err : ProvisionError}
  (hRecorded : world.packedModelPath = some recorded)
  (hRefused : resolvePackPath setup world.files recorded none
    (some setup.config.cacheDir) = .error err)
  (hRaises : ∀ budget path packed other, setup.config.ramBudgetBytes = some budget →
    writePack setup disk world = .ok (path, packed) →
      StreamingStore.init setup packed.files path budget ≠ .ok other)
| noTensors {recorded : Path} {err : ProvisionError}
  (hRecorded : world.packedModelPath = some recorded)
  (hRefused : resolvePackPath setup world.files recorded none
    (some setup.config.cacheDir) = .error err)
  (hNone : ∀ name, store.acquire setup torch name = none)

theorem streamingBudget_eq (hOk : streamingBudget setup = .ok budget) :
    setup.config.ramBudgetBytes = some budget := by
  obtain ⟨_, _, hOk⟩ := (bind_eq_ok_iff _ _ _).mp hOk
  split at hOk
  · cases hOk
  · next found hFound =>
    obtain ⟨_, _, hOk⟩ := (bind_eq_ok_iff _ _ _).mp hOk
    rw [hFound, (pure_eq_ok_iff _ _).mp hOk]

/- Without lookup directories, the recorded path decides. -/
theorem ensurePack_feedback (disk : Disk) {recorded : Path}
    (hRecorded : world.packedModelPath = some recorded) :
    ensurePack setup feedbackCall disk world = match resolvePackPath setup world.files recorded none
        (some setup.config.cacheDir) with
      | .ok path => .ok (path, world)
      | .error _ => writePack setup disk world := by
  unfold ensurePack
  simp only [feedbackCall, bundledPack, map_nil,
    find?_nil, recordedPack, hRecorded, Option.bind_some]
  cases resolvePackPath setup world.files recorded none (some setup.config.cacheDir) with
  | ok path => rfl
  | error err => rfl

theorem ensurePack_root (hOk : ensurePack setup call disk world = .ok (path, packed)) :
    packed.root = world.root := by
  unfold ensurePack at hOk
  split at hOk
  · cases hOk
    rfl
  split at hOk
  · cases hOk
    rfl
  · obtain ⟨-, -, -, -, _, _, _, -, -, rfl⟩ := (writePack_ok_iff setup _ _ _ _).mp hOk
    rfl

/- The stores that a later call can return. -/
theorem build_again_iff
    (hStreams : needsParameterStreaming setup.config setup.program.totalStateBytes = true)
    (hBudget : streamingBudget setup = .ok budget)
    (hEmptied : Released setup.program world.root)
    (property : ParameterStore → Prop) :
    (∀ result after, buildParameterStore setup call disk world =
        .ok (result, after) → property result) ↔
      ∀ path packed store, ensurePack setup call disk world = .ok (path, packed) →
        StreamingStore.init setup packed.files path budget = .ok store →
          property (.streaming store) := by
  constructor
  · intro hAll path packed store hPack hStore
    have hRoot := ensurePack_root setup hPack
    obtain ⟨root, hRelease⟩ := releaseResidentState_again hEmptied
    rw [← hRoot] at hRelease
    exact hAll _ _ ((build_ok_iff setup hStreams).mpr
      ⟨budget, path, packed, store, root, hBudget, hPack, hStore, hRelease, rfl, rfl⟩)
  · intro hAll result after hBuild
    obtain ⟨other, path, packed, store, root, hOther, hPack,
      hStore, -, rfl, -⟩ := (build_ok_iff setup hStreams).mp hBuild
    have hSame : other = budget := Except.ok.inj (hOther.symm.trans hBudget)
    rw [hSame] at hStore
    exact hAll path packed store hPack hStore

----
-- Two Weights of Sixteen Bytes
----

/- A vector of bytes as a tensor. -/
def byteTensor (bytes : List UInt8) : Pack.Tensor where
  shape := [bytes.length]
  dtype := "uint8"
  elementSize := 1
  bytes := bytes
  sized := by simp
  known := by decide

def tensorLoader (tensor : Pack.Tensor) : Loader where
  first := .ok (.tensor tensor)
  second := .ok (.tensor tensor)

abbrev vectorLoader (bytes : List UInt8) : Loader :=
  tensorLoader (byteTensor bytes)

theorem yields_tensorLoader (host : Pack.Host) (bytes : List UInt8) :
    Pack.Yields host bytes (vectorLoader bytes) := by
  refine ⟨_, rfl, rfl, ?_⟩
  intro name hNamed hSize
  refine ⟨.tensor [bytes.length] bytes, ?_, rfl, rfl⟩
  simp [describeValue, byteTensor, bytesInfo]

/- The state dict of two equal vectors. -/
def twoState (bytes : List UInt8) : List (String × Loader) :=
  [("a", vectorLoader bytes), ("b", vectorLoader bytes)]

def weights : List UInt8 :=
  List.replicate 16 0

theorem weights_short : weights.length < 100 := by
  decide

theorem sentinel_short : ([] : List UInt8).length < 100 := by
  decide

variable {bytes : List UInt8} (hShort : bytes.length < 100)

/- The metadata of two equal vectors. -/
def twoMetas : List (Meta × Loader) :=
  pairMetas hShort hShort (vectorLoader bytes) (vectorLoader bytes)

def twoBlocks : List TensorBlock :=
  finalBlocks plainHost false (twoMetas hShort) 64

/- A host that decodes the manifests of both packs. -/
def twoHost : Pack.Host :=
  { plainHost with
    loads := fun bytes =>
      if bytes.length = (manifestBytes plainHost (twoBlocks sentinel_short)).length then
        some (manifest (twoBlocks sentinel_short))
      else some (manifest (twoBlocks weights_short)) }

theorem reserveFor_two : reserveFor plainHost ((twoMetas hShort).map Prod.fst) 64 = 4096 := by
  have hRoomy := roomy_pair plainHost hShort hShort (vectorLoader bytes) (vectorLoader bytes)
  have hLength : ((twoMetas hShort).map Prod.fst).length = 2 := rfl
  rw [reserveFor, hLength, if_pos]
  · decide
  · exact le_trans (Nat.le_add_right _ 60) hRoomy

theorem manifest_two :
    16 + (manifestBytes plainHost (twoBlocks hShort)).length =
      16 + frameSize 2 + 492 + width 4096 + 3 * width bytes.length +
        width (Files.alignUp (4096 + bytes.length) 64) + 3 * width bytes.length +
        2 * (20 + width (Checksum.crc32Ieee bytes).toNat) := by
  have hMagic : magic.length = 8 := rfl
  have hNeeded := needed_pair plainHost hShort hShort (vectorLoader bytes) (vectorLoader bytes)
  have hWritten := needed_written plainHost false (twoMetas hShort) 64 4096
  have hText : checksumText plainHost false (twoMetas hShort) =
      2 * (20 + width (Checksum.crc32Ieee bytes).toNat) := by
    have hBytes : ∀ (name : String) hNamed hSize, payloadBytes plainHost false
        (bytesInfo name bytes.length hNamed hSize)
        (vectorLoader bytes) = bytes :=
      fun _ hNamed hSize => payloadBytes_bytesInfo plainHost hNamed hSize
        (yields_tensorLoader plainHost bytes)
    simp only [checksumText, twoMetas, pairMetas, map_cons, map_nil, sum_cons, sum_nil, hBytes]
    omega
  rw [needed, hText] at hWritten
  rw [twoBlocks, finalBlocks, reserveFor_two]
  simp only [twoMetas] at hWritten ⊢
  omega

theorem loads_two_weights : twoHost.loads (manifestBytes twoHost (twoBlocks weights_short)) =
    some (manifest (twoBlocks weights_short)) := by
  have hWeights := manifest_two weights_short
  have hSentinel := manifest_two sentinel_short
  have hZero : width (Checksum.crc32Ieee []).toNat = 1 := by decide
  have hSixteen : width weights.length = 2 := by decide
  have hNone : width ([] : List UInt8).length = 1 := by decide
  have hSecond : width (Files.alignUp (4096 + weights.length) 64) = 4 := by decide
  have hFirst : width (Files.alignUp (4096 + ([] : List UInt8).length) 64) = 4 := by
    decide
  refine if_neg ?_
  change (manifestBytes plainHost _).length ≠ _
  omega

theorem loads_two_sentinels :
    twoHost.loads (manifestBytes twoHost (twoBlocks sentinel_short)) =
      some (manifest (twoBlocks sentinel_short)) :=
  if_pos rfl

/- Bytes for tensors. -/
def bytesTorch : Torch (List UInt8) where
  live := Pack.Tensor.bytes
  decode := fun _ bytes =>
    if bytes = [] then none else some bytes
  decode_empty := fun _ => rfl

def twoOs : Os where
  resolve := id
  isSymlink := fun _ => false
  gettempdir := { absolute := true, parts := ["tmp"] }
  hash := fun _ => 0
  nativeAvailable := true
  resolve_resolve := fun _ => rfl

def twoProgram : Program where
  stateBindings := [("a", "a"), ("b", "b")]
  values := [("a", 16), ("b", 16)]
  regions := [["a"], ["b"]]
  exportFree := false
  parameterBytes := 0
  keyed := by decide
  fused := by decide

def twoConfig : Config where
  ramBudgetBytes := some 16
  allowNvmeStreaming := true
  allowTraining := false
  allowQuantizedStorage := false
  quantizedMode := false
  cacheDir := { absolute := true, parts := ["cache"] }
  storageIoWorkers := 2
  storageQueueDepth := 128

def twoSetup : Setup where
  host := twoHost
  os := twoOs
  portableName := "model"
  program := twoProgram
  config := twoConfig

def openDisk : Disk where
  makes := fun _ => true
  free := fun _ => none
  writes := fun _ => true

/- The file of a pack of two equal vectors. -/
def twoFile : List UInt8 :=
  finalFile twoHost false (twoMetas hShort) 64

/- The blocks of the store for both vectors. -/
theorem collected_two :
    ∃ a b, twoProgram.stateBindings.foldlM (blockNext (manifest (twoBlocks hShort))) [] =
        .ok [("a", a), ("b", b)] ∧
      a.nbytes = bytes.length ∧ b.nbytes = bytes.length :=
  ⟨_, _, rfl, rfl, rfl⟩

theorem init_two (hFits : bytes.length ≤ 16)
    (hLoads : twoHost.loads (manifestBytes twoHost (twoBlocks hShort)) =
      some (manifest (twoBlocks hShort)))
    (hFile : files path = some (twoFile hShort)) :
    ∃ store, StreamingStore.init twoSetup files path 16 = .ok store ∧
      store.acquire twoSetup bytesTorch "a" = if bytes = [] then none else some bytes := by
  have hYields := yields_tensorLoader twoHost bytes
  obtain ⟨hPacks, hLoose, -⟩ := packs_pair twoHost hShort hShort hYields hYields
  have hReadable := (readable_pair_iff twoHost hShort hShort hYields hYields).mpr (fun hNone => by
      rw [hNone]
      exact dvd_zero _)
  obtain ⟨hLoaded, native, reader, hNative, hOpen, hRead⟩ := (readBack_iff hPacks hLoose hLoads
    (show (ModelPack.mk (finalBlocks twoHost false
      (twoMetas hShort) 64) 0 false).tensors = _ from rfl)).mpr hReadable
  obtain ⟨a, b, hFound, hSizeA, hSizeB⟩ := collected_two hShort
  have hLargest : [a.nbytes, b.nbytes].foldl max 0 ≤ ((16 : Nat) : Int) := by
    rw [hSizeA, hSizeB]
    simpa using hFits
  refine ⟨_, (init_ok_iff twoSetup _ _ _ _).mpr ⟨rfl, _, _, reader, _, native, hFile,
    ⟨hLoaded, hFound, hLargest, by decide, by decide,
      by decide, rfl, by decide, hNative, hOpen⟩, rfl⟩, ?_⟩
  obtain ⟨value, raw, payload, hSecond, hDescribed, hBytes⟩ :=
    hRead ("a", vectorLoader bytes) mem_cons_self
  obtain ⟨other, hOther, hSame, -⟩ := reloaded_bytesInfo twoHost
    (show isBoundedUtf8 "a" maxTensorNameBytes = true by decide) (short_le hShort) hYields
  cases hSecond
  have hPayload : payload = other := by
    have hBoth := hDescribed.symm.trans hOther
    exact (Prod.mk.inj (Except.ok.inj hBoth)).2
  rw [hPayload, hSame] at hBytes
  have hKey : twoSetup.program.stateBindings.lookup "a" = some "a" := rfl
  simp [StreamingStore.acquire, hKey, hBytes, Except.toOption, hSizeA, bytesTorch]

/- The module with both weights, and with both sentinels. -/
def twoRoot (bytes : List UInt8) : String → Attribute :=
  fun _ => .tensor (byteTensor bytes)

def releasedRoot : String → Attribute :=
  update (update (twoRoot weights) "a" (.tensor (byteTensor []))) "b" (.tensor (byteTensor []))

theorem release_two : releaseResidentState twoProgram (twoRoot weights) = .ok releasedRoot :=
  rfl

theorem packStateDict_two :
    ∃ pack, packStateDict twoSetup (twoState bytes) = .ok (pack, twoFile hShort) ∧
      pack.tensors = twoBlocks hShort := by
  have hYields := yields_tensorLoader twoHost bytes
  have hPack := packTensors_pair twoHost hShort hShort hYields hYields
  exact ⟨_, (mapError_eq_ok_iff _ _ _).mpr hPack, rfl⟩

def cachedPack : Path :=
  { absolute := true, parts := ["cache", "packs", "model-0.pack"] }

theorem writePack_two (hState : stateDictForPack twoProgram world.root = .ok (twoState bytes)) :
    writePack twoSetup openDisk world = .ok (cachedPack,
      { world with
        files := update world.files cachedPack (some (twoFile hShort))
        packedModelPath := some cachedPack }) := by
  obtain ⟨pack, hPack, -⟩ := packStateDict_two hShort
  exact (writePack_ok_iff twoSetup _ _ _ _).mpr
    ⟨by decide, rfl, rfl, rfl, _, pack, _, hState, hPack, rfl⟩

/- A world without files, before any call. -/
def freshWorld : World where
  files := fun _ => none
  packedModelPath := none
  root := twoRoot weights

def artifactDir : Path :=
  { absolute := true, parts := ["artifact"] }

/- A world with a bundled pack of the weights. -/
def bundledWorld : World where
  files := fun path =>
    if path = artifactDir.join (.name ["model.pack"])
    then some (twoFile weights_short) else none
  packedModelPath := none
  root := twoRoot weights

abbrev bundledPath : Path :=
  artifactDir.join (.name ["model.pack"])

theorem loads_released : Loads twoSetup releasedRoot := by
  intro state pack file hState hPack
  have hSame : state = twoState [] := (Except.ok.inj hState).symm
  obtain ⟨found, hFound, hTensors⟩ := packStateDict_two sentinel_short
  rw [hSame, hFound] at hPack
  rw [← (Prod.mk.inj (Except.ok.inj hPack)).1, hTensors]
  exact loads_two_sentinels

----
-- Every Second Call
----

/-
  The weights survive a second call exactly when the pack of
  the first one is found again, or nothing is lost with it.
  `hLoads` is `json.loads` on what `json.dumps` wrote.
-/
theorem reprovision_keeps_iff {T : Type} (torch : Torch T) (call : Call) (disk again : Disk)
    (world middle : World) (store : StreamingStore)
    (hFirst : buildParameterStore setup call disk world = .ok (.streaming store, middle))
    (hLoads : Loads setup middle.root) :
    (∀ result after, buildParameterStore setup feedbackCall again middle = .ok (result, after) →
        ∀ name, result.acquire setup torch name = store.acquire setup torch name) ↔
      Keeps setup torch again middle store := by
  have hStreams := streams_of_build setup hFirst
  obtain ⟨budget, path, packed, _, root, hBudget, hPack,
    hStore, hRoot, hResult, hMiddle⟩ := (build_ok_iff setup hStreams).mp hFirst
  cases hResult
  have hRam := streamingBudget_eq setup hBudget
  have hFiles : middle.files = packed.files := by rw [hMiddle]
  have hEmptied : Released setup.program middle.root := by
    rw [hMiddle]
    exact releaseResidentState_emptied hRoot
  obtain ⟨recorded, hPacked, hAbsolute⟩ := ensurePack_recorded setup hPack
  have hRecorded : middle.packedModelPath = some recorded := by
    rw [hMiddle]
    exact hPacked
  have hPath := init_path setup hStore
  rw [← hFiles] at hStore
  rw [build_again_iff setup hStreams hBudget hEmptied, ensurePack_feedback setup again hRecorded]
  cases hResolved : resolvePackPath setup middle.files recorded
    none (some setup.config.cacheDir) with
  | ok found =>
    constructor
    · intro hAll
      by_cases hFile : setup.os.resolve found = setup.os.resolve store.path
      · exact .sameFile hRecorded hResolved hFile
      have hRelative : recorded.absolute = false := by
        by_contra hTrue
        rw [Bool.not_eq_false] at hTrue
        apply hFile
        rw [resolvePackPath_absolute setup hTrue hResolved,
          setup.os.resolve_resolve, hPath, hAbsolute hTrue]
      refine .otherFile hRecorded hRelative hResolved ?_
      intro ram other hOther hInit
      rw [hRam, Option.some.injEq] at hOther
      rw [← hOther] at hInit
      exact hAll found middle other rfl hInit
    · intro hKeeps _ _ other hFound hInit
      cases hFound
      cases hKeeps with
      | sameFile hOther hAgain hFile =>
        cases hRecorded.symm.trans hOther
        cases hResolved.symm.trans hAgain
        rw [hPath] at hFile
        exact acquire_same_file setup torch hStore hInit hFile
      | otherFile hOther _ hAgain hTensors =>
        cases hRecorded.symm.trans hOther
        cases hResolved.symm.trans hAgain
        exact hTensors budget other hRam hInit
      | noSentinels hOther hRefused _ =>
        cases hRecorded.symm.trans hOther
        cases hResolved.symm.trans hRefused
      | noTensors hOther hRefused _ =>
        cases hRecorded.symm.trans hOther
        cases hResolved.symm.trans hRefused
  | error err =>
    have hNothing : ∀ location written other, writePack setup again middle =
          .ok (location, written) →
        StreamingStore.init setup written.files location budget = .ok other →
          ∀ name, other.acquire setup torch name = none :=
      fun _ _ _ hWrite hInit => acquire_writePack setup torch hLoads hEmptied hWrite hInit
    constructor
    · intro hAll
      by_cases hRaises : ∀ location written other,
        writePack setup again middle = .ok (location, written) →
          StreamingStore.init setup written.files location budget ≠ .ok other
      · refine .noSentinels hRecorded hResolved ?_
        intro ram location written other hOther
        rw [hRam, Option.some.injEq] at hOther
        rw [← hOther]
        exact hRaises location written other
      · push Not at hRaises
        obtain ⟨location, written, other, hWrite, hInit⟩ := hRaises
        refine .noTensors hRecorded hResolved ?_
        intro name
        rw [← hAll location written other hWrite hInit name]
        exact hNothing location written other hWrite hInit name
    · intro hKeeps location written other hWrite hInit name
      cases hKeeps with
      | sameFile hOther hAgain _ =>
        cases hRecorded.symm.trans hOther
        cases hResolved.symm.trans hAgain
      | otherFile hOther _ hAgain _ =>
        cases hRecorded.symm.trans hOther
        cases hResolved.symm.trans hAgain
      | noSentinels hOther _ hRaises =>
        exact absurd hInit (hRaises budget location written other hRam hWrite)
      | noTensors hOther _ hNone =>
        rw [hNone name]
        exact hNothing location written other hWrite hInit name

/- A pack in the cache directory is found again. -/
theorem cached_pack_kept : ∃ store middle, buildParameterStore twoSetup feedbackCall openDisk
      freshWorld = .ok (.streaming store, middle) ∧
    store.acquire twoSetup bytesTorch "a" = some weights ∧
    ∀ result after, buildParameterStore twoSetup feedbackCall openDisk
          middle = .ok (result, after) →
        ∀ name, result.acquire twoSetup bytesTorch name =
          store.acquire twoSetup bytesTorch name := by
  have hWrite := writePack_two weights_short
    (show stateDictForPack twoProgram freshWorld.root = _ from rfl)
  have hEnsure : ensurePack twoSetup feedbackCall openDisk freshWorld =
      writePack twoSetup openDisk freshWorld :=
    rfl
  rw [hWrite] at hEnsure
  have hUpdated := update_self cachedPack (some (twoFile weights_short)) freshWorld.files
  obtain ⟨store, hInit, hAcquire⟩ := init_two weights_short (by decide) loads_two_weights hUpdated
  have hFirst := (build_ok_iff twoSetup rfl).mpr
    ⟨16, _, _, store, releasedRoot, rfl, hEnsure, hInit, release_two, rfl, rfl⟩
  refine ⟨store, _, hFirst, hAcquire, ?_⟩
  refine (reprovision_keeps_iff twoSetup bytesTorch
    feedbackCall openDisk openDisk freshWorld _ store hFirst
    loads_released).mpr ?_
  have hResolved : resolvePackPath twoSetup (update freshWorld.files cachedPack
          (some (twoFile weights_short))) cachedPack none
        (some twoSetup.config.cacheDir) =
      .ok (twoSetup.os.resolve cachedPack) := by
    rfl
  refine .sameFile rfl hResolved ?_
  rw [init_path twoSetup hInit]
  rfl

/-
  A bundled pack outside of the cache directory is refused
  the second time, and two sentinels are packed instead.
-/
theorem bundled_pack_lost : ∃ store middle result after, buildParameterStore twoSetup
      { artifactDir := none, packLookupDirs := [artifactDir] } openDisk
      bundledWorld = .ok (.streaming store, middle) ∧
    buildParameterStore twoSetup feedbackCall openDisk middle = .ok (result, after) ∧
    store.acquire twoSetup bytesTorch "a" = some weights ∧
    result.acquire twoSetup bytesTorch "a" = none := by
  have hBundled : bundledWorld.files bundledPath = some (twoFile weights_short) := by
    simp [bundledWorld]
  obtain ⟨store, hInit, hAcquire⟩ := init_two weights_short (by decide) loads_two_weights hBundled
  have hEnsure : ensurePack twoSetup
        { artifactDir := none, packLookupDirs := [artifactDir] } openDisk
        bundledWorld =
      .ok (bundledPath,
        { bundledWorld with
          packedModelPath := some bundledPath }) := by
    rfl
  have hFirst := (build_ok_iff twoSetup rfl).mpr
    ⟨16, _, _, store, releasedRoot, rfl, hEnsure, hInit, release_two, rfl, rfl⟩
  generalize hMiddle : ({ bundledWorld with
    packedModelPath := some bundledPath
    root := releasedRoot } : World) = middle at hFirst
  have hState : stateDictForPack twoProgram middle.root = .ok (twoState []) := by
    rw [← hMiddle]
    rfl
  have hRecorded : middle.packedModelPath = some bundledPath := by
    rw [← hMiddle]
  have hOutside : (twoSetup.os.resolve bundledPath).isWithin
      (twoSetup.os.resolve twoSetup.config.cacheDir) = false := by
    decide
  have hAgain : ensurePack twoSetup feedbackCall openDisk middle =
      writePack twoSetup openDisk middle := by
    rw [ensurePack_feedback twoSetup openDisk hRecorded,
      resolvePackPath_cached twoSetup rfl, if_pos hOutside]
  rw [writePack_two sentinel_short hState] at hAgain
  obtain ⟨other, hOther, hNone⟩ := init_two sentinel_short (by decide) loads_two_sentinels
    (update_self cachedPack (some (twoFile sentinel_short)) middle.files)
  obtain ⟨root, hRoot⟩ := releaseResidentState_again (releaseResidentState_emptied release_two)
  have hSame : middle.root = releasedRoot := by rw [← hMiddle]
  rw [← hSame] at hRoot
  exact ⟨store, middle, _, _, hFirst, (build_ok_iff twoSetup rfl).mpr
    ⟨16, _, _, other, root, rfl, hAgain, hOther, hRoot, rfl, rfl⟩, hAcquire, hNone⟩

end TensorTorrent.Provisioning
