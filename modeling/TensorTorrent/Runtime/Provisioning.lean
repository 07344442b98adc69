import TensorTorrent.Storage.PackManifest

/-
  The parameter stores: which one a program gets, where its
  pack comes from, and what is left of the weights that were
  streamed.

  Key definitions include:
    * `resolvePackPath`
    * `ensurePack`
    * `StreamingStore.init`
    * `releaseResidentState`
    * `buildParameterStore`
-/

namespace TensorTorrent.Provisioning

open Fallible (ensure)
open Pack (PyFloat Loader getOr)

----
-- Paths
----

/- A `pathlib` path: its root and its components. -/
structure Path where
  absolute : Bool
  parts : List String
deriving DecidableEq

def Path.name (parts : List String) : Path :=
  { absolute := false, parts := parts }

/- `root / child`. -/
def Path.join (root child : Path) : Path :=
  if child.absolute then child
  else { root with parts := root.parts ++ child.parts }

/- `path.relative_to(root)` does not raise. -/
def Path.isWithin (path root : Path) : Bool :=
  path.absolute == root.absolute && root.parts.isPrefixOf path.parts

variable (program : Program) (root : String → Attribute)

----
-- Errors
----

inductive ProvisionError where
| overBudget (total budget : Nat)
| training (total : Nat) (budget : Option Nat)
| noBudget
| regionTooLarge (budget required : Nat)
| relativePack (path : Path)
| packNotFound (path : Path) (roots : List Path)
| packOutside (path : Path) (allowed : List Path)
| packMissing (path : Path)
| diskSpace (directory : Path) (needed free : Nat)
| noAttribute (target : String)
| symlinkWrite (path : Path)
| osError (path : Path)
| pack (err : Pack.PackError)
| symlinkLoad (path : Path)
| cannotStat (path : Path)
| manifest (path : Path) (err : Pack.ManifestError)
| noBlock (path : Path) (target : String)
| badBlock (path : Path) (target : String)
| budgetTooSmall (budget largest : Nat)
| capacity
| ioWorkers
| queueLimit
| nativeUnavailable (path : Path)
| nativeOpen (path : Path) (detail : String)

----
-- Programs and Settings
----

/-
  What the store needs of a `RegionProgram`. Export-free
  programs keep no state bindings: their module owns the
  weights, and `parameterBytes` are its bytes.
-/
structure Program where
  stateBindings : List (String × String)
  values : List (String × Nat)
  regions : List (List String)
  exportFree : Bool
  parameterBytes : Nat
  keyed : (stateBindings.map Prod.fst).Nodup
  fused : exportFree = true → stateBindings = []

structure Config where
  ramBudgetBytes : Option Nat
  allowNvmeStreaming : Bool
  allowTraining : Bool
  allowQuantizedStorage : Bool
  quantizedMode : Bool
  cacheDir : Path
  storageIoWorkers : Nat
  storageQueueDepth : Nat

/-
  The operating system: `resolve` follows links and ends at
  a path that it leaves alone.
-/
structure Os where
  resolve : Path → Path
  isSymlink : Path → Bool
  gettempdir : Path
  hash : List String → Int
  nativeAvailable : Bool
  resolve_resolve : ∀ path, resolve (resolve path) = resolve path

/- What the disk answers during one call. -/
structure Disk where
  makes : Path → Bool
  free : Path → Option Nat
  writes : Path → Bool

/- The optional arguments of a call. -/
structure Call where
  artifactDir : Option Path
  packLookupDirs : List Path

/- Everything that stays the same from call to call. -/
structure Setup where
  host : Pack.Host
  os : Os
  portableName : String
  program : Program
  config : Config

/- What a dotted name leads to in the module. -/
inductive Attribute where
| noOwner
| absent
| object
| tensor (tensor : Pack.Tensor)

/- Files by resolved path, the recorded pack, the module. -/
structure World where
  files : Path → Option (List UInt8)
  packedModelPath : Option Path
  root : String → Attribute

----
-- Sizes
----

/- Bytes, once for each attribute of the module. -/
def Program.uniqueStateBytes (names : List String) : Nat :=
  (names.foldl (fun (found : List String × Nat) name =>
      let target := (program.stateBindings.lookup name).getD name
      if target ∈ found.1 then found
      else (target :: found.1, found.2 + (program.values.lookup name).getD 0))
    ([], 0)).2

def Program.exportFreeRootStateBytes : Nat :=
  if program.exportFree then program.parameterBytes else 0

def Program.totalStateBytes : Nat :=
  let total := program.uniqueStateBytes (program.stateBindings.map Prod.fst)
  if 0 < total then total
  else program.exportFreeRootStateBytes

def Program.maxRegionStateBytes : Nat :=
  let peak := (program.regions.map program.uniqueStateBytes).foldl max 0
  if 0 < peak then peak
  else program.exportFreeRootStateBytes

def needsParameterStreaming (config : Config) (stateBytes : Nat) : Bool :=
  match config.ramBudgetBytes with
  | none => false
  | some budget =>
    if stateBytes ≤ budget then false
    else config.allowNvmeStreaming

----
-- The State of the Module
----

/- `torch.empty(0, dtype=current.dtype)`. -/
def placeholder (tensor : Pack.Tensor) : Pack.Tensor where
  shape := [0]
  dtype := tensor.dtype
  elementSize := tensor.elementSize
  bytes := []
  sized := by simp
  known := tensor.known

/- A loader of the same value in both passes of the writer;
   an object that is no tensor has no `get`. -/
def Attribute.loader : Attribute → Option Loader
| noOwner => none
| absent => none
| object =>
  some
    { first := .error "object has no attribute 'get'"
      second := .error "object has no attribute 'get'" }
| tensor value =>
  some { first := .ok (.tensor value), second := .ok (.tensor value) }

/- `state_dict_for_pack`, one turn. -/
def packNext (packed : List (String × Loader))
    (binding : String × String) : Except ProvisionError (List (String × Loader)) :=
  if binding.2 ∈ packed.map Prod.fst then .ok packed
  else
    match (root binding.2).loader with
    | none => .error (.noAttribute binding.2)
    | some loader => .ok (packed ++ [(binding.2, loader)])

def stateDictForPack : Except ProvisionError (List (String × Loader)) :=
  program.stateBindings.foldlM (packNext root) []

/- `state_tensors`. -/
def stateTensors : Except ProvisionError (List (String × Attribute)) :=
  program.stateBindings.mapM (fun binding =>
    match root binding.2 with
    | .noOwner => .error (.noAttribute binding.2)
    | .absent => .error (.noAttribute binding.2)
    | found => .ok (binding.1, found))

/- One turn of the release. -/
def releaseNext (binding : String × String) : Except ProvisionError (String → Attribute) :=
  match root binding.2 with
  | .noOwner => .error (.noAttribute binding.2)
  | .tensor value => .ok (Function.update root binding.2 (.tensor (placeholder value)))
  | _ => .ok root

def releaseResidentState : Except ProvisionError (String → Attribute) :=
  program.stateBindings.foldlM releaseNext root

----
-- Packs
----

variable (setup : Setup)

section

variable (files : Path → Option (List UInt8))

/- `path.exists()`, links followed. -/
def fileExists (path : Path) : Bool :=
  (files (setup.os.resolve path)).isSome

variable (candidate : Path) (roots : List Path)

/- A relative path below the first root that has it. -/
def resolveRelative : Option Path :=
  (roots.map (fun root =>
    (setup.os.resolve (root.join candidate), setup.os.resolve root))).findSome?
    (fun found =>
      if fileExists setup files found.1 ∧ found.1.isWithin found.2 = true then some found.1
      else none)

def resolvePackPath (artifactDir cacheDir : Option Path) : Except ProvisionError Path :=
  let roots := [artifactDir, cacheDir].filterMap id
  if candidate.absolute = false then
    if roots = [] then .error (.relativePack candidate)
    else
      match resolveRelative setup files candidate roots with
      | some resolved => .ok resolved
      | none => .error (.packNotFound candidate roots)
  else
    let resolved := setup.os.resolve candidate
    let allowed := roots.map setup.os.resolve
    if allowed ≠ [] ∧ allowed.all (fun root =>
        !resolved.isWithin root) then
      .error (.packOutside resolved allowed)
    else if fileExists setup files resolved = false then
      .error (.packMissing resolved)
    else .ok resolved

/- The first `model.pack` in a lookup directory. -/
def bundledPack : Option Path :=
  (roots.map (fun root => root.join (.name ["model.pack"]))).find? (fileExists setup files)

end

variable (manifest : Json PyFloat) (call : Call) (disk : Disk) (world : World)

/- The recorded pack, if its path is accepted. -/
def recordedPack : Option Path :=
  world.packedModelPath.bind (fun packed =>
    (resolvePackPath setup world.files packed call.artifactDir
      (some setup.config.cacheDir)).toOption)

def packDirectory : Path :=
  let directory := setup.config.cacheDir.join (.name ["packs"])
  if disk.makes directory then directory
  else setup.os.gettempdir

def checkPackDiskSpace (directory : Path) (needed : Nat) : Except ProvisionError Unit :=
  match disk.free directory with
  | none => .ok ()
  | some free =>
    if free < needed then
      .error (.diskSpace directory needed free)
    else .ok ()

def packFile : Path :=
  let bindings := setup.program.stateBindings.map Prod.fst
  (packDirectory setup disk).join (.name [setup.portableName ++ "-" ++
    toString (setup.os.hash bindings).natAbs ++ ".pack"])

def quantizes : Bool :=
  setup.config.allowQuantizedStorage && setup.config.quantizedMode

/- `pack_state_dict` with its default alignment. -/
def packStateDict (state : List (String × Loader)) :
    Except ProvisionError (Pack.ModelPack × List UInt8) :=
  (Pack.packTensors setup.host state 64 (quantizes setup)).mapError .pack

/- The weights of the module as a new pack. -/
def writePack : Except ProvisionError (Path × World) := do
  let path := packFile setup disk
  let total := setup.program.totalStateBytes
  checkPackDiskSpace disk (packDirectory setup disk) (if total = 0 then 1 else total)
  let state ← stateDictForPack setup.program world.root
  ensure (setup.os.isSymlink path = false) (.symlinkWrite path)
  let (_, file) ← packStateDict setup state
  ensure (disk.writes path = true) (.osError path)
  return (path, { world with
    files := Function.update world.files (setup.os.resolve path) (some file)
    packedModelPath := some path })

def ensurePack : Except ProvisionError (Path × World) :=
  match bundledPack setup world.files call.packLookupDirs with
  | some bundled => .ok (setup.os.resolve bundled, { world with packedModelPath := some bundled })
  | none =>
    match recordedPack setup call world with
    | some path => .ok (path, world)
    | none => writePack setup disk world

----
-- The Streaming Store
----

/- `_Block`: how the bytes of a parameter are decoded. -/
structure Block where
  offset : Int
  nbytes : Int
  shape : List Int
  dtype : String
  checksum : String
  compression : Pack.CompressionKind
  logicalShape : Option (List Int)
  logicalDtype : Option String
  scale : Option PyFloat
  zeroPoint : Int

/- `float(entry["scale"])`. -/
def scaleOf : Json PyFloat → Option PyFloat
| .int value => some (.finite value)
| .float value => some value
| _ => none

def Block.ofEntry (entry : Json PyFloat) : Option Block := do
  let offset ← (← entry.get "offset").asInt
  let nbytes ← (← entry.get "nbytes").asInt
  let shape ← (← entry.get "stored_shape").asInts
  let dtype ← (← entry.get "stored_dtype").asStr
  let checksum ← (getOr entry "checksum" (.str "")).asStr
  let compression ← Pack.coerceCompression
    (getOr entry "compression" (.str Pack.CompressionKind.none.value))
  return {
    offset := offset, nbytes := nbytes, shape := shape, dtype := dtype, checksum := checksum
    compression := compression, logicalShape := (getOr entry "logical_shape" .null).asInts
    logicalDtype := (getOr entry "logical_dtype" .null).asStr.filter (· ≠ "")
    scale := scaleOf (getOr entry "scale" .null)
    zeroPoint := (getOr entry "zero_point" .null).asInt.getD 0 }

/- The last entry of a name, as in a dict. -/
def entryFor (target : String) : Option (Json PyFloat) :=
  ((getOr manifest "tensors" .null).asList.getD []).reverse.find? (fun entry =>
    (entry.get "logical_id").bind Json.asStr = some target)

/- One more block; the errors name the file. -/
def blockNext (blocks : List (String × Block))
    (binding : String × String) : Except (Path → ProvisionError) (List (String × Block)) :=
  if binding.2 ∈ blocks.map Prod.fst then .ok blocks
  else
    match entryFor manifest binding.2 with
    | none => .error (.noBlock · binding.2)
    | some entry =>
      match Block.ofEntry entry with
      | none => .error (.badBlock · binding.2)
      | some block => .ok (blocks ++ [(binding.2, block)])

/- A store with its blocks and its reader of the file. -/
structure StreamingStore where
  path : Path
  blocks : List (String × Block)
  reader : Pack.PackReader

def maxIoWorkers : Nat := 64

def openNativeStreamingStore (path : Path) (file : List UInt8) (manifest : Json PyFloat)
    (capacity : Nat) : Except ProvisionError Pack.PackReader := do
  ensure (1 ≤ capacity) .capacity
  ensure (1 ≤ setup.config.storageIoWorkers) .ioWorkers
  ensure (1 ≤ setup.config.storageQueueDepth) .queueLimit
  ensure (setup.os.nativeAvailable = true) (.nativeUnavailable path)
  ensure (setup.config.storageIoWorkers ≤ maxIoWorkers) (.nativeOpen path "io_workers")
  match Pack.nativeManifest manifest with
  | none => .error (.nativeOpen path "manifest")
  | some native =>
    (Pack.PackReader.open file native).mapError (fun err => .nativeOpen path err.message)

/- `StreamingParameterStore(...)`. -/
def StreamingStore.init (files : Path → Option (List UInt8)) (path : Path) (budget : Nat) :
    Except ProvisionError StreamingStore := do
  ensure (setup.os.isSymlink path = false) (.symlinkLoad path)
  match files (setup.os.resolve path) with
  | none => .error (.cannotStat path)
  | some file =>
    let manifest ← (Pack.loadPackManifest setup.host file).mapError (ProvisionError.manifest path)
    let blocks ← (setup.program.stateBindings.foldlM (blockNext manifest) []).mapError (· path)
    let largest : Int := (blocks.map (fun block => block.2.nbytes)).foldl max 0
    ensure (largest ≤ budget) (.budgetTooSmall budget largest.toNat)
    let reader ← openNativeStreamingStore setup path file manifest budget
    return {
      path := path, blocks := blocks, reader := reader }

----
-- Serving
----

/-
  Tensors of the framework: `live` is one that the module
  holds, `decode` makes one of the bytes of a block.
  `torch.frombuffer` refuses a buffer without bytes.
-/
structure Torch (T : Type) where
  live : Pack.Tensor → T
  decode : Block → List UInt8 → Option T
  decode_empty : ∀ block, decode block [] = none

inductive ParameterStore where
| resident (tensors : List (String × Attribute))
| streaming (store : StreamingStore)

variable {T : Type} (torch : Torch T)

/- The tensor that `acquire` returns in a new store. -/
def StreamingStore.acquire (store : StreamingStore) (name : String) : Option T := do
  let key ← setup.program.stateBindings.lookup name
  let block ← store.blocks.lookup key
  let bytes ← (store.reader.pread key).toOption
  guard ((bytes.length : Int) = block.nbytes)
  torch.decode block bytes

def ParameterStore.acquire (name : String) : ParameterStore → Option T
| resident tensors =>
  match tensors.lookup name with
  | some (.tensor value) => some (torch.live value)
  | _ => none
| streaming store => store.acquire setup torch name

----
-- Choosing a Store
----

/- The check before a program stays resident. -/
def residentBudget : Except ProvisionError Unit :=
  let total := setup.program.totalStateBytes
  match setup.config.ramBudgetBytes with
  | some budget =>
    ensure (¬ (budget < total ∧ setup.config.allowNvmeStreaming = false)) (.overBudget total budget)
  | none => .ok ()

/- A store whose tensors stay in the module. -/
def residentStore : Except ProvisionError (ParameterStore × World) := do
  residentBudget setup
  let tensors ← stateTensors setup.program world.root
  return (.resident tensors, world)

/- The checks before a program is streamed. -/
def streamingBudget : Except ProvisionError Nat := do
  let total := setup.program.totalStateBytes
  ensure (setup.config.allowTraining = false) (.training total setup.config.ramBudgetBytes)
  match setup.config.ramBudgetBytes with
  | none => .error .noBudget
  | some budget =>
    ensure (setup.program.maxRegionStateBytes ≤ budget)
      (.regionTooLarge budget setup.program.maxRegionStateBytes)
    return budget

def buildParameterStore : Except ProvisionError (ParameterStore × World) :=
  if needsParameterStreaming setup.config setup.program.totalStateBytes = false then
    residentStore setup world
  else do
    let budget ← streamingBudget setup
    let (path, packed) ← ensurePack setup call disk world
    let store ← StreamingStore.init setup packed.files path budget
    let root ← releaseResidentState setup.program packed.root
    return (.streaming store, { packed with root := root })

/- The call of `apply_profile_feedback`. -/
def feedbackCall : Call :=
  { artifactDir := none, packLookupDirs := [] }

end TensorTorrent.Provisioning
