import TensorTorrent.Library.Fallible
import TensorTorrent.Library.Spans
import TensorTorrent.Storage.Pack

/-
  This file models how a pack is opened: the manifest check
  of `load_pack_manifest` (`storage/pack.py`), its translation
  for the native reader (`storage/native_pack.py`) and the
  reader itself (crate `tt-storage`: `pack.rs`). Paths and
  symbolic links are left out; the allocator has room.

  Key definitions include:
    * `checkEntry`
    * `loadPackManifest`
    * `nativeManifest`
    * `PackManifest.validate`
    * `PackReader.open`
    * `PackReader.pread`
-/

namespace TensorTorrent.Pack

open Fallible (ensure)

----
-- Errors
----

/- What the manifest check raises. -/
inductive ManifestError where
| tooSmall
| notAPack
| unsupportedVersion (version : Nat)
| excessiveLength (length : Nat)
| beyondFile (length : Nat)
| shortRead
| corrupt
| notAnObject
| notAnInteger (field : String)
| versionMismatch
| noTensors
| tooManyTensors (count : Nat)
| countMismatch (declared found : Int)
| entryNotAnObject
| invalidLogicalId
| longLogicalId
| duplicateLogicalId (logicalId : String)
| missingOffset
| alignment (found : Int)
| insideHeader (logicalId : String) (offset header : Int)
| misaligned (logicalId : String) (offset alignment : Int)
| outsideFile (logicalId : String) (offset nbytes fileSize : Int)
| storedShape (logicalId : String)
| negativeDims (logicalId : String)
| storedDtype (logicalId : String)
| unexpectedBytes (logicalId : String) (expected found : Int)
| logicalShape (logicalId : String)
| logicalDims (logicalId : String)
| logicalDtype (logicalId : String)
| compression (logicalId : String)
| scale (logicalId : String)
| zeroPoint (logicalId : String)
| mismatchedMetadata (logicalId : String)
| incompleteAffine (logicalId : String)
| layout (logicalId : String)
| checksum (logicalId : String)
| crc32 (logicalId : String)
| overlap (first second : String)
deriving DecidableEq

----
-- One Entry of the Manifest
----

/- A value or, when there is none, an error. -/
def expect {α : Type} (value : Option α) (err : ManifestError) : Except ManifestError α :=
  match value with
  | some found => .ok found
  | none => .error err

/- A key with a default. -/
def getOr (entry : Json PyFloat) (key : String) (fallback : Json PyFloat) : Json PyFloat :=
  (entry.get key).getD fallback

def requireManifestInt (value : Json PyFloat) (field : String) : Except ManifestError Int :=
  expect value.asInt (.notAnInteger field)

/- The name, which no entry before it has. -/
def checkLogicalId (seen : List String) (entry : Json PyFloat) :
    Except ManifestError String := do
  let logicalId ← expect
    ((entry.get "logical_id").bind Json.asStr)
    .invalidLogicalId
  ensure (logicalId ≠ "") .invalidLogicalId
  ensure (isBoundedUtf8 logicalId maxTensorNameBytes = true) .longLogicalId
  ensure (logicalId ∉ seen) (.duplicateLogicalId logicalId)
  return logicalId

/- The offset and the size, inside the file. -/
def checkRange (fileSize headerBytes : Int) (logicalId : String) (entry : Json PyFloat) :
    Except ManifestError (Int × Int) := do
  let offset ← expect (entry.get "offset") .missingOffset
  let offset ← requireManifestInt offset "offset"
  let nbytes ← expect (entry.get "nbytes") .missingOffset
  let nbytes ← requireManifestInt nbytes "nbytes"
  let alignment ← requireManifestInt
    (getOr entry "alignment" (.int 1)) "alignment"
  let _ ← (validateAlignment alignment).mapError
    (fun _ => .alignment alignment)
  ensure (headerBytes ≤ offset) (.insideHeader logicalId offset headerBytes)
  ensure (offset % alignment = 0) (.misaligned logicalId offset alignment)
  ensure (0 ≤ nbytes ∧ nbytes ≤ maxTensorBytes ∧ offset ≤ fileSize ∧ nbytes ≤ fileSize - offset)
    (.outsideFile logicalId offset nbytes fileSize)
  return (offset, nbytes)

/- A shape: a short list of sizes. -/
def checkShape (value : Json PyFloat) (noList badDims : ManifestError) :
    Except ManifestError (List Int) := do
  let items ← expect value.asList noList
  ensure (items.length ≤ maxTensorRank) noList
  let dims ← expect value.asInts badDims
  ensure (∀ dim ∈ dims, 0 ≤ dim) badDims
  return dims

def checkDtype (value : Json PyFloat) (err : ManifestError) : Except ManifestError String := do
  let dtype ← expect value.asStr err
  ensure (isBoundedUtf8 dtype maxDtypeBytes = true) err
  return dtype

/- `_coerce_compression(str(value))`. -/
def coerceCompression (value : Json PyFloat) : Option CompressionKind :=
  match value.asStr with
  | some text =>
    if text = CompressionKind.none.value then some .none
    else if text = CompressionKind.int8Affine.value then
      some .int8Affine
    else none
  | none => none

/- `_coerce_layout(str(value))`. -/
def coerceLayout (value : Json PyFloat) : Option TensorLayout :=
  match value.asStr with
  | some text =>
    if text = TensorLayout.contiguous.value then
      some .contiguous
    else if text = TensorLayout.strided.value then
      some .strided
    else none
  | none => none

/- A scale is missing, or a positive finite number. -/
def validScale : Json PyFloat → Bool
| .null => true
| .int value => decide (0 < value)
| .float value => value.isFinite && !value.nonPositive
| _ => false

def validZeroPoint : Json PyFloat → Bool
| .null => true
| .int value => decide (-128 ≤ value ∧ value ≤ 127)
| _ => false

/- A checksum: at most 64 hexadecimal digits. -/
def validChecksum : Json PyFloat → Bool
| .str text => decide (text.length ≤ 64) && text.toList.all (· ∈ "0123456789abcdef".toList)
| _ => false

def validCrc32 : Json PyFloat → Bool
| .null => true
| .int value => decide (0 ≤ value ∧ value ≤ 0xFFFFFFFF)
| _ => false

/- The stored and the logical metadata. -/
def checkMetadata (logicalId : String) (nbytes : Int)
    (entry : Json PyFloat) : Except ManifestError Unit := do
  let storedShape ← checkShape
    (getOr entry "stored_shape" .null)
    (.storedShape logicalId) (.negativeDims logicalId)
  let storedDtype ← checkDtype
    (getOr entry "stored_dtype" .null)
    (.storedDtype logicalId)
  ensure (∀ size ∈ dtypeSizes.lookup storedDtype, storedShape.prod * (size : Int) = nbytes)
    (.unexpectedBytes logicalId (storedShape.prod *
        (((dtypeSizes.lookup storedDtype).getD 0 : Nat) : Int))
      nbytes)
  let logicalShape ← checkShape
    (getOr entry "logical_shape" (.ints storedShape))
    (.logicalShape logicalId) (.logicalDims logicalId)
  let logicalDtype ← checkDtype
    (getOr entry "logical_dtype" (.str storedDtype))
    (.logicalDtype logicalId)
  let compression ← expect
    (coerceCompression (getOr entry "compression" (.str CompressionKind.none.value)))
    (.compression logicalId)
  let scale := getOr entry "scale" .null
  ensure (validScale scale = true) (.scale logicalId)
  ensure (validZeroPoint (getOr entry "zero_point" .null) = true) (.zeroPoint logicalId)
  match compression with
  | .none =>
    ensure (logicalShape = storedShape ∧ logicalDtype = storedDtype) (.mismatchedMetadata logicalId)
  | .int8Affine =>
    ensure (storedDtype = "int8" ∧ (scale matches .null) = false ∧
        (dtypeSizes.lookup logicalDtype).isSome = true)
      (.incompleteAffine logicalId)

/- One turn of the loop over the entries. -/
def checkEntry (fileSize headerBytes : Int) (seen : List String) (entry : Json PyFloat) :
    Except ManifestError Span := do
  ensure ((entry matches .object _) = true) .entryNotAnObject
  let logicalId ← checkLogicalId seen entry
  let (offset, nbytes) ←
    checkRange fileSize headerBytes logicalId entry
  checkMetadata logicalId nbytes entry
  let _ ← expect (coerceLayout (getOr entry "layout"
      (.str TensorLayout.contiguous.value)))
    (.layout logicalId)
  ensure (validChecksum (getOr entry "checksum" (.str "")) = true) (.checksum logicalId)
  ensure (validCrc32 (getOr entry "checksum_crc32" .null) = true) (.crc32 logicalId)
  return {
    start := offset.toNat, stop := (offset + nbytes).toNat, name := logicalId }

----
-- The Whole Manifest
----

/- The order of tuples `(offset, end, logical_id)`. -/
def spanLe (first second : Span) : Bool :=
  decide (first.start < second.start ∨ first.start = second.start ∧ (first.stop < second.stop ∨
    first.stop = second.stop ∧ first.name ≤ second.name))

/- The loop over the entries; the names are those seen. -/
def checkEntries (fileSize headerBytes : Int) (entries : List (Json PyFloat)) :
    Except ManifestError (List Span) :=
  entries.foldlM (fun spans entry => do
      let span ← checkEntry fileSize headerBytes
        (spans.map Span.name) entry
      return spans ++ [span])
    []

def validatePackManifest (manifest : Json PyFloat) (fileSize headerBytes : Int) :
    Except ManifestError Unit := do
  let version ← requireManifestInt
    (getOr manifest "version" .null) "version"
  ensure (version = packVersion) .versionMismatch
  let tensors ← expect
    (getOr manifest "tensors" .null).asList .noTensors
  ensure (tensors.length ≤ maxTensorCount) (.tooManyTensors tensors.length)
  match getOr manifest "tensor_count" .null with
  | .null => pure ()
  | declared => do
      let count ← requireManifestInt declared "tensor_count"
      ensure (count = tensors.length) (.countMismatch count tensors.length)
  let spans ← checkEntries fileSize headerBytes tensors
  (Spans.sweep (spans.mergeSort spanLe) none).mapError (fun found => .overlap found.1 found.2)

/- `os.pread(fd, count, offset)`. -/
def preadAt (file : List UInt8) (count offset : Nat) : List UInt8 :=
  Files.read file offset count

def loadPackManifest (host : Host) (file : List UInt8) :
    Except ManifestError (Json PyFloat) := do
  let head := preadAt file 16 0
  ensure (head.length = 16) .tooSmall
  ensure (head.take 8 = magic) .notAPack
  let version := Bytes.ofLe ((head.drop 8).take 4)
  let manifestLen := Bytes.ofLe ((head.drop 12).take 4)
  ensure (version = packVersion) (.unsupportedVersion version)
  ensure (manifestLen ≤ maxManifestBytes) (.excessiveLength manifestLen)
  ensure (16 + manifestLen ≤ file.length) (.beyondFile manifestLen)
  let raw := preadAt file manifestLen 16
  ensure (raw.length = manifestLen) .shortRead
  let manifest ← expect (host.loads raw) .corrupt
  ensure ((manifest matches .object _) = true) .notAnObject
  validatePackManifest manifest file.length (16 + manifestLen : Nat)
  return manifest

----
-- The Native Manifest
----

structure TensorEntry where
  name : String
  offset : UInt64
  length : UInt64
  dtype : String
  shape : List Int64
  checksumCrc32 : Option UInt32
deriving DecidableEq

structure PackManifest where
  version : UInt32
  tensors : List TensorEntry
deriving DecidableEq

/- A `u64`; other integers are refused. -/
def readU64 (value : Int) : Option UInt64 :=
  if 0 ≤ value ∧ value < 2 ^ 64 then
    some (UInt64.ofNat value.toNat)
  else none

def readU32 (value : Int) : Option UInt32 :=
  if 0 ≤ value ∧ value < 2 ^ 32 then
    some (UInt32.ofNat value.toNat)
  else none

def readI64 (value : Int) : Option Int64 :=
  if -2 ^ 63 ≤ value ∧ value < 2 ^ 63 then
    some (Int64.ofInt value)
  else none

/- `entry.get(key, entry.get(other))`. -/
def getEither (entry : Json PyFloat) (key other : String) : Option (Json PyFloat) :=
  (entry.get key).or (entry.get other)

/- The fields of a native entry, as JSON has them. -/
structure NativeFields where
  name : String
  offset : Int
  length : Int
  dtype : String
  shape : List Int
  checksumCrc32 : Option Int
deriving DecidableEq

/- A missing checksum, or a 32-bit number. -/
def checksumField : Json PyFloat → Option (Option Int)
| .null => some none
| .int crc =>
  if 0 ≤ crc ∧ crc ≤ 0xFFFFFFFF then some (some crc)
  else none
| _ => none

/- One entry of `scpack_to_native_manifest_json`. -/
def scpackEntry (entry : Json PyFloat) : Option NativeFields := do
  let name ← (getEither entry "logical_id" "name").bind
    Json.asStr
  guard (name ≠ "")
  let offset ← (entry.get "offset").bind Json.asInt
  let length ← (getEither entry "nbytes" "length").bind
    Json.asInt
  let dtype ← (getEither entry "stored_dtype" "dtype").bind
    Json.asStr
  guard (dtype ≠ "")
  let shape ← (getEither entry "stored_shape" "shape").bind
    Json.asInts
  let checksum ← checksumField
    (getOr entry "checksum_crc32" .null)
  return {
    name := name, offset := offset, length := length, dtype := dtype, shape := shape
    checksumCrc32 := checksum }

/- An `Option<u32>`. -/
def readOptionU32 : Option Int → Option (Option UInt32)
| none => some none
| some value => (readU32 value).map some

/- Reading the fields back; numbers that do not fit are
   refused. -/
def TensorEntry.read (fields : NativeFields) : Option TensorEntry := do
  let offset ← readU64 fields.offset
  let length ← readU64 fields.length
  let shape ← fields.shape.mapM readI64
  let checksum ← readOptionU32 fields.checksumCrc32
  return {
    name := fields.name, offset := offset, length := length, dtype := fields.dtype, shape := shape
    checksumCrc32 := checksum }

def nativeEntry (entry : Json PyFloat) : Option TensorEntry :=
  (scpackEntry entry).bind TensorEntry.read

/- The manifest of the native reader for a pack manifest. -/
def nativeManifest (manifest : Json PyFloat) : Option PackManifest := do
  let version ← (manifest.get "version").bind Json.asInt
  let entries ← (manifest.get "tensors").bind Json.asList
  let tensors ← entries.mapM nativeEntry
  let version ← readU32 version
  return { version := version, tensors := tensors }

----
-- The Native Reader
----

def packFormatVersion : UInt32 := 1

/- The order of the keys `(offset, end)`. -/
def rangeLe (first second : Span) : Bool :=
  decide (first.start < second.start ∨ first.start = second.start ∧ first.stop ≤ second.stop)

/- One turn of the loop of `PackManifest::validate`. -/
def TensorEntry.validate (seen : List String) (entry : TensorEntry) : Except StorageError Span := do
  ensure (entry.name ≠ "") (.invalid "empty tensor name")
  ensure ((Spill.utf8 entry.name).length ≤ maxTensorNameBytes)
    (.invalid ("tensor name exceeds " ++ toString maxTensorNameBytes ++ " bytes"))
  ensure (entry.length.toNat ≤ maxTensorBytes) (.excessiveAllocation entry.length.toNat)
  let stop ← match checkedAdd entry.offset.toNat
      entry.length.toNat with
    | some stop => .ok stop
    | none => .error (.invalid ("offset overflow for " ++ entry.name))
  ensure (entry.name ∉ seen) (.invalid ("duplicate tensor " ++ entry.name))
  ensure (entry.dtype ≠ "" ∧ (Spill.utf8 entry.dtype).length ≤ maxDtypeBytes)
    (.invalid ("invalid dtype for " ++ entry.name))
  ensure (entry.shape.length ≤ maxTensorRank) (.invalid ("tensor rank exceeds " ++
    toString maxTensorRank ++ " for " ++ entry.name))
  ensure (entry.shape.all (¬ · < 0)) (.invalid ("invalid shape for " ++ entry.name))
  return {
    start := entry.offset.toNat, stop := stop, name := entry.name }

/- The ranges of the entries. -/
def PackManifest.ranges (tensors : List TensorEntry) : Except StorageError (List Span) :=
  tensors.foldlM (fun ranges entry => do
      let range ← entry.validate (ranges.map Span.name)
      return ranges ++ [range])
    []

def PackManifest.validate (manifest : PackManifest) : Except StorageError Unit := do
  ensure (manifest.version = packFormatVersion)
    (.invalid ("unsupported pack version " ++
      toString manifest.version.toNat ++ " (expected " ++ toString packFormatVersion.toNat ++ ")"))
  ensure (manifest.tensors.length ≤ maxTensorCount)
    (.invalid ("manifest has too many tensors: " ++
      toString manifest.tensors.length ++ " (max " ++ toString maxTensorCount ++ ")"))
  let ranges ← PackManifest.ranges manifest.tensors
  (Spans.sweep (ranges.mergeSort rangeLe) none).mapError (fun found => StorageError.invalid
    ("overlapping ranges " ++ found.1 ++ " and " ++ found.2))

structure PackReader where
  file : List UInt8
  fileSize : Nat
  manifest : PackManifest

/- The end of a block, if it is inside the file. -/
def boundedEnd (entry : TensorEntry) (fileSize : Nat) : Except StorageError Nat :=
  match checkedAdd entry.offset.toNat entry.length.toNat with
  | none => .error (.bounds entry.offset.toNat entry.length.toNat fileSize)
  | some stop =>
    if fileSize < stop then
      .error (.bounds entry.offset.toNat entry.length.toNat fileSize)
    else .ok stop

def PackReader.open (file : List UInt8) (manifest : PackManifest) :
    Except StorageError PackReader := do
  manifest.validate
  let _ ← manifest.tensors.mapM (boundedEnd · file.length)
  return {
    file := file, fileSize := file.length, manifest := manifest }

/- A later entry of the same name would replace an earlier
   one in the index. -/
def PackReader.entry (reader : PackReader) (name : String) : Option TensorEntry :=
  reader.manifest.tensors.reverse.find? (fun entry => entry.name = name)

/- `format!("{value:#x}")`. -/
def hexText (value : UInt32) : String :=
  "0x" ++ String.ofList (Nat.toDigits 16 value.toNat)

def PackReader.pread (reader : PackReader) (name : String) : Except StorageError (List UInt8) := do
  let entry ← match reader.entry name with
    | some entry => .ok entry
    | none => .error (.invalid ("unknown tensor " ++ name))
  ensure (entry.length.toNat ≤ maxTensorBytes) (.excessiveAllocation entry.length.toNat)
  let _ ← boundedEnd entry reader.fileSize
  let bytes := preadAt reader.file entry.length.toNat
    entry.offset.toNat
  ensure (bytes.length = entry.length.toNat) (.io "failed to fill whole buffer")
  match entry.checksumCrc32 with
  | none => return bytes
  | some expected =>
    let got := Checksum.crc32Ieee bytes
    ensure (got = expected) (.checksumMismatch name (hexText expected) (hexText got))
    return bytes

end TensorTorrent.Pack
