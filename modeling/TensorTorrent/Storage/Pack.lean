import TensorTorrent.Library.Files
import TensorTorrent.Library.Json
import TensorTorrent.Storage.Checksum
import TensorTorrent.Storage.Spill

/-
  This file models the pack writer (`storage/pack.py`:
  `_describe_value` to `pack_tensors`, with
  `quantize_per_tensor` of `storage/quantized.py`). A pack is
  the list of the bytes of its file; paths, the temporary
  name and its rename are left out, and so are integers of
  more than 4300 digits, which Python refuses to print. What
  comes from outside the repository (the text of a float,
  SHA-256, the arithmetic of tensors, `json.loads`) is a
  `Host`.

  Key definitions include:
    * `Value`
    * `Meta`
    * `TensorBlock`
    * `layOut`
    * `packTensors`
-/

namespace TensorTorrent.Pack

----
-- Limits and Errors
----

/- `b"SCPACK1\0"`. -/
def magic : List UInt8 :=
  [0x53, 0x43, 0x50, 0x41, 0x43, 0x4b, 0x31, 0x00]

def packVersion : Nat := 1

def maxManifestBytes : Nat := 64 * 1024 * 1024

def maxTensorCount : Nat := 100000

def maxTensorBytes : Nat := 64 * 1024 * 1024 * 1024

def maxTensorNameBytes : Nat := 4096

def maxDtypeBytes : Nat := 128

def maxTensorRank : Nat := 64

/- What ends `pack_tensors` early. -/
inductive PackError where
| alignment (found : Int)
| emptyName
| duplicateName (name : String)
| loader (message : String)
| chunkedQuantize
| notFinite
| longName (name : String)
| invalidNbytes (name : String) (nbytes : Int)
| invalidShape (name label : String)
| invalidDtype (name label : String)
| tooManyTensors
| manifestTooLarge (bytes : Nat)
| noLayout (tensors : Nat)
| changedMetadata (name : String) (fields : List String)
| castWithZeros
| seekOverflow
| sizeMismatch (expected written : Nat)
| exceedsReserve (header reserve : Nat)
deriving DecidableEq

----
-- Values
----

/- A Python float: the finite ones by their value. -/
inductive PyFloat where
| finite (value : ℚ)
| negZero
| inf
| negInf
| nan
deriving DecidableEq

/- Python's `==`. -/
def PyFloat.equals : PyFloat → PyFloat → Bool
| nan, _ => false
| _, nan => false
| negZero, finite value => value == 0
| finite value, negZero => value == 0
| first, second => first == second

/- `math.isfinite`. -/
def PyFloat.isFinite : PyFloat → Bool
| finite _ => true
| negZero => true
| _ => false

/- `value <= 0`. -/
def PyFloat.nonPositive : PyFloat → Bool
| finite value => decide (value ≤ 0)
| negZero => true
| negInf => true
| _ => false

inductive CompressionKind where
| none
| int8Affine
deriving DecidableEq

def CompressionKind.value : CompressionKind → String
| none => "none"
| int8Affine => "int8_affine"

inductive TensorLayout where
| contiguous
| strided
deriving DecidableEq

def TensorLayout.value : TensorLayout → String
| contiguous => "contiguous"
| strided => "strided"

/- `dtype_sizes` of the manifest check. -/
def dtypeSizes : List (String × Nat) :=
  [("bool", 1), ("uint8", 1), ("int8", 1), ("int16", 2),
    ("float16", 2), ("bfloat16", 2), ("int32", 4), ("float32", 4), ("int64", 8), ("float64", 8)]

/- A contiguous tensor on the host. -/
structure Tensor where
  shape : List Nat
  dtype : String
  elementSize : Nat
  bytes : List UInt8
  sized : bytes.length = shape.prod * elementSize
  known : ∀ size ∈ dtypeSizes.lookup dtype, elementSize = size

structure ChunkedTensorSource where
  nbytes : Int
  storedShape : List Int
  logicalShape : List Int
  storedDtype : String
  logicalDtype : String
  chunks : List (List UInt8)
  compression : CompressionKind := .none
  scale : Option PyFloat := none
  zeroPoint : Option Int := none

/- What a loader returns; a dictionary by its keys. -/
inductive Value where
| chunked (source : ChunkedTensorSource)
| tensor (tensor : Tensor)
| dict (data : Option (List UInt8)) (shape : Option (List Int)) (dtype : Option String)

/- A loader, by what it returns or raises in each pass. -/
structure Loader where
  first : Except String Value
  second : Except String Value

/- What the repository does not define. -/
structure Host where
  floatText : PyFloat → String
  digest : List UInt8 → Fin 64 → Fin 16
  element : Tensor → Nat → PyFloat
  ratio : ℚ → ℚ
  quantised : PyFloat → ℚ → UInt8
  loads : List UInt8 → Option (Json PyFloat)

----
-- Describing a Value
----

structure RawMeta where
  name : String
  nbytes : Int
  storedShape : List Int
  logicalShape : List Int
  storedDtype : String
  logicalDtype : String
  compression : CompressionKind
  scale : Option PyFloat
  zeroPoint : Option Int
deriving DecidableEq

inductive Payload where
| chunked (chunks : List (List UInt8))
| tensor (shape : List Nat) (bytes : List UInt8)
| data (bytes : List UInt8)
deriving DecidableEq

/- The bytes that the payload stands for. -/
def Payload.bytes : Payload → List UInt8
| chunked chunks => chunks.flatten
| tensor _ bytes => bytes
| data bytes => bytes

def isBoundedUtf8 (value : String) (maximum : Nat) : Bool :=
  decide (value ≠ "" ∧ (Spill.utf8 value).length ≤ maximum)

/- The largest absolute value, 0 without elements. -/
def maxAbs : List PyFloat → ℚ
| [] => 0
| .finite value :: rest => max |value| (maxAbs rest)
| _ :: rest => maxAbs rest

section Writer

variable (host : Host)

def elements (tensor : Tensor) : List PyFloat :=
  (List.range tensor.shape.prod).map (host.element tensor)

/- The scale and the stored bytes. -/
def quantizePerTensor (tensor : Tensor) : Except PackError (ℚ × List UInt8) :=
  let values := elements host tensor
  if values.all PyFloat.isFinite then
    let scale := max (host.ratio (maxAbs values)) (1 / 10 ^ 8)
    .ok (scale, values.map (host.quantised · scale))
  else .error .notFinite

def describeValue (name : String) (value : Value) (quantize : Bool) :
    Except PackError (RawMeta × Payload) :=
  match value with
  | .chunked source =>
    if quantize then .error .chunkedQuantize
    else
      .ok
        ({ name := name, nbytes := source.nbytes, storedShape := source.storedShape
           logicalShape := source.logicalShape, storedDtype := source.storedDtype
           logicalDtype := source.logicalDtype, compression := source.compression
           scale := source.scale, zeroPoint := source.zeroPoint },
          .chunked source.chunks)
  | .tensor tensor =>
    if quantize ∧ tensor.dtype ∈ ["float32", "float16", "bfloat16"] then do
      let (scale, bytes) ← quantizePerTensor host tensor
      .ok
        ({ name := name, nbytes := tensor.shape.prod, storedShape := tensor.shape.map Int.ofNat
           logicalShape := tensor.shape.map Int.ofNat, storedDtype := "int8"
           logicalDtype := tensor.dtype, compression := .int8Affine, scale := some (.finite scale)
           zeroPoint := some 0 },
          .tensor tensor.shape bytes)
    else
      .ok
        ({ name := name, nbytes := tensor.shape.prod * tensor.elementSize
           storedShape := tensor.shape.map Int.ofNat, logicalShape := tensor.shape.map Int.ofNat
           storedDtype := tensor.dtype, logicalDtype := tensor.dtype, compression := .none
           scale := none, zeroPoint := none },
          .tensor tensor.shape tensor.bytes)
  | .dict data shape dtype =>
    let data := data.getD []
    let shape := shape.getD []
    let dtype := dtype.getD "uint8"
    .ok
      ({ name := name, nbytes := data.length, storedShape := shape, logicalShape := shape
         storedDtype := dtype, logicalDtype := dtype, compression := .none, scale := none
         zeroPoint := none },
        .data data)

----
-- Metadata
----

def validShape (shape : List Int) : Bool :=
  decide (shape.length ≤ maxTensorRank ∧ ∀ dim ∈ shape, 0 ≤ dim)

/- Metadata that passed `_validate_tensor_meta`. -/
structure Meta extends RawMeta where
  named : isBoundedUtf8 name maxTensorNameBytes = true
  sized : 0 ≤ nbytes ∧ nbytes ≤ maxTensorBytes
  stored : validShape storedShape = true
  logical : validShape logicalShape = true
  storedName : isBoundedUtf8 storedDtype maxDtypeBytes = true
  logicalName : isBoundedUtf8 logicalDtype maxDtypeBytes = true

/- The bytes of the tensor's block. -/
def Meta.size (info : Meta) : Nat :=
  info.nbytes.toNat

def validateTensorMeta (raw : RawMeta) : Except PackError Meta :=
  if hNamed : isBoundedUtf8 raw.name maxTensorNameBytes = true
  then
    if hSized : 0 ≤ raw.nbytes ∧ raw.nbytes ≤ maxTensorBytes
    then
      if hStored : validShape raw.storedShape = true then
        if hLogical : validShape raw.logicalShape = true then
          if hStoredName : isBoundedUtf8 raw.storedDtype maxDtypeBytes = true then
            if hLogicalName : isBoundedUtf8 raw.logicalDtype maxDtypeBytes = true then
              .ok { raw with
                named := hNamed, sized := hSized, stored := hStored, logical := hLogical
                storedName := hStoredName, logicalName := hLogicalName }
            else .error (.invalidDtype raw.name "logical")
          else .error (.invalidDtype raw.name "stored")
        else .error (.invalidShape raw.name "logical")
      else .error (.invalidShape raw.name "stored")
    else .error (.invalidNbytes raw.name raw.nbytes)
  else .error (.longName raw.name)

/- Python's `!=` between optional floats. -/
def scalesDiffer : Option PyFloat → Option PyFloat → Bool
| none, none => false
| some first, some second => !first.equals second
| _, _ => true

/- The fields in which two descriptions differ. -/
def changedFields (expected actual : RawMeta) : List String :=
  [("nbytes", decide (expected.nbytes ≠ actual.nbytes)), ("stored_shape",
      decide (expected.storedShape ≠ actual.storedShape)),
    ("logical_shape", decide (expected.logicalShape ≠ actual.logicalShape)),
    ("stored_dtype", decide (expected.storedDtype ≠ actual.storedDtype)),
    ("logical_dtype", decide (expected.logicalDtype ≠ actual.logicalDtype)),
    ("compression", decide (expected.compression ≠ actual.compression)),
    ("scale", scalesDiffer expected.scale actual.scale),
    ("zero_point", decide (expected.zeroPoint ≠ actual.zeroPoint)) ].filterMap (fun field =>
    if field.2 then some field.1 else none)

def assertSameLayout (expected actual : RawMeta) : Except PackError Unit :=
  if changedFields expected actual = [] then .ok ()
  else
    .error (.changedMetadata expected.name (changedFields expected actual))

def validateAlignment (alignment : Int) : Except PackError Nat :=
  if alignment < 1 ∨ alignment.toNat &&& (alignment.toNat - 1) ≠ 0 then
    .error (.alignment alignment)
  else .ok alignment.toNat

/- One turn of the first pass; the names seen are known. -/
def describeNext (quantize : Bool) (metas : List (Meta × Loader)) (named : String × Loader) :
    Except PackError (List (Meta × Loader)) :=
  if named.1 = "" then .error .emptyName
  else if named.1 ∈ metas.map (fun entry => entry.1.name) then
    .error (.duplicateName named.1)
  else do
    let value ← named.2.first.mapError .loader
    let (raw, _) ← describeValue host named.1 value quantize
    let info ← validateTensorMeta raw
    if maxTensorCount < metas.length + 1 then
      throw .tooManyTensors
    else return metas ++ [(info, named.2)]

/- The first pass. -/
def describeAll (quantize : Bool) (namedLoaders : List (String × Loader)) :
    Except PackError (List (Meta × Loader)) :=
  namedLoaders.foldlM (describeNext host quantize) []

----
-- The Manifest
----

structure TensorBlock where
  logicalId : String
  offset : Nat
  nbytes : Nat
  storedShape : List Int
  logicalShape : List Int
  storedDtype : String
  logicalDtype : String
  layout : TensorLayout := .contiguous
  compression : CompressionKind := .none
  alignment : Nat := 64
  shard : Option String := none
  checksum : String := ""
  checksumCrc32 : Option UInt32 := none
  scale : Option PyFloat := none
  zeroPoint : Option Int := none

def blockEntry (block : TensorBlock) : Json PyFloat :=
  .object ([("logical_id", .str block.logicalId), ("offset", .int block.offset),
    ("nbytes", .int block.nbytes), ("stored_shape", .ints block.storedShape),
    ("logical_shape", .ints block.logicalShape), ("stored_dtype", .str block.storedDtype),
    ("logical_dtype", .str block.logicalDtype), ("layout", .str block.layout.value),
    ("compression", .str block.compression.value), ("alignment", .int block.alignment),
    ("shard", (block.shard.map .str).getD .null), ("checksum", .str block.checksum)] ++
    (block.checksumCrc32.map (fun crc => ("checksum_crc32", Json.int crc.toNat))).toList ++
    (block.scale.map (fun scale => ("scale", Json.float scale))).toList ++
    (block.zeroPoint.map (fun zero => ("zero_point", Json.int zero))).toList)

def manifest (blocks : List TensorBlock) : Json PyFloat :=
  .object [("version", .int packVersion), ("tensor_count", .int blocks.length),
    ("tensors", .list (blocks.map blockEntry))]

def manifestBytes (blocks : List TensorBlock) : List UInt8 :=
  Spill.utf8 (Json.dumps host.floatText (manifest blocks))

----
-- Layout
----

/- `"0" * 16`. -/
def zeroChecksum : String :=
  String.ofList (List.replicate 16 '0')

/- The block of a tensor, before its checksums are known. -/
def Meta.block (info : Meta) (alignment offset : Nat) : TensorBlock :=
  { logicalId := info.name, offset := offset, nbytes := info.size, storedShape := info.storedShape
    logicalShape := info.logicalShape, storedDtype := info.storedDtype
    logicalDtype := info.logicalDtype, compression := info.compression, alignment := alignment
    checksum := zeroChecksum, scale := info.scale, zeroPoint := info.zeroPoint }

/- The blocks one after the other from an offset on. -/
def place (alignment : Nat) : List Meta → Nat → List TensorBlock
| [], _ => []
| info :: metas, offset =>
  let start := Files.alignUp offset alignment
  info.block alignment start :: place alignment metas (start + info.size)

/- The header for the blocks: magic, lengths, manifest. -/
def needed (blocks : List TensorBlock) : Nat :=
  magic.length + 8 + (manifestBytes host blocks).length

def initialReserve (tensors : Nat) : Nat :=
  max 4096 (512 * (tensors + 1))

/- The rounds of the layout loop. -/
def layOut (metas : List Meta) (alignment : Nat) :
    Nat → Nat → Except PackError (Nat × List TensorBlock)
| 0, _ => .error (.noLayout metas.length)
| rounds + 1, reserve =>
  let blocks := place alignment metas reserve
  let size := (manifestBytes host blocks).length
  if maxManifestBytes < size then
    .error (.manifestTooLarge size)
  else if needed host blocks ≤ reserve then
    .ok (reserve, blocks)
  else
    layOut metas alignment rounds (Files.alignUp
      (needed host blocks + needed host blocks / 8 + 1024) alignment)

----
-- Writing Payloads
----

/- An open file and its position. -/
structure Handle where
  file : List UInt8
  pos : Nat

/- Offsets are signed 64-bit numbers. -/
def Handle.seek (handle : Handle) (offset : Nat) : Except PackError Handle :=
  if 2 ^ 63 ≤ offset then .error .seekOverflow
  else .ok { handle with pos := offset }

def Handle.write (handle : Handle) (piece : List UInt8) : Handle :=
  { file := Files.write 0 handle.file handle.pos piece, pos := handle.pos + piece.length }

/- The file, what was hashed, the checksum and the count. -/
structure Writing where
  handle : Handle
  hashed : List UInt8
  crc : UInt32
  written : Nat

def Writing.piece (writing : Writing) (piece : List UInt8) : Writing :=
  { handle := writing.handle.write piece, hashed := writing.hashed ++ piece
    crc := Checksum.zlibCrc32 piece writing.crc, written := writing.written + piece.length }

/- An empty chunk is skipped. -/
def Writing.chunk (writing : Writing) (piece : List UInt8) : Writing :=
  if piece = [] then writing else writing.piece piece

/- The turns of `_write_memoryview_chunks`; a turn takes at
   least one byte, so `data.length` turns are enough. -/
def writeMemoryviewChunks (chunk : Nat) : Nat → List UInt8 → Writing → Writing
| 0, _, writing => writing
| turns + 1, data, writing =>
  if data = [] then writing
  else
    writeMemoryviewChunks chunk turns (data.drop chunk) (writing.piece (data.take chunk))

/- `memoryview(..).cast("B")`: a view whose shape has a zero
   is refused unless it has one dimension. -/
def castsToBytes (shape : List Nat) : Bool :=
  decide (shape.length = 1 ∨ 0 ∉ shape)

def chunkBytes : Nat := 2 ^ 20

def hexDigit (nibble : Fin 16) : Char :=
  Nat.digitChar nibble

/- `hasher.hexdigest()[:16]`. -/
def hexdigest (hashed : List UInt8) : String :=
  String.ofList (((List.ofFn (host.digest hashed)).map hexDigit).take 16)

/- The loops over the payload. -/
def writePayload (payload : Payload) (writing : Writing) : Except PackError Writing :=
  match payload with
  | .chunked chunks => .ok (chunks.foldl Writing.chunk writing)
  | .tensor shape bytes =>
    if castsToBytes shape then
      .ok (writeMemoryviewChunks chunkBytes bytes.length bytes writing)
    else .error .castWithZeros
  | .data bytes => .ok (writeMemoryviewChunks chunkBytes bytes.length bytes writing)

def writePayloadChunked (handle : Handle) (payload : Payload) (offset expectedNbytes : Nat) :
    Except PackError (Handle × String × UInt32) := do
  let handle ← handle.seek offset
  let writing ← writePayload payload
    { handle := handle, hashed := [], crc := 0, written := 0 }
  if writing.written ≠ expectedNbytes then
    throw (.sizeMismatch expectedNbytes writing.written)
  else
    return (writing.handle, hexdigest host writing.hashed, writing.crc)

/- The block with the checksums of its payload. -/
def TensorBlock.checked (block : TensorBlock) (checksum : String) (crc : UInt32) : TensorBlock :=
  { block with checksum := checksum, checksumCrc32 := some crc }

/- The second pass. -/
def writeBlocks (quantize : Bool) :
    List (TensorBlock × Meta × Loader) → Handle → Except PackError (Handle × List TensorBlock)
| [], handle => .ok (handle, [])
| (block, info, loader) :: rest, handle => do
    let value ← loader.second.mapError .loader
    let (again, payload) ←
      describeValue host info.name value quantize
    assertSameLayout info.toRawMeta again
    let (handle, checksum, crc) ← writePayloadChunked host
      handle payload block.offset block.nbytes
    let (handle, blocks) ← writeBlocks quantize rest handle
    return (handle, block.checked checksum crc :: blocks)

----
-- The Writer
----

structure ModelPack where
  tensors : List TensorBlock
  headerBytes : Nat
  quantize : Bool

/- `MAGIC`, `struct.pack("<II", ..)` and the manifest. -/
def header (blocks : List TensorBlock) : List UInt8 :=
  magic ++ (Bytes.toLe 4 packVersion ++ (Bytes.toLe 4 (manifestBytes host blocks).length ++
    manifestBytes host blocks))

/- The header is written last, over its reserve. -/
def finish (quantize : Bool) (reserve : Nat) (handle : Handle) (blocks : List TensorBlock) :
    Except PackError (ModelPack × List UInt8) :=
  if reserve < (header host blocks).length then
    .error (.exceedsReserve (header host blocks).length reserve)
  else do
    let handle ← handle.seek 0
    .ok
      ({ tensors := blocks, headerBytes := reserve, quantize := quantize },
        (handle.write (header host blocks)).file)

/- The pack and the bytes of its file. -/
def packTensors (namedLoaders : List (String × Loader)) (alignment : Int) (quantize : Bool) :
    Except PackError (ModelPack × List UInt8) := do
  let alignment ← validateAlignment alignment
  let metas ← describeAll host quantize namedLoaders
  let (reserve, blocks) ← layOut host (metas.map Prod.fst)
    alignment 8 (initialReserve metas.length)
  let (handle, blocks) ← writeBlocks host quantize
    (blocks.zip metas)
    { file := List.replicate reserve 0, pos := reserve }
  finish host quantize reserve handle blocks

end Writer

end TensorTorrent.Pack
