import TensorTorrent.Storage.PackFile
import TensorTorrent.Storage.PackManifest
import Mathlib.Order.CompletePartialOrder

/-
  What the manifest check and the native reader make of the
  manifest of a list of blocks.

  Main declarations:
    * `opened_pack_reads_its_range`
-/

namespace TensorTorrent.Pack

open Spans Bytes Fallible List

----
-- One Block in the Manifest Check
----

@[simp] theorem expect_some_eq_ok_iff {α : Type} (found result : α) (err : ManifestError) :
    expect (some found) err = .ok result ↔ found = result := by
  simp [expect]

theorem nonempty_of_bounded {text : String} {maximum : Nat}
    (hBounded : isBoundedUtf8 text maximum = true) :
    text ≠ "" ∧ (Spill.utf8 text).length ≤ maximum := by
  rw [isBoundedUtf8, decide_eq_true_eq] at hBounded
  exact hBounded

theorem checkLogicalId_blockEntry_iff (seen : List String) (block : TensorBlock) (result : String) :
    checkLogicalId seen (blockEntry block) = .ok result ↔
      isBoundedUtf8 block.logicalId maxTensorNameBytes = true ∧ block.logicalId ∉ seen ∧
        result = block.logicalId := by
  have hGet : (blockEntry block).get "logical_id" = some (.str block.logicalId) := rfl
  simp only [checkLogicalId, hGet, Option.bind_some, Json.asStr, bind_eq_ok_iff,
    expect_some_eq_ok_iff, ensure_eq_ok_iff, pure_eq_ok_iff]
  constructor
  · rintro ⟨logicalId, rfl, -, -, -, hBounded, -, hFresh, rfl⟩
    exact ⟨hBounded, hFresh, rfl⟩
  · rintro ⟨hBounded, hFresh, rfl⟩
    have hName := (nonempty_of_bounded hBounded).1
    exact ⟨_, rfl, (), hName, (), hBounded, (), hFresh, rfl⟩

theorem requireManifestInt_int_iff (value result : Int) (field : String) :
    requireManifestInt (.int value) field = .ok result ↔ value = result :=
  expect_some_eq_ok_iff value result (.notAnInteger field)

/- A block that lies behind the header and inside the file. -/
structure Placed (fileSize headerBytes : Nat) (block : TensorBlock) : Prop where
  alignment : ∃ checked, validateAlignment block.alignment = .ok checked
  behind : headerBytes ≤ block.offset
  aligned : block.alignment ∣ block.offset
  bounded : block.nbytes ≤ maxTensorBytes
  inside : block.offset + block.nbytes ≤ fileSize

theorem checkRange_blockEntry_iff (fileSize headerBytes : Nat) (logicalId : String)
    (block : TensorBlock) (result : Int × Int) :
    checkRange fileSize headerBytes logicalId (blockEntry block) = .ok result ↔
      Placed fileSize headerBytes block ∧ result = ((block.offset : Int),
        (block.nbytes : Int)) := by
  have hOffset : (blockEntry block).get "offset" = some (.int block.offset) := rfl
  have hNbytes : (blockEntry block).get "nbytes" = some (.int block.nbytes) := rfl
  have hAlignment : getOr (blockEntry block) "alignment" (.int 1) = .int block.alignment := rfl
  have hMultiple : (block.offset : Int) % block.alignment = 0 ↔ block.alignment ∣ block.offset := by
    rw [← Int.dvd_iff_emod_eq_zero]
    exact Int.natCast_dvd_natCast
  simp only [checkRange, hOffset, hNbytes, hAlignment,
    bind_eq_ok_iff, expect_some_eq_ok_iff, exists_eq_left', requireManifestInt_int_iff,
    ensure_eq_ok_iff, pure_eq_ok_iff, mapError_eq_ok_iff]
  constructor
  · rintro ⟨checked, hChecked, -, hBehind, -, hAligned, -, hInside, rfl⟩
    refine ⟨⟨⟨checked, hChecked⟩, ?_, hMultiple.mp hAligned, ?_, ?_⟩, rfl⟩
    · exact_mod_cast hBehind
    · exact_mod_cast hInside.2.1
    · omega
  · rintro ⟨hPlaced, rfl⟩
    obtain ⟨checked, hChecked⟩ := hPlaced.alignment
    have hBehind := hPlaced.behind
    have hBounded := hPlaced.bounded
    have hInside := hPlaced.inside
    refine ⟨checked, hChecked, (), ?_, (), hMultiple.mpr hPlaced.aligned, (), ⟨?_, ?_, ?_, ?_⟩, rfl⟩
    · exact_mod_cast hBehind
    · omega
    · exact_mod_cast hBounded
    · omega
    · omega

theorem checkShape_ints_iff (dims : List Int) (noList badDims : ManifestError) (result : List Int) :
    checkShape (.ints dims) noList badDims = .ok result ↔
      validShape dims = true ∧ result = dims := by
  have hList : (Json.ints dims : Json PyFloat).asList = some (dims.map Json.int) := rfl
  simp only [checkShape, hList, Json.asInts_ints, bind_eq_ok_iff, expect_some_eq_ok_iff,
    ensure_eq_ok_iff, pure_eq_ok_iff, validShape, decide_eq_true_eq]
  constructor
  · rintro ⟨_, rfl, -, hRank, _, rfl, -, hDims, rfl⟩
    rw [length_map] at hRank
    exact ⟨⟨hRank, hDims⟩, rfl⟩
  · rintro ⟨⟨hRank, hDims⟩, rfl⟩
    refine ⟨_, rfl, (), ?_, _, rfl, (), hDims, rfl⟩
    rw [length_map]
    exact hRank

theorem checkDtype_str_iff (dtype : String) (err : ManifestError) (result : String) :
    checkDtype (.str dtype) err = .ok result ↔
      isBoundedUtf8 dtype maxDtypeBytes = true ∧ result = dtype := by
  simp only [checkDtype, Json.asStr, bind_eq_ok_iff,
    expect_some_eq_ok_iff, ensure_eq_ok_iff, pure_eq_ok_iff]
  constructor
  · rintro ⟨_, rfl, -, hBounded, rfl⟩
    exact ⟨hBounded, rfl⟩
  · rintro ⟨hBounded, rfl⟩
    exact ⟨_, rfl, (), hBounded, rfl⟩

theorem coerceCompression_value (kind : CompressionKind) :
    coerceCompression (.str kind.value) = some kind := by
  cases kind with
  | none => rfl
  | int8Affine => rfl

theorem coerceLayout_value (layout : TensorLayout) :
    coerceLayout (.str layout.value) = some layout := by
  cases layout with
  | contiguous => rfl
  | strided => rfl

/- The fields that not every block has. -/
theorem getOr_optional (block : TensorBlock) :
    getOr (blockEntry block) "checksum_crc32" .null = (block.checksumCrc32.map (fun crc =>
        Json.int crc.toNat)).getD .null ∧
      getOr (blockEntry block) "scale" .null = (block.scale.map Json.float).getD .null ∧
      getOr (blockEntry block) "zero_point" .null = (block.zeroPoint.map Json.int).getD .null := by
  simp [getOr, blockEntry, Json.get, lookup_cons, lookup_append, Json.lookup_optional]

/-
  Metadata that describes its bytes: sizes that agree, no
  second description of an uncompressed block, and a usable
  scale for a compressed one.
-/
structure Coherent (raw : RawMeta) : Prop where
  sized : ∀ size ∈ dtypeSizes.lookup raw.storedDtype,
    raw.storedShape.prod * (size : Int) = raw.nbytes
  scale : ∀ scale ∈ raw.scale, scale.isFinite = true ∧ scale.nonPositive = false
  zeroPoint : ∀ zero ∈ raw.zeroPoint, -128 ≤ zero ∧ zero ≤ 127
  plain : raw.compression = .none → raw.logicalShape = raw.storedShape ∧
    raw.logicalDtype = raw.storedDtype
  affine : raw.compression = .int8Affine → raw.storedDtype = "int8" ∧ raw.scale.isSome = true ∧
    (dtypeSizes.lookup raw.logicalDtype).isSome = true

/- The metadata of a block. -/
def TensorBlock.raw (block : TensorBlock) : RawMeta :=
  { name := block.logicalId, nbytes := block.nbytes, storedShape := block.storedShape
    logicalShape := block.logicalShape, storedDtype := block.storedDtype
    logicalDtype := block.logicalDtype, compression := block.compression, scale := block.scale
    zeroPoint := block.zeroPoint }

/- Shapes and names within their limits. -/
structure Limited (block : TensorBlock) : Prop where
  stored : validShape block.storedShape = true
  logical : validShape block.logicalShape = true
  storedName : isBoundedUtf8 block.storedDtype maxDtypeBytes = true
  logicalName : isBoundedUtf8 block.logicalDtype maxDtypeBytes = true

theorem validScale_iff (scale : Option PyFloat) :
    validScale ((scale.map Json.float).getD .null) = true ↔ ∀ value ∈ scale,
      value.isFinite = true ∧ value.nonPositive = false := by
  cases scale with
  | none => simp [validScale]
  | some value => simp [validScale]

theorem validZeroPoint_iff (zero : Option Int) :
    validZeroPoint ((zero.map Json.int).getD .null) = true ↔
      ∀ value ∈ zero, -128 ≤ value ∧ value ≤ 127 := by
  cases zero with
  | none => simp [validZeroPoint]
  | some value => simp [validZeroPoint]

theorem scale_given_iff (scale : Option PyFloat) :
    ((((scale.map Json.float).getD .null : Json PyFloat) matches .null) = false) ↔
      scale.isSome = true := by
  cases scale with
  | none => simp
  | some value => simp

theorem checkMetadata_blockEntry_iff (logicalId : String) (block : TensorBlock) :
    checkMetadata logicalId block.nbytes (blockEntry block) = .ok () ↔
      Limited block ∧ Coherent block.raw := by
  have hStored : getOr (blockEntry block) "stored_shape" .null = .ints block.storedShape := rfl
  have hDtype : getOr (blockEntry block) "stored_dtype" .null = .str block.storedDtype := rfl
  have hLogical : ∀ fallback, getOr (blockEntry block) "logical_shape" fallback =
      .ints block.logicalShape :=
    fun _ => rfl
  have hLogicalDtype : ∀ fallback, getOr (blockEntry block) "logical_dtype" fallback =
      .str block.logicalDtype :=
    fun _ => rfl
  have hCompression : coerceCompression (getOr (blockEntry block) "compression"
        (.str CompressionKind.none.value)) =
      some block.compression :=
    coerceCompression_value block.compression
  obtain ⟨-, hScale, hZero⟩ := getOr_optional block
  simp only [checkMetadata, hStored, hDtype, hLogical, hLogicalDtype, hCompression, hScale, hZero,
    bind_eq_ok_iff, checkShape_ints_iff, checkDtype_str_iff, expect_some_eq_ok_iff,
    exists_eq_left', validScale_iff, validZeroPoint_iff, ensure_eq_ok_iff]
  constructor
  · rintro ⟨_, ⟨hShape, rfl⟩, _, ⟨hName, rfl⟩, -, hSized, _,
      ⟨hLogicalShape, rfl⟩, _, ⟨hLogicalName, rfl⟩, -,
      hScales, -, hZeros, hKind⟩
    refine ⟨⟨hShape, hLogicalShape, hName, hLogicalName⟩, hSized, hScales, hZeros, ?_, ?_⟩
    · intro hNone
      change block.compression = .none at hNone
      rw [hNone] at hKind
      exact (ensure_eq_ok_iff _ _ _).mp hKind
    · intro hAffine
      change block.compression = .int8Affine at hAffine
      rw [hAffine] at hKind
      obtain ⟨hInt8, hGiven, hKnown⟩ := (ensure_eq_ok_iff _ _ _).mp hKind
      exact ⟨hInt8, (scale_given_iff _).mp hGiven, hKnown⟩
  · rintro ⟨hLimited, hCoherent⟩
    refine ⟨_, ⟨hLimited.stored, rfl⟩, _, ⟨hLimited.storedName, rfl⟩, (), hCoherent.sized, _,
      ⟨hLimited.logical, rfl⟩, _, ⟨hLimited.logicalName, rfl⟩,
      (), hCoherent.scale, (), hCoherent.zeroPoint, ?_⟩
    split
    · next hNone => exact (ensure_eq_ok_iff _ _ _).mpr (hCoherent.plain hNone)
    · next hAffine =>
      obtain ⟨hInt8, hGiven, hKnown⟩ := hCoherent.affine hAffine
      exact (ensure_eq_ok_iff _ _ _).mpr ⟨hInt8, (scale_given_iff _).mpr hGiven, hKnown⟩

/- The range of a block. -/
def TensorBlock.span (block : TensorBlock) : Span :=
  { start := block.offset, stop := block.offset + block.nbytes, name := block.logicalId }

/- What one entry of the manifest is checked for. -/
structure EntryOk (fileSize headerBytes : Nat) (block : TensorBlock) : Prop where
  named : isBoundedUtf8 block.logicalId maxTensorNameBytes = true
  placed : Placed fileSize headerBytes block
  limited : Limited block
  coherent : Coherent block.raw
  checksum : validChecksum (.str block.checksum) = true

theorem validCrc32_block (block : TensorBlock) :
    validCrc32 (getOr (blockEntry block) "checksum_crc32" .null) = true := by
  rw [(getOr_optional block).1]
  cases block.checksumCrc32 with
  | none => rfl
  | some crc =>
    have hLt := crc.toNat_lt
    simp only [Option.map_some, Option.getD_some, validCrc32, decide_eq_true_eq]
    omega

theorem checkEntry_blockEntry_iff (fileSize headerBytes : Nat) (seen : List String)
    (block : TensorBlock) (result : Span) :
    checkEntry fileSize headerBytes seen (blockEntry block) = .ok result ↔
      EntryOk fileSize headerBytes block ∧ block.logicalId ∉ seen ∧ result = block.span := by
  have hLayout : coerceLayout (getOr (blockEntry block) "layout"
        (.str TensorLayout.contiguous.value)) =
      some block.layout :=
    coerceLayout_value block.layout
  have hChecksum : getOr (blockEntry block) "checksum" (.str "") = .str block.checksum := rfl
  have hCrc := validCrc32_block block
  simp only [checkEntry, hLayout, hChecksum, hCrc, bind_eq_ok_iff, ensure_eq_ok_iff,
    checkLogicalId_blockEntry_iff, checkRange_blockEntry_iff,
    expect_some_eq_ok_iff, exists_eq_left', true_and, pure_eq_ok_iff]
  constructor
  · rintro ⟨-, -, _, ⟨hNamed, hFresh, rfl⟩, _, ⟨hPlaced, rfl⟩, _, hMetadata, -, hHex, -, rfl⟩
    obtain ⟨hLimited, hCoherent⟩ := (checkMetadata_blockEntry_iff _ _).mp hMetadata
    refine ⟨⟨hNamed, hPlaced, hLimited, hCoherent, hHex⟩, hFresh, ?_⟩
    simp only [TensorBlock.span, Int.toNat_natCast, Span.mk.injEq, true_and, and_true]
    omega
  · rintro ⟨hOk, hFresh, rfl⟩
    refine ⟨(), rfl, _, ⟨hOk.named, hFresh, rfl⟩, _, ⟨hOk.placed, rfl⟩, (),
      (checkMetadata_blockEntry_iff _ _).mpr ⟨hOk.limited, hOk.coherent⟩, (), hOk.checksum, (), ?_⟩
    simp only [TensorBlock.span, Int.toNat_natCast, Span.mk.injEq, true_and, and_true]
    omega

----
-- The Whole Manifest
----

theorem sweep_spanLe_iff (spans : List Span) :
    sweep (spans.mergeSort spanLe) none = .ok () ↔ spans.Pairwise Apart := by
  apply sweep_sorted_iff
  · intro first second
    have hNames := le_total first.name second.name
    simp only [spanLe, Bool.or_eq_true, decide_eq_true_eq]
    grind
  · intro first second third hFirst hSecond
    simp only [spanLe, decide_eq_true_eq] at *
    have hNames : first.name ≤ second.name → second.name ≤ third.name → first.name ≤ third.name :=
      le_trans
    grind
  · intro first second hLe
    simp only [spanLe, decide_eq_true_eq] at hLe
    omega

theorem name_span (blocks : List TensorBlock) :
    (blocks.map TensorBlock.span).map Span.name = blocks.map TensorBlock.logicalId := by
  rw [map_map]
  rfl

theorem checkEntries_iff (fileSize headerBytes : Nat) (blocks : List TensorBlock)
    (result : List Span) : checkEntries fileSize headerBytes (blocks.map blockEntry) = .ok result ↔
      (∀ block ∈ blocks, EntryOk fileSize headerBytes block) ∧
        (blocks.map TensorBlock.logicalId).Nodup ∧ result = blocks.map TensorBlock.span := by
  have hTurn : ∀ block ∈ blocks, ∀ seen result,
      checkEntry fileSize headerBytes seen (blockEntry block) = .ok result ↔
        EntryOk fileSize headerBytes block ∧ block.span.name ∉ seen ∧ result = block.span :=
    fun block _ seen result => checkEntry_blockEntry_iff fileSize headerBytes seen block result
  rw [checkEntries, foldlM_map, collect_iff hTurn [] result nodup_nil, nil_append, name_span]

theorem validatePackManifest_iff (fileSize headerBytes : Nat) (blocks : List TensorBlock) :
    validatePackManifest (manifest blocks) fileSize headerBytes = .ok () ↔
      blocks.length ≤ maxTensorCount ∧ (∀ block ∈ blocks, EntryOk fileSize headerBytes block) ∧
        (blocks.map TensorBlock.logicalId).Nodup ∧ (blocks.map TensorBlock.span).Pairwise
          Apart := by
  have hVersion : getOr (manifest blocks) "version" .null = .int packVersion := rfl
  have hTensors : (getOr (manifest blocks) "tensors" .null).asList = some (blocks.map blockEntry) :=
    rfl
  have hCount : getOr (manifest blocks) "tensor_count" .null = .int blocks.length := rfl
  simp only [validatePackManifest, hVersion, hTensors, hCount,
    bind_eq_ok_iff, requireManifestInt_int_iff, expect_some_eq_ok_iff, exists_eq_left',
    ensure_eq_ok_iff, length_map, checkEntries_iff, mapError_eq_ok_iff,
    sweep_spanLe_iff]
  constructor
  · rintro ⟨-, -, -, hCount, -, -, _, ⟨hEntries, hNames, rfl⟩, hApart⟩
    exact ⟨hCount, hEntries, hNames, hApart⟩
  · rintro ⟨hCount, hEntries, hNames, hApart⟩
    exact ⟨(), trivial, (), hCount, (), trivial, _, ⟨hEntries, hNames, rfl⟩, hApart⟩

----
-- Loading
----

variable (host : Host)

/- A file that starts with the header of these blocks. -/
structure Headed (blocks : List TensorBlock) (file : List UInt8) : Prop where
  found : ∀ start count, start + count ≤ (header host blocks).length → Files.read file start count =
    Files.read (header host blocks) start count
  inside : (header host blocks).length ≤ file.length

/- The part of the header that every reader reads first. -/
def fixedHeader (blocks : List TensorBlock) : List UInt8 :=
  magic ++ (toLe 4 packVersion ++ toLe 4 (manifestBytes host blocks).length)

theorem length_fixedHeader (blocks : List TensorBlock) : (fixedHeader host blocks).length = 16 := by
  simp [fixedHeader, magic]

theorem header_eq (blocks : List TensorBlock) :
    Files.read (header host blocks) 0 16 = fixedHeader host blocks ∧
      Files.read (header host blocks) 16 (manifestBytes host blocks).length =
        manifestBytes host blocks := by
  have hHeader : header host blocks = fixedHeader host blocks ++ manifestBytes host blocks := by
    simp only [header, fixedHeader, append_assoc]
  have hLength := length_fixedHeader host blocks
  rw [hHeader]
  constructor
  · rw [Files.read, drop_zero]
    exact take_left' hLength
  · rw [Files.read, drop_left' hLength, take_length]

variable {blocks : List TensorBlock} {file : List UInt8}

theorem loadPackManifest_iff (hHeaded : Headed host blocks file)
    (hShort : (manifestBytes host blocks).length < 2 ^ 32)
    (hLoads : host.loads (manifestBytes host blocks) = some (manifest blocks))
    (result : Json PyFloat) : loadPackManifest host file = .ok result ↔ result = manifest blocks ∧
      (manifestBytes host blocks).length ≤ maxManifestBytes ∧
      validatePackManifest (manifest blocks) file.length
        (16 + (manifestBytes host blocks).length : Nat) = .ok () := by
  have hNeeded := length_header host blocks
  have hMagic : magic.length = 8 := rfl
  rw [needed, hMagic] at hNeeded
  have hInside := hHeaded.inside
  have hHead := hHeaded.found 0 16 (by omega)
  have hRest := hHeaded.found 16 (manifestBytes host blocks).length (by omega)
  rw [(header_eq host blocks).1] at hHead
  rw [(header_eq host blocks).2] at hRest
  have hTake : (fixedHeader host blocks).take 8 = magic := take_left' hMagic
  have hVersion : ofLe (((fixedHeader host blocks).drop 8).take 4) = packVersion := by
    rw [fixedHeader, drop_left' hMagic, take_left' (length_toLe 4 packVersion),
      ofLe_toLe (by decide)]
  have hLen : ofLe (((fixedHeader host blocks).drop 12).take 4) =
      (manifestBytes host blocks).length := by
    rw [fixedHeader, ← append_assoc, drop_left' (by simp [magic]), take_of_length_le (by simp),
      ofLe_toLe hShort]
  have hTotal := length_fixedHeader host blocks
  simp only [loadPackManifest, preadAt, hHead, hTotal, hTake,
    hVersion, hLen, hRest, hLoads, bind_eq_ok_iff,
    ensure_eq_ok_iff, expect_some_eq_ok_iff, exists_eq_left', pure_eq_ok_iff]
  constructor
  · rintro ⟨-, -, -, -, -, -, -, hLimit, -, -, -, -, -, -, _, hValid, hResult⟩
    exact ⟨hResult.symm, hLimit, hValid⟩
  · rintro ⟨hResult, hLimit, hValid⟩
    exact ⟨(), trivial, (), trivial, (), trivial, (), hLimit,
      (), by omega, (), trivial, (), rfl, (), hValid,
      hResult.symm⟩

----
-- The Native Manifest
----

/- The block as the native reader sees it. -/
def TensorBlock.native (block : TensorBlock) : TensorEntry :=
  { name := block.logicalId, offset := UInt64.ofNat block.offset
    length := UInt64.ofNat block.nbytes, dtype := block.storedDtype
    shape := block.storedShape.map Int64.ofInt, checksumCrc32 := block.checksumCrc32 }

/- Sizes that are `i64` numbers. -/
def Representable (shape : List Int) : Prop :=
  ∀ dim ∈ shape, -2 ^ 63 ≤ dim ∧ dim < 2 ^ 63

/- What the names and the numbers of a block look like. -/
structure Native (block : TensorBlock) : Prop where
  named : isBoundedUtf8 block.logicalId maxTensorNameBytes = true
  storedName : isBoundedUtf8 block.storedDtype maxDtypeBytes = true
  offset : block.offset < 2 ^ 63
  nbytes : block.nbytes ≤ maxTensorBytes

theorem readI64_iff (dim : Int) (result : Int64) :
    readI64 dim = some result ↔ (-2 ^ 63 ≤ dim ∧ dim < 2 ^ 63) ∧ result = Int64.ofInt dim := by
  unfold readI64
  split
  · next hFits =>
    simp only [Option.some.injEq, hFits, and_self, true_and]
    exact eq_comm
  · next hLarge =>
    simp only [hLarge, false_and, iff_false]
    exact fun hSome => nomatch hSome

theorem guard_of {condition : Prop} [Decidable condition] (hHolds : condition) :
    (guard condition : Option Unit) = some () :=
  if_pos hHolds

theorem readU64_natCast {value : Nat} (hFits : value < 2 ^ 64) :
    readU64 value = some (UInt64.ofNat value) := by
  rw [readU64, if_pos (by omega), Int.toNat_natCast]

theorem checksumField_block (block : TensorBlock) :
    checksumField (getOr (blockEntry block) "checksum_crc32" .null) =
      some (block.checksumCrc32.map (fun crc => (crc.toNat : Int))) := by
  rw [(getOr_optional block).1]
  cases block.checksumCrc32 with
  | none => rfl
  | some crc =>
    have hLt := crc.toNat_lt
    simp only [Option.map_some, Option.getD_some, checksumField]
    rw [if_pos (by omega)]

theorem readOptionU32_toNat (checksum : Option UInt32) : readOptionU32 (checksum.map (fun crc =>
      (crc.toNat : Int))) =
    some checksum := by
  cases checksum with
  | none => rfl
  | some crc =>
    have hLt := crc.toNat_lt
    have hRead : readU32 (crc.toNat : Int) = some crc := by
      rw [readU32, if_pos (by omega), Int.toNat_natCast, UInt32.ofNat_toNat]
    rw [Option.map_some, readOptionU32, hRead, Option.map_some]

/- The fields of a block. -/
def TensorBlock.fields (block : TensorBlock) : NativeFields :=
  { name := block.logicalId, offset := block.offset, length := block.nbytes
    dtype := block.storedDtype, shape := block.storedShape
    checksumCrc32 := block.checksumCrc32.map (fun crc => (crc.toNat : Int)) }

variable {block : TensorBlock}

theorem scpackEntry_blockEntry (hNative : Native block) :
    scpackEntry (blockEntry block) = some block.fields := by
  have hName : getEither (blockEntry block) "logical_id" "name" = some (.str block.logicalId) := rfl
  have hOffset : (blockEntry block).get "offset" = some (.int block.offset) := rfl
  have hLength : getEither (blockEntry block) "nbytes" "length" = some (.int block.nbytes) := rfl
  have hDtype : getEither (blockEntry block) "stored_dtype"
      "dtype" = some (.str block.storedDtype) :=
    rfl
  have hShape : getEither (blockEntry block) "stored_shape"
      "shape" = some (.ints block.storedShape) :=
    rfl
  have hChecksum := checksumField_block block
  have hNameGuard := guard_of (nonempty_of_bounded hNative.named).1
  have hDtypeGuard := guard_of (nonempty_of_bounded hNative.storedName).1
  simp only [scpackEntry, hName, hOffset, hLength, hDtype,
    hShape, hChecksum, Option.bind_eq_bind, Option.bind_some,
    Json.asStr, Json.asInt, Json.asInts_ints, hNameGuard, hDtypeGuard]
  rfl

theorem read_fields_iff (hNative : Native block) (result : TensorEntry) :
    TensorEntry.read block.fields = some result ↔
      Representable block.storedShape ∧ result = block.native := by
  have hNbytes := hNative.nbytes
  have hBound := hNative.offset
  simp only [maxTensorBytes] at hNbytes
  have hOffset := readU64_natCast (show block.offset < 2 ^ 64 by omega)
  have hLength := readU64_natCast (show block.nbytes < 2 ^ 64 by omega)
  have hDims : ∀ dims : List Int64, block.storedShape.mapM readI64 = some dims ↔
      Representable block.storedShape ∧ dims = block.storedShape.map Int64.ofInt :=
    mapM_eq_some_iff (fun dim _ result => readI64_iff dim result)
  have hCrc := readOptionU32_toNat block.checksumCrc32
  unfold TensorEntry.read
  constructor
  · intro hRead
    obtain ⟨offset, hReadOffset, hRead⟩ := Option.bind_eq_some_iff.mp hRead
    obtain ⟨length, hReadLength, hRead⟩ := Option.bind_eq_some_iff.mp hRead
    obtain ⟨dims, hReadDims, hRead⟩ := Option.bind_eq_some_iff.mp hRead
    obtain ⟨crc, hReadCrc, hRead⟩ := Option.bind_eq_some_iff.mp hRead
    have hSameOffset := hOffset.symm.trans hReadOffset
    have hSameLength := hLength.symm.trans hReadLength
    have hSameCrc := hCrc.symm.trans hReadCrc
    obtain ⟨hShape, hSameDims⟩ := (hDims dims).mp hReadDims
    refine ⟨hShape, ?_⟩
    rw [← Option.some.inj hRead, ← Option.some.inj hSameOffset, ← Option.some.inj hSameLength,
      ← Option.some.inj hSameCrc, hSameDims]
    rfl
  · intro ⟨hShape, hResult⟩
    refine Option.bind_eq_some_iff.mpr ⟨_, hOffset, ?_⟩
    refine Option.bind_eq_some_iff.mpr ⟨_, hLength, ?_⟩
    refine Option.bind_eq_some_iff.mpr ⟨_, (hDims _).mpr ⟨hShape, rfl⟩, ?_⟩
    refine Option.bind_eq_some_iff.mpr ⟨_, hCrc, ?_⟩
    rw [hResult]
    rfl

/- The manifest of the native reader. -/
def nativeOf (blocks : List TensorBlock) : PackManifest :=
  { version := packFormatVersion, tensors := blocks.map TensorBlock.native }

/- The native reader of a file with these blocks. -/
abbrev readerOf (blocks : List TensorBlock) (file : List UInt8) : PackReader :=
  { file := file, fileSize := file.length, manifest := nativeOf blocks }

theorem nativeManifest_iff (hNative : ∀ block ∈ blocks, Native block) (result : PackManifest) :
    nativeManifest (manifest blocks) = some result ↔
      (∀ block ∈ blocks, Representable block.storedShape) ∧ result = nativeOf blocks := by
  have hRead : nativeManifest (manifest blocks) =
      ((blocks.map blockEntry).mapM nativeEntry).bind (fun tensors =>
        some { version := packFormatVersion, tensors := tensors }) :=
    rfl
  have hEntry : ∀ block ∈ blocks, ∀ result, nativeEntry (blockEntry block) = some result ↔
      Representable block.storedShape ∧ result = block.native := by
    intro block hBlock result
    rw [nativeEntry, scpackEntry_blockEntry (hNative block hBlock), Option.bind_some]
    exact read_fields_iff (hNative block hBlock) result
  rw [hRead, mapM_map, Option.bind_eq_some_iff]
  constructor
  · intro ⟨tensors, hTensors, hResult⟩
    obtain ⟨hShapes, hMapped⟩ := (mapM_eq_some_iff hEntry tensors).mp hTensors
    refine ⟨hShapes, ?_⟩
    rw [← Option.some.inj hResult, hMapped, nativeOf]
  · intro ⟨hShapes, hResult⟩
    refine ⟨blocks.map TensorBlock.native, ?_, ?_⟩
    · exact (mapM_eq_some_iff hEntry _).mpr ⟨hShapes, rfl⟩
    · rw [hResult, nativeOf]

----
-- The Native Reader
----

theorem native_numbers (hNative : Native block) :
    block.native.offset.toNat = block.offset ∧ block.native.length.toNat = block.nbytes ∧
      checkedAdd block.offset block.nbytes = some (block.offset + block.nbytes) := by
  have hNbytes := hNative.nbytes
  have hOffset := hNative.offset
  simp only [maxTensorBytes] at hNbytes
  have hSize : UInt64.size = 2 ^ 64 := rfl
  refine ⟨?_, ?_, ?_⟩
  · exact UInt64.toNat_ofNat_of_lt' (by omega)
  · exact UInt64.toNat_ofNat_of_lt' (by omega)
  · exact checkedAdd_eq (by omega)

/- A size that was not negative stays so as an `i64`. -/
theorem dims_nonneg {shape : List Int} (hShape : validShape shape = true)
    (hRepresentable : Representable shape) : (shape.map Int64.ofInt).all (¬ · < 0) = true := by
  rw [all_eq_true]
  intro dim hDim
  obtain ⟨value, hValue, rfl⟩ := mem_map.mp hDim
  rw [validShape, decide_eq_true_eq] at hShape
  have hNonneg := hShape.2 value hValue
  obtain ⟨hLow, hHigh⟩ := hRepresentable value hValue
  rw [decide_eq_true_eq, Int64.lt_iff_toInt_lt, Int64.toInt_ofInt_of_le hLow hHigh]
  exact not_lt.mpr hNonneg

theorem validate_native_iff (hNative : Native block) (hShape : validShape block.storedShape = true)
    (hRepresentable : Representable block.storedShape) (seen : List String) (result : Span) :
    TensorEntry.validate seen block.native = .ok result ↔
      True ∧ block.span.name ∉ seen ∧ result = block.span := by
  obtain ⟨hOffset, hLength, hEnd⟩ := native_numbers hNative
  have hName := nonempty_of_bounded hNative.named
  have hDtype := nonempty_of_bounded hNative.storedName
  have hRank : block.native.shape.length ≤ maxTensorRank := by
    rw [validShape, decide_eq_true_eq] at hShape
    exact (length_map _).trans_le hShape.1
  have hDims := dims_nonneg hShape hRepresentable
  have hNbytes := hNative.nbytes
  simp only [TensorEntry.validate, hOffset, hLength, hEnd,
    bind_eq_ok_iff, ensure_eq_ok_iff, Except.ok.injEq, exists_eq_left',
    pure_eq_ok_iff]
  constructor
  · rintro ⟨-, -, -, -, -, -, -, hFresh, -, -, -, -, -, -, hResult⟩
    exact ⟨trivial, hFresh, hResult.symm⟩
  · rintro ⟨-, hFresh, hResult⟩
    exact ⟨(), hName.1, (), hName.2, (), hNbytes, (), hFresh,
      (), hDtype, (), hRank, (), hDims, hResult.symm⟩

theorem sweep_rangeLe_iff (spans : List Span) :
    sweep (spans.mergeSort rangeLe) none = .ok () ↔ spans.Pairwise Apart := by
  apply sweep_sorted_iff
  · intro first second
    simp only [rangeLe, Bool.or_eq_true, decide_eq_true_eq]
    omega
  · intro first second third hFirst hSecond
    simp only [rangeLe, decide_eq_true_eq] at *
    omega
  · intro first second hLe
    simp only [rangeLe, decide_eq_true_eq] at hLe
    omega

/- No byte is in both ranges; an empty one has none. -/
def NoByteShared (first second : Span) : Prop :=
  Disjoint (Set.Ico first.start first.stop) (Set.Ico second.start second.stop)

theorem apart_eq_noByteShared : Apart = NoByteShared := by
  funext first second
  rw [NoByteShared, Set.Ico_disjoint_Ico]
  unfold Apart
  apply propext
  omega

/-
  The sweeps of both readers accept ranges iff no byte is in
  two of them. The native reader's sort leaves the order of
  ranges with the same key open.
-/
theorem range_sweeps_exact (spans : List Span) :
    (∀ sorted, sorted.Perm spans → sorted.Pairwise (rangeLe · · = true) →
      (sweep sorted none = .ok () ↔ spans.Pairwise NoByteShared)) ∧
    (sweep (spans.mergeSort spanLe) none = .ok () ↔ spans.Pairwise NoByteShared) := by
  rw [← apart_eq_noByteShared]
  refine ⟨fun sorted hPerm hSorted => ?_, sweep_spanLe_iff spans⟩
  have hStarts : sorted.Pairwise (fun first second => first.start ≤ second.start) := by
    refine hSorted.imp (fun hLe => ?_)
    simp only [rangeLe, decide_eq_true_eq] at hLe
    omega
  rw [sweep_iff hStarts, hPerm.pairwise_iff Apart.symm]
  simp [reach]

/- What the native reader relies on. -/
structure NativeOk (blocks : List TensorBlock) : Prop where
  count : blocks.length ≤ maxTensorCount
  native : ∀ block ∈ blocks, Native block
  shapes : ∀ block ∈ blocks, validShape block.storedShape = true
  names : (blocks.map TensorBlock.logicalId).Nodup
  apart : (blocks.map TensorBlock.span).Pairwise Apart

theorem validate_nativeOf (hOk : NativeOk blocks)
    (hShapes : ∀ block ∈ blocks, Representable block.storedShape) :
    (nativeOf blocks).validate = .ok () := by
  have hTurn : ∀ block ∈ blocks, ∀ seen result,
      TensorEntry.validate seen block.native = .ok result ↔
        True ∧ block.span.name ∉ seen ∧ result = block.span :=
    fun block hBlock seen result =>
      validate_native_iff (hOk.native block hBlock) (hOk.shapes block hBlock) (hShapes block hBlock)
        seen result
  have hRanges : PackManifest.ranges (nativeOf blocks).tensors =
      .ok (blocks.map TensorBlock.span) := by
    rw [PackManifest.ranges, nativeOf, foldlM_map,
      collect_iff hTurn [] _ nodup_nil, nil_append, name_span]
    exact ⟨fun _ _ => trivial, hOk.names, rfl⟩
  have hCount : (nativeOf blocks).tensors.length ≤ maxTensorCount := by
    rw [nativeOf, length_map]
    exact hOk.count
  unfold PackManifest.validate
  refine (bind_eq_ok_iff _ _ _).mpr ⟨(), (ensure_eq_ok_iff _ _ _).mpr rfl, ?_⟩
  refine (bind_eq_ok_iff _ _ _).mpr ⟨(), (ensure_eq_ok_iff _ _ _).mpr hCount, ?_⟩
  refine (bind_eq_ok_iff _ _ _).mpr ⟨_, hRanges, ?_⟩
  rw [mapError_eq_ok_iff, sweep_rangeLe_iff]
  exact hOk.apart

theorem boundedEnd_native_iff (hNative : Native block) (fileSize : Nat) :
    (∃ stop, boundedEnd block.native fileSize = .ok stop) ↔
      block.offset + block.nbytes ≤ fileSize := by
  obtain ⟨hOffset, hLength, hEnd⟩ := native_numbers hNative
  simp only [boundedEnd, hOffset, hLength, hEnd]
  split
  · next hBeyond => simp [hBeyond]
  · next hInside => simpa using hInside

theorem open_nativeOf_iff (hOk : NativeOk blocks)
    (hShapes : ∀ block ∈ blocks, Representable block.storedShape) (file : List UInt8)
    (reader : PackReader) : PackReader.open file (nativeOf blocks) = .ok reader ↔ (∀ block ∈ blocks,
      block.offset + block.nbytes ≤ file.length) ∧ reader = readerOf blocks file := by
  have hValid := validate_nativeOf hOk hShapes
  have hBounds : (∃ stops, (nativeOf blocks).tensors.mapM (boundedEnd · file.length) = .ok stops) ↔
      ∀ block ∈ blocks, block.offset + block.nbytes ≤ file.length := by
    rw [mapM_ok_iff]
    constructor
    · intro hAll block hBlock
      exact (boundedEnd_native_iff (hOk.native block hBlock) _).mp
        (hAll block.native (mem_map_of_mem hBlock))
    · intro hAll entry hEntry
      obtain ⟨block, hBlock, rfl⟩ := mem_map.mp hEntry
      exact (boundedEnd_native_iff (hOk.native block hBlock) _).mpr (hAll block hBlock)
  unfold PackReader.open
  rw [hValid, ← hBounds]
  constructor
  · intro hOpen
    obtain ⟨_, _, hRest⟩ := (bind_eq_ok_iff _ _ _).mp hOpen
    obtain ⟨stops, hStops, hPure⟩ := (bind_eq_ok_iff _ _ _).mp hRest
    exact ⟨⟨stops, hStops⟩, ((pure_eq_ok_iff _ _).mp hPure).symm⟩
  · intro ⟨⟨stops, hStops⟩, hReader⟩
    rw [hReader]
    exact (bind_eq_ok_iff _ _ _).mpr ⟨(), rfl, (bind_eq_ok_iff _ _ _).mpr ⟨stops, hStops, rfl⟩⟩

variable {entry : TensorEntry}

/- Names are distinct: the index finds the entry itself. -/
theorem find_entry {entries : List TensorEntry} (hNames : (entries.map TensorEntry.name).Nodup)
    (hEntry : entry ∈ entries) :
    entries.reverse.find? (fun other => other.name = entry.name) = some entry := by
  cases hFind : entries.reverse.find? (fun other => other.name = entry.name) with
  | none =>
    have hOther := find?_eq_none.mp hFind entry (mem_reverse.mpr hEntry)
    exact absurd (decide_eq_true rfl) hOther
  | some other =>
    have hName := find?_some hFind
    have hOther := mem_reverse.mp (mem_of_find?_eq_some hFind)
    rw [inj_on_of_nodup_map hNames hOther hEntry (by simpa using hName)]

theorem find_native (hNames : (blocks.map TensorBlock.logicalId).Nodup) (hBlock : block ∈ blocks) :
    (blocks.map TensorBlock.native).reverse.find? (fun entry => entry.name = block.logicalId) =
      some block.native := by
  have hEntries : ((blocks.map TensorBlock.native).map TensorEntry.name).Nodup := by
    rwa [map_map]
  exact find_entry hEntries (mem_map_of_mem hBlock)

/- Reading a block by its name. -/
theorem pread_nativeOf (hOk : NativeOk blocks) (hBlock : block ∈ blocks)
    (hInside : block.offset + block.nbytes ≤ file.length)
    (hCrc : block.checksumCrc32 = some (Checksum.crc32Ieee (Files.read file
      block.offset block.nbytes))) :
    (readerOf blocks file).pread block.logicalId =
      .ok (Files.read file block.offset block.nbytes) := by
  have hNative := hOk.native block hBlock
  obtain ⟨hOffset, hLength, -⟩ := native_numbers hNative
  obtain ⟨stop, hStop⟩ := (boundedEnd_native_iff hNative file.length).mpr hInside
  have hEntry : (readerOf blocks file).entry block.logicalId = some block.native :=
    find_native hOk.names hBlock
  have hChecksum : block.native.checksumCrc32 =
      some (Checksum.crc32Ieee (Files.read file block.offset block.nbytes)) :=
    hCrc
  have hRead : preadAt file block.native.length.toNat block.native.offset.toNat =
      Files.read file block.offset block.nbytes := by
    rw [preadAt, hOffset, hLength]
  unfold PackReader.pread
  rw [hEntry]
  refine (bind_eq_ok_iff _ _ _).mpr ⟨block.native, rfl, ?_⟩
  refine (bind_eq_ok_iff _ _ _).mpr ⟨(), (ensure_eq_ok_iff _ _ _).mpr ?_, ?_⟩
  · rw [hLength]
    exact hNative.nbytes
  refine (bind_eq_ok_iff _ _ _).mpr ⟨stop, hStop, ?_⟩
  rw [hRead, hLength, hChecksum]
  refine (bind_eq_ok_iff _ _ _).mpr ⟨(), (ensure_eq_ok_iff _ _ _).mpr ?_, ?_⟩
  · exact Files.length_read file hInside
  · exact (bind_eq_ok_iff _ _ _).mpr ⟨(), (ensure_eq_ok_iff _ _ _).mpr rfl, rfl⟩

----
-- Every Opened Pack
----

def TensorEntry.span (entry : TensorEntry) : Span :=
  { start := entry.offset.toNat, stop := entry.offset.toNat + entry.length.toNat
    name := entry.name }

theorem checkedAdd_eq_some {first second sum : Nat} (hSum : checkedAdd first second = some sum) :
    sum = first + second := by
  unfold checkedAdd at hSum
  grind

/- Only the name is compared with the entries before. -/
theorem validate_entry_iff (entry : TensorEntry) (seen : List String) (result : Span) :
    entry.validate seen = .ok result ↔
      entry.validate [] = .ok entry.span ∧ entry.span.name ∉ seen ∧ result = entry.span := by
  unfold TensorEntry.validate
  cases hEnd : checkedAdd entry.offset.toNat entry.length.toNat with
  | none => simp [bind_eq_ok_iff]
  | some stop =>
    have hStop := checkedAdd_eq_some hEnd
    simp only [bind_eq_ok_iff, ensure_eq_ok_iff, pure_eq_ok_iff, TensorEntry.span, hStop]
    grind

theorem validate_fits {result : Span} (hValid : entry.validate [] = .ok result) :
    entry.length.toNat ≤ maxTensorBytes := by
  simp only [TensorEntry.validate, bind_eq_ok_iff, ensure_eq_ok_iff] at hValid
  rcases hValid with ⟨_, _, _, _, _, hFits, _⟩
  exact hFits

theorem boundedEnd_inside {fileSize stop : Nat} (hStop : boundedEnd entry fileSize = .ok stop) :
    entry.offset.toNat + entry.length.toNat ≤ fileSize := by
  unfold boundedEnd at hStop
  split at hStop
  · cases hStop
  · next hEnd =>
    have hSum := checkedAdd_eq_some hEnd
    grind

/- The blocks of a pack that opens are apart, and a read gives
   the bytes of its own: only a checksum can fail. -/
theorem opened_pack_reads_its_range (file : List UInt8) (manifest : PackManifest)
    {reader : PackReader} (hOpen : PackReader.open file manifest = .ok reader) :
    (manifest.tensors.map TensorEntry.span).Pairwise NoByteShared ∧
      ∀ entry ∈ manifest.tensors, ∃ bytes, bytes.length = entry.length.toNat ∧
        bytes = Files.read file entry.offset.toNat entry.length.toNat ∧
        reader.pread entry.name =
          match entry.checksumCrc32 with
          | none => .ok bytes
          | some expected =>
            if Checksum.crc32Ieee bytes = expected then .ok bytes
            else .error (.checksumMismatch entry.name (hexText expected)
              (hexText (Checksum.crc32Ieee bytes))) := by
  simp only [PackReader.open, PackManifest.validate, bind_eq_ok_iff, ensure_eq_ok_iff,
    mapError_eq_ok_iff, pure_eq_ok_iff] at hOpen
  rcases hOpen with ⟨_, ⟨_, _, _, _, ranges, hRanges, hSweep⟩, stops, hStops, rfl⟩
  rw [PackManifest.ranges, collect_iff (fun entry _ => validate_entry_iff entry) [] _ nodup_nil,
    nil_append, map_map] at hRanges
  rcases hRanges with ⟨hValid, hNames, rfl⟩
  rw [← apart_eq_noByteShared]
  refine ⟨(sweep_rangeLe_iff _).mp hSweep, fun entry hEntry => ?_⟩
  rcases (mapM_ok_iff _ _).mp ⟨stops, hStops⟩ entry hEntry with ⟨stop, hStop⟩
  have hFits := validate_fits (hValid entry hEntry)
  have hRead : (preadAt file entry.length.toNat entry.offset.toNat).length = entry.length.toNat :=
    Files.length_read file (boundedEnd_inside hStop)
  refine ⟨_, hRead, rfl, ?_⟩
  simp only [PackReader.pread, PackReader.entry, find_entry hNames hEntry, ensure, hStop, hFits,
    hRead, if_true, bind, Except.bind]
  cases entry.checksumCrc32 with
  | none => rfl
  | some expected =>
    dsimp only
    split_ifs
    · rfl
    · rfl

/- The second block has the checksum of its bytes. -/
def twoBlocks : PackManifest :=
  { version := 1
    tensors := [
      { name := "a", offset := 1, length := 1, dtype := "u8", shape := [1], checksumCrc32 := none },
      { name := "b", offset := 2, length := 3, dtype := "u8", shape := [3]
        checksumCrc32 := some 1438416925 }] }

theorem two_blocks_read : ∃ reader, PackReader.open [7, 9, 1, 2, 3] twoBlocks = .ok reader ∧
    reader.pread "a" = .ok [9] ∧ reader.pread "b" = .ok [1, 2, 3] := by
  have hOpen : PackReader.open [7, 9, 1, 2, 3] twoBlocks = .ok ⟨[7, 9, 1, 2, 3], 5, twoBlocks⟩ := by
    have hRanges : PackManifest.ranges twoBlocks.tensors = .ok [⟨1, 2, "a"⟩, ⟨2, 5, "b"⟩] := rfl
    have hSorted : mergeSort [⟨1, 2, "a"⟩, ⟨2, 5, "b"⟩] rangeLe = [⟨1, 2, "a"⟩, ⟨2, 5, "b"⟩] :=
      mergeSort_of_pairwise (by simp [rangeLe])
    unfold PackReader.open PackManifest.validate
    rw [hRanges]
    simp only [bind, Except.bind, hSorted]
    rfl
  have hReads := (opened_pack_reads_its_range _ _ hOpen).2
  rcases hReads _ (.head _) with ⟨_, _, rfl, hFirst⟩
  rcases hReads _ (.tail _ (.head _)) with ⟨_, _, rfl, hSecond⟩
  have hSum : Checksum.crc32Ieee [1, 2, 3] = 1438416925 := by decide +kernel
  exact ⟨_, hOpen, hFirst, hSecond.trans (if_pos hSum)⟩

end TensorTorrent.Pack
