import TensorTorrent.Storage.PackReadable

/-
  When a pack that was written can be read back: the manifest
  is accepted by both readers and every name leads to the
  bytes of its tensor.

  Main declarations:
    * `pack_read_back_iff`
-/

namespace TensorTorrent.Pack

open Json Files List

variable (host : Host)

----
-- The Blocks That Are Written
----

variable {checked : Nat} {metas : List (Meta × Loader)} {offset : Nat}

theorem entriesAt_block (hPos : 0 < checked) {entry : TensorBlock × Meta × Loader}
    (hEntry : entry ∈ entriesAt metas checked offset) :
    ∃ start, entry.1 = entry.2.1.block checked start ∧ checked ∣ start ∧ offset ≤ start := by
  induction metas generalizing offset with
  | nil => cases hEntry
  | cons first metas ih =>
    have hLe := le_alignUp offset hPos
    rw [entriesAt_cons, mem_cons] at hEntry
    rcases hEntry with rfl | hEntry
    · exact ⟨_, rfl, dvd_alignUp _ _, hLe⟩
    · obtain ⟨start, hBlock, hDvd, hStart⟩ := ih hEntry
      exact ⟨start, hBlock, hDvd, by omega⟩

/- The block keeps the metadata of its tensor. -/
theorem raw_written (quantize : Bool) (info : Meta) (loader : Loader) (checked start : Nat) :
    (written host quantize (info.block checked start, info, loader)).raw = info.toRawMeta := by
  have hSize : ((info.size : Nat) : Int) = info.nbytes := Int.toNat_of_nonneg info.sized.1
  simp only [TensorBlock.raw, written, TensorBlock.checked, Meta.block, hSize]

theorem validChecksum_hexdigest (hashed : List UInt8) :
    validChecksum (.str (hexdigest host hashed)) = true := by
  have hDigit : ∀ nibble : Fin 16, hexDigit nibble ∈ "0123456789abcdef".toList := by decide
  rw [validChecksum, Bool.and_eq_true, decide_eq_true_eq, hexdigest, String.length_ofList,
    String.toList_ofList, all_eq_true]
  constructor
  · rw [length_take]
    omega
  · intro c hMem
    rw [decide_eq_true_eq]
    obtain ⟨nibble, _, rfl⟩ := mem_map.mp (mem_of_mem_take hMem)
    exact hDigit nibble

theorem validateAlignment_again {alignment : Int}
    (hOk : validateAlignment alignment = .ok checked) :
    validateAlignment checked = .ok checked := by
  unfold validateAlignment at hOk
  split at hOk
  · cases hOk
  rename_i hValid
  cases hOk
  have hSame : (alignment.toNat : Int) = alignment := by omega
  rw [validateAlignment, hSame, if_neg hValid]

/- Checksums change neither the names nor the ranges. -/
theorem span_finalBlocks (quantize : Bool) (metas : List (Meta × Loader)) (checked : Nat) :
    (finalBlocks host quantize metas checked).map TensorBlock.span =
      (place checked (metas.map Prod.fst) (reserveOf host metas checked)).map TensorBlock.span := by
  rw [← fst_entriesAt, finalBlocks, map_map, map_map]
  rfl

theorem logicalId_place (checked : Nat) (metas : List Meta) (offset : Nat) :
    (place checked metas offset).map TensorBlock.logicalId = metas.map (fun info => info.name) := by
  induction metas generalizing offset with
  | nil => rfl
  | cons info metas ih =>
    rw [place, map_cons, map_cons, ih]
    rfl

theorem logicalId_finalBlocks (quantize : Bool) (metas : List (Meta × Loader)) (checked : Nat) :
    (finalBlocks host quantize metas checked).map TensorBlock.logicalId =
      metas.map (fun entry => entry.1.name) := by
  have hNames := logicalId_place checked (metas.map Prod.fst) (reserveOf host metas checked)
  rw [← fst_entriesAt, map_map, map_map] at hNames
  rw [finalBlocks, map_map]
  exact hNames

theorem length_finalBlocks (quantize : Bool) (metas : List (Meta × Loader)) (checked : Nat) :
    (finalBlocks host quantize metas checked).length = metas.length := by
  rw [← length_map TensorBlock.logicalId, logicalId_finalBlocks, length_map]

theorem apart_finalBlocks (hPos : 0 < checked) (quantize : Bool) (metas : List (Meta × Loader)) :
    ((finalBlocks host quantize metas checked).map TensorBlock.span).Pairwise Spans.Apart := by
  rw [span_finalBlocks, pairwise_map]
  exact (place_pairwise hPos _ _).imp (fun hBefore => .inr (.inr (.inl hBefore)))

----
-- Reading Back
----

/-
  Both readers take the file, and every name leads to the
  payload of the tensor it was given with.
-/
structure ReadBack (namedLoaders : List (String × Loader)) (quantize : Bool) (pack : ModelPack)
    (file : List UInt8) : Prop where
  loaded : loadPackManifest host file = .ok (manifest pack.tensors)
  opened : ∃ native reader, nativeManifest (manifest pack.tensors) = some native ∧
    PackReader.open file native = .ok reader ∧ ∀ named ∈ namedLoaders, ∃ value raw payload,
      named.2.second = .ok value ∧ describeValue host named.1 value quantize = .ok (raw, payload) ∧
        reader.pread named.1 = .ok payload.bytes

/-
  What the readers ask for beyond what the writer checks:
  metadata that agrees with itself, dimensions that are `i64`
  numbers, a payload that reaches up to the empty tensors at
  the end, and room for the checksums in the manifest. A
  reserve that had to grow is a multiple of the alignment.
-/
structure Readable (quantize : Bool) (metas : List (Meta × Loader)) (alignment : Nat) : Prop where
  coherent : ∀ entry ∈ metas, Coherent entry.1.toRawMeta
  shapes : ∀ entry ∈ metas, ∀ dim ∈ entry.1.storedShape, dim < 2 ^ 63
  ends : EndsInside alignment
    (if firstNeeded host (metas.map Prod.fst) alignment ≤ initialReserve metas.length then
      initialReserve metas.length
    else 0) (sizesOf metas)
  listed : (manifestBytes host (place alignment (metas.map Prod.fst)
    (reserveFor host (metas.map Prod.fst) alignment))).length +
    checksumText host quantize metas ≤ maxManifestBytes

/- Only divisibility matters of the reserve. -/
theorem EndsInside.congr {alignment first second : Nat}
    (hSame : alignment ∣ first ↔ alignment ∣ second) (sizes : List Nat) :
    EndsInside alignment first sizes ↔ EndsInside alignment second sizes := by
  have hLast : ∀ before : List Nat, alignment ∣ before.getLastD first ↔
      alignment ∣ before.getLastD second := by
    intro before
    cases before with
    | nil => exact hSame
    | cons size before => exact Iff.rfl
  simp only [EndsInside, hLast]

theorem endsInside_reserveFor_iff (metas : List (Meta × Loader)) (alignment : Nat) :
    EndsInside alignment (reserveFor host (metas.map Prod.fst) alignment) (sizesOf metas) ↔
      EndsInside alignment (if firstNeeded host (metas.map Prod.fst) alignment ≤
            initialReserve metas.length then
          initialReserve metas.length
        else 0) (sizesOf metas) := by
  apply EndsInside.congr
  rw [reserveFor, length_map]
  split
  · exact Iff.rfl
  · exact iff_of_true (dvd_alignUp _ _) (dvd_zero _)

----
-- The Checks of the Readers
----

section Written

variable {host} {namedLoaders : List (String × Loader)} {alignment : Int} {quantize : Bool}
variable {metas : List (Meta × Loader)} {checked : Nat}
variable (hPacks : Packs host namedLoaders alignment quantize metas checked)
variable (hLoose : ¬ Tight host quantize metas checked)

section Entry

variable {entry : TensorBlock × Meta × Loader} (hEntry : entry ∈ entriesOf host metas checked)

include hPacks hLoose hEntry

/- The header ends before the first block. -/
theorem header_le_offset :
    16 + (manifestBytes host (finalBlocks host quantize metas checked)).length ≤
      entry.1.offset := by
  have hPos := hPacks.pos
  have hMagic : magic.length = 8 := rfl
  have hHeader := header_le_reserve host hPacks hLoose
  obtain ⟨start, hBlock, -, hStart⟩ := entriesAt_block hPos hEntry
  have hOffset : entry.1.offset = start := by
    rw [hBlock]
    rfl
  rw [length_header, needed, hMagic] at hHeader
  omega

/- Of all the checks, two can fail. -/
theorem entryOk_written_iff (fileSize : Nat) :
    EntryOk fileSize (16 + (manifestBytes host (finalBlocks host quantize metas checked)).length)
        (written host quantize entry) ↔
      entry.1.offset + entry.1.nbytes ≤ fileSize ∧ Coherent entry.2.1.toRawMeta := by
  have hPos := hPacks.pos
  have hBehind := header_le_offset hPacks hLoose hEntry
  obtain ⟨start, hBlock, hDvd, -⟩ := entriesAt_block hPos hEntry
  obtain ⟨block, info, loader⟩ := entry
  simp only at hBlock hBehind ⊢
  rw [hBlock] at hBehind ⊢
  have hRaw := raw_written host quantize info loader checked start
  constructor
  · intro hOk
    exact ⟨hOk.placed.inside, hRaw ▸ hOk.coherent⟩
  · intro ⟨hInside, hCoherent⟩
    refine ⟨info.named, ⟨⟨checked, ?_⟩, hBehind, ?_, ?_,
      hInside⟩, ⟨info.stored, info.logical, info.storedName,
      info.logicalName⟩, hRaw.symm ▸ hCoherent, ?_⟩
    · exact validateAlignment_again hPacks.aligned
    · exact hDvd
    · have hSized := info.sized
      simp only [written, TensorBlock.checked, Meta.block, Meta.size]
      omega
    · exact validChecksum_hexdigest host _

omit hLoose in
theorem native_written :
    Native (written host quantize entry) ∧ (written host quantize entry).storedShape =
      entry.2.1.storedShape := by
  have hPos := hPacks.pos
  have hSought := (hPacks.writable entry hEntry).sought
  obtain ⟨start, hBlock, -, -⟩ := entriesAt_block hPos hEntry
  obtain ⟨block, info, loader⟩ := entry
  simp only at hBlock hSought ⊢
  rw [hBlock] at hSought ⊢
  refine ⟨⟨info.named, info.storedName, hSought, ?_⟩, rfl⟩
  have hSized := info.sized
  simp only [written, TensorBlock.checked, Meta.block, Meta.size]
  omega

end Entry

include hPacks in
theorem nativeOk_finalBlocks : NativeOk (finalBlocks host quantize metas checked) := by
  have hPos := hPacks.pos
  have hCollected := describeAll_collected host hPacks.described
  constructor
  · rw [length_finalBlocks]
    exact hCollected.bounded
  · intro block hBlock
    obtain ⟨entry, hEntry, rfl⟩ := mem_map.mp hBlock
    exact (native_written hPacks hEntry).1
  · intro block hBlock
    obtain ⟨entry, hEntry, rfl⟩ := mem_map.mp hBlock
    rw [(native_written hPacks hEntry).2]
    exact entry.2.1.stored
  · rw [logicalId_finalBlocks]
    exact hCollected.distinct
  · exact apart_finalBlocks host hPos quantize metas

theorem length_manifestBytes_finalBlocks :
    (manifestBytes host (finalBlocks host quantize metas checked)).length = (manifestBytes host
        (place checked (metas.map Prod.fst) (reserveOf host metas checked))).length +
        checksumText host quantize metas := by
  have hWritten := needed_written host quantize metas checked (reserveOf host metas checked)
  rw [needed, needed] at hWritten
  rw [finalBlocks, reserveOf] at *
  omega

include hPacks in
theorem manifestBytes_lt :
    (manifestBytes host (finalBlocks host quantize metas checked)).length < 2 ^ 32 := by
  have hCount := (describeAll_collected host hPacks.described).bounded
  have hText := checksumText_le host quantize metas
  have hLast := hPacks.within.2
  rw [length_manifestBytes_finalBlocks, reserveOf]
  simp only [maxManifestBytes, maxTensorCount] at hLast hCount
  omega

include hPacks hLoose in
theorem headed_finalFile : Headed host (finalBlocks host quantize metas checked)
    (finalFile host quantize metas checked) := by
  have hHeader := header_le_reserve host hPacks hLoose
  have hReserve := reserve_le_payloadFile host hPacks
  refine ⟨?_, ?_⟩
  · intro start count hInside
    exact read_finalFile_header host hInside
  · rw [length_finalFile host hPacks hLoose]
    omega

variable (hLoads : host.loads (manifestBytes host (finalBlocks host quantize metas checked)) =
  some (manifest (finalBlocks host quantize metas checked)))

include hPacks hLoose hLoads in
theorem loaded_iff (result : Json PyFloat) :
    loadPackManifest host (finalFile host quantize metas checked) = .ok result ↔
      result = manifest (finalBlocks host quantize metas checked) ∧
        (manifestBytes host (finalBlocks host quantize metas checked)).length ≤ maxManifestBytes ∧
        ∀ entry ∈ entriesOf host metas checked,
          entry.1.offset + entry.1.nbytes ≤ (finalFile host quantize metas checked).length ∧
            Coherent entry.2.1.toRawMeta := by
  have hOk := nativeOk_finalBlocks hPacks
  have hEntry := fun entry (hMember : entry ∈ entriesOf host metas checked) =>
    entryOk_written_iff hPacks hLoose hMember (finalFile host quantize metas checked).length
  rw [loadPackManifest_iff host (headed_finalFile hPacks hLoose) (manifestBytes_lt hPacks) hLoads,
    validatePackManifest_iff]
  refine and_congr_right fun _ => and_congr_right fun _ => ?_
  constructor
  · intro ⟨_, hEntries, _, _⟩ entry hMember
    exact (hEntry entry hMember).mp (hEntries _ (mem_map_of_mem hMember))
  · intro hEntries
    refine ⟨hOk.count, ?_, hOk.names, hOk.apart⟩
    intro block hBlock
    obtain ⟨entry, hMember, rfl⟩ := mem_map.mp hBlock
    exact (hEntry entry hMember).mpr (hEntries entry hMember)

----
-- Both Readers
----

theorem exists_entry_of_meta (host : Host) (checked : Nat) {entry : Meta × Loader}
    (hEntry : entry ∈ metas) : ∃ block, (block, entry) ∈ entriesOf host metas checked := by
  have hSecond : (entriesOf host metas checked).map Prod.snd = metas := by
    rw [entriesOf, entriesAt, map_snd_zip]
    simp
  rw [← hSecond, mem_map] at hEntry
  obtain ⟨⟨block, _⟩, hMember, rfl⟩ := hEntry
  exact ⟨block, hMember⟩

include hPacks in
theorem representable_iff :
    (∀ block ∈ finalBlocks host quantize metas checked, Representable block.storedShape) ↔
      ∀ entry ∈ metas, ∀ dim ∈ entry.1.storedShape, dim < 2 ^ 63 := by
  constructor
  · intro hShapes entry hEntry dim hDim
    obtain ⟨block, hMember⟩ := exists_entry_of_meta host checked hEntry
    have hShape := hShapes _ (mem_map_of_mem hMember)
    rw [(native_written hPacks hMember).2] at hShape
    exact (hShape dim hDim).2
  · intro hShapes block hBlock
    obtain ⟨entry, hMember, rfl⟩ := mem_map.mp hBlock
    rw [(native_written hPacks hMember).2]
    intro dim hDim
    have hStored := entry.2.1.stored
    rw [validShape, decide_eq_true_eq] at hStored
    have hNonneg := hStored.2 dim hDim
    have hLt := hShapes entry.2 (mem_entriesAt hMember).2 dim hDim
    exact ⟨by omega, hLt⟩

include hPacks hLoose in
theorem readable_iff : Readable host quantize metas checked ↔ ((manifestBytes host
      (finalBlocks host quantize metas checked)).length ≤ maxManifestBytes ∧
    ∀ entry ∈ entriesOf host metas checked,
      entry.1.offset + entry.1.nbytes ≤ (finalFile host quantize metas checked).length ∧
        Coherent entry.2.1.toRawMeta) ∧
    ∀ block ∈ finalBlocks host quantize metas checked, Representable block.storedShape := by
  have hInside := entries_inside_iff host hPacks hLoose
  rw [endsInside_reserveFor_iff] at hInside
  rw [representable_iff hPacks, length_manifestBytes_finalBlocks]
  constructor
  · intro hReadable
    refine ⟨⟨hReadable.listed, ?_⟩, hReadable.shapes⟩
    intro entry hEntry
    exact ⟨hInside.mpr hReadable.ends entry hEntry,
      hReadable.coherent entry.2 (mem_entriesAt hEntry).2⟩
  · intro ⟨⟨hListed, hEntries⟩, hShapes⟩
    refine ⟨?_, hShapes, ?_, hListed⟩
    · intro entry hEntry
      obtain ⟨block, hMember⟩ := exists_entry_of_meta host checked hEntry
      exact (hEntries _ hMember).2
    · exact hInside.mp (fun entry hEntry => (hEntries entry hEntry).1)

include hPacks hLoose in
/- The native reader finds the payload of every name. -/
theorem pread_finalFile
    (hInside : ∀ entry ∈ entriesOf host metas checked,
      entry.1.offset + entry.1.nbytes ≤ (finalFile host quantize metas checked).length)
    {named : String × Loader} (hNamed : named ∈ namedLoaders) :
    ∃ value raw payload, named.2.second = .ok value ∧
      describeValue host named.1 value quantize = .ok (raw, payload) ∧
      (readerOf (finalBlocks host quantize metas checked)
        (finalFile host quantize metas checked)).pread named.1 = .ok payload.bytes := by
  have hPos := hPacks.pos
  have hCollected := describeAll_collected host hPacks.described
  rw [← hCollected.entries, mem_map] at hNamed
  obtain ⟨⟨info, loader⟩, hMeta, rfl⟩ := hNamed
  obtain ⟨block, hEntry⟩ := exists_entry_of_meta host checked hMeta
  obtain ⟨again, payload, hReloaded, -, -⟩ := (hPacks.writable _ hEntry).reloads
  obtain ⟨start, hBlock, -, -⟩ := entriesAt_block hPos hEntry
  have hBytes : payloadBytes host quantize info loader = payload.bytes := by
    rw [payloadBytes, hReloaded]
  have hFound := read_finalFile_block host hPacks hLoose hEntry
  rw [entryBytes, hBytes] at hFound
  have hRead := pread_nativeOf (nativeOk_finalBlocks hPacks)
    (mem_map_of_mem hEntry) (hInside _ hEntry) (by
      change some (Checksum.crc32Ieee (payloadBytes host quantize info loader)) = _
      rw [hBytes, ← hFound]
      rfl)
  obtain ⟨value, hValue, hDescribed⟩ := (Fallible.bind_eq_ok_iff _ _ _).mp hReloaded
  rw [Fallible.mapError_eq_ok_iff] at hValue
  refine ⟨value, again, payload, hValue, hDescribed, ?_⟩
  have hName : (written host quantize (block, info, loader)).logicalId = info.name := by
    simp only at hBlock
    rw [hBlock]
    rfl
  rw [hName] at hRead
  rw [← hFound]
  exact hRead

include hPacks hLoose hLoads in
/- A reader that was opened on the file finds them. -/
theorem pread_opened {result : Json PyFloat} {native : PackManifest} {reader : PackReader}
    (hLoaded : loadPackManifest host (finalFile host quantize metas checked) = .ok result)
    (hNative : nativeManifest result = some native)
    (hOpen : PackReader.open (finalFile host quantize metas checked) native = .ok reader)
    {named : String × Loader} (hNamed : named ∈ namedLoaders) :
    ∃ value raw payload, named.2.second = .ok value ∧
      describeValue host named.1 value quantize = .ok (raw, payload) ∧
      reader.pread named.1 = .ok payload.bytes := by
  have hOk := nativeOk_finalBlocks hPacks
  obtain ⟨hResult, -, hEntries⟩ := (loaded_iff hPacks hLoose hLoads result).mp hLoaded
  rw [hResult] at hNative
  obtain ⟨hShapes, hSame⟩ := (nativeManifest_iff hOk.native native).mp hNative
  rw [hSame] at hOpen
  rw [((open_nativeOf_iff hOk hShapes _ _).mp hOpen).2]
  exact pread_finalFile hPacks hLoose (fun entry hEntry => (hEntries entry hEntry).1) hNamed

include hPacks hLoose hLoads in
theorem readBack_iff {pack : ModelPack}
    (hTensors : pack.tensors = finalBlocks host quantize metas checked) :
    ReadBack host namedLoaders quantize pack (finalFile host quantize metas checked) ↔
      Readable host quantize metas checked := by
  obtain ⟨tensors, reserve, quantised⟩ := pack
  cases hTensors
  have hOk := nativeOk_finalBlocks hPacks
  have hLoaded := loaded_iff hPacks hLoose hLoads
    (manifest (finalBlocks host quantize metas checked))
  rw [eq_self, true_and] at hLoaded
  rw [readable_iff hPacks hLoose, ← hLoaded]
  constructor
  · intro ⟨hLoaded, native, reader, hNative, _, _⟩
    exact ⟨hLoaded, ((nativeManifest_iff hOk.native native).mp hNative).1⟩
  · intro ⟨hManifest, hShapes⟩
    have hInside := fun entry hEntry => ((hLoaded.mp hManifest).2 entry hEntry).1
    have hBounds : ∀ block ∈ finalBlocks host quantize metas checked,
        block.offset + block.nbytes ≤ (finalFile host quantize metas checked).length := by
      intro block hBlock
      obtain ⟨entry, hEntry, rfl⟩ := mem_map.mp hBlock
      exact hInside entry hEntry
    have hNative := (nativeManifest_iff hOk.native _).mpr ⟨hShapes, rfl⟩
    have hOpen := (open_nativeOf_iff hOk hShapes _ _).mpr ⟨hBounds, rfl⟩
    refine ⟨hManifest, _, _, hNative, hOpen, ?_⟩
    intro named hNamed
    exact pread_finalFile hPacks hLoose hInside hNamed

end Written

----
-- Two Short Vectors
----

/- A short manifest that keeps the first reserve. -/
theorem packs_of_roomy {namedLoaders : List (String × Loader)} {alignment : Int} {quantize : Bool}
    (hAligned : validateAlignment alignment = .ok checked)
    (hCollected : Collected host quantize namedLoaders metas)
    (hRoomy : firstNeeded host (metas.map Prod.fst) checked +
      30 * metas.length ≤ initialReserve metas.length)
    (hSmall : initialReserve metas.length ≤ maxManifestBytes)
    (hWritable : ∀ entry ∈ entriesAt metas checked (initialReserve metas.length),
      Writable host quantize entry) :
    Packs host namedLoaders alignment quantize metas checked ∧ ¬ Tight host quantize metas checked ∧
      (manifestBytes host (place checked (metas.map Prod.fst)
          (reserveFor host (metas.map Prod.fst) checked))).length +
          checksumText host quantize metas ≤
        maxManifestBytes := by
  have hReserve : reserveFor host (metas.map Prod.fst) checked = initialReserve metas.length := by
    rw [reserveFor, length_map, if_pos (by omega)]
  have hText := checksumText_le host quantize metas
  have hMagic : magic.length = 8 := rfl
  have hManifest : (manifestBytes host (place checked (metas.map Prod.fst)
        (initialReserve metas.length))).length + checksumText host quantize metas ≤
      maxManifestBytes := by
    rw [firstNeeded, needed, length_map, hMagic] at hRoomy
    omega
  refine ⟨⟨hAligned, describeAll_of_collected host hCollected, ?_, ?_⟩, ?_, ?_⟩
  · rw [WithinLimit, hReserve, length_map]
    omega
  · rw [hReserve]
    exact hWritable
  · intro hTight
    have hLarge := hTight.2
    omega
  · rw [hReserve]
    exact hManifest

/- The host, with a decoder that knows one manifest. -/
def Host.reading (blocks : List TensorBlock) : Host :=
  { host with loads := fun _ => some (manifest blocks) }

/- A vector of bytes, in both passes. -/
def byteVector (bytes : List UInt8) : Loader where
  first := .ok (.dict (some bytes) (some [(bytes.length : Int)]) none)
  second := .ok (.dict (some bytes) (some [(bytes.length : Int)]) none)

theorem uint8_bounded : isBoundedUtf8 "uint8" maxDtypeBytes = true := by decide

/- Its metadata. -/
def bytesInfo (name : String) (size : Nat) (hNamed : isBoundedUtf8 name maxTensorNameBytes = true)
    (hSize : size ≤ maxTensorBytes) : Meta where
  name := name
  nbytes := size
  storedShape := [(size : Int)]
  logicalShape := [(size : Int)]
  storedDtype := "uint8"
  logicalDtype := "uint8"
  compression := .none
  scale := none
  zeroPoint := none
  named := hNamed
  sized := by omega
  stored := by simp [validShape, maxTensorRank]
  logical := by simp [validShape, maxTensorRank]
  storedName := uint8_bounded
  logicalName := uint8_bounded

/- Both passes see one value, a vector of these bytes. -/
def Yields (bytes : List UInt8) (loader : Loader) : Prop :=
  ∃ value, loader.first = .ok value ∧ loader.second = .ok value ∧
    ∀ (name : String) hNamed hSize, ∃ payload, describeValue host name value false =
          .ok ((bytesInfo name bytes.length hNamed hSize).toRawMeta, payload) ∧
        payload.bytes = bytes ∧ payload.casts = true

theorem yields_byteVector (bytes : List UInt8) : Yields host bytes (byteVector bytes) :=
  ⟨_, rfl, rfl, fun _ _ _ => ⟨_, rfl, rfl, rfl⟩⟩

variable {name : String} {size : Nat}

theorem entrySize_bytesInfo (hNamed : isBoundedUtf8 name maxTensorNameBytes = true)
    (hSize : size ≤ maxTensorBytes) (offset : Nat) :
    entrySize host ((bytesInfo name size hNamed hSize).block 64 offset) =
      243 + (quote name).utf8ByteSize + width offset + 3 * width size := by
  have hDtype : (quote "uint8").utf8ByteSize = 7 := by decide
  have hAlignment : width 64 = 2 := by decide
  have hShape : (dumps host.floatText (ints [(size : Int)])).utf8ByteSize = 2 + width size := by
    rw [ints, size_dumps_list]
    simp only [map_cons, map_nil, size_dumps_nat, sum_cons, sum_nil, length_singleton]
    omega
  rw [entrySize_plain host _ 64 offset rfl rfl rfl]
  simp only [bytesInfo, Meta.size, Int.toNat_natCast, hDtype, hAlignment, hShape]
  omega

theorem short_le (hShort : size < 100) : size ≤ maxTensorBytes := by
  simp only [maxTensorBytes]
  omega

/- Two short vectors, one behind the other. -/
def vectorPair (first second : List UInt8) : List (String × Loader) :=
  [("a", byteVector first), ("b", byteVector second)]

section Pair

variable {first second : List UInt8} {one two : Loader} (hFirst : first.length < 100)
variable (hSecond : second.length < 100) (hOne : Yields host first one)
variable (hTwo : Yields host second two)

def pairMetas (one two : Loader) : List (Meta × Loader) :=
  [(bytesInfo "a" first.length (by decide) (short_le hFirst), one),
    (bytesInfo "b" second.length (by decide) (short_le hSecond), two)]

theorem described_bytesInfo {bytes : List UInt8} {loader : Loader}
    (hNamed : isBoundedUtf8 name maxTensorNameBytes = true) (hSize : bytes.length ≤ maxTensorBytes)
    (hYields : Yields host bytes loader) :
    Described host false (bytesInfo name bytes.length hNamed hSize) loader := by
  obtain ⟨value, hFirst, -, hDescribe⟩ := hYields
  obtain ⟨payload, hDescribed, -, -⟩ := hDescribe name hNamed hSize
  exact ⟨value, payload, hFirst, hDescribed⟩

include hOne hTwo in
theorem collected_pair :
    Collected host false [("a", one), ("b", two)] (pairMetas hFirst hSecond one two) := by
  have hNames : ["a", "b"].Nodup := by decide
  have hCount : 2 ≤ maxTensorCount := by decide
  refine ⟨rfl, hNames, hCount, ?_⟩
  intro entry hEntry
  simp only [pairMetas, mem_cons, not_mem_nil, or_false] at hEntry
  rcases hEntry with rfl | rfl
  · exact described_bytesInfo host (by decide) (short_le hFirst) hOne
  · exact described_bytesInfo host (by decide) (short_le hSecond) hTwo

/- The entries of the two vectors behind a reserve. -/
theorem needed_pair (one two : Loader) :
    needed host (place 64 ((pairMetas hFirst hSecond one two).map Prod.fst) 4096) =
      16 + frameSize 2 + 492 + width 4096 + 3 * width first.length +
        width (alignUp (4096 + first.length) 64) + 3 * width second.length := by
  have hAligned : alignUp 4096 64 = 4096 := by decide
  have hFirstName : (quote "a").utf8ByteSize = 3 := by decide
  have hSecondName : (quote "b").utf8ByteSize = 3 := by decide
  have hSize : ∀ (size : Nat) hNamed hSize, (bytesInfo "a" size hNamed hSize).size = size :=
    fun _ _ _ => rfl
  rw [needed_eq, length_place, length_map]
  simp only [pairMetas, length_cons, length_nil, Nat.zero_add, Nat.reduceAdd, map_cons, map_nil,
    place, hAligned, hSize, sum_cons, sum_nil,
    entrySize_bytesInfo, hFirstName, hSecondName]
  omega

theorem roomy_pair (one two : Loader) :
    firstNeeded host ((pairMetas hFirst hSecond one two).map Prod.fst) 64 +
      60 ≤ initialReserve 2 := by
  have hReserve : initialReserve 2 = 4096 := by decide
  have hFrame : frameSize 2 ≤ 100 := by decide
  have hStart := alignUp_lt (4096 + first.length) (show 0 < 64 by decide)
  have hOffset : width (alignUp (4096 + first.length) 64) ≤ 4 :=
    (width_le_iff (by decide)).mpr (by omega)
  have hReserveWidth : width 4096 = 4 := by decide
  have hFirstWidth : width first.length ≤ 2 := (width_le_iff (by decide)).mpr hFirst
  have hSecondWidth : width second.length ≤ 2 := (width_le_iff (by decide)).mpr hSecond
  have hLength : ((pairMetas hFirst hSecond one two).map Prod.fst).length = 2 := rfl
  rw [firstNeeded, hLength, hReserve, needed_pair]
  omega

section

variable {name : String} {bytes : List UInt8} {loader : Loader}
variable (hNamed : isBoundedUtf8 name maxTensorNameBytes = true)
variable (hSize : bytes.length ≤ maxTensorBytes) (hYields : Yields host bytes loader)

include hNamed hSize hYields

theorem reloaded_bytesInfo :
    ∃ payload, reloaded host false (bytesInfo name bytes.length hNamed hSize) loader =
          .ok ((bytesInfo name bytes.length hNamed hSize).toRawMeta, payload) ∧
        payload.bytes = bytes ∧ payload.casts = true := by
  obtain ⟨value, -, hSecond, hDescribe⟩ := hYields
  obtain ⟨payload, hDescribed, hBytes, hCasts⟩ := hDescribe name hNamed hSize
  refine ⟨payload, ?_, hBytes, hCasts⟩
  refine (Fallible.bind_eq_ok_iff _ _ _).mpr ⟨value, ?_, hDescribed⟩
  rw [Fallible.mapError_eq_ok_iff]
  exact hSecond

theorem payloadBytes_bytesInfo :
    payloadBytes host false (bytesInfo name bytes.length hNamed hSize) loader = bytes := by
  obtain ⟨payload, hReloaded, hBytes, -⟩ := reloaded_bytesInfo host hNamed hSize hYields
  rw [payloadBytes, hReloaded]
  exact hBytes

theorem writable_bytesInfo (hOffset : offset < 2 ^ 63) :
    Writable host false ((bytesInfo name bytes.length hNamed hSize).block 64 offset,
      bytesInfo name bytes.length hNamed hSize,
      loader) := by
  obtain ⟨payload, hReloaded, -, hCasts⟩ := reloaded_bytesInfo host hNamed hSize hYields
  have hScale : scalesDiffer none none = false := rfl
  refine ⟨⟨_, _, hReloaded, ?_, hCasts⟩, ?_, hOffset⟩
  · simp [changedFields, bytesInfo, hScale]
  · rw [payloadBytes_bytesInfo host hNamed hSize hYields]
    rfl

end

include hOne hTwo in
theorem writable_pair :
    ∀ entry ∈ entriesAt (pairMetas hFirst hSecond one two) 64 (initialReserve 2),
      Writable host false entry := by
  have hReserve : initialReserve 2 = 4096 := by decide
  have hAligned : alignUp 4096 64 = 4096 := by decide
  have hStart := alignUp_lt (4096 + first.length) (show 0 < 64 by decide)
  rw [hReserve]
  intro entry hEntry
  simp only [pairMetas, entriesAt_cons, mem_cons, hAligned] at hEntry
  rcases hEntry with rfl | rfl | hNone
  · exact writable_bytesInfo host (by decide) (short_le hFirst) hOne (by decide)
  · apply writable_bytesInfo host (by decide) (short_le hSecond) hTwo
    change alignUp (4096 + first.length) 64 < 2 ^ 63
    omega
  · cases hNone

include hOne hTwo in
theorem packs_pair :
    Packs host [("a", one), ("b", two)] 64 false (pairMetas hFirst hSecond one two) 64 ∧
      ¬ Tight host false (pairMetas hFirst hSecond one two) 64 ∧
      (manifestBytes host (place 64 ((pairMetas hFirst hSecond one two).map Prod.fst)
          (reserveFor host ((pairMetas hFirst hSecond one two).map Prod.fst) 64))).length +
          checksumText host false (pairMetas hFirst hSecond one two) ≤
        maxManifestBytes := by
  have hSmall : initialReserve 2 ≤ maxManifestBytes := by decide
  exact packs_of_roomy host rfl (collected_pair host hFirst hSecond hOne hTwo)
    (roomy_pair host hFirst hSecond one two) hSmall
    (writable_pair host hFirst hSecond hOne hTwo)

include hOne hTwo in
/- What the writer makes of the two vectors. -/
theorem packTensors_pair : packTensors host [("a", one), ("b", two)] 64 false = .ok
    ({ tensors := finalBlocks host false
        (pairMetas hFirst hSecond one two) 64
       headerBytes := reserveFor host ((pairMetas hFirst hSecond one two).map Prod.fst) 64
       quantize := false },
      finalFile host false (pairMetas hFirst hSecond one two) 64) := by
  obtain ⟨hPacks, hLoose, -⟩ := packs_pair host hFirst hSecond hOne hTwo
  exact (packTensors_ok_iff host _ _ _ _ _).mpr ⟨64, _, hPacks, hLoose, rfl, rfl⟩

theorem coherent_bytesInfo (hNamed : isBoundedUtf8 name maxTensorNameBytes = true)
    (hSize : size ≤ maxTensorBytes) : Coherent (bytesInfo name size hNamed hSize).toRawMeta := by
  have hItem : dtypeSizes.lookup "uint8" = some 1 := by decide
  refine ⟨?_, ?_, ?_, fun _ => ⟨rfl, rfl⟩, ?_⟩
  · intro item hFound
    simp only [bytesInfo, hItem, Option.mem_some_iff] at hFound ⊢
    simp [← hFound]
  · intro scale hScale
    cases hScale
  · intro zero hZero
    cases hZero
  · intro hAffine
    cases hAffine

theorem endsInside_two_iff {alignment reserve : Nat} (hReserve : alignment ∣ reserve)
    (first second : Nat) :
    EndsInside alignment reserve [first, second] ↔ (second = 0 → alignment ∣ first) := by
  constructor
  · intro hEnds hEmpty
    exact hEnds [first] [second] rfl (by simp) (by simpa using hEmpty)
  · intro hDvd before after hSplit hSome hEmpty
    match before, hSplit with
    | [], _ => exact hReserve
    | [_], hSplit =>
      cases hSplit
      exact hDvd (hEmpty second mem_cons_self)
    | _ :: _ :: _, hSplit =>
      simp only [cons_append, List.cons.injEq, nil_eq, append_eq_nil_iff] at hSplit
      exact absurd hSplit.2.2.2 hSome

include hOne hTwo in
/- Only the end of the first vector matters. -/
theorem readable_pair_iff : Readable host false (pairMetas hFirst hSecond one two) 64 ↔
    (second.length = 0 → 64 ∣ first.length) := by
  have hReserve : 64 ∣ initialReserve 2 := by decide
  have hSizes : sizesOf (pairMetas hFirst hSecond one two) = [first.length, second.length] := rfl
  have hEnds : EndsInside 64 (if firstNeeded host
            ((pairMetas hFirst hSecond one two).map Prod.fst) 64 ≤
              initialReserve (pairMetas hFirst hSecond one two).length then
          initialReserve (pairMetas hFirst hSecond one two).length
        else 0) (sizesOf (pairMetas hFirst hSecond one two)) ↔
      (second.length = 0 → 64 ∣ first.length) := by
    rw [hSizes, endsInside_two_iff]
    split
    · exact hReserve
    · exact dvd_zero _
  constructor
  · intro hReadable
    exact hEnds.mp hReadable.ends
  · intro hDvd
    refine ⟨?_, ?_, hEnds.mpr hDvd, (packs_pair host hFirst hSecond hOne hTwo).2.2⟩
    · intro entry hEntry
      simp only [pairMetas, mem_cons, not_mem_nil, or_false] at hEntry
      rcases hEntry with rfl | rfl
      · exact coherent_bytesInfo (by decide) (short_le hFirst)
      · exact coherent_bytesInfo (by decide) (short_le hSecond)
    · intro entry hEntry dim hDim
      simp only [pairMetas, mem_cons, not_mem_nil, or_false] at hEntry
      rcases hEntry with rfl | rfl
      · rw [mem_singleton.mp hDim]
        omega
      · rw [mem_singleton.mp hDim]
        omega

end Pair

/- A host that decodes the manifest of two vectors. -/
def pairHost {first second : List UInt8} (hFirst : first.length < 100)
    (hSecond : second.length < 100) : Host :=
  plainHost.reading (finalBlocks plainHost false
    (pairMetas hFirst hSecond (byteVector first) (byteVector second)) 64)

----
-- Every Pack
----

/-
  A pack can be read back exactly when its metadata, its
  alignment and the order of its tensors give the readers
  what they ask for. `hLoads` is `json.loads` on what
  `json.dumps` wrote.
-/
theorem pack_read_back_iff (namedLoaders : List (String × Loader)) (alignment : Int)
    (quantize : Bool) (pack : ModelPack) (file : List UInt8)
    (hPack : packTensors host namedLoaders alignment quantize = .ok (pack, file))
    (hLoads : host.loads (manifestBytes host pack.tensors) = some (manifest pack.tensors)) :
    ReadBack host namedLoaders quantize pack file ↔ ∃ checked metas,
      validateAlignment alignment = .ok checked ∧
        describeAll host quantize namedLoaders = .ok metas ∧
        Readable host quantize metas checked := by
  obtain ⟨checked, metas, hPacks, hLoose, rfl, rfl⟩ := (packTensors_ok_iff host _ _ _ _ _).mp hPack
  rw [readBack_iff hPacks hLoose hLoads rfl]
  constructor
  · intro hReadable
    exact ⟨checked, metas, hPacks.aligned, hPacks.described, hReadable⟩
  · intro ⟨other, others, hAligned, hDescribed, hReadable⟩
    have hChecked : other = checked := Except.ok.inj (hAligned.symm.trans hPacks.aligned)
    have hMetas : others = metas := Except.ok.inj (hDescribed.symm.trans hPacks.described)
    rw [← hChecked, ← hMetas]
    exact hReadable

/- An empty tensor before sixteen bytes is read back. -/
theorem empty_first_read_back :
    ∃ host pack file, packTensors host (vectorPair [] (List.replicate 16 0)) 64 false =
        .ok (pack, file) ∧
      ReadBack host (vectorPair [] (List.replicate 16 0)) false pack file := by
  have hFirst : ([] : List UInt8).length < 100 := by decide
  have hSecond : (List.replicate 16 (0 : UInt8)).length < 100 := by decide
  have hPack := packTensors_pair (pairHost hFirst hSecond) hFirst hSecond
    (yields_byteVector _ _) (yields_byteVector _ _)
  have hPacks := (packs_pair (pairHost hFirst hSecond) hFirst hSecond
    (yields_byteVector _ _) (yields_byteVector _ _)).1
  refine ⟨_, _, _, hPack, ?_⟩
  refine (pack_read_back_iff _ _ _ _ _ _ hPack rfl).mpr
    ⟨64, _, hPacks.aligned, hPacks.described, ?_⟩
  exact (readable_pair_iff _ hFirst hSecond (yields_byteVector _ _) (yields_byteVector _ _)).mpr
    (fun hEmpty => nomatch hEmpty)

/-
  Sixteen bytes before an empty tensor: its block starts at
  the next multiple of 64, and no byte is written up to there.
-/
theorem empty_last_rejected :
    ∃ host pack file, packTensors host (vectorPair (List.replicate 16 0) []) 64 false =
        .ok (pack, file) ∧
      host.loads (manifestBytes host pack.tensors) = some (manifest pack.tensors) ∧
      ¬ ReadBack host (vectorPair (List.replicate 16 0) []) false pack file := by
  have hFirst : (List.replicate 16 (0 : UInt8)).length < 100 := by decide
  have hSecond : ([] : List UInt8).length < 100 := by decide
  obtain ⟨hPacks, hLoose, -⟩ := packs_pair (pairHost hFirst hSecond) hFirst hSecond
    (yields_byteVector _ _) (yields_byteVector _ _)
  refine ⟨_, _, _, packTensors_pair (pairHost hFirst hSecond) hFirst hSecond
      (yields_byteVector _ _) (yields_byteVector _ _),
    rfl, ?_⟩
  change ¬ ReadBack _ [("a", byteVector _), ("b", byteVector _)] _ _ _
  rw [readBack_iff hPacks hLoose rfl rfl, readable_pair_iff _ hFirst hSecond
    (yields_byteVector _ _) (yields_byteVector _ _)]
  intro hReadable
  have hDvd := hReadable rfl
  revert hDvd
  decide

end TensorTorrent.Pack
