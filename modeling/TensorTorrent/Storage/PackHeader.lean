import TensorTorrent.Storage.PackWriter

/-
  The header of a pack is laid out before the checksums are
  known. This file counts the bytes of a manifest and says
  when the header that is written at the end still fits.

  Main declarations:
    * `length_manifestBytes`
    * `layOut_eq`
-/

namespace TensorTorrent.Pack

open Json Files Fallible List

variable (host : Host)

----
-- The Size of a Manifest
----

theorem length_utf8 (text : String) : (Spill.utf8 text).length = text.utf8ByteSize := by
  simp [Spill.utf8]

/- The text of one block in the manifest. -/
def entrySize (block : TensorBlock) : Nat :=
  (dumps host.floatText (blockEntry block)).utf8ByteSize

/- The text around the blocks. -/
def frameSize (tensors : Nat) : Nat :=
  47 + width tensors + 2 * (tensors - 1)

theorem length_manifestBytes (blocks : List TensorBlock) :
    (manifestBytes host blocks).length = frameSize blocks.length +
      (blocks.map (entrySize host)).sum := by
  rw [manifestBytes, length_utf8, manifest, size_dumps_object]
  simp only [map_cons, map_nil, sum_cons, sum_nil, size_dumps_list, length_map,
    map_map, size_dumps_nat, length_cons, length_nil]
  have hVersion : (quote "version").utf8ByteSize = 9 := by decide
  have hCount : (quote "tensor_count").utf8ByteSize = 14 := by decide
  have hTensors : (quote "tensors").utf8ByteSize = 9 := by decide
  have hOne : width packVersion = 1 := by decide
  have hEntries : (blocks.map ((fun item =>
      (dumps host.floatText item).utf8ByteSize) ∘ blockEntry)).sum =
      (blocks.map (entrySize host)).sum := by
    rfl
  rw [hVersion, hCount, hTensors, hOne, hEntries, frameSize]
  omega

/- Only its offset makes a block's text longer or shorter. -/
theorem entrySize_block (info : Meta) (alignment offset : Nat) :
    entrySize host (info.block alignment offset) + 1 =
      entrySize host (info.block alignment 0) + width offset := by
  have hZero : width 0 = 1 := by decide
  simp only [entrySize, blockEntry, Meta.block, size_dumps_object, map_append, map_cons,
    sum_append, sum_cons, length_append,
    length_cons, size_dumps_nat, hZero]
  omega

theorem plain_hexDigit (nibble : Fin 16) : Plain (hexDigit nibble) := by
  revert nibble
  simp only [Plain]
  decide

theorem size_quote_hexdigest (hashed : List UInt8) :
    (quote (hexdigest host hashed)).utf8ByteSize = 18 := by
  rw [hexdigest, size_quote_ofList]
  · simp
  · intro c hMem
    obtain ⟨nibble, _, rfl⟩ := mem_map.mp (mem_of_mem_take hMem)
    exact plain_hexDigit nibble

theorem size_quote_zeroChecksum : (quote zeroChecksum).utf8ByteSize = 18 := by
  rw [zeroChecksum, size_quote_ofList]
  · simp
  · intro c hMem
    rw [eq_of_mem_replicate hMem]
    exact plain_hexDigit 0

/- The checksum field: its name, its digits, a separator. -/
theorem entrySize_checked (info : Meta) (alignment offset : Nat) (hashed : List UInt8)
    (crc : UInt32) :
    entrySize host ((info.block alignment offset).checked (hexdigest host hashed) crc) =
      entrySize host (info.block alignment offset) + (20 + width crc.toNat) := by
  have hField : (quote "checksum_crc32").utf8ByteSize = 16 := by decide
  have hNew := size_quote_hexdigest host hashed
  have hOld := size_quote_zeroChecksum
  simp only [entrySize, blockEntry, Meta.block, TensorBlock.checked, size_dumps_object,
    map_append, map_cons, map_nil, sum_append, sum_cons, sum_nil,
    length_append, length_cons, length_nil,
    Option.map_some, Option.map_none, Option.toList_some, Option.toList_none, size_dumps_nat,
    size_dumps_str, hNew, hOld, hField]
  omega

----
-- Moving the Blocks
----

def TensorBlock.moved (shift : Nat) (block : TensorBlock) : TensorBlock :=
  { block with offset := block.offset + shift }

@[simp] theorem length_place (alignment : Nat) (metas : List Meta) (offset : Nat) :
    (place alignment metas offset).length = metas.length := by
  induction metas generalizing offset with
  | nil => rfl
  | cons info metas ih => simp [place, ih]

variable {alignment : Nat}

/- The first block is aligned in any case. -/
theorem place_alignUp (hPos : 0 < alignment) (metas : List Meta) (offset : Nat) :
    place alignment metas (alignUp offset alignment) = place alignment metas offset := by
  cases metas with
  | nil => rfl
  | cons info metas =>
    simp only [place, alignUp_of_dvd hPos (dvd_alignUp offset alignment)]

theorem place_add {shift : Nat} (hPos : 0 < alignment) (hShift : alignment ∣ shift)
    (metas : List Meta) (offset : Nat) :
    place alignment metas (offset + shift) = (place alignment metas offset).map (.moved shift) := by
  induction metas generalizing offset with
  | nil => rfl
  | cons info metas ih =>
    have hNext : alignUp offset alignment + shift + info.size =
        alignUp offset alignment + info.size + shift := by
      omega
    simp only [place, map_cons, alignUp_add offset hPos hShift, hNext, ih]
    rfl

variable {metas : List Meta} {block : TensorBlock}

theorem mem_place (hPos : 0 < alignment) {offset : Nat}
    (hMem : block ∈ place alignment metas offset) :
    ∃ info ∈ metas, ∃ start, block = info.block alignment start ∧
      alignUp offset alignment ≤ start := by
  induction metas generalizing offset with
  | nil => cases hMem
  | cons info metas ih =>
    simp only [place, mem_cons] at hMem
    rcases hMem with rfl | hMem
    · exact ⟨info, mem_cons_self, _, rfl, le_rfl⟩
    · obtain ⟨other, hOther, start, hBlock, hStart⟩ := ih hMem
      have hLe := le_alignUp (alignUp offset alignment + info.size) hPos
      exact ⟨other, mem_cons_of_mem _ hOther, start, hBlock, by omega⟩

/- Five more digits are the most that a move can add. -/
theorem entrySize_moved {offset shift : Nat} (hPos : 0 < alignment)
    (hMem : block ∈ place alignment metas offset)
    (hShift : shift ≤ (10 ^ 5 - 1) * alignUp offset alignment) :
    entrySize host (block.moved shift) ≤ entrySize host block + 5 := by
  obtain ⟨info, -, start, rfl, hStart⟩ := mem_place hPos hMem
  have hWidth : width (start + shift) ≤ width start + 5 := by
    apply width_le_of_le
    omega
  have hOld := entrySize_block host info alignment start
  have hNew := entrySize_block host info alignment (start + shift)
  have hMoved : (info.block alignment start).moved shift = info.block alignment (start + shift) :=
    rfl
  rw [hMoved]
  omega

theorem sum_moved_le {offset shift : Nat} (metas : List Meta) (hPos : 0 < alignment)
    (hShift : shift ≤ (10 ^ 5 - 1) * alignUp offset alignment) :
    (((place alignment metas offset).map (.moved shift)).map (entrySize host)).sum ≤
      ((place alignment metas offset).map (entrySize host)).sum + 5 * metas.length := by
  have hEach : ∀ blocks : List TensorBlock, (∀ block ∈ blocks,
        entrySize host (block.moved shift) ≤ entrySize host block + 5) →
      ((blocks.map (.moved shift)).map (entrySize host)).sum ≤
        (blocks.map (entrySize host)).sum + 5 * blocks.length := by
    intro blocks hBlocks
    induction blocks with
    | nil => simp
    | cons block blocks ih =>
      have hRest := ih (fun other hOther => hBlocks other (mem_cons_of_mem _ hOther))
      have hFirst := hBlocks block mem_cons_self
      simp only [map_cons, sum_cons, length_cons]
      omega
  have hPlaced := hEach (place alignment metas offset)
    (fun block hMem => entrySize_moved host hPos hMem hShift)
  rwa [length_place] at hPlaced

----
-- The Layout Loop
----

theorem needed_eq (blocks : List TensorBlock) :
    needed host blocks = 16 + frameSize blocks.length + (blocks.map (entrySize host)).sum := by
  have hMagic : magic.length = 8 := rfl
  rw [needed, length_manifestBytes, hMagic]
  omega

/- The header of the first round. -/
def firstNeeded (metas : List Meta) (alignment : Nat) : Nat :=
  needed host (place alignment metas (initialReserve metas.length))

/- The reserve that the loop ends with. -/
def reserveFor (metas : List Meta) (alignment : Nat) : Nat :=
  if firstNeeded host metas alignment ≤ initialReserve metas.length then
    initialReserve metas.length
  else
    alignUp (firstNeeded host metas alignment +
      firstNeeded host metas alignment / 8 + 1024) alignment

/- A second round has room for every later digit. -/
theorem needed_second_round (hPos : 0 < alignment)
    (hLimit : firstNeeded host metas alignment ≤ 16 + maxManifestBytes)
    (hLarge : initialReserve metas.length < firstNeeded host metas alignment) :
    needed host (place alignment metas (reserveFor host metas alignment)) + 30 * metas.length ≤
      reserveFor host metas alignment := by
  have hReserve : reserveFor host metas alignment = alignUp (firstNeeded host metas alignment +
        firstNeeded host metas alignment / 8 + 1024)
      alignment :=
    if_neg (by omega)
  generalize hFirst : firstNeeded host metas alignment = first at hLimit hLarge hReserve
  generalize hSecond : reserveFor host metas alignment = second at hReserve ⊢
  generalize hInitial : initialReserve metas.length = initial at hLarge
  have hInitialLow : 4096 ≤ initial ∧ 512 * (metas.length + 1) ≤ initial := by
    rw [← hInitial, initialReserve]
    omega
  have hRoom := le_alignUp (first + first / 8 + 1024) hPos
  have hClose := alignUp_lt (first + first / 8 + 1024) hPos
  have hStart := le_alignUp initial hPos
  have hBlock : alignment ≤ alignUp initial alignment :=
    Nat.le_of_dvd (by omega) (dvd_alignUp initial alignment)
  have hMono := alignUp_mono alignment (show initial ≤ first + first / 8 + 1024 by omega)
  obtain ⟨shift, hShift⟩ : ∃ shift, second = alignUp initial alignment + shift := by
    exact ⟨second - alignUp initial alignment, by omega⟩
  have hDvd : alignment ∣ shift := by
    have hSum : alignment ∣ alignUp initial alignment + shift := by
      rw [← hShift, hReserve]
      exact dvd_alignUp _ _
    exact (Nat.dvd_add_right (dvd_alignUp initial alignment)).mp hSum
  have hBound : shift ≤ (10 ^ 5 - 1) * alignUp initial alignment := by
    simp only [maxManifestBytes] at hLimit
    omega
  have hMoved := sum_moved_le host metas hPos hBound
  have hNeeded : needed host (place alignment metas second) ≤ first + 5 * metas.length := by
    rw [hShift, place_add hPos hDvd, place_alignUp hPos,
      needed_eq, length_map, length_place, ← hFirst,
      firstNeeded, hInitial, needed_eq, length_place]
    omega
  omega

theorem layOut_eq (hPos : 0 < alignment) :
    layOut host metas alignment 8 (initialReserve metas.length) =
      let first := place alignment metas
        (initialReserve metas.length)
      let last := place alignment metas
        (reserveFor host metas alignment)
      if maxManifestBytes < (manifestBytes host first).length
      then
        .error (.manifestTooLarge (manifestBytes host first).length)
      else if maxManifestBytes < (manifestBytes host last).length then
        .error (.manifestTooLarge (manifestBytes host last).length)
      else .ok (reserveFor host metas alignment, last) := by
  have hMagic : magic.length = 8 := rfl
  rw [layOut]
  simp only []
  split
  · rfl
  rename_i hLimit
  split
  · next hFits =>
    have hReserve : reserveFor host metas alignment = initialReserve metas.length := if_pos hFits
    rw [hReserve, if_neg hLimit]
  · next hLarge =>
    have hReserve : reserveFor host metas alignment = alignUp (firstNeeded host metas alignment +
          firstNeeded host metas alignment / 8 + 1024)
        alignment :=
      if_neg hLarge
    have hFirst : firstNeeded host metas alignment ≤ 16 + maxManifestBytes := by
      rw [firstNeeded, needed, hMagic]
      omega
    have hSecond := needed_second_round host hPos hFirst (by rw [firstNeeded]; omega)
    simp only [firstNeeded] at hReserve
    rw [← hReserve, layOut]
    split
    · rfl
    · rw [if_pos (by omega)]

----
-- The Header That Is Written
----

theorem length_header (blocks : List TensorBlock) :
    (header host blocks).length = needed host blocks := by
  simp only [header, needed, length_append, Bytes.length_toLe]
  omega

/- The text of the checksum fields of all blocks. -/
def checksumText (quantize : Bool) (metas : List (Meta × Loader)) : Nat :=
  (metas.map (fun entry =>
    20 + width (Checksum.crc32Ieee (payloadBytes host quantize entry.1 entry.2)).toNat)).sum

theorem checksumText_le (quantize : Bool) (metas : List (Meta × Loader)) :
    checksumText host quantize metas ≤ 30 * metas.length := by
  induction metas with
  | nil => rfl
  | cons entry metas ih =>
    have hCrc : width (Checksum.crc32Ieee (payloadBytes host quantize
        entry.1 entry.2)).toNat ≤ 10 := by
      rw [width_le_iff (by decide)]
      have hLt := (Checksum.crc32Ieee (payloadBytes host quantize entry.1 entry.2)).toNat_lt
      omega
    simp only [checksumText, map_cons, sum_cons, length_cons] at ih ⊢
    omega

/- The blocks of a pack with what they are made from. -/
def entriesAt (metas : List (Meta × Loader)) (alignment offset : Nat) :
    List (TensorBlock × Meta × Loader) :=
  (place alignment (metas.map Prod.fst) offset).zip metas

section

variable (quantize : Bool) (metas : List (Meta × Loader))

theorem sum_written (alignment offset : Nat) :
    (((entriesAt metas alignment offset).map (written host quantize)).map (entrySize host)).sum =
      ((place alignment (metas.map Prod.fst) offset).map (entrySize host)).sum +
        checksumText host quantize metas := by
  induction metas generalizing offset with
  | nil => rfl
  | cons entry metas ih =>
    have hRest := ih (alignUp offset alignment + entry.1.size)
    simp only [entriesAt, checksumText, map_cons, place,
      zip_cons_cons, sum_cons, written, entrySize_checked] at hRest ⊢
    omega

theorem needed_written (alignment offset : Nat) :
    needed host ((entriesAt metas alignment offset).map (written host quantize)) =
      needed host (place alignment (metas.map Prod.fst) offset) +
        checksumText host quantize metas := by
  have hLength : ((entriesAt metas alignment offset).map (written host quantize)).length =
      (place alignment (metas.map Prod.fst) offset).length := by
    simp [entriesAt]
  rw [needed_eq, needed_eq, sum_written, hLength]
  omega

/-
  The header fits in the first reserve as it is laid out, but
  not with the checksums of the payloads.
-/
def Tight (alignment : Nat) : Prop :=
  firstNeeded host (metas.map Prod.fst) alignment ≤ initialReserve metas.length ∧
    initialReserve metas.length < firstNeeded host (metas.map Prod.fst) alignment +
      checksumText host quantize metas

end

variable {quantize : Bool}

----
-- Whole Runs
----

variable {checked : Nat}

theorem validateAlignment_pos {alignment : Int} (hOk : validateAlignment alignment = .ok checked) :
    0 < checked := by
  unfold validateAlignment at hOk
  split at hOk
  · cases hOk
  · next hValid =>
    cases hOk
    omega

/- The layout stays within the limit for manifests. -/
def WithinLimit (metas : List Meta) (alignment : Nat) : Prop :=
  (manifestBytes host (place alignment metas (initialReserve metas.length))).length ≤
      maxManifestBytes ∧
    (manifestBytes host (place alignment metas (reserveFor host metas alignment))).length ≤
      maxManifestBytes

theorem firstNeeded_le (hWithin : WithinLimit host metas alignment) :
    firstNeeded host metas alignment ≤ 16 + maxManifestBytes := by
  have hMagic : magic.length = 8 := rfl
  have hFirst := hWithin.1
  rw [firstNeeded, needed, hMagic]
  omega

variable {blocks : List TensorBlock} {reserve : Nat}

theorem layOut_ok_iff (hPos : 0 < alignment) :
    layOut host metas alignment 8 (initialReserve metas.length) = .ok (reserve, blocks) ↔
      WithinLimit host metas alignment ∧ reserve = reserveFor host metas alignment ∧
        blocks = place alignment metas reserve := by
  rw [layOut_eq host hPos, WithinLimit]
  simp only []
  split
  · next hFirst =>
    have hNot := Nat.not_le.mpr hFirst
    simp only [hNot, false_and, iff_false]
    exact fun hOk => nomatch hOk
  · next hFirst =>
    split
    · next hLast =>
      have hNot := Nat.not_le.mpr hLast
      simp only [hNot, and_false, false_and, iff_false]
      exact fun hOk => nomatch hOk
    · next hLast =>
      have hWithin := And.intro (Nat.not_lt.mp hFirst) (Nat.not_lt.mp hLast)
      simp only [Except.ok.injEq, Prod.mk.injEq, hWithin, and_self, true_and]
      constructor
      · intro ⟨hReserve, hBlocks⟩
        exact ⟨hReserve.symm, by rw [← hReserve, hBlocks]⟩
      · intro ⟨hReserve, hBlocks⟩
        exact ⟨hReserve.symm, by rw [hBlocks, hReserve]⟩

theorem layOut_raises (hPos : 0 < alignment) : Raises PackError.Other (layOut host metas alignment 8
    (initialReserve metas.length)) := by
  rw [layOut_eq host hPos]
  simp only []
  split
  · exact .error rfl
  · split
    · exact .error rfl
    · exact .ok _

/- The file before the first payload. -/
def blankHandle (reserve : Nat) : Handle :=
  { file := List.replicate reserve 0, pos := reserve }

/- The reserve of tensors that come with their loaders. -/
abbrev reserveOf (metas : List (Meta × Loader)) (alignment : Nat) : Nat :=
  reserveFor host (metas.map Prod.fst) alignment

/- Their blocks behind it. -/
abbrev entriesOf (metas : List (Meta × Loader)) (alignment : Nat) :
    List (TensorBlock × Meta × Loader) :=
  entriesAt metas alignment (reserveOf host metas alignment)

/- The blocks of the pack that is written. -/
def finalBlocks (quantize : Bool) (metas : List (Meta × Loader))
    (alignment : Nat) : List TensorBlock :=
  (entriesAt metas alignment (reserveFor host (metas.map Prod.fst) alignment)).map
    (written host quantize)

/- The payloads first, then the header over its reserve. -/
def finalFile (quantize : Bool) (metas : List (Meta × Loader)) (alignment : Nat) : List UInt8 :=
  let reserve := reserveFor host (metas.map Prod.fst) alignment
  write 0 (writeAll host quantize (entriesAt metas alignment reserve) (blankHandle reserve)).file 0
    (header host (finalBlocks host quantize metas alignment))

theorem finish_ok_iff {handle : Handle} {pack : ModelPack} {file : List UInt8} :
    finish host quantize reserve handle blocks = .ok (pack, file) ↔ needed host blocks ≤ reserve ∧
      pack = { tensors := blocks, headerBytes := reserve, quantize := quantize } ∧
      file = write 0 handle.file 0 (header host blocks) := by
  unfold finish
  rw [length_header]
  split
  · next hLarge =>
    have hNot := Nat.not_le.mpr hLarge
    simp only [hNot, false_and, iff_false]
    exact fun hOk => nomatch hOk
  · next hFits =>
    have hLe := Nat.not_lt.mp hFits
    simp only [hLe, true_and]
    have hSeek : handle.seek 0 = .ok { handle with pos := 0 } := rfl
    rw [hSeek]
    constructor
    · intro hOk
      cases hOk
      exact ⟨rfl, rfl⟩
    · rintro ⟨rfl, rfl⟩
      rfl

/- What the writer needs to get through both passes. -/
structure Packs (namedLoaders : List (String × Loader)) (alignment : Int) (quantize : Bool)
    (metas : List (Meta × Loader)) (checked : Nat) : Prop where
  aligned : validateAlignment alignment = .ok checked
  described : describeAll host quantize namedLoaders = .ok metas
  within : WithinLimit host (metas.map Prod.fst) checked
  writable : ∀ entry ∈ entriesAt metas checked
    (reserveFor host (metas.map Prod.fst) checked), Writable host quantize entry

section Packs

variable {namedLoaders : List (String × Loader)} {alignment : Int} {metas : List (Meta × Loader)}
  (hPacks : Packs host namedLoaders alignment quantize metas checked)

include hPacks

theorem Packs.pos : 0 < checked :=
  validateAlignment_pos hPacks.aligned

/- The final header against the reserve. -/
theorem Packs.reserve_lt_iff :
    reserveOf host metas checked < needed host (finalBlocks host quantize metas checked) ↔
      Tight host quantize metas checked := by
  rw [reserveOf, finalBlocks, needed_written, Tight]
  by_cases hFits : firstNeeded host (metas.map Prod.fst) checked ≤ initialReserve metas.length
  · rw [reserveFor, length_map, if_pos hFits]
    simp only [hFits, true_and]
    rw [firstNeeded, length_map]
  · have hLarge : initialReserve (metas.map Prod.fst).length <
        firstNeeded host (metas.map Prod.fst) checked := by
      rw [length_map]
      omega
    have hRoom := needed_second_round host hPacks.pos (firstNeeded_le host hPacks.within) hLarge
    have hText := checksumText_le host quantize metas
    rw [length_map] at hRoom
    simp only [hFits, false_and, iff_false]
    omega

/- A tight header is found to be too long at the end. -/
theorem packTensors_tight (hTight : Tight host quantize metas checked) :
    packTensors host namedLoaders alignment quantize = .error (.exceedsReserve (needed host
      (finalBlocks host quantize metas checked)) (reserveOf host metas checked)) := by
  have hLaid := (layOut_ok_iff host hPacks.pos).mpr ⟨hPacks.within, rfl, rfl⟩
  rw [length_map] at hLaid
  have hWrote := (writeBlocks_iff host quantize _ (blankHandle (reserveOf host metas checked)) _
    _).mpr ⟨hPacks.writable, rfl, rfl⟩
  refine (bind_eq_error_iff _ _ _).mpr (.inr ⟨checked, hPacks.aligned, ?_⟩)
  refine (bind_eq_error_iff _ _ _).mpr (.inr ⟨metas, hPacks.described, ?_⟩)
  refine (bind_eq_error_iff _ _ _).mpr (.inr ⟨_, hLaid, ?_⟩)
  refine (bind_eq_error_iff _ _ _).mpr (.inr ⟨_, hWrote, ?_⟩)
  simp only [finish, length_header]
  exact if_pos (hPacks.reserve_lt_iff.mpr hTight)

end Packs

theorem packTensors_ok_iff (namedLoaders : List (String × Loader)) (alignment : Int)
    (quantize : Bool) (pack : ModelPack) (file : List UInt8) :
    packTensors host namedLoaders alignment quantize = .ok (pack, file) ↔
      ∃ checked metas, Packs host namedLoaders alignment quantize metas checked ∧
        ¬ Tight host quantize metas checked ∧ pack =
          { tensors :=
              finalBlocks host quantize metas checked
            headerBytes := reserveOf host metas checked, quantize := quantize } ∧
        file = finalFile host quantize metas checked := by
  unfold packTensors
  constructor
  · intro hOk
    rw [bind_eq_ok_iff] at hOk
    obtain ⟨checked, hAligned, hOk⟩ := hOk
    rw [bind_eq_ok_iff] at hOk
    obtain ⟨metas, hMetas, hOk⟩ := hOk
    rw [bind_eq_ok_iff] at hOk
    obtain ⟨⟨reserve, blocks⟩, hLaid, hOk⟩ := hOk
    rw [bind_eq_ok_iff] at hOk
    obtain ⟨⟨handle, final⟩, hWrote, hOk⟩ := hOk
    have hPos := validateAlignment_pos hAligned
    have hLength : (metas.map Prod.fst).length = metas.length := length_map _
    rw [← hLength, layOut_ok_iff host hPos] at hLaid
    obtain ⟨hWithin, hReserve, hBlocks⟩ := hLaid
    rw [hBlocks] at hWrote
    rw [hReserve] at hWrote hOk
    obtain ⟨hWritable, rfl, rfl⟩ := (writeBlocks_iff host _ _ _ _ _).mp hWrote
    obtain ⟨hFits, rfl, rfl⟩ := (finish_ok_iff host).mp hOk
    have hPacks : Packs host _ _ quantize metas checked := ⟨hAligned, hMetas, hWithin, hWritable⟩
    refine ⟨checked, metas, hPacks, ?_, rfl, rfl⟩
    intro hTight
    exact absurd hFits (Nat.not_le.mpr (hPacks.reserve_lt_iff.mpr hTight))
  · rintro ⟨checked, metas, hPacks, hLoose, rfl, rfl⟩
    have hLaid := (layOut_ok_iff host hPacks.pos).mpr ⟨hPacks.within, rfl, rfl⟩
    rw [length_map] at hLaid
    refine (bind_eq_ok_iff _ _ _).mpr ⟨checked, hPacks.aligned, ?_⟩
    refine (bind_eq_ok_iff _ _ _).mpr ⟨metas, hPacks.described, ?_⟩
    refine (bind_eq_ok_iff _ _ _).mpr ⟨_, hLaid, ?_⟩
    refine (bind_eq_ok_iff _ _ _).mpr
      ⟨_, (writeBlocks_iff host _ _ _ _ _).mpr ⟨hPacks.writable, rfl, rfl⟩, ?_⟩
    refine (finish_ok_iff host).mpr ⟨?_, rfl, rfl⟩
    exact Nat.not_lt.mp (hPacks.reserve_lt_iff.not.mpr hLoose)

section

variable (namedLoaders : List (String × Loader)) (alignment : Int) (quantize : Bool)

/- An error of the header comes from a tight one. -/
def FromTight (err : PackError) : Prop :=
  err.ofHeader = true → ∃ checked metas, Packs host namedLoaders alignment quantize metas checked ∧
    Tight host quantize metas checked

theorem packTensors_raises : Raises (FromTight host namedLoaders alignment quantize)
    (packTensors host namedLoaders alignment quantize) := by
  have hOther : ∀ err, PackError.Other err →
      FromTight host namedLoaders alignment quantize err := by
    intro err hOther hHeader
    rw [PackError.Other, hHeader] at hOther
    cases hOther
  unfold packTensors
  apply ((validateAlignment_raises alignment).mono hOther).bind
  intro checked hAligned
  have hPos := validateAlignment_pos hAligned
  apply ((describeAll_raises host quantize namedLoaders).mono hOther).bind
  intro metas hMetas
  have hLength : (metas.map Prod.fst).length = metas.length := length_map _
  rw [← hLength]
  apply ((layOut_raises host hPos).mono hOther).bind
  intro laid hLaid
  obtain ⟨reserve, blocks⟩ := laid
  rw [layOut_ok_iff host hPos] at hLaid
  obtain ⟨hWithin, hReserve, hBlocks⟩ := hLaid
  apply ((writeBlocks_raises host quantize _ _).mono hOther).bind
  intro wrote hWrote
  obtain ⟨handle, final⟩ := wrote
  rw [hBlocks, hReserve] at hWrote
  obtain ⟨hWritable, hHandle, hFinal⟩ := (writeBlocks_iff host _ _ _ _ _).mp hWrote
  intro err hErr hHeader
  have hPacks : Packs host _ _ quantize metas checked := ⟨hAligned, hMetas, hWithin, hWritable⟩
  refine ⟨checked, metas, hPacks, ?_⟩
  apply hPacks.reserve_lt_iff.mp
  simp only [finish, length_header] at hErr
  split at hErr
  · next hLarge =>
    rw [hFinal, hReserve] at hLarge
    exact hLarge
  · have hSeek : handle.seek 0 = .ok { handle with pos := 0 } := rfl
    rw [hSeek] at hErr
    cases hErr

end

/-
  The layout loop always finds a reserve. The writer fails
  over its header exactly when the tensors pass both passes
  and the header fits in the first reserve only as long as
  the checksum fields are missing.
-/
theorem pack_header_fits_iff (namedLoaders : List (String × Loader)) (alignment : Int)
    (quantize : Bool) :
    (∀ tensors, packTensors host namedLoaders alignment quantize ≠ .error (.noLayout tensors)) ∧
    ((∀ err, packTensors host namedLoaders alignment quantize = .error err → err.ofHeader = false) ↔
      ∀ checked metas, Packs host namedLoaders alignment quantize metas checked →
        ¬ Tight host quantize metas checked) := by
  have hRaises := packTensors_raises host namedLoaders alignment quantize
  refine ⟨?_, ?_, ?_⟩
  · intro tensors hError
    obtain ⟨checked, metas, hPacks, hTight⟩ := hRaises _ hError rfl
    rw [packTensors_tight host hPacks hTight] at hError
    cases hError
  · intro hNever checked metas hPacks hTight
    have hHeader := hNever _ (packTensors_tight host hPacks hTight)
    cases hHeader
  · intro hLoose err hError
    by_contra hHeader
    rw [Bool.not_eq_false] at hHeader
    obtain ⟨checked, metas, hPacks, hTight⟩ := hRaises err hError hHeader
    exact hLoose checked metas hPacks hTight

----
-- A Name That Leaves No Room
----

/- A host for tensors that need nothing of it. -/
def plainHost : Host where
  floatText _ := ""
  digest _ _ := 0
  element _ _ := .finite 0
  ratio value := value
  quantised _ _ := 0
  loads _ := none

/- A name of `length` times the same letter. -/
@[irreducible] def repeatedName (length : Nat) : String :=
  String.ofList (List.replicate length 'a')

/- An empty vector of bytes, in both passes. -/
def emptyVector : Loader where
  first := .ok (.dict (some []) (some [0]) none)
  second := .ok (.dict (some []) (some [0]) none)

theorem plain_repeated (length : Nat) : ∀ c ∈ List.replicate length 'a', Plain c := by
  intro c hMem
  rw [eq_of_mem_replicate hMem]
  simp only [Plain]
  decide

theorem repeatedName_bounded {length : Nat} (hPos : 0 < length)
    (hLe : length ≤ maxTensorNameBytes) :
    isBoundedUtf8 (repeatedName length) maxTensorNameBytes = true := by
  have hSize : (repeatedName length).utf8ByteSize = length := by
    rw [repeatedName, size_ofList, length_replicate]
    intro c hMem
    exact utf8Size_of_plain (plain_repeated length c hMem)
  have hName : repeatedName length ≠ "" := by
    intro hEmpty
    rw [hEmpty, String.utf8ByteSize_empty] at hSize
    omega
  rw [isBoundedUtf8, length_utf8, hSize, decide_eq_true_eq]
  exact ⟨hName, hLe⟩

def longName : String :=
  repeatedName 3780

def longInfo : Meta where
  name := longName
  nbytes := 0
  storedShape := [0]
  logicalShape := [0]
  storedDtype := "uint8"
  logicalDtype := "uint8"
  compression := .none
  scale := none
  zeroPoint := none
  named := repeatedName_bounded (by decide) (by decide)
  sized := by decide
  stored := by decide
  logical := by decide
  storedName := by decide
  logicalName := by decide

theorem longInfo_described : Described plainHost false longInfo emptyVector :=
  ⟨_, _, rfl, rfl⟩

/- The names of the fields that every block has. -/
def fieldNames : List String :=
  ["logical_id", "offset", "nbytes", "stored_shape",
    "logical_shape", "stored_dtype", "logical_dtype", "layout", "compression", "alignment", "shard",
    "checksum"]

/- The entry of an uncompressed block without a checksum. -/
theorem entrySize_plain (info : Meta) (alignment offset : Nat)
    (hCompression : info.compression = .none) (hScale : info.scale = none)
    (hZero : info.zeroPoint = none) :
    entrySize host (info.block alignment offset) = 223 + (quote info.name).utf8ByteSize +
      width offset + width info.size +
      (dumps host.floatText (ints info.storedShape)).utf8ByteSize +
      (dumps host.floatText (ints info.logicalShape)).utf8ByteSize +
      (quote info.storedDtype).utf8ByteSize + (quote info.logicalDtype).utf8ByteSize +
      width alignment := by
  have hNames : (fieldNames.map (fun name =>
      (quote name).utf8ByteSize)).sum = 135 := by
    decide
  have hLayout : (quote TensorLayout.contiguous.value).utf8ByteSize = 12 := by decide
  have hNone : (quote CompressionKind.none.value).utf8ByteSize = 6 := by decide
  have hNull : (dumps host.floatText .null).utf8ByteSize = 4 := by
    rw [dumps]
    rfl
  have hChecksum := size_quote_zeroChecksum
  simp only [fieldNames, map_cons, map_nil, sum_cons, sum_nil] at hNames
  simp only [entrySize, blockEntry, Meta.block, hCompression,
    hScale, hZero, size_dumps_object, map_append,
    map_cons, map_nil, sum_append, sum_cons, sum_nil, length_append,
    length_cons, length_nil, Option.map_none, Option.toList_none, Option.getD_none,
    size_dumps_nat, size_dumps_str, hLayout, hNone, hNull, hChecksum]
  linear_combination hNames

/- One byte short: the header has no room for the checksum. -/
theorem longInfo_block_size : entrySize plainHost (longInfo.block 64 4096) = 4032 := by
  have hName : (quote longName).utf8ByteSize = 3782 := by
    rw [longName, repeatedName, size_quote_ofList (plain_repeated 3780), length_replicate]
  have hShape : (dumps plainHost.floatText (ints [0])).utf8ByteSize = 3 := by
    rw [ints, size_dumps_list]
    rfl
  have hDtype : (quote "uint8").utf8ByteSize = 7 := by decide
  have hOffset : width 4096 = 4 := by decide
  have hSize : width longInfo.size = 1 := by decide
  have hAlignment : width 64 = 2 := by decide
  rw [entrySize_plain plainHost longInfo 64 4096 rfl rfl rfl, hOffset, hSize, hAlignment]
  simp only [longInfo, hName, hShape, hDtype]

theorem longInfo_place : place 64 [longInfo] 4096 = [longInfo.block 64 4096] := by
  have hAligned : alignUp 4096 64 = 4096 := by decide
  simp only [place, hAligned]

theorem longInfo_needed : firstNeeded plainHost [longInfo] 64 = 4096 := by
  have hReserve : initialReserve 1 = 4096 := by decide
  have hFrame : frameSize 1 = 48 := by decide
  rw [firstNeeded, length_singleton, hReserve, needed_eq, longInfo_place]
  simp only [length_singleton, map_cons, map_nil, sum_cons, sum_nil, longInfo_block_size, hFrame]
  rfl

theorem longInfo_reserve : reserveFor plainHost [longInfo] 64 = 4096 := by
  rw [reserveFor, longInfo_needed]
  rfl

theorem longInfo_packs :
    Packs plainHost [(longName, emptyVector)] 64 false [(longInfo, emptyVector)] 64 where
  aligned := rfl
  described := describeAll_of_collected plainHost ⟨rfl, nodup_singleton _, by decide,
    forall_mem_singleton.mpr longInfo_described⟩
  within := by
    have hMagic : magic.length = 8 := rfl
    have hNeeded := longInfo_needed
    have hSize : (manifestBytes plainHost (place 64 [longInfo] 4096)).length ≤
        maxManifestBytes := by
      rw [firstNeeded, needed, hMagic] at hNeeded
      have hReserve : initialReserve [longInfo].length = 4096 := by decide
      rw [hReserve] at hNeeded
      simp only [maxManifestBytes]
      omega
    refine ⟨hSize, ?_⟩
    simp only [map_cons, map_nil]
    rw [longInfo_reserve]
    exact hSize
  writable := by
    simp only [map_cons, map_nil]
    rw [longInfo_reserve]
    intro entry hEntry
    have hEntryEq : entry = (longInfo.block 64 4096, longInfo, emptyVector) := by
      simpa [entriesAt, longInfo_place] using hEntry
    rw [hEntryEq]
    exact ⟨⟨_, _, rfl, rfl, rfl⟩, rfl, by decide⟩

/- A legal name of 3780 letters cannot be packed. -/
theorem long_name_exceeds_reserve :
    ∃ header, packTensors plainHost [(longName, emptyVector)] 64 false =
      .error (.exceedsReserve header 4096) := by
  have hTight : Tight plainHost false [(longInfo, emptyVector)] 64 := by
    refine ⟨?_, ?_⟩
    · simp only [map_cons, map_nil]
      rw [longInfo_needed]
      decide
    · simp only [map_cons, map_nil]
      rw [longInfo_needed]
      decide
  have hFails := packTensors_tight plainHost longInfo_packs hTight
  simp only [reserveOf, map_cons, map_nil] at hFails
  rw [longInfo_reserve] at hFails
  exact ⟨_, hFails⟩

end TensorTorrent.Pack
