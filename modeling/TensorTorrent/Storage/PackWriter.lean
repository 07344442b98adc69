import TensorTorrent.Library.Fallible
import TensorTorrent.Storage.Pack

/-
  What the two passes of the pack writer do, one lemma for
  each function: the first pass turns every loader into
  checked metadata, the second one writes every payload as
  one piece at the offset of its block.

  Main declarations:
    * `writePayloadChunked_iff`
    * `writeBlocks_iff`
-/

namespace TensorTorrent.Pack

open Fallible List

----
-- Pieces
----

@[simp] theorem Writing.piece_nil (writing : Writing) : writing.piece [] = writing := by
  have hCrc : Checksum.zlibCrc32 [] writing.crc = writing.crc := by simp [Checksum.zlibCrc32]
  simp [Writing.piece, Handle.write, hCrc]

/- Pieces in a row are one piece. -/
theorem Writing.piece_piece (writing : Writing) (first second : List UInt8) :
    (writing.piece first).piece second = writing.piece (first ++ second) := by
  simp only [Writing.piece, Handle.write, Files.write_write,
    Checksum.zlibCrc32_append, append_assoc, length_append, Nat.add_assoc]

theorem foldl_chunk (chunks : List (List UInt8)) (writing : Writing) :
    chunks.foldl .chunk writing = writing.piece chunks.flatten := by
  induction chunks generalizing writing with
  | nil => simp
  | cons chunk chunks ih =>
    have hChunk : writing.chunk chunk = writing.piece chunk := by
      unfold Writing.chunk
      split
      · next hEmpty => rw [hEmpty, Writing.piece_nil]
      · rfl
    rw [foldl_cons, ih, hChunk, Writing.piece_piece, flatten_cons]

theorem writeMemoryviewChunks_eq {chunk : Nat} (hChunk : 0 < chunk) {turns : Nat}
    {data : List UInt8} (hTurns : data.length ≤ turns) (writing : Writing) :
    writeMemoryviewChunks chunk turns data writing = writing.piece data := by
  induction turns generalizing data writing with
  | zero =>
    have hEmpty : data = [] := length_eq_zero_iff.mp (by omega)
    rw [hEmpty, Writing.piece_nil]
    rfl
  | succ turns ih =>
    unfold writeMemoryviewChunks
    split
    · next hEmpty => rw [hEmpty, Writing.piece_nil]
    rename_i hData
    have hPos := length_pos_iff.mpr hData
    have hRest : (data.drop chunk).length ≤ turns := by
      rw [length_drop]
      omega
    rw [ih hRest, Writing.piece_piece, take_append_drop]

/- The payloads that `memoryview.cast` accepts. -/
def Payload.casts : Payload → Bool
| chunked _ => true
| tensor shape _ => castsToBytes shape
| data _ => true

theorem writePayload_iff (payload : Payload) (writing result : Writing) :
    writePayload payload writing = .ok result ↔ payload.casts = true ∧
      result = writing.piece payload.bytes := by
  have hChunk : 0 < chunkBytes := by decide
  cases payload with
  | chunked chunks =>
    simp only [writePayload, Payload.casts, Payload.bytes, foldl_chunk, Except.ok.injEq, true_and]
    exact eq_comm
  | tensor shape bytes =>
    simp only [writePayload, Payload.casts, Payload.bytes, writeMemoryviewChunks_eq hChunk le_rfl]
    split
    · next hCasts =>
      simp only [hCasts, Except.ok.injEq, true_and]
      exact eq_comm
    · next hCasts => simp [hCasts]
  | data bytes =>
    simp only [writePayload, Payload.casts, Payload.bytes, writeMemoryviewChunks_eq hChunk le_rfl,
      Except.ok.injEq, true_and]
    exact eq_comm

----
-- One Block
----

variable (host : Host)

/- The handle after `data` was written at `offset`. -/
def Handle.writeAt (handle : Handle) (offset : Nat) (data : List UInt8) : Handle :=
  { file := Files.write 0 handle.file offset data, pos := offset + data.length }

theorem writePayloadChunked_iff (handle result : Handle) (payload : Payload) (offset expected : Nat)
    (checksum : String) (crc : UInt32) :
    writePayloadChunked host handle payload offset expected = .ok (result, checksum, crc) ↔
      offset < 2 ^ 63 ∧ payload.casts = true ∧ payload.bytes.length = expected ∧
        result = handle.writeAt offset payload.bytes ∧ checksum = hexdigest host payload.bytes ∧
        crc = Checksum.crc32Ieee payload.bytes := by
  unfold writePayloadChunked Handle.seek
  by_cases hSeek : 2 ^ 63 ≤ offset
  · have hNot : ¬ offset < 2 ^ 63 := by omega
    simp only [if_pos hSeek, hNot, false_and, iff_false]
    exact fun hOk => nomatch hOk
  · have hLess : offset < 2 ^ 63 := by omega
    rw [if_neg hSeek, bind_eq_ok_iff]
    constructor
    · rintro ⟨sought, hSought, hOk⟩
      cases hSought
      rw [bind_eq_ok_iff] at hOk
      obtain ⟨writing, hWriting, hOk⟩ := hOk
      obtain ⟨hCasts, rfl⟩ := (writePayload_iff _ _ _).mp hWriting
      split at hOk
      · cases hOk
      rename_i hCount
      cases hOk
      have hLength : payload.bytes.length = expected := by simpa [Writing.piece] using hCount
      refine ⟨hLess, hCasts, hLength, rfl, ?_, ?_⟩
      · simp [Writing.piece]
      · exact Checksum.zlibCrc32_zero _
    · rintro ⟨-, hCasts, hLength, rfl, rfl, rfl⟩
      refine ⟨_, rfl, ?_⟩
      rw [bind_eq_ok_iff]
      refine ⟨_, (writePayload_iff _ _ _).mpr ⟨hCasts, rfl⟩, ?_⟩
      rw [if_neg (by simpa [Writing.piece] using hLength)]
      simp only [Writing.piece, Handle.write, Handle.writeAt,
        nil_append, pure_eq_ok_iff, Checksum.zlibCrc32_zero]

theorem assertSameLayout_iff (expected actual : RawMeta) :
    assertSameLayout expected actual = .ok () ↔ changedFields expected actual = [] := by
  unfold assertSameLayout
  split
  · next hSame => simp [hSame]
  · next hChanged => simp [hChanged]

----
-- The Second Pass
----

section

variable (quantize : Bool) (info : Meta) (loader : Loader)

/- The payload that the loader returns in the second pass. -/
def reloaded : Except PackError (RawMeta × Payload) :=
  loader.second.mapError .loader >>= fun value => describeValue host info.name value quantize

/- Its bytes. -/
def payloadBytes : List UInt8 :=
  match reloaded host quantize info loader with
  | .ok (_, payload) => payload.bytes
  | .error _ => []

/- The loader comes back with a payload for its metadata. -/
def Reloads : Prop :=
  ∃ again payload, reloaded host quantize info loader = .ok (again, payload) ∧
    changedFields info.toRawMeta again = [] ∧ payload.casts = true

end

/- A block as the second pass leaves it. -/
def written (quantize : Bool) (entry : TensorBlock × Meta × Loader) : TensorBlock :=
  entry.1.checked (hexdigest host (payloadBytes host quantize entry.2.1 entry.2.2))
    (Checksum.crc32Ieee (payloadBytes host quantize entry.2.1 entry.2.2))

/- The file after the writes of the second pass. -/
def writeAll (quantize : Bool) (entries : List (TensorBlock × Meta × Loader))
    (handle : Handle) : Handle :=
  entries.foldl (fun handle entry =>
      handle.writeAt entry.1.offset (payloadBytes host quantize entry.2.1 entry.2.2))
    handle

/- What one turn of the second pass needs. -/
structure Writable (quantize : Bool) (entry : TensorBlock × Meta × Loader) : Prop where
  reloads : Reloads host quantize entry.2.1 entry.2.2
  sized : (payloadBytes host quantize entry.2.1 entry.2.2).length = entry.1.nbytes
  sought : entry.1.offset < 2 ^ 63

/- One turn: a value, its layout, its bytes, its checksums. -/
theorem writeBlocks_cons_iff (quantize : Bool) (entry : TensorBlock × Meta × Loader)
    (entries : List (TensorBlock × Meta × Loader)) (handle result : Handle)
    (blocks : List TensorBlock) :
    writeBlocks host quantize (entry :: entries) handle = .ok (result, blocks) ↔
      Writable host quantize entry ∧ ∃ rest, writeBlocks host quantize entries
              (handle.writeAt entry.1.offset (payloadBytes host quantize
                entry.2.1 entry.2.2)) = .ok (result, rest) ∧
            blocks = written host quantize entry :: rest := by
  obtain ⟨block, info, loader⟩ := entry
  have hTurn : writeBlocks host quantize ((block, info, loader) :: entries) handle =
      reloaded host quantize info loader >>= fun found =>
        assertSameLayout info.toRawMeta found.1 >>= fun _ =>
          writePayloadChunked host handle found.2 block.offset block.nbytes >>= fun wrote =>
            writeBlocks host quantize entries wrote.1 >>=
              fun rest => pure (rest.1, block.checked wrote.2.1 wrote.2.2 :: rest.2) := by
    simp only [writeBlocks, reloaded, bind_assoc]
  rw [hTurn, bind_eq_ok_iff]
  constructor
  · rintro ⟨⟨again, payload⟩, hFound, hRest⟩
    rw [bind_eq_ok_iff] at hRest
    obtain ⟨done, hSame, hRest⟩ := hRest
    rw [bind_eq_ok_iff] at hRest
    obtain ⟨⟨next, checksum, crc⟩, hWrote, hRest⟩ := hRest
    rw [bind_eq_ok_iff] at hRest
    obtain ⟨⟨final, rest⟩, hMore, hPure⟩ := hRest
    rw [pure_eq_ok_iff] at hPure
    cases hPure
    obtain ⟨hSought, hCasts, hSized, rfl, rfl, rfl⟩ :=
      (writePayloadChunked_iff host _ _ _ _ _ _ _).mp hWrote
    have hBytes : payloadBytes host quantize info loader = payload.bytes := by
      simp only [payloadBytes, hFound]
    refine ⟨⟨⟨again, payload, hFound, (assertSameLayout_iff _ _).mp hSame, hCasts⟩,
      by rw [hBytes]; exact hSized, hSought⟩, rest, ?_, ?_⟩
    · rw [hBytes]
      exact hMore
    · simp only [written, hBytes]
  · rintro ⟨⟨⟨again, payload, hFound, hSame, hCasts⟩, hSized, hSought⟩, rest, hMore, rfl⟩
    have hBytes : payloadBytes host quantize info loader = payload.bytes := by
      simp only [payloadBytes, hFound]
    simp only [hBytes] at hSized hMore
    refine ⟨_, hFound, ?_⟩
    rw [bind_eq_ok_iff]
    refine ⟨(), (assertSameLayout_iff _ _).mpr hSame, ?_⟩
    rw [bind_eq_ok_iff]
    refine ⟨_, (writePayloadChunked_iff host _ _ _ _ _ _ _).mpr
      ⟨hSought, hCasts, hSized, rfl, rfl, rfl⟩, ?_⟩
    rw [bind_eq_ok_iff]
    refine ⟨_, hMore, ?_⟩
    simp only [written, hBytes]
    rfl

theorem writeBlocks_iff (quantize : Bool) (entries : List (TensorBlock × Meta × Loader))
    (handle result : Handle) (blocks : List TensorBlock) :
    writeBlocks host quantize entries handle = .ok (result, blocks) ↔
      (∀ entry ∈ entries, Writable host quantize entry) ∧
        result = writeAll host quantize entries handle ∧
        blocks = entries.map (written host quantize) := by
  induction entries generalizing handle result blocks with
  | nil => simp [writeBlocks, writeAll, eq_comm]
  | cons entry entries ih =>
    rw [writeBlocks_cons_iff, forall_mem_cons]
    constructor
    · rintro ⟨hEntry, rest, hRest, rfl⟩
      obtain ⟨hEntries, rfl, rfl⟩ := (ih _ _ _).mp hRest
      exact ⟨⟨hEntry, hEntries⟩, rfl, rfl⟩
    · rintro ⟨⟨hEntry, hEntries⟩, rfl, rfl⟩
      exact ⟨hEntry, _, (ih _ _ _).mpr ⟨hEntries, rfl, rfl⟩, rfl⟩

----
-- The First Pass
----

variable {raw : RawMeta} {info : Meta}

theorem validateTensorMeta_raw (hOk : validateTensorMeta raw = .ok info) :
    info.toRawMeta = raw := by
  unfold validateTensorMeta at hOk
  split at hOk
  · split at hOk
    · split at hOk
      · split at hOk
        · split at hOk
          · split at hOk
            · cases hOk
              rfl
            · cases hOk
          · cases hOk
        · cases hOk
      · cases hOk
    · cases hOk
  · cases hOk

theorem validateTensorMeta_toRawMeta (info : Meta) :
    validateTensorMeta info.toRawMeta = .ok info := by
  simp only [validateTensorMeta, info.named, info.sized, info.stored, info.logical, info.storedName,
    info.logicalName, dif_pos, and_self]

variable {quantize : Bool}

theorem describeValue_name {name : String} {value : Value} {payload : Payload}
    (hOk : describeValue host name value quantize = .ok (raw, payload)) : raw.name = name := by
  cases value with
  | chunked source =>
    simp only [describeValue] at hOk
    split at hOk
    · cases hOk
    · cases hOk
      rfl
  | tensor tensor =>
    simp only [describeValue] at hOk
    split at hOk
    · rw [bind_eq_ok_iff] at hOk
      obtain ⟨stored, -, hStored⟩ := hOk
      cases hStored
      rfl
    · cases hOk
      rfl
  | dict data shape dtype =>
    cases hOk
    rfl

/- Metadata that a loader's first value has. -/
def Described (quantize : Bool) (info : Meta) (loader : Loader) : Prop :=
  ∃ value payload, loader.first = .ok value ∧ describeValue host info.name value quantize =
    .ok (info.toRawMeta, payload)

/- What the first pass knows about its tensors. -/
structure Collected (quantize : Bool) (namedLoaders : List (String × Loader))
    (metas : List (Meta × Loader)) : Prop where
  entries : metas.map (fun entry => (entry.1.name, entry.2)) = namedLoaders
  distinct : (metas.map (fun entry => entry.1.name)).Nodup
  bounded : metas.length ≤ maxTensorCount
  described : ∀ entry ∈ metas, Described host quantize entry.1 entry.2

theorem describeNext_collected {done : List (String × Loader)} {metas next : List (Meta × Loader)}
    {named : String × Loader} (hDone : Collected host quantize done metas)
    (hNext : describeNext host quantize metas named = .ok next) :
    Collected host quantize (done ++ [named]) next := by
  unfold describeNext at hNext
  split at hNext
  · cases hNext
  split at hNext
  · cases hNext
  rename_i hFresh
  rw [bind_eq_ok_iff] at hNext
  obtain ⟨value, hValue, hNext⟩ := hNext
  rw [mapError_eq_ok_iff] at hValue
  rw [bind_eq_ok_iff] at hNext
  obtain ⟨⟨raw, payload⟩, hRaw, hNext⟩ := hNext
  rw [bind_eq_ok_iff] at hNext
  obtain ⟨info, hInfo, hNext⟩ := hNext
  have hMeta := validateTensorMeta_raw hInfo
  have hName : info.name = named.1 := by
    rw [hMeta]
    exact describeValue_name host hRaw
  split at hNext
  · cases hNext
  rename_i hCount
  cases hNext
  refine ⟨?_, ?_, ?_, ?_⟩
  · rw [map_append, hDone.entries]
    simp [hName]
  · rw [map_append, nodup_append]
    refine ⟨hDone.distinct, by simp, ?_⟩
    intro first hFirst second hSecond hEq
    rw [map_singleton, mem_singleton, hName] at hSecond
    exact hFresh (hSecond ▸ hEq ▸ hFirst)
  · rw [length_append, length_singleton]
    omega
  · intro entry hEntry
    rcases mem_append.mp hEntry with hOld | hNew
    · exact hDone.described entry hOld
    rw [mem_singleton.mp hNew]
    refine ⟨value, payload, hValue, ?_⟩
    rw [hName, hMeta]
    exact hRaw

variable {metas : List (Meta × Loader)} {namedLoaders : List (String × Loader)}

theorem describeAll_collected (hOk : describeAll host quantize namedLoaders = .ok metas) :
    Collected host quantize namedLoaders metas := by
  have hStart : Collected host quantize [] [] := ⟨rfl, nodup_nil, Nat.zero_le _, by simp⟩
  apply foldlM_invariant (Collected host quantize) hStart _ hOk
  intro done state item next hDone hNext
  exact describeNext_collected host hDone hNext

/- A turn that finds metadata. -/
theorem describeNext_described {loader : Loader} (hDescribed : Described host quantize info loader)
    (hFresh : info.name ∉ metas.map (fun entry => entry.1.name))
    (hBounded : metas.length + 1 ≤ maxTensorCount) :
    describeNext host quantize metas (info.name, loader) = .ok (metas ++ [(info, loader)]) := by
  obtain ⟨value, payload, hFirst, hValue⟩ := hDescribed
  have hName : info.name ≠ "" := by
    have hBounded := info.named
    rw [isBoundedUtf8, decide_eq_true_eq] at hBounded
    exact hBounded.1
  simp only [describeNext, if_neg hName, if_neg hFresh, hFirst]
  refine (bind_eq_ok_iff _ _ _).mpr ⟨value, rfl, ?_⟩
  refine (bind_eq_ok_iff _ _ _).mpr ⟨_, hValue, ?_⟩
  refine (bind_eq_ok_iff _ _ _).mpr ⟨info, validateTensorMeta_toRawMeta info, ?_⟩
  rw [if_neg (by omega)]
  rfl

theorem describeAll_of_collected (hCollected : Collected host quantize namedLoaders metas) :
    describeAll host quantize namedLoaders = .ok metas := by
  obtain ⟨rfl, hDistinct, hBounded, hDescribed⟩ := hCollected
  induction metas using List.reverseRecOn with
  | nil => rfl
  | append_singleton metas entry ih =>
    rw [map_append, nodup_append] at hDistinct
    rw [length_append, length_singleton] at hBounded
    rw [forall_mem_append] at hDescribed
    have hRest := ih hDistinct.1 (by omega) hDescribed.1
    have hFresh : entry.1.name ∉ metas.map (fun entry => entry.1.name) :=
      fun hOld => hDistinct.2.2 _ hOld _ mem_cons_self rfl
    rw [describeAll] at hRest
    rw [describeAll, map_append, foldlM_append, hRest, map_singleton]
    refine (bind_eq_ok_iff _ _ _).mpr ⟨metas, rfl, ?_⟩
    rw [foldlM_cons]
    refine (bind_eq_ok_iff _ _ _).mpr ⟨_, ?_, rfl⟩
    exact describeNext_described host (hDescribed.2 entry mem_cons_self) hFresh hBounded

----
-- Errors of the Passes
----

/- The errors of the header's layout. -/
def PackError.ofHeader : PackError → Bool
| noLayout _ => true
| exceedsReserve _ _ => true
| _ => false

/- Errors that are not about the header. -/
def PackError.Other (err : PackError) : Prop :=
  err.ofHeader = false

open PackError (Other)

theorem validateAlignment_raises (alignment : Int) :
    Raises Other (validateAlignment alignment) := by
  unfold validateAlignment
  split
  · exact .error rfl
  · exact .ok _

theorem quantizePerTensor_raises (tensor : Tensor) :
    Raises Other (quantizePerTensor host tensor) := by
  unfold quantizePerTensor
  simp only []
  split
  · exact .ok _
  · exact .error rfl

theorem describeValue_raises (name : String) (value : Value) (quantize : Bool) :
    Raises Other (describeValue host name value quantize) := by
  unfold describeValue
  split
  · split
    · exact .error rfl
    · exact .ok _
  · split
    · apply (quantizePerTensor_raises host _).bind
      intro stored _
      exact .ok _
    · exact .ok _
  · exact .ok _

theorem validateTensorMeta_raises (raw : RawMeta) : Raises Other (validateTensorMeta raw) := by
  unfold validateTensorMeta
  split
  · split
    · split
      · split
        · split
          · split
            · exact .ok _
            · exact .error rfl
          · exact .error rfl
        · exact .error rfl
      · exact .error rfl
    · exact .error rfl
  · exact .error rfl

theorem loader_raises {α : Type} (called : Except String α) :
    Raises Other (called.mapError .loader) := by
  have hOther : ∀ message, Other (.loader message) := fun _ => rfl
  exact .mapError hOther called

theorem describeNext_raises (quantize : Bool) (metas : List (Meta × Loader))
    (named : String × Loader) :
    Raises Other (describeNext host quantize metas named) := by
  unfold describeNext
  split
  · exact .error rfl
  split
  · exact .error rfl
  apply (loader_raises _).bind
  intro value _
  apply (describeValue_raises host _ _ _).bind
  intro described _
  apply (validateTensorMeta_raises _).bind
  intro info _
  split
  · exact .error rfl
  · exact .ok _

theorem describeAll_raises (quantize : Bool) (namedLoaders : List (String × Loader)) :
    Raises Other (describeAll host quantize namedLoaders) :=
  Raises.foldlM (describeNext_raises host quantize) namedLoaders []

theorem seek_raises (handle : Handle) (offset : Nat) : Raises Other (handle.seek offset) := by
  unfold Handle.seek
  split
  · exact .error rfl
  · exact .ok _

theorem writePayload_raises (payload : Payload) (writing : Writing) :
    Raises Other (writePayload payload writing) := by
  unfold writePayload
  split
  · exact .ok _
  · split
    · exact .ok _
    · exact .error rfl
  · exact .ok _

theorem writePayloadChunked_raises (handle : Handle) (payload : Payload) (offset expected : Nat) :
    Raises Other (writePayloadChunked host handle payload offset expected) := by
  apply (seek_raises handle offset).bind
  intro sought _
  apply (writePayload_raises payload _).bind
  intro writing _
  split
  · exact .error rfl
  · exact .ok _

theorem assertSameLayout_raises (expected actual : RawMeta) :
    Raises Other (assertSameLayout expected actual) := by
  unfold assertSameLayout
  split
  · exact .ok _
  · exact .error rfl

theorem writeBlocks_raises (quantize : Bool) (entries : List (TensorBlock × Meta × Loader))
    (handle : Handle) : Raises Other (writeBlocks host quantize entries handle) := by
  induction entries generalizing handle with
  | nil => exact .ok _
  | cons entry entries ih =>
    obtain ⟨block, info, loader⟩ := entry
    unfold writeBlocks
    apply (loader_raises _).bind
    intro value _
    apply (describeValue_raises host _ _ _).bind
    intro described _
    apply (assertSameLayout_raises _ _).bind
    intro same _
    apply (writePayloadChunked_raises host _ _ _ _).bind
    intro wrote _
    apply (ih wrote.1).bind
    intro rest _
    exact .ok _

end TensorTorrent.Pack
