import TensorTorrent.Library.Bytes
import TensorTorrent.Memory.Residency

/-
  This file models activation spill files (crate
  `tt-storage`: `spill.rs`, `error.rs`). A file is its list
  of bytes. Directories, names and the disk itself are left
  out; the free space of the disk is an argument. The
  allocator has room, and `usize` has 64 bits.

  Main declarations:
    * `Spill.spill_files_round_trip`
-/

namespace TensorTorrent

open Bytes List

----
-- Errors and Checked Arithmetic
----

inductive StorageError where
| io (message : String)
| invalid (message : String)
| checksumMismatch (tensor expected got : String)
| bounds (offset length fileSize : Nat)
| excessiveAllocation (bytes : Nat)
| spillDirUnsuitable (message : String)
| diskSpace (path : String) (needed free : Nat)
deriving DecidableEq

/- Display text of a storage error. -/
def StorageError.message : StorageError → String
| io message => "pack I/O: " ++ message
| invalid message => "invalid pack: " ++ message
| checksumMismatch tensor expected got =>
  "checksum mismatch for tensor " ++ tensor ++ ": expected " ++ expected ++ ", got " ++ got
| bounds offset length fileSize =>
  "offset overflow or out of bounds: offset=" ++
    toString offset ++ " length=" ++ toString length ++
    " file_size=" ++ toString fileSize
| excessiveAllocation bytes => "excessive allocation request: " ++ toString bytes ++ " bytes"
| spillDirUnsuitable message => "spill dir unsuitable: " ++ message
| diskSpace path needed free =>
  "insufficient disk space at " ++ path ++ ": need " ++ toString needed ++
    " bytes plus safety margin, only " ++
    toString free ++ " bytes free"

/- `u64::checked_add`. -/
def checkedAdd (a b : Nat) : Option Nat :=
  if a + b < 2 ^ 64 then some (a + b) else none

/- `u64::saturating_mul`. -/
def saturatingMul (a b : Nat) : Nat :=
  min (a * b) (2 ^ 64 - 1)

theorem checkedAdd_eq {a b : Nat} (hFits : a + b < 2 ^ 64) : checkedAdd a b = some (a + b) :=
  if_pos hFits

namespace Spill

----
-- The Format
----

/- `b"SCSPILL1"`. -/
def magic : List UInt8 :=
  [0x53, 0x43, 0x53, 0x50, 0x49, 0x4c, 0x4c, 0x31]

def maxDtypeBytes : Nat := 256

def maxTensorRank : Nat := 64

def maxSpillBytes : Nat := 64 * 1024 * 1024 * 1024

def spillFreeSpaceMargin : Nat := 64 * 1024 * 1024

structure SpillMeta where
  dtype : String
  shape : List Int64
  nbytes : UInt64
deriving DecidableEq

/- `str::as_bytes`. -/
def utf8 (text : String) : List UInt8 :=
  text.toUTF8.data.toList

/- `i64::to_le_bytes`. -/
def dimBytes (dim : Int64) : List UInt8 :=
  toLe 8 dim.toUInt64.toNat

/- The bytes of the `write_all` calls, in their order. -/
def contents (info : SpillMeta) (bytes : List UInt8) : List UInt8 :=
  magic ++ (toLe 4 (utf8 info.dtype).length ++ (utf8 info.dtype ++ (toLe 4 info.shape.length ++
    (info.shape.flatMap dimBytes ++ (toLe 8 info.nbytes.toNat ++ bytes)))))

/-
  Writes the file of an activation. `free` is what
  `free_space_bytes` knows about the directory.
-/
def writeActivationSpill (dir : String) (free : Option Nat) (info : SpillMeta)
    (bytes : List UInt8) : Except StorageError (List UInt8) :=
  if bytes.length ≠ info.nbytes.toNat then
    .error (.io ("spill nbytes mismatch: meta=" ++ toString info.nbytes.toNat ++ " bytes=" ++
      toString bytes.length))
  else if (utf8 info.dtype).length = 0 ∨ (utf8 info.dtype).length > maxDtypeBytes then
    .error (.invalid "invalid spill dtype")
  else if info.shape.length > maxTensorRank ∨
      info.shape.any (fun dim => decide (dim < 0)) = true then
    .error (.invalid "invalid spill shape")
  else if info.nbytes.toNat > maxSpillBytes then
    .error (.excessiveAllocation info.nbytes.toNat)
  else
    match free with
    | some available =>
      if saturatingAdd 64 info.nbytes.toNat spillFreeSpaceMargin > available then
        .error (.diskSpace dir info.nbytes.toNat available)
      else .ok (contents info bytes)
    | none => .ok (contents info bytes)

----
-- Reading
----

/- `read_exact` at the end of the file. -/
def shortRead : StorageError :=
  .io "failed to fill whole buffer"

/- One turn of the loop over the dimensions. -/
def readDim : Reader StorageError Int64 := do
  let bits ← le shortRead 8
  let dim := Int64.ofUInt64 (UInt64.ofNat bits)
  if dim < 0 then
    throw (.invalid "negative spill tensor dimension")
  else return dim

/- `header_size.checked_add(nbytes)`, with its header. -/
def expectedSize (dtypeLen ndim nbytes : Nat) : Except StorageError Nat :=
  match (((checkedAdd 8 4).bind (checkedAdd · dtypeLen)).bind (checkedAdd · 4)).bind (fun size =>
    (checkedAdd size (saturatingMul ndim 8)).bind (checkedAdd · 8)) with
  | none => .error (.invalid "spill header size overflow")
  | some header =>
    match checkedAdd header nbytes with
    | none => .error (.invalid "spill file size overflow")
    | some size => .ok size

/- The last part: the size of the whole file, the payload. -/
def readPayload (fileSize : Nat) (dtypeLen : Nat) (dtype : String) (shape : List Int64)
    (nbytes : Nat) : Reader StorageError (SpillMeta × List UInt8) := do
  if nbytes > maxSpillBytes then
    throw (.excessiveAllocation nbytes)
  else
    match expectedSize dtypeLen shape.length nbytes with
    | .error err => throw err
    | .ok expected =>
      if expected ≠ fileSize then
        throw (.invalid ("spill file size mismatch: " ++
          "encoded=" ++ toString expected ++ " actual=" ++ toString fileSize))
      else do
        let bytes ← readExact shortRead nbytes
        return ({ dtype := dtype, shape := shape, nbytes := UInt64.ofNat nbytes }, bytes)

section Read

/- The standard library's text for invalid UTF-8. -/
variable (utf8Error : List UInt8 → String) (path : String)

def readDtype (dtypeLen : Nat) :
    Reader StorageError String := do
  let bytes ← readExact shortRead dtypeLen
  match String.fromUTF8? ⟨bytes.toArray⟩ with
  | none => throw (.io ("spill dtype utf8: " ++ utf8Error bytes))
  | some dtype => return dtype

def reader (fileSize : Nat) :
    Reader StorageError (SpillMeta × List UInt8) := do
  let found ← readExact shortRead 8
  if found ≠ magic then
    throw (.io ("bad spill magic in " ++ path))
  else do
    let dtypeLen ← le shortRead 4
    if dtypeLen = 0 ∨ dtypeLen > maxDtypeBytes then
      throw (.invalid "invalid spill dtype length")
    else do
      let dtype ← readDtype utf8Error dtypeLen
      let ndim ← le shortRead 4
      if ndim > maxTensorRank then
        throw (.invalid "invalid spill tensor rank")
      else do
        let shape ← many readDim ndim
        let nbytes ← le shortRead 8
        readPayload fileSize dtypeLen dtype shape nbytes

/- Bytes after the payload are not looked at. -/
def readActivationSpill (file : List UInt8) : Except StorageError (SpillMeta × List UInt8) :=
  ((reader utf8Error path file.length) file).map Prod.fst

end Read

----
-- What Is Accepted
----

/- Activations that can be spilled. -/
structure Spillable (info : SpillMeta) (bytes : List UInt8) : Prop where
  nbytes : bytes.length = info.nbytes.toNat
  dtype_pos : 0 < (utf8 info.dtype).length
  dtype_le : (utf8 info.dtype).length ≤ maxDtypeBytes
  rank : info.shape.length ≤ maxTensorRank
  dims : ∀ dim ∈ info.shape, ¬ dim < 0
  bound : info.nbytes.toNat ≤ maxSpillBytes

/- The disk keeps its margin. -/
def Fits (free : Option Nat) (info : SpillMeta) : Prop :=
  ∀ available, free = some available →
    saturatingAdd 64 info.nbytes.toNat spillFreeSpaceMargin ≤ available

theorem write_iff (dir : String) (free : Option Nat) (info : SpillMeta) (bytes file : List UInt8) :
    writeActivationSpill dir free info bytes = .ok file ↔
      Spillable info bytes ∧ Fits free info ∧ file = contents info bytes := by
  unfold writeActivationSpill
  constructor
  · intro hOk
    split at hOk
    · cases hOk
    rename_i hBytes
    split at hOk
    · cases hOk
    rename_i hDtype
    split at hOk
    · cases hOk
    rename_i hShape
    split at hOk
    · cases hOk
    rename_i hBound
    have hSpillable : Spillable info bytes :=
      { nbytes := not_not.mp hBytes
        dtype_pos := by omega
        dtype_le := by omega
        rank := by omega
        dims := by
          intro dim hDim hNegative
          apply hShape
          right
          rw [any_eq_true]
          exact ⟨dim, hDim, by simpa using hNegative⟩
        bound := by omega }
    refine ⟨hSpillable, ?_⟩
    split at hOk
    · next available =>
      split at hOk
      · cases hOk
      rename_i hRoom
      cases hOk
      refine ⟨?_, rfl⟩
      intro found hFound
      cases hFound
      omega
    · cases hOk
      refine ⟨?_, rfl⟩
      intro found hFound
      cases hFound
  · rintro ⟨hSpillable, hFits, rfl⟩
    have hPos := hSpillable.dtype_pos
    have hDtype := hSpillable.dtype_le
    have hRank := hSpillable.rank
    have hBound := hSpillable.bound
    have hDims : ¬ info.shape.any (fun dim => decide (dim < 0)) = true := by
      rw [any_eq_true]
      rintro ⟨dim, hDim, hNegative⟩
      exact hSpillable.dims dim hDim (by simpa using hNegative)
    rw [if_neg (not_not.mpr hSpillable.nbytes), if_neg (by omega), if_neg (by
        rintro (hMore | hAny)
        · omega
        · exact hDims hAny),
      if_neg (by omega)]
    cases free with
    | none => rfl
    | some available =>
      have hRoom := hFits available rfl
      exact if_neg (by omega)

/- The size of a header within the limits is exact. -/
theorem expectedSize_eq {dtypeLen ndim nbytes : Nat} (hDtype : dtypeLen ≤ maxDtypeBytes)
    (hRank : ndim ≤ maxTensorRank) (hBytes : nbytes ≤ maxSpillBytes) :
    expectedSize dtypeLen ndim nbytes = .ok (24 + dtypeLen + 8 * ndim + nbytes) := by
  unfold maxDtypeBytes at hDtype
  unfold maxTensorRank at hRank
  unfold maxSpillBytes at hBytes
  have hMul : saturatingMul ndim 8 = 8 * ndim := by
    unfold saturatingMul
    omega
  have hHeader : (((checkedAdd 8 4).bind (checkedAdd · dtypeLen)).bind
      (checkedAdd · 4)).bind (fun size =>
        (checkedAdd size (saturatingMul ndim 8)).bind (checkedAdd · 8)) =
      some (24 + dtypeLen + 8 * ndim) := by
    rw [hMul, checkedAdd_eq (by norm_num), Option.bind_some,
      checkedAdd_eq (by omega), Option.bind_some,
      checkedAdd_eq (by omega), Option.bind_some,
      checkedAdd_eq (by omega), Option.bind_some,
      checkedAdd_eq (by omega)]
    congr 1
    omega
  unfold expectedSize
  rw [hHeader]
  simp only [checkedAdd_eq (show 24 + dtypeLen + 8 * ndim + nbytes < 2 ^ 64 by
    omega)]

theorem length_contents (info : SpillMeta) (bytes : List UInt8) :
    (contents info bytes).length = 24 + (utf8 info.dtype).length + 8 * info.shape.length +
      bytes.length := by
  have hDims : (info.shape.flatMap dimBytes).length = 8 * info.shape.length := by
    induction info.shape with
    | nil => rfl
    | cons dim dims ih =>
      simp [flatMap_cons, ih, dimBytes]
      omega
  simp only [contents, length_append, magic, length_cons, length_nil, length_toLe, hDims]
  omega

----
-- Readers of the Fields
----

theorem reads_dim : Reads readDim (fun dim => ¬ dim < 0) dimBytes := by
  intro bytes dim rest
  unfold readDim
  rw [(reads_le shortRead 8).bind_iff]
  constructor
  · rintro ⟨bits, middle, hBits, rfl, hNext⟩
    rw [check_iff, pure_iff] at hNext
    rcases hNext with ⟨hSign, rfl, rfl⟩
    refine ⟨hSign, ?_⟩
    have hSame : (UInt64.ofNat bits).toNat = bits := UInt64.toNat_ofNat_of_lt' hBits
    rw [dimBytes, hSame]
  · rintro ⟨hSign, rfl⟩
    refine ⟨dim.toUInt64.toNat, rest, dim.toUInt64.toNat_lt, rfl, ?_⟩
    rw [UInt64.ofNat_toNat, check_iff, pure_iff]
    exact ⟨hSign, rfl, rfl⟩

theorem fromUTF8?_iff (bytes : List UInt8) (text : String) :
    String.fromUTF8? ⟨bytes.toArray⟩ = some text ↔ bytes = utf8 text := by
  unfold String.fromUTF8? utf8 String.toUTF8
  constructor
  · intro hSome
    split at hSome
    · cases hSome
      rfl
    · cases hSome
  · rintro rfl
    rw [dif_pos text.isValidUTF8]
    rfl

theorem reads_dtype (utf8Error : List UInt8 → String) (dtypeLen : Nat) :
    Reads (readDtype utf8Error dtypeLen) (fun dtype => (utf8 dtype).length = dtypeLen) utf8 := by
  intro bytes dtype rest
  unfold readDtype
  rw [(reads_readExact shortRead dtypeLen).bind_iff]
  constructor
  · rintro ⟨front, middle, hLength, rfl, hNext⟩
    cases hText : String.fromUTF8? ⟨front.toArray⟩ with
    | none =>
      simp only [hText] at hNext
      exact absurd hNext (throw_ne_ok _ _ _)
    | some text =>
      simp only [hText] at hNext
      rcases (pure_iff _ _ _ _).mp hNext with ⟨rfl, rfl⟩
      rw [fromUTF8?_iff] at hText
      subst hText
      exact ⟨hLength, rfl⟩
  · rintro ⟨hLength, rfl⟩
    refine ⟨utf8 dtype, rest, hLength, rfl, ?_⟩
    rw [(fromUTF8?_iff _ _).mpr rfl]
    exact (pure_iff _ _ _ _).mpr ⟨rfl, rfl⟩

----
-- Round Trips
----

/-
  The payload is what is left of a file of the right size.
-/
theorem readPayload_iff {fileSize dtypeLen nbytes : Nat} {dtype : String} {shape : List Int64}
    (hDtype : dtypeLen ≤ maxDtypeBytes) (hRank : shape.length ≤ maxTensorRank) (input : List UInt8)
    (info : SpillMeta) (bytes rest : List UInt8) :
    readPayload fileSize dtypeLen dtype shape nbytes input = .ok ((info, bytes), rest) ↔
      nbytes ≤ maxSpillBytes ∧ 24 + dtypeLen + 8 * shape.length + nbytes = fileSize ∧
        bytes.length = nbytes ∧ input = bytes ++ rest ∧
        info = { dtype := dtype, shape := shape
                 nbytes := UInt64.ofNat nbytes } := by
  unfold readPayload
  rw [check_iff, not_lt]
  refine and_congr_right fun hBytes => ?_
  rw [expectedSize_eq hDtype hRank hBytes]
  simp only []
  rw [check_iff, not_not]
  refine and_congr_right fun _ => ?_
  rw [(reads_readExact shortRead nbytes).bind_iff]
  constructor
  · rintro ⟨found, middle, hLength, rfl, hNext⟩
    rcases (pure_iff _ _ _ _).mp hNext with ⟨hPair, rfl⟩
    cases hPair
    exact ⟨hLength, rfl, rfl⟩
  · rintro ⟨hLength, rfl, rfl⟩
    exact ⟨bytes, rest, hLength, rfl, (pure_iff _ _ _ _).mpr ⟨rfl, rfl⟩⟩

/-
  Each field is followed from the front of the file; the
  limits are those of the writer.
-/
theorem reader_iff (utf8Error : List UInt8 → String) (path : String) (fileSize : Nat)
    (input : List UInt8) (info : SpillMeta) (bytes rest : List UInt8) :
    reader utf8Error path fileSize input = .ok ((info, bytes), rest) ↔
      Spillable info bytes ∧ (contents info bytes).length = fileSize ∧
        input = contents info bytes ++ rest := by
  unfold reader
  rw [(reads_readExact shortRead 8).bind_iff]
  constructor
  · rintro ⟨found, input₁, _, rfl, hNext⟩
    rw [check_iff, not_not] at hNext
    rcases hNext with ⟨rfl, hNext⟩
    rw [(reads_le shortRead 4).bind_iff] at hNext
    rcases hNext with ⟨dtypeLen, input₂, _, rfl, hNext⟩
    rw [check_iff] at hNext
    rcases hNext with ⟨hDtype, hNext⟩
    rw [(reads_dtype utf8Error dtypeLen).bind_iff] at hNext
    rcases hNext with ⟨dtype, input₃, rfl, rfl, hNext⟩
    rw [(reads_le shortRead 4).bind_iff] at hNext
    rcases hNext with ⟨ndim, input₄, _, rfl, hNext⟩
    rw [check_iff] at hNext
    rcases hNext with ⟨hRank, hNext⟩
    rw [(reads_dim.many ndim).bind_iff] at hNext
    rcases hNext with ⟨shape, input₅, ⟨rfl, hDims⟩, rfl, hNext⟩
    rw [(reads_le shortRead 8).bind_iff] at hNext
    rcases hNext with ⟨nbytes, input₆, hWidth, rfl, hNext⟩
    rw [readPayload_iff (by omega) (by omega)] at hNext
    rcases hNext with ⟨hBound, hSize, hLength, rfl, rfl⟩
    have hSame : (UInt64.ofNat nbytes).toNat = nbytes := UInt64.toNat_ofNat_of_lt' hWidth
    refine ⟨⟨?_, ?_, ?_, ?_, hDims, ?_⟩, ?_, ?_⟩
    · rw [hSame, hLength]
    · simp only []
      omega
    · simp only []
      omega
    · simp only []
      omega
    · rw [hSame]
      exact hBound
    · rw [length_contents, hLength]
      exact hSize
    · simp [contents, hSame]
  · rintro ⟨hSpillable, hSize, rfl⟩
    rcases info with ⟨dtype, shape, nbytes⟩
    rcases hSpillable with ⟨hLength, hPos, hDtype, hRank, hDims, hBound⟩
    simp only [] at hLength hPos hDtype hRank hDims hBound
    rw [length_contents] at hSize
    have hShort : maxDtypeBytes < 256 ^ 4 := by decide
    have hFlat : maxTensorRank < 256 ^ 4 := by decide
    unfold contents
    refine ⟨magic, _, rfl, append_assoc _ _ _, ?_⟩
    rw [check_iff, not_not]
    refine ⟨rfl, ?_⟩
    rw [(reads_le shortRead 4).bind_iff]
    refine ⟨(utf8 dtype).length, _, by omega, append_assoc _ _ _, ?_⟩
    rw [check_iff]
    refine ⟨by omega, ?_⟩
    rw [(reads_dtype utf8Error _).bind_iff]
    refine ⟨dtype, _, rfl, append_assoc _ _ _, ?_⟩
    rw [(reads_le shortRead 4).bind_iff]
    refine ⟨shape.length, _, by omega, append_assoc _ _ _, ?_⟩
    rw [check_iff]
    refine ⟨by omega, ?_⟩
    rw [(reads_dim.many shape.length).bind_iff]
    refine ⟨shape, _, ⟨rfl, hDims⟩, append_assoc _ _ _, ?_⟩
    rw [(reads_le shortRead 8).bind_iff]
    refine ⟨nbytes.toNat, _, nbytes.toNat_lt, append_assoc _ _ _, ?_⟩
    rw [readPayload_iff hDtype hRank]
    refine ⟨hBound, ?_, hLength, rfl, ?_⟩
    · rw [← hSize, hLength]
    · rw [UInt64.ofNat_toNat]

theorem read_iff (utf8Error : List UInt8 → String) (path : String) (file : List UInt8)
    (info : SpillMeta) (bytes : List UInt8) :
    readActivationSpill utf8Error path file = .ok (info, bytes) ↔
      Spillable info bytes ∧ file = contents info bytes := by
  unfold readActivationSpill
  constructor
  · intro hOk
    cases hRead : reader utf8Error path file.length file with
    | error err =>
      rw [hRead] at hOk
      cases hOk
    | ok result =>
      rcases result with ⟨⟨found, payload⟩, rest⟩
      rw [hRead] at hOk
      cases hOk
      rw [reader_iff] at hRead
      rcases hRead with ⟨hSpillable, hSize, hFile⟩
      have hRest : rest = [] := by
        rw [hFile, length_append] at hSize
        exact length_eq_zero_iff.mp (by omega)
      rw [hRest, append_nil] at hFile
      exact ⟨hSpillable, hFile⟩
  · rintro ⟨hSpillable, rfl⟩
    have hRead := (reader_iff utf8Error path (contents info bytes).length
      (contents info bytes) info bytes []).mpr
      ⟨hSpillable, rfl, (append_nil _).symm⟩
    rw [hRead]
    rfl

/-
  What the writer accepts is read back as it was, and every
  file that the reader accepts is the one that the writer
  makes of the result, whenever the disk has room for it.
-/
theorem spill_files_round_trip (utf8Error : List UInt8 → String) (path dir : String)
    (info : SpillMeta) (bytes file : List UInt8) (free : Option Nat) :
    (writeActivationSpill dir free info bytes = .ok file →
      readActivationSpill utf8Error path file = .ok (info, bytes)) ∧
    (readActivationSpill utf8Error path file = .ok (info, bytes) → Fits free info →
      writeActivationSpill dir free info bytes = .ok file) := by
  rw [write_iff, read_iff]
  constructor
  · rintro ⟨hSpillable, _, hFile⟩
    exact ⟨hSpillable, hFile⟩
  · rintro ⟨hSpillable, hFile⟩ hFits
    exact ⟨hSpillable, hFits, hFile⟩

/- Two bytes on a disk that keeps just its margin. -/
def pair : SpillMeta :=
  { dtype := "u8", shape := [2], nbytes := 2 }

theorem pair_round_trips :
    ∃ file, writeActivationSpill "spill" (some (spillFreeSpaceMargin + 2)) pair [7, 9] = .ok file ∧
      readActivationSpill (fun _ => "") "act.spill" file = .ok (pair, [7, 9]) := by
  have hDims : ∀ dim ∈ pair.shape, ¬ dim < 0 := by
    intro dim hDim
    rw [mem_singleton.mp hDim]
    decide
  have hSpillable : Spillable pair [7, 9] :=
    ⟨rfl, by decide, by decide, by decide, hDims, by decide⟩
  have hFits : Fits (some (spillFreeSpaceMargin + 2)) pair := by
    intro available hFree
    cases hFree
    decide
  have hWrite := (write_iff "spill" (some (spillFreeSpaceMargin + 2)) pair
    [7, 9] _).mpr ⟨hSpillable, hFits, rfl⟩
  exact ⟨_, hWrite, (spill_files_round_trip (fun _ => "") "act.spill" "spill"
    pair [7, 9] _ _).1 hWrite⟩

end Spill

end TensorTorrent
