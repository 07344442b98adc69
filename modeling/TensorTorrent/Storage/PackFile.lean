import TensorTorrent.Storage.PackHeader

/-
  The bytes of a written pack: every payload is found at its
  block, the header at the start, and the file ends with the
  last payload that has bytes.

  Main declarations:
    * `read_finalFile_block`
    * `blocks_inside_iff`
-/

namespace TensorTorrent.Pack

open Files List

----
-- The End of the File
----

/- The cursor and the length after one more block. -/
def stretchNext (alignment : Nat) (reached : Nat × Nat) (size : Nat) : Nat × Nat :=
  let start := alignUp reached.1 alignment
  (start + size, if size = 0 then reached.2 else start + size)

/- The cursor and the length after blocks of these sizes. -/
def stretch (alignment : Nat) (sizes : List Nat) (reached : Nat × Nat) : Nat × Nat :=
  sizes.foldl (stretchNext alignment) reached

/- The sizes of the tensors. -/
def sizesOf (metas : List (Meta × Loader)) : List Nat :=
  metas.map (fun entry => entry.1.size)

variable {alignment : Nat}

theorem le_stretch (hPos : 0 < alignment) (sizes : List Nat) (reached : Nat × Nat)
    (hReached : reached.2 ≤ reached.1) :
    (stretch alignment sizes reached).2 ≤ (stretch alignment sizes reached).1 ∧
      reached.2 ≤ (stretch alignment sizes reached).2 := by
  induction sizes generalizing reached with
  | nil => exact ⟨hReached, le_rfl⟩
  | cons size sizes ih =>
    have hStart := le_alignUp reached.1 hPos
    have hNext : (stretchNext alignment reached size).2 ≤ (stretchNext alignment reached size).1 ∧
        reached.2 ≤ (stretchNext alignment reached size).2 := by
      simp only [stretchNext]
      split
      · omega
      · omega
    obtain ⟨hOrder, hGrows⟩ := ih _ hNext.1
    exact ⟨hOrder, le_trans hNext.2 hGrows⟩

/- Empty blocks move the cursor, not the end. -/
theorem stretch_empty (hPos : 0 < alignment) {sizes : List Nat} (hEmpty : ∀ size ∈ sizes, size = 0)
    (hSome : sizes ≠ []) (reached : Nat × Nat) :
    stretch alignment sizes reached = (alignUp reached.1 alignment, reached.2) := by
  induction sizes generalizing reached with
  | nil => exact absurd rfl hSome
  | cons size sizes ih =>
    have hSize : size = 0 := hEmpty size mem_cons_self
    have hRest : ∀ other ∈ sizes, other = 0 := fun other hOther =>
      hEmpty other (mem_cons_of_mem _ hOther)
    have hNext : stretchNext alignment reached size = (alignUp reached.1 alignment, reached.2) := by
      simp [stretchNext, hSize]
    by_cases hLast : sizes = []
    · simp only [stretch, hLast, foldl_cons, foldl_nil, hNext]
    have hTail := ih hRest hLast (stretchNext alignment reached size)
    simp only [stretch, foldl_cons] at hTail ⊢
    rw [hTail, hNext]
    simp only [alignUp_of_dvd hPos (dvd_alignUp reached.1 alignment)]

/-
  Where only empty tensors follow, the last size before them
  is a multiple of the alignment; `reserve` stands in when
  there is none.
-/
def EndsInside (alignment reserve : Nat) (sizes : List Nat) : Prop :=
  ∀ before after, sizes = before ++ after → after ≠ [] →
    (∀ size ∈ after, size = 0) → alignment ∣ before.getLastD reserve

/- A list of sizes up to its last tensor with bytes. -/
theorem split_sizes (sizes : List Nat) :
    ∃ before after, sizes = before ++ after ∧ (∀ size ∈ after, size = 0) ∧
      (before = [] ∨ ∃ init last, before = init ++ [last] ∧ last ≠ 0) := by
  induction sizes using List.reverseRecOn with
  | nil => exact ⟨[], [], rfl, by simp, .inl rfl⟩
  | append_singleton sizes size ih =>
    by_cases hSize : size = 0
    · obtain ⟨before, after, hSplit, hEmpty, hLast⟩ := ih
      refine ⟨before, after ++ [size], ?_, ?_, hLast⟩
      · rw [hSplit, append_assoc]
      · intro other hOther
        rcases mem_append.mp hOther with hOld | hNew
        · exact hEmpty other hOld
        · rw [mem_singleton.mp hNew]
          exact hSize
    · exact ⟨sizes ++ [size], [], (append_nil _).symm, by simp, .inr ⟨sizes, size, rfl, hSize⟩⟩

/- After a tensor with bytes the cursor is at the end. -/
theorem stretch_concat (alignment : Nat) (init : List Nat) {last : Nat} (hLast : last ≠ 0)
    (reached : Nat × Nat) :
    ∃ start, alignment ∣ start ∧ stretch alignment (init ++ [last]) reached =
      (start + last, start + last) := by
  refine ⟨alignUp (stretch alignment init reached).1 alignment, dvd_alignUp _ _, ?_⟩
  simp only [stretch, foldl_append, foldl_cons, foldl_nil, stretchNext, if_neg hLast]

variable {offset : Nat}

theorem alignUp_le_iff {alignment : Nat} (hPos : 0 < alignment) :
    alignUp offset alignment ≤ offset ↔ alignment ∣ offset := by
  rw [← alignUp_eq_iff hPos]
  have hLe := le_alignUp offset hPos
  omega

theorem stretch_cons (alignment size : Nat) (sizes : List Nat) (reached : Nat × Nat) :
    stretch alignment (size :: sizes) reached = stretch alignment sizes
      (stretchNext alignment reached size) :=
  rfl

theorem stretchNext_eq (alignment size : Nat) (reached : Nat × Nat) :
    stretchNext alignment reached size = (alignUp reached.1 alignment + size,
      (stretchNext alignment reached size).2) :=
  rfl

theorem stretch_append (alignment : Nat) (before after : List Nat) (reached : Nat × Nat) :
    stretch alignment (before ++ after) reached = stretch alignment after
      (stretch alignment before reached) :=
  foldl_append

/- The end reached before the empty tensors at the end. -/
theorem stretch_before (reserve : Nat) {before : List Nat}
    (hBefore : before = [] ∨ ∃ init last, before = init ++ [last] ∧ last ≠ 0) :
    ∃ stop, stretch alignment before (reserve, reserve) = (stop, stop) ∧
      (alignment ∣ stop ↔ alignment ∣ before.getLastD reserve) := by
  rcases hBefore with rfl | ⟨init, last, rfl, hLast⟩
  · exact ⟨reserve, rfl, Iff.rfl⟩
  obtain ⟨start, hStart, hStretch⟩ := stretch_concat alignment init hLast (reserve, reserve)
  refine ⟨start + last, hStretch, ?_⟩
  rw [getLastD_concat]
  exact Nat.dvd_add_right hStart

theorem stretch_le_iff (hPos : 0 < alignment) (reserve : Nat) (sizes : List Nat) :
    (stretch alignment sizes (reserve, reserve)).1 ≤
        (stretch alignment sizes (reserve, reserve)).2 ↔
      EndsInside alignment reserve sizes := by
  constructor
  · intro hLe before after hSplit hSome hEmpty
    rw [hSplit, stretch_append, stretch_empty hPos hEmpty hSome] at hLe
    have hOrder := (le_stretch hPos before (reserve, reserve) le_rfl).1
    have hAligned := (alignUp_le_iff hPos).mp (le_trans hLe hOrder)
    rcases eq_nil_or_concat before with rfl | ⟨init, last, rfl⟩
    · exact hAligned
    rw [concat_eq_append] at hAligned ⊢
    rw [getLastD_concat]
    by_cases hLast : last = 0
    · rw [hLast]
      exact dvd_zero _
    · obtain ⟨start, hStart, hStretch⟩ := stretch_concat alignment init hLast (reserve, reserve)
      rw [hStretch] at hAligned
      exact (Nat.dvd_add_right hStart).mp hAligned
  · intro hEnds
    obtain ⟨before, after, hSplit, hEmpty, hBefore⟩ := split_sizes sizes
    obtain ⟨stop, hStretch, hStop⟩ := stretch_before reserve hBefore
    by_cases hNone : after = []
    · rw [hSplit, hNone, append_nil, hStretch]
    · have hDvd := hStop.mpr (hEnds before after hSplit hNone hEmpty)
      rw [hSplit, stretch_append, stretch_empty hPos hEmpty hNone, hStretch]
      exact (alignUp_le_iff hPos).mpr hDvd

----
-- Blocks Inside the File
----

theorem blocks_inside_iff (hPos : 0 < alignment) (metas : List Meta) (offset length bound : Nat) :
    ((∀ block ∈ place alignment metas offset, block.offset + block.nbytes ≤ bound) ∧
        offset ≤ bound) ↔
      (stretch alignment (metas.map Meta.size) (offset, length)).1 ≤ bound := by
  induction metas generalizing offset length with
  | nil => simp [place, stretch]
  | cons info metas ih =>
    have hStart := le_alignUp offset hPos
    have hRest := ih (alignUp offset alignment + info.size)
      (stretchNext alignment (offset, length) info.size).2
    rw [map_cons, stretch_cons, stretchNext_eq, ← hRest]
    simp only [place, forall_mem_cons, Meta.block]
    constructor
    · rintro ⟨⟨hFirst, hOthers⟩, -⟩
      exact ⟨hOthers, hFirst⟩
    · rintro ⟨hOthers, hFirst⟩
      exact ⟨⟨hFirst, hOthers⟩, by omega⟩

----
-- What the Second Pass Leaves
----

variable (host : Host)

/- The bytes of an entry. -/
def entryBytes (quantize : Bool) (entry : TensorBlock × Meta × Loader) : List UInt8 :=
  payloadBytes host quantize entry.2.1 entry.2.2

/- What the second pass makes of a file. -/
structure Wrote (quantize : Bool) (entries : List (TensorBlock × Meta × Loader))
    (before after : List UInt8) : Prop where
  kept : ∀ start count, start + count ≤ before.length → read after start count =
    read before start count
  found : ∀ entry ∈ entries, read after entry.1.offset entry.1.nbytes =
    entryBytes host quantize entry
  reached : ∀ entry ∈ entries, entry.1.nbytes ≠ 0 → entry.1.offset + entry.1.nbytes ≤ after.length

theorem entriesAt_cons (entry : Meta × Loader) (metas : List (Meta × Loader))
    (alignment offset : Nat) :
    entriesAt (entry :: metas) alignment offset = (entry.1.block alignment
          (alignUp offset alignment), entry) ::
        entriesAt metas alignment (alignUp offset alignment + entry.1.size) :=
  rfl

variable {handle : Handle}

/- One write behind the end of the file. -/
theorem length_writeAt {start : Nat} (data : List UInt8) (hLength : handle.file.length ≤ start) :
    (handle.writeAt start data).file.length =
      if data.length = 0 then handle.file.length
      else start + data.length := by
  unfold Handle.writeAt
  by_cases hData : data = []
  · rw [hData, write_nil, length_nil, if_pos rfl]
  · have hSome := length_pos_iff.mpr hData
    rw [length_write 0 _ _ hData, if_neg (by omega)]
    omega

variable {entry : TensorBlock × Meta × Loader}

/- The step of `writeAll_spec`: the first block, then a rest
   that leaves it alone. -/
theorem Wrote.cons {quantize : Bool} {entries : List (TensorBlock × Meta × Loader)}
    {after : List UInt8} (hLength : handle.file.length ≤ entry.1.offset)
    (hSized : (entryBytes host quantize entry).length = entry.1.nbytes)
    (hRest : Wrote host quantize entries (handle.writeAt entry.1.offset
      (entryBytes host quantize entry)).file after)
    (hGrows : (handle.writeAt entry.1.offset
      (entryBytes host quantize entry)).file.length ≤ after.length) :
    Wrote host quantize (entry :: entries) handle.file after := by
  have hNext := length_writeAt (entryBytes host quantize entry) hLength
  rw [hSized] at hNext
  constructor
  · intro start count hInside
    have hMore := length_le_write 0 handle.file entry.1.offset (entryBytes host quantize entry)
    rw [hRest.kept start count (le_trans hInside hMore)]
    exact read_write_of_disjoint 0 hInside (.inl (by omega))
  · intro other hOther
    rcases mem_cons.mp hOther with rfl | hOther
    · by_cases hEmpty : other.1.nbytes = 0
      · rw [hEmpty] at hSized ⊢
        rw [read_zero, length_eq_zero_iff.mp hSized]
      · rw [if_neg hEmpty] at hNext
        rw [hRest.kept _ _ (by omega), ← hSized]
        exact read_write_self 0 _ _ _
    · exact hRest.found other hOther
  · intro other hOther hBytes
    rcases mem_cons.mp hOther with rfl | hOther
    · rw [if_neg hBytes] at hNext
      omega
    · exact hRest.reached other hOther hBytes

theorem writeAll_spec (quantize : Bool) (hPos : 0 < alignment) (metas : List (Meta × Loader))
    (hLength : handle.file.length ≤ offset)
    (hSized : ∀ entry ∈ entriesAt metas alignment offset,
      (entryBytes host quantize entry).length = entry.1.nbytes) :
    Wrote host quantize (entriesAt metas alignment offset) handle.file (writeAll host quantize
        (entriesAt metas alignment offset) handle).file ∧
      (writeAll host quantize (entriesAt metas alignment offset) handle).file.length =
        (stretch alignment (sizesOf metas) (offset, handle.file.length)).2 := by
  induction metas generalizing offset handle with
  | nil =>
    refine ⟨⟨fun _ _ _ => rfl, ?_, ?_⟩, rfl⟩
    · intro entry hEntry
      cases hEntry
    · intro entry hEntry
      cases hEntry
  | cons entry metas ih =>
    rw [entriesAt_cons] at hSized ⊢
    obtain ⟨hFirst, hOthers⟩ := forall_mem_cons.mp hSized
    generalize hEntry : ((entry.1.block alignment (alignUp offset alignment), entry) :
      TensorBlock × Meta × Loader) = placed at hFirst ⊢
    have hOffset : placed.1.offset = alignUp offset alignment := by
      rw [← hEntry]
      rfl
    have hSize : placed.1.nbytes = entry.1.size := by
      rw [← hEntry]
      rfl
    have hStart := le_alignUp offset hPos
    have hBehind : handle.file.length ≤ placed.1.offset := by omega
    have hNext := length_writeAt (entryBytes host quantize placed) hBehind
    rw [hFirst, hSize] at hNext
    have hWithin : (handle.writeAt placed.1.offset (entryBytes host quantize placed)).file.length ≤
        alignUp offset alignment + entry.1.size := by
      rw [hNext]
      split
      · omega
      · omega
    obtain ⟨hRest, hEnd⟩ := ih hWithin hOthers
    have hStretch : stretch alignment (sizesOf (entry :: metas)) (offset, handle.file.length) =
        stretch alignment (sizesOf metas) (alignUp offset alignment + entry.1.size,
          (handle.writeAt placed.1.offset (entryBytes host quantize placed)).file.length) := by
      rw [hNext, hOffset]
      rfl
    have hTurn : writeAll host quantize (placed :: entriesAt metas alignment
          (alignUp offset alignment + entry.1.size)) handle =
        writeAll host quantize (entriesAt metas alignment (alignUp offset alignment + entry.1.size))
          (handle.writeAt placed.1.offset (entryBytes host quantize placed)) :=
      rfl
    rw [hTurn, hStretch]
    refine ⟨Wrote.cons host hBehind hFirst hRest ?_, hEnd⟩
    rw [hEnd]
    exact (le_stretch hPos (sizesOf metas) (alignUp offset alignment + entry.1.size, _) hWithin).2

/- Blocks follow one another. -/
theorem place_pairwise (hPos : 0 < alignment) (metas : List Meta) (offset : Nat) :
    (place alignment metas offset).Pairwise (fun first second =>
      first.offset + first.nbytes ≤ second.offset) := by
  induction metas generalizing offset with
  | nil => exact List.Pairwise.nil
  | cons info metas ih =>
    refine pairwise_cons.mpr ⟨?_, ih _⟩
    intro other hOther
    obtain ⟨-, -, start, rfl, hStart⟩ := mem_place hPos hOther
    have hLe := le_alignUp (alignUp offset alignment + info.size) hPos
    exact le_trans hLe hStart

----
-- The Written File
----

section Written

variable {namedLoaders : List (String × Loader)} {alignment : Int} {quantize : Bool}
variable {metas : List (Meta × Loader)} {checked : Nat}
variable (hPacks : Packs host namedLoaders alignment quantize metas checked)
variable (hLoose : ¬ Tight host quantize metas checked)

/- The file of the second pass. -/
def payloadFile (quantize : Bool) (metas : List (Meta × Loader)) (checked : Nat) : List UInt8 :=
  let reserve := reserveFor host (metas.map Prod.fst) checked
  (writeAll host quantize (entriesAt metas checked reserve) (blankHandle reserve)).file

include hPacks in
theorem payloadFile_spec :
    Wrote host quantize (entriesOf host metas checked)
        (List.replicate (reserveOf host metas checked) 0)
        (payloadFile host quantize metas checked) ∧
      (payloadFile host quantize metas checked).length = (stretch checked (sizesOf metas)
        (reserveOf host metas checked, reserveOf host metas checked)).2 := by
  have hPos := hPacks.pos
  have hWritable := hPacks.writable
  simp only [payloadFile, entriesOf, reserveOf]
  generalize reserveFor host (metas.map Prod.fst) checked = reserve at hWritable ⊢
  have hLength : (blankHandle reserve).file.length = reserve := length_replicate
  have hSpec := writeAll_spec host quantize hPos metas (le_of_eq hLength)
    (fun entry hEntry => (hWritable entry hEntry).sized)
  rw [hLength] at hSpec
  exact hSpec

include hPacks in
theorem reserve_le_payloadFile : reserveOf host metas checked ≤
    (payloadFile host quantize metas checked).length := by
  have hPos := hPacks.pos
  rw [(payloadFile_spec host hPacks).2]
  generalize reserveOf host metas checked = reserve
  exact (le_stretch hPos (sizesOf metas) (reserve, reserve) le_rfl).2

include hPacks hLoose in
theorem header_le_reserve : (header host (finalBlocks host quantize metas checked)).length ≤
    reserveOf host metas checked := by
  rw [length_header]
  exact Nat.not_lt.mp (hPacks.reserve_lt_iff.not.mpr hLoose)

include hPacks hLoose in
theorem length_finalFile : (finalFile host quantize metas checked).length =
    (payloadFile host quantize metas checked).length := by
  have hHeader := header_le_reserve host hPacks hLoose
  have hReserve := reserve_le_payloadFile host hPacks
  have hSome : header host (finalBlocks host quantize metas checked) ≠ [] := by simp [header, magic]
  change (write 0 (payloadFile host quantize metas checked) 0 _).length = _
  rw [length_write 0 _ _ hSome]
  omega

theorem read_finalFile_header {start count : Nat}
    (hInside : start + count ≤ (header host (finalBlocks host quantize metas checked)).length) :
    read (finalFile host quantize metas checked) start count =
      read (header host (finalBlocks host quantize metas checked)) start count :=
  read_write_inside 0 _ hInside

theorem fst_entriesAt (metas : List (Meta × Loader)) (checked offset : Nat) :
    (entriesAt metas checked offset).map Prod.fst = place checked (metas.map Prod.fst) offset := by
  rw [entriesAt, map_fst_zip]
  simp

theorem mem_entriesAt (hEntry : entry ∈ entriesAt metas checked offset) :
    entry.1 ∈ place checked (metas.map Prod.fst) offset ∧ entry.2 ∈ metas :=
  ⟨(of_mem_zip hEntry).1, (of_mem_zip hEntry).2⟩

include hPacks hLoose in
/- Every payload is found at its block. -/
theorem read_finalFile_block {entry : TensorBlock × Meta × Loader}
    (hEntry : entry ∈ entriesOf host metas checked) :
    read (finalFile host quantize metas checked) entry.1.offset entry.1.nbytes =
      entryBytes host quantize entry := by
  have hPos := hPacks.pos
  have hWrote := (payloadFile_spec host hPacks).1
  have hFound := hWrote.found entry hEntry
  by_cases hEmpty : entry.1.nbytes = 0
  · rw [hEmpty, read_zero] at hFound ⊢
    exact hFound
  have hReached := hWrote.reached entry hEntry hEmpty
  have hHeader := header_le_reserve host hPacks hLoose
  obtain ⟨info, -, start, hBlock, hStart⟩ := mem_place hPos (mem_entriesAt hEntry).1
  have hOffset : entry.1.offset = start := by
    rw [hBlock]
    rfl
  have hAfter := le_alignUp (reserveOf host metas checked) hPos
  rw [← hFound]
  exact read_write_of_disjoint 0 hReached (.inr (by omega))

include hPacks hLoose in
/- When all blocks are inside the file. -/
theorem entries_inside_iff :
    (∀ entry ∈ entriesOf host metas checked,
      entry.1.offset + entry.1.nbytes ≤ (finalFile host quantize metas checked).length) ↔
      EndsInside checked (reserveOf host metas checked) (sizesOf metas) := by
  have hPos := hPacks.pos
  have hReserve := reserve_le_payloadFile host hPacks
  rw [length_finalFile host hPacks hLoose, ← stretch_le_iff hPos,
    ← (payloadFile_spec host hPacks).2]
  have hSizes : sizesOf metas = (metas.map Prod.fst).map Meta.size := by simp [sizesOf]
  rw [hSizes, ← blocks_inside_iff hPos]
  constructor
  · intro hInside
    refine ⟨?_, hReserve⟩
    intro block hBlock
    rw [← fst_entriesAt, mem_map] at hBlock
    obtain ⟨entry, hEntry, rfl⟩ := hBlock
    exact hInside entry hEntry
  · intro hInside entry hEntry
    exact hInside.1 entry.1 (mem_entriesAt hEntry).1

end Written

end TensorTorrent.Pack
