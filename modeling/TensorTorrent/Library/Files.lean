import Mathlib.Data.List.Basic
import Mathlib.Tactic.Ring

/-
  A file is the list of its bytes. A write beyond the end
  fills the gap with a blank byte, and a write of nothing
  does nothing: a file grows only when bytes are written.

  Main declarations:
    * `read_write_self`
    * `read_write_of_disjoint`
-/

namespace TensorTorrent.Files

open List

----
-- Writing and Reading
----

section Contents

variable {α : Type} (blank : α)

/- The file with `data` written at `offset`. -/
def write (file : List α) (offset : Nat) (data : List α) : List α :=
  if data = [] then file
  else
    file.take offset ++ List.replicate (offset - file.length) blank ++
      data ++ file.drop (offset + data.length)

/- At most `count` bytes from `offset` on. -/
def read (file : List α) (offset count : Nat) : List α :=
  (file.drop offset).take count

@[simp] theorem write_nil (file : List α) (offset : Nat) : write blank file offset [] = file :=
  if_pos rfl

section

variable (file : List α) (offset : Nat)

include file offset

variable {data : List α}

theorem length_write (hData : data ≠ []) :
    (write blank file offset data).length = max file.length (offset + data.length) := by
  simp only [write, if_neg hData, length_append, length_take, length_replicate, length_drop]
  omega

theorem length_le_write (data : List α) : file.length ≤ (write blank file offset data).length := by
  by_cases hData : data = []
  · simp [hData]
  · rw [length_write blank file offset hData]
    exact le_max_left _ _

/- A written file, position by position. -/
theorem getElem?_write (hData : data ≠ []) (i : Nat) :
    (write blank file offset data)[i]? = if i < offset then
        if i < file.length then file[i]? else some blank
      else if i < offset + data.length then data[i - offset]?
      else file[i]? := by
  rw [write, if_neg hData, append_assoc, append_assoc]
  by_cases hBefore : i < offset
  · rw [if_pos hBefore]
    by_cases hInside : i < file.length
    · rw [if_pos hInside, getElem?_append_left (by simp; omega), getElem?_take_of_lt hBefore]
    rw [if_neg hInside, getElem?_append_right (by simp; omega), getElem?_append_left
      (by simp; omega), getElem?_replicate]
    simp only [length_take]
    rw [if_pos (by omega)]
  · rw [if_neg hBefore, getElem?_append_right (by simp; omega), getElem?_append_right
      (by simp; omega)]
    have hIndex : i - (file.take offset).length -
        (List.replicate (offset - file.length) blank).length = i - offset := by
      simp only [length_take, length_replicate]
      omega
    rw [hIndex]
    by_cases hWritten : i < offset + data.length
    · rw [if_pos hWritten, getElem?_append_left (by omega)]
    · rw [if_neg hWritten, getElem?_append_right (by omega), getElem?_drop]
      congr 1
      omega

/- Two writes in a row are one. -/
theorem write_write (first second : List α) :
    write blank (write blank file offset first) (offset + first.length) second =
      write blank file offset (first ++ second) := by
  by_cases hFirst : first = []
  · simp [hFirst]
  by_cases hSecond : second = []
  · simp [hSecond]
  have hBoth : first ++ second ≠ [] := by simp [hFirst]
  apply ext_getElem?
  intro i
  rw [getElem?_write blank _ _ hSecond, getElem?_write blank _ _ hBoth,
    length_write blank _ _ hFirst, getElem?_write blank _ _ hFirst]
  simp only [length_append]
  by_cases hBefore : i < offset
  · simp only [hBefore, if_true, show i < offset + first.length by omega]
    by_cases hInside : i < file.length
    · simp only [hInside, if_true, lt_max_iff, true_or]
    · simp only [hInside, if_false, ite_self]
  · simp only [hBefore]
    by_cases hMiddle : i < offset + first.length
    · simp only [hMiddle, if_true, lt_max_iff, or_true,
        show i < offset + (first.length + second.length) by
          omega]
      rw [getElem?_append_left (by omega)]
    · simp only [hMiddle, if_false, ← Nat.add_assoc]
      by_cases hWritten : i < offset + first.length + second.length
      · simp only [hWritten, if_true]
        rw [getElem?_append_right (by omega)]
        congr 1
        omega
      · simp only [hWritten, if_false]

end

variable (file : List α) (offset : Nat)

theorem getElem?_read (offset count i : Nat) :
    (read file offset count)[i]? = if i < count then file[offset + i]? else none := by
  rw [read, getElem?_take, getElem?_drop]

@[simp] theorem read_zero : read file offset 0 = [] :=
  take_zero

theorem length_read {offset count : Nat} (hInside : offset + count ≤ file.length) :
    (read file offset count).length = count := by
  simp only [read, length_take, length_drop]
  omega

/- What was written is read back. -/
theorem read_write_self (data : List α) :
    read (write blank file offset data) offset data.length = data := by
  by_cases hData : data = []
  · simp [hData]
  apply ext_getElem?
  intro i
  rw [getElem?_read, getElem?_write blank _ _ hData]
  by_cases hInside : i < data.length
  · rw [if_pos hInside, if_neg (by omega), if_pos (by omega)]
    congr 1
    omega
  · rw [if_neg hInside, getElem?_eq_none (by omega)]

/- A part of what was written. -/
theorem read_write_inside {data : List α} {start count : Nat}
    (hInside : start + count ≤ data.length) :
    read (write blank file 0 data) start count = read data start count := by
  by_cases hData : data = []
  · have hZero : count = 0 := by
      rw [hData, length_nil] at hInside
      omega
    rw [hZero, read_zero, read_zero]
  apply ext_getElem?
  intro i
  rw [getElem?_read, getElem?_read]
  by_cases hCount : i < count
  · rw [if_pos hCount, if_pos hCount, getElem?_write blank _ _ hData, if_neg (by omega),
      if_pos (by omega), Nat.sub_zero]
  · rw [if_neg hCount, if_neg hCount]

/- A write leaves what it does not reach. -/
theorem read_write_of_disjoint {file data : List α} {offset start count : Nat}
    (hInside : start + count ≤ file.length)
    (hApart : start + count ≤ offset ∨ offset + data.length ≤ start) :
    read (write blank file offset data) start count = read file start count := by
  by_cases hData : data = []
  · simp [hData]
  apply ext_getElem?
  intro i
  rw [getElem?_read, getElem?_read]
  by_cases hCount : i < count
  · rw [if_pos hCount, if_pos hCount, getElem?_write blank _ _ hData]
    rcases hApart with hBefore | hAfter
    · rw [if_pos (by omega), if_pos (by omega)]
    · rw [if_neg (by omega), if_neg (by omega)]
  · rw [if_neg hCount, if_neg hCount]

end Contents

----
-- Alignment
----

/- The next multiple of `alignment`. -/
def alignUp (offset alignment : Nat) : Nat :=
  (offset + alignment - 1) / alignment * alignment

theorem dvd_alignUp (offset alignment : Nat) : alignment ∣ alignUp offset alignment :=
  Dvd.intro_left _ rfl

variable {alignment : Nat} (offset : Nat)

theorem le_alignUp (hPos : 0 < alignment) : offset ≤ alignUp offset alignment := by
  have hDiv := Nat.div_add_mod (offset + alignment - 1) alignment
  have hMod := Nat.mod_lt (offset + alignment - 1) hPos
  rw [alignUp, Nat.mul_comm]
  omega

theorem alignUp_lt (hPos : 0 < alignment) : alignUp offset alignment < offset + alignment := by
  have hLe := Nat.div_mul_le_self (offset + alignment - 1) alignment
  rw [alignUp]
  omega

/- A shift by whole blocks shifts the aligned offset. -/
theorem alignUp_add {shift : Nat} (hPos : 0 < alignment) (hShift : alignment ∣ shift) :
    alignUp (offset + shift) alignment = alignUp offset alignment + shift := by
  obtain ⟨k, rfl⟩ := hShift
  have hSum : offset + alignment * k + alignment - 1 = offset + alignment - 1 + alignment * k := by
    omega
  rw [alignUp, alignUp, hSum, Nat.add_mul_div_left _ _ hPos]
  ring

theorem alignUp_of_dvd {offset : Nat} (hPos : 0 < alignment) (hDvd : alignment ∣ offset) :
    alignUp offset alignment = offset := by
  have hZero : alignUp 0 alignment = 0 := by
    rw [alignUp, Nat.zero_add, Nat.div_eq_of_lt (Nat.sub_lt hPos Nat.one_pos), Nat.zero_mul]
  have hShift := alignUp_add 0 hPos hDvd
  rwa [Nat.zero_add, hZero, Nat.zero_add] at hShift

theorem alignUp_eq_iff {offset : Nat} (hPos : 0 < alignment) :
    alignUp offset alignment = offset ↔ alignment ∣ offset := by
  constructor
  · intro hEq
    rw [← hEq]
    exact dvd_alignUp offset alignment
  · exact alignUp_of_dvd hPos

theorem alignUp_mono {first second : Nat} (alignment : Nat) (hLe : first ≤ second) :
    alignUp first alignment ≤ alignUp second alignment := by
  apply Nat.mul_le_mul_right
  apply Nat.div_le_div_right
  omega

end TensorTorrent.Files
