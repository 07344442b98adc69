import Mathlib.Tactic

/-
  This file is a small library of binary formats: integers
  in little-endian bytes, and readers that consume a byte
  string from the front. A reader is described by the values
  it returns and the one encoding it accepts for each.

  Main declarations:
    * `Bytes.ofLe_toLe`
    * `Bytes.Reads.bind_iff`
-/

namespace Bytes

----
-- Little-Endian Integers
----

/- The low bytes of a number, least significant first. -/
def toLe : Nat → Nat → List UInt8
| 0, _ => []
| n + 1, value => UInt8.ofNat value :: toLe n (value / 256)

variable (bytes : List UInt8)

def ofLe : Nat :=
  Nat.ofDigits 256 (bytes.map UInt8.toNat)

@[simp]
theorem length_toLe (n value : Nat) : (toLe n value).length = n := by
  induction n generalizing value with
  | zero => rfl
  | succ n ih => simp [toLe, ih]

theorem ofLe_cons (byte : UInt8) (bytes : List UInt8) :
    ofLe (byte :: bytes) = byte.toNat + 256 * ofLe bytes := by
  simp [ofLe, Nat.ofDigits_cons]

theorem ofLe_lt : ofLe bytes < 256 ^ bytes.length := by
  have hDigit : ∀ digit ∈ bytes.map UInt8.toNat, digit < 256 := by
    intro digit hDigit
    rcases List.mem_map.mp hDigit with ⟨byte, _, rfl⟩
    exact byte.toNat_lt
  have hLt := Nat.ofDigits_lt_base_pow_length (by norm_num) hDigit
  rwa [List.length_map] at hLt

theorem ofLe_toLe {n value : Nat} (hFits : value < 256 ^ n) : ofLe (toLe n value) = value := by
  induction n generalizing value with
  | zero =>
    have hZero : value = 0 := by simpa using hFits
    subst hZero
    rfl
  | succ n ih =>
    have hHigh : value / 256 < 256 ^ n := by
      rw [Nat.div_lt_iff_lt_mul (by norm_num)]
      exact hFits
    rw [toLe, ofLe_cons, ih hHigh, UInt8.toNat_ofNat']
    omega

theorem toLe_ofLe : toLe bytes.length (ofLe bytes) = bytes := by
  induction bytes with
  | nil => rfl
  | cons byte bytes ih =>
    have hByte := byte.toNat_lt
    have hHigh : (byte.toNat + 256 * ofLe bytes) / 256 = ofLe bytes := by omega
    have hLow : UInt8.ofNat (byte.toNat + 256 * ofLe bytes) = byte := by
      apply UInt8.toNat_inj.mp
      rw [UInt8.toNat_ofNat']
      omega
    rw [List.length_cons, toLe, ofLe_cons, hHigh, hLow, ih]

----
-- Readers
----

/- Consumes bytes from the front, or fails. -/
abbrev Reader (ε α : Type) :=
  StateT (List UInt8) (Except ε) α

section Readers

variable {ε α β : Type}

/-
  The reader returns exactly the accepted values, each from
  its one encoding, and leaves what follows it.
-/
def Reads (reader : Reader ε α) (accepts : α → Prop) (encode : α → List UInt8) : Prop :=
  ∀ bytes value rest, reader bytes = .ok (value, rest) ↔
    accepts value ∧ bytes = encode value ++ rest

variable (short : ε) (n : Nat)

/- Takes a fixed number of bytes. -/
def readExact : Reader ε (List UInt8) :=
  fun bytes =>
    if n ≤ bytes.length then
      .ok (bytes.take n, bytes.drop n)
    else .error short

def many (reader : Reader ε α) : Nat → Reader ε (List α)
| 0 => pure []
| n + 1 => do
    let value ← reader
    let values ← many reader n
    return value :: values

theorem pure_iff (value : α) (bytes : List UInt8) (found : α) (rest : List UInt8) :
    (pure value : Reader ε α) bytes = .ok (found, rest) ↔ found = value ∧ bytes = rest := by
  change Except.ok (value, bytes) = Except.ok (found, rest) ↔ found = value ∧ bytes = rest
  simp only [Except.ok.injEq, Prod.mk.injEq]
  constructor
  · rintro ⟨rfl, rfl⟩
    exact ⟨rfl, rfl⟩
  · rintro ⟨rfl, rfl⟩
    exact ⟨rfl, rfl⟩

theorem throw_ne_ok (err : ε) (bytes : List UInt8) (result : α × List UInt8) :
    (throw err : Reader ε α) bytes ≠ .ok result := by
  intro hOk
  cases hOk

/- A check before the rest of a reader. -/
theorem check_iff (refused : Prop) [Decidable refused] (err : ε) (next : Reader ε α)
    (bytes : List UInt8) (result : α × List UInt8) :
    (if refused then throw err else next) bytes = .ok result ↔
      ¬ refused ∧ next bytes = .ok result := by
  split
  · next hRefused => simp [throw_ne_ok, hRefused]
  · next hFine => simp [hFine]

theorem bind_iff (reader : Reader ε α) (next : α → Reader ε β) (bytes : List UInt8)
    (result : β × List UInt8) :
    (reader >>= next) bytes = .ok result ↔ ∃ value middle, reader bytes = .ok (value, middle) ∧
      next value middle = .ok result := by
  simp only [bind, StateT.bind, Except.bind]
  cases hFirst : reader bytes with
  | error err => simp
  | ok first =>
    constructor
    · intro hNext
      exact ⟨first.1, first.2, rfl, hNext⟩
    · rintro ⟨value, middle, hSame, hNext⟩
      cases hSame
      exact hNext

variable {encode : α → List UInt8} {reader : Reader ε α} {accepts : α → Prop}

theorem Reads.bind_iff (hReads : Reads reader accepts encode) (next : α → Reader ε β)
    (bytes : List UInt8) (result : β × List UInt8) :
    (reader >>= next) bytes = .ok result ↔ ∃ value middle,
      accepts value ∧ bytes = encode value ++ middle ∧ next value middle = .ok result := by
  rw [Bytes.bind_iff]
  constructor
  · rintro ⟨value, middle, hFirst, hNext⟩
    rcases (hReads _ _ _).mp hFirst with ⟨hAccepts, hBytes⟩
    exact ⟨value, middle, hAccepts, hBytes, hNext⟩
  · rintro ⟨value, middle, hAccepts, hBytes, hNext⟩
    exact ⟨value, middle, (hReads _ _ _).mpr ⟨hAccepts, hBytes⟩, hNext⟩

theorem reads_readExact : Reads (readExact short n) (fun front => front.length = n) id := by
  intro bytes front rest
  unfold readExact
  constructor
  · intro hOk
    split at hOk
    · next hLong =>
      cases hOk
      refine ⟨List.length_take_of_le hLong, ?_⟩
      exact (List.take_append_drop n bytes).symm
    · cases hOk
  · rintro ⟨hLength, rfl⟩
    rw [if_pos (by simp [hLength]), id, ← hLength, List.take_left, List.drop_left]

/- An unsigned integer of a fixed width. -/
def le : Reader ε Nat := do
  let bytes ← readExact short n
  return ofLe bytes

theorem reads_le : Reads (le short n) (fun value => value < 256 ^ n) (toLe n) := by
  intro bytes value rest
  unfold le
  rw [(reads_readExact short n).bind_iff]
  constructor
  · rintro ⟨front, middle, hLength, hBytes, hValue⟩
    rcases (pure_iff _ _ _ _).mp hValue with ⟨rfl, rfl⟩
    subst hLength
    exact ⟨ofLe_lt front, by rw [toLe_ofLe, hBytes, id]⟩
  · rintro ⟨hFits, hBytes⟩
    refine ⟨toLe n value, rest, length_toLe n value, hBytes, ?_⟩
    rw [pure_iff, ofLe_toLe hFits]
    exact ⟨rfl, rfl⟩

theorem Reads.many (hReads : Reads reader accepts encode) (n : Nat) :
    Reads (Bytes.many reader n) (fun values =>
        values.length = n ∧ ∀ value ∈ values, accepts value)
      (List.flatMap encode) := by
  induction n with
  | zero =>
    intro bytes values rest
    rw [Bytes.many, pure_iff]
    constructor
    · rintro ⟨rfl, rfl⟩
      simp
    · rintro ⟨⟨hEmpty, _⟩, rfl⟩
      simp [List.length_eq_zero_iff.mp hEmpty]
  | succ n ih =>
    intro bytes values rest
    rw [Bytes.many, hReads.bind_iff]
    constructor
    · rintro ⟨value, middle, hValue, rfl, hRest⟩
      rcases (ih.bind_iff _ _ _).mp hRest with ⟨others, last, ⟨hLength, hAll⟩, rfl, hDone⟩
      rcases (pure_iff _ _ _ _).mp hDone with ⟨rfl, rfl⟩
      refine ⟨⟨by simp [hLength], ?_⟩, by simp⟩
      intro found hFound
      rcases List.mem_cons.mp hFound with rfl | hOther
      · exact hValue
      · exact hAll found hOther
    · rintro ⟨⟨hLength, hAll⟩, rfl⟩
      cases values with
      | nil => cases hLength
      | cons value others =>
        refine ⟨value, others.flatMap encode ++ rest, hAll value (by simp), by simp, ?_⟩
        rw [ih.bind_iff]
        refine ⟨others, rest, ⟨by simpa using hLength, ?_⟩, rfl, ?_⟩
        · intro found hFound
          exact hAll found (by simp [hFound])
        · rw [pure_iff]
          exact ⟨rfl, rfl⟩

end Readers

end Bytes
