import Mathlib.Data.String.Basic
import Mathlib.Tactic.Positivity
import Mathlib.Tactic.Ring

/-
  JSON values over a type of floating point numbers, and the
  text that Python's `json.dumps` writes for them with sorted
  keys. How a float is written is a parameter.

  Main declarations:
    * `Json.size_dumps_list`
    * `Json.size_dumps_object`
-/

namespace TensorTorrent

open List
open String (ofList intercalate utf8ByteSize utf8ByteSize_append)

inductive Json (F : Type) where
| null
| bool (value : Bool)
| int (value : Int)
| float (value : F)
| str (value : String)
| list (items : List (Json F))
| object (fields : List (String × Json F))

namespace Json

variable {F : Type}

----
-- Access
----

/- `dict.get(key)`; a value that is no object has no keys. -/
def get : Json F → String → Option (Json F)
| object fields, key => fields.lookup key
| _, _ => none

/- An `int` that is not a `bool`. -/
def asInt : Json F → Option Int
| int value => some value
| _ => none

def asStr : Json F → Option String
| str value => some value
| _ => none

def asList : Json F → Option (List (Json F))
| list items => some items
| _ => none

/- A list of integers. -/
def asInts (value : Json F) : Option (List Int) :=
  value.asList.bind (fun items => items.mapM asInt)

/- The list of integers, as a value. -/
def ints (values : List Int) : Json F :=
  list (values.map int)

/- A field that is only there when it has a value. -/
theorem lookup_optional {α : Type} (key name : String) (value : Option α) (make : α → Json F) :
    ((value.map (fun found =>
        (name, make found))).toList).lookup key =
      if key = name then value.map make else none := by
  cases value with
  | none => simp
  | some found =>
    by_cases hKey : key = name
    · simp [hKey]
    · have hNot : (key == name) = false := by simp [hKey]
      simp [List.lookup_cons, hKey, hNot]

@[simp] theorem asInts_ints (values : List Int) : (ints values : Json F).asInts = some values := by
  simp only [ints, asInts, asList, Option.bind_some]
  induction values with
  | nil => simp
  | cons value values ih => simp [asInt, ih]

----
-- Text
----

/- `'\\u{0:04x}'`. -/
def unicodeEscape (code : Nat) : String :=
  let digits := Nat.toDigits 16 code
  "\\u" ++ ofList (List.replicate (4 - digits.length) '0' ++ digits)

/-
  One character of `py_encode_basestring_ascii`: what is not
  printable ASCII is escaped, beyond the basic plane as a
  surrogate pair.
-/
def escapeChar (c : Char) : String :=
  if c.toNat = 34 then "\\\""
  else if c.toNat = 92 then "\\\\"
  else if c.toNat = 10 then "\\n"
  else if c.toNat = 13 then "\\r"
  else if c.toNat = 9 then "\\t"
  else if c.toNat = 12 then "\\f"
  else if c.toNat = 8 then "\\b"
  else if 32 ≤ c.toNat ∧ c.toNat ≤ 126 then c.toString
  else if c.toNat < 0x10000 then unicodeEscape c.toNat
  else
    unicodeEscape (0xd800 + (c.toNat - 0x10000) / 1024) ++
      unicodeEscape (0xdc00 + (c.toNat - 0x10000) % 1024)

def quote (text : String) : String :=
  "\"" ++ intercalate "" (text.toList.map escapeChar) ++ "\""

variable (floatText : F → String)

/- The text of one member of an object. -/
def member (entry : String × String) : String :=
  quote entry.1 ++ ": " ++ entry.2

mutual

/- `json.dumps(value, sort_keys=True)`. -/
def dumps : Json F → String
| null => "null"
| bool value => if value then "true" else "false"
| int value => toString value
| float value => floatText value
| str value => quote value
| list items => "[" ++ intercalate ", " (dumpsAll items) ++ "]"
| object fields =>
  "\x7b" ++ intercalate ", " (((dumpsMembers fields).mergeSort
    (fun a b => decide (a.1 ≤ b.1))).map member) ++ "\x7d"

def dumpsAll : List (Json F) → List String
| [] => []
| item :: items => dumps item :: dumpsAll items

def dumpsMembers : List (String × Json F) → List (String × String)
| [] => []
| (key, value) :: fields => (key, dumps value) :: dumpsMembers fields

end

variable (items : List (Json F)) (n : Nat) (fields : List (String × Json F))

theorem dumpsAll_eq : dumpsAll floatText items = items.map (dumps floatText) := by
  induction items with
  | nil => simp [dumpsAll]
  | cons item items ih => simp [dumpsAll, ih]

theorem dumpsMembers_eq : dumpsMembers floatText fields = fields.map (fun field =>
    (field.1, dumps floatText field.2)) := by
  induction fields with
  | nil => simp [dumpsMembers]
  | cons field fields ih => simp [dumpsMembers, ih]

----
-- Sizes
----

theorem size_intercalate (sep : String) (texts : List String) :
    (sep.intercalate texts).utf8ByteSize = (texts.map utf8ByteSize).sum +
      sep.utf8ByteSize * (texts.length - 1) := by
  induction texts with
  | nil => simp
  | cons text texts ih =>
    cases texts with
    | nil => simp
    | cons next texts =>
      rw [String.intercalate_cons_cons, utf8ByteSize_append, utf8ByteSize_append, ih]
      simp only [map_cons, sum_cons, length_cons, Nat.add_sub_cancel]
      ring

theorem size_dumps_list : (dumps floatText (list items)).utf8ByteSize = 2 + (items.map (fun item =>
    (dumps floatText item).utf8ByteSize)).sum + 2 * (items.length - 1) := by
  rw [dumps, utf8ByteSize_append, utf8ByteSize_append, size_intercalate,
    dumpsAll_eq, map_map, length_map]
  have hOpen : "[".utf8ByteSize = 1 := rfl
  have hClose : "]".utf8ByteSize = 1 := rfl
  have hSep : ", ".utf8ByteSize = 2 := rfl
  rw [hOpen, hClose, hSep]
  simp only [Function.comp_def]
  ring

theorem size_dumps_str (text : String) :
    (dumps floatText (str text)).utf8ByteSize = (quote text).utf8ByteSize := by
  rw [dumps]

/- The order of the keys does not change the size. -/
theorem size_dumps_object :
    (dumps floatText (object fields)).utf8ByteSize = 2 + (fields.map (fun field =>
      (quote field.1).utf8ByteSize + 2 + (dumps floatText field.2).utf8ByteSize)).sum +
      2 * (fields.length - 1) := by
  have hOpen : "\x7b".utf8ByteSize = 1 := rfl
  have hClose : "\x7d".utf8ByteSize = 1 := rfl
  have hSep : ", ".utf8ByteSize = 2 := rfl
  have hColon : ": ".utf8ByteSize = 2 := rfl
  have hPerm := mergeSort_perm (dumpsMembers floatText fields) (fun a b => decide (a.1 ≤ b.1))
  have hSum := ((hPerm.map member).map utf8ByteSize).sum_eq
  rw [dumps, utf8ByteSize_append, utf8ByteSize_append, size_intercalate, hSum,
    length_map, hPerm.length_eq, dumpsMembers_eq, map_map, map_map, length_map, hOpen, hClose, hSep]
  simp only [Function.comp_def, member, utf8ByteSize_append, hColon]
  ring

----
-- Numbers
----

/- The number of digits of a natural number. -/
def width : Nat :=
  (toString n).utf8ByteSize

variable {chars : List Char}

/- In ASCII text every character is one byte. -/
theorem size_ofList (hAscii : ∀ c ∈ chars, c.utf8Size = 1) :
    (ofList chars).utf8ByteSize = chars.length := by
  induction chars with
  | nil => simp
  | cons c chars ih =>
    have hRest := ih (fun d hd => hAscii d (mem_cons_of_mem _ hd))
    rw [← singleton_append, String.ofList_append, utf8ByteSize_append, hRest]
    simp [hAscii c, Nat.add_comm]

/- Characters that stand for themselves in a string. -/
def Plain (c : Char) : Prop :=
  32 ≤ c.toNat ∧ c.toNat ≤ 126 ∧ c.toNat ≠ 34 ∧ c.toNat ≠ 92

variable {c : Char}

theorem utf8Size_of_plain (hPlain : Plain c) : c.utf8Size = 1 := by
  have hLe : c.toNat ≤ 126 := hPlain.2.1
  have hAscii : c.val ≤ 0x7f := by
    rw [UInt32.le_iff_toNat_le]
    exact le_trans hLe (by decide)
  simp [Char.utf8Size, hAscii]

theorem escapeChar_of_plain (hPlain : Plain c) : escapeChar c = c.toString := by
  obtain ⟨hLow, hHigh, hQuote, hBackslash⟩ := hPlain
  rw [escapeChar, if_neg hQuote, if_neg hBackslash,
    if_neg (by omega), if_neg (by omega), if_neg (by omega),
    if_neg (by omega), if_neg (by omega), if_pos ⟨hLow, hHigh⟩]

/- Plain text only gets its two quotes. -/
theorem size_quote_ofList (hPlain : ∀ c ∈ chars, Plain c) :
    (quote (ofList chars)).utf8ByteSize = chars.length + 2 := by
  have hSizes : (chars.map escapeChar).map utf8ByteSize = List.replicate chars.length 1 := by
    rw [map_map, eq_replicate_iff]
    refine ⟨length_map _, ?_⟩
    intro size hSize
    obtain ⟨c, hMem, rfl⟩ := mem_map.mp hSize
    simp only [Function.comp_apply, escapeChar_of_plain (hPlain c hMem)]
    simp [Char.toString, utf8Size_of_plain (hPlain c hMem)]
  have hQuote : "\"".utf8ByteSize = 1 := rfl
  have hSep : "".utf8ByteSize = 0 := rfl
  rw [quote, utf8ByteSize_append, utf8ByteSize_append, size_intercalate,
    String.toList_ofList, hSizes, hQuote, hSep, sum_replicate_nat]
  omega

theorem utf8Size_of_mem_toDigits {n : Nat} (hMem : c ∈ Nat.toDigits 10 n) : c.utf8Size = 1 := by
  have hDigit : c.isDigit = true := Nat.isDigit_of_mem_toDigits (by decide) le_rfl hMem
  simp only [Char.isDigit, Bool.and_eq_true, decide_eq_true_eq] at hDigit
  have hNine : '9'.val ≤ 0x7f := by decide
  have hAscii : c.val ≤ 0x7f := UInt32.le_trans hDigit.2 hNine
  simp [Char.utf8Size, hAscii]

theorem width_eq : width n = (Nat.repr n).length := by
  rw [width, Nat.toString_eq_repr, Nat.repr_eq_ofList_toDigits, String.length_ofList]
  exact size_ofList (fun _ => utf8Size_of_mem_toDigits)

theorem size_dumps_nat : (dumps floatText (int (n : Int))).utf8ByteSize = width n := by
  rw [dumps]
  rfl

theorem width_le_iff {n k : Nat} (hPos : 0 < k) : width n ≤ k ↔ n < 10 ^ k := by
  rw [width_eq, Nat.length_repr_le_iff hPos]

theorem width_pos : 0 < width n := by
  rw [width_eq]
  exact Nat.length_repr_pos

/- A number at most `10 ^ k` times as large. -/
theorem width_le_of_le {small large k : Nat} (hLe : large ≤ 10 ^ k * small) :
    width large ≤ width small + k := by
  have hPos := width_pos small
  have hSmall : small < 10 ^ width small := (width_le_iff hPos).mp le_rfl
  apply (width_le_iff (by omega)).mpr
  calc large ≤ 10 ^ k * small := hLe
    _ < 10 ^ k * 10 ^ width small := Nat.mul_lt_mul_of_pos_left hSmall (by positivity)
    _ = 10 ^ (width small + k) := by rw [Nat.pow_add, Nat.mul_comm]

end Json

end TensorTorrent
