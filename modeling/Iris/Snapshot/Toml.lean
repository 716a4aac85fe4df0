import Mathlib.Tactic.Ring
import Mathlib.Tactic.IntervalCases

/-!
Owns the snapshot encoding of 64-bit words: the TOML values they are written
as, the reader that accepts them, and that reading what was written gives the
word back. Tables, floats and the other TOML shapes carry no word and are one
case here.
-/

namespace Iris.Snapshot

open List

/-- The TOML values a word or a word array can be read from. -/
inductive Value
  | string (text : String)
  | integer (value : Int)
  | array (items : List Value)
  | other

/-! ### Writing -/

def hexChar (digit : Nat) : Char :=
  Char.ofNat (if digit < 10 then 0x30 + digit else 0x57 + digit)

def hexDigits : Nat → Nat → List Char
  | 0, _ => []
  | width + 1, value => hexDigits width (value / 16) ++ [hexChar (value % 16)]

def hexU64 (v : BitVec 64) : Value :=
  .string (String.ofList ('0' :: 'x' :: hexDigits 16 v.toNat))

def u64SliceToToml (slice : List (BitVec 64)) : Value :=
  .array (slice.map hexU64)

/-! ### Reading -/

def hexValue (c : Char) : Option Nat :=
  if '0' ≤ c ∧ c ≤ '9' then some (c.toNat - 0x30)
  else if 'a' ≤ c ∧ c ≤ 'f' then some (c.toNat - 0x57)
  else if 'A' ≤ c ∧ c ≤ 'F' then some (c.toNat - 0x37)
  else none

def trimStart0x : List Char → List Char
  | '0' :: 'x' :: rest => trimStart0x rest
  | chars => chars

/-- One digit of a checked accumulation: a bad digit or an overflow fails. -/
def accumulateHex (acc : Nat) (c : Char) : Option Nat := do
  let digit ← hexValue c
  if acc * 16 + digit < 2 ^ 64 then some (acc * 16 + digit) else none

def stripPlus : List Char → List Char
  | '+' :: rest => rest
  | chars => chars

/-- `u64::from_str_radix(_, 16)`: an optional plus sign and at least one digit. -/
def fromStrRadix16 (chars : List Char) : Option (BitVec 64) :=
  let digits := stripPlus chars
  if digits = [] then none
  else (digits.foldlM accumulateHex 0).map (BitVec.ofNat 64)

def tomlU64 : Value → Option (BitVec 64)
  | .string s => fromStrRadix16 (trimStart0x s.toList)
  | .integer i => some (BitVec.ofInt 64 i)
  | _ => none

/-- Fill as many of the words `dst` as the array has items; an item that does
not parse leaves its word alone. -/
def loadSlice {w : Nat} (parse : Value → Option (BitVec w)) (v : Value) (dst : List (BitVec w)) :
    List (BitVec w) :=
  match v with
  | .array items => dst.mapIdx fun i old => ((items[i]?).bind parse).getD old
  | _ => dst

def loadU64Slice : Value → List (BitVec 64) → List (BitVec 64) := loadSlice tomlU64

/-! ### Narrower words, arrays of them and fields -/

def hexU32 (v : BitVec 32) : Value :=
  .string (String.ofList ('0' :: 'x' :: hexDigits 8 v.toNat))

/-- The text is read as 64 bits and cut. -/
def tomlU32 : Value → Option (BitVec 32)
  | .string s => (fromStrRadix16 (trimStart0x s.toList)).map (BitVec.setWidth 32)
  | .integer i => some (BitVec.ofInt 32 i)
  | _ => none

def hexU8 (v : BitVec 8) : Value :=
  .string (String.ofList ('0' :: 'x' :: hexDigits 2 v.toNat))

def tomlU8 : Value → Option (BitVec 8)
  | .string s => (fromStrRadix16 (trimStart0x s.toList)).map (BitVec.setWidth 8)
  | .integer i => some (BitVec.ofInt 8 i)
  | _ => none

def u32SliceToToml (slice : List (BitVec 32)) : Value :=
  .array (slice.map hexU32)

def loadU32Slice : Value → List (BitVec 32) → List (BitVec 32) := loadSlice tomlU32

def u8SliceToToml (slice : List (BitVec 8)) : Value :=
  .array (slice.map hexU8)

def loadU8Slice : Value → List (BitVec 8) → List (BitVec 8) := loadSlice tomlU8

/-- A field of a saved table: a flag, or a value words are read from. -/
inductive Field
  | boolean (value : Bool)
  | words (value : Value)

abbrev Fields := List (String × Field)

def getField (table : Fields) (key : String) : Option Field := table.lookup key

def tomlBool : Field → Option Bool
  | .boolean value => some value
  | .words _ => none

def Field.asInteger : Field → Option Int
  | .words (.integer value) => some value
  | _ => none

/-- What a reader of words makes of a field; a flag holds none. -/
def Field.read {α : Type} (reader : Value → α) (fallback : α) : Option Field → α
  | some (.words value) => reader value
  | _ => fallback

/-! ### Reading back what was written -/

theorem hexValue_hexChar (small : digit < 16) : hexValue (hexChar digit) = some digit := by
  interval_cases digit <;> rfl

theorem hexChar_ne (small : digit < 16) : hexChar digit ≠ 'x' ∧ hexChar digit ≠ '+' := by
  interval_cases digit <;> decide

theorem hexDigits_ne (member : c ∈ hexDigits width value) : c ≠ 'x' ∧ c ≠ '+' := by
  induction width generalizing value with
  | zero => simp [hexDigits] at member
  | succ width inductionHypothesis =>
    rw [hexDigits, mem_append, mem_singleton] at member
    rcases member with earlier | rfl
    · exact inductionHypothesis earlier
    · exact hexChar_ne (Nat.mod_lt _ (by decide))

theorem hexDigits_length (width value : Nat) : (hexDigits width value).length = width := by
  induction width generalizing value with
  | zero => rfl
  | succ width inductionHypothesis => simp [hexDigits, inductionHypothesis]

theorem foldlM_hexDigits (fits : value < 16 ^ width) (word : value < 2 ^ 64) :
    (hexDigits width value).foldlM accumulateHex 0 = some value := by
  induction width generalizing value with
  | zero =>
    have isZero : value = 0 := by simpa using fits
    simp [hexDigits, isZero]
  | succ width inductionHypothesis =>
    have quotient : value / 16 < 16 ^ width := by
      omega
    rw [hexDigits, foldlM_append, inductionHypothesis quotient (by omega)]
    have digit := hexValue_hexChar (Nat.mod_lt value (by decide : 0 < 16))
    have whole : value / 16 * 16 + value % 16 = value := Nat.div_add_mod' value 16
    simpa [accumulateHex, digit, whole] using word

theorem trimStart0x_hexDigits (width value : Nat) :
    trimStart0x (hexDigits width value) = hexDigits width value := by
  have noMarker : 'x' ∉ hexDigits width value := fun member => (hexDigits_ne member).1 rfl
  generalize hexDigits width value = chars at noMarker
  match chars with
  | [] => rfl
  | [_] => rw [trimStart0x]; simp
  | c :: d :: rest =>
    rw [trimStart0x]
    rintro rest' same
    cases same
    simp at noMarker

theorem stripPlus_hexDigits (width value : Nat) :
    stripPlus (hexDigits width value) = hexDigits width value := by
  have noSign : '+' ∉ hexDigits width value := fun member => (hexDigits_ne member).2 rfl
  generalize hexDigits width value = chars at noSign
  rw [stripPlus]
  rintro rest rfl
  simp at noSign

/-- The reader takes the digits of a word back. -/
theorem fromStrRadix16_hexDigits (positive : 0 < width) (fits : value < 16 ^ width)
    (word : value < 2 ^ 64) :
    fromStrRadix16 (trimStart0x ('0' :: 'x' :: hexDigits width value)) =
      some (BitVec.ofNat 64 value) := by
  have nonempty : hexDigits width value ≠ [] := by
    intro empty
    have length := hexDigits_length width value
    rw [empty, length_nil] at length
    omega
  rw [trimStart0x, trimStart0x_hexDigits, fromStrRadix16, stripPlus_hexDigits]
  simp only [nonempty, if_false, foldlM_hexDigits fits word, Option.map_some]

theorem tomlU64_hexU64 (v : BitVec 64) : tomlU64 (hexU64 v) = some v := by
  rw [hexU64, tomlU64, String.toList_ofList,
    fromStrRadix16_hexDigits (by decide) (by have := v.isLt; omega) v.isLt]
  simp

theorem tomlU32_hexU32 (v : BitVec 32) : tomlU32 (hexU32 v) = some v := by
  rw [hexU32, tomlU32, String.toList_ofList,
    fromStrRadix16_hexDigits (by decide) (by omega) (by omega)]
  simp

theorem tomlU8_hexU8 : tomlU8 (hexU8 v) = some v := by
  rw [hexU8, tomlU8, String.toList_ofList,
    fromStrRadix16_hexDigits (by decide) (by omega) (by omega)]
  simp

/-- An array of words fills a destination it covers with its first words. -/
theorem loadSlice_map {parse : Value → Option (BitVec w)} {encode : BitVec w → Value}
    (reads : ∀ word, parse (encode word) = some word) {slice dst : List (BitVec w)}
    (covers : dst.length ≤ slice.length) :
    loadSlice parse (.array (slice.map encode)) dst = slice.take dst.length := by
  apply ext_getElem
  · simp [loadSlice, covers]
  · intro i inDst inSlice
    have within : i < slice.length := by
      rw [length_take] at inSlice
      omega
    simp [loadSlice, within, reads]

/-- A saved word array fills a destination of the same length with its words. -/
theorem loadU64Slice_u64SliceToToml (sameLength : dst.length = slice.length) :
    loadU64Slice (u64SliceToToml slice) dst = slice := by
  rw [loadU64Slice, u64SliceToToml, loadSlice_map tomlU64_hexU64 (Nat.le_of_eq sameLength),
    sameLength, take_length]

end Iris.Snapshot
