import Mathlib.Tactic.Ring
import Mathlib.Tactic.IntervalCases

/-!
Owns big-endian accesses of 1, 2, 4 and 8 bytes to memory kept as
doublewords: the lanes a little-endian host gives such memory, the bytes the
same memory has, and that reading or writing a lane reads or writes exactly
the bytes it covers.
-/

namespace Iris.BigEndian

open BitVec Function

inductive Width
  | byte
  | half
  | word
  | double
deriving DecidableEq, Repr

namespace Width

def bytes : Width → Nat
  | byte => 1
  | half => 2
  | word => 4
  | double => 8

def lanes (width : Width) : Nat := 8 / width.bytes

theorem bytes_le (width : Width) : width.bytes ≤ 8 := by
  cases width <;> decide

end Width

/-! ### Lanes of a doubleword -/

/-- Bits `8 * width.bytes * lane` and up of `chunk`. -/
def lane (width : Width) (chunk : BitVec 64) (lane : Nat) : BitVec 64 :=
  (chunk.extractLsb' (8 * width.bytes * lane) (8 * width.bytes)).setWidth 64

def setLane (width : Width) (chunk : BitVec 64) (lane : Nat) (value : BitVec 64) : BitVec 64 :=
  let mask : BitVec 64 := (allOnes (8 * width.bytes)).setWidth 64
  (chunk &&& ~~~(mask <<< (8 * width.bytes * lane))) |||
    ((value &&& mask) <<< (8 * width.bytes * lane))

/-- The lane of the host's view that holds the big-endian access at `addr`. -/
def hostLane (width : Width) (addr : Nat) : Nat :=
  (addr / width.bytes) ^^^ (width.lanes - 1)

theorem hostLane_div (width : Width) (addr : Nat) :
    hostLane width addr / width.lanes = addr / 8 := by
  cases width
  · show (addr / 1 ^^^ 7) / 2 ^ 3 = addr / 8
    rw [Nat.xor_div_two_pow]
    simp
  · show (addr / 2 ^^^ 3) / 2 ^ 2 = addr / 8
    rw [Nat.xor_div_two_pow]
    simp [Nat.div_div_eq_div_mul]
  · show (addr / 4 ^^^ 1) / 2 ^ 1 = addr / 8
    rw [Nat.xor_div_two_pow]
    simp [Nat.div_div_eq_div_mul]
  · show (addr / 8 ^^^ 0) / 1 = addr / 8
    simp

theorem hostLane_mod (width : Width) (addr : Nat) :
    hostLane width addr % width.lanes = width.lanes - 1 - addr / width.bytes % width.lanes := by
  cases width
  · show (addr / 1 ^^^ 7) % 2 ^ 3 = 7 - addr / 1 % 8
    rw [Nat.xor_mod_two_pow]
    have small : addr / 1 % 8 < 8 := Nat.mod_lt _ (by decide)
    show addr / 1 % 8 ^^^ 7 = 7 - addr / 1 % 8
    interval_cases addr / 1 % 8 <;> rfl
  · show (addr / 2 ^^^ 3) % 2 ^ 2 = 3 - addr / 2 % 4
    rw [Nat.xor_mod_two_pow]
    have small : addr / 2 % 4 < 4 := Nat.mod_lt _ (by decide)
    interval_cases addr / 2 % 4 <;> rfl
  · show (addr / 4 ^^^ 1) % 2 ^ 1 = 1 - addr / 4 % 2
    rw [Nat.xor_mod_two_pow]
    have small : addr / 4 % 2 < 2 := Nat.mod_lt _ (by decide)
    interval_cases addr / 4 % 2 <;> rfl
  · show (addr / 8 ^^^ 0) % 1 = 0 - addr / 8 % 1
    omega

variable {addr : Nat} {width : Width} {words : Nat → BitVec 64}

/-- An aligned access starts at the bit its last byte has. -/
theorem hostLane_shift (aligned : addr % width.bytes = 0) :
    8 * width.bytes * (hostLane width addr % width.lanes) = 8 * (8 - width.bytes - addr % 8) := by
  rw [hostLane_mod]
  cases width <;> simp only [Width.bytes, Width.lanes] at aligned ⊢ <;> omega

theorem lane_bit (width : Width) (chunk : BitVec 64) (index bit : Nat) :
    (lane width chunk index).getLsbD bit =
      (decide (bit < 8 * width.bytes) && chunk.getLsbD (8 * width.bytes * index + bit)) := by
  have small := width.bytes_le
  simp only [lane, getLsbD_setWidth, getLsbD_extractLsb']
  by_cases inside : bit < 8 * width.bytes
  · have whole : bit < 64 := by omega
    simp [inside, whole]
  · simp [inside]

theorem setLane_bit (small : bit < 64) :
    (setLane width chunk index value).getLsbD bit =
      if 8 * width.bytes * index ≤ bit ∧ bit < 8 * width.bytes * index + 8 * width.bytes then
        value.getLsbD (bit - 8 * width.bytes * index)
      else chunk.getLsbD bit := by
  simp only [setLane, getLsbD_or, getLsbD_and, getLsbD_not,
    getLsbD_shiftLeft, getLsbD_setWidth, getLsbD_allOnes, small,
    decide_true, Bool.true_and]
  by_cases below : bit < 8 * width.bytes * index
  · have outside : ¬(8 * width.bytes * index ≤ bit ∧
        bit < 8 * width.bytes * index + 8 * width.bytes) := by omega
    simp [below, outside]
  by_cases inside : bit < 8 * width.bytes * index + 8 * width.bytes
  · have covered : bit - 8 * width.bytes * index < 8 * width.bytes := by omega
    have low : bit - 8 * width.bytes * index < 64 := by omega
    have reached : 8 * width.bytes * index ≤ bit := by omega
    simp [below, covered, low, reached, inside]
  · have above : ¬(bit - 8 * width.bytes * index < 8 * width.bytes) := by omega
    simp [below, above, inside]

theorem lane_double (chunk : BitVec 64) : lane .double chunk 0 = chunk := by
  simp [lane, Width.bytes]

theorem setLane_double (chunk value : BitVec 64) : setLane .double chunk 0 value = value := by
  apply eq_of_getLsbD_eq
  intro bit small
  rw [setLane_bit small, if_pos (by simp only [Width.bytes]; omega)]
  simp

/-! ### Bytes of doubleword memory -/

/-- Byte `k` of a doubleword, the most significant first. -/
def byteOf (chunk : BitVec 64) (k : Nat) : BitVec 8 :=
  chunk.extractLsb' (8 * (7 - k)) 8

def byteAt (words : Nat → BitVec 64) (addr : Nat) : BitVec 8 :=
  byteOf (words (addr / 8)) (addr % 8)

theorem byteOf_bit (small : bit < 8) :
    (byteOf chunk k).getLsbD bit = chunk.getLsbD (8 * (7 - k) + bit) := by
  simp [byteOf, small]

/-! ### Flat memory -/

abbrev Flat := Nat → BitVec 8

namespace Flat

/-- `count` bytes from `addr`, the first the most significant. -/
def load (flat : Flat) (addr : Nat) : Nat → BitVec 64
  | 0 => 0
  | count + 1 => (flat.load addr count) <<< 8 ||| (flat (addr + count)).setWidth 64

/-- The low `count` bytes of `value` at `addr`, the most significant first. -/
def store (flat : Flat) (addr count : Nat) (value : BitVec 64) : Flat :=
  fun a => if addr ≤ a ∧ a < addr + count then
      value.extractLsb' (8 * (count - 1 - (a - addr))) 8
    else flat a

/-- The bits of `value` that `mask` selects, in the doubleword at `addr`. -/
def storeMasked (flat : Flat) (addr : Nat) (value mask : BitVec 64) : Flat :=
  fun a => if addr ≤ a ∧ a < addr + 8 then
      (flat a &&& ~~~(byteOf mask (a - addr))) |||
        (byteOf value (a - addr) &&& byteOf mask (a - addr))
    else flat a

theorem load_bit (flat : Flat) {addr count : Nat} (bit : Nat) (narrow : count ≤ 8) :
    (flat.load addr count).getLsbD bit =
      (decide (bit < 8 * count) && (flat (addr + (count - 1 - bit / 8))).getLsbD (bit % 8)) := by
  induction count generalizing bit with
  | zero => simp [load]
  | succ count inductionHypothesis =>
    rw [load, getLsbD_or, getLsbD_shiftLeft, getLsbD_setWidth]
    by_cases low : bit < 8
    · have quotient : bit / 8 = 0 := by omega
      have remainder : bit % 8 = bit := by omega
      have whole : bit < 64 := by omega
      have within : bit < 8 * (count + 1) := by omega
      simp [low, quotient, remainder, whole, within]
    · have above : (flat (addr + count)).getLsbD bit = false :=
        getLsbD_of_ge _ _ (by omega)
      by_cases within : bit < 8 * (count + 1)
      · have whole : bit < 64 := by omega
        have shifted : bit - 8 < 8 * count := by omega
        have digit : count - 1 - (bit - 8) / 8 = count + 1 - 1 - bit / 8 := by omega
        have place : (bit - 8) % 8 = bit % 8 := by omega
        simp [inductionHypothesis _ (by omega), low, above, whole, shifted, within, digit, place]
      · have shifted : ¬(bit - 8 < 8 * count) := by omega
        simp [inductionHypothesis _ (by omega), low, above, shifted, within]

/-- A load looks at the bytes it covers. -/
theorem load_congr {flat flat' : Flat} {count : Nat}
    (same : ∀ a, addr ≤ a → a < addr + count → flat a = flat' a) :
    flat.load addr count = flat'.load addr count := by
  induction count with
  | zero => rfl
  | succ count inductionHypothesis =>
    rw [load, load, inductionHypothesis fun a low high => same a low (by omega),
      same (addr + count) (by omega) (by omega)]

end Flat

/-! ### Lanes are bytes -/

/-- Reading the lane of an aligned access gives the bytes it covers. -/
theorem lane_eq_load (aligned : addr % width.bytes = 0) :
    lane width (words (addr / 8)) (hostLane width addr % width.lanes) =
      Flat.load (byteAt words) addr width.bytes := by
  have narrow := width.bytes_le
  have room : addr % 8 + width.bytes ≤ 8 := by
    cases width <;> simp only [Width.bytes] at aligned ⊢ <;> omega
  apply eq_of_getLsbD_eq
  intro bit small
  rw [lane_bit, hostLane_shift aligned, Flat.load_bit _ _ narrow]
  by_cases inside : bit < 8 * width.bytes
  · have place : (addr + (width.bytes - 1 - bit / 8)) / 8 = addr / 8 := by omega
    have offset : (addr + (width.bytes - 1 - bit / 8)) % 8 =
        addr % 8 + (width.bytes - 1 - bit / 8) := by omega
    rw [byteAt, byteOf_bit (by omega), place, offset]
    have sameBit : 8 * (8 - width.bytes - addr % 8) + bit =
        8 * (7 - (addr % 8 + (width.bytes - 1 - bit / 8))) + bit % 8 := by omega
    rw [sameBit]
  · simp [inside]

/-- Writing the lane of an aligned access writes the bytes it covers. -/
theorem byteAt_setLane (aligned : addr % width.bytes = 0) :
    byteAt (update words (addr / 8)
        (setLane width (words (addr / 8)) (hostLane width addr % width.lanes) value)) =
      Flat.store (byteAt words) addr width.bytes value := by
  have room : addr % 8 + width.bytes ≤ 8 := by
    cases width <;> simp only [Width.bytes] at aligned ⊢ <;> omega
  funext a
  by_cases here : a / 8 = addr / 8
  · apply eq_of_getLsbD_eq
    intro bit small
    rw [byteAt, here, update_self, byteOf_bit small, setLane_bit (by omega),
      hostLane_shift aligned, Flat.store]
    by_cases inside : addr ≤ a ∧ a < addr + width.bytes
    · rw [if_pos (by omega), if_pos inside]
      simp only [getLsbD_extractLsb', small, decide_true, Bool.true_and]
      congr 1
      omega
    · rw [if_neg (by omega), if_neg inside, byteAt, byteOf_bit small, here]
  · have outside : ¬(addr ≤ a ∧ a < addr + width.bytes) := by omega
    rw [byteAt, update_of_ne here, Flat.store, if_neg outside]
    rfl

/-- Merging under a mask writes the selected bits of each byte. -/
theorem byteAt_merge (aligned : addr % 8 = 0) :
    byteAt (update words (addr / 8)
        ((words (addr / 8) &&& ~~~mask) ||| (value &&& mask))) =
      Flat.storeMasked (byteAt words) addr value mask := by
  funext a
  by_cases here : a / 8 = addr / 8
  · have inside : addr ≤ a ∧ a < addr + 8 := by omega
    have offset : a - addr = a % 8 := by omega
    apply eq_of_getLsbD_eq
    intro bit small
    rw [byteAt, here, update_self, Flat.storeMasked, if_pos inside, offset]
    have whole : 8 * (7 - a % 8) + bit < 64 := by omega
    simp only [getLsbD_or, getLsbD_and, getLsbD_not, byteOf_bit small,
      small, whole, decide_true, Bool.true_and, byteAt, here]
  · have outside : ¬(addr ≤ a ∧ a < addr + 8) := by omega
    rw [byteAt, update_of_ne here, Flat.storeMasked, if_neg outside]
    rfl

end Iris.BigEndian
