import Mathlib.Data.List.Basic
import Mathlib.Tactic.Ring

/-!
Owns little-endian numbers of a fixed width in a byte sequence.
-/

namespace Iris.Library.LittleEndian

/-- `value` in `width` bytes, the least significant first. -/
def encode : Nat → Nat → List (BitVec 8)
  | 0, _ => []
  | width + 1, value => BitVec.ofNat 8 value :: encode width (value / 256)

def decode : List (BitVec 8) → Nat
  | [] => 0
  | byte :: rest => byte.toNat + 256 * decode rest

@[simp]
theorem length_encode : (encode width value).length = width := by
  induction width generalizing value with
  | zero => rfl
  | succ width inductionHypothesis => rw [encode, List.length_cons, inductionHypothesis]

theorem decode_encode (fits : value < 256 ^ width) : decode (encode width value) = value := by
  induction width generalizing value with
  | zero =>
    simp only [encode, decode]
    omega
  | succ width inductionHypothesis =>
    have high : value / 256 < 256 ^ width := by
      exact Nat.div_lt_of_lt_mul (by omega)
    rw [encode, decode, inductionHypothesis high]
    exact Nat.mod_add_div value 256

end Iris.Library.LittleEndian
