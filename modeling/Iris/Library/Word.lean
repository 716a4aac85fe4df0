import Mathlib.Tactic.Ring

/-!
Owns mask arithmetic on machine words: a word splits into its part under a mask
and the rest, words agree under a mask exactly when they agree bit by bit there,
and multiples of four are closed under addition and subtraction.
-/

namespace Iris.Library.Word

open BitVec

variable {w : Nat}

theorem toNat_and_not_add_and (x mask : BitVec w) :
    (x &&& ~~~mask).toNat + (x &&& mask).toNat = x.toNat := by
  have disjoint : (x &&& ~~~mask) &&& (x &&& mask) = 0#w := by
    grind
  have whole : (x &&& ~~~mask) + (x &&& mask) = x := by
    rw [add_eq_or_of_and_eq_zero _ _ disjoint]
    grind
  have noCarry := toNat_add_of_and_eq_zero disjoint
  rw [← noCarry, whole]

theorem and_eq_and_iff {mask : BitVec w} :
    x &&& mask = y &&& mask ↔ ∀ i, mask.getLsbD i = true → x.getLsbD i = y.getLsbD i := by
  constructor
  · intro equal i inMask
    have bits := congrArg (fun word => word.getLsbD i) equal
    simpa [inMask] using bits
  intro bits
  ext i below
  by_cases inMask : mask.getLsbD i = true
  · have same := bits i inMask
    simp only [getLsbD_eq_getElem below] at same
    simp [same]
  · simp only [getLsbD_eq_getElem below] at inMask
    simp [inMask]

theorem or_and_not_cancel {mask : BitVec w} (clear : x &&& mask = 0) :
    (x ||| mask) &&& ~~~mask = x := by
  ext i below
  have bit : (x &&& mask)[i] = false := by simp [clear]
  rw [getElem_and] at bit
  cases inMask : mask[i] <;> simp_all

/-! ### Multiples of four -/

theorem and_three_eq_zero_iff {x : BitVec 64} : x &&& 3 = 0 ↔ x.toNat % 4 = 0 := by
  rw [← toNat_inj, toNat_and]
  have low : x.toNat &&& (3#64).toNat = x.toNat % 4 := Nat.and_two_pow_sub_one_eq_mod x.toNat 2
  rw [show (3 : BitVec 64) = 3#64 from rfl, low]
  rfl

theorem add_and_three {x y : BitVec 64} (left : x &&& 3 = 0) (right : y &&& 3 = 0) :
    (x + y) &&& 3 = 0 := by
  rw [and_three_eq_zero_iff] at *
  rw [toNat_add]
  omega

theorem sub_and_three {x : BitVec 64} (left : x &&& 3 = 0) (right : y &&& 3 = 0) :
    (x - y) &&& 3 = 0 := by
  rw [and_three_eq_zero_iff] at *
  rw [toNat_sub]
  omega

end Iris.Library.Word
