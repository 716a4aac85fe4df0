import Mathlib.Tactic.Ring

/-!
Owns flags kept in a register: a mask is tested against it, set in it and
cleared from it.
-/

namespace Iris.Library.Flags

open BitVec

variable {w : Nat} {reg mask flags : BitVec w}

def has (reg mask : BitVec w) : Bool := reg &&& mask != 0

theorem has_or (reg flags mask : BitVec w) :
    has (reg ||| flags) mask = (has reg mask || has flags mask) := by
  rw [Bool.eq_iff_iff, Bool.or_eq_true]
  simp only [has, bne_iff_ne, ne_eq, and_or_distrib_right]
  rw [← not_and_or, not_iff_not]
  exact or_eq_zero_iff

/-- Setting flags apart from the mask leaves the test as it was. -/
theorem has_or_apart (apart : flags &&& mask = 0) : has (reg ||| flags) mask = has reg mask := by
  rw [has_or]
  simp [has, apart]

theorem has_or_within (within : flags &&& mask ≠ 0) : has (reg ||| flags) mask = true := by
  rw [has_or, Bool.or_eq_true]
  exact .inr (bne_iff_ne.mpr within)

theorem has_clear (within : mask &&& ~~~flags = 0) : has (reg &&& ~~~flags) mask = false := by
  have none : reg &&& ~~~flags &&& mask = 0 := by
    rw [BitVec.and_assoc, BitVec.and_comm (~~~flags), within]
    simp
  simp [has, none]

theorem has_keep (apart : mask &&& flags = 0) : has (reg &&& ~~~flags) mask = has reg mask := by
  have same : reg &&& ~~~flags &&& mask = reg &&& mask := by
    have covered : ~~~flags &&& mask = mask := by
      ext i below
      have bit : (mask &&& flags)[i] = false := by simp [apart]
      rw [getElem_and] at bit
      cases inMask : mask[i] <;> simp_all
    rw [BitVec.and_assoc, covered]
  rw [has, has, same]

theorem has_and (within : flags &&& mask = mask) : has (reg &&& flags) mask = has reg mask := by
  rw [has, has, BitVec.and_assoc, within]

/-- Registers that do not differ under the mask test alike. -/
theorem has_congr_of_xor (alike : has (reg ^^^ other) mask = false) :
    has reg mask = has other mask := by
  have none : (reg ^^^ other) &&& mask = 0 := by simpa [has] using alike
  have same : reg &&& mask = other &&& mask := by
    ext i below
    have bit : ((reg ^^^ other) &&& mask)[i] = false := by simp [none]
    simp only [getElem_and, getElem_xor] at bit ⊢
    cases inMask : mask[i] <;> simp_all
  rw [has, has, same]

end Iris.Library.Flags
