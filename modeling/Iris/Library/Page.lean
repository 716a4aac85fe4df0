import Iris.Library.Word

/-!
Owns page arithmetic on 64-bit addresses with 4 KiB pages: when two addresses
lie on one page, and the address maps that keep the offset and send pages to
pages. Such a map is determined on a page by its value at one address of it.
-/

namespace Iris.Library.Page

open BitVec

def base (addr : BitVec 64) : BitVec 64 := addr &&& ~~~0xFFF

def offset (addr : BitVec 64) : BitVec 64 := addr &&& 0xFFF

def SamePage (addr addr' : BitVec 64) : Prop := base addr = base addr'
deriving Decidable

/-! ### Coordinates -/

theorem toNat_offset (addr : BitVec 64) : (offset addr).toNat = addr.toNat % 4096 := by
  exact Nat.and_two_pow_sub_one_eq_mod addr.toNat 12

theorem toNat_base (addr : BitVec 64) : (base addr).toNat = addr.toNat - addr.toNat % 4096 := by
  have parts := Word.toNat_and_not_add_and addr 0xFFF
  have low := toNat_offset addr
  unfold base offset at *
  omega

variable {addr addr' : BitVec 64}

theorem samePage_iff : SamePage addr addr' ↔ addr.toNat / 4096 = addr'.toNat / 4096 := by
  unfold SamePage
  rw [← toNat_inj, toNat_base, toNat_base]
  omega

theorem SamePage.symm (same : SamePage addr addr') :
    SamePage addr' addr := Eq.symm same

/-- On one page the bits from the twelfth up agree. -/
theorem SamePage.getLsbD (same : SamePage addr addr') (high : 12 ≤ i) :
    addr.getLsbD i = addr'.getLsbD i := by
  by_cases inWord : i < 64
  · have bits := Word.and_eq_and_iff.mp same i
    apply bits
    have highBits : ∀ j : Fin 64, 12 ≤ j.val → (~~~0xFFF : BitVec 64).getLsbD j.val = true := by
      decide
    exact highBits ⟨i, inWord⟩ high
  · rw [getLsbD_of_ge _ _ (not_lt.mp inWord), getLsbD_of_ge _ _ (not_lt.mp inWord)]

theorem samePage_of_getLsbD (bits : ∀ i, 12 ≤ i → addr.getLsbD i = addr'.getLsbD i) :
    SamePage addr addr' := by
  apply Word.and_eq_and_iff.mpr
  intro i masked
  apply bits
  by_contra low
  have lowBits : ∀ j : Fin 12, (~~~0xFFF : BitVec 64).getLsbD j.val = false := by decide
  have here := lowBits ⟨i, not_le.mp low⟩
  rw [here] at masked
  exact Bool.noConfusion masked

theorem base_or_offset (addr : BitVec 64) : base addr ||| offset addr = addr := by
  unfold base offset
  rw [← and_or_distrib_left]
  have all : (~~~0xFFF ||| 0xFFF : BitVec 64) = allOnes 64 := by decide
  rw [all, and_allOnes]

/-- An address is its page's base joined with its offset. -/
theorem eq_base_or_offset (same : SamePage addr addr') (sameOffset : offset addr = offset low) :
    addr = base addr' ||| offset low := by
  rw [← same, ← sameOffset, base_or_offset]

/-- Putting another offset on a page stays on it. -/
theorem samePage_rebase : SamePage addr (base addr ||| offset low) := by
  unfold SamePage base offset
  rw [BitVec.and_or_distrib_right, BitVec.and_assoc, BitVec.and_assoc]
  simp

/-- Low bits joined to a page's base do not hide the page. -/
theorem samePage_of_tag (inOffset : low &&& ~~~0xFFF = 0)
    (tagged : base addr ||| low = base addr' ||| low) : SamePage addr addr' := by
  have cut := congrArg (fun word : BitVec 64 => word &&& ~~~0xFFF) tagged
  simp only [base, BitVec.and_or_distrib_right, inOffset, BitVec.and_assoc, BitVec.and_self] at cut
  simpa [SamePage, base] using cut

theorem offset_rebase (addr low : BitVec 64) : offset (base addr ||| offset low) = offset low := by
  unfold base offset
  rw [BitVec.and_or_distrib_right, BitVec.and_assoc, BitVec.and_assoc]
  simp

theorem SamePage.and_eq (same : SamePage addr addr') (clear : mask &&& 0xFFF = 0) :
    addr &&& mask = addr' &&& mask := by
  apply Word.and_eq_and_iff.mpr
  intro i masked
  apply same.getLsbD
  by_contra low
  have zero := congrArg (fun word : BitVec 64 => word.getLsbD i) clear
  have lowBits : ∀ j : Fin 12, (0xFFF : BitVec 64).getLsbD j.val = true := by decide
  have here := lowBits ⟨i, not_le.mp low⟩
  simp only [getLsbD_and, masked, here] at zero
  simp at zero

theorem SamePage.ushiftRight_eq (same : SamePage addr addr') (high : 12 ≤ n) :
    addr >>> n = addr' >>> n := by
  apply eq_of_getLsbD_eq
  intro i _
  rw [getLsbD_ushiftRight, getLsbD_ushiftRight]
  exact same.getLsbD (by omega)

/-! ### Maps that keep offsets -/

/-- The map sends pages to pages and leaves the offset in a page alone. -/
structure PageMap (f : BitVec 64 → BitVec 64) : Prop where
  samePage : ∀ addr addr', SamePage addr addr' → SamePage (f addr) (f addr')
  offset_eq : ∀ addr, offset (f addr) = offset addr

namespace PageMap

variable {f g : BitVec 64 → BitVec 64}

theorem comp (outer : PageMap g) (inner : PageMap f) : PageMap fun addr => g (f addr) where
  samePage := fun addr addr' same => outer.samePage _ _ (inner.samePage addr addr' same)
  offset_eq := fun addr => (outer.offset_eq _).trans (inner.offset_eq addr)

/-- On one page the map is given by its value at any address of the page. -/
theorem eq_of_samePage (map : PageMap f) (same : SamePage addr addr') :
    f addr' = base (f addr) ||| offset addr' :=
  eq_base_or_offset (map.samePage addr addr' same).symm (map.offset_eq addr')

/-- A map given by arithmetic on page number and offset. -/
theorem of_toNat (page : ∀ addr addr', addr.toNat / 4096 = addr'.toNat / 4096 →
      (f addr).toNat / 4096 = (f addr').toNat / 4096)
    (offset : ∀ addr, (f addr).toNat % 4096 = addr.toNat % 4096) : PageMap f where
  samePage := fun addr addr' same => samePage_iff.mpr (page addr addr' (samePage_iff.mp same))
  offset_eq := fun addr => by rw [← toNat_inj, toNat_offset, toNat_offset, offset]

theorem and_low (high : 12 ≤ n) (inWord : n ≤ 64) :
    PageMap fun addr => addr &&& BitVec.ofNat 64 (2 ^ n - 1) := by
  have value : ∀ addr : BitVec 64,
      (addr &&& BitVec.ofNat 64 (2 ^ n - 1)).toNat = addr.toNat % 2 ^ n := by
    intro addr
    have fits : 2 ^ n ≤ 2 ^ 64 := Nat.pow_le_pow_right (by decide) inWord
    rw [toNat_and, toNat_ofNat, Nat.mod_eq_of_lt (by omega),
      Nat.and_two_pow_sub_one_eq_mod]
  have split : 2 ^ n = 4096 * 2 ^ (n - 12) := by
    rw [show (4096 : Nat) = 2 ^ 12 from rfl, ← Nat.pow_add]
    congr 1
    omega
  refine of_toNat ?_ ?_
  · intro addr addr' same
    rw [value, value, split, Nat.mod_mul_right_div_self, Nat.mod_mul_right_div_self, same]
  · intro addr
    rw [value, split, Nat.mod_mul_right_mod]

/-- A frame joined with the address bits under a mask that keeps the offset. -/
theorem frame_or (aligned : frame &&& 0xFFF = 0) (keeps : mask &&& 0xFFF = 0xFFF) :
    PageMap fun addr => frame ||| (addr &&& mask) where
  samePage := by
    intro addr addr' same
    apply samePage_of_getLsbD
    intro i high
    simp only [getLsbD_or, getLsbD_and, same.getLsbD high]
  offset_eq := by
    intro addr
    unfold offset
    rw [BitVec.and_or_distrib_right, aligned, BitVec.and_assoc, keeps]
    exact zero_or

end PageMap

end Iris.Library.Page
