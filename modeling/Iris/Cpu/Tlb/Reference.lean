import Iris.Cpu.Tlb.Vmap
import Iris.Library.Word

/-!
Owns the architectural meaning of one TLB entry, stated over its four words:
when it matches an address and what it then answers. Shadow entries derived
from the words agree with it, and an entry matches only addresses whose VPN2
lies in its vmap range.
-/

namespace Iris.Cpu.Tlb

open Library BitVec ShadowEntry TlbEntry

/-! ### One entry, from its words -/

variable (lo : BitVec 64)

/-- The address bits an entry compares: the VPN2 (and the region in 64-bit
mode) outside the page mask. -/
def compareMask (pageMask : BitVec 64) (is64 : Bool) : BitVec 64 :=
  ~~~(pageMask ||| 0x1FFF) &&& (if is64 then 0xC00000FFFFFFE000 else 0x00000000FFFFE000)

def TlbEntry.Matches (entry : TlbEntry) (is64 : Bool) (virtAddr : BitVec 64)
    (asid : BitVec 8) : Prop :=
  virtAddr &&& compareMask entry.pageMask is64 = entry.entryHi &&& compareMask entry.pageMask is64 ∧
    (entry.isGlobal = true ∨ entry.asid = asid)
deriving Decidable

def pageOffsetMask (pageMask : BitVec 64) : BitVec 64 :=
  ((1 : BitVec 64) <<< pageShift pageMask) - 1

/-- The answer of the half the address selects: V clear is Invalid, a store
with D clear is Modified, and otherwise the frame joined with the in-page
offset under that half's cache attribute. -/
def TlbEntry.respond (entry : TlbEntry) (cAttr : CacheTable) (virtAddr : BitVec 64)
    (accessType : AccessType) : TlbResult :=
  let lo := entry.entryLo.get (virtAddr.getLsbD (pageShift entry.pageMask))
  let offsetMask := pageOffsetMask entry.pageMask
  if lo.getLsbD 1 = false then .invalid (virtAddr >>> 13)
  else if accessType = .write ∧ lo.getLsbD 2 = false then .modified (virtAddr >>> 13)
  else .hit (pageFrame offsetMask lo ||| (virtAddr &&& offsetMask)) (cAttr ((lo >>> 3).setWidth 3))
    (lo.getLsbD 2) entry.isGlobal

theorem TlbEntry.respond_ne_miss (entry : TlbEntry) (accessType : AccessType) :
    entry.respond cAttr virtAddr accessType ≠ .miss vpn2 := by
  unfold respond
  dsimp only
  split
  · exact TlbResult.noConfusion
  · split <;> exact TlbResult.noConfusion

/-! ### Derived shadows agree -/

private theorem bit_test (word : BitVec 64) {i : Nat} (below : i < 64) :
    (word &&& twoPow 64 i != 0) = word.getLsbD i := by
  rw [and_twoPow]
  cases bit : word.getLsbD i with
  | false => rfl
  | true =>
    have nonzero : twoPow 64 i ≠ 0 := by
      intro zero
      have bit := congrArg (fun word => word.getLsbD i) zero
      simp [below] at bit
    simpa using nonzero

theorem validDirtyBits_eq :
    validDirtyBits lo = (ofBool (lo.getLsbD 1)).setWidth 8 |||
      (ofBool (lo.getLsbD 2)).setWidth 8 <<< 1 := by
  rw [← bit_test lo (by decide : 1 < 64), ← bit_test lo (by decide : 2 < 64)]
  rfl

theorem validDirtyBits_valid : (validDirtyBits lo &&& 0x1 == 0) = !lo.getLsbD 1 := by
  rw [validDirtyBits_eq]
  generalize lo.getLsbD 1 = valid, lo.getLsbD 2 = dirty
  revert valid dirty
  decide

theorem validDirtyBits_dirty : (validDirtyBits lo &&& 0x2 != 0) = lo.getLsbD 2 := by
  rw [validDirtyBits_eq]
  generalize lo.getLsbD 1 = valid, lo.getLsbD 2 = dirty
  revert valid dirty
  decide

variable {entry : TlbEntry}

section
variable (derived : entry.Derived)
include derived

theorem isMatch_fromEntry (cAttr : CacheTable) (is64 : Bool) (virtAddr : BitVec 64)
    (asid : BitVec 8) :
    (fromEntry entry cAttr).isMatch is64 virtAddr asid = true ↔
      entry.Matches is64 virtAddr asid := by
  rw [← derived]
  cases is64 <;>
    simp [isMatch, fromEntry, Matches, compareMask,
      TlbEntry.withDerived, TlbEntry.isGlobal, TlbEntry.asid]

theorem TlbEntry.Derived.selectorBitShift_eq :
    entry.selectorBitShift = pageShift entry.pageMask :=
  (congrArg selectorBitShift derived).symm

theorem TlbEntry.Derived.offsetMask_eq : entry.offsetMask = pageOffsetMask entry.pageMask :=
  (congrArg offsetMask derived).symm

theorem TlbEntry.Derived.pfnBase_eq :
    entry.pfnBase = entry.entryLo.map (pageFrame (pageOffsetMask entry.pageMask)) :=
  (congrArg pfnBase derived).symm

theorem answer_fromEntry (cAttr : CacheTable) (virtAddr : BitVec 64) (accessType : AccessType) :
    (fromEntry entry cAttr).answer virtAddr accessType =
      entry.respond cAttr virtAddr accessType := by
  simp only [answer, fromEntry, respond, Halves.get_map,
    derived.selectorBitShift_eq, derived.offsetMask_eq, derived.pfnBase_eq, validDirtyBits_valid,
    validDirtyBits_dirty]
  generalize entry.entryLo.get (virtAddr.getLsbD (pageShift entry.pageMask)) = lo
  cases valid : lo.getLsbD 1 <;> simp

end

theorem isMatch_invalid (is64 : Bool) (virtAddr : BitVec 64) (asid : BitVec 8) :
    invalid.isMatch is64 virtAddr asid = false := by
  cases is64 <;> simp [isMatch, invalid]

/-! ### Matching addresses lie in the entry's range -/

def MaskFits (pageMask : BitVec 64) : Prop := pageMask ||| 0x1FFF ≠ allOnes 64
deriving Decidable

def vmapSlot (virtAddr : BitVec 64) : Nat := ((virtAddr.setWidth 32) >>> 13).toNat

theorem vmapSlot_lt : vmapSlot virtAddr < vmapSize := by
  unfold vmapSlot vmapSize
  rw [toNat_ushiftRight]
  omega

private def slotWord (word : BitVec 64) : BitVec 64 := ((word.setWidth 32) >>> 13).setWidth 64

private theorem slotWord_getLsbD (word : BitVec 64) (i : Nat) :
    (slotWord word).getLsbD i = (decide (i < 19) && word.getLsbD (i + 13)) := by
  simp only [slotWord, getLsbD_setWidth, getLsbD_ushiftRight]
  grind

private theorem slotWord_toNat (word : BitVec 64) : (slotWord word).toNat = vmapSlot word := by
  unfold slotWord vmapSlot at *
  rw [toNat_setWidth]
  omega

private theorem sizeMask_toNat_mod (pageMask : BitVec 64) :
    (pageMask ||| 0x1FFF).toNat % 8192 = 8191 := by
  have low : (pageMask ||| 0x1FFF) &&& 0x1FFF = (0x1FFF : BitVec 64) := by
    grind
  have value := congrArg BitVec.toNat low
  have pow : (pageMask ||| 0x1FFF).toNat &&& (2 ^ 13 - 1) = 8191 := value
  rwa [Nat.and_two_pow_sub_one_eq_mod] at pow

theorem vmapRange_eq (fits : MaskFits entry.pageMask) :
    vmapRange entry =
      ((slotWord entry.entryHi &&& ~~~((entry.pageMask ||| 0x1FFF) >>> 13)).toNat,
        ((entry.pageMask ||| 0x1FFF) >>> 13).toNat + 1) := by
  have low := sizeMask_toNat_mod entry.pageMask
  have noOverflow : (entry.pageMask ||| 0x1FFF).toNat + 1 < 2 ^ 64 := by
    have notAll : (entry.pageMask ||| 0x1FFF).toNat ≠ 2 ^ 64 - 1 := by
      intro all
      apply fits
      apply eq_of_toNat_eq
      rw [all, toNat_allOnes]
    omega
  have count : max (((entry.pageMask ||| 0x1FFF) + 1) >>> 13).toNat 1 =
      ((entry.pageMask ||| 0x1FFF) >>> 13).toNat + 1 := by
    simp only [toNat_ushiftRight, toNat_add, Nat.shiftRight_eq_div_pow]
    have one : (1 : BitVec 64).toNat = 1 := rfl
    omega
  simp only [vmapRange, count, Nat.add_sub_cancel, ofNat_toNat, setWidth_eq]
  rfl

/-- An entry matches only addresses its vmap range covers. -/
theorem TlbEntry.Matches.covers {is64 : Bool} {virtAddr : BitVec 64} {asid : BitVec 8}
    (matched : entry.Matches is64 virtAddr asid) (fits : MaskFits entry.pageMask) :
    Covers entry (vmapSlot virtAddr) := by
  have bits := Word.and_eq_and_iff.mp matched.1
  have compared : ∀ i, 13 ≤ i → i < 32 → (entry.pageMask ||| 0x1FFF).getLsbD i = false →
      virtAddr.getLsbD i = entry.entryHi.getLsbD i := by
    intro i low high unmasked
    apply bits
    have constant : ∀ j : Fin 32, 13 ≤ j.val →
        (0xC00000FFFFFFE000 : BitVec 64).getLsbD j.val = true ∧
        (0x00000000FFFFE000 : BitVec 64).getLsbD j.val = true := by decide
    have here := constant ⟨i, high⟩ low
    have inWord : i < 64 := by omega
    unfold compareMask
    rw [getLsbD_and, getLsbD_not, unmasked, decide_eq_true inWord]
    cases is64 with
    | false => exact here.2
    | true => exact here.1
  have sameStart : slotWord virtAddr &&& ~~~((entry.pageMask ||| 0x1FFF) >>> 13) =
      slotWord entry.entryHi &&& ~~~((entry.pageMask ||| 0x1FFF) >>> 13) := by
    apply Word.and_eq_and_iff.mpr
    intro i unmasked
    rw [slotWord_getLsbD, slotWord_getLsbD]
    by_cases inSlot : i < 19
    · rw [compared (i + 13) (by omega) (by omega)]
      simp only [getLsbD_not, getLsbD_ushiftRight] at unmasked
      rw [Nat.add_comm] at unmasked
      simpa using (Bool.and_eq_true_iff.mp unmasked).2
    · simp [inSlot]
  have parts := Word.toNat_and_not_add_and (slotWord virtAddr) ((entry.pageMask ||| 0x1FFF) >>> 13)
  have inMask : (slotWord virtAddr &&& ((entry.pageMask ||| 0x1FFF) >>> 13)).toNat ≤
      ((entry.pageMask ||| 0x1FFF) >>> 13).toNat := by
    exact Nat.and_le_right
  rw [sameStart, slotWord_toNat] at parts
  unfold Covers
  rw [vmapRange_eq fits]
  omega
end Iris.Cpu.Tlb
