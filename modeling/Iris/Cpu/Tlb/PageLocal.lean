import Iris.Cpu.Tlb.Lookup
import Iris.Library.Page

/-!
Owns the fact that a TLB lookup depends on an address only through its 4 KiB
page: on one page every lookup takes the same way, and hits differ only in the
offset they carry.
-/

namespace Iris.Cpu.Tlb

open Library Page List BitVec

/-! ### Page sizes -/

variable (accessType : AccessType)

theorem trailingOnes_ge (inWord : n ≤ 64) (ones : ∀ i < n, word.getLsbD i = true) :
    n ≤ trailingOnes word := by
  have split : range 64 = range n ++ (range (64 - n)).map (n + ·) := by
    rw [← range_add]
    congr 1
    omega
  have passes : ∀ i ∈ range n, word.getLsbD i = true := fun i inside =>
    ones i (mem_range.mp inside)
  unfold trailingOnes
  rw [split, takeWhile_append_of_pos passes]
  simp

theorem trailingOnes_le (word : BitVec 64) : trailingOnes word ≤ 64 := by
  have shorter := (takeWhile_sublist (l := range 64) fun i => word.getLsbD i).length_le
  rwa [length_range] at shorter

theorem pageShift_bounds (pageMask : BitVec 64) :
    12 ≤ pageShift pageMask ∧ pageShift pageMask < 64 := by
  have low : ∀ i < 13, (pageMask ||| 0x1FFF).getLsbD i = true := by
    intro i below
    have lowBits : ∀ j : Fin 13, (0x1FFF : BitVec 64).getLsbD j.val = true := by decide
    rw [getLsbD_or, lowBits ⟨i, below⟩, Bool.or_true]
  have lower := trailingOnes_ge (by decide) low
  have upper := trailingOnes_le (pageMask ||| 0x1FFF)
  unfold pageShift
  omega

/-- Every page is at least 4 KiB, so its offset mask keeps the 4 KiB offset. -/
theorem pageOffsetMask_keeps (pageMask : BitVec 64) : pageOffsetMask pageMask &&& 0xFFF = 0xFFF := by
  obtain ⟨lower, upper⟩ := pageShift_bounds pageMask
  unfold pageOffsetMask
  generalize pageShift pageMask = shift at lower upper
  have cases : ∀ s : Fin 64, 12 ≤ s.val → (((1 : BitVec 64) <<< s.val) - 1) &&& 0xFFF = 0xFFF := by
    decide
  exact cases ⟨shift, upper⟩ lower

theorem pageFrame_aligned (offsetMask lo : BitVec 64) : pageFrame offsetMask lo &&& 0xFFF = 0 := by
  unfold pageFrame
  rw [BitVec.and_assoc, BitVec.and_assoc, BitVec.and_comm (~~~offsetMask),
    ← BitVec.and_assoc 0xFFFFFFFFFF000]
  simp

/-! ### One entry -/

theorem compareMask_clear : compareMask pageMask is64 &&& 0xFFF = 0 := by
  have clear : ∀ wide : Bool, (if wide then 0xC00000FFFFFFE000 else 0x00000000FFFFE000 :
      BitVec 64) &&& 0xFFF = 0 := by decide
  unfold compareMask
  rw [BitVec.and_assoc, clear]
  simp

variable {virtAddr virtAddr' : BitVec 64}

theorem TlbEntry.matches_samePage (entry : TlbEntry) {asid : BitVec 8}
    (same : SamePage virtAddr virtAddr') :
    entry.Matches is64 virtAddr asid ↔ entry.Matches is64 virtAddr' asid := by
  unfold TlbEntry.Matches
  rw [same.and_eq compareMask_clear]

variable {phys : BitVec 64} {attr : CacheAttr} {dirty global : Bool}

/-- A hit moves with the offset; nothing else of an answer changes on a page. -/
theorem TlbEntry.respond_samePage (entry : TlbEntry) (same : SamePage virtAddr virtAddr')
    (answered : entry.respond cAttr virtAddr accessType = .hit phys attr dirty global) :
    offset phys = offset virtAddr ∧ entry.respond cAttr virtAddr' accessType =
      .hit (base phys ||| offset virtAddr') attr dirty global := by
  have sameHalf := same.getLsbD (pageShift_bounds entry.pageMask).1
  unfold TlbEntry.respond at answered ⊢
  rw [← sameHalf]
  generalize entry.entryLo.get (virtAddr.getLsbD (pageShift entry.pageMask)) = lo at answered ⊢
  have map := PageMap.frame_or (pageFrame_aligned (pageOffsetMask entry.pageMask) lo)
    (pageOffsetMask_keeps entry.pageMask)
  by_cases invalid : lo.getLsbD 1 = false
  · rw [if_pos invalid] at answered
    exact TlbResult.noConfusion answered
  rw [if_neg invalid] at answered ⊢
  by_cases clean : accessType = .write ∧ lo.getLsbD 2 = false
  · rw [if_pos clean] at answered
    exact TlbResult.noConfusion answered
  rw [if_neg clean] at answered ⊢
  injection answered with physEq attrEq dirtyEq globalEq
  constructor
  · rw [← physEq]
    exact map.offset_eq virtAddr
  · rw [← physEq, attrEq, dirtyEq, globalEq, ← map.eq_of_samePage same]

/-! ### Lookups -/

variable {tlb : MipsTlb} {history : History}

variable (wellFormed : WellFormed tlb history)
include wellFormed

theorem WellFormed.isMatch_samePage (i : Nat) (is64 : Bool) (asid : BitVec 8)
    (same : SamePage virtAddr virtAddr') :
    (tlb.shadow i).isMatch is64 virtAddr asid = (tlb.shadow i).isMatch is64 virtAddr' asid := by
  by_cases live : i < tlb.numEntries
  · have matches_iff := fun addr => wellFormed.isMatch_iff is64 addr asid i
    simp only [live, true_and] at matches_iff
    rw [Bool.eq_iff_iff, matches_iff, matches_iff]
    unfold Present
    rw [(tlb.entries i).matches_samePage same]
  · rw [wellFormed.spare i (not_lt.mp live), isMatch_invalid, isMatch_invalid]

theorem WellFormed.answer_samePage (same : SamePage virtAddr virtAddr')
    (matched : (tlb.shadow i).isMatch is64 virtAddr asid = true)
    (answered : (tlb.shadow i).answer virtAddr accessType = .hit phys attr dirty global) :
    offset phys = offset virtAddr ∧ (tlb.shadow i).answer virtAddr' accessType =
      .hit (base phys ||| offset virtAddr') attr dirty global := by
  have matched' := matched
  rw [wellFormed.isMatch_samePage i is64 asid same] at matched'
  have live : i < tlb.numEntries := by
    by_contra spare
    rw [wellFormed.spare i (not_lt.mp spare), isMatch_invalid] at matched
    exact Bool.noConfusion matched
  have present := (wellFormed.isMatch_iff is64 virtAddr asid i).mp ⟨live, matched⟩
  have present' := (wellFormed.isMatch_iff is64 virtAddr' asid i).mp ⟨live, matched'⟩
  rw [wellFormed.answer_eq accessType present] at answered
  rw [wellFormed.answer_eq accessType present']
  exact (tlb.entries i).respond_samePage accessType same answered

/-- A lookup that hits hits on the whole page, in the same frame, with the same
attribute, and leaves the same TLB. -/
theorem WellFormed.translate_samePage {next : MipsTlb} (same : SamePage virtAddr virtAddr')
    (hit : tlb.translate is64 virtAddr asid accessType = some (next, .hit phys attr dirty global)) :
    offset phys = offset virtAddr ∧ tlb.translate is64 virtAddr' asid accessType =
      some (next, .hit (base phys ||| offset virtAddr') attr dirty global) := by
  have sameSlot : (virtAddr.setWidth 32) >>> 13 = (virtAddr'.setWidth 32) >>> 13 := by
    apply eq_of_getLsbD_eq
    intro i _
    have high : 12 ≤ 13 + i := by omega
    simp only [getLsbD_ushiftRight, getLsbD_setWidth, same.getLsbD high]
  have sameMatch := fun i => wellFormed.isMatch_samePage i is64 asid same
  -- A slot that answered with a hit answers the moved hit.
  have moved : ∀ i, (tlb.shadow i).isMatch is64 virtAddr' asid = true → ∀ after,
      some (after, (tlb.shadow i).answer virtAddr accessType) =
        some (next, .hit phys attr dirty global) →
      offset phys = offset virtAddr ∧ some (after, (tlb.shadow i).answer virtAddr' accessType) =
        some (next, .hit (base phys ||| offset virtAddr') attr dirty global) := by
    intro i matched after answered
    injection answered with answered
    injection answered with sameAfter answered
    rw [← sameMatch] at matched
    have there := wellFormed.answer_samePage accessType same matched answered
    exact ⟨there.1, by rw [there.2, sameAfter]⟩
  unfold MipsTlb.translate MipsTlb.mruScan at hit ⊢
  simp only [sameSlot, sameMatch] at hit ⊢
  generalize tlb.vmap ((virtAddr'.setWidth 32) >>> 13).toNat = slot at hit ⊢
  have missed : ∀ after vpn2, some (after, TlbResult.miss vpn2) ≠
      some (next, TlbResult.hit phys attr dirty global) := by
    intro after vpn2 equal
    injection equal with equal
    injection equal with _ equal
    exact TlbResult.noConfusion equal
  by_cases occupied : slot ≠ vmapMiss
  · rw [if_pos occupied] at hit ⊢
    by_cases matched :
        (tlb.shadow (slot &&& vmapIdxMask).toNat).isMatch is64 virtAddr' asid = true
    · rw [if_pos matched] at hit ⊢
      exact moved _ matched tlb hit
    rw [if_neg matched] at hit ⊢
    by_cases multi : ¬ slot &&& vmapMulti ≠ 0
    · rw [if_pos multi] at hit
      exact absurd hit (missed _ _)
    rw [if_neg multi] at hit ⊢
    split at hit
    · cases hit
    · exact absurd hit (missed _ _)
    next prev cur searched =>
      have accepted := LinkedList.search_accepted searched
      exact moved cur.toNat accepted _ hit
  · rw [if_neg occupied] at hit
    exact absurd hit (missed _ _)

end Iris.Cpu.Tlb
