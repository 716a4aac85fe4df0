import Iris.Cpu.Tlb.Model
import Iris.Library.OwnerSummary

/-!
Owns the vmap's meaning: each slot is the owner summary of the entries whose
range covers it. Replacing one entry and rebuilding from scratch both give the
canonical map, whatever the ranges and however they overlap.
-/

namespace Iris.Cpu.Tlb

open Library List
open Library.OwnerSummary

/-! ### Slot tags -/

private theorem tag_facts : ∀ i : Fin 64,
    BitVec.ofNat 8 i.val &&& vmapMulti = 0 ∧
    (BitVec.ofNat 8 i.val ||| vmapMulti) &&& vmapMulti ≠ 0 ∧
    (BitVec.ofNat 8 i.val &&& vmapIdxMask).toNat = i.val ∧
    ((BitVec.ofNat 8 i.val ||| vmapMulti) &&& vmapIdxMask).toNat = i.val := by
  decide

variable {i slot : Nat}

theorem tag_not_multi (small : i < 64) : BitVec.ofNat 8 i &&& vmapMulti = 0 :=
  (tag_facts ⟨i, small⟩).1

theorem sharedTag_multi (small : i < 64) : (BitVec.ofNat 8 i ||| vmapMulti) &&& vmapMulti ≠ 0 :=
  (tag_facts ⟨i, small⟩).2.1

theorem tag_idx (small : i < 64) : (BitVec.ofNat 8 i &&& vmapIdxMask).toNat = i :=
  (tag_facts ⟨i, small⟩).2.2.1

theorem sharedTag_idx (small : i < 64) :
    ((BitVec.ofNat 8 i ||| vmapMulti) &&& vmapIdxMask).toNat = i :=
  (tag_facts ⟨i, small⟩).2.2.2

private theorem miss_idx : (vmapMiss &&& vmapIdxMask).toNat = 127 := by decide

/-- Slots as owner summaries: `MISS`, an index, or an index with `MULTI`. -/
def slotEncoding : Encoding Nat (BitVec 8) where
  Owner := fun i => i < 64
  vacant := vmapMiss
  sole := fun i => BitVec.ofNat 8 i
  shared := fun i => BitVec.ofNat 8 i ||| vmapMulti
  sole_ne_vacant := by
    intro i small same
    have index := tag_idx small
    rw [same, miss_idx] at index
    omega
  shared_ne_vacant := by
    intro i small same
    have index := sharedTag_idx small
    rw [same, miss_idx] at index
    omega
  sole_ne_shared := by
    intro i j small small' same
    exact sharedTag_multi small' (same ▸ tag_not_multi small)
  sole_injective := by
    intro i j small small' same
    rw [← tag_idx small, same, tag_idx small']
  shared_injective := by
    intro i j small small' same
    rw [← sharedTag_idx small, same, sharedTag_idx small']

/-! ### Range loops, slot by slot -/

/-- A loop that rewrites the slots `start, start + 1, …` below `limit` one after
the other changes each of them once. -/
theorem foldl_update_range {V : Type} (f : V → V) {count : Nat} (initial : Nat → V) :
    (range count).foldl (fun map i =>
        if start + i < limit then Function.update map (start + i) (f (map (start + i))) else map)
      initial slot =
      if start ≤ slot ∧ slot < start + count ∧ slot < limit then f (initial slot)
      else initial slot := by
  induction count with
  | zero =>
    rw [if_neg (by omega)]
    rfl
  | succ count inductionHypothesis =>
    rw [range_succ, foldl_append, foldl_cons, foldl_nil]
    by_cases last : slot = start + count
    · have fresh : ¬ (start ≤ slot ∧ slot < start + count ∧ slot < limit) := by omega
      rw [if_neg fresh] at inductionHypothesis
      by_cases inMap : start + count < limit
      · rw [if_pos inMap, last, Function.update_self, ← last, inductionHypothesis, if_pos]
        omega
      · rw [if_neg inMap, inductionHypothesis, if_neg]
        omega
    · have same : (start ≤ slot ∧ slot < start + (count + 1) ∧ slot < limit) ↔
          (start ≤ slot ∧ slot < start + count ∧ slot < limit) := by omega
      simp only [same, ← inductionHypothesis]
      split
      · rw [Function.update_of_ne last]
      · rfl

/-- A loop whose steps each act on `slot` alone is a loop over that slot's value. -/
theorem foldl_apply {V : Type} {step : (Nat → V) → Nat → Nat → V} (stepAt : V → Nat → V)
    (pointwise : ∀ map i, step map i slot = stepAt (map slot) i) (indices : List Nat)
    (initial : Nat → V) :
    indices.foldl step initial slot = indices.foldl stepAt (initial slot) :=
  (foldl_hom (fun map : Nat → V => map slot) fun map i => (pointwise map i).symm).symm

def Covers (entry : TlbEntry) (slot : Nat) : Prop :=
  (vmapRange entry).1 ≤ slot ∧ slot < (vmapRange entry).1 + (vmapRange entry).2
deriving Decidable

theorem vmapClear_apply (start count : Nat) (vmap : Nat → BitVec 8) (slot : Nat) :
    vmapClear start count vmap slot =
      if start ≤ slot ∧ slot < start + count ∧ slot < vmapSize then vmapMiss else vmap slot :=
  foldl_update_range (fun _ => vmapMiss) vmap

theorem vmapFillRange_apply (entryIdx start count : Nat) (vmap : Nat → BitVec 8) (slot : Nat) :
    vmapFillRange entryIdx start count vmap slot =
      if start ≤ slot ∧ slot < start + count ∧ slot < vmapSize then
        claim slotEncoding entryIdx (vmap slot)
      else vmap slot :=
  foldl_update_range (claim slotEncoding entryIdx) vmap

theorem vmapFillRange_entry (inMap : slot < vmapSize) (entryIdx : Nat) (entry : TlbEntry)
    (vmap : Nat → BitVec 8) :
    vmapFillRange entryIdx (vmapRange entry).1 (vmapRange entry).2 vmap slot =
      if Covers entry slot then claim slotEncoding entryIdx (vmap slot) else vmap slot := by
  rw [vmapFillRange_apply]
  exact if_congr (by simp only [Covers, inMap, and_true]) rfl rfl

theorem vmapRefill_apply (inMap : slot < vmapSize) (entry : TlbEntry) (i oldStart oldEnd : Nat)
    (vmap : Nat → BitVec 8) :
    vmapRefill entry i oldStart oldEnd vmap slot =
      if Covers entry slot ∧ oldStart ≤ slot ∧ slot < oldEnd then claim slotEncoding i (vmap slot)
      else vmap slot := by
  simp only [vmapRefill]
  split
  · rw [vmapFillRange_apply]
    exact if_congr (by simp only [Covers]; omega) rfl rfl
  · rw [if_neg]
    simp only [Covers]
    omega

/-! ### Canonical maps -/

/-- Entry `i` is live and covers `slot`. -/
def Owns (numEntries : Nat) (entries : Nat → TlbEntry) (slot i : Nat) : Prop :=
  i < numEntries ∧ Covers (entries i) slot

/-- Every slot summarises the live entries that cover it. -/
def Canonical (numEntries : Nat) (entries : Nat → TlbEntry) (vmap : Nat → BitVec 8) : Prop :=
  ∀ slot < vmapSize, Summarizes slotEncoding (Owns numEntries entries slot) (vmap slot)

/-- The refill loop of `vmapReplace` inside the vacated range. -/
private theorem refill_summarizes {numEntries index slot oldStart oldEnd : Nat}
    (small : numEntries ≤ 64) (inMap : slot < vmapSize) (vacated : oldStart ≤ slot ∧ slot < oldEnd)
    (entries : Nat → TlbEntry) {vmap : Nat → BitVec 8} (empty : vmap slot = vmapMiss) :
    Summarizes slotEncoding (fun i => i ≠ index ∧ Owns numEntries entries slot i)
      ((range numEntries).foldl (fun vmap i =>
        if i = index then vmap else vmapRefill (entries i) i oldStart oldEnd vmap) vmap slot) := by
  let wants := fun i => decide (i ≠ index ∧ Covers (entries i) slot)
  have claims := (summarizes_vacant slotEncoding).claimAll wants nodup_range
    (fun i member => lt_of_lt_of_le (mem_range.mp member) small) (by simp)
  rw [foldl_apply (fun acc i => if wants i then claim slotEncoding i acc else acc), empty]
  · exact claims.congr fun i => by simp [wants, Owns]; tauto
  · intro map i
    by_cases same : i = index
    · simp [wants, same]
    · simp [wants, same, vmapRefill_apply inMap, vacated]

/-- Replacing an entry gives the canonical map as soon as the map was canonical
for the other entries outside the range the old entry gives up. -/
theorem vmapReplace_canonical (small : numEntries ≤ 64) (live : index < numEntries)
    (entries : Nat → TlbEntry) {vmap : Nat → BitVec 8}
    (others : ∀ slot < vmapSize, ¬ (oldRange.1 ≤ slot ∧ slot < oldRange.1 + oldRange.2) →
      Summarizes slotEncoding (fun i => i ≠ index ∧ Owns numEntries entries slot i) (vmap slot)) :
    Canonical numEntries entries (vmapReplace numEntries entries index oldRange vmap) := by
  intro slot inMap
  obtain ⟨oldStart, oldCount⟩ := oldRange
  have restored : Summarizes slotEncoding (fun i => i ≠ index ∧ Owns numEntries entries slot i)
      ((range numEntries).foldl (fun vmap i => if i = index then vmap
        else vmapRefill (entries i) i oldStart (oldStart + oldCount) vmap)
        (vmapClear oldStart oldCount vmap) slot) := by
    by_cases vacated : oldStart ≤ slot ∧ slot < oldStart + oldCount
    · refine refill_summarizes small inMap vacated entries ?_
      rw [vmapClear_apply, if_pos ⟨vacated.1, vacated.2, inMap⟩]
    -- no step of the loop reaches a slot outside the vacated range
    rw [foldl_apply (fun acc _ => acc), foldl_const, Function.iterate_fixed rfl,
      vmapClear_apply, if_neg (by tauto)]
    · exact others slot inMap vacated
    · intro map i
      by_cases same : i = index
      · rw [if_pos same]
      · rw [if_neg same, vmapRefill_apply inMap, if_neg fun both => vacated both.2]
  simp only [vmapReplace]
  rw [vmapFillRange_entry inMap]
  split
  next covered =>
    refine (restored.claim (lt_of_lt_of_le live small) (by simp)).congr fun i => ?_
    constructor
    · rintro (⟨_, owned⟩ | rfl)
      · exact owned
      · exact ⟨live, covered⟩
    · intro owned
      by_cases same : i = index
      · exact .inr same
      · exact .inl ⟨same, owned⟩
  next uncovered =>
    refine restored.congr fun i => ⟨And.right, fun owned => ⟨?_, owned⟩⟩
    rintro rfl
    exact uncovered owned.2

theorem vmapRebuild_canonical (small : numEntries ≤ 64) (entries : Nat → TlbEntry) :
    Canonical numEntries entries (MipsTlb.vmapRebuild numEntries entries) := by
  intro slot inMap
  let wants := fun i => decide (Covers (entries i) slot)
  have claims := (summarizes_vacant slotEncoding).claimAll wants nodup_range
    (fun i member => lt_of_lt_of_le (mem_range.mp member) small) (by simp)
  rw [MipsTlb.vmapRebuild,
    foldl_apply (fun acc i => if wants i then claim slotEncoding i acc else acc)]
  · exact claims.congr fun i => by simp [wants, Owns]
  · simp [wants, vmapFillRange_entry inMap]

/-- A rebuilt slot names the last entry that covers it: the loop claims in index order. -/
theorem vmapRebuild_last (inMap : slot < vmapSize) {entries : Nat → TlbEntry}
    (owned : Owns numEntries entries slot i) :
    ∃ last, Owns numEntries entries slot last ∧
      (∀ j, Owns numEntries entries slot j → j ≤ last) ∧
      (MipsTlb.vmapRebuild numEntries entries slot = slotEncoding.sole last ∨
        MipsTlb.vmapRebuild numEntries entries slot = slotEncoding.shared last) := by
  induction numEntries with
  | zero => exact absurd owned.1 (Nat.not_lt_zero i)
  | succ count inductionHypothesis =>
    have unrolled : MipsTlb.vmapRebuild (count + 1) entries slot =
        if Covers (entries count) slot then
          claim slotEncoding count (MipsTlb.vmapRebuild count entries slot)
        else MipsTlb.vmapRebuild count entries slot := by
      rw [MipsTlb.vmapRebuild, range_succ, foldl_append]
      exact vmapFillRange_entry inMap count (entries count) _
    rw [unrolled]
    by_cases covered : Covers (entries count) slot
    · rw [if_pos covered, claim]
      refine ⟨count, ⟨Nat.lt_succ_self count, covered⟩,
        fun j owned' => Nat.lt_succ_iff.mp owned'.1, ?_⟩
      split
      · exact .inl rfl
      · exact .inr rfl
    · rw [if_neg covered]
      have below : ∀ j, Owns (count + 1) entries slot j → Owns count entries slot j := by
        intro j owned'
        refine ⟨Nat.lt_of_le_of_ne (Nat.lt_succ_iff.mp owned'.1) ?_, owned'.2⟩
        rintro rfl
        exact covered owned'.2
      obtain ⟨last, owned', highest, named⟩ := inductionHypothesis (below i owned)
      exact ⟨last, ⟨owned'.1.trans (Nat.lt_succ_self count), owned'.2⟩,
        fun j other => highest j (below j other), named⟩

end Iris.Cpu.Tlb
