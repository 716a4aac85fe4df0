import Iris.Cpu.Tlb.Model
import Iris.Library.Lookup
import Mathlib.Data.List.Nodup
import Mathlib.Data.List.Range

/-!
Owns the MRU lists: each one threads a permutation of the live slots, promotion
and reset keep that, and so the scan visits every live slot once and returns.
-/

namespace Iris.Cpu.Tlb

open Library List BitVec MipsTlb
open Library.Lookup

variable {tlb : MipsTlb}

def liveSlots (numEntries : Nat) : List (BitVec 8) :=
  (List.range numEntries).map (BitVec.ofNat 8)

theorem mem_liveSlots {numEntries : Nat} (small : numEntries ≤ 64) :
    slot ∈ liveSlots numEntries ↔ slot.toNat < numEntries := by
  simp only [liveSlots, mem_map, mem_range]
  constructor
  · intro member
    obtain ⟨i, live, equal⟩ := member
    rw [← equal, toNat_ofNat]
    omega
  · intro live
    exact ⟨slot.toNat, live, by simp⟩

theorem liveSlots_nodup {numEntries : Nat} (small : numEntries ≤ 64) :
    (liveSlots numEntries).Nodup := by
  refine Nodup.map_on ?_ nodup_range
  intro i live j live' equal
  have values := congrArg BitVec.toNat equal
  simp only [toNat_ofNat, mem_range] at values live live'
  omega

/-- Every MRU list runs through all live slots, each once. -/
def MruOk (tlb : MipsTlb) : Prop :=
  ∀ list, ∃ order, LinkedList.Threads (tlb.mruNext list) mruNone (tlb.mruHead list) order ∧
    order.Perm (liveSlots tlb.numEntries)

/-! ### Index order -/

/-- A successor map that counts up through the live slots threads them in order. -/
theorem threads_liveSlots (geometry : Geometry) {next : BitVec 8 → BitVec 8}
    (inner : ∀ i, i + 1 < geometry.numEntries → next (BitVec.ofNat 8 i) = BitVec.ofNat 8 (i + 1))
    (last : ∀ i, i + 1 = geometry.numEntries → next (BitVec.ofNat 8 i) = mruNone) :
    LinkedList.Threads next mruNone 0 (liveSlots geometry.numEntries) := by
  have small : geometry.numEntries ≤ 64 := geometry.le_max
  -- the tail from slot `first` on, by induction on its length
  have tail : ∀ count first, 0 < count → first + count = geometry.numEntries →
      LinkedList.Segment next (BitVec.ofNat 8 first)
        ((List.range' first count).map (BitVec.ofNat 8)) mruNone := by
    intro count
    induction count with
    | zero => intro first positive _; exact absurd positive (by omega)
    | succ count inductionHypothesis =>
      intro first _ total
      refine ⟨rfl, ?_⟩
      rcases Nat.eq_zero_or_pos count with isZero | positive
      · subst isZero
        exact last first total
      · rw [inner first (by omega)]
        exact inductionHypothesis (first + 1) positive (by omega)
  constructor
  · rw [liveSlots, range_eq_range']
    exact tail geometry.numEntries 0 (by have := geometry.two_le; omega) (by omega)
  · rw [mem_liveSlots small]
    have sentinel : mruNone.toNat = 255 := by decide
    omega

private theorem ofNat_succ (i : Nat) : BitVec.ofNat 8 i + 1 = BitVec.ofNat 8 (i + 1) := by
  simp [ofNat_add]

private theorem toNat_ofNat_live (geometry : Geometry) {i : Nat}
    (live : i < geometry.numEntries) : (BitVec.ofNat 8 i).toNat = i := by
  have small : geometry.numEntries ≤ 64 := geometry.le_max
  rw [toNat_ofNat]
  omega

theorem new_mruOk {geometry : Geometry} : MruOk (new geometry) := by
  intro list
  refine ⟨_, threads_liveSlots geometry ?_ ?_, List.Perm.refl _⟩
  · intro i inner
    simp only [new]
    rw [toNat_ofNat_live geometry (by omega), if_pos inner, ofNat_succ]
  · intro i last
    simp only [new]
    rw [toNat_ofNat_live geometry (by omega), if_neg (by omega)]

theorem resetMru_threads (list : AccessType) :
    LinkedList.Threads (tlb.resetMru.mruNext list) mruNone (tlb.resetMru.mruHead list)
      (liveSlots tlb.numEntries) := by
  refine threads_liveSlots tlb.geometry ?_ ?_
  · intro i inner
    simp only [resetMru]
    rw [toNat_ofNat_live tlb.geometry (by omega), if_pos inner, ofNat_succ]
  · intro i last
    simp only [resetMru]
    rw [toNat_ofNat_live tlb.geometry (by omega), if_neg (by simp [last]), if_pos last]

theorem resetMru_mruOk : MruOk tlb.resetMru := fun list =>
  ⟨_, resetMru_threads list, Perm.refl _⟩

/-! ### The scan -/

def SameButMru (tlb tlb' : MipsTlb) : Prop :=
  ∃ head next, tlb' = { tlb with mruHead := head, mruNext := next }

theorem SameButMru.refl (tlb : MipsTlb) : SameButMru tlb tlb := ⟨_, _, rfl⟩

theorem SameButMru.symm {tlb' : MipsTlb} (same : SameButMru tlb tlb') : SameButMru tlb' tlb := by
  obtain ⟨head, next, rfl⟩ := same
  exact ⟨_, _, rfl⟩

theorem SameButMru.trans {tlb' tlb'' : MipsTlb} (same : SameButMru tlb tlb')
    (same' : SameButMru tlb' tlb'') : SameButMru tlb tlb'' := by
  obtain ⟨head, next, rfl⟩ := same
  obtain ⟨head', next', rfl⟩ := same'
  exact ⟨_, _, rfl⟩

theorem mruPromote_same (list : AccessType) {prev : BitVec 8} :
    SameButMru tlb (tlb.mruPromote list target prev) := by
  unfold mruPromote
  split
  · exact SameButMru.refl tlb
  · exact ⟨_, _, rfl⟩

/-- Promoting a node together with its true predecessor permutes the list. -/
theorem mruPromote_mruOk (ok : MruOk tlb) {list : AccessType} {before after : List (BitVec 8)}
    {target : BitVec 8} (threads : LinkedList.Threads (tlb.mruNext list) mruNone (tlb.mruHead list)
      (before ++ target :: after))
    (perm : (before ++ target :: after).Perm (liveSlots tlb.numEntries)) :
    MruOk (tlb.mruPromote list target (before.getLastD mruNone)) := by
  have nodup : (before ++ target :: after).Nodup :=
    perm.nodup_iff.mpr (liveSlots_nodup tlb.geometry.le_max)
  rcases eq_nil_or_concat before with isNil | ⟨front, prev, isConcat⟩
  · subst isNil
    simpa [mruPromote] using ok
  subst isConcat
  simp only [List.concat_eq_append, List.append_assoc, List.singleton_append] at *
  have inner : prev ≠ mruNone := fun same => threads.noSentinel (by simp [same])
  have moved := LinkedList.relink_threads threads nodup
  intro other
  simp only [mruPromote, getLastD_concat, if_neg inner]
  by_cases same : other = list
  · subst same
    refine ⟨_, by simpa using moved, ?_⟩
    refine Perm.trans ?_ perm
    have swap : (target :: (front ++ prev :: after)).Perm (front ++ target :: prev :: after) :=
      perm_middle.symm
    exact swap.trans ((Perm.swap _ _ _).append_left front)
  · simpa [Function.update_of_ne same] using ok other

/-- A scan over well-formed lists returns, answers from a matching live slot if
there is one, and changes only the list order. -/
theorem mruScan_spec (ok : MruOk tlb) (accessType : AccessType) :
    ∃ tlb' result, tlb.mruScan is64 virtAddr asid accessType = some (tlb', result) ∧
      SameButMru tlb tlb' ∧ MruOk tlb' ∧
      Answers (fun i => i < tlb.numEntries ∧ (tlb.shadow i).isMatch is64 virtAddr asid = true)
        (fun i => (tlb.shadow i).answer virtAddr accessType) (.miss (virtAddr >>> 13)) result := by
  obtain ⟨order, threads, perm⟩ := ok accessType
  have small : tlb.numEntries ≤ 64 := tlb.geometry.le_max
  have live : ∀ slot, slot ∈ order ↔ slot.toNat < tlb.numEntries := fun slot =>
    perm.mem_iff.trans (mem_liveSlots small)
  have enough : order.length < 257 := by
    have length := perm.length_eq
    simp only [liveSlots, length_map, length_range] at length
    omega
  obtain ⟨found, searched, spec⟩ := LinkedList.search_threads
    (fun slot => (tlb.shadow slot.toNat).isMatch is64 virtAddr asid) mruNone threads enough
  unfold mruScan
  rw [searched]
  match found, spec with
  | none, nobody =>
    refine ⟨tlb, _, rfl, SameButMru.refl tlb, ok, .miss fun i matched => ?_⟩
    have small' : (BitVec.ofNat 8 i).toNat = i := toNat_ofNat_live tlb.geometry matched.1
    have rejected : (tlb.shadow (BitVec.ofNat 8 i).toNat).isMatch is64 virtAddr asid = false :=
      nobody (BitVec.ofNat 8 i) ((live _).mpr (by rw [small']; exact matched.1))
    rw [small', matched.2] at rejected
    exact nomatch rejected
  | some (prev, cur), ⟨before, after, split, missed, taken, last⟩ =>
    subst split
    subst last
    refine ⟨_, _, rfl, mruPromote_same accessType, mruPromote_mruOk ok threads perm, ?_⟩
    exact Answers.found cur.toNat ⟨(live cur).mp (by simp), taken⟩

/-- A scan in index order answers from the lowest matching slot. -/
theorem mruScan_lowest (threads : LinkedList.Threads (tlb.mruNext accessType) mruNone
      (tlb.mruHead accessType) (liveSlots tlb.numEntries)) (below : i < tlb.numEntries)
    (matched : (tlb.shadow i).isMatch is64 virtAddr asid = true)
    (lowest : ∀ j < i, (tlb.shadow j).isMatch is64 virtAddr asid = false) :
    ∃ next, tlb.mruScan is64 virtAddr asid accessType =
      some (next, (tlb.shadow i).answer virtAddr accessType) := by
  have small : tlb.numEntries ≤ 64 := tlb.geometry.le_max
  have index : (BitVec.ofNat 8 i).toNat = i := toNat_ofNat_live tlb.geometry below
  obtain ⟨rest, split⟩ : ∃ rest, liveSlots tlb.numEntries =
      liveSlots i ++ BitVec.ofNat 8 i :: rest := by
    obtain ⟨count, total⟩ := Nat.exists_eq_add_of_lt below
    rw [total, Nat.add_assoc, liveSlots, range_add, range_succ_eq_map, map_append]
    exact ⟨_, rfl⟩
  rw [split] at threads
  have enough : (liveSlots i ++ BitVec.ofNat 8 i :: rest).length < 257 := by
    rw [← split, liveSlots, length_map, length_range]
    omega
  have missed : ∀ slot ∈ liveSlots i, (tlb.shadow slot.toNat).isMatch is64 virtAddr asid = false :=
    fun slot member => lowest slot.toNat ((mem_liveSlots (by omega)).mp member)
  have taken : (tlb.shadow (BitVec.ofNat 8 i).toNat).isMatch is64 virtAddr asid = true := by
    rw [index]
    exact matched
  obtain ⟨prev, searched⟩ := LinkedList.search_first threads missed taken enough mruNone
  refine ⟨tlb.mruPromote accessType (BitVec.ofNat 8 i) prev, ?_⟩
  unfold mruScan
  rw [searched]
  simp only [index]

end Iris.Cpu.Tlb
