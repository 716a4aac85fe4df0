import Iris.Cpu.Tlb.Invariant

/-!
Owns lookup correctness over whole runs: the vmap is canonical once anything
was written or loaded, and then `translate` answers like a linear search over
the slots whose shadow is derived from their entry.
-/

namespace Iris.Cpu.Tlb

open Library OwnerSummary Lookup Snapshot MipsTlb TlbEntry

variable {tlb : MipsTlb} {history : History}

/-! ### The vmap after any run -/

variable {is64 : Bool} {virtAddr : BitVec 64} {asid : BitVec 8} (accessType : AccessType)

structure CanonicalSlot (tlb : MipsTlb) (slot : Nat) : Prop where
  miss_iff : tlb.vmap slot = vmapMiss ↔ ∀ i < tlb.numEntries, ¬ Covers (tlb.entries i) slot
  sole_iff : ∀ i < tlb.numEntries, tlb.vmap slot = BitVec.ofNat 8 i ↔ Covers (tlb.entries i) slot ∧
      ∀ j < tlb.numEntries, Covers (tlb.entries j) slot → j = i
  multi_iff : (∃ i < tlb.numEntries, tlb.vmap slot = BitVec.ofNat 8 i ||| vmapMulti) ↔
    ∃ i < tlb.numEntries, ∃ j < tlb.numEntries, i ≠ j ∧ Covers (tlb.entries i) slot ∧
      Covers (tlb.entries j) slot
  named : tlb.vmap slot ≠ vmapMiss → (tlb.vmap slot &&& vmapIdxMask).toNat < tlb.numEntries ∧
    Covers (tlb.entries (tlb.vmap slot &&& vmapIdxMask).toNat) slot

theorem canonicalSlot_of_summarizes
    (summary : Summarizes slotEncoding (Owns tlb.numEntries tlb.entries slot) (tlb.vmap slot)) :
    CanonicalSlot tlb slot := by
  have owner : ∀ i < tlb.numEntries, slotEncoding.Owner i := fun i below =>
    lt_of_lt_of_le below tlb.geometry.le_max
  refine ⟨?_, ?_, ?_, ?_⟩
  · refine summary.eq_vacant_iff.trans ⟨fun nobody i below covered => nobody i ⟨below, covered⟩, ?_⟩
    intro uncovered i owned
    exact uncovered i owned.1 owned.2
  · intro i below
    refine (summary.eq_sole_iff (owner i below)).trans ⟨?_, ?_⟩
    · intro only
      exact ⟨((only i).mpr rfl).2, fun j below' covered => (only j).mp ⟨below', covered⟩⟩
    intro alone j
    constructor
    · intro owned
      exact alone.2 j owned.1 owned.2
    · intro same
      rw [same]
      exact ⟨below, alone.1⟩
  · constructor
    · intro multi
      obtain ⟨i, below, tagged⟩ := multi
      obtain ⟨owned, j, apart, owned'⟩ := summary.eq_shared (owner i below) tagged
      exact ⟨i, below, j, owned'.1, apart.symm, owned.2, owned'.2⟩
    · intro two
      obtain ⟨i, below, j, below', apart, covered, covered'⟩ := two
      obtain ⟨k, _, owned, tagged⟩ :=
        summary.shared_of_two i j ⟨below, covered⟩ ⟨below', covered'⟩ apart
      exact ⟨k, owned.1, tagged⟩
  · intro occupied
    generalize tlb.vmap slot = value at summary occupied
    cases summary with
    | vacant nobody => exact absurd rfl occupied
    | sole i valid only =>
      have index : (BitVec.ofNat 8 i &&& vmapIdxMask).toNat = i := tag_idx valid
      have owned := (only i).mpr rfl
      rw [show slotEncoding.sole i = BitVec.ofNat 8 i from rfl, index]
      exact owned
    | shared i j valid owned _ _ =>
      have index : ((BitVec.ofNat 8 i ||| vmapMulti) &&& vmapIdxMask).toNat = i :=
        sharedTag_idx valid
      rw [show slotEncoding.shared i = BitVec.ofNat 8 i ||| vmapMulti from rfl, index]
      exact owned

/-- After any operation sequence with a live write or a load since the last
power-on, every vmap slot is canonical. -/
theorem run_vmap_canonical (geometry : Geometry) (ops : List TlbOp)
    (populated : (historyOf geometry ops).populated = true) :
    ∃ tlb, run (new geometry) ops = some tlb ∧ ∀ slot < vmapSize, CanonicalSlot tlb slot := by
  obtain ⟨tlb, ran, _, wellFormed⟩ := run_wellFormed
  refine ⟨tlb, ran, fun slot inMap => canonicalSlot_of_summarizes ?_⟩
  have vmap := wellFormed.vmap
  rw [populated] at vmap
  exact vmap slot inMap

/-- The smallest TLB `MipsTlb::new` accepts. -/
def twoSlots : Geometry := ⟨2, by decide, by decide⟩

/-- Two 16 KiB entries over the same slots. -/
theorem run_vmap_canonical_overlap :
    ∃ tlb, run (new twoSlots)
        [.write 0 (ofWords 0x6000 0x10000 2 2), .write 1 (ofWords 0x6000 0x10001 2 2)] = some tlb ∧
      ∀ slot < vmapSize, CanonicalSlot tlb slot :=
  run_vmap_canonical twoSlots _ (by decide)

/-! ### Lookup -/

/-- Slot `i` is live, has a derived shadow, and its entry matches. -/
def Present (tlb : MipsTlb) (history : History) (is64 : Bool) (virtAddr : BitVec 64)
    (asid : BitVec 8) (i : Nat) : Prop :=
  i < tlb.numEntries ∧ history.installed i = true ∧ (tlb.entries i).Matches is64 virtAddr asid

theorem WellFormed.isMatch_iff (wellFormed : WellFormed tlb history) (is64 : Bool)
    (virtAddr : BitVec 64) (asid : BitVec 8) (i : Nat) :
    (i < tlb.numEntries ∧ (tlb.shadow i).isMatch is64 virtAddr asid = true) ↔
      Present tlb history is64 virtAddr asid i := by
  refine and_congr_right fun below => ?_
  rw [wellFormed.shadow i below]
  by_cases installed : history.installed i = true
  · rw [if_pos installed, isMatch_fromEntry (wellFormed.derived i below)]
    simp [installed]
  · rw [if_neg installed, isMatch_invalid]
    simp [installed]

theorem WellFormed.answer_eq (wellFormed : WellFormed tlb history)
    (present : Present tlb history is64 virtAddr asid i) :
    (tlb.shadow i).answer virtAddr accessType =
      (tlb.entries i).respond tlb.cAttr virtAddr accessType := by
  obtain ⟨below, installed, _⟩ := present
  rw [wellFormed.shadow i below, if_pos installed, answer_fromEntry (wellFormed.derived i below)]

/-- The present slots a lookup can get to: those the vmap slot of the address
stands for, or all of them when the slot is shared and the scan decides. -/
def Reached (tlb : MipsTlb) (history : History) (is64 : Bool) (virtAddr : BitVec 64)
    (asid : BitVec 8) (i : Nat) : Prop :=
  Present tlb history is64 virtAddr asid i ∧
    (Covers (tlb.entries i) (vmapSlot virtAddr) ∨
      ∃ j k, j ≠ k ∧ Owns tlb.numEntries tlb.entries (vmapSlot virtAddr) j ∧
        Owns tlb.numEntries tlb.entries (vmapSlot virtAddr) k)

/-- With a canonical vmap the fast path and the scan together answer from a
reached slot, or miss when there is none. -/
theorem translate_answers (wellFormed : WellFormed tlb history)
    (populated : history.populated = true) (is64 : Bool) (virtAddr : BitVec 64) (asid : BitVec 8) :
    ∃ tlb' result, tlb.translate is64 virtAddr asid accessType = some (tlb', result) ∧
      Answers (Reached tlb history is64 virtAddr asid)
        (fun i => (tlb.entries i).respond tlb.cAttr virtAddr accessType)
        (.miss (virtAddr >>> 13)) result := by
  have vmap : Canonical tlb.numEntries tlb.entries tlb.vmap := by
    have kept := wellFormed.vmap
    rwa [populated] at kept
  have summary := vmap (vmapSlot virtAddr) vmapSlot_lt
  have found : ∀ i, Owns tlb.numEntries tlb.entries (vmapSlot virtAddr) i →
      (tlb.shadow i).isMatch is64 virtAddr asid = true →
      Answers (Reached tlb history is64 virtAddr asid)
        (fun i => (tlb.entries i).respond tlb.cAttr virtAddr accessType)
        (.miss (virtAddr >>> 13)) ((tlb.shadow i).answer virtAddr accessType) := by
    intro i owned matched
    have present := (wellFormed.isMatch_iff is64 virtAddr asid i).mp ⟨owned.1, matched⟩
    rw [wellFormed.answer_eq accessType present]
    exact .found i ⟨present, .inl owned.2⟩
  unfold MipsTlb.translate
  rw [show ((virtAddr.setWidth 32) >>> 13).toNat = vmapSlot virtAddr from rfl]
  generalize tlb.vmap (vmapSlot virtAddr) = value at summary
  cases summary with
  | vacant nobody =>
    refine ⟨tlb, _, if_neg (by simp [slotEncoding]), .miss fun i reached => ?_⟩
    rcases reached.2 with covered | ⟨j, _, _, owned, _⟩
    · exact nobody i ⟨reached.1.1, covered⟩
    · exact nobody j owned
  | sole i valid only =>
    have index : (slotEncoding.sole i &&& vmapIdxMask).toNat = i := tag_idx valid
    have single : slotEncoding.sole i &&& vmapMulti = 0 := tag_not_multi valid
    have occupied : slotEncoding.sole i ≠ vmapMiss := slotEncoding.sole_ne_vacant valid
    rw [if_pos occupied, index]
    by_cases matched : (tlb.shadow i).isMatch is64 virtAddr asid = true
    · rw [if_pos matched]
      exact ⟨tlb, _, rfl, found i ((only i).mpr rfl) matched⟩
    rw [if_neg matched, if_pos (by simp [single])]
    refine ⟨tlb, _, rfl, .miss fun j reached => matched ?_⟩
    have owned : Owns tlb.numEntries tlb.entries (vmapSlot virtAddr) j := by
      rcases reached.2 with covered | ⟨k, l, apart, first, second⟩
      · exact ⟨reached.1.1, covered⟩
      · exact absurd (((only k).mp first).trans ((only l).mp second).symm) apart
    have present := reached.1
    rw [(only j).mp owned] at present
    exact ((wellFormed.isMatch_iff is64 virtAddr asid i).mpr present).2
  | shared i j valid owned owned' apart =>
    have index : (slotEncoding.shared i &&& vmapIdxMask).toNat = i := sharedTag_idx valid
    have multi : slotEncoding.shared i &&& vmapMulti ≠ 0 := sharedTag_multi valid
    have occupied : slotEncoding.shared i ≠ vmapMiss := slotEncoding.shared_ne_vacant valid
    rw [if_pos occupied, index]
    by_cases matched : (tlb.shadow i).isMatch is64 virtAddr asid = true
    · rw [if_pos matched]
      exact ⟨tlb, _, rfl, found i owned matched⟩
    rw [if_neg matched, if_neg (by simpa using multi)]
    obtain ⟨next, result, scanned, _, _, answers⟩ :=
      mruScan_spec wellFormed.mru accessType
    refine ⟨next, result, scanned, answers.congr ?_ ?_⟩
    · intro k
      rw [wellFormed.isMatch_iff is64 virtAddr asid k]
      exact (and_iff_left (.inr ⟨i, j, apart, owned, owned'⟩)).symm
    · intro k live
      exact wellFormed.answer_eq accessType
        ((wellFormed.isMatch_iff is64 virtAddr asid k).mp live)

theorem WellFormed.translate_blank (wellFormed : WellFormed tlb history)
    (blank : history.populated = false) {asid : BitVec 8} (accessType : AccessType) :
    tlb.translate is64 virtAddr asid accessType = some (tlb, .miss (virtAddr >>> 13)) := by
  have vmap := wellFormed.vmap
  rw [blank] at vmap
  unfold MipsTlb.translate
  rw [vmap.vmap]
  exact if_neg (by simp)

def MatchedOnce (tlb : MipsTlb) (is64 : Bool) (virtAddr : BitVec 64) (asid : BitVec 8) : Prop :=
  ∀ i < tlb.numEntries, ∀ j < tlb.numEntries, (tlb.shadow i).isMatch is64 virtAddr asid = true →
    (tlb.shadow j).isMatch is64 virtAddr asid = true → i = j

/-- Where at most one slot matches, the order of the MRU lists does not show. -/
theorem WellFormed.translate_orderless (wellFormed : WellFormed tlb history)
    (same : SameButMru tlb tlb') (mru : MruOk tlb') (once : MatchedOnce tlb is64 virtAddr asid) :
    (tlb.translate is64 virtAddr asid accessType).map Prod.snd =
      (tlb'.translate is64 virtAddr asid accessType).map Prod.snd := by
  have wellFormed' := wellFormed.of_sameButMru same mru
  cases populated : history.populated with
  | false =>
    rw [wellFormed.translate_blank populated, wellFormed'.translate_blank populated]
    rfl
  | true =>
    obtain ⟨next, result, returned, answers⟩ :=
      translate_answers accessType wellFormed populated is64 virtAddr asid
    obtain ⟨next', result', returned', answers'⟩ :=
      translate_answers accessType wellFormed' populated is64 virtAddr asid
    have unique : ∀ i j, Reached tlb history is64 virtAddr asid i →
        Reached tlb history is64 virtAddr asid j → i = j := by
      intro i j reached reached'
      have first := (wellFormed.isMatch_iff is64 virtAddr asid i).mpr reached.1
      have second := (wellFormed.isMatch_iff is64 virtAddr asid j).mpr reached'.1
      exact once i first.1 j second.1 first.2 second.2
    obtain ⟨head, order, rfl⟩ := same
    rw [returned, returned', answers.unique answers' unique]
    rfl

/-! ### Page masks over runs -/

/-- Every live entry's page size is computed without overflow. -/
def MasksFit (tlb : MipsTlb) : Prop := ∀ i < tlb.numEntries, MaskFits (tlb.entries i).pageMask

/-- When page sizes do not overflow, the vmap hides no present slot. -/
theorem MasksFit.reached_iff (fits : MasksFit tlb) (is64 : Bool) (virtAddr : BitVec 64)
    (asid : BitVec 8) (i : Nat) :
    Reached tlb history is64 virtAddr asid i ↔ Present tlb history is64 virtAddr asid i :=
  ⟨And.left, fun present => ⟨present, .inl (present.2.2.covers (fits i present.1))⟩⟩

/-- The page masks an operation brings in can be turned into sizes. -/
def TlbOp.MasksFit : TlbOp → Prop
  | .write _ entry => MaskFits entry.pageMask
  | .loadState (.array items) => ∀ item ∈ items, MaskFits (loadEntry item).pageMask
  | _ => True

theorem MasksFit.step (fits : MasksFit tlb) {op : TlbOp} (allowed : op.MasksFit) {tlb' : MipsTlb}
    (stepped : step tlb op = some tlb') (wellFormed : WellFormed tlb history) : MasksFit tlb' := by
  cases op with
  | write index entry =>
    cases stepped
    by_cases live : index < tlb.numEntries
    · simp only [write, if_pos live]
      intro i below
      by_cases same : i = index
      · subst same
        show MaskFits (Function.update tlb.entries i entry.withDerived i).pageMask
        rw [Function.update_self]
        exact allowed
      · simpa [same] using fits i below
    · simpa [write, live] using fits
  | translate is64 virtAddr asid accessType =>
    obtain ⟨next, result, returned, same, _⟩ :=
      translate_returns wellFormed.mru is64 virtAddr asid accessType
    obtain ⟨head, order, rfl⟩ := same
    simp only [Tlb.step, returned, Option.map_some, Option.some.injEq] at stepped
    rw [← stepped]
    exact fits
  | setCacheAttrs table =>
    cases stepped
    exact fits
  | powerOn =>
    cases stepped
    intro i _
    show MaskFits new.pageMask
    decide
  | loadState v =>
    cases stepped
    intro i below
    show MaskFits (tlb.loadEntries v i).pageMask
    have live : i < tlb.numEntries := below
    cases v with
    | array items =>
      simp only [loadEntries, if_pos live]
      cases item : items[i]? with
      | none => exact fits i live
      | some value => exact allowed value (List.mem_of_getElem? item)
    | string text | integer value | other => exact fits i live

/-- A run whose page masks fit ends in a well-formed TLB whose page masks fit. -/
theorem run_masksFit {geometry : Geometry} (allowed : ∀ op ∈ ops, op.MasksFit) :
    ∃ tlb, run (new geometry) ops = some tlb ∧ tlb.geometry = geometry ∧
      WellFormed tlb (historyOf geometry ops) ∧ MasksFit tlb := by
  refine Run.foldlM_invariant TlbOp.MasksFit
    (fun tlb history => tlb.geometry = geometry ∧ WellFormed tlb history ∧ MasksFit tlb) ?_
    allowed ⟨rfl, new_wellFormed geometry, fun i _ => ?_⟩
  · intro state past op kept fit
    obtain ⟨same, wellFormed, fits⟩ := kept
    obtain ⟨next, stepped, sameGeometry, wellFormed'⟩ := wellFormed.step op
    refine ⟨next, stepped, sameGeometry.trans same, ?_, fits.step fit stepped wellFormed⟩
    rw [← same]
    exact wellFormed'
  · show MaskFits new.pageMask
    decide

/-! ### The reference search -/

/-- What a linear search over the present slots may answer. -/
structure LinearSearch (tlb : MipsTlb) (history : History) (is64 : Bool) (virtAddr : BitVec 64)
    (asid : BitVec 8) (accessType : AccessType) (result : TlbResult) : Prop where
  miss_iff : result = .miss (virtAddr >>> 13) ↔
    ∀ i, ¬ Present tlb history is64 virtAddr asid i
  single : ∀ i, Present tlb history is64 virtAddr asid i →
    (∀ j, Present tlb history is64 virtAddr asid j → j = i) →
    result = (tlb.entries i).respond tlb.cAttr virtAddr accessType
  several : ∀ i, Present tlb history is64 virtAddr asid i →
    ∃ j, Present tlb history is64 virtAddr asid j ∧
      result = (tlb.entries j).respond tlb.cAttr virtAddr accessType

/-- In every run with a live write or a load since the last power-on,
`translate` returns what the linear search over the present slots answers. -/
theorem translate_linearSearch (geometry : Geometry) (ops : List TlbOp)
    (allowed : ∀ op ∈ ops, op.MasksFit) (populated : (historyOf geometry ops).populated = true)
    (is64 : Bool) (virtAddr : BitVec 64) (asid : BitVec 8) (accessType : AccessType) :
    ∃ tlb tlb' result, run (new geometry) ops = some tlb ∧
      tlb.translate is64 virtAddr asid accessType = some (tlb', result) ∧
      LinearSearch tlb (historyOf geometry ops) is64 virtAddr asid accessType result := by
  obtain ⟨tlb, ran, _, wellFormed, fits⟩ := run_masksFit allowed
  obtain ⟨tlb', result, returned, reached⟩ :=
    translate_answers accessType wellFormed populated is64 virtAddr asid
  have answers := reached.congr (fits.reached_iff is64 virtAddr asid) fun _ _ => rfl
  refine ⟨tlb, tlb', result, ran, returned, ?_, ?_, ?_⟩
  · exact answers.eq_miss_iff fun i => respond_ne_miss _ _
  · intro i present only
    exact answers.eq_of_unique present only
  · intro i present
    exact answers.exists_of_match present

theorem translate_linearSearch_one_write :
    ∃ tlb tlb' result,
      run (new twoSlots) [.write 0 (ofWords 0 0x10000 0x46 0)] = some tlb ∧
      tlb.translate false 0x10123 0 .write = some (tlb', result) ∧
      LinearSearch tlb
        (historyOf twoSlots [.write 0 (ofWords 0 0x10000 0x46 0)])
        false 0x10123 0 .write result :=
  translate_linearSearch twoSlots [.write 0 (ofWords 0 0x10000 0x46 0)]
    (by simp only [List.mem_singleton, forall_eq]; exact (by decide : MaskFits 0)) (by decide)
    false 0x10123 0 .write

/-- A slot that was never written matches address 0 and ASID 0 by its words, but
lookups skip it: its shadow is the sentinel. -/
theorem unwritten_slot_skipped :
    ∃ tlb, run (new twoSlots) [.write 1 (ofWords 0 0x10000 0 0)] = some tlb ∧
      (tlb.entries 0).Matches false 0 0 ∧ ¬ (tlb.entries 1).Matches false 0 0 ∧
      (tlb.entries 0).respond tlb.cAttr 0 .read = .invalid 0 ∧
      (tlb.translate false 0 0 .read).map Prod.snd = some (.miss 0) :=
  ⟨_, rfl, by decide, by decide, by decide, by decide⟩

/-! ### Probe -/

theorem WellFormed.isMatch_iff_present (wellFormed : WellFormed tlb history) :
    (tlb.shadow i).isMatch is64 virtAddr asid = true ↔
      Present tlb history is64 virtAddr asid i := by
  rw [← wellFormed.isMatch_iff]
  by_cases below : i < tlb.numEntries
  · simp [below]
  · rw [wellFormed.spare i (not_lt.mp below), isMatch_invalid]
    simp [below]

section
variable {is64 : Bool} {virtAddr : BitVec 64} {asid : BitVec 8}

/-- A probe finds nothing where nothing is present, and otherwise names a present slot. -/
theorem WellFormed.probe_cases (wellFormed : WellFormed tlb history) :
    ((∀ i, ¬ Present tlb history is64 virtAddr asid i) ∧
        tlb.probe virtAddr asid is64 = 0x80000000) ∨
      ∃ i, Present tlb history is64 virtAddr asid i ∧
        tlb.probe virtAddr asid is64 = BitVec.ofNat 32 i := by
  unfold probe
  split
  next i found =>
    have matched := List.find?_some found
    exact .inr ⟨i, (wellFormed.isMatch_iff_present).mp matched, rfl⟩
  next nobody =>
    refine .inl ⟨fun i present => ?_, rfl⟩
    have live : i ∈ List.range tlbMaxEntries :=
      List.mem_range.mpr (present.1.trans_le tlb.geometry.le_max)
    exact List.find?_eq_none.mp nobody i live
      ((wellFormed.isMatch_iff_present).mpr present)

theorem WellFormed.translate_miss_iff (wellFormed : WellFormed tlb history) :
    ∃ next result, tlb.translate is64 virtAddr asid accessType = some (next, result) ∧
      (result = .miss (virtAddr >>> 13) ↔
        ¬ (history.populated = true ∧ ∃ i, Reached tlb history is64 virtAddr asid i)) := by
  cases populated : history.populated with
  | true =>
    obtain ⟨next, result, returned, answers⟩ :=
      translate_answers accessType wellFormed populated is64 virtAddr asid
    refine ⟨next, result, returned, ?_⟩
    rw [answers.eq_miss_iff fun i => respond_ne_miss _ _]
    simp
  | false =>
    refine ⟨tlb, _, wellFormed.translate_blank populated accessType, ?_⟩
    exact iff_of_true rfl fun both => nomatch both.1

end

/-- After every run a probe finds nothing exactly where a lookup misses iff a present slot means
that something was written or loaded and that the vmap leads to a present slot; what it finds
matches. -/
theorem probe_agrees_iff (geometry : Geometry) (ops : List TlbOp) (is64 : Bool)
    (virtAddr : BitVec 64) (asid : BitVec 8) (accessType : AccessType) :
    ∃ tlb next result, run (new geometry) ops = some tlb ∧
      tlb.translate is64 virtAddr asid accessType = some (next, result) ∧
      ((tlb.probe virtAddr asid is64 = 0x80000000 ↔ result = .miss (virtAddr >>> 13)) ↔
        ((∃ i, Present tlb (historyOf geometry ops) is64 virtAddr asid i) →
          (historyOf geometry ops).populated = true ∧
            ∃ i, Reached tlb (historyOf geometry ops) is64 virtAddr asid i)) ∧
      (tlb.probe virtAddr asid is64 ≠ 0x80000000 → ∃ i < tlb.numEntries,
        tlb.probe virtAddr asid is64 = BitVec.ofNat 32 i ∧
          (tlb.entries i).Matches is64 virtAddr asid) := by
  obtain ⟨tlb, ran, _, wellFormed⟩ := run_wellFormed
  obtain ⟨next, result, returned, missed⟩ := wellFormed.translate_miss_iff accessType
  refine ⟨tlb, next, result, ran, returned, ?_⟩
  rcases wellFormed.probe_cases with ⟨nobody, probed⟩ | ⟨i, present, probed⟩
  · refine ⟨iff_of_true (iff_of_true probed (missed.mpr ?_)) ?_, fun found => absurd probed found⟩
    · rintro ⟨-, i, reached⟩
      exact nobody i reached.1
    · rintro ⟨i, present⟩
      exact absurd present (nobody i)
  · have small : i < 64 := present.1.trans_le tlb.geometry.le_max
    have found : tlb.probe virtAddr asid is64 ≠ 0x80000000 := by
      bv_omega
    refine ⟨?_, fun _ => ⟨i, present.1, probed, present.2.2⟩⟩
    rw [iff_false_left found, missed, not_not]
    exact ⟨fun both _ => both, fun both => both ⟨i, present⟩⟩

/-- The executor installs its attribute table in a new TLB: every blank entry gets a shadow, and a
probe of address 0 finds the first of them while a lookup misses. -/
theorem probe_finds_blank_entry :
    ∃ tlb, run (new twoSlots) [.setCacheAttrs defaultCAttr] = some tlb ∧ tlb.probe 0 0 false = 0 ∧
      (tlb.translate false 0 0 .read).map Prod.snd = some (.miss 0) :=
  ⟨_, rfl, by decide, by decide⟩

end Iris.Cpu.Tlb
