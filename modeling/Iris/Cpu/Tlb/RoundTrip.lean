import Iris.Cpu.Tlb.Lookup

/-!
Owns the snapshot round trip: which answers a TLB loaded from another one's
snapshot shares with it. Loading derives a shadow for every live slot, so a
slot that was never written becomes matchable at address 0; the round trip keeps
the answers there exactly when the match before it shields that slot.
-/

namespace Iris.Cpu.Tlb

open Library Lookup Snapshot BitVec MipsTlb TlbEntry

variable {tlb target : MipsTlb} {history history' : History}

/-! ### The loaded entries -/

/-- Loading a snapshot gives back the saved words, and with them the entries. -/
theorem loadEntries_saveState (sameGeometry : target.geometry = tlb.geometry)
    (derived : ∀ i < tlb.numEntries, (tlb.entries i).Derived) (below : i < tlb.numEntries) :
    target.loadEntries tlb.saveState i = tlb.entries i := by
  have words : loadU64Slice (u64SliceToToml (entryWords (tlb.entries i))) [0, 0, 0, 0] =
      entryWords (tlb.entries i) := loadU64Slice_u64SliceToToml rfl
  have live : i < target.numEntries := by
    rw [numEntries, sameGeometry]
    exact below
  simp only [loadEntries, saveState, if_pos live]
  rw [List.getElem?_map, List.getElem?_range below]
  simp only [Option.map_some, Option.getD_some, loadEntry, words]
  exact (derived i below).eq_ofWords

/-! ### Probe -/

variable {virtAddr : BitVec 64} {asid : BitVec 8} {is64 : Bool}

theorem WellFormed.probe_congr (wellFormed : WellFormed tlb history)
    (wellFormed' : WellFormed target history')
    (same : ∀ i, Present tlb history is64 virtAddr asid i ↔
      Present target history' is64 virtAddr asid i) :
    tlb.probe virtAddr asid is64 = target.probe virtAddr asid is64 := by
  have sameMatch : ∀ i, (tlb.shadow i).isMatch is64 virtAddr asid =
      (target.shadow i).isMatch is64 virtAddr asid := by
    intro i
    rw [Bool.eq_iff_iff, wellFormed.isMatch_iff_present, wellFormed'.isMatch_iff_present, same i]
  unfold probe
  simp only [sameMatch]

/-! ### Answers at an address with at most one match -/

def SameAnswers (tlb tlb' : MipsTlb) (is64 : Bool) (virtAddr : BitVec 64) (asid : BitVec 8)
    (accessType : AccessType) : Prop :=
  (∃ next next' result, tlb.translate is64 virtAddr asid accessType = some (next, result) ∧
    tlb'.translate is64 virtAddr asid accessType = some (next', result)) ∧
  tlb.probe virtAddr asid is64 = tlb'.probe virtAddr asid is64

/-- Where nothing is present a lookup misses and a probe finds nothing. -/
theorem WellFormed.answers_of_absent (wellFormed : WellFormed tlb history)
    (accessType : AccessType) (absent : ∀ i, ¬ Present tlb history is64 virtAddr asid i) :
    (∃ next, tlb.translate is64 virtAddr asid accessType =
      some (next, .miss (virtAddr >>> 13))) ∧
    tlb.probe virtAddr asid is64 = 0x80000000 := by
  obtain ⟨next, result, returned, missed⟩ := wellFormed.translate_miss_iff accessType
  rcases wellFormed.probe_cases with ⟨-, probed⟩ | ⟨i, present, -⟩
  · have miss := missed.mpr fun both => both.2.elim fun i reached => absent i reached.1
    exact ⟨⟨next, by rw [returned, miss]⟩, probed⟩
  · exact absurd present (absent i)

/-- A live slot that no lookup finds, since it was never written or re-derived, and
whose words match: loading a snapshot derives its shadow. -/
def Surfaces (tlb : MipsTlb) (history : History) (is64 : Bool) (virtAddr : BitVec 64)
    (asid : BitVec 8) (i : Nat) : Prop :=
  i < tlb.numEntries ∧ history.installed i = false ∧ (tlb.entries i).Matches is64 virtAddr asid

/-- The match `i` hides the slots that surface: lookups get to it, it lies below them
all, and the last entry over the vmap slot, which a rebuilt vmap names, answers alike if it
matches. -/
structure Shielded (tlb : MipsTlb) (history : History) (is64 : Bool) (virtAddr : BitVec 64)
    (asid : BitVec 8) (accessType : AccessType) (i : Nat) : Prop where
  populated : history.populated = true
  reached : Reached tlb history is64 virtAddr asid i
  below : ∀ j, Surfaces tlb history is64 virtAddr asid j → i < j
  last : ∀ j, Owns tlb.numEntries tlb.entries (vmapSlot virtAddr) j →
    (∀ k, Owns tlb.numEntries tlb.entries (vmapSlot virtAddr) k → k ≤ j) →
    (tlb.entries j).Matches is64 virtAddr asid →
    (tlb.entries j).respond tlb.cAttr virtAddr accessType =
      (tlb.entries i).respond tlb.cAttr virtAddr accessType

section
variable (wellFormed : WellFormed tlb history)
include wellFormed

theorem WellFormed.present_unique (once : MatchedOnce tlb is64 virtAddr asid)
    (here : Present tlb history is64 virtAddr asid i)
    (here' : Present tlb history is64 virtAddr asid j) : i = j :=
  once i here.1 j here'.1 (wellFormed.isMatch_iff_present.mpr here)
    (wellFormed.isMatch_iff_present.mpr here')

theorem Surfaces.covers (surfaced : Surfaces tlb history is64 virtAddr asid i) :
    Covers (tlb.entries i) (vmapSlot virtAddr) := by
  refine surfaced.2.2.covers ?_
  rw [wellFormed.untouched i surfaced.1 surfaced.2.1]
  decide

/-- A single match, with nothing left to surface, was written or loaded. -/
theorem WellFormed.populated_of_once (once : MatchedOnce tlb is64 virtAddr asid)
    (hidden : ∀ i, ¬ Surfaces tlb history is64 virtAddr asid i)
    (here : Present tlb history is64 virtAddr asid i) : history.populated = true := by
  by_contra unpopulated
  have blank := wellFormed.vmap
  rw [show history.populated = false by simpa using unpopulated] at blank
  -- all entries are blank then, and there are at least two
  have two : 2 ≤ tlb.numEntries := tlb.geometry.two_le
  have present : ∀ j < tlb.numEntries, Present tlb history is64 virtAddr asid j := by
    intro j below
    have matched := here.2.2
    rw [blank.entries i here.1, ← blank.entries j below] at matched
    refine ⟨below, ?_, matched⟩
    by_contra unwritten
    exact hidden j ⟨below, by simpa using unwritten, matched⟩
  have clash := wellFormed.present_unique once (present 0 (by omega)) (present 1 (by omega))
  exact nomatch clash

theorem WellFormed.probe_eq_iff (small : i < 64) :
    tlb.probe virtAddr asid is64 = BitVec.ofNat 32 i ↔
      Present tlb history is64 virtAddr asid i ∧
        ∀ j < i, ¬ Present tlb history is64 virtAddr asid j := by
  simp only [← wellFormed.isMatch_iff_present]
  unfold probe
  split
  next j found =>
    obtain ⟨matched, live, lowest⟩ := List.find?_range_eq_some.mp found
    have small' : j < 64 := List.mem_range.mp live
    constructor
    · intro same
      have equal : j = i := by bv_omega
      subst equal
      exact ⟨matched, fun k lower accepted => by simpa [accepted] using lowest k lower⟩
    · rintro ⟨matched', lowest'⟩
      have notBelow : ¬ j < i := fun lower => lowest' j lower matched
      have notAbove : ¬ i < j := fun lower => by simpa [matched'] using lowest i lower
      rw [show j = i by omega]
  next nobody =>
    refine iff_of_false (by bv_omega) fun both => ?_
    exact List.find?_eq_none.mp nobody i (List.mem_range.mpr small) both.1

end

/-! ### The round trip -/

/-- The TLB loaded from `tlb`'s snapshot keeps its entries and derives every
shadow from them. -/
structure Reloaded (tlb loaded : MipsTlb) : Prop where
  geometry : loaded.geometry = tlb.geometry
  cAttr : loaded.cAttr = tlb.cAttr
  entries : ∀ i < tlb.numEntries, loaded.entries i = tlb.entries i
  vmap : loaded.vmap = vmapRebuild loaded.numEntries loaded.entries
  ordered : ∀ list, LinkedList.Threads (loaded.mruNext list) mruNone (loaded.mruHead list)
    (liveSlots loaded.numEntries)
  wellFormed : WellFormed loaded ⟨true, fun _ => true⟩

theorem reloaded_loadState (wellFormed : WellFormed tlb history)
    (wellFormed' : WellFormed target history') (sameGeometry : target.geometry = tlb.geometry)
    (sameTable : target.cAttr = tlb.cAttr) : Reloaded tlb (target.loadState tlb.saveState) where
  geometry := sameGeometry
  cAttr := sameTable
  entries := fun _ below => loadEntries_saveState sameGeometry wellFormed.derived below
  vmap := rfl
  ordered := resetMru_threads
  wellFormed := wellFormed'.loadState

variable {loaded : MipsTlb}

section
variable (reloaded : Reloaded tlb loaded)
include reloaded

theorem Reloaded.present_iff {asid : BitVec 8} :
    Present loaded ⟨true, fun _ => true⟩ is64 virtAddr asid i ↔
      i < tlb.numEntries ∧ (tlb.entries i).Matches is64 virtAddr asid := by
  unfold Present
  rw [numEntries, reloaded.geometry]
  refine and_congr_right fun below => ?_
  rw [reloaded.entries i below]
  simp

theorem Reloaded.owns_iff (slot i : Nat) :
    Owns loaded.numEntries loaded.entries slot i ↔ Owns tlb.numEntries tlb.entries slot i := by
  rw [numEntries, reloaded.geometry]
  refine and_congr_right fun below => ?_
  rw [reloaded.entries i below]

theorem Reloaded.present_or :
    Present loaded ⟨true, fun _ => true⟩ is64 virtAddr asid i ↔
      Present tlb history is64 virtAddr asid i ∨ Surfaces tlb history is64 virtAddr asid i := by
  rw [reloaded.present_iff, Present, Surfaces]
  cases history.installed i <;> simp

theorem Reloaded.reached_iff
    (present : ∀ i, Present loaded ⟨true, fun _ => true⟩ is64 virtAddr asid i ↔
      Present tlb history is64 virtAddr asid i)
    (i : Nat) :
    Reached loaded ⟨true, fun _ => true⟩ is64 virtAddr asid i ↔
      Reached tlb history is64 virtAddr asid i := by
  unfold Reached
  rw [present i]
  refine and_congr_right fun here => ?_
  rw [reloaded.entries i here.1]
  simp only [reloaded.owns_iff]

variable (wellFormed : WellFormed tlb history)
include wellFormed

/-- Answers survive where no unwritten slot comes to match. -/
theorem Reloaded.sameAnswers (accessType : AccessType) (once : MatchedOnce tlb is64 virtAddr asid)
    (hidden : ∀ i, ¬ Surfaces tlb history is64 virtAddr asid i) :
    SameAnswers tlb loaded is64 virtAddr asid accessType := by
  have present : ∀ i, Present loaded ⟨true, fun _ => true⟩ is64 virtAddr asid i ↔
      Present tlb history is64 virtAddr asid i := by
    intro i
    rw [reloaded.present_or, or_iff_left (hidden i)]
  by_cases absent : ∀ i, ¬ Present tlb history is64 virtAddr asid i
  · obtain ⟨⟨next, missed⟩, probed⟩ := wellFormed.answers_of_absent accessType absent
    obtain ⟨⟨next', missed'⟩, probed'⟩ := reloaded.wellFormed.answers_of_absent accessType
      fun i here => absent i ((present i).mp here)
    exact ⟨⟨next, next', _, missed, missed'⟩, probed.trans probed'.symm⟩
  · obtain ⟨i, here⟩ := not_forall_not.mp absent
    obtain ⟨next, result, returned, answers⟩ := translate_answers accessType wellFormed
      (wellFormed.populated_of_once once hidden here) is64 virtAddr asid
    obtain ⟨next', result', returned', answers'⟩ :=
      translate_answers accessType reloaded.wellFormed rfl is64 virtAddr asid
    have answers' := answers'.congr (reloaded.reached_iff present) fun j reached => by
      rw [reloaded.cAttr, reloaded.entries j ((present j).mp reached.1).1]
    have same : result = result' := answers.unique answers' fun j k reached reached' =>
      wellFormed.present_unique once reached.1 reached'.1
    refine ⟨⟨next, next', result, returned, by rw [returned', same]⟩, ?_⟩
    exact wellFormed.probe_congr reloaded.wellFormed fun j => (present j).symm

section
variable (surfaced : Surfaces tlb history is64 virtAddr asid i)
include surfaced

/-- Where an unwritten slot comes to match, the loaded TLB answers from the last
entry that covers the vmap slot if that one matches, and else from the first match. -/
theorem Reloaded.translate_surfaced (accessType : AccessType) :
    ∃ last, Owns tlb.numEntries tlb.entries (vmapSlot virtAddr) last ∧
      (∀ j, Owns tlb.numEntries tlb.entries (vmapSlot virtAddr) j → j ≤ last) ∧
      ∀ j < tlb.numEntries, (tlb.entries j).Matches is64 virtAddr asid →
        (¬ (tlb.entries last).Matches is64 virtAddr asid ∧
            (∀ k < j, ¬ (tlb.entries k).Matches is64 virtAddr asid) ∨ j = last) →
        ∃ next, loaded.translate is64 virtAddr asid accessType =
          some (next, (tlb.entries j).respond tlb.cAttr virtAddr accessType) := by
  have owned : Owns tlb.numEntries tlb.entries (vmapSlot virtAddr) i :=
    ⟨surfaced.1, surfaced.covers wellFormed⟩
  have summary := reloaded.wellFormed.vmap (vmapSlot virtAddr) vmapSlot_lt
  obtain ⟨last, owned', highest, named⟩ := vmapRebuild_last vmapSlot_lt
    ((reloaded.owns_iff _ i).mpr owned)
  rw [← reloaded.vmap] at named
  simp only [reloaded.owns_iff] at owned' highest
  have small : last < 64 := owned'.1.trans_le tlb.geometry.le_max
  have occupied : loaded.vmap (vmapSlot virtAddr) ≠ vmapMiss := by
    rcases named with sole | shared
    · rw [sole]
      exact slotEncoding.sole_ne_vacant small
    · rw [shared]
      exact slotEncoding.shared_ne_vacant small
  have index : (loaded.vmap (vmapSlot virtAddr) &&& vmapIdxMask).toNat = last := by
    rcases named with sole | shared
    · rw [sole]
      exact tag_idx small
    · rw [shared]
      exact sharedTag_idx small
  refine ⟨last, owned', highest, fun j below matched which => ?_⟩
  have present := reloaded.present_iff.mpr ⟨below, matched⟩
  have answer := reloaded.wellFormed.answer_eq accessType present
  rw [reloaded.cAttr, reloaded.entries j below] at answer
  unfold MipsTlb.translate
  rw [show ((virtAddr.setWidth 32) >>> 13).toNat = vmapSlot virtAddr from rfl, if_pos occupied,
    index]
  rcases which with ⟨mismatch, lowest⟩ | rfl
  · have rejected : ∀ k, ¬ (tlb.entries k).Matches is64 virtAddr asid →
        (loaded.shadow k).isMatch is64 virtAddr asid = false := by
      intro k unmatched
      rw [Bool.eq_false_iff]
      intro accepted
      exact unmatched (reloaded.present_iff.mp
        (reloaded.wellFormed.isMatch_iff_present.mp accepted)).2
    -- two entries cover the slot, so it is shared and the scan decides
    have shared : loaded.vmap (vmapSlot virtAddr) = slotEncoding.shared last := by
      refine named.resolve_left fun sole => mismatch ?_
      have only := (summary.eq_sole_iff small).mp sole i
      rw [← only.mp ((reloaded.owns_iff _ i).mpr owned)]
      exact surfaced.2.2
    have multi : loaded.vmap (vmapSlot virtAddr) &&& vmapMulti ≠ 0 := by
      rw [shared]
      exact sharedTag_multi small
    rw [if_neg (by simp [rejected last mismatch]), if_neg (by simpa using multi), ← answer]
    exact mruScan_lowest (reloaded.ordered accessType) present.1
      (reloaded.wellFormed.isMatch_iff_present.mpr present)
      fun k lower => rejected k (lowest k lower)
  · rw [if_pos (reloaded.wellFormed.isMatch_iff_present.mpr present), answer]
    exact ⟨loaded, rfl⟩

/-- The loaded TLB probes to a slot, so `tlb` has a match if it probes alike. -/
theorem Reloaded.exists_present
    (probed : tlb.probe virtAddr asid is64 = loaded.probe virtAddr asid is64) :
    ∃ j, Present tlb history is64 virtAddr asid j := by
  rcases wellFormed.probe_cases with ⟨-, missed⟩ | ⟨j, here, -⟩
  · rcases reloaded.wellFormed.probe_cases with ⟨absent, -⟩ | ⟨j, here, found⟩
    · exact absurd (reloaded.present_or.mpr (.inr surfaced)) (absent i)
    · have small : j < 64 := here.1.trans_le loaded.geometry.le_max
      rw [missed, found] at probed
      bv_omega
  · exact ⟨j, here⟩

theorem Reloaded.ne_miss
    (returned : loaded.translate is64 virtAddr asid accessType = some (next, result)) :
    result ≠ .miss (virtAddr >>> 13) := by
  obtain ⟨_, _, again, missed⟩ := reloaded.wellFormed.translate_miss_iff accessType
  cases returned.symm.trans again
  rw [ne_eq, missed, Classical.not_not]
  refine ⟨rfl, i, reloaded.present_or.mpr (.inr surfaced), .inl ?_⟩
  rw [reloaded.entries i surfaced.1]
  exact surfaced.covers wellFormed

end

/-- A match is the loaded TLB's first one if it lies below all slots that surface. -/
theorem Reloaded.lowest_iff
    (once : MatchedOnce tlb is64 virtAddr asid) (here : Present tlb history is64 virtAddr asid i) :
    (∀ j < i, ¬ Present loaded ⟨true, fun _ => true⟩ is64 virtAddr asid j) ↔
      ∀ j, Surfaces tlb history is64 virtAddr asid j → i < j := by
  constructor
  · intro lowest j surfaced
    refine lt_of_le_of_ne (not_lt.mp fun lower => ?_) fun same => ?_
    · exact lowest j lower (reloaded.present_or.mpr (.inr surfaced))
    · have written := here.2.1
      rw [same, surfaced.2.1] at written
      exact nomatch written
  · intro above j lower here'
    rcases reloaded.present_or.mp here' with present | surfaced
    · exact lower.ne (wellFormed.present_unique once present here)
    · exact lower.asymm (above j surfaced)

theorem Reloaded.probe_eq_iff
    (once : MatchedOnce tlb is64 virtAddr asid) (here : Present tlb history is64 virtAddr asid i) :
    tlb.probe virtAddr asid is64 = loaded.probe virtAddr asid is64 ↔
      ∀ j, Surfaces tlb history is64 virtAddr asid j → i < j := by
  have small : i < 64 := here.1.trans_le tlb.geometry.le_max
  have first := (wellFormed.probe_eq_iff small).mpr
    ⟨here, fun j lower here' => lower.ne (wellFormed.present_unique once here' here)⟩
  rw [first, eq_comm, reloaded.wellFormed.probe_eq_iff small,
    and_iff_right (reloaded.present_or.mpr (.inl here)), reloaded.lowest_iff wellFormed once here]

end

/-- The answers survive the round trip at an address with at most one match
exactly when no unwritten slot comes to match there, or the match shields it. -/
theorem snapshot_sameAnswers_iff (geometry : Geometry) (ops targetOps : List TlbOp)
    {tlb target : MipsTlb} (ran : run (new geometry) ops = some tlb)
    (targetRan : run (new geometry) targetOps = some target)
    (sameTable : target.cAttr = tlb.cAttr) (is64 : Bool) (virtAddr : BitVec 64) (asid : BitVec 8)
    (accessType : AccessType) (once : MatchedOnce tlb is64 virtAddr asid) :
    SameAnswers tlb (target.loadState tlb.saveState) is64 virtAddr asid accessType ↔
      ((∃ i, Surfaces tlb (historyOf geometry ops) is64 virtAddr asid i) →
        ∃ i, Shielded tlb (historyOf geometry ops) is64 virtAddr asid accessType i) := by
  obtain ⟨tlb', ran', geometryEq, wellFormed⟩ := run_wellFormed
  cases ran.symm.trans ran'
  obtain ⟨target', targetRan', targetGeometry, targetWellFormed⟩ :=
    run_wellFormed
  cases targetRan.symm.trans targetRan'
  have reloaded := reloaded_loadState wellFormed targetWellFormed
    (targetGeometry.trans geometryEq.symm) sameTable
  by_cases hidden : ∀ i, ¬ Surfaces tlb (historyOf geometry ops) is64 virtAddr asid i
  · exact iff_of_true (reloaded.sameAnswers wellFormed accessType once hidden)
      fun exposed => absurd exposed (not_exists.mpr hidden)
  obtain ⟨i, surfaced⟩ := not_forall_not.mp hidden
  rw [imp_iff_right ⟨i, surfaced⟩]
  obtain ⟨last, owned, highest, answered⟩ :=
    reloaded.translate_surfaced wellFormed surfaced accessType
  constructor
  · rintro ⟨⟨next, next', result, returned, returned'⟩, probed⟩
    obtain ⟨k, here⟩ := reloaded.exists_present wellFormed surfaced probed
    have hit := reloaded.ne_miss wellFormed surfaced returned'
    obtain ⟨_, _, again, missed⟩ := wellFormed.translate_miss_iff accessType
    cases returned.symm.trans again
    obtain ⟨populated, j, reached⟩ := Classical.not_not.mp fun none => hit (missed.mpr none)
    have reached : Reached tlb (historyOf geometry ops) is64 virtAddr asid k := by
      rwa [← wellFormed.present_unique once reached.1 here]
    obtain ⟨_, _, again, answers⟩ :=
      translate_answers accessType wellFormed populated is64 virtAddr asid
    cases returned.symm.trans again
    have isAnswer := answers.eq_of_unique reached fun j other =>
      wellFormed.present_unique once other.1 here
    refine ⟨k, populated, reached, (reloaded.probe_eq_iff wellFormed once here).mp probed, ?_⟩
    intro j owned' highest' matched
    obtain ⟨_, answered'⟩ := answered j owned'.1 matched
      (.inr ((highest j owned').antisymm (highest' last owned)))
    cases returned'.symm.trans answered'
    exact isAnswer
  · rintro ⟨k, shielded⟩
    have here := shielded.reached.1
    refine ⟨?_, (reloaded.probe_eq_iff wellFormed once here).mpr shielded.below⟩
    obtain ⟨next, result, returned, answers⟩ :=
      translate_answers accessType wellFormed shielded.populated is64 virtAddr asid
    have isAnswer := answers.eq_of_unique shielded.reached fun j reached =>
      wellFormed.present_unique once reached.1 here
    rw [isAnswer] at returned
    by_cases matched : (tlb.entries last).Matches is64 virtAddr asid
    · obtain ⟨next', returned'⟩ := answered last owned.1 matched (.inr rfl)
      rw [shielded.last last owned highest matched] at returned'
      exact ⟨next, next', _, returned, returned'⟩
    · have lowest : ∀ j < k, ¬ (tlb.entries j).Matches is64 virtAddr asid :=
        fun j lower matched' => (reloaded.lowest_iff wellFormed once here).mpr shielded.below j
          lower (reloaded.present_iff.mpr ⟨lower.trans here.1, matched'⟩)
      obtain ⟨next', returned'⟩ := answered k here.1 here.2.2 (.inl ⟨matched, lowest⟩)
      exact ⟨next, next', _, returned, returned'⟩

/-- An invalid entry written for address 0 shields the unwritten slot behind it, which
answers Invalid as well. -/
theorem snapshot_sameAnswers_shielded :
    ∃ tlb, run (new twoSlots) [.write 0 (ofWords 0 0 0 0)] = some tlb ∧
      MatchedOnce tlb false 0 0 ∧
      Surfaces tlb (historyOf twoSlots [.write 0 (ofWords 0 0 0 0)]) false 0 0 1 ∧
      SameAnswers tlb ((new twoSlots).loadState tlb.saveState) false 0 0 .read := by
  refine ⟨_, rfl, by unfold MatchedOnce; decide, by unfold Surfaces; decide, ?_⟩
  refine (snapshot_sameAnswers_iff twoSlots [.write 0 (ofWords 0 0 0 0)] [] rfl rfl rfl false 0 0
    .read (by unfold MatchedOnce; decide)).mpr fun _ => ⟨0, rfl, ⟨?_, .inl (by decide)⟩, ?_, ?_⟩
  · unfold Present
    decide
  · rintro (_ | j) surfaced
    · exact nomatch surfaced.2.1
    · exact Nat.succ_pos j
  · rintro (_ | _ | j) owned _ _
    · rfl
    · decide
    · have below : j + 2 < 2 := owned.1
      omega

/-- With one of two slots written, address 0 misses, and after the round trip it
is a hit on the unwritten slot: Invalid, and probe index 0. -/
theorem snapshot_unwritten_slot_matches :
    ∃ tlb, run (new twoSlots) [.write 1 (ofWords 0 0x10000 0 0)] = some tlb ∧
      (∀ i < 2, (tlb.entries i).Matches false 0 0 → i = 0) ∧
      (tlb.translate false 0 0 .read).map Prod.snd = some (.miss 0) ∧
      tlb.probe 0 0 false = 0x80000000 ∧
      (((new twoSlots).loadState tlb.saveState).translate false 0 0 .read).map Prod.snd =
        some (.invalid 0) ∧
      ((new twoSlots).loadState tlb.saveState).probe 0 0 false = 0 :=
  ⟨_, rfl, by decide, by decide, by decide, by decide, by decide⟩

end Iris.Cpu.Tlb
