import Iris.Cpu.Tlb.Mru
import Iris.Cpu.Tlb.Reference
import Iris.Library.Run

/-!
Owns the invariant that ties the TLB's entries, shadows, vmap and MRU lists
together, and that every operation keeps it. What the shadows and the vmap hold
depends on the operations so far, which a history records: whether anything was
written or loaded since power-on, and which slots have a shadow derived from
their entry.
-/

namespace Iris.Cpu.Tlb

open Library OwnerSummary Lookup Snapshot Function ShadowEntry TlbEntry

/-! ### Histories -/

/-- What has happened since the last power-on. -/
structure History where
  /-- Some live slot was written, or a snapshot was loaded. -/
  populated : Bool
  /-- The slot's shadow was derived from its entry. -/
  installed : Nat → Bool

def History.initial : History := ⟨false, fun _ => false⟩

def History.advance (numEntries : Nat) (history : History) : TlbOp → History
  | .write index _ =>
    if index < numEntries then ⟨true, update history.installed index true⟩ else history
  | .translate .. => history
  | .setCacheAttrs _ => ⟨history.populated, fun _ => true⟩
  | .powerOn => .initial
  | .loadState _ => ⟨true, fun _ => true⟩

def historyOf (geometry : Geometry) (ops : List TlbOp) : History :=
  ops.foldl (History.advance geometry.numEntries) .initial

/-! ### The invariant -/

/-- The vmap between power-on and the first write or load. -/
structure Blank (numEntries : Nat) (entries : Nat → TlbEntry) (vmap : Nat → BitVec 8) : Prop where
  vmap : ∀ slot, vmap slot = vmapMiss
  entries : ∀ i < numEntries, entries i = new

def VmapOk (populated : Bool) (numEntries : Nat) (entries : Nat → TlbEntry)
    (vmap : Nat → BitVec 8) : Prop :=
  if populated then Canonical numEntries entries vmap else Blank numEntries entries vmap

structure WellFormed (tlb : MipsTlb) (history : History) : Prop where
  mru : MruOk tlb
  derived : ∀ i < tlb.numEntries, (tlb.entries i).Derived
  shadow : ∀ i < tlb.numEntries, tlb.shadow i =
    if history.installed i then fromEntry (tlb.entries i) tlb.cAttr
    else invalid
  untouched : ∀ i < tlb.numEntries, history.installed i = false → tlb.entries i = new
  spare : ∀ i, tlb.numEntries ≤ i → tlb.shadow i = invalid
  vmap : VmapOk history.populated tlb.numEntries tlb.entries tlb.vmap

theorem new_wellFormed (geometry : Geometry) :
    WellFormed (MipsTlb.new geometry) History.initial where
  mru := new_mruOk
  derived := fun _ _ => new_derived
  shadow := fun _ _ => rfl
  untouched := fun _ _ _ => rfl
  spare := fun _ _ => rfl
  vmap := ⟨fun _ => rfl, fun _ _ => rfl⟩

variable {tlb tlb' : MipsTlb} {history : History}

theorem WellFormed.of_sameButMru (wellFormed : WellFormed tlb history)
    (same : SameButMru tlb tlb') (mru : MruOk tlb') : WellFormed tlb' history := by
  obtain ⟨head, next, rfl⟩ := same
  exact { wellFormed with mru := mru }

/-! ### Each operation -/

/-- A lookup returns and moves at most one MRU list. -/
theorem translate_returns (mru : MruOk tlb) (is64 : Bool) (virtAddr : BitVec 64)
    (asid : BitVec 8) (accessType : AccessType) :
    ∃ tlb' result, tlb.translate is64 virtAddr asid accessType = some (tlb', result) ∧
      SameButMru tlb tlb' ∧ MruOk tlb' := by
  unfold MipsTlb.translate
  dsimp only
  split
  · split
    · exact ⟨tlb, _, rfl, SameButMru.refl tlb, mru⟩
    · split
      · exact ⟨tlb, _, rfl, SameButMru.refl tlb, mru⟩
      · obtain ⟨next, result, scanned, same, mru', _⟩ :=
          mruScan_spec mru accessType
        exact ⟨next, result, scanned, same, mru'⟩
  · exact ⟨tlb, _, rfl, SameButMru.refl tlb, mru⟩

section
variable (wellFormed : WellFormed tlb history) {index : Nat} (live : index < tlb.numEntries)
  (entry : TlbEntry)
include wellFormed live

/-- Before a write, slots outside the overwritten entry's range summarise the
other entries, whether or not anything was written yet. -/
theorem WellFormed.others_summarized (inMap : slot < vmapSize)
    (outside : ¬ Covers (tlb.entries index) slot) :
    Summarizes slotEncoding (fun i => i ≠ index ∧
      Owns tlb.numEntries (update tlb.entries index entry) slot i) (tlb.vmap slot) := by
  have kept := wellFormed.vmap
  unfold VmapOk at kept
  split at kept
  · refine (kept slot inMap).congr fun i => ?_
    by_cases same : i = index
    · subst same
      simp [Owns, outside]
    · simp [Owns, same]
  · rw [kept.vmap slot]
    refine .vacant fun i owned => ?_
    obtain ⟨apart, below, covered⟩ := owned
    rw [update_of_ne apart, kept.entries i below, ← kept.entries index live] at covered
    exact outside covered

theorem WellFormed.write :
    WellFormed (tlb.write index entry) ⟨true, update history.installed index true⟩ := by
  have canonical := vmapReplace_canonical tlb.geometry.le_max live
    (update tlb.entries index entry.withDerived)
    (fun slot inMap outside =>
      wellFormed.others_summarized live entry.withDerived inMap outside)
  unfold MipsTlb.write
  rw [if_pos live]
  refine ⟨wellFormed.mru, ?_, ?_, ?_, ?_, canonical⟩
  · intro i below
    by_cases same : i = index
    · subst same
      simp [withDerived_derived]
    · simpa [same] using wellFormed.derived i below
  · intro i below
    by_cases same : i = index
    · subst same
      simp
    · simpa [same] using wellFormed.shadow i below
  · intro i below notInstalled
    by_cases same : i = index
    · subst same
      simp at notInstalled
    · simp only [update_of_ne same] at notInstalled ⊢
      exact wellFormed.untouched i below notInstalled
  · intro i spare
    have apart : i ≠ index := by
      intro same
      exact absurd live (by simp only [← same]; exact not_lt.mpr spare)
    simp only [update_of_ne apart]
    exact wellFormed.spare i spare

end

theorem resyncShadow_live (below : i < tlb.numEntries) :
    tlb.resyncShadow.shadow i = fromEntry (tlb.entries i) tlb.cAttr :=
  if_pos below

theorem resyncShadow_spare (spare : tlb.numEntries ≤ i) (invalid : tlb.shadow i = invalid) :
    tlb.resyncShadow.shadow i = ShadowEntry.invalid :=
  (if_neg (not_lt.mpr spare)).trans invalid

theorem WellFormed.setCacheAttrs (wellFormed : WellFormed tlb history) (table : CacheTable) :
    WellFormed (tlb.setCacheAttrs table) ⟨history.populated, fun _ => true⟩ :=
  { wellFormed with
    shadow := fun _ below => resyncShadow_live below
    untouched := nofun
    spare := fun i spare => resyncShadow_spare spare (wellFormed.spare i spare) }

theorem powerOn_wellFormed : WellFormed tlb.powerOn History.initial :=
  { new_wellFormed tlb.geometry with mru := resetMru_mruOk }

theorem loadEntries_derived (derived : ∀ i < tlb.numEntries, (tlb.entries i).Derived) :
    ∀ i < tlb.numEntries, (tlb.loadEntries v i).Derived := by
  intro i below
  unfold MipsTlb.loadEntries
  split
  next items =>
    rw [if_pos below]
    cases items[i]? with
    | none => exact derived i below
    | some item => exact ofWords_derived
  · exact derived i below

theorem WellFormed.loadState (wellFormed : WellFormed tlb history) {v : Value} :
    WellFormed (tlb.loadState v) ⟨true, fun _ => true⟩ where
  mru := resetMru_mruOk
  derived := loadEntries_derived wellFormed.derived
  shadow := fun _ below => resyncShadow_live below
  untouched := fun _ _ installed => Bool.noConfusion installed
  spare := fun i spare => resyncShadow_spare spare (wellFormed.spare i spare)
  vmap := vmapRebuild_canonical tlb.geometry.le_max _

/-! ### Whole runs -/

theorem WellFormed.step (wellFormed : WellFormed tlb history) (op : TlbOp) :
    ∃ tlb', step tlb op = some tlb' ∧ tlb'.geometry = tlb.geometry ∧
      WellFormed tlb' (history.advance tlb.numEntries op) := by
  cases op with
  | write index entry =>
    refine ⟨_, rfl, ?_, ?_⟩
    · unfold MipsTlb.write
      split <;> rfl
    simp only [History.advance]
    by_cases live : index < tlb.numEntries
    · rw [if_pos live]
      exact wellFormed.write live entry
    · simpa [MipsTlb.write, live] using wellFormed
  | translate is64 virtAddr asid accessType =>
    obtain ⟨next, result, returned, same, mru⟩ :=
      translate_returns wellFormed.mru is64 virtAddr asid accessType
    refine ⟨next, by simp [Tlb.step, returned], ?_, wellFormed.of_sameButMru same mru⟩
    obtain ⟨head, order, rfl⟩ := same
    rfl
  | setCacheAttrs table => exact ⟨_, rfl, rfl, wellFormed.setCacheAttrs table⟩
  | powerOn => exact ⟨_, rfl, rfl, powerOn_wellFormed⟩
  | loadState v => exact ⟨_, rfl, rfl, wellFormed.loadState⟩

theorem run_wellFormed :
    ∃ tlb, run (MipsTlb.new geometry) ops = some tlb ∧ tlb.geometry = geometry ∧
      WellFormed tlb (historyOf geometry ops) := by
  refine Run.foldlM_invariant (fun _ => True)
    (fun tlb history => tlb.geometry = geometry ∧ WellFormed tlb history) ?_
    (fun _ _ => trivial) ⟨rfl, new_wellFormed geometry⟩
  intro state past op kept _
  obtain ⟨next, stepped, sameGeometry, wellFormed⟩ := kept.2.step op
  refine ⟨next, stepped, sameGeometry.trans kept.1, ?_⟩
  rw [← kept.1]
  exact wellFormed

/-- After every run each MRU list goes once through every live slot and ends; so a scan
returns, and misses only where no live slot matches. -/
theorem run_mruOk (geometry : Geometry) (ops : List TlbOp) :
    ∃ tlb, run (MipsTlb.new geometry) ops = some tlb ∧ MruOk tlb ∧
      ∀ is64 virtAddr asid accessType, ∃ tlb' result,
        tlb.mruScan is64 virtAddr asid accessType = some (tlb', result) ∧ MruOk tlb' ∧
        Answers (fun i => i < geometry.numEntries ∧ (tlb.shadow i).isMatch is64 virtAddr asid = true)
          (fun i => (tlb.shadow i).answer virtAddr accessType) (.miss (virtAddr >>> 13)) result := by
  obtain ⟨tlb, ran, rfl, wellFormed⟩ := @run_wellFormed geometry ops
  refine ⟨tlb, ran, wellFormed.mru, fun is64 virtAddr asid accessType => ?_⟩
  obtain ⟨tlb', result, scanned, -, mru, answers⟩ := mruScan_spec wellFormed.mru accessType
  exact ⟨tlb', result, scanned, mru, answers⟩

end Iris.Cpu.Tlb
