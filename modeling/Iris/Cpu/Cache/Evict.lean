import Iris.Cpu.Cache.Inclusive

/-!
Owns the movements of whole secondary lines over a memory without errors: the
walk over the primary lines of a secondary line, its write-back, invalidation,
move to another virtual index and fill, and the fills of the primary caches.
Each keeps the invariant and what every address currently holds.
-/

namespace Iris.Cpu.Cache

open CpuCache Library.Run Model Table

variable {m : Model} {c c' : CpuCache m} {idx l2Idx physBase physAddr : Nat}

/-! ### Walking over the primary lines -/

/-- Some slots lose their line; the secondary cache keeps its lines. -/
structure Loses (c c' : CpuCache m) : Prop where
  dc : ∀ idx, (c'.dcTags.get idx).ptag = (c.dcTags.get idx).ptag ∨ (c'.dcTags.get idx).ptag = 0
  ptag : ∀ idx, (c'.l2Tags.get idx).ptag = (c.l2Tags.get idx).ptag
  pidx : ∀ idx, (c'.l2Tags.get idx).pidx = (c.l2Tags.get idx).pidx
  invalid : ∀ idx, (c'.l2Tags.get idx).cs = .invalid ↔ (c.l2Tags.get idx).cs = .invalid

theorem LeavesTags.loses (leaves : LeavesTags c c') : Loses c c' :=
  { leaves with dc := fun idx => .inl (leaves.dc idx) }

theorem Loses.trans {a b : CpuCache m} (first : Loses a b) (second : Loses b c) : Loses a c where
  dc idx := by
    rcases second.dc idx with same | empty
    · rw [same]
      exact first.dc idx
    · exact .inr empty
  ptag idx := (second.ptag idx).trans (first.ptag idx)
  pidx idx := (second.pidx idx).trans (first.pidx idx)
  invalid idx := (second.invalid idx).trans (first.invalid idx)

theorem Loses.l1Holds (loses : Loses c c') (holds : c'.L1Holds idx physAddr) :
    c.L1Holds idx physAddr := by
  obtain ⟨candidate, named⟩ := holds
  rcases loses.dc idx with same | empty
  · exact ⟨candidate, by rw [← same]; exact named⟩
  · omega

/-- Holds initially and is kept by a visit to any slot. -/
theorem forL1dLines_induction (direct : m.Direct) (Invariant : CpuCache m → Prop)
    {visit : CpuCache m → Nat → CpuCache m} (initial : Invariant c)
    (kept : ∀ c idx, idx < m.dcNumLines → Invariant c → Invariant (visit c idx))
    (l2Idx : Nat) {pidx : Nat} (physBase : Nat) :
    Invariant (c.forL1dLines l2Idx pidx physBase visit) := by
  apply foldl_range_invariant (fun _ c => Invariant c) initial
  intro i _ c holds
  dsimp only
  split
  · refine kept _ _ (Nat.mod_lt _ ?_) holds
    rw [direct.dcNumLines]
    decide
  · exact holds

structure AtSlot (c : CpuCache m) (l2Idx physBase : Nat) : Prop where
  slot : m.l2Index physBase = l2Idx
  aligned : physBase % 128 = 0
  tellable : Tellable physBase
  holds : c.L2Holds physBase

theorem Inclusive.atSlot (direct : m.Direct) (inv : Inclusive c) (inside : idx < m.l2NumLines)
    (valid : (c.l2Tags.get idx).cs ≠ .invalid) :
    AtSlot c idx (l2TagToPhys (c.l2Tags.get idx) (idx * l2Line)) := by
  obtain ⟨fits, consistent, -⟩ := inv.l2Tagged idx inside valid
  obtain ⟨slot, tag, tellable, aligned⟩ := l2TagToPhys_slot direct inside fits consistent
  refine ⟨slot, aligned, tellable, ?_⟩
  rw [L2Holds, l2TagOf, slot, tag]
  exact ⟨valid, rfl⟩

theorem AtSlot.line (direct : m.Direct) (located : AtSlot c l2Idx physBase)
    (tellable : Tellable physAddr) (slot : m.l2Index physAddr = l2Idx) (holds : c.L2Holds physAddr) :
    physAddr / 128 = physBase / 128 := by
  have same : m.l2Index physAddr = m.l2Index physBase := slot.trans located.slot.symm
  refine l2Line_of_slot direct tellable located.tellable same ?_
  rw [← holds.2, ← located.holds.2, l2TagOf, l2TagOf, same]

/-- A primary copy of an address of the line is in a slot of the walk. -/
theorem AtSlot.walked (direct : m.Direct) (located : AtSlot c l2Idx physBase)
    (inv : Inclusive c') (loses : Loses c c') {slot : Nat} (tellable : Tellable physAddr)
    (index : m.l2Index physAddr = l2Idx) (holds : c'.L1Holds slot physAddr) :
    ∃ i < l2Line / m.dcLine,
      walkSlot m (c.l2Tags.get l2Idx).pidx physBase i = slot ∧
        (c'.dcTags.get slot).ptag = alignDown (physBase + i * m.dcLine) 0x1000 + 1 := by
  obtain ⟨inL2, isSlot⟩ := inv.included slot physAddr tellable holds
  have inL2' : c.L2Holds physAddr := by
    rw [L2Holds, l2TagOf] at inL2 ⊢
    rw [← loses.ptag, Ne, ← loses.invalid]
    exact inL2
  obtain ⟨i, inside, same⟩ := walk_reaches direct located.aligned
    (located.line direct tellable index inL2')
  refine ⟨i, inside, ?_, ?_⟩
  · rw [walkSlot, same.slotUnder direct, ← isSlot, slotOf, l2TagOf, index, loses.pidx]
  · rw [same.page direct]
    exact holds.2

/-- No dirty primary line is over the secondary slot. -/
def FlushedL1 (c : CpuCache m) (l2Idx : Nat) : Prop :=
  ∀ slot physAddr, Tellable physAddr → m.l2Index physAddr = l2Idx → c.L1Holds slot physAddr →
    (c.dcTags.get slot).dirty = false

/-- Visiting the primary lines of a secondary line, by a visit that settles its
slot, unsettles none and may ask for a clean line: every line left is settled. -/
theorem walk (direct : m.Direct) (inv : Inclusive c) (located : AtSlot c l2Idx physBase)
    (visit : CpuCache m → Nat → CpuCache m) (Settled : L1DTag → Prop) {Asks : Prop}
    (flushed : Asks → FlushedL1 c l2Idx)
    (visited : ∀ s slot, Inclusive s → slot < m.dcNumLines →
      (Asks → (s.dcTags.get slot).dirty = false) →
      Keeps s (visit s slot) ∧ Loses s (visit s slot) ∧
        (((visit s slot).dcTags.get slot).ptag ≠ 0 → Settled ((visit s slot).dcTags.get slot)) ∧
        ∀ idx, Settled (s.dcTags.get idx) → Settled ((visit s slot).dcTags.get idx)) :
    let c' := c.forL1dLines l2Idx (c.l2Tags.get l2Idx).pidx physBase visit
    Keeps c c' ∧ Loses c c' ∧
      ∀ slot physAddr, Tellable physAddr → m.l2Index physAddr = l2Idx →
        c'.L1Holds slot physAddr → Settled (c'.dcTags.get slot) := by
  intro c'
  let Done (k : Nat) (s : CpuCache m) : Prop := ∀ i < k,
    (s.dcTags.get (walkSlot m (c.l2Tags.get l2Idx).pidx physBase i)).ptag =
        alignDown (physBase + i * m.dcLine) 0x1000 + 1 →
      Settled (s.dcTags.get (walkSlot m (c.l2Tags.get l2Idx).pidx physBase i))
  have walked : Keeps c c' ∧ Loses c c' ∧ Done (l2Line / m.dcLine) c' := by
    refine foldl_range_invariant (fun k s => Keeps c s ∧ Loses c s ∧ Done k s)
      ⟨.refl inv, (LeavesTags.refl c).loses, fun _ none => absurd none (Nat.not_lt_zero _)⟩ ?_
    rintro k small s ⟨kept, loses, done⟩
    rw [walk_slot direct located.slot located.aligned small]
    by_cases holds : (s.dcTags.get (walkSlot m (c.l2Tags.get l2Idx).pidx physBase k)).matchesPhys
        (physBase + k * m.dcLine) = true
    · rw [if_pos holds]
      have held : c.L1Holds (walkSlot m (c.l2Tags.get l2Idx).pidx physBase k)
          (physBase + k * m.dcLine) :=
        loses.l1Holds ⟨candidate_slotUnder direct, of_decide_eq_true holds⟩
      have line : (physBase + k * m.dcLine) / 128 = physBase / 128 := by
        have aligned := located.aligned
        rcases direct.dcLine with line | line <;>
          simp only [l2Line, line] at small ⊢ <;> omega
      have tellable : Tellable (physBase + k * m.dcLine) := by
        have base := located.tellable
        simp only [Tellable] at base ⊢
        omega
      obtain ⟨kept', loses', settles, still⟩ := visited s _ kept.inclusive
        (walkSlot_lt direct)
        (fun asks => kept.clean
          (flushed asks _ _ tellable ((l2Index_of_line line).trans located.slot) held))
      refine ⟨kept.trans kept', loses.trans loses', ?_⟩
      intro i within named
      by_cases last : i = k
      · subst last
        exact settles (by omega)
      · -- A line settled in an earlier round stays settled.
        rcases loses'.dc (walkSlot m (c.l2Tags.get l2Idx).pidx physBase i) with same | gone
        · exact still _ (done i (by omega) (same ▸ named))
        · omega
    · rw [if_neg holds]
      refine ⟨kept, loses, ?_⟩
      intro i within named
      by_cases last : i = k
      · subst last
        exact absurd (decide_eq_true named) holds
      · exact done i (by omega) named
  obtain ⟨kept, loses, done⟩ := walked
  refine ⟨kept, loses, ?_⟩
  intro slot physAddr tellable index holds
  obtain ⟨i, inside, isSlot, named⟩ :=
    located.walked direct kept.inclusive loses tellable index holds
  have settled := done i inside
  rw [isSlot] at settled
  exact settled named

theorem writebackWalk_leaves (direct : m.Direct) (inv : Inclusive c) (l2Idx pidx physBase : Nat) :
    let c' := c.forL1dLines l2Idx pidx physBase writebackL1dLine
    Keeps c c' ∧ LeavesTags c c' := by
  apply forL1dLines_induction direct (fun s => Keeps c s ∧ LeavesTags c s)
  · exact ⟨.refl inv, .refl c⟩
  · rintro s slot within ⟨kept, leaves⟩
    obtain ⟨kept', leaves', -⟩ := writebackL1dLine_keeps direct kept.inclusive within
    exact ⟨kept.trans kept', leaves.trans leaves'⟩

theorem dropL1iLines_eq (c : CpuCache m) (l2Idx pidx physBase : Nat) :
    ∃ icTags, c.dropL1iLines l2Idx pidx physBase = { c with icTags := icTags } := by
  refine foldl_range_invariant
    (fun _ (s : CpuCache m) => ∃ icTags, s = { c with icTags := icTags })
    ⟨c.icTags, rfl⟩ ?_
  rintro k - s ⟨icTags, rfl⟩
  dsimp only
  split
  · exact ⟨_, rfl⟩
  · exact ⟨icTags, rfl⟩

/-! ### Secondary write-back -/

def Faultless (bus : Bus) : Prop := ∀ d, bus.faults d = false

theorem Faultless.reach {bus : Bus} (faultless : Faultless bus) (start count : Nat) :
    bus.reach start count = count := by
  induction count generalizing start with
  | zero => rfl
  | succ count inductionHypothesis => simp [Bus.reach, faultless start, inductionHypothesis]

theorem Keeps.faultless (kept : Keeps c c') (faultless : Faultless c.downstream) :
    Faultless c'.downstream := by
  rw [Faultless, kept.faults]
  exact faultless

/-- A dirty secondary line reaches memory. -/
theorem Inclusive.writeOut (direct : m.Direct) (inv : Inclusive c)
    (located : AtSlot c idx physBase) (inside : idx < m.l2NumLines) (dcTags : c'.dcTags = c.dcTags)
    (dcData : c'.dcData = c.dcData)
    (l2Tags : c'.l2Tags = c.l2Tags.set idx
      { c.l2Tags.get idx with cs := (c.l2Tags.get idx).cs.cleaned })
    (l2Data : c'.l2Data = c.l2Data) (faults : c'.downstream.faults = c.downstream.faults)
    (words : ∀ d, c'.downstream.words d =
      if physBase / 8 ≤ d ∧ d < physBase / 8 + 16 then c.l2Data.get (idx * 16 + (d - physBase / 8))
      else c.downstream.words d) :
    Keeps c c' ∧ LeavesTags c c' ∧ (c'.l2Tags.get idx).cs.isDirty = false := by
  have here : c'.l2Tags.get idx =
      { c.l2Tags.get idx with cs := (c.l2Tags.get idx).cs.cleaned } := by
    rw [l2Tags, get_set_self inside]
  have there {other : Nat} (differ : other ≠ idx) : c'.l2Tags.get other = c.l2Tags.get other := by
    rw [l2Tags, get_set_of_ne differ]
  have valid : (c.l2Tags.get idx).cs ≠ .invalid := by
    have held := located.holds.1
    rwa [l2TagOf, located.slot] at held
  have leaves : LeavesTags c c' := by
    refine ⟨fun _ => by rw [dcTags], ?_, ?_, ?_⟩
    all_goals
      intro other
      by_cases same : other = idx
      · subst same
        rw [here]
        try exact iff_of_false (L2State.cleaned_proper _).1 valid
      · rw [there same]
  have aligned := located.aligned
  -- The words of the line are those of its chunks; no other word changes.
  have written {physAddr : Nat} (tellable : Tellable physAddr) (slot : m.l2Index physAddr = idx)
      (holds : c.L2Holds physAddr) :
      c'.downstream.words (physAddr / 8) = c.l2Data.get (l2Chunk m physAddr) := by
    have line := located.line direct tellable slot holds
    have place : idx * 16 + (physAddr / 8 - physBase / 8) = l2Chunk m physAddr := by
      rw [l2Chunk, slot]
      show idx * 16 + (physAddr / 8 - physBase / 8) = idx * 16 + physAddr % 128 / 8
      omega
    rw [words, if_pos (by omega), place]
  have untouched {physAddr : Nat} (outside : ¬(m.l2Index physAddr = idx ∧ c.L2Holds physAddr)) :
      c'.downstream.words (physAddr / 8) = c.downstream.words (physAddr / 8) := by
    rw [words, if_neg]
    intro within
    have line : physAddr / 128 = physBase / 128 := by omega
    have slot := (l2Index_of_line (m := m) line).trans located.slot
    refine outside ⟨slot, ?_⟩
    have held := located.holds
    rw [L2Holds, l2TagOf] at held ⊢
    rwa [l2Index_of_line line, l2Ptag_of_line line]
  refine ⟨⟨⟨by rw [dcTags]; exact inv.tagged, ?_, ?_, ?_, ?_⟩, ?_,
    by simp only [dcTags, imp_self, implies_true], faults⟩,
    leaves, by rw [here]; exact (L2State.cleaned_proper _).2.1⟩
  · intro other inside' valid'
    by_cases same : other = idx
    · subst same
      rw [here]
      obtain ⟨fits, consistent, -⟩ := inv.l2Tagged other inside valid
      exact ⟨fits, consistent, (L2State.cleaned_proper _).2.2⟩
    · rw [there same] at valid' ⊢
      exact inv.l2Tagged other inside' valid'
  · rw [leaves.l1Holds, leaves.l2Holds, leaves.slotOf]
    exact inv.included
  · rw [leaves.l1Holds, dcTags, dcData, l2Data]
    exact inv.cleanL1
  · intro physAddr tellable holds clean
    rw [leaves.l2Holds] at holds
    rw [l2Data]
    by_cases slot : m.l2Index physAddr = idx
    · rw [written tellable slot holds]
    · rw [untouched fun both => slot both.1]
      rw [l2TagOf, there slot] at clean
      exact inv.cleanL2 physAddr tellable holds clean
  · intro physAddr tellable
    refine current_congr (by rw [leaves.l2Holds]) (by rw [leaves.slotOf]) (leaves.dc _)
      (by rw [dcData]) fun _ =>
        below_congr (by rw [leaves.l2Holds]) (fun _ => by rw [l2Data]) fun absent => ?_
    exact untouched fun both => absent both.2

/-- No primary line over the slot is dirty, and neither is the slot. -/
structure Flushed (c : CpuCache m) (idx : Nat) : Prop where
  l1 : FlushedL1 c idx
  l2 : (c.l2Tags.get idx).cs.isDirty = false

theorem Inclusive.noL1_of_invalid (inv : Inclusive c) (invalid : (c.l2Tags.get idx).cs = .invalid)
    (slot physAddr : Nat) (tellable : Tellable physAddr) (index : m.l2Index physAddr = idx) :
    ¬c.L1Holds slot physAddr := by
  intro holds
  have inL2 := (inv.included slot physAddr tellable holds).1.1
  rw [l2TagOf, index] at inL2
  exact inL2 invalid

variable (direct : m.Direct)
include direct

theorem writebackL2Line_keeps (inv : Inclusive c) (faultless : Faultless c.downstream)
    (inside : idx < m.l2NumLines) :
    Keeps c (c.writebackL2Line idx) ∧ LeavesTags c (c.writebackL2Line idx) ∧
      Flushed (c.writebackL2Line idx) idx := by
  rw [writebackL2Line]
  simp only [direct.isR5k, Bool.false_eq_true, if_false]
  have located := inv.atSlot direct inside
  generalize l2TagToPhys (c.l2Tags.get idx) (idx * l2Line) = base at *
  obtain ⟨kept, leaves⟩ := writebackWalk_leaves direct inv idx (c.l2Tags.get idx).pidx base
  by_cases invalid : (c.l2Tags.get idx).cs = .invalid
  · -- The walk may write back lines of other slots; the slot stays invalid.
    have invalid' := (leaves.invalid idx).mpr invalid
    simp only [flushL2Line, invalid', L2State.isDirty, Bool.false_eq_true, if_false]
    refine ⟨kept, leaves, ⟨?_, by rw [invalid']; rfl⟩⟩
    intro slot physAddr tellable index holds
    exact absurd holds (kept.inclusive.noL1_of_invalid invalid' slot physAddr tellable index)
  · obtain ⟨-, -, flushed⟩ := walk direct inv (located invalid) writebackL1dLine
      (fun tag => tag.dirty = false) False.elim fun s slot inclusive' within _ => by
        obtain ⟨kept, leaves, clean⟩ := writebackL1dLine_keeps direct inclusive' within
        exact ⟨kept, leaves.loses, fun _ => clean, fun _ => kept.clean⟩
    generalize c.forL1dLines idx (c.l2Tags.get idx).pidx base writebackL1dLine = s at *
    have located' : AtSlot s idx base :=
      { located invalid with holds := leaves.l2Holds ▸ (located invalid).holds }
    by_cases dirty : (s.l2Tags.get idx).cs.isDirty = true
    · have out : s.flushL2Line idx base =
          { s with
            downstream :=
              (s.downstream.writeBlock base 16 fun i => s.l2Data.get (idx * 16 + i)).2
            l2Tags := s.l2Tags.set idx
              { s.l2Tags.get idx with cs := (s.l2Tags.get idx).cs.cleaned } } := by
        simp [flushL2Line, dirty, Bus.writeBlock, (kept.faultless faultless).reach,
          l2ChunksPerLine, l2Line]
      generalize s.flushL2Line idx base = t at *
      obtain ⟨kept', leaves', clean⟩ : Keeps s t ∧ LeavesTags s t ∧
          (t.l2Tags.get idx).cs.isDirty = false := by
        refine kept.inclusive.writeOut direct located' inside ?_ ?_ ?_ ?_ ?_ fun d => ?_ <;> rw [out]
        · rfl
        · simp [Bus.writeBlock, (kept.faultless faultless).reach]
      refine ⟨kept.trans kept', leaves.trans leaves', ?_, clean⟩
      intro slot physAddr tellable index holds
      exact kept'.clean (flushed slot physAddr tellable index (leaves'.l1Holds ▸ holds))
    · have still : s.flushL2Line idx base = s := by simp [flushL2Line, dirty]
      rw [still]
      exact ⟨kept, leaves, flushed, by simpa using dirty⟩

/-! ### Secondary invalidation -/

theorem invalidateL1dLine_loses {c : CpuCache m} (inside : idx < m.dcNumLines) :
    Loses c (c.invalidateL1dLine coherent idx) ∧
      ((c.invalidateL1dLine coherent idx).dcTags.get idx).ptag = 0 := by
  have room : idx < m.dcTags := by rwa [direct.dcTags, ← direct.dcNumLines]
  rw [invalidateL1dLine_eq]
  have empty : ((c.dcTags.set idx {}).get idx).ptag = 0 := by
    rw [get_set_self room]
  refine ⟨⟨?_, fun _ => rfl, fun _ => rfl, fun _ => Iff.rfl⟩, empty⟩
  intro other
  by_cases same : other = idx
  · subst same
    exact .inr empty
  · left
    rw [get_set_of_ne same]

variable (inv : Inclusive c)
include inv

/-- A clean secondary slot without primary lines over it is emptied. -/
theorem Inclusive.emptyL2 (inside : idx < m.l2NumLines)
    (clean : (c.l2Tags.get idx).cs.isDirty = false)
    (noL1 : ∀ slot physAddr, Tellable physAddr → m.l2Index physAddr = idx →
      ¬c.L1Holds slot physAddr) :
    Keeps c { c with l2Tags := c.l2Tags.set idx {} } := by
  refine inv.replaceL2 direct inside rfl rfl rfl rfl (fun _ _ => rfl) noL1
    (absurd rfl) ?_ fun _ _ _ valid => absurd rfl valid
  intro physAddr tellable index
  rw [if_neg fun both => both.1 rfl]
  by_cases holds : c.L2Holds physAddr
  · rw [below, if_pos holds, inv.cleanL2 physAddr tellable holds]
    rw [l2TagOf, index]
    exact clean
  · rw [below, if_neg holds]

theorem invalidateL2Line_keeps (inside : idx < m.l2NumLines) (flushed : Flushed c idx) :
    Keeps c (c.invalidateL2Line idx) ∧ (c.invalidateL2Line idx).l2Tags.get idx = {} := by
  rw [invalidateL2Line]
  simp only [direct.isR5k, Bool.false_eq_true, if_false]
  by_cases invalid : (c.l2Tags.get idx).cs = .invalid
  · rw [if_pos invalid]
    exact ⟨inv.emptyL2 direct inside flushed.l2 (inv.noL1_of_invalid invalid), get_set_self inside⟩
  rw [if_neg invalid]
  obtain ⟨icTags, dropped⟩ := dropL1iLines_eq c idx (c.l2Tags.get idx).pidx
    (l2TagToPhys (c.l2Tags.get idx) (idx * l2Line))
  rw [dropped]
  have kept : Keeps c { c with icTags := icTags } := inv.of_same rfl rfl rfl rfl rfl
  obtain ⟨kept', loses, gone⟩ := walk direct kept.inclusive
    (kept.inclusive.atSlot direct inside invalid) (invalidateL1dLine false) (fun _ => False)
    (fun _ : True => flushed.l1) fun s slot inclusive' within clean =>
      have ⟨loses, empty⟩ := invalidateL1dLine_loses direct within
      ⟨invalidateL1dLine_keeps direct inclusive' within (clean trivial), loses,
        fun named => named empty, fun _ => id⟩
  refine ⟨(kept.trans kept').trans ?_, get_set_self inside⟩
  refine kept'.inclusive.emptyL2 direct inside ?_ gone
  -- Dropping primary lines leaves the secondary tags alone.
  refine forL1dLines_induction direct
    (fun s => (s.l2Tags.get idx).cs.isDirty = false) ?_ ?_ _ _
  · exact flushed.l2
  · exact fun _ _ _ still => still

theorem evictL2_keeps (faultless : Faultless c.downstream) (inside : idx < m.l2NumLines) :
    Keeps c ((c.writebackL2Line idx).invalidateL2Line idx) ∧
      ((c.writebackL2Line idx).invalidateL2Line idx).l2Tags.get idx = {} := by
  obtain ⟨kept, -, flushed⟩ := writebackL2Line_keeps direct inv faultless inside
  obtain ⟨kept', empty⟩ := invalidateL2Line_keeps direct kept.inclusive inside flushed
  exact ⟨kept.trans kept', empty⟩

/-! ### Another virtual index -/

theorem evictL1d_loses (inside : idx < m.dcNumLines) :
    Loses c ((c.writebackL1dLine idx).invalidateL1dLine coherent idx) ∧
      (((c.writebackL1dLine idx).invalidateL1dLine coherent idx).dcTags.get idx).ptag = 0 := by
  obtain ⟨-, leaves, -⟩ := writebackL1dLine_keeps direct inv inside
  obtain ⟨loses, empty⟩ := invalidateL1dLine_loses direct inside
  exact ⟨leaves.loses.trans loses, empty⟩

theorem realiasL2Line_keeps (slot : m.l2Index physAddr = idx) (holds : c.L2Holds physAddr) :
    Keeps c (c.realiasL2Line idx newPidx) ∧ (c.realiasL2Line idx newPidx).L2Holds physAddr ∧
      ((c.realiasL2Line idx newPidx).l2TagOf physAddr).pidx = newPidx := by
  have inside : idx < m.l2NumLines := slot ▸ l2Index_lt direct physAddr
  rw [L2Holds, l2TagOf, slot] at holds
  rw [realiasL2Line]
  generalize based : l2TagToPhys (c.l2Tags.get idx) (idx * l2Line) = physBase
  obtain ⟨icTags, dropped⟩ := dropL1iLines_eq c idx (c.l2Tags.get idx).pidx physBase
  simp only [dropped]
  have kept : Keeps c { c with icTags := icTags } := inv.of_same rfl rfl rfl rfl rfl
  obtain ⟨kept', loses, gone⟩ := walk direct kept.inclusive
    (based ▸ kept.inclusive.atSlot direct inside holds.1)
    (fun s slot => (s.writebackL1dLine slot).invalidateL1dLine false slot) (fun _ => False)
    False.elim fun s slot inclusive' within _ => by
      obtain ⟨loses, empty⟩ := evictL1d_loses direct inclusive' within
      exact ⟨evictL1d_keeps direct inclusive' within, loses, fun named => named empty, fun _ => id⟩
  generalize forL1dLines { c with icTags := icTags } idx (c.l2Tags.get idx).pidx physBase
    (fun s slot => (s.writebackL1dLine slot).invalidateL1dLine false slot) = s at *
  have valid : (s.l2Tags.get idx).cs ≠ .invalid := by
    rw [Ne, loses.invalid]
    exact holds.1
  refine ⟨(kept.trans kept').trans ?_, ?_, ?_⟩
  · -- Only the recorded index changes, under no primary line.
    refine kept'.inclusive.replaceL2 direct inside rfl rfl rfl rfl (fun _ _ => rfl) gone
      (fun _ => kept'.inclusive.l2Tagged _ inside valid) ?_ ?_
    · intro other tellable index
      refine if_congr ?_ rfl rfl
      rw [L2Holds, l2TagOf, index]
    intro other tellable index valid' named clean
    apply kept'.inclusive.cleanL2 other tellable
    · rw [L2Holds, l2TagOf, index]
      exact ⟨valid, named⟩
    · rw [l2TagOf, index]
      exact clean
  · rw [L2Holds, l2TagOf, slot, get_set_self inside, ← holds.2]
    exact ⟨valid, loses.ptag _⟩
  · rw [l2TagOf, slot, get_set_self inside]

/-! ### Fills -/

theorem fillL2Line_keeps (faultless : Faultless c.downstream) (tellable : Tellable physAddr)
    (virtAddr : Nat) :
    (c.fillL2Line physAddr virtAddr).1 = true ∧ Keeps c (c.fillL2Line physAddr virtAddr).2 ∧
      (c.fillL2Line physAddr virtAddr).2.L2Holds physAddr ∧
      ((c.fillL2Line physAddr virtAddr).2.l2TagOf physAddr).pidx = pidx virtAddr := by
  obtain ⟨idx, slot⟩ : ∃ idx, m.l2Index physAddr = idx := ⟨_, rfl⟩
  have inside : idx < m.l2NumLines := slot ▸ l2Index_lt direct physAddr
  obtain ⟨kept, empty⟩ := evictL2_keeps direct inv faultless inside
  rw [fillL2Line, slot]
  generalize (c.writebackL2Line idx).invalidateL2Line idx = s at *
  rw [(kept.faultless faultless).reach, if_pos rfl]
  have invalid : (s.l2Tags.get idx).cs = .invalid := by rw [empty]
  refine ⟨rfl, kept.trans ?_, ?_, ?_⟩
  · have source {other : Nat} (line : other / 128 = physAddr / 128) :
        (s.l2Data.copyIn (idx * l2ChunksPerLine) l2ChunksPerLine
          fun i => s.downstream.words (alignDown physAddr l2Line / 8 + i)).get
            (l2Chunk m other) = s.downstream.words (other / 8) := by
      have chunk : l2Chunk m other = idx * 16 + other % 128 / 8 := by
        rw [l2Chunk, l2Index_of_line line, slot]
        rfl
      have inLine : idx * l2ChunksPerLine ≤ l2Chunk m other ∧
          l2Chunk m other < idx * l2ChunksPerLine + l2ChunksPerLine := by
        simp only [l2ChunksPerLine, l2Line, chunk]
        omega
      have place : alignDown physAddr l2Line / 8 + (l2Chunk m other - idx * l2ChunksPerLine) =
          other / 8 := by
        simp only [l2ChunksPerLine, l2Line, alignDown, chunk]
        omega
      rw [get_copyIn (l2Chunk_lt direct), if_pos inLine, place]
    have held {other : Nat} (tellable' : Tellable other) (slot' : m.l2Index other = idx)
        (tag : l2Ptag physAddr = l2Ptag other) : other / 128 = physAddr / 128 :=
      l2Line_of_slot direct tellable' tellable (slot'.trans slot.symm) tag.symm
    refine kept.inclusive.replaceL2 direct inside rfl rfl rfl rfl ?_
      (kept.inclusive.noL1_of_invalid invalid) ?_ ?_ ?_
    · intro other differ
      have outside : ¬(idx * l2ChunksPerLine ≤ l2Chunk m other ∧
          l2Chunk m other < idx * l2ChunksPerLine + l2ChunksPerLine) := by
        simp only [l2Chunk, l2ChunksPerLine, l2Line]
        omega
      dsimp only [putL2]
      rw [get_copyIn_of_outside outside]
    · intro _
      subst slot
      refine ⟨?_, ?_, rfl⟩ <;>
        simp only [L2Tag.filled, l2Ptag, l2Index, direct.l2NumLines, l2Line] <;> omega
    · intro other tellable' slot'
      have absent : ¬s.L2Holds other := by
        rintro ⟨valid, -⟩
        rw [l2TagOf, slot'] at valid
        exact valid invalid
      rw [below]
      split
      next both => exact source (held tellable' slot' both.2)
      · rfl
    · exact fun other tellable' slot' _ tag _ => source (held tellable' slot' tag)
  · rw [L2Holds, l2TagOf, slot, get_set_self inside]
    exact ⟨L2State.noConfusion, rfl⟩
  · rw [l2TagOf, slot, get_set_self inside]
    rfl

end Iris.Cpu.Cache
