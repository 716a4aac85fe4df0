import Iris.Cpu.Cache.Slots
import Iris.Library.Run

/-!
Owns the invariant of the direct-mapped caches: every valid primary data line
sits in the secondary cache under the virtual index recorded there, a clean
line agrees with the level below, and the doubleword an address currently has
is found by looking from the top. Every movement of a line keeps the invariant
and the current doubleword of every address.
-/

namespace Iris.Cpu.Cache

open CpuCache Table

variable {m : Model}

/-! ### What an address currently holds -/

namespace CpuCache

def l2TagOf (c : CpuCache m) (physAddr : Nat) : L2Tag :=
  c.l2Tags.get (m.l2Index physAddr)

def L2Holds (c : CpuCache m) (physAddr : Nat) : Prop :=
  (c.l2TagOf physAddr).cs ≠ .invalid ∧ (c.l2TagOf physAddr).ptag = l2Ptag physAddr
deriving Decidable

def L1Holds (c : CpuCache m) (idx physAddr : Nat) : Prop :=
  Candidate m idx physAddr ∧ (c.dcTags.get idx).ptag = alignDown physAddr 0x1000 + 1

/-- The doubleword at `physAddr` from the secondary cache down. -/
def below (c : CpuCache m) (physAddr : Nat) : BitVec 64 :=
  if c.L2Holds physAddr then c.l2Data.get (l2Chunk m physAddr)
  else c.downstream.words (physAddr / 8)

/-- The primary slot the line of `physAddr` has under its recorded index. -/
def slotOf (c : CpuCache m) (physAddr : Nat) : Nat :=
  slotUnder m (c.l2TagOf physAddr).pidx physAddr

/-- The doubleword at `physAddr`, from the top down. -/
def current (c : CpuCache m) (physAddr : Nat) : BitVec 64 :=
  if c.L2Holds physAddr ∧
      (c.dcTags.get (c.slotOf physAddr)).ptag = alignDown physAddr 0x1000 + 1 then
    c.dcData.get (dcChunk m (c.slotOf physAddr) physAddr)
  else c.below physAddr

end CpuCache

variable {c c' : CpuCache m} {idx physAddr : Nat}

/-! ### The invariant -/

structure Inclusive (c : CpuCache m) : Prop where
  /-- A primary tag is empty or names a page, and only the latter is dirty. -/
  tagged : ∀ idx < m.dcNumLines, (c.dcTags.get idx).ptag = 0 ∧ (c.dcTags.get idx).dirty = false ∨
    ∃ page < 2 ^ 24, (c.dcTags.get idx).ptag = page * 0x1000 + 1
  /-- A valid secondary tag belongs to its slot, and a write makes it dirty. -/
  l2Tagged : ∀ idx < m.l2NumLines, (c.l2Tags.get idx).cs ≠ .invalid →
    (c.l2Tags.get idx).ptag < 2 ^ 19 ∧ (c.l2Tags.get idx).ptag % 8 = idx / 1024 ∧
      (c.l2Tags.get idx).cs.written.isDirty = true
  /-- A primary line is in the secondary cache, under the index recorded there. -/
  included : ∀ idx physAddr, Tellable physAddr → c.L1Holds idx physAddr →
    c.L2Holds physAddr ∧ c.slotOf physAddr = idx
  /-- A clean primary line agrees with the secondary cache. -/
  cleanL1 : ∀ idx physAddr, Tellable physAddr → c.L1Holds idx physAddr →
    (c.dcTags.get idx).dirty = false →
      c.dcData.get (dcChunk m idx physAddr) = c.l2Data.get (l2Chunk m physAddr)
  /-- A clean secondary line agrees with memory. -/
  cleanL2 : ∀ physAddr, Tellable physAddr → c.L2Holds physAddr →
    (c.l2TagOf physAddr).cs.isDirty = false →
      c.l2Data.get (l2Chunk m physAddr) = c.downstream.words (physAddr / 8)

/-- A movement of lines: the invariant is kept, no address changes its
doubleword, no line becomes dirty and the bus is the same device. -/
structure Keeps (c c' : CpuCache m) : Prop where
  inclusive : Inclusive c'
  current : ∀ physAddr, Tellable physAddr → c'.current physAddr = c.current physAddr
  cleaner : ∀ idx, (c'.dcTags.get idx).dirty = true → (c.dcTags.get idx).dirty = true
  faults : c'.downstream.faults = c.downstream.faults

theorem Keeps.refl (inv : Inclusive c) : Keeps c c :=
  ⟨inv, fun _ _ => rfl, fun _ => id, rfl⟩

theorem Keeps.trans {a b : CpuCache m} (first : Keeps a b) (second : Keeps b c) : Keeps a c where
  inclusive := second.inclusive
  current physAddr tellable :=
    (second.current physAddr tellable).trans (first.current physAddr tellable)
  cleaner idx dirty := first.cleaner idx (second.cleaner idx dirty)
  faults := second.faults.trans first.faults

theorem Keeps.clean (kept : Keeps c c') (clean : (c.dcTags.get idx).dirty = false) :
    (c'.dcTags.get idx).dirty = false := by
  by_contra dirty
  have wasDirty := kept.cleaner idx (by simpa using dirty)
  rw [clean] at wasDirty
  cases wasDirty

theorem below_congr (l2Holds : c'.L2Holds physAddr ↔ c.L2Holds physAddr)
    (data : c.L2Holds physAddr →
      c'.l2Data.get (l2Chunk m physAddr) = c.l2Data.get (l2Chunk m physAddr))
    (memory : ¬c.L2Holds physAddr →
      c'.downstream.words (physAddr / 8) = c.downstream.words (physAddr / 8)) :
    c'.below physAddr = c.below physAddr := by
  by_cases held : c.L2Holds physAddr
  · rw [below, below, if_pos held, if_pos (l2Holds.mpr held), data held]
  · rw [below, below, if_neg held, if_neg (mt l2Holds.mp held), memory held]

/-- The tags stay, and so does the data that decides. -/
theorem current_congr (l2Holds : c'.L2Holds physAddr ↔ c.L2Holds physAddr)
    (slot : c'.slotOf physAddr = c.slotOf physAddr)
    (tag : (c'.dcTags.get (c.slotOf physAddr)).ptag = (c.dcTags.get (c.slotOf physAddr)).ptag)
    (top : c'.dcData.get (dcChunk m (c.slotOf physAddr) physAddr) =
      c.dcData.get (dcChunk m (c.slotOf physAddr) physAddr))
    (rest : (c.L2Holds physAddr →
        (c.dcTags.get (c.slotOf physAddr)).ptag ≠ alignDown physAddr 0x1000 + 1) →
      c'.below physAddr = c.below physAddr) :
    c'.current physAddr = c.current physAddr := by
  rw [current, current, slot, tag]
  by_cases held : c.L2Holds physAddr ∧
      (c.dcTags.get (c.slotOf physAddr)).ptag = alignDown physAddr 0x1000 + 1
  · rw [if_pos held, if_pos ⟨l2Holds.mpr held.1, held.2⟩, top]
  · rw [if_neg held, if_neg (fun both => held ⟨l2Holds.mp both.1, both.2⟩)]
    exact rest fun inL2 named => held ⟨inL2, named⟩

theorem Inclusive.current_of_l1 (inv : Inclusive c) (tellable : Tellable physAddr)
    (holds : c.L1Holds idx physAddr) :
    c.current physAddr = c.dcData.get (dcChunk m idx physAddr) := by
  obtain ⟨inL2, slot⟩ := inv.included idx physAddr tellable holds
  rw [current, slot, if_pos ⟨inL2, holds.2⟩]

theorem current_of_no_l1 (direct : m.Direct) (absent : ∀ idx, ¬c.L1Holds idx physAddr) :
    c.current physAddr = c.below physAddr := by
  rw [current, if_neg]
  rintro ⟨-, tag⟩
  exact absent _ ⟨candidate_slotUnder direct, tag⟩

theorem Inclusive.current_of_clean (direct : m.Direct) (inv : Inclusive c)
    (tellable : Tellable physAddr)
    (clean : ∀ idx, c.L1Holds idx physAddr → (c.dcTags.get idx).dirty = false) :
    c.current physAddr = c.below physAddr := by
  by_cases held : ∃ idx, c.L1Holds idx physAddr
  · obtain ⟨idx, holds⟩ := held
    rw [inv.current_of_l1 tellable holds,
      inv.cleanL1 idx physAddr tellable holds (clean idx holds), below,
      if_pos (inv.included idx physAddr tellable holds).1]
  · exact current_of_no_l1 direct fun idx holds => held ⟨idx, holds⟩

/-! ### Changing one slot -/

/-- The invariant looks at the data caches and memory only. -/
theorem Inclusive.of_same (inv : Inclusive c) (dcTags : c'.dcTags = c.dcTags)
    (dcData : c'.dcData = c.dcData) (l2Tags : c'.l2Tags = c.l2Tags) (l2Data : c'.l2Data = c.l2Data)
    (downstream : c'.downstream = c.downstream) : Keeps c c' := by
  cases c
  subst dcTags dcData l2Tags l2Data downstream
  exact ⟨{ inv with }, fun _ _ => rfl, fun _ => id, rfl⟩

/-- A clean primary line makes room for nothing, or for a clean copy of a line
of the secondary cache. -/
theorem Inclusive.replaceL1 (direct : m.Direct) (inv : Inclusive c)
    (inside : idx < m.dcNumLines) (dcTags : c'.dcTags = c.dcTags.set idx tag)
    (l2Tags : c'.l2Tags = c.l2Tags) (l2Data : c'.l2Data = c.l2Data)
    (downstream : c'.downstream = c.downstream) (others : ∀ other physAddr, other ≠ idx →
      c'.dcData.get (dcChunk m other physAddr) = c.dcData.get (dcChunk m other physAddr))
    (oldClean : (c.dcTags.get idx).dirty = false) (newClean : tag.dirty = false)
    (fresh : tag.ptag = 0 ∨ ∃ filled, Tellable filled ∧ Candidate m idx filled ∧
      tag.ptag = alignDown filled 0x1000 + 1 ∧ c.L2Holds filled ∧ c.slotOf filled = idx ∧
      ∀ physAddr, SameLine m physAddr filled →
        c'.dcData.get (dcChunk m idx physAddr) = c.l2Data.get (l2Chunk m physAddr)) :
    Keeps c c' := by
  have room : idx < m.dcTags := by rwa [direct.dcTags, ← direct.dcNumLines]
  have here : c'.dcTags.get idx = tag := by rw [dcTags, get_set_self room]
  have there {other : Nat} (differ : other ≠ idx) : c'.dcTags.get other = c.dcTags.get other := by
    rw [dcTags, get_set_of_ne differ]
  have l2TagOf : c'.l2TagOf = c.l2TagOf := by funext; rw [l2TagOf, l2Tags]; rfl
  have l2Holds : c'.L2Holds = c.L2Holds := by funext; rw [L2Holds, l2TagOf]; rfl
  have slotOf : c'.slotOf = c.slotOf := by funext; rw [slotOf, l2TagOf]; rfl
  have otherHolds {other physAddr : Nat} (differ : other ≠ idx) :
      c'.L1Holds other physAddr ↔ c.L1Holds other physAddr := by
    rw [L1Holds, there differ]
    rfl
  -- What the slot now holds is part of the line it was filled with.
  have filledHolds {physAddr : Nat} (holds : c'.L1Holds idx physAddr) :
      (c.L2Holds physAddr ∧ c.slotOf physAddr = idx) ∧
        c'.dcData.get (dcChunk m idx physAddr) = c.l2Data.get (l2Chunk m physAddr) := by
    obtain ⟨candidate, named⟩ := holds
    rw [here] at named
    rcases fresh with empty | ⟨filled, -, candidate', page, inL2, slot, data⟩
    · omega
    have same := candidate.sameLine direct candidate' (by omega)
    have line := same.l2Line direct
    have sameTag : c.l2TagOf physAddr = c.l2TagOf filled := by
      rw [CpuCache.l2TagOf, CpuCache.l2TagOf, l2Index_of_line line]
    refine ⟨⟨?_, ?_⟩, data physAddr same⟩
    · rw [L2Holds, sameTag, l2Ptag_of_line line]
      exact inL2
    · rw [← slot, CpuCache.slotOf, CpuCache.slotOf, sameTag, same.slotUnder direct]
  have inclusive' : Inclusive c' := by
    refine ⟨?_, by rw [l2Tags]; exact inv.l2Tagged, ?_, ?_, ?_⟩
    · intro other inside'
      by_cases same : other = idx
      · subst same
        rw [here]
        rcases fresh with empty | ⟨filled, tellable, -, page, -⟩
        · exact .inl ⟨empty, newClean⟩
        · right
          refine ⟨filled / 0x1000, ?_, by rw [page, alignDown]⟩
          simp only [Tellable] at tellable
          omega
      · rw [there same]
        exact inv.tagged other inside'
    · intro other physAddr tellable holds
      rw [l2Holds, slotOf]
      by_cases same : other = idx
      · subst same
        exact (filledHolds holds).1
      · exact inv.included other physAddr tellable ((otherHolds same).mp holds)
    · intro other physAddr tellable holds clean
      rw [l2Data]
      by_cases same : other = idx
      · subst same
        exact (filledHolds holds).2
      · rw [others other physAddr same]
        rw [there same] at clean
        exact inv.cleanL1 other physAddr tellable ((otherHolds same).mp holds) clean
    · rw [l2Data, downstream, l2Holds, l2TagOf]
      exact inv.cleanL2
  refine ⟨inclusive', fun physAddr tellable => ?_, fun other dirty => ?_, by rw [downstream]⟩
  · by_cases elsewhere : ∃ other, other ≠ idx ∧ c.L1Holds other physAddr
    · obtain ⟨other, differ, holds⟩ := elsewhere
      rw [inv.current_of_l1 tellable holds,
        inclusive'.current_of_l1 tellable ((otherHolds differ).mpr holds),
        others other physAddr differ]
    · have onlyHere (other : Nat) (holds : c.L1Holds other physAddr) : other = idx := by
        by_contra differ
        exact elsewhere ⟨other, differ, holds⟩
      have onlyHere' (other : Nat) (holds : c'.L1Holds other physAddr) : other = idx := by
        by_contra differ
        exact elsewhere ⟨other, differ, (otherHolds differ).mp holds⟩
      rw [inv.current_of_clean direct tellable
          fun other holds => by rw [onlyHere other holds]; exact oldClean,
        inclusive'.current_of_clean direct tellable
          fun other holds => by rw [onlyHere' other holds, here]; exact newClean]
      exact below_congr (by rw [l2Holds]) (fun _ => by rw [l2Data]) fun _ => by rw [downstream]
  · by_cases same : other = idx
    · subst same
      rw [here, newClean] at dirty
      cases dirty
    · rwa [there same] at dirty

/-- A secondary slot without primary lines over it takes another tag and data
that say the same of every address of the slot. -/
theorem Inclusive.replaceL2 (direct : m.Direct) (inv : Inclusive c)
    (inside : idx < m.l2NumLines) (dcTags : c'.dcTags = c.dcTags) (dcData : c'.dcData = c.dcData)
    (l2Tags : c'.l2Tags = c.l2Tags.set idx tag) (downstream : c'.downstream = c.downstream)
    (others : ∀ physAddr, m.l2Index physAddr ≠ idx →
      c'.l2Data.get (l2Chunk m physAddr) = c.l2Data.get (l2Chunk m physAddr))
    (noL1 : ∀ slot physAddr, Tellable physAddr → m.l2Index physAddr = idx →
      ¬c.L1Holds slot physAddr) (proper : tag.cs ≠ .invalid →
      tag.ptag < 2 ^ 19 ∧ tag.ptag % 8 = idx / 1024 ∧ tag.cs.written.isDirty = true)
    (same : ∀ physAddr, Tellable physAddr → m.l2Index physAddr = idx →
      (if tag.cs ≠ .invalid ∧ tag.ptag = l2Ptag physAddr then c'.l2Data.get (l2Chunk m physAddr)
        else c.downstream.words (physAddr / 8)) = c.below physAddr)
    (clean : ∀ physAddr, Tellable physAddr → m.l2Index physAddr = idx → tag.cs ≠ .invalid →
      tag.ptag = l2Ptag physAddr → tag.cs.isDirty = false →
      c'.l2Data.get (l2Chunk m physAddr) = c.downstream.words (physAddr / 8)) :
    Keeps c c' := by
  have here {physAddr : Nat} (slot : m.l2Index physAddr = idx) : c'.l2TagOf physAddr = tag := by
    rw [l2TagOf, l2Tags, slot, get_set_self inside]
  have there {physAddr : Nat} (differ : m.l2Index physAddr ≠ idx) :
      c'.l2TagOf physAddr = c.l2TagOf physAddr := by
    rw [l2TagOf, l2Tags, get_set_of_ne differ]
    rfl
  have l1Holds : c'.L1Holds = c.L1Holds := by
    funext
    rw [L1Holds, dcTags]
    rfl
  have elsewhere {slot physAddr : Nat} (tellable : Tellable physAddr)
      (holds : c.L1Holds slot physAddr) : m.l2Index physAddr ≠ idx :=
    fun isHere => noL1 slot physAddr tellable isHere holds
  have otherHolds {physAddr : Nat} (differ : m.l2Index physAddr ≠ idx) :
      c'.L2Holds physAddr ↔ c.L2Holds physAddr := by
    rw [L2Holds, there differ]
    rfl
  have inclusive' : Inclusive c' := by
    refine ⟨by rw [dcTags]; exact inv.tagged, ?_, ?_, ?_, ?_⟩
    · intro other inside' valid
      by_cases isHere : other = idx
      · subst isHere
        rw [l2Tags, get_set_self inside] at valid ⊢
        exact proper valid
      · rw [l2Tags, get_set_of_ne isHere] at valid ⊢
        exact inv.l2Tagged other inside' valid
    · intro slot physAddr tellable holds
      rw [l1Holds] at holds
      have differ := elsewhere tellable holds
      rw [otherHolds differ, slotOf, there differ]
      exact inv.included slot physAddr tellable holds
    · intro slot physAddr tellable holds
      rw [l1Holds] at holds
      rw [dcTags, dcData, others physAddr (elsewhere tellable holds)]
      exact inv.cleanL1 slot physAddr tellable holds
    · intro physAddr tellable holds clean'
      rw [downstream]
      by_cases isHere : m.l2Index physAddr = idx
      · rw [here isHere] at clean'
        rw [L2Holds, here isHere] at holds
        exact clean physAddr tellable isHere holds.1 holds.2 clean'
      · rw [there isHere] at clean'
        rw [others physAddr isHere]
        exact inv.cleanL2 physAddr tellable ((otherHolds isHere).mp holds) clean'
  refine ⟨inclusive', ?_, by simp only [dcTags, imp_self, implies_true], by rw [downstream]⟩
  intro physAddr tellable
  by_cases isHere : m.l2Index physAddr = idx
  · have absent (slot : Nat) := noL1 slot physAddr tellable isHere
    rw [current_of_no_l1 direct absent, current_of_no_l1 direct (l1Holds ▸ absent),
      ← same physAddr tellable isHere]
    simp only [below, L2Holds, here isHere, downstream]
  · refine current_congr (otherHolds isHere) ?_ (by rw [dcTags]) (by rw [dcData]) fun _ =>
      below_congr (otherHolds isHere) (fun _ => others physAddr isHere) fun _ => by rw [downstream]
    rw [slotOf, there isHere]
    rfl

/-! ### Writing back -/

theorem L2State.written_eq_invalid (state : L2State) :
    state.written = .invalid ↔ state = .invalid := by
  cases state <;> simp [L2State.written]

theorem L2State.written_written (state : L2State) : state.written.written = state.written := by
  cases state <;> rfl

theorem L2State.cleaned_proper (state : L2State) :
    state.cleaned ≠ .invalid ∧ state.cleaned.isDirty = false ∧
      state.cleaned.written.isDirty = true := by
  cases state <;> simp [L2State.cleaned, L2State.isDirty, L2State.written]

theorem Inclusive.l1Line (direct : m.Direct) (inv : Inclusive c) (inside : idx < m.dcNumLines)
    (dirty : (c.dcTags.get idx).dirty = true) :
    Tellable (l1dTagToPhys (c.dcTags.get idx) (idx * m.dcLine)) ∧
      c.L1Holds idx (l1dTagToPhys (c.dcTags.get idx) (idx * m.dcLine)) ∧
      l1dTagToPhys (c.dcTags.get idx) (idx * m.dcLine) % m.dcLine = 0 := by
  rcases inv.tagged idx inside with ⟨-, clean⟩ | ⟨page, small, named⟩
  · rw [clean] at dirty
    cases dirty
  have lineAddr : (c.dcTags.get idx).lineAddr = page * 0x1000 := by
    rw [L1DTag.lineAddr, named, alignDown]
    omega
  rw [L1Holds, Candidate, l1dTagToPhys]
  rcases direct.dcLine with line | line <;>
    simp only [Tellable, alignDown, line, direct.dcNumLines] at inside ⊢ <;> omega

/-- Every slot keeps the line it holds. -/
structure LeavesTags (c c' : CpuCache m) : Prop where
  dc : ∀ idx, (c'.dcTags.get idx).ptag = (c.dcTags.get idx).ptag
  ptag : ∀ idx, (c'.l2Tags.get idx).ptag = (c.l2Tags.get idx).ptag
  pidx : ∀ idx, (c'.l2Tags.get idx).pidx = (c.l2Tags.get idx).pidx
  invalid : ∀ idx, (c'.l2Tags.get idx).cs = .invalid ↔ (c.l2Tags.get idx).cs = .invalid

theorem LeavesTags.refl (c : CpuCache m) : LeavesTags c c :=
  ⟨fun _ => rfl, fun _ => rfl, fun _ => rfl, fun _ => Iff.rfl⟩

theorem LeavesTags.trans {a b : CpuCache m} (first : LeavesTags a b) (second : LeavesTags b c) :
    LeavesTags a c where
  dc idx := (second.dc idx).trans (first.dc idx)
  ptag idx := (second.ptag idx).trans (first.ptag idx)
  pidx idx := (second.pidx idx).trans (first.pidx idx)
  invalid idx := (second.invalid idx).trans (first.invalid idx)

theorem LeavesTags.l1Holds (leaves : LeavesTags c c') : c'.L1Holds = c.L1Holds := by
  funext
  rw [L1Holds, leaves.dc]
  rfl

theorem LeavesTags.l2Holds (leaves : LeavesTags c c') : c'.L2Holds = c.L2Holds := by
  funext
  rw [L2Holds, L2Holds, l2TagOf, l2TagOf, leaves.ptag, Ne, leaves.invalid]

theorem LeavesTags.slotOf (leaves : LeavesTags c c') : c'.slotOf = c.slotOf := by
  funext
  rw [CpuCache.slotOf, CpuCache.slotOf, l2TagOf, l2TagOf, leaves.pidx]

/-- The dirty primary line of `pushed` goes down to the secondary cache. -/
structure PushedDown (c c' : CpuCache m) (idx pushed : Nat) : Prop where
  tellable : Tellable pushed
  held : c.L1Holds idx pushed
  aligned : pushed % m.dcLine = 0
  dcTags : c'.dcTags = c.dcTags.set idx (c.dcTags.get idx).demoted
  dcData : c'.dcData = c.dcData
  l2Tags : c'.l2Tags = c.l2Tags.set (m.l2Index pushed)
    { c.l2TagOf pushed with cs := (c.l2TagOf pushed).cs.written }
  l2Data : c'.l2Data = c.l2Data.copyIn (l2Chunk m pushed) m.dcChunksPerLine (c.dcLineData idx)
  downstream : c'.downstream = c.downstream

namespace PushedDown

variable {pushed : Nat} (moved : PushedDown c c' idx pushed) (direct : m.Direct) (inv : Inclusive c)
include moved

theorem dcTag_of_ne (differ : other ≠ idx) : c'.dcTags.get other = c.dcTags.get other := by
  rw [moved.dcTags, get_set_of_ne differ]

theorem l2Tag_of_ne (differ : other ≠ m.l2Index pushed) :
    c'.l2Tags.get other = c.l2Tags.get other := by
  rw [moved.l2Tags, get_set_of_ne differ]

include direct

theorem dcTag : c'.dcTags.get idx = (c.dcTags.get idx).demoted := by
  have room : idx < m.dcTags := by rw [direct.dcTags, ← direct.dcNumLines]; exact moved.held.1.1
  rw [moved.dcTags, get_set_self room]

theorem l2Tag : c'.l2Tags.get (m.l2Index pushed) =
    { c.l2TagOf pushed with cs := (c.l2TagOf pushed).cs.written } := by
  rw [moved.l2Tags, get_set_self (l2Index_lt direct pushed)]

theorem leavesTags : LeavesTags c c' := by
  refine ⟨?_, ?_, ?_, ?_⟩
  · intro other
    by_cases same : other = idx
    · subst same
      rw [moved.dcTag direct]
      rfl
    · rw [moved.dcTag_of_ne same]
  all_goals
    intro other
    by_cases same : other = m.l2Index pushed
    · subst same
      rw [moved.l2Tag direct]
      first
        | rfl
        | exact L2State.written_eq_invalid _
    · rw [moved.l2Tag_of_ne same]

/-- Every address of the pushed line is in the pushed slot. -/
theorem l1Holds (same : SameLine m physAddr pushed) : c.L1Holds idx physAddr :=
  ⟨moved.held.1.of_sameLine direct same.symm, by rw [moved.held.2, same.page direct]⟩

theorem l2Data_of_sameLine (same : SameLine m physAddr pushed) :
    c'.l2Data.get (l2Chunk m physAddr) = c.dcData.get (dcChunk m idx physAddr) := by
  rw [moved.l2Data, get_copyIn (l2Chunk_lt direct),
    if_pos ((l2Chunk_mem direct (same.l2Line direct) moved.aligned).mpr same), dcLineData,
    l2Chunk_offset direct same moved.aligned]

include inv

/-- Only the chunks of the pushed line are overwritten. -/
theorem l2Data_of_other (tellable : Tellable physAddr) (inL2 : c.L2Holds physAddr)
    (differ : ¬SameLine m physAddr pushed) :
    c'.l2Data.get (l2Chunk m physAddr) = c.l2Data.get (l2Chunk m physAddr) := by
  have aligned := moved.aligned
  have pushedInL2 := (inv.included idx pushed moved.tellable moved.held).1
  rw [moved.l2Data, get_copyIn_of_outside]
  intro inside
  have slot : m.l2Index physAddr = m.l2Index pushed := by
    rcases direct.dcLine with line | line <;>
      simp only [line, l2Chunk, Model.l2ChunksPerLine, Model.l2Line] at * <;> omega
  have tag : l2Ptag physAddr = l2Ptag pushed := by
    rw [← inL2.2, ← pushedInL2.2, l2TagOf, l2TagOf, slot]
  have line := l2Line_of_slot direct tellable moved.tellable slot tag
  exact differ ((l2Chunk_mem direct line aligned).mp inside)

theorem inclusive : Inclusive c' := by
  have leaves := moved.leavesTags direct
  have proper := inv.l2Tagged _ (l2Index_lt direct pushed)
    (inv.included idx pushed moved.tellable moved.held).1.1
  refine ⟨?_, ?_, ?_, ?_, ?_⟩
  · intro other inside
    rw [leaves.dc]
    rcases inv.tagged other inside with ⟨empty, clean⟩ | named
    · left
      refine ⟨empty, ?_⟩
      by_cases same : other = idx
      · subst same
        rw [moved.dcTag direct]
        rfl
      · rwa [moved.dcTag_of_ne same]
    · exact .inr named
  · intro other inside valid
    by_cases same : other = m.l2Index pushed
    · subst same
      rw [moved.l2Tag direct]
      exact ⟨proper.1, proper.2.1, by rw [L2State.written_written]; exact proper.2.2⟩
    · rw [moved.l2Tag_of_ne same] at valid ⊢
      exact inv.l2Tagged other inside valid
  · rw [leaves.l1Holds, leaves.l2Holds, leaves.slotOf]
    exact inv.included
  · intro other physAddr tellable holds clean
    rw [leaves.l1Holds] at holds
    rw [moved.dcData]
    obtain ⟨inL2, slot⟩ := inv.included other physAddr tellable holds
    by_cases same : SameLine m physAddr pushed
    · have isPushed : other = idx := by
        rw [← slot, (inv.included idx physAddr tellable (moved.l1Holds direct same)).2]
      rw [moved.l2Data_of_sameLine direct same, isPushed]
    have differ : other ≠ idx := by
      rintro rfl
      have held := moved.held
      exact same (holds.1.sameLine direct held.1 (by have := holds.2; have := held.2; omega))
    rw [moved.dcTag_of_ne differ] at clean
    rw [moved.l2Data_of_other direct inv tellable inL2 same]
    exact inv.cleanL1 other physAddr tellable holds clean
  · intro physAddr tellable holds clean
    rw [leaves.l2Holds] at holds
    rw [moved.downstream]
    by_cases slot : m.l2Index physAddr = m.l2Index pushed
    · -- The written line is dirty.
      rw [l2TagOf, slot, moved.l2Tag direct] at clean
      exact absurd proper.2.2 (by rw [← l2TagOf, clean]; exact Bool.false_ne_true)
    · have differ : ¬SameLine m physAddr pushed :=
        fun same => slot (l2Index_of_line (same.l2Line direct))
      rw [moved.l2Data_of_other direct inv tellable holds differ]
      rw [l2TagOf, moved.l2Tag_of_ne slot] at clean
      exact inv.cleanL2 physAddr tellable holds clean

theorem keeps : Keeps c c' ∧ LeavesTags c c' ∧ (c'.dcTags.get idx).dirty = false := by
  have leaves := moved.leavesTags direct
  have here := moved.dcTag direct
  refine ⟨⟨moved.inclusive direct inv, ?_, ?_, by rw [moved.downstream]⟩, leaves,
    by rw [here]; rfl⟩
  · intro physAddr tellable
    refine current_congr (by rw [leaves.l2Holds]) (by rw [leaves.slotOf]) (leaves.dc _)
      (by rw [moved.dcData]) fun absent => ?_
    refine below_congr (by rw [leaves.l2Holds]) (fun inL2 => ?_) fun _ => by rw [moved.downstream]
    apply moved.l2Data_of_other direct inv tellable inL2
    intro same
    have holds := moved.l1Holds direct same
    have slot := (inv.included idx physAddr tellable holds).2
    exact absent inL2 (by rw [slot]; exact holds.2)
  · intro other dirty
    by_cases same : other = idx
    · subst same
      rw [here] at dirty
      cases dirty
    · rwa [moved.dcTag_of_ne same] at dirty

end PushedDown

variable (direct : m.Direct) (inv : Inclusive c)
include direct inv

theorem writebackL1dLine_keeps (inside : idx < m.dcNumLines) :
    Keeps c (c.writebackL1dLine idx) ∧ LeavesTags c (c.writebackL1dLine idx) ∧
      ((c.writebackL1dLine idx).dcTags.get idx).dirty = false := by
  by_cases dirty : (c.dcTags.get idx).dirty = true
  · obtain ⟨tellable, held, aligned⟩ := inv.l1Line direct inside dirty
    obtain ⟨inL2, -⟩ := inv.included idx _ tellable held
    generalize place : l1dTagToPhys (c.dcTags.get idx) (idx * m.dcLine) = line at *
    have moved : c.writebackL1dLine idx =
        { c.putL2 (l2Chunk m line) m.dcChunksPerLine (c.dcLineData idx) with
          l2Tags := c.l2Tags.set (m.l2Index line)
            { c.l2TagOf line with cs := (c.l2TagOf line).cs.written }
          dcTags := c.dcTags.set idx (c.dcTags.get idx).demoted } := by
      rw [writebackL1dLine, place]
      simp only [dirty, if_true, direct.isR5k, false_and, if_false, not_false_eq_true, true_and,
        Bool.false_eq_true]
      exact if_neg fun differ => differ inL2.2
    rw [moved]
    exact PushedDown.keeps ⟨tellable, held, aligned, rfl, rfl, rfl, rfl, rfl⟩ direct inv
  · rw [writebackL1dLine]
    simp only [dirty, if_false, Bool.false_eq_true]
    exact ⟨.refl inv, .refl c, trivial⟩

theorem invalidateL1dLine_keeps (inside : idx < m.dcNumLines)
    (clean : (c.dcTags.get idx).dirty = false) : Keeps c (c.invalidateL1dLine coherent idx) := by
  rw [invalidateL1dLine_eq]
  exact inv.replaceL1 direct inside rfl rfl rfl rfl (fun _ _ _ => rfl) clean rfl (.inl rfl)

/-- Written back and dropped: the slot is empty and no other slot gains a line. -/
theorem evictL1d_keeps (inside : idx < m.dcNumLines) :
    Keeps c ((c.writebackL1dLine idx).invalidateL1dLine coherent idx) := by
  obtain ⟨kept, -, clean⟩ := writebackL1dLine_keeps direct inv inside
  exact kept.trans (invalidateL1dLine_keeps direct kept.inclusive inside clean)

end Iris.Cpu.Cache
