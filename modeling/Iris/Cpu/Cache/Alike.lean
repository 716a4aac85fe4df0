import Iris.Cpu.Cache.Slots
import Iris.Cpu.Cache.Snapshot

/-!
Owns caches that answer alike: their tags, data, replacement bits and memory
are the same, and so are the words of their valid instruction lines wherever
such words can be written back. Every operation takes two such caches to two
such caches with one answer. Along the way it records which physical addresses
the primary tags name.
-/

namespace Iris.Cpu.Cache

open CpuCache Library.Run BigEndian List Model Table

variable {m : Model}

/-! ### The relation -/

variable {α : Type} (l2Idx : Nat) (val : BitVec 64)

/-- A primary instruction tag is empty or names the page of a named address. -/
def L1ITag.Names (Named : Nat → Prop) (tag : L1ITag) : Prop :=
  tag.ptag = 0 ∨ ∃ physAddr, Named physAddr ∧ tag.ptag = alignDown physAddr 0x1000 + 1

/-- A primary data tag is empty or names the page of a named address. -/
def L1DTag.Names (Named : Nat → Prop) (tag : L1DTag) : Prop :=
  tag.ptag = 0 ∧ tag.cs = .invalid ∨
    ∃ physAddr, Named physAddr ∧ tag.ptag = alignDown physAddr 0x1000 + 1 ∧ tag.cs ≠ .invalid

/-- The R10000 has no operation that writes an instruction line back. -/
def Model.WritesWords (m : Model) : Prop := m ≠ .r10000

structure Words (m : Model) where
  l2Instrs : Table m.l2Ninstrs (BitVec 32)
  icInstrs : Table m.icInstrSlots (BitVec 32)
  icRaw : Table m.icRawWords (BitVec 32)

def CpuCache.withWords (c : CpuCache m) (w : Words m) : CpuCache m :=
  { c with l2Instrs := w.l2Instrs, icInstrs := w.icInstrs, icRaw := w.icRaw }

structure Alike (Named : Nat → Prop) (c d : CpuCache m) : Prop where
  same : ∃ w, d = c.withWords w
  l2Instrs : m.WritesWords → d.l2Instrs = c.l2Instrs
  words : m.WritesWords → ∀ eidx < m.icTags, (c.icTags.get eidx).isValid = true →
    ∀ i < m.icInstrsPerLine, d.l1iWord eidx i = c.l1iWord eidx i
  icNames : ∀ idx, (c.icTags.get idx).Names Named
  dcNames : ∀ idx, (c.dcTags.get idx).Names Named
  l2Fits : ∀ idx, (c.l2Tags.get idx).Savable
  /-- Without a secondary cache its array is never written. -/
  l2Unused : m.hasL2 = false → c.l2Data = .fill _ 0
  link : c.lladdr < 2 ^ 64

section Alike
variable {Named : Nat → Prop} {c d : CpuCache m}

/-! ### One part at a time -/

section
variable (alike : Alike Named c d)
include alike

/-- What does not look at the words is the same. -/
theorem Alike.agree (f : CpuCache m → α) (blind : ∀ w, f (c.withWords w) = f c) : f d = f c := by
  obtain ⟨w, rfl⟩ := alike.same
  exact blind w

theorem Alike.set {bus : Bus} {dcTags : Table m.dcTags L1DTag} {l2Tags : Table m.l2NumLines L2Tag}
    {dcData : Table (m.dcSize / 8) (BitVec 64)}
    {icLru : Table (m.lruWords m.icNumLines) (BitVec 64)}
    {dcLru : Table (m.lruWords m.dcNumLines) (BitVec 64)}
    (names : ∀ idx, (dcTags.get idx).Names Named) (fits : ∀ idx, (l2Tags.get idx).Savable) :
    Alike Named { c with downstream := bus, dcTags, dcData, l2Tags, icLru, dcLru }
      { d with downstream := bus, dcTags, dcData, l2Tags, icLru, dcLru } := by
  obtain ⟨w, rfl⟩ := alike.same
  exact { alike with same := ⟨w, rfl⟩, dcNames := names, l2Fits := fits }

theorem Alike.fits_set {idx : Nat} (fits : tag.Savable) (other : Nat) :
    ((c.l2Tags.set idx tag).get other).Savable :=
  forall_set alike.l2Fits fits idx other

theorem Alike.setL2Tag (idx : Nat) (fits : tag.Savable) :
    Alike Named { c with l2Tags := c.l2Tags.set idx tag }
      { d with l2Tags := d.l2Tags.set idx tag } := by
  obtain ⟨w, rfl⟩ := alike.same
  exact alike.set alike.dcNames (alike.fits_set fits)

theorem Alike.setDcTag {idx : Nat} (names : tag.Names Named) :
    Alike Named { c with dcTags := c.dcTags.set idx tag }
      { d with dcTags := d.dcTags.set idx tag } := by
  obtain ⟨w, rfl⟩ := alike.same
  exact alike.set (forall_set alike.dcNames names idx) alike.l2Fits

theorem Alike.setL2Data (hasL2 : m.hasL2 = true) (data : Table (m.l2CacheSize / 8) (BitVec 64)) :
    Alike Named { c with l2Data := data } { d with l2Data := data } := by
  obtain ⟨w, rfl⟩ := alike.same
  exact { alike with
    same := ⟨w, rfl⟩
    l2Unused := fun none => absurd (hasL2.symm.trans none) (by decide) }

theorem Alike.putL2 (hasL2 : m.hasL2 = true) (start count : Nat) (source : Nat → BitVec 64) :
    Alike Named (c.putL2 start count source) (d.putL2 start count source) := by
  have slots : m.WritesWords → (d.putL2 start count source).l2Instrs =
      (c.putL2 start count source).l2Instrs := by
    intro writes
    rw [CpuCache.putL2, CpuCache.putL2, alike.l2Instrs writes]
  obtain ⟨w, rfl⟩ := alike.same
  exact { alike with
    same := ⟨{ w with l2Instrs := w.l2Instrs.copyIn (2 * start) (2 * count) (wordOf source) }, rfl⟩
    l2Instrs := slots
    l2Unused := fun none => absurd (hasL2.symm.trans none) (by decide) }

theorem Alike.invalidateL1iLine (idx : Nat) :
    Alike Named (c.invalidateL1iLine idx) (d.invalidateL1iLine idx) := by
  obtain ⟨w, rfl⟩ := alike.same
  refine { alike with same := ⟨w, rfl⟩, words := ?_, icNames := ?_ }
  · intro writes eidx inside valid
    have differ : eidx ≠ idx := by
      rintro rfl
      rw [invalidateL1iLine, get_set_self inside] at valid
      cases valid
    rw [invalidateL1iLine, get_set_of_ne differ] at valid
    exact alike.words writes eidx inside valid
  · exact forall_set alike.icNames (.inl rfl) idx

/-! ### Lines going down -/

theorem Alike.invalidateL1dLine (idx : Nat) :
    Alike Named (c.invalidateL1dLine coherent idx) (d.invalidateL1dLine coherent idx) := by
  rw [invalidateL1dLine_eq, invalidateL1dLine_eq]
  exact alike.setDcTag (.inl ⟨rfl, rfl⟩)

omit alike in
theorem L1DTag.Names.demoted {tag : L1DTag} (names : tag.Names Named) : tag.demoted.Names Named := by
  rcases names with ⟨empty, invalid⟩ | ⟨physAddr, named, page, valid⟩
  · exact .inl ⟨empty, by simp [L1DTag.demoted, invalid]⟩
  · refine .inr ⟨physAddr, named, page, ?_⟩
    rw [L1DTag.demoted]
    split
    · exact nofun
    · exact valid

omit alike in
/-- The state of a secondary tag is no part of what its word bounds. -/
theorem L2Tag.Savable.setState {tag : L2Tag} {cs : L2State} (savable : tag.Savable) :
    L2Tag.Savable { tag with cs := cs } := savable

omit alike in
theorem Model.hasL2_of_writeback {p : Prop} (toL2 : ¬(m.isR5k = true ∧ (¬m.hasL2 = true ∨ p))) :
    m.hasL2 = true := by
  cases m
  · rfl
  · exact absurd ⟨rfl, .inl (by decide)⟩ toL2
  · rfl

theorem Alike.writebackL1dLine (idx : Nat) :
    Alike Named (c.writebackL1dLine idx) (d.writebackL1dLine idx) := by
  have demoted := forall_set alike.dcNames (alike.dcNames idx).demoted idx
  obtain ⟨w, rfl⟩ := alike.same
  refine ite_rel (fun _ => ?_) fun _ => alike
  refine ite_rel (fun _ => alike.set demoted alike.l2Fits) fun toL2 => ?_
  refine ite_rel (fun _ => alike) fun _ => ?_
  exact (alike.putL2 (hasL2_of_writeback toL2) _ _ _).set demoted
    (alike.fits_set (alike.l2Fits _).setState)

theorem Alike.forL1dLines {visit : CpuCache m → Nat → CpuCache m}
    (each : ∀ c d : CpuCache m, Alike Named c d → ∀ idx, Alike Named (visit c idx) (visit d idx))
    (pidx : Nat) {physBase : Nat} :
    Alike Named (c.forL1dLines l2Idx pidx physBase visit)
      (d.forL1dLines l2Idx pidx physBase visit) := by
  refine foldl_rel alike ?_
  intro i _ s t alike'
  obtain ⟨w, rfl⟩ := alike'.same
  exact ite_rel (fun _ => each s _ alike' _) fun _ => alike'

theorem Alike.dropL1iLines (pidx : Nat) {physBase : Nat} :
    Alike Named (c.dropL1iLines l2Idx pidx physBase) (d.dropL1iLines l2Idx pidx physBase) := by
  refine foldl_rel alike ?_
  intro i _ s t alike'
  obtain ⟨w, rfl⟩ := alike'.same
  exact ite_rel (fun _ => alike'.invalidateL1iLine _) fun _ => alike'

theorem Alike.flushL2Line {idx : Nat} (physAddr : Nat) :
    Alike Named (c.flushL2Line idx physAddr) (d.flushL2Line idx physAddr) := by
  obtain ⟨w, rfl⟩ := alike.same
  refine ite_rel (fun _ => ?_) fun _ => alike
  refine ite_rel (fun _ => ?_) fun _ => alike.set alike.dcNames alike.l2Fits
  exact alike.set alike.dcNames (alike.fits_set (alike.l2Fits idx).setState)

theorem Alike.writebackL2Line (idx : Nat) :
    Alike Named (c.writebackL2Line idx) (d.writebackL2Line idx) := by
  obtain ⟨w, rfl⟩ := alike.same
  refine Alike.flushL2Line ?_ _
  exact ite_rel (fun _ => alike) fun _ =>
    alike.forL1dLines _ (fun _ _ alike' => alike'.writebackL1dLine) _

theorem Alike.invalidateL2Line (idx : Nat) :
    Alike Named (c.invalidateL2Line idx) (d.invalidateL2Line idx) := by
  have fits : L2Tag.Savable {} := ⟨by decide, by decide⟩
  obtain ⟨w, rfl⟩ := alike.same
  refine ite_rel (fun _ => alike.setL2Tag idx fits) fun _ => ?_
  refine Alike.setL2Tag (ite_rel (fun _ => alike) fun _ => ?_) idx fits
  exact (alike.dropL1iLines _ _).forL1dLines _ (fun _ _ alike' => alike'.invalidateL1dLine) _

theorem Alike.setPidx (idx : Nat) {pidx : Nat} (small : pidx < 8) :
    Alike Named { c with l2Tags := c.l2Tags.set idx { c.l2Tags.get idx with pidx := pidx } }
      { d with l2Tags := d.l2Tags.set idx { d.l2Tags.get idx with pidx := pidx } } := by
  obtain ⟨w, rfl⟩ := alike.same
  exact alike.set alike.dcNames (alike.fits_set ⟨(alike.l2Fits idx).1, small⟩)

theorem Alike.realiasL2Line {newPidx : Nat} (small : newPidx < 8) :
    Alike Named (c.realiasL2Line l2Idx newPidx) (d.realiasL2Line l2Idx newPidx) := by
  obtain ⟨w, rfl⟩ := alike.same
  refine Alike.setPidx ?_ l2Idx small
  exact (alike.dropL1iLines _ _).forL1dLines
    _ (fun _ _ alike' idx => (alike'.writebackL1dLine idx).invalidateL1dLine idx) _

end

/-! ### Answers -/

def AlikeAnswer {α : Type} (Named : Nat → Prop) (r s : α × CpuCache m) : Prop :=
  s.1 = r.1 ∧ Alike Named r.2 s.2

theorem AlikeAnswer.out {r s : α × CpuCache m} (answer : AlikeAnswer Named r s) :
    ∃ a c d, r = (a, c) ∧ s = (a, d) ∧ Alike Named c d :=
  ⟨r.1, r.2, s.2, rfl, by rw [← answer.1], answer.2⟩

/-! ### Fills -/

theorem pidx_lt (virtAddr : Nat) : pidx virtAddr < 8 := Nat.mod_lt _ (by decide)

theorem l2Ptag_lt : l2Ptag physAddr < 2 ^ 19 := Nat.mod_lt _ (by decide)

theorem Alike.fillL2Line (alike : Alike Named c d) (hasL2 : m.hasL2 = true)
    (physAddr virtAddr : Nat) :
    AlikeAnswer Named (c.fillL2Line physAddr virtAddr) (d.fillL2Line physAddr virtAddr) := by
  have evicted := (alike.writebackL2Line (m.l2Index physAddr)).invalidateL2Line (m.l2Index physAddr)
  unfold CpuCache.fillL2Line
  dsimp only
  generalize (c.writebackL2Line (m.l2Index physAddr)).invalidateL2Line (m.l2Index physAddr) = s at *
  generalize (d.writebackL2Line (m.l2Index physAddr)).invalidateL2Line (m.l2Index physAddr) = t at *
  obtain ⟨w, rfl⟩ := evicted.same
  have put := evicted.putL2 hasL2 (m.l2Index physAddr * l2ChunksPerLine)
    l2ChunksPerLine fun i => s.downstream.words (alignDown physAddr l2Line / 8 + i)
  have filled : L2Tag.Savable (.filled physAddr virtAddr) := ⟨l2Ptag_lt, pidx_lt virtAddr⟩
  exact ite_rel (fun _ => ⟨rfl, put.set put.dcNames (evicted.fits_set filled)⟩)
    fun _ => ⟨rfl, evicted.setL2Data hasL2 _⟩

theorem Alike.reachL2 (alike : Alike Named c d) (hasL2 : m.hasL2 = true) {coherency : Fault} :
    AlikeAnswer Named (c.reachL2 virtAddr physAddr coherency error)
      (d.reachL2 virtAddr physAddr coherency error) := by
  have filled := alike.fillL2Line hasL2 physAddr virtAddr
  have moved := alike.realiasL2Line (m.l2Index physAddr) (pidx_lt virtAddr)
  unfold CpuCache.reachL2
  obtain ⟨w, rfl⟩ := alike.same
  refine ite_rel (fun _ => ?_) fun _ => ⟨?_, filled.2⟩
  · refine ite_rel (fun _ => ?_) fun _ => ⟨rfl, alike⟩
    exact ite_rel (fun _ => ⟨rfl, alike⟩) fun _ => ⟨rfl, moved⟩
  · dsimp only
    rw [filled.1]

variable {physAddr : Nat} {target : CacheTarget}

theorem L1DTag.names_valid (named : Named physAddr) {cs : L1DState} (valid : cs ≠ .invalid)
    (dirty : Bool) : (L1DTag.valid physAddr cs dirty).Names Named :=
  .inr ⟨physAddr, named, rfl, valid⟩

section
variable (alike : Alike Named c d)
include alike

theorem Alike.reachIfL2 {virtAddr : Nat} (physAddr : Nat) {coherency error : Fault} :
    AlikeAnswer Named
      (if m.hasL2 then c.reachL2 virtAddr physAddr coherency error else (.ok (), c))
      (if m.hasL2 then d.reachL2 virtAddr physAddr coherency error else (.ok (), d)) :=
  ite_rel (fun hasL2 => alike.reachL2 hasL2) fun _ => ⟨rfl, alike⟩

theorem Alike.fillL1dLine (virtAddr : Nat) (named : Named physAddr) :
    AlikeAnswer Named (c.fillL1dLine virtAddr physAddr) (d.fillL1dLine virtAddr physAddr) := by
  simp only [CpuCache.fillL1dLine, alike.agree dcLru fun _ => rfl]
  generalize (m.dcIndex virtAddr + (if m.isR5k = true then lruGet c.dcLru (m.dcIndex virtAddr)
    else 0) * m.dcNumLines) = dcIdx
  obtain ⟨answer, c', d', onC, onD, alike'⟩ := (((alike.writebackL1dLine dcIdx).invalidateL1dLine
    dcIdx).reachIfL2 physAddr).out
  rw [onC, onD]
  cases answer with
  | error fault => exact ⟨rfl, alike'⟩
  | ok done =>
    have names := forall_set alike'.dcNames
      (L1DTag.names_valid named (by decide : L1DState.cleanExclusive ≠ .invalid) false) dcIdx
    obtain ⟨w, rfl⟩ := alike'.same
    exact ⟨rfl, alike'.set names alike'.l2Fits⟩

/-- An instruction line is filled with the same words, where words count. -/
theorem Alike.fillWords (eidx : Nat) (named : Named physAddr) (words words' : Nat → BitVec 32)
    (same : m.WritesWords → words' = words) :
    Alike Named
      { c.putL1iLine eidx words with icTags := c.icTags.set eidx (.valid physAddr) }
      { d.putL1iLine eidx words' with icTags := d.icTags.set eidx (.valid physAddr) } := by
  have put : ∀ (s : CpuCache m) (source : Nat → BitVec 32), ∃ icInstrs icRaw,
      s.putL1iLine eidx source = { s with icInstrs := icInstrs, icRaw := icRaw } := by
    intro s source
    unfold putL1iLine
    split <;> exact ⟨_, _, rfl⟩
  have wordsAfter : m.WritesWords → ∀ other < m.icTags,
      ((c.icTags.set eidx (.valid physAddr)).get other).isValid = true →
      ∀ i < m.icInstrsPerLine, (d.putL1iLine eidx words').l1iWord other i =
        (c.putL1iLine eidx words).l1iWord other i := by
    intro writes other inside valid i within
    rw [l1iWord_putL1iLine words' inside within, l1iWord_putL1iLine words inside within,
      same writes]
    split
    · rfl
    next differ =>
      rw [get_set_of_ne differ] at valid
      exact alike.words writes other inside valid i within
  have names := forall_set alike.icNames
    (.inr ⟨physAddr, named, rfl⟩ : (L1ITag.valid physAddr).Names Named) eidx
  obtain ⟨icInstrs, icRaw, filled⟩ := put c words
  obtain ⟨icInstrs', icRaw', filled'⟩ := put d words'
  rw [filled, filled'] at wordsAfter
  rw [filled, filled']
  obtain ⟨w, rfl⟩ := alike.same
  exact { alike with
    same := ⟨⟨w.l2Instrs, icInstrs', icRaw'⟩, rfl⟩
    words := wordsAfter
    icNames := names }

theorem Alike.fillL1iLine (indexAddr : Nat) (named : Named physAddr) :
    AlikeAnswer Named (c.fillL1iLine indexAddr physAddr) (d.fillL1iLine indexAddr physAddr) := by
  have victim := alike.agree (l1iVictim · indexAddr physAddr) fun _ => rfl
  simp only [CpuCache.fillL1iLine, victim]
  generalize c.l1iVictim indexAddr physAddr = eidx
  obtain ⟨answer, c', d', onC, onD, alike'⟩ :=
    ((alike.invalidateL1iLine eidx).reachIfL2 physAddr).out
  rw [onC, onD]
  cases answer with
  | error fault => exact ⟨rfl, alike'⟩
  | ok done =>
    refine ⟨rfl, ?_⟩
    by_cases twoWay : m.isR5k = true
    · have filled := alike'.fillWords eidx named _ _ fun _ =>
        alike'.agree (l1iSource · physAddr) fun _ => rfl
      simp only [putL1iLine, twoWay, if_true] at filled
      simp only [twoWay, if_true]
      obtain ⟨w, rfl⟩ := alike'.same
      exact filled.set filled.dcNames filled.l2Fits
    · have hasL2 : m.hasL2 = true := hasL2_of_writeback (p := True) fun both => twoWay both.1
      let source (s : CpuCache m) (i : Nat) : BitVec 32 := s.l2Instrs.get
        ((m.l2Index physAddr * l2Line + alignDown physAddr m.icLine % l2Line) / 4 + i)
      have filled := alike'.fillWords eidx named (source c') (source d')
        fun writes => by simp only [source, alike'.l2Instrs writes]
      simp only [putL1iLine, twoWay] at filled
      simp only [twoWay, hasL2, if_true]
      exact filled

/-! ### Accesses -/

theorem Alike.ensureL1dLine {virtAddr : Nat} (named : Named physAddr) :
    AlikeAnswer Named (c.ensureL1dLine virtAddr physAddr) (d.ensureL1dLine virtAddr physAddr) := by
  have filled := alike.fillL1dLine virtAddr named
  obtain ⟨w, rfl⟩ := alike.same
  refine ite_rel (fun _ => ?_) fun _ => ite_rel (fun _ => ⟨rfl, alike⟩) fun _ => filled
  refine ite_rel (fun _ => ⟨rfl, alike.set alike.dcNames alike.l2Fits⟩) fun _ => ?_
  exact ite_rel (fun _ => ⟨rfl, alike.set alike.dcNames alike.l2Fits⟩) fun _ => filled

theorem Alike.read (width : Width) (virtAddr : Nat) (named : Named physAddr) :
    AlikeAnswer Named (c.read width virtAddr physAddr) (d.read width virtAddr physAddr) := by
  obtain ⟨way, s, t, onC, onD, alike'⟩ := (alike.ensureL1dLine named).out
  rw [CpuCache.read, CpuCache.read, onC, onD]
  obtain ⟨w, rfl⟩ := alike'.same
  cases way with
  | error fault | ok way => exact ⟨rfl, alike'⟩

theorem Alike.store (width : Width) (dataAddr eidx : Nat) (val : BitVec 64) :
    Alike Named ((c.dcWrite width dataAddr val).markL1dDirty eidx)
      ((d.dcWrite width dataAddr val).markL1dDirty eidx) := by
  have marked : L1DTag.Names Named { c.dcTags.get eidx with dirty := true } := alike.dcNames eidx
  obtain ⟨w, rfl⟩ := alike.same
  exact alike.set (forall_set alike.dcNames marked eidx) alike.l2Fits

theorem Alike.write (width : Width) (virtAddr : Nat) (named : Named physAddr) :
    AlikeAnswer Named (c.write width virtAddr physAddr val)
      (d.write width virtAddr physAddr val) := by
  obtain ⟨way, s, t, onC, onD, alike'⟩ := (alike.ensureL1dLine named).out
  rw [CpuCache.write, CpuCache.write, onC, onD]
  cases way with
  | error fault => exact ⟨rfl, alike'⟩
  | ok way => exact ⟨rfl, alike'.store _ _ _ _⟩

theorem Alike.write64Masked (virtAddr : Nat) (named : Named physAddr) (mask : BitVec 64) :
    AlikeAnswer Named (c.write64Masked virtAddr physAddr val mask)
      (d.write64Masked virtAddr physAddr val mask) := by
  obtain ⟨way, s, t, onC, onD, alike'⟩ := (alike.ensureL1dLine named).out
  rw [CpuCache.write64Masked, CpuCache.write64Masked, onC, onD]
  cases way with
  | error fault => exact ⟨rfl, alike'⟩
  | ok way =>
    have stored := alike'.store .double
    obtain ⟨w, rfl⟩ := alike'.same
    exact ⟨rfl, stored _ _ _⟩

/-- A fetch moves the same lines; its answer is a word, which is not compared. -/
theorem Alike.fetch (named : Named physAddr) :
    Alike Named (c.fetch virtAddr physAddr).2 (d.fetch virtAddr physAddr).2 := by
  obtain ⟨answer, s, t, onC, onD, alike'⟩ := (alike.fillL1iLine virtAddr named).out
  simp only [CpuCache.fetch, onC, onD, apply_ite Prod.snd]
  obtain ⟨w, rfl⟩ := alike.same
  refine ite_rel (fun _ => ?_) fun _ => ite_rel (fun _ => alike) fun _ => ?_
  · refine ite_rel (fun _ => alike.set alike.dcNames alike.l2Fits) fun _ => ?_
    refine ite_rel (fun _ => alike.set alike.dcNames alike.l2Fits) fun _ => ?_
    cases answer <;> exact alike'
  · cases answer <;> exact alike'

end

/-! ### CACHE operations -/

theorem L1ITag.isValid_of_matches {tag : L1ITag} (hit : tag.matchesPhys physAddr = true) :
    tag.isValid = true := by
  rw [L1ITag.matchesPhys, decide_eq_true_eq, alignDown] at hit
  rw [L1ITag.isValid, decide_eq_true_eq]
  omega

theorem hitL1i_valid (hit : c.hitL1i virtAddr physAddr = some eidx) :
    eidx < m.icTags ∧ (c.icTags.get eidx).isValid = true := by
  have found : (c.icTags.get eidx).matchesPhys physAddr = true := by
    simpa using find?_some hit
  refine ⟨?_, L1ITag.isValid_of_matches found⟩
  have member := mem_of_find?_eq_some hit
  rw [mem_map] at member
  obtain ⟨way, inWays, rfl⟩ := member
  rw [mem_range] at inWays
  cases m <;>
    simp only [Model.icIndex, Model.icNumLines, Model.icTags, Model.icSize, Model.icLine,
      Model.ways] at inWays ⊢ <;> omega

section
variable (alike : Alike Named c d)
include alike

/-- A line that both find in one slot moves alike. -/
theorem Alike.moveHit (hit : CpuCache m → Option Nat) (blind : ∀ w, hit (c.withWords w) = hit c)
    {move move' : Nat → CpuCache m}
    (each : ∀ idx, hit c = some idx → Alike Named (move idx) (move' idx)) :
    Alike Named (((hit c).map move).getD c) (((hit d).map move').getD d) := by
  rw [alike.agree hit blind]
  cases found : hit c with
  | none => exact alike
  | some idx => exact each idx found

omit alike in
theorem Bus.writeBlock_congr (bus : Bus) {count : Nat} {source source' : Nat → BitVec 64}
    (same : ∀ i < count, source i = source' i) :
    bus.writeBlock addr count source = bus.writeBlock addr count source' := by
  have bound : ∀ start, bus.reach start count ≤ count := by
    intro start
    induction count generalizing start with
    | zero => exact le_rfl
    | succ count inductionHypothesis =>
      rw [Bus.reach]
      split
      · omega
      · have rest := inductionHypothesis (fun i small => same i (by omega)) (start + 1)
        omega
  have words : ∀ d, (if addr / 8 ≤ d ∧ d < addr / 8 + bus.reach (addr / 8) count
      then source (d - addr / 8) else bus.words d) =
      if addr / 8 ≤ d ∧ d < addr / 8 + bus.reach (addr / 8) count
      then source' (d - addr / 8) else bus.words d := by
    intro d
    split
    · have within := bound (addr / 8)
      rw [same _ (by omega)]
    · rfl
  simp only [Bus.writeBlock, words]

omit alike in
theorem putL2_congr {count : Nat} {source source' : Nat → BitVec 64}
    (same : ∀ i < count, source i = source' i) :
    c.putL2 start count source = c.putL2 start count source' := by
  have words : ∀ i < 2 * count, wordOf source i = wordOf source' i := by
    intro i small
    rw [wordOf, wordOf, same _ (by omega)]
  rw [putL2, putL2, copyIn_congr same, copyIn_congr words]

theorem Alike.writebackL1iLine (writes : m.WritesWords) (inside : eidx < m.icTags)
    (valid : (c.icTags.get eidx).isValid = true) {lineBase : Nat} :
    Alike Named (c.writebackL1iLine eidx lineBase) (d.writebackL1iLine eidx lineBase) := by
  have chunks : ∀ i < m.icInstrsPerLine / 2,
      d.l1iWord eidx (2 * i) ++ d.l1iWord eidx (2 * i + 1) =
        c.l1iWord eidx (2 * i) ++ c.l1iWord eidx (2 * i + 1) := by
    intro i small
    rw [alike.words writes eidx inside valid _ (by omega),
      alike.words writes eidx inside valid _ (by omega)]
  simp only [CpuCache.writebackL1iLine, alike.agree (hitL2 · lineBase) fun _ => rfl,
    Bus.writeBlock_congr _ chunks, putL2_congr chunks]
  cases hit : c.hitL2 lineBase with
  | none =>
    obtain ⟨w, rfl⟩ := alike.same
    exact alike.set alike.dcNames alike.l2Fits
  | some l2Idx =>
    have hasL2 : m.hasL2 = true := by
      rw [hitL2] at hit
      split at hit
      next present => exact present.1
      · cases hit
    have put := alike.putL2 hasL2
    obtain ⟨w, rfl⟩ := alike.same
    exact (put _ _ _).set alike.dcNames (alike.fits_set (alike.l2Fits l2Idx).setState)

theorem Alike.indexInvalidate :
    Alike Named (c.indexInvalidate target idx) (d.indexInvalidate target idx) := by
  cases target with
  | pi => exact alike.invalidateL1iLine idx
  | pd => exact (alike.writebackL1dLine idx).invalidateL1dLine idx
  | si | sd => exact (alike.writebackL2Line idx).invalidateL2Line idx

omit alike in
theorem tellable_tagLo (tagLo : Nat) : Tellable (l1LineOfTagLo tagLo) := by
  simp only [Tellable, l1LineOfTagLo]
  omega

omit alike in
theorem savable_l2TagOfTagLo : (l2TagOfTagLo tagLo).Savable :=
  ⟨Nat.mod_lt _ (by decide), Nat.mod_lt _ (by decide)⟩

theorem Alike.createDirtyExclusive {target : CacheTarget} {virtAddr : Nat} (named : Named physAddr) :
    Alike Named (c.createDirtyExclusive target idx virtAddr physAddr)
      (d.createDirtyExclusive target idx virtAddr physAddr) := by
  cases target with
  | pi => exact alike
  | pd =>
    have names := L1DTag.names_valid named (by decide : L1DState.dirtyExclusive ≠ .invalid) true
    exact (alike.writebackL1dLine idx).setDcTag names
  | si | sd =>
    have emptied := (alike.writebackL2Line idx).invalidateL2Line idx
    exact emptied.setL2Tag idx ⟨l2Ptag_lt, pidx_lt virtAddr⟩

theorem Alike.hitInvalidate :
    Alike Named (c.hitInvalidate target virtAddr physAddr)
      (d.hitInvalidate target virtAddr physAddr) := by
  cases target with
  | pi =>
    exact alike.moveHit (hitL1i · virtAddr physAddr) (fun _ => rfl) fun idx _ =>
      alike.invalidateL1iLine idx
  | pd =>
    exact alike.moveHit (hitL1d · virtAddr physAddr) (fun _ => rfl) fun idx _ =>
      alike.invalidateL1dLine idx
  | si | sd =>
    exact alike.moveHit (hitL2 · physAddr) (fun _ => rfl) fun idx _ => alike.invalidateL2Line idx

theorem Alike.hitWritebackInvalidate (named : target = .pi → Named physAddr) :
    Alike Named (c.hitWritebackInvalidate target virtAddr physAddr)
      (d.hitWritebackInvalidate target virtAddr physAddr) := by
  cases target with
  | pi => exact (alike.fillL1iLine virtAddr (named rfl)).2
  | pd =>
    exact alike.moveHit (hitL1d · virtAddr physAddr) (fun _ => rfl) fun idx _ =>
      (alike.writebackL1dLine idx).invalidateL1dLine idx
  | si | sd =>
    exact alike.moveHit (hitL2 · physAddr) (fun _ => rfl) fun idx _ =>
      (alike.writebackL2Line idx).invalidateL2Line idx

theorem Alike.hitWriteback (writes : target = .pi → m.WritesWords) {physAddr : Nat} :
    Alike Named (c.hitWriteback target virtAddr physAddr)
      (d.hitWriteback target virtAddr physAddr) := by
  cases target with
  | pi =>
    refine alike.moveHit (hitL1i · virtAddr physAddr) (fun _ => rfl) fun idx hit => ?_
    obtain ⟨inside, valid⟩ := hitL1i_valid hit
    exact alike.writebackL1iLine (writes rfl) inside valid
  | pd =>
    exact alike.moveHit (hitL1d · virtAddr physAddr) (fun _ => rfl) fun idx _ =>
      alike.writebackL1dLine idx
  | si | sd =>
    exact alike.moveHit (hitL2 · physAddr) (fun _ => rfl) fun idx _ => alike.writebackL2Line idx

theorem Alike.hitSetVirtual {idx : Nat} :
    Alike Named (c.hitSetVirtual target idx virtAddr physAddr)
      (d.hitSetVirtual target idx virtAddr physAddr) := by
  have moved := alike.setPidx idx (pidx_lt virtAddr)
  obtain ⟨w, rfl⟩ := alike.same
  exact ite_rel (fun _ => moved) fun _ => alike

theorem Alike.r10kOp (hasL2 : m.hasL2 = true) (operation : CacheOperation) {target : CacheTarget}
    {virtAddr physAddr : Nat} :
    (c.r10kOp operation target virtAddr physAddr = none ∧
      d.r10kOp operation target virtAddr physAddr = none) ∨
    ∃ r s, c.r10kOp operation target virtAddr physAddr = some r ∧
      d.r10kOp operation target virtAddr physAddr = some s ∧ AlikeAnswer Named r s := by
  obtain ⟨w, rfl⟩ := alike.same
  have stored := alike.setL2Data hasL2
  rw [r10kOp.eq_def, r10kOp.eq_def]
  split
  iterate 4 · exact .inr ⟨_, _, rfl, rfl, rfl, alike⟩
  · exact .inr ⟨_, _, rfl, rfl, rfl, stored _⟩
  · exact .inr ⟨_, _, rfl, rfl, rfl, stored _⟩
  · exact .inl ⟨rfl, rfl⟩

end

section Low
variable (low : ∀ physAddr, Tellable physAddr → Named physAddr)
include low

theorem names_l1dTagOfTagLo {tagLo : Nat} : (l1dTagOfTagLo m tagLo).Names Named := by
  have named := low _ (tellable_tagLo tagLo)
  unfold l1dTagOfTagLo
  split
  · exact .inl ⟨rfl, rfl⟩
  · refine L1DTag.names_valid named ?_ _
    split <;> decide
  · exact L1DTag.names_valid named (by decide) _
  · exact L1DTag.names_valid named (by decide) _

theorem names_l1iTagOfTagLo (tagLo : Nat) : (l1iTagOfTagLo tagLo).Names Named := by
  unfold l1iTagOfTagLo
  split
  · exact .inr ⟨_, low _ (tellable_tagLo tagLo), rfl⟩
  · exact .inl rfl

section
variable (alike : Alike Named c d)
include alike

/-- A tag store on the instruction cache validates a slot without giving it words, so where
words can be written back the two are one cache. -/
theorem Alike.indexStoreTag (oneCache : target = .pi → m.WritesWords → d = c) :
    Alike Named (c.indexStoreTag target idx physAddr) (d.indexStoreTag target idx physAddr) := by
  cases target with
  | si | sd => exact (alike.invalidateL2Line idx).setL2Tag idx savable_l2TagOfTagLo
  | pd => exact (alike.invalidateL1dLine idx).setDcTag (names_l1dTagOfTagLo low)
  | pi =>
    have dropped := alike.invalidateL1iLine idx
    have names := forall_set dropped.icNames (names_l1iTagOfTagLo low (physAddr % 2 ^ 32)) idx
    exact { dropped with
      same := by
        obtain ⟨w, rfl⟩ := alike.same
        exact ⟨w, rfl⟩
      words := fun writes => by
        cases oneCache rfl writes
        exact fun _ _ _ _ _ => rfl
      icNames := names }

theorem Alike.r4kOp (virtAddr : Nat) (named : operation.fills target = true → Named physAddr)
    (oneCache : operation = .ist → target = .pi → m.WritesWords → d = c)
    (writes : operation = .hwb → target = .pi → m.WritesWords) :
    AlikeAnswer Named (c.r4kOp operation target virtAddr physAddr)
      (d.r4kOp operation target virtAddr physAddr) := by
  refine ite_rel (fun _ => ⟨rfl, alike⟩) fun _ => ?_
  cases operation with
  | iinv => exact ⟨rfl, alike.indexInvalidate⟩
  | ilt =>
    exact ⟨congrArg (BitVec.ofNat 64) (alike.agree (indexLoadTag · target _) fun _ => rfl), alike⟩
  | ist => exact ⟨rfl, alike.indexStoreTag low (oneCache rfl)⟩
  | cdx => exact ⟨rfl, alike.createDirtyExclusive (named rfl)⟩
  | hinv => exact ⟨rfl, alike.hitInvalidate⟩
  | hwbinv =>
    refine ⟨rfl, alike.hitWritebackInvalidate ?_⟩
    rintro rfl
    exact named rfl
  | hwb => exact ⟨rfl, alike.hitWriteback (writes rfl)⟩
  | hsv => exact ⟨rfl, alike.hitSetVirtual⟩

theorem Alike.cacheOp (virtAddr : Nat) (named : operation.fills target = true → Named physAddr)
    (oneCache : operation = .ist → target = .pi → m.WritesWords → d = c) :
    AlikeAnswer Named (c.cacheOp operation target virtAddr physAddr)
      (d.cacheOp operation target virtAddr physAddr) := by
  by_cases r10k : m = .r10000
  · subst r10k
    show AlikeAnswer Named
      ((c.r10kOp operation target virtAddr physAddr).getD
        (c.r4kOp operation target virtAddr physAddr))
      ((d.r10kOp operation target virtAddr physAddr).getD
        (d.r4kOp operation target virtAddr physAddr))
    rcases alike.r10kOp rfl operation with
      ⟨onC, onD⟩ | ⟨r, s, onC, onD, answer⟩
    · rw [onC, onD]
      refine alike.r4kOp low virtAddr named oneCache ?_
      -- Hit Writeback on the instruction cache is one of those codes.
      rintro rfl rfl
      cases onC
    · rw [onC, onD]
      exact answer
  · have r4k := alike.r4kOp low virtAddr named oneCache fun _ _ => r10k
    have plain : m.r10kCacheOps = false := by simp [r10kCacheOps, r10k]
    simp only [CpuCache.cacheOp, plain, Bool.false_eq_true, if_false]
    exact r4k

end

/-! ### Steps and runs -/

/-- The addresses an operation puts into primary tags are named, and its link
address is one. -/
def Op.Names (Named : Nat → Prop) : Op → Prop
  | .read _ _ physAddr | .write _ _ physAddr _ | .write64Masked _ physAddr _ _
  | .fetch _ physAddr => Named physAddr
  | .cache operation target _ physAddr => operation.fills target = true → Named physAddr
  | .setLlbit _ => True
  | .setLladdr addr => addr < 2 ^ 64

def Op.storesInstructionTag : Op → Bool
  | .cache .ist .pi _ _ => true
  | _ => false

def Op.isFetch : Op → Bool
  | .fetch _ _ => true
  | _ => false

theorem step_alike (alike : Alike Named c d) (names : op.Names Named)
    (oneCache : op.storesInstructionTag = true → m.WritesWords → d = c) :
    Alike Named (step c op).2 (step d op).2 ∧
      (op.isFetch = false → (step d op).1 = (step c op).1) := by
  cases op with
  | read width virtAddr physAddr =>
    have answer := alike.read width virtAddr names
    exact ⟨answer.2, fun _ => congrArg Response.loaded answer.1⟩
  | write width virtAddr physAddr val =>
    have answer := alike.write val width virtAddr names
    exact ⟨answer.2, fun _ => congrArg Response.stored answer.1⟩
  | write64Masked virtAddr physAddr val mask =>
    have answer := alike.write64Masked val virtAddr names mask
    exact ⟨answer.2, fun _ => congrArg Response.stored answer.1⟩
  | fetch virtAddr physAddr =>
    exact ⟨alike.fetch names, nofun⟩
  | cache operation target virtAddr physAddr =>
    have oneCache' : operation = .ist → target = .pi → m.WritesWords → d = c := by
      rintro rfl rfl
      exact oneCache rfl
    have answer := alike.cacheOp low virtAddr names oneCache'
    exact ⟨answer.2, fun _ => congrArg Response.cached answer.1⟩
  | setLlbit val =>
    obtain ⟨w, rfl⟩ := alike.same
    exact ⟨{ alike with same := ⟨w, rfl⟩ }, fun _ => rfl⟩
  | setLladdr addr =>
    obtain ⟨w, rfl⟩ := alike.same
    exact ⟨{ alike with same := ⟨w, rfl⟩, link := names }, fun _ => rfl⟩

/-- A cache is alike itself after any operation, a tag store included. -/
theorem step_alike_self (alike : Alike Named c c) (names : op.Names Named) :
    Alike Named (step c op).2 (step c op).2 :=
  (step_alike low alike names fun _ _ => rfl).1

/-- The answers of a run, without those of its fetches. -/
def answers (c : CpuCache m) : List Op → List Response
  | [] => []
  | op :: rest =>
    let (response, c) := step c op
    if op.isFetch then answers c rest else response :: answers c rest

theorem answers_alike (alike : Alike Named c d) (names : ∀ op ∈ ops, op.Names Named)
    (noWords : ∀ op ∈ ops, op.storesInstructionTag = true → ¬m.WritesWords) :
    answers d ops = answers c ops := by
  induction ops generalizing c d with
  | nil => rfl
  | cons op rest inductionHypothesis =>
    obtain ⟨alike', same⟩ := step_alike low alike (names op (by simp))
      fun stores writes => absurd writes (noWords op (by simp) stores)
    have later : answers (step d op).2 rest = answers (step c op).2 rest := by
      apply inductionHypothesis alike'
      · exact (forall_mem_cons.mp names).2
      · exact (forall_mem_cons.mp noWords).2
    simp only [answers, later]
    split
    · rfl
    next notFetch => rw [same (by simpa using notFetch)]

end Low

end Alike

end Iris.Cpu.Cache
