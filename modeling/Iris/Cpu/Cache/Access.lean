import Iris.Cpu.Cache.Evict

/-!
Owns accesses to the direct-mapped caches over a memory without errors. A fill
brings a line under the slot of its virtual address or reports a coherency
exception, a load finds what its address currently holds, a store changes that
one doubleword, and writing everything back leaves memory with what every
address held.
-/

namespace Iris.Cpu.Cache

open CpuCache Library.Run BigEndian List Table

variable {m : Model} {c c' : CpuCache m} {flat : Flat} {virtAddr physAddr : Nat}

/-! ### Fills of a primary line -/

/-- The secondary cache holds the line of `physAddr` under the virtual index of
`virtAddr`. -/
def Reached (c : CpuCache m) (virtAddr physAddr : Nat) : Prop :=
  c.L2Holds physAddr ∧ (c.l2TagOf physAddr).pidx = pidx virtAddr

theorem reachL2_keeps (direct : m.Direct) (inv : Inclusive c)
    (faultless : Faultless c.downstream) (tellable : Tellable physAddr)
    (run : c.reachL2 virtAddr physAddr coherency error = (reached, c')) :
    Keeps c c' ∧ (reached = .ok () ∧ Reached c' virtAddr physAddr ∨
      reached = .error coherency ∧ m.hasVce = true) := by
  rw [reachL2] at run
  simp only [direct.isR5k, Bool.false_eq_true, not_false_eq_true, true_and] at run
  split at run
  next held =>
    split at run
    · split at run
      next vce =>
        cases run
        exact ⟨.refl inv, .inr ⟨rfl, vce⟩⟩
      · cases run
        obtain ⟨kept, holds, index⟩ := realiasL2Line_keeps direct inv rfl held
        exact ⟨kept, .inl ⟨rfl, holds, index⟩⟩
    next same =>
      cases run
      exact ⟨.refl inv, .inl ⟨rfl, held, (not_not.mp same).symm⟩⟩
  · obtain ⟨ok, kept, holds, index⟩ := fillL2Line_keeps direct inv faultless tellable virtAddr
    simp only [ok, if_true] at run
    cases run
    exact ⟨kept, .inl ⟨rfl, holds, index⟩⟩

/-- A fill takes each doubleword of a line from its place in the secondary line. -/
theorem fillSource (direct : m.Direct) (same : SameLine m address physAddr) (idx : Nat) :
    m.l2Index physAddr * Model.l2ChunksPerLine + alignDown physAddr m.dcLine % Model.l2Line / 8 +
      (dcChunk m idx address - idx * m.dcChunksPerLine) = l2Chunk m address := by
  have slot := l2Index_of_line (m := m) (same.l2Line direct)
  rcases direct.dcLine with line | line <;>
    simp only [l2Chunk, dcChunk, SameLine, alignDown, Model.l2ChunksPerLine, Model.l2Line, line,
      slot] at * <;> omega

variable {way : Except Fault Nat} {width : Width} {idx : Nat} {operation : CacheOperation}
  {target : CacheTarget}

section
variable (direct : m.Direct) (inv : Inclusive c) (faultless : Faultless c.downstream)
  (tellable : Tellable physAddr)
include direct inv faultless tellable

theorem fillL1dLine_keeps (agree : virtAddr % 0x1000 = physAddr % 0x1000)
    (run : c.fillL1dLine virtAddr physAddr = (way, c')) :
    Keeps c c' ∧ (way = .ok 0 ∧ c'.L1Holds (m.dcIndex virtAddr) physAddr ∨
      way = .error .vced ∧ m.hasVce = true) := by
  have inside := dcIndex_lt direct virtAddr
  have candidate := candidate_dcIndex direct agree
  have under := slotUnder_pidx direct agree
  rw [fillL1dLine] at run
  generalize m.dcIndex virtAddr = idx at *
  have room : idx < m.dcTags := by rwa [direct.dcTags, ← direct.dcNumLines]
  have kept : Keeps c ((c.writebackL1dLine idx).invalidateL1dLine false idx) :=
    evictL1d_keeps direct inv inside
  have empty : (((c.writebackL1dLine idx).invalidateL1dLine false idx).dcTags.get idx).dirty =
      false := by
    rw [invalidateL1dLine_eq, get_set_self room]
  simp only [direct.isR5k, direct.hasL2, Bool.false_eq_true, if_true, if_false, Nat.zero_mul,
    Nat.add_zero] at run
  generalize (c.writebackL1dLine idx).invalidateL1dLine false idx = s at *
  rcases reach : s.reachL2 virtAddr physAddr .vced .dbe with ⟨reached, t⟩
  obtain ⟨kept', outcome⟩ :=
    reachL2_keeps direct kept.inclusive (kept.faultless faultless) tellable reach
  rw [reach] at run
  rcases outcome with ⟨rfl, holds, index⟩ | ⟨rfl, vce⟩
  · obtain ⟨rfl, rfl⟩ := run
    refine ⟨(kept.trans kept').trans ?_, .inl ⟨rfl, candidate, by rw [get_set_self room]; rfl⟩⟩
    refine kept'.inclusive.replaceL1 direct inside rfl rfl rfl rfl ?_ (kept'.clean empty) rfl
      (.inr ⟨physAddr, tellable, candidate, rfl, holds, by rw [slotOf, index, under], ?_⟩)
    · intro other address differ
      rw [get_copyIn_of_outside (mt (dcChunk_mem direct address idx).mp differ)]
    · intro address same
      rw [get_copyIn (dcChunk_lt direct inside), if_pos ((dcChunk_mem direct address idx).mpr rfl),
        fillSource direct same idx]
  · cases run
    exact ⟨kept.trans kept', .inr ⟨rfl, vce⟩⟩

/-- An instruction fill moves lines as a data fill does, and adds none of its
own to the data caches. -/
theorem fillL1iLine_keeps (run : c.fillL1iLine virtAddr physAddr = (way, c')) :
    Keeps c c' ∧ ((∃ filled, way = .ok filled) ∨ way = .error .vcei ∧ m.hasVce = true) := by
  rw [fillL1iLine] at run
  simp only [direct.isR5k, direct.hasL2, Bool.false_eq_true, if_true, if_false] at run
  have kept : Keeps c (c.invalidateL1iLine (c.l1iVictim virtAddr physAddr)) :=
    inv.of_same rfl rfl rfl rfl rfl
  generalize c.invalidateL1iLine (c.l1iVictim virtAddr physAddr) = s at *
  rcases reach : s.reachL2 virtAddr physAddr .vcei .ibe with ⟨reached, t⟩
  obtain ⟨kept', outcome⟩ :=
    reachL2_keeps direct kept.inclusive (kept.faultless faultless) tellable reach
  rw [reach] at run
  rcases outcome with ⟨rfl, -⟩ | ⟨rfl, vce⟩
  · cases run
    refine ⟨(kept.trans kept').trans ?_, .inl ⟨_, rfl⟩⟩
    exact kept'.inclusive.of_same rfl rfl rfl rfl rfl
  · cases run
    exact ⟨kept.trans kept', .inr ⟨rfl, vce⟩⟩

/-! ### Loads -/

theorem ensureL1dLine_keeps (agree : virtAddr % 0x1000 = physAddr % 0x1000)
    (run : c.ensureL1dLine virtAddr physAddr = (way, c')) :
    Keeps c c' ∧ (way = .ok 0 ∧ c'.L1Holds (m.dcIndex virtAddr) physAddr ∨
      way = .error .vced ∧ m.hasVce = true) := by
  rw [ensureL1dLine] at run
  simp only [direct.isR5k, Bool.false_eq_true, if_false] at run
  split at run
  next hit =>
    cases run
    exact ⟨.refl inv, .inl ⟨rfl, candidate_dcIndex direct agree,
      by simpa [L1DTag.matchesPhys] using hit⟩⟩
  · exact fillL1dLine_keeps direct inv faultless tellable agree run

end

namespace CpuCache

/-- The doublewords the addresses currently hold, as one memory. -/
def holdings (c : CpuCache m) (d : Nat) : BitVec 64 := c.current (8 * d)

end CpuCache

/-- The bytes of one doubleword are found together. -/
theorem current_eq_holdings (direct : m.Direct) (c : CpuCache m) (physAddr : Nat) :
    c.current physAddr = c.holdings (physAddr / 8) := by
  have line : physAddr / 128 = 8 * (physAddr / 8) / 128 := by omega
  have same : SameLine m physAddr (8 * (physAddr / 8)) := by
    rcases direct.dcLine with line | line <;> simp only [SameLine, line] <;> omega
  have tag : c.l2TagOf physAddr = c.l2TagOf (8 * (physAddr / 8)) := by
    rw [l2TagOf, l2TagOf, l2Index_of_line line]
  have slot : c.slotOf physAddr = c.slotOf (8 * (physAddr / 8)) := by
    rw [slotOf, slotOf, tag, same.slotUnder direct]
  have chunk : ∀ idx, dcChunk m idx physAddr = dcChunk m idx (8 * (physAddr / 8)) := by
    rcases direct.dcLine with line | line <;> simp only [dcChunk, line] <;> omega
  have l2chunk : l2Chunk m physAddr = l2Chunk m (8 * (physAddr / 8)) := by
    rw [l2Chunk, l2Chunk, l2Index_of_line line]
    simp only [Model.l2Line]
    omega
  have word : 8 * (physAddr / 8) / 8 = physAddr / 8 := by omega
  simp only [holdings, current, below, L2Holds, tag, slot, chunk, l2chunk, word,
    l2Ptag_of_line line, same.page direct]

theorem dcChunk_dcIndex (direct : m.Direct) (agree : virtAddr % 0x1000 = physAddr % 0x1000) :
    virtAddr % m.dcSize / 8 = dcChunk m (m.dcIndex virtAddr) physAddr := by
  rcases direct.dcLine with line | line <;>
    simp only [dcChunk, Model.dcIndex, direct.dcSize, direct.dcNumLines, line] <;> omega

theorem dcData_of_l1Holds (direct : m.Direct) (inv : Inclusive c)
    (tellable : Tellable physAddr) (agree : virtAddr % 0x1000 = physAddr % 0x1000)
    (holds : c.L1Holds (m.dcIndex virtAddr) physAddr) :
    c.dcData.get (virtAddr % m.dcSize / 8) = c.holdings (physAddr / 8) := by
  rw [← current_eq_holdings direct, inv.current_of_l1 tellable holds, dcChunk_dcIndex direct agree]

theorem hostLane_agree (direct : m.Direct) (agree : virtAddr % 0x1000 = physAddr % 0x1000) :
    hostLane width (virtAddr % m.dcSize) % width.lanes = hostLane width physAddr % width.lanes := by
  rw [hostLane_mod, hostLane_mod]
  rcases direct.dcLine with line | line <;> cases width <;>
    simp only [Width.bytes, Width.lanes, direct.dcSize, line] <;> omega

theorem Tellable.word (tellable : Tellable a) : Tellable (8 * (a / 8)) :=
  Nat.lt_of_le_of_lt (Nat.mul_div_le a 8) tellable

/-- The cache over a memory without errors stands for a memory of bytes. -/
structure Shows (c : CpuCache m) (flat : Flat) : Prop where
  inclusive : Inclusive c
  faultless : Faultless c.downstream
  bytes : ∀ a, Tellable a → byteAt c.holdings a = flat a

theorem Keeps.shows (kept : Keeps c c') (shows : Shows c flat) : Shows c' flat := by
  refine ⟨kept.inclusive, kept.faultless shows.faultless, ?_⟩
  intro a tellable
  rw [← shows.bytes a tellable, byteAt, byteAt, holdings, holdings, kept.current _ tellable.word]

/-- The bytes of an aligned access are shown together. -/
theorem Shows.load (shows : Shows c flat) (tellable : Tellable physAddr)
    (aligned : physAddr % width.bytes = 0) :
    Flat.load (byteAt c.holdings) physAddr width.bytes = flat.load physAddr width.bytes := by
  apply Flat.load_congr
  intro a low high
  apply shows.bytes
  simp only [Tellable] at *
  cases width <;> simp only [Width.bytes] at * <;> omega

section
variable (direct : m.Direct)
include direct

/-- Overwriting a doubleword of a held primary line, and marking the line dirty. -/
theorem Inclusive.overwrite (inv : Inclusive c) {value : BitVec 64}
    (tellable : Tellable physAddr) (holds : c.L1Holds idx physAddr)
    (dcTags : c'.dcTags = c.dcTags.set idx { c.dcTags.get idx with dirty := true })
    (dcData : c'.dcData = c.dcData.set (dcChunk m idx physAddr) value)
    (l2Tags : c'.l2Tags = c.l2Tags) (l2Data : c'.l2Data = c.l2Data)
    (downstream : c'.downstream = c.downstream) :
    Inclusive c' ∧ ∀ other, Tellable other →
      c'.current other = if other / 8 = physAddr / 8 then value else c.current other := by
  have inside := holds.1.1
  have room : idx < m.dcTags := by rwa [direct.dcTags, ← direct.dcNumLines]
  have here : c'.dcTags.get idx = { c.dcTags.get idx with dirty := true } := by
    rw [dcTags, get_set_self room]
  have leaves : LeavesTags c c' := by
    refine ⟨?_, fun _ => by rw [l2Tags], fun _ => by rw [l2Tags], fun _ => by rw [l2Tags]⟩
    intro other
    by_cases same : other = idx
    · subst same
      rw [here]
    · rw [dcTags, get_set_of_ne same]
  -- The data of every other doubleword stays.
  have kept {slot other : Nat} (held : c.L1Holds slot other)
      (differ : ¬(slot = idx ∧ other / 8 = physAddr / 8)) :
      c'.dcData.get (dcChunk m slot other) = c.dcData.get (dcChunk m slot other) := by
    have chunk : dcChunk m slot other ≠ dcChunk m idx physAddr := by
      intro sameChunk
      have sameSlot : slot = idx := by
        rw [← dcChunk_mem direct other idx, sameChunk, dcChunk_mem direct]
      subst sameSlot
      have line : SameLine m other physAddr :=
        held.1.sameLine direct holds.1 (by have := held.2; have := holds.2; omega)
      rcases direct.dcLine with isLine | isLine <;>
        simp only [dcChunk, SameLine, isLine] at sameChunk line <;> omega
    rw [dcData, get_set_of_ne chunk]
  have inclusive' : Inclusive c' := by
    refine ⟨?_, by rw [l2Tags]; exact inv.l2Tagged, ?_, ?_, ?_⟩
    · intro slot inside'
      by_cases same : slot = idx
      · subst same
        right
        refine ⟨physAddr / 0x1000, ?_, by rw [leaves.dc, holds.2, alignDown]⟩
        simp only [Tellable] at tellable
        omega
      · rw [dcTags, get_set_of_ne same]
        exact inv.tagged slot inside'
    · rw [leaves.l1Holds, leaves.l2Holds, leaves.slotOf]
      exact inv.included
    · intro slot other tellable' held clean
      have differ : slot ≠ idx := by
        rintro rfl
        rw [here] at clean
        cases clean
      rw [leaves.l1Holds] at held
      rw [kept held fun both => differ both.1, l2Data]
      rw [dcTags, get_set_of_ne differ] at clean
      exact inv.cleanL1 slot other tellable' held clean
    · unfold l2TagOf
      rw [leaves.l2Holds, l2Tags, l2Data, downstream]
      exact inv.cleanL2
  refine ⟨inclusive', ?_⟩
  intro other tellable'
  by_cases here' : other / 8 = physAddr / 8
  · rw [if_pos here', current_eq_holdings direct, here', ← current_eq_holdings direct,
      inclusive'.current_of_l1 tellable (leaves.l1Holds ▸ holds), dcData,
      get_set_self (dcChunk_lt direct inside)]
  rw [if_neg here']
  by_cases held : ∃ slot, c.L1Holds slot other
  · obtain ⟨slot, held⟩ := held
    rw [inv.current_of_l1 tellable' held,
      inclusive'.current_of_l1 tellable' (leaves.l1Holds ▸ held), kept held fun both => here' both.2]
  · have absent (slot : Nat) (found : c.L1Holds slot other) : False := held ⟨slot, found⟩
    rw [current_of_no_l1 direct absent, current_of_no_l1 direct (leaves.l1Holds ▸ absent)]
    exact below_congr (by rw [leaves.l2Holds]) (fun _ => by rw [l2Data]) fun _ => by rw [downstream]

section
variable (shows : Shows c flat) (tellable : Tellable physAddr)
  (agree : virtAddr % 0x1000 = physAddr % 0x1000)
include shows tellable agree

/-- An access has its line, with the doubleword its address holds, or is refused it. -/
theorem Shows.ensured :
    ∃ way s, c.ensureL1dLine virtAddr physAddr = (way, s) ∧ Shows s flat ∧
      (way = .ok 0 ∧ s.L1Holds (m.dcIndex virtAddr) physAddr ∧
          s.dcData.get (virtAddr % m.dcSize / 8) = s.holdings (physAddr / 8) ∨
        way = .error .vced ∧ m.hasVce = true) := by
  obtain ⟨kept, outcome⟩ :=
    ensureL1dLine_keeps direct shows.inclusive shows.faultless tellable agree rfl
  refine ⟨_, _, rfl, kept.shows shows, outcome.imp_left fun held => ⟨held.1, held.2, ?_⟩⟩
  exact dcData_of_l1Holds direct kept.inclusive tellable agree held.2

theorem read_shows (aligned : physAddr % width.bytes = 0)
    (run : c.read width virtAddr physAddr = (answer, c')) :
    Shows c' flat ∧ (answer = .ok (flat.load physAddr width.bytes) ∨
      answer = .error .vced ∧ m.hasVce = true) := by
  rw [CpuCache.read] at run
  obtain ⟨way, s, ensured, shows', ⟨rfl, holds, found⟩ | ⟨rfl, vce⟩⟩ :=
    shows.ensured direct tellable agree
  all_goals rw [ensured] at run
  · cases run
    refine ⟨shows', .inl ?_⟩
    simp only [dcRead, dcDataAddr, direct.isR5k, Bool.false_eq_true, if_false]
    rw [hostLane_div, hostLane_agree direct agree, found, lane_eq_load aligned,
      shows'.load tellable aligned]
  · cases run
    exact ⟨shows', .inr ⟨rfl, vce⟩⟩

/-! ### Stores -/

theorem Shows.overwrite (holds : c.L1Holds (m.dcIndex virtAddr) physAddr) (bytes : ∀ a, Tellable a →
      byteAt (Function.update c.holdings (physAddr / 8) value) a = flat' a) :
    Shows (markL1dDirty { c with dcData := c.dcData.set (virtAddr % m.dcSize / 8) value }
      (m.dcIndex virtAddr)) flat' := by
  generalize isNew : markL1dDirty
    { c with dcData := c.dcData.set (virtAddr % m.dcSize / 8) value } (m.dcIndex virtAddr) = c'
  have dcData : c'.dcData = c.dcData.set (dcChunk m (m.dcIndex virtAddr) physAddr) value := by
    rw [← isNew, ← dcChunk_dcIndex direct agree]
    rfl
  have downstream : c'.downstream = c.downstream := by rw [← isNew]; rfl
  obtain ⟨inv, current⟩ := shows.inclusive.overwrite direct tellable holds
    (by rw [← isNew]; rfl) dcData (by rw [← isNew]; rfl) (by rw [← isNew]; rfl) downstream
  refine ⟨inv, by rw [downstream]; exact shows.faultless, ?_⟩
  intro a tellable'
  rw [← bytes a tellable', byteAt, byteAt, holdings, current _ tellable'.word,
    Function.update_apply]
  have same : 8 * (a / 8) / 8 = a / 8 := by omega
  rw [same]
  rfl

theorem write_shows (aligned : physAddr % width.bytes = 0)
    (run : c.write width virtAddr physAddr val = (answer, c')) :
    answer = .ok () ∧ Shows c' (flat.store physAddr width.bytes val) ∨
      answer = .error .vced ∧ m.hasVce = true ∧ Shows c' flat := by
  rw [write] at run
  obtain ⟨way, s, ensured, shows', ⟨rfl, holds, found⟩ | ⟨rfl, vce⟩⟩ :=
    shows.ensured direct tellable agree
  all_goals rw [ensured] at run
  · simp only [dcWrite, dcDataAddr, direct.isR5k, Bool.false_eq_true, if_false, Nat.zero_mul,
      Nat.add_zero, hostLane_div, hostLane_agree direct agree, found] at run
    cases run
    refine .inl ⟨rfl, shows'.overwrite direct tellable agree holds ?_⟩
    intro a tellable'
    rw [byteAt_setLane aligned, Flat.store, Flat.store, shows'.bytes a tellable']
  · cases run
    exact .inr ⟨rfl, vce, shows'⟩

theorem write64Masked_shows (aligned : physAddr % 8 = 0)
    (run : c.write64Masked virtAddr physAddr val mask = (answer, c')) :
    answer = .ok () ∧ Shows c' (flat.storeMasked physAddr val mask) ∨
      answer = .error .vced ∧ m.hasVce = true ∧ Shows c' flat := by
  rw [write64Masked] at run
  obtain ⟨way, s, ensured, shows', ⟨rfl, holds, found⟩ | ⟨rfl, vce⟩⟩ :=
    shows.ensured direct tellable agree
  all_goals rw [ensured] at run
  · have single : ∀ addr, hostLane .double addr % Width.double.lanes = 0 := fun _ => Nat.mod_one _
    simp only [dcRead, dcWrite, dcDataAddr, direct.isR5k, Bool.false_eq_true, if_false, Nat.zero_mul,
      Nat.add_zero, hostLane_div, single, lane_double, setLane_double, found] at run
    cases run
    refine .inl ⟨rfl, shows'.overwrite direct tellable agree holds ?_⟩
    intro a tellable'
    rw [byteAt_merge aligned, Flat.storeMasked, Flat.storeMasked, shows'.bytes a tellable']
  · cases run
    exact .inr ⟨rfl, vce, shows'⟩

end

/-! ### Fetches and CACHE operations -/

theorem fetch_keeps (inv : Inclusive c) (faultless : Faultless c.downstream)
    (tellable : Tellable physAddr) (run : c.fetch virtAddr physAddr = (answer, c')) :
    Keeps c c' ∧ ((∃ word, answer = .ok word) ∨ answer = .error .vcei ∧ m.hasVce = true) := by
  rw [fetch] at run
  simp only [direct.isR5k, Bool.false_eq_true, if_false] at run
  split at run
  · cases run
    exact ⟨.refl inv, .inl ⟨_, rfl⟩⟩
  rcases filled : c.fillL1iLine virtAddr physAddr with ⟨way, s⟩
  obtain ⟨kept, outcome⟩ := fillL1iLine_keeps direct inv faultless tellable filled
  rw [filled] at run
  rcases outcome with ⟨way, rfl⟩ | ⟨rfl, vce⟩
  · cases run
    exact ⟨kept, .inl ⟨_, rfl⟩⟩
  · cases run
    exact ⟨kept, .inr ⟨rfl, vce⟩⟩

end

/-- The operations that neither discard data nor bring in data of their own. -/
def CacheOperation.movesLines : CacheOperation → CacheTarget → Bool
  | iinv, _ | ilt, _ | hwbinv, _ => true
  | hwb, target => target != .pi
  | hinv, target => target == .pi
  | ist, _ | cdx, _ | hsv, _ => false

theorem r10kWayIndex_lt (even : numLines % 2 = 0) (positive : 0 < numLines) :
    r10kWayIndex addr line numLines < numLines := by
  have low : addr / line % (numLines / 2) < numLines / 2 := Nat.mod_lt _ (by omega)
  rw [r10kWayIndex]
  rcases Nat.mod_two_eq_zero_or_one addr with way | way <;> rw [way] <;> omega

theorem cacheOpIndex_lt (direct : m.Direct) (operation : CacheOperation) (virtAddr physAddr : Nat) :
    cacheOpIndex m operation .pd virtAddr physAddr < m.dcNumLines ∧
      cacheOpIndex m operation .sd virtAddr physAddr < m.l2NumLines := by
  simp only [cacheOpIndex, direct.isR5k, Bool.false_eq_true, if_false, Nat.zero_mul, Nat.add_zero]
  constructor
  · split
    · exact r10kWayIndex_lt (by rw [direct.dcNumLines]) (by rw [direct.dcNumLines]; decide)
    · exact dcIndex_lt direct virtAddr
  · split
    · exact r10kWayIndex_lt (by rw [direct.l2NumLines]) (by rw [direct.l2NumLines]; decide)
    · exact l2Index_lt direct _

theorem hitL1d_lt (direct : m.Direct) (hit : c.hitL1d virtAddr physAddr = some eidx) :
    eidx < m.dcNumLines := by
  have found := mem_of_find?_eq_some hit
  simp only [direct.ways, range_one, map_cons, map_nil, mem_singleton,
    Nat.zero_mul, Nat.add_zero] at found
  rw [found]
  exact dcIndex_lt direct virtAddr

theorem hitL2_lt (direct : m.Direct) (hit : c.hitL2 physAddr = some idx) : idx < m.l2NumLines := by
  rw [hitL2] at hit
  split at hit
  · cases hit
    exact l2Index_lt direct physAddr
  · cases hit

theorem Keeps.getD {α : Type} (inv : Inclusive c) {hit : Option α} {move : α → CpuCache m}
    (kept : ∀ idx, hit = some idx → Keeps c (move idx)) : Keeps c ((hit.map move).getD c) := by
  cases hit with
  | none => exact .refl inv
  | some idx => exact kept idx rfl

/-- The codes the R10000 reads otherwise only look at the data. -/
theorem r10kOp_same (moves : operation.movesLines target = true)
    (named : c.r10kOp operation target virtAddr physAddr = some answer) : answer.2 = c := by
  rw [r10kOp.eq_def] at named
  split at named
  iterate 4
    · cases named
      rfl
  · cases moves
  · cases moves
  · cases named

section
variable (direct : m.Direct) (inv : Inclusive c) (faultless : Faultless c.downstream)
  (moves : operation.movesLines target = true) (virtAddr : Nat)
  (tellable : operation.fills target = true → Tellable physAddr)
include direct inv faultless moves tellable

theorem r4kOp_keeps : Keeps c (c.r4kOp operation target virtAddr physAddr).2 := by
  have invalidateL1i : ∀ idx, Keeps c (c.invalidateL1iLine idx) :=
    fun _ => inv.of_same rfl rfl rfl rfl rfl
  obtain ⟨dcInside, l2Inside⟩ := cacheOpIndex_lt direct operation virtAddr physAddr
  rw [r4kOp, if_neg (by simp [direct.hasL2])]
  cases operation with
  | iinv =>
    cases target with
    | pi => exact invalidateL1i _
    | pd => exact evictL1d_keeps direct inv dcInside
    | si | sd => exact (evictL2_keeps direct inv faultless l2Inside).1
  | ilt => exact .refl inv
  | hinv =>
    cases target with
    | pi => exact Keeps.getD inv fun idx _ => invalidateL1i idx
    | pd | si | sd => cases moves
  | hwbinv =>
    cases target with
    | pi => exact (fillL1iLine_keeps direct inv faultless (tellable rfl) rfl).1
    | pd => exact Keeps.getD inv fun idx hit =>
      evictL1d_keeps direct inv (hitL1d_lt direct hit)
    | si | sd => exact Keeps.getD inv fun idx hit =>
      (evictL2_keeps direct inv faultless (hitL2_lt direct hit)).1
  | hwb =>
    cases target with
    | pi => cases moves
    | pd => exact Keeps.getD inv fun idx hit =>
      (writebackL1dLine_keeps direct inv (hitL1d_lt direct hit)).1
    | si | sd => exact Keeps.getD inv fun idx hit =>
      (writebackL2Line_keeps direct inv faultless (hitL2_lt direct hit)).1
  | ist | cdx | hsv => cases moves

theorem cacheOp_keeps : Keeps c (c.cacheOp operation target virtAddr physAddr).2 := by
  have r4k := r4kOp_keeps direct inv faultless moves virtAddr tellable
  rw [cacheOp]
  split
  · cases named : c.r10kOp operation target virtAddr physAddr with
    | none => exact r4k
    | some answer =>
      rw [Option.getD_some, r10kOp_same moves named]
      exact .refl inv
  · exact r4k

end

/-! ### Everything back to memory -/

def CleanL1 (c : CpuCache m) : Prop :=
  ∀ idx < m.dcNumLines, (c.dcTags.get idx).dirty = false

/-- Without dirty primary lines, writing a secondary line back changes that
line's tag alone. -/
theorem writebackL2Line_others (direct : m.Direct) (clean : CleanL1 c) (differ : other ≠ idx) :
    (c.writebackL2Line idx).l2Tags.get other = c.l2Tags.get other := by
  have still : ∀ l2Idx pidx physBase, c.forL1dLines l2Idx pidx physBase writebackL1dLine = c := by
    refine forL1dLines_induction direct (fun s => s = c) rfl ?_
    rintro s slot inside rfl
    rw [writebackL1dLine]
    simp [clean slot inside]
  rw [writebackL2Line]
  simp only [direct.isR5k, Bool.false_eq_true, if_false, still, flushL2Line]
  split
  · split
    · exact get_set_of_ne differ
    · rfl
  · rfl

theorem writebackL1_keeps (direct : m.Direct) (inv : Inclusive c) :
    Keeps c ((range m.dcNumLines).foldl (fun c eidx =>
        if (c.dcTags.get eidx).isValid then c.writebackL1dLine eidx else c) c) ∧
      CleanL1 ((range m.dcNumLines).foldl (fun c eidx =>
        if (c.dcTags.get eidx).isValid then c.writebackL1dLine eidx else c) c) := by
  refine foldl_range_invariant (fun k (s : CpuCache m) =>
    Keeps c s ∧ ∀ idx < k, (s.dcTags.get idx).dirty = false)
    ⟨.refl inv, fun _ none => absurd none (Nat.not_lt_zero _)⟩ ?_
  rintro k inside s ⟨kept, clean⟩
  -- An invalid slot is empty, so it is clean already.
  have step : Keeps s (if (s.dcTags.get k).isValid then s.writebackL1dLine k else s) ∧
      ((if (s.dcTags.get k).isValid then s.writebackL1dLine k else s).dcTags.get k).dirty =
        false := by
    split
    · obtain ⟨kept', -, clean'⟩ := writebackL1dLine_keeps direct kept.inclusive inside
      exact ⟨kept', clean'⟩
    next invalid =>
      refine ⟨.refl kept.inclusive, ?_⟩
      rcases kept.inclusive.tagged k inside with ⟨-, clean'⟩ | ⟨page, -, named⟩
      · exact clean'
      · refine absurd ?_ invalid
        rw [L1DTag.isValid]
        simp only [decide_eq_true_eq]
        omega
  refine ⟨kept.trans step.1, ?_⟩
  intro idx below
  rcases Nat.lt_succ_iff_lt_or_eq.mp below with earlier | rfl
  · exact step.1.clean (clean idx earlier)
  · exact step.2

/-- After everything is written back memory has what every address held. -/
theorem writebackAll_shows (direct : m.Direct) (shows : Shows c flat) (tellable : Tellable a) :
    byteAt c.writebackAll.downstream.words a = flat a := by
  obtain ⟨kept, clean⟩ := writebackL1_keeps direct shows.inclusive
  rw [writebackAll]
  simp only [direct.ways, Nat.one_mul, direct.hasL2, if_true]
  generalize (range m.dcNumLines).foldl (fun c eidx =>
    if (c.dcTags.get eidx).isValid then c.writebackL1dLine eidx else c) c = s at *
  obtain ⟨kept', clean'⟩ : Keeps s ((range m.l2NumLines).foldl writebackL2Line s) ∧
      ∀ idx < m.l2NumLines,
        (((range m.l2NumLines).foldl writebackL2Line s).l2Tags.get idx).cs.isDirty = false := by
    refine foldl_range_invariant (fun k (t : CpuCache m) =>
      Keeps s t ∧ ∀ idx < k, (t.l2Tags.get idx).cs.isDirty = false)
      ⟨.refl kept.inclusive, fun _ none => absurd none (Nat.not_lt_zero _)⟩ ?_
    rintro k inside t ⟨kept', clean'⟩
    have faultless := kept'.faultless (kept.faultless shows.faultless)
    obtain ⟨kept'', -, flushed⟩ := writebackL2Line_keeps direct kept'.inclusive faultless inside
    refine ⟨kept'.trans kept'', ?_⟩
    intro idx below
    by_cases same : idx = k
    · rw [same]
      exact flushed.l2
    · rw [writebackL2Line_others direct (fun slot within => kept'.clean (clean slot within)) same]
      exact clean' idx (by omega)
  generalize (range m.l2NumLines).foldl writebackL2Line s = t at *
  have shows' := (kept.trans kept').shows shows
  have memory : t.holdings (a / 8) = t.downstream.words (a / 8) := by
    rw [holdings, shows'.inclusive.current_of_clean direct tellable.word
      fun idx holds => kept'.clean (clean idx holds.1.1), below]
    have word : 8 * (a / 8) / 8 = a / 8 := by omega
    split
    next holds =>
      rw [shows'.inclusive.cleanL2 _ tellable.word holds (clean' _ (l2Index_lt direct _)), word]
    · rw [word]
  rw [← shows'.bytes a tellable, byteAt, byteAt, memory]

end Iris.Cpu.Cache
