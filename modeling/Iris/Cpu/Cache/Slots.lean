import Iris.Cpu.Cache.Ops

/-!
Owns the address arithmetic of the direct-mapped caches with a secondary
cache: which slots a physical line can be in, that a slot and its tag name one
line, and where the doublewords of a line sit in the data arrays.
-/

namespace Iris.Cpu.Cache

open Model

/-- The models with direct-mapped primary caches and a secondary cache. -/
def Model.Direct (m : Model) : Prop := m ≠ .r5000

/-- The physical addresses a secondary tag can tell apart. -/
def Tellable (physAddr : Nat) : Prop := physAddr < 2 ^ 36

/-- The CACHE operations that name a line by the address they present: Create Dirty
Exclusive and Fill. The Index operations get an untranslated virtual address. -/
def CacheOperation.fills : CacheOperation → CacheTarget → Bool
  | cdx, _ | hwbinv, .pi => true
  | _, _ => false

namespace Model

variable {m : Model}

variable (direct : m.Direct)
include direct

theorem Direct.isR5k : m.isR5k = false := by
  cases m <;> simp_all [Direct, isR5k]

theorem Direct.hasL2 : m.hasL2 = true := by
  cases m <;> simp_all [Direct, hasL2]

theorem Direct.ways : m.ways = 1 := by
  cases m <;> simp_all [Direct, ways]

theorem Direct.dcNumLines : m.dcNumLines = 1024 := by
  cases m <;> simp_all [Direct, Model.dcNumLines, dcSize, dcLine, Model.ways]

theorem Direct.dcTags : m.dcTags = 1024 := by
  cases m <;> simp_all [Direct, dcTags, dcSize, dcLine]

theorem Direct.l2NumLines : m.l2NumLines = 8192 := by
  cases m <;> simp_all [Direct, l2NumLines, l2CacheSize, l2Line]

theorem Direct.l2CacheSize : m.l2CacheSize = 8192 * 128 := by
  cases m <;> simp_all [Direct, l2CacheSize]

theorem Direct.dcSize : m.dcSize = 1024 * m.dcLine := by
  cases m <;> simp_all [Direct, dcSize, dcLine]

theorem Direct.dcLine :
    m.dcLine = 16 ∧ m.dcChunksPerLine = 2 ∨ m.dcLine = 32 ∧ m.dcChunksPerLine = 4 := by
  cases m <;> simp_all [Direct, dcLine, dcChunksPerLine]

end Model

variable {m : Model}

/-! ### Slots of a line -/

/-- The primary slot of a physical address under a recorded virtual index. -/
def slotUnder (m : Model) (pidx physAddr : Nat) : Nat :=
  m.dcIndex (pidx * 0x1000 + physAddr % 0x1000)

/-- A primary slot the line of `physAddr` can be in: their page offsets agree. -/
def Candidate (m : Model) (idx physAddr : Nat) : Prop :=
  idx < m.dcNumLines ∧ idx * m.dcLine % 0x1000 = alignDown (physAddr % 0x1000) m.dcLine

/-- Where the doubleword at `physAddr` sits in primary slot `idx`. -/
def dcChunk (m : Model) (idx physAddr : Nat) : Nat :=
  idx * m.dcChunksPerLine + physAddr % m.dcLine / 8

/-- Where the doubleword at `physAddr` sits in the secondary data. -/
def l2Chunk (m : Model) (physAddr : Nat) : Nat :=
  m.l2Index physAddr * l2ChunksPerLine + physAddr % l2Line / 8

def SameLine (m : Model) (physAddr other : Nat) : Prop :=
  physAddr / m.dcLine = other / m.dcLine

variable {physAddr other idx : Nat}

section
variable (direct : m.Direct)
include direct

theorem candidate_dcIndex (agree : virtAddr % 0x1000 = physAddr % 0x1000) :
    Candidate m (m.dcIndex virtAddr) physAddr := by
  rcases direct.dcLine with line | line <;>
    simp only [Candidate, dcIndex, direct.dcNumLines, line, alignDown] <;> omega

theorem candidate_slotUnder {pidx : Nat} : Candidate m (slotUnder m pidx physAddr) physAddr :=
  candidate_dcIndex direct (by omega)

theorem dcIndex_lt (virtAddr : Nat) : m.dcIndex virtAddr < m.dcNumLines := by
  apply Nat.mod_lt
  rw [direct.dcNumLines]
  decide

theorem slotUnder_pidx (agree : virtAddr % 0x1000 = physAddr % 0x1000) :
    slotUnder m (pidx virtAddr) physAddr = m.dcIndex virtAddr := by
  rcases direct.dcLine with line | line <;>
    simp only [slotUnder, pidx, dcIndex, direct.dcNumLines, line] <;> omega

/-- A slot and the page in its tag name one line. -/
theorem Candidate.sameLine (first : Candidate m idx physAddr) (second : Candidate m idx other)
    (page : alignDown physAddr 0x1000 = alignDown other 0x1000) : SameLine m physAddr other := by
  obtain ⟨-, first⟩ := first
  obtain ⟨-, second⟩ := second
  rcases direct.dcLine with line | line <;>
    simp only [SameLine, alignDown, line] at * <;> omega

theorem Candidate.of_sameLine (candidate : Candidate m idx physAddr)
    (same : SameLine m physAddr other) : Candidate m idx other := by
  obtain ⟨inside, offset⟩ := candidate
  refine ⟨inside, ?_⟩
  rcases direct.dcLine with line | line <;>
    simp only [SameLine, alignDown, line] at * <;> omega

section
variable (same : SameLine m physAddr other)
include same

theorem SameLine.page : alignDown physAddr 0x1000 = alignDown other 0x1000 := by
  rcases direct.dcLine with line | line <;>
    simp only [SameLine, alignDown, line] at * <;> omega

theorem SameLine.l2Line : physAddr / 128 = other / 128 := by
  rcases direct.dcLine with line | line <;>
    simp only [SameLine, line] at * <;> omega

theorem SameLine.slotUnder (pidx : Nat) : slotUnder m pidx physAddr = slotUnder m pidx other := by
  rcases direct.dcLine with line | line <;>
    simp only [SameLine, Cache.slotUnder, dcIndex, direct.dcNumLines, line] at * <;> omega

end

/-! ### Secondary slots -/

theorem l2Index_lt (physAddr : Nat) : m.l2Index physAddr < m.l2NumLines := by
  simp only [l2Index, direct.l2NumLines, l2Line]
  omega

end

theorem l2Index_of_line (same : physAddr / 128 = other / 128) :
    m.l2Index physAddr = m.l2Index other := by
  simp only [l2Index, l2Line, same]

theorem l2Ptag_of_line (same : physAddr / 128 = other / 128) : l2Ptag physAddr = l2Ptag other := by
  simp only [l2Ptag]
  omega

section
variable (direct : m.Direct)
include direct

/-- A secondary slot and its tag name one line. -/
theorem l2Line_of_slot (tellable : Tellable physAddr) (tellable' : Tellable other)
    (slot : m.l2Index physAddr = m.l2Index other) (tag : l2Ptag physAddr = l2Ptag other) :
    physAddr / 128 = other / 128 := by
  simp only [l2Index, direct.l2NumLines, l2Line, l2Ptag, Tellable] at *
  omega

theorem l2TagToPhys_slot (inside : idx < m.l2NumLines) (fits : tag.ptag < 2 ^ 19)
    (consistent : tag.ptag % 8 = idx / 1024) :
    m.l2Index (l2TagToPhys tag (idx * l2Line)) = idx ∧
      l2Ptag (l2TagToPhys tag (idx * l2Line)) = tag.ptag ∧
      Tellable (l2TagToPhys tag (idx * l2Line)) ∧
      l2TagToPhys tag (idx * l2Line) % 128 = 0 := by
  rw [direct.l2NumLines] at inside
  simp only [l2Index, direct.l2NumLines, l2Line, l2Ptag, l2TagToPhys, Tellable]
  omega

/-! ### Chunks -/

theorem dcChunk_lt (inside : idx < m.dcNumLines) : dcChunk m idx physAddr < m.dcSize / 8 := by
  simp only [direct.dcNumLines] at inside
  rcases direct.dcLine with line | line <;>
    simp only [dcChunk, direct.dcSize, line] <;> omega

theorem l2Chunk_lt {physAddr : Nat} : l2Chunk m physAddr < m.l2CacheSize / 8 := by
  have inside := l2Index_lt direct physAddr
  simp only [direct.l2NumLines] at inside
  simp only [l2Chunk, direct.l2CacheSize, l2ChunksPerLine, l2Line]
  omega

theorem dcChunk_mem {idx : Nat} (physAddr slot : Nat) :
    slot * m.dcChunksPerLine ≤ dcChunk m idx physAddr ∧
      dcChunk m idx physAddr < slot * m.dcChunksPerLine + m.dcChunksPerLine ↔ idx = slot := by
  rcases direct.dcLine with line | line <;>
    simp only [dcChunk, line] <;> omega

/-- The chunks a primary line has in the secondary line around it. -/
theorem l2Chunk_mem (same : physAddr / 128 = other / 128) (aligned : other % m.dcLine = 0) :
    l2Chunk m other ≤ l2Chunk m physAddr ∧
      l2Chunk m physAddr < l2Chunk m other + m.dcChunksPerLine ↔ SameLine m physAddr other := by
  have slot := l2Index_of_line (m := m) same
  rcases direct.dcLine with line | line <;>
    simp only [l2Chunk, SameLine, l2ChunksPerLine, l2Line, line, slot] at * <;>
    omega

theorem l2Chunk_offset (same : SameLine m physAddr other) (aligned : other % m.dcLine = 0)
    (idx : Nat) :
    idx * m.dcChunksPerLine + (l2Chunk m physAddr - l2Chunk m other) = dcChunk m idx physAddr := by
  have slot := l2Index_of_line (m := m) (same.l2Line direct)
  rcases direct.dcLine with line | line <;>
    simp only [l2Chunk, dcChunk, SameLine, l2ChunksPerLine, l2Line, line,
      slot] at * <;> omega

end

/-! ### The primary lines of a secondary line -/

def walkSlot (m : Model) (pidx physBase i : Nat) : Nat :=
  slotUnder m pidx (physBase + i * m.dcLine)

theorem walkSlot_lt (direct : m.Direct) {pidx : Nat} : walkSlot m pidx physBase i < m.dcNumLines :=
  dcIndex_lt direct _

/-- The slots the source walks through are those of the line's addresses. -/
theorem walk_slot (direct : m.Direct) {pidx physBase : Nat} (slot : m.l2Index physBase = l2Idx)
    (aligned : physBase % 128 = 0) (inside : i < l2Line / m.dcLine) :
    (CpuCache.l2IdxToL1BaseIdx l2Idx pidx m.dcLine m.dcNumLines + i) % m.dcNumLines =
      walkSlot m pidx physBase i := by
  rcases direct.dcLine with line | line <;>
    simp only [CpuCache.l2IdxToL1BaseIdx, walkSlot, slotUnder, dcIndex, l2Index, l2Line,
      direct.dcNumLines, direct.l2NumLines, line] at * <;> omega

theorem walk_reaches (direct : m.Direct) (aligned : physBase % 128 = 0)
    (same : physAddr / 128 = physBase / 128) :
    ∃ i < l2Line / m.dcLine, SameLine m (physBase + i * m.dcLine) physAddr := by
  refine ⟨physAddr % 128 / m.dcLine, ?_, ?_⟩ <;>
    rcases direct.dcLine with line | line <;>
    simp only [SameLine, l2Line, line] <;> omega

end Iris.Cpu.Cache
