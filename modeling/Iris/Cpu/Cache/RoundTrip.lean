import Iris.Cpu.Cache.Alike
import Iris.Cpu.Cache.Transparent

/-!
Owns the round trip of a cache through its snapshot. A reachable cache loaded
over any earlier contents has its tags, data and replacement bits again, the
second ways of the R5000 apart, and its instruction lines have the words of the
secondary cache or of memory. Where the cache held those words, every later
load, store and CACHE operation answers as it would have.
-/

namespace Iris.Cpu.Cache

open CpuCache Library.Run Table

variable {m : Model}

/-! ### Reachable caches -/

def runOps (c : CpuCache m) (ops : List Op) : CpuCache m :=
  ops.foldl (fun c op => (step c op).2) c

/-- Reached over some memory, by operations whose physical addresses have 36
bits. -/
def Reachable (c : CpuCache m) : Prop :=
  ∃ bus ops, (∀ op ∈ ops, op.Names Tellable) ∧ c = runOps (new m bus) ops

theorem new_alike (Named : Nat → Prop) (bus : Bus) :
    Alike Named (new m bus) (new m bus) where
  same := ⟨⟨_, _, _⟩, rfl⟩
  l2Instrs _ := rfl
  words _ _ _ _ _ _ := rfl
  icNames idx := by
    have empty : (new m bus).icTags.get idx = {} := get_fill_default idx
    rw [empty]
    exact .inl rfl
  dcNames idx := by
    have empty : (new m bus).dcTags.get idx = {} := get_fill_default idx
    rw [empty]
    exact .inl ⟨rfl, rfl⟩
  l2Fits idx := by
    have empty : (new m bus).l2Tags.get idx = {} := get_fill_default idx
    rw [empty]
    exact ⟨by decide, by decide⟩
  l2Unused _ := rfl
  link := (by decide : 0 < 2 ^ 64)

variable {c d : CpuCache m}

theorem Reachable.alike (reached : Reachable c) : Alike Tellable c c := by
  obtain ⟨bus, ops, names, rfl⟩ := reached
  refine List.foldlRecOn ops _ (motive := fun c => Alike Tellable c c) (new_alike Tellable bus) ?_
  exact fun c alike op member => step_alike_self (fun _ tellable => tellable) alike (names op member)

/-- Addresses of 36 bits fit the words of the tags. -/
theorem Alike.savable (alike : Alike Tellable c c) : c.Savable where
  ic idx := by
    rcases alike.icNames idx with empty | ⟨physAddr, tellable, page⟩
    · exact .inl empty
    · refine .inr ⟨physAddr / 0x1000, ?_, by rw [page, alignDown]⟩
      simp only [Tellable] at tellable
      omega
  dc idx := by
    rcases alike.dcNames idx with empty | ⟨physAddr, tellable, page, valid⟩
    · exact .inl empty
    · refine .inr ⟨physAddr / 0x1000, ?_, by rw [page, alignDown], valid⟩
      simp only [Tellable] at tellable
      omega
  l2 := alike.l2Fits
  lladdr := alike.link

/-! ### What comes back -/

/-- The loader reads as many primary tags as there are sets: on the R5000 the
tags of the second ways stay those of the cache loaded into. -/
def SecondWaysKept (c d : CpuCache m) : Prop :=
  m.isR5k = true → (∀ idx, m.icNumLines ≤ idx → d.icTags.get idx = c.icTags.get idx) ∧
    ∀ idx, m.dcNumLines ≤ idx → d.dcTags.get idx = c.dcTags.get idx

/-- Where instruction words can be written back: the decode slots have the
words of the secondary data, and the valid instruction lines those the loader
would give them. -/
def WordsFresh (c : CpuCache m) : Prop :=
  m.WritesWords → (∀ j < m.l2Ninstrs, c.l2Instrs.get j = wordOf c.l2Data.get j) ∧
      ∀ eidx < m.icTags, (c.icTags.get eidx).isValid = true →
        ∀ i < m.icInstrsPerLine, c.l1iWord eidx i = c.rebuiltWord eidx i

section
variable {n count : Nat} {α : Type} [Inhabited α] {table other : Table n α}

/-- Taking over the first slots of a table gives the table where the rest is
the same. -/
theorem copyList_take_eq (rest : ∀ idx, count ≤ idx → table.get idx = other.get idx) :
    table.copyList (other.toList.take count) = other := by
  apply ext
  intro slot inside
  rw [get_copyList_take inside]
  split
  · rfl
  · exact rest slot (by omega)

theorem rest_of_oneWay (all : n ≤ count) (idx : Nat) (beyond : count ≤ idx) :
    table.get idx = other.get idx := by
  simp [Table.get, not_lt.mpr (all.trans beyond)]

end

section
variable (alike : Alike Tellable c c) (alike' : Alike Tellable d d)
include alike alike'

theorem l2Data_restored : (if m.hasL2 then c.l2Data else d.l2Data) = c.l2Data := by
  split
  · rfl
  next none => rw [alike.l2Unused (by simpa using none), alike'.l2Unused (by simpa using none)]

theorem restored_eq (ways : SecondWaysKept c d) :
    c.restored { d with downstream := c.downstream } = c.withWords
      ⟨if m.isR5k then d.l2Instrs else d.l2Instrs.copyIn 0 m.l2Ninstrs (wordOf c.l2Data.get),
        d.icInstrs, d.icRaw⟩ := by
  have icTags : d.icTags.copyList (c.icTags.toList.take m.icNumLines) = c.icTags := by
    apply copyList_take_eq
    cases m with
    | r5000 => exact (ways rfl).1
    | r4400 | r10000 => exact rest_of_oneWay (by decide)
  have dcTags : d.dcTags.copyList (c.dcTags.toList.take m.dcNumLines) = c.dcTags := by
    apply copyList_take_eq
    cases m with
    | r5000 => exact (ways rfl).2
    | r4400 | r10000 => exact rest_of_oneWay (by decide)
  simp only [restored, icTags, dcTags, l2Data_restored alike alike']
  rfl

end

theorem l2Instrs_restored (mirror : ∀ j < m.l2Ninstrs, c.l2Instrs.get j = wordOf c.l2Data.get j) :
    (if m.isR5k then d.l2Instrs else d.l2Instrs.copyIn 0 m.l2Ninstrs (wordOf c.l2Data.get)) =
      c.l2Instrs := by
  apply ext
  intro j inside
  split
  next r5k =>
    have none : m.l2Ninstrs = 0 := by
      cases m with
      | r5000 => rfl
      | r4400 | r10000 => exact nomatch r5k
    omega
  · rw [get_copyIn inside, if_pos (by omega), mirror j inside, Nat.sub_zero]

/-- Where the loader gives each valid line the words it had, the loaded cache
is alike. -/
theorem restored_alike (alike : Alike Tellable c c) (alike' : Alike Tellable d d)
    (ways : SecondWaysKept c d) (fresh : WordsFresh c) :
    Alike (fun _ => True) c
      (c.restored { d with downstream := c.downstream }).rebuildL1iWords := by
  rw [restored_eq alike alike' ways]
  generalize slots : (if m.isR5k then d.l2Instrs
    else d.l2Instrs.copyIn 0 m.l2Ninstrs (wordOf c.l2Data.get)) = l2Instrs
  have spec := rebuildL1iWords_spec (c.withWords ⟨l2Instrs, d.icInstrs, d.icRaw⟩)
  generalize (c.withWords ⟨l2Instrs, d.icInstrs, d.icRaw⟩).rebuildL1iWords = rebuilt at spec ⊢
  obtain ⟨⟨icInstrs, icRaw, rfl⟩, words⟩ := spec
  have mirrored : m.WritesWords → l2Instrs = c.l2Instrs := fun writes =>
    slots.symm.trans (l2Instrs_restored (fresh writes).1)
  constructor
  · exact ⟨⟨l2Instrs, icInstrs, icRaw⟩, rfl⟩
  · exact mirrored
  · intro writes eidx inside valid i below
    have sameWords := mirrored writes
    subst sameWords
    have count : m.ways * m.icNumLines = m.icTags := by cases m <;> rfl
    rw [words eidx (count ▸ inside) valid i below, (fresh writes).2 eidx inside valid i below]
    rfl
  · intro idx
    exact (alike.icNames idx).imp id fun ⟨physAddr, _, page⟩ => ⟨physAddr, trivial, page⟩
  · intro idx
    exact (alike.dcNames idx).imp id fun ⟨physAddr, _, page⟩ => ⟨physAddr, trivial, page⟩
  · exact alike.l2Fits
  · exact alike.l2Unused
  · exact alike.link

/-- What the snapshot records comes back, whatever the cache loaded into held. -/
structure Returns (c restored : CpuCache m) : Prop where
  icTags : ∀ idx < m.icNumLines, restored.icTags.get idx = c.icTags.get idx
  dcTags : ∀ idx < m.dcNumLines, restored.dcTags.get idx = c.dcTags.get idx
  l2Tags : restored.l2Tags = c.l2Tags
  dcData : restored.dcData = c.dcData
  l2Data : restored.l2Data = c.l2Data
  icLru : restored.icLru = c.icLru
  dcLru : restored.dcLru = c.dcLru
  llbit : restored.llbit = c.llbit
  lladdr : restored.lladdr = c.lladdr
  words : ∀ eidx < m.icTags, (restored.icTags.get eidx).isValid = true →
    ∀ i < m.icInstrsPerLine, restored.l1iWord eidx i = restored.rebuiltWord eidx i

theorem restored_returns (l2Data : (if m.hasL2 then c.l2Data else d.l2Data) = c.l2Data) :
    Returns c (c.restored d).rebuildL1iWords := by
  have lines : m.icNumLines ≤ m.icTags ∧ m.dcNumLines ≤ m.dcTags := by cases m <;> decide
  have icTags : ∀ idx < m.icNumLines, (c.restored d).icTags.get idx = c.icTags.get idx :=
    fun idx below =>
      (get_copyList_take (below.trans_le lines.1)).trans (if_pos below)
  have dcTags : ∀ idx < m.dcNumLines, (c.restored d).dcTags.get idx = c.dcTags.get idx :=
    fun idx below =>
      (get_copyList_take (below.trans_le lines.2)).trans (if_pos below)
  have spec := rebuildL1iWords_spec (c.restored d)
  have unchanged : (c.restored d).l2Tags = c.l2Tags ∧ (c.restored d).dcData = c.dcData ∧
      (c.restored d).l2Data = c.l2Data ∧ (c.restored d).icLru = c.icLru ∧
      (c.restored d).dcLru = c.dcLru ∧ (c.restored d).llbit = c.llbit ∧
      (c.restored d).lladdr = c.lladdr :=
    ⟨rfl, rfl, l2Data, rfl, rfl, rfl, rfl⟩
  generalize c.restored d = loaded at *
  generalize loaded.rebuildL1iWords = rebuilt at *
  obtain ⟨⟨icInstrs, icRaw, rfl⟩, words⟩ := spec
  obtain ⟨l2Tags, dcData, l2Data, icLru, dcLru, llbit, lladdr⟩ := unchanged
  have count : m.ways * m.icNumLines = m.icTags := by cases m <;> rfl
  exact ⟨icTags, dcTags, l2Tags, dcData, l2Data, icLru, dcLru, llbit, lladdr,
    fun eidx inside valid i below => words eidx (count ▸ inside) valid i below⟩

/-- The later operations whose answers do not show the instruction words of
slots without a line: all but Index Store Tag on an instruction cache that
writes its words back. -/
def Op.Follows (m : Model) (op : Op) : Prop :=
  op.Names (fun _ => True) ∧ (op.storesInstructionTag = true → ¬m.WritesWords)

theorem snapshot_round_trip {c d : CpuCache m} (reached : Reachable c) (earlier : Reachable d) :
    ∃ restored, loadCacheState c.saveCacheState { d with downstream := c.downstream } =
        .ok restored ∧ Returns c restored ∧
      (SecondWaysKept c d → WordsFresh c → ∀ later : List Op, (∀ op ∈ later, op.Follows m) →
        answers restored later = answers c later) := by
  have alike := reached.alike
  have alike' := earlier.alike
  have l2Data := l2Data_restored alike alike'
  refine ⟨_, load_save alike.savable, restored_returns l2Data, ?_⟩
  intro ways fresh later follows
  apply answers_alike (fun _ _ => trivial) (restored_alike alike alike' ways fresh)
  · exact fun op member => (follows op member).1
  · exact fun op member => (follows op member).2

/-- A stored byte is loaded back from the snapshot of an R10000. -/
theorem snapshot_round_trip_store :
    ∃ restored, loadCacheState
        (runOps (.new .r10000 zeroBus) [.write .byte 0x2001 0x9001 0xab]).saveCacheState
        { (runOps (new .r10000 zeroBus) [.write .byte 1 1 7]) with
          downstream := (runOps (new .r10000 zeroBus)
            [.write .byte 0x2001 0x9001 0xab]).downstream } = .ok restored ∧
      answers restored [.read .byte 0x3001 0x9001] = [.loaded (.ok 0xab)] := by
  obtain ⟨restored, loaded, -, later⟩ := snapshot_round_trip (m := .r10000)
    ⟨zeroBus, [.write .byte 0x2001 0x9001 0xab], by simp [Op.Names, Tellable], rfl⟩
    ⟨zeroBus, [.write .byte 1 1 7], by simp [Op.Names, Tellable], rfl⟩
  refine ⟨restored, loaded, ?_⟩
  rw [later (nofun) (fun writes => absurd rfl writes)
    [.read .byte 0x3001 0x9001] (by simp [Op.Follows, Op.Names, Op.storesInstructionTag])]
  decide +kernel

/-- An instruction line filled before a store to its memory. The store is in
the secondary cache, the instruction line has the word from before. -/
def staleLine : CpuCache .r4400 :=
  runOps (.new .r4400 zeroBus)
    [.cache .hwbinv .pi 0 0, .write .word 0 0 5, .cache .iinv .pd 0 0]

/-- The valid instruction line comes back with the stored word. -/
theorem snapshot_refreshes_stale_line :
    ∃ restored, loadCacheState staleLine.saveCacheState
        { new .r4400 zeroBus with downstream := staleLine.downstream } = .ok restored ∧
      (staleLine.icTags.get 0).isValid = true ∧
      staleLine.l1iWord 0 0 = 0 ∧ restored.l1iWord 0 0 = 5 := by
  have reached : Reachable staleLine :=
    ⟨zeroBus, _, by simp [Op.Names, Tellable], rfl⟩
  have empty : Reachable (new .r4400 zeroBus) := ⟨zeroBus, [], by simp, rfl⟩
  refine ⟨_, load_save reached.alike.savable, by decide +kernel, by decide +kernel, ?_⟩
  rw [restored_eq reached.alike empty.alike (nofun),
    (rebuildL1iWords_spec _).2 0 (by decide) (by decide +kernel) 0 (by decide)]
  decide +kernel

end Iris.Cpu.Cache
