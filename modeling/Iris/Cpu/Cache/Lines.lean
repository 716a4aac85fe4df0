import Iris.Cpu.Cache.Tags
import Iris.Library.Table
import Iris.Library.BigEndian

/-!
Owns the cache as one state and the movements of its lines: written back,
invalidated and filled, between memory, the secondary cache and the primary
caches.

Memory is doublewords in big-endian order. A doubleword whose device reports an
error stops a block transfer there. The host-memory window is absent, so a fill
always goes over the bus. Decode slots carry the instruction word; decode flags
and the fused next word are derived from it and left out. The success flag of a
write-back, which no caller reads, is left out, and so is the cascade no caller
here asks for.
-/

namespace Iris.Cpu.Cache

open Model

/-! ### Memory below the caches -/

structure Bus where
  words : Nat → BitVec 64
  faults : Nat → Bool

namespace Bus

/-- How many of `count` doublewords from `start` come before an error. -/
def reach (bus : Bus) (start : Nat) : Nat → Nat
  | 0 => 0
  | count + 1 => if bus.faults start then 0 else bus.reach (start + 1) count + 1

/-- Write `count` doublewords from `addr`, up to the first error. -/
def writeBlock (bus : Bus) (addr count : Nat) (source : Nat → BitVec 64) : Bool × Bus :=
  let start := addr / 8
  let done := bus.reach start count
  (decide (done = count),
    { bus with words := fun d =>
        if start ≤ d ∧ d < start + done then source (d - start) else bus.words d })

end Bus

/-- Word `i` of doublewords, the high half first. -/
def wordOf (source : Nat → BitVec 64) (i : Nat) : BitVec 32 :=
  (source (i / 2)).extractLsb' (if i % 2 = 0 then 32 else 0) 32

def Bus.read32 (bus : Bus) (addr : Nat) : Option (BitVec 32) :=
  if bus.faults (addr / 8) then none else some (wordOf bus.words (addr / 4))

/-! ### The cache -/

structure CpuCache (m : Model) where
  downstream : Bus
  icTags : Table m.icTags L1ITag
  dcTags : Table m.dcTags L1DTag
  dcData : Table (m.dcSize / 8) (BitVec 64)
  l2Tags : Table m.l2NumLines L2Tag
  l2Data : Table (m.l2CacheSize / 8) (BitVec 64)
  l2Instrs : Table m.l2Ninstrs (BitVec 32)
  icInstrs : Table m.icInstrSlots (BitVec 32)
  icRaw : Table m.icRawWords (BitVec 32)
  icLru : Table (m.lruWords m.icNumLines) (BitVec 64)
  dcLru : Table (m.lruWords m.dcNumLines) (BitVec 64)
  llbit : Bool
  lladdr : Nat

/-- Exceptions an access reports instead of completing. -/
inductive Fault
  | vced
  | vcei
  | dbe
  | ibe
deriving DecidableEq, Repr

variable {m : Model}

namespace CpuCache

def new (m : Model) (downstream : Bus) : CpuCache m where
  downstream := downstream
  icTags := .fill _ {}
  dcTags := .fill _ {}
  dcData := .fill _ 0
  l2Tags := .fill _ {}
  l2Data := .fill _ 0
  l2Instrs := .fill _ 0
  icInstrs := .fill _ 0
  icRaw := .fill _ 0
  icLru := .fill _ 0
  dcLru := .fill _ 0
  llbit := false
  lladdr := 0

/-! ### Replacement bits -/

def lruGet {words : Nat} (bitmap : Table words (BitVec 64)) (set : Nat) : Nat :=
  ((bitmap.get (set / 64) >>> (set % 64)) &&& 1).toNat

def lruSet {words : Nat} (bitmap : Table words (BitVec 64)) (set value : Nat) :
    Table words (BitVec 64) :=
  let mask : BitVec 64 := 1 <<< (set % 64)
  bitmap.set (set / 64)
    ((bitmap.get (set / 64) &&& ~~~mask) ||| (BitVec.ofNat 64 value <<< (set % 64)))

/-! ### Invalidation and write-back -/

variable (c : CpuCache m) (idx virtAddr physAddr : Nat)

def invalidateL1iLine : CpuCache m :=
  { c with icTags := c.icTags.set idx {} }

/-- Meant to break the link when its line goes: the branch for that line is empty. -/
def checkAndClearLlbit : CpuCache m :=
  if c.llbit = false then c
  else if alignDown physAddr m.dcLine = alignDown (c.lladdr * 16) m.dcLine then c
  else c

/-- Software asks for a `coherent` invalidation, evictions do not. -/
def invalidateL1dLine (coherent : Bool) (c : CpuCache m) (idx : Nat) : CpuCache m :=
  let tag := c.dcTags.get idx
  let c := if coherent ∧ tag.cs ≠ .invalid then
      c.checkAndClearLlbit (l1dTagToPhys tag (idx * m.dcLine))
    else c
  { c with dcTags := c.dcTags.set idx {} }

theorem invalidateL1dLine_eq (coherent : Bool) (c : CpuCache m) (idx : Nat) :
    c.invalidateL1dLine coherent idx = { c with dcTags := c.dcTags.set idx {} } := by
  have same : ∀ physAddr, c.checkAndClearLlbit physAddr = c := fun physAddr => by
    unfold checkAndClearLlbit
    split_ifs <;> rfl
  simp only [invalidateL1dLine, same, ite_self]

/-- The slot that holds `physAddr` in the secondary cache, if it does. -/
def hitL2 : Option Nat :=
  let idx := m.l2Index physAddr
  let tag := c.l2Tags.get idx
  if m.hasL2 ∧ tag.ptag = l2Ptag physAddr ∧ tag.cs ≠ .invalid then some idx else none

/-- Put `count` doublewords of `source` into the secondary data at chunk
`start`, and their words into the decode slots where those live there. -/
def putL2 (start count : Nat) (source : Nat → BitVec 64) : CpuCache m :=
  { c with
    l2Data := c.l2Data.copyIn start count source
    l2Instrs := c.l2Instrs.copyIn (2 * start) (2 * count) (wordOf source) }

def dcLineData (i : Nat) : BitVec 64 :=
  c.dcData.get (idx * m.dcChunksPerLine + i)

/-- Write a dirty primary data line down to the secondary cache, or on an
R5000 whose secondary cache does not hold it to memory. -/
def writebackL1dLine (l1Idx : Nat) : CpuCache m :=
  let tag := c.dcTags.get l1Idx
  if tag.dirty then
    let physAddr := l1dTagToPhys tag (l1Idx * m.dcLine)
    let l2Idx := m.l2Index physAddr
    let l2Tag := c.l2Tags.get l2Idx
    let demote := c.dcTags.set l1Idx tag.demoted
    if m.isR5k ∧ (¬m.hasL2 ∨ l2Tag.cs = .invalid ∨ l2Tag.ptag ≠ l2Ptag physAddr) then
      { c with
        downstream := (c.downstream.writeBlock (alignDown physAddr m.dcLine) m.dcChunksPerLine
          (c.dcLineData l1Idx)).2
        dcTags := demote }
    -- An inclusive secondary cache holds the line: this exit is never taken.
    else if ¬m.isR5k ∧ l2Tag.ptag ≠ l2Ptag physAddr then c
    else
      let offset := physAddr % l2Line / 8
      { c.putL2 (l2Idx * l2ChunksPerLine + offset) m.dcChunksPerLine (c.dcLineData l1Idx) with
        l2Tags := c.l2Tags.set l2Idx { l2Tag with cs := l2Tag.cs.written }
        dcTags := demote }
  else c

/-- Slot of the first primary line of secondary slot `l2Idx`, under the
virtual index recorded for it. -/
def l2IdxToL1BaseIdx (l2Idx pidx line numLines : Nat) : Nat :=
  (pidx * 0x1000 + l2Idx * l2Line % 0x1000) / line % numLines

/-- Visit the primary data slots the lines of a secondary line have under
`pidx`, those that hold them. -/
def forL1dLines (l2Idx pidx physBase : Nat) (visit : CpuCache m → Nat → CpuCache m) : CpuCache m :=
  let base := l2IdxToL1BaseIdx l2Idx pidx m.dcLine m.dcNumLines
  (List.range (l2Line / m.dcLine)).foldl (fun c i =>
    let dcIdx := (base + i) % m.dcNumLines
    if (c.dcTags.get dcIdx).matchesPhys (physBase + i * m.dcLine) then visit c dcIdx else c) c

/-- Invalidate the primary instruction slots of a secondary line. -/
def dropL1iLines (l2Idx pidx physBase : Nat) : CpuCache m :=
  let base := l2IdxToL1BaseIdx l2Idx pidx m.icLine m.icNumLines
  (List.range (l2Line / m.icLine)).foldl (fun c i =>
    let icIdx := (base + i) % m.icNumLines
    if (c.icTags.get icIdx).matchesPhys (physBase + i * m.icLine) then c.invalidateL1iLine icIdx
    else c) c

/-- The memory half of a write-back: the data of a dirty secondary line goes to
its address. -/
def flushL2Line : CpuCache m :=
  let tag := c.l2Tags.get idx
  if tag.cs.isDirty then
    let (ok, downstream) := c.downstream.writeBlock physAddr l2ChunksPerLine
      fun i => c.l2Data.get (idx * l2ChunksPerLine + i)
    if ok then
      { c with
        downstream := downstream
        l2Tags := c.l2Tags.set idx { tag with cs := tag.cs.cleaned } }
    else { c with downstream := downstream }
  else c

/-- Write a dirty secondary line back to memory, its dirty primary lines into
it first. -/
def writebackL2Line : CpuCache m :=
  let tag := c.l2Tags.get idx
  let physAddr := l2TagToPhys tag (idx * l2Line)
  let c := if m.isR5k then c else c.forL1dLines idx tag.pidx physAddr writebackL1dLine
  c.flushL2Line idx physAddr

/-- Invalidate a secondary line and, where the caches are inclusive, the
primary lines under it. -/
def invalidateL2Line : CpuCache m :=
  let tag := c.l2Tags.get idx
  if tag.cs = .invalid then { c with l2Tags := c.l2Tags.set idx {} }
  else
    let physBase := l2TagToPhys tag (idx * l2Line)
    let c := if m.isR5k then c
      else (c.dropL1iLines idx tag.pidx physBase).forL1dLines idx tag.pidx physBase
        (invalidateL1dLine false)
    { c with l2Tags := c.l2Tags.set idx {} }

/-- Move a secondary line to a new virtual index: its primary lines under the
old one are written back and dropped. -/
def realiasL2Line (l2Idx newPidx : Nat) : CpuCache m :=
  let tag := c.l2Tags.get l2Idx
  let physBase := l2TagToPhys tag (l2Idx * l2Line)
  let c := (c.dropL1iLines l2Idx tag.pidx physBase).forL1dLines l2Idx tag.pidx physBase
    fun c dcIdx => (c.writebackL1dLine dcIdx).invalidateL1dLine false dcIdx
  { c with l2Tags := c.l2Tags.set l2Idx { c.l2Tags.get l2Idx with pidx := newPidx } }

/-! ### Fills -/

/-- Fill a secondary line from memory, evicting the line in its slot. -/
def fillL2Line (virtAddr : Nat) : Bool × CpuCache m :=
  let l2Idx := m.l2Index physAddr
  let c := (c.writebackL2Line l2Idx).invalidateL2Line l2Idx
  let lineBase := alignDown physAddr l2Line
  let start := l2Idx * l2ChunksPerLine
  let source := fun i => c.downstream.words (lineBase / 8 + i)
  let done := c.downstream.reach (lineBase / 8) l2ChunksPerLine
  if done = l2ChunksPerLine then
    let c := c.putL2 start l2ChunksPerLine source
    (true, { c with l2Tags := c.l2Tags.set l2Idx (.filled physAddr virtAddr) })
  else (false, { c with l2Data := c.l2Data.copyIn start done source })

/-- Make the secondary cache hold a line under the virtual index of
`virtAddr`; a mismatch of that index is an exception on the R4400. -/
def reachL2 (coherency error : Fault) : Except Fault Unit × CpuCache m :=
  let l2Idx := m.l2Index physAddr
  let tag := c.l2Tags.get l2Idx
  if tag.cs ≠ .invalid ∧ tag.ptag = l2Ptag physAddr then
    if ¬m.isR5k ∧ pidx virtAddr ≠ tag.pidx then
      if m.hasVce then (.error coherency, c)
      else (.ok (), c.realiasL2Line l2Idx (pidx virtAddr))
    else (.ok (), c)
  else
    let (ok, c) := c.fillL2Line physAddr virtAddr
    (if ok then .ok () else .error error, c)

/-- Fill a primary data line; the result is the way filled. -/
def fillL1dLine : Except Fault Nat × CpuCache m :=
  let set := m.dcIndex virtAddr
  let way := if m.isR5k then lruGet c.dcLru set else 0
  let dcIdx := set + way * m.dcNumLines
  let c := (c.writebackL1dLine dcIdx).invalidateL1dLine false dcIdx
  let (reached, c) := if m.hasL2 then c.reachL2 virtAddr physAddr .vced .dbe else (.ok (), c)
  match reached with
  | .error fault => (.error fault, c)
  | .ok () =>
    let lineBase := alignDown physAddr m.dcLine
    let source := if m.hasL2 then
        fun i => c.l2Data.get (m.l2Index physAddr * l2ChunksPerLine +
          lineBase % l2Line / 8 + i)
      else fun i => c.downstream.words (lineBase / 8 + i)
    -- Without a secondary cache the status of the block read is not looked at.
    let count := if m.hasL2 then m.dcChunksPerLine
      else c.downstream.reach (lineBase / 8) m.dcChunksPerLine
    (.ok way,
      { c with
        dcData := c.dcData.copyIn (dcIdx * m.dcChunksPerLine) count source
        dcTags := c.dcTags.set dcIdx (.valid physAddr .cleanExclusive false)
        dcLru := if m.isR5k then lruSet c.dcLru set (1 - way) else c.dcLru })

/-- Copy the words of a primary instruction line out of the secondary decode
slots. -/
def snapshotL1iLine (eidx physAddr : Nat) : CpuCache m :=
  let n := m.icInstrsPerLine
  let first := (m.l2Index physAddr * l2Line + alignDown physAddr m.icLine % l2Line) / 4
  { c with icRaw := c.icRaw.copyIn (eidx * n) n fun i => c.l2Instrs.get (first + i) }

/-- The words a two-way primary instruction line takes, from the secondary
cache or over the bus, where a word that fails reads as zero. -/
def l1iSource (i : Nat) : BitVec 32 :=
  let lineBase := alignDown physAddr m.icLine
  if m.hasL2 then
    wordOf c.l2Data.get ((m.l2Index physAddr * l2Line + lineBase % l2Line) / 4 + i)
  else (c.downstream.read32 (lineBase + 4 * i)).getD 0

def l1iVictim (indexAddr physAddr : Nat) : Nat :=
  let set := m.icIndex indexAddr
  if m.isR5k then
    ((List.range m.ways).map fun way => set + way * m.icNumLines).find?
        (fun eidx => (c.icTags.get eidx).matchesPhys physAddr)
      |>.getD (set + lruGet c.icLru set * m.icNumLines)
  else set

/-- Fill a primary instruction line; the result is the way filled. -/
def fillL1iLine (indexAddr physAddr : Nat) : Except Fault Nat × CpuCache m :=
  let set := m.icIndex indexAddr
  let eidx := c.l1iVictim indexAddr physAddr
  let way := eidx / m.icNumLines
  let c := c.invalidateL1iLine eidx
  let (reached, c) := if m.hasL2 then c.reachL2 indexAddr physAddr .vcei .ibe else (.ok (), c)
  match reached with
  | .error fault => (.error fault, c)
  | .ok () =>
    let c := if m.isR5k then
        { c with
          icInstrs := c.icInstrs.copyIn (eidx * m.icInstrsPerLine) m.icInstrsPerLine
            (c.l1iSource physAddr)
          icLru := lruSet c.icLru set (1 - way) }
      else if m.hasL2 then c.snapshotL1iLine eidx physAddr
      else c
    (.ok way, { c with icTags := c.icTags.set eidx (.valid physAddr) })

end CpuCache

end Iris.Cpu.Cache
