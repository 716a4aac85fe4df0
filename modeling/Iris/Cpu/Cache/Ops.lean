import Iris.Cpu.Cache.Lines

/-!
Owns what the processor asks of its cache: loads, stores, instruction fetches
and the CACHE operations, each a step of the cache with its answer, and the
write-back of everything.
-/

namespace Iris.Cpu.Cache

open BigEndian

variable {m : Model}

namespace CpuCache

variable (c : CpuCache m) (width : Width) (virtAddr physAddr : Nat)

/-! ### Loads and stores -/

def dcRead : BitVec 64 :=
  let slot := hostLane width (virtAddr % m.dcSize)
  lane width (c.dcData.get (slot / width.lanes)) (slot % width.lanes)

def dcWrite (val : BitVec 64) : CpuCache m :=
  let slot := hostLane width (virtAddr % m.dcSize)
  let chunk := c.dcData.get (slot / width.lanes)
  { c with
    dcData := c.dcData.set (slot / width.lanes) (setLane width chunk (slot % width.lanes) val) }

/-- Make the primary data cache hold a line; the result is its way. -/
def ensureL1dLine : Except Fault Nat × CpuCache m :=
  let set := m.dcIndex virtAddr
  if m.isR5k then
    if (c.dcTags.get set).matchesPhys physAddr then
      (.ok 0, { c with dcLru := lruSet c.dcLru set 1 })
    else if (c.dcTags.get (set + m.dcNumLines)).matchesPhys physAddr then
      (.ok 1, { c with dcLru := lruSet c.dcLru set 0 })
    else c.fillL1dLine virtAddr physAddr
  else if (c.dcTags.get set).matchesPhys physAddr then (.ok 0, c)
  else c.fillL1dLine virtAddr physAddr

/-- Where an access finds its data: a direct-mapped cache is addressed by the
virtual address itself. -/
def dcDataAddr (m : Model) (eidx virtAddr : Nat) : Nat :=
  if m.isR5k then eidx * m.dcLine + virtAddr % m.dcLine else virtAddr

def markL1dDirty (eidx : Nat) : CpuCache m :=
  { c with dcTags := c.dcTags.set eidx { c.dcTags.get eidx with dirty := true } }

def read : Except Fault (BitVec 64) × CpuCache m :=
  let (way, c) := c.ensureL1dLine virtAddr physAddr
  match way with
  | .error fault => (.error fault, c)
  | .ok way =>
    let eidx := m.dcIndex virtAddr + way * m.dcNumLines
    (.ok (c.dcRead width (dcDataAddr m eidx virtAddr)), c)

def write (val : BitVec 64) : Except Fault Unit × CpuCache m :=
  let (way, c) := c.ensureL1dLine virtAddr physAddr
  match way with
  | .error fault => (.error fault, c)
  | .ok way =>
    let eidx := m.dcIndex virtAddr + way * m.dcNumLines
    (.ok (), (c.dcWrite width (dcDataAddr m eidx virtAddr) val).markL1dDirty eidx)

def write64Masked (val mask : BitVec 64) : Except Fault Unit × CpuCache m :=
  let (way, c) := c.ensureL1dLine virtAddr physAddr
  match way with
  | .error fault => (.error fault, c)
  | .ok way =>
    let eidx := m.dcIndex virtAddr + way * m.dcNumLines
    let da := dcDataAddr m eidx virtAddr
    let current := c.dcRead .double da
    (.ok (), (c.dcWrite .double da ((current &&& ~~~mask) ||| (val &&& mask))).markL1dDirty eidx)

/-! ### Instruction fetch -/

/-- The answer is the word of the decode slot. -/
def fetch : Except Fault (BitVec 32) × CpuCache m :=
  let set := m.icIndex virtAddr
  if m.isR5k then
    let slotOf := fun (c : CpuCache m) (way : Nat) =>
      c.icInstrs.get ((set + way * m.icNumLines) * m.icInstrsPerLine +
        virtAddr / 4 % m.icInstrsPerLine)
    if (c.icTags.get set).matchesPhys physAddr then
      (.ok (slotOf c 0), { c with icLru := lruSet c.icLru set 1 })
    else if (c.icTags.get (set + m.icNumLines)).matchesPhys physAddr then
      (.ok (slotOf c 1), { c with icLru := lruSet c.icLru set 0 })
    else
      match c.fillL1iLine virtAddr physAddr with
      | (.error fault, c) => (.error fault, c)
      | (.ok way, c) => (.ok (slotOf c way), c)
  else
    let slotOf := fun (c : CpuCache m) => c.l2Instrs.get (physAddr % m.l2CacheSize / 4)
    if (c.icTags.get set).matchesPhys physAddr then (.ok (slotOf c), c)
    else
      match c.fillL1iLine virtAddr physAddr with
      | (.error fault, c) => (.error fault, c)
      | (.ok _, c) => (.ok (slotOf c), c)

/-! ### Probes -/

def hitL1i : Option Nat :=
  ((List.range m.ways).map fun way => m.icIndex virtAddr + way * m.icNumLines).find?
    fun eidx => (c.icTags.get eidx).matchesPhys physAddr

def hitL1d : Option Nat :=
  ((List.range m.ways).map fun way => m.dcIndex virtAddr + way * m.dcNumLines).find?
    fun eidx => (c.dcTags.get eidx).matchesPhys physAddr

def l1iWord (eidx i : Nat) : BitVec 32 :=
  if m.isR5k then c.icInstrs.get (eidx * m.icInstrsPerLine + i)
  else c.icRaw.get (eidx * m.icInstrsPerLine + i)

/-- Write a primary instruction line back to the secondary cache if that holds
the line, otherwise to memory. -/
def writebackL1iLine (eidx lineBase : Nat) : CpuCache m :=
  let chunk := fun i => c.l1iWord eidx (2 * i) ++ c.l1iWord eidx (2 * i + 1)
  let count := m.icInstrsPerLine / 2
  match c.hitL2 lineBase with
  | none => { c with downstream := (c.downstream.writeBlock lineBase count chunk).2 }
  | some l2Idx =>
    let c := c.putL2 (l2Idx * Model.l2ChunksPerLine + lineBase % Model.l2Line / 8) count chunk
    let tag := c.l2Tags.get l2Idx
    { c with l2Tags := c.l2Tags.set l2Idx { tag with cs := tag.cs.written } }

/-! ### Tags as software sees them -/

/-- The bit that makes the count of ones of a 32-bit value even. -/
def evenParity (v : Nat) : Nat :=
  (List.range 32).countP (fun i => v.testBit i) % 2

/-- The tag bits each check bit of a secondary tag covers. -/
def l2TagEccMasks : List Nat :=
  [0x1ff1111, 0x045222f, 0x10a40ff, 0x09184f0, 0x0620f42, 0x114ff04, 0x0a8f888]

def l2TagEcc (tag : Nat) : Nat :=
  (l2TagEccMasks.mapIdx fun i mask => evenParity (tag &&& mask) <<< i).foldl (· ||| ·) 0

def l2TagLoState : L2State → Nat
  | .invalid => 0
  | .cleanExclusive => 4
  | .dirtyExclusive => 5
  | .shared => 6
  | .dirtyShared => 7
  | .reserved _ => 0

def l2TagLo (m : Model) (tag : L2Tag) : Nat :=
  let state := l2TagLoState tag.cs
  let fields := state <<< 22 ||| tag.pidx <<< 19 ||| tag.ptag
  let ecc := if m = .r4400 then l2TagEcc fields else 0
  tag.ptag <<< 13 ||| state <<< 10 ||| tag.pidx <<< 7 ||| ecc

def l1iTagLo (m : Model) (tag : L1ITag) : Nat :=
  let rawPtag := tag.ptag / 0x1000 % 2 ^ 24
  let pstate := if tag.isValid then 2 else 0
  let p := evenParity rawPtag ^^^ if m.isR5k then 0 else if tag.isValid then 1 else 0
  rawPtag <<< 8 ||| pstate <<< 6 ||| p

def l1dTagLo (m : Model) (tag : L1DTag) : Nat :=
  let rawPtag := tag.ptag / 0x1000 % 2 ^ 24
  let pstate := match tag.cs with
    | .invalid => 0
    | .shared => 1
    | .cleanExclusive => if tag.dirty then 3 else 2
    | .dirtyExclusive => 3
  let p := evenParity rawPtag ^^^ if m.isR5k then 0 else evenParity pstate
  rawPtag <<< 8 ||| pstate <<< 6 ||| p

/-- The secondary tag a TagLo word stores. -/
def l2TagOfTagLo (tagLo : Nat) : L2Tag where
  ptag := tagLo / 2 ^ 13 % 2 ^ 19
  pidx := tagLo / 2 ^ 7 % 8
  cs := match tagLo / 2 ^ 10 % 8 with
    | 4 => .cleanExclusive
    | 5 => .dirtyExclusive
    | 6 => .shared
    | 7 => .dirtyShared
    | _ => .invalid

/-- The primary line address and state a TagLo word stores. -/
def l1LineOfTagLo (tagLo : Nat) : Nat := tagLo / 2 ^ 8 % 2 ^ 24 * 0x1000
def l1PstateOfTagLo (tagLo : Nat) : Nat := tagLo / 2 ^ 6 % 4

def l1iTagOfTagLo (tagLo : Nat) : L1ITag :=
  if l1PstateOfTagLo tagLo ≠ 0 then .valid (l1LineOfTagLo tagLo) else {}

def l1dTagOfTagLo (m : Model) (tagLo : Nat) : L1DTag :=
  match l1PstateOfTagLo tagLo with
  | 0 => {}
  | 1 => .valid (l1LineOfTagLo tagLo) (if m.isR5k then .cleanExclusive else .shared) false
  | 2 => .valid (l1LineOfTagLo tagLo) .cleanExclusive false
  | _ => .valid (l1LineOfTagLo tagLo) .dirtyExclusive true

end CpuCache

/-! ### CACHE operations -/

/-- The cache a CACHE operation names: bits 1:0 of its code. -/
inductive CacheTarget
  | pi
  | pd
  | si
  | sd
deriving DecidableEq, Repr

/-- The operation of a CACHE instruction: bits 4:2 of its code. -/
inductive CacheOperation
  | iinv
  | ilt
  | ist
  | cdx
  | hinv
  | hwbinv
  | hwb
  | hsv
deriving DecidableEq, Repr

def CacheTarget.isL2 : CacheTarget → Bool
  | si | sd => true
  | _ => false

/-- The slot an R10000 index operation names: bit 0 of the address is the way,
the upper half of this direct-mapped cache. -/
def r10kWayIndex (addr line numLines : Nat) : Nat :=
  addr / line % (numLines / 2) + addr % 2 * (numLines / 2)

/-- The doubleword an R10000 data operation names. -/
def r10kWaySlot (addr slots : Nat) : Nat :=
  addr / 8 % (slots / 2) + addr % 2 * (slots / 2)

namespace CpuCache

variable (c : CpuCache m) (operation : CacheOperation) (target : CacheTarget)
  (idx virtAddr physAddr : Nat)

/-- The slot an operation works on: an index operation takes it from the
address alone. -/
def cacheOpIndex (m : Model) (operation : CacheOperation) (target : CacheTarget)
    (virtAddr physAddr : Nat) : Nat :=
  let r10kIndex : Bool := m.r10kCacheOps && (operation == .iinv || operation == .ilt ||
    operation == .ist)
  let way := if m.isR5k then virtAddr / 2 ^ 14 % 2 else 0
  match target with
  | .si | .sd =>
    if r10kIndex then r10kWayIndex virtAddr Model.l2Line m.l2NumLines
    else m.l2Index (if operation = .ist then virtAddr else physAddr)
  | .pi =>
    if r10kIndex then r10kWayIndex virtAddr m.icLine m.icNumLines
    else m.icIndex virtAddr + way * m.icNumLines
  | .pd =>
    if r10kIndex then r10kWayIndex virtAddr m.dcLine m.dcNumLines
    else m.dcIndex virtAddr + way * m.dcNumLines

def indexInvalidate : CpuCache m :=
  match target with
  | .pi => c.invalidateL1iLine idx
  | .pd => (c.writebackL1dLine idx).invalidateL1dLine true idx
  | .si | .sd => (c.writebackL2Line idx).invalidateL2Line idx

def indexLoadTag : Nat :=
  match target with
  | .pi => l1iTagLo m (c.icTags.get idx)
  | .pd => l1dTagLo m (c.dcTags.get idx)
  | .si | .sd => l2TagLo m (c.l2Tags.get idx)

/-- The tag word arrives in place of the physical address. -/
def indexStoreTag : CpuCache m :=
  let tagLo := physAddr % 2 ^ 32
  match target with
  | .si | .sd =>
    let c := c.invalidateL2Line idx
    { c with l2Tags := c.l2Tags.set idx (l2TagOfTagLo tagLo) }
  | .pi =>
    let c := c.invalidateL1iLine idx
    { c with icTags := c.icTags.set idx (l1iTagOfTagLo tagLo) }
  | .pd =>
    let c := c.invalidateL1dLine true idx
    { c with dcTags := c.dcTags.set idx (l1dTagOfTagLo m tagLo) }

def createDirtyExclusive : CpuCache m :=
  match target with
  | .pi => c
  | .pd =>
    let c := c.writebackL1dLine idx
    { c with dcTags := c.dcTags.set idx (.valid physAddr .dirtyExclusive true) }
  | .si | .sd =>
    let c := (c.writebackL2Line idx).invalidateL2Line idx
    let tag : L2Tag :=
      { ptag := l2Ptag physAddr, pidx := pidx virtAddr, cs := .dirtyExclusive }
    { c with l2Tags := c.l2Tags.set idx tag }

def hitInvalidate : CpuCache m :=
  match target with
  | .pi => ((c.hitL1i virtAddr physAddr).map c.invalidateL1iLine).getD c
  | .pd => ((c.hitL1d virtAddr physAddr).map (c.invalidateL1dLine true)).getD c
  | .si | .sd => ((c.hitL2 physAddr).map c.invalidateL2Line).getD c

/-- Hit Writeback Invalidate, and Fill on the instruction cache. -/
def hitWritebackInvalidate : CpuCache m :=
  match target with
  | .pi => (c.fillL1iLine virtAddr physAddr).2
  | .pd => ((c.hitL1d virtAddr physAddr).map fun eidx =>
    (c.writebackL1dLine eidx).invalidateL1dLine true eidx).getD c
  | .si | .sd => ((c.hitL2 physAddr).map fun idx =>
    (c.writebackL2Line idx).invalidateL2Line idx).getD c

def hitWriteback : CpuCache m :=
  match target with
  | .pi => ((c.hitL1i virtAddr physAddr).map fun eidx =>
    c.writebackL1iLine eidx (alignDown physAddr m.icLine)).getD c
  | .pd => ((c.hitL1d virtAddr physAddr).map c.writebackL1dLine).getD c
  | .si | .sd => ((c.hitL2 physAddr).map c.writebackL2Line).getD c

def hitSetVirtual : CpuCache m :=
  let tag := c.l2Tags.get idx
  if target.isL2 ∧ tag.ptag = l2Ptag physAddr then
    { c with l2Tags := c.l2Tags.set idx { tag with pidx := pidx virtAddr } }
  else c

/-- The operations whose codes the R10000 gives another meaning. -/
def r10kOp : Option (BitVec 64 × CpuCache m) :=
  match operation, target with
  | .hwbinv, .pi => some (0, c)
  | .hwb, .sd => some (c.l2Data.get (r10kWaySlot virtAddr (m.l2CacheSize / 8)), c)
  | .hwb, .pi | .hwb, .pd => some (c.dcData.get (r10kWaySlot virtAddr (m.dcSize / 8)), c)
  | .hsv, .si | .hsv, .sd =>
    let slot := r10kWaySlot virtAddr (m.l2CacheSize / 8)
    some (0, { c with l2Data := c.l2Data.set slot (BitVec.ofNat 64 physAddr) })
  | _, _ => none

def r4kOp : BitVec 64 × CpuCache m :=
  if target.isL2 ∧ ¬m.hasL2 then (0, c)
  else
    let idx := cacheOpIndex m operation target virtAddr physAddr
    match operation with
    | .iinv => (0, c.indexInvalidate target idx)
    | .ilt => (BitVec.ofNat 64 (c.indexLoadTag target idx), c)
    | .ist => (0, c.indexStoreTag target idx physAddr)
    | .cdx => (0, c.createDirtyExclusive target idx virtAddr physAddr)
    | .hinv => (0, c.hitInvalidate target virtAddr physAddr)
    | .hwbinv => (0, c.hitWritebackInvalidate target virtAddr physAddr)
    | .hwb => (0, c.hitWriteback target virtAddr physAddr)
    | .hsv => (0, c.hitSetVirtual target idx virtAddr physAddr)

def cacheOp : BitVec 64 × CpuCache m :=
  if m.r10kCacheOps then
    (c.r10kOp operation target virtAddr physAddr).getD
      (c.r4kOp operation target virtAddr physAddr)
  else c.r4kOp operation target virtAddr physAddr

/-! ### Everything back to memory -/

/-- Primary data into the secondary cache, then that to memory. -/
def writebackAll : CpuCache m :=
  let c := (List.range (m.ways * m.dcNumLines)).foldl (fun c eidx =>
    if (c.dcTags.get eidx).isValid then c.writebackL1dLine eidx else c) c
  if m.hasL2 then (List.range m.l2NumLines).foldl writebackL2Line c else c

end CpuCache

/-! ### Steps -/

/-- What the processor asks of the cache. -/
inductive Op
  | read (width : Width) (virtAddr physAddr : Nat)
  | write (width : Width) (virtAddr physAddr : Nat) (val : BitVec 64)
  | write64Masked (virtAddr physAddr : Nat) (val mask : BitVec 64)
  | fetch (virtAddr physAddr : Nat)
  | cache (operation : CacheOperation) (target : CacheTarget) (virtAddr physAddr : Nat)
  | setLlbit (val : Bool)
  | setLladdr (addr : Nat)
deriving DecidableEq

inductive Response
  | loaded (answer : Except Fault (BitVec 64))
  | stored (answer : Except Fault Unit)
  | fetched (answer : Except Fault (BitVec 32))
  | cached (answer : BitVec 64)
  | done
deriving DecidableEq

def step (c : CpuCache m) : Op → Response × CpuCache m
  | .read width virtAddr physAddr =>
    let (answer, c) := c.read width virtAddr physAddr
    (.loaded answer, c)
  | .write width virtAddr physAddr val =>
    let (answer, c) := c.write width virtAddr physAddr val
    (.stored answer, c)
  | .write64Masked virtAddr physAddr val mask =>
    let (answer, c) := c.write64Masked virtAddr physAddr val mask
    (.stored answer, c)
  | .fetch virtAddr physAddr =>
    let (answer, c) := c.fetch virtAddr physAddr
    (.fetched answer, c)
  | .cache operation target virtAddr physAddr =>
    let (answer, c) := c.cacheOp operation target virtAddr physAddr
    (.cached answer, c)
  | .setLlbit val => (.done, { c with llbit := val })
  | .setLladdr addr => (.done, { c with lladdr := addr })

end Iris.Cpu.Cache
