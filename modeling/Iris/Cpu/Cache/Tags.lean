import Mathlib.Tactic.Ring

/-!
Owns the geometry of the three processors' caches and the tags of their
lines: how an address selects a slot, how a tag records the line in it, and
how a tag and its slot give the line's address back.

The parity and error-checking build is left out: no tag carries its slow mark,
so the two tag comparisons of the source are one.
-/

namespace Iris.Cpu.Cache

inductive Model
  | r4400
  | r5000
  | r10000
deriving DecidableEq, Repr

namespace Model

/-! ### Geometry -/

def icSize : Model → Nat
  | r4400 => 16384
  | r5000 => 32768
  | r10000 => 32768

def icLine : Model → Nat
  | r4400 => 16
  | r5000 => 32
  | r10000 => 64

def dcSize : Model → Nat
  | r4400 => 16384
  | r5000 => 32768
  | r10000 => 32768

def dcLine : Model → Nat
  | r4400 => 16
  | r5000 => 32
  | r10000 => 32

def ways : Model → Nat
  | r5000 => 2
  | _ => 1

def l2CacheSize : Model → Nat
  | r5000 => 128
  | _ => 1048576

def l2Line : Nat := 128

def hasL2 : Model → Bool
  | r5000 => false
  | _ => true

variable (model : Model) (addr : Nat)

def isR5k : Bool :=
  decide (model = .r5000)

/-- Only the R4400 reports virtual coherency exceptions. -/
def hasVce : Bool :=
  decide (model = .r4400)

def r10kCacheOps : Bool :=
  decide (model = .r10000)

/-- Implemented physical address bits. -/
def paBits : Model → Nat
  | r10000 => 40
  | _ => 36

def icNumLines : Nat := model.icSize / model.icLine / model.ways
def dcNumLines : Nat := model.dcSize / model.dcLine / model.ways
def l2NumLines : Nat := model.l2CacheSize / l2Line

def icTags : Nat := model.icSize / model.icLine
def dcTags : Nat := model.dcSize / model.dcLine

def icInstrsPerLine : Nat := model.icLine / 4
def dcChunksPerLine : Nat := model.dcLine / 8
def l2ChunksPerLine : Nat := l2Line / 8

def l2Size : Nat :=
  if model.hasL2 then model.l2CacheSize else 0

def l2Ninstrs : Nat :=
  if model.isR5k then 0 else model.l2CacheSize / 4

/-- Decode slots of a two-way primary instruction cache. -/
def icInstrSlots : Nat :=
  if model.isR5k then model.icSize / 4 else 0

/-- Words kept for a direct-mapped primary instruction cache. -/
def icRawWords : Nat :=
  if model.isR5k then 0 else model.icSize / 4

def lruWords (sets : Nat) : Nat :=
  if model.isR5k then (sets + 63) / 64 else 0

/-! ### Slots -/

def icIndex : Nat := addr / model.icLine % model.icNumLines
def dcIndex : Nat := addr / model.dcLine % model.dcNumLines
def l2Index : Nat := addr / l2Line % model.l2NumLines

end Model

/-- Virtual address bits 14:12, recorded in a secondary tag. -/
def pidx (virtAddr : Nat) : Nat := virtAddr / 0x1000 % 8

/-- Physical address bits 35:17, the tag of a secondary line. -/
def l2Ptag (physAddr : Nat) : Nat := physAddr / 2 ^ 17 % 2 ^ 19

/-- `addr & !(size - 1)` for a power of two. -/
def alignDown (addr size : Nat) : Nat := addr / size * size

/-! ### Tags -/

/-- A primary instruction tag: zero, or the page of the line with bit 0 set. -/
structure L1ITag where
  ptag : Nat := 0
deriving DecidableEq, Repr, Inhabited

inductive L1DState
  | invalid
  | shared
  | cleanExclusive
  | dirtyExclusive
deriving DecidableEq, Repr, Inhabited

structure L1DTag where
  ptag : Nat := 0
  cs : L1DState := .invalid
  dirty : Bool := false
deriving DecidableEq, Repr, Inhabited

/-- The three-bit state of a secondary line. The patterns 1, 2 and 3 are
reserved. -/
inductive L2State
  | invalid
  | reserved (pattern : Fin 3)
  | cleanExclusive
  | dirtyExclusive
  | shared
  | dirtyShared
deriving DecidableEq, Repr, Inhabited

structure L2Tag where
  ptag : Nat := 0
  pidx : Nat := 0
  cs : L2State := .invalid
  hasCode : Bool := false
deriving DecidableEq, Repr, Inhabited

namespace L1ITag

variable (tag : L1ITag) (physAddr : Nat)

def valid : L1ITag := ⟨alignDown physAddr 0x1000 + 1⟩
def matchesPhys : Bool :=
  decide (tag.ptag = alignDown physAddr 0x1000 + 1)
def isValid : Bool := decide (tag.ptag % 2 = 1)
def lineAddr : Nat := alignDown tag.ptag 0x1000

end L1ITag

namespace L1DTag

variable (tag : L1DTag) (physAddr : Nat)

def valid (cs : L1DState) (dirty : Bool) : L1DTag :=
  ⟨alignDown physAddr 0x1000 + 1, cs, dirty⟩
def matchesPhys : Bool :=
  decide (tag.ptag = alignDown physAddr 0x1000 + 1)
def isValid : Bool := decide (tag.ptag % 2 = 1)
def lineAddr : Nat := alignDown tag.ptag 0x1000

/-- After its data went down a level: clean, and no longer dirty-exclusive. -/
def demoted : L1DTag :=
  { tag with
    dirty := false
    cs := if tag.cs = .dirtyExclusive then .cleanExclusive else tag.cs }

end L1DTag

namespace L2State

def isDirty : L2State → Bool
  | dirtyExclusive | dirtyShared => true
  | _ => false

def written : L2State → L2State
  | cleanExclusive => dirtyExclusive
  | shared => dirtyShared
  | state => state

/-- The state of a dirty line after its data reached memory. -/
def cleaned (state : L2State) : L2State :=
  if state = .dirtyExclusive then .cleanExclusive else .shared

end L2State

/-- The tag of a secondary line just filled from memory. -/
def L2Tag.filled (physAddr virtAddr : Nat) : L2Tag where
  ptag := l2Ptag physAddr
  pidx := Cache.pidx virtAddr
  cs := .cleanExclusive
  hasCode := true

def l1TagToPhys (tag : L1ITag) (indexAddr : Nat) : Nat := tag.lineAddr + indexAddr % 0x1000
def l1dTagToPhys (tag : L1DTag) (indexAddr : Nat) : Nat := tag.lineAddr + indexAddr % 0x1000
def l2TagToPhys (tag : L2Tag) (indexAddr : Nat) : Nat := tag.ptag * 2 ^ 17 + indexAddr % 2 ^ 17

end Iris.Cpu.Cache
