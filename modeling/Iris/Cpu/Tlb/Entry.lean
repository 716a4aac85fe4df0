import Mathlib.Tactic.Ring

/-!
Owns the TLB's data: the architectural entry with its derived lookup fields,
the pre-decoded shadow entry, and what a single shadow entry answers for an
address. It does not own the arrays these live in (`Iris.Cpu.Tlb.Model`).
-/

namespace Iris.Cpu.Tlb

inductive CacheAttr
  | uncached
  | cacheable
  | cacheableCoherent
deriving DecidableEq, Repr

inductive AccessType
  | fetch
  | read
  | write
  | debug
deriving DecidableEq, Repr

/-- The two pages of a dual entry: index 0 is the even page, 1 the odd one. -/
structure Halves (α : Type) where
  even : α
  odd : α
deriving DecidableEq, Repr

/-- The half an address selects; `idx` is its selector bit. -/
def Halves.get {α : Type} (halves : Halves α) (idx : Bool) : α :=
  if idx then halves.odd else halves.even

def Halves.map {α β : Type} (f : α → β) (halves : Halves α) : Halves β :=
  ⟨f halves.even, f halves.odd⟩

@[simp] theorem Halves.get_map {α β : Type} (f : α → β) (halves : Halves α) (idx : Bool) :
    (halves.map f).get idx = f (halves.get idx) := by
  cases idx <;> rfl

/-- What each EntryLo C value means on the CPU model in use. -/
abbrev CacheTable := BitVec 3 → CacheAttr

def defaultCAttr : CacheTable := fun c =>
  if c = 3 then .cacheable else if c = 5 then .cacheableCoherent else .uncached

/-! ### Architectural entries -/

structure TlbEntry where
  pageMask : BitVec 64
  entryHi : BitVec 64
  entryLo : Halves (BitVec 64)
  selectorBitShift : Nat
  vcmp32 : BitVec 64
  vpnHi32 : BitVec 64
  vcmp64 : BitVec 64
  vpnHi64 : BitVec 64
  offsetMask : BitVec 64
  pfnBase : Halves (BitVec 64)
deriving DecidableEq, Repr

namespace TlbEntry

def new : TlbEntry where
  pageMask := 0
  entryHi := 0
  entryLo := ⟨0, 0⟩
  selectorBitShift := 12
  vcmp32 := ~~~0x1FFF &&& 0x00000000FFFFE000
  vpnHi32 := 0
  vcmp64 := ~~~0x1FFF &&& 0xC00000FFFFFFE000
  vpnHi64 := 0
  offsetMask := 0xFFF
  pfnBase := ⟨0, 0⟩

def isGlobal (entry : TlbEntry) : Bool := entry.entryHi &&& 0x1000 != 0

def asid (entry : TlbEntry) : BitVec 8 := (entry.entryHi &&& 0xFF).setWidth 8

end TlbEntry

def trailingOnes (word : BitVec 64) : Nat :=
  ((List.range 64).takeWhile fun i => word.getLsbD i).length

/-- Bit position of the even/odd selector for a page mask. -/
def pageShift (pageMask : BitVec 64) : Nat := trailingOnes (pageMask ||| 0x1FFF) - 1

/-- Physical base of one page: the frame number at bit 12, cut to the page size. -/
def pageFrame (offsetMask lo : BitVec 64) : BitVec 64 :=
  (lo <<< 6) &&& (0xFFFFFFFFFF000 &&& ~~~offsetMask)

/-- The entry `write` stores: every derived field recomputed from the words. -/
def TlbEntry.withDerived (entry : TlbEntry) : TlbEntry :=
  let mask := entry.pageMask ||| 0x1FFF
  let shift := trailingOnes mask - 1
  let offsetMask := ((1 : BitVec 64) <<< shift) - 1
  { entry with
    selectorBitShift := shift
    vcmp32 := ~~~mask &&& 0x00000000FFFFE000
    vpnHi32 := entry.entryHi &&& (~~~mask &&& 0x00000000FFFFE000)
    vcmp64 := ~~~mask &&& 0xC00000FFFFFFE000
    vpnHi64 := entry.entryHi &&& (~~~mask &&& 0xC00000FFFFFFE000)
    offsetMask := offsetMask
    pfnBase := entry.entryLo.map (pageFrame offsetMask) }

/-- The entry `load_state` builds from a snapshot's four words. -/
def TlbEntry.ofWords (pageMask entryHi lo0 lo1 : BitVec 64) : TlbEntry :=
  withDerived { new with pageMask, entryHi, entryLo := ⟨lo0, lo1⟩ }

/-- The derived fields agree with the words. -/
def TlbEntry.Derived (entry : TlbEntry) : Prop := entry.withDerived = entry
deriving Decidable

theorem TlbEntry.withDerived_derived (entry : TlbEntry) : entry.withDerived.Derived := rfl

theorem TlbEntry.ofWords_derived {pageMask entryHi lo0 : BitVec 64} :
    (ofWords pageMask entryHi lo0 lo1).Derived := rfl

theorem TlbEntry.new_derived : TlbEntry.new.Derived := by decide

theorem TlbEntry.Derived.eq_ofWords (derived : entry.Derived) :
    ofWords entry.pageMask entry.entryHi entry.entryLo.even entry.entryLo.odd = entry :=
  derived

/-! ### Shadow entries -/

/-- Translation-relevant fields of an entry, pre-decoded. -/
structure ShadowEntry where
  vcmp32 : BitVec 64
  vpnHi32 : BitVec 64
  vcmp64 : BitVec 64
  vpnHi64 : BitVec 64
  pfnBase : Halves (BitVec 64)
  offsetMask : BitVec 64
  /-- Per-page flags: bit 0 is valid, bit 1 is dirty. -/
  validDirty : Halves (BitVec 8)
  cacheAttr : Halves CacheAttr
  asid : BitVec 8
  global : Bool
  selectorBitShift : Nat
deriving DecidableEq, Repr

/-- The two flag bits of an EntryLo word. -/
def validDirtyBits (lo : BitVec 64) : BitVec 8 :=
  (BitVec.ofBool (lo &&& 0x2 != 0)).setWidth 8 |||
    (BitVec.ofBool (lo &&& 0x4 != 0)).setWidth 8 <<< 1

namespace ShadowEntry

def invalid : ShadowEntry where
  vcmp32 := 0
  vpnHi32 := ~~~0
  vcmp64 := 0
  vpnHi64 := ~~~0
  pfnBase := ⟨0, 0⟩
  offsetMask := 0xFFF
  validDirty := ⟨0, 0⟩
  cacheAttr := ⟨.uncached, .uncached⟩
  asid := 0
  global := false
  selectorBitShift := 12

def fromEntry (entry : TlbEntry) (cAttr : CacheTable) : ShadowEntry where
  vcmp32 := entry.vcmp32
  vpnHi32 := entry.vpnHi32
  vcmp64 := entry.vcmp64
  vpnHi64 := entry.vpnHi64
  pfnBase := entry.pfnBase
  offsetMask := entry.offsetMask
  validDirty := entry.entryLo.map validDirtyBits
  cacheAttr := entry.entryLo.map fun lo : BitVec 64 => cAttr ((lo >>> 3).setWidth 3)
  asid := entry.asid
  global := entry.isGlobal
  selectorBitShift := entry.selectorBitShift

/-- The compare test every lookup path makes: VPN under the page mask, then
global or ASID. -/
def isMatch (s : ShadowEntry) (is64 : Bool) (virtAddr : BitVec 64) (asid : BitVec 8) : Bool :=
  (if is64 then virtAddr &&& s.vcmp64 == s.vpnHi64 else virtAddr &&& s.vcmp32 == s.vpnHi32) &&
    (s.global || s.asid == asid)

end ShadowEntry

inductive TlbResult
  | hit (physAddr : BitVec 64) (cacheAttr : CacheAttr) (dirty global : Bool)
  | miss (vpn2 : BitVec 64)
  | invalid (vpn2 : BitVec 64)
  | modified (vpn2 : BitVec 64)
deriving DecidableEq, Repr

def ShadowEntry.answer (s : ShadowEntry) (virtAddr : BitVec 64) (accessType : AccessType) :
    TlbResult :=
  let idx := virtAddr.getLsbD s.selectorBitShift
  let vd := s.validDirty.get idx
  if vd &&& 0x1 == 0 then .invalid (virtAddr >>> 13)
  else
    let dirty := vd &&& 0x2 != 0
    if accessType == .write && !dirty then .modified (virtAddr >>> 13)
    else .hit (s.pfnBase.get idx ||| (virtAddr &&& s.offsetMask)) (s.cacheAttr.get idx) dirty
      s.global

end Iris.Cpu.Tlb
