import Iris.Cpu.Tlb.Entry
import Iris.Library.LinkedList
import Iris.Snapshot.Toml

/-!
Owns the TLB state and its operations as the emulator computes them: the vmap
accelerator and its upkeep, the MRU lists, lookup, write, probe, and the
snapshot. Arrays are functions of their index; an index never leaves its array
in a reachable state. Statistics and text dumps are not modelled.
-/

namespace Iris.Cpu.Tlb

open Library Snapshot Function

def tlbMaxEntries : Nat := 64
def vmapSize : Nat := 524288
def vmapMiss : BitVec 8 := 0xFF
def vmapMulti : BitVec 8 := 0x80
def vmapIdxMask : BitVec 8 := 0x7F
def mruNone : BitVec 8 := 0xFF

/-- A live slot count `MipsTlb::new` accepts. -/
structure Geometry where
  numEntries : Nat
  two_le : 1 < numEntries
  le_max : numEntries ≤ tlbMaxEntries
deriving DecidableEq

structure MipsTlb where
  geometry : Geometry
  entries : Nat → TlbEntry
  shadow : Nat → ShadowEntry
  mruHead : AccessType → BitVec 8
  mruNext : AccessType → BitVec 8 → BitVec 8
  cAttr : CacheTable
  vmap : Nat → BitVec 8

/-! ### The vmap -/

/-- The `(start, count)` of the VPN2 slots an entry covers. The size is computed
with wrapping addition. -/
def vmapRange (entry : TlbEntry) : Nat × Nat :=
  let mask := entry.pageMask ||| 0x1FFF
  let count := max ((mask + 1) >>> 13).toNat 1
  let slot := ((entry.entryHi.setWidth 32) >>> 13).setWidth 64
  ((slot &&& ~~~(BitVec.ofNat 64 (count - 1))).toNat, count)

def vmapClear (start count : Nat) (vmap : Nat → BitVec 8) : Nat → BitVec 8 :=
  (List.range count).foldl (fun vmap i =>
    let slot := start + i
    if slot < vmapSize then update vmap slot vmapMiss else vmap) vmap

def vmapFillRange (entryIdx start count : Nat) (vmap : Nat → BitVec 8) : Nat → BitVec 8 :=
  let tag := BitVec.ofNat 8 entryIdx
  (List.range count).foldl (fun vmap i =>
    let slot := start + i
    if slot < vmapSize then
      update vmap slot (if vmap slot = vmapMiss then tag else tag ||| vmapMulti)
    else vmap) vmap

/-- Re-fill the part of entry `i` that lies in `[oldStart, oldEnd)`. -/
def vmapRefill (entry : TlbEntry) (i oldStart oldEnd : Nat) (vmap : Nat → BitVec 8) :
    Nat → BitVec 8 :=
  let (start, count) := vmapRange entry
  let lo := max start oldStart
  let hi := min (start + count) oldEnd
  if lo < hi then vmapFillRange i lo (hi - lo) vmap else vmap

/-- Replace the claim of slot `index`, whose previous entry covered `oldRange`. -/
def vmapReplace (numEntries : Nat) (entries : Nat → TlbEntry) (index : Nat)
    (oldRange : Nat × Nat) (vmap : Nat → BitVec 8) : Nat → BitVec 8 :=
  let (oldStart, oldCount) := oldRange
  let cleared := vmapClear oldStart oldCount vmap
  let restored := (List.range numEntries).foldl (fun vmap i =>
    if i = index then vmap else vmapRefill (entries i) i oldStart (oldStart + oldCount) vmap)
    cleared
  let (newStart, newCount) := vmapRange (entries index)
  vmapFillRange index newStart newCount restored

namespace MipsTlb

variable (tlb : MipsTlb)

abbrev numEntries : Nat := tlb.geometry.numEntries

def new (geometry : Geometry) : MipsTlb where
  geometry := geometry
  entries := fun _ => TlbEntry.new
  shadow := fun _ => ShadowEntry.invalid
  mruHead := fun _ => 0
  mruNext := fun _ slot => if slot.toNat + 1 < geometry.numEntries then slot + 1 else mruNone
  cAttr := defaultCAttr
  vmap := fun _ => vmapMiss

/-- Chain the live slots of every MRU list in index order. -/
def resetMru : MipsTlb :=
  { tlb with
    mruHead := fun _ => 0
    mruNext := fun list slot =>
      if slot.toNat + 1 < tlb.numEntries then slot + 1
      else if slot.toNat + 1 = tlb.numEntries then mruNone
      else tlb.mruNext list slot }

def resyncShadow : MipsTlb :=
  { tlb with
    shadow := fun i =>
      if i < tlb.numEntries then ShadowEntry.fromEntry (tlb.entries i) tlb.cAttr
      else tlb.shadow i }

/-! ### Lookup -/

/-- Move `target` to the front of `list`; `prev` is its predecessor, or
`mruNone` when it is the head already. -/
def mruPromote (list : AccessType) (target prev : BitVec 8) : MipsTlb :=
  if prev = mruNone then tlb
  else
    { tlb with
      mruNext := update tlb.mruNext list
        (LinkedList.relink (tlb.mruNext list) (tlb.mruHead list) target prev)
      mruHead := update tlb.mruHead list target }

/-- The MRU-ordered scan. A list of `u8` slots has at most 256 nodes, so `none`
stands for a list that loops. -/
def mruScan (is64 : Bool) (virtAddr : BitVec 64) (asid : BitVec 8) (accessType : AccessType) :
    Option (MipsTlb × TlbResult) :=
  match LinkedList.search (tlb.mruNext accessType) mruNone
      (fun slot => (tlb.shadow slot.toNat).isMatch is64 virtAddr asid) 257 mruNone
      (tlb.mruHead accessType) with
  | none => none
  | some none => some (tlb, .miss (virtAddr >>> 13))
  | some (some (prev, cur)) =>
    some (tlb.mruPromote accessType cur prev, (tlb.shadow cur.toNat).answer virtAddr accessType)

def translate (is64 : Bool) (virtAddr : BitVec 64) (asid : BitVec 8) (accessType : AccessType) :
    Option (MipsTlb × TlbResult) :=
  let slot := tlb.vmap ((virtAddr.setWidth 32) >>> 13).toNat
  if slot ≠ vmapMiss then
    let multi := slot &&& vmapMulti ≠ 0
    let s := tlb.shadow (slot &&& vmapIdxMask).toNat
    if s.isMatch is64 virtAddr asid then some (tlb, s.answer virtAddr accessType)
    else if ¬ multi then some (tlb, .miss (virtAddr >>> 13))
    else tlb.mruScan is64 virtAddr asid accessType
  else some (tlb, .miss (virtAddr >>> 13))

/-- The index of the first matching slot, or the P bit. -/
def probe (virtAddr : BitVec 64) (asid : BitVec 8) (is64 : Bool) : BitVec 32 :=
  match (List.range tlbMaxEntries).find? fun i => (tlb.shadow i).isMatch is64 virtAddr asid with
  | some i => BitVec.ofNat 32 i
  | none => 0x80000000

/-! ### Updates -/

def write (index : Nat) (entry : TlbEntry) : MipsTlb :=
  if index < tlb.numEntries then
    let entry := entry.withDerived
    let entries := update tlb.entries index entry
    { tlb with
      entries := entries
      shadow := update tlb.shadow index (ShadowEntry.fromEntry entry tlb.cAttr)
      vmap := vmapReplace tlb.numEntries entries index (vmapRange (tlb.entries index)) tlb.vmap }
  else tlb

def read (index : Nat) : TlbEntry :=
  if index < tlb.numEntries then tlb.entries index else TlbEntry.new

def setCacheAttrs (table : CacheTable) : MipsTlb :=
  { tlb with cAttr := table }.resyncShadow

def powerOn : MipsTlb :=
  { tlb with
    entries := fun _ => TlbEntry.new
    shadow := fun _ => ShadowEntry.invalid
    vmap := fun _ => vmapMiss }.resetMru

/-! ### Snapshots -/

def entryWords (entry : TlbEntry) : List (BitVec 64) :=
  [entry.pageMask, entry.entryHi, entry.entryLo.even, entry.entryLo.odd]

def saveState : Value :=
  .array ((List.range tlb.numEntries).map fun i => u64SliceToToml (entryWords (tlb.entries i)))

/-- One entry from a snapshot item; words the item lacks are zero. -/
def loadEntry (item : Value) : TlbEntry :=
  let words := loadU64Slice item [0, 0, 0, 0]
  TlbEntry.ofWords (words.getD 0 0) (words.getD 1 0) (words.getD 2 0) (words.getD 3 0)

/-- The entry array after the snapshot's items replace the slots they name. -/
def loadEntries (v : Value) : Nat → TlbEntry :=
  match v with
  | .array items => fun i =>
    if i < tlb.numEntries then ((items[i]?).map loadEntry).getD (tlb.entries i)
    else tlb.entries i
  | _ => tlb.entries

def vmapRebuild (numEntries : Nat) (entries : Nat → TlbEntry) : Nat → BitVec 8 :=
  (List.range numEntries).foldl (fun vmap i =>
    let (start, count) := vmapRange (entries i)
    vmapFillRange i start count vmap) fun _ => vmapMiss

def loadState (v : Value) : MipsTlb :=
  let entries := tlb.loadEntries v
  { tlb with
    entries := entries
    vmap := vmapRebuild tlb.numEntries entries }.resyncShadow.resetMru

end MipsTlb

/-! ### Runs -/

inductive TlbOp
  | write (index : Nat) (entry : TlbEntry)
  | translate (is64 : Bool) (virtAddr : BitVec 64) (asid : BitVec 8) (accessType : AccessType)
  | setCacheAttrs (table : CacheTable)
  | powerOn
  | loadState (v : Value)

def step (tlb : MipsTlb) : TlbOp → Option MipsTlb
  | .write index entry => some (tlb.write index entry)
  | .translate is64 virtAddr asid accessType =>
    (tlb.translate is64 virtAddr asid accessType).map Prod.fst
  | .setCacheAttrs table => some (tlb.setCacheAttrs table)
  | .powerOn => some tlb.powerOn
  | .loadState v => some (tlb.loadState v)

def run (tlb : MipsTlb) (ops : List TlbOp) : Option MipsTlb := ops.foldlM step tlb

end Iris.Cpu.Tlb
