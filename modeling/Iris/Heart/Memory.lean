import Iris.Physical

/-!
Owns HEART's main memory: the banks fitted, the descriptors that place them in units of
32 MiB, the rebuild of the bus and of the window from the descriptors, the decode of an
address, and memory as a bus master sees it.
-/

namespace Iris.Heart

open Ppmem Physical

def ramBase : Nat := 0x20000000

def unit : Nat := 32 <<< 20

/-- Low memory at physical 0: the first bytes of SDRAM, which the processor reaches only
there. -/
def lowSize : Nat := 0x4000

def sdramEnd : Nat := 8 <<< 36

def lowWindow : Nat := 0x10000

def descValid : BitVec 32 := 0x80000000#32

def mib : Nat := 1 <<< 20

/-- Where an offset into a descriptor's span lands in the bank: wrapped at its size, except
under the descriptor the PROM probes with. -/
def bankOffset (descriptor : BitVec 32) (capacity offset : Nat) : Nat :=
  if descriptor &&& 0x803f0000#32 = 0x803f0000#32 ∧ (descriptor >>> 22) &&& 7#32 = 6#32 then
    if capacity = 64 * mib then
      (offset &&& (32 * mib - 1)) ||| ((offset &&& (64 * mib)) >>> 1)
    else if capacity = 128 * mib then
      (offset &&& (32 * mib - 1)) ||| ((offset &&& (64 * mib)) >>> 1) |||
        ((offset &&& (1024 * mib)) >>> 4)
    else if capacity = 256 * mib then
      (offset &&& (128 * mib - 1)) ||| ((offset &&& (256 * mib)) >>> 1)
    else if capacity = 512 * mib then
      (offset &&& (128 * mib - 1)) ||| ((offset &&& (256 * mib)) >>> 1) |||
        ((offset &&& (1024 * mib)) >>> 2)
    else offset % capacity
  else offset % capacity

def descBase (d : BitVec 32) : Nat := ramBase + (d &&& 0x1ff#32).toNat * unit

def descSpan (d : BitVec 32) : Nat := (((d >>> 16) &&& 0x3f#32).toNat + 1) * unit

/-- Where a physical address in SDRAM space lands. -/
inductive Decode
  | ram (bank : Fin 4) (offset : Nat)
  | absent
  | none
deriving DecidableEq, Repr

inductive FitError
  /-- `HEART bank {i} capacity must be 0, 64M, 128M, 256M, 512M, 1G or 2G` -/
  | capacity (bank : Nat)
  /-- `HEART banks hold more than 2048 MiB, the most an Octane takes` -/
  | total
deriving DecidableEq, Repr

/-- HEART's memory. A bank of size 0 has nothing fitted; `index` is a fitted bank's place
among the banks of the bus, and `placed` the units placed by the last rebuild. -/
structure HeartRam where
  phys : Physical
  size : Fin 4 → Nat
  index : Fin 4 → Option Nat
  desc : Fin 4 → BitVec 32 := fun _ => 0
  placed : List Nat := []

/-- What a unit is given: its entry, and the run of a bank it shows in the window. -/
abbrev Placing := Entry × Option (Nat × Nat)

namespace HeartRam

variable (heart : HeartRam)

/-- What a bank's descriptor gives the unit at `place`, its `k`-th. -/
def placing (bank : Fin 4) (k : Nat) : Placing :=
  let d := heart.desc bank
  let place := descBase d + k * unit
  match heart.index bank with
  | some i =>
    let src := bankOffset d (heart.size bank) (k * unit)
    (.bankView i (place - src), some (i, src))
  | none => (.unmapped, none)

def insertBank (units : Nat → Option Placing) (bank : Fin 4) : Nat → Option Placing :=
  let d := heart.desc bank
  if d &&& descValid = 0#32 then units
  else
    (List.range (descSpan d / unit)).foldl
      (fun units k => Function.update units (descBase d + k * unit) (some (heart.placing bank k)))
      units

/-- The units placed. Lower banks first, so a higher one overrides them. -/
def units : Nat → Option Placing :=
  (List.finRange 4).foldl heart.insertBank fun _ => none

/-- The addresses a descriptor can place a unit at, in order. -/
def unitAddrs : List Nat := (List.range (0x1ff + 0x40)).map fun k => ramBase + k * unit

/-- Put a unit nothing claims any more back to the default device. -/
def putBack (units : Nat → Option Placing) (phys : Physical) (place : Nat) : Physical :=
  if (units place).isSome then phys
  else phys.fillSlots (place >>> slotShift) (unit >>> slotShift) phys.defaultDevice

/-- Point a unit's slots at its entry, and map its run into the window if it lies there. -/
def placeUnit (units : Nat → Option Placing) (phys : Physical) (place : Nat) : Physical :=
  match units place with
  | none => phys
  | some (entry, run) =>
    let phys := phys.fillSlots (place >>> slotShift) (unit >>> slotShift) entry
    match run with
    | some (i, src) => if place + unit ≤ windowSize then phys.mapRange i src place unit else phys
    | none => phys

/-- What the processor reaches at physical 0: the start of SDRAM space. -/
def lowEntry (units : Nat → Option Placing) (dflt : Entry) : Entry :=
  match units ramBase with
  | some (_, some (i, src)) => .bankView i ((2 ^ 64 - src) % 2 ^ 64)
  | some (entry, none) => entry
  | none => dflt

def placeLow (units : Nat → Option Placing) (phys : Physical) : Physical :=
  let phys := phys.fillSlots 0 (lowSize >>> slotShift) (lowEntry units phys.defaultDevice)
  let phys := phys.fillSlots (lowSize >>> slotShift) ((lowWindow - lowSize) >>> slotShift)
    phys.defaultDevice
  phys.fillSlots (ramBase >>> slotShift) (lowSize >>> slotShift) phys.defaultDevice

/-- Place the banks as the descriptors in force say. -/
def rebuild : HeartRam :=
  let units := heart.units
  let keys := unitAddrs.filter fun place => (units place).isSome
  let phys := heart.placed.foldl (putBack units) heart.phys.clearMappings
  let phys := keys.foldl (placeUnit units) phys
  { heart with phys := placeLow units phys, placed := keys }

/-- The bits of each descriptor the decode reads. -/
def decoded (d : BitVec 32) : BitVec 32 :=
  if d &&& descValid = 0#32 then 0#32
  else d &&& (descValid ||| 0x7#32 <<< 22 ||| 0x3f#32 <<< 16 ||| 0x1ff#32)

/-- The descriptors are written. Nothing is placed anew if the decode stays as it was. -/
def setMemcfg (words : Fin 4 → BitVec 32) : HeartRam :=
  let same := ∀ bank, decoded (heart.desc bank) = decoded (words bank)
  let heart := { heart with desc := words }
  if same then heart else heart.rebuild

/-- The highest-numbered bank whose descriptor claims an address answers. -/
def decode (addr : Nat) : Decode :=
  let claimed := (List.finRange 4).reverse.findSome? fun bank =>
    let w := heart.desc bank
    if w &&& descValid = 0#32 then none
    else if descBase w ≤ addr ∧ addr - descBase w < descSpan w then
      some (if heart.size bank = 0 then .absent
        else .ram bank (bankOffset w (heart.size bank) (addr - descBase w)))
    else none
  claimed.getD .none

/-- Memory as a bus master sees it: what answers, and the address to give it. The guard's
bytes are reached through low memory. -/
def dmaAt (addr : Nat) : Option (Entry × Nat) :=
  if ramBase ≤ addr ∧ addr < sdramEnd then
    let a := if addr < ramBase + lowSize then addr - ramBase else addr
    match heart.phys.entryAt a with
    | none => none
    | some entry =>
      if entry = .unmapped ∨ entry = heart.phys.defaultDevice then none else some (entry, a)
  else none

/-- What a bus master reaches; an error where there is no memory. -/
def dmaTarget (addr : Nat) : Option Target :=
  (heart.dmaAt addr).map fun (entry, a) => entry.target heart.phys.banks a

end HeartRam

/-! ### Fitting -/

/-- The sizes of the banks fitted below one. -/
def fitted (size : Fin 4 → Nat) (below : Nat) : List Nat :=
  (((List.finRange 4).take below).map size).filter (· ≠ 0)

/-- The checks of `try_new`, bank by bank. -/
def checkBanks (size : Fin 4 → Nat) : List (Fin 4) → Nat → Except FitError Unit
  | [], _ => .ok ()
  | bank :: rest, total =>
    let s := size bank
    if s ≠ 0 ∧ (¬(64 <<< 20 ≤ s ∧ s ≤ 2 <<< 30) ∨ s ≠ 2 ^ s.log2) then .error (.capacity bank)
    else if 2 <<< 30 < total + s then .error .total
    else checkBanks size rest (total + s)

/-- The bus over the fitted banks, with a device that answers with errors as its default. -/
def HeartRam.tryNew (perPage npages : Nat) (windowed : Bool) (noMemory : Nat)
    (banksMb : Fin 4 → Nat) : Except FitError HeartRam :=
  let size := fun bank => banksMb bank <<< 20
  match checkBanks size (List.finRange 4) 0 with
  | .error error => .error error
  | .ok () =>
    .ok ({ phys := new perPage npages windowed (fitted size 4) (.device noMemory)
           size
           index := fun bank =>
             if size bank = 0 then none else some (fitted size bank).length } : HeartRam).rebuild

end Iris.Heart
