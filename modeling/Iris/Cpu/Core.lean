import Iris.Cpu.Tlb.Model
import Iris.Cpu.Timer.Core

/-!
Owns the architectural state of one CPU: general registers, the program counter
with its pending delay slot, HI/LO, CP0, the FPU's control word, and the
operations on them that need no memory or TLB (register access, privilege, CP0
reads and writes, exception delivery). The FPU's data registers and the JIT's
bookkeeping fields are not modelled.
-/

namespace Iris.Cpu

open Tlb Timer Function

/-! ### Status words of the executor -/

abbrev ExecStatus := BitVec 32

def execComplete : ExecStatus := 0x00000000
def execRetry : ExecStatus := 0x00000100
def execBreakpoint : ExecStatus := 0x00000800
def execIsException : ExecStatus := 0x08000000
def execIsTlbRefill : ExecStatus := 0x10000000
def execIsXtlbRefill : ExecStatus := 0x20000000
def execIsCacheErr : ExecStatus := 0x40000000

def excInt : BitVec 32 := 0
def excMod : BitVec 32 := 1
def excTlbl : BitVec 32 := 2
def excTlbs : BitVec 32 := 3
def excAdel : BitVec 32 := 4
def excAdes : BitVec 32 := 5
def excSys : BitVec 32 := 8
def excBp : BitVec 32 := 9
def excRi : BitVec 32 := 10
def excCpu : BitVec 32 := 11
def excOv : BitVec 32 := 12
def excTr : BitVec 32 := 13

def execException (code : BitVec 32) : ExecStatus := execIsException ||| code <<< 2
def execTlbMiss (code : BitVec 32) : ExecStatus := execIsException ||| execIsTlbRefill ||| code <<< 2
def execXtlbMiss (code : BitVec 32) : ExecStatus :=
  execIsException ||| execIsTlbRefill ||| execIsXtlbRefill ||| code <<< 2

def isException (status : ExecStatus) : Bool := status &&& execIsException != 0

/-! ### CP0 fields -/

def statusIe : BitVec 32 := 0x1
def statusExl : BitVec 32 := 0x2
def statusErl : BitVec 32 := 0x4
def statusUx : BitVec 32 := 0x20
def statusSx : BitVec 32 := 0x40
def statusKx : BitVec 32 := 0x80
def statusImMask : BitVec 32 := 0xFF00
def statusSr : BitVec 32 := 0x100000
def statusBev : BitVec 32 := 0x400000
def statusCu0 : BitVec 32 := 0x10000000
def statusCu1 : BitVec 32 := 0x20000000

def causeExcCodeMask : BitVec 32 := 0x7C
def causeIpMask : BitVec 32 := 0xFF00
def causeIp0 : BitVec 32 := 0x100
def causeIp1 : BitVec 32 := 0x200
def causeIp7 : BitVec 32 := 0x8000
/-- `EXT_INT_MASK`: the lines other threads raise, IP7 to IP2. -/
def extIntMask : BitVec 32 := 0xFC00
def causeCeMask : BitVec 32 := 0x30000000
def causeBd : BitVec 32 := 0x80000000

def cp0IndexSlotMask : BitVec 32 := 0x3F
def cp0IndexP : BitVec 32 := 0x80000000

/-- What the executor reads of a CPU model's constants. -/
structure CpuModel where
  mips4 : Bool
  r10kCacheOps : Bool
  /-- `TLB_ENTRIES`. -/
  geometry : Geometry
  vaBits : Nat
  paBits : Nat
  prid : BitVec 32
  /-- Config as the constructor computes it from the cache sizes. -/
  config : BitVec 32

def CpuModel.r4400 : CpuModel where
  mips4 := false
  r10kCacheOps := false
  geometry := ⟨48, by decide, by decide⟩
  vaBits := 40
  paBits := 36
  prid := 0x440
  config := 0xC08483

/-- LLAddr holds the physical address from bit 4 up. -/
def CpuModel.lladdrMask (model : CpuModel) : BitVec 64 := (1 <<< (model.paBits - 4)) - 1

/-- The CP0 registers that are 64 bits wide. -/
def CpuModel.cp0Is64bit (model : CpuModel) (reg : BitVec 5) : Bool :=
  [2, 3, 4, 8, 10, 14, 20, 30].contains reg.toNat || (model.r10kCacheOps && reg.toNat == 28)

/-- The general registers; register zero reads as zero. -/
structure Gprs where
  read : BitVec 5 → BitVec 64
  read_zero : read 0 = 0

namespace Gprs

/-- The array write, after which register zero is cleared again. -/
def write (gpr : Gprs) (reg : BitVec 5) (value : BitVec 64) : Gprs where
  read := update (update gpr.read reg value) 0 0
  read_zero := update_self ..

attribute [simp] read_zero

theorem ext {left right : Gprs} (same : ∀ reg, left.read reg = right.read reg) : left = right := by
  cases left
  congr
  exact funext same

variable (gpr : Gprs) (reg other : BitVec 5) (value : BitVec 64)

theorem read_write :
    (gpr.write reg value).read other =
      if other = 0 then 0 else if other = reg then value else gpr.read other := by
  simp only [write, update_apply]

theorem read_write_self : (gpr.write reg value).read reg = if reg = 0 then 0 else value := by
  simp [read_write]

theorem read_write_ne {reg other : BitVec 5} (distinct : reg ≠ 0 → other ≠ reg) :
    (gpr.write reg value).read other = gpr.read other := by
  rw [read_write]
  split <;> rename_i otherZero
  · rw [otherZero, gpr.read_zero]
  · apply if_neg
    intro same
    subst same
    exact distinct otherZero rfl

@[simp]
theorem write_zero : gpr.write 0 value = gpr := by
  apply ext
  intro other
  exact read_write_ne _ _ fun nonzero => absurd rfl nonzero

@[simp]
theorem write_write (first second : BitVec 64) :
    (gpr.write reg first).write reg second = gpr.write reg second := by
  apply ext
  intro other
  simp only [read_write]
  split
  · rfl
  · split <;> rfl

end Gprs

structure MipsCore where
  gpr : Gprs
  hi : BitVec 64
  lo : BitVec 64
  pc : BitVec 64
  inDelaySlot : Bool
  delaySlotTarget : BitVec 64
  cp0Index : BitVec 32
  cp0Random : BitVec 32
  cp0RandomCycle : BitVec 64
  cp0EntryLo0 : BitVec 64
  cp0EntryLo1 : BitVec 64
  cp0Context : BitVec 64
  cp0PageMask : BitVec 64
  cp0Wired : BitVec 32
  cp0BadVAddr : BitVec 64
  cp0EntryHi : BitVec 64
  cp0Status : BitVec 32
  cp0Cause : BitVec 32
  cp0Epc : BitVec 64
  cp0Prid : BitVec 32
  cp0Config : BitVec 32
  cp0LLAddr : BitVec 64
  cp0WatchLo : BitVec 32
  cp0WatchHi : BitVec 32
  cp0XContext : BitVec 64
  cp0Ecc : BitVec 32
  cp0CacheErr : BitVec 32
  cp0TagLo : BitVec 64
  cp0TagHi : BitVec 32
  cp0ErrorEpc : BitVec 64
  fpuFcsr : BitVec 32
  timer : CoreTimer
  tlbEntries : BitVec 32

inductive PrivilegeMode
  | kernel
  | supervisor
  | user
deriving DecidableEq, Repr

namespace MipsCore

variable (core : MipsCore)

/-! ### Registers -/

def readGpr (reg : BitVec 5) : BitVec 64 := core.gpr.read reg

def writeGpr (reg : BitVec 5) (value : BitVec 64) : MipsCore :=
  { core with gpr := core.gpr.write reg value }

/-- Condition code 0 is bit 23 of FCSR, the others follow bit 24. -/
def getFpuCc (cc : BitVec 3) : Bool :=
  core.fpuFcsr.getLsbD (if cc = 0 then 23 else 24 + cc.toNat)

/-! ### Mode -/

def getPrivilegeMode : PrivilegeMode :=
  if core.cp0Status &&& (statusExl ||| statusErl) != 0 then .kernel
  else
    let ksu := (core.cp0Status >>> 3) &&& 0x3
    if ksu = 0 then .kernel
    else if ksu = 1 then .supervisor
    else if ksu = 2 then .user
    else .kernel

def is64BitMode : Bool :=
  match core.getPrivilegeMode with
  | .kernel => core.cp0Status &&& statusKx != 0
  | .supervisor => core.cp0Status &&& statusSx != 0
  | .user => core.cp0Status &&& statusUx != 0

def interruptsEnabled : Bool :=
  core.cp0Status &&& statusIe != 0 && !(core.cp0Status &&& statusExl != 0) &&
    !(core.cp0Status &&& statusErl != 0)

/-! ### CP0 -/

/-- Random counts down from the last slot to Wired, one slot a cycle. -/
def updateRandom (currentCycles : BitVec 64) : MipsCore :=
  let wired := core.cp0Wired
  let maxEntry := core.tlbEntries - 1
  if wired > maxEntry then { core with cp0Random := maxEntry, cp0RandomCycle := currentCycles }
  else
    let range := core.tlbEntries - wired
    if range = 0 then { core with cp0Random := maxEntry, cp0RandomCycle := currentCycles }
    else
      let delta := currentCycles - core.cp0RandomCycle
      if delta > 0 then
        let currentVal := if core.cp0Random ≥ wired then core.cp0Random else maxEntry
        let currentOffset := currentVal - wired
        let step := (delta % range.setWidth 64).setWidth 32
        let newOffset := (currentOffset + range - step) % range
        { core with cp0Random := newOffset + wired, cp0RandomCycle := currentCycles }
      else core

def readCp0 (moment : Moment) (reg : Nat) : MipsCore × BitVec 64 :=
  match reg with
  | 0 => (core, core.cp0Index.setWidth 64)
  | 1 =>
    let core := core.updateRandom moment.cycles
    (core, core.cp0Random.setWidth 64)
  | 2 => (core, core.cp0EntryLo0 &&& 0x3FFFFFFF)
  | 3 => (core, core.cp0EntryLo1 &&& 0x3FFFFFFF)
  | 4 => (core, core.cp0Context)
  | 5 => (core, core.cp0PageMask &&& 0x01FFE000)
  | 6 => (core, core.cp0Wired.setWidth 64 &&& 0x3F)
  | 8 => (core, core.cp0BadVAddr)
  | 9 =>
    let (timer, count) := core.timer.readCount moment
    ({ core with timer := timer }, count.setWidth 64)
  | 10 => (core, core.cp0EntryHi)
  | 11 => (core, core.timer.cp0Compare.setWidth 64)
  | 12 => (core, core.cp0Status.setWidth 64)
  | 13 => (core, core.cp0Cause.setWidth 64)
  | 14 => (core, core.cp0Epc)
  | 15 => (core, core.cp0Prid.setWidth 64)
  | 16 => (core, core.cp0Config.setWidth 64)
  | 17 => (core, core.cp0LLAddr)
  | 18 => (core, core.cp0WatchLo.setWidth 64)
  | 19 => (core, core.cp0WatchHi.setWidth 64)
  | 20 => (core, core.cp0XContext)
  | 26 => (core, core.cp0Ecc.setWidth 64)
  | 27 => (core, core.cp0CacheErr.setWidth 64)
  | 28 => (core, core.cp0TagLo)
  | 29 => (core, core.cp0TagHi.setWidth 64)
  | 30 => (core, core.cp0ErrorEpc)
  | _ => (core, 0)

/-- A guest write of CP0 register `reg`, up to the callback Status has. -/
def writeCp0 (moment : Moment) (reg : Nat) (value : BitVec 64) : MipsCore :=
  let value32 := value.setWidth 32
  match reg with
  | 0 => { core with cp0Index := value32 &&& (cp0IndexP ||| cp0IndexSlotMask) }
  | 2 => { core with cp0EntryLo0 := value &&& 0x3FFFFFFF }
  | 3 => { core with cp0EntryLo1 := value &&& 0x3FFFFFFF }
  | 4 => { core with cp0Context := value }
  | 5 => { core with cp0PageMask := value &&& 0x01FFE000 }
  | 6 => { core with
      cp0Wired := value32
      cp0Random := core.tlbEntries - 1
      cp0RandomCycle := moment.cycles }
  | 9 => { core with timer := core.timer.writeCount moment value32 }
  | 10 => { core with cp0EntryHi := value &&& 0xC00000FFFFFFE0FF }
  | 11 => { core with
      timer := core.timer.writeCompare moment value32
      cp0Cause := core.cp0Cause &&& ~~~causeIp7 }
  | 12 => { core with cp0Status := value32 }
  | 13 =>
    let mask := causeIp0 ||| causeIp1
    { core with cp0Cause := (core.cp0Cause &&& ~~~mask) ||| (value32 &&& mask) }
  | 14 => { core with cp0Epc := value }
  | 16 => { core with cp0Config := (core.cp0Config &&& ~~~0x3F) ||| (value32 &&& 0x3F) }
  | 17 => { core with cp0LLAddr := value }
  | 18 => { core with cp0WatchLo := value32 }
  | 19 => { core with cp0WatchHi := value32 }
  | 20 => { core with cp0XContext := value }
  | 26 => { core with cp0Ecc := value32 }
  | 27 => { core with cp0CacheErr := value32 }
  | 28 => { core with cp0TagLo := value }
  | 29 => { core with cp0TagHi := value32 }
  | 30 => { core with cp0ErrorEpc := value }
  -- Random, BadVAddr and PRId are read-only; other numbers are not implemented.
  | _ => core

/-! ### Exceptions -/

/-- `deliver_exception_at`: EPC and BD from the faulting instruction's address
and whether it sits in a delay slot, then the vector. -/
def deliverExceptionAt (status : ExecStatus) (faultPc : BitVec 64) (bd : Bool) : MipsCore :=
  if status &&& execIsCacheErr != 0 then
    let base : BitVec 64 :=
      if core.cp0Status &&& statusBev != 0 then 0xFFFFFFFFBFC00200 else 0xFFFFFFFFA0000000
    { core with
      cp0ErrorEpc := if bd then faultPc - 4 else faultPc
      cp0Status := core.cp0Status ||| statusErl
      pc := base + 0x100
      inDelaySlot := false }
  else
    let isTlbRefill := status &&& execIsTlbRefill != 0
    let isXtlbRefill := status &&& execIsXtlbRefill != 0
    let wasExl := core.cp0Status &&& statusExl != 0
    let cause := (core.cp0Cause &&& ~~~causeExcCodeMask) ||| (status &&& causeExcCodeMask)
    let vectorBase : BitVec 64 :=
      if core.cp0Status &&& statusBev != 0 then 0xFFFFFFFFBFC00200 else 0xFFFFFFFF80000000
    let offset : BitVec 64 :=
      if !wasExl && isTlbRefill then (if isXtlbRefill then 0x080 else 0x000) else 0x180
    { core with
      cp0Cause :=
        if wasExl then cause else if bd then cause ||| causeBd else cause &&& ~~~causeBd
      cp0Epc := if wasExl then core.cp0Epc else if bd then faultPc - 4 else faultPc
      cp0Status := core.cp0Status ||| statusExl
      pc := vectorBase + offset
      inDelaySlot := false }

def deliverException (status : ExecStatus) : MipsCore :=
  core.deliverExceptionAt status core.pc core.inDelaySlot

def softReset : MipsCore :=
  { core with
    pc := 0xFFFFFFFFBFC00000
    cp0Wired := 0
    cp0Status := statusBev ||| statusErl ||| statusSr
    cp0Cause := 0
    cp0Epc := 0
    cp0ErrorEpc := 0
    timer := { core.timer with ip7Pending := false }
    inDelaySlot := false
    delaySlotTarget := 0 }

end MipsCore

/-- A core out of the constructor of an executor for `model`. -/
def MipsCore.new (model : CpuModel) (now : Nat) : MipsCore where
  gpr := ⟨fun _ => 0, rfl⟩
  hi := 0
  lo := 0
  pc := 0xFFFFFFFFBFC00000
  inDelaySlot := false
  delaySlotTarget := 0
  cp0Index := 0
  cp0Random := 47
  cp0RandomCycle := 0
  cp0EntryLo0 := 0
  cp0EntryLo1 := 0
  cp0Context := 0
  cp0PageMask := 0
  cp0Wired := 0
  cp0BadVAddr := 0
  cp0EntryHi := 0
  cp0Status := statusBev ||| statusErl
  cp0Cause := 0
  cp0Epc := 0
  cp0Prid := model.prid
  cp0Config := model.config
  cp0LLAddr := 0
  cp0WatchLo := 0
  cp0WatchHi := 0
  cp0XContext := 0
  cp0Ecc := 0
  cp0CacheErr := 0
  cp0TagLo := 0
  cp0TagHi := 0
  cp0ErrorEpc := 0
  fpuFcsr := 0
  timer := CoreTimer.new now
  tlbEntries := BitVec.ofNat 32 model.geometry.numEntries

end Iris.Cpu
