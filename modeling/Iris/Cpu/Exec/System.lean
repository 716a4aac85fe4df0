import Iris.Cpu.Exec.Translate

/-!
Owns the system instructions that read or change the translation state (MTC0,
DMTC0, TLBR, TLBWI, TLBWR, TLBP) and runs of guest operations over it. The
`tlbcheck` build, which may stop after a TLB write, is not modelled.
-/

namespace Iris.Cpu.Exec

open Tlb Timer

namespace Executor

variable (machine : Machine) (exec : Executor Mmu)

/-! ### Moves to CP0 -/

variable (moment : Moment) (core : MipsCore)

/-- The write with the callback Status has. -/
def writeCp0 (reg : BitVec 5) (value : BitVec 64) : Executor Mmu :=
  let written : Executor Mmu := { exec with core := exec.core.writeCp0 moment reg.toNat value }
  if reg = 12 then written.resyncPrivilegeState (mmuBackend 0) else written

def handleCp0SideEffects (reg : BitVec 5) : Executor Mmu :=
  let masked : Executor Mmu :=
    if reg = 17 then
      { exec with core := { exec.core with
          cp0LLAddr := exec.core.cp0LLAddr &&& machine.model.lladdrMask } }
    else exec
  if reg = 10 ∨ reg = 16 then { masked with rest := masked.rest.nanotlbInvalidate } else masked

/-- `exec_mtc0` over the translation state alone. -/
def mmuMtc0 (rt rd : BitVec 5) : Executor Mmu × ExecStatus :=
  let rtVal := exec.core.readGpr rt
  let value := if machine.model.cp0Is64bit rd then rtVal else (rtVal.setWidth 32).signExtend 64
  let written := exec.writeCp0 moment rd value
  (written.handleCp0SideEffects machine rd).handleExecComplete (mmuBackend 0)

def mmuDmtc0 (rt rd : BitVec 5) : Executor Mmu × ExecStatus :=
  let written := exec.writeCp0 moment rd (exec.core.readGpr rt)
  (written.handleCp0SideEffects machine rd).handleExecComplete (mmuBackend 0)

/-! ### TLB instructions -/

def tlbIndex : Nat := (core.cp0Index &&& cp0IndexSlotMask).toNat

/-- The registers TLBR loads from an entry: the G bit moves from EntryHi to both
EntryLo words. -/
def loadTlbRegisters (entry : TlbEntry) (core : MipsCore) : MipsCore :=
  let gBit := (entry.entryHi >>> 12) &&& 1
  { core with
    cp0EntryHi := entry.entryHi &&& ~~~0x1000
    cp0EntryLo0 := (entry.entryLo.even &&& ~~~1) ||| gBit
    cp0EntryLo1 := (entry.entryLo.odd &&& ~~~1) ||| gBit
    cp0PageMask := entry.pageMask }

def tlbr : Executor Mmu :=
  let index := tlbIndex exec.core
  if index ≥ exec.rest.tlb.numEntries then exec
  else ⟨loadTlbRegisters (exec.rest.tlb.read index) exec.core, exec.rest.nanotlbInvalidate⟩

def execTlbr : Executor Mmu × ExecStatus := exec.tlbr.handleExecComplete (mmuBackend 0)

def createTlbEntryFromCp0 : TlbEntry :=
  let g0 := core.cp0EntryLo0 &&& 1 != 0
  let g1 := core.cp0EntryLo1 &&& 1 != 0
  let gCombined : BitVec 64 := if g0 && g1 then 1 <<< 12 else 0
  { pageMask := core.cp0PageMask
    entryHi := (core.cp0EntryHi &&& 0xC00000FFFFFFE0FF &&& ~~~0x1000) ||| gCombined
    entryLo := ⟨core.cp0EntryLo0, core.cp0EntryLo1⟩
    selectorBitShift := 0
    vcmp32 := 0
    vpnHi32 := 0
    vcmp64 := 0
    vpnHi64 := 0
    offsetMask := 0
    pfnBase := ⟨0, 0⟩ }

/-- Install the CP0 entry in slot `index`. -/
def writeTlb (index : Nat) : Executor Mmu :=
  { exec with rest :=
      { exec.rest with
        tlb := exec.rest.tlb.write index (createTlbEntryFromCp0 exec.core) }.nanotlbInvalidate }

def tlbwi : Executor Mmu :=
  let index := tlbIndex exec.core
  if index ≥ exec.rest.tlb.numEntries then exec else exec.writeTlb index

def execTlbwi : Executor Mmu × ExecStatus := exec.tlbwi.handleExecComplete (mmuBackend 0)

def tlbwr : Executor Mmu :=
  let exec : Executor Mmu := { exec with core := exec.core.updateRandom moment.cycles }
  exec.writeTlb (exec.core.cp0Random.toNat % exec.rest.tlb.numEntries)

def execTlbwr : Executor Mmu × ExecStatus :=
  (exec.tlbwr moment).handleExecComplete (mmuBackend 0)

def isXtlbAddress (virtAddr : BitVec 64) : Bool :=
  core.is64BitMode && virtAddr >>> 62 != 2

def tlbp : Executor Mmu :=
  let virtAddr := exec.core.cp0EntryHi &&& ~~~0xFF
  let result := exec.rest.tlb.probe virtAddr (asid exec.core) (isXtlbAddress exec.core virtAddr)
  { exec with core := { exec.core with cp0Index := result } }

def execTlbp : Executor Mmu × ExecStatus := exec.tlbp.handleExecComplete (mmuBackend 0)

/-- The soft reset the step preamble performs. -/
def softReset : Executor Mmu :=
  { exec with core := exec.core.softReset }.resyncPrivilegeState (mmuBackend 0)

end Executor

/-! ### Runs -/

/-- What a guest does that reaches the translation state. A load, store or fetch
is its translation, with the exception it raises; later faults of the access are
exceptions of their own, as are interrupts. Any other instruction may put new
values into the general registers. -/
inductive GuestOp
  | load (va : BitVec 64)
  | store (va : BitVec 64)
  | fetch (va : BitVec 64)
  | debugTranslate (va : BitVec 64)
  | compute (gpr : Gprs)
  | mtc0 (moment : Moment) (rt rd : BitVec 5)
  | dmtc0 (moment : Moment) (rt rd : BitVec 5)
  | tlbr
  | tlbwi
  | tlbwr (moment : Moment)
  | tlbp
  | exception (status : ExecStatus) (cacheErr : BitVec 32)
  | eret
  | softReset

def guestAccess (machine : Machine) (exec : Executor Mmu) (accessType : AccessType)
    (va : BitVec 64) : Option (Executor Mmu) :=
  (exec.nanotlbTranslate machine accessType va).map fun (exec, result) =>
    if result.isException then (exec.handleException (mmuBackend 0) result.status).1 else exec

def guestStep (machine : Machine) (exec : Executor Mmu) : GuestOp → Option (Executor Mmu)
  | .load va => guestAccess machine exec .read va
  | .store va => guestAccess machine exec .write va
  | .fetch va => guestAccess machine exec .fetch va
  | .debugTranslate va => (exec.translateImpl machine true va .debug).map Prod.fst
  | .compute gpr =>
    some ({ exec with core := { exec.core with gpr := gpr } }.handleExecComplete
      (mmuBackend 0)).1
  | .mtc0 moment rt rd => some (exec.mmuMtc0 machine moment rt rd).1
  | .dmtc0 moment rt rd => some (exec.mmuDmtc0 machine moment rt rd).1
  | .tlbr => some exec.execTlbr.1
  | .tlbwi => some exec.execTlbwi.1
  | .tlbwr moment => some (exec.execTlbwr moment).1
  | .tlbp => some exec.execTlbp.1
  | .exception status cacheErr => some (exec.handleException (mmuBackend cacheErr) status).1
  | .eret => some (exec.execEret (mmuBackend 0)).1
  | .softReset => some exec.softReset

def guestRun (machine : Machine) (exec : Executor Mmu) (ops : List GuestOp) :
    Option (Executor Mmu) :=
  ops.foldlM (guestStep machine) exec

def Executor.new (machine : Machine) (now : Nat) : Executor Mmu :=
  let core := MipsCore.new machine.model now
  { core := core
    rest :=
      { tlb := (MipsTlb.new machine.model.geometry).setCacheAttrs (cacheAttrTable machine.model)
        translateFn := (core.is64BitMode, core.getPrivilegeMode)
        nanotlb := ⟨0, 0⟩
        nutlb := fun _ _ => ⟨0, 0⟩
        nutlbValid := fun _ _ => false } }

end Iris.Cpu.Exec
