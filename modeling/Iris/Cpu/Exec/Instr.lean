import Iris.Cpu.Exec.Alu

/-!
Owns the handlers that branch, access memory or reach a coprocessor, the fused
handlers of builds with opcode fusion, and the dispatch of a decoded word. The
stall loop of WAIT and all tracing are not modelled.
-/

namespace Iris.Cpu.Exec.Executor

open Tlb

variable {R : Type} (platform : Platform R) (exec : Executor R) (d : DecodedInstr)

/-! ### Jumps and branches -/

def jumpTarget : BitVec 64 := ((exec.core.pc + 4) &&& 0xFFFFFFFFF0000000) ||| d.immi64

def branchTarget : BitVec 64 := exec.core.pc + 4 + d.immu64

/-- Write the return address, behind the delay slot, to `reg`. -/
def link (reg : BitVec 5) : Executor R := exec.withGpr reg (exec.core.pc + 8)

def branchIf (taken : Bool) : Executor R × ExecStatus :=
  if taken then exec.branchDelay (exec.branchTarget d) else exec.handleBranchNotTaken

def branchLikelyIf (taken : Bool) : Executor R × ExecStatus :=
  if taken then exec.branchDelay (exec.branchTarget d) else exec.handleBranchLikelySkip

def execJr := exec.branchDelay (exec.rsVal d)
def execJalr := (exec.link d.rd).branchDelay (exec.rsVal d)
def execJ := exec.branchDelay (exec.jumpTarget d)
def execJal := (exec.link 31).branchDelay (exec.jumpTarget d)

def positive (value : BitVec 64) : Bool := (0 : BitVec 64).slt value

def execBeq := exec.branchIf d (exec.rsVal d == exec.rtVal d)
def execBne := exec.branchIf d (exec.rsVal d != exec.rtVal d)
def execBlez := exec.branchIf d (!positive (exec.rsVal d))
def execBgtz := exec.branchIf d (positive (exec.rsVal d))
def execBltz := exec.branchIf d (exec.rsVal d).msb
def execBgez := exec.branchIf d (!(exec.rsVal d).msb)
def execBeql := exec.branchLikelyIf d (exec.rsVal d == exec.rtVal d)
def execBnel := exec.branchLikelyIf d (exec.rsVal d != exec.rtVal d)
def execBlezl := exec.branchLikelyIf d (!positive (exec.rsVal d))
def execBgtzl := exec.branchLikelyIf d (positive (exec.rsVal d))
def execBltzlRi := exec.branchLikelyIf d (exec.rsVal d).msb
def execBgezlRi := exec.branchLikelyIf d (!(exec.rsVal d).msb)
def execBltzal := (exec.link 31).branchIf d (exec.rsVal d).msb
def execBgezal := (exec.link 31).branchIf d (!(exec.rsVal d).msb)
def execBltzall := (exec.link 31).branchLikelyIf d (exec.rsVal d).msb
def execBgezall := (exec.link 31).branchLikelyIf d (!(exec.rsVal d).msb)

/-! ### Loads and stores -/

def virtAddr : BitVec 64 := exec.rsVal d + d.immu64

variable (size : AccessSize) (extend : BitVec 64 → BitVec 64)

/-- Run an access that yields a register value: write it back, or finish with the
status of the failure. -/
def loadWith (access : Access R (BitVec 64)) (reg : BitVec 5)
    (extend : BitVec 64 → BitVec 64) : Executor R × ExecStatus :=
  match access.run exec with
  | (exec, .ok value) => exec.writeBack platform reg (extend value)
  | (exec, .error status) => exec.finish platform status

def storeWith (access : Access R Unit) : Executor R × ExecStatus :=
  let (exec, result) := access.run exec
  exec.finish platform (accessStatus result)

def sext8 (value : BitVec 64) : BitVec 64 := (value.setWidth 8).signExtend 64
def sext16 (value : BitVec 64) : BitVec 64 := (value.setWidth 16).signExtend 64

def load : Executor R × ExecStatus :=
  exec.loadWith platform (platform.readData size (exec.virtAddr d)) d.rt extend

def store : Executor R × ExecStatus :=
  exec.storeWith platform (platform.writeData size (exec.virtAddr d) (exec.rtVal d))

def execLb := exec.load platform d .byte sext8
def execLbu := exec.load platform d .byte id
def execLh := exec.load platform d .half sext16
def execLhu := exec.load platform d .half id
def execLw := exec.load platform d .word (sext32 ∘ low32)
def execLwu := exec.load platform d .word id
def execLd := exec.load platform d .dword id
def execSb := exec.store platform d .byte
def execSh := exec.store platform d .half
def execSw := exec.store platform d .word
def execSd := exec.store platform d .dword

def wordOffset (va : BitVec 64) : Nat := (va &&& 3).toNat
def dwordOffset (va : BitVec 64) : Nat := (va &&& 7).toNat

/-- The bytes from the addressed one to the end of its word, in front of the rest of
the register. -/
def mergeLeft32 (shift : Nat) (rtVal memWord : BitVec 64) : BitVec 64 :=
  let mask : BitVec 32 := 0xFFFFFFFF <<< shift
  sext32 ((low32 memWord <<< shift) ||| (low32 rtVal &&& ~~~mask))

/-- The bytes from the start of the word to the addressed one, behind the rest of the
register. -/
def mergeRight32 (shift : Nat) (rtVal memWord : BitVec 64) : BitVec 64 :=
  let mask : BitVec 32 := 0xFFFFFFFF >>> shift
  sext32 ((low32 memWord >>> shift) ||| (low32 rtVal &&& ~~~mask))

def mergeLeft64 (shift : Nat) (rtVal memDword : BitVec 64) : BitVec 64 :=
  let mask : BitVec 64 := 0xFFFFFFFFFFFFFFFF <<< shift
  (memDword <<< shift) ||| (rtVal &&& ~~~mask)

def mergeRight64 (shift : Nat) (rtVal memDword : BitVec 64) : BitVec 64 :=
  let mask : BitVec 64 := 0xFFFFFFFFFFFFFFFF >>> shift
  (memDword >>> shift) ||| (rtVal &&& ~~~mask)

def execLwl :=
  let va := exec.virtAddr d
  exec.loadWith platform (platform.readData .word (va &&& ~~~3)) d.rt
    (mergeLeft32 (wordOffset va * 8) (exec.rtVal d))
def execLwr :=
  let va := exec.virtAddr d
  exec.loadWith platform (platform.readData .word (va &&& ~~~3)) d.rt
    (mergeRight32 ((3 - wordOffset va) * 8) (exec.rtVal d))
def execLdl :=
  let va := exec.virtAddr d
  exec.loadWith platform (platform.readData .dword (va &&& ~~~7)) d.rt
    (mergeLeft64 (dwordOffset va * 8) (exec.rtVal d))
def execLdr :=
  let va := exec.virtAddr d
  exec.loadWith platform (platform.readData .dword (va &&& ~~~7)) d.rt
    (mergeRight64 ((7 - dwordOffset va) * 8) (exec.rtVal d))

/-- A masked store of a word, placed in its half of the doubleword. -/
def storeWordMasked (va : BitVec 64) (value mask : BitVec 32) : Executor R × ExecStatus :=
  let dwShift := (4 - (va &&& 4).toNat) * 8
  exec.storeWith platform (platform.writeData64Masked (va &&& ~~~7)
    (value.setWidth 64 <<< dwShift) (mask.setWidth 64 <<< dwShift))

def execSwl :=
  let va := exec.virtAddr d
  let shift := wordOffset va * 8
  exec.storeWordMasked platform va (low32 (exec.rtVal d) >>> shift) (0xFFFFFFFF >>> shift)
def execSwr :=
  let va := exec.virtAddr d
  let shift := (3 - wordOffset va) * 8
  exec.storeWordMasked platform va (low32 (exec.rtVal d) <<< shift) (0xFFFFFFFF <<< shift)
def execSdl :=
  let va := exec.virtAddr d
  let shift := dwordOffset va * 8
  exec.storeWith platform (platform.writeData64Masked (va &&& ~~~7) (exec.rtVal d >>> shift)
    (0xFFFFFFFFFFFFFFFF >>> shift))
def execSdr :=
  let va := exec.virtAddr d
  let shift := (7 - dwordOffset va) * 8
  exec.storeWith platform (platform.writeData64Masked (va &&& ~~~7) (exec.rtVal d <<< shift)
    (0xFFFFFFFFFFFFFFFF <<< shift))

/-! ### Load linked and store conditional -/

def clearLink : Executor R := { exec with rest := platform.clearLlbit exec.rest }

def loadLinked : Executor R × ExecStatus :=
  let va := exec.virtAddr d
  match (platform.readData size va).run exec with
  | (exec, .error status) => exec.finish platform status
  | (exec, .ok value) =>
    match (platform.nanotlbTranslate .read va).run (exec.withGpr d.rt (extend value)) with
    | (exec, .error _) => exec.complete platform
    | (exec, .ok phys) =>
      let lladdr := (phys >>> 4) &&& platform.model.lladdrMask
      complete platform
        { core := { exec.core with cp0LLAddr := lladdr }
          rest := platform.setLink lladdr phys value exec.rest }

/-- The compare-exchange of a store conditional, where several CPUs call for it. -/
def casLinked (alignMask phys : BitVec 64) : Option (Bool × R) :=
  if platform.smp && exec.virtAddr d &&& alignMask == 0 && phys == platform.llPhys exec.rest then
    platform.casRam size phys (platform.llValue exec.rest) (exec.rtVal d) exec.rest
  else none

def storeConditional (alignMask : BitVec 64) : Executor R × ExecStatus :=
  let va := exec.virtAddr d
  if !platform.getLlbit exec.rest then exec.writeBack platform d.rt 0
  else
    match (platform.nanotlbTranslate .write va).run exec with
    | (exec, .error status) => (exec.clearLink platform).finish platform status
    | (exec, .ok phys) =>
      match exec.casLinked platform d size alignMask phys with
      | some (ok, rest) =>
        ({ exec with rest := rest }.clearLink platform).writeBack platform d.rt
          (if ok then 1 else 0)
      | none =>
        let (stored, result) := (platform.writeData size va (exec.rtVal d)).run exec
        if accessStatus result = execComplete then
          ((stored.withGpr d.rt 1).clearLink platform).complete platform
        else stored.finish platform (accessStatus result)

def execLl := exec.loadLinked platform d .word (sext32 ∘ low32)
def execLld := exec.loadLinked platform d .dword id
def execSc := exec.storeConditional platform d .word 3
def execScd := exec.storeConditional platform d .dword 7

/-! ### CACHE -/

/-- CP0 is usable in kernel mode, or with CU0 set. -/
def cp0Usable : Bool :=
  exec.core.getPrivilegeMode = .kernel || exec.core.cp0Status &&& statusCu0 != 0

/-- The R10000's index operations, which take the place of hit operations. -/
def r10kIndexOp (model : CpuModel) (cacheOp : BitVec 5) : Bool :=
  let sel := cacheOp &&& 3
  model.r10kCacheOps &&
    match (cacheOp &&& 0x1C).toNat with
    | 0x14 => sel == 0
    | 0x18 => sel == 0 || sel == 1 || sel == 3
    | 0x1C => sel == 2 || sel == 3
    | _ => false

/-- The operation itself, on a translated address or an index. -/
def cacheOperate (phys : BitVec 64) : Executor R × ExecStatus :=
  let op := (d.rt &&& 0x1C).toNat
  let indexOp := r10kIndexOp platform.model d.rt
  let physOrTag :=
    if op = 0x08 ∨ (indexOp ∧ op = 0x1C) then
      (exec.core.cp0TagHi.setWidth 64 <<< 32) ||| (low32 exec.core.cp0TagLo).setWidth 64
    else phys
  match (platform.cacheOp d.rt (exec.virtAddr d) physOrTag).run exec with
  | (exec, .error status) => exec.handleException platform.toBackend status
  | (exec, .ok (result, ecc)) =>
    let core := { exec.core with cp0Ecc := ecc.getD exec.core.cp0Ecc }
    let core :=
      if op = 0x04 ∨ (indexOp ∧ op = 0x18) then
        { core with
          cp0TagLo := result &&& 0xFFFFFFFF
          cp0TagHi := (result >>> 32).setWidth 32 }
      else core
    { exec with core := core }.complete platform

def execCache : Executor R × ExecStatus :=
  if !exec.cp0Usable then exec.cpuUnusable platform 0
  else if !r10kIndexOp platform.model d.rt &&
      [0x0C, 0x10, 0x14, 0x18, 0x1C].contains (d.rt &&& 0x1C).toNat then
    match (platform.nanotlbTranslate .read (exec.virtAddr d)).run exec with
    | (exec, .error status) => exec.handleException platform.toBackend status
    | (exec, .ok phys) => exec.cacheOperate platform d phys
  else exec.cacheOperate platform d (exec.virtAddr d)

/-! ### Coprocessor 0 -/

/-- A read of CP0 register rd into rt, narrowed by `extend`. -/
def moveFromCp0 : Executor R × ExecStatus :=
  let (core, value) := exec.core.readCp0 (platform.moment exec.rest) d.rd.toNat
  { exec with core := core }.writeBack platform d.rt (extend value)

def moveToCp0 (value : BitVec 64) : Executor R × ExecStatus :=
  let core := exec.core.writeCp0 (platform.moment exec.rest) d.rd.toNat value
  let rest := if d.rd = 12 then platform.resyncPrivilegeState core exec.rest else exec.rest
  let core :=
    if d.rd = 17 then { core with cp0LLAddr := core.cp0LLAddr &&& platform.model.lladdrMask }
    else core
  complete platform { core := core, rest := platform.cp0SideEffects d.rd core rest }

def execMfc0 := exec.moveFromCp0 platform d (sext32 ∘ low32)
def execDmfc0 := exec.moveFromCp0 platform d id
def execMtc0 :=
  exec.moveToCp0 platform d
    (if platform.model.cp0Is64bit d.rd then exec.rtVal d else sext32 (low32 (exec.rtVal d)))
def execDmtc0 := exec.moveToCp0 platform d (exec.rtVal d)

/-- WAIT completes once an interrupt can end it. -/
def execWait : Executor R × ExecStatus :=
  if !exec.core.interruptsEnabled then (exec, execRetry) else exec.complete platform

def execTlb : Executor R × ExecStatus :=
  match d.funct.toNat with
  | 0x01 => (platform.tlbr.run exec).1.complete platform
  | 0x02 => (platform.tlbwi.run exec).1.complete platform
  | 0x06 => (platform.tlbwr.run exec).1.complete platform
  | 0x08 => (platform.tlbp.run exec).1.complete platform
  | 0x18 => exec.execEret platform.toBackend
  | 0x20 => exec.execWait platform
  | _ => exec.execReserved platform

def execCop0 : Executor R × ExecStatus :=
  if !exec.cp0Usable then exec.cpuUnusable platform 0
  else
    match d.rs.toNat with
    | 0x00 => exec.execMfc0 platform d
    | 0x01 => exec.execDmfc0 platform d
    | 0x04 => exec.execMtc0 platform d
    | 0x05 => exec.execDmtc0 platform d
    | 0x10 => exec.execTlb platform d
    | _ => exec.execReserved platform

/-! ### Coprocessor 1 -/

def cp1Usable : Bool := exec.core.cp0Status &&& statusCu1 != 0

/-- The FPU's operations: behind the CU1 check, all of them complete, write rt and
complete, or finish with a status. -/
def execCop1 : Executor R × ExecStatus :=
  if !exec.cp1Usable then exec.cpuUnusable platform 1
  else
    let fcsr := platform.cop1Fcsr d.raw exec
    let (exec, result) := (platform.cop1 d.raw).run exec
    let exec : Executor R := { exec with core := { exec.core with fpuFcsr := fcsr } }
    match result with
    | .ok (some value) => exec.writeBack platform d.rt value
    | .ok none => exec.complete platform
    | .error status => exec.finish platform status

def fpuCc : Bool := exec.core.getFpuCc (d.raw.extractLsb' 18 3)

def execBc1 : Executor R × ExecStatus :=
  if !exec.cp1Usable then exec.cpuUnusable platform 1
  else
    let condition := if d.rt.getLsbD 0 then exec.fpuCc d else !exec.fpuCc d
    if d.rt.getLsbD 1 then exec.branchLikelyIf d condition else exec.branchIf d condition

def execMovci : Executor R × ExecStatus :=
  if !exec.cp1Usable then exec.cpuUnusable platform 1
  else if exec.fpuCc d == d.raw.getLsbD 16 then
    exec.writeBack platform d.rd (exec.rsVal d)
  else exec.complete platform

/-! ### Fused handlers -/

/-- A jump with a NOP behind it goes to its target directly, unless it sits in a
delay slot itself. -/
def jumpNop (target : BitVec 64) : Executor R × ExecStatus :=
  if exec.core.inDelaySlot then exec.branchDelay target
  else
    { exec with core := { exec.core with pc := target } }.execCompletePcSet platform.toBackend

def execJrNop := exec.jumpNop platform (exec.rsVal d)
def execJNop := exec.jumpNop platform (exec.jumpTarget d)
def execJalNop := (exec.link 31).jumpNop platform (exec.jumpTarget d)

def branchNop (taken : Bool) : Executor R × ExecStatus :=
  if taken then exec.jumpNop platform (exec.branchTarget d)
  else if exec.core.inDelaySlot then exec.complete platform
  else exec.handleBranchLikelySkip

def execBeqNop := exec.branchNop platform d (exec.rsVal d == exec.rtVal d)
def execBneNop := exec.branchNop platform d (exec.rsVal d != exec.rtVal d)

/-- A LUI with the instruction behind it. In a delay slot it is a plain LUI. -/
def luiPair : Executor R × ExecStatus :=
  if exec.core.inDelaySlot then
    exec.writeBack platform d.rt (sext32 ((d.raw &&& 0xFFFF) <<< 16))
  else (exec.withGpr d.rt d.immu64).handleBranchLikelySkip

def execLuiImm32 := exec.luiPair platform d
def execLuiSimm32 := exec.luiPair platform d

def fusedLoad (va : BitVec 64) (reg : BitVec 5) (extend : BitVec 64 → BitVec 64)
    : Executor R × ExecStatus :=
  match (platform.readData size va).run exec with
  | (exec, .ok value) => (exec.withGpr reg (extend value), execComplete)
  | (exec, .error status) => (exec, status)

def fusedStore (va : BitVec 64) (reg : BitVec 5) : Executor R × ExecStatus :=
  let (exec, result) := (platform.writeData size va (exec.core.readGpr reg)).run exec
  (exec, accessStatus result)

/-- The load or store `nextRaw` at an address already computed. -/
def fusedAccess (addr : BitVec 64) (nextRaw : BitVec 32) : Executor R × ExecStatus :=
  let reg := rtField nextRaw
  let va := addr + (nextRaw.setWidth 16).signExtend 64
  match (opField nextRaw).toNat with
  | 0x20 => exec.fusedLoad platform .byte va reg sext8
  | 0x24 => exec.fusedLoad platform .byte va reg id
  | 0x21 => exec.fusedLoad platform .half va reg sext16
  | 0x25 => exec.fusedLoad platform .half va reg id
  | 0x23 => exec.fusedLoad platform .word va reg (sext32 ∘ low32)
  | 0x37 => exec.fusedLoad platform .dword va reg id
  | 0x28 => exec.fusedStore platform .byte va reg
  | 0x29 => exec.fusedStore platform .half va reg
  | 0x2B => exec.fusedStore platform .word va reg
  | 0x3F => exec.fusedStore platform .dword va reg
  -- Decode fuses no other opcode.
  | _ => (exec, execComplete)

def execFusedAddrLoadStoreTail (addr : BitVec 64) (nextRaw : BitVec 32) :
    Executor R × ExecStatus :=
  if exec.core.inDelaySlot then exec.complete platform
  else
    let advanced : Executor R := { exec with core := { exec.core with pc := exec.core.pc + 4 } }
    let (accessed, status) := advanced.fusedAccess platform addr nextRaw
    if status = execComplete then accessed.complete platform
    else accessed.handleException platform.toBackend status

def execAdduLs :=
  (exec.withGpr d.rd (exec.adduVal d)).execFusedAddrLoadStoreTail platform (exec.adduVal d) d.imm
def execSubuLs :=
  (exec.withGpr d.rd (exec.subuVal d)).execFusedAddrLoadStoreTail platform (exec.subuVal d) d.imm
def execAddiuLs :=
  let addr := exec.addiuVal d ((d.raw.setWidth 16).signExtend 32)
  (exec.withGpr d.rt addr).execFusedAddrLoadStoreTail platform addr d.imm

/-! ### Dispatch -/

def execDecoded : Executor R × ExecStatus :=
  match d.handler with
  | .sll => exec.execSll platform d
  | .srl => exec.execSrl platform d
  | .sra => exec.execSra platform d
  | .sllv => exec.execSllv platform d
  | .srlv => exec.execSrlv platform d
  | .srav => exec.execSrav platform d
  | .movci => exec.execMovci platform d
  | .jr => exec.execJr d
  | .jalr => exec.execJalr d
  | .movz => exec.execMovz platform d
  | .movn => exec.execMovn platform d
  | .syscall => exec.execSyscall platform
  | .breakInstr => exec.execBreak platform
  | .sync => exec.execSync platform
  | .mfhi => exec.execMfhi platform d
  | .mthi => exec.execMthi platform d
  | .mflo => exec.execMflo platform d
  | .mtlo => exec.execMtlo platform d
  | .dsllv => exec.execDsllv platform d
  | .dsrlv => exec.execDsrlv platform d
  | .dsrav => exec.execDsrav platform d
  | .mult => exec.execMult platform d
  | .multu => exec.execMultu platform d
  | .div => exec.execDiv platform d
  | .divu => exec.execDivu platform d
  | .dmult => exec.execDmult platform d
  | .dmultu => exec.execDmultu platform d
  | .ddiv => exec.execDdiv platform d
  | .ddivu => exec.execDdivu platform d
  | .add => exec.execAdd platform d
  | .addu => exec.execAddu platform d
  | .sub => exec.execSub platform d
  | .subu => exec.execSubu platform d
  | .and => exec.execAnd platform d
  | .or => exec.execOr platform d
  | .xor => exec.execXor platform d
  | .nor => exec.execNor platform d
  | .slt => exec.execSlt platform d
  | .sltu => exec.execSltu platform d
  | .dadd => exec.execDadd platform d
  | .daddu => exec.execDaddu platform d
  | .dsub => exec.execDsub platform d
  | .dsubu => exec.execDsubu platform d
  | .tge => exec.execTge platform d
  | .tgeu => exec.execTgeu platform d
  | .tlt => exec.execTlt platform d
  | .tltu => exec.execTltu platform d
  | .teq => exec.execTeq platform d
  | .tne => exec.execTne platform d
  | .dsll => exec.execDsll platform d
  | .dsrl => exec.execDsrl platform d
  | .dsra => exec.execDsra platform d
  | .dsll32 => exec.execDsll32 platform d
  | .dsrl32 => exec.execDsrl32 platform d
  | .dsra32 => exec.execDsra32 platform d
  | .bltz => exec.execBltz d
  | .bgez => exec.execBgez d
  | .bltzlRi => exec.execBltzlRi d
  | .bgezlRi => exec.execBgezlRi d
  | .tgei => exec.execTgei platform d
  | .tgeiu => exec.execTgeiu platform d
  | .tlti => exec.execTlti platform d
  | .tltiu => exec.execTltiu platform d
  | .teqi => exec.execTeqi platform d
  | .tnei => exec.execTnei platform d
  | .bltzal => exec.execBltzal d
  | .bgezal => exec.execBgezal d
  | .bltzall => exec.execBltzall d
  | .bgezall => exec.execBgezall d
  | .j => exec.execJ d
  | .jal => exec.execJal d
  | .beq => exec.execBeq d
  | .bne => exec.execBne d
  | .blez => exec.execBlez d
  | .bgtz => exec.execBgtz d
  | .beql => exec.execBeql d
  | .bnel => exec.execBnel d
  | .blezl => exec.execBlezl d
  | .bgtzl => exec.execBgtzl d
  | .addi => exec.execAddi platform d
  | .addiu => exec.execAddiu platform d
  | .daddi => exec.execDaddi platform d
  | .daddiu => exec.execDaddiu platform d
  | .slti => exec.execSlti platform d
  | .sltiu => exec.execSltiu platform d
  | .andi => exec.execAndi platform d
  | .ori => exec.execOri platform d
  | .xori => exec.execXori platform d
  | .lui => exec.execLui platform d
  | .cop0 => exec.execCop0 platform d
  | .cop1 => exec.execCop1 platform d
  | .bc1 => exec.execBc1 platform d
  | .lb => exec.execLb platform d
  | .lh => exec.execLh platform d
  | .lwl => exec.execLwl platform d
  | .lw => exec.execLw platform d
  | .lbu => exec.execLbu platform d
  | .lhu => exec.execLhu platform d
  | .lwr => exec.execLwr platform d
  | .lwu => exec.execLwu platform d
  | .sb => exec.execSb platform d
  | .sh => exec.execSh platform d
  | .swl => exec.execSwl platform d
  | .sw => exec.execSw platform d
  | .sdl => exec.execSdl platform d
  | .sdr => exec.execSdr platform d
  | .swr => exec.execSwr platform d
  | .cache => exec.execCache platform d
  | .ll => exec.execLl platform d
  | .ldl => exec.execLdl platform d
  | .ldr => exec.execLdr platform d
  | .ld => exec.execLd platform d
  | .sc => exec.execSc platform d
  | .sd => exec.execSd platform d
  | .pref => exec.execPref platform
  | .lld => exec.execLld platform d
  | .scd => exec.execScd platform d
  | .reserved => exec.execReserved platform
  | .jrNop => exec.execJrNop platform d
  | .jNop => exec.execJNop platform d
  | .jalNop => exec.execJalNop platform d
  | .beqNop => exec.execBeqNop platform d
  | .bneNop => exec.execBneNop platform d
  | .adduLs => exec.execAdduLs platform d
  | .subuLs => exec.execSubuLs platform d
  | .addiuLs => exec.execAddiuLs platform d
  | .luiImm32 => exec.execLuiImm32 platform d
  | .luiSimm32 => exec.execLuiSimm32 platform d

end Iris.Cpu.Exec.Executor
