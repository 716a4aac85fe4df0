import Iris.Cpu.Exec.Decode
import Iris.Cpu.Exec.Platform

/-!
Owns the handlers that compute on registers: arithmetic, logic, shifts, HI/LO, and
the trapping and exception-raising instructions. Handlers of one shape are
instances of one definition. Host calls answered inside SYSCALL are not modelled.
-/

namespace Iris.Cpu.Exec.Executor

open Tlb

variable {R : Type} (platform : Platform R) (exec : Executor R) (d : DecodedInstr)

/-! ### Shapes of handlers -/

def rsVal : BitVec 64 := exec.core.readGpr d.rs
def rtVal : BitVec 64 := exec.core.readGpr d.rt

/-- The low word, sign-extended. -/
def sext32 (value : BitVec 32) : BitVec 64 := value.signExtend 64

def low32 (value : BitVec 64) : BitVec 32 := value.setWidth 32

def complete : Executor R × ExecStatus := exec.handleExecComplete platform.toBackend

def raise (code : BitVec 32) : Executor R × ExecStatus :=
  exec.handleException platform.toBackend (execException code)

def finish (status : ExecStatus) : Executor R × ExecStatus :=
  exec.finishStatus platform.toBackend status

def withGpr (reg : BitVec 5) (value : BitVec 64) : Executor R :=
  { exec with core := exec.core.writeGpr reg value }

def writeBack (reg : BitVec 5) (value : BitVec 64) : Executor R × ExecStatus :=
  (exec.withGpr reg value).complete platform

/-- A result that traps on overflow. -/
def writeChecked (reg : BitVec 5) : Option (BitVec 64) → Executor R × ExecStatus
  | some value => exec.writeBack platform reg value
  | none => exec.raise platform excOv

def writeHiLo (hi lo : BitVec 64) : Executor R × ExecStatus :=
  { exec with core := { exec.core with hi := hi, lo := lo } }.complete platform

def trapIf (condition : Bool) : Executor R × ExecStatus :=
  if condition then exec.raise platform excTr else exec.complete platform

/-! ### Shifts, arithmetic and logic -/

def execSll := exec.writeBack platform d.rd (sext32 (low32 (exec.rtVal d <<< d.sa.toNat)))
def execSrl := exec.writeBack platform d.rd (sext32 (low32 (exec.rtVal d) >>> d.sa.toNat))
def execSra := exec.writeBack platform d.rd (sext32 ((low32 (exec.rtVal d)).sshiftRight d.sa.toNat))

def shiftAmount32 : Nat := (exec.rsVal d &&& 0x1F).toNat

def execSllv :=
  exec.writeBack platform d.rd (sext32 (low32 (exec.rtVal d <<< exec.shiftAmount32 d)))
def execSrlv :=
  exec.writeBack platform d.rd (sext32 (low32 (exec.rtVal d) >>> exec.shiftAmount32 d))
def execSrav :=
  exec.writeBack platform d.rd (sext32 ((low32 (exec.rtVal d)).sshiftRight (exec.shiftAmount32 d)))

def execDsll := exec.writeBack platform d.rd (exec.rtVal d <<< d.sa.toNat)
def execDsrl := exec.writeBack platform d.rd (exec.rtVal d >>> d.sa.toNat)
def execDsra := exec.writeBack platform d.rd ((exec.rtVal d).sshiftRight d.sa.toNat)
def execDsll32 := exec.writeBack platform d.rd (exec.rtVal d <<< (d.sa.toNat + 32))
def execDsrl32 := exec.writeBack platform d.rd (exec.rtVal d >>> (d.sa.toNat + 32))
def execDsra32 := exec.writeBack platform d.rd ((exec.rtVal d).sshiftRight (d.sa.toNat + 32))

def shiftAmount64 : Nat := (exec.rsVal d &&& 0x3F).toNat

def execDsllv := exec.writeBack platform d.rd (exec.rtVal d <<< exec.shiftAmount64 d)
def execDsrlv := exec.writeBack platform d.rd (exec.rtVal d >>> exec.shiftAmount64 d)
def execDsrav := exec.writeBack platform d.rd ((exec.rtVal d).sshiftRight (exec.shiftAmount64 d))

def checkedAdd32 (left right : BitVec 32) : Option (BitVec 64) :=
  if left.saddOverflow right then none else some (sext32 (left + right))
def checkedSub32 (left right : BitVec 32) : Option (BitVec 64) :=
  if left.ssubOverflow right then none else some (sext32 (left - right))
def checkedAdd64 (left right : BitVec 64) : Option (BitVec 64) :=
  if left.saddOverflow right then none else some (left + right)
def checkedSub64 (left right : BitVec 64) : Option (BitVec 64) :=
  if left.ssubOverflow right then none else some (left - right)

def execAdd :=
  exec.writeChecked platform d.rd (checkedAdd32 (low32 (exec.rsVal d)) (low32 (exec.rtVal d)))
def execSub :=
  exec.writeChecked platform d.rd (checkedSub32 (low32 (exec.rsVal d)) (low32 (exec.rtVal d)))
def execDadd := exec.writeChecked platform d.rd (checkedAdd64 (exec.rsVal d) (exec.rtVal d))
def execDsub := exec.writeChecked platform d.rd (checkedSub64 (exec.rsVal d) (exec.rtVal d))
def execAddi :=
  exec.writeChecked platform d.rt (checkedAdd32 (low32 (exec.rsVal d)) (low32 d.immu64))
def execDaddi := exec.writeChecked platform d.rt (checkedAdd64 (exec.rsVal d) d.immu64)

/-- What ADDU and SUBU leave in rd, ADDIU in rt. -/
def adduVal : BitVec 64 := sext32 (low32 (exec.rsVal d) + low32 (exec.rtVal d))
def subuVal : BitVec 64 := sext32 (low32 (exec.rsVal d) - low32 (exec.rtVal d))
def addiuVal (imm : BitVec 32) : BitVec 64 := sext32 (low32 (exec.rsVal d) + imm)

def execAddu := exec.writeBack platform d.rd (exec.adduVal d)
def execSubu := exec.writeBack platform d.rd (exec.subuVal d)
def execAddiu := exec.writeBack platform d.rt (exec.addiuVal d (low32 d.immi64))
def execDaddu := exec.writeBack platform d.rd (exec.rsVal d + exec.rtVal d)
def execDsubu := exec.writeBack platform d.rd (exec.rsVal d - exec.rtVal d)
def execDaddiu := exec.writeBack platform d.rt (exec.rsVal d + d.immu64)

def execAnd := exec.writeBack platform d.rd (exec.rsVal d &&& exec.rtVal d)
def execOr := exec.writeBack platform d.rd (exec.rsVal d ||| exec.rtVal d)
def execXor := exec.writeBack platform d.rd (exec.rsVal d ^^^ exec.rtVal d)
def execNor := exec.writeBack platform d.rd (~~~(exec.rsVal d ||| exec.rtVal d))
def execAndi := exec.writeBack platform d.rt (exec.rsVal d &&& d.immi64)
def execOri := exec.writeBack platform d.rt (exec.rsVal d ||| d.immi64)
def execXori := exec.writeBack platform d.rt (exec.rsVal d ^^^ d.immi64)
def execLui := exec.writeBack platform d.rt d.immu64

def execSlt :=
  exec.writeBack platform d.rd (if (exec.rsVal d).slt (exec.rtVal d) then 1 else 0)
def execSltu :=
  exec.writeBack platform d.rd (if (exec.rsVal d).ult (exec.rtVal d) then 1 else 0)
def execSlti := exec.writeBack platform d.rt (if (exec.rsVal d).slt d.immu64 then 1 else 0)
def execSltiu := exec.writeBack platform d.rt (if (exec.rsVal d).ult d.immu64 then 1 else 0)

def execMovz :=
  if exec.rtVal d = 0 then exec.writeBack platform d.rd (exec.rsVal d) else exec.complete platform
def execMovn :=
  if exec.rtVal d ≠ 0 then exec.writeBack platform d.rd (exec.rsVal d) else exec.complete platform

/-! ### HI and LO -/

def execMfhi := exec.writeBack platform d.rd exec.core.hi
def execMthi := exec.writeHiLo platform (exec.rsVal d) exec.core.lo
def execMflo := exec.writeBack platform d.rd exec.core.lo
def execMtlo := exec.writeHiLo platform exec.core.hi (exec.rsVal d)

/-- HI and LO of a 64-bit product, each half sign-extended. -/
def writeProduct (product : BitVec 64) : Executor R × ExecStatus :=
  exec.writeHiLo platform (sext32 (product.extractLsb' 32 32)) (sext32 (low32 product))

def execMult :=
  exec.writeProduct platform (sext32 (low32 (exec.rsVal d)) * sext32 (low32 (exec.rtVal d)))
def execMultu :=
  exec.writeProduct platform
    ((low32 (exec.rsVal d)).setWidth 64 * (low32 (exec.rtVal d)).setWidth 64)

def execDiv :=
  let dividend := low32 (exec.rsVal d)
  let divisor := low32 (exec.rtVal d)
  if divisor = 0 then exec.complete platform
  else exec.writeHiLo platform (sext32 (dividend.srem divisor)) (sext32 (dividend.sdiv divisor))

def execDivu :=
  let dividend := low32 (exec.rsVal d)
  let divisor := low32 (exec.rtVal d)
  if divisor = 0 then exec.complete platform
  else exec.writeHiLo platform (sext32 (dividend % divisor)) (sext32 (dividend / divisor))

def writeWideProduct (product : BitVec 128) : Executor R × ExecStatus :=
  exec.writeHiLo platform (product.extractLsb' 64 64) (product.setWidth 64)

def execDmult :=
  exec.writeWideProduct platform ((exec.rsVal d).signExtend 128 * (exec.rtVal d).signExtend 128)
def execDmultu :=
  exec.writeWideProduct platform ((exec.rsVal d).setWidth 128 * (exec.rtVal d).setWidth 128)

def execDdiv :=
  let dividend := exec.rsVal d
  let divisor := exec.rtVal d
  if divisor = 0 then exec.complete platform
  -- The one quotient that overflows leaves HI and LO alone.
  else if dividend = BitVec.intMin 64 ∧ divisor = -1 then exec.complete platform
  else exec.writeHiLo platform (dividend.srem divisor) (dividend.sdiv divisor)

def execDdivu :=
  let dividend := exec.rsVal d
  let divisor := exec.rtVal d
  if divisor = 0 then exec.complete platform
  else exec.writeHiLo platform (dividend % divisor) (dividend / divisor)

/-! ### Traps and system calls -/

def execTge := exec.trapIf platform (!(exec.rsVal d).slt (exec.rtVal d))
def execTgeu := exec.trapIf platform (!(exec.rsVal d).ult (exec.rtVal d))
def execTlt := exec.trapIf platform ((exec.rsVal d).slt (exec.rtVal d))
def execTltu := exec.trapIf platform ((exec.rsVal d).ult (exec.rtVal d))
def execTeq := exec.trapIf platform (exec.rsVal d == exec.rtVal d)
def execTne := exec.trapIf platform (exec.rsVal d != exec.rtVal d)
def execTgei := exec.trapIf platform (!(exec.rsVal d).slt d.immu64)
def execTgeiu := exec.trapIf platform (!(exec.rsVal d).ult d.immu64)
def execTlti := exec.trapIf platform ((exec.rsVal d).slt d.immu64)
def execTltiu := exec.trapIf platform ((exec.rsVal d).ult d.immu64)
def execTeqi := exec.trapIf platform (exec.rsVal d == d.immu64)
def execTnei := exec.trapIf platform (exec.rsVal d != d.immu64)

def execSyscall := exec.raise platform excSys
def execBreak := exec.raise platform excBp
def execReserved := exec.raise platform excRi
def execSync := exec.complete platform
def execPref := exec.complete platform

/-- Coprocessor Unusable, with the coprocessor's number in Cause.CE. -/
def cpuUnusable (ce : BitVec 32) : Executor R × ExecStatus :=
  { exec with core := { exec.core with
      cp0Cause := (exec.core.cp0Cause &&& ~~~causeCeMask) ||| ((ce &&& 3) <<< 28) } }.raise
    platform excCpu

end Iris.Cpu.Exec.Executor
