import Iris.Cpu.Exec.Instr

/-!
Owns the comparison of opcode fusion with plain execution: what two consecutive
words do when the first is dispatched to its fused handler, what they do one after
the other, and which states cannot tell the two apart.
-/

namespace Iris.Cpu.Exec

/-! ### What is compared -/

/-- The core with a delay-slot target only where a delay slot is pending. -/
def settled (core : MipsCore) : MipsCore :=
  { core with delaySlotTarget := if core.inDelaySlot then core.delaySlotTarget else 0 }

/-- The memory behind the core: what an exception entry leaves of it, besides the
LLbit and the cached translations it clears. -/
structure MemoryView {R : Type} (platform : Platform R) (M : Type) where
  contents : R → M
  clearLlbit : ∀ rest, contents (platform.clearLlbit rest) = contents rest
  resync : ∀ core rest, contents (platform.resyncPrivilegeState core rest) = contents rest

/-- Equal registers, PC, delay-slot state, CP0 registers and memory. -/
structure SameState {R M : Type} {platform : Platform R} (view : MemoryView platform M)
    (left right : Executor R) : Prop where
  core : settled left.core = settled right.core
  memory : view.contents left.rest = view.contents right.rest

/-- An access completes, raises an exception or, if it may be `busy`, asks to retry or stops
at a breakpoint. -/
def Answered (busy : Bool) (status : ExecStatus) : Prop :=
  status = execComplete ∨ isException status = true ∨
    busy = true ∧ (status = execRetry ∨ status = execBreakpoint)

/-! ### Two words -/

section
variable {R : Type} (platform : Platform R) (exec : Executor R) (first next : BitVec 32)

/-- Execute the word behind `pc` if the one at `pc` completed and went on to it. -/
def thenNext (pc : BitVec 64) (ran : Executor R × ExecStatus) : Executor R :=
  if ran.2 = execComplete ∧ ran.1.core.pc = pc + 4 then
    (ran.1.execDecoded platform (decode platform.model next)).1
  else ran.1

/-- The words one after the other, each through its own handler. -/
def unfusedPair : Executor R :=
  thenNext platform next exec.core.pc (exec.execDecoded platform (decode platform.model first))

/-- The words in a build with fusion. A fused handler executes both, but in a delay
slot, where it leaves the second to itself. -/
def fusedPair : Executor R :=
  let d := decodeInto platform.model first (some next)
  let ran := exec.execDecoded platform d
  if d.handler.isFused && !exec.core.inDelaySlot then ran.1
  else thenNext platform next exec.core.pc ran

/-- How the load or store of the second word ends behind the first, in its own handler. -/
def AccessAnswers (busy : Bool) : Prop :=
  let mid := (exec.execDecoded platform (decode platform.model first)).1
  Answered busy (mid.fusedAccess platform (mid.core.readGpr (rsField next)) next).2

end

/-! ### The states fusion cannot be seen in -/

def generalVector (core : MipsCore) : BitVec 64 :=
  (if core.cp0Status &&& statusBev != 0 then 0xFFFFFFFFBFC00200 else 0xFFFFFFFF80000000) + 0x180

/-- An exception with this code shows in nothing but PC, which it moves to `vector`. -/
structure Absorbs (core : MipsCore) (code : BitVec 32) (vector : BitVec 64) : Prop where
  exl : core.cp0Status &&& statusExl ≠ 0
  excCode : core.cp0Cause &&& causeExcCodeMask = code <<< 2
  vector : generalVector core = vector

/-- A branch not taken in a delay slot, whose fused handler leaves for the pending
target instead of entering its own delay slot. -/
def SlotSkipSafe (core : MipsCore) : Prop :=
  core.delaySlotTarget = core.pc + 8 ∨ core.delaySlotTarget = core.pc + 4 ∨
    core.delaySlotTarget &&& 3 ≠ 0 ∧ core.cp0BadVAddr = core.delaySlotTarget ∧
      Absorbs core excAdel (core.pc + 8)

/-- A load or store fused with the computation of its base register `reg`. -/
def FusedAccessSafe (busy : Bool) (core : MipsCore) (reg : BitVec 5) (addr : BitVec 64) : Prop :=
  (reg = 0 → addr = 0) ∧ (busy = true → Absorbs core excInt (core.pc + 4))

/-- The condition under which fusing `first` with `next` cannot be told from executing
them one after the other. -/
def FusionSafe (model : CpuModel) (busy : Bool) (core : MipsCore) (first next : BitVec 32) : Prop :=
  let rs := core.readGpr (rsField first)
  let rt := core.readGpr (rtField first)
  match (decodeInto model first (some next)).handler with
  | .beqNop => core.inDelaySlot = true → rs ≠ rt → SlotSkipSafe core
  | .bneNop => core.inDelaySlot = true → rs = rt → SlotSkipSafe core
  | .adduLs => core.inDelaySlot = false →
      FusedAccessSafe busy core (rdField first) ((rs.setWidth 32 + rt.setWidth 32).signExtend 64)
  | .subuLs => core.inDelaySlot = false →
      FusedAccessSafe busy core (rdField first) ((rs.setWidth 32 - rt.setWidth 32).signExtend 64)
  | .addiuLs => core.inDelaySlot = false →
      FusedAccessSafe busy core (rtField first)
        ((rs.setWidth 32 + (first.setWidth 16).signExtend 32).signExtend 64)
  | _ => True

end Iris.Cpu.Exec
