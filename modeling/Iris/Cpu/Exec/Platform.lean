import Iris.Cpu.Exec.Flow

/-!
Owns the interface between the instruction handlers and everything they reach
behind the core: address translation, caches, bus, the LL/SC link, the FPU's data
registers, the interrupt word and the clock. Every access carries the proof that
it leaves the part of the core alone that the instruction flow owns.
-/

namespace Iris.Cpu.Exec

open Tlb Timer

/-- Two cores agree on what the instruction flow owns: the general registers,
HI/LO, PC with the pending delay slot, and Status. -/
structure SameFlow (before after : MipsCore) : Prop where
  gpr : after.gpr = before.gpr
  hi : after.hi = before.hi
  lo : after.lo = before.lo
  pc : after.pc = before.pc
  inDelaySlot : after.inDelaySlot = before.inDelaySlot
  delaySlotTarget : after.delaySlotTarget = before.delaySlotTarget
  cp0Status : after.cp0Status = before.cp0Status

namespace SameFlow

variable {first second third : MipsCore}

@[refl]
theorem refl (core : MipsCore) : SameFlow core core := ⟨rfl, rfl, rfl, rfl, rfl, rfl, rfl⟩

@[trans]
theorem trans (same : SameFlow first second) (next : SameFlow second third) :
    SameFlow first third :=
  ⟨next.gpr.trans same.gpr, next.hi.trans same.hi, next.lo.trans same.lo, next.pc.trans same.pc,
    next.inDelaySlot.trans same.inDelaySlot, next.delaySlotTarget.trans same.delaySlotTarget,
    next.cp0Status.trans same.cp0Status⟩

end SameFlow

inductive AccessSize
  | byte
  | half
  | word
  | dword
deriving DecidableEq, Repr

def Executor.retarget {R : Type} (exec : Executor R) (target : BitVec 64) : Executor R :=
  { exec with core := { exec.core with delaySlotTarget := target } }

/-- Two cores agree on all that an instruction started again sees of the program. -/
structure SameProgram (before after : MipsCore) : Prop extends SameFlow before after where
  fpuFcsr : after.fpuFcsr = before.fpuFcsr

/-- What an access leaves alone. -/
structure Untouched (before after : MipsCore) : Prop extends SameProgram before after where
  cp0Cause : after.cp0Cause = before.cp0Cause

section
variable {first second third : MipsCore}

@[refl]
theorem SameProgram.refl (core : MipsCore) : SameProgram core core := ⟨.refl core, rfl⟩

@[trans]
theorem SameProgram.trans (same : SameProgram first second) (next : SameProgram second third) :
    SameProgram first third :=
  ⟨same.toSameFlow.trans next.toSameFlow, next.fpuFcsr.trans same.fpuFcsr⟩

@[refl]
theorem Untouched.refl (core : MipsCore) : Untouched core core := ⟨.refl core, rfl⟩

@[trans]
theorem Untouched.trans (same : Untouched first second) (next : Untouched second third) :
    Untouched first third :=
  ⟨same.toSameProgram.trans next.toSameProgram, next.cp0Cause.trans same.cp0Cause⟩

end

/-- An access: it answers with a value or with the status it fails with, and may
leave its traces in CP0 and behind the core. It never looks at the delay slot's
target. -/
structure Access (R α : Type) where
  run : Executor R → Executor R × Except ExecStatus α
  untouched : ∀ exec, Untouched exec.core (run exec).1.core
  run_retarget : ∀ exec target,
    run (exec.retarget target) = ((run exec).1.retarget target, (run exec).2)

namespace Access

variable {R α : Type}

theorem sameProgram (access : Access R α) (exec : Executor R) :
    SameProgram exec.core (access.run exec).1.core :=
  (access.untouched exec).toSameProgram

theorem sameFlow (access : Access R α) (exec : Executor R) :
    SameFlow exec.core (access.run exec).1.core :=
  (access.sameProgram exec).toSameFlow

def Raises (access : Access R α) : Prop :=
  ∀ exec status, (access.run exec).2 = .error status → isException status = true

def answers (value : α) : Access R α where
  run := fun exec => (exec, .ok value)
  untouched := fun _ => .refl _
  run_retarget := fun _ _ => rfl

def peek (value : R → α) : Access R α where
  run := fun exec => (exec, .ok (value exec.rest))
  untouched := fun _ => .refl _
  run_retarget := fun _ _ => rfl

theorem answers_raises (value : α) : (answers value : Access R α).Raises := by
  intro exec status failed
  cases failed

/-- An access that fails with `status` and records its address in BadVAddr. -/
def fails (status : ExecStatus) (va : BitVec 64) : Access R α where
  run := fun exec =>
    ({ exec with core := { exec.core with cp0BadVAddr := va } }, .error status)
  untouched := fun _ => ⟨⟨⟨rfl, rfl, rfl, rfl, rfl, rfl, rfl⟩, rfl⟩, rfl⟩
  run_retarget := fun _ _ => rfl

theorem fails_raises (raised : isException status = true) (va : BitVec 64) :
    (fails status va : Access R α).Raises := by
  intro exec answered same
  cases same
  exact raised

end Access

/-- The status an access that returns no value ends with. -/
def accessStatus : Except ExecStatus Unit → ExecStatus
  | .ok _ => execComplete
  | .error status => status

/-- What the instruction handlers ask of the state behind the core beside addresses: the clock,
the interrupt word, the link, CACHE operations and the FPU. -/
structure Periphery (R : Type) extends Backend R where
  resync_retarget : ∀ core target rest,
    resyncPrivilegeState { core with delaySlotTarget := target } rest =
      resyncPrivilegeState core rest
  model : CpuModel
  -- Once a step: the cycle counter, the clock, the shared interrupt word.
  stepCycles : R → R
  moment : R → Moment
  interrupts : R → BitVec 64
  /-- Clears the interrupt word up to the bit another thread holds the CPU with. -/
  clearInterrupts : R → R
  /-- A breakpoint on a fetchable PC. -/
  pcBreakpoint : Executor R → Bool
  pcBreakpoint_retarget : ∀ exec target,
    pcBreakpoint (exec.retarget target) = pcBreakpoint exec
  -- The link of LL and SC, and the host compare-exchange SC uses with several CPUs.
  getLlbit : R → Bool
  getLlbit_clearLlbit : ∀ rest, getLlbit (clearLlbit rest) = false
  getLlbit_resync : ∀ core rest, getLlbit (resyncPrivilegeState core rest) = getLlbit rest
  /-- The LLbit with LLAddr, the address and the value it was set at. -/
  setLink : BitVec 64 → BitVec 64 → BitVec 64 → R → R
  llPhys : R → BitVec 64
  llValue : R → BitVec 64
  smp : Bool
  casRam : AccessSize → BitVec 64 → BitVec 64 → BitVec 64 → R → Option (Bool × R)
  /-- A CACHE operation on a virtual and a physical address (or a tag); it answers
  with the tag and, where the model loads them, with the check bits. -/
  cacheOp : BitVec 5 → BitVec 64 → BitVec 64 → Access R (BitVec 64 × Option (BitVec 32))
  cacheOp_raises : ∀ op va phys, (cacheOp op va phys).Raises
  /-- An FPU operation; the moves to a general register answer with its value. -/
  cop1 : BitVec 32 → Access R (Option (BitVec 64))
  /-- FCSR as that operation leaves it. -/
  cop1Fcsr : BitVec 32 → Executor R → BitVec 32
  cop1Fcsr_retarget : ∀ raw exec target, cop1Fcsr raw (exec.retarget target) = cop1Fcsr raw exec
  /-- An operation asked to retry has not touched FCSR. -/
  cop1Fcsr_held : ∀ raw exec status, ((cop1 raw).run exec).2 = .error status →
    isException status = false → cop1Fcsr raw exec = exec.core.fpuFcsr

/-- No interrupt, no link and no FPU. -/
def quietPeriphery (model : CpuModel) : Periphery R where
  clearLlbit := id
  takeCacheErr := fun rest => (0, rest)
  resyncPrivilegeState := fun _ rest => rest
  resync_retarget := fun _ _ _ => rfl
  model := model
  stepCycles := id
  moment := fun _ => ⟨0, 0⟩
  interrupts := fun _ => 0
  clearInterrupts := id
  pcBreakpoint := fun _ => false
  pcBreakpoint_retarget := fun _ _ => rfl
  getLlbit := fun _ => false
  getLlbit_clearLlbit := fun _ => rfl
  getLlbit_resync := fun _ _ => rfl
  setLink := fun _ _ _ rest => rest
  llPhys := fun _ => 0
  llValue := fun _ => 0
  smp := false
  casRam := fun _ _ _ _ _ => none
  cacheOp := fun _ _ _ => .answers (0, none)
  cacheOp_raises := fun _ _ _ => Access.answers_raises _
  cop1 := fun _ => .answers none
  cop1Fcsr := fun _ exec => exec.core.fpuFcsr
  cop1Fcsr_retarget := fun _ _ _ => rfl
  cop1Fcsr_held := fun _ _ _ _ _ => rfl

/-- The periphery with what goes through address translation or changes it. -/
structure Platform (R : Type) extends Periphery R where
  fetchInstr : BitVec 64 → Access R (BitVec 32)
  fetchInstr_fails : ∀ pc exec status,
    ((fetchInstr pc).run exec).2 = .error status → status ≠ execComplete
  nanotlbTranslate : AccessType → BitVec 64 → Access R (BitVec 64)
  nanotlbTranslate_raises : ∀ accessType va, (nanotlbTranslate accessType va).Raises
  readData : AccessSize → BitVec 64 → Access R (BitVec 64)
  writeData : AccessSize → BitVec 64 → BitVec 64 → Access R Unit
  /-- Value and mask in doubleword space, at an aligned address. -/
  writeData64Masked : BitVec 64 → BitVec 64 → BitVec 64 → Access R Unit
  /-- What a write of a CP0 register changes behind the core. -/
  cp0SideEffects : BitVec 5 → MipsCore → R → R
  cp0SideEffects_retarget : ∀ reg core target rest,
    cp0SideEffects reg { core with delaySlotTarget := target } rest = cp0SideEffects reg core rest
  tlbr : Access R Unit
  tlbwi : Access R Unit
  tlbwr : Access R Unit
  tlbp : Access R Unit

end Iris.Cpu.Exec
