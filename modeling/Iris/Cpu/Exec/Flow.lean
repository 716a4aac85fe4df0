import Iris.Cpu.Core

/-!
Owns the executor's control flow: how a handler ends (advance, arm or consume a
delay slot, deliver an exception, return from one). The parts of the executor
behind the core (TLB, translation caches, memory caches, bus) are a parameter:
control flow reaches them only through the hooks of `Backend`. The `developerx`
build, which stops in the monitor instead of delivering some exceptions, is not
modelled.
-/

namespace Iris.Cpu.Exec

/-- A CPU core together with everything the executor owns behind it. -/
structure Executor (R : Type) where
  core : MipsCore
  rest : R

/-- What control flow asks of the state behind the core. -/
structure Backend (R : Type) where
  /-- `cache.set_llbit(false)`. -/
  clearLlbit : R → R
  /-- `cache.take_cache_err()`. -/
  takeCacheErr : R → BitVec 32 × R
  /-- Re-derive everything cached off Status and drop cached translations. -/
  resyncPrivilegeState : MipsCore → R → R

namespace Executor

variable {R : Type} (backend : Backend R) (exec : Executor R)

def resyncPrivilegeState : Executor R :=
  { exec with rest := backend.resyncPrivilegeState exec.core exec.rest }

/-! ### Exceptions -/

def handleException (status : ExecStatus) : Executor R × ExecStatus :=
  let rest := backend.clearLlbit exec.rest
  let taken : Executor R :=
    if status &&& execIsCacheErr != 0 then
      let (cacheErr, rest) := backend.takeCacheErr rest
      ⟨{ exec.core with cp0CacheErr := cacheErr }, rest⟩
    else ⟨exec.core, rest⟩
  ({ taken with core := taken.core.deliverException status }.resyncPrivilegeState backend, status)

def misalignedFetchException : Executor R × ExecStatus :=
  { exec with core := { exec.core with cp0BadVAddr := exec.core.pc } }.handleException backend
    (execException excAdel)

def checkPcAlignment : Executor R × ExecStatus :=
  if exec.core.pc &&& 0x3 != 0 then exec.misalignedFetchException backend
  else (exec, execComplete)

/-! ### Ends of a handler -/

/-- A branch or jump is taken: PC moves on to the delay slot. -/
def branchDelay (target : BitVec 64) : Executor R × ExecStatus :=
  ({ exec with core := { exec.core with
      delaySlotTarget := target
      inDelaySlot := true
      pc := exec.core.pc + 4 } }, execComplete)

/-- An instruction completed: leave the delay slot it sat in, or move on by 4. -/
def handleExecComplete : Executor R × ExecStatus :=
  if exec.core.inDelaySlot then
    { exec with core := { exec.core with
        pc := exec.core.delaySlotTarget
        inDelaySlot := false } }.checkPcAlignment backend
  else ({ exec with core := { exec.core with pc := exec.core.pc + 4 } }, execComplete)

/-- A likely branch not taken: its delay slot is skipped. -/
def handleBranchLikelySkip : Executor R × ExecStatus :=
  ({ exec with core := { exec.core with pc := exec.core.pc + 8 } }, execComplete)

/-- A branch not taken still has a delay slot. -/
def handleBranchNotTaken : Executor R × ExecStatus := exec.branchDelay (exec.core.pc + 8)

def execCompletePcSet : Executor R × ExecStatus := exec.checkPcAlignment backend

/-- Finish with the status of a memory access or translation; a retry or a
breakpoint leaves PC alone. -/
def finishStatus (status : ExecStatus) : Executor R × ExecStatus :=
  if status &&& execIsException != 0 then exec.handleException backend status
  else if status = execComplete then exec.handleExecComplete backend
  else (exec, status)

/-- ERET: back to ErrorEPC from error level, to EPC from exception level. -/
def execEret : Executor R × ExecStatus :=
  let core := exec.core
  let erl := core.cp0Status &&& statusErl != 0
  let returned : MipsCore :=
    { core with cp0Status := core.cp0Status &&& ~~~(if erl then statusErl else statusExl) }
  let target := if erl then core.cp0ErrorEpc else core.cp0Epc
  let resynced : Executor R :=
    resyncPrivilegeState backend ⟨returned, backend.clearLlbit exec.rest⟩
  { resynced with core := { resynced.core with pc := target, inDelaySlot := false } }.checkPcAlignment
    backend

end Executor

end Iris.Cpu.Exec
