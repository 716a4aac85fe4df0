import Iris.Cpu.Exec.Instr

/-!
Owns one step of the interpreter without opcode fusion, from the interrupt check
to the handler of the fetched word, and runs of it. Instruction tracing, the
idle-loop sampler and the debugger's switch that ignores interrupts are not
modelled.
-/

namespace Iris.Cpu.Exec.Executor

variable {R : Type} (platform : Platform R) (exec : Executor R)

def softResetBit : BitVec 64 := 0x8000000000000000

/-- The shared interrupt word; its IP7 bit stands with the timer. -/
def pending : BitVec 64 :=
  platform.interrupts exec.rest |||
    if exec.core.timer.ip7Pending then causeIp7.setWidth 64 else 0

/-- A soft reset ends the step: the reset vector's first instruction runs in the
next one. -/
def takeSoftReset : Executor R × ExecStatus :=
  (resyncPrivilegeState platform.toBackend
    ⟨exec.core.softReset, platform.clearInterrupts exec.rest⟩, execRetry)

/-- The external lines, merged into Cause. -/
def mergeInterrupts (pending : BitVec 64) : Executor R :=
  { exec with core := { exec.core with
      cp0Cause := (exec.core.cp0Cause &&& ~~~extIntMask) ||| (pending.setWidth 32 &&& extIntMask) } }

def interruptTaken : Bool :=
  exec.core.interruptsEnabled &&
    (exec.core.cp0Cause &&& causeIpMask) &&& (exec.core.cp0Status &&& statusImMask) != 0

def cycled : Executor R := { exec with rest := platform.stepCycles exec.rest }

/-- What precedes the fetch: the end of a step that fetches nothing, or the state
the fetch starts from. -/
def stepPreamble : Except (Executor R × ExecStatus) (Executor R) :=
  let exec := exec.cycled platform
  let pending := exec.pending platform
  if platform.pcBreakpoint exec then .error (exec, execBreakpoint)
  else if pending ||| exec.core.cp0Cause.setWidth 64 = 0 then .ok exec
  else if pending &&& softResetBit != 0 then .error (exec.takeSoftReset platform)
  else
    let exec := exec.mergeInterrupts pending
    if exec.interruptTaken then .error (exec.raise platform excInt) else .ok exec

def fetched : Executor R × ExecStatus :=
  match (platform.fetchInstr exec.core.pc).run exec with
  | (exec, .ok word) => exec.execDecoded platform (decode platform.model word)
  | (exec, .error status) =>
    if isException status then exec.handleException platform.toBackend status
    else (exec, status)

/-- `step_int`. -/
def step : Executor R × ExecStatus :=
  match exec.stepPreamble platform with
  | .error ended => ended
  | .ok exec => exec.fetched platform

def run (steps : Nat) : Executor R := (fun exec => (step platform exec).1)^[steps] exec

theorem step_eq :
    exec.step platform =
      if platform.pcBreakpoint (exec.cycled platform) then (exec.cycled platform, execBreakpoint)
      else if (exec.cycled platform).pending platform |||
          (exec.cycled platform).core.cp0Cause.setWidth 64 = 0 then
        (exec.cycled platform).fetched platform
      else if (exec.cycled platform).pending platform &&& softResetBit != 0 then
        (exec.cycled platform).takeSoftReset platform
      else
        let merged := (exec.cycled platform).mergeInterrupts ((exec.cycled platform).pending platform)
        if merged.interruptTaken then merged.raise platform excInt else merged.fetched platform := by
  unfold step stepPreamble
  dsimp only
  by_cases breakpoint : platform.pcBreakpoint (exec.cycled platform) = true
  · rw [if_pos breakpoint, if_pos breakpoint]
  by_cases quiet : (exec.cycled platform).pending platform |||
      (exec.cycled platform).core.cp0Cause.setWidth 64 = 0
  · rw [if_neg breakpoint, if_neg breakpoint, if_pos quiet, if_pos quiet]
  rw [if_neg breakpoint, if_neg breakpoint, if_neg quiet, if_neg quiet]
  by_cases reset : ((exec.cycled platform).pending platform &&& softResetBit != 0) = true
  · rw [if_pos reset, if_pos reset]
  split_ifs <;> rfl

end Iris.Cpu.Exec.Executor
