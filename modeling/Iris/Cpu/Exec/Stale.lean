import Iris.Cpu.Exec.Ends
import Iris.Cpu.Exec.Fusion.Words

/-!
Owns that a delay slot's target is dead outside the delay slot: two machines that
differ in nothing else take the same steps. Each end a handler can come to is shown to
commute with `retarget`; the runs follow.
-/

namespace Iris.Cpu.Exec

open Library.Run

variable {d : DecodedInstr}

namespace Executor

variable {R : Type} {platform : Platform R} {exec : Executor R} {target : BitVec 64}

/-- `after` is `before` up to the target of the delay slot. -/
def Carried (target : BitVec 64) (before after : Executor R × ExecStatus) : Prop :=
  after = (before.1.retarget target, before.2)

/-- A handler neither looks at the target nor changes it. -/
def Carries (target : BitVec 64) (handler : Executor R → Executor R × ExecStatus)
    (exec : Executor R) : Prop :=
  Carried target (handler exec) (handler (exec.retarget target))

/-! ### Ends of a handler -/

theorem deliverException_retarget (core : MipsCore) {status : ExecStatus} :
    { core with delaySlotTarget := target }.deliverException status =
      { core.deliverException status with delaySlotTarget := target } := by
  simp only [MipsCore.deliverException, MipsCore.deliverExceptionAt]
  split <;> rfl

theorem resync_carried :
    (exec.retarget target).resyncPrivilegeState platform.toBackend =
      (exec.resyncPrivilegeState platform.toBackend).retarget target := by
  simp only [resyncPrivilegeState, retarget, platform.resync_retarget]

theorem handleException_carried {status : ExecStatus} :
    Carries target (handleException platform.toBackend · status) exec := by
  unfold Carries Carried handleException
  rw [← resync_carried]
  split
  · exact congrArg (fun core => (resyncPrivilegeState platform.toBackend ⟨core, _⟩, status))
      (deliverException_retarget { exec.core with cp0CacheErr := _ })
  · exact congrArg (fun core => (resyncPrivilegeState platform.toBackend ⟨core, _⟩, status))
      (deliverException_retarget exec.core)

theorem checkPcAlignment_carried : Carries target (checkPcAlignment platform.toBackend) exec :=
  ite_rel (fun _ => @handleException_carried R platform
    { exec with core := { exec.core with cp0BadVAddr := exec.core.pc } } target _) fun _ => rfl

theorem execEret_carried : Carries target (execEret platform.toBackend) exec := by
  unfold Carries Carried execEret
  rw [← checkPcAlignment_carried]
  let level := if exec.core.cp0Status &&& statusErl != 0 then statusErl else statusExl
  have resynced := @resync_carried R platform
    ⟨{ exec.core with cp0Status := exec.core.cp0Status &&& ~~~level },
      platform.clearLlbit exec.rest⟩ target
  exact congrArg (fun resynced : Executor R => checkPcAlignment platform.toBackend
    { resynced with core := { resynced.core with pc := _, inDelaySlot := false } }) resynced

/-- Outside a delay slot no handler but a branch looks at or changes the target. -/
theorem carried_of_ends (ends : Ends platform exec target before after)
    (outside : exec.core.inDelaySlot = false) : Carried target before after := by
  cases ends with
  | raised same exception => exact handleException_carried
  | held same incomplete quiet => rfl
  | retired same =>
    have slot := same.inDelaySlot.trans outside
    unfold Carried handleExecComplete
    simp [retarget, slot]
  | returned same => exact execEret_carried

/-! ### Steps and runs -/

/-- The executor without a target that nothing is pending for. -/
def live (exec : Executor R) : Executor R := if exec.core.inDelaySlot then exec else exec.retarget 0

/-- Two results agree up to a dead target. -/
structure Alike (left right : Executor R × ExecStatus) : Prop where
  status : left.2 = right.2
  live : left.1.live = right.1.live

theorem Alike.refl (result : Executor R × ExecStatus) : Alike result result := ⟨rfl, rfl⟩

theorem live_inDelaySlot : exec.live.core.inDelaySlot = exec.core.inDelaySlot := by
  unfold live
  split <;> rfl

theorem live_retarget (outside : exec.core.inDelaySlot = false) :
    (exec.retarget target).live = exec.live := by
  have moved : (exec.retarget target).core.inDelaySlot = false := outside
  simp only [live, outside, moved, Bool.false_eq_true, if_false]
  rfl

/-- Executors alike outside a delay slot differ in the target. -/
theorem eq_retarget_of_live (outside : exec.core.inDelaySlot = false)
    (same : exec.live = other.live) : other = exec.retarget other.core.delaySlotTarget := by
  have otherOutside : other.core.inDelaySlot = false := by
    rw [← live_inDelaySlot, ← same, live_inDelaySlot, outside]
  simp only [live, outside, otherOutside, Bool.false_eq_true, if_false] at same
  exact (congrArg (retarget · other.core.delaySlotTarget) same).symm

theorem Carried.alike {before : Executor R × ExecStatus} (carried : Carried target before after)
    (outside : before.1.core.inDelaySlot = false) : Alike after before := by
  rw [carried]
  exact ⟨rfl, live_retarget outside⟩

variable (outside : exec.core.inDelaySlot = false)
include outside

theorem endBranch_alike (goes : Option (BitVec 64)) :
    Alike ((exec.retarget target).endBranch goes) (exec.endBranch goes) := by
  cases goes with
  | some destination => exact Alike.refl _
  | none => exact Carried.alike rfl outside

theorem execDecoded_alike (unfused : d.handler.isFused = false) :
    Alike ((exec.retarget target).execDecoded platform d) (exec.execDecoded platform d) := by
  cases branch : d.handler.isBranch with
  | false =>
    have ends : Ends platform exec target _ _ := execDecoded_ends branch unfused
    exact (carried_of_ends ends outside).alike (ends.outside outside)
  | true =>
    by_cases usable : d.handler = .bc1 → exec.cp1Usable = true
    · rw [execDecoded_branch platform exec branch usable,
        execDecoded_branch platform (exec.retarget target) branch usable]
      exact @endBranch_alike R (exec.link d.linkReg) target outside _
    · rw [execDecoded_bc1_unusable platform exec usable,
        execDecoded_bc1_unusable platform (exec.retarget target) usable]
      have ends : Ends.After platform exec target exec (cpuUnusable platform · 1) := Ends.cpuUnusable
      exact (carried_of_ends ends outside).alike handleException_inDelaySlot

/-- The fetch and the handler, from the state the preamble leaves. -/
theorem fetched_alike :
    Alike (fetched platform (exec.retarget target)) (fetched platform exec) := by
  unfold fetched
  have samePc : (exec.retarget target).core.pc = exec.core.pc := rfl
  rw [samePc, Access.run_retarget]
  rcases ran : (platform.fetchInstr exec.core.pc).run exec with ⟨mid, status | word⟩ <;>
    have landed := (Ends.same_of_run ran).inDelaySlot.trans outside
  · dsimp only
    split
    · exact handleException_carried.alike handleException_inDelaySlot
    · exact Carried.alike rfl landed
  · exact execDecoded_alike landed (decode_isFused _ _)

theorem step_alike : Alike (step platform (exec.retarget target)) (step platform exec) := by
  have sameBreakpoint := platform.pcBreakpoint_retarget (exec.cycled platform) target
  have sameCycled : (exec.retarget target).cycled platform = (exec.cycled platform).retarget target :=
    rfl
  rw [step_eq, step_eq, sameCycled, sameBreakpoint]
  refine ite_rel (fun _ => Carried.alike rfl outside) fun _ =>
    ite_rel (fun _ => fetched_alike outside) fun _ => ite_rel (fun _ => ?_) fun _ => ?_
  · -- A reset sets the target itself.
    exact Alike.refl _
  · exact ite_rel (fun _ => (@handleException_carried R platform (mergeInterrupts _ _) target
      (execException excInt)).alike handleException_inDelaySlot) fun _ =>
      @fetched_alike R platform (mergeInterrupts (exec.cycled platform) _) target outside

omit outside in
theorem step_live (same : exec.live = other.live) :
    Alike (step platform other) (step platform exec) := by
  cases slot : exec.core.inDelaySlot with
  | false =>
    rw [eq_retarget_of_live slot same]
    exact step_alike slot
  | true =>
    have otherSlot : other.core.inDelaySlot = true := by
      rw [← live_inDelaySlot, ← same, live_inDelaySlot, slot]
    simp only [live, slot, otherSlot, if_true] at same
    rw [same]
    exact Alike.refl _

omit outside in
theorem run_live {other : Executor R} (same : exec.live = other.live) :
    (exec.run platform steps).live = (other.run platform steps).live := by
  induction steps with
  | zero => exact same
  | succ steps alike =>
    simp only [run, Function.iterate_succ_apply'] at alike ⊢
    exact (step_live alike).live.symm

end Executor

end Iris.Cpu.Exec
