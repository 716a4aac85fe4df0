import Iris.Cpu.Exec.Fusion.Words
import Iris.Library.Word

/-!
Owns the jumps and branches fused with a NOP. Where the fused handler raises an
exception and plain execution does not, or the reverse, the states still agree when
the exception is absorbed: it shows in nothing but PC.
-/

namespace Iris.Cpu.Exec

open Executor MipsCore BitVec

/-! ### Exceptions nobody sees -/

/-- The status is delivered at the general vector, with `code` in Cause. -/
structure General (status : ExecStatus) (code : BitVec 32) : Prop where
  noCacheErr : status &&& execIsCacheErr = 0
  noRefill : status &&& execIsTlbRefill = 0
  excCode : status &&& causeExcCodeMask = code <<< 2

theorem general_retry : General execRetry excInt := by constructor <;> decide

theorem general_breakpoint : General execBreakpoint excInt := by constructor <;> decide

theorem general_adel : General (execException excAdel) excAdel := by constructor <;> decide

section
variable {core : MipsCore} {status : ExecStatus} {code : BitVec 32} {vector : BitVec 64}

theorem General.deliver (general : General status code) :
    core.deliverException status =
      { core with
        cp0Cause :=
          let cause := (core.cp0Cause &&& ~~~causeExcCodeMask) ||| (code <<< 2)
          if core.cp0Status &&& statusExl != 0 then cause
          else if core.inDelaySlot then cause ||| causeBd else cause &&& ~~~causeBd
        cp0Epc :=
          if core.cp0Status &&& statusExl != 0 then core.cp0Epc
          else if core.inDelaySlot then core.pc - 4 else core.pc
        cp0Status := core.cp0Status ||| statusExl
        pc := generalVector core
        inDelaySlot := false } := by
  simp [deliverException, deliverExceptionAt, general.noCacheErr,
    general.noRefill, general.excCode, generalVector]

theorem or_statusExl_eq_iff : value ||| statusExl = value ↔ value &&& statusExl ≠ 0 := by
  constructor
  · intro same clear
    have bit := congrArg (· &&& statusExl) same
    simp only [and_or_distrib_right, clear] at bit
    exact nomatch bit
  · have bit : statusExl = twoPow 32 1 := by decide
    grind

theorem Absorbs.deliver (absorbs : Absorbs core code vector) (general : General status code) :
    core.deliverException status = { core with pc := vector, inDelaySlot := false } := by
  rw [general.deliver, (or_statusExl_eq_iff).mpr absorbs.exl, absorbs.vector]
  simp only [bne_iff_ne, ne_eq, absorbs.exl, not_false_eq_true, if_true]
  have whole : ~~~causeExcCodeMask ||| causeExcCodeMask = allOnes 32 := by decide
  rw [← absorbs.excCode, ← and_or_distrib_left, whole, and_allOnes]

/-- An exception that left the core looking like one with the same Status and Cause. -/
theorem absorbs_of_settled (general : General status code)
    (same : settled (core.deliverException status) = settled after)
    (sameStatus : after.cp0Status = core.cp0Status) (sameCause : after.cp0Cause = core.cp0Cause) :
    Absorbs core code after.pc := by
  have delivered := @General.deliver core _ _ general
  replace sameStatus := (congrArg cp0Status same).trans sameStatus
  replace sameCause := (congrArg cp0Cause same).trans sameCause
  have moved := congrArg pc same
  simp only [settled, delivered] at sameStatus sameCause moved
  have exl := (or_statusExl_eq_iff).mp sameStatus
  refine ⟨exl, ?_, moved⟩
  simp only [bne_iff_ne, ne_eq, exl, not_false_eq_true, if_true] at sameCause
  have code := congrArg (· &&& causeExcCodeMask) sameCause
  have outside : ~~~causeExcCodeMask &&& causeExcCodeMask = 0#32 := by decide
  simp only [← general.excCode, BitVec.and_or_distrib_right, BitVec.and_assoc, outside,
    BitVec.and_self, BitVec.and_zero, BitVec.zero_or] at code
  rw [← code, general.excCode]

end

variable {R M : Type} {platform : Platform R} (view : MemoryView platform M) (exec : Executor R)
  {status : ExecStatus} {code : BitVec 32}

theorem SameState.refl : SameState view exec exec := ⟨rfl, rfl⟩

theorem SameState.symm {view : MemoryView platform M} {left right : Executor R}
    (same : SameState view left right) : SameState view right left :=
  ⟨same.core.symm, same.memory.symm⟩

theorem General.handleException_core (general : General status code) :
    (exec.handleException platform.toBackend status).1.core =
      exec.core.deliverException status := by
  simp only [handleException, general.noCacheErr]
  rfl

theorem General.handleException_memory (general : General status code) :
    view.contents (exec.handleException platform.toBackend status).1.rest =
      view.contents exec.rest := by
  simp only [handleException, general.noCacheErr]
  exact (view.resync _ _).trans (view.clearLlbit _)

theorem Absorbs.handleException {vector : BitVec 64} (absorbs : Absorbs exec.core code vector)
    (general : General status code) :
    SameState view (exec.handleException platform.toBackend status).1
      { exec with core := { exec.core with pc := vector, inDelaySlot := false } } where
  core := by rw [general.handleException_core, absorbs.deliver general]
  memory := general.handleException_memory view exec

theorem checkPcAlignment_retarget (outside : exec.core.inDelaySlot = false) :
    SameState view
      (checkPcAlignment platform.toBackend
        { exec with core := { exec.core with delaySlotTarget := target } }).1
      (exec.checkPcAlignment platform.toBackend).1 := by
  unfold checkPcAlignment misalignedFetchException
  split
  · constructor
    · rfl
    · simp only [general_adel.handleException_memory view]
  · constructor
    · simp only [settled, outside]
      rfl
    · rfl

/-! ### Jumps and branches -/

theorem leaveSlot_eq {core : MipsCore} (outside : core.inDelaySlot = false) :
    { core with inDelaySlot := false } = core := by
  rw [← outside]

theorem branchDelay_complete (target : BitVec 64) :
    (exec.branchDelay target).1.complete platform =
      checkPcAlignment platform.toBackend
        { exec with core := { exec.core with
            pc := target, inDelaySlot := false, delaySlotTarget := target } } :=
  rfl

theorem complete_outside (outside : exec.core.inDelaySlot = false) :
    exec.complete platform =
      ({ exec with core := { exec.core with pc := exec.core.pc + 4 } }, execComplete) :=
  if_neg (by simp [outside])

theorem jumpNop_same {target : BitVec 64} (outside : exec.core.inDelaySlot = false) :
    SameState view (exec.jumpNop platform target).1
      ((exec.branchDelay target).1.complete platform).1 := by
  have left : { exec.core with pc := target, inDelaySlot := false, delaySlotTarget := target } =
      { exec.core with pc := target, delaySlotTarget := target } :=
    @leaveSlot_eq { exec.core with pc := target, delaySlotTarget := target } outside
  rw [branchDelay_complete, left, jumpNop, if_neg (by simp [outside])]
  apply SameState.symm
  exact checkPcAlignment_retarget view { exec with core := { exec.core with pc := target } }
    outside

variable {first next : BitVec 32}

theorem thenNext_nop {pc : BitVec 64} (completed : ran.2 = execComplete)
    (reached : ran.1.core.pc = pc + 4) :
    thenNext platform 0 pc ran = (ran.1.complete platform).1 := by
  rw [thenNext, if_pos ⟨completed, reached⟩, execDecoded_nop]

/-- A jump, or a branch that is taken, fused with a NOP. `linked` has the return
address in place. -/
theorem pair_jump {linked : Executor R} {target : BitVec 64}
    (samePc : linked.core.pc = exec.core.pc)
    (sameSlot : linked.core.inDelaySlot = exec.core.inDelaySlot)
    (isFused : (decodeInto platform.model first (some 0)).handler.isFused = true)
    (plain : exec.execDecoded platform (decode platform.model first) = linked.branchDelay target)
    (fused : exec.execDecoded platform (decodeInto platform.model first (some 0)) =
      linked.jumpNop platform target) :
    SameState view (fusedPair platform exec first 0) (unfusedPair platform exec first 0) := by
  unfold fusedPair unfusedPair
  simp only [isFused, plain, fused, Bool.true_and]
  cases slot : exec.core.inDelaySlot with
  | true =>
    rw [jumpNop, if_pos (sameSlot.trans slot)]
    exact SameState.refl view _
  | false =>
    have reached : (linked.branchDelay target).1.core.pc = exec.core.pc + 4 :=
      congrArg (· + 4) samePc
    rw [@thenNext_nop _ _ (linked.branchDelay target) _ rfl reached]
    exact jumpNop_same view linked (sameSlot.trans slot)

theorem checkPcAlignment_aligned (aligned : exec.core.pc &&& 3 = 0) :
    exec.checkPcAlignment platform.toBackend = (exec, execComplete) :=
  if_neg (by simpa using aligned)

/-- The executor when a delay slot has retired to `target`. -/
def retired (target : BitVec 64) : Executor R :=
  { exec with core := { exec.core with pc := target, inDelaySlot := false } }

/-- The executor behind a branch not taken and its delay slot. -/
def fellThrough : Executor R :=
  { exec with core := { exec.core with
      pc := exec.core.pc + 8, inDelaySlot := false, delaySlotTarget := exec.core.pc + 8 } }

section
variable (aligned : exec.core.pc &&& 3 = 0)
include aligned

theorem branchNotTaken_complete :
    (exec.handleBranchNotTaken.1.complete platform).1 = fellThrough exec := by
  have landed : (exec.core.pc + 8) &&& 3 = 0 := Library.Word.add_and_three aligned (by decide)
  rw [handleBranchNotTaken, branchDelay_complete, checkPcAlignment_aligned]
  · rfl
  · exact landed

theorem unfusedPair_notTaken
    (plain : exec.execDecoded platform (decode platform.model first) = exec.handleBranchNotTaken) :
    unfusedPair platform exec first 0 = fellThrough exec := by
  rw [unfusedPair, plain, thenNext_nop rfl rfl, branchNotTaken_complete exec aligned]

theorem pair_skip (outside : exec.core.inDelaySlot = false)
    (isFused : (decodeInto platform.model first (some 0)).handler.isFused = true)
    (plain : exec.execDecoded platform (decode platform.model first) = exec.handleBranchNotTaken)
    (fused : exec.execDecoded platform (decodeInto platform.model first (some 0)) =
      exec.handleBranchLikelySkip) :
    SameState view (fusedPair platform exec first 0) (unfusedPair platform exec first 0) := by
  rw [unfusedPair_notTaken exec aligned plain, fusedPair, fused, isFused, outside]
  constructor
  · simp only [handleBranchLikelySkip, settled, outside]
    rfl
  · rfl

end

theorem sameState_retired_iff :
    SameState view (retired exec target) (fellThrough exec) ↔ target = exec.core.pc + 8 := by
  constructor
  · intro same
    exact congrArg pc same.core
  · rintro rfl
    exact ⟨rfl, rfl⟩

/-- The pending target is misaligned: the fused handler raises the exception the
plain one never meets. -/
theorem sameState_misaligned_iff :
    SameState view
      ((retired exec target).misalignedFetchException platform.toBackend).1 (fellThrough exec) ↔
      exec.core.cp0BadVAddr = target ∧ Absorbs exec.core excAdel (exec.core.pc + 8) := by
  constructor
  · intro same
    have core := same.core
    constructor
    · exact (congrArg cp0BadVAddr core).symm
    · have absorbs := absorbs_of_settled general_adel core rfl rfl
      exact { absorbs with }
  · rintro ⟨badVAddr, absorbs⟩
    subst badVAddr
    have moved : Absorbs { (retired exec exec.core.cp0BadVAddr).core with
        cp0BadVAddr := exec.core.cp0BadVAddr } excAdel (exec.core.pc + 8) :=
      { absorbs with }
    have same := Absorbs.handleException view
      { retired exec exec.core.cp0BadVAddr with core :=
        { (retired exec exec.core.cp0BadVAddr).core with
          cp0BadVAddr := exec.core.cp0BadVAddr } } moved general_adel
    exact { same with }

theorem pair_slotSkip_iff (aligned : exec.core.pc &&& 3 = 0)
    (inside : exec.core.inDelaySlot = true)
    (plain : exec.execDecoded platform (decode platform.model first) = exec.handleBranchNotTaken)
    (fused : exec.execDecoded platform (decodeInto platform.model first (some 0)) =
      exec.complete platform) :
    SameState view (fusedPair platform exec first 0) (unfusedPair platform exec first 0) ↔
      SlotSkipSafe exec.core := by
  have left : exec.complete platform = checkPcAlignment platform.toBackend
      (retired exec exec.core.delaySlotTarget) := if_pos inside
  have landed : ∀ k : BitVec 64, k &&& 3 = 0 → (exec.core.pc + k) &&& 3 = 0 := fun k multiple =>
    Library.Word.add_and_three aligned multiple
  rw [unfusedPair_notTaken exec aligned plain, fusedPair, fused, inside]
  simp only [Bool.not_true, Bool.and_false, Bool.false_eq_true, if_false, left]
  by_cases targetAligned : exec.core.delaySlotTarget &&& 3 = 0
  · rw [checkPcAlignment_aligned _ targetAligned]
    by_cases slot : exec.core.delaySlotTarget = exec.core.pc + 4
    · -- The NOP is where the delay slot retires to, so it still runs.
      rw [thenNext_nop rfl slot, complete_outside _ rfl]
      have end8 : exec.core.delaySlotTarget + 4 = exec.core.pc + 8 := by
        rw [slot, BitVec.add_assoc]
        rfl
      constructor
      · exact fun _ => .inr (.inl slot)
      · intro _
        constructor
        · simp only [settled, retired, end8]
          rfl
        · rfl
    · rw [thenNext, if_neg (fun reached => slot reached.2)]
      refine (sameState_retired_iff view exec).trans ⟨.inl, ?_⟩
      rintro (skipped | here | ⟨misaligned, -⟩)
      · exact skipped
      · exact absurd here slot
      · exact absurd targetAligned misaligned
  · have raised : checkPcAlignment platform.toBackend
        (retired exec exec.core.delaySlotTarget) =
          (retired exec exec.core.delaySlotTarget).misalignedFetchException platform.toBackend :=
      if_pos (by simpa [retired] using targetAligned)
    rw [raised]
    refine (sameState_misaligned_iff view exec).trans ⟨fun safe => ?_, ?_⟩
    · exact .inr (.inr ⟨targetAligned, safe⟩)
    · rintro (skipped | here | ⟨-, safe⟩)
      · exact absurd (skipped ▸ landed 8 (by decide)) targetAligned
      · exact absurd (here ▸ landed 4 (by decide)) targetAligned
      · exact safe

end Iris.Cpu.Exec
