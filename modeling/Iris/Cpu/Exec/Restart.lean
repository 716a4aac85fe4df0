import Iris.Cpu.Exec.Machine

/-!
Owns the restartability of interrupted instructions: where an exception says the
instruction is, and that a handler which puts the registers back and returns
resumes the program where it was.

An instruction in a delay slot is restarted at its branch. What makes that work is
an invariant of every run: the branch in front of a pending delay slot, executed
again, arms the same slot.
-/

namespace Iris.Cpu.Exec

open Executor Library BitVec MipsCore

variable {R : Type}

/-! ### Instruction streams -/

variable {exec : Executor R}

/-- The successful fetches of a platform return the words of one stream. -/
def Platform.Fetches (platform : Platform R) (code : BitVec 64 → BitVec 32) : Prop :=
  ∀ pc exec fetched word, (platform.fetchInstr pc).run exec = (fetched, .ok word) → word = code pc

/-- No branch sits in a delay slot, and no linking branch overwrites a register it
tests or jumps through. -/
structure OrderlyStream (model : CpuModel) (code : BitVec 64 → BitVec 32) : Prop where
  slots : ∀ pc, (decode model (code pc)).handler.isBranch = true →
    (decode model (code (pc + 4))).handler.isBranch = false
  links : ∀ pc, (decode model (code pc)).linkReg ≠ 0 →
    (decode model (code pc)).linkReg ∉ (decode model (code pc)).testedRegs

/-- The states of a run that starts outside a delay slot. Between two steps other
threads may change the timer and whatever lies behind the core. -/
inductive Reachable (platform : Platform R) : Executor R → Prop
  | start {exec : Executor R} (aligned : exec.core.pc &&& 3 = 0)
      (outside : exec.core.inDelaySlot = false) : Reachable platform exec
  | step {exec : Executor R} (reachable : Reachable platform exec) :
      Reachable platform (exec.step platform).1
  | outside {exec : Executor R} (reachable : Reachable platform exec) (timer : Timer.CoreTimer)
      (rest : R) : Reachable platform ⟨{ exec.core with timer := timer }, rest⟩

/-! ### How a step ends -/

section Ends
variable (platform : Platform R) (code : BitVec 64 → BitVec 32) (exec : Executor R)

def atPc : DecodedInstr := decode platform.model (code exec.core.pc)

inductive StepEnds : Executor R × ExecStatus → Prop
  | raised {mid : Executor R} {status : ExecStatus} (same : SameFlow exec.core mid.core)
      (exception : isException status = true) :
      StepEnds (mid.handleException platform.toBackend status)
  | held {mid : Executor R} {status : ExecStatus} (same : SameProgram exec.core mid.core)
      (incomplete : status ≠ execComplete) (quiet : isException status = false) :
      StepEnds (mid, status)
  | retired {mid : Executor R} (plain : (atPc platform code exec).handler.isBranch = false)
      (same : SameSlot exec.core mid.core) :
      StepEnds (mid.handleExecComplete platform.toBackend)
  | returned {mid : Executor R} (plain : (atPc platform code exec).handler.isBranch = false)
      (same : SameFlow exec.core mid.core) : StepEnds (mid.execEret platform.toBackend)
  | branched {mid : Executor R} (branch : (atPc platform code exec).handler.isBranch = true)
      (usable : (atPc platform code exec).handler = .bc1 → mid.cp1Usable = true)
      (same : SameProgram exec.core mid.core) :
      StepEnds ((mid.link (atPc platform code exec).linkReg).endBranch
        ((atPc platform code exec).goes mid.core))
  | reset {mid : Executor R} (asked : (exec.cycled platform).pending platform &&& softResetBit ≠ 0) :
      StepEnds (mid.takeSoftReset platform)

variable {platform code exec}

theorem StepEnds.of_ends (plain : (atPc platform code exec).handler.isBranch = false)
    (ends : Ends platform exec target result other) : StepEnds platform code exec result := by
  cases ends with
  | raised same exception => exact .raised same exception
  | held same incomplete quiet => exact .held same incomplete quiet
  | retired same => exact .retired plain same
  | returned same => exact .returned plain same

theorem fetched_ends (fetches : platform.Fetches code) {mid : Executor R}
    (same : SameProgram exec.core mid.core) :
    StepEnds platform code exec (mid.fetched platform) := by
  unfold fetched
  rw [same.pc]
  rcases ran : (platform.fetchInstr exec.core.pc).run mid with ⟨fetched, status | word⟩ <;>
    have same := same.trans (Ends.same_of_run ran)
  · dsimp only
    split <;> rename_i exception
    · exact .raised same.toSameFlow exception
    · exact .held same (platform.fetchInstr_fails _ mid status (congrArg Prod.snd ran))
        (Bool.eq_false_iff.mpr exception)
  · cases fetches _ _ _ _ ran
    dsimp only
    cases branch : (atPc platform code exec).handler.isBranch with
    | false =>
      exact .of_ends branch ((@execDecoded_ends _ _ _ fetched.core.delaySlotTarget _ branch
        (decode_isFused _ _)).of_sameProgram same)
    | true =>
      by_cases usable : (atPc platform code exec).handler = .bc1 → fetched.cp1Usable = true
      · have ended := execDecoded_branch platform fetched branch usable
        rw [atPc] at ended
        rw [ended]
        exact .branched branch usable same
      · have ended := execDecoded_bc1_unusable platform fetched usable
        rw [atPc] at ended
        rw [ended]
        exact .raised { same with } (isException_execException excCpu)

theorem step_ends (fetches : platform.Fetches code) :
    StepEnds platform code exec (exec.step platform) := by
  rw [step_eq]
  split
  · exact .held ⟨⟨rfl, rfl, rfl, rfl, rfl, rfl, rfl⟩, rfl⟩ (by decide) (by decide)
  split
  · exact fetched_ends fetches ⟨⟨rfl, rfl, rfl, rfl, rfl, rfl, rfl⟩, rfl⟩
  split <;> rename_i asked
  · exact .reset (by simpa using asked)
  · dsimp only
    split
    · exact .raised ⟨rfl, rfl, rfl, rfl, rfl, rfl, rfl⟩ (isException_execException excInt)
    · exact fetched_ends fetches ⟨⟨rfl, rfl, rfl, rfl, rfl, rfl, rfl⟩, rfl⟩

end Ends

/-! ### The branch in front of a pending delay slot -/

section SlotCoherent
variable (model : CpuModel) (code : BitVec 64 → BitVec 32) (core : MipsCore)

def beforePc : DecodedInstr := decode model (code (core.pc - 4))

/-- The instruction in front of PC is a branch that, executed again, arms the pending
delay slot with the registers as they are. -/
structure PendingBranch : Prop where
  branch : (beforePc model code core).handler.isBranch = true
  goes : (beforePc model code core).goes { core with pc := core.pc - 4 } = some core.delaySlotTarget
  linked : core.gpr.write (beforePc model code core).linkReg (core.pc + 4) = core.gpr
  usable : (beforePc model code core).handler = .bc1 → (core.cp0Status &&& statusCu1 != 0) = true

structure SlotCoherent : Prop where
  aligned : core.pc &&& 3 = 0
  pending : core.inDelaySlot = true → PendingBranch model code core

variable {model code core} {platform : Platform R}

theorem SlotCoherent.outside (aligned : core.pc &&& 3 = 0) (outside : core.inDelaySlot = false) :
    SlotCoherent model code core :=
  ⟨aligned, fun inside => absurd (inside.symm.trans outside) (by decide)⟩

theorem SlotCoherent.of_same (inv : SlotCoherent model code core) (same : SameProgram core after) :
    SlotCoherent model code after := by
  refine ⟨same.pc.symm ▸ inv.aligned, fun inside => ?_⟩
  have pending := inv.pending (same.inDelaySlot.symm.trans inside)
  have sameInstr : beforePc model code after = beforePc model code core := by
    rw [beforePc, beforePc, same.pc]
  constructor <;> rw [sameInstr]
  · exact pending.branch
  · rw [same.delaySlotTarget, ← pending.goes]
    exact DecodedInstr.goes_congr (congrArg (· - 4) same.pc) same.fpuFcsr fun reg _ =>
      congrArg (Gprs.read · reg) same.gpr
  · rw [same.gpr, same.pc]
    exact pending.linked
  · rw [same.cp0Status]
    exact pending.usable

theorem deliverException_aligned : (core.deliverException status).pc &&& 3 = 0 := by
  simp only [deliverException, deliverExceptionAt]
  split <;> dsimp only <;> split_ifs <;> decide

theorem handleException_slotCoherent :
    SlotCoherent model code (exec.handleException platform.toBackend status).1.core := by
  apply SlotCoherent.outside
  · simp only [handleException, resyncPrivilegeState]
    split <;> exact deliverException_aligned
  · exact handleException_inDelaySlot

theorem checkPcAlignment_slotCoherent (outside : exec.core.inDelaySlot = false) :
    SlotCoherent model code (exec.checkPcAlignment platform.toBackend).1.core := by
  unfold checkPcAlignment
  split <;> rename_i misaligned
  · exact handleException_slotCoherent
  · exact .outside (by simpa using misaligned) outside

/-- A taken branch leaves its own description behind. -/
theorem PendingBranch.of_branch (stream : OrderlyStream model code)
    (branch : (decode model (code exec.core.pc)).handler.isBranch = true)
    (usable : (decode model (code exec.core.pc)).handler = .bc1 → exec.cp1Usable = true)
    (goes : (decode model (code exec.core.pc)).goes exec.core = some target) :
    PendingBranch model code
      ((exec.link (decode model (code exec.core.pc)).linkReg).branchDelay target).1.core := by
  have back : exec.core.pc + 4 - 4 = exec.core.pc := add_sub_cancel _ _
  have instr : beforePc model code ((exec.link (decode model (code exec.core.pc)).linkReg).branchDelay
      target).1.core = decode model (code exec.core.pc) :=
    congrArg (fun pc => decode model (code pc)) back
  constructor <;> rw [instr]
  · exact branch
  · refine Eq.trans ?_ goes
    refine DecodedInstr.goes_congr back rfl fun reg tested => ?_
    refine Gprs.read_write_ne _ _ fun nonzero same => stream.links exec.core.pc nonzero ?_
    rwa [← same]
  · have behind : exec.core.pc + 4 + 4 = exec.core.pc + 8 := BitVec.add_assoc _ _ _
    have relinked := Gprs.write_write exec.core.gpr (decode model (code exec.core.pc)).linkReg
      (exec.core.pc + 8) (exec.core.pc + 8)
    simp only [branchDelay, link, withGpr, writeGpr, behind]
    exact relinked
  · exact usable

variable {code : BitVec 64 → BitVec 32} (fetches : platform.Fetches code)
  (stream : OrderlyStream platform.model code) {exec : Executor R}
include fetches stream

theorem step_slotCoherent (inv : SlotCoherent platform.model code exec.core) :
    SlotCoherent platform.model code (exec.step platform).1.core := by
  have four : (4 : BitVec 64) &&& 3 = 0 := by decide
  have ends : StepEnds platform code exec (exec.step platform) := step_ends fetches
  generalize exec.step platform = result at ends
  cases ends with
  | raised same exception => exact handleException_slotCoherent
  | held same incomplete quiet => exact inv.of_same same
  | @retired mid plain same =>
    unfold handleExecComplete
    split <;> rename_i slot
    · exact checkPcAlignment_slotCoherent rfl
    · refine .outside ?_ (by simpa using slot)
      exact Word.add_and_three (same.pc.symm ▸ inv.aligned) four
  | returned plain same => exact checkPcAlignment_slotCoherent rfl
  | @branched mid branch usable same =>
    have sameInstr : atPc platform code exec = decode platform.model (code mid.core.pc) := by
      rw [atPc, same.pc]
    -- A pending branch in front of this one would put it into a delay slot.
    have outside : mid.core.inDelaySlot = false := by
      rw [same.inDelaySlot]
      refine Bool.eq_false_iff.mpr fun inside => ?_
      have noBranch := stream.slots _ (inv.pending inside).branch
      rw [BitVec.sub_add_cancel] at noBranch
      exact absurd (branch.symm.trans noBranch) (by decide)
    have aligned : mid.core.pc &&& 3 = 0 := same.pc.symm ▸ inv.aligned
    rw [sameInstr] at branch usable ⊢
    rcases goes : (decode platform.model (code mid.core.pc)).goes mid.core with _ | target
    · exact .outside (Word.add_and_three aligned (by decide)) outside
    · exact ⟨Word.add_and_three aligned four, fun _ => .of_branch stream branch usable goes⟩
  | reset asked =>
    exact .outside (show (0xFFFFFFFFBFC00000 : BitVec 64) &&& 3 = 0 by decide) rfl

theorem Reachable.coherent (reachable : Reachable platform exec) :
    SlotCoherent platform.model code exec.core := by
  induction reachable with
  | start aligned outside => exact .outside aligned outside
  | step _ before => exact step_slotCoherent fetches stream before
  | outside _ timer rest before => exact before.of_same ⟨⟨rfl, rfl, rfl, rfl, rfl, rfl, rfl⟩, rfl⟩

end SlotCoherent

/-! ### Where an exception says the instruction is -/

/-- The instruction itself, or its branch if it sits in a delay slot. -/
def restartPc (core : MipsCore) : BitVec 64 := if core.inDelaySlot then core.pc - 4 else core.pc

def returnPc (core : MipsCore) : BitVec 64 :=
  if core.cp0Status &&& statusErl != 0 then core.cp0ErrorEpc else core.cp0Epc

def isCacheErr (status : ExecStatus) : Bool := status &&& execIsCacheErr != 0

/-- The exception names the instruction `before` was at, by EPC and Cause.BD or, for a
Cache Error, by ErrorEPC, and has left the registers alone. -/
structure Names (before after : MipsCore) (status : ExecStatus) : Prop where
  epc : isCacheErr status = false → after.cp0Epc = restartPc before
  bd : isCacheErr status = false → (after.cp0Cause &&& causeBd != 0) = before.inDelaySlot
  errorEpc : isCacheErr status = true → after.cp0ErrorEpc = restartPc before
  cp0Status : after.cp0Status =
    before.cp0Status ||| if isCacheErr status then statusErl else statusExl
  gpr : after.gpr = before.gpr
  hi : after.hi = before.hi
  lo : after.lo = before.lo

theorem deliverException_names {core : MipsCore} (exl : core.cp0Status &&& statusExl = 0)
    {status : ExecStatus} : Names core (core.deliverException status) status := by
  have outside : (core.cp0Status &&& statusExl != 0) = false := by simp [exl]
  have marked (cause : BitVec 32) :
      ((if core.inDelaySlot then cause ||| causeBd else cause &&& ~~~causeBd) &&& causeBd != 0) =
        core.inDelaySlot := by
    cases core.inDelaySlot with
    | true =>
      rw [bne_iff_ne]
      intro zero
      have bit := congrArg (getLsbD · 31) zero
      simp [causeBd] at bit
    | false =>
      rw [if_neg (by decide), BitVec.and_assoc]
      simp
  cases cacheErr : isCacheErr status with
  | false =>
    have general : (status &&& execIsCacheErr != 0) = false := cacheErr
    simp only [deliverException, deliverExceptionAt, general, outside, Bool.false_eq_true, if_false]
    exact ⟨fun _ => rfl, fun _ => marked _,
      fun error => absurd (cacheErr.symm.trans error) (by decide),
      by rw [cacheErr]; rfl, rfl, rfl, rfl⟩
  | true =>
    have error : (status &&& execIsCacheErr != 0) = true := cacheErr
    simp only [deliverException, deliverExceptionAt, error, if_true]
    have general : isCacheErr status ≠ false := by rw [cacheErr]; decide
    exact ⟨fun none => absurd none general, fun none => absurd none general, fun _ => rfl,
      by rw [cacheErr]; rfl, rfl, rfl, rfl⟩

theorem handleException_names {platform : Platform R} {exec : Executor R}
    (exl : exec.core.cp0Status &&& statusExl = 0) (status : ExecStatus) :
    Names exec.core (exec.handleException platform.toBackend status).1.core status := by
  simp only [handleException, resyncPrivilegeState]
  split
  · have named := @deliverException_names
      { exec.core with cp0CacheErr := (platform.takeCacheErr (platform.clearLlbit exec.rest)).1 }
      exl status
    exact { named with }
  · exact deliverException_names exl

/-- The names of one instruction serve for another executor at it. -/
theorem Names.of_sameFlow (same : SameFlow before mid) (names : Names mid after status) :
    Names before after status := by
  have samePc : restartPc mid = restartPc before := by
    rw [restartPc, restartPc, same.inDelaySlot, same.pc]
  constructor
  · exact fun general => (names.epc general).trans samePc
  · exact fun general => (names.bd general).trans same.inDelaySlot
  · exact fun error => (names.errorEpc error).trans samePc
  · rw [names.cp0Status, same.cp0Status]
  · exact names.gpr.trans same.gpr
  · exact names.hi.trans same.hi
  · exact names.lo.trans same.lo

/-! ### Return from a handler -/

/-- A handler that took over at `delivered` returns with the registers of `before`, and
with Status and the return address as it found them. -/
structure Restored (before delivered handled : MipsCore) : Prop where
  gpr : handled.gpr = before.gpr
  hi : handled.hi = before.hi
  lo : handled.lo = before.lo
  fpuFcsr : handled.fpuFcsr = before.fpuFcsr
  cp0Status : handled.cp0Status = delivered.cp0Status
  returnPc : returnPc handled = returnPc delivered

/-- `before` with memory, CP0 and all else behind the program as `now` has it. -/
def inEnvironment (before now : Executor R) : Executor R :=
  { now with core := { now.core with
      gpr := before.core.gpr
      hi := before.core.hi
      lo := before.core.lo
      pc := before.core.pc
      inDelaySlot := before.core.inDelaySlot
      delaySlotTarget := before.core.delaySlotTarget
      cp0Status := before.core.cp0Status
      fpuFcsr := before.core.fpuFcsr } }

/-- From `resumed` on, PC, registers and delay slots are those of a run from `before`. -/
def ResumesAs (platform : Platform R) (before resumed : Executor R) : Prop :=
  ∀ steps, (resumed.run platform steps).live =
    ((inEnvironment before resumed).run platform steps).live

theorem eq_inEnvironment (same : SameProgram before.core now.core) :
    inEnvironment before now = now := by
  simp only [inEnvironment, ← same.gpr, ← same.hi, ← same.lo, ← same.pc, ← same.inDelaySlot,
    ← same.delaySlotTarget, ← same.cp0Status, ← same.fpuFcsr]

theorem ResumesAs.of_same (same : SameProgram before.core now.core) :
    ResumesAs platform before now := by
  intro steps
  rw [eq_inEnvironment same]

/-- The return from a handler that restored what it found. -/
structure Returned (platform : Platform R) (before handled : MipsCore)
    (returned : Executor R × ExecStatus) : Prop where
  complete : returned.2 = execComplete
  core : returned.1.core = { handled with
    pc := restartPc before, inDelaySlot := false, cp0Status := before.cp0Status }
  llbit : platform.getLlbit returned.1.rest = false

theorem execEret_aligned {platform : Platform R} {handled : Executor R}
    (aligned : returnPc handled.core &&& 3 = 0) :
    handled.execEret platform.toBackend =
      let level := if handled.core.cp0Status &&& statusErl != 0 then statusErl else statusExl
      let returned := { handled.core with cp0Status := handled.core.cp0Status &&& ~~~level }
      (⟨{ returned with pc := returnPc handled.core, inDelaySlot := false },
        platform.resyncPrivilegeState returned (platform.clearLlbit handled.rest)⟩,
        execComplete) :=
  if_neg fun misaligned => bne_iff_ne.mp misaligned aligned

theorem execEret_returned (platform : Platform R) {after : MipsCore} {handled : Executor R}
    (aligned : restartPc before &&& 3 = 0) (exl : before.cp0Status &&& statusExl = 0)
    (erl : before.cp0Status &&& statusErl = 0) (names : Names before after status)
    (restored : Restored before after handled.core) :
    Returned platform before handled.core (handled.execEret platform.toBackend) := by
  have atLevel (core : MipsCore) (found : core.cp0Status = after.cp0Status) :
      (core.cp0Status &&& statusErl != 0) = isCacheErr status := by
    rw [found, names.cp0Status, and_or_distrib_right, erl]
    cases isCacheErr status <;> decide
  have target : returnPc handled.core = restartPc before := by
    rw [restored.returnPc, returnPc, atLevel after rfl]
    cases cacheErr : isCacheErr status with
    | false => exact names.epc cacheErr
    | true => exact names.errorEpc cacheErr
  have back : handled.core.cp0Status &&&
      ~~~(if isCacheErr status then statusErl else statusExl) = before.cp0Status := by
    rw [restored.cp0Status, names.cp0Status]
    apply Word.or_and_not_cancel
    cases isCacheErr status with
    | false => exact exl
    | true => exact erl
  rw [execEret_aligned (target.symm ▸ aligned)]
  constructor
  · rfl
  · simp only [atLevel handled.core restored.cp0Status, target, back]
  · exact (platform.getLlbit_resync _ _).trans (platform.getLlbit_clearLlbit _)

/-! ### Restartability -/

/-- The instruction at `before` was interrupted: the exception names it, and when a
handler that restored the registers returns, the program resumes. An instruction in a
delay slot resumes once its branch has been executed again. -/
structure RestartsInstruction (platform : Platform R) (before : Executor R)
    (ended : Executor R × ExecStatus) : Prop where
  names : Names before.core ended.1.core ended.2
  returns : ∀ handled : Executor R, Restored before.core ended.1.core handled.core →
    (handled.execEret platform.toBackend).2 = execComplete ∧
      platform.getLlbit (handled.execEret platform.toBackend).1.rest = false
  resumes : ∀ handled : Executor R, Restored before.core ended.1.core handled.core →
    before.core.inDelaySlot = false →
    ResumesAs platform before (handled.execEret platform.toBackend).1
  resumesBranch : ∀ handled : Executor R, Restored before.core ended.1.core handled.core →
    before.core.inDelaySlot = true →
    ((handled.execEret platform.toBackend).1.step platform).2 = execComplete →
    ResumesAs platform before ((handled.execEret platform.toBackend).1.step platform).1

/-- The program went on from `before` to an address no instruction can be fetched from,
and the exception names that address. -/
structure RestartsTarget (platform : Platform R) (before : Executor R)
    (ended : Executor R × ExecStatus) (target : Executor R) : Prop where
  misaligned : target.core.pc &&& 3 ≠ 0
  outside : target.core.inDelaySlot = false
  reached : (before.core.inDelaySlot = true ∧ target.core.pc = before.core.delaySlotTarget) ∨
    ∃ returning : Executor R, SameFlow before.core returning.core ∧
      target.core.pc = returnPc returning.core
  raised : ended = target.misalignedFetchException platform.toBackend
  names : target.core.cp0Status &&& statusExl = 0 → Names target.core ended.1.core ended.2

/-- What an interrupted step owes the program. -/
structure Restartable (platform : Platform R) (before : Executor R)
    (ended : Executor R × ExecStatus) : Prop where
  held : ended.2 ≠ execComplete → isException ended.2 = false →
    SameFlow before.core ended.1.core ∧ ResumesAs platform before ended.1
  raised : isException ended.2 = true →
    RestartsInstruction platform before ended ∨ ∃ target, RestartsTarget platform before ended target

section Restartable
variable {platform : Platform R} {before : Executor R}

theorem Restartable.of_complete (complete : ended.2 = execComplete) :
    Restartable platform before ended := by
  constructor
  · exact fun incomplete _ => absurd complete incomplete
  · intro exception
    rw [complete] at exception
    exact nomatch exception

/-- PC has been set to a target that may be misaligned. -/
theorem Restartable.of_target {target : Executor R} (outside : target.core.inDelaySlot = false)
    (reached : (before.core.inDelaySlot = true ∧ target.core.pc = before.core.delaySlotTarget) ∨
      ∃ returning : Executor R, SameFlow before.core returning.core ∧
        target.core.pc = returnPc returning.core) :
    Restartable platform before (target.checkPcAlignment platform.toBackend) := by
  unfold checkPcAlignment
  split <;> rename_i misaligned
  · have exception := isException_execException excAdel
    constructor
    · exact fun _ quiet => absurd (exception.symm.trans quiet) (by decide)
    intro _
    refine .inr ⟨target, bne_iff_ne.mp misaligned, outside, reached, rfl, fun exl => ?_⟩
    have named := @handleException_names R platform
      { target with core := { target.core with cp0BadVAddr := target.core.pc } } exl
      (execException excAdel)
    exact { named with }
  · exact of_complete rfl

theorem Returned.resumes (outside : before.core.inDelaySlot = false)
    (restored : Restored before.core delivered handled)
    (back : Returned platform before.core handled returned) :
    ResumesAs platform before returned.1 := by
  have moved : inEnvironment before returned.1 =
      returned.1.retarget before.core.delaySlotTarget := by
    simp only [inEnvironment, retarget, back.core, ← restored.gpr, ← restored.hi, ← restored.lo,
      ← restored.fpuFcsr, outside, restartPc, Bool.false_eq_true, if_false]
  have stillOutside : returned.1.core.inDelaySlot = false := by rw [back.core]
  intro steps
  rw [moved]
  exact run_live (live_retarget stillOutside).symm

/-- The return to a branch, and the branch executed again. -/
theorem Returned.resumesBranch {code : BitVec 64 → BitVec 32} (fetches : platform.Fetches code)
    (inside : before.core.inDelaySlot = true)
    (pending : PendingBranch platform.model code before.core)
    (restored : Restored before.core delivered handled)
    (back : Returned platform before.core handled returned)
    (complete : (returned.1.step platform).2 = execComplete) :
    ResumesAs platform before (returned.1.step platform).1 := by
  have atBranch : returned.1.core.pc = before.core.pc - 4 := by
    rw [back.core]
    exact if_pos inside
  have sameInstr : atPc platform code returned.1 = beforePc platform.model code before.core := by
    rw [atPc, beforePc, atBranch]
  have ends : StepEnds platform code returned.1 (returned.1.step platform) := step_ends fetches
  generalize returned.1.step platform = result at ends complete
  have notBranch (plain : (atPc platform code returned.1).handler.isBranch = false) : False := by
    rw [sameInstr, pending.branch] at plain
    cases plain
  cases ends with
  | raised same exception =>
    have status : isException execComplete = true := by rw [← complete]; exact exception
    exact nomatch status
  | held same incomplete quiet => exact absurd complete incomplete
  | retired plain same | returned plain same => exact (notBranch plain).elim
  | reset asked =>
    have retried : execRetry = execComplete := complete
    exact nomatch retried
  | @branched mid branch usable same =>
    have gpr : mid.core.gpr = before.core.gpr := by
      rw [same.gpr, back.core]
      exact restored.gpr
    have pc : mid.core.pc = before.core.pc - 4 := same.pc.trans atBranch
    have fcsr : mid.core.fpuFcsr = before.core.fpuFcsr := by
      rw [same.fpuFcsr, back.core]
      exact restored.fpuFcsr
    have goes : (beforePc platform.model code before.core).goes mid.core =
        some before.core.delaySlotTarget := by
      rw [← pending.goes]
      exact DecodedInstr.goes_congr pc fcsr fun reg _ => congrArg (Gprs.read · reg) gpr
    rw [sameInstr, goes]
    refine ResumesAs.of_same ⟨⟨?_, ?_, ?_, ?_, inside.symm, rfl, ?_⟩, fcsr⟩
    · have behind : mid.core.pc + 8 = before.core.pc + 4 := by
        bv_omega
      rw [← pending.linked, ← behind, ← gpr]
      rfl
    · exact (same.hi.trans (congrArg hi back.core)).trans restored.hi
    · exact (same.lo.trans (congrArg lo back.core)).trans restored.lo
    · exact (congrArg (· + 4) pc).trans (BitVec.sub_add_cancel _ _)
    · exact same.cp0Status.trans (back.core ▸ rfl)

variable {code : BitVec 64 → BitVec 32}

/-- An exception delivered before the instruction changed anything. -/
theorem RestartsInstruction.of_raised (fetches : platform.Fetches code)
    (inv : SlotCoherent platform.model code before.core)
    (exl : before.core.cp0Status &&& statusExl = 0) (erl : before.core.cp0Status &&& statusErl = 0)
    {mid : Executor R} (same : SameFlow before.core mid.core) {status : ExecStatus} :
    RestartsInstruction platform before (mid.handleException platform.toBackend status) := by
  have midExl : mid.core.cp0Status &&& statusExl = 0 := same.cp0Status.symm ▸ exl
  have names := Names.of_sameFlow same (@handleException_names R platform mid midExl status)
  have aligned : restartPc before.core &&& 3 = 0 := by
    unfold restartPc
    split
    · exact Word.sub_and_three inv.aligned (by decide)
    · exact inv.aligned
  constructor
  · exact names
  · intro handled restored
    have back := execEret_returned platform aligned exl erl names restored
    exact ⟨back.complete, back.llbit⟩
  · intro handled restored outside
    exact (execEret_returned platform aligned exl erl names restored).resumes outside restored
  · intro handled restored inside complete
    exact (execEret_returned platform aligned exl erl names restored).resumesBranch fetches inside
      (inv.pending inside) restored complete

/-- Every interrupted step of a run over an orderly stream can be restarted. -/
theorem interruption_restartable (platform : Platform R) (fetches : platform.Fetches code)
    (stream : OrderlyStream platform.model code) (reachable : Reachable platform before)
    (exl : before.core.cp0Status &&& statusExl = 0) (erl : before.core.cp0Status &&& statusErl = 0)
    (noReset : (before.cycled platform).pending platform &&& softResetBit = 0) :
    Restartable platform before (before.step platform) := by
  have inv := reachable.coherent fetches stream
  have ends : StepEnds platform code before (before.step platform) := step_ends fetches
  generalize before.step platform = result at ends
  cases ends with
  | raised same exception =>
    constructor
    · exact fun _ quiet => absurd (exception.symm.trans quiet) (by decide)
    · exact fun _ => .inl (.of_raised fetches inv exl erl same)
  | held same incomplete quiet =>
    constructor
    · exact fun _ _ => ⟨same.toSameFlow, .of_same same⟩
    · exact fun exception => absurd (exception.symm.trans quiet) (by decide)
  | @retired mid plain same =>
    unfold handleExecComplete
    split <;> rename_i slot
    · exact .of_target rfl (.inl ⟨same.inDelaySlot.symm.trans slot, same.delaySlotTarget⟩)
    · exact .of_complete rfl
  | @returned mid plain same => exact .of_target rfl (.inr ⟨mid, same, rfl⟩)
  | @branched mid branch usable same =>
    apply Restartable.of_complete
    cases (atPc platform code before).goes mid.core <;> rfl
  | reset asked => exact absurd noReset asked

end Restartable

/-! ### An interrupted load linked -/

/-- All that lies behind the core here: the interrupt lines and the LLbit. -/
structure LinkBus where
  lines : BitVec 64
  linked : Bool

/-- The platform of the machine fetches the stream its memory holds. -/
theorem mmuPlatform_fetches {machine : Machine} {periphery : Periphery B} {memory : Memory B}
    (holds : ∀ pc result exec word,
      ((memory.fetch pc result).run exec).2 = .ok word → word = code pc) :
    (mmuPlatform machine periphery memory).Fetches code := by
  intro pc exec fetched word ran
  obtain ⟨mid, result, -, answered⟩ := Access.andThen_ok ran
  exact holds pc result _ word (congrArg Prod.snd answered)

/-- Load linked into register 1, store conditional from register 2, then nothing. -/
def linkCode (pc : BitVec 64) : BitVec 32 :=
  if pc = 0xFFFFFFFF80001000 then 0xC0610000
  else if pc = 0xFFFFFFFF80001004 then 0xE0620000
  else 0

def linkPeriphery : Periphery LinkBus :=
  { quietPeriphery .r4400 with
    clearLlbit := fun bus => { bus with linked := false }
    interrupts := LinkBus.lines
    clearInterrupts := fun bus => { bus with lines := 0 }
    getLlbit := LinkBus.linked
    getLlbit_clearLlbit := fun _ => rfl
    getLlbit_resync := fun _ _ => rfl
    setLink := fun _ _ _ bus => { bus with linked := true } }

/-- Every access succeeds and reads zero. -/
def linkMemory : Memory LinkBus where
  fetch := fun pc _ => .answers (linkCode pc)
  fetch_fails := fun _ _ _ _ failed => by cases failed
  read := fun _ _ _ => .answers 0
  write := fun _ _ _ _ => .answers ()
  write64Masked := fun _ _ _ _ => .answers ()

def linkPlatform : Platform (Mmu × LinkBus) := mmuPlatform r4400 linkPeriphery linkMemory

theorem linkPlatform_fetches : linkPlatform.Fetches linkCode := by
  apply mmuPlatform_fetches
  intro pc result exec word ran
  cases ran
  rfl

theorem linkCode_orderly : OrderlyStream linkPlatform.model linkCode := by
  have plain (pc : BitVec 64) : (decode linkPlatform.model (linkCode pc)).handler.isBranch = false ∧
      (decode linkPlatform.model (linkCode pc)).linkReg = 0 := by
    unfold linkCode
    split
    · decide
    · split <;> decide
  constructor
  · exact fun pc _ => (plain (pc + 4)).1
  · exact fun pc nonzero => absurd (plain pc).2 nonzero

/-- In front of the load linked, with interrupts enabled on line 2 and a kseg0 address in
register 3. -/
def linkStart : Executor (Mmu × LinkBus) :=
  ⟨{ (new .r4400 0).writeGpr 3 0xFFFFFFFF80002000 with
      pc := 0xFFFFFFFF80001000, cp0Status := 0x401 }, (new r4400 0).rest, ⟨0, false⟩⟩

def linkBetween : Executor (Mmu × LinkBus) := (linkStart.step linkPlatform).1

def linkInterrupted : Executor (Mmu × LinkBus) :=
  ⟨{ linkBetween.core with timer := linkBetween.core.timer },
    linkBetween.rest.1, { linkBetween.rest.2 with lines := 0x400 }⟩

theorem interruption_restartable_linked :
    Restartable linkPlatform linkInterrupted (linkInterrupted.step linkPlatform) :=
  interruption_restartable linkPlatform linkPlatform_fetches linkCode_orderly
    (.outside (.step (.start (by decide +kernel) (by decide +kernel))) _ _) (by decide +kernel)
    (by decide +kernel) (by decide +kernel)

/-- Behind the handler, which took line 2 down and changed nothing else. -/
def linkHandled : Executor (Mmu × LinkBus) :=
  let taken := (linkInterrupted.step linkPlatform).1
  ⟨taken.core, taken.rest.1, { taken.rest.2 with lines := 0 }⟩

/-- The store conditional succeeds, but not behind an interrupt its handler has repaired. -/
theorem interrupted_link_lost :
    (linkInterrupted.step linkPlatform).2 = execException excInt ∧
    Restored linkInterrupted.core (linkInterrupted.step linkPlatform).1.core linkHandled.core ∧
    linkHandled.rest.2.lines = linkBetween.rest.2.lines ∧
    (linkBetween.step linkPlatform).1.core.gpr.read 2 = 1 ∧
    ((linkHandled.execEret linkPlatform.toBackend).1.step linkPlatform).1.core.gpr.read 2 = 0 := by
  refine ⟨by decide +kernel, ⟨?_, ?_, ?_, ?_, ?_, ?_⟩, by decide +kernel, by decide +kernel,
    by decide +kernel⟩
  all_goals rfl

end Iris.Cpu.Exec
