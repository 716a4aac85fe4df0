import Iris.Cpu.Exec.Step
import Iris.Library.Run

/-!
Owns how the handlers of the interpreter without fusion end. A branch is described
by the register it links, the registers it tests and where its delay slot leads;
every other handler delivers an exception before it has changed a register, leaves
the instruction to be run again, retires, or returns from an exception. Where it is,
it does so whatever target an earlier delay slot has left behind.
-/

namespace Iris.Cpu.Exec

open Executor MipsCore Library.Run

/-! ### Branches -/

variable {R : Type} (core : MipsCore) (extend : BitVec 64 → BitVec 64) {platform : Platform R}
  {exec : Executor R}

def Handler.isBranch : Handler → Bool
  | .jr | .jalr | .j | .jal | .beq | .bne | .blez | .bgtz | .bltz | .bgez | .beql | .bnel
  | .blezl | .bgtzl | .bltzlRi | .bgezlRi | .bltzal | .bgezal | .bltzall | .bgezall | .bc1 => true
  | _ => false

namespace DecodedInstr

variable (d : DecodedInstr) (core : MipsCore)

def linkReg : BitVec 5 :=
  match d.handler with
  | .jalr => d.rd
  | .jal | .bltzal | .bgezal | .bltzall | .bgezall => 31
  | _ => 0

/-- The registers a branch tests or jumps through. -/
def testedRegs : List (BitVec 5) :=
  match d.handler with
  | .j | .jal | .bc1 => []
  | .beq | .bne | .beql | .bnel => [d.rs, d.rt]
  | _ => [d.rs]

def isLikely : Bool :=
  match d.handler with
  | .beql | .bnel | .blezl | .bgtzl | .bltzlRi | .bgezlRi | .bltzall | .bgezall => true
  | .bc1 => d.rt.getLsbD 1
  | _ => false

def taken : Bool :=
  match d.handler with
  | .beq | .beql => core.readGpr d.rs == core.readGpr d.rt
  | .bne | .bnel => core.readGpr d.rs != core.readGpr d.rt
  | .blez | .blezl => !positive (core.readGpr d.rs)
  | .bgtz | .bgtzl => positive (core.readGpr d.rs)
  | .bltz | .bltzlRi | .bltzal | .bltzall => (core.readGpr d.rs).msb
  | .bgez | .bgezlRi | .bgezal | .bgezall => !(core.readGpr d.rs).msb
  | .bc1 =>
    if d.rt.getLsbD 0 then core.getFpuCc (d.raw.extractLsb' 18 3)
    else !core.getFpuCc (d.raw.extractLsb' 18 3)
  | _ => true

def destination : BitVec 64 :=
  match d.handler with
  | .jr | .jalr => core.readGpr d.rs
  | .j | .jal => ((core.pc + 4) &&& 0xFFFFFFFFF0000000) ||| d.immi64
  | _ => core.pc + 4 + d.immu64

/-- Where the delay slot of a branch leads; a likely branch not taken has none. -/
def goes : Option (BitVec 64) :=
  if d.taken core then some (d.destination core)
  else if d.isLikely then none
  else some (core.pc + 8)

variable {d core}

/-- A branch looks at PC, FCSR and the registers it tests. -/
theorem goes_congr (pc : other.pc = core.pc) (fcsr : other.fpuFcsr = core.fpuFcsr)
    (tested : ∀ reg ∈ d.testedRegs, other.gpr.read reg = core.gpr.read reg) :
    d.goes other = d.goes core := by
  have sameTaken : d.taken other = d.taken core := by
    unfold testedRegs at tested
    unfold taken
    split <;> simp_all [readGpr, getFpuCc]
  have sameDestination : d.destination other = d.destination core := by
    unfold testedRegs at tested
    unfold destination
    split <;> simp_all [readGpr]
  simp only [goes, sameTaken, sameDestination, pc]

end DecodedInstr

namespace Executor

variable {R : Type} (platform : Platform R) (exec : Executor R) (d : DecodedInstr)

def endBranch : Option (BitVec 64) → Executor R × ExecStatus
  | some target => exec.branchDelay target
  | none => exec.handleBranchLikelySkip

theorem link_zero : exec.link 0 = exec := by
  simp only [link, withGpr, writeGpr, Gprs.write_zero]

variable {d}

theorem branchDelay_goes (jump : d.taken exec.core = true) :
    (exec.link d.linkReg).branchDelay (d.destination exec.core) =
      (exec.link d.linkReg).endBranch (d.goes exec.core) := by
  rw [DecodedInstr.goes, jump]
  rfl

theorem branchIf_goes (plain : d.isLikely = false)
    (relative : d.destination exec.core = exec.branchTarget d) :
    (exec.link d.linkReg).branchIf d (d.taken exec.core) =
      (exec.link d.linkReg).endBranch (d.goes exec.core) := by
  rw [DecodedInstr.goes, plain, relative]
  cases d.taken exec.core <;> rfl

theorem branchLikelyIf_goes (likely : d.isLikely = true)
    (relative : d.destination exec.core = exec.branchTarget d) :
    (exec.link d.linkReg).branchLikelyIf d (d.taken exec.core) =
      (exec.link d.linkReg).endBranch (d.goes exec.core) := by
  rw [DecodedInstr.goes, likely, relative]
  cases d.taken exec.core <;> rfl

theorem execBc1_goes (bc1 : d.handler = .bc1) (usable : exec.cp1Usable = true) :
    exec.execBc1 platform d = (exec.link d.linkReg).endBranch (d.goes exec.core) := by
  obtain ⟨raw, imm, handler⟩ := d
  subst bc1
  rw [execBc1, if_neg (by simpa using usable)]
  cases likely : rtField raw |>.getLsbD 1 with
  | true =>
    rw [← branchLikelyIf_goes exec]
    · exact (if_pos likely).trans (congrArg (branchLikelyIf · _ _) (link_zero exec).symm)
    · exact likely
    · rfl
  | false =>
    rw [← branchIf_goes exec]
    · exact (if_neg (ne_true_of_eq_false likely)).trans
        (congrArg (branchIf · _ _) (link_zero exec).symm)
    · exact likely
    · rfl

/-- Every branch links and then goes where its description says. -/
theorem execDecoded_branch (branch : d.handler.isBranch = true)
    (usable : d.handler = .bc1 → exec.cp1Usable = true) :
    exec.execDecoded platform d = (exec.link d.linkReg).endBranch (d.goes exec.core) := by
  obtain ⟨raw, imm, handler⟩ := d
  cases handler with
  | jr | j =>
    rw [← branchDelay_goes exec]
    · exact congrArg (branchDelay · _) (link_zero exec).symm
    · rfl
  | jalr | jal =>
    rw [← branchDelay_goes exec] <;> rfl
  | beq | bne | blez | bgtz | bltz | bgez =>
    rw [← branchIf_goes exec]
    · exact congrArg (branchIf · _ _) (link_zero exec).symm
    · rfl
    · rfl
  | bltzal | bgezal =>
    rw [← branchIf_goes exec] <;> rfl
  | beql | bnel | blezl | bgtzl | bltzlRi | bgezlRi =>
    rw [← branchLikelyIf_goes exec]
    · exact congrArg (branchLikelyIf · _ _) (link_zero exec).symm
    · rfl
    · rfl
  | bltzall | bgezall =>
    rw [← branchLikelyIf_goes exec] <;> rfl
  | bc1 => exact execBc1_goes platform exec rfl (usable rfl)
  | _ => cases branch

theorem execDecoded_bc1_unusable (unusable : ¬(d.handler = .bc1 → exec.cp1Usable = true)) :
    exec.execDecoded platform d = exec.cpuUnusable platform 1 := by
  obtain ⟨raw, imm, handler⟩ := d
  obtain ⟨rfl, missing⟩ := Classical.not_imp.mp unusable
  exact if_pos (by simpa using missing)

end Executor

/-! ### The other handlers -/

structure SameSlot (before after : MipsCore) : Prop where
  pc : after.pc = before.pc
  inDelaySlot : after.inDelaySlot = before.inDelaySlot
  delaySlotTarget : after.delaySlotTarget = before.delaySlotTarget

theorem SameSlot.refl : SameSlot core core := ⟨rfl, rfl, rfl⟩

theorem SameSlot.trans {first second third : MipsCore} (same : SameSlot first second)
    (next : SameSlot second third) : SameSlot first third :=
  ⟨next.pc.trans same.pc, next.inDelaySlot.trans same.inDelaySlot,
    next.delaySlotTarget.trans same.delaySlotTarget⟩

theorem SameFlow.sameSlot (same : SameFlow before after) : SameSlot before after :=
  { same with }

/-- How a handler that is no branch ends, started from `exec` and, with another target of the
delay slot, from `exec.retarget target`. -/
inductive Ends {R : Type} (platform : Platform R) (exec : Executor R) (target : BitVec 64) :
    Executor R × ExecStatus → Executor R × ExecStatus → Prop
  | raised {mid : Executor R} {status : ExecStatus} (same : SameFlow exec.core mid.core)
      (exception : isException status = true) :
      Ends platform exec target (mid.handleException platform.toBackend status)
        ((mid.retarget target).handleException platform.toBackend status)
  | held {mid : Executor R} {status : ExecStatus} (same : SameProgram exec.core mid.core)
      (incomplete : status ≠ execComplete) (quiet : isException status = false) :
      Ends platform exec target (mid, status) (mid.retarget target, status)
  | retired {mid : Executor R} (same : SameSlot exec.core mid.core) :
      Ends platform exec target (mid.handleExecComplete platform.toBackend)
        ((mid.retarget target).handleExecComplete platform.toBackend)
  | returned {mid : Executor R} (same : SameFlow exec.core mid.core) :
      Ends platform exec target (mid.execEret platform.toBackend)
        ((mid.retarget target).execEret platform.toBackend)

theorem isException_execException (code : BitVec 32) : isException (execException code) = true := by
  simp only [isException, execException, bne_iff_ne]
  intro zero
  have bit := congrArg (BitVec.getLsbD · 27) zero
  simp [execIsException] at bit

namespace Ends

variable {R : Type} {platform : Platform R} {exec mid : Executor R} {d : DecodedInstr}
  {target : BitVec 64}

/-- The end of `handler`, which `exec` has come to at `mid`. -/
def After (platform : Platform R) (exec : Executor R) (target : BitVec 64) (mid : Executor R)
    (handler : Executor R → Executor R × ExecStatus) : Prop :=
  Ends platform exec target (handler mid) (handler (mid.retarget target))

/-- A step that starts at `exec` may have got to `mid` before its handler starts. -/
theorem of_sameProgram (same : SameProgram exec.core mid.core)
    (ends : Ends platform mid target result other) : Ends platform exec target result other := by
  cases ends with
  | raised next exception => exact .raised (same.toSameFlow.trans next) exception
  | held next incomplete quiet => exact .held (same.trans next) incomplete quiet
  | retired next => exact .retired (same.sameSlot.trans next)
  | returned next => exact .returned (same.toSameFlow.trans next)

theorem raise (same : SameFlow exec.core mid.core) :
    After platform exec target mid (raise platform · code) :=
  .raised same (isException_execException code)

theorem cpuUnusable : After platform exec target exec (cpuUnusable platform · ce) :=
  @raised R platform exec target { exec with core := { exec.core with cp0Cause := _ } } _
    ⟨rfl, rfl, rfl, rfl, rfl, rfl, rfl⟩ (isException_execException excCpu)

section
variable (same : SameSlot exec.core mid.core)
include same

theorem complete :
    After platform exec target mid (complete platform) :=
  .retired same

theorem writeBack (reg : BitVec 5) (value : BitVec 64) :
    After platform exec target mid (writeBack platform · reg value) :=
  @retired R platform exec target (mid.withGpr reg value) { same with }

theorem writeHiLo (hi lo : BitVec 64) :
    After platform exec target mid (writeHiLo platform · hi lo) :=
  @retired R platform exec target { mid with core := { mid.core with hi := hi, lo := lo } }
    { same with }

end

theorem writeChecked : After platform exec target exec (writeChecked platform · reg result) := by
  cases result with
  | none => exact raise (.refl _)
  | some value => exact writeBack (.refl _) reg value

theorem trapIf : After platform exec target exec (trapIf platform · condition) :=
  ite_rel (fun _ => raise (.refl _)) fun _ => complete (.refl _)

theorem finish (same : SameFlow exec.core mid.core)
    (sameFcsr : isException status = false → mid.core.fpuFcsr = exec.core.fpuFcsr) :
    After platform exec target mid (finish platform · status) := by
  unfold After Executor.finish Executor.finishStatus
  split <;> rename_i exception
  · exact .raised same exception
  · have quiet : isException status = false := Bool.eq_false_iff.mpr exception
    split <;> rename_i complete
    · exact .retired same.sameSlot
    · exact .held ⟨same, sameFcsr quiet⟩ complete quiet

section Accesses
variable {α : Type} {access : Access R α} {result : Except ExecStatus α}

theorem same_of_run (ran : access.run exec = (mid, result)) : SameProgram exec.core mid.core := by
  have same := access.sameProgram exec
  rwa [ran] at same

end Accesses

theorem finishRun (same : SameProgram exec.core mid.core) (status : ExecStatus) :
    After platform exec target mid (Executor.finish platform · status) :=
  finish same.toSameFlow fun _ => same.fpuFcsr

theorem loadWith : After platform exec target exec (loadWith platform · access reg extend) := by
  unfold After Executor.loadWith
  beta_reduce
  rw [access.run_retarget]
  rcases ran : access.run exec with ⟨loaded, status | value⟩
  · exact finishRun (same_of_run ran) status
  · exact writeBack (same_of_run ran).sameSlot reg _

theorem storeWith : After platform exec target exec (storeWith platform · access) := by
  unfold After Executor.storeWith
  simp only [access.run_retarget]
  exact finishRun (access.sameProgram exec) _

theorem loadLinked : After platform exec target exec (loadLinked platform · d size extend) := by
  unfold After Executor.loadLinked
  have sameAddr : (exec.retarget target).virtAddr d = exec.virtAddr d := rfl
  dsimp only
  rw [sameAddr, (platform.readData size _).run_retarget]
  rcases ran : (platform.readData size (exec.virtAddr d)).run exec with ⟨loaded, status | value⟩
  · exact finishRun (same_of_run ran) status
  -- The register is written before the second translation.
  have written : (loaded.retarget target).withGpr d.rt (extend value) =
      (loaded.withGpr d.rt (extend value)).retarget target := rfl
  dsimp only
  rw [written, (platform.nanotlbTranslate .read _).run_retarget]
  rcases linking : (platform.nanotlbTranslate .read (exec.virtAddr d)).run
    (loaded.withGpr d.rt (extend value)) with ⟨linked, failure | phys⟩ <;>
    have linkedFlow := same_of_run linking <;>
    have sameSlot : SameSlot exec.core linked.core := (same_of_run ran).sameSlot.trans
      { linkedFlow with }
  · exact .retired sameSlot
  · exact @retired R platform exec target ⟨{ linked.core with cp0LLAddr := _ }, _⟩ { sameSlot with }

theorem storeConditional :
    After platform exec target exec (storeConditional platform · d size alignMask) := by
  unfold After Executor.storeConditional
  have sameAddr : (exec.retarget target).virtAddr d = exec.virtAddr d := rfl
  have sameRest : (exec.retarget target).rest = exec.rest := rfl
  dsimp only
  rw [sameAddr, sameRest]
  split
  · exact writeBack (.refl _) d.rt 0
  rw [(platform.nanotlbTranslate .write _).run_retarget]
  rcases ran : (platform.nanotlbTranslate .write (exec.virtAddr d)).run exec with
    ⟨mid, status | phys⟩ <;>
    have same := same_of_run ran
  · exact @finishRun R platform exec (mid.clearLink platform) target { same with } status
  have sameCas : (mid.retarget target).casLinked platform d size alignMask phys =
      mid.casLinked platform d size alignMask phys := rfl
  have sameVal : (mid.retarget target).rtVal d = mid.rtVal d := rfl
  simp only [sameCas, sameVal, Access.run_retarget]
  split
  · exact @writeBack R platform exec (clearLink platform { mid with rest := _ }) target
      same.sameSlot d.rt _
  have stored := same.trans
    ((platform.writeData size (exec.virtAddr d) (mid.rtVal d)).sameProgram mid)
  split
  · exact @retired R platform exec target
      (clearLink platform (withGpr (Access.run _ mid).1 d.rt 1)) { stored.sameSlot with }
  · exact finishRun stored _

theorem cacheOperate (same : SameFlow exec.core mid.core) :
    After platform exec target mid (cacheOperate platform · d phys) := by
  have sameAddr : (mid.retarget target).virtAddr d = mid.virtAddr d := rfl
  have sameHi : (mid.retarget target).core.cp0TagHi = mid.core.cp0TagHi := rfl
  have sameLo : (mid.retarget target).core.cp0TagLo = mid.core.cp0TagLo := rfl
  unfold After Executor.cacheOperate
  simp only [sameAddr, sameHi, sameLo, Access.run_retarget]
  generalize operating : Access.run _ mid = operated
  rcases operated with ⟨operated, status | ⟨result, ecc⟩⟩ <;>
    have flow := same.trans (same_of_run operating).toSameFlow
  · exact .raised flow (platform.cacheOp_raises _ _ _ mid _ (congrArg Prod.snd operating))
  dsimp only
  split
  · exact @retired R platform exec target { operated with core := { operated.core with
      cp0Ecc := _, cp0TagLo := _, cp0TagHi := _ } } { flow with }
  · exact @retired R platform exec target { operated with core := { operated.core with
      cp0Ecc := _ } } { flow with }

theorem execCache : After platform exec target exec (execCache platform · d) := by
  have sameAddr : (exec.retarget target).virtAddr d = exec.virtAddr d := rfl
  have sameUsable : (exec.retarget target).cp0Usable = exec.cp0Usable := rfl
  unfold After Executor.execCache
  simp only [sameAddr, sameUsable, Access.run_retarget]
  refine ite_rel (fun _ => cpuUnusable) fun _ => ite_rel (fun _ => ?_) fun _ =>
    cacheOperate (.refl _)
  rcases ran : (platform.nanotlbTranslate .read (exec.virtAddr d)).run exec with
    ⟨mid, status | phys⟩
  · exact .raised (same_of_run ran).toSameFlow
      (platform.nanotlbTranslate_raises _ _ exec _ (congrArg Prod.snd ran))
  · exact cacheOperate (same_of_run ran).toSameFlow

end Ends

theorem updateRandom_sameSlot {core : MipsCore} : SameSlot core (core.updateRandom cycles) := by
  simp only [updateRandom]
  split_ifs <;> exact ⟨rfl, rfl, rfl⟩

theorem readCp0_sameSlot (moment : Timer.Moment) (reg : Nat) :
    SameSlot core (core.readCp0 moment reg).1 := by
  unfold readCp0
  split
  case h_2 => exact updateRandom_sameSlot
  all_goals exact ⟨rfl, rfl, rfl⟩

theorem writeCp0_sameSlot (moment : Timer.Moment) (reg : Nat) (value : BitVec 64) :
    SameSlot core (core.writeCp0 moment reg value) := by
  unfold writeCp0
  split <;> exact ⟨rfl, rfl, rfl⟩

section
variable {target : BitVec 64}

theorem readCp0_retarget (moment : Timer.Moment) (reg : Nat) :
    { core with delaySlotTarget := target }.readCp0 moment reg =
      ({ (core.readCp0 moment reg).1 with delaySlotTarget := target },
        (core.readCp0 moment reg).2) := by
  have random : { core with delaySlotTarget := target }.updateRandom moment.cycles =
      { core.updateRandom moment.cycles with delaySlotTarget := target } := by
    simp only [updateRandom]
    split_ifs <;> rfl
  unfold readCp0
  split
  case h_2 => simp only [random]
  all_goals rfl

theorem writeCp0_retarget (moment : Timer.Moment) (reg : Nat) (value : BitVec 64) :
    { core with delaySlotTarget := target }.writeCp0 moment reg value =
      { core.writeCp0 moment reg value with delaySlotTarget := target } := by
  unfold writeCp0
  split <;> rfl

end

namespace Ends

variable {R : Type} {platform : Platform R} {exec mid : Executor R} {d : DecodedInstr}
  {target : BitVec 64}

theorem moveFromCp0 : After platform exec target exec (moveFromCp0 platform · d extend) := by
  have moved := @readCp0_retarget exec.core target (platform.moment exec.rest) d.rd.toNat
  have same := readCp0_sameSlot exec.core (platform.moment exec.rest) d.rd.toNat
  unfold After Executor.moveFromCp0
  simp only [retarget, moved]
  exact @writeBack R platform exec { exec with core := (exec.core.readCp0 _ _).1 } target same d.rt _

theorem moveToCp0 : After platform exec target exec (moveToCp0 platform · d value) := by
  have moved := @writeCp0_retarget exec.core target (platform.moment exec.rest) d.rd.toNat value
  have same := writeCp0_sameSlot exec.core (platform.moment exec.rest) d.rd.toNat value
  unfold After Executor.moveToCp0
  simp only [retarget, moved]
  generalize exec.core.writeCp0 _ _ _ = written at same
  simp only [platform.resync_retarget written target]
  split
  · let masked : MipsCore :=
      { written with cp0LLAddr := written.cp0LLAddr &&& platform.model.lladdrMask }
    have sameEffects := platform.cp0SideEffects_retarget d.rd masked target
    simp only [masked] at sameEffects
    simp only [sameEffects]
    exact @retired R platform exec target ⟨masked, _⟩ { same with }
  · simp only [platform.cp0SideEffects_retarget d.rd written target]
    exact @retired R platform exec target ⟨written, _⟩ same

theorem execTlb : After platform exec target exec (execTlb platform · d) := by
  have after (access : Access R Unit) :
      After platform exec target exec (fun exec => (access.run exec).1.complete platform) := by
    unfold After
    beta_reduce
    rw [access.run_retarget]
    exact .retired (access.sameFlow exec).sameSlot
  unfold After Executor.execTlb
  split
  · exact after platform.tlbr
  · exact after platform.tlbwi
  · exact after platform.tlbwr
  · exact after platform.tlbp
  · exact .returned (.refl _)
  · exact ite_rel (fun _ => .held (.refl _) (by decide) (by decide)) fun _ => complete (.refl _)
  · exact raise (.refl _)

theorem execCop0 : After platform exec target exec (execCop0 platform · d) := by
  have sameUsable : (exec.retarget target).cp0Usable = exec.cp0Usable := rfl
  unfold After Executor.execCop0
  simp only [sameUsable]
  refine ite_rel (fun _ => cpuUnusable) fun _ => ?_
  split
  · exact moveFromCp0 _
  · exact moveFromCp0 _
  · exact moveToCp0
  · exact moveToCp0
  · exact execTlb
  · exact raise (.refl _)

theorem execCop1 : After platform exec target exec (execCop1 platform · d) := by
  have same := (platform.cop1 d.raw).sameFlow exec
  have held := platform.cop1Fcsr_held d.raw exec
  unfold After Executor.execCop1
  beta_reduce
  rw [platform.cop1Fcsr_retarget, Access.run_retarget]
  refine ite_rel (fun _ => cpuUnusable) fun _ => ?_
  generalize platform.cop1Fcsr d.raw exec = fcsr at held
  generalize (platform.cop1 d.raw).run exec = ran at same held
  rcases ran with ⟨mid, status | value | value⟩
  · exact @finish R platform exec { mid with core := { mid.core with fpuFcsr := fcsr } } target
      status { same with } (held status rfl)
  · exact @retired R platform exec target { mid with core := { mid.core with fpuFcsr := fcsr } }
      { same with }
  · exact @writeBack R platform exec { mid with core := { mid.core with fpuFcsr := fcsr } } target
      { same with } d.rt value

theorem execMovci : After platform exec target exec (execMovci platform · d) :=
  ite_rel (fun _ => cpuUnusable) fun _ =>
    ite_rel (fun _ => writeBack (.refl _) _ _) fun _ => complete (.refl _)

end Ends

theorem handleException_inDelaySlot :
    (exec.handleException platform.toBackend status).1.core.inDelaySlot = false := by
  simp only [handleException, resyncPrivilegeState, deliverException, deliverExceptionAt]
  split <;> rfl

theorem checkPcAlignment_inDelaySlot (outside : exec.core.inDelaySlot = false) :
    (exec.checkPcAlignment platform.toBackend).1.core.inDelaySlot = false := by
  unfold checkPcAlignment
  split
  · exact handleException_inDelaySlot
  · exact outside

theorem Ends.outside {result : Executor R × ExecStatus}
    (ends : Ends platform exec target result other) (outside : exec.core.inDelaySlot = false) :
    result.1.core.inDelaySlot = false := by
  cases ends with
  | raised same exception => exact handleException_inDelaySlot
  | held same incomplete quiet => exact same.inDelaySlot.trans outside
  | retired same =>
    have slot := same.inDelaySlot.trans outside
    simp only [handleExecComplete, slot, Bool.false_eq_true, if_false]
  | returned same => exact checkPcAlignment_inDelaySlot rfl

/-- Every handler but the branches and the fused ones ends in one of these ways. -/
theorem execDecoded_ends (plain : d.handler.isBranch = false) (unfused : d.handler.isFused = false) :
    Ends platform exec target (exec.execDecoded platform d)
      ((exec.retarget target).execDecoded platform d) := by
  obtain ⟨raw, imm, handler⟩ := d
  have done := @Ends.complete R platform exec exec target (.refl _)
  have wrote := @Ends.writeBack R platform exec exec target (.refl _)
  have multiplied := @Ends.writeHiLo R platform exec exec target (.refl _)
  cases handler with
  | sll | srl | sra | sllv | srlv | srav | dsllv | dsrlv | dsrav | dsll | dsrl | dsra | dsll32
  | dsrl32 | dsra32 | addu | subu | addiu | daddu | dsubu | daddiu | and | or | xor | nor | andi
  | ori | xori | lui | slt | sltu | slti | sltiu | mfhi | mflo => exact wrote _ _
  | add | sub | dadd | dsub | addi | daddi => exact Ends.writeChecked
  | movz | movn => exact ite_rel (fun _ => wrote _ _) fun _ => done
  | mthi | mtlo | mult | multu | dmult | dmultu => exact multiplied _ _
  | div | divu | ddivu => exact ite_rel (fun _ => done) fun _ => multiplied _ _
  | ddiv => exact ite_rel (fun _ => done) fun _ => ite_rel (fun _ => done) fun _ => multiplied _ _
  | tge | tgeu | tlt | tltu | teq | tne | tgei | tgeiu | tlti | tltiu | teqi | tnei =>
    exact Ends.trapIf
  | syscall | breakInstr | reserved => exact Ends.raise (.refl _)
  | sync | pref => exact done
  | lb | lbu | lh | lhu | lw | lwu | ld | lwl | lwr | ldl | ldr => exact Ends.loadWith _
  | sb | sh | sw | sd | swl | swr | sdl | sdr => exact Ends.storeWith
  | ll | lld => exact Ends.loadLinked _
  | sc | scd => exact Ends.storeConditional
  | cache => exact Ends.execCache
  | cop0 => exact Ends.execCop0
  | cop1 => exact Ends.execCop1
  | movci => exact Ends.execMovci
  | _ => cases plain <;> cases unfused

end Iris.Cpu.Exec
