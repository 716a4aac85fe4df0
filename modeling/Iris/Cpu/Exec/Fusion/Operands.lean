import Iris.Cpu.Exec.Fusion.Branch

/-!
Owns the pairs in which the second word works on the register the first has just
written: LUI with ORI or ADDIU, and an address computation with a load or store.
-/

namespace Iris.Cpu.Exec

open BitVec Executor

variable {R M : Type} {platform : Platform R} (view : MemoryView platform M) (exec : Executor R)
  {first next : BitVec 32}

/-! ### LUI and the instruction that completes it -/

theorem add_four_four (pc : BitVec 64) : pc + 4 + 4 = pc + 8 := by
  rw [BitVec.add_assoc]
  rfl

/-- A register loaded and then updated holds the combined value, or is register zero. -/
theorem write_update_eq {gpr : Gprs} {loaded : BitVec 64} {update : BitVec 64 → BitVec 64}
    (agrees : update loaded = value) :
    (gpr.write reg loaded).write reg (update ((gpr.write reg loaded).read reg)) =
      gpr.write reg value := by
  rw [Gprs.write_write, Gprs.read_write_self]
  by_cases zero : reg = 0
  · rw [zero, Gprs.write_zero, Gprs.write_zero]
  · rw [if_neg zero, agrees]

theorem writeBack_outside (outside : exec.core.inDelaySlot = false) :
    exec.writeBack platform reg value =
      ({ exec with core := { exec.core with
          gpr := exec.core.gpr.write reg value, pc := exec.core.pc + 4 } }, execComplete) :=
  complete_outside (exec.withGpr reg value) outside

/-- `update` is what the second word does to the register LUI has loaded. -/
theorem pair_lui (update : BitVec 64 → BitVec 64) {fusedInstr : DecodedInstr}
    (lui : (decode platform.model first).handler = .lui)
    (decoded : decodeInto platform.model first (some next) = fusedInstr)
    (isFused : fusedInstr.handler.isFused = true) (raw : fusedInstr.raw = first)
    (combined : fusedInstr.imm = imm)
    (fused : exec.execDecoded platform fusedInstr = exec.luiPair platform fusedInstr)
    (second : ∀ mid : Executor R, mid.execDecoded platform (decode platform.model next) =
      mid.writeBack platform (rtField first) (update (mid.core.readGpr (rtField first))))
    (agrees : update ((immLui first).signExtend 64) = imm.signExtend 64) :
    fusedPair platform exec first next = unfusedPair platform exec first next := by
  have plain : exec.execDecoded platform (decode platform.model first) =
      exec.writeBack platform (rtField first) ((immLui first).signExtend 64) := by
    simp only [execDecoded, lui, execLui, DecodedInstr.immu64, decode_lui_imm lui]
    rfl
  have sameRt : fusedInstr.rt = rtField first := congrArg rtField raw
  unfold fusedPair unfusedPair
  simp only [decoded, isFused, plain, fused, Bool.true_and, luiPair]
  cases slot : exec.core.inDelaySlot with
  | true =>
    simp only [Bool.not_true, Bool.false_eq_true, if_false, if_true, sameRt, raw]
    rfl
  | false =>
    simp only [Bool.not_false, if_true, Bool.false_eq_true, if_false]
    rw [writeBack_outside exec slot, thenNext, second, writeBack_outside _ (by exact slot)]
    simp only [MipsCore.readGpr, write_update_eq agrees, add_four_four, sameRt,
      DecodedInstr.immu64, combined]
    rfl

theorem low32_signExtend (value : BitVec 32) : low32 (value.signExtend 64) = value := by
  ext i below
  simp [low32, getLsbD_signExtend, below]
  omega

theorem low32_setWidth (value : BitVec 32) : low32 (value.setWidth 64) = value := by
  simp [low32]

/-- A zero-extended half fills the low bits of a LUI without disturbing its sign. -/
theorem or_immZe_signExtend :
    upper.signExtend 64 ||| (immZe raw).setWidth 64 = (upper ||| immZe raw).signExtend 64 := by
  have unsigned : (immZe raw).msb = false := by
    rw [immZe, msb_and, show (0xFFFF : BitVec 32).msb = false from by decide,
      Bool.and_false]
  rw [signExtend_or, signExtend_eq_setWidth_of_msb_false unsigned]

theorem pair_luiOri (lui : (decode platform.model first).handler = .lui)
    (sameReg : rsField next = rtField first ∧ rtField next = rtField first)
    (ori : opField next = 0x0D)
    (decoded : decodeInto platform.model first (some next) =
      ⟨first, immLui first ||| immZe next, .luiImm32⟩) :
    fusedPair platform exec first next = unfusedPair platform exec first next := by
  refine pair_lui exec (fun value => value ||| (immZe next).setWidth 64) lui decoded rfl rfl rfl rfl
    (fun mid => ?_) or_immZe_signExtend
  simp only [execDecoded, decode, decodeOp, ori]
  show mid.writeBack platform (rtField next) (mid.core.readGpr (rsField next) ||| _) = _
  rw [sameReg.1, sameReg.2]
  rfl

theorem pair_luiAddiu (lui : (decode platform.model first).handler = .lui)
    (sameReg : rsField next = rtField first ∧ rtField next = rtField first)
    (addiu : opField next = 0x09)
    (decoded : decodeInto platform.model first (some next) =
      ⟨first, immLui first + immSe next, .luiSimm32⟩) :
    fusedPair platform exec first next = unfusedPair platform exec first next := by
  refine pair_lui exec (fun value =>
    sext32 (low32 value + low32 ((immSe next).setWidth 64)))
    lui decoded rfl rfl rfl rfl (fun mid => ?_) ?_
  · simp only [execDecoded, decode, decodeOp, addiu]
    show mid.writeBack platform (rtField next) (sext32
      (low32 (mid.core.readGpr (rsField next)) + _)) = _
    rw [sameReg.1, sameReg.2]
    rfl
  · rw [low32_signExtend, low32_setWidth]
    rfl

/-! ### Loads and stores behind the computation of their address -/

variable {busy : Bool}

theorem fusedLoad_failed {extend : BitVec 64 → BitVec 64}
    (failed : (exec.fusedLoad platform size va reg extend).2 ≠ execComplete) :
    Untouched exec.core (exec.fusedLoad platform size va reg extend).1.core := by
  revert failed
  unfold fusedLoad
  split
  · exact fun failed => absurd rfl failed
  next after status ran =>
    intro _
    have untouched := (platform.readData size va).untouched exec
    rwa [ran] at untouched

theorem fusedStore_untouched :
    Untouched exec.core (exec.fusedStore platform size va reg).1.core :=
  (platform.writeData size va _).untouched exec

theorem fusedAccess_failed (failed : (exec.fusedAccess platform addr next).2 ≠ execComplete) :
    Untouched exec.core (exec.fusedAccess platform addr next).1.core := by
  revert failed
  unfold fusedAccess
  split <;>
    first
    | exact fusedLoad_failed exec
    | exact fun _ => fusedStore_untouched exec
    | exact fun failed => absurd rfl failed

/-- The end of the fused handler against that of a load or store of its own. -/
theorem fusedEnd_same {out : Executor R × ExecStatus} (outside : exec.core.inDelaySlot = false)
    (answer : Answered busy out.2) (failed : out.2 ≠ execComplete → Untouched exec.core out.1.core)
    (absorbs : busy = true → Absorbs exec.core excInt exec.core.pc) :
    SameState view
      (if out.2 = execComplete then out.1.complete platform
        else out.1.handleException platform.toBackend out.2).1
      (out.1.finish platform out.2).1 := by
  split
  next completed =>
    rw [completed]
    exact SameState.refl view _
  next notComplete =>
    have ends := failed notComplete
    rcases answer.resolve_left notComplete with raised | ⟨isBusy, held⟩
    · rw [finish_exception platform _ raised]
      exact SameState.refl view _
    have general : General out.2 excInt := by
      rcases held with retry | breakpoint
      · exact retry ▸ general_retry
      · exact breakpoint ▸ general_breakpoint
    have unraised : out.2 &&& execIsException = 0 := by
      rcases held with retry | breakpoint
      · rw [retry]
        decide
      · rw [breakpoint]
        decide
    have left : out.1.finish platform out.2 = (out.1, out.2) := by
      unfold finish finishStatus
      rw [if_neg (by simp [unraised]), if_neg notComplete]
    have absorbed : Absorbs out.1.core excInt out.1.core.pc := by
      have start := absorbs isBusy
      refine ⟨ends.cp0Status ▸ start.exl, ends.cp0Cause ▸ start.excCode, ?_⟩
      rw [ends.pc, ← start.vector, generalVector, generalVector, ends.cp0Status]
    have same := absorbed.handleException view out.1 general
    rw [left]
    exact ⟨same.core.trans (by
      rw [show ({ out.1.core with pc := out.1.core.pc, inDelaySlot := false } : MipsCore) =
        out.1.core from leaveSlot_eq (ends.inDelaySlot.trans outside)]), same.memory⟩

/-- The executor behind the computation of an address into `reg`. -/
def computed (reg : BitVec 5) (addr : BitVec 64) : Executor R :=
  { exec with core := { exec.core with
      gpr := exec.core.gpr.write reg addr, pc := exec.core.pc + 4 } }

/-- The first word computes `addr` into `reg`, and fuses with the access behind it. -/
structure ComputesAddress (platform : Platform R) (exec : Executor R) (first next : BitVec 32)
    (reg : BitVec 5) (addr : BitVec 64) : Prop where
  fusable : isFusableLoadStore next reg = true
  isFused : (decodeInto platform.model first (some next)).handler.isFused = true
  plain : exec.execDecoded platform (decode platform.model first) =
    exec.writeBack platform reg addr
  fused : exec.execDecoded platform (decodeInto platform.model first (some next)) =
    (exec.withGpr reg addr).execFusedAddrLoadStoreTail platform addr next

variable {reg : BitVec 5} {addr : BitVec 64}
  (computes : ComputesAddress platform exec first next reg addr)
include computes

theorem ComputesAddress.inside (inside : exec.core.inDelaySlot = true) :
    fusedPair platform exec first next = unfusedPair platform exec first next := by
  have stays : (exec.withGpr reg addr).core.inDelaySlot = true := inside
  unfold fusedPair unfusedPair
  simp only [computes.isFused, computes.plain, computes.fused, inside, Bool.not_true,
    Bool.and_false, Bool.false_eq_true, if_false]
  rw [execFusedAddrLoadStoreTail, if_pos stays]
  rfl

theorem ComputesAddress.fusedPair_eq (outside : exec.core.inDelaySlot = false) :
    fusedPair platform exec first next =
      let out := (computed exec reg addr).fusedAccess platform addr next
      (if out.2 = execComplete then out.1.complete platform
        else out.1.handleException platform.toBackend out.2).1 := by
  have stays : (exec.withGpr reg addr).core.inDelaySlot = false := outside
  unfold fusedPair
  simp only [computes.isFused, computes.fused, outside, Bool.not_false, Bool.and_true, if_true]
  rw [execFusedAddrLoadStoreTail, if_neg (by simp [stays])]
  rfl

theorem ComputesAddress.unfusedPair_eq (outside : exec.core.inDelaySlot = false) :
    unfusedPair platform exec first next =
      let out := (computed exec reg addr).fusedAccess platform (if reg = 0 then 0 else addr) next
      (out.1.finish platform out.2).1 := by
  have base : (computed exec reg addr).core.readGpr reg = if reg = 0 then 0 else addr :=
    Gprs.read_write_self ..
  rw [unfusedPair, computes.plain, writeBack_outside exec outside, thenNext,
    execDecoded_access platform _ computes.fusable]
  simp only [← base]
  rfl

theorem ComputesAddress.outside (outside : exec.core.inDelaySlot = false)
    (answers : AccessAnswers platform exec first next busy)
    (safe : FusedAccessSafe busy exec.core reg addr) :
    SameState view (fusedPair platform exec first next) (unfusedPair platform exec first next) := by
  have sameAddr : (if reg = 0 then 0 else addr) = addr := by
    split
    next zero => exact (safe.1 zero).symm
    · rfl
  have fusable := computes.fusable
  rw [isFusableLoadStore, Bool.and_eq_true, beq_iff_eq] at fusable
  have base : (computed exec reg addr).core.readGpr (rsField next) = addr := by
    rw [fusable.1]
    exact (Gprs.read_write_self ..).trans sameAddr
  rw [AccessAnswers, computes.plain, writeBack_outside exec outside] at answers
  have answer : Answered busy ((computed exec reg addr).fusedAccess platform
    ((computed exec reg addr).core.readGpr (rsField next)) next).2 := answers
  rw [base] at answer
  rw [computes.fusedPair_eq exec outside, computes.unfusedPair_eq exec outside, sameAddr]
  apply fusedEnd_same view (computed exec reg addr) outside answer
  · exact fusedAccess_failed _
  · intro isBusy
    have absorbs := safe.2 isBusy
    exact { absorbs with }

theorem ComputesAddress.same (answers : AccessAnswers platform exec first next busy)
    (safe : exec.core.inDelaySlot = false → FusedAccessSafe busy exec.core reg addr) :
    SameState view (fusedPair platform exec first next) (unfusedPair platform exec first next) := by
  cases slot : exec.core.inDelaySlot with
  | true =>
    rw [computes.inside exec slot]
    exact SameState.refl view _
  | false => exact computes.outside view exec slot answers (safe slot)

end Iris.Cpu.Exec
