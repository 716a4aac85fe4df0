import Iris.Cpu.Exec.Fusion.Spec

/-!
Owns what fusion makes of a word: the ways to fuse it, the immediates the fused
handlers take over from decode, and plain execution of the words behind.
-/

namespace Iris.Cpu.Exec

open Executor

/-! ### What fusion makes of a word -/

inductive Fused (d : DecodedInstr) (next : BitVec 32) : DecodedInstr → Prop
  | none : Fused d next d
  | jr (jr : d.handler = .jr) (nop : next = 0) : Fused d next { d with handler := .jrNop }
  | j (j : d.handler = .j) (nop : next = 0) : Fused d next { d with handler := .jNop }
  | jal (jal : d.handler = .jal) (nop : next = 0) : Fused d next { d with handler := .jalNop }
  | beq (beq : d.handler = .beq) (nop : next = 0) : Fused d next { d with handler := .beqNop }
  | bne (bne : d.handler = .bne) (nop : next = 0) : Fused d next { d with handler := .bneNop }
  | addu (addu : d.handler = .addu) (access : isFusableLoadStore next d.rd = true) :
      Fused d next { d with imm := next, handler := .adduLs }
  | subu (subu : d.handler = .subu) (access : isFusableLoadStore next d.rd = true) :
      Fused d next { d with imm := next, handler := .subuLs }
  | addiu (addiu : d.handler = .addiu) (access : isFusableLoadStore next d.rt = true) :
      Fused d next { d with imm := next, handler := .addiuLs }
  | luiOri (lui : d.handler = .lui) (sameReg : rsField next = d.rt ∧ rtField next = d.rt)
      (ori : opField next = 0x0D) :
      Fused d next { d with imm := immLui d.raw ||| immZe next, handler := .luiImm32 }
  | luiAddiu (lui : d.handler = .lui) (sameReg : rsField next = d.rt ∧ rtField next = d.rt)
      (addiu : opField next = 0x09) :
      Fused d next { d with imm := immLui d.raw + immSe next, handler := .luiSimm32 }

theorem fuseLui_fused (lui : d.handler = .lui) : Fused d next (fuseLui d next) := by
  unfold fuseLui
  dsimp only
  split
  next found => exact .luiOri lui found.1 found.2
  · split
    next found => exact .luiAddiu lui found.1 found.2
    · exact .none

theorem fuse_fused (d : DecodedInstr) (next : BitVec 32) : Fused d next (fuse d next) := by
  unfold fuse
  split <;> rename_i handler
  case h_9 => exact fuseLui_fused handler
  case h_10 => exact .none
  all_goals
    split
    next fusable => constructor <;> assumption
    · exact .none

/-- ADDIU, LUI and the fused handlers: none of them comes out of a table behind the
primary opcode. -/
def Handler.isPrimary : Handler → Bool
  | .addiu | .lui => true
  | handler => handler.isFused

theorem mips4Only_isPrimary (plain : handler.isPrimary = false) :
    (mips4Only model handler).isPrimary = false := by
  unfold mips4Only
  split
  · exact plain
  · rfl

theorem decodeSpecial_isPrimary : (decodeSpecial model funct).isPrimary = false := by
  unfold decodeSpecial
  split <;> first | rfl | exact mips4Only_isPrimary rfl

theorem decodeRegimm_isPrimary : (decodeRegimm raw).1.isPrimary = false := by
  unfold decodeRegimm
  split <;> rfl

section
variable (model : CpuModel)

theorem decodeFmt_isPrimary : (decodeFmt model convert funct).isPrimary = false := by
  unfold decodeFmt
  dsimp only
  split
  · rfl
  · split
    · exact mips4Only_isPrimary rfl
    · rfl

theorem decodeCop1_isPrimary : (decodeCop1 model raw).1.isPrimary = false := by
  unfold decodeCop1
  split <;> try rfl
  case h_8 => exact decodeFmt_isPrimary model
  case h_9 => exact decodeFmt_isPrimary model
  all_goals
    split <;> rfl

theorem decodeCop1x_isPrimary : (decodeCop1x model funct).isPrimary = false := by
  unfold decodeCop1x
  split
  · exact mips4Only_isPrimary rfl
  · rfl

theorem decode_primary :
    (decode model raw).handler.isPrimary = false ∨
      (decode model raw).handler = .addiu ∧ (decode model raw).imm = immSe raw ∨
      (decode model raw).handler = .lui ∧ (decode model raw).imm = immLui raw := by
  unfold decode decodeOp
  split <;> try exact .inl rfl
  · exact .inl decodeSpecial_isPrimary
  · exact .inl decodeRegimm_isPrimary
  · exact .inr (.inl ⟨rfl, rfl⟩)
  · exact .inr (.inr ⟨rfl, rfl⟩)
  · exact .inl (decodeCop1_isPrimary model)
  · exact .inl (decodeCop1x_isPrimary model)
  · exact .inl (mips4Only_isPrimary rfl)

theorem decode_isFused (raw : BitVec 32) : (decode model raw).handler.isFused = false := by
  rcases decode_primary model with plain | ⟨addiu, -⟩ | ⟨lui, -⟩
  · revert plain
    cases (decode model raw).handler <;> decide
  · rw [addiu]
    rfl
  · rw [lui]
    rfl

end

theorem decode_addiu_imm (addiu : (decode model raw).handler = .addiu) :
    (decode model raw).imm = immSe raw := by
  rcases decode_primary model with plain | ⟨-, imm⟩ | ⟨lui, -⟩
  · rw [addiu] at plain
    cases plain
  · exact imm
  · rw [addiu] at lui
    cases lui

theorem decode_lui_imm (lui : (decode model raw).handler = .lui) :
    (decode model raw).imm = immLui raw := by
  rcases decode_primary model with plain | ⟨addiu, -⟩ | ⟨-, imm⟩
  · rw [lui] at plain
    cases plain
  · rw [lui] at addiu
    cases addiu
  · exact imm

/-! ### The second word -/

variable {R : Type} (platform : Platform R) (exec : Executor R)

@[simp]
theorem withGpr_zero (value : BitVec 64) : exec.withGpr 0 value = exec := by
  simp only [withGpr, MipsCore.writeGpr, Gprs.write_zero]

theorem decode_zero_rd (model : CpuModel) : (decode model 0).rd = 0 := by
  show rdField 0 = 0
  decide

theorem execDecoded_nop (model : CpuModel) :
    exec.execDecoded platform (decode model 0) = exec.complete platform := by
  show exec.writeBack platform (decode model 0).rd _ = _
  rw [decode_zero_rd, writeBack, withGpr_zero]

theorem finish_complete : exec.finish platform execComplete = exec.complete platform := by
  rfl

theorem finish_exception (raised : isException status = true) :
    exec.finish platform status = exec.handleException platform.toBackend status :=
  if_pos raised

/-- A load is its access and the end its status calls for. -/
theorem loadWith_eq (extend : BitVec 64 → BitVec 64) :
    exec.loadWith platform (platform.readData size va) reg extend =
      (exec.fusedLoad platform size va reg extend).1.finish platform
        (exec.fusedLoad platform size va reg extend).2 := by
  unfold loadWith fusedLoad
  split
  · exact (finish_complete platform _).symm
  · rfl

theorem immSe_signExtend (raw : BitVec 32) :
    (immSe raw).signExtend 64 = (raw.setWidth 16).signExtend 64 := by
  apply BitVec.eq_of_toInt_eq
  unfold immSe
  iterate 3 rw [BitVec.toInt_signExtend_of_le (by decide)]

theorem execDecoded_access (fusable : isFusableLoadStore next reg = true) :
    exec.execDecoded platform (decode platform.model next) =
      (exec.fusedAccess platform (exec.core.readGpr reg) next).1.finish platform
        (exec.fusedAccess platform (exec.core.readGpr reg) next).2 := by
  unfold isFusableLoadStore at fusable
  rw [Bool.and_eq_true, beq_iff_eq, List.contains_iff_mem] at fusable
  obtain ⟨base, op⟩ := fusable
  simp only [List.mem_cons, List.not_mem_nil, or_false] at op
  have address : exec.core.readGpr reg + (next.setWidth 16).signExtend 64 =
      exec.core.readGpr (rsField next) + (immSe next).signExtend 64 := by
    rw [base, immSe_signExtend]
  unfold fusedAccess
  rw [address]
  rcases op with op | op | op | op | op | op | op | op | op | op <;>
    simp only [execDecoded, decode, decodeOp, op] <;>
    first
    | exact loadWith_eq platform exec _
    | rfl

end Iris.Cpu.Exec
