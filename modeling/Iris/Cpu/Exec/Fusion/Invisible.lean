import Iris.Cpu.Exec.Fusion.Operands
import Iris.Cpu.Exec.Machine

/-!
Owns the invisibility of opcode fusion: on the states of `FusionSafe` no platform
can tell fused from plain execution, and on every other state one without any
memory does.
-/

namespace Iris.Cpu.Exec

open Executor Access MipsCore

/-! ### Platforms that tell the two apart -/

variable {model : CpuModel} {first next : BitVec 32}

/-- No memory at all: every data access fails with `status`. -/
def failingPlatform (model : CpuModel) (status : ExecStatus) : Platform Unit where
  toPeriphery := quietPeriphery model
  fetchInstr := fails (execException excAdel)
  fetchInstr_fails := by
    intro pc exec status same
    cases same
    decide
  nanotlbTranslate := fun _ => fails (execException excAdel)
  nanotlbTranslate_raises := fun _ => fails_raises (by decide)
  readData := fun _ => fails status
  writeData := fun _ va _ => fails status va
  writeData64Masked := fun va _ _ => fails status va
  cp0SideEffects := fun _ _ rest => rest
  cp0SideEffects_retarget := fun _ _ _ _ => rfl
  tlbr := .answers ()
  tlbwi := .answers ()
  tlbwr := .answers ()
  tlbp := .answers ()

def failingView (model : CpuModel) (status : ExecStatus) :
    MemoryView (failingPlatform model status) Unit where
  contents := id
  clearLlbit := fun _ => rfl
  resync := fun _ _ => rfl

variable {busy : Bool}

theorem failingPlatform_answers (exec : Executor Unit) (allowed : isException status = true ∨
      busy = true ∧ (status = execRetry ∨ status = execBreakpoint)) :
    AccessAnswers (failingPlatform model status) exec first next busy := by
  unfold AccessAnswers fusedAccess
  dsimp only
  split <;>
    first
    | exact .inr allowed
    | exact .inl rfl

theorem fusedAccess_failing {exec : Executor Unit} {reg : BitVec 5}
    (fusable : isFusableLoadStore next reg = true) (addr : BitVec 64) :
    exec.fusedAccess (failingPlatform model status) addr next =
      ({ exec with core := { exec.core with
          cp0BadVAddr := addr + (next.setWidth 16).signExtend 64 } }, status) := by
  unfold isFusableLoadStore at fusable
  rw [Bool.and_eq_true, List.contains_iff_mem] at fusable
  have op := fusable.2
  simp only [List.mem_cons, List.not_mem_nil, or_false] at op
  unfold fusedAccess
  rcases op with op | op | op | op | op | op | op | op | op | op <;> rw [op] <;> rfl

/-- The two words end alike on the platform where every access fails. -/
def FailAlike (model : CpuModel) (core : MipsCore) (first next : BitVec 32) (status : ExecStatus) :
    Prop :=
  SameState (failingView model status)
    (fusedPair (failingPlatform model status) ⟨core, ()⟩ first next)
    (unfusedPair (failingPlatform model status) ⟨core, ()⟩ first next)

section
variable {model : CpuModel} {core : MipsCore} {first next : BitVec 32} {reg : BitVec 5}
  {addr : BitVec 64}

/-- Both pairs fail, each at the address it computed. -/
theorem ComputesAddress.zero_of_same
    (computes : ComputesAddress (failingPlatform model (execException excAdel)) ⟨core, ()⟩
      first next reg addr)
    (outside : core.inDelaySlot = false)
    (same : FailAlike model core first next (execException excAdel)) :
    reg = 0 → addr = 0 := by
  rintro rfl
  have cores := same.core
  rw [computes.fusedPair_eq _ outside, computes.unfusedPair_eq _ outside] at cores
  simp only [fusedAccess_failing computes.fusable, if_true] at cores
  have address := congrArg cp0BadVAddr cores
  exact (BitVec.add_left_inj _).mp address

/-- The fused handler delivers what the plain one retries. -/
theorem ComputesAddress.absorbs_of_same
    (computes : ComputesAddress (failingPlatform model execRetry) ⟨core, ()⟩ first next reg addr)
    (outside : core.inDelaySlot = false) (same : FailAlike model core first next execRetry) :
    Absorbs core excInt (core.pc + 4) := by
  have cores := same.core
  rw [computes.fusedPair_eq _ outside, computes.unfusedPair_eq _ outside] at cores
  simp only [fusedAccess_failing computes.fusable] at cores
  have absorbs := absorbs_of_settled general_retry cores rfl rfl
  exact { absorbs with }

/-- The condition an address computation needs, read off platforms without memory. -/
theorem fusedAccessSafe_of_same
    (computes : ∀ status, ComputesAddress (failingPlatform model status) ⟨core, ()⟩ first next
      reg addr)
    (outside : core.inDelaySlot = false)
    (same : ∀ status, AccessAnswers (failingPlatform model status) ⟨core, ()⟩ first next busy →
      FailAlike model core first next status) :
    FusedAccessSafe busy core reg addr := by
  constructor
  · apply (computes _).zero_of_same outside
    exact same _ (failingPlatform_answers _ (.inl (by decide)))
  · intro isBusy
    apply (computes _).absorbs_of_same outside
    exact same _ (failingPlatform_answers _ (.inr ⟨isBusy, .inl rfl⟩))

end

/-! ### The words that fuse -/

section
variable {R : Type} (platform : Platform R) (exec : Executor R) {first next : BitVec 32}

theorem computes_addu (addu : (decode platform.model first).handler = .addu)
    (access : isFusableLoadStore next (rdField first) = true)
    (decoded : decodeInto platform.model first (some next) = ⟨first, next, .adduLs⟩) :
    ComputesAddress platform exec first next (rdField first)
      (((exec.core.readGpr (rsField first)).setWidth 32 +
        (exec.core.readGpr (rtField first)).setWidth 32).signExtend 64) where
  fusable := access
  isFused := by rw [decoded]; rfl
  plain := by simp only [execDecoded, addu]; rfl
  fused := by rw [decoded]; rfl

theorem computes_subu (subu : (decode platform.model first).handler = .subu)
    (access : isFusableLoadStore next (rdField first) = true)
    (decoded : decodeInto platform.model first (some next) = ⟨first, next, .subuLs⟩) :
    ComputesAddress platform exec first next (rdField first)
      (((exec.core.readGpr (rsField first)).setWidth 32 -
        (exec.core.readGpr (rtField first)).setWidth 32).signExtend 64) where
  fusable := access
  isFused := by rw [decoded]; rfl
  plain := by simp only [execDecoded, subu]; rfl
  fused := by rw [decoded]; rfl

theorem computes_addiu (addiu : (decode platform.model first).handler = .addiu)
    (access : isFusableLoadStore next (rtField first) = true)
    (decoded : decodeInto platform.model first (some next) = ⟨first, next, .addiuLs⟩) :
    ComputesAddress platform exec first next (rtField first)
      (((exec.core.readGpr (rsField first)).setWidth 32 +
        (first.setWidth 16).signExtend 32).signExtend 64) where
  fusable := access
  isFused := by rw [decoded]; rfl
  plain := by
    simp only [execDecoded, addiu, execAddiu, DecodedInstr.immi64,
      decode_addiu_imm addiu, low32_setWidth]
    rfl
  fused := by rw [decoded]; rfl

/-- A branch on `taken` and its fused form. -/
structure Branches (platform : Platform R) (exec : Executor R) (first : BitVec 32) (taken : Bool) :
    Prop where
  isFused : (decodeInto platform.model first (some 0)).handler.isFused = true
  plain : exec.execDecoded platform (decode platform.model first) =
    exec.branchIf (decode platform.model first) taken
  fused : exec.execDecoded platform (decodeInto platform.model first (some 0)) =
    exec.branchNop platform (decode platform.model first) taken

section
variable {M : Type} {platform : Platform R} {exec : Executor R} {taken : Bool}
  (branches : Branches platform exec first taken) (view : MemoryView platform M)
  (aligned : exec.core.pc &&& 3 = 0)
include branches aligned

theorem Branches.same
    (skips : taken = false → exec.core.inDelaySlot = true → SlotSkipSafe exec.core) :
    SameState view (fusedPair platform exec first 0) (unfusedPair platform exec first 0) := by
  cases outcome : taken with
  | true =>
    subst outcome
    exact pair_jump view exec rfl rfl branches.isFused branches.plain branches.fused
  | false =>
    subst outcome
    have fused := branches.fused
    rw [branchNop] at fused
    cases slot : exec.core.inDelaySlot with
    | true =>
      rw [slot] at fused
      exact (pair_slotSkip_iff view exec aligned slot branches.plain fused).mpr (skips rfl slot)
    | false =>
      rw [slot] at fused
      exact pair_skip view exec aligned slot branches.isFused branches.plain fused

theorem Branches.safe
    (same : SameState view (fusedPair platform exec first 0) (unfusedPair platform exec first 0))
    (notTaken : taken = false) (inside : exec.core.inDelaySlot = true) :
    SlotSkipSafe exec.core := by
  subst notTaken
  have fused := branches.fused
  rw [branchNop, if_pos inside] at fused
  exact (pair_slotSkip_iff view exec aligned inside branches.plain fused).mp same

end

theorem branches_beq (beq : (decode platform.model first).handler = .beq)
    (decoded : decodeInto platform.model first (some 0) =
      { decode platform.model first with handler := .beqNop }) :
    Branches platform exec first
      (exec.core.readGpr (rsField first) == exec.core.readGpr (rtField first)) where
  isFused := by rw [decoded]; rfl
  plain := by simp only [execDecoded, beq]; rfl
  fused := by rw [decoded]; rfl

theorem branches_bne (bne : (decode platform.model first).handler = .bne)
    (decoded : decodeInto platform.model first (some 0) =
      { decode platform.model first with handler := .bneNop }) :
    Branches platform exec first
      (exec.core.readGpr (rsField first) != exec.core.readGpr (rtField first)) where
  isFused := by rw [decoded]; rfl
  plain := by simp only [execDecoded, bne]; rfl
  fused := by rw [decoded]; rfl

end

/-! ### Invisibility -/

/-- A word that is not fused runs as in a build without fusion. -/
theorem pair_unfused {R : Type} {platform : Platform R} {exec : Executor R}
    (decoded : decodeInto platform.model first (some next) = decode platform.model first) :
    fusedPair platform exec first next = unfusedPair platform exec first next := by
  unfold fusedPair unfusedPair
  simp only [decoded, decode_isFused, Bool.false_and, Bool.false_eq_true, if_false]

theorem fusionSafe_unfused {core : MipsCore}
    (decoded : decodeInto model first (some next) = decode model first) :
    FusionSafe model busy core first next := by
  have plain := decode_isFused model first
  rw [FusionSafe, decoded]
  revert plain
  cases (decode model first).handler <;> first | exact fun _ => trivial | exact fun h => by cases h

theorem same_of_fusionSafe {R M : Type} {platform : Platform R} {view : MemoryView platform M}
    {exec : Executor R} (aligned : exec.core.pc &&& 3 = 0)
    (answers : AccessAnswers platform exec first next busy)
    (safe : FusionSafe platform.model busy exec.core first next) :
    SameState view (fusedPair platform exec first next) (unfusedPair platform exec first next) := by
  have fused := fuse_fused (decode platform.model first) next
  generalize decoded : fuse (decode platform.model first) next = fusedInstr at fused
  change decodeInto platform.model first (some next) = fusedInstr at decoded
  unfold FusionSafe at safe
  rw [decoded] at safe
  cases fused with
  | none =>
    rw [pair_unfused decoded]
    exact SameState.refl view _
  | jr handler nop | j handler nop =>
    subst nop
    refine pair_jump view exec rfl rfl (by rw [decoded]; rfl) ?_ (by rw [decoded]; rfl)
    simp only [execDecoded, handler]
    rfl
  | jal handler nop =>
    subst nop
    refine @pair_jump _ _ _ view exec _ (exec.link 31) _ rfl rfl (by rw [decoded]; rfl) ?_
      (by rw [decoded]; rfl)
    simp only [execDecoded, handler]
    rfl
  | beq handler nop =>
    subst nop
    apply (branches_beq platform exec handler decoded).same view aligned
    intro notTaken inside
    exact safe inside (beq_eq_false_iff_ne.mp notTaken)
  | bne handler nop =>
    subst nop
    apply (branches_bne platform exec handler decoded).same view aligned
    intro notTaken inside
    exact safe inside (bne_eq_false_iff_eq.mp notTaken)
  | addu handler access =>
    exact (computes_addu platform exec handler access decoded).same view exec answers safe
  | subu handler access =>
    exact (computes_subu platform exec handler access decoded).same view exec answers safe
  | addiu handler access =>
    exact (computes_addiu platform exec handler access decoded).same view exec answers safe
  | luiOri handler sameReg ori =>
    rw [pair_luiOri exec handler sameReg ori decoded]
    exact SameState.refl view _
  | luiAddiu handler sameReg addiu =>
    rw [pair_luiAddiu exec handler sameReg addiu decoded]
    exact SameState.refl view _

theorem fusionSafe_of_same {core : MipsCore} (aligned : core.pc &&& 3 = 0)
    (same : ∀ status, AccessAnswers (failingPlatform model status) ⟨core, ()⟩ first next busy →
      FailAlike model core first next status) :
    FusionSafe model busy core first next := by
  have faulting := same (execException excAdel) (failingPlatform_answers _ (.inl (by decide)))
  have fused := fuse_fused (decode model first) next
  generalize decoded : fuse (decode model first) next = fusedInstr at fused
  change decodeInto model first (some next) = fusedInstr at decoded
  cases fused with
  | none => exact fusionSafe_unfused decoded
  | jr handler nop | j handler nop | jal handler nop | luiOri handler sameReg ori
  | luiAddiu handler sameReg addiu =>
    rw [FusionSafe, decoded]
    trivial
  | beq handler nop =>
    subst nop
    rw [FusionSafe, decoded]
    intro inside different
    exact Branches.safe (branches_beq (failingPlatform model _) ⟨core, ()⟩ handler decoded) _
      aligned faulting (beq_eq_false_iff_ne.mpr different) inside
  | bne handler nop =>
    subst nop
    rw [FusionSafe, decoded]
    intro inside equal
    exact Branches.safe (branches_bne (failingPlatform model _) ⟨core, ()⟩ handler decoded) _
      aligned faulting (bne_eq_false_iff_eq.mpr equal) inside
  | addu handler access | subu handler access | addiu handler access =>
    rw [FusionSafe, decoded]
    intro outside
    refine fusedAccessSafe_of_same (fun _ => ?_) outside same
    first
      | exact computes_addu (failingPlatform model _) ⟨core, ()⟩ handler access decoded
      | exact computes_subu (failingPlatform model _) ⟨core, ()⟩ handler access decoded
      | exact computes_addiu (failingPlatform model _) ⟨core, ()⟩ handler access decoded

/-- Fusing two words cannot be seen on any platform, whatever the access of the second
answers, exactly in the states `FusionSafe` names. -/
theorem fusion_invisible_iff (model : CpuModel) (busy : Bool) (core : MipsCore)
    (first next : BitVec 32) (aligned : core.pc &&& 3 = 0) :
    (∀ (R M : Type) (platform : Platform R) (view : MemoryView platform M) (rest : R),
      platform.model = model → AccessAnswers platform ⟨core, rest⟩ first next busy →
      SameState view (fusedPair platform ⟨core, rest⟩ first next)
        (unfusedPair platform ⟨core, rest⟩ first next)) ↔
      FusionSafe model busy core first next := by
  constructor
  · intro same
    exact fusionSafe_of_same aligned fun status answers =>
      same Unit Unit (failingPlatform model status) (failingView model status) () rfl answers
  · rintro safe R M platform view rest rfl answers
    exact same_of_fusionSafe aligned answers safe

/-- The machine with a bus that is busy at every address. -/
def busyMachine : Platform (Mmu × Unit) :=
  mmuPlatform r4400 (quietPeriphery .r4400)
    { fetch := fun va _ => fails execRetry va
      fetch_fails := fun _ _ _ _ failed => by
        cases failed
        decide
      read := fun _ va _ => fails execRetry va
      write := fun _ va _ _ => fails execRetry va
      write64Masked := fun va _ _ _ => fails execRetry va }

def busyView : MemoryView busyMachine Unit where
  contents := Prod.snd
  clearLlbit := fun _ => rfl
  resync := fun _ _ => rfl

/-- Behind reset, at normal level. -/
def normalLevel : Executor (Mmu × Unit) :=
  ⟨{ new .r4400 0 with cp0Status := 0 }, (new r4400 0).rest, ()⟩

/-- `addu r1,r2,r3; lw r4,8(r1)` with a load no TLB entry maps: it faults before it finds
the bus busy. -/
theorem fusion_invisible_addu_lw :
    normalLevel.core.pc &&& 3 = 0 ∧
    AccessAnswers busyMachine normalLevel 0x00430821 0x8C240008 false ∧
    SameState busyView (fusedPair busyMachine normalLevel 0x00430821 0x8C240008)
      (unfusedPair busyMachine normalLevel 0x00430821 0x8C240008) := by
  have aligned : normalLevel.core.pc &&& 3 = 0 := by decide
  have safe : FusionSafe .r4400 false normalLevel.core 0x00430821 0x8C240008 := by
    intro outside
    exact ⟨by decide, nofun⟩
  have answers : AccessAnswers busyMachine normalLevel 0x00430821 0x8C240008 false := by
    unfold AccessAnswers Answered
    decide +kernel
  exact ⟨aligned, answers, (fusion_invisible_iff .r4400 false _ _ _ aligned).mpr safe _ Unit _
    busyView _ rfl answers⟩

/-- The executor at reset, in a delay slot that leads to `target`. -/
def resetSlot (target : BitVec 64) : MipsCore :=
  { new .r4400 0 with inDelaySlot := true, delaySlotTarget := target }

/-- Three ways to see fusion: a retried load is delivered as an interrupt, an address
computed into register zero is used, and a branch not taken in a delay slot leaves for
the pending target. -/
theorem fusion_visible :
    ((fusedPair (failingPlatform .r4400 execRetry) ⟨new .r4400 0, ()⟩
        0x00430821 0x8C240008).core.pc = 0xFFFFFFFFBFC00380 ∧
      (unfusedPair (failingPlatform .r4400 execRetry) ⟨new .r4400 0, ()⟩
        0x00430821 0x8C240008).core.pc = 0xFFFFFFFFBFC00004) ∧
    ((fusedPair (failingPlatform .r4400 (execException excAdel))
        ⟨(new .r4400 0).writeGpr 2 0x1001, ()⟩ 0x00430021 0x8C040000).core.cp0BadVAddr = 0x1001 ∧
      (unfusedPair (failingPlatform .r4400 (execException excAdel))
        ⟨(new .r4400 0).writeGpr 2 0x1001, ()⟩ 0x00430021 0x8C040000).core.cp0BadVAddr = 0) ∧
    ((fusedPair (failingPlatform .r4400 execRetry) ⟨resetSlot 0xFFFFFFFFBFC01000, ()⟩
        0x14000004 0).core.pc = 0xFFFFFFFFBFC01000 ∧
      (unfusedPair (failingPlatform .r4400 execRetry) ⟨resetSlot 0xFFFFFFFFBFC01000, ()⟩
        0x14000004 0).core.pc = 0xFFFFFFFFBFC00008) := by
  decide +kernel

end Iris.Cpu.Exec
