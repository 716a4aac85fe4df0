import Iris.Cpu.Exec.PageLocal

/-!
Owns the transparency of the translation caches: in every state a guest can
reach, what a micro-TLB or the nano-TLB answers is what full translation would
have answered. Operations either leave everything a translation depends on as it
is, or drop all cached translations.
-/

namespace Iris.Cpu.Exec

open Library Page Tlb Timer BitVec Option Function Executor

/-! ### What a cached translation stands for -/

variable {accessType : AccessType}

/-- Two results are the same to an access. -/
def TranslateResult.Agrees (result result' : TranslateResult) : Prop :=
  result.isException = false ∧ result'.isException = false ∧ result.phys = result'.phys ∧
    result.cacheAttr = result'.cacheAttr

/-- What a micro-TLB answers without asking the translator. -/
def Executor.nutlbAnswer (exec : Executor Mmu) (write : Bool) (va : BitVec 64) :
    Option TranslateResult :=
  if exec.nutlbHit write va then
    some (cachedResult (exec.rest.nutlb write (nutlbIndex va)).phys va)
  else none

/-- What the caches answer to an access. -/
def Executor.cacheAnswer (exec : Executor Mmu) (accessType : AccessType) (va : BitVec 64) :
    Option TranslateResult :=
  match accessType with
  | .read => exec.nutlbAnswer false va
  | .write => exec.nutlbAnswer true va
  | .fetch =>
    if exec.nanotlbHit va then some (cachedResult exec.rest.nanotlb.paEncoded va)
    else none
  | .debug => none

variable {va : BitVec 64} {core core' : MipsCore}

variable {cached result : TranslateResult}

theorem nanotlbTranslate_of_cacheAnswer {exec : Executor Mmu}
    (answered : exec.cacheAnswer accessType va = some cached) :
    exec.nanotlbTranslate machine accessType va = some (exec, cached) := by
  cases accessType with
  | debug => cases answered
  | _ =>
    simp only [cacheAnswer, nutlbAnswer, ite_none_right_eq_some]
      at answered
    simp only [nanotlbTranslate, nutlbTranslate, if_pos answered.1]
    exact congrArg (fun result => some (exec, result)) (some.inj answered.2)

def mode (core : MipsCore) : Bool × PrivilegeMode := (core.is64BitMode, core.getPrivilegeMode)

/-- Full translation gives `cached` for the TLB up to the order of its MRU
lists. -/
def Backed (machine : Machine) (core : MipsCore) (tlb : MipsTlb) (accessType : AccessType)
    (va : BitVec 64) (cached : TranslateResult) : Prop :=
  ∃ tlb', SameButMru tlb tlb' ∧ MruOk tlb' ∧ ∃ result,
    slowResult machine core (mode core) tlb' va accessType = some result ∧ result.Agrees cached

/-- What a translation reads of the core. -/
structure SameRegime (core core' : MipsCore) : Prop where
  status : core'.cp0Status = core.cp0Status
  config : core'.cp0Config = core.cp0Config
  asid : asid core' = asid core

theorem mode_of_status (status : core'.cp0Status = core.cp0Status) : mode core' = mode core := by
  simp only [mode, MipsCore.is64BitMode, MipsCore.getPrivilegeMode, status]

theorem SameRegime.slowResult_eq (same : SameRegime core core') (machine : Machine)
    (translateFn : Bool × PrivilegeMode) (tlb : MipsTlb) (va : BitVec 64)
    (accessType : AccessType) :
    slowResult machine core' translateFn tlb va accessType =
      slowResult machine core translateFn tlb va accessType := by
  simp only [slowResult, route, route32, route64, same.status, same.config, same.asid]

theorem Backed.congr {machine : Machine} {tlb tlb' : MipsTlb} {accessType : AccessType}
    (backed : Backed machine core tlb accessType va cached) (regime : SameRegime core core')
    (sameTlb : SameButMru tlb tlb') : Backed machine core' tlb' accessType va cached := by
  obtain ⟨order, same, mru, result, translated, agrees⟩ := backed
  refine ⟨order, sameTlb.symm.trans same, mru, result, ?_, agrees⟩
  rw [regime.slowResult_eq, mode_of_status regime.status]
  exact translated

/-! ### Encoding -/

private theorem lowWord_and_low (word : BitVec 32) :
    (word &&& 0x7).setWidth 64 = word.setWidth 64 &&& 0x7 := by
  rfl

theorem encode_base (result : TranslateResult) :
    encode result &&& ~~~0xFFF = base result.phys := by
  unfold encode base
  rw [lowWord_and_low, BitVec.and_or_distrib_right, BitVec.and_assoc, BitVec.and_assoc]
  simp

theorem encode_attr (result : TranslateResult) :
    (encode result &&& 0x7).setWidth 32 = result.cacheAttr := by
  unfold encode TranslateResult.cacheAttr
  rw [lowWord_and_low, BitVec.and_or_distrib_right, BitVec.and_assoc, BitVec.and_assoc]
  simp

/-- What is cached for a result is the result, on the whole page. -/
theorem cachedResult_encode (succeeded : result.isException = false) :
    (result.onPage va).Agrees (cachedResult (encode result) va) := by
  have plain : (0x7 : BitVec 32) &&& execIsException = 0 := by decide
  unfold cachedResult TranslateResult.ok
  rw [encode_base, encode_attr]
  refine ⟨succeeded, ?_, rfl, ?_⟩
  · unfold TranslateResult.isException TranslateResult.cacheAttr
    rw [BitVec.and_assoc, plain]
    simp
  · unfold TranslateResult.cacheAttr TranslateResult.onPage
    rw [BitVec.and_assoc, BitVec.and_self]

/-! ### The invariant -/

structure Coherent (machine : Machine) (exec : Executor Mmu) : Prop where
  tlb : ∃ history, WellFormed exec.rest.tlb history
  inSync : exec.rest.translateFn = mode exec.core
  backed : ∀ accessType va cached, exec.cacheAnswer accessType va = some cached →
    Backed machine exec.core exec.rest.tlb accessType va cached

open Coherent

variable {machine : Machine} {exec : Executor Mmu}

theorem Coherent.mru (inv : Coherent machine exec) : MruOk exec.rest.tlb := by
  obtain ⟨_, wellFormed⟩ := inv.tlb
  exact wellFormed.mru

structure Flushed (mmu : Mmu) : Prop where
  nanotlb : mmu.nanotlb.vaTag = 0
  nutlb : ∀ write idx, mmu.nutlbValid write idx = false

theorem nanotlbInvalidate_flushed {mmu : Mmu} : Flushed mmu.nanotlbInvalidate :=
  ⟨rfl, fun _ _ => rfl⟩

theorem Flushed.cacheAnswer_eq (flushed : Flushed exec.rest) (accessType : AccessType)
    (va : BitVec 64) : exec.cacheAnswer accessType va = none := by
  have tagged : (0 : BitVec 64) ≠ (va &&& ~~~0xFFF) ||| 1 := by
    intro zero
    have bit := congrArg (fun word : BitVec 64 => word.getLsbD 0) zero
    simp at bit
  have noSlot : exec.nanotlbHit va = false := by
    unfold nanotlbHit
    rw [flushed.nanotlb]
    exact beq_eq_false_iff_ne.mpr tagged
  have noSet : ∀ write, exec.nutlbHit write va = false := by
    intro write
    unfold nutlbHit
    rw [flushed.nutlb, Bool.and_false]
  cases accessType <;> simp [cacheAnswer, nutlbAnswer, noSlot, noSet]

theorem Coherent.of_flushed (tlb : ∃ history, WellFormed exec.rest.tlb history)
    (inSync : exec.rest.translateFn = mode exec.core) (flushed : Flushed exec.rest) :
    Coherent machine exec where
  tlb := tlb
  inSync := inSync
  backed := by
    intro accessType va cached answered
    rw [flushed.cacheAnswer_eq] at answered
    cases answered

theorem Coherent.withCore (inv : Coherent machine exec) (regime : SameRegime exec.core core) :
    Coherent machine { exec with core := core } where
  tlb := inv.tlb
  inSync := inv.inSync.trans (mode_of_status regime.status).symm
  backed := fun accessType va cached answered =>
    (inv.backed accessType va cached answered).congr regime (SameButMru.refl _)

/-! ### Control flow -/

theorem resync_coherent (tlb : ∃ history, WellFormed exec.rest.tlb history) (cacheErr : BitVec 32) :
    Coherent machine (exec.resyncPrivilegeState (mmuBackend cacheErr)) :=
  of_flushed tlb rfl nanotlbInvalidate_flushed

theorem handleException_coherent (tlb : ∃ history, WellFormed exec.rest.tlb history) :
    Coherent machine (exec.handleException (mmuBackend cacheErr) status).1 := by
  apply resync_coherent
  split <;> exact tlb

theorem Coherent.checkPcAlignment (inv : Coherent machine exec) (cacheErr : BitVec 32) :
    Coherent machine (exec.checkPcAlignment (mmuBackend cacheErr)).1 := by
  unfold Executor.checkPcAlignment
  split
  · apply handleException_coherent
    exact inv.tlb
  · exact inv

theorem Coherent.handleExecComplete (inv : Coherent machine exec) :
    Coherent machine (exec.handleExecComplete (mmuBackend cacheErr)).1 := by
  unfold Executor.handleExecComplete
  split
  · apply checkPcAlignment
    exact inv.withCore ⟨rfl, rfl, rfl⟩
  · exact inv.withCore ⟨rfl, rfl, rfl⟩

theorem execEret_coherent (tlb : ∃ history, WellFormed exec.rest.tlb history) :
    Coherent machine (exec.execEret (mmuBackend cacheErr)).1 := by
  apply Coherent.checkPcAlignment
  apply withCore
  · apply resync_coherent
    exact tlb
  · exact ⟨rfl, rfl, rfl⟩

/-! ### System instructions -/

theorem writeCp0_status (other : reg ≠ 12) :
    (core.writeCp0 moment reg value).cp0Status = core.cp0Status := by
  unfold MipsCore.writeCp0
  split <;> first | contradiction | rfl

theorem writeCp0_regime (core : MipsCore) (moment : Moment) (notEntryHi : reg ≠ 10)
    (notStatus : reg ≠ 12) (notConfig : reg ≠ 16) (value : BitVec 64) :
    SameRegime core (core.writeCp0 moment reg value) := by
  unfold MipsCore.writeCp0
  split <;> first | contradiction | exact ⟨rfl, rfl, rfl⟩

section
variable (inv : Coherent machine exec)
include inv

/-- A move to Status re-derives, one to EntryHi or Config flushes, and no other
register matters. -/
theorem Coherent.moveToCp0 :
    Coherent machine ((exec.writeCp0 moment reg value).handleCp0SideEffects machine reg) := by
  by_cases status : reg = 12
  · subst status
    exact @resync_coherent machine { exec with core := exec.core.writeCp0 moment 12 value }
      inv.tlb 0
  have numbered : ∀ n : BitVec 5, reg ≠ n → reg.toNat ≠ n.toNat := fun n apart equal =>
    apart (eq_of_toNat_eq equal)
  unfold writeCp0
  simp only [if_neg status]
  unfold handleCp0SideEffects
  by_cases flushes : reg = 10 ∨ reg = 16
  · have notLLAddr : reg ≠ 17 := by
      rcases flushes with rfl | rfl <;> decide
    simp only [if_pos flushes, if_neg notLLAddr]
    refine of_flushed inv.tlb ?_ nanotlbInvalidate_flushed
    exact inv.inSync.trans
      (mode_of_status (writeCp0_status (numbered 12 status))).symm
  · have regime := writeCp0_regime exec.core moment (numbered 10 fun same => flushes (.inl same))
      (numbered 12 status) (numbered 16 fun same => flushes (.inr same)) value
    split
    · exact (inv.withCore regime).withCore ⟨rfl, rfl, rfl⟩
    · exact inv.withCore regime

theorem Coherent.tlbr : Coherent machine exec.tlbr := by
  unfold Executor.tlbr
  dsimp only
  split
  · exact inv
  · exact of_flushed inv.tlb inv.inSync nanotlbInvalidate_flushed

theorem Coherent.writeTlb :
    Coherent machine (exec.writeTlb index) := by
  obtain ⟨history, wellFormed⟩ := inv.tlb
  obtain ⟨next, stepped, _, written⟩ :=
    wellFormed.step (.write index (createTlbEntryFromCp0 exec.core))
  cases stepped
  exact of_flushed ⟨_, written⟩ inv.inSync nanotlbInvalidate_flushed

end

theorem updateRandom_regime {core : MipsCore} (cycles : BitVec 64) :
    SameRegime core (core.updateRandom cycles) := by
  unfold MipsCore.updateRandom
  dsimp only
  split_ifs <;> exact ⟨rfl, rfl, rfl⟩

/-! ### Accesses -/

theorem updateTlbExceptionRegisters_regime {virtAddr : BitVec 64} :
    SameRegime core (updateTlbExceptionRegisters machine virtAddr core) := by
  refine ⟨rfl, rfl, ?_⟩
  unfold asid updateTlbExceptionRegisters
  rw [BitVec.and_or_distrib_right, BitVec.and_assoc, BitVec.and_assoc]
  simp

/-- What full translation leaves: the result of `slowResult`, the translation
caches untouched, and at most the MRU order and the exception registers changed. -/
structure Translated (machine : Machine) (exec exec' : Executor Mmu)
    (translateFn : Bool × PrivilegeMode) (va : BitVec 64) (accessType : AccessType)
    (result : TranslateResult) : Prop where
  regime : SameRegime exec.core exec'.core
  sameTlb : SameButMru exec.rest.tlb exec'.rest.tlb
  mru : MruOk exec'.rest.tlb
  caches : exec'.rest = { exec.rest with tlb := exec'.rest.tlb }
  result : slowResult machine exec.core translateFn exec.rest.tlb va accessType = some result

section
variable (mru : MruOk exec.rest.tlb) (debug : Bool) (translateFn : Bool × PrivilegeMode)
  (va : BitVec 64) (accessType : AccessType)
include mru

theorem translateWith_translated :
    ∃ exec' result,
      exec.translateWith machine debug translateFn va accessType = some (exec', result) ∧
      Translated machine exec exec' translateFn va accessType result := by
  have answer := @translateWith_result machine debug exec translateFn va accessType
  unfold translateWith at answer ⊢
  cases way : route machine exec.core translateFn va with
  | unmapped phys attr =>
    rw [way] at answer
    exact ⟨_, _, rfl, ⟨rfl, rfl, rfl⟩, SameButMru.refl _, mru, rfl, answer.symm⟩
  | addressError =>
    rw [way] at answer
    refine ⟨_, _, rfl, ?_, SameButMru.refl _, mru, rfl, answer.symm⟩
    cases debug <;> exact ⟨rfl, rfl, rfl⟩
  | mapped xtlb =>
    obtain ⟨next, found, looked, same, mru'⟩ :=
      translate_returns mru xtlb va (asid exec.core) accessType
    rw [way] at answer
    simp only [looked] at answer ⊢
    refine ⟨_, _, rfl, ?_, same, mru', rfl, answer.symm⟩
    split
    · exact updateTlbExceptionRegisters_regime
    · exact ⟨rfl, rfl, rfl⟩

end

section
variable (inv : Coherent machine exec)
include inv

theorem Coherent.translated
    (translated : Translated machine exec exec' translateFn va accessType result) :
    Coherent machine exec' := by
  obtain ⟨history, wellFormed⟩ := inv.tlb
  obtain ⟨regime, sameTlb, mru, caches, _⟩ := translated
  refine ⟨⟨history, wellFormed.of_sameButMru sameTlb mru⟩, ?_, ?_⟩
  · rw [caches, mode_of_status regime.status]
    exact inv.inSync
  · intro other va' cached answered
    refine (inv.backed other va' cached ?_).congr regime sameTlb
    rw [← answered]
    unfold cacheAnswer nutlbAnswer nutlbHit nanotlbHit
    rw [caches]

/-- The page of a successful translation, as it would be cached. -/
theorem Translated.backed
    (translated : Translated machine exec exec' exec.rest.translateFn va accessType result)
    (succeeded : result.isException = false) (same : SamePage va va') :
    Backed machine exec'.core exec'.rest.tlb accessType va'
      (cachedResult (encode result) va') := by
  obtain ⟨history, wellFormed⟩ := inv.tlb
  have onPage := slowResult_onPage machine exec.core wellFormed same translated.result succeeded
  rw [inv.inSync] at onPage
  refine Backed.congr ?_ translated.regime translated.sameTlb
  exact ⟨exec.rest.tlb, SameButMru.refl _, wellFormed.mru, _, onPage, cachedResult_encode succeeded⟩

theorem Coherent.fill (sameCore : filled.core = exec.core)
    (sameTlb : filled.rest.tlb = exec.rest.tlb)
    (sameFn : filled.rest.translateFn = exec.rest.translateFn)
    (page : ∀ va', SamePage va va' → Backed machine exec.core exec.rest.tlb accessType va'
      (cachedResult encoded va'))
    (answers : ∀ other va' cached, filled.cacheAnswer other va' = some cached →
      exec.cacheAnswer other va' = some cached ∨
        other = accessType ∧ SamePage va va' ∧ cached = cachedResult encoded va') :
    Coherent machine filled := by
  refine ⟨by rw [sameTlb]; exact inv.tlb, by rw [sameFn, sameCore]; exact inv.inSync, ?_⟩
  intro other va' cached answered
  rw [sameCore, sameTlb]
  rcases answers other va' cached answered with before | ⟨rfl, same, rfl⟩
  · exact inv.backed other va' cached before
  · exact page va' same

end

theorem nutlbFill_rest {va : BitVec 64} :
    exec.nutlbFill write va result = exec ∨ exec.nutlbFill write va result =
      { exec with rest := { exec.rest with
          nutlb := update exec.rest.nutlb write (update (exec.rest.nutlb write)
            (nutlbIndex va) ⟨va &&& ~~~0xFFF, encode result⟩)
          nutlbValid := update exec.rest.nutlbValid write
            (update (exec.rest.nutlbValid write) (nutlbIndex va) true) } } := by
  unfold nutlbFill
  split
  · exact .inl rfl
  · split
    · exact .inl rfl
    · exact .inr rfl

/-- A fill adds the page of `va` to its own side and leaves everything else. -/
theorem nutlbFill_nutlbAnswer
    (answered : (exec.nutlbFill write va result).nutlbAnswer side va' = some cached) :
    exec.nutlbAnswer side va' = some cached ∨ side = write ∧ SamePage va va' ∧
      cached = cachedResult (encode result) va' := by
  rcases nutlbFill_rest with unfilled | filled
  · rw [unfilled] at answered
    exact .inl answered
  rw [filled] at answered
  by_cases sameSide : side = write
  · subst sameSide
    by_cases sameSet : nutlbIndex va' = nutlbIndex va
    · simp only [nutlbAnswer, nutlbHit, update_self, sameSet,
        ite_none_right_eq_some, Bool.and_true, beq_iff_eq] at answered
      exact .inr ⟨rfl, answered.1, (some.inj answered.2).symm⟩
    · simp only [nutlbAnswer, nutlbHit, update_self, update_of_ne sameSet] at answered
      exact .inl answered
  · simp only [nutlbAnswer, nutlbHit, update_of_ne sameSide] at answered
    exact .inl answered

theorem nutlbFill_answers (other : AccessType) (va' : BitVec 64) (cached : TranslateResult)
    (answered : (exec.nutlbFill write va result).cacheAnswer other va' = some cached) :
    exec.cacheAnswer other va' = some cached ∨
      other = (if write then .write else .read) ∧ SamePage va va' ∧
        cached = cachedResult (encode result) va' := by
  cases other with
  | debug => cases answered
  | read | write =>
    rcases nutlbFill_nutlbAnswer answered with before | ⟨rfl, added⟩
    · exact .inl before
    · exact .inr ⟨rfl, added⟩
  | fetch =>
    left
    rcases nutlbFill_rest with unfilled | filled
    · rwa [unfilled] at answered
    · rwa [filled] at answered

section
variable (inv : Coherent machine exec)
include inv

theorem Coherent.nutlbTranslate :
    ∃ exec' result, exec.nutlbTranslate machine write va = some (exec', result) ∧
      Coherent machine exec' := by
  unfold Executor.nutlbTranslate
  split
  · exact ⟨_, _, rfl, inv⟩
  obtain ⟨next, result, returned, translated⟩ := translateWith_translated inv.mru false
    exec.rest.translateFn va (if write then .write else .read)
  rw [returned]
  refine ⟨_, _, rfl, ?_⟩
  have settled := inv.translated translated
  cases raised : result.isException with
  | true => exact settled
  | false =>
    have frame : (next.nutlbFill write va result).core = next.core ∧
        (next.nutlbFill write va result).rest.tlb = next.rest.tlb ∧
        (next.nutlbFill write va result).rest.translateFn = next.rest.translateFn := by
      rcases nutlbFill_rest with unfilled | filled
      · rw [unfilled]
        exact ⟨rfl, rfl, rfl⟩
      · rw [filled]
        exact ⟨rfl, rfl, rfl⟩
    exact settled.fill frame.1 frame.2.1 frame.2.2
      (fun va' same => translated.backed inv raised same)
      nutlbFill_answers

/-- A fetch fills the nano-TLB slot, also at error level. -/
theorem Coherent.nanotlbFetch :
    ∃ exec' result, exec.nanotlbTranslate machine .fetch va = some (exec', result) ∧
      Coherent machine exec' := by
  unfold nanotlbTranslate
  dsimp only
  split
  · exact ⟨_, _, rfl, inv⟩
  obtain ⟨next, result, returned, translated⟩ :=
    translateWith_translated inv.mru false exec.rest.translateFn va .fetch
  rw [returned]
  refine ⟨_, _, rfl, ?_⟩
  have settled := inv.translated translated
  cases raised : result.isException with
  | true => exact settled
  | false =>
    refine settled.fill rfl rfl rfl (fun va' same => translated.backed inv raised same) ?_
    intro other va' cached answered
    cases other with
    | fetch =>
      right
      simp only [cacheAnswer, nanotlbHit, ite_none_right_eq_some, beq_iff_eq] at answered
      have samePage : SamePage va va' := samePage_of_tag (by decide) answered.1
      exact ⟨rfl, samePage, (some.inj answered.2).symm⟩
    | _ => exact .inl answered

theorem Coherent.guestAccess (cached : accessType ≠ .debug) :
    ∃ exec', guestAccess machine exec accessType va = some exec' ∧ Coherent machine exec' := by
  obtain ⟨next, result, returned, settled⟩ : ∃ next result,
      exec.nanotlbTranslate machine accessType va = some (next, result) ∧
        Coherent machine next := by
    cases accessType with
    | fetch => exact inv.nanotlbFetch
    | read | write => exact inv.nutlbTranslate
    | debug => exact absurd rfl cached
  unfold Exec.guestAccess
  rw [returned]
  refine ⟨_, rfl, ?_⟩
  dsimp only
  split
  · exact handleException_coherent settled.tlb
  · exact settled

end

/-! ### Whole runs -/

theorem new_coherent : Coherent machine (new machine now) := by
  have tlb := (new_wellFormed machine.model.geometry).setCacheAttrs (cacheAttrTable machine.model)
  exact of_flushed ⟨_, tlb⟩ rfl ⟨rfl, fun _ _ => rfl⟩

theorem Coherent.step (inv : Coherent machine exec) (op : GuestOp) :
    ∃ exec', guestStep machine exec op = some exec' ∧ Coherent machine exec' := by
  cases op with
  | load va | store va | fetch va => exact inv.guestAccess AccessType.noConfusion
  | debugTranslate va =>
    obtain ⟨next, result, returned, translated⟩ := translateWith_translated inv.mru true
      (exec.core.is64BitMode, .kernel) va .debug
    refine ⟨next, ?_, inv.translated translated⟩
    simp only [guestStep, translateImpl, if_true, returned, map_some]
  | compute gpr =>
    have computed : SameRegime exec.core { exec.core with gpr := gpr } :=
      ⟨rfl, rfl, rfl⟩
    exact ⟨_, rfl, (inv.withCore computed).handleExecComplete⟩
  | mtc0 moment rt rd | dmtc0 moment rt rd => exact ⟨_, rfl, (inv.moveToCp0).handleExecComplete⟩
  | tlbr => exact ⟨_, rfl, (inv.tlbr).handleExecComplete⟩
  | tlbwi =>
    refine ⟨_, rfl, handleExecComplete ?_⟩
    unfold tlbwi
    dsimp only
    split
    · exact inv
    · exact inv.writeTlb
  | tlbwr moment =>
    have counted := inv.withCore (updateRandom_regime moment.cycles)
    exact ⟨_, rfl, (counted.writeTlb).handleExecComplete⟩
  | tlbp =>
    refine ⟨_, rfl, ?_⟩
    apply handleExecComplete
    exact inv.withCore ⟨rfl, rfl, rfl⟩
  | exception status cacheErr =>
    exact ⟨_, rfl, handleException_coherent inv.tlb⟩
  | eret => exact ⟨_, rfl, execEret_coherent inv.tlb⟩
  | softReset =>
    refine ⟨_, rfl, ?_⟩
    apply resync_coherent
    exact inv.tlb

theorem Coherent.run {machine : Machine} (now : Nat) {ops : List GuestOp} :
    ∃ exec, guestRun machine (new machine now) ops = some exec ∧ Coherent machine exec :=
  Run.foldlM_holds (fun _ op inv => inv.step op) new_coherent

/-! ### Transparency -/

/-- The segment of `va` is unmapped, or at most one TLB slot matches `va` under
the current ASID. -/
def Unambiguous (machine : Machine) (exec : Executor Mmu) (va : BitVec 64) : Prop :=
  ∀ xtlb, route machine exec.core (mode exec.core) va = .mapped xtlb →
    MatchedOnce exec.rest.tlb xtlb va (asid exec.core)

theorem Unambiguous.slowResult_eq (clear : Unambiguous machine exec va)
    (wellFormed : WellFormed exec.rest.tlb history) (same : SameButMru exec.rest.tlb order)
    (mru : MruOk order) (accessType : AccessType) :
    slowResult machine exec.core (mode exec.core) exec.rest.tlb va accessType =
      slowResult machine exec.core (mode exec.core) order va accessType := by
  unfold slowResult
  cases way : route machine exec.core (mode exec.core) va with
  | unmapped phys attr | addressError => rfl
  | mapped xtlb =>
    have orderless := congrArg (Option.map (tlbOutcome machine xtlb accessType))
      (wellFormed.translate_orderless accessType same mru (clear xtlb way))
    rw [map_map, map_map] at orderless
    exact orderless

/-- After any guest operations, what a translation cache answers is what full
translation returns for some order of the MRU lists, and where at most one TLB
slot matches it is what full translation returns now. -/
theorem cached_translation_exact (machine : Machine) (now : Nat) (ops : List GuestOp) :
    ∃ exec, guestRun machine (new machine now) ops = some exec ∧
      ∀ accessType va cached, exec.cacheAnswer accessType va = some cached →
        exec.nanotlbTranslate machine accessType va = some (exec, cached) ∧
        Backed machine exec.core exec.rest.tlb accessType va cached ∧
        (Unambiguous machine exec va → ∃ exec' result,
          exec.translateImpl machine false va accessType = some (exec', result) ∧
            result.Agrees cached) := by
  obtain ⟨exec, ran, inv⟩ := run now
  refine ⟨exec, ran, ?_⟩
  intro accessType va cached answered
  have backed := inv.backed accessType va cached answered
  refine ⟨nanotlbTranslate_of_cacheAnswer answered, backed, ?_⟩
  intro clear
  obtain ⟨history, wellFormed⟩ := inv.tlb
  obtain ⟨order, same, mru, result, translated, agrees⟩ := backed
  obtain ⟨exec', result', returned, slow⟩ := @translateWith_translated machine exec
    wellFormed.mru false (mode exec.core) va accessType
  have equal : some result' = some result := by
    rw [← slow.result, clear.slowResult_eq wellFormed same mru, translated]
  refine ⟨exec', result', returned, ?_⟩
  rw [some.inj equal]
  exact agrees

/-! ### Concrete runs -/

def r4400 : Machine where
  model := .r4400
  board := .mc

/-- Load register `1 + i` with the value listed at `i` and move it to the CP0 register
listed there. -/
def setCp0 (moves : List (BitVec 5 × BitVec 64)) : List GuestOp :=
  .compute ⟨fun reg => (((0, 0) :: moves).getD reg.toNat (0, 0)).2, rfl⟩ ::
    (List.range moves.length).map fun i =>
      .mtc0 ⟨0, 0⟩ (BitVec.ofNat 5 (i + 1)) (moves.getD i (0, 0)).1

/-- Write a TLB slot through Index, EntryHi, PageMask and the EntryLo words. -/
def installEntry (index entryHi pageMask entryLo : BitVec 64) : List GuestOp :=
  setCp0 [(0, index), (10, entryHi), (5, pageMask), (2, entryLo), (3, entryLo)] ++ [.tlbwi]

/-- A 4 KiB page of ASID 1; then a load from it and one from kseg0. -/
def onePage : List GuestOp :=
  setCp0 [(12, 0)] ++ installEntry 0 0x10001 0 0x401E ++ [.load 0x10000, .load 0xFFFFFFFF80001234]

instance : Decidable (Unambiguous machine exec va) := by
  unfold Unambiguous MatchedOnce
  infer_instance

/-- Other addresses of the mapped page and of the kseg0 page. -/
theorem cached_translation_exact_onePage :
    ∃ exec, guestRun r4400 (new r4400 0) onePage = some exec ∧
      ∀ page ∈ [(0x10ABC, 0x100ABC), (0xFFFFFFFF80001ABC, 0x1ABC)],
        Unambiguous r4400 exec page.1 ∧ ∃ cached exec' result,
          exec.cacheAnswer .read page.1 = some cached ∧ cached.phys = page.2 ∧
          exec.translateImpl r4400 false page.1 .read = some (exec', result) ∧
          result.Agrees cached := by
  obtain ⟨exec, ran, transparent⟩ := cached_translation_exact r4400 0 onePage
  refine ⟨exec, ran, ?_⟩
  intro page member
  have hits : (guestRun r4400 (new r4400 0) onePage).all (fun exec =>
      [(0x10ABC, 0x100ABC), (0xFFFFFFFF80001ABC, 0x1ABC)].all fun page =>
        decide (Unambiguous r4400 exec page.1 ∧
          (exec.cacheAnswer .read page.1).map (·.phys) = some page.2)) = true := by
    decide +kernel
  rw [ran, all_some, List.all_eq_true] at hits
  obtain ⟨clear, hit⟩ := of_decide_eq_true (hits page member)
  obtain ⟨cached, answered, same⟩ := map_eq_some_iff.mp hit
  obtain ⟨_, _, now⟩ := transparent .read page.1 cached answered
  obtain ⟨exec', result, translated, agrees⟩ := now clear
  exact ⟨clear, cached, exec', result, answered, same, translated, agrees⟩

/-- A 4 KiB and a 16 KiB entry that overlap for ASID 1, under a 16 KiB entry of
ASID 2 written last; then a load both serve, and one only the larger serves. -/
def overlapping : List GuestOp :=
  setCp0 [(12, 0)] ++ installEntry 0 0x10001 0 0x401E ++ installEntry 1 0x10001 0x6000 0x801E ++
    installEntry 2 0x10002 0x6000 0xC01E ++ setCp0 [(10, 0x10001)] ++ [.load 0x10000, .load 0x14000]

/-- The second load puts the larger entry in front of its MRU list: full
translation now answers from it, the micro-TLB still from the smaller one. -/
theorem overlapping_entries_diverge :
    ∃ exec cached exec' result,
      guestRun r4400 (new r4400 0) overlapping = some exec ∧
      exec.cacheAnswer .read 0x10000 = some cached ∧
      exec.translateImpl r4400 false 0x10000 .read = some (exec', result) ∧
      cached.phys = 0x100000 ∧ result.phys = 0x200000 := by
  have hit : (guestRun r4400 (new r4400 0) overlapping).bind
      (fun exec => exec.cacheAnswer .read 0x10000) = some ⟨0x100000, 3⟩ := by
    decide +kernel
  have slow : (guestRun r4400 (new r4400 0) overlapping).bind
      (fun exec => (exec.translateImpl r4400 false 0x10000 .read).map Prod.snd) =
        some ⟨0x200000, 0xB⟩ := by
    decide +kernel
  obtain ⟨exec, ran, _⟩ := run 0
  rw [ran] at hit slow
  obtain ⟨⟨exec', result⟩, translated, rfl⟩ := map_eq_some_iff.mp slow
  exact ⟨exec, _, exec', _, ran, hit, translated, rfl, rfl⟩

end Iris.Cpu.Exec
