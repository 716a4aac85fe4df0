import Iris.Cpu.Exec.MicroTlb
import Iris.Cpu.Exec.Stale

/-!
Owns the platform of the modelled machine: its accesses go through the executor's own
translation caches and TLB to whatever answers at a physical address. The memory there and
the periphery are parameters. Breakpoints on data, which a `lightning` build lacks, are not
modelled.
-/

namespace Iris.Cpu.Exec

open Tlb Timer Option

variable {R S B α β : Type} {machine : Machine} {va : BitVec 64} {accessType : AccessType}

/-! ### Accesses from accesses -/

namespace Access

/-- An access to a part of what lies behind the core. -/
def through (get : R → S) (set : S → R → R) (access : Access S α) : Access R α where
  run := fun exec =>
    let ran := access.run ⟨exec.core, get exec.rest⟩
    (⟨ran.1.core, set ran.1.rest exec.rest⟩, ran.2)
  untouched := fun exec => access.untouched ⟨exec.core, get exec.rest⟩
  run_retarget := fun exec target => by
    rw [show (⟨(exec.retarget target).core, get (exec.retarget target).rest⟩ : Executor S) =
      Executor.retarget ⟨exec.core, get exec.rest⟩ target from rfl, access.run_retarget]
    rfl

/-- An access and, where it succeeds, the one its answer names. -/
def andThen (access : Access R α) (next : α → Access R β) : Access R β where
  run := fun exec =>
    match access.run exec with
    | (exec, .ok answer) => (next answer).run exec
    | (exec, .error status) => (exec, .error status)
  untouched := fun exec => by
    have first := access.untouched exec
    generalize access.run exec = ran at first ⊢
    rcases ran with ⟨after, status | answer⟩
    · exact first
    · exact first.trans ((next answer).untouched after)
  run_retarget := fun exec target => by
    rw [access.run_retarget]
    rcases access.run exec with ⟨after, status | answer⟩
    · rfl
    · exact (next answer).run_retarget after target

theorem andThen_ok {access : Access R α} {next : α → Access R β}
    (ran : (access.andThen next).run exec = (after, .ok answer)) :
    ∃ mid value, access.run exec = (mid, .ok value) ∧
      (next value).run mid = (after, .ok answer) := by
  simp only [andThen] at ran
  rcases first : access.run exec with ⟨mid, refusal | value⟩ <;> rw [first] at ran
  · cases ran
  · exact ⟨mid, value, rfl, ran⟩

theorem andThen_error {access : Access R α} {next : α → Access R β}
    (failed : ((access.andThen next).run exec).2 = .error status) :
    (access.run exec).2 = .error status ∨ ∃ after answer, access.run exec = (after, .ok answer) ∧
      ((next answer).run after).2 = .error status := by
  simp only [andThen] at failed
  rcases ran : access.run exec with ⟨after, refusal | answer⟩ <;> rw [ran] at failed
  · cases failed
    exact .inl rfl
  · exact .inr ⟨after, answer, rfl, failed⟩

end Access

/-! ### Translation as an access -/

/-- What a translation may leave in the core: nothing, or the address it refused. -/
inductive Reports (machine : Machine) (va : BitVec 64) (core : MipsCore) : MipsCore → Prop
  | nothing : Reports machine va core core
  | addressError : Reports machine va core { core with cp0BadVAddr := va }
  | tlbException : Reports machine va core (updateTlbExceptionRegisters machine va core)

theorem Reports.untouched {core core' : MipsCore} (reports : Reports machine va core core') :
    Untouched core core' := by
  cases reports <;> exact ⟨⟨⟨rfl, rfl, rfl, rfl, rfl, rfl, rfl⟩, rfl⟩, rfl⟩

namespace Executor

theorem translateWith_reports {exec exec' : Executor Mmu} {debug : Bool}
    (returned : exec.translateWith machine debug translateFn va accessType = some (exec', result)) :
    Reports machine va exec.core exec'.core := by
  unfold translateWith at returned
  split at returned
  · cases returned
    exact .nothing
  · cases returned
    cases debug
    · exact .addressError
    · exact .nothing
  · obtain ⟨found, -, same⟩ := map_eq_some_iff.mp returned
    cases same
    dsimp only
    split
    · exact .tlbException
    · exact .nothing

theorem nutlbFill_core {exec : Executor Mmu} : (exec.nutlbFill write va result).core = exec.core := by
  unfold nutlbFill
  split_ifs <;> rfl

theorem nanotlbTranslate_reports {exec exec' : Executor Mmu}
    (returned : exec.nanotlbTranslate machine accessType va = some (exec', result)) :
    Reports machine va exec.core exec'.core := by
  cases accessType with
  | debug => cases returned
  | fetch =>
    simp only [nanotlbTranslate] at returned
    split at returned
    · cases returned
      exact .nothing
    · obtain ⟨⟨after, found⟩, ran, same⟩ := map_eq_some_iff.mp returned
      cases same
      have reports := translateWith_reports ran
      dsimp only
      split <;> exact reports
  | read | write =>
    simp only [nanotlbTranslate, nutlbTranslate] at returned
    split at returned
    · cases returned
      exact .nothing
    · obtain ⟨⟨after, found⟩, ran, same⟩ := map_eq_some_iff.mp returned
      cases same
      have reports := translateWith_reports ran
      dsimp only
      split
      · exact reports
      · rwa [nutlbFill_core]

variable (exec : Executor Mmu) (target : BitVec 64)

theorem translateWith_retarget (debug : Bool) (translateFn : Bool × PrivilegeMode) :
    (exec.retarget target).translateWith machine debug translateFn va accessType =
      (exec.translateWith machine debug translateFn va accessType).map
        fun ran => (ran.1.retarget target, ran.2) := by
  unfold translateWith
  rw [show route machine (exec.retarget target).core translateFn va =
    route machine exec.core translateFn va from rfl]
  cases route machine exec.core translateFn va with
  | unmapped => rfl
  | addressError => cases debug <;> rfl
  | mapped xtlb =>
    rw [map_map]
    refine congrArg (Option.map · _) (funext fun found => ?_)
    dsimp only [Function.comp]
    split <;> rfl

theorem nutlbFill_retarget :
    (exec.retarget target).nutlbFill write va result =
      (exec.nutlbFill write va result).retarget target := by
  unfold nutlbFill
  rw [show (exec.retarget target).core.cp0Status = exec.core.cp0Status from rfl,
    show (exec.retarget target).core.is64BitMode = exec.core.is64BitMode from rfl]
  split_ifs <;> rfl

theorem nanotlbTranslate_retarget :
    (exec.retarget target).nanotlbTranslate machine accessType va =
      (exec.nanotlbTranslate machine accessType va).map
        fun ran => (ran.1.retarget target, ran.2) := by
  cases accessType with
  | debug => rfl
  | fetch =>
    simp only [nanotlbTranslate]
    rw [show (exec.retarget target).nanotlbHit va = exec.nanotlbHit va from rfl]
    split
    · rfl
    · rw [translateWith_retarget, map_map, map_map]
      refine congrArg (Option.map · _) (funext fun ran => ?_)
      dsimp only [Function.comp]
      split <;> rfl
  | read | write =>
    simp only [nanotlbTranslate, nutlbTranslate]
    rw [show (exec.retarget target).nutlbHit _ va = exec.nutlbHit _ va from rfl]
    split
    · rfl
    · rw [translateWith_retarget, map_map, map_map]
      refine congrArg (Option.map · _) (funext fun ran => ?_)
      dsimp only [Function.comp]
      split
      · rfl
      · rw [nutlbFill_retarget]

end Executor

/-- The list a TLB search walks never loops (`translated_run`), so the exception stands for
nothing. -/
def translation (machine : Machine) (accessType : AccessType) (va : BitVec 64) :
    Access Mmu TranslateResult where
  run := fun exec =>
    match exec.nanotlbTranslate machine accessType va with
    | some (exec, result) => (exec, if result.isException then .error result.status else .ok result)
    | none => (exec, .error (execException excAdel))
  untouched := fun exec => by
    split
    next returned => exact (Executor.nanotlbTranslate_reports returned).untouched
    · exact .refl _
  run_retarget := fun exec target => by
    rw [Executor.nanotlbTranslate_retarget]
    cases exec.nanotlbTranslate machine accessType va <;> rfl

/-! ### The TLB instructions -/

/-- An update that cannot fail. -/
def Access.update (change : Executor R → Executor R)
    (untouched : ∀ exec, Untouched exec.core (change exec).core)
    (retargets : ∀ exec target, change (exec.retarget target) = (change exec).retarget target) :
    Access R Unit where
  run := fun exec => (change exec, .ok ())
  untouched := untouched
  run_retarget := fun exec target => by rw [retargets]

def tlbrAccess : Access Mmu Unit :=
  .update Executor.tlbr
    (fun exec => by
      unfold Executor.tlbr
      dsimp only
      split <;> exact ⟨⟨⟨rfl, rfl, rfl, rfl, rfl, rfl, rfl⟩, rfl⟩, rfl⟩)
    (fun exec target => by
      unfold Executor.tlbr Executor.retarget
      dsimp only [Executor.tlbIndex]
      split <;> rfl)

def tlbwiAccess : Access Mmu Unit :=
  .update Executor.tlbwi
    (fun exec => by
      unfold Executor.tlbwi
      dsimp only
      split <;> exact ⟨⟨⟨rfl, rfl, rfl, rfl, rfl, rfl, rfl⟩, rfl⟩, rfl⟩)
    (fun exec target => by
      unfold Executor.tlbwi Executor.retarget
      dsimp only [Executor.tlbIndex]
      split <;> rfl)

def tlbwrAccess (moment : Moment) : Access Mmu Unit :=
  .update (Executor.tlbwr · moment)
    (fun exec => by
      unfold Executor.tlbwr MipsCore.updateRandom
      dsimp only
      split_ifs <;> exact ⟨⟨⟨rfl, rfl, rfl, rfl, rfl, rfl, rfl⟩, rfl⟩, rfl⟩)
    (fun exec target => by
      have counted := congrArg Prod.fst (@readCp0_retarget exec.core target moment 1)
      unfold Executor.tlbwr
      rw [show (exec.retarget target).core.updateRandom moment.cycles = _ from counted]
      rfl)

def tlbpAccess : Access Mmu Unit :=
  .update Executor.tlbp (fun _ => ⟨⟨⟨rfl, rfl, rfl, rfl, rfl, rfl, rfl⟩, rfl⟩, rfl⟩) fun _ _ => rfl

/-! ### The platform -/

/-- What answers behind translation, at a virtual address and its physical one with the cache
attribute. -/
structure Memory (B : Type) where
  fetch : BitVec 64 → TranslateResult → Access B (BitVec 32)
  fetch_fails : ∀ va result exec status,
    ((fetch va result).run exec).2 = .error status → status ≠ execComplete
  read : AccessSize → BitVec 64 → TranslateResult → Access B (BitVec 64)
  write : AccessSize → BitVec 64 → TranslateResult → BitVec 64 → Access B Unit
  write64Masked : BitVec 64 → TranslateResult → BitVec 64 → BitVec 64 → Access B Unit

def Access.onMmu (access : Access Mmu α) : Access (Mmu × B) α :=
  access.through Prod.fst fun mmu rest => (mmu, rest.2)

def Access.onBus (access : Access B α) : Access (Mmu × B) α :=
  access.through Prod.snd fun bus rest => (rest.1, bus)

def AccessSize.alignMask : AccessSize → BitVec 64
  | .byte => 0
  | .half => 1
  | .word => 3
  | .dword => 7

/-- Translation, then the memory. -/
def translated (machine : Machine) (accessType : AccessType) (va : BitVec 64)
    (next : TranslateResult → Access B α) : Access (Mmu × B) α :=
  (translation machine accessType va).onMmu.andThen fun result => (next result).onBus

def aligned (accessType : AccessType) (va alignMask : BitVec 64) (access : Access R α) :
    Access R α :=
  if va &&& alignMask ≠ 0 then .fails (execException (addressErrorCode accessType)) va else access

theorem translation_raises : (translation machine accessType va).Raises := by
  intro exec status failed
  simp only [translation] at failed
  split at failed
  · dsimp only at failed
    split at failed
    next raised =>
      cases failed
      exact raised
    · cases failed
  · cases failed
    decide

theorem isException_ne_complete (raised : isException status = true) : status ≠ execComplete := by
  rintro rfl
  cases raised

def mmuPlatform (machine : Machine) (periphery : Periphery B) (memory : Memory B) :
    Platform (Mmu × B) where
  clearLlbit := fun rest => (rest.1, periphery.clearLlbit rest.2)
  takeCacheErr := fun rest =>
    let (cacheErr, bus) := periphery.takeCacheErr rest.2
    (cacheErr, rest.1, bus)
  resyncPrivilegeState := fun core rest =>
    ((mmuBackend 0).resyncPrivilegeState core rest.1, periphery.resyncPrivilegeState core rest.2)
  resync_retarget := fun core target rest => by
    rw [periphery.resync_retarget]
    rfl
  model := machine.model
  stepCycles := fun rest => (rest.1, periphery.stepCycles rest.2)
  moment := fun rest => periphery.moment rest.2
  interrupts := fun rest => periphery.interrupts rest.2
  clearInterrupts := fun rest => (rest.1, periphery.clearInterrupts rest.2)
  pcBreakpoint := fun exec => periphery.pcBreakpoint ⟨exec.core, exec.rest.2⟩
  pcBreakpoint_retarget := fun exec => periphery.pcBreakpoint_retarget ⟨exec.core, exec.rest.2⟩
  getLlbit := fun rest => periphery.getLlbit rest.2
  getLlbit_clearLlbit := fun rest => periphery.getLlbit_clearLlbit rest.2
  getLlbit_resync := fun core rest => periphery.getLlbit_resync core rest.2
  setLink := fun lladdr phys value rest => (rest.1, periphery.setLink lladdr phys value rest.2)
  llPhys := fun rest => periphery.llPhys rest.2
  llValue := fun rest => periphery.llValue rest.2
  smp := periphery.smp
  casRam := fun size phys old new rest =>
    (periphery.casRam size phys old new rest.2).map fun (done, bus) => (done, rest.1, bus)
  cacheOp := fun op va phys => (periphery.cacheOp op va phys).onBus
  cacheOp_raises := fun op va phys exec => periphery.cacheOp_raises op va phys ⟨_, exec.rest.2⟩
  cop1 := fun raw => (periphery.cop1 raw).onBus
  cop1Fcsr := fun raw exec => periphery.cop1Fcsr raw ⟨exec.core, exec.rest.2⟩
  cop1Fcsr_retarget := fun raw exec => periphery.cop1Fcsr_retarget raw ⟨exec.core, exec.rest.2⟩
  cop1Fcsr_held := fun raw exec => periphery.cop1Fcsr_held raw ⟨exec.core, exec.rest.2⟩
  fetchInstr := fun va => translated machine .fetch va (memory.fetch va)
  fetchInstr_fails := fun va exec status failed => by
    rcases Access.andThen_error failed with raised | ⟨after, result, -, refused⟩
    · exact isException_ne_complete (translation_raises _ _ raised)
    · exact memory.fetch_fails va result _ status refused
  nanotlbTranslate := fun accessType va =>
    (translation machine accessType va).onMmu.andThen fun result => .answers result.phys
  nanotlbTranslate_raises := fun accessType va exec status failed => by
    rcases Access.andThen_error failed with raised | ⟨_, _, -, refused⟩
    · exact translation_raises _ _ raised
    · cases refused
  readData := fun size va =>
    aligned .read va size.alignMask (translated machine .read va (memory.read size va))
  writeData := fun size va value => aligned .write va size.alignMask
    (translated machine .write va (memory.write size va · value))
  writeData64Masked := fun va value mask =>
    translated machine .write va (memory.write64Masked va · value mask)
  cp0SideEffects := fun reg _ rest =>
    (if reg = 10 ∨ reg = 16 then rest.1.nanotlbInvalidate else rest.1, rest.2)
  cp0SideEffects_retarget := fun _ _ _ _ => rfl
  tlbr := tlbrAccess.onMmu
  tlbwi := tlbwiAccess.onMmu
  tlbwr := (Access.peek fun rest => periphery.moment rest.2).andThen fun moment =>
    (tlbwrAccess moment).onMmu
  tlbp := tlbpAccess.onMmu

/-! ### Accesses from coherent states -/

def Executor.mmu (exec : Executor (Mmu × B)) : Executor Mmu := ⟨exec.core, exec.rest.1⟩

def Executor.withMmu (exec : Executor (Mmu × B)) (after : Executor Mmu) : Executor (Mmu × B) :=
  ⟨after.core, after.rest, exec.rest.2⟩

/-- Where the translation caches are exact, an access reaches the memory with what translation
answers, or raises its exception; the caches it leaves are exact. -/
theorem translated_run {exec : Executor (Mmu × B)} (inv : Coherent machine exec.mmu)
    (guest : accessType ≠ .debug) (next : TranslateResult → Access B α) :
    ∃ after result, exec.mmu.nanotlbTranslate machine accessType va = some (after, result) ∧
      Coherent machine after ∧
      (translated machine accessType va next).run exec =
        if result.isException then (exec.withMmu after, .error result.status)
        else (next result).onBus.run (exec.withMmu after) := by
  obtain ⟨after, result, returned, coherent⟩ : ∃ after result,
      exec.mmu.nanotlbTranslate machine accessType va = some (after, result) ∧
        Coherent machine after := by
    cases accessType with
    | read | write => exact inv.nutlbTranslate
    | fetch => exact inv.nanotlbFetch
    | debug => exact absurd rfl guest
  refine ⟨after, result, returned, coherent, ?_⟩
  have ran : (translation machine accessType va).onMmu.run exec =
      (exec.withMmu after, if result.isException then .error result.status else .ok result) := by
    simp only [Access.onMmu, Access.through, translation]
    rw [show (⟨exec.core, exec.rest.1⟩ : Executor Mmu) = exec.mmu from rfl, returned]
    rfl
  simp only [translated, Access.andThen, ran]
  cases result.isException <;> rfl

end Iris.Cpu.Exec
