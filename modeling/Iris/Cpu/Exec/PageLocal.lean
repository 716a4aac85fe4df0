import Iris.Cpu.Exec.System
import Iris.Cpu.Tlb.PageLocal

/-!
Owns full translation as a function of mode, registers and TLB, without its side
effects, and the fact that it works page by page: what it returns for one
address it returns for the whole page, moved by the offset.
-/

namespace Iris.Cpu.Exec

open Library.Page Tlb BitVec TranslateResult PageMap

/-! ### Physical addresses -/

theorem alias_pageMap : PageMap fun pa : BitVec 64 =>
    if pa - 0x80000000 < 0x40000000 then pa - 0x80000000 + 0x40000000 else pa := by
  have value : ∀ pa : BitVec 64,
      (if pa - 0x80000000 < 0x40000000 then pa - 0x80000000 + 0x40000000 else pa).toNat =
        if 0x80000000 ≤ pa.toNat ∧ pa.toNat < 0xC0000000 then pa.toNat - 0x40000000
        else pa.toNat := by
    intro pa
    have inWindow : pa - 0x80000000 < 0x40000000 ↔
        0x80000000 ≤ pa.toNat ∧ pa.toNat < 0xC0000000 := by bv_omega
    by_cases inside : 0x80000000 ≤ pa.toNat ∧ pa.toNat < 0xC0000000
    · rw [if_pos (inWindow.mpr inside), if_pos inside]
      bv_omega
    · rw [if_neg fun window => inside (inWindow.mp window), if_neg inside]
  refine of_toNat ?_ ?_
  · intro pa pa' same
    rw [value, value]
    split <;> split <;> omega
  · intro pa
    rw [value]
    split <;> omega

theorem foldPhys_pageMap (board : Board) : PageMap board.foldPhys := by
  have cut32 := and_low (n := 32) (by decide) (by decide)
  cases board with
  | bare => exact and_low (n := 64) (by decide) (by decide)
  | mc => exact cut32
  | ip30 => exact and_low (n := 40) (by decide) (by decide)
  | ip32 => exact cut32.comp alias_pageMap

theorem low32_pageMap : PageMap fun va => (va.setWidth 32 : BitVec 32).setWidth 64 := by
  have value : ∀ va : BitVec 64, ((va.setWidth 32 : BitVec 32).setWidth 64).toNat =
      va.toNat % 2 ^ 32 := by
    intro va
    rw [toNat_setWidth, toNat_setWidth]
    omega
  refine of_toNat ?_ ?_
  · intro va va' same
    rw [value, value]
    omega
  · intro va
    rw [value]
    omega

/-- The unmapped 32-bit windows keep the low 29 bits. -/
theorem window_pageMap :
    PageMap fun va => ((va.setWidth 32 : BitVec 32) &&& 0x1FFFFFFF).setWidth 64 := by
  have value : ∀ va : BitVec 64,
      (((va.setWidth 32 : BitVec 32) &&& 0x1FFFFFFF).setWidth 64).toNat = va.toNat % 2 ^ 29 := by
    intro va
    have cut := Nat.and_two_pow_sub_one_eq_mod (va.toNat % 2 ^ 32) 29
    rw [toNat_setWidth, toNat_and, toNat_setWidth]
    simp only [show (0x1FFFFFFF : BitVec 32).toNat = 2 ^ 29 - 1 from rfl, cut]
    omega
  refine of_toNat ?_ ?_
  · intro va va' same
    rw [value, value]
    omega
  · intro va
    rw [value]
    omega

/-! ### Routes -/

/-- A route as another address of its page has it. -/
def Route.onPage (va : BitVec 64) : Route → Route
  | .unmapped phys attr => .unmapped (base phys ||| offset va) attr
  | .mapped xtlb => .mapped xtlb
  | .addressError => .addressError

variable {va va' : BitVec 64}

theorem Route.unmapped_onPage {f : BitVec 64 → BitVec 64} (map : PageMap f) (same : SamePage va va') :
    Route.unmapped (f va') attr = (Route.unmapped (f va) attr).onPage va' := by
  rw [Route.onPage, map.eq_of_samePage same]

theorem setWidth_ushiftRight_samePage (same : SamePage va va') (high : 12 ≤ n) :
    (va.setWidth 32) >>> n = (va'.setWidth 32) >>> n := by
  apply eq_of_getLsbD_eq
  intro i _
  have above : 12 ≤ n + i := by omega
  simp only [getLsbD_ushiftRight, getLsbD_setWidth, same.getLsbD above]

variable (machine : Machine) (core : MipsCore)

theorem route32_onPage (same : SamePage va va') :
    route32 machine core privilege va' = (route32 machine core privilege va).onPage va' := by
  have segment := setWidth_ushiftRight_samePage same (by decide : 12 ≤ 29)
  unfold route32
  dsimp only
  rw [← segment]
  split_ifs
  all_goals first
    | exact Route.unmapped_onPage low32_pageMap same
    | exact Route.unmapped_onPage window_pageMap same
    | rfl

theorem route64_onPage (same : SamePage va va') :
    route64 machine core privilege va' = (route64 machine core privilege va).onPage va' := by
  have segment := setWidth_ushiftRight_samePage same (by decide : 12 ≤ 29)
  have folded := (foldPhys_pageMap machine.board)
  have xkphys := folded.comp (and_low (n := 59) (by decide) (by decide))
  unfold route64
  dsimp only
  rw [← segment, ← same.ushiftRight_eq (by decide : 12 ≤ 62),
    ← same.ushiftRight_eq (by decide : 12 ≤ 40), ← same.ushiftRight_eq (by decide : 12 ≤ 59),
    ← same.ushiftRight_eq (by decide : 12 ≤ 32)]
  split_ifs
  all_goals first
    | exact Route.unmapped_onPage folded same
    | exact Route.unmapped_onPage xkphys same
    | exact Route.unmapped_onPage window_pageMap same
    | rfl

theorem route_onPage (same : SamePage va va') :
    route machine core translateFn va' = (route machine core translateFn va).onPage va' := by
  unfold route
  split
  · exact route64_onPage machine core same
  · exact route32_onPage machine core same

/-! ### Full translation without its effects -/

/-- What the slow path returns for an address, as a function of the core and the
TLB. -/
def slowResult (translateFn : Bool × PrivilegeMode) (tlb : MipsTlb) (va : BitVec 64)
    (accessType : AccessType) : Option TranslateResult :=
  match route machine core translateFn va with
  | .unmapped phys attr => some (.ok phys (cField attr))
  | .addressError => some (.exc (execException (addressErrorCode accessType)))
  | .mapped xtlb =>
    (tlb.translate xtlb va (Executor.asid core) accessType).map fun found =>
      tlbOutcome machine xtlb accessType found.2

theorem translateWith_result {exec : Executor Mmu} (translateFn : Bool × PrivilegeMode)
    (va : BitVec 64) (accessType : AccessType) :
    (exec.translateWith machine debug translateFn va accessType).map Prod.snd =
      slowResult machine exec.core translateFn exec.rest.tlb va accessType := by
  unfold Executor.translateWith slowResult
  cases route machine exec.core translateFn va <;> simp [Function.comp_def]

def TranslateResult.onPage (va : BitVec 64) (result : TranslateResult) : TranslateResult :=
  ⟨base result.phys ||| offset va, result.status⟩

theorem or_isException (flags : BitVec 32) (phys : BitVec 64) :
    TranslateResult.isException ⟨phys, execIsException ||| flags⟩ = true := by
  have absorbed : (execIsException ||| flags) &&& execIsException = execIsException := by
    grind
  unfold TranslateResult.isException
  rw [absorbed]
  decide

/-- Every TLB answer but a permitted hit is an exception. -/
theorem tlbOutcome_hit {accessType : AccessType}
    (succeeded : (tlbOutcome machine xtlb accessType answer).isException = false) :
    ∃ phys attr dirty global, answer = .hit phys attr dirty global ∧
      ¬ (accessType = .write ∧ dirty = false) := by
  have raised : ∀ flags, ¬ (exc (execIsException ||| flags)).isException = false :=
    fun flags => by simp [TranslateResult.exc, or_isException]
  cases answer with
  | hit phys attr dirty global =>
    refine ⟨phys, attr, dirty, global, rfl, fun clean => ?_⟩
    simp only [tlbOutcome, if_pos clean] at succeeded
    exact raised _ succeeded
  | miss vpn2 =>
    simp only [tlbOutcome, execXtlbMiss, execTlbMiss, BitVec.or_assoc] at succeeded
    split at succeeded <;> exact absurd succeeded (raised _)
  | invalid vpn2 | modified vpn2 => exact absurd succeeded (raised _)

/-- Where full translation succeeds it succeeds on the whole page. -/
theorem slowResult_onPage (wellFormed : WellFormed tlb history) (same : SamePage va va')
    {accessType : AccessType}
    (translated : slowResult machine core translateFn tlb va accessType = some result)
    (succeeded : result.isException = false) :
    slowResult machine core translateFn tlb va' accessType = some (result.onPage va') := by
  unfold slowResult at translated ⊢
  rw [route_onPage machine core same]
  cases way : route machine core translateFn va with
  | unmapped phys attr =>
    rw [way] at translated
    cases translated
    rfl
  | addressError =>
    rw [way] at translated
    cases translated
    rw [exc, execException, or_isException] at succeeded
    exact Bool.noConfusion succeeded
  | mapped xtlb =>
    rw [way] at translated
    obtain ⟨⟨next, answer⟩, looked, outcome⟩ := Option.map_eq_some_iff.mp translated
    rw [← outcome] at succeeded
    obtain ⟨phys, attr, dirty, global, rfl, permitted⟩ := tlbOutcome_hit machine succeeded
    have moved := (wellFormed.translate_samePage accessType same looked).2
    have folded := foldPhys_pageMap machine.board
    rw [← outcome]
    simp only [Route.onPage, moved, Option.map_some, tlbOutcome, if_neg permitted, okMapped, onPage]
    rw [folded.eq_of_samePage samePage_rebase, offset_rebase]

end Iris.Cpu.Exec
