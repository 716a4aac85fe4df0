import Iris.Ioc.Sources

/-!
Owns the IOC's snapshot: every register a guest can read comes back from one, but for EXT_IO,
which is not saved and comes back idle.
-/

namespace Iris.Ioc

open Library.Flags Snapshot IocState

namespace IocState
variable {s t : IocState}

/-! ### Loading what was saved -/

theorem getField_saveState (s : IocState) (r : Register) :
    getField s.saveState r.key = some (.words (hexU8 (s.reg r))) := by
  cases r <;> rfl

theorem loadState_saveState_reg (s : IocState) :
    (loadState s.saveState t).reg = summarized s.reg := by
  rw [loadState, updateInterrupts_reg]
  congr 1
  funext r
  dsimp only
  rw [getField_saveState]
  exact congrArg (fun read => read.getD (t.reg r)) tomlU8_hexU8

def cpuLines : List (BitVec 64) := [causeIp2, causeIp3, causeIp4, causeIp5, causeIp6]

theorem LinesDriven.agree (one : s.LinesDriven) (two : t.LinesDriven) (reg : t.reg = s.reg) :
    ∀ line ∈ cpuLines, has t.interrupts line = has s.interrupts line := by
  intro line member
  simp only [cpuLines, List.mem_cons, List.not_mem_nil, or_false] at member
  rcases member with rfl | rfl | rfl | rfl | rfl
  · rw [one.ip2, two.ip2, IocState.ip2, IocState.ip2, reg]
  · rw [one.ip3, two.ip3, IocState.ip3, IocState.ip3, reg]
  · rw [one.ip4, two.ip4, IocState.ip4, IocState.ip4, reg]
  · rw [one.ip5, two.ip5, IocState.ip5, IocState.ip5, reg]
  · rw [one.ip6, two.ip6, IocState.ip6, IocState.ip6, reg]

theorem read8_congr (board : t.sysId = s.sysId) (reg : t.reg = s.reg) (addr : BitVec 64) :
    t.read8 addr = s.read8 addr := by
  rw [read8, read8, int2Read8, int2Read8, board, reg]

/-- An IOC of the board that has just been powered on, whatever the CPU's word was. -/
def fresh (sysId : Byte) (genCntlRetraceAck : Bool) (word : BitVec 64) : IocState :=
  { new sysId genCntlRetraceAck with interrupts := word }.powerOn

end IocState

namespace System
variable {Device : Type} [DecidableEq Device]

/-- A state reached by guest writes and source changes comes back from a snapshot, as far as a
guest can read it at any address and in any width and as far as the CPU lines go, iff EXT_IO is
idle in it. -/
theorem saved_reads_iff (layout : Device → IocInterrupt) (sysId : Byte) (genCntlRetraceAck : Bool)
    (word : BitVec 64) (ops : List (Op Device)) :
    let s := (ops.foldl (step layout) (new sysId genCntlRetraceAck)).ioc
    let restored := loadState s.saveState (.fresh sysId genCntlRetraceAck word)
    (∀ addr, restored.read8 addr = s.read8 addr ∧ restored.read16 addr = s.read16 addr ∧
        restored.read32 addr = s.read32 addr) ∧
      (∀ line ∈ cpuLines, has restored.interrupts line = has s.interrupts line) ↔
    s.extIo = extIoIdle := by
  intro s restored
  have settled : s.Settled sysId :=
    run_settled new_settled
  have board : restored.sysId = s.sysId := settled.board.symm
  have reg : restored.reg = s.reg :=
    (loadState_saveState_reg s).trans settled.summary
  have extIo : restored.extIo = extIoIdle := rfl
  have read8 (addr : BitVec 64) := read8_congr board reg addr
  constructor
  · rintro ⟨reads, -⟩
    have told := (reads (iocBase + 0x100)).2.1
    exact (Answer.value.inj told).symm.trans extIo
  intro idle
  have same : restored.extIo = s.extIo := extIo.trans idle.symm
  refine ⟨fun addr => ⟨read8 addr, ?_, ?_⟩, ?_⟩
  · rw [read16, read16, same]
  · rw [read32, read32, same, read8]
  · exact settled.lines.agree (updateInterrupts_linesDriven _) reg

/-- The graphics head of an Indigo2 asserts its retrace interrupt, and the IOC is saved and
loaded: the guest reads that no slot has an interrupt. -/
theorem saved_loses_slot :
    (([Op.line () true].foldl (step fun _ => .gioSgGraphics)
      (new 0x11 false)).ioc).read16 (iocBase + 0x100) = .value 0xFDFF ∧
    (loadState ([Op.line () true].foldl (step fun _ => .gioSgGraphics)
      (new 0x11 false)).ioc.saveState (.fresh 0x11 false 0)).read16 (iocBase + 0x100) =
        .value 0xFFFF := by
  decide +kernel

end System

end Iris.Ioc
