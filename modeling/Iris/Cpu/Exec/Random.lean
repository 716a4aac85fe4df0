import Iris.Cpu.Exec.MicroTlb

/-!
Owns the window of the Random register: it stays between Wired and the last slot, so a
TLBWR leaves the wired slots of the TLB alone.
-/

namespace Iris.Cpu.Exec

open Tlb Timer Executor

/-- What reaches Random, Wired and the TLB's slots: any other instruction that completes, with
the state it leaves, a move from Random, a move to Wired, and the TLB writes. Any number of
cycles passes between two of them. -/
inductive RandomOp
  | retire (next : Executor Mmu)
  | mfc0 (moment : Moment) (rt : BitVec 5)
  | writeWired (moment : Moment) (value : BitVec 64)
  | tlbwi
  | tlbwr (moment : Moment)

/-- The other instructions may leave any registers but Random and Wired, the entry registers
included, any order of the TLB's MRU lists and any cached translations. -/
def Executor.retired (exec next : Executor Mmu) : Executor Mmu where
  core := { next.core with
    cp0Random := exec.core.cp0Random
    cp0RandomCycle := exec.core.cp0RandomCycle
    cp0Wired := exec.core.cp0Wired
    tlbEntries := exec.core.tlbEntries }
  rest := { next.rest with
    tlb := { exec.rest.tlb with
      mruHead := next.rest.tlb.mruHead
      mruNext := next.rest.tlb.mruNext } }

def randomStep (exec : Executor Mmu) : RandomOp → Executor Mmu
  | .retire next => ((exec.retired next).handleExecComplete (mmuBackend 0)).1
  | .mfc0 moment rt =>
    let (core, value) := exec.core.readCp0 moment 1
    let written := core.writeGpr rt ((value.setWidth 32).signExtend 64)
    ({ exec with core := written }.handleExecComplete (mmuBackend 0)).1
  | .writeWired moment value =>
    ((exec.writeCp0 moment 6 value).handleExecComplete (mmuBackend 0)).1
  | .tlbwi => exec.execTlbwi.1
  | .tlbwr moment => (exec.execTlbwr moment).1

/-- A move to Wired names a slot of a TLB of `n` entries. -/
def RandomOp.Low (n : Nat) : RandomOp → Prop
  | .writeWired _ value => (value.setWidth 32).toNat < n
  | _ => True

/-- Wired, Random and the last slot of a TLB of `n` entries are in this order. -/
structure InWindow (n : Nat) (exec : Executor Mmu) : Prop where
  size : exec.rest.tlb.numEntries = n
  entries : exec.core.tlbEntries.toNat = n
  wired : exec.core.cp0Wired.toNat ≤ exec.core.cp0Random.toNat
  random : exec.core.cp0Random.toNat < n

/-- An offset into the slots above Wired names one of them. -/
theorem offset_inWindow (room : wired.toNat < entries.toNat) (x : BitVec 32) :
    wired.toNat ≤ (x % (entries - wired) + wired).toNat ∧
      (x % (entries - wired) + wired).toNat < entries.toNat := by
  have below : x % (entries - wired) < entries - wired := BitVec.umod_lt _ (by bv_omega)
  constructor <;> bv_omega

theorem write_frame {tlb : MipsTlb} {entry : TlbEntry} :
    (tlb.write index entry).numEntries = tlb.numEntries ∧
      ∀ i ≠ index, (tlb.write index entry).read i = tlb.read i := by
  unfold MipsTlb.write
  split
  · exact ⟨rfl, fun i other => by simp only [MipsTlb.read, Function.update_of_ne other]⟩
  · exact ⟨rfl, fun _ _ => rfl⟩

/-- The end of an instruction moves the PC, or enters an exception. -/
theorem handleExecComplete_frame :
    (exec.handleExecComplete (mmuBackend 0)).1.rest.tlb = exec.rest.tlb ∧
      ∀ n, InWindow n exec → InWindow n (exec.handleExecComplete (mmuBackend 0)).1 := by
  unfold handleExecComplete checkPcAlignment
  split_ifs <;>
    exact ⟨rfl, fun n window => { window with }⟩

section
variable {n : Nat} {exec : Executor Mmu} (window : InWindow n exec)
include window

theorem InWindow.updateRandom :
    InWindow n { exec with core := exec.core.updateRandom cycles } ∧
      (exec.core.updateRandom cycles).cp0Wired = exec.core.cp0Wired := by
  obtain ⟨size, entries, wired, random⟩ := window
  have moved := offset_inWindow (by omega : exec.core.cp0Wired.toNat < exec.core.tlbEntries.toNat)
  rw [entries] at moved
  unfold MipsCore.updateRandom
  dsimp only
  split
  · exact absurd ‹_› (by bv_omega)
  · split
    · exact absurd ‹_› (by bv_omega)
    · split
      · exact ⟨⟨size, entries, (moved _).1, (moved _).2⟩, rfl⟩
      · exact ⟨⟨size, entries, wired, random⟩, rfl⟩

/-- A TLBWR writes one slot, and not a wired one. -/
theorem InWindow.execTlbwr {moment : Moment} :
    InWindow n (exec.execTlbwr moment).1 ∧ ∀ i < exec.core.cp0Wired.toNat,
      (exec.execTlbwr moment).1.rest.tlb.read i = exec.rest.tlb.read i := by
  obtain ⟨counted, wired⟩ := window.updateRandom
  unfold Executor.execTlbwr Executor.tlbwr
  obtain ⟨tlb, kept⟩ := handleExecComplete_frame
  obtain ⟨size, others⟩ := write_frame
  refine ⟨kept n { counted with size := size.trans window.size }, fun i low => ?_⟩
  rw [tlb]
  refine others i (Nat.ne_of_lt ?_)
  rw [Nat.mod_eq_of_lt (window.size.symm ▸ counted.random)]
  exact (wired ▸ low).trans_le counted.wired

theorem InWindow.step {op : RandomOp} (low : op.Low n) : InWindow n (randomStep exec op) := by
  have ⟨size, entries, wired, random⟩ := window
  cases op with
  | retire next => exact (handleExecComplete_frame).2 n ⟨size, entries, wired, random⟩
  | mfc0 moment rt =>
    have counted : InWindow n { exec with core := exec.core.updateRandom moment.cycles } :=
      (window.updateRandom).1
    exact (handleExecComplete_frame).2 n { counted with }
  | writeWired moment value =>
    have last : (exec.core.tlbEntries - 1).toNat = n - 1 := by bv_omega
    refine (handleExecComplete_frame).2 n ⟨size, entries, ?_, ?_⟩
    · exact (Nat.le_sub_one_of_lt low).trans_eq last.symm
    · exact last.trans_lt (by omega)
  | tlbwi =>
    refine (handleExecComplete_frame).2 n ?_
    unfold tlbwi
    dsimp only
    split
    · exact window
    · exact ⟨write_frame.1.trans size, entries, wired, random⟩
  | tlbwr moment => exact (window.execTlbwr).1

end

/-- From the constructor on, Random as it is kept and as it is read stays between Wired and
the last slot, and a TLBWR leaves every slot below Wired alone. -/
theorem random_stays_in_window (machine : Machine) (now : Nat)
    (supported : machine.model.geometry.numEntries = 48 ∨ machine.model.geometry.numEntries = 64)
    {ops : List RandomOp} (low : ∀ op ∈ ops, op.Low machine.model.geometry.numEntries) :
    let exec := ops.foldl randomStep (new machine now)
    InWindow machine.model.geometry.numEntries exec ∧
      (∀ cycles, InWindow machine.model.geometry.numEntries
        { exec with core := exec.core.updateRandom cycles }) ∧
      ∀ moment, ∀ i < exec.core.cp0Wired.toNat,
        (exec.execTlbwr moment).1.rest.tlb.read i = exec.rest.tlb.read i := by
  have start : InWindow machine.model.geometry.numEntries (new machine now) := by
    refine ⟨rfl, ?_, Nat.zero_le _, ?_⟩
    · exact Nat.mod_eq_of_lt (by omega)
    · exact (by decide : (47 : BitVec 32).toNat = 47).trans_lt (by omega)
  have window := List.foldlRecOn ops randomStep start fun exec window op member =>
    window.step (low op member)
  exact ⟨window, fun cycles => (window.updateRandom).1, fun moment => (window.execTlbwr).2⟩

/-- Moves that leave an entry for the page at `entryHi` in the CP0 registers. -/
def entryLoaded (index : BitVec 32) (entryHi : BitVec 64) : Executor Mmu :=
  let exec := new r4400 0
  { exec with core := { exec.core with
      cp0Index := index
      cp0EntryHi := entryHi
      cp0EntryLo0 := 0x401E
      cp0EntryLo1 := 0x801E } }

/-- An entry is written into slot 3, below Wired, and others at random. -/
def wiredRun : List RandomOp :=
  [.writeWired ⟨0, 3⟩ 8, .retire (entryLoaded 3 0x10000), .tlbwi, .retire (entryLoaded 3 0x20000),
    .tlbwr ⟨9, 70⟩, .mfc0 ⟨12, 90⟩ 2]

theorem random_stays_above_eight :
    let exec := wiredRun.foldl randomStep (.new r4400 0)
    InWindow 48 exec ∧ (exec.rest.tlb.read 3).entryHi = 0x10000 ∧
      (exec.execTlbwr ⟨20, 100⟩).1.rest.tlb.read 3 = exec.rest.tlb.read 3 := by
  have low : ∀ op ∈ wiredRun, op.Low 48 := by simp [wiredRun, RandomOp.Low]
  obtain ⟨window, -, above⟩ := random_stays_in_window r4400 0 (.inl rfl) low
  exact ⟨window, by decide +kernel, above _ 3 (by decide +kernel)⟩

end Iris.Cpu.Exec
