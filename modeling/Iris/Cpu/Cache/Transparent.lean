import Iris.Cpu.Cache.Access

/-!
Owns what software sees of the direct-mapped caches over whole runs of
accesses and CACHE operations: beside the cache a memory of bytes takes every
store that was carried out, and the caches are transparent if loads answer
from it. The R4400 may refuse an access with a virtual coherency exception;
the R10000 never does, within the addresses its secondary tags tell apart.
-/

namespace Iris.Cpu.Cache

open CpuCache BigEndian Library.Run

variable {m : Model}

/-! ### Runs beside a flat memory -/

/-- The address pairs software presents: their page offsets agree and the
physical address has at most `bits` bits. -/
def Presented (bits virtAddr physAddr : Nat) : Prop :=
  virtAddr % 0x1000 = physAddr % 0x1000 ∧ physAddr < 2 ^ bits

/-- Aligned accesses, and the CACHE operations that only move lines, at any address
unless they name a line by it. -/
def Op.Allowed (bits : Nat) : Op → Prop
  | .read width virtAddr physAddr =>
    Presented bits virtAddr physAddr ∧ physAddr % width.bytes = 0
  | .write width virtAddr physAddr _ =>
    Presented bits virtAddr physAddr ∧ physAddr % width.bytes = 0
  | .write64Masked virtAddr physAddr _ _ => Presented bits virtAddr physAddr ∧ physAddr % 8 = 0
  | .fetch virtAddr physAddr => Presented bits virtAddr physAddr
  | .cache operation target virtAddr physAddr =>
    operation.movesLines target = true ∧
      (operation.fills target = true → Presented bits virtAddr physAddr)
  | .setLlbit _ | .setLladdr _ => True

instance (bits : Nat) (op : Op) : Decidable (op.Allowed bits) := by
  cases op <;> simp only [Op.Allowed, Presented] <;> infer_instance

/-- The flat memory takes the stores that were carried out. -/
def flatStep (flat : Flat) : Op → Response → Flat
  | .write width _ physAddr val, .stored (.ok ()) => flat.store physAddr width.bytes val
  | .write64Masked _ physAddr val mask, .stored (.ok ()) => flat.storeMasked physAddr val mask
  | _, _ => flat

def besideStep (state : CpuCache m × Flat) (op : Op) : CpuCache m × Flat :=
  let (response, c) := step state.1 op
  (c, flatStep state.2 op response)

/-- Nothing is cached, and the flat memory is the memory. -/
def powerUp (m : Model) (bus : Bus) : CpuCache m × Flat :=
  (new m bus, byteAt bus.words)

def beside (m : Model) (bus : Bus) (ops : List Op) : CpuCache m × Flat :=
  ops.foldl besideStep (powerUp m bus)

def Response.fault? : Response → Option Fault
  | .loaded (.error fault) | .stored (.error fault) | .fetched (.error fault) => some fault
  | _ => none

def Fault.IsVce (fault : Fault) : Prop := fault = .vced ∨ fault = .vcei

/-! ### What a step does -/

theorem new_shows (direct : m.Direct) (faultless : Faultless bus) :
    Shows (new m bus) (byteAt bus.words) := by
  have dcTag : ∀ idx, (new m bus).dcTags.get idx = {} := Table.get_fill_default
  have l2Tag : ∀ idx, (new m bus).l2Tags.get idx = {} := Table.get_fill_default
  have noL1 : ∀ idx physAddr, ¬(new m bus).L1Holds idx physAddr := by
    rintro idx physAddr ⟨-, named⟩
    rw [dcTag] at named
    cases named
  have noL2 : ∀ physAddr, ¬(new m bus).L2Holds physAddr := by
    rintro physAddr ⟨valid, -⟩
    rw [l2TagOf, l2Tag] at valid
    exact valid rfl
  refine ⟨⟨?_, ?_, ?_, ?_, ?_⟩, faultless, ?_⟩
  · intro idx _
    rw [dcTag]
    exact .inl ⟨rfl, rfl⟩
  · intro idx _ valid
    rw [l2Tag] at valid
    exact absurd rfl valid
  · exact fun idx physAddr _ holds => absurd holds (noL1 idx physAddr)
  · exact fun idx physAddr _ holds => absurd holds (noL1 idx physAddr)
  · exact fun physAddr _ holds => absurd holds (noL2 physAddr)
  · intro a _
    have word : 8 * (a / 8) / 8 = a / 8 := by omega
    rw [byteAt, holdings, current_of_no_l1 direct fun idx => noL1 idx _, below,
      if_neg (noL2 _), word]
    rfl

theorem Shows.loads (direct : m.Direct) {c : CpuCache m} {flat : Flat} (shows : Shows c flat)
    (allowed : (Op.read width virtAddr physAddr).Allowed 36) :
    (step c (.read width virtAddr physAddr)).1 = .loaded (.ok (flat.load physAddr width.bytes)) ∨
      (step c (.read width virtAddr physAddr)).1 = .loaded (.error .vced) ∧ m.hasVce = true := by
  obtain ⟨⟨agree, tellable⟩, aligned⟩ := allowed
  obtain ⟨-, outcome⟩ := read_shows direct shows tellable agree aligned rfl
  exact outcome.imp (congrArg Response.loaded) (And.imp_left (congrArg Response.loaded))

/-- An allowed step shows the flat memory's next state, and refuses only with a
coherency exception of the R4400. -/
theorem step_shows (direct : m.Direct) {c : CpuCache m} {flat : Flat} (shows : Shows c flat)
    {op : Op} (allowed : op.Allowed 36) :
    Shows (step c op).2 (flatStep flat op (step c op).1) ∧
      ∀ fault, (step c op).1.fault? = some fault → fault.IsVce ∧ m.hasVce = true := by
  have answered_fault : ∀ fault : Fault, none = some fault → fault.IsVce ∧ m.hasVce = true :=
    nofun
  have refused_fault : ∀ {refusal : Fault}, refusal.IsVce → m.hasVce = true →
      ∀ fault, some refusal = some fault → fault.IsVce ∧ m.hasVce = true := by
    rintro refusal isVce vce fault ⟨⟩
    exact ⟨isVce, vce⟩
  cases op with
  | read width virtAddr physAddr =>
    obtain ⟨⟨agree, tellable⟩, aligned⟩ := allowed
    rcases run : c.read width virtAddr physAddr with ⟨answer, c'⟩
    obtain ⟨shows', outcome⟩ := read_shows direct shows tellable agree aligned run
    simp only [step, run]
    refine ⟨shows', ?_⟩
    rcases outcome with rfl | ⟨rfl, vce⟩
    · exact answered_fault
    · exact refused_fault (.inl rfl) vce
  | write width virtAddr physAddr val =>
    obtain ⟨⟨agree, tellable⟩, aligned⟩ := allowed
    rcases run : c.write width virtAddr physAddr val with ⟨answer, c'⟩
    have outcome := write_shows direct shows tellable agree aligned run
    simp only [step, run]
    rcases outcome with ⟨rfl, shows'⟩ | ⟨rfl, vce, shows'⟩
    · exact ⟨shows', answered_fault⟩
    · exact ⟨shows', refused_fault (.inl rfl) vce⟩
  | write64Masked virtAddr physAddr val mask =>
    obtain ⟨⟨agree, tellable⟩, aligned⟩ := allowed
    rcases run : c.write64Masked virtAddr physAddr val mask with ⟨answer, c'⟩
    have outcome := write64Masked_shows direct shows tellable agree aligned run
    simp only [step, run]
    rcases outcome with ⟨rfl, shows'⟩ | ⟨rfl, vce, shows'⟩
    · exact ⟨shows', answered_fault⟩
    · exact ⟨shows', refused_fault (.inl rfl) vce⟩
  | fetch virtAddr physAddr =>
    rcases run : c.fetch virtAddr physAddr with ⟨answer, c'⟩
    obtain ⟨kept, outcome⟩ :=
      fetch_keeps direct shows.inclusive shows.faultless allowed.2 run
    simp only [step, run]
    refine ⟨kept.shows shows, ?_⟩
    rcases outcome with ⟨word, rfl⟩ | ⟨rfl, vce⟩
    · exact answered_fault
    · exact refused_fault (.inr rfl) vce
  | cache operation target virtAddr physAddr =>
    obtain ⟨moves, presented⟩ := allowed
    have kept := cacheOp_keeps direct shows.inclusive shows.faultless moves virtAddr
      fun fills => (presented fills).2
    exact ⟨kept.shows shows, answered_fault⟩
  | setLlbit | setLladdr =>
    exact ⟨Keeps.shows (shows.inclusive.of_same rfl rfl rfl rfl rfl) shows, answered_fault⟩

/-! ### What a run does -/

theorem run_shows (direct : m.Direct) {state : CpuCache m × Flat} (shows : Shows state.1 state.2)
    {ops : List Op} (allowed : ∀ op ∈ ops, op.Allowed 36) :
    Shows (ops.foldl besideStep state).1 (ops.foldl besideStep state).2 :=
  List.foldlRecOn ops besideStep (motive := fun state => Shows state.1 state.2) shows
    fun _ shows op member => (step_shows direct shows (allowed op member)).1

/-- What holds of an allowed step wherever the cache shows the flat memory holds
of every step of a run. -/
theorem along_shows (direct : m.Direct) {Condition : CpuCache m × Flat → Op → Prop}
    (each : ∀ state op, Shows state.1 state.2 → op.Allowed 36 → Condition state op)
    (shows : Shows state.1 state.2) {ops : List Op} (allowed : ∀ op ∈ ops, op.Allowed 36) :
    Along besideStep Condition state ops := by
  intro earlier op later split
  apply each
  · exact run_shows direct shows fun other member => allowed other (by simp [split, member])
  · exact allowed op (by simp [split])

/-- A load answers with the bytes of the flat memory, or is refused with a
coherency exception. -/
def LoadsOrRefused (state : CpuCache m × Flat) (op : Op) : Prop :=
  ∀ width virtAddr physAddr, op = .read width virtAddr physAddr →
    (step state.1 op).1 = .loaded (.ok (state.2.load physAddr width.bytes)) ∨
      (step state.1 op).1 = .loaded (.error .vced)

theorem loadsOrRefused_of_shows (direct : m.Direct) (state : CpuCache m × Flat) (op : Op)
    (shows : Shows state.1 state.2) (allowed : op.Allowed 36) : LoadsOrRefused state op := by
  rintro width virtAddr physAddr rfl
  exact (shows.loads direct allowed).imp_right And.left

/-- The R4400's data cache is transparent. -/
theorem r4400_transparent (bus : Bus) (faultless : Faultless bus) (ops : List Op)
    (allowed : ∀ op ∈ ops, op.Allowed Model.r4400.paBits) :
    Along besideStep LoadsOrRefused (powerUp .r4400 bus) ops ∧
      ∀ a < 2 ^ Model.r4400.paBits,
        byteAt (beside .r4400 bus ops).1.writebackAll.downstream.words a =
          (beside .r4400 bus ops).2 a := by
  have direct : Model.Direct .r4400 := nofun
  have initial : Shows (powerUp .r4400 bus).1 (powerUp .r4400 bus).2 := new_shows direct faultless
  have final : Shows (beside .r4400 bus ops).1 (beside .r4400 bus ops).2 :=
    run_shows direct initial allowed
  constructor
  · exact along_shows direct (loadsOrRefused_of_shows direct) initial allowed
  · intro a below
    exact writebackAll_shows direct final below

def zeroBus : Bus := ⟨fun _ => 0, fun _ => false⟩

/-- Index Writeback Invalidate of a kseg0 address: both addresses are the virtual one. -/
def indexWriteback : Op := .cache .iinv .pd 0xFFFFFFFF80002000 0xFFFFFFFF80002000

/-- A byte stored at one page offset, written back by index, loaded through another virtual
page and written to memory. -/
theorem r4400_transparent_store :
    LoadsOrRefused (beside .r4400 zeroBus [.write .byte 0x2001 0x9001 0xab, indexWriteback])
        (.read .byte 0x3001 0x9001) ∧
      byteAt (beside .r4400 zeroBus [.write .byte 0x2001 0x9001 0xab, indexWriteback,
        .read .byte 0x3001 0x9001]).1.writebackAll.downstream.words 0x9001 =
      (beside .r4400 zeroBus [.write .byte 0x2001 0x9001 0xab, indexWriteback,
        .read .byte 0x3001 0x9001]).2 0x9001 := by
  obtain ⟨loads, memory⟩ := r4400_transparent zeroBus (fun _ => rfl)
    [.write .byte 0x2001 0x9001 0xab, indexWriteback, .read .byte 0x3001 0x9001] (by decide)
  exact ⟨loads [_, _] _ [] rfl, memory 0x9001 (by decide)⟩

/-! ### The R10000 -/

/-- The physical address an access or a Fill presents is one secondary tags tell
apart. -/
def Op.Told : Op → Prop
  | .read _ _ physAddr | .write _ _ physAddr _ | .write64Masked _ physAddr _ _
  | .fetch _ physAddr => Tellable physAddr
  | .cache operation target _ physAddr => operation.fills target = true → Tellable physAddr
  | .setLlbit _ | .setLladdr _ => True

theorem Op.Allowed.of_told {op : Op} (allowed : op.Allowed bits) (told : op.Told) :
    op.Allowed 36 := by
  cases op with
  | read | write | write64Masked => exact ⟨⟨allowed.1.1, told⟩, allowed.2⟩
  | fetch => exact ⟨allowed.1, told⟩
  | cache => exact ⟨allowed.1, fun fills => ⟨(allowed.2 fills).1, told fills⟩⟩
  | setLlbit | setLladdr => trivial

/-- No access is refused with a coherency exception, and a load answers with the
bytes of the flat memory. -/
def AliasFree (state : CpuCache m × Flat) (op : Op) : Prop :=
  (∀ fault, (step state.1 op).1.fault? = some fault → ¬fault.IsVce) ∧
    ∀ width virtAddr physAddr, op = .read width virtAddr physAddr →
      (step state.1 op).1 = .loaded (.ok (state.2.load physAddr width.bytes))

/-- The R10000's caches are alias-free where the secondary tags tell the
physical addresses apart. -/
theorem r10000_alias_free (bus : Bus) (faultless : Faultless bus) (ops : List Op)
    (allowed : ∀ op ∈ ops, op.Allowed Model.r10000.paBits) (told : ∀ op ∈ ops, op.Told) :
    Along besideStep AliasFree (powerUp .r10000 bus) ops := by
  have direct : Model.Direct .r10000 := nofun
  have initial : Shows (powerUp .r10000 bus).1 (powerUp .r10000 bus).2 := new_shows direct faultless
  refine along_shows direct ?_ initial fun op member =>
    (allowed op member).of_told (told op member)
  rintro ⟨c, flat⟩ op shows allowed'
  refine ⟨fun fault refused => ?_, ?_⟩
  · have vce := ((step_shows direct shows allowed').2 fault refused).2
    cases vce
  rintro width virtAddr physAddr rfl
  rcases shows.loads direct allowed' with loaded | ⟨-, vce⟩
  · exact loaded
  · cases vce

/-- A byte stored through one virtual page and written back by index is loaded through
another. -/
theorem r10000_alias_free_store :
    AliasFree (beside .r10000 zeroBus [.write .byte 0x2001 0x9001 0xab, indexWriteback])
      (.read .byte 0x3001 0x9001) :=
  r10000_alias_free zeroBus (fun _ => rfl)
    [.write .byte 0x2001 0x9001 0xab, indexWriteback, .read .byte 0x3001 0x9001] (by decide)
    (by simp [Op.Told, Tellable, indexWriteback, CacheOperation.fills]) [_, _] _ [] rfl

/-- Two of the 2^40 physical addresses share a secondary tag: the load at
2^36 hits the line stored at 0. -/
theorem r10000_tag_shared :
    (∀ op ∈ [Op.write .byte 0 0 0xab, .read .byte 0 (2 ^ 36)], op.Allowed Model.r10000.paBits) ∧
      ((beside .r10000 zeroBus [.write .byte 0 0 0xab]).1.read .byte 0 (2 ^ 36)).1 = .ok 0xab ∧
      (beside .r10000 zeroBus [.write .byte 0 0 0xab]).2.load (2 ^ 36) 1 = 0 := by
  refine ⟨by decide, by decide +kernel, by decide +kernel⟩

end Iris.Cpu.Cache
