import Iris.Library.Flags
import Iris.Library.Run
import Iris.Snapshot.Toml

/-!
Owns one channel of the Z85C30: its registers and queues under register accesses, the bytes
that arrive and the bytes the transmitter takes, resets and snapshots, and when its status
bits tell what is in the queues.
-/

namespace Iris.Scc

open Library.Flags Library.Run Snapshot List

abbrev Byte := BitVec 8

/-! ### Bits -/

def rxCharAvailable : Byte := 0x01

def txBufferEmpty : Byte := 0x04

def dcdState : Byte := 0x08

def ctsState : Byte := 0x20

/-- The receive interrupt modes of WR1; all off is none. -/
def rxIntModes : Byte := 0x18

def txIntEn : Byte := 0x02

def rxEnable : Byte := 0x01

def txEnable : Byte := 0x08

/-- A channel, without what it shares with the other one. -/
structure Channel where
  regs : Fin 16 → Byte
  regPtr : Byte
  status : Byte
  rxQueue : List Byte
  txQueue : List Byte
  /-- Microseconds a character takes. -/
  txDelay : Nat
  txIntPending : Bool

namespace Channel

variable (ch : Channel) (val : Byte)

def updateTxDelay : Channel :=
  let tc := ((ch.regs 13).toNat <<< 8) ||| (ch.regs 12).toNat
  let multiplier := match ((ch.regs 4 >>> 6) &&& 0x3#8).toNat with
    | 0 => 1
    | 1 => 16
    | 2 => 32
    | 3 => 64
    | _ => 1
  { ch with txDelay := 2 * multiplier * (tc + 2) }

def new : Channel :=
  updateTxDelay
    { regs := fun _ => 0
      regPtr := 0
      status := txBufferEmpty ||| dcdState ||| ctsState
      rxQueue := []
      txQueue := []
      txDelay := 0
      txIntPending := false }

/-- The interrupts that are pending and enabled. -/
def getIp : Byte :=
  (if has (ch.regs 1) rxIntModes ∧ ch.rxQueue ≠ [] then 0x4#8 else 0) |||
    (if has (ch.regs 1) txIntEn ∧ ch.txIntPending then 0x2#8 else 0)

/-! ### Operations

Each gives the channel after it and how often it has called `update_ip` on the way. None
changes what `get_ip` reads once it has made the first of these calls. -/

def reset : Channel × Nat :=
  (updateTxDelay
    { ch with regPtr := 0, status := txBufferEmpty, regs := fun _ => 0, txIntPending := false }, 1)

def readData : Byte × Channel × Nat :=
  match ch.rxQueue with
  | [] => (0, ch, 0)
  | val :: rest =>
    let ch := { ch with rxQueue := rest }
    if rest = [] then (val, { ch with status := ch.status &&& ~~~rxCharAvailable }, 1)
    else (val, ch, 0)

def writeData : Channel × Nat :=
  let queue := if 4 ≤ ch.txQueue.length then ch.txQueue.tail else ch.txQueue
  let ch := { ch with txQueue := queue ++ [val], txIntPending := false }
  if 4 ≤ ch.txQueue.length then ({ ch with status := ch.status &&& ~~~txBufferEmpty }, 1)
  else (ch, 1)

def readSelected : Byte × Channel × Nat :=
  match ch.regPtr.toNat with
  | 0 => (ch.status, ch, 0)
  | 1 => (if ch.txQueue = [] then 0x01 else 0, ch, 0)
  | 2 => (ch.regs 2, ch, 0)
  | 8 => ch.readData
  | 12 => (ch.regs 12, ch, 0)
  | 13 => (ch.regs 13, ch, 0)
  | 15 => (ch.regs 15, ch, 0)
  | _ => (0, ch, 0)

/-- The pointer goes back to RR0 after the read. -/
def readControl : Byte × Channel × Nat :=
  let read := ch.readSelected
  (read.1, { read.2.1 with regPtr := 0 }, read.2.2)

def writeSelected : Channel × Nat :=
  if ch.regPtr = 8 then ch.writeData val
  else if inside : ch.regPtr.toNat < 16 then
    let changed := { ch with regs := Function.update ch.regs ⟨ch.regPtr.toNat, inside⟩ val }
    if ch.regPtr = 4 ∨ ch.regPtr = 12 ∨ ch.regPtr = 13 then (changed.updateTxDelay, 0)
    else (changed, 0)
  else (ch, 0)

/-- A write to WR0: the next pointer, and a command. -/
def writeCommand : Channel × Nat :=
  let ptr := val &&& 0x7#8
  let cmd := ((val >>> 3) &&& 0x7#8).toNat
  let ch := { ch with
    regs := Function.update ch.regs 0 val
    regPtr := if cmd = 1 then ptr + 8 else if ptr ≠ 0 then ptr else ch.regPtr }
  match cmd with
  | 3 => ch.reset
  | 5 => ({ ch with txIntPending := false }, 0)
  | _ => (ch, 0)

/-- WR2 is of both channels: its new value is given to the other one. -/
def writeControl : (Channel × Nat) × Option Byte :=
  if ch.regPtr ≠ 0 then
    let written := ch.writeSelected val
    (({ written.1 with regPtr := 0 }, written.2 + 1), if ch.regPtr = 2 then some val else none)
  else
    let written := ch.writeCommand val
    ((written.1, written.2 + 1), none)

/-- The receiver puts a byte in the queue, dropping it while it is off. A byte that finds the
queue full is held and comes again. -/
def receive (byte : Byte) : Channel × Nat :=
  let byte := if byte = 0x05 then 0x04 else byte
  if !has (ch.regs 3) rxEnable then (ch, 0)
  else if 8 ≤ ch.rxQueue.length then (ch, 0)
  else ({ ch with rxQueue := ch.rxQueue ++ [byte], status := ch.status ||| rxCharAvailable }, 1)

/-- The transmitter takes a byte, if it is on and there is one. -/
def transmit : Channel × Nat :=
  if ch.txQueue ≠ [] ∧ has (ch.regs 5) txEnable then
    let ch := { ch with txQueue := ch.txQueue.tail }
    if ch.txQueue.length < 4 then ({ ch with status := ch.status ||| txBufferEmpty }, 0)
    else (ch, 0)
  else (ch, 0)

/-- The byte taken has been sent. -/
def notifyTxEmpty : Channel × Nat := ({ ch with txIntPending := true }, 1)

def setWr2 : Channel :=
  { ch with regs := Function.update ch.regs 2 val }

/-! ### Snapshots -/

/-- The queues start empty, and the bits that tell of them are made to say so. -/
def fromToml (v : Fields) (ch : Channel) : Channel × Nat :=
  let regs := Field.read (fun r => loadU8Slice r (ofFn ch.regs)) (ofFn ch.regs)
    (getField v "regs")
  let regs : Fin 16 → Byte := fun i => regs.getD i 0
  let regPtr := Field.read (fun x => (tomlU8 x).getD ch.regPtr) ch.regPtr (getField v "reg_ptr")
  let status := Field.read (fun x => (tomlU8 x).getD ch.status) ch.status (getField v "status")
  (updateTxDelay
    { ch with
      regs, regPtr
      status := (status &&& ~~~rxCharAvailable) ||| txBufferEmpty
      rxQueue := []
      txQueue := []
      txIntPending := has (regs 1) txIntEn && has (regs 5) txEnable }, 1)

end Channel

inductive Access
  | readControl
  | writeControl (val : Byte)
  | readData
  | writeData (val : Byte)
  /-- The other channel's WR2 is written. -/
  | wr2 (val : Byte)
  | receive (byte : Byte)
  | transmit
  | notifyTxEmpty
  /-- Power-on. -/
  | reset
  | load (v : Fields)

namespace Channel

/-- The channel after an access, and how often it called `update_ip`. -/
def access (ch : Channel) : Access → Channel × Nat
  | .readControl => ch.readControl.2
  | .writeControl val => (ch.writeControl val).1
  | .readData => ch.readData.2
  | .writeData val => ch.writeData val
  | .wr2 val => (ch.setWr2 val, 0)
  | .receive byte => ch.receive byte
  | .transmit => ch.transmit
  | .notifyTxEmpty => ch.notifyTxEmpty
  | .reset => ch.reset
  | .load v => ch.fromToml v

def step (ch : Channel) (a : Access) : Channel := (ch.access a).1

/-! ### The status bits -/

variable {ch : Channel}

/-- The status bits tell what is in the queues. -/
structure Truthful (ch : Channel) : Prop where
  rx : has ch.status rxCharAvailable = true ↔ ch.rxQueue ≠ []
  tx : has ch.status txBufferEmpty = false ↔ ch.txQueue.length = 4
  room : ch.txQueue.length ≤ 4

/-- Only the status and the queues matter. -/
theorem Truthful.congr (truthful : ch.Truthful) {other : Channel}
    (status : other.status = ch.status) (rxQueue : other.rxQueue = ch.rxQueue)
    (txQueue : other.txQueue = ch.txQueue) :
    other.Truthful := by
  constructor
  · rw [status, rxQueue]
    exact truthful.rx
  · rw [status, txQueue]
    exact truthful.tx
  · rw [txQueue]
    exact truthful.room

theorem new_truthful : new.Truthful := by
  refine ⟨iff_of_false ?_ ?_, iff_of_false ?_ ?_, ?_⟩
  · decide
  · exact fun some => some rfl
  · decide
  · decide
  · decide

/-- A reset tells the truth only of an empty receive queue and a transmit queue with room: it
sets the status and leaves the queues. -/
theorem reset_truthful_iff :
    ch.reset.1.Truthful ↔ ch.rxQueue = [] ∧ ch.txQueue.length < 4 := by
  have rx : has txBufferEmpty rxCharAvailable = false := by decide
  have tx : has txBufferEmpty txBufferEmpty = true := by decide
  constructor
  · intro truthful
    have rxTold : has txBufferEmpty rxCharAvailable = true ↔ ch.rxQueue ≠ [] := truthful.rx
    have txTold : has txBufferEmpty txBufferEmpty = false ↔ ch.txQueue.length = 4 := truthful.tx
    have room : ch.txQueue.length ≤ 4 := truthful.room
    constructor
    · by_contra some
      exact Bool.false_ne_true (rxTold.mpr some)
    · rcases Nat.lt_or_eq_of_le room with short | full
      · exact short
      · exact absurd (txTold.mpr full) (by decide)
  · rintro ⟨empty, short⟩
    refine ⟨iff_of_false ?_ fun some => some empty, iff_of_false ?_ short.ne, Nat.le_of_lt short⟩
    · exact Bool.eq_false_iff.mp rx
    · exact fun clear => Bool.noConfusion (tx.symm.trans clear)

section
variable (truthful : ch.Truthful)
include truthful

theorem readData_truthful : ch.readData.2.1.Truthful := by
  rw [readData]
  cases queue : ch.rxQueue with
  | nil => exact truthful
  | cons val rest =>
    dsimp only
    split
    next empty =>
      refine ⟨iff_of_false ?_ fun some => some empty, ?_, truthful.room⟩
      · rw [has_clear (by decide)]
        exact Bool.false_ne_true
      · rw [has_keep (by decide)]
        exact truthful.tx
    next more =>
      refine { truthful with rx := iff_of_true ?_ more }
      exact truthful.rx.mpr (by simp [queue])

theorem writeData_truthful : (ch.writeData val).1.Truthful := by
  have room := truthful.room
  rw [writeData]
  generalize shifted : (if 4 ≤ ch.txQueue.length then ch.txQueue.tail else ch.txQueue) = queue
  have short : queue.length ≤ 3 := by
    rw [← shifted]
    split
    · rw [length_tail]
      omega
    · omega
  have length : (queue ++ [val]).length = queue.length + 1 := by simp
  dsimp only
  split
  next full =>
    refine ⟨?_, iff_of_true (has_clear (by decide)) ?_, ?_⟩
    · rw [has_keep (by decide)]
      exact truthful.rx
    · dsimp only
      omega
    · dsimp only
      omega
  next notFull =>
    -- The queue had room before, too.
    have before : ch.txQueue.length ≠ 4 := by
      intro full
      rw [if_pos full.symm.le] at shifted
      rw [← shifted, length_append, length_tail, full, length_singleton] at notFull
      exact notFull (by decide)
    refine ⟨truthful.rx, ?_, ?_⟩
    · exact iff_of_false (fun clear => before (truthful.tx.mp clear)) (by dsimp only; omega)
    · dsimp only
      omega

theorem receive_truthful : (ch.receive byte).1.Truthful := by
  rw [receive]
  split
  · exact truthful
  · split
    · exact truthful
    · refine ⟨iff_of_true (has_or_within (by decide)) (by simp), ?_, truthful.room⟩
      rw [has_or_apart (by decide)]
      exact truthful.tx

theorem transmit_truthful : ch.transmit.1.Truthful := by
  have room := truthful.room
  rw [transmit]
  split
  next taken =>
    have short : ch.txQueue.tail.length < 4 := by
      rw [length_tail]
      omega
    rw [if_pos short]
    refine ⟨?_, iff_of_false ?_ short.ne, short.le⟩
    · rw [has_or_apart (by decide)]
      exact truthful.rx
    · rw [has_or_within (by decide)]
      exact Bool.noConfusion
  · exact truthful

end

theorem fromToml_truthful : (ch.fromToml v).1.Truthful := by
  have empty : (ch.fromToml v).1.txQueue.length = 0 := rfl
  refine ⟨iff_of_false ?_ fun some => some rfl, iff_of_false ?_ (by omega), by omega⟩
  · rw [fromToml, updateTxDelay, has_or_apart (by decide), has_clear (by decide)]
    exact Bool.false_ne_true
  · rw [fromToml, updateTxDelay, has_or_within (by decide)]
    exact Bool.noConfusion

theorem readSelected_truthful (truthful : ch.Truthful) : ch.readSelected.2.1.Truthful := by
  rw [readSelected]
  split
  case h_4 => exact readData_truthful truthful
  all_goals exact truthful

theorem writeSelected_truthful (truthful : ch.Truthful) : (ch.writeSelected val).1.Truthful := by
  rw [writeSelected]
  split
  · exact writeData_truthful truthful
  · split
    · split <;> exact truthful.congr rfl rfl rfl
    · exact truthful

/-- A reset finds nothing received and room to transmit. -/
def ResetIdle (ch : Channel) : Access → Prop
  | .reset => ch.rxQueue = [] ∧ ch.txQueue.length < 4
  | .writeControl val =>
    ch.regPtr = 0 → (val >>> 3) &&& 0x7#8 = 3 → ch.rxQueue = [] ∧ ch.txQueue.length < 4
  | _ => True

instance (ch : Channel) : ∀ a, Decidable (ch.ResetIdle a)
  | .reset => inferInstanceAs (Decidable (ch.rxQueue = [] ∧ ch.txQueue.length < 4))
  | .writeControl _ => inferInstanceAs (Decidable (_ → _ → ch.rxQueue = [] ∧ _))
  | .readControl | .readData | .writeData _ | .wr2 _ | .receive _ | .transmit | .notifyTxEmpty
  | .load _ => isTrue trivial

theorem writeControl_truthful (truthful : ch.Truthful) (idle : ch.ResetIdle (.writeControl val)) :
    (ch.writeControl val).1.1.Truthful := by
  rw [writeControl]
  by_cases selected : ch.regPtr ≠ 0
  · rw [if_pos selected]
    exact (writeSelected_truthful truthful).congr rfl rfl rfl
  rw [if_neg selected, writeCommand]
  split
  next isReset =>
    have queues := idle (not_not.mp selected) (BitVec.eq_of_toNat_eq isReset)
    exact reset_truthful_iff.mpr queues
  · exact truthful.congr rfl rfl rfl
  · exact truthful.congr rfl rfl rfl

theorem step_truthful (truthful : ch.Truthful) (idle : ch.ResetIdle a) : (ch.step a).Truthful := by
  cases a with
  | readControl => exact (readSelected_truthful truthful).congr rfl rfl rfl
  | writeControl val => exact writeControl_truthful truthful idle
  | readData => exact readData_truthful truthful
  | writeData val => exact writeData_truthful truthful
  | wr2 val => exact truthful.congr rfl rfl rfl
  | receive byte => exact receive_truthful truthful
  | transmit => exact transmit_truthful truthful
  | notifyTxEmpty => exact truthful.congr rfl rfl rfl
  | reset => exact reset_truthful_iff.mpr idle
  | load v => exact fromToml_truthful

/-- After every run of accesses whose resets all find the queues idle, RR0 says that a
character is there iff one is, and that the transmit buffer has no room iff the queue is full. -/
theorem run_truthful {accesses : List Access} (idle : Along step ResetIdle new accesses) :
    (has (accesses.foldl step new).status rxCharAvailable = true ↔
      (accesses.foldl step new).rxQueue ≠ []) ∧
    (has (accesses.foldl step new).status txBufferEmpty = false ↔
      (accesses.foldl step new).txQueue.length = 4) := by
  have truthful := Along.keeps idle (fun _ _ before condition => step_truthful before condition)
    new_truthful
  exact ⟨truthful.rx, truthful.tx⟩

/-- A character arrives, is read, and the channel is reset. -/
theorem reset_after_read_truthful :
    Along step ResetIdle new [.writeControl 0x03, .writeControl 0x01, .receive 0x41, .readData,
      .writeControl 0x18] ∧
    (has ([Access.writeControl 0x03, .writeControl 0x01, .receive 0x41, .readData,
      .writeControl 0x18].foldl step new).status rxCharAvailable = true ↔
      ([Access.writeControl 0x03, .writeControl 0x01, .receive 0x41, .readData,
      .writeControl 0x18].foldl step new).rxQueue ≠ []) ∧
    (has ([Access.writeControl 0x03, .writeControl 0x01, .receive 0x41, .readData,
      .writeControl 0x18].foldl step new).status txBufferEmpty = false ↔
      ([Access.writeControl 0x03, .writeControl 0x01, .receive 0x41, .readData,
      .writeControl 0x18].foldl step new).txQueue.length = 4) :=
  ⟨by decide +kernel, run_truthful (by decide +kernel)⟩

/-- A channel is reset with a character in the receive queue: the bit says there is none. -/
theorem reset_hides_character :
    has ([Access.writeControl 0x03, .writeControl 0x01, .receive 0x41,
      .writeControl 0x18].foldl step new).status rxCharAvailable = false ∧
    ([Access.writeControl 0x03, .writeControl 0x01, .receive 0x41,
      .writeControl 0x18].foldl step new).rxQueue = [0x41] := by
  decide +kernel

end Channel

end Iris.Scc
