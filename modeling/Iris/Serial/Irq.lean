import Iris.Serial.Receive
import Iris.Snapshot.Toml

/-!
Owns the port's status and interrupts: in every state a port gets into, restored ones
included, the line status, the character timeout, the interrupt identification and the
interrupt line agree with what the port holds.
-/

namespace Iris.Serial

open Library.Flags List Snapshot

variable (charTime : CharTime) (now : Nat)

namespace Ns16550

/-! ### Snapshots -/

def saveState (port : Ns16550) : Fields :=
  ("divider", .words (.integer port.divider.toNat)) ::
    ([("rbr", port.rbr), ("ier", port.ier), ("iir", port.iir), ("lcr", port.lcr),
        ("mcr", port.mcr), ("lsr", port.lsr), ("msr", port.msr), ("scr", port.scr),
        ("fcr", port.fcr)].map fun (key, byte) => (key, Field.words (hexU8 byte))) ++
    [("thr_ipending", .boolean port.thrIpending),
      ("timeout_ipending", .boolean port.timeoutIpending),
      ("recv_fifo", .words (u8SliceToToml port.recvFifo)),
      ("typed", .words (u8SliceToToml port.typed))]

def loadByte (v : Fields) (key : String) : Byte :=
  Field.read (fun x => (tomlU8 x).getD 0) 0 (getField v key)

def loadFlag (v : Fields) (key : String) : Bool := ((getField v key).bind tomlBool).getD false

def loadBytes (v : Fields) (key : String) : List Byte :=
  match getField v key with
  | some (.words (.array items)) => items.map fun x => (tomlU8 x).getD 0
  | _ => []

/-- The timeout restarts from the load. -/
def restartTimeout (now : Nat) (port : Ns16550) : Ns16550 :=
  { port with
    timeoutDeadline :=
      if !port.recvFifo.isEmpty && !port.timeoutIpending then
        some (now + port.charTransmitTime * 4)
      else none }

def loadState (charTime : CharTime) (now : Nat) (v : Fields) (port : Ns16550) : Ns16550 :=
  let loaded : Ns16550 :=
    { port with
      divider := (Field.read (fun x => (tomlU32 x).getD 0x0c) 0x0c (getField v "divider")).setWidth 16
      rbr := loadByte v "rbr"
      ier := loadByte v "ier"
      iir := loadByte v "iir"
      lcr := loadByte v "lcr"
      mcr := loadByte v "mcr"
      lsr := loadByte v "lsr"
      msr := loadByte v "msr"
      scr := loadByte v "scr"
      fcr := loadByte v "fcr"
      thrIpending := loadFlag v "thr_ipending"
      timeoutIpending := loadFlag v "timeout_ipending"
      recvFifo := (loadBytes v "recv_fifo").take fifoLength
      typed := loadBytes v "typed"
      recvFifoItl := triggerLevel (loadByte v "fcr") }
  ((loaded.updateParameters charTime).restartTimeout now).updateIrq

/-- The states a port gets into: whatever is done to it, a new host end and the snapshot of
another such port included. -/
inductive Alive (charTime : CharTime) : Ns16550 → Prop
  | new (baudbase : Nat) (backend : List (Option Byte)) : Alive charTime (new baudbase backend)
  | step (alive : Alive charTime port) (op : Nat × Op) : Alive charTime (port.step charTime op)
  | receive (alive : Alive charTime port) (now : Nat) (buf : List Byte) :
      Alive charTime (port.receive now buf)
  | attach (alive : Alive charTime port) (backend : List (Option Byte)) :
      Alive charTime { port with backend }
  | restore (saved : Alive charTime port) (alive : Alive charTime other) (now : Nat) :
      Alive charTime (other.loadState charTime now port.saveState)

/-! ### The causes -/

/-- The causes with their codes, the most urgent first; each counts if the port has it and it
is enabled. -/
def causes (port : Ns16550) : List (Byte × Bool) :=
  [(iirRlsi, has port.ier ierRls && has port.lsr lsrIntAny),
    (iirCti, has port.ier ierRx && port.timeoutIpending),
    (iirRxData, has port.ier ierRx && port.dataReady &&
      (!port.fifosEnabled || port.recvFifoItl ≤ port.recvFifo.length)),
    (iirTxEmpty, has port.ier ierTx && port.thrIpending),
    (iirMsi, has port.ier ierMs && has port.msr msrAnyDelta)]

/-- What the port reports: the first cause it has, and its interrupt. -/
def reported (port : Ns16550) : Option Byte := (port.causes.find? Prod.snd).map Prod.fst

theorem cause_eq (port : Ns16550) : port.cause = port.reported.getD iirNone := by
  unfold cause reported causes
  cases has port.ier ierRls && has port.lsr lsrIntAny <;>
  cases has port.ier ierRx && port.timeoutIpending <;>
  cases has port.ier ierRx && port.dataReady &&
      (!port.fifosEnabled || port.recvFifoItl ≤ port.recvFifo.length) <;>
  cases has port.ier ierTx && port.thrIpending <;>
  cases has port.ier ierMs && has port.msr msrAnyDelta <;> rfl

/-- The code of a cause leaves its lowest bit clear. -/
theorem reported_code {port : Ns16550} (found : port.reported = some code) :
    has code iirNone = false := by
  obtain ⟨cause, first, rfl⟩ := Option.map_eq_some_iff.mp found
  have member : cause.1 ∈ [iirRlsi, iirCti, iirRxData, iirTxEmpty, iirMsi] :=
    mem_map_of_mem (mem_of_find?_eq_some first)
  revert member
  generalize cause.1 = code
  revert code
  decide

/-- Status and interrupts as the rest of the port has them. -/
structure Consistent (port : Ns16550) : Prop where
  ready : port.dataReady = true ↔ port.receiver.held ≠ []
  timeout : port.recvFifo ≠ [] → port.recvFifo.length < port.recvFifoItl →
    port.timeoutDeadline.isSome = true ∨ port.timeoutIpending = true
  reports : port.iir &&& 0x0f = port.reported.getD iirNone
  line : port.irq = true ↔ port.reported.isSome = true

/-! ### A restored port -/

variable {port : Ns16550}

theorem loadByte_saved (saved : getField v key = some (.words (hexU8 byte))) :
    loadByte v key = byte := by
  rw [loadByte, saved, Field.read, tomlU8_hexU8, Option.getD_some]

theorem loadBytes_saved {bytes : List Byte}
    (saved : getField v key = some (.words (u8SliceToToml bytes))) : loadBytes v key = bytes := by
  rw [loadBytes, saved, u8SliceToToml]
  simp only [map_map, Function.comp_def, tomlU8_hexU8, Option.getD_some, map_id']

theorem restartTimeout_timed (port : Ns16550) : (port.restartTimeout now).Timed := by
  intro some
  unfold restartTimeout at some ⊢
  cases pending : port.timeoutIpending with
  | true => exact .inr rfl
  | false => simpa [pending] using some

theorem loadState_settled {v : Fields} : (port.loadState charTime now v).Settled :=
  updateIrq_settled (restartTimeout_timed now _)

theorem loadState_sound {saved : Ns16550} (sound : saved.receiver.Sound) :
    (port.loadState charTime now saved.saveState).receiver.Sound := by
  have fcr : loadByte saved.saveState "fcr" = saved.fcr := loadByte_saved rfl
  have lsr : loadByte saved.saveState "lsr" = saved.lsr := loadByte_saved rfl
  have fifo : loadBytes saved.saveState "recv_fifo" = saved.recvFifo := loadBytes_saved rfl
  refine ⟨?_, length_take_le .., triggerLevel_le⟩
  simp only [receiver, fifosEnabled, dataReady, loadState, updateIrq, restartTimeout,
    updateParameters, fcr, lsr, fifo]
  rw [take_of_length_le (show saved.recvFifo.length ≤ fifoLength from sound.depth)]
  exact sound.ready

theorem Alive.inOrder {charTime : CharTime} (alive : port.Alive charTime) : port.InOrder := by
  induction alive with
  | new baudbase backend => exact reset_inOrder _
  | step alive op inOrder => exact step_inOrder inOrder
  | receive alive now buf inOrder => exact receive_inOrder now inOrder buf
  | attach alive backend inOrder => exact ⟨{ inOrder.1 with }, { inOrder.2 with }⟩
  | restore saved alive now inOrder =>
    exact ⟨loadState_sound charTime now inOrder.1, loadState_settled charTime now⟩

/-- The interrupt line follows the identification register, whose low bit is clear for every
cause. -/
theorem Settled.irq_iff (settled : port.Settled) :
    port.irq = true ↔ port.reported.isSome = true := by
  have low : has port.iir iirNone = has port.cause iirNone := by
    rw [← settled.iir, has_and (by decide)]
  rw [irq, low, cause_eq]
  cases found : port.reported with
  | none => simp [has, iirNone]
  | some code => simpa using reported_code found

/-- In every state a port gets into, restored ones included, its status and interrupts agree
with what it holds. -/
theorem status_consistent (port : Ns16550) (alive : port.Alive charTime) :
    port.Consistent where
  ready := by
    have sound := alive.inOrder.1
    unfold Receiver.held
    split
    next fifos => exact sound.ready fifos
    next fifos =>
      change _ ↔ (if port.dataReady = true then _ else _) ≠ []
      split <;> simp_all
  timeout some _ := alive.inOrder.2.timed some
  reports := alive.inOrder.2.iir.trans (cause_eq port)
  line := alive.inOrder.2.irq_iff

/-- The FIFO is on with its trigger level at 8, two characters wait in it, and an enabled
transmitter is empty. -/
def belowTrigger : Ns16550 :=
  let fifoOn := (new 1 []).step (fun _ _ _ => 1000) (0, .write Reg.iirFcr 0x81)
  (fifoOn.step (fun _ _ _ => 1000) (1, .write Reg.ier 0x03)).receive 2 [0x41, 0x42]

theorem status_consistent_restored :
    let port := (new 1 []).loadState (fun _ _ _ => 1000) 5 belowTrigger.saveState
    port.fifosEnabled = true ∧ port.recvFifo = [0x41, 0x42] ∧ port.recvFifoItl = 8 ∧
      port.timeoutDeadline = some 4005 ∧ port.reported = some iirTxEmpty ∧ port.Consistent := by
  refine ⟨by decide +kernel, by decide +kernel, by decide +kernel, by decide +kernel,
    by decide +kernel, status_consistent (fun _ _ _ => 1000) _ (.restore ?_ (.new 1 []) 5)⟩
  unfold belowTrigger
  exact .receive (.step (.step (.new 1 []) _) _) 2 _

end Ns16550

end Iris.Serial
