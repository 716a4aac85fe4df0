import Iris.Serial.Ns16550
import Iris.Library.Run

/-!
Owns the receive stream of a port: the characters the guest reads while data are
ready are those the host end delivers, in order, whatever else the guest and the
host do short of a flush, a reset or loopback. Every operation keeps the receiver
sound, and status and interrupts settled.
-/

namespace Iris.Serial

open Library.Flags Library.Run List Reg

/-! ### The receiver -/

variable {byte : Byte} (moved : Bool)

/-- The part of a port that characters pass through on their way to the guest. -/
structure Receiver where
  fifos : Bool
  ready : Bool
  overrun : Bool
  loopback : Bool
  rbr : Byte
  fifo : List Byte
  level : Nat
  typed : List Byte
  backend : List (Option Byte)

open Receiver

variable {first : Byte} {rest : List Byte}

namespace Receiver

variable (receiver : Receiver)

def held : List Byte :=
  if receiver.fifos then receiver.fifo else if receiver.ready then [receiver.rbr] else []

/-- The characters still to be received: the typed ones, and those the host end will
deliver. -/
def coming : List Byte :=
  receiver.typed ++ receiver.backend.filterMap id

def stream : List Byte := receiver.held ++ receiver.coming

/-- Data are ready exactly when the FIFO holds some, and the FIFO and its trigger level
stay within its depth. -/
structure Sound (receiver : Receiver) : Prop where
  ready : receiver.fifos = true → (receiver.ready = true ↔ receiver.fifo ≠ [])
  depth : receiver.fifo.length ≤ fifoLength
  level : receiver.level ≤ fifoLength

def take : Receiver :=
  if receiver.fifos then
    { receiver with
      fifo := receiver.fifo.tail
      ready := receiver.ready && !receiver.fifo.tail.isEmpty }
  else { receiver with ready := false }

def front : Byte := receiver.held.head?.getD 0

/-- Characters arrive; those there is no room for are an overrun. -/
def accept (first : Byte) (rest : List Byte) : Receiver :=
  if receiver.fifos then
    { receiver with
      fifo := (receiver.fifo ++ first :: rest).take fifoLength
      overrun := receiver.overrun || fifoLength < receiver.fifo.length + rest.length + 1
      ready := true }
  else if receiver.ready then { receiver with overrun := true }
  else { receiver with rbr := first, ready := true }

def room : Nat :=
  if receiver.fifos then
    if fifoLength ≤ receiver.fifo.length then 0
    else if receiver.fifo.length ≤ receiver.level then receiver.level - receiver.fifo.length
    else 1
  else if receiver.ready then 0 else 1

section Facts
variable {receiver : Receiver}

theorem Sound.take (sound : receiver.Sound) : receiver.take.Sound := by
  unfold Receiver.take
  split
  next fifos =>
    refine ⟨fun _ => ?_, ?_, sound.level⟩
    · have ready := sound.ready fifos
      cases fifo : receiver.fifo with
      | nil => simp
      | cons first rest => simp_all
    · have fewer : receiver.fifo.tail.length ≤ receiver.fifo.length := by simp
      exact Nat.le_trans fewer sound.depth
  next fifos => exact ⟨fun on => absurd on fifos, sound.depth, sound.level⟩

/-- A character taken while data are ready is the first one held. -/
theorem Sound.held_take (sound : receiver.Sound) :
    receiver.held = (if receiver.ready then [receiver.front] else []) ++ receiver.take.held := by
  cases fifos : receiver.fifos with
  | true =>
    have ready := sound.ready fifos
    cases fifo : receiver.fifo with
    | nil => simp_all [held, Receiver.take]
    | cons first rest => simp_all [held, front, Receiver.take]
  | false =>
    cases ready : receiver.ready with
    | true => simp [held, front, Receiver.take, fifos, ready]
    | false => simp [held, Receiver.take, fifos, ready]

theorem take_coming : receiver.take.coming = receiver.coming := by
  unfold take
  split <;> rfl

theorem Sound.accept (sound : receiver.Sound) : (receiver.accept first rest).Sound := by
  unfold Receiver.accept
  split
  · refine ⟨fun _ => by simp [fifoLength], ?_, sound.level⟩
    exact length_take_le _ _
  next fifos =>
    split <;> exact ⟨fun on => absurd on fifos, sound.depth, sound.level⟩

theorem accept_frame (receiver : Receiver) {first : Byte} :
    (receiver.accept first rest).coming = receiver.coming ∧
      (receiver.accept first rest).loopback = receiver.loopback := by
  unfold accept
  split
  · exact ⟨rfl, rfl⟩
  · split <;> exact ⟨rfl, rfl⟩

/-- Characters there is room for are held behind the others, and nothing is overrun. -/
theorem Sound.accept_room (sound : receiver.Sound) (fits : rest.length + 1 ≤ receiver.room) :
    (receiver.accept first rest).held = receiver.held ++ first :: rest ∧
      (receiver.accept first rest).overrun = receiver.overrun := by
  unfold room at fits
  cases fifos : receiver.fifos with
  | true =>
    have bound : receiver.fifo.length + rest.length + 1 ≤ fifoLength := by
      have level := sound.level
      rw [if_pos fifos] at fits
      split at fits
      · omega
      · split at fits <;> omega
    have whole : (receiver.fifo ++ first :: rest).take fifoLength =
        receiver.fifo ++ first :: rest := by
      apply take_of_length_le
      simp only [length_append, length_cons]
      omega
    have none : ¬fifoLength < receiver.fifo.length + rest.length + 1 := by omega
    simp [Receiver.accept, held, fifos, whole, none]
  | false =>
    cases ready : receiver.ready with
    | true => simp [fifos, ready] at fits
    | false =>
      have alone : rest = [] := by simpa [fifos, ready] using fits
      simp [Receiver.accept, held, fifos, ready, alone]

end Facts

end Receiver

namespace Ns16550

def receiver (port : Ns16550) : Receiver where
  fifos := port.fifosEnabled
  ready := port.dataReady
  overrun := has port.lsr lsrOe
  loopback := port.loopback
  rbr := port.rbr
  fifo := port.recvFifo
  level := port.recvFifoItl
  typed := port.typed
  backend := port.backend

/-! ### What leaves the receiver alone -/

section Frame
variable (port : Ns16550) (now : Nat) (byte : Byte)

@[simp] theorem receiver_updateIrq : port.updateIrq.receiver = port.receiver := rfl

@[simp] theorem receiver_send : (port.send byte).receiver = port.receiver := rfl

theorem receiver_writeIer : (port.writeIer byte).receiver = port.receiver := by
  unfold writeIer
  dsimp only
  split <;> split <;> rfl

theorem receiver_checkTimeout : (port.checkTimeout now).2.receiver = port.receiver := by
  unfold checkTimeout
  split
  · rfl
  · split
    · dsimp only
      split <;> rfl
    · rfl

/-- The line status counts for data ready and overrun only. -/
theorem receiver_lsr {lsr : Byte} {ready overrun : Bool} (isReady : has lsr lsrDr = ready)
    (isOverrun : has lsr lsrOe = overrun) :
    ({ port with lsr } : Ns16550).receiver = { port.receiver with ready, overrun } := by
  subst isReady isOverrun
  rfl

theorem receiver_beginTransmit : port.beginTransmit.receiver = port.receiver :=
  receiver_lsr port (has_keep (by decide)) (has_keep (by decide))

theorem receiver_endTransmit : port.endTransmit.receiver = port.receiver :=
  receiver_lsr port (has_or_apart (by decide)) (has_or_apart (by decide))

theorem receiver_writeThr (outside : port.loopback = false) :
    (port.writeThr now byte).receiver = port.receiver := by
  have looped : ¬port.beginTransmit.loopback = true := by
    simpa [loopback, beginTransmit, updateIrq] using outside
  rw [writeThr]
  rw [if_neg looped, receiver_endTransmit, receiver_send, receiver_beginTransmit]

end Frame

/-! ### Reading a character -/

section Read
variable {port : Ns16550} (now : Nat)

theorem readRbr_value (port : Ns16550) : (port.readRbr now).1 = port.receiver.front := by
  unfold readRbr
  split
  next fifos => simp [front, held, receiver, fifos]
  next fifos =>
    cases ready : port.dataReady with
    | true | false => simp [front, held, receiver, fifos, ready]

theorem readRbr_receiver (port : Ns16550) :
    (port.readRbr now).2.receiver = port.receiver.take := by
  have cleared : has (port.lsr &&& ~~~(lsrDr ||| lsrBi)) lsrDr = false := has_clear (by decide)
  have overrun : has (port.lsr &&& ~~~(lsrDr ||| lsrBi)) lsrOe = has port.lsr lsrOe :=
    has_keep (by decide)
  unfold readRbr Receiver.take
  split
  next fifos =>
    rw [if_pos (show port.receiver.fifos = true from fifos)]
    dsimp only
    split
    next last =>
      simp [receiver, dataReady, fifosEnabled, loopback, updateIrq, cleared, overrun, last]
    next more => simp [receiver, dataReady, fifosEnabled, loopback, updateIrq, more]
  next fifos =>
    rw [if_neg (show ¬port.receiver.fifos = true from fifos)]
    simp [receiver, dataReady, fifosEnabled, loopback, updateIrq, cleared, overrun]

end Read

/-! ### Characters arriving -/

section Arrive
variable {port : Ns16550} (now : Nat)

theorem foldl_push_receiver (buf : List Byte) (port : Ns16550)
    (sound : port.recvFifo.length ≤ fifoLength) :
    (buf.foldl push port).receiver =
      { port.receiver with
        fifo := (port.recvFifo ++ buf).take fifoLength
        overrun := has port.lsr lsrOe || fifoLength < port.recvFifo.length + buf.length } := by
  induction buf generalizing port with
  | nil =>
    have none : ¬fifoLength < port.recvFifo.length := by omega
    simp [receiver, take_of_length_le sound, none]
  | cons byte rest inductionHypothesis =>
    rw [foldl_cons]
    by_cases fits : port.recvFifo.length < fifoLength
    · have pushed : port.push byte = { port with recvFifo := port.recvFifo ++ [byte] } :=
        if_pos fits
      rw [pushed, inductionHypothesis _ (by simpa using Nat.succ_le_of_lt fits)]
      simp [receiver, fifosEnabled, dataReady, loopback, Nat.add_comm 1, Nat.add_assoc]
    · have dropped : port.push byte = { port with lsr := port.lsr ||| lsrOe } := if_neg fits
      rw [dropped, inductionHypothesis { port with lsr := port.lsr ||| lsrOe } sound]
      have full : port.recvFifo.length = fifoLength := by omega
      have ready : has (port.lsr ||| lsrOe) lsrDr = has port.lsr lsrDr :=
        has_or_apart (by decide)
      have overrun : has (port.lsr ||| lsrOe) lsrOe = true := has_or_within (by decide)
      have kept (more : List Byte) : (port.recvFifo ++ more).take fifoLength = port.recvFifo := by
        rw [← full, take_left]
      simp [receiver, fifosEnabled, dataReady, loopback, ready, overrun, kept, full]

theorem receiver_readied (port : Ns16550) :
    ({ port with lsr := port.lsr ||| lsrDr } : Ns16550).receiver =
      { port.receiver with ready := true } :=
  receiver_lsr port (has_or_within (by decide)) (has_or_apart (by decide))

theorem receive_receiver (sound : port.receiver.Sound) :
    (port.receive now (first :: rest)).receiver = port.receiver.accept first rest := by
  unfold receive accept
  cases fifos : port.fifosEnabled with
  | true =>
    rw [if_pos (show port.receiver.fifos = true from fifos)]
    have pushed := foldl_push_receiver (first :: rest) port sound.depth
    refine (receiver_readied ((first :: rest).foldl push port)).trans ?_
    rw [pushed]
    rfl
  | false =>
    rw [if_neg (show ¬port.receiver.fifos = true by
      simp [receiver, fifos])]
    cases ready : port.dataReady with
    | true =>
      refine (receiver_readied { port with lsr := port.lsr ||| lsrOe }).trans ?_
      have overrun : has (port.lsr ||| lsrOe) lsrOe = true := has_or_within (by decide)
      simp [receiver, overrun, fifosEnabled, loopback, ready]
    | false =>
      rw [if_neg (show ¬port.receiver.ready = true by
        simp [receiver, ready])]
      exact receiver_readied { port with rbr := first }

/-- How many answers are left to be had. -/
def pendingAnswers (port : Ns16550) : Nat := port.typed.length + port.backend.length

/-- `port'` is `port` after the characters in `bytes` were fetched. -/
structure Fetched (port port' : Ns16550) (bytes : List Byte) : Prop where
  rest : ∃ typed backend, port' = { port with typed, backend }
  coming : port.receiver.coming = bytes ++ port'.receiver.coming
  answers : port'.pendingAnswers + bytes.length ≤ port.pendingAnswers

theorem recvByte_fetched (port : Ns16550) :
    Fetched port port.recvByte.2 port.recvByte.1.toList := by
  unfold recvByte
  split
  next byte rest typed =>
    refine ⟨⟨_, _, rfl⟩, ?_, ?_⟩
    · simp [coming, receiver, typed]
    · simp only [pendingAnswers, typed, Option.toList_some, length_cons, length_nil]
      omega
  next typed =>
    split
    next answer rest backend =>
      refine ⟨⟨_, _, rfl⟩, ?_, ?_⟩
      · cases answer with
        | none | some byte => simp [coming, receiver, typed, backend]
      · simp only [pendingAnswers, typed, backend, length_cons, length_nil]
        have one := Option.length_toList_le (o := answer)
        omega
    · exact ⟨⟨_, _, rfl⟩, rfl, Nat.le_refl _⟩

theorem Fetched.cons {first second third : Ns16550} (before : Fetched first second [byte])
    (after : Fetched second third bytes) :
    Fetched first third (byte :: bytes) := by
  refine ⟨?_, ?_, ?_⟩
  · obtain ⟨_, _, rfl⟩ := before.rest
    exact after.rest
  · rw [before.coming, after.coming]
    rfl
  · have first := before.answers
    have second := after.answers
    simp only [length_cons, length_nil] at first ⊢
    omega

/-- The characters gathered are the next ones coming, and no more than asked for. -/
theorem gather_fetched (port : Ns16550) :
    (port.gather n).1.length ≤ n ∧ Fetched port (port.gather n).2 (port.gather n).1 := by
  induction n generalizing port with
  | zero => exact ⟨Nat.le_refl 0, ⟨_, _, rfl⟩, rfl, Nat.le_refl _⟩
  | succ n inductionHypothesis =>
    have fetched := recvByte_fetched port
    rw [gather]
    generalize port.recvByte = result at fetched ⊢
    rcases result with ⟨_ | byte, next⟩
    · exact ⟨Nat.zero_le _, fetched⟩
    · obtain ⟨fewer, later⟩ := inductionHypothesis next
      exact ⟨Nat.succ_le_succ fewer, fetched.cons later⟩

/-- What a turn of the loop does: it ends, or takes the next characters, which there is
room for. -/
theorem pumpLoop_cases {fuel : Nat} (port : Ns16550) :
    (∃ port', pumpLoop now (fuel + 1) moved port = (moved, port') ∧ Fetched port port' []) ∨
      ∃ first rest port', pumpLoop now (fuel + 1) moved port =
          pumpLoop now fuel true (port'.receive now (first :: rest)) ∧
        Fetched port port' (first :: rest) ∧ rest.length + 1 ≤ port.receiver.room := by
  rw [pumpLoop]
  split
  · exact .inl ⟨port, rfl, ⟨_, _, rfl⟩, rfl, Nat.le_refl _⟩
  · obtain ⟨fewer, fetched⟩ := gather_fetched port
    generalize port.gather port.canReceive = result at fewer fetched ⊢
    rcases result with ⟨_ | ⟨first, rest⟩, port'⟩
    · exact .inl ⟨port', rfl, fetched⟩
    · exact .inr ⟨first, rest, port', rfl, fetched, fewer⟩

variable {port' : Ns16550}

/-- `port'` is `port` after `out` left it at the front, with none of the other characters
lost or overrun. -/
structure Passes (port port' : Ns16550) (out : List Byte) : Prop where
  sound : port'.receiver.Sound
  stream : port.receiver.stream = out ++ port'.receiver.stream
  overrun : port'.receiver.overrun = true → port.receiver.overrun = true
  loopback : port'.receiver.loopback = port.receiver.loopback

theorem Passes.trans {first second third : Ns16550} {out : List Byte}
    (before : Passes first second out) (after : Passes second third more) :
    Passes first third (out ++ more) :=
  ⟨after.sound, by rw [before.stream, after.stream, append_assoc],
    fun overrun => before.overrun (after.overrun overrun), after.loopback.trans before.loopback⟩

theorem Passes.of_eq {after : Receiver} (same : port'.receiver = after) (sound : after.Sound)
    {out : List Byte} (stream : port.receiver.stream = out ++ after.stream)
    (overrun : after.overrun = true → port.receiver.overrun = true)
    (loopback : after.loopback = port.receiver.loopback) : Passes port port' out := by
  subst same
  exact ⟨sound, stream, overrun, loopback⟩

theorem Passes.of_receiver (sound : port.receiver.Sound) (same : port'.receiver = port.receiver) :
    Passes port port' [] :=
  .of_eq same sound rfl id rfl

theorem Fetched.passes (fetched : Fetched port port' []) (sound : port.receiver.Sound) :
    Passes port port' [] := by
  obtain ⟨_, _, rfl⟩ := fetched.rest
  refine ⟨{ sound with }, ?_, id, rfl⟩
  rw [stream, fetched.coming]
  rfl

/-- Characters there is room for move on into the receiver. -/
theorem Fetched.received (fetched : Fetched port port' (first :: rest))
    (sound : port.receiver.Sound) (fits : rest.length + 1 ≤ port.receiver.room) :
    Passes port (port'.receive now (first :: rest)) [] := by
  obtain ⟨typed, backend, rfl⟩ := fetched.rest
  have sound' : ({ port with typed, backend } : Ns16550).receiver.Sound := { sound with }
  obtain ⟨grown, overrun⟩ := @Sound.accept_room first rest _ sound' fits
  obtain ⟨coming, loopback⟩ := accept_frame ({ port with typed, backend } : Ns16550).receiver
  refine .of_eq (receive_receiver now sound') sound'.accept ?_ ?_ loopback
  · rw [stream, fetched.coming, stream, grown, coming, nil_append, append_assoc]
    rfl
  · rw [overrun]
    exact id

theorem pumpLoop_passes {fuel : Nat} (sound : port.receiver.Sound) :
    Passes port (pumpLoop now fuel moved port).2 [] := by
  induction fuel generalizing moved port with
  | zero => exact .of_receiver sound rfl
  | succ fuel inductionHypothesis =>
    rcases pumpLoop_cases moved now port with ⟨port', ended, fetched⟩ |
      ⟨first, rest, port', taken, fetched, fits⟩
    · rw [ended]
      exact fetched.passes sound
    · rw [taken]
      have received := fetched.received now sound fits
      exact received.trans (inductionHypothesis true received.sound)

theorem receive_pendingAnswers (buf : List Byte) (port : Ns16550) :
    (port.receive now buf).pendingAnswers = port.pendingAnswers := by
  cases buf with
  | nil => rfl
  | cons first rest =>
    rw [receive]
    split
    · refine foldlRecOn (first :: rest) push (motive := fun other => pendingAnswers other = _)
        rfl fun other same byte _ => ?_
      rw [push]
      split <;> exact same
    · split <;> rfl

/-- The loop of `pump` ends by itself: more turns change nothing. -/
theorem pumpLoop_enough (more : Nat) (enough : port.pendingAnswers < fuel) :
    pumpLoop now (fuel + more) moved port = pumpLoop now fuel moved port := by
  induction fuel generalizing moved port with
  | zero => omega
  | succ fuel inductionHypothesis =>
    rw [Nat.add_right_comm, pumpLoop, pumpLoop]
    split
    · rfl
    obtain ⟨-, fetched⟩ := gather_fetched port
    generalize port.gather port.canReceive = result at fetched ⊢
    rcases result with ⟨_ | ⟨first, rest⟩, port'⟩
    · rfl
    · apply inductionHypothesis
      have fewer := fetched.answers
      rw [receive_pendingAnswers]
      simp only [length_cons] at fewer
      omega

theorem pump_passes (outside : port.loopback = false) (sound : port.receiver.Sound) :
    Passes port (port.pump now).2 [] := by
  rw [pump, if_neg (by simp [outside])]
  exact pumpLoop_passes false now sound

end Arrive

/-! ### The port's operations -/

/-- Everything that is done to a port, each at its time. -/
inductive Op
  | read (reg : Nat)
  | write (reg : Nat) (byte : Byte)
  | pump
  | checkTimeout
  | typeIn (bytes : List Byte)
  | reset
  | setBaudbase (baudbase : Nat)
  | dmaWrite (byte : Byte)
  | dmaRead
  | dmaModemControl (byte : Byte)

def step (charTime : CharTime) (port : Ns16550) : Nat × Op → Ns16550
  | (now, .read reg) => (port.read now reg).2
  | (now, .write reg byte) => port.write charTime now reg byte
  | (now, .pump) => (port.pump now).2
  | (now, .checkTimeout) => (port.checkTimeout now).2
  | (now, .typeIn bytes) => port.typeIn now bytes
  | (_, .reset) => port.reset
  | (_, .setBaudbase baudbase) => port.setBaudbase charTime baudbase
  | (now, .dmaWrite byte) => port.dmaWrite now byte
  | (now, .dmaRead) => (port.dmaRead now).2
  | (now, .dmaModemControl byte) => port.dmaModemControl charTime now byte

/-- A write of the FIFO control register flushes the receive side. -/
def flushes (port : Ns16550) (byte : Byte) : Bool :=
  has (byte ^^^ port.fcr) fcrFe || has byte fcrRfr

/-- The guest's register accesses, short of a flush or loopback, and the polls. -/
def Quiet (port : Ns16550) : Nat × Op → Prop
  | (_, .read _) => True
  | (_, .write reg byte) =>
    (reg % 8 = iirFcr → port.flushes byte = false) ∧
      (reg % 8 = Reg.mcr → has byte mcrLoop = false)
  | (_, .pump) => True
  | (_, .checkTimeout) => True
  | _ => False

instance (port : Ns16550) : ∀ op, Decidable (port.Quiet op)
  | (_, .read _) | (_, .pump) | (_, .checkTimeout) => .isTrue trivial
  | (_, .write _ _) => inferInstanceAs (Decidable (_ ∧ _))
  | (_, .typeIn _) | (_, .reset) | (_, .setBaudbase _) | (_, .dmaWrite _) | (_, .dmaRead)
  | (_, .dmaModemControl _) => .isFalse id

/-- What a read of the line status at this time says of received data. -/
def reportsReady (port : Ns16550) (now : Nat) : Bool := has (port.read now Reg.lsr).1 lsrDr

/-- A character read from the receive buffer while data are reported ready. -/
def taken (port : Ns16550) : Nat × Op → List Byte
  | (now, .read reg) =>
    if reg % 8 = thr ∧ port.dlab = false ∧ port.reportsReady now = true then
      [(port.read now reg).1]
    else []
  | _ => []

/-! ### One step -/

section Step
variable {port : Ns16550} (now : Nat)

theorem receiver_flushTransmit (port : Ns16550) : port.flushTransmit.receiver = port.receiver :=
  receiver_lsr port (has_or_apart (by decide)) (has_or_apart (by decide))

theorem triggerLevel_le {fcr : Byte} : triggerLevel fcr ≤ fifoLength := by
  unfold triggerLevel
  split <;> decide

theorem receiver_transmit (port : Ns16550) (byte : Byte) :
    (if has byte fcrXfr then port.flushTransmit else port).receiver = port.receiver := by
  split
  · exact receiver_flushTransmit port
  · rfl

theorem receiver_setFcr (sound : port.receiver.Sound) : ∃ level ≤ fifoLength,
    (port.setFcr byte).receiver = { port.receiver with fifos := has byte fcrFe, level } := by
  have enable : has (byte &&& 0xc9) fcrFe = has byte fcrFe := has_and (by decide)
  unfold setFcr
  dsimp only
  split
  · refine ⟨triggerLevel (byte &&& 0xc9), triggerLevel_le, ?_⟩
    simp only [receiver, fifosEnabled, dataReady, loopback, enable]
  · refine ⟨port.recvFifoItl, sound.level, ?_⟩
    simp only [receiver, fifosEnabled, dataReady, loopback, enable]

theorem reportsReady_eq (port : Ns16550) :
    port.reportsReady now = (port.pump now).2.dataReady := by
  have kept := receiver_checkTimeout (port.pump now).2 now
  have ready := congrArg ready kept
  change has (port.readLsr now).1 lsrDr = _
  rw [readLsr]
  dsimp only
  split <;> exact ready

theorem taken_other (port : Ns16550) (other : reg % 8 ≠ 0) : port.taken (now, .read reg) = [] :=
  if_neg fun all => other all.1

variable (sound : port.receiver.Sound)
include sound

theorem writeFcr_passes (quiet : port.flushes byte = false) :
    Passes port (port.writeFcr byte) [] := by
  obtain ⟨same, unflushed⟩ : has (byte ^^^ port.fcr) fcrFe = false ∧ has byte fcrRfr = false := by
    simpa [flushes] using quiet
  have enable : has byte fcrFe = port.receiver.fifos := has_congr_of_xor same
  have unfolded : port.writeFcr byte =
      ((if has byte fcrXfr then port.flushTransmit else port).setFcr byte).updateIrq := by
    simp [writeFcr, same, unflushed]
  obtain ⟨level, within, kept⟩ := @receiver_setFcr byte _ ((receiver_transmit port byte).symm ▸ sound)
  have same : (port.writeFcr byte).receiver = { port.receiver with level } := by
    rw [unfolded, receiver_updateIrq, kept, receiver_transmit, enable]
  exact .of_eq same ⟨sound.ready, sound.depth, within⟩ rfl id rfl

theorem readRbr_passes :
    Passes port (port.readRbr now).2 (if port.dataReady then [(port.readRbr now).1] else []) := by
  refine .of_eq (readRbr_receiver now port) sound.take ?_ ?_ ?_
  · rw [stream, sound.held_take, readRbr_value, stream, take_coming,
      append_assoc]
    rfl
  · rw [Receiver.take]
    split <;> exact id
  · rw [Receiver.take]
    split <;> rfl

theorem clearLatches_passes :
    Passes port ({ port with lsr := port.lsr &&& ~~~(lsrBi ||| lsrOe) } : Ns16550).updateIrq [] := by
  have cleared : ({ port with lsr := port.lsr &&& ~~~(lsrBi ||| lsrOe) } : Ns16550).receiver =
      { port.receiver with overrun := false } :=
    receiver_lsr port (has_keep (by decide)) (has_clear (by decide))
  exact .of_eq ((receiver_updateIrq _).trans cleared) { sound with } rfl nofun rfl

theorem readIir_passes : Passes port (port.readIir now).2 [] := by
  have kept := receiver_checkTimeout port now
  apply Passes.of_receiver sound
  rw [readIir]
  dsimp only
  split <;> exact kept

theorem readMsr_passes : Passes port port.readMsr.2 [] := by
  apply Passes.of_receiver sound
  rw [readMsr]
  split <;> rfl

variable (outside : port.loopback = false)
include outside

theorem readData_passes :
    Passes port (port.readData now).2
      (if port.reportsReady now then [(port.readData now).1] else []) := by
  have pumped := pump_passes now outside sound
  have read := readRbr_passes now pumped.sound
  have passed := pumped.trans read
  have again := pump_passes now (passed.loopback.trans outside) read.sound
  have whole := passed.trans again
  rw [append_nil] at whole
  rw [reportsReady_eq]
  exact whole

theorem readLsr_passes :
    Passes port (port.readLsr now).2 [] := by
  have pumped := pump_passes now outside sound
  have checked := pumped.trans
    (.of_receiver pumped.sound (receiver_checkTimeout (port.pump now).2 now))
  rw [readLsr]
  dsimp only
  split
  · exact checked.trans (clearLatches_passes checked.sound)
  · exact checked

theorem read_passes : Passes port (port.read now reg).2 (port.taken (now, .read reg)) := by
  have unchanged : Passes port port [] := .of_receiver sound rfl
  by_cases data : reg % 8 = 0
  · have taken : port.taken (now, .read reg) =
        if port.dlab = false ∧ port.reportsReady now = true then [(port.read now reg).1] else [] := by
      simp [taken, thr, data]
    rw [taken, read, data]
    cases latch : port.dlab with
    | true => simpa using unchanged
    | false => simpa using readData_passes now sound outside
  · rw [taken_other now port data, read]
    split
    · contradiction
    · exact unchanged
    · exact readIir_passes now sound
    · exact unchanged
    · exact unchanged
    · exact readLsr_passes now sound outside
    · exact readMsr_passes sound
    · exact unchanged

theorem write_passes (quiet : port.Quiet (now, .write reg byte)) :
    Passes port (port.write charTime now reg byte) [] := by
  have unchanged : Passes port port [] := .of_receiver sound rfl
  obtain ⟨unflushed, unlooped⟩ := quiet
  unfold write
  split
  · split
    · exact .of_receiver sound rfl
    · exact .of_receiver sound (receiver_writeThr port now byte outside)
  · split
    · exact .of_receiver sound rfl
    · exact .of_receiver sound (receiver_writeIer port byte)
  next here => exact writeFcr_passes sound (unflushed here)
  · exact .of_receiver sound rfl
  next here =>
    have kept : has (byte &&& 0x1f) mcrLoop = port.loopback :=
      (has_and (by decide)).trans ((unlooped here).trans outside.symm)
    apply Passes.of_receiver sound
    change ({ port with mcr := byte &&& 0x1f } : Ns16550).receiver = _
    simp only [receiver, loopback, kept, fifosEnabled, dataReady]
  · exact unchanged
  · exact unchanged
  · exact .of_receiver sound rfl

theorem step_passes (charTime : CharTime) {op : Nat × Op} (quiet : port.Quiet op) :
    Passes port (port.step charTime op) (port.taken op) := by
  obtain ⟨now, op⟩ := op
  cases op with
  | read reg => exact read_passes now sound outside
  | write reg byte => exact write_passes now sound outside quiet
  | pump => exact pump_passes now outside sound
  | checkTimeout => exact .of_receiver sound (receiver_checkTimeout port now)
  | typeIn | reset | setBaudbase | dmaWrite | dmaRead | dmaModemControl => exact quiet.elim

end Step

/-! ### What keeps the receiver sound -/

section Sound
variable {port : Ns16550} (now : Nat)

theorem flushReceive_receiver (port : Ns16550) :
    port.flushReceive.receiver = { port.receiver with ready := false, fifo := [] } :=
  receiver_lsr { port with recvFifo := [] } (has_clear (by decide)) (has_keep (by decide))

theorem reset_sound (port : Ns16550) : port.reset.receiver.Sound := by
  refine ⟨fun fifos => ?_, Nat.zero_le _, (by decide : 1 ≤ fifoLength)⟩
  exact absurd fifos (by simp [receiver, reset, fifosEnabled, has])

variable (sound : port.receiver.Sound)
include sound

theorem writeThr_sound : (port.writeThr now byte).receiver.Sound := by
  have begun : port.beginTransmit.receiver.Sound := by
    rw [receiver_beginTransmit]
    exact sound
  rw [writeThr]
  rw [receiver_endTransmit]
  split
  · rw [receive_receiver now begun]
    exact begun.accept
  · exact begun

/-- A write of the FIFO control register that leaves the FIFO enabled as it is, or has
emptied it. -/
theorem setFcr_sound (fits : has byte fcrFe = port.receiver.fifos ∨
      port.receiver.ready = false ∧ port.receiver.fifo = []) :
    (port.setFcr byte).receiver.Sound := by
  obtain ⟨level, within, kept⟩ := @receiver_setFcr byte _ sound
  rw [kept]
  refine ⟨fun fifos => ?_, sound.depth, within⟩
  rcases fits with same | ⟨unready, empty⟩
  · exact sound.ready (same ▸ fifos)
  · simp [unready, empty]

theorem flushReceive_sound : port.flushReceive.receiver.Sound := by
  rw [flushReceive_receiver]
  exact ⟨fun _ => by simp, Nat.zero_le _, sound.level⟩

theorem writeFcr_sound : (port.writeFcr byte).receiver.Sound := by
  rw [writeFcr, receiver_updateIrq]
  cases change : has (byte ^^^ port.fcr) fcrFe with
  | true =>
    -- the flush empties the FIFO whichever way the enable changes
    have flush : has (byte ||| (fcrXfr ||| fcrRfr)) fcrRfr = true := has_or_within (by decide)
    rw [if_pos rfl, if_pos flush]
    apply setFcr_sound
    · rw [receiver_transmit]
      exact flushReceive_sound sound
    · rw [receiver_transmit, flushReceive_receiver]
      exact .inr ⟨rfl, rfl⟩
  | false =>
    have same : has byte fcrFe = port.receiver.fifos := has_congr_of_xor change
    rw [if_neg Bool.false_ne_true]
    apply setFcr_sound
    · rw [receiver_transmit]
      split
      · exact flushReceive_sound sound
      · exact sound
    · rw [receiver_transmit]
      left
      split <;> exact same

theorem receive_sound (buf : List Byte) : (port.receive now buf).receiver.Sound := by
  cases buf with
  | nil => exact sound
  | cons first rest =>
    rw [receive_receiver now sound]
    exact sound.accept

end Sound

/-! ### What keeps status and interrupts settled -/

def Timed (port : Ns16550) : Prop :=
  port.recvFifo ≠ [] → port.timeoutDeadline.isSome = true ∨ port.timeoutIpending = true

/-- Nothing is left to be identified, and no character waits without a timeout. -/
structure Settled (port : Ns16550) : Prop where
  timed : port.Timed
  iir : port.iir &&& 0x0f = port.cause

section Settled
variable {port : Ns16550} (now : Nat)

theorem cause_low (port : Ns16550) : port.cause &&& 0x0f = port.cause := by
  unfold cause
  repeat' split
  all_goals rfl

theorem updateIrq_settled (timed : port.Timed) : port.updateIrq.Settled := by
  refine ⟨timed, ?_⟩
  change (port.cause ||| (port.iir &&& 0xf0)) &&& 0x0f = port.cause
  rw [BitVec.and_or_distrib_right, cause_low, BitVec.and_assoc]
  simp

theorem reset_settled (port : Ns16550) : port.reset.Settled := by
  refine ⟨fun some => absurd rfl some, ?_⟩
  simp [cause, reset, has]
  rfl

variable (settled : port.Settled)
include settled

theorem receive_settled (buf : List Byte) : (port.receive now buf).Settled := by
  unfold receive
  split
  · exact settled
  · split
    · exact updateIrq_settled fun _ => .inl rfl
    · apply updateIrq_settled
      split <;> exact settled.timed

theorem readRbr_settled : (port.readRbr now).2.Settled := by
  unfold readRbr
  split
  · apply updateIrq_settled
    split
    next last => exact fun some => absurd (isEmpty_iff.mp last) some
    · exact fun _ => .inl rfl
  · exact updateIrq_settled settled.timed

theorem checkTimeout_settled : (port.checkTimeout now).2.Settled := by
  unfold checkTimeout
  split
  · exact settled
  · split
    · dsimp only
      split
      next empty => exact ⟨fun some => absurd (isEmpty_iff.mp empty) some, settled.iir⟩
      · exact updateIrq_settled fun _ => .inr rfl
    · exact settled

theorem writeThr_settled {byte : Byte} : (port.writeThr now byte).Settled := by
  have begun : port.beginTransmit.Settled := updateIrq_settled settled.timed
  apply updateIrq_settled
  split
  · exact (receive_settled now begun [byte]).timed
  · exact begun.timed

/-- An enable that does not change its bits leaves every cause as it was. -/
theorem writeIer_settled {byte : Byte} : (port.writeIer byte).Settled := by
  unfold writeIer
  dsimp only
  split
  next same =>
    have bits (mask : Byte) (within : 0x0f &&& mask = mask) :
        has (byte &&& 0x0f) mask = has port.ier mask := by
      rw [has_and within]
      apply (has_congr_of_xor _).symm
      rw [has, ← within, ← BitVec.and_assoc, same]
      simp
    rw [if_neg (by rw [same]; decide)]
    refine ⟨settled.timed, settled.iir.trans ?_⟩
    unfold cause
    simp only [bits _ (by decide : 0x0f &&& ierRls = ierRls),
      bits _ (by decide : 0x0f &&& ierRx = ierRx), bits _ (by decide : 0x0f &&& ierTx = ierTx),
      bits _ (by decide : 0x0f &&& ierMs = ierMs)]
    rfl
  · apply updateIrq_settled
    split <;> exact settled.timed

theorem writeFcr_settled {byte : Byte} : (port.writeFcr byte).Settled := by
  have setFcr (port : Ns16550) (byte : Byte) (timed : port.Timed) : (port.setFcr byte).Timed := by
    unfold setFcr
    dsimp only
    split <;> exact timed
  have flushed (byte : Byte) : (if has byte fcrRfr then port.flushReceive else port).Timed := by
    split
    · exact fun some => absurd rfl some
    · exact settled.timed
  apply updateIrq_settled
  apply setFcr
  generalize (if has (byte ^^^ port.fcr) fcrFe then _ else byte) = byte
  split <;> exact flushed byte

end Settled

/-! ### What every operation keeps -/

def InOrder (port : Ns16550) : Prop := port.receiver.Sound ∧ port.Settled

section InOrder
variable {port : Ns16550} (now : Nat)

theorem reset_inOrder (port : Ns16550) : port.reset.InOrder :=
  ⟨reset_sound port, reset_settled port⟩

variable (inOrder : port.InOrder)
include inOrder

theorem fetched_inOrder (fetched : Fetched port port' bytes) : port'.InOrder := by
  obtain ⟨_, _, rfl⟩ := fetched.rest
  exact ⟨{ inOrder.1 with }, { inOrder.2 with }⟩

theorem receive_inOrder (buf : List Byte) : (port.receive now buf).InOrder :=
  ⟨receive_sound now inOrder.1 buf, receive_settled now inOrder.2 buf⟩

theorem pumpLoop_inOrder {fuel : Nat} : (pumpLoop now fuel moved port).2.InOrder := by
  induction fuel generalizing moved port with
  | zero => exact inOrder
  | succ fuel inductionHypothesis =>
    rcases pumpLoop_cases moved now port with ⟨port', ended, fetched⟩ |
      ⟨first, rest, port', taken, fetched, -⟩
    · rw [ended]
      exact fetched_inOrder inOrder fetched
    · rw [taken]
      exact inductionHypothesis true (receive_inOrder now (fetched_inOrder inOrder fetched) _)

theorem pump_inOrder : (port.pump now).2.InOrder := by
  unfold pump
  split
  · exact ⟨{ inOrder.1 with }, { inOrder.2 with }⟩
  · exact pumpLoop_inOrder false now inOrder

theorem readRbr_inOrder : (port.readRbr now).2.InOrder :=
  ⟨(readRbr_receiver now port).symm ▸ inOrder.1.take, readRbr_settled now inOrder.2⟩

theorem checkTimeout_inOrder : (port.checkTimeout now).2.InOrder :=
  ⟨(receiver_checkTimeout port now).symm ▸ inOrder.1, checkTimeout_settled now inOrder.2⟩

theorem readLsr_inOrder : (port.readLsr now).2.InOrder := by
  have checked := checkTimeout_inOrder now (pump_inOrder now inOrder)
  rw [readLsr]
  dsimp only
  split
  · exact ⟨(clearLatches_passes checked.1).sound, updateIrq_settled checked.2.timed⟩
  · exact checked

theorem read_inOrder {reg : Nat} : (port.read now reg).2.InOrder := by
  unfold read
  split
  · split
    · exact inOrder
    · exact pump_inOrder now (readRbr_inOrder now (pump_inOrder now inOrder))
  · exact inOrder
  · have checked := checkTimeout_inOrder now inOrder
    rw [readIir]
    dsimp only
    split
    · exact ⟨checked.1, updateIrq_settled checked.2.timed⟩
    · exact checked
  · exact inOrder
  · exact inOrder
  · exact readLsr_inOrder now inOrder
  · rw [readMsr]
    split
    · exact ⟨inOrder.1, updateIrq_settled inOrder.2.timed⟩
    · exact inOrder
  · exact inOrder

theorem writeThr_inOrder {byte : Byte} : (port.writeThr now byte).InOrder :=
  ⟨writeThr_sound now inOrder.1, writeThr_settled now inOrder.2⟩

theorem write_inOrder : (port.write charTime now reg byte).InOrder := by
  obtain ⟨sound, settled⟩ := inOrder
  unfold write
  split
  · split
    · exact ⟨sound, { settled with }⟩
    · exact writeThr_inOrder now ⟨sound, settled⟩
  · split
    · exact ⟨sound, { settled with }⟩
    · exact ⟨(receiver_writeIer port byte).symm ▸ sound, writeIer_settled settled⟩
  · exact ⟨writeFcr_sound sound, writeFcr_settled settled⟩
  · exact ⟨sound, { settled with }⟩
  · exact ⟨{ sound with }, updateIrq_settled settled.timed⟩
  · exact ⟨sound, settled⟩
  · exact ⟨sound, settled⟩
  · exact ⟨sound, { settled with }⟩

theorem step_inOrder : (port.step charTime op).InOrder := by
  obtain ⟨now, op⟩ := op
  cases op with
  | read reg => exact read_inOrder now inOrder
  | write reg byte => exact write_inOrder now inOrder
  | pump => exact pump_inOrder now inOrder
  | checkTimeout => exact checkTimeout_inOrder now inOrder
  | typeIn bytes => exact pump_inOrder now ⟨{ inOrder.1 with }, { inOrder.2 with }⟩
  | reset => exact reset_inOrder port
  | setBaudbase baudbase => exact ⟨inOrder.1, { inOrder.2 with }⟩
  | dmaWrite byte => exact writeThr_inOrder now inOrder
  | dmaRead =>
    have pumped := pump_inOrder now inOrder
    change (port.dmaRead now).2.InOrder
    rw [dmaRead]
    dsimp only
    split
    · exact readRbr_inOrder now (readLsr_inOrder now pumped)
    · exact pumped
  | dmaModemControl byte => exact write_inOrder now inOrder

end InOrder

/-- The states a port can get into. -/
def Reachable (charTime : CharTime) (port : Ns16550) : Prop :=
  ∃ baudbase backend ops, port = foldl (step charTime) (new baudbase backend) ops

theorem Reachable.sound {charTime : CharTime} {port : Ns16550}
    (reachable : port.Reachable charTime) : port.receiver.Sound := by
  obtain ⟨baudbase, backend, ops, rfl⟩ := reachable
  exact (foldlRecOn ops (step charTime) (reset_inOrder _)
    fun _ inOrder _ _ => step_inOrder inOrder).1

end Ns16550

open Ns16550

/-- From any state a port outside loopback can be in, in every run of register accesses and
polls that does not flush the FIFO or enter loopback: the characters read while data are
reported ready, then those held, then those still to come are the characters there were to
be had, in order; and no overrun is latched. -/
theorem receive_stream (charTime : CharTime) (port : Ns16550)
    (reachable : port.Reachable charTime) (outside : port.loopback = false)
    (ops : List (Nat × Op)) (quiet : Along (step charTime) Quiet port ops) :
    port.receiver.held ++ port.receiver.coming =
        emitted (step charTime) taken port ops ++
          ((ops.foldl (step charTime) port).receiver.held ++
            (ops.foldl (step charTime) port).receiver.coming) ∧
      (has port.lsr lsrOe = false → has (ops.foldl (step charTime) port).lsr lsrOe = false) := by
  obtain ⟨⟨-, -, overrun⟩, conserved⟩ := emitted_conserved
    (fun port => port.receiver.stream)
    (fun port' => port'.receiver.Sound ∧ port'.loopback = false ∧
      (has port'.lsr lsrOe = true → has port.lsr lsrOe = true))
    (fun port op kept quiet => by
      obtain ⟨sound, outside, overrun⟩ := kept
      have passes := step_passes sound outside charTime quiet
      exact ⟨⟨passes.sound, passes.loopback.trans outside,
        fun latched => overrun (passes.overrun latched)⟩, passes.stream⟩)
    ops quiet ⟨reachable.sound, outside, id⟩
  refine ⟨conserved, fun clear => ?_⟩
  cases latched : has (ops.foldl (step charTime) port).lsr lsrOe with
  | false => rfl
  | true => exact absurd (overrun latched) (by simp [clear])

/-- A port with its FIFO on, after the host end delivered a character. -/
def fifoPort : Ns16550 :=
  [(0, .write iirFcr 0x81), (0, .pump)].foldl (step fun _ _ _ => 1000)
    (new 115200 [some 0x41, none, some 0x42, none, none, some 0x43])

def fifoReads : List (Nat × Op) :=
  [(1, .read lsr), (2, .read thr), (3, .write lcr 0x80), (4, .read thr),
    (5, .write lcr 0), (6, .write iirFcr 0x41), (7, .read thr), (8, .read thr),
    (9, .read thr)]

/-- Three characters come through while the guest opens the divisor latch and lowers the
trigger level; a read that finds nothing takes nothing. -/
theorem fifo_reads_stream : [0x41, 0x42, 0x43] = emitted (step fun _ _ _ => 1000) taken fifoPort
    fifoReads := by
  have stream := (receive_stream (fun _ _ _ => 1000) fifoPort ⟨_, _, _, rfl⟩ (by decide +kernel)
    fifoReads (by decide +kernel)).1
  have before : fifoPort.receiver.held ++ fifoPort.receiver.coming = [0x41, 0x42, 0x43] := by
    decide +kernel
  have after : (fifoReads.foldl (step fun _ _ _ => 1000) fifoPort).receiver.held ++
      (fifoReads.foldl (step fun _ _ _ => 1000) fifoPort).receiver.coming = [] := by
    decide +kernel
  exact before.symm.trans (stream.trans (by rw [after, append_nil]))

end Iris.Serial
