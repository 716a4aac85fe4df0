import Iris.Net.Tcp.Conn
import Iris.Library.Stream

/-!
Owns the integrity of the guest's byte stream on its way to the backend: over
every run of segments and polls, what the backend received and what is still
buffered for it are a prefix of the guest's stream.
-/

namespace Iris.Net.Tcp

open Library Stream TcpConn

/-! ### Runs -/

inductive ConnOp
  | segment (now : Nat) (tcp : TcpSegment) (writes : List WriteOutcome)
  | poll (outside : PollInput)
deriving DecidableEq, Repr

def connStep (conn : TcpConn) : ConnOp → TcpConn
  | .segment now tcp writes => (conn.input now tcp writes).1
  | .poll outside => (conn.poll outside).1

def connRun (conn : TcpConn) (ops : List ConnOp) : TcpConn := ops.foldl connStep conn

/-! ### The two sides -/

/-- What came from the guest, and how far it is handed on. -/
def TcpConn.inbound (conn : TcpConn) : List Byte × List Byte × Bool × Bool × Bool :=
  (conn.backend.received, conn.toBackend, conn.guestFin, conn.backendShut, conn.backend.writeShut)

/-- What goes to the guest, and what it takes. -/
def TcpConn.outbound (conn : TcpConn) :=
  (conn.backend.supplied, conn.rtoDeadline, conn.iss, conn.sndUna, conn.sndNxt, conn.sndMax,
    conn.unacked, conn.backendEof, conn.finSent, conn.peerMss, conn.peerWin)

/-- The receive side is untouched. -/
structure SameReceive (conn conn' : TcpConn) : Prop where
  inbound : conn'.inbound = conn.inbound
  irs : conn'.irs = conn.irs
  rcvNxt : conn'.rcvNxt = conn.rcvNxt
  waiting : conn'.state = .synSent → conn.state = .synSent

theorem SameReceive.trans {first second third : TcpConn} (before : SameReceive first second)
    (after : SameReceive second third) : SameReceive first third where
  inbound := after.inbound.trans before.inbound
  irs := after.irs.trans before.irs
  rcvNxt := after.rcvNxt.trans before.rcvNxt
  waiting := fun waiting => before.waiting (after.waiting waiting)

variable (conn : TcpConn)

theorem SameReceive.refl : SameReceive conn conn :=
  ⟨rfl, rfl, rfl, id⟩

theorem closeIfDone_same : SameReceive conn (conn.closeIfDone now) := by
  unfold closeIfDone
  split
  · exact ⟨rfl, rfl, rfl, nofun⟩
  · exact .refl conn

theorem abort_same : SameReceive conn (conn.abort now).1 :=
  ⟨rfl, rfl, rfl, nofun⟩

theorem sentTo_same {last : BitVec 32} : SameReceive conn (conn.sentTo last) :=
  ⟨rfl, rfl, rfl, id⟩

theorem backoff_same : SameReceive conn (conn.backoff now) :=
  ⟨rfl, rfl, rfl, id⟩

theorem armRto_same {now : Nat} : SameReceive conn (conn.armRto now) := by
  unfold armRto
  split
  · exact ⟨rfl, rfl, rfl, id⟩
  · exact .refl conn

theorem updateWindow_same (budget : Nat) : SameReceive conn (conn.updateWindow budget).1 := by
  unfold updateWindow
  dsimp only
  split
  · exact ⟨rfl, rfl, rfl, id⟩
  · exact .refl conn

theorem retransmit_same : SameReceive conn (conn.retransmit now out).1 := by
  have rewound : SameReceive conn { conn with sndNxt := conn.sndUna } :=
    ⟨rfl, rfl, rfl, id⟩
  unfold retransmit
  split
  · exact (sentTo_same conn).trans (backoff_same _)
  · dsimp only
    split
    · exact (rewound.trans (sentTo_same _)).trans (backoff_same _)
    · exact rewound.trans (backoff_same _)

theorem sendFin_same (now budget : Nat) (out : List Frame) :
    SameReceive conn (conn.sendFin now budget out).1 := by
  unfold sendFin
  split
  · have marked : SameReceive conn { conn.sentTo (conn.sndNxt + 1) with finSent := true } :=
      ⟨rfl, rfl, rfl, id⟩
    exact marked.trans (armRto_same _)
  · exact .refl conn

theorem processAck_same (now : Nat) (tcp : TcpSegment) :
    SameReceive conn (conn.processAck now tcp) := by
  unfold processAck
  split
  · split <;> exact ⟨rfl, rfl, rfl, id⟩
  · exact .refl conn

/-- What each round of `fill_window` keeps: a chunk goes out, or the backend fails, ends or
supplies more. -/
theorem fillWindow_keeps {motive : TcpConn → Prop} {conn : TcpConn}
    (chunk : ∀ conn last, motive conn → motive ((sentTo conn last).armRto now))
    (stops : ∀ conn reset backendEof, motive conn → motive { conn with reset, backendEof })
    (more : ∀ conn data, motive conn → motive
      { conn with
        unacked := conn.unacked ++ data
        backend := { conn.backend with supplied := conn.backend.supplied ++ data }
        lastUse := now })
    (begins : motive conn) : motive (fillWindow now budget fuel conn reads out).1 := by
  induction fuel generalizing conn reads out with
  | zero => exact begins
  | succ fuel inductionHypothesis =>
    unfold fillWindow
    dsimp only
    split
    · exact begins
    split
    · exact inductionHypothesis (chunk _ _ begins)
    split
    · exact begins
    split
    · exact begins
    · exact begins
    · exact inductionHypothesis begins
    · exact stops _ true _ begins
    · split
      · exact stops _ _ true begins
      · exact inductionHypothesis (more _ _ begins)

theorem fillWindow_same (now budget fuel : Nat) (reads : List ReadOutcome) (out : List Frame) :
    SameReceive conn (fillWindow now budget fuel conn reads out).1 :=
  fillWindow_keeps (fun _ _ same => (same.trans (sentTo_same _)).trans (armRto_same _))
    (fun _ _ _ same => { same with }) (fun _ _ same => { same with }) (.refl conn)

/-! ### The invariant -/

def TcpConn.taken (conn : TcpConn) : Nat :=
  conn.backend.received.length + conn.toBackend.length

/-- The connection holds a prefix of the stream that starts after the guest's
initial sequence number. -/
structure Receiving (stream : List Byte) (irs : BitVec 32) (conn : TcpConn) : Prop where
  bytes : conn.backend.received ++ conn.toBackend = stream.take conn.taken
  next : conn.rcvNxt =
    irs + 1 + BitVec.ofNat 32 conn.taken + if conn.guestFin then 1 else 0
  buffered : conn.toBackend.length ≤ rcvBuf
  finished : conn.guestFin = true → conn.taken = stream.length
  shut : conn.backendShut = true → conn.guestFin = true ∧ conn.toBackend = []
  writeShut : conn.backend.writeShut = conn.backendShut
  initial : conn.irs = irs
  synchronised : conn.state ≠ .synSent

/-- A segment with data or a FIN carries the stream at its sequence number, a
FIN ends the stream, and the segment lies less than 2^32 bytes from what was
taken. -/
def Fits (stream : List Byte) (irs : BitVec 32) (conn : TcpConn) (tcp : TcpSegment) : Prop :=
  tcp.payload ≠ [] ∨ tcp.flags.fin = true →
    ∃ offset, tcp.seq = irs + 1 + BitVec.ofNat 32 offset ∧ Carries stream offset tcp.payload ∧
      (tcp.flags.fin = true → offset + tcp.payload.length = stream.length) ∧
      conn.taken < offset + 2 ^ 32 ∧ offset + tcp.payload.length < conn.taken + 2 ^ 32

variable {conn} {conn' : TcpConn} {stream : List Byte} {irs : BitVec 32}

theorem taken_congr (same : SameReceive conn conn') : conn'.taken = conn.taken :=
  congrArg (fun inbound => inbound.1.length + inbound.2.1.length) same.inbound

section
variable (inv : Receiving stream irs conn)
include inv

theorem Receiving.congr (same : SameReceive conn conn') : Receiving stream irs conn' := by
  have taken := taken_congr same
  have inbound := same.inbound
  simp only [TcpConn.inbound, Prod.mk.injEq] at inbound
  obtain ⟨received, toBackend, guestFin, backendShut, writeShut⟩ := inbound
  refine ⟨?_, ?_, ?_, ?_, ?_, ?_, ?_, fun waiting => inv.synchronised (same.waiting waiting)⟩
  · rw [received, toBackend, taken]; exact inv.bytes
  · rw [same.rcvNxt, guestFin, taken]; exact inv.next
  · rw [toBackend]; exact inv.buffered
  · rw [guestFin, taken]; exact inv.finished
  · rw [backendShut, guestFin, toBackend]; exact inv.shut
  · rw [writeShut, backendShut]; exact inv.writeShut
  · rw [same.irs]; exact inv.initial

/-! ### Handing over to the backend -/

/-- An accepted write moves the head of the buffer to the backend. -/
theorem Receiving.accepted :
    Receiving stream irs
      { conn with
        toBackend := conn.toBackend.drop count
        backend := { conn.backend with
          received := conn.backend.received ++ conn.toBackend.take count }
        lastUse := now } := by
  have taken : (conn.backend.received ++ conn.toBackend.take count).length +
      (conn.toBackend.drop count).length = conn.taken := by
    unfold taken
    rw [List.length_append, Nat.add_assoc, ← List.length_append, List.take_append_drop]
  refine ⟨?_, ?_, ?_, ?_, ?_, inv.writeShut, inv.initial, inv.synchronised⟩
  · show _ ++ _ ++ _ = stream.take (_ + _)
    rw [taken, List.append_assoc, List.take_append_drop]
    exact inv.bytes
  · show conn.rcvNxt = irs + 1 + BitVec.ofNat 32 (_ + _) + _
    rw [taken]
    exact inv.next
  · rw [List.length_drop]
    exact Nat.le_trans (Nat.sub_le _ _) inv.buffered
  · show conn.guestFin = true → _ + _ = stream.length
    rw [taken]
    exact inv.finished
  · intro shut
    obtain ⟨fin, empty⟩ := inv.shut shut
    refine ⟨fin, ?_⟩
    rw [empty, List.drop_nil]

theorem Receiving.flushWrites (now : Nat) (writes : List WriteOutcome) :
    Receiving stream irs (flushWrites now conn writes) := by
  induction writes generalizing conn with
  | nil => exact inv
  | cons outcome rest inductionHypothesis =>
    unfold flushWrites
    split
    · exact inv
    split
    · exact inv
    · exact inductionHypothesis inv.accepted
    · exact inv
    · exact inductionHypothesis inv
    · exact inv
    · exact inv.congr ⟨rfl, rfl, rfl, id⟩

theorem Receiving.flushToBackend (now : Nat) (writes : List WriteOutcome) :
    Receiving stream irs (conn.flushToBackend now writes) := by
  have flushed := inv.flushWrites now writes
  unfold TcpConn.flushToBackend
  dsimp only
  split
  next done =>
    exact { flushed with shut := fun _ => ⟨done.1, done.2.1⟩, writeShut := rfl }
  · exact flushed

end

/-! ### Taking a segment -/

variable {tcp : TcpSegment}

section
variable (inv : Receiving stream irs conn)
include inv

section
variable (opened : conn.guestFin = false)
include opened

/-- Without an accepted FIN the next expected position is the taken count. -/
theorem Receiving.rcvNxt_open :
    conn.rcvNxt = irs + 1 + BitVec.ofNat 32 conn.taken := by
  have next := inv.next
  rw [opened] at next
  simpa using next

/-- Bytes that continue the stream and fit the buffer may be appended. -/
theorem Receiving.extended
    (continues : stream.take conn.taken ++ fresh = stream.take (conn.taken + fresh.length))
    (room : conn.toBackend.length + fresh.length ≤ rcvBuf) :
    Receiving stream irs
      { conn with
        toBackend := conn.toBackend ++ fresh
        rcvNxt := conn.rcvNxt + BitVec.ofNat 32 fresh.length } := by
  have taken : conn.backend.received.length + (conn.toBackend ++ fresh).length =
      conn.taken + fresh.length := by
    rw [List.length_append, ← Nat.add_assoc]
    rfl
  have open' : ¬ conn.guestFin = true := by simp [opened]
  refine ⟨?_, ?_, ?_, fun fin => absurd fin open', ?_, inv.writeShut, inv.initial, inv.synchronised⟩
  · show _ ++ (_ ++ _) = stream.take (_ + _)
    rw [taken, ← List.append_assoc, inv.bytes]
    exact continues
  · show conn.rcvNxt + _ = irs + 1 + BitVec.ofNat 32 (_ + _) + (if conn.guestFin = true then 1 else 0)
    rw [taken, inv.rcvNxt_open opened, if_neg open', BitVec.ofNat_add, ← BitVec.add_assoc]
    exact (BitVec.add_zero _).symm
  · rw [List.length_append]
    exact room
  · intro shut
    exact absurd (inv.shut shut).1 open'

/-- The acceptance test on wrapped positions is the one on stream offsets. -/
theorem Receiving.behind_eq (position : tcp.seq = irs + 1 + BitVec.ofNat 32 offset)
    (notStale : conn.taken < offset + 2 ^ 32)
    (notEarly : offset + tcp.payload.length < conn.taken + 2 ^ 32)
    (overlaps : (conn.rcvNxt - tcp.seq).toNat < tcp.payload.length) :
    offset ≤ conn.taken ∧ (conn.rcvNxt - tcp.seq).toNat = conn.taken - offset := by
  rw [inv.rcvNxt_open opened, position] at overlaps ⊢
  rcases Nat.lt_or_ge conn.taken offset with ahead | reached
  · rw [toNat_sub_of_lt ahead (by omega)] at overlaps
    omega
  · exact ⟨reached, toNat_sub_of_le (irs + 1) reached notStale⟩

end

/-- The data step keeps the invariant and takes nothing past the segment. -/
theorem Receiving.processData (position : tcp.seq = irs + 1 + BitVec.ofNat 32 offset)
    (carries : Carries stream offset tcp.payload) (notStale : conn.taken < offset + 2 ^ 32)
    (notEarly : offset + tcp.payload.length < conn.taken + 2 ^ 32) :
    Receiving stream irs (conn.processData tcp) ∧ conn.taken ≤ (conn.processData tcp).taken ∧
      ((conn.processData tcp).taken = conn.taken ∨
        (conn.processData tcp).taken ≤ offset + tcp.payload.length) := by
  unfold TcpConn.processData
  dsimp only
  split
  · exact ⟨inv, Nat.le_refl _, .inl rfl⟩
  split
  next accepted =>
    obtain ⟨_, overlaps, open'⟩ := accepted
    have opened : conn.guestFin = false := by simpa using open'
    obtain ⟨reached, behind⟩ :=
      inv.behind_eq opened position notStale notEarly overlaps
    rw [behind] at overlaps ⊢
    generalize count_eq : min (tcp.payload.drop (conn.taken - offset)).length
      (rcvBuf - conn.toBackend.length) = count
    have available : count ≤ (tcp.payload.drop (conn.taken - offset)).length := by omega
    have room : conn.toBackend.length + count ≤ rcvBuf := by
      have buffered := inv.buffered
      omega
    have length : ((tcp.payload.drop (conn.taken - offset)).take count).length = count := by
      rw [List.length_take, Nat.min_eq_left available]
    have extended := inv.extended opened
      (by rw [length]; exact carries.continues reached available) (by rw [length]; exact room)
    rw [length] at extended
    have taken : (taken
        { conn with
          toBackend := conn.toBackend ++ (tcp.payload.drop (conn.taken - offset)).take count
          rcvNxt := conn.rcvNxt + BitVec.ofNat 32 count }) = conn.taken + count := by
      show conn.backend.received.length + List.length (_ ++ _) = _
      rw [List.length_append, length, ← Nat.add_assoc]
      rfl
    rw [List.length_drop] at available
    exact ⟨extended, by omega, .inr (by omega)⟩
  · exact ⟨inv, Nat.le_refl _, .inl rfl⟩

theorem Receiving.processFin (position : tcp.seq = irs + 1 + BitVec.ofNat 32 offset)
    (ends : tcp.flags.fin = true → offset + tcp.payload.length = stream.length)
    (notStale : conn.taken < offset + tcp.payload.length + 2 ^ 32)
    (notEarly : offset + tcp.payload.length < conn.taken + 2 ^ 32) :
    Receiving stream irs (conn.processFin tcp) := by
  unfold TcpConn.processFin
  split
  next accepted =>
    obtain ⟨fin, atNext, open'⟩ := accepted
    have opened : conn.guestFin = false := by simpa using open'
    rw [position, inv.rcvNxt_open opened, BitVec.add_assoc, ← BitVec.ofNat_add,
      position_eq_iff notEarly notStale] at atNext
    refine { inv with next := ?_, finished := fun _ => atNext.symm.trans (ends fin), shut := ?_ }
    · rw [inv.rcvNxt_open opened]
      rfl
    · intro shut
      exact absurd (inv.shut shut).1 open'
  · exact inv

end

/-! ### Each call keeps the invariant -/

theorem Fits.congr (fits : Fits stream irs conn tcp) (same : SameReceive conn conn') :
    Fits stream irs conn' tcp := by
  unfold Fits at *
  rw [taken_congr same]
  exact fits

section
variable (inv : Receiving stream irs conn) (fits : Fits stream irs conn tcp)
include inv fits

theorem Receiving.processSegment :
    Receiving stream irs ((conn.processData tcp).processFin tcp) := by
  by_cases counts : tcp.payload ≠ [] ∨ tcp.flags.fin = true
  · obtain ⟨offset, position, carries, ends, notStale, notEarly⟩ := fits counts
    obtain ⟨kept, grown, bounded⟩ := inv.processData position carries notStale notEarly
    apply kept.processFin position ends
    · omega
    · omega
  · have empty : tcp.payload = [] := by
      by_contra data
      exact counts (.inl data)
    have noFin : ¬ tcp.flags.fin = true := fun fin => counts (.inr fin)
    have data : conn.processData tcp = conn := by
      unfold TcpConn.processData
      rw [if_pos empty]
    rw [data]
    unfold TcpConn.processFin
    rw [if_neg fun accepted => noFin accepted.1]
    exact inv

theorem Receiving.inputEstablished :
    Receiving stream irs (conn.inputEstablished now tcp writes).1 := by
  have acked := processAck_same conn now tcp
  have taken := (inv.congr acked).processSegment (fits.congr acked)
  have flushed := taken.flushToBackend now writes
  unfold TcpConn.inputEstablished
  split
  · apply Receiving.congr _ (closeIfDone_same _)
    exact flushed.congr ⟨rfl, rfl, rfl, id⟩
  · exact flushed.congr (closeIfDone_same _)

theorem Receiving.input : Receiving stream irs (conn.input now tcp writes).1 := by
  have used : SameReceive conn { conn with lastUse := now } :=
    ⟨rfl, rfl, rfl, id⟩
  unfold TcpConn.input
  dsimp only
  split
  · exact inv.congr
      ⟨rfl, rfl, rfl, nofun⟩
  split
  · exact inv.congr used
  next waiting => exact absurd waiting inv.synchronised
  · split
    · exact inv.congr used
    split
    · have opened : SameReceive conn
          { conn with
            state := .established, sndUna := tcp.ack, rto := rtoInitial, rtoDeadline := none,
            lastProgress := now, lastUse := now } :=
        ⟨rfl, rfl, rfl, nofun⟩
      exact (inv.congr opened).inputEstablished (fits.congr opened)
    · exact inv.congr used
  iterate 2
    split
    · exact inv.congr used
    · exact (inv.congr used).inputEstablished (fits.congr used)

end

theorem transmit_same : SameReceive conn (conn.transmit outside out).1 := by
  unfold transmit
  dsimp only
  have filled := fillWindow_same conn outside.now outside.budget
    (outside.budget + outside.reads.length) outside.reads out
  have finished := filled.trans (sendFin_same _ outside.now outside.budget
    (fillWindow outside.now outside.budget (outside.budget + outside.reads.length) conn
      outside.reads out).2)
  split
  · exact finished.trans (abort_same _)
  · exact finished.trans (closeIfDone_same _)

theorem Receiving.pollEstablished (inv : Receiving stream irs conn) :
    Receiving stream irs (conn.pollEstablished outside).1 := by
  have flushed := inv.flushToBackend outside.now outside.writes
  have updated := flushed.congr (updateWindow_same _ outside.budget)
  unfold TcpConn.pollEstablished
  dsimp only
  split
  · split
    · exact updated.congr (abort_same _)
    · exact updated.congr ((retransmit_same _).trans transmit_same)
  · exact updated.congr transmit_same

theorem Receiving.poll (inv : Receiving stream irs conn) :
    Receiving stream irs (conn.poll outside).1 := by
  unfold TcpConn.poll
  dsimp only
  split
  · exact inv.congr (abort_same conn)
  split
  · split
    · exact inv
    · exact inv.congr ⟨rfl, rfl, rfl, nofun⟩
    · exact inv.congr ⟨rfl, rfl, rfl, nofun⟩
  next waiting => exact absurd waiting inv.synchronised
  · split
    · split
      · exact inv.congr (abort_same conn)
      · exact inv.congr (backoff_same conn)
    · exact inv
  · exact inv
  · exact inv.pollEstablished

/-! ### Opening -/

def NothingTaken (conn : TcpConn) : Prop := conn.inbound = ([], [], false, false, false)

theorem NothingTaken.receiving (nothing : NothingTaken conn) (synchronised : conn.state ≠ .synSent)
    (next : conn.rcvNxt = conn.irs + 1) :
    Receiving stream conn.irs conn := by
  simp only [NothingTaken, inbound, Prod.mk.injEq] at nothing
  obtain ⟨received, toBackend, guestFin, backendShut, writeShut⟩ := nothing
  have taken : conn.taken = 0 := by
    unfold taken
    rw [received, toBackend]
    rfl
  refine ⟨?_, ?_, ?_, ?_, ?_, ?_, rfl, synchronised⟩
  · rw [received, toBackend, taken]; rfl
  · rw [next, guestFin, taken]; simp
  · rw [toBackend]; exact Nat.zero_le _
  · exact fun fin => nomatch guestFin.symm.trans fin
  · exact fun shut => nomatch backendShut.symm.trans shut
  · rw [writeShut, backendShut]

theorem flushWrites_kept (conn : TcpConn) {now : Nat} {writes : List WriteOutcome} :
    (flushWrites now conn writes).outbound = conn.outbound ∧
      (flushWrites now conn writes).state = conn.state := by
  induction writes generalizing conn with
  | nil => exact ⟨rfl, rfl⟩
  | cons outcome rest inductionHypothesis =>
    unfold flushWrites
    split
    · exact ⟨rfl, rfl⟩
    split
    · exact ⟨rfl, rfl⟩
    · exact inductionHypothesis _
    · exact ⟨rfl, rfl⟩
    · exact inductionHypothesis _
    · exact ⟨rfl, rfl⟩
    · exact ⟨rfl, rfl⟩

/-- A flush leaves the send side. -/
theorem flushToBackend_kept (conn : TcpConn) (now : Nat) (writes : List WriteOutcome) :
    (conn.flushToBackend now writes).outbound = conn.outbound ∧
      (conn.flushToBackend now writes).state = conn.state := by
  unfold flushToBackend
  dsimp only
  split <;> exact flushWrites_kept conn

theorem processSegment_state (conn : TcpConn) (tcp : TcpSegment) :
    ((conn.processData tcp).processFin tcp).state = conn.state := by
  unfold processFin processData
  dsimp only
  split <;> split <;> (try split) <;> rfl

theorem inputEstablished_waiting
    (waiting : (conn.inputEstablished now tcp writes).1.state = .synSent) :
    conn.state = .synSent := by
  have taken : ((((conn.processAck now tcp).processData tcp).processFin tcp).flushToBackend now
      writes).state = .synSent → conn.state = .synSent := by
    intro after
    rw [(flushToBackend_kept _ _ _).2, processSegment_state] at after
    exact (processAck_same conn now tcp).waiting after
  unfold inputEstablished at waiting
  split at waiting
  · have advertised := (closeIfDone_same _).waiting waiting
    exact taken advertised
  · exact taken ((closeIfDone_same _).waiting waiting)

theorem pollEstablished_waiting (waiting : (conn.pollEstablished outside).1.state = .synSent) :
    conn.state = .synSent := by
  have flushed : ((conn.flushToBackend outside.now outside.writes).updateWindow
      outside.budget).1.state = .synSent → conn.state = .synSent := by
    intro after
    have before := (updateWindow_same _ outside.budget).waiting after
    rw [(flushToBackend_kept _ _ _).2] at before
    exact before
  unfold pollEstablished at waiting
  dsimp only at waiting
  split at waiting
  · split at waiting
    · exact flushed ((abort_same _).waiting waiting)
    · exact flushed (((retransmit_same _).trans
        transmit_same).waiting waiting)
  · exact flushed ((transmit_same).waiting waiting)

theorem input_waiting (waiting : (conn.input now tcp writes).1.state = .synSent) :
    SameReceive conn (conn.input now tcp writes).1 ∧ conn.state = .synSent := by
  unfold input at waiting ⊢
  dsimp only at waiting ⊢
  split at waiting
  · cases waiting
  next notReset =>
    simp only [notReset, if_false, Bool.false_eq_true]
    split at waiting
    next connecting => cases connecting.symm.trans waiting
    next before =>
      refine ⟨?_, before⟩
      split at waiting
      · cases waiting
      next notAnswer =>
        rw [if_neg notAnswer]
        split <;> exact ⟨rfl, rfl, rfl, fun _ => before⟩
    next before =>
      split at waiting
      · cases before.symm.trans waiting
      · split at waiting
        · cases inputEstablished_waiting waiting
        · cases before.symm.trans waiting
    iterate 2
      rename_i before
      split at waiting
      · cases before.symm.trans waiting
      · have waiting' := inputEstablished_waiting waiting
        cases before.symm.trans waiting'

theorem poll_waiting (waiting : (conn.poll outside).1.state = .synSent) :
    SameReceive conn (conn.poll outside).1 ∧ conn.state = .synSent := by
  unfold poll at waiting ⊢
  dsimp only at waiting ⊢
  split at waiting
  · cases waiting
  next notReset =>
    simp only [notReset, if_false, Bool.false_eq_true]
    split at waiting
    next before =>
      split at waiting
      · cases before.symm.trans waiting
      · cases waiting
      · cases waiting
    next before =>
      refine ⟨?_, before⟩
      split
      · split
        · exact abort_same conn
        · exact backoff_same conn
      · exact .refl conn
    next before =>
      split at waiting
      · split at waiting
        · cases waiting
        · cases before.symm.trans waiting
      · cases before.symm.trans waiting
    next before => cases before.symm.trans waiting
    next before => cases before.symm.trans (pollEstablished_waiting waiting)

/-- Until its SYN is answered, a connection opened toward the guest takes
nothing. -/
theorem connRun_nothingTaken (nothing : conn.state = .synSent → NothingTaken conn)
    (waiting : (connRun conn ops).state = .synSent) : NothingTaken (connRun conn ops) := by
  induction ops generalizing conn with
  | nil => exact nothing waiting
  | cons op rest inductionHypothesis =>
    apply inductionHypothesis _ waiting
    intro stepped
    have kept : SameReceive conn (connStep conn op) ∧ conn.state = .synSent := by
      cases op with
      | segment now tcp writes => exact input_waiting stepped
      | poll outside => exact poll_waiting stepped
    obtain ⟨same, before⟩ := kept
    exact same.inbound.trans (nothing before)

/-- A connection whose guest-side initial sequence number is known: the guest's
SYN opened it, or the guest answered our SYN. -/
inductive Opens : BitVec 32 → TcpConn → Prop
  | accepted (iss : BitVec 32) (now : Nat) (syn : TcpSegment) :
      Opens syn.seq (accept iss now syn)
  | answered (iss : BitVec 32) (opened : Nat) (ops : List ConnOp) (now : Nat)
      (synAck : TcpSegment) (writes : List WriteOutcome)
      (waiting : (connRun (openToGuest iss opened) ops).state = .synSent)
      (flags : synAck.flags.rst = false ∧ synAck.flags.syn = true ∧ synAck.flags.ack = true)
      (answers : synAck.ack = (connRun (openToGuest iss opened) ops).iss + 1) :
      Opens synAck.seq
        (connStep (connRun (openToGuest iss opened) ops) (.segment now synAck writes))

theorem input_answered (now : Nat) (writes : List WriteOutcome) (waiting : conn.state = .synSent)
    (flags : tcp.flags.rst = false ∧ tcp.flags.syn = true ∧ tcp.flags.ack = true)
    (answers : tcp.ack = conn.iss + 1) :
    (conn.input now tcp writes).1 =
      { conn with
        lastUse := now
        irs := tcp.seq
        rcvNxt := tcp.seq + 1
        sndUna := tcp.ack
        peerWin := tcp.window.toNat
        peerMss := peerMssOf tcp
        state := .established
        rto := rtoInitial
        rtoDeadline := none
        lastProgress := now } := by
  unfold input
  simp only [flags.1, flags.2.1, flags.2.2, waiting, answers, Bool.false_eq_true, if_false,
    and_self, if_true]

theorem Opens.receiving (opens : Opens irs conn) : Receiving stream irs conn := by
  cases opens with
  | accepted iss now syn =>
    have nothing : NothingTaken (accept iss now syn) := rfl
    exact nothing.receiving (by simp [accept]) rfl
  | answered iss opened ops now synAck writes waiting flags answers =>
    have before : NothingTaken (connRun (openToGuest iss opened) ops) :=
      connRun_nothingTaken (fun _ => rfl) waiting
    have stepped := input_answered now writes waiting flags answers
    unfold connStep
    dsimp only
    rw [stepped]
    have nothing : NothingTaken
        { connRun (openToGuest iss opened) ops with
          lastUse := now, irs := synAck.seq, rcvNxt := synAck.seq + 1, sndUna := synAck.ack,
          peerWin := synAck.window.toNat, peerMss := peerMssOf synAck, state := .established,
          rto := rtoInitial, rtoDeadline := none, lastProgress := now } :=
      before
    exact nothing.receiving (by simp) rfl

/-! ### Whole runs -/

/-- Every segment of the run fits the connection it arrives at. -/
def RunFits (stream : List Byte) (irs : BitVec 32) : TcpConn → List ConnOp → Prop
  | _, [] => True
  | conn, .segment now tcp writes :: rest =>
    Fits stream irs conn tcp ∧ RunFits stream irs (connStep conn (.segment now tcp writes)) rest
  | conn, .poll outside :: rest => RunFits stream irs (connStep conn (.poll outside)) rest

section
variable (inv : Receiving stream irs conn)
include inv

theorem Receiving.run (fit : RunFits stream irs conn ops) :
    Receiving stream irs (connRun conn ops) := by
  induction ops generalizing conn with
  | nil => exact inv
  | cons op rest inductionHypothesis =>
    cases op with
    | segment now tcp writes =>
      obtain ⟨fits, later⟩ := fit
      exact inductionHypothesis (inv.input fits) later
    | poll outside => exact inductionHypothesis inv.poll fit

theorem Receiving.taken_le : conn.taken ≤ stream.length := by
  have lengths := congrArg List.length inv.bytes
  rw [List.length_append, List.length_take] at lengths
  unfold taken at *
  omega

/-- Once the write side is shut the backend holds the whole stream. -/
theorem Receiving.shut_complete (shut : conn.backend.writeShut = true) :
    conn.backend.received = stream := by
  obtain ⟨fin, empty⟩ := inv.shut (inv.writeShut.symm.trans shut)
  have bytes := inv.bytes
  rw [empty, List.append_nil, inv.finished fin, List.take_length] at bytes
  exact bytes

end

/-- After every run of polls and fitting segments, what the backend received and
what is buffered for it are the first `n` bytes of the guest's stream, `rcvNxt`
counts them, a FIN was accepted only at the stream's end, the backend's write
side is shut only once it holds the whole stream, and the buffer stays within
the advertised one. -/
theorem guest_stream_intact (stream : List Byte) (irs : BitVec 32) (conn : TcpConn)
    (opens : Opens irs conn) (ops : List ConnOp) (fit : RunFits stream irs conn ops) :
    ∃ n ≤ stream.length,
      (connRun conn ops).backend.received ++ (connRun conn ops).toBackend = stream.take n ∧
      (connRun conn ops).rcvNxt =
        irs + 1 + BitVec.ofNat 32 n + (if (connRun conn ops).guestFin then 1 else 0) ∧
      ((connRun conn ops).guestFin = true → n = stream.length) ∧
      ((connRun conn ops).backend.writeShut = true →
        (connRun conn ops).backend.received = stream) ∧
      (connRun conn ops).toBackend.length ≤ rcvBuf := by
  have inv := (opens.receiving).run fit
  exact ⟨(connRun conn ops).taken, inv.taken_le, inv.bytes, inv.next,
    inv.finished, inv.shut_complete, inv.buffered⟩

/-- A segment with data or a FIN carries the stream at its sequence number, and
a FIN ends the stream. -/
def Carried (stream : List Byte) (irs : BitVec 32) (tcp : TcpSegment) : Prop :=
  tcp.payload ≠ [] ∨ tcp.flags.fin = true →
    ∃ offset, tcp.seq = irs + 1 + BitVec.ofNat 32 offset ∧ Carries stream offset tcp.payload ∧
      (tcp.flags.fin = true → offset + tcp.payload.length = stream.length)

theorem Receiving.fits_of_short (inv : Receiving stream irs conn)
    (short : stream.length < 2 ^ 32) (carried : Carried stream irs tcp) :
    Fits stream irs conn tcp := by
  intro counts
  obtain ⟨offset, position, carries, ends⟩ := carried counts
  have inside : offset + tcp.payload.length ≤ stream.length := by
    rcases counts with data | fin
    · exact carries.within data
    · exact Nat.le_of_eq (ends fin)
  have taken := inv.taken_le
  exact ⟨offset, position, carries, ends, by omega, by omega⟩

/-- A stream shorter than the sequence space leaves no segment out of reach. -/
theorem Receiving.runFits_of_short (inv : Receiving stream irs conn)
    (short : stream.length < 2 ^ 32)
    (carried : ∀ now tcp writes, .segment now tcp writes ∈ ops → Carried stream irs tcp) :
    RunFits stream irs conn ops := by
  induction ops generalizing conn with
  | nil => trivial
  | cons op rest inductionHypothesis =>
    have later := fun now tcp writes member => carried now tcp writes (List.mem_cons_of_mem op member)
    cases op with
    | segment now tcp writes =>
      have fits := inv.fits_of_short short (carried now tcp writes (by simp))
      exact ⟨fits, inductionHypothesis (inv.input fits) later⟩
    | poll outside => exact inductionHypothesis inv.poll later

/-! ### Two connections -/

/-- The guest's SYN, with the last sequence number before the wrap. -/
def lastSyn : TcpSegment := ⟨4294967295, 0, { syn := true }, 8192, none, []⟩

def dataSegment (seq : BitVec 32) (fin : Bool) (payload : List Byte) : TcpSegment :=
  ⟨seq, 1001, { fin, ack := true }, 8192, none, payload⟩

def connectPoll : ConnOp := .poll ⟨0, 8, .connected, [], []⟩

/-- Out of order, overlapping, with partial writes, and a FIN. -/
def overlappingRun : List ConnOp :=
  [connectPoll, .segment 1 (dataSegment 2 false [13, 14]) [],
    .segment 2 (dataSegment 0 false [11, 12]) [.accepted 1],
    .segment 3 (dataSegment 1 true [12, 13, 14]) [.wouldBlock],
    .poll ⟨4, 8, .pending, [.accepted 2, .interrupted, .accepted 5], [.wouldBlock]⟩]

theorem guest_stream_intact_overlapping :
    ∃ n ≤ 4, (connRun (accept 1000 0 lastSyn) overlappingRun).backend.received ++
        (connRun (accept 1000 0 lastSyn) overlappingRun).toBackend =
        List.take n [11, 12, 13, 14] ∧
      (connRun (accept 1000 0 lastSyn) overlappingRun).backend.writeShut = true := by
  obtain ⟨n, bound, bytes, _⟩ := guest_stream_intact [11, 12, 13, 14] 4294967295
    (accept 1000 0 lastSyn) (.accepted 1000 0 lastSyn) overlappingRun
    ⟨fun _ => ⟨2, by decide, rfl, by decide, by decide +kernel, by decide +kernel⟩,
      fun _ => ⟨0, by decide, rfl, by decide, by decide +kernel, by decide +kernel⟩,
      fun _ => ⟨1, by decide, rfl, by decide, by decide +kernel, by decide +kernel⟩, trivial⟩
  exact ⟨n, bound, bytes, by decide +kernel⟩

/-- A stream of 2^32 zero bytes and a one. Its last byte has the sequence number
of the first: arriving first, it is taken as the start of the stream. -/
theorem sequence_aliases_after_turn :
    Carries (List.replicate (2 ^ 32) 0 ++ [1]) (2 ^ 32) (dataSegment 0 false [1]).payload ∧
      (dataSegment 0 false [1]).seq = 4294967295 + 1 + BitVec.ofNat 32 (2 ^ 32) ∧
      (connRun (accept 1000 0 lastSyn)
        [connectPoll, .segment 1 (dataSegment 0 false [1]) []]).toBackend = [1] ∧
      (List.replicate (2 ^ 32) (0 : Byte) ++ [1]).take 1 = [0] := by
  refine ⟨?_, by decide, by decide +kernel, ?_⟩
  · show [1] = ((List.replicate (2 ^ 32) (0 : Byte) ++ [1]).drop (2 ^ 32)).take 1
    rw [List.drop_left' List.length_replicate]
    rfl
  · rfl

end Iris.Net.Tcp
