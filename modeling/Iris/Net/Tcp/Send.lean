import Iris.Library.Run
import Iris.Net.Tcp.Receive

/-!
Owns the integrity of the backend's byte stream on its way to the guest. The three
send pointers are followed as offsets into the whole stream; over every run of
segments and polls they stay in order, the buffer is what the stream holds from
the first of them on, and every frame carries the stream at its sequence number.
-/

namespace Iris.Net.Tcp

open Library Run Stream List BitVec TcpConn

/-! ### Sequence numbers as offsets -/

section Offsets
variable (base : BitVec 32)

/-- The sequence number `offset` behind `base`. -/
def seqAt (offset : Nat) : BitVec 32 := base + BitVec.ofNat 32 offset

theorem seqAt_add {count : Nat} :
    seqAt base offset + BitVec.ofNat 32 count = seqAt base (offset + count) := by
  rw [seqAt, seqAt, BitVec.add_assoc, BitVec.ofNat_add]

variable {base}

theorem seqGt_seqAt (near : first < second + 2 ^ 31) (near' : second < first + 2 ^ 31) :
    seqGt (seqAt base first) (seqAt base second) = true ↔ second < first := by
  unfold seqGt
  rw [decide_eq_true_iff]
  rcases Nat.lt_or_ge first second with ahead | behind
  · have distance : (seqAt base first - seqAt base second).toNat = 2 ^ 32 - (second - first) :=
      toNat_sub_of_lt ahead (by omega)
    rw [toInt_eq_toNat_cond]
    split <;> omega
  · have distance : (seqAt base first - seqAt base second).toNat = first - second :=
      toNat_sub_of_le base behind (by omega)
    rw [toInt_eq_toNat_of_lt (by omega)]
    omega

/-- An acknowledgment the code accepts names an offset behind `una` up to `last`. -/
theorem ack_offset {ack : BitVec 32} (order : una ≤ last) (near : last < una + 2 ^ 31)
    (after : seqGt ack (seqAt base una) = true) (within : seqGt ack (seqAt base last) = false) :
    ∃ offset, ack = seqAt base offset ∧ una < offset ∧ offset ≤ last := by
  let ahead := (ack - seqAt base una).toNat
  have position : ack = seqAt base (una + ahead) := by
    rw [← seqAt_add, BitVec.ofNat_toNat, BitVec.setWidth_eq, BitVec.add_comm, BitVec.sub_add_cancel]
  have reach : 0 < ahead ∧ ahead < 2 ^ 31 := by
    unfold seqGt at after
    rw [decide_eq_true_iff, toInt_eq_toNat_cond] at after
    split at after <;> omega
  refine ⟨una + ahead, position, by omega, ?_⟩
  by_contra beyond
  rw [position] at within
  have later := (@seqGt_seqAt base (una + ahead) last (by omega) (by omega)).mpr (by omega)
  cases later.symm.trans within

end Offsets

/-! ### The invariant -/

/-- Where the send pointers stand, counted from the initial sequence number: the SYN
is at 0, the first byte of the stream at 1, the FIN behind the last one. -/
structure SendOffsets where
  una : Nat
  nxt : Nat
  last : Nat

/-- The send side over `stream`, whose first part the backend has supplied. -/
structure Sending (stream : List Byte) (conn : TcpConn) (pos : SendOffsets) : Prop where
  sndUna : conn.sndUna = seqAt conn.iss pos.una
  sndNxt : conn.sndNxt = seqAt conn.iss pos.nxt
  sndMax : conn.sndMax = seqAt conn.iss pos.last
  una_le : pos.una ≤ pos.nxt
  nxt_le : pos.nxt ≤ pos.last
  unacked : conn.unacked = conn.backend.supplied.drop (pos.una - 1)
  buffered : conn.unacked.length ≤ sndBuf
  supplied : conn.backend.supplied <+: stream
  ended : conn.backendEof = true → conn.backend.supplied = stream
  -- Without a FIN only bytes that were supplied have been sent.
  streaming : conn.finSent = false → pos.last ≤ conn.backend.supplied.length + 1
  -- The FIN went out behind the last byte, when all of them were acknowledged.
  finished : conn.finSent = true → conn.backendEof = true ∧
    conn.backend.supplied.length + 1 ≤ pos.una ∧ pos.last = conn.backend.supplied.length + 2
  -- Nothing is retransmitted behind an acknowledged FIN.
  settled : conn.finSent = true → pos.una = pos.last → conn.rtoDeadline = none
  unsynchronised : pos.una = 0 → conn.backend.supplied = []
  synchronised : conn.state = .established → 1 ≤ pos.una
  handshake : conn.state = .connecting ∨ conn.state = .synSent ∨ conn.state = .synReceived →
    pos.una = 0 ∧ conn.finSent = false
  synOut : conn.state = .synSent ∨ conn.state = .synReceived → 1 ≤ pos.nxt
  peerMss : 0 < conn.peerMss

structure SameSend (conn conn' : TcpConn) : Prop where
  outbound : conn'.outbound = conn.outbound
  state : conn'.state = conn.state ∨ conn'.state = .closed

section Same
variable {conn conn' : TcpConn} {stream : List Byte} {pos : SendOffsets}

theorem SameSend.refl (conn : TcpConn) : SameSend conn conn :=
  ⟨rfl, .inl rfl⟩

theorem SameSend.trans {first second third : TcpConn} (before : SameSend first second)
    (after : SameSend second third) : SameSend first third where
  outbound := after.outbound.trans before.outbound
  state := by
    rcases after.state with same | closed
    · rw [same]
      exact before.state
    · exact .inr closed

theorem Sending.congr (inv : Sending stream conn pos) (same : SameSend conn conn') :
    Sending stream conn' pos := by
  have kept {state : State} (live : state ≠ .closed) (now : conn'.state = state) :
      conn.state = state := by
    rcases same.state with unchanged | closed
    · exact unchanged.symm.trans now
    · exact absurd (now.symm.trans closed) live
  have outbound := same.outbound
  simp only [TcpConn.outbound, Prod.mk.injEq] at outbound
  obtain ⟨supplied, _, _, _, _, _, _, _, _, _, _⟩ := outbound
  cases conn
  subst_vars
  exact
    { inv with
      unacked := supplied ▸ inv.unacked
      supplied := supplied ▸ inv.supplied
      ended := supplied ▸ inv.ended
      streaming := supplied ▸ inv.streaming
      finished := supplied ▸ inv.finished
      unsynchronised := supplied ▸ inv.unsynchronised
      synchronised := fun now => inv.synchronised (kept (by decide) now)
      handshake := fun now => inv.handshake (now.imp (kept (by decide))
        (Or.imp (kept (by decide)) (kept (by decide))))
      synOut := fun now => inv.synOut (now.imp (kept (by decide)) (kept (by decide))) }

variable (conn : TcpConn)

theorem closeIfDone_sameSend : SameSend conn (conn.closeIfDone now) := by
  unfold closeIfDone
  split
  · exact ⟨rfl, .inr rfl⟩
  · exact .refl conn

theorem abort_sameSend : SameSend conn (conn.abort now).1 :=
  ⟨rfl, .inr rfl⟩

theorem updateWindow_sameSend (budget : Nat) : SameSend conn (conn.updateWindow budget).1 := by
  unfold updateWindow
  dsimp only
  split
  · exact ⟨rfl, .inl rfl⟩
  · exact .refl conn

theorem flushToBackend_sameSend (now : Nat) (writes : List WriteOutcome) :
    SameSend conn (conn.flushToBackend now writes) := by
  have kept := flushToBackend_kept conn now writes
  exact ⟨kept.1, .inl kept.2⟩

theorem processData_sameSend (tcp : TcpSegment) : SameSend conn (conn.processData tcp) := by
  unfold processData
  dsimp only
  split
  · exact .refl conn
  · split
    · exact ⟨rfl, .inl rfl⟩
    · exact .refl conn

theorem processFin_sameSend (tcp : TcpSegment) : SameSend conn (conn.processFin tcp) := by
  unfold processFin
  split
  · exact ⟨rfl, .inl rfl⟩
  · exact .refl conn

end Same

/-! ### Acknowledgments -/

section Operations
variable {conn : TcpConn} {stream : List Byte} {pos : SendOffsets}

section
variable (inv : Sending stream conn pos)
include inv

theorem Sending.unacked_length :
    conn.unacked.length = conn.backend.supplied.length - (pos.una - 1) := by
  rw [inv.unacked, length_drop]

/-- What is out never spans more than the buffer, the SYN and the FIN. -/
theorem Sending.span : pos.last < pos.una + 2 ^ 31 := by
  have length := inv.unacked_length
  have buffered := inv.buffered
  unfold sndBuf at buffered
  cases fin : conn.finSent with
  | false =>
    have sent := inv.streaming fin
    rcases Nat.eq_zero_or_pos pos.una with zero | positive <;> omega
  | true =>
    obtain ⟨-, acked, sent⟩ := inv.finished fin
    omega

theorem Sending.bounds : pos.una ≤ pos.nxt ∧ pos.nxt ≤ pos.last ∧ pos.last < pos.una + 2 ^ 31 ∧
    conn.unacked.length = conn.backend.supplied.length - (pos.una - 1) :=
  ⟨inv.una_le, inv.nxt_le, inv.span, inv.unacked_length⟩

theorem Sending.inFlight : conn.inFlight.toNat = pos.nxt - pos.una := by
  have bounds := inv.bounds
  rw [TcpConn.inFlight, inv.sndNxt, inv.sndUna]
  exact toNat_sub_of_le _ inv.una_le (by omega)

end

/-- The pointers after an acknowledgment of `ack`. -/
def SendOffsets.acked (pos : SendOffsets) (ack : Nat) : SendOffsets :=
  ⟨ack, max pos.nxt ack, pos.last⟩

theorem Sending.acknowledged {ack : Nat} (inv : Sending stream conn pos) (now : Nat)
    (after : pos.una < ack) (within : ack ≤ pos.last)
    (opened : conn.state = .established ∨ conn.state = .closed) :
    Sending stream
      { conn with
        unacked := conn.unacked.drop (seqAt conn.iss ack - conn.sndUna).toNat
        sndUna := seqAt conn.iss ack
        sndNxt := if seqGt (seqAt conn.iss ack) conn.sndNxt then seqAt conn.iss ack else conn.sndNxt
        rto := rtoInitial
        rtoDeadline :=
          if seqAt conn.iss ack =
            (if seqGt (seqAt conn.iss ack) conn.sndNxt then seqAt conn.iss ack else conn.sndNxt)
          then none else some (now + rtoInitial)
        lastProgress := now } (pos.acked ack) := by
  have bounds := inv.bounds
  have distance : (seqAt conn.iss ack - conn.sndUna).toNat = ack - pos.una := by
    rw [inv.sndUna]
    exact toNat_sub_of_le _ (by omega) (by omega)
  have next : (if seqGt (seqAt conn.iss ack) conn.sndNxt then seqAt conn.iss ack else conn.sndNxt) =
      seqAt conn.iss (max pos.nxt ack) := by
    rw [inv.sndNxt]
    split <;> rename_i beyond
    · rw [seqGt_seqAt (by omega) (by omega)] at beyond
      rw [Nat.max_eq_right (by omega)]
    · rw [seqGt_seqAt (by omega) (by omega)] at beyond
      rw [Nat.max_eq_left (by omega)]
  have remaining : conn.unacked.drop (ack - pos.una) = conn.backend.supplied.drop (ack - 1) := by
    rcases Nat.eq_zero_or_pos pos.una with zero | positive
    · rw [inv.unacked, inv.unsynchronised zero, drop_nil, drop_nil, drop_nil]
    · rw [inv.unacked, drop_drop]
      congr 1
      omega
  rw [next, distance]
  exact
    { inv with
      sndUna := rfl
      sndNxt := rfl
      una_le := Nat.le_max_right _ _
      nxt_le := Nat.max_le.mpr ⟨inv.nxt_le, within⟩
      unacked := remaining
      buffered := Nat.le_trans (length_drop ▸ Nat.sub_le _ _) inv.buffered
      finished := fun fin => by
        obtain ⟨eof, acked, last⟩ := inv.finished fin
        exact ⟨eof, by simp only [SendOffsets.acked]; omega, last⟩
      settled := fun _ all => by
        simp only [SendOffsets.acked] at all
        have reached : max pos.nxt ack = ack := Nat.max_eq_right (by omega)
        simp only [reached, if_true]
      unsynchronised := fun zero => by
        simp only [SendOffsets.acked] at zero
        omega
      synchronised := fun _ => by
        simp only [SendOffsets.acked]
        omega
      handshake := by
        rintro (now | now | now) <;> rcases opened with state | state <;> cases state.symm.trans now
      synOut := by
        rintro (now | now) <;> rcases opened with state | state <;> cases state.symm.trans now }

theorem Sending.processAck (inv : Sending stream conn pos)
    (opened : conn.state = .established ∨ conn.state = .closed) :
    ∃ pos', Sending stream (conn.processAck now tcp) pos' := by
  unfold TcpConn.processAck
  split
  · split <;> rename_i accepted
    · obtain ⟨after, within⟩ := accepted
      rw [inv.sndUna] at after
      rw [inv.sndMax] at within
      have order := Nat.le_trans inv.una_le inv.nxt_le
      obtain ⟨ack, position, later, reached⟩ :=
        ack_offset order inv.span after (Bool.eq_false_iff.mpr within)
      rw [position]
      have acknowledged := inv.acknowledged now later reached opened
      exact ⟨_, { acknowledged with }⟩
    · exact ⟨pos, { inv with }⟩
  · exact ⟨pos, inv⟩

/-! ### Frames -/

/-- Bytes of the stream the guest has acknowledged. -/
def TcpConn.acked (conn : TcpConn) : Nat := conn.backend.supplied.length - conn.unacked.length

/-- What a frame is judged by. -/
def TcpConn.peerView (conn : TcpConn) : BitVec 32 × BitVec 32 × Nat × Nat :=
  (conn.iss, conn.sndUna, conn.peerWin, conn.acked)

/-- A frame may go out over `stream`: its data is the stream at its sequence number, up to
the end of the peer's window or as a probe, and a FIN stands behind the last byte. -/
structure FrameSound (stream : List Byte) (conn : TcpConn) (frame : Frame) : Prop where
  data : frame.data ≠ [] → ∃ offset, offset = conn.acked + (frame.seq - conn.sndUna).toNat ∧
    frame.seq = conn.iss + 1 + BitVec.ofNat 32 offset ∧ Carries stream offset frame.data
  window : frame.data ≠ [] →
    (frame.seq - conn.sndUna).toNat + frame.data.length ≤ conn.peerWin ∨
      conn.peerWin = 0 ∧ frame.seq = conn.sndUna ∧ frame.data.length = 1
  fin : frame.flags.fin = true → frame.seq = conn.iss + 1 + BitVec.ofNat 32 stream.length

def FramesSound (stream : List Byte) (conn : TcpConn) (frames : List Frame) : Prop :=
  ∀ frame ∈ frames, FrameSound stream conn frame

theorem FrameSound.empty {frame : Frame} (noData : frame.data = [])
    (noFin : frame.flags.fin = false) : FrameSound stream conn frame :=
  ⟨fun data => absurd noData data, fun data => absurd noData data,
    fun fin => nomatch fin.symm.trans noFin⟩

theorem FramesSound.congr {conn' : TcpConn} {frames : List Frame}
    (sound : FramesSound stream conn frames) (same : conn'.peerView = conn.peerView) :
    FramesSound stream conn' frames := by
  intro frame member
  obtain ⟨data, window, fin⟩ := sound frame member
  simp only [peerView, Prod.mk.injEq] at same
  obtain ⟨iss, sndUna, peerWin, acked⟩ := same
  rw [← iss, ← sndUna, ← acked] at data
  rw [← sndUna, ← peerWin] at window
  rw [← iss] at fin
  exact ⟨data, window, fin⟩

theorem FramesSound.append (sound : FramesSound stream conn frames)
    (new : FrameSound stream conn frame) :
    FramesSound stream conn (frames ++ [frame]) := by
  intro other member
  rcases mem_append.mp member with earlier | last
  · exact sound other earlier
  · rw [mem_singleton.mp last]
    exact new

theorem seqAt_succ {iss : BitVec 32} :
    seqAt iss (offset + 1) = iss + 1 + BitVec.ofNat 32 offset := by
  rw [seqAt, Nat.add_comm, BitVec.ofNat_add, ← BitVec.add_assoc]
  rfl

/-- What is buffered from `start` on is the stream there. -/
theorem Sending.carries (inv : Sending stream conn pos) (positive : 1 ≤ pos.una)
    (behind : pos.una ≤ start) (count : Nat) :
    Carries stream (start - 1) ((conn.unacked.drop (start - pos.una)).take count) := by
  have moved : pos.una - 1 + (start - pos.una) = start - 1 := by omega
  rw [inv.unacked, drop_drop, moved]
  exact .of_begins inv.supplied

/-! ### Sending -/

/-- The pointers after a segment that ends at `stop`. -/
def SendOffsets.sent (pos : SendOffsets) (stop : Nat) : SendOffsets :=
  ⟨pos.una, stop, max pos.last stop⟩

section
variable (inv : Sending stream conn pos)
include inv

theorem Sending.sentTo (established : conn.state = .established) (stop : Nat)
    (behind : pos.una ≤ stop)
    (streamed : conn.finSent = false → stop ≤ conn.backend.supplied.length + 1)
    (finned : conn.finSent = true → stop ≤ pos.last) :
    Sending stream (conn.sentTo (seqAt conn.iss stop)) (pos.sent stop) := by
  have synchronised := inv.synchronised established
  have bounds := inv.bounds
  have near : stop < pos.last + 2 ^ 31 := by
    have buffered := inv.buffered
    unfold sndBuf at buffered
    cases fin : conn.finSent with
    | false =>
      have reach := streamed fin
      omega
    | true =>
      have reach := finned fin
      omega
  exact
    { inv with
      sndNxt := rfl
      sndMax := by
        simp only [TcpConn.sentTo, SendOffsets.sent, inv.sndMax]
        split <;> rename_i beyond <;> rw [seqGt_seqAt (by omega) (by omega)] at beyond
        · rw [Nat.max_eq_right (Nat.le_of_lt beyond)]
        · rw [Nat.max_eq_left (Nat.le_of_not_lt beyond)]
      una_le := behind
      nxt_le := Nat.le_max_right _ _
      streaming := fun fin => Nat.max_le.mpr ⟨inv.streaming fin, streamed fin⟩
      finished := fun fin => by
        obtain ⟨eof, acked, last⟩ := inv.finished fin
        exact ⟨eof, acked, (Nat.max_eq_left (finned fin)).trans last⟩
      settled := fun fin all => inv.settled fin (all.trans (Nat.max_eq_left (finned fin)))
      synOut := fun _ => Nat.le_trans synchronised behind }

/-- The timer runs only while something is out. -/
theorem Sending.timer (pending : conn.finSent = true → pos.una ≠ pos.last) {rto : Nat}
    {deadline : Option Nat} :
    Sending stream { conn with rto := rto, rtoDeadline := deadline } pos :=
  { inv with settled := fun fin all => absurd all (pending fin) }

theorem Sending.armRto (pending : conn.finSent = true → pos.una ≠ pos.last) :
    Sending stream (conn.armRto now) pos := by
  unfold TcpConn.armRto
  split
  · exact inv.timer pending
  · exact inv

theorem Sending.rewound (established : conn.state = .established) :
    Sending stream { conn with sndNxt := conn.sndUna } ⟨pos.una, pos.una, pos.last⟩ :=
  { inv with
    sndNxt := inv.sndUna
    una_le := Nat.le_refl _
    nxt_le := Nat.le_trans inv.una_le inv.nxt_le
    synOut := fun _ => inv.synchronised established }

theorem Sending.not_finSent (waiting : conn.unacked ≠ []) : conn.finSent = false := by
  refine Bool.eq_false_iff.mpr fun fin => waiting ?_
  obtain ⟨-, acked, -⟩ := inv.finished fin
  rw [inv.unacked]
  exact drop_eq_nil_of_le (by omega)

theorem Sending.acked_eq (waiting : conn.unacked ≠ []) : conn.acked = pos.una - 1 := by
  have some := length_pos_iff.mpr waiting
  have length := inv.unacked_length
  unfold acked
  omega

theorem Sending.probe_sound (established : conn.state = .established) (closed : conn.peerWin = 0)
    (waiting : conn.unacked ≠ []) (noFin : flags.fin = false) :
    FrameSound stream conn
      (conn.seg conn.sndUna flags (conn.unacked.take 1)) := by
  have positive := inv.synchronised established
  have carries := inv.carries positive (Nat.le_refl _) 1
  rw [Nat.sub_self] at carries
  have one : (conn.unacked.take 1).length = 1 := by
    have some := length_pos_iff.mpr waiting
    rw [length_take]
    omega
  constructor
  · intro _
    have acked := inv.acked_eq waiting
    refine ⟨pos.una - 1, ?_, ?_, carries⟩
    · rw [acked, seg, BitVec.sub_self]
      rfl
    · rw [← seqAt_succ, Nat.sub_add_cancel positive]
      exact inv.sndUna
  · exact fun _ => .inr ⟨closed, rfl, one⟩
  · exact fun fin => nomatch fin.symm.trans noFin

theorem Sending.fin_sound (eof : conn.backendEof = true)
    (behind : at_ = conn.backend.supplied.length + 1) (flags : TcpFlags) :
    FrameSound stream conn
      (conn.seg (seqAt conn.iss at_) flags []) := by
  refine ⟨fun data => absurd rfl data, fun data => absurd rfl data, fun _ => ?_⟩
  rw [behind, inv.ended eof]
  exact seqAt_succ

end

/-- What a part of `poll` leaves: the invariant, the peer's view, sound frames. -/
structure Sent (stream : List Byte) (conn : TcpConn) (result : TcpConn × List Frame) : Prop where
  sending : ∃ pos, Sending stream result.1 pos
  state : result.1.state = conn.state
  view : result.1.peerView = conn.peerView
  frames : FramesSound stream conn result.2

variable {out : List Frame} {result : TcpConn × List Frame}

theorem Sent.moved (sent : Sent stream conn result) : FramesSound stream result.1 result.2 :=
  sent.frames.congr sent.view

theorem Sent.back (sent : Sent stream conn result) {frames : List Frame}
    (sound : FramesSound stream result.1 frames) : FramesSound stream conn frames :=
  sound.congr sent.view.symm

theorem Sent.trans {mid : TcpConn} (before : Sent stream conn (mid, out))
    (after : Sent stream mid result) : Sent stream conn result where
  sending := after.sending
  state := after.state.trans before.state
  view := after.view.trans before.view
  frames := before.back after.frames

theorem armRto_sent (inv : ∃ pos, Sending stream (conn.armRto now) pos)
    (frames : FramesSound stream conn out) : Sent stream conn (conn.armRto now, out) := by
  refine ⟨inv, ?_, ?_, frames⟩ <;> unfold armRto <;> split <;> rfl

section
variable (inv : Sending stream conn pos)
include inv

/-- A timeout means that the FIN, if it is out, is not acknowledged. -/
theorem Sending.unsettled (timedOut : conn.timedOut now = true) (fin : conn.finSent = true) :
    pos.una ≠ pos.last := by
  intro all
  rw [TcpConn.timedOut, inv.settled fin all] at timedOut
  cases timedOut

theorem Sending.retransmit (established : conn.state = .established) {now : Nat}
    (timedOut : conn.timedOut now = true) (frames : FramesSound stream conn out) :
    Sent stream conn (conn.retransmit now out) := by
  have bounds := inv.bounds
  have advance : conn.sndUna + 1 = seqAt conn.iss (pos.una + 1) := by
    rw [inv.sndUna]
    exact seqAt_add conn.iss
  unfold TcpConn.retransmit
  dsimp only
  split
  · -- the probe of a closed window
    rename_i probing
    obtain ⟨closed, waiting, notFin⟩ := probing
    have fin : conn.finSent = false := Bool.eq_false_iff.mpr notFin
    have some := length_pos_iff.mpr waiting
    have probed := inv.sentTo established _ (Nat.le_succ pos.una) (fun _ => by omega)
      (fun sent => nomatch sent.symm.trans fin)
    rw [advance]
    refine ⟨⟨_, probed.timer (fun sent => absurd sent notFin)⟩, rfl, rfl, ?_⟩
    exact frames.append (inv.probe_sound established closed waiting rfl)
  · have rewound := inv.rewound established
    split
    · -- the FIN again
      rename_i finned
      obtain ⟨fin, -⟩ := finned
      obtain ⟨eof, acked, last⟩ := inv.finished fin
      have unsettled := inv.unsettled timedOut fin
      have again := rewound.sentTo established _ (Nat.le_succ pos.una)
        (fun unsent => nomatch unsent.symm.trans fin) (fun _ => by dsimp only; omega)
      rw [advance]
      refine ⟨⟨_, again.timer (fun _ => ?_)⟩, rfl, rfl, ?_⟩
      · simp only [SendOffsets.sent]
        omega
      · refine frames.append ?_
        have sound := inv.fin_sound eof (show pos.una = _ by omega) { fin := true, ack := true }
        rw [← inv.sndUna] at sound
        exact sound
    · exact ⟨⟨_, rewound.timer (inv.unsettled timedOut)⟩, rfl, rfl, frames⟩

theorem Sending.sendFin (established : conn.state = .established) (now budget : Nat)
    (frames : FramesSound stream conn out) : Sent stream conn (conn.sendFin now budget out) := by
  unfold TcpConn.sendFin
  split
  next done =>
    obtain ⟨eof, notFin, drained, -⟩ := done
    have positive := inv.synchronised established
    have bounds := inv.bounds
    rw [drained, length_nil] at bounds
    have sent := inv.streaming (Bool.eq_false_iff.mpr notFin)
    have first : pos.una = conn.backend.supplied.length + 1 := by omega
    have next : pos.nxt = conn.backend.supplied.length + 1 := by omega
    have advance : conn.sndNxt + 1 = seqAt conn.iss (pos.nxt + 1) := by
      rw [inv.sndNxt]
      exact seqAt_add conn.iss
    have beyond : seqGt (seqAt conn.iss (pos.nxt + 1)) (seqAt conn.iss pos.last) = true :=
      (seqGt_seqAt (by omega) (by omega)).mpr (by omega)
    have finished : Sending stream { conn.sentTo (conn.sndNxt + 1) with finSent := true }
        ⟨pos.una, pos.nxt + 1, pos.nxt + 1⟩ :=
      { inv with
        sndNxt := advance
        sndMax := by simp only [TcpConn.sentTo, advance, inv.sndMax, beyond, if_true]
        una_le := Nat.le_succ_of_le inv.una_le
        nxt_le := Nat.le_refl _
        streaming := nofun
        finished := fun _ => ⟨eof, Nat.le_of_eq first.symm, congrArg (· + 1) next⟩
        settled := fun _ all => absurd all (by dsimp only; omega)
        handshake := by
          rintro (other | other | other) <;> cases established.symm.trans other
        synOut := fun _ => Nat.le_add_left _ _ }
    have before : Sent stream conn (_, out) := ⟨⟨_, finished⟩, rfl, rfl, frames⟩
    have sound := inv.fin_sound eof next { fin := true, ack := true }
    rw [← inv.sndNxt] at sound
    refine before.trans (armRto_sent ⟨_, finished.armRto (fun _ => ?_)⟩
      ((frames.append sound).congr rfl))
    dsimp only
    omega
  · exact ⟨⟨pos, inv⟩, rfl, rfl, frames⟩

end

/-! ### Filling the window -/

theorem sentTo_armRto_supplied {conn : TcpConn} {stop : BitVec 32} (now : Nat) :
    ((conn.sentTo stop).armRto now).backend.supplied = conn.backend.supplied := by
  unfold armRto
  split <;> rfl

theorem fillWindow_supplied {now : Nat} (budget : Nat) {fuel : Nat} (conn : TcpConn)
    (reads : List ReadOutcome) (out : List Frame) :
    conn.backend.supplied <+:
      (fillWindow now budget fuel conn reads out).1.backend.supplied :=
  fillWindow_keeps (motive := fun after => conn.backend.supplied <+: after.backend.supplied)
    (fun _ _ before => (sentTo_armRto_supplied now).symm ▸ before) (fun _ _ _ before => before)
    (fun _ _ before => before.trans (prefix_append _ _)) (prefix_refl _)

theorem Sending.chunk (inv : Sending stream conn pos) (established : conn.state = .established)
    (now count : Nat) (more : conn.inFlight.toNat < conn.unacked.length)
    (buffered : count ≤ conn.unacked.length - conn.inFlight.toNat)
    (room : conn.inFlight.toNat + count ≤ conn.peerWin) (frames : FramesSound stream conn out)
    (flags : TcpFlags) (noFin : flags.fin = false) :
    Sent stream conn ((conn.sentTo (conn.sndNxt + BitVec.ofNat 32 count)).armRto now,
      out ++ [conn.seg conn.sndNxt flags
        ((conn.unacked.drop conn.inFlight.toNat).take count)]) := by
  have positive := inv.synchronised established
  have order := inv.una_le
  have waiting : conn.unacked ≠ [] := length_pos_iff.mp (Nat.zero_lt_of_lt more)
  have fin := inv.not_finSent waiting
  have length := inv.unacked_length
  have inFlight := inv.inFlight
  have advance : conn.sndNxt + BitVec.ofNat 32 count = seqAt conn.iss (pos.nxt + count) := by
    rw [inv.sndNxt]
    exact seqAt_add conn.iss
  have moved := inv.sentTo established (pos.nxt + count) (by omega) (fun _ => by omega)
    (fun sent => nomatch sent.symm.trans fin)
  rw [← advance] at moved
  have before : Sent stream conn (_, out) := ⟨⟨_, moved⟩, rfl, rfl, frames⟩
  have unsent : (conn.sentTo (conn.sndNxt + BitVec.ofNat 32 count)).finSent ≠ true :=
    Bool.eq_false_iff.mp fin
  refine before.trans (armRto_sent ⟨_, moved.armRto (fun sent => absurd sent unsent)⟩
    ((frames.append ?_).congr rfl))
  have carries := inv.carries positive order count
  rw [← inFlight] at carries
  constructor
  · intro _
    refine ⟨pos.nxt - 1, ?_, ?_, carries⟩
    · have acked := inv.acked_eq waiting
      have distance : (conn.sndNxt - conn.sndUna).toNat = pos.nxt - pos.una := inFlight
      rw [seg, distance]
      omega
    · rw [← seqAt_succ, Nat.sub_add_cancel (Nat.le_trans positive order)]
      exact inv.sndNxt
  · intro _
    left
    have short : ((conn.unacked.drop conn.inFlight.toNat).take count).length ≤ count :=
      length_take_le _ _
    exact Nat.le_trans (Nat.add_le_add_left short _) room
  · exact fun sent => nomatch sent.symm.trans noFin

theorem Sending.read (inv : Sending stream conn pos) (established : conn.state = .established)
    (fin : conn.finSent = false) (eof : conn.backendEof = false) {data : List Byte}
    (room : conn.unacked.length + data.length ≤ sndBuf)
    (honest : conn.backend.supplied ++ data <+: stream) (now : Nat) :
    Sending stream
      { conn with
        unacked := conn.unacked ++ data
        backend := { conn.backend with supplied := conn.backend.supplied ++ data }
        lastUse := now } pos := by
  have positive := inv.synchronised established
  have order := Nat.le_trans inv.una_le inv.nxt_le
  have sent := inv.streaming fin
  exact
    { inv with
      unacked := by
        rw [inv.unacked, drop_append_of_le_length (by omega)]
      buffered := by
        rw [length_append]
        exact room
      supplied := honest
      ended := fun ended => nomatch ended.symm.trans eof
      streaming := fun _ => by
        rw [length_append]
        omega
      finished := fun sent => nomatch sent.symm.trans fin
      unsynchronised := fun zero => absurd zero (by omega) }

theorem peerView_read (conn : TcpConn) {data : List Byte} (now : Nat) :
    peerView
      { conn with
        unacked := conn.unacked ++ data
        backend := { conn.backend with supplied := conn.backend.supplied ++ data }
        lastUse := now } = conn.peerView := by
  unfold peerView acked
  rw [length_append, length_append, Nat.add_sub_add_right]

/-- What the reads of a poll say of the stream: they supply its next bytes, and report
an end only when there are none left. -/
structure Honest (stream supplied : List Byte) (reads : List ReadOutcome) : Prop where
  bytes : supplied <+: stream
  ends : .bytes [] ∈ reads → supplied = stream

theorem Honest.tail {supplied : List Byte} {read : ReadOutcome} {reads : List ReadOutcome}
    (honest : Honest stream supplied (read :: reads)) : Honest stream supplied reads :=
  ⟨honest.bytes, fun ends => honest.ends (mem_cons_of_mem _ ends)⟩

theorem Sending.fillWindow {now budget fuel : Nat} (inv : Sending stream conn pos)
    (established : conn.state = .established) (reads : List ReadOutcome) (out : List Frame)
    (frames : FramesSound stream conn out)
    (honest : Honest stream (fillWindow now budget fuel conn reads out).1.backend.supplied reads) :
    Sent stream conn (fillWindow now budget fuel conn reads out) := by
  induction fuel generalizing conn pos reads out with
  | zero => exact ⟨⟨pos, inv⟩, rfl, rfl, frames⟩
  | succ fuel inductionHypothesis =>
    have unchanged : Sent stream conn (conn, out) :=
      ⟨⟨pos, inv⟩, rfl, rfl, frames⟩
    have mss := inv.peerMss
    unfold fillWindow at honest ⊢
    dsimp only at honest ⊢
    split
    · exact unchanged
    next space =>
      rw [if_neg space] at honest
      split
      · -- a chunk from the buffer
        rename_i more
        rw [if_pos more] at honest
        have sent := inv.chunk established now
          (min (min (conn.unacked.length - conn.inFlight.toNat) conn.peerMss)
            (conn.peerWin - conn.inFlight.toNat))
          more (by omega) (by omega) frames { psh := true, ack := true } rfl
        obtain ⟨pos', moved⟩ := sent.sending
        exact sent.trans
          (inductionHypothesis moved (sent.state.trans established) _ _ sent.moved honest)
      next drained =>
        rw [if_neg drained] at honest
        split
        · exact unchanged
        next reading =>
          obtain ⟨notEof, notFin, space'⟩ :=
            (not_or.trans (and_congr_right fun _ => not_or)).mp reading
          rw [if_neg reading] at honest
          split
          · exact unchanged
          · exact unchanged
          · exact inductionHypothesis inv established _ _ frames honest.tail
          · exact ⟨⟨pos, { inv with }⟩, rfl, rfl, frames⟩
          next data rest =>
            dsimp only at honest
            split
            · -- an empty read is the end: the buffer offered was not empty
              rename_i empty
              rw [if_pos empty] at honest
              have nothing : data = [] := by
                rcases take_eq_nil_iff.mp empty with zero | nothing
                · omega
                · exact nothing
              have all := honest.ends (by rw [nothing]; exact mem_cons_self)
              have ended : Sending stream { conn with backendEof := true } pos :=
                { inv with
                  ended := fun _ => all
                  finished := fun fin => absurd fin notFin }
              exact ⟨⟨pos, ended⟩, rfl, rfl, frames⟩
            next some =>
              rw [if_neg some] at honest
              have supplied := (fillWindow_supplied budget _ rest out).trans honest.bytes
              have read := inv.read established (Bool.eq_false_iff.mpr notFin)
                (Bool.eq_false_iff.mpr notEof) (by rw [length_take]; omega) supplied now
              have before : Sent stream conn (_, out) :=
                ⟨⟨_, read⟩, rfl, peerView_read conn now, frames⟩
              exact before.trans (inductionHypothesis read established _ _
                (frames.congr (peerView_read conn now)) honest.tail)

/-! ### Polls -/

structure Progress (stream : List Byte) (conn : TcpConn) (result : TcpConn × List Frame) :
    Prop where
  sending : ∃ pos, Sending stream result.1 pos
  frames : FramesSound stream conn result.2

theorem FramesSound.none : FramesSound stream conn [] :=
  nofun

theorem FramesSound.reply (noData : frame.data = []) (noFin : frame.flags.fin = false) :
    FramesSound stream conn [frame] := by
  intro other member
  rw [mem_singleton.mp member]
  exact .empty noData noFin

theorem Sending.abort (inv : Sending stream conn pos) :
    Progress stream before (conn.abort now) :=
  ⟨⟨pos, inv.congr (abort_sameSend conn)⟩, .reply rfl rfl⟩

theorem sendFin_supplied :
    (conn.sendFin now budget out).1.backend.supplied = conn.backend.supplied := by
  unfold sendFin
  split
  · unfold armRto
    split <;> rfl
  · rfl

theorem transmit_supplied (conn : TcpConn) (outside : PollInput) (out : List Frame) :
    (conn.transmit outside out).1.backend.supplied =
      (fillWindow outside.now outside.budget (outside.budget + outside.reads.length) conn
        outside.reads out).1.backend.supplied := by
  unfold transmit
  dsimp only
  split
  · exact sendFin_supplied
  · exact (congrArg Prod.fst (closeIfDone_sameSend _).outbound).trans sendFin_supplied

theorem Sending.transmit (inv : Sending stream conn pos)
    (established : conn.state = .established) (frames : FramesSound stream conn out)
    (honest : Honest stream (conn.transmit outside out).1.backend.supplied outside.reads) :
    Progress stream conn (conn.transmit outside out) := by
  rw [transmit_supplied] at honest
  have filled := inv.fillWindow established outside.reads out frames honest
  obtain ⟨pos', after⟩ := filled.sending
  have finished := filled.trans (after.sendFin (filled.state.trans established) outside.now
    outside.budget filled.moved)
  obtain ⟨pos'', ended⟩ := finished.sending
  unfold TcpConn.transmit
  dsimp only
  split
  · exact ended.abort
  · exact ⟨⟨pos'', ended.congr (closeIfDone_sameSend _)⟩, finished.frames⟩

theorem updateWindow_frames (before : TcpConn) (budget : Nat) :
    FramesSound stream conn (before.updateWindow budget).2 := by
  unfold updateWindow
  dsimp only
  split
  · exact .reply rfl rfl
  · exact .none

theorem updateWindow_state (conn : TcpConn) (budget : Nat) :
    (conn.updateWindow budget).1.state = conn.state := by
  unfold updateWindow
  dsimp only
  split <;> rfl

theorem SameSend.view (same : SameSend conn conn') : conn'.peerView = conn.peerView := by
  have outbound := same.outbound
  simp only [TcpConn.outbound, Prod.mk.injEq] at outbound
  simp only [peerView, acked, outbound]

theorem SameSend.frames (same : SameSend conn conn') (progress : Progress stream conn' result) :
    Progress stream conn result :=
  ⟨progress.sending, progress.frames.congr same.view.symm⟩

section
variable (inv : Sending stream conn pos)
include inv

theorem Sending.pollEstablished (established : conn.state = .established)
    (honest : Honest stream (conn.pollEstablished outside).1.backend.supplied outside.reads) :
    Progress stream conn (conn.pollEstablished outside) := by
  have same := (flushToBackend_sameSend conn outside.now outside.writes).trans
    (updateWindow_sameSend _ outside.budget)
  have ready := inv.congr same
  have state : ((conn.flushToBackend outside.now outside.writes).updateWindow
      outside.budget).1.state = .established := by
    rw [updateWindow_state, (flushToBackend_kept _ _ _).2]
    exact established
  apply same.frames
  unfold TcpConn.pollEstablished at honest ⊢
  dsimp only at honest ⊢
  split
  next timedOut =>
    rw [if_pos timedOut] at honest
    split
    · exact ready.abort
    next going =>
      rw [if_neg going] at honest
      have resent := ready.retransmit state timedOut (updateWindow_frames
        (conn.flushToBackend outside.now outside.writes) outside.budget)
      obtain ⟨pos', after⟩ := resent.sending
      have progress := after.transmit (resent.state.trans state) resent.moved honest
      exact ⟨progress.sending, resent.back progress.frames⟩
  next running =>
    rw [if_neg running] at honest
    exact ready.transmit state (updateWindow_frames _ outside.budget) honest

theorem Sending.connected (connecting : conn.state = .connecting) :
    Sending stream
      { conn.sentTo (conn.iss + 1) with state := .synReceived, rtoDeadline := deadline }
      ⟨0, 1, 1⟩ := by
  obtain ⟨zero, fin⟩ := inv.handshake (.inl connecting)
  have nothing := inv.unsynchronised zero
  have last := inv.streaming fin
  rw [nothing] at last
  have max : (if seqGt (conn.iss + 1) conn.sndMax then conn.iss + 1 else conn.sndMax) =
      seqAt conn.iss 1 := by
    rw [inv.sndMax]
    rcases Nat.le_one_iff_eq_zero_or_eq_one.mp last with none | one
    · rw [none]
      exact if_pos ((@seqGt_seqAt conn.iss 1 0 (by decide) (by decide)).mpr (by decide))
    · rw [one]
      exact ite_self (seqAt conn.iss 1)
  exact
    { inv with
      sndUna := by
        rw [← zero]
        exact inv.sndUna
      sndNxt := rfl
      sndMax := max
      una_le := by decide
      nxt_le := by decide
      unacked := by
        rw [← zero]
        exact inv.unacked
      streaming := fun _ => Nat.le_add_left _ _
      finished := fun sent => nomatch sent.symm.trans fin
      settled := fun sent => nomatch sent.symm.trans fin
      unsynchronised := fun _ => nothing
      synchronised := nofun
      handshake := fun _ => ⟨rfl, fin⟩
      synOut := fun _ => Nat.le_refl 1 }

theorem Sending.poll (honest : Honest stream (conn.poll outside).1.backend.supplied outside.reads) :
    Progress stream conn (conn.poll outside) := by
  have resent : conn.state = .synSent ∨ conn.state = .synReceived → ∀ flags, flags.fin = false →
      Progress stream conn (if conn.timedOut outside.now then
          if giveUp / 4 < outside.now - conn.lastProgress then conn.abort outside.now
          else (conn.backoff outside.now, [conn.seg conn.iss flags []])
        else (conn, [])) := by
    intro waiting flags noFin
    obtain ⟨-, fin⟩ := inv.handshake (.inr waiting)
    split
    · split
      · exact inv.abort
      · exact ⟨⟨pos, inv.timer (fun sent => nomatch sent.symm.trans fin)⟩,
          .reply rfl noFin⟩
    · exact ⟨⟨pos, inv⟩, .none⟩
  unfold TcpConn.poll at honest ⊢
  split
  · exact inv.abort
  next going =>
    rw [if_neg going] at honest
    split
    next connecting =>
      split
      · exact ⟨⟨pos, inv⟩, .none⟩
      · exact ⟨⟨_, inv.connected connecting⟩, .reply rfl rfl⟩
      · refine ⟨⟨pos, inv.congr ?_⟩, .reply rfl rfl⟩
        exact ⟨rfl, .inr rfl⟩
    next waiting => exact resent (.inl waiting) _ rfl
    next waiting => exact resent (.inr waiting) _ rfl
    · exact ⟨⟨pos, inv⟩, .none⟩
    next established =>
      rw [established] at honest
      exact inv.pollEstablished established honest

/-! ### Segments from the guest -/

theorem Sending.advertised {advWin : Nat} : Sending stream { conn with advWin := advWin } pos :=
  { inv with }

theorem Sending.inputEstablished (opened : conn.state = .established ∨ conn.state = .closed) :
    Progress stream before (conn.inputEstablished now tcp writes) := by
  obtain ⟨pos', acked⟩ := inv.processAck opened
  have flushed := ((acked.congr (processData_sameSend _ tcp)).congr (processFin_sameSend _ tcp)).congr
    (flushToBackend_sameSend _ now writes)
  unfold TcpConn.inputEstablished
  split
  · exact ⟨⟨pos', (flushed.advertised).congr (closeIfDone_sameSend _)⟩, .reply rfl rfl⟩
  · exact ⟨⟨pos', flushed.congr (closeIfDone_sameSend _)⟩, .none⟩

theorem Sending.opened (waiting : conn.state = .synSent ∨ conn.state = .synReceived)
    {peerWin peerMss : Nat} (positive : 0 < peerMss) {irs rcvNxt : BitVec 32} :
    Sending stream
      { conn with
        irs := irs, rcvNxt := rcvNxt, sndUna := conn.iss + 1, peerWin := peerWin,
        peerMss := peerMss, state := .established, rto := rtoInitial, rtoDeadline := none,
        lastProgress := now } ⟨1, pos.nxt, pos.last⟩ := by
  obtain ⟨zero, fin⟩ := inv.handshake (.inr waiting)
  have nothing := inv.unsynchronised zero
  exact
    { inv with
      sndUna := rfl
      una_le := inv.synOut waiting
      unacked := by
        rw [nothing, drop_nil]
        rw [inv.unacked, nothing, drop_nil]
      finished := fun sent => nomatch sent.symm.trans fin
      settled := fun _ _ => rfl
      unsynchronised := fun none => absurd none Nat.one_ne_zero
      synchronised := fun _ => Nat.le_refl 1
      handshake := by rintro (other | other | other) <;> cases other
      synOut := fun _ => inv.synOut waiting
      peerMss := positive }

end

theorem peerMssOf_pos (offered : tcp.mss ≠ some 0) : 0 < peerMssOf tcp := by
  unfold peerMssOf tcpMss defaultMss
  cases mss : tcp.mss with
  | none => decide
  | some value =>
    have positive : value.toNat ≠ 0 := by
      intro zero
      rw [mss, show value = 0 from eq_of_toNat_eq zero] at offered
      exact offered rfl
    rw [Option.map_some, Option.getD_some]
    omega

theorem Sending.input (inv : Sending stream conn pos) {writes : List WriteOutcome}
    (offered : tcp.flags.syn = true → tcp.mss ≠ some 0) :
    Progress stream conn (conn.input now tcp writes) := by
  have used : Sending stream { conn with lastUse := now } pos := { inv with }
  unfold TcpConn.input
  dsimp only
  split
  · refine ⟨⟨pos, used.congr ?_⟩, .none⟩
    exact ⟨rfl, .inr rfl⟩
  split
  · exact ⟨⟨pos, used⟩, .none⟩
  next waiting =>
    split
    next answer =>
      obtain ⟨syn, -, ack⟩ := answer
      rw [ack]
      exact ⟨⟨_, used.opened (.inl waiting) (peerMssOf_pos (offered syn))⟩, .reply rfl rfl⟩
    · split
      · exact ⟨⟨pos, { used with }⟩, .none⟩
      · exact ⟨⟨pos, used⟩, .none⟩
  next waiting =>
    split
    · exact ⟨⟨pos, used⟩, .reply rfl rfl⟩
    · split
      next answer =>
        rw [answer.2]
        exact (used.opened (.inr waiting) used.peerMss).inputEstablished (.inl rfl)
      · exact ⟨⟨pos, used⟩, .none⟩
  next state =>
    split
    · exact ⟨⟨pos, used⟩, .reply rfl rfl⟩
    · exact used.inputEstablished (.inl state)
  next state =>
    split
    · exact ⟨⟨pos, used⟩, .reply rfl rfl⟩
    · exact used.inputEstablished (.inr state)

end Operations

/-! ### Whole runs -/

section Runs
variable {stream : List Byte} {conn : TcpConn} {pos : SendOffsets}

def connFrames (conn : TcpConn) : ConnOp → List Frame
  | .segment now tcp writes => (conn.input now tcp writes).2
  | .poll outside => (conn.poll outside).2

/-- A SYN of the guest does not offer segments of size zero. -/
def ConnOp.OffersMss : ConnOp → Prop
  | .segment _ tcp _ => tcp.flags.syn = true → tcp.mss ≠ some 0
  | .poll _ => True

/-- The backend's reads are those of `stream`. -/
def ReadsFrom (stream : List Byte) (conn : TcpConn) : ConnOp → Prop
  | .segment _ _ _ => True
  | .poll outside => Honest stream (conn.poll outside).1.backend.supplied outside.reads

def ReadsThroughout (stream : List Byte) : TcpConn → List ConnOp → Prop :=
  Along connStep (ReadsFrom stream)

inductive Starts : TcpConn → Prop
  | accepted (iss : BitVec 32) (now : Nat) (syn : TcpSegment) : Starts (accept iss now syn)
  | opened (iss : BitVec 32) (now : Nat) : Starts (openToGuest iss now)

theorem Starts.sending (starts : Starts conn) (offered : 0 < conn.peerMss) :
    ∃ pos, Sending stream conn pos := by
  cases starts with
  | accepted iss now syn =>
    refine ⟨⟨0, 0, 0⟩, ?_⟩
    have base : iss = seqAt iss 0 := (BitVec.add_zero iss).symm
    exact
      { sndUna := base, sndNxt := base, sndMax := base, una_le := Nat.le_refl 0
        nxt_le := Nat.le_refl 0, unacked := rfl, buffered := Nat.zero_le _
        supplied := nil_prefix
        ended := nofun
        streaming := fun _ => Nat.zero_le _
        finished := nofun
        settled := fun _ _ => rfl
        unsynchronised := fun _ => rfl
        synchronised := nofun
        handshake := fun _ => ⟨rfl, rfl⟩
        synOut := by rintro (other | other) <;> cases other
        peerMss := offered }
  | opened iss now =>
    refine ⟨⟨0, 1, 1⟩, ?_⟩
    exact
      { sndUna := (BitVec.add_zero iss).symm, sndNxt := rfl, sndMax := rfl
        una_le := Nat.zero_le 1, nxt_le := Nat.le_refl 1, unacked := rfl, buffered := Nat.zero_le _
        supplied := nil_prefix
        ended := nofun
        streaming := fun _ => Nat.le_refl 1
        finished := nofun
        settled := nofun
        unsynchronised := fun _ => rfl
        synchronised := nofun
        handshake := fun _ => ⟨rfl, rfl⟩
        synOut := fun _ => Nat.le_refl 1
        peerMss := offered }

theorem Sending.step (inv : Sending stream conn pos) {op : ConnOp}
    (reads : ReadsFrom stream conn op) (offers : op.OffersMss) :
    Progress stream conn (connStep conn op, connFrames conn op) := by
  cases op with
  | segment now tcp writes => exact inv.input offers
  | poll outside => exact inv.poll reads

theorem Sending.run (inv : Sending stream conn pos) (reads : ReadsThroughout stream conn ops)
    (offers : ∀ op ∈ ops, op.OffersMss) :
    ∃ pos', Sending stream (connRun conn ops) pos' := by
  refine @Along.keeps _ _ _ _ _ (fun conn => ∃ pos, Sending stream conn pos) _
    (Along.withMember reads) ?_ ⟨pos, inv⟩
  rintro conn op ⟨pos, inv⟩ ⟨member, reads⟩
  exact (inv.step reads (offers op member)).sending

/-- The send pointers are in order, and the buffer is what was supplied from `sndUna` on. -/
structure StreamHeld (conn : TcpConn) : Prop where
  order : (conn.sndNxt - conn.sndUna).toNat ≤ (conn.sndMax - conn.sndUna).toNat
  near : (conn.sndMax - conn.sndUna).toNat < 2 ^ 31
  buffer : conn.unacked = conn.backend.supplied.drop conn.acked
  -- The SYN stands in front of the stream and the FIN behind it.
  position : conn.sndUna = conn.iss + 1 + BitVec.ofNat 32 conn.acked ∨
    conn.sndUna = conn.iss ∧ conn.backend.supplied = [] ∨
    conn.sndUna = conn.iss + 1 + BitVec.ofNat 32 conn.acked + 1 ∧ conn.finSent = true ∧
      conn.unacked = []

theorem Sending.held (inv : Sending stream conn pos) : StreamHeld conn := by
  have bounds := inv.bounds
  have next : (conn.sndNxt - conn.sndUna).toNat = pos.nxt - pos.una := inv.inFlight
  have max : (conn.sndMax - conn.sndUna).toNat = pos.last - pos.una := by
    rw [inv.sndMax, inv.sndUna]
    exact toNat_sub_of_le _ (by omega) (by omega)
  have acked : conn.acked = min (pos.una - 1) conn.backend.supplied.length := by
    unfold acked
    omega
  refine ⟨by omega, by omega, ?_, ?_⟩
  · rw [inv.unacked, acked]
    rcases Nat.le_total (pos.una - 1) conn.backend.supplied.length with inside | beyond
    · rw [Nat.min_eq_left inside]
    · rw [Nat.min_eq_right beyond, drop_length, drop_eq_nil_of_le beyond]
  · rcases Nat.eq_zero_or_pos pos.una with zero | positive
    · right
      left
      refine ⟨?_, inv.unsynchronised zero⟩
      rw [inv.sndUna, zero]
      exact BitVec.add_zero conn.iss
    · rcases Nat.lt_or_ge (conn.backend.supplied.length + 1) pos.una with finAcked | inside
      · right
        right
        have fin : conn.finSent = true := by
          by_contra unsent
          have sent := inv.streaming (Bool.eq_false_iff.mpr unsent)
          omega
        obtain ⟨-, -, last⟩ := inv.finished fin
        refine ⟨?_, fin, length_eq_zero_iff.mp (by omega)⟩
        rw [inv.sndUna, ← seqAt_succ, show pos.una = conn.acked + 1 + 1 by omega]
        exact (seqAt_add conn.iss).symm
      · left
        rw [inv.sndUna, ← seqAt_succ, show conn.acked + 1 = pos.una by omega]

/-- In every run over a backend with the bytes of `stream` whose peer never offers segments
of size zero: the send pointers are in order and the buffer holds the stream from `sndUna`
on in every state, and every frame of every operation is sound. -/
theorem backend_stream_intact (stream : List Byte) (conn : TcpConn) (starts : Starts conn)
    (offered : 0 < conn.peerMss) (ops : List ConnOp) (reads : ReadsThroughout stream conn ops)
    (offers : ∀ op ∈ ops, op.OffersMss) (earlier later : List ConnOp)
    (split : ops = earlier ++ later) :
    StreamHeld (connRun conn earlier) ∧
      ∀ op rest, later = op :: rest →
        FramesSound stream (connRun conn earlier) (connFrames (connRun conn earlier) op) := by
  obtain ⟨first, starting⟩ := starts.sending offered
  subst split
  obtain ⟨pos', reached⟩ := starting.run reads.front fun op member =>
    offers op (mem_append_left later member)
  refine ⟨reached.held, ?_⟩
  rintro op rest rfl
  exact (reached.step (reads earlier op rest rfl)
    (offers op (mem_append_right earlier mem_cons_self))).frames

/-! ### Two connections -/

def offeringSyn (mss : BitVec 16) : TcpSegment := ⟨50, 0, { syn := true }, 4, some mss, []⟩

def ackSegment (ack : BitVec 32) (window : BitVec 16) : TcpSegment :=
  ⟨51, ack, { ack := true }, window, none, []⟩

/-- Two chunks, a timeout that goes back, an acknowledgment of both and the FIN. -/
def rewindingRun : List ConnOp :=
  [connectPoll, .segment 1 (ackSegment 4294967295 4) [],
    .poll ⟨2, 8, .pending, [], [.bytes [7, 8, 9], .bytes [9], .wouldBlock]⟩,
    .poll ⟨300000000, 1, .pending, [], []⟩, .segment 300000001 (ackSegment 2 4) [],
    .poll ⟨300000002, 8, .pending, [], [.bytes []]⟩]

theorem backend_stream_intact_rewinding :
    (connFrames (connRun (accept 4294967294 0 (offeringSyn 2)) (rewindingRun.take 3))
        (.poll ⟨300000000, 1, .pending, [], []⟩)).map Frame.data = [[7, 8]] ∧
      FramesSound [7, 8, 9]
        (connRun (accept 4294967294 0 (offeringSyn 2)) (rewindingRun.take 3))
        (connFrames (connRun (accept 4294967294 0 (offeringSyn 2)) (rewindingRun.take 3))
          (.poll ⟨300000000, 1, .pending, [], []⟩)) ∧
      (connRun (accept 4294967294 0 (offeringSyn 2)) rewindingRun).finSent = true := by
  have reads : ReadsThroughout [7, 8, 9] (accept 4294967294 0 (offeringSyn 2))
      rewindingRun :=
    .cons ⟨by decide +kernel, by decide⟩ <| .cons trivial <|
      .cons ⟨by decide +kernel, by decide⟩ <| .cons ⟨by decide +kernel, by decide⟩ <|
      .cons trivial <| .cons ⟨by decide +kernel, by decide +kernel⟩ .nil
  have offers : ∀ op ∈ rewindingRun, op.OffersMss := by
    unfold rewindingRun connectPoll
    simp [ConnOp.OffersMss, ackSegment]
  refine ⟨by decide +kernel, ?_, by decide +kernel⟩
  exact (backend_stream_intact [7, 8, 9] _ (.accepted 4294967294 0 (offeringSyn 2)) (by decide)
    rewindingRun reads offers (rewindingRun.take 3) (rewindingRun.drop 3) rfl).2 _ _ rfl

/-- A SYN that offers segments of size zero: the read into no buffer looks like the end of
the backend's stream, and the FIN goes out where its first byte belongs. -/
theorem zero_mss_ends_stream :
    ReadsThroughout [7] (accept 0 0 (offeringSyn 0))
        [connectPoll, .segment 1 (ackSegment 1 4) [], .poll ⟨2, 8, .pending, [], [.bytes [7]]⟩] ∧
      connFrames
        (connRun (accept 0 0 (offeringSyn 0))
          [connectPoll, .segment 1 (ackSegment 1 4) []])
        (.poll ⟨2, 8, .pending, [], [.bytes [7]]⟩) =
          [⟨1, 51, { fin := true, ack := true }, 65535, none, []⟩] ∧
      ¬ FrameSound [7]
        (connRun (accept 0 0 (offeringSyn 0))
          [connectPoll, .segment 1 (ackSegment 1 4) []])
        ⟨1, 51, { fin := true, ack := true }, 65535, none, []⟩ := by
  refine ⟨.cons ⟨by decide +kernel, by decide⟩ <| .cons trivial <|
    .cons ⟨by decide +kernel, by decide⟩ .nil, by decide +kernel, ?_⟩
  intro sound
  exact absurd (sound.fin rfl) (by decide +kernel)

end Runs

end Iris.Net.Tcp
