import Iris.Net.Tcp.Send

/-!
Owns the retransmission timer while the guest's window is closed: a poll keeps it running but
never starts it, and over every run it stands still only when all that was sent is acknowledged.
-/

namespace Iris.Net.Tcp

open TcpConn

variable {conn conn' : TcpConn}

/-! ### A poll at a closed window -/

/-- An established connection with data for a guest that closed its window. -/
structure Stalled (conn : TcpConn) : Prop where
  established : conn.state = .established
  unfinished : conn.finSent = false
  closed : conn.peerWin = 0
  -- buffered, or still with the backend
  data : conn.unacked ≠ [] ∨ conn.backendEof = false

theorem SameSend.rtoDeadline (same : SameSend conn conn') : conn'.rtoDeadline = conn.rtoDeadline :=
  congrArg (·.2.1) same.outbound

theorem Stalled.congr (stalled : Stalled conn) (same : SameSend conn conn')
    (established : conn'.state = .established) : Stalled conn' := by
  have outbound := same.outbound
  simp only [TcpConn.outbound, Prod.mk.injEq] at outbound
  obtain ⟨-, -, -, -, -, -, unacked, backendEof, finSent, -, peerWin⟩ := outbound
  refine ⟨established, finSent.trans stalled.unfinished, peerWin.trans stalled.closed, ?_⟩
  rw [unacked, backendEof]
  exact stalled.data

section
variable (stalled : Stalled conn)
include stalled

theorem Stalled.fillWindow (now budget fuel : Nat) (reads : List ReadOutcome) (out : List Frame) :
    fillWindow now budget fuel conn reads out = (conn, out) := by
  cases fuel with
  | zero => rfl
  | succ fuel =>
    unfold TcpConn.fillWindow
    rw [if_pos (.inr (by rw [stalled.closed, Nat.zero_sub]))]

theorem Stalled.sendFin (now budget : Nat) (out : List Frame) :
    conn.sendFin now budget out = (conn, out) := by
  refine if_neg ?_
  rintro ⟨eof, -, drained, -⟩
  rcases stalled.data with waiting | more
  · exact waiting drained
  · cases eof.symm.trans more

theorem Stalled.transmit (outside : PollInput) (out : List Frame) :
    (conn.transmit outside out).1.rtoDeadline = conn.rtoDeadline := by
  unfold TcpConn.transmit
  dsimp only
  rw [stalled.fillWindow, stalled.sendFin]
  split
  · rfl
  · exact (closeIfDone_sameSend conn).rtoDeadline

/-- A timeout sends a probe or nothing, and runs the timer again. -/
theorem Stalled.retransmit :
    Stalled (conn.retransmit now out).1 ∧ (conn.retransmit now out).1.rtoDeadline ≠ none := by
  unfold TcpConn.retransmit
  dsimp only
  split
  · exact ⟨{ stalled with }, nofun⟩
  · split
    next finned => cases finned.1.symm.trans stalled.unfinished
    · exact ⟨{ stalled with }, nofun⟩

theorem Stalled.pollEstablished :
    (conn.pollEstablished outside).1.rtoDeadline = none ↔ conn.rtoDeadline = none := by
  have same := (flushToBackend_sameSend conn outside.now outside.writes).trans
    (updateWindow_sameSend _ outside.budget)
  have ready : Stalled ((conn.flushToBackend outside.now outside.writes).updateWindow
      outside.budget).1 := by
    refine stalled.congr same ?_
    rw [updateWindow_state, (flushToBackend_kept _ _ _).2]
    exact stalled.established
  rw [← same.rtoDeadline]
  unfold TcpConn.pollEstablished
  dsimp only
  split
  next timedOut =>
    split
    · exact Iff.rfl
    obtain ⟨again, armed⟩ := ready.retransmit
    rw [again.transmit]
    refine iff_of_false armed fun none => ?_
    rw [TcpConn.timedOut, none] at timedOut
    cases timedOut
  · rw [ready.transmit]

theorem Stalled.poll : (conn.poll outside).1.rtoDeadline = none ↔ conn.rtoDeadline = none := by
  unfold TcpConn.poll
  split
  · exact Iff.rfl
  · rw [stalled.established]
    exact stalled.pollEstablished

end

/-! ### When the timer stands still -/

/-- The timer runs while something sent is not acknowledged. -/
structure Timed (conn : TcpConn) : Prop where
  synOut : conn.state = .synSent ∨ conn.state = .synReceived → conn.sndNxt = conn.iss + 1
  still : conn.rtoDeadline = none → conn.sndNxt = conn.sndUna

theorem Timed.of_opened (opened : conn.state = .established ∨ conn.state = .closed)
    (still : conn.rtoDeadline = none → conn.sndNxt = conn.sndUna) : Timed conn := by
  refine ⟨?_, still⟩
  rintro (waiting | waiting) <;> rcases opened with state | state <;>
    cases state.symm.trans waiting

theorem Timed.congr (timed : Timed conn) (same : SameSend conn conn') : Timed conn' := by
  have outbound := same.outbound
  simp only [TcpConn.outbound, Prod.mk.injEq] at outbound
  obtain ⟨-, -, iss, sndUna, sndNxt, -⟩ := outbound
  constructor
  · rw [sndNxt, iss]
    rcases same.state with unchanged | closed
    · rw [unchanged]
      exact timed.synOut
    · rw [closed]
      rintro (waiting | waiting) <;> cases waiting
  · rw [same.rtoDeadline, sndNxt, sndUna]
    exact timed.still

/-- The same while a poll works on an established connection. -/
structure Working (conn : TcpConn) : Prop where
  established : conn.state = .established
  still : conn.rtoDeadline = none → conn.sndNxt = conn.sndUna

theorem Working.armRto (established : conn.state = .established) {now : Nat} :
    Working (conn.armRto now) := by
  unfold TcpConn.armRto
  split
  · exact ⟨established, nofun⟩
  next armed => exact ⟨established, fun none => absurd none armed⟩

theorem Working.fillWindow (now budget fuel : Nat) (working : Working conn)
    (reads : List ReadOutcome) (out : List Frame) :
    Working (fillWindow now budget fuel conn reads out).1 :=
  fillWindow_keeps (fun _ _ working => @Working.armRto (sentTo _ _) working.established _)
    (fun _ _ _ working => { working with }) (fun _ _ working => { working with }) working

section
variable (working : Working conn)
include working

theorem Working.sendFin (now budget : Nat) (out : List Frame) :
    Working (conn.sendFin now budget out).1 := by
  unfold TcpConn.sendFin
  split
  · refine .armRto ?_
    exact working.established
  · exact working

theorem Working.retransmit : Working (conn.retransmit now out).1 := by
  unfold TcpConn.retransmit
  dsimp only
  split
  · exact ⟨working.established, nofun⟩
  · split <;> exact ⟨working.established, nofun⟩

theorem Working.timed : Timed conn := .of_opened (.inl working.established) working.still

theorem Working.transmit : Timed (conn.transmit outside out).1 := by
  have sent := ((working.fillWindow outside.now outside.budget
    (outside.budget + outside.reads.length) outside.reads out).sendFin outside.now outside.budget
    (TcpConn.fillWindow outside.now outside.budget (outside.budget + outside.reads.length) conn
      outside.reads out).2).timed
  unfold TcpConn.transmit
  dsimp only
  split
  · exact sent.congr (abort_sameSend _)
  · exact sent.congr (closeIfDone_sameSend _)

end

section
variable (timed : Timed conn)
include timed

theorem Timed.pollEstablished (established : conn.state = .established) :
    Timed (conn.pollEstablished outside).1 := by
  have ready := timed.congr ((flushToBackend_sameSend conn outside.now outside.writes).trans
    (updateWindow_sameSend _ outside.budget))
  have working : Working ((conn.flushToBackend outside.now outside.writes).updateWindow
      outside.budget).1 := by
    refine ⟨?_, ready.still⟩
    rw [updateWindow_state, (flushToBackend_kept _ _ _).2]
    exact established
  unfold TcpConn.pollEstablished
  dsimp only
  split
  · split
    · exact ready.congr (abort_sameSend _)
    · exact (working.retransmit).transmit
  · exact working.transmit

theorem Timed.poll : Timed (conn.poll outside).1 := by
  have resent : ∀ frames, Timed (if conn.timedOut outside.now then
        if giveUp / 4 < outside.now - conn.lastProgress then conn.abort outside.now
        else (conn.backoff outside.now, frames)
      else (conn, [])).1 := by
    intro frames
    split
    · split
      · exact timed.congr (abort_sameSend conn)
      · exact ⟨timed.synOut, nofun⟩
    · exact timed
  unfold TcpConn.poll
  split
  · exact timed.congr (abort_sameSend conn)
  split
  · split
    · exact timed
    · exact ⟨fun _ => rfl, nofun⟩
    · exact .of_opened (.inr rfl) timed.still
  · exact resent _
  · exact resent _
  · exact timed
  next established => exact timed.pollEstablished established

section
variable (opened : conn.state = .established ∨ conn.state = .closed) (now : Nat) (tcp : TcpSegment)
include opened

theorem Timed.processAck : Timed (conn.processAck now tcp) := by
  unfold TcpConn.processAck
  split
  · split
    · refine .of_opened opened ?_
      intro none
      by_contra left
      cases (if_neg (Ne.symm left)).symm.trans none
    · exact { timed with }
  · exact timed

theorem Timed.inputEstablished : Timed (conn.inputEstablished now tcp writes).1 := by
  have flushed := (((timed.processAck opened now tcp).congr (processData_sameSend _ tcp)).congr
    (processFin_sameSend _ tcp)).congr (flushToBackend_sameSend _ now writes)
  unfold TcpConn.inputEstablished
  split
  · refine Timed.congr (flushed.congr ?_) (closeIfDone_sameSend _)
    exact ⟨rfl, .inl rfl⟩
  · exact flushed.congr (closeIfDone_sameSend _)

end

theorem Timed.input : Timed (conn.input now tcp writes).1 := by
  have used : Timed { conn with lastUse := now } := { timed with }
  unfold TcpConn.input
  dsimp only
  split
  · exact .of_opened (.inr rfl) timed.still
  split
  · exact used
  next waiting =>
    split
    next answer =>
      exact .of_opened (.inl rfl) fun _ => (timed.synOut (.inl waiting)).trans answer.2.2.symm
    · split
      · exact { used with }
      · exact used
  next waiting =>
    split
    · exact used
    · split
      next answer =>
        refine Timed.inputEstablished (.of_opened (.inl rfl) fun _ => ?_) (.inl rfl) _ _
        exact (timed.synOut (.inr waiting)).trans answer.2.symm
      · exact used
  next state =>
    split
    · exact used
    · exact used.inputEstablished (.inl state) _ _
  next state =>
    split
    · exact used
    · exact used.inputEstablished (.inr state) _ _

theorem Timed.run : Timed (connRun conn ops) := by
  refine List.foldlRecOn ops connStep (motive := Timed) timed fun conn timed op _ => ?_
  cases op with
  | segment now tcp writes => exact timed.input
  | poll outside => exact timed.poll

end

theorem Starts.timed (starts : Starts conn) : Timed conn := by
  cases starts with
  | accepted iss now syn =>
    refine ⟨?_, fun _ => rfl⟩
    rintro (waiting | waiting) <;> cases waiting
  | opened iss now => exact ⟨fun _ => rfl, nofun⟩

/-- In every run, once the guest has closed its window on data: the timer is armed after the next
poll iff it was before, and it was if something sent is not acknowledged. -/
theorem closed_window_armed_iff (conn : TcpConn) (starts : Starts conn) (ops : List ConnOp)
    (stalled : Stalled (connRun conn ops)) (outside : PollInput) :
    (((connRun conn ops).poll outside).1.rtoDeadline ≠ none ↔
        (connRun conn ops).rtoDeadline ≠ none) ∧
      ((connRun conn ops).inFlight ≠ 0 → (connRun conn ops).rtoDeadline ≠ none) := by
  refine ⟨not_congr stalled.poll, fun sent none => sent ?_⟩
  rw [inFlight, (starts.timed.run).still none, BitVec.sub_self]
  rfl

/-- Three bytes go out, and the guest closes its window without taking them. -/
def closingRun : List ConnOp :=
  [connectPoll, .segment 1 (ackSegment 1 4) [],
    .poll ⟨2, 8, .pending, [], [.bytes [7, 8, 9], .wouldBlock]⟩,
    .segment 3 (ackSegment 1 0) []]

theorem closed_window_armed_unacknowledged :
    ((connRun (accept 0 0 (offeringSyn 8)) closingRun).poll
      ⟨4, 8, .pending, [], []⟩).1.rtoDeadline ≠ none := by
  have armed := closed_window_armed_iff _ (.accepted 0 0 (offeringSyn 8)) closingRun
    (by constructor <;> decide +kernel) ⟨4, 8, .pending, [], []⟩
  exact armed.1.mpr (armed.2 (by decide +kernel))

/-- The guest takes the probe's byte and keeps its window closed: two bytes are left, and the timer
stands still from then on. -/
theorem acknowledged_probe_stops_timer :
    let conn := connRun (accept 0 0 (offeringSyn 8)) (closingRun ++
      [.poll ⟨300000000, 8, .pending, [], []⟩, .segment 300000001 (ackSegment 2 0) []])
    Stalled conn ∧ conn.unacked = [8, 9] ∧
      (conn.poll ⟨300000002, 8, .pending, [], [.bytes [10]]⟩).1.rtoDeadline = none := by
  refine ⟨by constructor <;> decide +kernel, by decide +kernel, by decide +kernel⟩

end Iris.Net.Tcp
