import Iris.Cpu.Timer.Drift

/-!
Owns what happens to a Compare deadline over whole runs of the timer: the link
between the outstanding ticket, IP7 and the armed one-shot, and when an
operation that carries Count over Compare ends with IP7 pending.
-/

namespace Iris.Cpu.Timer

open CoreTimer

/-! ### Operations -/

def wrapNs (hz : Nat) : Nat := (2 ^ 32 * nsPerSecond / hz) % 2 ^ 64

/-- The armed one-shot's callback, run once it is due. A won claim reschedules
the one-shot a wrap away; a lost one deletes it. -/
def CoreTimer.fireOneShot (core : CoreTimer) (now : Nat) : CoreTimer :=
  match core.timer with
  | some shot =>
    if shot.enabled ∧ shot.deadline ≤ now then
      let won := shot.ticket ≠ ip7SeqConsumed ∧ core.ip7SeqShared = shot.ticket
      { core.claimIp7 shot.ticket with
        timer := if won then some { shot with deadline := now + wrapNs core.countHz } else none }
    else core
  | none => core

inductive TimerOp
  | readCount (moment : Moment)
  | writeCount (moment : Moment) (value : BitVec 32)
  | writeCompare (moment : Moment) (value : BitVec 32)
  | stop (moment : Moment)
  | start (moment : Moment)
  /-- The armed one-shot falls due. -/
  | fire (now : Nat)
  /-- A callback runs that was dequeued before its one-shot was removed or
  disabled. -/
  | lateFire (ticket : BitVec 64)

def timerStep (core : CoreTimer) : TimerOp → CoreTimer
  | .readCount moment => (core.readCount moment).1
  | .writeCount moment value => core.writeCount moment value
  | .writeCompare moment value => core.writeCompare moment value
  | .stop moment => core.onCpuStop moment
  | .start moment => core.onCpuStart moment
  | .fire now => core.fireOneShot now
  | .lateFire ticket => core.claimIp7 ticket

def timerRun (core : CoreTimer) (ops : List TimerOp) : CoreTimer := ops.foldl timerStep core

/-- Ticks a materialisation at `moment` adds to Count. -/
def CoreTimer.materializedTicks (core : CoreTimer) (moment : Moment) : Nat :=
  if core.countPaused ∨ moment.cycles = core.countReadCycle then 0 else core.pendingTicks moment

/-- Ticks an operation carries Count forward by. -/
def advancedTicks (core : CoreTimer) : TimerOp → Nat
  | .readCount moment => core.materializedTicks moment
  | .writeCompare moment _ => core.materializedTicks moment
  | .stop moment => if core.countPaused then 0 else core.pendingTicks moment
  | _ => 0

/-! ### Count moves by exactly these ticks -/

/-- Stepping Count by `ticks` takes it from before `compare` to at or after it,
modulo 2^32. -/
def PassesBy (count compare : BitVec 32) (ticks : Nat) : Prop :=
  compare - count ≠ 0 ∧ (compare - count).toNat ≤ ticks
deriving Decidable

theorem not_passesBy_zero (count compare : BitVec 32) : ¬ PassesBy count compare 0 := by
  intro passes
  apply passes.1
  apply BitVec.eq_of_toNat_eq
  simpa using passes.2

/-- The operation carries Count over the Compare value in force when it ends. -/
def Crosses (core : CoreTimer) (op : TimerOp) : Prop :=
  PassesBy core.cp0Count (timerStep core op).cp0Compare (advancedTicks core op)
deriving Decidable

/-! ### The ticket's share of the state -/

structure SameTicket (core core' : CoreTimer) : Prop where
  seq : core'.ip7Seq = core.ip7Seq
  shared : core'.ip7SeqShared = core.ip7SeqShared
  pending : core'.ip7Pending = core.ip7Pending
  timer : core'.timer = core.timer
  paused : core'.countPaused = core.countPaused

variable {core core' : CoreTimer}

/-- A materialisation moves Count and its anchor, and touches the ticket only by delivering a
crossing. -/
theorem materializeCount_eq {deliver : Bool} :
    ∃ cycle anchor, core.materializeCount moment deliver =
      { (if deliver ∧ PassesBy core.cp0Count core.cp0Compare (core.materializedTicks moment)
          then core.claimIp7 core.ip7Seq else core) with
        countReadCycle := cycle
        countAnchor := anchor
        cp0Count := core.cp0Count + BitVec.ofNat 32 (core.materializedTicks moment) } := by
  have nothing := not_passesBy_zero core.cp0Count core.cp0Compare
  unfold materializedTicks
  by_cases idle : core.countPaused = true ∨ moment.cycles = core.countReadCycle
  · have same : core.materializeCount moment deliver = core := by
      unfold materializeCount
      rcases idle with paused | same
      · rw [if_pos paused]
      · rw [if_pos same, ite_self]
    rw [same]
    simp only [if_pos idle, nothing, and_false, if_false]
    exact ⟨core.countReadCycle, core.countAnchor, by simp⟩
  simp only [if_neg idle]
  rw [not_or] at idle
  rw [materializeCount, if_neg idle.1, if_neg idle.2]
  by_cases still : core.pendingTicks moment = 0
  · exact ⟨moment.cycles, core.countAnchor, by simp [still, nothing]⟩
  refine ⟨moment.cycles, core.countAnchor + consumedNs (core.pendingTicks moment) core.countHz, ?_⟩
  simp only [ne_eq, still, not_false_eq_true, if_true]
  unfold advanceCount PassesBy claimIp7
  dsimp only
  split
  · split
    · rfl
    · split <;> rfl
  · rfl

section
variable (core : CoreTimer) (moment : Moment) (deliver : Bool)

theorem materializeCount_cp0Count :
    (core.materializeCount moment deliver).cp0Count =
      core.cp0Count + BitVec.ofNat 32 (core.materializedTicks moment) := by
  obtain ⟨cycle, anchor, is⟩ := materializeCount_eq
  rw [is]

theorem materializeCount_ticket :
    SameTicket
      (if deliver ∧ PassesBy core.cp0Count core.cp0Compare (core.materializedTicks moment)
        then core.claimIp7 core.ip7Seq else core)
      (core.materializeCount moment deliver) := by
  obtain ⟨cycle, anchor, is⟩ := materializeCount_eq
  rw [is]
  exact ⟨rfl, rfl, rfl, rfl, rfl⟩

theorem materializeCount_frame :
    (core.materializeCount moment deliver).cp0Compare = core.cp0Compare ∧
      (core.materializeCount moment deliver).countLastGuestRead = core.countLastGuestRead ∧
      (core.materializeCount moment deliver).countHz = core.countHz := by
  obtain ⟨cycle, anchor, is⟩ := materializeCount_eq
  rw [is]
  split
  · rcases claimIp7_eq_or core core.ip7Seq with same | same <;> rw [same] <;>
      exact ⟨rfl, rfl, rfl⟩
  · exact ⟨rfl, rfl, rfl⟩

end

/-! ### The link between ticket, IP7 and one-shot -/

/-- The shared word holds the current ticket or the consumed mark; a consumed
ticket leaves IP7 pending until the next Compare write. -/
structure TicketOk (core : CoreTimer) : Prop where
  shared : core.ip7SeqShared = ip7SeqConsumed ∨ core.ip7SeqShared = core.ip7Seq
  delivered : core.ip7Seq ≠ ip7SeqConsumed → core.ip7SeqShared = ip7SeqConsumed →
    core.ip7Pending = true
  unissued : core.ip7Seq = ip7SeqConsumed → core.ip7Pending = false

/-- A live one-shot holds the current, unclaimed ticket. -/
def LiveOneShot (core : CoreTimer) : Prop :=
  core.ip7SeqShared = core.ip7Seq ∧
    ∃ shot, core.timer = some shot ∧ shot.enabled = true ∧ shot.ticket = core.ip7Seq

/-- In a running core an unclaimed ticket has a live one-shot. -/
structure Linked (core : CoreTimer) : Prop extends TicketOk core where
  armed : core.countPaused = false → core.ip7SeqShared = core.ip7Seq →
    core.ip7Seq ≠ ip7SeqConsumed → LiveOneShot core

theorem new_linked :
    Linked { new now with countHz := hz } where
  shared := .inl rfl
  delivered := fun issued => absurd rfl issued
  unissued := fun _ => rfl
  armed := fun _ _ issued => absurd rfl issued

theorem nextTicket_ne_consumed (seq : BitVec 64) :
    nextTicket seq ≠ ip7SeqConsumed := by
  unfold nextTicket
  split
  · decide
  · assumption

theorem TicketOk.congr (ok : TicketOk core) (same : SameTicket core core') : TicketOk core' where
  shared := by rw [same.shared, same.seq]; exact ok.shared
  delivered := by rw [same.shared, same.seq, same.pending]; exact ok.delivered
  unissued := by rw [same.seq, same.pending]; exact ok.unissued

theorem Linked.congr (linked : Linked core) (same : SameTicket core core') : Linked core' where
  toTicketOk := linked.toTicketOk.congr same
  armed := by
    unfold LiveOneShot
    rw [same.paused, same.shared, same.seq, same.timer]
    exact linked.armed

variable {ticket : BitVec 64} {moment : Moment}

theorem claimIp7_of_live (issued : ticket ≠ ip7SeqConsumed) (live : core.ip7SeqShared = ticket) :
    core.claimIp7 ticket = { core with ip7SeqShared := ip7SeqConsumed, ip7Pending := true } := by
  unfold claimIp7
  rw [if_neg issued, if_pos live]

theorem claimIp7_of_not_live (dead : ¬ (ticket ≠ ip7SeqConsumed ∧ core.ip7SeqShared = ticket)) :
    core.claimIp7 ticket = core := by
  unfold claimIp7
  split
  · rfl
  next issued => rw [if_neg fun live => dead ⟨issued, live⟩]

/-- A live ticket is the current one. -/
theorem TicketOk.seq_of_live (ok : TicketOk core) (issued : ticket ≠ ip7SeqConsumed)
    (live : core.ip7SeqShared = ticket) : core.ip7Seq = ticket := by
  rcases ok.shared with consumed | current
  · exact absurd (live.symm.trans consumed) issued
  · exact current.symm.trans live

theorem TicketOk.claim (ok : TicketOk core) (ticket : BitVec 64) :
    TicketOk (core.claimIp7 ticket) := by
  by_cases live : ticket ≠ ip7SeqConsumed ∧ core.ip7SeqShared = ticket
  · have current := ok.seq_of_live live.1 live.2
    rw [claimIp7_of_live live.1 live.2]
    exact ⟨.inl rfl, fun _ _ => rfl, fun unissued =>
      absurd (current.symm.trans unissued) live.1⟩
  · rw [claimIp7_of_not_live live]
    exact ok

theorem Linked.claim (linked : Linked core) : Linked (core.claimIp7 ticket) := by
  refine ⟨linked.toTicketOk.claim ticket, ?_⟩
  by_cases live : ticket ≠ ip7SeqConsumed ∧ core.ip7SeqShared = ticket
  · rw [claimIp7_of_live live.1 live.2]
    exact fun _ shared issued => absurd shared.symm issued
  · rw [claimIp7_of_not_live live]
    exact linked.armed

/-- Scheduling arms a one-shot for the current ticket unless the core is
stopped. -/
theorem TicketOk.schedule (ok : TicketOk core) : Linked (core.scheduleCompareTimer now) := by
  unfold scheduleCompareTimer
  split
  next paused => exact ⟨ok, fun running => absurd running (by simp [paused])⟩
  · exact ⟨{ ok with }, fun _ shared _ =>
      ⟨shared, _, rfl, rfl, rfl⟩⟩

theorem TicketOk.pending_of_claim (ok : TicketOk core) (issued : core.ip7Seq ≠ ip7SeqConsumed) :
    (core.claimIp7 core.ip7Seq).ip7Pending = true := by
  by_cases live : core.ip7SeqShared = core.ip7Seq
  · rw [claimIp7_of_live issued live]
  · rw [claimIp7_of_not_live fun both => live both.2]
    exact ok.delivered issued (ok.shared.resolve_right live)

/-! ### Each operation keeps the link -/

/-- Count at `moment`, as a materialisation there would leave it. -/
def CoreTimer.countAt (core : CoreTimer) (moment : Moment) : BitVec 32 :=
  core.cp0Count + BitVec.ofNat 32 (core.materializedTicks moment)

/-- A Compare write up to its classification: fresh ticket, Count brought up to
date, IP7 acknowledged. -/
def CoreTimer.acknowledged (core : CoreTimer) (moment : Moment) (value : BitVec 32) : CoreTimer :=
  { core.armIp7Sequence.materializeCount moment false with
    cp0Compare := value, ip7Pending := false }

section
variable (core : CoreTimer) (moment : Moment) (value : BitVec 32)

theorem acknowledged_ticket :
    (core.acknowledged moment value).ip7Seq = nextTicket core.ip7Seq ∧
      (core.acknowledged moment value).ip7SeqShared = nextTicket core.ip7Seq := by
  have same := materializeCount_ticket core.armIp7Sequence moment false
  exact ⟨same.seq, same.shared⟩

theorem acknowledged_ticketOk : TicketOk (core.acknowledged moment value) := by
  obtain ⟨seq, shared⟩ := acknowledged_ticket core moment value
  have issued := nextTicket_ne_consumed core.ip7Seq
  refine ⟨.inr (shared.trans seq.symm), ?_, ?_⟩
  · intro _ consumed
    exact absurd (shared.symm.trans consumed) issued
  · intro unissued
    exact absurd (seq.symm.trans unissued) issued

theorem acknowledged_count :
    (core.acknowledged moment value).cp0Count = core.countAt moment ∧
      (core.acknowledged moment value).countLastGuestRead = core.countLastGuestRead :=
  ⟨materializeCount_cp0Count core.armIp7Sequence moment false,
    (materializeCount_frame core.armIp7Sequence moment false).2.1⟩

/-- A Compare write is its acknowledgement, the missed-deadline delivery, and
the re-arm. -/
theorem writeCompare_eq :
    core.writeCompare moment value = (if ¬ inFuture value (core.countAt moment) ∧
          missed value core.countLastGuestRead (core.countAt moment) then
        (core.acknowledged moment value).claimIp7 (nextTicket core.ip7Seq)
      else core.acknowledged moment value).scheduleCompareTimer moment.now := by
  obtain ⟨count, lastRead⟩ := acknowledged_count core moment value
  obtain ⟨seq, _⟩ := acknowledged_ticket core moment value
  have unfolded : core.writeCompare moment value =
      (if inFuture value (core.acknowledged moment value).cp0Count then
        core.acknowledged moment value
      else if value = (core.acknowledged moment value).countLastGuestRead ∨
          ¬ missed value (core.acknowledged moment value).countLastGuestRead
            (core.acknowledged moment value).cp0Count then
        core.acknowledged moment value
      else (core.acknowledged moment value).claimIp7
        (core.acknowledged moment value).ip7Seq).scheduleCompareTimer moment.now := rfl
  rw [unfolded, count, lastRead, seq]
  by_cases future : inFuture value (core.countAt moment) = true
  · simp [future]
  by_cases late : missed value core.countLastGuestRead (core.countAt moment) = true
  · have apart : value ≠ core.countLastGuestRead := by
      intro same
      simp [missed, same] at late
    simp [future, late, apart]
  · simp [future, late]

end

theorem Linked.readCount (linked : Linked core) : Linked (core.readCount moment).1 := by
  have materialized : Linked (core.materializeCount moment true) := by
    refine Linked.congr ?_ (materializeCount_ticket core moment true)
    split
    · exact linked.claim
    · exact linked
  exact materialized.congr ⟨rfl, rfl, rfl, rfl, rfl⟩

theorem writeCompare_linked (core : CoreTimer) (moment : Moment) (value : BitVec 32) :
    Linked (core.writeCompare moment value) := by
  rw [writeCompare_eq]
  apply TicketOk.schedule
  split
  · exact (acknowledged_ticketOk core moment value).claim _
  · exact acknowledged_ticketOk core moment value

section
variable (ok : TicketOk core) (moment : Moment)
include ok

theorem TicketOk.reanchor : Linked (core.reanchorCountAndReschedule moment) := by
  have moved : TicketOk { core with countReadCycle := moment.cycles, countAnchor := moment.now } :=
    { ok with }
  exact moved.schedule

theorem TicketOk.writeCount : Linked (core.writeCount moment value) := by
  apply TicketOk.reanchor
  exact { ok with }

theorem TicketOk.start : Linked (core.onCpuStart moment) := by
  apply TicketOk.reanchor
  exact { ok with }

end

theorem Linked.stop (linked : Linked core) : Linked (core.onCpuStop moment) := by
  unfold onCpuStop
  split
  · exact linked
  · exact ⟨{ linked with }, fun running =>
      absurd running (by simp)⟩

theorem fireOneShot_eq (held : core.timer = some shot)
    (due : shot.enabled = true ∧ shot.deadline ≤ now) :
    core.fireOneShot now =
      { core.claimIp7 shot.ticket with
        timer :=
          if shot.ticket ≠ ip7SeqConsumed ∧ core.ip7SeqShared = shot.ticket then
            some { shot with deadline := now + wrapNs core.countHz }
          else none } := by
  unfold fireOneShot
  rw [held]
  dsimp only
  rw [if_pos due]

theorem fireOneShot_not_due
    (notDue : ∀ shot, core.timer = some shot → ¬ (shot.enabled = true ∧ shot.deadline ≤ now)) :
    core.fireOneShot now = core := by
  unfold fireOneShot
  split
  next shot held => rw [if_neg (notDue shot held)]
  · rfl

theorem Linked.fire (linked : Linked core) : Linked (core.fireOneShot now) := by
  by_cases due : ∃ shot, core.timer = some shot ∧ shot.enabled = true ∧ shot.deadline ≤ now
  · obtain ⟨shot, held, due⟩ := due
    rw [fireOneShot_eq held due]
    have ok := linked.toTicketOk.claim shot.ticket
    refine ⟨{ ok with }, ?_⟩
    by_cases won : shot.ticket ≠ ip7SeqConsumed ∧ core.ip7SeqShared = shot.ticket
    · rw [claimIp7_of_live won.1 won.2]
      exact fun _ shared issued => absurd shared.symm issued
    -- the armed ticket would be the live one, so the claim could not be lost
    rw [claimIp7_of_not_live won]
    intro running shared issued
    obtain ⟨_, armed, armedHeld, _, ticket⟩ := linked.armed running shared issued
    have same : armed = shot := Option.some.inj (armedHeld.symm.trans held)
    subst same
    exact absurd ⟨ticket ▸ issued, shared.trans ticket.symm⟩ won
  · rw [fireOneShot_not_due fun shot held dueNow => due ⟨shot, held, dueNow⟩]
    exact linked

theorem Linked.timerStep (linked : Linked core) : Linked (timerStep core op) := by
  cases op with
  | readCount moment => exact linked.readCount
  | writeCount moment value => exact linked.toTicketOk.writeCount moment
  | writeCompare moment value => exact writeCompare_linked core moment value
  | stop moment => exact linked.stop
  | start moment => exact linked.toTicketOk.start moment
  | fire now => exact linked.fire
  | lateFire ticket => exact linked.claim

theorem Linked.timerRun (linked : Linked core) : Linked (timerRun core ops) :=
  List.foldlRecOn ops _ linked fun _ linked _ _ => linked.timerStep

/-! ### Crossings -/

/-- The Compare write falls within one turn of Count since the guest last read
it, and Count steps by less than half its range. -/
def FreshCompareWrite (core : CoreTimer) (moment : Moment) : Prop :=
  (core.cp0Count - core.countLastGuestRead).toNat + core.materializedTicks moment < 2 ^ 32 ∧
    core.materializedTicks moment < 2 ^ 31
deriving Decidable

/-- What an operation that carries Count over Compare has to find: a Count read
an issued ticket, a Compare write a fresh window, a stop IP7 already pending. -/
def DeliversCrossing (core : CoreTimer) : TimerOp → Prop
  | .readCount _ => core.ip7Seq ≠ ip7SeqConsumed
  | .writeCompare moment _ => FreshCompareWrite core moment
  | .stop _ => core.ip7Pending = true
  | _ => True

instance (core : CoreTimer) : (op : TimerOp) → Decidable (DeliversCrossing core op)
  | .readCount _ => inferInstanceAs (Decidable (_ ≠ _))
  | .writeCompare _ _ => inferInstanceAs (Decidable (FreshCompareWrite _ _))
  | .stop _ => inferInstanceAs (Decidable (_ = _))
  | .writeCount _ _ | .start _ | .fire _ | .lateFire _ => inferInstanceAs (Decidable True)

/-- A crossing in a fresh window is seen as missed, not as lying ahead. -/
theorem FreshCompareWrite.classify (fresh : FreshCompareWrite core moment)
    (passes : PassesBy core.cp0Count value (core.materializedTicks moment)) :
    ¬ inFuture value (core.countAt moment) = true ∧
      missed value core.countLastGuestRead (core.countAt moment) = true := by
  obtain ⟨window, halfRange⟩ := fresh
  obtain ⟨apart, reached⟩ := passes
  have positive : 0 < (value - core.cp0Count).toNat := by
    rw [Nat.pos_iff_ne_zero]
    exact fun zero => apart (BitVec.eq_of_toNat_eq zero)
  -- distances from the last read, as numbers without wrap
  have fromRead : (value - core.countLastGuestRead).toNat =
      (core.cp0Count - core.countLastGuestRead).toNat + (value - core.cp0Count).toNat := by
    bv_omega
  have countFromRead : (core.countAt moment - core.countLastGuestRead).toNat =
      (core.cp0Count - core.countLastGuestRead).toNat + core.materializedTicks moment := by
    unfold countAt
    bv_omega
  have behind : (value - core.countAt moment).toNat =
      (2 ^ 32 + (value - core.cp0Count).toNat - core.materializedTicks moment) % 2 ^ 32 := by
    bv_omega
  constructor
  · simp only [inFuture, Bool.and_eq_true, decide_eq_true_eq, not_and, not_lt]
    rw [BitVec.toInt_eq_toNat_cond]
    split <;> omega
  · simp only [missed, Bool.and_eq_true, decide_eq_true_eq]
    refine ⟨fun same => ?_, by omega⟩
    rw [same] at fromRead
    simp only [BitVec.ofNat_eq_ofNat, BitVec.toNat_ofNat, Nat.zero_mod] at fromRead
    omega

/-- A claim of a ticket still outstanding survives the re-arm. -/
theorem scheduleCompareTimer_pending (core : CoreTimer) (now : Nat) :
    (core.scheduleCompareTimer now).ip7Pending = core.ip7Pending := by
  unfold scheduleCompareTimer
  split <;> rfl

theorem scheduleCompareTimer_compare (core : CoreTimer) (now : Nat) :
    (core.scheduleCompareTimer now).cp0Compare = core.cp0Compare := by
  unfold scheduleCompareTimer
  split <;> rfl

theorem claimIp7_compare (core : CoreTimer) (ticket : BitVec 64) :
    (core.claimIp7 ticket).cp0Compare = core.cp0Compare := by
  rcases claimIp7_eq_or core ticket with same | same <;> rw [same]

theorem writeCompare_compare (core : CoreTimer) (moment : Moment) (value : BitVec 32) :
    (core.writeCompare moment value).cp0Compare = value := by
  rw [writeCompare_eq, scheduleCompareTimer_compare]
  split
  · rw [claimIp7_compare]
    rfl
  · rfl

theorem Linked.readCount_pending (linked : Linked core)
    (passes : PassesBy core.cp0Count core.cp0Compare (core.materializedTicks moment))
    (issued : core.ip7Seq ≠ ip7SeqConsumed) : (core.readCount moment).1.ip7Pending = true := by
  have same := materializeCount_ticket core moment true
  rw [if_pos ⟨rfl, passes⟩] at same
  exact same.pending.trans (linked.toTicketOk.pending_of_claim issued)

theorem writeCompare_pending (passes : PassesBy core.cp0Count value (core.materializedTicks moment))
    (fresh : FreshCompareWrite core moment) :
    (core.writeCompare moment value).ip7Pending = true := by
  obtain ⟨notAhead, late⟩ := fresh.classify passes
  have shared := (acknowledged_ticket core moment value).2
  rw [writeCompare_eq, scheduleCompareTimer_pending, if_pos ⟨notAhead, late⟩,
    claimIp7_of_live (nextTicket_ne_consumed _) shared]

/-- One operation: a crossing that meets its condition ends with IP7 pending. -/
theorem Linked.crossing_pending (linked : Linked core) (crosses : Crosses core op)
    (delivers : DeliversCrossing core op) :
    (Timer.timerStep core op).ip7Pending = true := by
  cases op with
  | readCount moment =>
    have compare : (core.readCount moment).1.cp0Compare = core.cp0Compare :=
      (materializeCount_frame core moment true).1
    unfold Crosses Timer.timerStep at crosses
    rw [compare] at crosses
    exact linked.readCount_pending crosses delivers
  | writeCompare moment value =>
    unfold Crosses Timer.timerStep at crosses
    rw [writeCompare_compare] at crosses
    exact writeCompare_pending crosses delivers
  | stop moment =>
    have kept : (core.onCpuStop moment).ip7Pending = core.ip7Pending := by
      unfold onCpuStop
      split <;> rfl
    exact kept.trans delivers
  | writeCount moment value | start moment | fire now | lateFire ticket =>
    exact absurd crosses (not_passesBy_zero _ _)

/-! ### A late Compare write -/

/-- The half-open interval `(start, stop]` on the circle of Count values: what Count meets on its
way from `start` up to `stop`. -/
def MetOnTheWay (start stop point : BitVec 32) : Prop :=
  ∃ ticks, 0 < ticks ∧ ticks ≤ (stop - start).toNat ∧ start + BitVec.ofNat 32 ticks = point

theorem ticks_from (start : BitVec 32) {ticks : Nat} :
    (start + BitVec.ofNat 32 ticks - start).toNat = ticks % 2 ^ 32 := by
  rw [BitVec.add_comm, BitVec.add_sub_cancel, BitVec.toNat_ofNat]

theorem metOnTheWay_iff :
    MetOnTheWay start stop point ↔
      point - start ≠ 0 ∧ (point - start).toNat ≤ (stop - start).toNat := by
  constructor
  · rintro ⟨ticks, positive, most, rfl⟩
    have small : ticks < 2 ^ 32 := most.trans_lt (stop - start).isLt
    have distance := (ticks_from start).trans (Nat.mod_eq_of_lt small)
    refine ⟨fun same => ?_, distance.le.trans most⟩
    rw [same] at distance
    exact positive.ne distance
  · rintro ⟨apart, most⟩
    refine ⟨(point - start).toNat, ?_, most, ?_⟩
    · exact Nat.pos_of_ne_zero fun zero => apart (BitVec.eq_of_toNat_eq zero)
    · rw [BitVec.ofNat_toNat, BitVec.setWidth_eq, BitVec.add_comm, BitVec.sub_add_cancel]

theorem missed_iff : missed value lastRead count = true ↔ MetOnTheWay lastRead count value := by
  simp [missed, metOnTheWay_iff]

theorem inFuture_iff :
    inFuture value count = true ↔ MetOnTheWay count (count + 0x7fffffff) value := by
  have half : (count + 0x7fffffff - count).toNat = 0x7fffffff := ticks_from count
  rw [metOnTheWay_iff]
  simp only [inFuture, Bool.and_eq_true, decide_eq_true_eq]
  refine and_congr_right fun apart => ?_
  have positive : 0 < (value - count).toNat :=
    Nat.pos_of_ne_zero fun zero => apart (BitVec.eq_of_toNat_eq zero)
  rw [BitVec.toInt_eq_toNat_cond]
  split <;> omega

/-- The delay of a one-shot is the time of the least number of ticks that takes Count to it. -/
theorem compareDelayNs_least {compare : BitVec 32} {hz : Nat} :
    ∃ ticks, IsLeast {ticks | 0 < ticks ∧ count + BitVec.ofNat 32 ticks = compare} ticks ∧
      compareDelayNs compare count hz = ticks * nsPerSecond / hz := by
  refine ⟨if (compare - count).toNat = 0 then 2 ^ 32 else (compare - count).toNat, ⟨?_, ?_⟩, ?_⟩
  · constructor
    · split <;> omega
    · split
      · bv_omega
      · rw [BitVec.ofNat_toNat, BitVec.setWidth_eq, BitVec.add_comm, BitVec.sub_add_cancel]
  · rintro ticks ⟨positive, rfl⟩
    rw [ticks_from]
    split <;> omega
  · refine Nat.mod_eq_of_lt (Nat.lt_of_le_of_lt (Nat.div_le_self _ _) ?_)
    rw [nsPerSecond]
    split <;> omega

theorem writeCompare_arms {moment : Moment} (running : core.countPaused = false) :
    (core.writeCompare moment value).ip7Seq = nextTicket core.ip7Seq ∧
      (core.writeCompare moment value).timer =
        some ⟨moment.now + compareDelayNs value (core.countAt moment) core.countHz,
          nextTicket core.ip7Seq, true⟩ := by
  obtain ⟨seq, -⟩ := acknowledged_ticket core moment value
  obtain ⟨count, -⟩ := acknowledged_count core moment value
  have rate : (core.acknowledged moment value).countHz = core.countHz :=
    (materializeCount_frame core.armIp7Sequence moment false).2.2
  have same := materializeCount_ticket core.armIp7Sequence moment false
  have going : (core.acknowledged moment value).countPaused = false := same.paused.trans running
  rw [← seq, ← count, ← rate, writeCompare_eq]
  split
  · rcases claimIp7_eq_or (core.acknowledged moment value) (nextTicket core.ip7Seq) with
      claim | claim
    all_goals
      rw [claim, scheduleCompareTimer, if_neg (by simp [going])]
      exact ⟨rfl, rfl⟩
  · rw [scheduleCompareTimer, if_neg (by simp [going])]
    exact ⟨rfl, rfl⟩

/-- A Compare write raises IP7 iff Count met the value on its way from the guest's last read and
the value is not ahead of it; on a running core it arms a one-shot for the next time Count gets
there, live unless IP7 was raised. -/
theorem writeCompare_catches_late (core : CoreTimer) (moment : Moment) (value : BitVec 32) :
    ((core.writeCompare moment value).ip7Pending = true ↔
      MetOnTheWay core.countLastGuestRead (core.countAt moment) value ∧
        ¬ MetOnTheWay (core.countAt moment) (core.countAt moment + 0x7fffffff) value) ∧
    (core.countPaused = false →
      (∃ ticks, IsLeast {ticks | 0 < ticks ∧
          core.countAt moment + BitVec.ofNat 32 ticks = value} ticks ∧
        (core.writeCompare moment value).timer =
          some ⟨moment.now + ticks * nsPerSecond / core.countHz,
            (core.writeCompare moment value).ip7Seq, true⟩) ∧
      ((core.writeCompare moment value).ip7Pending = true ∨
        LiveOneShot (core.writeCompare moment value))) := by
  constructor
  · rw [← missed_iff, ← inFuture_iff, and_comm, writeCompare_eq, scheduleCompareTimer_pending]
    split
    next late =>
      rw [claimIp7_of_live (nextTicket_ne_consumed _) (acknowledged_ticket core moment value).2]
      exact iff_of_true rfl late
    next onTime => exact iff_of_false Bool.false_ne_true onTime
  · intro running
    obtain ⟨seq, timer⟩ := writeCompare_arms running
    obtain ⟨ticks, least, delay⟩ := compareDelayNs_least
    refine ⟨⟨ticks, least, by rw [timer, delay, seq]⟩, ?_⟩
    have linked := writeCompare_linked core moment value
    rcases linked.shared with consumed | current
    · exact .inl (linked.delivered (seq ▸ nextTicket_ne_consumed _) consumed)
    · exact .inr ⟨current, _, timer, rfl, seq.symm⟩

/-- A deadline met between the guest's read and its write. -/
theorem writeCompare_catches_deadline :
    ((new 0).writeCompare ⟨29000, 1⟩ 900).ip7Pending = true ∧
      ∃ ticks, ((new 0).writeCompare ⟨29000, 1⟩ 900).timer =
        some ⟨29000 + ticks * nsPerSecond / defaultCountHz, 1, true⟩ := by
  obtain ⟨raised, armed⟩ := writeCompare_catches_late (new 0) ⟨29000, 1⟩ 900
  obtain ⟨⟨ticks, -, timer⟩, -⟩ := armed rfl
  refine ⟨raised.mpr ?_, ticks, timer⟩
  rw [metOnTheWay_iff, metOnTheWay_iff]
  decide +kernel

/-- A guest that read Count as 0 and writes 1 when Count is 0xffffffff: Count met the value, but it
is two ticks ahead. -/
theorem writeCompare_takes_met_as_ahead :
    MetOnTheWay (new 0).countLastGuestRead
        ((new 0).countAt ⟨130150524091, 1⟩) 1 ∧
      ((new 0).writeCompare ⟨130150524091, 1⟩ 1).ip7Pending = false ∧
      ((new 0).writeCompare ⟨130150524091, 1⟩ 1).timer = some ⟨130150524151, 1, true⟩ := by
  rw [metOnTheWay_iff]
  decide +kernel

/-! ### Whole runs -/

def initialCore (hz now : Nat) : CoreTimer := { new now with countHz := hz }

theorem timerRun_concat (core : CoreTimer) (ops : List TimerOp) (op : TimerOp) :
    timerRun core (ops ++ [op]) = timerStep (timerRun core ops) op := by
  simp [timerRun]

/-- After every run, an operation that carries Count over Compare ends with IP7
pending if it meets its condition, and a running core with a ticket issued has
IP7 pending or a live one-shot armed. -/
theorem crossing_not_lost (hz now : Nat) (ops : List TimerOp) :
    (∀ op, Crosses (timerRun (initialCore hz now) ops) op →
      DeliversCrossing (timerRun (initialCore hz now) ops) op →
      (timerRun (initialCore hz now) (ops ++ [op])).ip7Pending = true) ∧
    ((timerRun (initialCore hz now) ops).countPaused = false →
      (timerRun (initialCore hz now) ops).ip7Seq ≠ ip7SeqConsumed →
      (timerRun (initialCore hz now) ops).ip7Pending = true ∨
        LiveOneShot (timerRun (initialCore hz now) ops)) := by
  have reached : Linked (timerRun (initialCore hz now) ops) := (new_linked).timerRun
  constructor
  · intro op crosses delivers
    rw [timerRun_concat]
    exact reached.crossing_pending crosses delivers
  · intro running issued
    rcases reached.shared with consumed | current
    · exact .inl (reached.delivered issued consumed)
    · exact .inr (reached.armed running current issued)

/-- A Compare write at 29 ns and a Count read at 30310 ns, just past the
deadline. -/
theorem crossing_not_lost_at_read :
    (timerRun (initialCore defaultCountHz 0)
      [.writeCompare ⟨29, 1⟩ 1000, .readCount ⟨30310, 2⟩]).ip7Pending = true :=
  (crossing_not_lost defaultCountHz 0 [.writeCompare ⟨29, 1⟩ 1000]).1 (.readCount ⟨30310, 2⟩)
    (by decide +kernel) (by decide +kernel)

/-- A core whose guest never wrote Compare reads Count past the reset Compare
after 131 s: no ticket was issued, so nothing is delivered and no one-shot is
left. A guest that writes a Compare value 100 s after its last Count read steps
over that value by more than half the range: it counts as lying ahead, and the
one-shot is armed for the next turn, 30 s later. -/
theorem crossing_passes_silently :
    (let core := timerRun (initialCore defaultCountHz 0)
        [.start ⟨0, 0⟩, .readCount ⟨1000000000, 1⟩, .fire 130200000000]
      let read := TimerOp.readCount ⟨131000000000, 2⟩
      Crosses core read ∧ (timerStep core read).ip7Pending = false ∧
        (timerStep core read).timer = none) ∧
    (let core := timerRun (initialCore defaultCountHz 0)
        [.start ⟨0, 0⟩, .writeCompare ⟨29, 1⟩ 500, .readCount ⟨1000, 2⟩, .fire 15200]
      let write := TimerOp.writeCompare ⟨100000000000, 3⟩ 1000000
      Crosses core write ∧ (timerStep core write).ip7Pending = false ∧
        (timerStep core write).timer = some ⟨130180827151, 2, true⟩) := by
  decide +kernel

end Iris.Cpu.Timer
