import Iris.Cpu.Timer.Deadline

/-!
Owns the IP7 ticket protocol between the CPU thread and the timer thread, one
atomic operation on the sequence word, the interrupt word or the locked timer
slot at a time: which tickets a delivery can be for once a Compare write has
completed, and that uninterrupted runs of these steps are the operations of
`CoreTimer`.
-/

namespace Iris.Cpu.Timer

open Option CoreTimer

/-! ### The two parties -/

/-- The value of the `n`th ticket `arm_ip7_sequence` issues; none before the
first. -/
def ticketValue : Nat → BitVec 64
  | 0 => ip7SeqConsumed
  | issue + 1 => nextTicket (ticketValue issue)

/-- The core's slot in the timer manager. The callback is taken out of the slot
while it runs. -/
structure TimerSlot where
  id : Nat
  ticket : Nat
  enabled : Bool
  callback : Bool
deriving DecidableEq, Repr

/-- Where the CPU thread stands between two of its atomic operations. -/
inductive CpuPhase
  | idle
  /-- In a Compare write, ticket stored, IP7 not yet cleared. -/
  | ticketStored
  /-- In a Compare write, IP7 cleared. -/
  | acknowledged
  /-- Its compare-exchange won; IP7 is to be set. -/
  | claimed (inCompareWrite : Bool)
  /-- About to re-arm the one-shot. -/
  | rearming
  /-- The old one-shot is removed. -/
  | disarmed
deriving DecidableEq, Repr

/-- Where the timer thread stands with this core's callback. -/
inductive CallbackPhase
  | idle
  | dequeued (id ticket : Nat)
  | claimed (id ticket : Nat)
  | returning (id : Nat) (won : Bool)
deriving DecidableEq, Repr

/-- The ticket of a callback that has not tried its compare-exchange yet. -/
def CallbackPhase.dequeuedTicket : CallbackPhase → Option Nat
  | .dequeued _ ticket => some ticket
  | _ => none

/-- The ticket of a callback between its compare-exchange and its `fetch_or`. -/
def CallbackPhase.claimedTicket : CallbackPhase → Option Nat
  | .claimed _ ticket => some ticket
  | _ => none

structure TicketState where
  /-- `ip7_seq_shared`. -/
  seq : BitVec 64
  /-- The IP7 bit of the interrupt word. -/
  ip7 : Bool
  /-- How many tickets were issued; `ip7_seq` is the value of the last. -/
  issued : Nat
  /-- The issue number of the last Compare write that cleared IP7. -/
  acknowledged : Nat
  slot : Option TimerSlot
  nextId : Nat
  cpu : CpuPhase
  callback : CallbackPhase
deriving DecidableEq, Repr

open TicketState

def TicketState.initial : TicketState where
  seq := ip7SeqConsumed
  ip7 := false
  issued := 0
  acknowledged := 0
  slot := none
  nextId := 0
  cpu := .idle
  callback := .idle

def TicketState.Wins (state : TicketState) (ticket : Nat) : Prop :=
  ticketValue ticket ≠ ip7SeqConsumed ∧ state.seq = ticketValue ticket
deriving Decidable

inductive TicketOp
  /-- Compare write: `arm_ip7_sequence` stores the next ticket. -/
  | storeTicket
  /-- Compare write: `fetch_and` clears IP7. -/
  | clearIp7
  /-- Compare write, missed deadline: compare-exchange. -/
  | claimMissed
  /-- Compare write, any other case: no delivery. -/
  | noDelivery
  /-- Count read over Compare: compare-exchange. -/
  | claimCrossing
  /-- The CPU thread's `fetch_or` after a won compare-exchange. -/
  | setIp7
  /-- Count write or CPU start: on to the re-arm. -/
  | reschedule
  /-- The re-arm of a stopped core. -/
  | stayDisarmed
  | removeTimer
  | addTimer
  /-- CPU stop. -/
  | disableTimer
  /-- The timer thread takes the callback of a due one-shot. -/
  | dequeue
  /-- The callback's compare-exchange. -/
  | callbackClaim
  /-- The callback's `fetch_or`. -/
  | callbackSetIp7
  /-- The timer thread puts the callback back, or deletes the one-shot. -/
  | callbackReturn
deriving DecidableEq, Repr

/-- The slot after the callback of one-shot `id` returned. -/
def slotAfterReturn (slot : Option TimerSlot) (id : Nat) (won : Bool) : Option TimerSlot :=
  slot.bind fun entry =>
    if entry.id ≠ id then some entry
    else if won then some { entry with callback := true }
    else none

/-- One atomic operation; `none` where the party does not stand there. -/
def ticketStep (state : TicketState) : TicketOp → Option TicketState
  | .storeTicket =>
    if state.cpu = .idle then
      some { state with
        seq := ticketValue (state.issued + 1), issued := state.issued + 1, cpu := .ticketStored }
    else none
  | .clearIp7 =>
    if state.cpu = .ticketStored then
      some { state with ip7 := false, acknowledged := state.issued, cpu := .acknowledged }
    else none
  | .claimMissed =>
    if state.cpu = .acknowledged then
      some (if state.Wins state.issued
        then { state with seq := ip7SeqConsumed, cpu := .claimed true }
        else { state with cpu := .rearming })
    else none
  | .noDelivery => if state.cpu = .acknowledged then some { state with cpu := .rearming } else none
  | .claimCrossing =>
    if state.cpu = .idle then
      some (if state.Wins state.issued
        then { state with seq := ip7SeqConsumed, cpu := .claimed false }
        else state)
    else none
  | .setIp7 =>
    match state.cpu with
    | .claimed inCompareWrite =>
      some { state with ip7 := true, cpu := if inCompareWrite then .rearming else .idle }
    | _ => none
  | .reschedule => if state.cpu = .idle then some { state with cpu := .rearming } else none
  | .stayDisarmed => if state.cpu = .rearming then some { state with cpu := .idle } else none
  | .removeTimer =>
    if state.cpu = .rearming then some { state with slot := none, cpu := .disarmed } else none
  | .addTimer =>
    if state.cpu = .disarmed then
      some { state with
        slot := some ⟨state.nextId, state.issued, true, true⟩
        nextId := state.nextId + 1
        cpu := .idle }
    else none
  | .disableTimer =>
    if state.cpu = .idle then
      some { state with slot := state.slot.map fun entry => { entry with enabled := false } }
    else none
  | .dequeue =>
    match state.callback, state.slot with
    | .idle, some entry =>
      if entry.enabled ∧ entry.callback then
        some { state with
          slot := some { entry with callback := false }
          callback := .dequeued entry.id entry.ticket }
      else none
    | _, _ => none
  | .callbackClaim =>
    match state.callback with
    | .dequeued id ticket =>
      some (if state.Wins ticket
        then { state with seq := ip7SeqConsumed, callback := .claimed id ticket }
        else { state with callback := .returning id false })
    | _ => none
  | .callbackSetIp7 =>
    match state.callback with
    | .claimed id _ => some { state with ip7 := true, callback := .returning id true }
    | _ => none
  | .callbackReturn =>
    match state.callback with
    | .returning id won =>
      some { state with slot := slotAfterReturn state.slot id won, callback := .idle }
    | _ => none

def ticketRun (state : TicketState) (ops : List TicketOp) : Option TicketState :=
  ops.foldlM ticketStep state

/-- The ticket, by issue number, whose delivery the operation makes by setting
IP7. -/
def deliveredTicket (state : TicketState) (op : TicketOp) : Option Nat :=
  match op, state.cpu with
  | .setIp7, .claimed _ => some state.issued
  | .callbackSetIp7, _ => state.callback.claimedTicket
  | _, _ => none

/-! ### Ticket values -/

theorem ticketValue_succ_toNat (issue : Nat) :
    (ticketValue (issue + 1)).toNat = issue % (2 ^ 64 - 1) + 1 := by
  induction issue with
  | zero => decide
  | succ issue inductionHypothesis =>
    have step : ticketValue (issue + 1 + 1) =
        nextTicket (ticketValue (issue + 1)) := rfl
    rw [step]
    generalize ticketValue (issue + 1) = value at inductionHypothesis
    unfold nextTicket ip7SeqConsumed
    split
    next wrapped =>
      have last : value.toNat = 2 ^ 64 - 1 := by bv_omega
      have one : (1 : BitVec 64).toNat = 1 := rfl
      omega
    next wrapped =>
      have next : (value + 1).toNat = value.toNat + 1 := by bv_omega
      omega

/-- Within one turn of the counter a ticket's value names it. -/
theorem ticketValue_unique {issued : Nat} (past : ticket ≤ issued)
    (recent : issued < ticket + (2 ^ 64 - 1)) (valid : ticketValue ticket ≠ ip7SeqConsumed)
    (same : ticketValue ticket = ticketValue issued) : ticket = issued := by
  cases ticket with
  | zero => exact absurd rfl valid
  | succ earlier =>
    obtain ⟨later, rfl⟩ : ∃ later, issued = later + 1 := ⟨issued - 1, by omega⟩
    have values := congrArg BitVec.toNat same
    rw [ticketValue_succ_toNat, ticketValue_succ_toNat] at values
    omega

/-! ### The invariant -/

/-- What every state reached keeps: only the newest ticket is live, and a claim
already won is for a ticket no completed Compare write superseded. -/
structure TicketsOk (state : TicketState) : Prop where
  seq : state.seq = ip7SeqConsumed ∨ state.seq = ticketValue state.issued
  acknowledged : state.acknowledged ≤ state.issued
  slot : ∀ entry, state.slot = some entry → entry.ticket ≤ state.issued
  dequeued : ∀ ticket ∈ state.callback.dequeuedTicket, ticket ≤ state.issued
  claimed : ∀ ticket ∈ state.callback.claimedTicket, state.acknowledged ≤ ticket

/-- The condition on a step: IP7 is not cleared while a callback stands between
its compare-exchange and its `fetch_or`, and a callback's compare-exchange comes
before the ticket counter goes round. -/
def StepOrdered (state : TicketState) : TicketOp → Prop
  | .clearIp7 => state.callback.claimedTicket = none
  | .callbackClaim =>
    ∀ ticket ∈ state.callback.dequeuedTicket, state.issued < ticket + (2 ^ 64 - 1)
  | _ => True

instance (state : TicketState) (op : TicketOp) : Decidable (StepOrdered state op) := by
  unfold StepOrdered
  split <;> infer_instance

theorem initial_ticketsOk : TicketsOk initial where
  seq := .inl rfl
  acknowledged := le_rfl
  slot := fun _ held => absurd held (by simp [initial])
  dequeued := fun _ held => absurd held (by simp [initial, CallbackPhase.dequeuedTicket])
  claimed := fun _ held => absurd held (by simp [initial, CallbackPhase.claimedTicket])

variable {state next : TicketState}

section
variable (ok : TicketsOk state)
include ok

/-- A claim the invariant lets win is for the newest ticket. -/
theorem TicketsOk.wins_newest (past : ticket ≤ state.issued)
    (recent : state.issued < ticket + (2 ^ 64 - 1)) (wins : state.Wins ticket) :
    ticket = state.issued := by
  rcases ok.seq with consumed | newest
  · exact absurd (wins.2.symm.trans consumed) wins.1
  · exact ticketValue_unique past recent wins.1 (wins.2.symm.trans newest)

theorem TicketsOk.consume : TicketsOk { state with seq := ip7SeqConsumed } :=
  { ok with seq := .inl rfl }

/-- The CPU thread's phase and the interrupt word are not part of it. -/
theorem TicketsOk.atPhase {ip7 : Bool} {cpu : CpuPhase} : TicketsOk { state with ip7, cpu } :=
  { ok with }

theorem TicketsOk.withSlot {slot : Option TimerSlot}
    (past : ∀ entry, slot = some entry → entry.ticket ≤ state.issued) {nextId : Nat}
    {cpu : CpuPhase} : TicketsOk { state with slot, nextId, cpu } :=
  { ok with slot := past }

/-- A callback that returned or has nothing to do constrains nothing. -/
theorem TicketsOk.atReturn {ip7 : Bool} {id : Nat} {won : Bool} :
    TicketsOk { state with ip7, callback := .returning id won } :=
  ⟨ok.seq, ok.acknowledged, ok.slot, nofun, nofun⟩

end

theorem slotAfterReturn_ticket {slot : Option TimerSlot} {id : Nat} {won : Bool}
    (held : slotAfterReturn slot id won = some entry) :
    ∃ before, slot = some before ∧ entry.ticket = before.ticket := by
  obtain ⟨before, slotHeld, result⟩ := bind_eq_some_iff.mp held
  refine ⟨before, slotHeld, ?_⟩
  split at result
  · rw [← some.inj result]
  · split at result
    · rw [← some.inj result]
    · cases result

theorem TicketsOk.guarded {phase : Prop} [Decidable phase] {moved : TicketState}
    (stepped : (if phase then some moved else none) = some next) (kept : TicketsOk moved) :
    TicketsOk next := by
  obtain ⟨_, same⟩ := ite_none_right_eq_some.mp stepped
  exact some.inj same ▸ kept

section
variable (ok : TicketsOk state)
include ok

theorem TicketsOk.callbackClaim (ordered : StepOrdered state .callbackClaim)
    (stepped : ticketStep state .callbackClaim = some next) : TicketsOk next := by
  unfold ticketStep at stepped
  dsimp only at stepped
  split at stepped
  next id ticket phase =>
    rw [← some.inj stepped]
    split
    next wins =>
      have member : ticket ∈ state.callback.dequeuedTicket := by rw [phase]; rfl
      have newest := ok.wins_newest (ok.dequeued ticket member) (ordered ticket member) wins
      refine ⟨.inl rfl, ok.acknowledged, ok.slot, nofun, ?_⟩
      intro _ same
      cases same
      exact newest ▸ ok.acknowledged
    · exact ok.atReturn
  · cases stepped

theorem TicketsOk.dequeue (stepped : ticketStep state .dequeue = some next) : TicketsOk next := by
  unfold ticketStep at stepped
  dsimp only at stepped
  split at stepped
  next entry _ held =>
    simp only [ite_none_right_eq_some, some.injEq] at stepped
    obtain ⟨_, rfl⟩ := stepped
    have past := ok.slot entry held
    refine ⟨ok.seq, ok.acknowledged, ?_, ?_, nofun⟩
    · intro _ same
      cases same
      exact past
    · intro _ same
      cases same
      exact past
  · cases stepped

theorem TicketsOk.callbackReturn (stepped : ticketStep state .callbackReturn = some next) :
    TicketsOk next := by
  unfold ticketStep at stepped
  dsimp only at stepped
  split at stepped
  · rw [← some.inj stepped]
    refine ⟨ok.seq, ok.acknowledged, ?_, nofun, nofun⟩
    intro entry held
    obtain ⟨before, slotHeld, same⟩ := slotAfterReturn_ticket held
    rw [same]
    exact ok.slot before slotHeld
  · cases stepped

/-- The CPU thread's own claims and its re-arm keep the invariant. -/
theorem TicketsOk.step {op : TicketOp} (ordered : StepOrdered state op)
    (stepped : ticketStep state op = some next) : TicketsOk next := by
  cases op with
  | storeTicket =>
    exact .guarded stepped ⟨.inr rfl, Nat.le_succ_of_le ok.acknowledged,
      fun entry held => Nat.le_succ_of_le (ok.slot entry held),
      fun ticket member => Nat.le_succ_of_le (ok.dequeued ticket member), ok.claimed⟩
  | clearIp7 =>
    exact .guarded stepped ⟨ok.seq, le_rfl, ok.slot, ok.dequeued,
      fun ticket member => absurd (ordered.symm.trans member) (by simp)⟩
  | callbackClaim => exact ok.callbackClaim ordered stepped
  | dequeue => exact ok.dequeue stepped
  | callbackReturn => exact ok.callbackReturn stepped
  | claimMissed =>
    refine .guarded stepped ?_
    split
    · exact ok.consume.atPhase
    · exact ok.atPhase
  | claimCrossing =>
    refine .guarded stepped ?_
    split
    · exact ok.consume.atPhase
    · exact ok
  | setIp7 =>
    unfold ticketStep at stepped
    dsimp only at stepped
    split at stepped
    · rw [← some.inj stepped]
      exact ok.atPhase
    · cases stepped
  | callbackSetIp7 =>
    unfold ticketStep at stepped
    dsimp only at stepped
    split at stepped
    · rw [← some.inj stepped]
      exact ok.atReturn
    · cases stepped
  | noDelivery | reschedule | stayDisarmed => exact .guarded stepped ok.atPhase
  | removeTimer =>
    refine .guarded stepped (ok.withSlot ?_)
    exact nofun
  | addTimer =>
    refine .guarded stepped (ok.withSlot ?_)
    intro _ same
    cases same
    exact le_rfl
  | disableTimer =>
    refine .guarded stepped (ok.withSlot ?_)
    intro entry held
    obtain ⟨before, slotHeld, rfl⟩ := map_eq_some_iff.mp held
    exact ok.slot before slotHeld

end

/-! ### Whole runs -/

/-- Every step of the run meets its condition in the state it starts from. -/
def RunOrdered : TicketState → List TicketOp → Prop
  | _, [] => True
  | state, op :: rest =>
    StepOrdered state op ∧ ∀ next ∈ ticketStep state op, RunOrdered next rest

instance decidableRunOrdered : (state : TicketState) → (ops : List TicketOp) →
    Decidable (RunOrdered state ops)
  | _, [] => isTrue trivial
  | state, op :: rest =>
    have : DecidablePred fun next => RunOrdered next rest := fun next =>
      decidableRunOrdered next rest
    inferInstanceAs (Decidable (_ ∧ ∀ next ∈ ticketStep state op, RunOrdered next rest))

theorem TicketsOk.run (ok : TicketsOk state) (ordered : RunOrdered state ops)
    (ran : ticketRun state ops = some next) : TicketsOk next := by
  induction ops generalizing state with
  | nil =>
    cases ran
    exact ok
  | cons op rest inductionHypothesis =>
    obtain ⟨stepOrdered, restOrdered⟩ := ordered
    obtain ⟨middle, stepped, finished⟩ := bind_eq_some_iff.mp ran
    exact inductionHypothesis (ok.step stepOrdered stepped) (restOrdered middle stepped) finished

/-- In every run whose steps meet their conditions, a delivery that sets IP7 is
for a ticket no completed Compare write came after. -/
theorem delivery_not_superseded (ops : List TicketOp) (state : TicketState)
    (ordered : RunOrdered initial ops)
    (ran : ticketRun initial ops = some state) (op : TicketOp) (ticket : Nat)
    (delivers : deliveredTicket state op = some ticket) : state.acknowledged ≤ ticket := by
  have ok := initial_ticketsOk.run ordered ran
  unfold deliveredTicket at delivers
  split at delivers
  · rw [← some.inj delivers]
    exact ok.acknowledged
  · exact ok.claimed ticket delivers
  · cases delivers

def undisturbedDelivery : List TicketOp :=
  [.storeTicket, .clearIp7, .noDelivery, .removeTimer, .addTimer, .dequeue, .callbackClaim]

theorem delivery_not_superseded_undisturbed :
    ∃ state, ticketRun initial undisturbedDelivery = some state ∧
      deliveredTicket state .callbackSetIp7 = some 1 ∧ state.acknowledged ≤ 1 :=
  ⟨(ticketRun initial undisturbedDelivery).get (by decide), by decide, by decide,
    delivery_not_superseded undisturbedDelivery _ (by decide) (by decide) .callbackSetIp7 1
      (by decide)⟩

/-- The callback's compare-exchange wins, a whole acknowledgement passes, and
the callback's `fetch_or` then sets IP7 for the superseded ticket while the new
one is still live. -/
theorem superseded_delivery_sets_ip7 :
    ∃ state next,
      ticketRun initial (undisturbedDelivery ++ [.storeTicket, .clearIp7]) = some state ∧
      state.acknowledged = 2 ∧ state.ip7 = false ∧
      deliveredTicket state .callbackSetIp7 = some 1 ∧
      ticketStep state .callbackSetIp7 = some next ∧
      next.ip7 = true ∧ next.seq = ticketValue 2 :=
  ⟨(ticketRun initial (undisturbedDelivery ++ [.storeTicket, .clearIp7])).get
      (by decide),
    (ticketRun initial
      (undisturbedDelivery ++ [.storeTicket, .clearIp7, .callbackSetIp7])).get (by decide),
    by decide, by decide, by decide, by decide, by decide, by decide, by decide⟩

/-! ### Uninterrupted runs are the core's operations -/

/-- The state and the core agree on ticket, IP7 and one-shot; the CPU thread
stands at `phase` and no callback is in flight. -/
structure Agrees (state : TicketState) (core : CoreTimer) (phase : CpuPhase) : Prop where
  seq : state.seq = core.ip7SeqShared
  ip7 : state.ip7 = core.ip7Pending
  issued : ticketValue state.issued = core.ip7Seq
  slot : state.slot.map (fun entry => (ticketValue entry.ticket, entry.enabled)) =
    core.timer.map fun shot => (shot.ticket, shot.enabled)
  callbacks : ∀ entry, state.slot = some entry → entry.callback = true
  cpu : state.cpu = phase
  callback : state.callback = .idle

def Reaches (state next : TicketState) : Prop := ∃ ops, ticketRun state ops = some next

/-- The parties come to a state that agrees with `core`, the CPU thread in `phase`. -/
def Comes (state : TicketState) (core : CoreTimer) (phase : CpuPhase) : Prop :=
  ∃ next, Reaches state next ∧ Agrees next core phase

variable {core core' : CoreTimer}

variable {phase next : CpuPhase}

theorem Comes.step (op : TicketOp) (stepped : ticketStep state op = some middle)
    (comes : Comes middle core phase) : Comes state core phase := by
  obtain ⟨last, ⟨ops, ran⟩, agrees⟩ := comes
  refine ⟨last, ⟨op :: ops, ?_⟩, agrees⟩
  show (ticketStep state op).bind (fun middle => ticketRun middle ops) = some last
  rw [stepped]
  exact ran

theorem Comes.andThen (comes : Comes state core phase)
    (goesOn : ∀ {middle}, Agrees middle core phase → Comes middle core' next) :
    Comes state core' next := by
  obtain ⟨middle, ⟨ops, ran⟩, agrees⟩ := comes
  obtain ⟨last, ⟨rest, finished⟩, final⟩ := goesOn agrees
  refine ⟨last, ⟨ops ++ rest, ?_⟩, final⟩
  unfold ticketRun at *
  rw [List.foldlM_append, ran]
  exact finished

section
variable (agrees : Agrees state core phase)
include agrees

theorem Agrees.comes : Comes state core phase := ⟨state, ⟨[], rfl⟩, agrees⟩

theorem Agrees.congr (same : SameTicket core core') : Agrees state core' phase := by
  refine ⟨?_, ?_, ?_, ?_, agrees.callbacks, agrees.cpu, agrees.callback⟩
  · rw [same.shared]; exact agrees.seq
  · rw [same.pending]; exact agrees.ip7
  · rw [same.seq]; exact agrees.issued
  · rw [same.timer]; exact agrees.slot

theorem Agrees.wins_iff (value : ticketValue issue = ticket) :
    state.Wins issue ↔ ticket ≠ ip7SeqConsumed ∧ core.ip7SeqShared = ticket := by
  rw [Wins, value, agrees.seq]

theorem Agrees.atPhase : Agrees { state with cpu := next } core next :=
  { agrees with cpu := rfl }

/-- A won compare-exchange and its `fetch_or` are `claim_ip7`. -/
theorem Agrees.won (wins : state.Wins state.issued) :
    Agrees { state with seq := ip7SeqConsumed, ip7 := true, cpu := next }
      (core.claimIp7 core.ip7Seq) next := by
  obtain ⟨issued, live⟩ := (agrees.wins_iff agrees.issued).mp wins
  rw [claimIp7_of_live issued live]
  exact { agrees with seq := rfl, ip7 := rfl, cpu := rfl }

theorem Agrees.lost (loses : ¬ state.Wins state.issued) : core.claimIp7 core.ip7Seq = core :=
  claimIp7_of_not_live ((agrees.wins_iff agrees.issued).not.mp loses)

end

theorem Agrees.rearm (agrees : Agrees state core .rearming) :
    Comes state (core.scheduleCompareTimer now) .idle := by
  unfold scheduleCompareTimer
  split
  · exact .step .stayDisarmed (by rw [ticketStep, if_pos agrees.cpu]) agrees.atPhase.comes
  apply Comes.step .removeTimer (by rw [ticketStep, if_pos agrees.cpu])
  apply Comes.step .addTimer (by rw [ticketStep, if_pos rfl])
  apply Agrees.comes
  exact { agrees with slot := by simp [agrees.issued], callbacks := by simp, cpu := rfl }

theorem Agrees.claimCrossing (agrees : Agrees state core .idle) :
    Comes state (core.claimIp7 core.ip7Seq) .idle := by
  by_cases wins : state.Wins state.issued
  · apply Comes.step .claimCrossing (by rw [ticketStep, if_pos agrees.cpu, if_pos wins])
    exact .step .setIp7 rfl (agrees.won wins).comes
  · rw [agrees.lost wins]
    exact agrees.comes

theorem Agrees.claimMissed (agrees : Agrees state core .acknowledged) :
    Comes state (core.claimIp7 core.ip7Seq) .rearming := by
  by_cases wins : state.Wins state.issued
  · apply Comes.step .claimMissed (by rw [ticketStep, if_pos agrees.cpu, if_pos wins])
    exact .step .setIp7 rfl (agrees.won wins).comes
  · rw [agrees.lost wins]
    exact .step .noDelivery (by rw [ticketStep, if_pos agrees.cpu]) agrees.atPhase.comes

section
variable (agrees : Agrees state core .idle) (moment : Moment)
include agrees

theorem Agrees.readCount : Comes state (core.readCount moment).1 .idle := by
  have same := materializeCount_ticket core moment true
  have sampled : SameTicket (core.materializeCount moment true) (core.readCount moment).1 :=
    ⟨rfl, rfl, rfl, rfl, rfl⟩
  split at same
  · exact agrees.claimCrossing.andThen fun claimed => ((claimed.congr same).congr sampled).comes
  · exact ((agrees.congr same).congr sampled).comes

theorem Agrees.reanchor : Comes state (core.reanchorCountAndReschedule moment) .idle := by
  have moved : SameTicket core
      { core with countReadCycle := moment.cycles, countAnchor := moment.now } :=
    ⟨rfl, rfl, rfl, rfl, rfl⟩
  apply Comes.step .reschedule (by rw [ticketStep, if_pos agrees.cpu])
  exact (agrees.congr moved).atPhase.rearm

theorem Agrees.acknowledge : Comes state (core.acknowledged moment value) .acknowledged := by
  have same := materializeCount_ticket core.armIp7Sequence moment false
  apply Comes.step .storeTicket (by rw [ticketStep, if_pos agrees.cpu])
  apply Comes.step .clearIp7 (by rw [ticketStep, if_pos rfl])
  apply Agrees.comes
  have next : ticketValue (state.issued + 1) = nextTicket core.ip7Seq := by
    rw [← agrees.issued]
    rfl
  refine ⟨next.trans same.shared.symm, rfl, next.trans same.seq.symm, ?_, agrees.callbacks, rfl,
    agrees.callback⟩
  exact agrees.slot.trans (congrArg _ same.timer.symm)

theorem Agrees.writeCompare : Comes state (core.writeCompare moment value) .idle := by
  apply (agrees.acknowledge moment).andThen
  intro _ acknowledged
  rw [writeCompare_eq, ← (acknowledged_ticket core moment value).1]
  split
  · exact acknowledged.claimMissed.andThen Agrees.rearm
  · apply Comes.step .noDelivery (by rw [ticketStep, if_pos acknowledged.cpu])
    exact acknowledged.atPhase.rearm

theorem Agrees.stop : Comes state (core.onCpuStop moment) .idle := by
  unfold onCpuStop
  split
  · exact agrees.comes
  apply Comes.step .disableTimer (by rw [ticketStep, if_pos agrees.cpu])
  apply Agrees.comes
  refine { agrees with slot := ?_, callbacks := ?_ }
  · have tickets := congrArg (Option.map fun pair => (pair.1, false)) agrees.slot
    simpa [Function.comp_def] using tickets
  · intro entry held
    obtain ⟨before, slotHeld, rfl⟩ := map_eq_some_iff.mp held
    exact agrees.callbacks before slotHeld

end

theorem Agrees.fire (agrees : Agrees state core .idle) :
    Comes state (core.fireOneShot now) .idle := by
  by_cases due : ∃ shot, core.timer = some shot ∧ shot.enabled = true ∧ shot.deadline ≤ now
  · obtain ⟨shot, held, due⟩ := due
    obtain ⟨entry, slotHeld, pair⟩ := map_eq_some_iff.mp (agrees.slot.trans (congrArg _ held))
    obtain ⟨ticket, enabled⟩ := Prod.mk.inj pair
    have runnable : entry.enabled = true ∧ entry.callback = true :=
      ⟨enabled.trans due.1, agrees.callbacks entry slotHeld⟩
    have dequeued : ticketStep state .dequeue = some { state with
        slot := some { entry with callback := false }
        callback := .dequeued entry.id entry.ticket } := by
      simp only [ticketStep, agrees.callback, slotHeld, if_pos runnable]
    apply Comes.step .dequeue dequeued
    have returned (won : Bool) :
        slotAfterReturn (some { entry with callback := false }) entry.id won =
          if won then some { entry with callback := true } else none := by
      simp [slotAfterReturn]
    rw [fireOneShot_eq held due]
    by_cases wins : state.Wins entry.ticket
    · have live := (agrees.wins_iff ticket).mp wins
      rw [if_pos live, claimIp7_of_live live.1 live.2]
      refine .step .callbackClaim (congrArg some (if_pos wins)) ?_
      refine .step .callbackSetIp7 rfl ?_
      refine .step .callbackReturn rfl ?_
      apply Agrees.comes
      refine ⟨rfl, rfl, agrees.issued, ?_, ?_, agrees.cpu, rfl⟩
      · rw [returned]
        simp [ticket, enabled]
      · simp [returned]
    · have dead := (agrees.wins_iff ticket).not.mp wins
      rw [if_neg dead, claimIp7_of_not_live dead]
      refine .step .callbackClaim (congrArg some (if_neg wins)) ?_
      refine .step .callbackReturn rfl ?_
      apply Agrees.comes
      exact { agrees with
        slot := by simp [returned], callbacks := by simp [returned], callback := rfl }
  · rw [fireOneShot_not_due fun shot held dueNow => due ⟨shot, held, dueNow⟩]
    exact agrees.comes

/-- No callback runs that an operation overtook. -/
def InOrder : TimerOp → Prop
  | .lateFire _ => False
  | _ => True

theorem Agrees.timerStep (agrees : Agrees state core .idle) (inOrder : InOrder op) :
    Comes state (timerStep core op) .idle := by
  cases op with
  | readCount moment => exact agrees.readCount moment
  | writeCount moment value =>
    apply Agrees.reanchor
    exact agrees.congr ⟨rfl, rfl, rfl, rfl, rfl⟩
  | writeCompare moment value => exact agrees.writeCompare moment
  | stop moment => exact agrees.stop moment
  | start moment =>
    have unpaused : Agrees state { core with countPaused := false } .idle :=
      { agrees with }
    exact unpaused.reanchor moment
  | fire now => exact agrees.fire
  | lateFire ticket => exact absurd inOrder id

/-- Every run of the core's operations is a run of the two parties' steps. -/
theorem timerRun_reached (hz now : Nat) (ops : List TimerOp) (inOrder : ∀ op ∈ ops, InOrder op) :
    ∃ state, Reaches initial state ∧ Agrees state (timerRun (initialCore hz now) ops) .idle := by
  have initially : Agrees initial (initialCore hz now) .idle :=
    ⟨rfl, rfl, rfl, rfl, fun _ held => absurd held (by simp [initial]), rfl, rfl⟩
  exact List.foldlRecOn ops timerStep (motive := (Comes initial · .idle)) initially.comes
    fun _ comes op member => comes.andThen fun agrees => agrees.timerStep (inOrder op member)

theorem timerRun_reached_fired :
    ∃ state, Reaches initial state ∧ Agrees state (timerRun (initialCore 33000000 0)
      [.writeCompare ⟨29, 1⟩ 1000, .fire 30310]) .idle :=
  timerRun_reached _ _ _ (by simp [InOrder])

end Iris.Cpu.Timer
