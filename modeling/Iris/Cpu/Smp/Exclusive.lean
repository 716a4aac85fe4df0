import Iris.Cpu.Smp.World

/-!
Owns the invariant of the stop-the-world protocol: who has the leader's lock, which
CPUs it holds, and that the CPUs it has waited for stay out of guest code.
-/

namespace Iris.Cpu.Smp

open ParkSlot State
open Function (update update_of_ne update_self)

variable {n m : Nat}

def Pc.countsParked : Pc → Bool
  | .inPark => true
  | .turn => true
  | .gotTurn => true
  | _ => false

/-- A leader there holds the `k`th CPU. -/
def Pc.holds : Pc → Nat → Bool
  | .holding j, k => k < j
  | .waiting _, _ => true
  | .critical, _ => true
  | .releasing j, k => j ≤ k
  | _, _ => false

/-- A leader there has waited for the `k`th CPU. -/
def Pc.waitedFor : Pc → Nat → Bool
  | .waiting j, k => k < j
  | .critical, _ => true
  | _, _ => false

/-- A CPU that is parked, is blocked in line for the leader's lock, has no thread, or
whose thread is starting or ending outside guest code. -/
def Idle (pc : Pc) (slot : ParkSlot) : Prop :=
  match pc with
  | .inPark => slot.parked = true
  | .turn => slot.parked = true
  | .off => True
  | .exiting => slot.running = false
  | .boundary fresh => fresh = true ∨ slot.running = false
  | .entering fresh => fresh = true
  | _ => False

/-- What holds of a CPU's thread and slot, whoever leads. -/
structure SlotOk (pc : Pc) (slot : ParkSlot) : Prop where
  request : slot.request = slot.held
  parked : slot.parked = pc.countsParked
  active : slot.active = true ↔ pc ≠ .off
  stopping : pc = .exiting → slot.running = false

structure Inv (state : State n m) : Prop where
  owner : ∀ thread, (state.pc thread).leads = true ↔ state.leader = some thread
  slots : ∀ id, SlotOk (state.pc (.cpu id)) (state.slot id)
  world : ∀ id, (state.slot id).world = true ↔
    ∃ thread, state.leader = some thread ∧ thread ≠ .cpu id ∧
      (state.pc thread).holds id = true
  idle : ∀ thread id, state.leader = some thread → thread ≠ .cpu id →
    (state.pc thread).waitedFor id = true → Idle (state.pc (.cpu id)) (state.slot id)

variable {pc : Pc} {slot : ParkSlot}

theorem Pc.holds_of_waitedFor (waited : pc.waitedFor k = true) : pc.holds k = true := by
  cases pc with
  | waiting | critical => rfl
  | _ => cases waited

theorem Idle.congr {slot' : ParkSlot} (idle : Idle pc slot) (parked : slot'.parked = slot.parked)
    (running : slot.running = false → slot'.running = false) : Idle pc slot' := by
  cases pc with
  | inPark | turn => exact parked.trans idle
  | off => trivial
  | exiting => exact running idle
  | boundary fresh => exact idle.imp id running
  | entering fresh => exact idle
  | _ => exact idle.elim

/-- A thread that has or takes the leader's lock has not ended, and is not about to. -/
theorem SlotOk.leads (ok : SlotOk pc slot) (alive : pc ≠ .off) (leads : pc'.leads = true)
    (parked : pc'.countsParked = pc.countsParked) : SlotOk pc' slot where
  request := ok.request
  parked := ok.parked.trans parked.symm
  active := iff_of_true (ok.active.mpr alive) fun off => nomatch off ▸ leads
  stopping ending := nomatch ending ▸ leads

section Steps
variable {state : State n m} {thread : Thread n m} {id : Fin n}

theorem Inv.leader_unique (inv : Inv state) (one : (state.pc first).leads = true)
    (two : (state.pc second).leads = true) :
    first = second :=
  Option.some.inj (((inv.owner first).mp one).symm.trans ((inv.owner second).mp two))

theorem init_inv : Inv (init : State n m) where
  owner thread := by
    cases thread with
    | cpu id | worker id => exact ⟨nofun, nofun⟩
  slots _ := ⟨rfl, rfl, ⟨nofun, fun off => absurd rfl off⟩, nofun⟩
  world _ := ⟨nofun, fun ⟨_, leading, _⟩ => (nomatch leading)⟩
  idle _ _ none := nomatch none

theorem Inv.not_off (inv : Inv state) (leading : state.leader = some thread) :
    state.pc thread ≠ .off := by
  intro off
  have never := (inv.owner thread).mpr leading
  rw [off] at never
  cases never

theorem slotOk_update {slot : Fin n → ParkSlot}
    (mine : ∀ id, thread = .cpu id → SlotOk pc (slot id))
    (others : ∀ id, thread ≠ .cpu id → SlotOk (state.pc (.cpu id)) (slot id)) (id : Fin n) :
    SlotOk (update state.pc thread pc (.cpu id)) (slot id) := by
  rcases eq_or_ne thread (.cpu id) with rfl | away
  · rw [update_self]
    exact mine id rfl
  · rw [update_of_ne away.symm]
    exact others id away

/-- A thread's step that does not take or give back the leader's lock. -/
theorem Inv.follow (inv : Inv state) {slot : Fin n → ParkSlot}
    (role : pc = state.pc thread ∨ (state.pc thread).leads = false ∧ pc.leads = false)
    (slots : ∀ id, SlotOk (update state.pc thread pc (.cpu id)) (slot id))
    (world : ∀ id, (slot id).world = (state.slot id).world)
    (idle : ∀ id, (state.slot id).world = true → Idle (state.pc (.cpu id)) (state.slot id) →
      Idle (update state.pc thread pc (.cpu id)) (slot id)) :
    Inv { state with slot, pc := update state.pc thread pc } := by
  -- as a leader, the thread is where it was
  have leads : pc.leads = (state.pc thread).leads := by
    rcases role with rfl | ⟨before, after⟩
    · rfl
    · rw [before, after]
  have leaderPc : ∀ other, state.leader = some other →
      update state.pc thread pc other = state.pc other := by
    intro other leading
    by_cases mine : other = thread
    · subst mine
      rcases role with rfl | ⟨before, -⟩
      · exact update_self _ _ _
      · exact absurd ((inv.owner _).mpr leading) (by simp [before])
    · exact update_of_ne mine _ _
  refine ⟨fun other => ?_, slots, fun id => ?_, fun other id leading different waited => ?_⟩
  · by_cases here : other = thread
    · subst here
      simpa [leads] using inv.owner other
    · simpa [here] using inv.owner other
  · rw [world, inv.world id]
    refine exists_congr fun other => and_congr_right fun leading => and_congr_right fun _ => ?_
    dsimp only
    rw [leaderPc other leading]
  · dsimp only at waited
    rw [leaderPc other leading] at waited
    exact idle id ((inv.world id).mpr ⟨other, leading, different, Pc.holds_of_waitedFor waited⟩)
      (inv.idle other id leading different waited)

/-- A CPU's own step, or what is done to its slot. -/
theorem Inv.local (inv : Inv state)
    (role : pc = state.pc (.cpu id) ∨ (state.pc (.cpu id)).leads = false ∧ pc.leads = false)
    (ok : SlotOk pc slot) (world : slot.world = (state.slot id).world)
    (idle : (state.slot id).world = true → Idle (state.pc (.cpu id)) (state.slot id) →
      Idle pc slot) :
    Inv ((state.setSlot id slot).setPc (.cpu id) pc) := by
  refine inv.follow role (slotOk_update (fun other mine => ?_) fun other away => ?_)
    (fun other => ?_) fun other held before => ?_
  · cases mine
    rwa [setSlot_slot_self]
  · rw [setSlot_slot_ne fun same => away (congrArg _ same.symm)]
    exact inv.slots other
  · rcases eq_or_ne other id with rfl | away
    · rwa [setSlot_slot_self]
    · rw [setSlot_slot_ne away]
  · rcases eq_or_ne other id with rfl | away
    · rw [update_self, setSlot_slot_self]
      exact idle held before
    · rwa [update_of_ne (by simp [away]), setSlot_slot_ne away]

/-- A step of the leader, or the taking of its lock. -/
theorem Inv.leadTo (inv : Inv state) {slot : Fin n → ParkSlot}
    (leading : ∀ other, state.leader = some other → other = thread) (leads : pc.leads = true)
    (slots : ∀ id, SlotOk (update state.pc thread pc (.cpu id)) (slot id))
    (frame : ∀ id, thread ≠ .cpu id → (slot id).parked = (state.slot id).parked ∧
      (slot id).running = (state.slot id).running)
    (world : ∀ id, (slot id).world = true ↔ thread ≠ .cpu id ∧ pc.holds id = true)
    (idle : ∀ id, thread ≠ .cpu id → pc.waitedFor id = true →
      Idle (state.pc (.cpu id)) (state.slot id)) :
    Inv { slot, leader := some thread, pc := update state.pc thread pc } := by
  refine ⟨fun other => ?_, slots, fun id => ?_, fun other id same different waited => ?_⟩
  · rcases eq_or_ne other thread with rfl | away
    · simp [leads]
    · have follows : (state.pc other).leads ≠ true :=
        fun also => away (leading other ((inv.owner other).mp also))
      simp [away, follows, away.symm]
  · rw [world]
    constructor
    · rintro ⟨different, holds⟩
      exact ⟨thread, rfl, different, by dsimp only; rwa [update_self]⟩
    · rintro ⟨other, same, different, holds⟩
      cases same
      dsimp only at holds
      rw [update_self] at holds
      exact ⟨different, holds⟩
  · obtain rfl := Option.some.inj same
    dsimp only at waited
    rw [update_self] at waited
    simp only [update_of_ne different.symm]
    exact (idle id different waited).congr (frame id different).1 (frame id different).2.trans

/-! ### What holding does to a slot -/

theorem ParkSlot.hold_request (slot : ParkSlot) :
    (slot.hold why).request = (slot.hold why).held := by
  cases why with
  | heart => rfl
  | world => exact (Bool.or_true _).symm

theorem ParkSlot.release_request (request : slot.request = slot.held) :
    (slot.release why).request = (slot.release why).held := by
  have kept : (slot.setHold why false).request = slot.request := by cases why <;> rfl
  unfold release
  dsimp only
  split
  next held =>
    have before : slot.held = true := by
      cases why with
      | heart | world => simp_all [ParkSlot.held, ParkSlot.setHold]
    rw [kept, request, before, held]
  next free => exact (Bool.not_eq_true _).mp free |>.symm

/-- Holding and releasing for one reason leaves everything but that reason and the request. -/
theorem ParkSlot.hold_frame (slot : ParkSlot) :
    (slot.hold why).parked = slot.parked ∧ (slot.hold why).active = slot.active ∧
      (slot.hold why).running = slot.running := by
  cases why <;> exact ⟨rfl, rfl, rfl⟩

theorem ParkSlot.release_frame (slot : ParkSlot) :
    (slot.release why).parked = slot.parked ∧ (slot.release why).active = slot.active ∧
      (slot.release why).running = slot.running := by
  unfold release
  dsimp only
  split <;> cases why <;> exact ⟨rfl, rfl, rfl⟩

@[simp] theorem ParkSlot.hold_world (slot : ParkSlot) : (slot.hold .world).world = true := rfl

@[simp] theorem ParkSlot.release_world (slot : ParkSlot) : (slot.release .world).world = false := by
  unfold release
  dsimp only
  split <;> rfl

theorem ParkSlot.release_heart_world (slot : ParkSlot) :
    (slot.release .heart).world = slot.world := by
  unfold release
  dsimp only
  split <;> rfl

/-! ### Every step keeps the invariant -/

section
variable (inv : Inv state)
include inv

/-- A CPU moves on outside the leader's lock, and leaves its slot as it is. -/
theorem Inv.moved (before : (state.pc (.cpu id)).leads = false) (after : pc.leads = false)
    (parked : pc.countsParked = (state.pc (.cpu id)).countsParked)
    (off : pc = .off ↔ state.pc (.cpu id) = .off)
    (stopping : pc = .exiting → (state.slot id).running = false)
    (idle : (state.slot id).world = true → Idle (state.pc (.cpu id)) (state.slot id) →
      Idle pc (state.slot id)) :
    Inv (state.setPc (.cpu id) pc) := by
  have ok := inv.slots id
  have moved := inv.local (.inr ⟨before, after⟩) ⟨ok.request, ok.parked.trans parked.symm,
    ok.active.trans (not_congr off.symm), stopping⟩ rfl idle
  rwa [setSlot_self] at moved

theorem Inv.slotChanged (request : slot.request = slot.held)
    (parked : slot.parked = (state.slot id).parked)
    (active : slot.active = (state.slot id).active) (world : slot.world = (state.slot id).world)
    (running : slot.running = true → (state.slot id).running = true) :
    Inv (state.setSlot id slot) := by
  have off : (state.slot id).running = false → slot.running = false := by
    intro stopped
    cases going : slot.running with
    | false => rfl
    | true => cases stopped.symm.trans (running going)
  have ok := inv.slots id
  have changed := inv.local (.inl rfl) ⟨request, parked.trans ok.parked,
    (Bool.eq_iff_iff.mp active).trans ok.active, fun ending => off (ok.stopping ending)⟩
    world fun _ idle => idle.congr parked off
  rwa [show ((state.setSlot id slot).setPc (.cpu id) (state.pc (.cpu id))) = state.setSlot id slot
    from setPc_self _] at changed

theorem Inv.parkTurn (outside : (state.pc (.cpu id)).leads = false)
    (on : state.pc (.cpu id) ≠ .off) :
    Inv ((state.setSlot id (state.slot id).park.2).setPc (.cpu id)
      (if (state.slot id).park.1 then .inPark else .boundary false)) := by
  have request := (inv.slots id).request
  have active := (inv.slots id).active.mpr on
  unfold park
  split
  · exact inv.local (.inr ⟨outside, rfl⟩)
      ⟨request, rfl, by simpa [markParked] using active, nofun⟩ rfl fun _ _ => rfl
  next leave =>
    refine inv.local (.inr ⟨outside, rfl⟩)
      ⟨request, rfl, by simpa [markParked] using active, nofun⟩ rfl ?_
    intro world _
    have held : (state.slot id).held = true := by simp [held, world]
    right
    change (state.slot id).running = false
    simpa [held] using leave

theorem loopStep_inv : Inv (state.loopStep id) := by
  unfold loopStep
  dsimp only
  split
  next fresh here =>
    have parked : (state.pc (.cpu id)).countsParked = false := by rw [here]; rfl
    have outside : (state.pc (.cpu id)).leads = false := by rw [here]; rfl
    split
    next running =>
      split
      · refine inv.moved outside rfl parked.symm (by simp [here]) nofun ?_
        rw [here]
        exact fun _ idle => idle.resolve_right (by simp [running])
      next free =>
        refine inv.moved outside rfl parked.symm (by simp [here]) nofun ?_
        intro world
        have held : (state.slot id).held = true := by simp [held, world]
        exact absurd ((inv.slots id).request.trans held) free
    next stopped =>
      have stopped : (state.slot id).running = false := by simpa using stopped
      exact inv.moved outside rfl parked.symm (by simp [here]) (fun _ => stopped) fun _ _ => stopped
  next fresh here => exact inv.parkTurn (by rw [here]; rfl) (by simp [here])
  next here => exact inv.parkTurn (by rw [here]; rfl) (by simp [here])
  next here =>
    refine inv.moved (by rw [here]; rfl) rfl (by rw [here]; rfl) (by simp [here])
      nofun ?_
    rw [here]
    exact fun _ idle => idle.elim
  next here =>
    exact inv.local (.inr ⟨by rw [here]; rfl, rfl⟩) ⟨(inv.slots id).request,
      (inv.slots id).parked.trans (by rw [here]; rfl), ⟨nofun, fun on => absurd rfl on⟩, nofun⟩
      rfl fun _ _ => trivial
  · exact inv

theorem ask_inv : Inv (state.ask thread) := by
  unfold ask
  split
  next here =>
    have same : (state.onMine thread (.markParked true)).setPc thread .turn =
        { state with
          slot := (state.onMine thread (.markParked true)).slot
          pc := update state.pc thread .turn } := by
      cases thread <;> rfl
    rw [same]
    refine inv.follow (.inr ⟨by rw [here]; rfl, rfl⟩)
      (slotOk_update (fun id mine => ?_) fun id away => ?_) (fun id => ?_) fun id _ idle => ?_
    · rw [onMine_slot, if_pos mine]
      exact ⟨(inv.slots id).request, rfl, (inv.slots id).active.trans (by simp [← mine, here]),
        nofun⟩
    · rw [onMine_slot, if_neg away]
      exact inv.slots id
    · rw [onMine_slot]
      split <;> rfl
    · rcases eq_or_ne thread (.cpu id) with rfl | away
      · rw [here] at idle
        exact idle.elim
      · rwa [onMine_slot, if_neg away, update_of_ne away.symm]
  · exact inv

theorem Inv.world_of_free (free : state.leader = none) : (state.slot id).world = false := by
  cases held : (state.slot id).world with
  | false => rfl
  | true =>
    obtain ⟨thread, leading, -⟩ := (inv.world id).mp held
    cases free.symm.trans leading

theorem Inv.locked (free : state.leader = none) (alive : state.pc thread ≠ .off)
    (leads : pc.leads = true)
    (parked : ∀ id, thread = .cpu id → pc.countsParked = (state.pc thread).countsParked)
    (holds : ∀ k, pc.holds k = false) :
    Inv { state.setPc thread pc with leader := some thread } := by
  refine inv.leadTo (fun other leading => (nomatch free.symm.trans leading)) leads
    (slotOk_update (fun id mine => ?_) fun id _ => inv.slots id) (fun _ _ => ⟨rfl, rfl⟩)
    (fun id => ?_) fun id _ waited => ?_
  · exact (mine ▸ inv.slots id).leads alive leads (parked id mine)
  · constructor
    · intro held
      cases (inv.world_of_free free).symm.trans held
    · rintro ⟨-, held⟩
      cases (holds id).symm.trans held
  · cases (holds id).symm.trans (Pc.holds_of_waitedFor waited)

theorem tryLead_inv : Inv (state.tryLead thread) := by
  unfold tryLead
  split
  next here free =>
    exact inv.locked free (by simp [here]) rfl (fun _ _ => by rw [here]; rfl)
      fun k => by simp [Pc.holds]
  · exact inv

/-! ### The leader's steps -/

theorem Inv.world_leader (leading : state.leader = some thread) (id : Fin n) :
    (state.slot id).world = true ↔ thread ≠ .cpu id ∧ (state.pc thread).holds id = true := by
  rw [inv.world id]
  constructor
  · rintro ⟨other, also, different, holds⟩
    cases leading.symm.trans also
    exact ⟨different, holds⟩
  · rintro ⟨different, holds⟩
    exact ⟨thread, leading, different, holds⟩

/-- The leader moves on, with the slots as they are but for one other CPU's. -/
theorem Inv.leaderMoved {slot : Fin n → ParkSlot} (leading : state.leader = some thread)
    (leads : pc.leads = true) (slots : ∀ id, SlotOk (state.pc (.cpu id)) (slot id))
    (frame : ∀ id, (slot id).parked = (state.slot id).parked ∧
      (slot id).running = (state.slot id).running)
    (parked : pc.countsParked = (state.pc thread).countsParked)
    (world : ∀ id, (slot id).world = true ↔ thread ≠ .cpu id ∧ pc.holds id = true)
    (idle : ∀ id, thread ≠ .cpu id → pc.waitedFor id = true →
      Idle (state.pc (.cpu id)) (state.slot id)) :
    Inv { slot, leader := state.leader, pc := update state.pc thread pc } := by
  rw [leading]
  refine inv.leadTo (fun other also => Option.some.inj (also.symm.trans leading)) leads
    (slotOk_update (fun id mine => ?_) fun id _ => slots id) (fun id _ => frame id) world idle
  exact (mine ▸ slots id).leads (inv.not_off leading) leads parked

section
variable (leading : state.leader = some thread)
include leading

theorem Inv.leaderPassed (leads : pc.leads = true)
    (parked : pc.countsParked = (state.pc thread).countsParked)
    (holds : ∀ id : Fin n, pc.holds id = (state.pc thread).holds id)
    (idle : ∀ id : Fin n, thread ≠ .cpu id → pc.waitedFor id = true →
      Idle (state.pc (.cpu id)) (state.slot id)) :
    Inv (state.setPc thread pc) :=
  inv.leaderMoved leading leads inv.slots (fun _ => ⟨rfl, rfl⟩) parked
    (fun id => by rw [holds]; exact inv.world_leader leading id) idle

/-- The leader holds or releases one other CPU, and moves on to the next. -/
theorem Inv.leaderNext (leads : pc.leads = true) (request : slot.request = slot.held)
    (frame : slot.parked = (state.slot id).parked ∧ slot.active = (state.slot id).active ∧
      slot.running = (state.slot id).running)
    (parked : pc.countsParked = (state.pc thread).countsParked) (here : slot.world = pc.holds id)
    (holds : ∀ other : Fin n, other ≠ id → pc.holds other = (state.pc thread).holds other)
    (waited : ∀ k, pc.waitedFor k = false) :
    Inv ((if thread = .cpu id then state else state.setSlot id slot).setPc thread pc) := by
  have nobody : ∀ other, thread ≠ .cpu other → pc.waitedFor other = true →
      Idle (state.pc (.cpu other)) (state.slot other) :=
    fun other _ also => nomatch (waited other).symm.trans also
  split
  next mine =>
    apply inv.leaderMoved leading leads inv.slots (fun _ => ⟨rfl, rfl⟩) parked _ nobody
    intro other
    rw [inv.world_leader leading other]
    rcases eq_or_ne other id with rfl | away
    · simp [mine]
    · rw [holds other away]
  next others =>
    obtain ⟨flag, active, running⟩ := frame
    refine inv.leaderMoved leading leads (fun other => ?_) (fun other => ?_) parked
      (fun other => ?_) nobody
    · rcases eq_or_ne other id with rfl | away
      · rw [setSlot_slot_self]
        have ok := inv.slots other
        exact ⟨request, flag.trans ok.parked, active ▸ ok.active,
          fun ending => running.trans (ok.stopping ending)⟩
      · rw [setSlot_slot_ne away]
        exact inv.slots other
    · rcases eq_or_ne other id with rfl | away
      · rw [setSlot_slot_self]
        exact ⟨flag, running⟩
      · rw [setSlot_slot_ne away]
        exact ⟨rfl, rfl⟩
    · rcases eq_or_ne other id with rfl | away
      · rw [setSlot_slot_self, here]
        simp [others]
      · rw [setSlot_slot_ne away, inv.world_leader leading other, holds other away]

/-- The leader gives its lock back once it holds nobody. -/
theorem Inv.unlocked (parked : (state.pc thread).countsParked = false)
    (holds : ∀ id : Fin n, (state.pc thread).holds id = false) :
    Inv { state.setPc thread .batch with leader := none } := by
  have slots := @slotOk_update _ _ .batch state thread state.slot
    (fun id mine => ⟨(inv.slots id).request, (inv.slots id).parked.trans (mine ▸ parked),
      iff_of_true ((inv.slots id).active.mpr (mine ▸ inv.not_off leading)) nofun, nofun⟩)
    fun id _ => inv.slots id
  refine ⟨fun other => ?_, slots, fun id => ⟨fun held => ?_, nofun⟩, nofun⟩
  · rcases eq_or_ne other thread with rfl | away
    · simp [setPc, Pc.leads]
    · have follows : (state.pc other).leads ≠ true :=
        fun leads => away (inv.leader_unique leads ((inv.owner thread).mpr leading))
      simp [setPc, away, follows]
  · cases (holds id).symm.trans ((inv.world_leader leading id).mp held).2

end

/-- The leader, its turn come, no longer counts as parked. -/
theorem Inv.unparked (here : state.pc thread = .gotTurn) :
    Inv ((state.onMine thread (.markParked false)).setPc thread (.holding 0)) := by
  have leading : state.leader = some thread := (inv.owner thread).mp (by rw [here]; rfl)
  have same : (state.onMine thread (.markParked false)).setPc thread (.holding 0) =
      { slot := (state.onMine thread (.markParked false)).slot
        leader := some thread
        pc := update state.pc thread (.holding 0) } := by
    rw [← leading]
    cases thread <;> rfl
  rw [same]
  refine inv.leadTo (fun other also => Option.some.inj (also.symm.trans leading)) rfl
    (slotOk_update (fun id mine => ?_) fun id away => ?_) (fun id away => ?_) (fun id => ?_) nofun
  · rw [onMine_slot, if_pos mine]
    exact ⟨(inv.slots id).request, rfl, (inv.slots id).active.trans (by simp [← mine, here]),
      nofun⟩
  · rw [onMine_slot, if_neg away]
    exact inv.slots id
  · rw [onMine_slot, if_neg away]
    exact ⟨rfl, rfl⟩
  · have before := inv.world_leader leading id
    rw [here] at before
    rw [onMine_slot]
    split <;> simpa [Pc.holds, markParked] using before

theorem Inv.idle_of_isParked (leading : state.leader = some thread) (different : thread ≠ .cpu id)
    (parked : (state.slot id).isParked = true) : Idle (state.pc (.cpu id)) (state.slot id) := by
  obtain ⟨-, flag, active, -⟩ := inv.slots id
  cases here : state.pc (.cpu id) with
  | inPark | turn => exact flag.trans (by rw [here]; rfl)
  | off => trivial
  | gotTurn =>
    have also := (inv.owner (.cpu id)).mp (by rw [here]; rfl)
    exact absurd (Option.some.inj (leading.symm.trans also)) different
  | _ =>
    rw [here] at flag active
    have off : (state.slot id).active = true := active.mpr (by simp)
    simp [isParked, flag, off, Pc.countsParked] at parked

theorem leadStep_inv : Inv (state.leadStep thread) := by
  have leading : (state.pc thread).leads = true → state.leader = some thread :=
    (inv.owner thread).mp
  unfold leadStep
  split
  next here =>
    split
    next free =>
      exact inv.locked free (by simp [here]) rfl (fun _ _ => by rw [here]; rfl) fun _ => rfl
    · exact inv
  next here => exact inv.unparked here
  next k here =>
    have leading := leading (by rw [here]; rfl)
    split
    next below =>
      refine inv.leaderNext leading rfl (hold_request _) (hold_frame _)
        (by rw [here]; rfl) (by simp [Pc.holds]) (fun other away => ?_) fun _ => rfl
      have elsewhere : other.val ≠ k := fun same => away (Fin.ext same)
      rw [here]
      simp only [Pc.holds, decide_eq_decide]
      omega
    next beyond =>
      refine inv.leaderPassed leading rfl (by rw [here]; rfl) (fun id => ?_)
        fun id _ waited => by simp [Pc.waitedFor] at waited
      rw [here]
      exact (decide_eq_true (by omega)).symm
  next k here =>
    have leading := leading (by rw [here]; rfl)
    split
    next below =>
      dsimp only
      split
      next parked =>
        refine inv.leaderPassed leading rfl (by rw [here]; rfl) (fun id => by rw [here]; rfl)
          fun id different waited => ?_
        have reached : id.val < k + 1 := by simpa [Pc.waitedFor] using waited
        rcases Nat.lt_succ_iff_lt_or_eq.mp reached with before | same
        · apply inv.idle thread id leading different
          rw [here]
          simpa [Pc.waitedFor] using before
        · have this : (⟨k, below⟩ : Fin n) = id := Fin.ext same.symm
          rw [this] at parked
          exact inv.idle_of_isParked leading different (parked.resolve_left different)
      · exact inv
    next beyond =>
      refine inv.leaderPassed leading rfl (by rw [here]; rfl) (fun id => by rw [here]; rfl)
        fun id different _ => ?_
      apply inv.idle thread id leading different
      rw [here]
      exact decide_eq_true (by omega)
  next here =>
    exact inv.leaderPassed (leading (by rw [here]; rfl)) rfl (by rw [here]; rfl)
      (fun id => by rw [here]; simp [Pc.holds]) nofun
  next k here =>
    have leading := leading (by rw [here]; rfl)
    split
    next below =>
      refine inv.leaderNext leading rfl (release_request (inv.slots _).request)
        (release_frame _) (by rw [here]; rfl) (by simp [Pc.holds])
        (fun other away => ?_) fun _ => rfl
      have elsewhere : other.val ≠ k := fun same => away (Fin.ext same)
      rw [here]
      simp only [Pc.holds, decide_eq_decide]
      omega
    next beyond =>
      refine inv.unlocked leading (by rw [here]; rfl) fun id => ?_
      rw [here]
      simp only [Pc.holds, decide_eq_false_iff_not]
      omega
  · exact inv

theorem step_inv : Inv (step state op) := by
  cases op with
  | loop id => exact loopStep_inv inv
  | ask thread => exact ask_inv inv
  | tryLead thread => exact tryLead_inv inv
  | lead thread => exact leadStep_inv inv
  | hold id =>
    obtain ⟨parked, active, running⟩ := hold_frame (state.slot id)
    exact inv.slotChanged (hold_request _) parked active rfl
      (by rw [running]; exact fun on => on)
  | release id =>
    obtain ⟨parked, active, running⟩ := release_frame (state.slot id)
    exact inv.slotChanged (release_request (inv.slots id).request) parked active
      (release_heart_world _) (by rw [running]; exact fun on => on)
  | stop id => exact inv.slotChanged (inv.slots id).request rfl rfl rfl nofun
  | start id =>
    rw [step]
    split
    next off =>
      exact inv.local (.inr ⟨by rw [off]; rfl, rfl⟩) ⟨(inv.slots id).request,
        (inv.slots id).parked.trans (by rw [off]; rfl), by simp, nofun⟩ rfl fun _ _ => .inl rfl
    · exact inv

end

theorem Reachable.inv (reachable : Reachable state) : Inv state := by
  obtain ⟨ops, rfl⟩ := reachable
  exact List.foldlRecOn ops step init_inv fun _ inv op _ => step_inv inv

end Steps

end Iris.Cpu.Smp
