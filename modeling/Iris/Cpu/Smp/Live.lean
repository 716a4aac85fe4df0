import Iris.Cpu.Smp.Exclusive
import Iris.Library.Run

/-!
Owns progress of the stop-the-world protocol: a CPU nobody holds leaves its place and
runs, threads do not wait for each other in a circle, and whoever leads can finish.
-/

namespace Iris.Cpu.Smp

open Library.Run List State ParkSlot

variable {n m : Nat} {state : State n m}

/-! ### A released CPU runs -/

def Op.actor : Op n m → Option (Thread n m)
  | .loop id => some (.cpu id)
  | .ask thread => some thread
  | .tryLead thread => some thread
  | .lead thread => some thread
  | .start id => some (.cpu id)
  | _ => none

variable {id : Fin n} {thread : Thread n m}

theorem loopStep_pc_ne (away : thread ≠ .cpu id) :
    (state.loopStep id).pc thread = state.pc thread := by
  unfold loopStep
  dsimp only
  split
  · split
    · split <;> exact setPc_pc_ne away
    · exact setPc_pc_ne away
  · exact setPc_pc_ne away
  · exact setPc_pc_ne away
  · exact setPc_pc_ne away
  · exact setPc_pc_ne away
  · rfl

theorem onMine_pc (thread : Thread n m) (change : ParkSlot → ParkSlot) :
    (state.onMine thread change).pc = state.pc := by
  cases thread <;> rfl

theorem leadStep_pc_ne (away : thread ≠ actor) :
    (state.leadStep actor).pc thread = state.pc thread := by
  unfold leadStep
  split
  · split
    · exact setPc_pc_ne away
    · rfl
  · exact (setPc_pc_ne away).trans (by rw [onMine_pc])
  · split
    · refine (setPc_pc_ne away).trans ?_
      split <;> rfl
    · exact setPc_pc_ne away
  · split
    · dsimp only
      split
      · exact setPc_pc_ne away
      · rfl
    · exact setPc_pc_ne away
  · exact setPc_pc_ne away
  · split
    · refine (setPc_pc_ne away).trans ?_
      split <;> rfl
    · exact setPc_pc_ne away
  · rfl

theorem step_pc_ne (away : op.actor ≠ some thread) :
    (step state op).pc thread = state.pc thread := by
  have apart : ∀ actor, op.actor = some actor → thread ≠ actor := by
    rintro actor acts rfl
    exact away acts
  cases op with
  | loop id => exact loopStep_pc_ne (apart _ rfl)
  | ask actor =>
    rw [step, ask]
    split
    · exact (setPc_pc_ne (apart _ rfl)).trans (by rw [onMine_pc])
    · rfl
  | tryLead actor =>
    rw [step, tryLead]
    split
    · exact setPc_pc_ne (apart _ rfl)
    · rfl
  | lead actor => exact leadStep_pc_ne (apart _ rfl)
  | start id =>
    rw [step]
    split
    · exact setPc_pc_ne (apart _ rfl)
    · rfl
  | hold | release | stop => rfl

/-- On its way out of `park`, a CPU thread moves by the steps of its loop alone. -/
theorem pc_of_other (other : op ≠ .loop id)
    (leaving : state.pc (.cpu id) = .inPark ∨ ∃ fresh, state.pc (.cpu id) = .boundary fresh) :
    (step state op).pc (.cpu id) = state.pc (.cpu id) := by
  by_cases mine : op.actor = some (.cpu id)
  · have unmoved : step state op = state := by
      cases op with
      | loop other' =>
        obtain rfl := Thread.cpu.inj (Option.some.inj mine)
        exact absurd rfl other
      | ask actor =>
        cases mine
        rcases leaving with here | ⟨fresh, here⟩ <;> simp [step, ask, here]
      | tryLead actor =>
        cases mine
        rcases leaving with here | ⟨fresh, here⟩ <;> simp [step, tryLead, here]
      | lead actor =>
        cases mine
        rcases leaving with here | ⟨fresh, here⟩ <;> simp [step, leadStep, here]
      | start other' =>
        obtain rfl := Thread.cpu.inj (Option.some.inj mine)
        rcases leaving with here | ⟨fresh, here⟩ <;> simp [step, here]
      | hold | release | stop => cases mine
    rw [unmoved]
  · exact step_pc_ne mine

theorem loop_inPark (here : state.pc (.cpu id) = .inPark) (free : (state.slot id).held = false) :
    (step state (.loop id)).pc (.cpu id) = .boundary false := by
  simp [step, loopStep, here, park, free]

theorem loop_boundary (inv : Inv state) (here : state.pc (.cpu id) = .boundary fresh)
    (free : (state.slot id).held = false) (running : (state.slot id).running = true) :
    (step state (.loop id)).pc (.cpu id) = .batch := by
  have request := (inv.slots id).request.trans free
  simp [step, loopStep, here, running, request]

/-- A CPU nobody holds, and that is not stopped, is back in guest code by its second
step. -/
theorem resumes (inv : Inv state) {ops : List (Op n m)}
    (free : Along step (fun state _ => (state.slot id).held = false ∧
      (state.slot id).running = true) state ops)
    (leaving : state.pc (.cpu id) = .inPark ∧ 2 ≤ ops.count (.loop id) ∨
      (∃ fresh, state.pc (.cpu id) = .boundary fresh) ∧ 1 ≤ ops.count (.loop id)) :
    ∃ earlier later, ops = earlier ++ later ∧ (earlier.foldl step state).pc (.cpu id) = .batch := by
  induction ops generalizing state with
  | nil => simp at leaving
  | cons op rest inductionHypothesis =>
    obtain ⟨unheld, running⟩ := free [] op rest rfl
    have later : ∀ next : List (Op n m), ∀ tail, rest = next ++ tail →
        (next.foldl step (step state op)).pc (.cpu id) = .batch →
        ∃ earlier later, op :: rest = earlier ++ later ∧
          (earlier.foldl step state).pc (.cpu id) = .batch :=
      fun next tail split there => ⟨op :: next, tail, by rw [split]; rfl, there⟩
    by_cases own : op = .loop id
    · subst own
      rcases leaving with ⟨here, twice⟩ | ⟨⟨fresh, here⟩, -⟩
      · obtain ⟨next, tail, split, there⟩ := inductionHypothesis (step_inv inv) free.tail
          (.inr ⟨⟨false, loop_inPark here unheld⟩, by simpa using twice⟩)
        exact later next tail split there
      · exact ⟨[.loop id], rest, rfl, loop_boundary inv here unheld running⟩
    · have still := pc_of_other own (leaving.imp And.left And.left)
      rw [count_cons_of_ne own] at leaving
      obtain ⟨next, tail, split, there⟩ := inductionHypothesis (step_inv inv) free.tail (by
        rw [still]
        exact leaving)
      exact later next tail split there

/-! ### No circle of waiting threads -/

/-- `first` can do nothing until `second` has done something: it is in line for the
leader's lock, parked for the leader, or leads and waits for a CPU to park. -/
def Waits (state : State n m) (first second : Thread n m) : Prop :=
  state.pc first = .turn ∧ state.leader = some second ∨
    (∃ id, first = .cpu id ∧ state.pc first = .inPark ∧ (state.slot id).world = true ∧
      state.leader = some second) ∨
    ∃ (k : Nat) (below : k < n), state.pc first = .waiting k ∧ second = .cpu ⟨k, below⟩ ∧
      first ≠ second ∧ (state.slot ⟨k, below⟩).isParked = false

/-- A thread that waits for another waits for the leader, or for a CPU that waits for
nobody. -/
theorem Waits.ends (inv : Inv state) (waits : Waits state first second) :
    state.leader = some second ∨ ∀ third, ¬Waits state second third := by
  rcases waits with ⟨-, leading⟩ | ⟨-, -, -, -, leading⟩ | ⟨k, below, here, rfl, away, unparked⟩
  · exact .inl leading
  · exact .inl leading
  right
  have flag := (inv.slots ⟨k, below⟩).parked
  have quiet : (state.slot ⟨k, below⟩).parked = false := by
    simp [isParked] at unparked
    exact unparked.1
  rintro third (⟨turn, -⟩ | ⟨id, -, parked, -⟩ | ⟨j, -, also, -⟩)
  · rw [quiet, turn] at flag
    cases flag
  · rw [quiet, parked] at flag
    cases flag
  · exact away (inv.leader_unique (by rw [here]; rfl) (by rw [also]; rfl))

/-- The leader waits for a CPU that waits for nobody. -/
theorem Waits.leader_ends (inv : Inv state) (leading : state.leader = some first)
    (waits : Waits state first second) :
    ∀ third, ¬Waits state second third := by
  have leads := (inv.owner first).mpr leading
  rcases waits with ⟨turn, -⟩ | ⟨-, -, parked, -⟩ | ⟨k, below, here, rfl, away, unparked⟩
  · rw [turn] at leads
    cases leads
  · rw [parked] at leads
    cases leads
  · have waits : Waits state first (.cpu ⟨k, below⟩) :=
      .inr (.inr ⟨k, below, here, rfl, away, unparked⟩)
    rcases waits.ends inv with also | ends
    · exact absurd (Option.some.inj (leading.symm.trans also)) away
    · exact ends

theorem no_circle (inv : Inv state) (thread : Thread n m) :
    ¬Relation.TransGen (Waits state) thread thread := by
  have next : ∀ first, Relation.TransGen (Waits state) first first →
      ∃ second, Waits state first second ∧ Relation.TransGen (Waits state) second second := by
    intro first circle
    obtain ⟨second, waits, back⟩ := Relation.TransGen.head'_iff.mp circle
    exact ⟨second, waits, .tail' back waits⟩
  intro circle
  obtain ⟨second, one, circle⟩ := next thread circle
  obtain ⟨third, two, circle⟩ := next second circle
  obtain ⟨fourth, three, -⟩ := next third circle
  rcases one.ends inv with leading | ends
  · exact two.leader_ends inv leading fourth three
  · exact ends third two

/-! ### Whoever leads can finish -/

/-- How far a held CPU thread is from where it counts as parked. -/
def toPark (running : Bool) : Pc → Nat
  | .entering _ => if running then 1 else 5
  | .batch => 4
  | .boundary _ => 3
  | .exiting => 2
  | _ => 0

theorem loop_approaches (inv : Inv state) (held : (state.slot id).world = true)
    (follows : (state.pc (.cpu id)).leads = false) (unparked : (state.slot id).isParked = false) :
    toPark ((state.loopStep id).slot id).running ((state.loopStep id).pc (.cpu id)) <
      toPark (state.slot id).running (state.pc (.cpu id)) := by
  obtain ⟨request, flag, active, -⟩ := inv.slots id
  have held : (state.slot id).held = true := by simp [ParkSlot.held, held]
  rw [held] at request
  obtain ⟨quiet, on⟩ : (state.slot id).parked = false ∧ (state.slot id).active = true := by
    simpa [isParked] using unparked
  rw [quiet] at flag
  unfold loopStep
  dsimp only
  cases here : state.pc (.cpu id) with
  | off => exact absurd here (active.mp on)
  | boundary fresh =>
    cases running : (state.slot id).running with
    | true => simp [request, toPark, running]
    | false => simp [toPark]
  | entering fresh =>
    cases running : (state.slot id).running with
    | true => simp [park, held, running, toPark]
    | false => simp [park, running, toPark]
  | batch | exiting => simp [toPark]
  | inPark | turn =>
    rw [here] at flag
    cases flag
  | _ =>
    rw [here] at follows
    cases follows

theorem loopStep_leader : (state.loopStep id).leader = state.leader := by
  unfold loopStep
  dsimp only
  split
  · split
    · split <;> rfl
    · rfl
  all_goals rfl

/-- The thread's own steps take a held CPU to where it counts as parked, and leave the
leader where it is. -/
theorem parks (inv : Inv state) (leading : state.leader = some thread) (away : thread ≠ .cpu id)
    (holds : (state.pc thread).holds id = true) :
    ∃ count, ∀ state', state' = (replicate count (Op.loop id)).foldl step state →
      Inv state' ∧ state'.leader = some thread ∧ state'.pc thread = state.pc thread ∧
        (state'.slot id).isParked = true := by
  induction distance : toPark (state.slot id).running (state.pc (.cpu id)) using Nat.strongRecOn
    generalizing state with
  | _ distance inductionHypothesis =>
    cases parked : (state.slot id).isParked with
    | true =>
      refine ⟨0, ?_⟩
      rintro _ rfl
      exact ⟨inv, leading, rfl, parked⟩
    | false =>
      have follows : (state.pc (.cpu id)).leads = false := by
        cases leads : (state.pc (.cpu id)).leads with
        | false => rfl
        | true => exact absurd (inv.leader_unique ((inv.owner thread).mpr leading) leads) away
      have nearer := loop_approaches inv ((inv.world_leader leading id).mpr ⟨away, holds⟩)
        follows parked
      have samePc : (state.loopStep id).pc thread = state.pc thread := loopStep_pc_ne away
      obtain ⟨count, reached⟩ := inductionHypothesis _ (distance ▸ nearer) (loopStep_inv inv)
        ((loopStep_leader).trans leading) (by rwa [samePc]) rfl
      refine ⟨count + 1, ?_⟩
      rintro _ rfl
      obtain ⟨inv', leading', pc', parked'⟩ := reached _ rfl
      exact ⟨inv', leading', pc'.trans samePc, parked'⟩

/-- How far a leader is from giving its lock back. -/
def toFree (n : Nat) : Pc → Nat
  | .gotTurn => 3 * n + 5
  | .holding k => 2 * n + 4 + (n - k)
  | .waiting k => n + 3 + (n - k)
  | .critical => n + 2
  | .releasing k => 1 + (n - k)
  | _ => 0

/-- The CPU the leader waits for next, if any, is parked. -/
def Ready (state : State n m) (thread : Thread n m) : Prop :=
  ∀ (k : Nat) (below : k < n), state.pc thread = .waiting k →
    thread = .cpu ⟨k, below⟩ ∨ (state.slot ⟨k, below⟩).isParked = true

theorem lead_approaches (inv : Inv state) (leading : state.leader = some thread)
    (ready : Ready state thread) :
    (state.leadStep thread).leader = none ∨ (state.leadStep thread).leader = some thread ∧
      toFree n ((state.leadStep thread).pc thread) < toFree n (state.pc thread) := by
  have leads := (inv.owner thread).mpr leading
  unfold leadStep
  cases here : state.pc thread with
  | gotTurn =>
    right
    constructor
    · cases thread <;> exact leading
    · simp only [setPc_pc_self, toFree]
      omega
  | holding k =>
    right
    dsimp only
    split
    · constructor
      · split <;> exact leading
      · simp only [setPc_pc_self, toFree]
        omega
    · refine ⟨leading, ?_⟩
      simp only [setPc_pc_self, toFree]
      omega
  | waiting k =>
    right
    dsimp only
    split
    next below =>
      rw [if_pos (ready k below here)]
      refine ⟨leading, ?_⟩
      simp only [setPc_pc_self, toFree]
      omega
    · refine ⟨leading, ?_⟩
      simp only [setPc_pc_self, toFree]
      omega
  | critical =>
    right
    refine ⟨leading, ?_⟩
    simp only [setPc_pc_self, toFree]
    omega
  | releasing k =>
    dsimp only
    split
    · right
      constructor
      · split <;> exact leading
      · simp only [setPc_pc_self, toFree]
        omega
    · exact .inl rfl
  | _ =>
    rw [here] at leads
    cases leads

/-- A step a thread takes by itself in the protocol. -/
def Op.isOwn : Op n m → Bool
  | .loop _ => true
  | .lead _ => true
  | _ => false

/-- The CPU the leader waits for next comes to be parked by its own steps. -/
theorem becomes_ready (inv : Inv state) (leading : state.leader = some thread) :
    ∃ before : List (Op n m), (∀ op ∈ before, op.isOwn = true) ∧
      ∃ state', state' = before.foldl step state ∧ Inv state' ∧ state'.leader = some thread ∧
        state'.pc thread = state.pc thread ∧ Ready state' thread := by
  by_cases waits : ∃ (k : Nat) (below : k < n), state.pc thread = .waiting k ∧
      thread ≠ .cpu ⟨k, below⟩
  · obtain ⟨k, below, here, away⟩ := waits
    obtain ⟨count, reached⟩ := @parks n m state ⟨k, below⟩ thread inv leading away
      (by rw [here]; rfl)
    obtain ⟨inv', leading', samePc, parked⟩ := reached _ rfl
    refine ⟨replicate count (.loop ⟨k, below⟩), ?_, _, rfl, inv', leading', samePc, ?_⟩
    · intro op member
      rw [eq_of_mem_replicate member]
      rfl
    · intro j _ there
      obtain rfl := Pc.waiting.inj (there.symm.trans (samePc.trans here))
      exact .inr parked
  · refine ⟨[], by simp, state, rfl, inv, leading, rfl, fun k below here => .inl ?_⟩
    by_contra away
    exact waits ⟨k, below, here, away⟩

/-- The CPUs the leader waits for park by their own steps, and the leader finishes. -/
theorem leader_finishes (inv : Inv state) :
    ∃ ops : List (Op n m), (∀ op ∈ ops, op.isOwn = true) ∧ (ops.foldl step state).leader = none := by
  cases leading : state.leader with
  | none => exact ⟨[], by simp, leading⟩
  | some thread =>
    induction distance : toFree n (state.pc thread) using Nat.strongRecOn
      generalizing state with
    | _ distance inductionHypothesis =>
      -- first the CPU the leader waits for, then the leader
      obtain ⟨before, own, state', rfl, inv', leading', samePc, ready⟩ :=
        becomes_ready inv leading
      obtain ⟨after, own', free⟩ : ∃ after : List (Op n m), (∀ op ∈ after, op.isOwn = true) ∧
          (after.foldl step ((before.foldl step state).leadStep thread)).leader = none := by
        rcases lead_approaches inv' leading' ready with free | ⟨leading'', nearer⟩
        · exact ⟨[], by simp, free⟩
        · rw [samePc, distance] at nearer
          exact inductionHypothesis _ nearer (leadStep_inv inv') leading'' rfl
      refine ⟨before ++ .lead thread :: after, ?_, ?_⟩
      · intro op member
        rcases mem_append.mp member with early | late
        · exact own op early
        · rcases mem_cons.mp late with rfl | later
          · rfl
          · exact own' op later
      · rw [foldl_append]
        exact free

/-- Whatever the number of CPUs and of other threads, in every reachable state: at most one
thread is in its critical section, and every other CPU is idle meanwhile; once nobody
leads, only its own disable bit still holds a CPU, and a parked CPU that nobody holds runs
again; a thread in line gets the lock when it is free; no threads wait for each other in a
circle; and the threads' own steps can bring whoever leads to the end of its section. -/
theorem stop_the_world (state : State n m) (reachable : Reachable state) :
    (∀ first second, state.pc first = .critical → state.pc second = .critical →
      first = second) ∧
    (∀ thread id, state.pc thread = .critical → thread ≠ .cpu id →
      Idle (state.pc (.cpu id)) (state.slot id)) ∧
    (state.leader = none → ∀ id, (state.slot id).held = (state.slot id).heart) ∧
    (∀ id ops, state.pc (.cpu id) = .inPark →
      Along step (fun state _ => (state.slot id).held = false ∧
        (state.slot id).running = true) state ops →
      2 ≤ ops.count (.loop id) → ∃ earlier later, ops = earlier ++ later ∧
        (earlier.foldl step state).pc (.cpu id) = .batch) ∧
    (∀ thread, state.pc thread = .turn → state.leader = none →
      (step state (.lead thread)).leader = some thread) ∧
    (∀ thread, ¬Relation.TransGen (Waits state) thread thread) ∧
    ∃ ops : List (Op n m), (∀ op ∈ ops, op.isOwn = true) ∧
      (ops.foldl step state).leader = none := by
  have inv := reachable.inv
  refine ⟨?_, ?_, ?_, ?_, ?_, no_circle inv, leader_finishes inv⟩
  · intro first second one two
    exact inv.leader_unique (by rw [one]; rfl) (by rw [two]; rfl)
  · intro thread id here away
    have leading := (inv.owner thread).mp (by rw [here]; rfl)
    exact inv.idle thread id leading away (by rw [here]; rfl)
  · intro free id
    rw [held, inv.world_of_free free, Bool.or_false]
  · intro id ops here free twice
    exact resumes inv free (.inl ⟨here, twice⟩)
  · intro thread here free
    simp [step, leadStep, here, free]

/-- Two CPUs are started and run; another thread asks to lead while the second CPU gets in
line for it, and waits until the first has parked. -/
def twoCpusStopped : List (Op 2 1) :=
  [.start 0, .start 1, .loop 0, .loop 1, .tryLead (.worker 0), .ask (.cpu 1),
    .lead (.worker 0), .lead (.worker 0), .lead (.worker 0), .lead (.worker 0), .loop 0, .loop 0,
    .loop 0, .lead (.worker 0), .lead (.worker 0), .lead (.worker 0)]

theorem two_cpus_stopped :
    (twoCpusStopped.foldl step init).pc (.worker 0) = .critical ∧
    Idle ((twoCpusStopped.foldl step init).pc (.cpu 0)) ((twoCpusStopped.foldl step init).slot 0) ∧
    Idle ((twoCpusStopped.foldl step init).pc (.cpu 1)) ((twoCpusStopped.foldl step init).slot 1) := by
  have critical : (twoCpusStopped.foldl step init).pc (.worker 0) = .critical := by decide +kernel
  have idle := (stop_the_world (twoCpusStopped.foldl step init) ⟨twoCpusStopped, rfl⟩).2.1
  exact ⟨critical, idle _ 0 critical (by simp), idle _ 1 critical (by simp)⟩

end Iris.Cpu.Smp
