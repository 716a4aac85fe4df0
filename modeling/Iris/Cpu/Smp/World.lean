import Mathlib.Tactic.Ring

/-!
Owns what several CPU threads share: each CPU's place to wait, the lock that makes
one thread the leader, and the steps by which a thread stops the other CPUs and
lets them go. A step is one section under a lock, or one atomic access.
-/

namespace Iris.Cpu.Smp

/-! ### A CPU's place to wait -/

/-- Why a CPU is held: its processor is disabled, or another thread needs the machine
still. -/
inductive Why
  | heart
  | world
deriving DecidableEq

/-- One CPU's place to wait, with the request bit of its interrupt word and the flag
that its thread is to go on. -/
structure ParkSlot where
  heart : Bool := false
  world : Bool := false
  parked : Bool := false
  active : Bool := false
  request : Bool := false
  running : Bool := false

namespace ParkSlot

variable (slot : ParkSlot)

/-- The CPU may run when this is false. -/
def held : Bool := slot.heart || slot.world

def setHold (why : Why) (on : Bool) (slot : ParkSlot) : ParkSlot :=
  match why with
  | .heart => { slot with heart := on }
  | .world => { slot with world := on }

def hold (why : Why) (slot : ParkSlot) : ParkSlot :=
  { slot.setHold why true with request := true }

/-- Drop one reason to stop; the CPU continues when none is left. -/
def release (why : Why) (slot : ParkSlot) : ParkSlot :=
  let slot := slot.setHold why false
  if slot.held then slot else { slot with request := false }

def setActive (on : Bool) (slot : ParkSlot) : ParkSlot := { slot with active := on }

def markParked (on : Bool) (slot : ParkSlot) : ParkSlot := { slot with parked := on }

/-- One turn of the loop of `park`, under the lock: wait on, or leave. -/
def park : Bool × ParkSlot :=
  if slot.held && slot.running then (true, slot.markParked true) else (false, slot.markParked false)

/-- What `wait_parked` waits for. -/
def isParked : Bool := slot.parked || !slot.active

end ParkSlot

/-! ### Threads -/

/-- The threads: one for each CPU, and others that may lead. -/
inductive Thread (n m : Nat)
  | cpu (id : Fin n)
  | worker (id : Fin m)
deriving DecidableEq

/-- Where a thread is. `fresh` marks a CPU thread that has only just been started. -/
inductive Pc
  /-- There is no thread. -/
  | off
  /-- Between batches, about to look at the flag and the request. -/
  | boundary (fresh : Bool)
  /-- The request was seen. -/
  | entering (fresh : Bool)
  /-- In the loop of `park`. -/
  | inPark
  /-- In guest code, for a CPU; at large, for another thread. -/
  | batch
  /-- In line for the leader's lock. -/
  | turn
  | gotTurn
  /-- Holding the other CPUs, the `k`th next. -/
  | holding (k : Nat)
  /-- Waiting for the other CPUs, the `k`th next. -/
  | waiting (k : Nat)
  /-- The other CPUs are parked. -/
  | critical
  /-- Letting the other CPUs go, the `k`th next. -/
  | releasing (k : Nat)
  /-- The loop has ended. -/
  | exiting
deriving DecidableEq

def Pc.leads : Pc → Bool
  | .gotTurn => true
  | .holding _ => true
  | .waiting _ => true
  | .critical => true
  | .releasing _ => true
  | _ => false

structure State (n m : Nat) where
  slot : Fin n → ParkSlot
  leader : Option (Thread n m)
  pc : Thread n m → Pc

variable {n m : Nat}

namespace State

def setPc (state : State n m) (thread : Thread n m) (pc : Pc) : State n m :=
  { state with pc := Function.update state.pc thread pc }

def setSlot (state : State n m) (id : Fin n) (slot : ParkSlot) : State n m :=
  { state with slot := Function.update state.slot id slot }

section Frame
variable {state : State n m} {thread other : Thread n m} {id place : Fin n} {pc : Pc}
  {slot : ParkSlot}

@[simp] theorem setPc_pc_self : (state.setPc thread pc).pc thread = pc := Function.update_self _ _ _

@[simp] theorem setPc_slot : (state.setPc thread pc).slot = state.slot := rfl

@[simp] theorem setSlot_slot_self : (state.setSlot id slot).slot id = slot :=
  Function.update_self _ _ _

theorem setPc_pc_ne (away : other ≠ thread) : (state.setPc thread pc).pc other = state.pc other :=
  Function.update_of_ne away _ _

theorem setSlot_slot_ne (away : place ≠ id) : (state.setSlot id slot).slot place =
    state.slot place :=
  Function.update_of_ne away _ _

theorem setSlot_self (state : State n m) (id : Fin n) :
    state.setSlot id (state.slot id) = state := by
  simp [setSlot]

theorem setPc_self (state : State n m) : state.setPc thread (state.pc thread) = state := by
  simp [setPc]

end Frame

variable (state : State n m) (thread : Thread n m)

/-- A change at the thread's own slot, if it runs a CPU. -/
def onMine (change : ParkSlot → ParkSlot) : State n m :=
  match thread with
  | .cpu id => state.setSlot id (change (state.slot id))
  | .worker _ => state

theorem onMine_slot (change : ParkSlot → ParkSlot) (id : Fin n)
    : (state.onMine thread change).slot id =
      if thread = .cpu id then change (state.slot id) else state.slot id := by
  cases thread with
  | worker _ => simp [onMine]
  | cpu place =>
    rcases eq_or_ne id place with rfl | away
    · simp [onMine]
    · simp [onMine, setSlot_slot_ne away, away.symm]

def loopStep (id : Fin n) : State n m :=
  let slot := state.slot id
  match state.pc (.cpu id) with
  | .boundary fresh =>
    if slot.running then
      if slot.request then state.setPc (.cpu id) (.entering fresh)
      else state.setPc (.cpu id) .batch
    else state.setPc (.cpu id) .exiting
  | .entering _ =>
    let (wait, slot) := slot.park
    (state.setSlot id slot).setPc (.cpu id) (if wait then .inPark else .boundary false)
  | .inPark =>
    let (wait, slot) := slot.park
    (state.setSlot id slot).setPc (.cpu id) (if wait then .inPark else .boundary false)
  | .batch => state.setPc (.cpu id) (.boundary false)
  | .exiting => (state.setSlot id (slot.setActive false)).setPc (.cpu id) .off
  | _ => state

/-- `stop_others`, up to the lock. -/
def ask : State n m :=
  match state.pc thread with
  | .batch => (state.onMine thread (.markParked true)).setPc thread .turn
  | _ => state

def tryLead : State n m :=
  match state.pc thread, state.leader with
  | .batch, none => { state.setPc thread (.holding 0) with leader := some thread }
  | _, _ => state

/-- A step of a thread that leads, or is in line for it. -/
def leadStep : State n m :=
  match state.pc thread with
  | .turn =>
    match state.leader with
    | none => { state.setPc thread .gotTurn with leader := some thread }
    | some _ => state
  | .gotTurn => (state.onMine thread (.markParked false)).setPc thread (.holding 0)
  | .holding k =>
    if below : k < n then
      let id : Fin n := ⟨k, below⟩
      let state :=
        if thread = .cpu id then state else state.setSlot id ((state.slot id).hold .world)
      state.setPc thread (.holding (k + 1))
    else state.setPc thread (.waiting 0)
  | .waiting k =>
    if below : k < n then
      let id : Fin n := ⟨k, below⟩
      if thread = .cpu id ∨ (state.slot id).isParked = true then
        state.setPc thread (.waiting (k + 1))
      else state
    else state.setPc thread .critical
  | .critical => state.setPc thread (.releasing 0)
  | .releasing k =>
    if below : k < n then
      let id : Fin n := ⟨k, below⟩
      let state :=
        if thread = .cpu id then state else state.setSlot id ((state.slot id).release .world)
      state.setPc thread (.releasing (k + 1))
    else { state.setPc thread .batch with leader := none }
  | _ => state

end State

inductive Op (n m : Nat)
  | loop (id : Fin n)
  | ask (thread : Thread n m)
  | tryLead (thread : Thread n m)
  | lead (thread : Thread n m)
  | hold (id : Fin n)
  | release (id : Fin n)
  | stop (id : Fin n)
  | start (id : Fin n)
deriving DecidableEq

/-- A step; one that cannot be taken leaves the state as it is. A CPU is started once
its last thread has ended. -/
def step (state : State n m) : Op n m → State n m
  | .loop id => state.loopStep id
  | .ask thread => state.ask thread
  | .tryLead thread => state.tryLead thread
  | .lead thread => state.leadStep thread
  | .hold id => state.setSlot id ((state.slot id).hold .heart)
  | .release id => state.setSlot id ((state.slot id).release .heart)
  | .stop id => state.setSlot id { state.slot id with running := false }
  | .start id =>
    if state.pc (.cpu id) = .off then
      (state.setSlot id { state.slot id with running := true, active := true }).setPc (.cpu id)
        (.boundary true)
    else state

/-- No CPU runs, and nobody holds one. -/
def init : State n m where
  slot _ := {}
  leader := none
  pc
    | .cpu _ => .off
    | .worker _ => .batch

def Reachable (state : State n m) : Prop := ∃ ops : List (Op n m), ops.foldl step init = state

end Iris.Cpu.Smp
