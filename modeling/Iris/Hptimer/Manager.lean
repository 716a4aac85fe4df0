import Mathlib.Data.List.Basic
import Mathlib.Tactic.Ring

/-!
Owns the high precision timer manager: the arena of timers with its recycled slots, the
queue of expired timers, the requests other threads make, and the worker's loop, cut where
it gives up the lock.

Times and durations are nanoseconds. A callback is an arbitrary token, and what a call
returns is an arbitrary input of the step that takes its result.
-/

namespace Iris.Hptimer

variable {Callback : Type}

/-- Identifies a timer. The source packs the two numbers in one word. -/
structure TimerId where
  generation : Nat
  index : Nat
deriving DecidableEq, Repr

/-- What a callback asks for on return. -/
inductive TimerReturn
  | continue
  | disable
  | delete
  | rescheduleOneShot (delay : Nat)
  | rescheduleRecurring (period : Nat)
deriving DecidableEq, Repr

/-- How far short of a deadline the worker stops sleeping and starts spinning. -/
def spinMargin : Nat := 50000

/-- Waits at or under this are spun outright. -/
def spinThreshold : Nat := 80000

def maxCatchup : Nat := 8

structure TimerEntry (Callback : Type) where
  nextExpiration : Nat
  period : Option Nat
  enabled : Bool
  inFifo : Bool
  callback : Option Callback
deriving DecidableEq, Repr

structure Slot (Callback : Type) where
  generation : Nat
  timer : Option (TimerEntry Callback)
deriving DecidableEq, Repr

/-- What the lock guards. The free indices are a stack; the fifo holds the expired timers
that wait to be called. -/
structure TimerManagerInner (Callback : Type) where
  slots : List (Slot Callback) := []
  freeIndices : List Nat := []
  fifo : List (Nat × Nat) := []
  stop : Bool := false
deriving DecidableEq, Repr

namespace TimerManagerInner

variable (inner : TimerManagerInner Callback) (now : Nat) (id : TimerId)

/-- The timer an identifier names, if it is still there. -/
def find : Option (TimerEntry Callback) :=
  match inner.slots[id.index]? with
  | none => none
  | some slot => if slot.generation = id.generation then slot.timer else none

def put (timer : Option (TimerEntry Callback)) : TimerManagerInner Callback :=
  { inner with slots := inner.slots.set id.index ⟨id.generation, timer⟩ }

/-- The slot the next timer goes to: the one freed last, or a new one. -/
def freeSlot : Nat × TimerManagerInner Callback :=
  match inner.freeIndices with
  | index :: rest => (index, { inner with freeIndices := rest })
  | [] => (inner.slots.length, { inner with slots := inner.slots ++ [⟨0, none⟩] })

/-- The generation goes up with each timer a slot is given to. -/
def allocate (entry : TimerEntry Callback) : TimerId × TimerManagerInner Callback :=
  let (index, inner) := inner.freeSlot
  let last := (inner.slots[index]?.map Slot.generation).getD 0
  let id : TimerId := ⟨(last + 1) % 2 ^ 32, index⟩
  (id, inner.put id (some entry))

def deallocate : Bool × TimerManagerInner Callback :=
  match inner.find id with
  | none => (false, inner)
  | some _ => (true, { inner.put id none with freeIndices := id.index :: inner.freeIndices })

def setEnabled (enabled : Bool) : Bool × TimerManagerInner Callback :=
  match inner.find id with
  | none => (false, inner)
  | some timer => (true, inner.put id (some { timer with enabled }))

/-! ### The worker's scan -/

/-- Enabled, expired, and not yet queued. -/
def newlyExpired (timer : TimerEntry Callback) : Bool :=
  timer.enabled && !timer.inFifo && decide (timer.nextExpiration ≤ now)

def register (slot : Slot Callback) : Slot Callback :=
  { slot with
    timer := slot.timer.map fun timer =>
      if newlyExpired now timer then { timer with inFifo := true } else timer }

def expiredEntry : Slot Callback × Nat → Option (Nat × Nat)
  | (slot, index) =>
    match slot.timer with
    | none => none
    | some timer => if newlyExpired now timer then some (index, slot.generation) else none

/-- Newly expired timers go to the back of the fifo, in the order of their slots. -/
def scan : TimerManagerInner Callback :=
  { inner with
    slots := inner.slots.map (register now)
    fifo := inner.fifo ++ inner.slots.zipIdx.filterMap (expiredEntry now) }

/-- Take one entry from the fifo. There is something to call if it still names a timer and
that is enabled; the callback is taken out of the slot for the call. -/
def fetch : Option (TimerId × Option Callback) × TimerManagerInner Callback :=
  match inner.fifo with
  | [] => (none, inner)
  | (index, generation) :: rest =>
    let inner := { inner with fifo := rest }
    let id : TimerId := ⟨generation, index⟩
    match inner.find id with
    | none => (none, inner)
    | some timer =>
      if timer.enabled then
        (some (id, timer.callback),
          inner.put id (some { timer with callback := none, inFifo := false }))
      else (none, inner.put id (some { timer with inFifo := false }))

def earlier (nextWakeup : Option Nat) (slot : Slot Callback) : Option Nat :=
  match slot.timer with
  | none => nextWakeup
  | some timer =>
    if timer.enabled && !timer.inFifo then
      match nextWakeup with
      | none => some timer.nextExpiration
      | some wakeup => some (if timer.nextExpiration < wakeup then timer.nextExpiration else wakeup)
    else nextWakeup

/-- The earliest expiration of an enabled timer outside the fifo. -/
def nextWakeup (inner : TimerManagerInner Callback) : Option Nat :=
  inner.slots.foldl earlier none

end TimerManagerInner

/-! ### The worker -/

/-- Where the worker is: at the top of its loop, in a callback (with the number of calls made
to catch up), on its way to sleep, or gone. -/
inductive Worker (Callback : Type)
  | looping
  | calling (id : TimerId) (callback : Callback) (catchUp : Nat)
  | waiting (nextWakeup : Option Nat)
  | stopped
deriving DecidableEq, Repr

structure TimerManager (Callback : Type) where
  inner : TimerManagerInner Callback := {}
  newTimerAdded : Bool := false
  worker : Worker Callback := .looping
deriving DecidableEq, Repr

/-- A request of some thread, together with its `wake_up`, or a step of the worker. -/
inductive Op (Callback : Type)
  | addOneShot (now expireIn : Nat) (callback : Callback)
  | addRecurring (expireAt period : Nat) (callback : Callback)
  | remove (id : TimerId)
  | enable (id : TimerId)
  | disable (id : TimerId)
  | stop
  | iterate (now : Nat)
  | returned (result : TimerReturn) (now : Nat)
  | check (now : Nat)
  | unparked

namespace TimerManager

variable (manager : TimerManager Callback) (now : Nat) (id : TimerId)

def add (entry : TimerEntry Callback) : TimerManager Callback :=
  { manager with inner := (manager.inner.allocate entry).2, newTimerAdded := true }

/-- One pass of the worker under the lock: scan, fetch, and the next wakeup if there is
nothing to call. -/
def iterate : TimerManager Callback :=
  if manager.inner.stop then { manager with worker := .stopped }
  else
    let (toCall, inner) := (manager.inner.scan now).fetch
    { inner
      newTimerAdded := false
      worker :=
        match toCall with
        | some (id, some callback) => .calling id callback 0
        | some (_, none) => .looping
        | none => .waiting inner.nextWakeup }

/-- The timer whose call returned, when it is still there: its callback is put back and the
result obeyed. A recurring timer that is late is called again at once, a few times. -/
def settle (callback : Callback) (catchUp : Nat) (timer : TimerEntry Callback) (now : Nat)
    : TimerReturn → TimerManager Callback
  | .continue =>
    match timer.period with
    | none => { manager with inner := (manager.inner.deallocate id).2, worker := .looping }
    | some period =>
      let nextExpiration := timer.nextExpiration + period
      if catchUp + 1 < maxCatchup ∧ timer.enabled = true ∧ nextExpiration ≤ now then
        { manager with
          inner := manager.inner.put id (some { timer with nextExpiration, callback := none })
          worker := .calling id callback (catchUp + 1) }
      else
        { manager with
          inner := manager.inner.put id
            (some { timer with nextExpiration, callback := some callback })
          worker := .looping }
  | .disable =>
    { manager with
      inner := manager.inner.put id (some { timer with enabled := false, callback := some callback })
      worker := .looping }
  | .delete => { manager with inner := (manager.inner.deallocate id).2, worker := .looping }
  | .rescheduleOneShot delay =>
    { manager with
      inner := manager.inner.put id (some { timer with
        nextExpiration := now + delay, period := none, callback := some callback })
      worker := .looping }
  | .rescheduleRecurring period =>
    { manager with
      inner := manager.inner.put id (some { timer with
        nextExpiration := timer.nextExpiration + period, period := some period
        callback := some callback })
      worker := .looping }

def returned (result : TimerReturn) (now : Nat) : TimerManager Callback :=
  match manager.worker with
  | .calling id callback catchUp =>
    if manager.inner.stop then { manager with worker := .looping }
    else
      match manager.inner.find id with
      | none => { manager with worker := .looping }
      | some timer => manager.settle id callback catchUp timer now result
  | _ => manager

/-- When a sleep that begins now ends of itself: short of the deadline if that is far, and
at it if the wait is spun. The source counts the spin from a second reading of the clock, so
there it ends later by the time between the two readings; here they are one. -/
def sleepEnd (target : Nat) : Nat :=
  if spinThreshold < target - now then now + (target - now - spinMargin)
  else now + (target - now)

/-- Whether the worker, about to wait, goes to sleep at `now`, and until when: for ever if
there is nothing to wake up for. -/
def sleeps : Option (Option Nat) :=
  match manager.worker with
  | .waiting none => if manager.newTimerAdded then none else some none
  | .waiting (some target) =>
    if target ≤ now ∨ manager.newTimerAdded = true then none else some (some (sleepEnd now target))
  | _ => none

def check : TimerManager Callback :=
  match manager.worker with
  | .waiting _ =>
    if (manager.sleeps now).isSome then manager else { manager with worker := .looping }
  | _ => manager

def unparked : TimerManager Callback :=
  match manager.worker with
  | .waiting none => { manager with worker := .looping }
  | _ => manager

def step : Op Callback → TimerManager Callback
  | .addOneShot now expireIn callback =>
    manager.add ⟨now + expireIn, none, true, false, some callback⟩
  | .addRecurring expireAt period callback =>
    manager.add ⟨expireAt, some period, true, false, some callback⟩
  | .remove id => { manager with inner := (manager.inner.deallocate id).2 }
  | .enable id =>
    let (found, inner) := manager.inner.setEnabled id true
    { manager with inner, newTimerAdded := found || manager.newTimerAdded }
  | .disable id => { manager with inner := (manager.inner.setEnabled id false).2 }
  | .stop => { manager with inner := { manager.inner with stop := true }, newTimerAdded := true }
  | .iterate now =>
    match manager.worker with
    | .looping => manager.iterate now
    | _ => manager
  | .returned result now => manager.returned result now
  | .check now => manager.check now
  | .unparked => manager.unparked

end TimerManager

end Iris.Hptimer
