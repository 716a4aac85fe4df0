import Mathlib.Tactic.Ring

/-!
Owns the CP0 Count/Compare timer of a core as one thread sees it: the virtual
Count materialised from the host clock, the IP7 delivery ticket, the Compare
one-shot, and the register and stop/start operations on them.

Each operation takes the host clock in nanoseconds and the retired-cycle
counter it reads. The interleaving of the individual atomic operations with the
timer thread is the subject of `Iris.Cpu.Timer.Ticket`. The `ci_clock` build,
which counts cycles instead of nanoseconds, is not modelled.
-/

namespace Iris.Cpu.Timer

def nsPerSecond : Nat := 1000000000

/-- "The armed deadline has already been delivered"; never a valid ticket. -/
def ip7SeqConsumed : BitVec 64 := 0

def defaultCountHz : Nat := 33000000

structure OneShot where
  deadline : Nat
  ticket : BitVec 64
  enabled : Bool
deriving DecidableEq, Repr

structure CoreTimer where
  countHz : Nat
  cp0Count : BitVec 32
  cp0Compare : BitVec 32
  /-- `count_anchor_instant`, in nanoseconds. -/
  countAnchor : Nat
  countReadCycle : BitVec 64
  countPaused : Bool
  countLastGuestRead : BitVec 32
  countWriteSamples : Bool
  ip7Seq : BitVec 64
  ip7SeqShared : BitVec 64
  /-- The IP7 bit of the shared interrupt word. -/
  ip7Pending : Bool
  timer : Option OneShot
deriving DecidableEq, Repr

/-- When an operation runs: the host clock and `hot.cycles`. -/
structure Moment where
  now : Nat
  cycles : BitVec 64
deriving DecidableEq, Repr

/-! ### Clock arithmetic -/

/-- `count_anchor_instant.elapsed()` in nanoseconds, cut to 64 bits. -/
def elapsedNs (anchor now : Nat) : Nat := (now - anchor) % 2 ^ 64

/-- Whole ticks in `ns` nanoseconds, cut to 64 bits. -/
def ticksIn (ns hz : Nat) : Nat := (ns * hz / nsPerSecond) % 2 ^ 64

/-- Whole nanoseconds `ticks` take, cut to 64 bits. -/
def consumedNs (ticks hz : Nat) : Nat := (ticks * nsPerSecond / hz) % 2 ^ 64

/-- Host nanoseconds until a Count at `count` next equals `compare`. -/
def compareDelayNs (compare count : BitVec 32) (hz : Nat) : Nat :=
  let distance := (compare - count).toNat
  let delta := if distance = 0 then 2 ^ 32 else distance
  (delta * nsPerSecond / hz) % 2 ^ 64

namespace CoreTimer

variable (core : CoreTimer)

def new (now : Nat) : CoreTimer where
  countHz := defaultCountHz
  cp0Count := 0
  cp0Compare := 0
  countAnchor := now
  countReadCycle := 0
  countPaused := false
  countLastGuestRead := 0
  countWriteSamples := false
  ip7Seq := 0
  ip7SeqShared := 0
  ip7Pending := false
  timer := none

/-! ### IP7 delivery -/

/-- Deliver IP7 if `ticket` is still the armed one. -/
def claimIp7 (ticket : BitVec 64) : CoreTimer :=
  if ticket = ip7SeqConsumed then core
  else if core.ip7SeqShared = ticket then
    { core with ip7SeqShared := ip7SeqConsumed, ip7Pending := true }
  else core

/-- The ticket after `seq`; the sentinel is never issued. -/
def nextTicket (seq : BitVec 64) : BitVec 64 :=
  if seq + 1 = ip7SeqConsumed then 1 else seq + 1

def armIp7Sequence : CoreTimer :=
  { core with ip7Seq := nextTicket core.ip7Seq, ip7SeqShared := nextTicket core.ip7Seq }

/-- Arm the one-shot for the current Count, Compare and ticket. A stopped core
stays disarmed. -/
def scheduleCompareTimer (now : Nat) : CoreTimer :=
  if core.countPaused then core
  else
    { core with
      timer := some
        ⟨now + compareDelayNs core.cp0Compare core.cp0Count core.countHz, core.ip7Seq, true⟩ }

/-! ### Count -/

variable (moment : Moment)

/-- Ticks an advance at `moment` adds to Count. -/
def pendingTicks : Nat := ticksIn (elapsedNs core.countAnchor moment.now) core.countHz

/-- The step of Count by `ticks`: the anchor moves by the time they consumed,
and a step over Compare delivers IP7 if asked. -/
def advanceCount (ticks : Nat) (deliverCrossing : Bool) : CoreTimer :=
  let distToCompare := core.cp0Compare - core.cp0Count
  let stepped :=
    { core with
      countAnchor := core.countAnchor + consumedNs ticks core.countHz
      cp0Count := core.cp0Count + BitVec.ofNat 32 ticks }
  if deliverCrossing ∧ distToCompare ≠ 0 ∧ distToCompare.toNat ≤ ticks then
    stepped.claimIp7 core.ip7Seq
  else stepped

def materializeCount (deliverCrossing : Bool) : CoreTimer :=
  if core.countPaused then core
  else if moment.cycles = core.countReadCycle then core
  else
    let ticks := core.pendingTicks moment
    let advanced := if ticks ≠ 0 then core.advanceCount ticks deliverCrossing else core
    { advanced with countReadCycle := moment.cycles }

/-- Re-anchor Count at its current value and re-arm the compare timer. -/
def reanchorCountAndReschedule : CoreTimer :=
  { core with countReadCycle := moment.cycles, countAnchor := moment.now
    }.scheduleCompareTimer moment.now

/-! ### Register operations -/

def readCount : CoreTimer × BitVec 32 :=
  let core := core.materializeCount moment true
  ({ core with countLastGuestRead := core.cp0Count }, core.cp0Count)

def writeCount (value : BitVec 32) : CoreTimer :=
  { core with
    cp0Count := value
    countLastGuestRead := if core.countWriteSamples then value else core.countLastGuestRead
    }.reanchorCountAndReschedule moment

/-- Compare is ahead of Count by less than half the counter's range. -/
def inFuture (compare count : BitVec 32) : Bool :=
  compare - count ≠ 0 && 0 < (compare - count).toInt

/-- Compare lies in the window `(last read, Count]`. -/
def missed (compare lastRead count : BitVec 32) : Bool :=
  compare - lastRead ≠ 0 && (compare - lastRead).toNat ≤ (count - lastRead).toNat

/-- MTC0 to Compare: new ticket, materialise without delivering, acknowledge,
classify the deadline, re-arm. -/
def writeCompare (value : BitVec 32) : CoreTimer :=
  let core := core.armIp7Sequence.materializeCount moment false
  let core := { core with cp0Compare := value, ip7Pending := false }
  let core :=
    if inFuture value core.cp0Count then core
    else if value = core.countLastGuestRead ∨ ¬ missed value core.countLastGuestRead core.cp0Count
    then core
    else core.claimIp7 core.ip7Seq
  core.scheduleCompareTimer moment.now

/-! ### Stop and start -/

/-- Latch Count at its current value and silence the one-shot. -/
def onCpuStop : CoreTimer :=
  if core.countPaused then core
  else
    { core with
      cp0Count := core.cp0Count + BitVec.ofNat 32 (core.pendingTicks moment)
      countReadCycle := moment.cycles
      countPaused := true
      timer := core.timer.map fun shot => { shot with enabled := false } }

def onCpuStart : CoreTimer :=
  { core with countPaused := false }.reanchorCountAndReschedule moment

end CoreTimer

end Iris.Cpu.Timer
