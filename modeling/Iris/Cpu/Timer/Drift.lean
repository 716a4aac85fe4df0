import Iris.Cpu.Timer.Core
import Iris.Library.RateClock

/-!
Owns the accuracy of Count over any sequence of reads: Count follows a rate
clock whose anchor loses the fraction of a nanosecond that its ticks do not
fill. The rates that lose nothing keep every read exact; at every other rate
some read sequence leaves the ideal count by more than one tick.
-/

namespace Iris.Cpu.Timer

open Library BitVec RateClock CoreTimer

/-! ### Sequences of reads -/

def readAll (core : CoreTimer) : List Moment → List (Moment × BitVec 32)
  | [] => []
  | moment :: rest =>
    (moment, (core.readCount moment).2) :: readAll (core.readCount moment).1 rest

/-- Reads after `previous` at non-decreasing times, each in a later cycle, that
stay inside the 64-bit nanosecond and tick arithmetic. -/
def Schedule (hz origin : Nat) : Moment → List Moment → Prop
  | _, [] => True
  | previous, moment :: rest =>
    previous.now ≤ moment.now ∧ previous.cycles < moment.cycles ∧ moment.now - origin < 2 ^ 64 ∧
      (moment.now - previous.now + 1) * hz < 2 ^ 64 * nsPerSecond ∧
      Schedule hz origin moment rest

instance decidableSchedule (hz origin : Nat) :
    (previous : Moment) → (reads : List Moment) → Decidable (Schedule hz origin previous reads)
  | _, [] => .isTrue trivial
  | _, moment :: rest =>
    have := decidableSchedule hz origin moment rest
    inferInstanceAs (Decidable (_ ∧ _ ∧ _ ∧ _ ∧ _))

/-- Count on the ideal line through `core`'s anchor. -/
def idealCount (core : CoreTimer) (now : Nat) : BitVec 32 :=
  core.cp0Count + BitVec.ofNat 32 ((now - core.countAnchor) * core.countHz / nsPerSecond)

def WithinOneTick (ideal value : BitVec 32) : Prop :=
  value = ideal ∨ value = ideal + 1 ∨ value + 1 = ideal
deriving Decidable

/-- No scheduled read sequence at rate `hz` leaves the ideal line. -/
def DriftFree (hz : Nat) : Prop :=
  ∀ core reads, core.countHz = hz → core.countPaused = false →
    Schedule hz core.countAnchor ⟨core.countAnchor, core.countReadCycle⟩ reads →
    ∀ read ∈ readAll core reads, WithinOneTick (idealCount core read.1.now) read.2

/-! ### Count as a rate clock -/

section
variable (core : CoreTimer) (ticket : BitVec 64)

/-- A claim touches the shared ticket word and IP7 only. -/
theorem claimIp7_eq_or :
    core.claimIp7 ticket = core ∨
      core.claimIp7 ticket = { core with ip7SeqShared := ip7SeqConsumed, ip7Pending := true } := by
  unfold claimIp7
  split
  · exact .inl rfl
  · split <;> [exact .inr rfl; exact .inl rfl]

@[simp] theorem claimIp7_clock :
    (core.claimIp7 ticket).countHz = core.countHz ∧
      (core.claimIp7 ticket).cp0Count = core.cp0Count ∧
      (core.claimIp7 ticket).countAnchor = core.countAnchor ∧
      (core.claimIp7 ticket).countPaused = core.countPaused := by
  rcases claimIp7_eq_or core ticket with same | same <;> rw [same] <;> exact ⟨rfl, rfl, rfl, rfl⟩

end

theorem advanceCount_count {core : CoreTimer} {ticks : Nat} {deliver : Bool} :
    (core.advanceCount ticks deliver).cp0Count = core.cp0Count + BitVec.ofNat 32 ticks ∧
    (core.advanceCount ticks deliver).countAnchor =
      core.countAnchor + consumedNs ticks core.countHz ∧
    (core.advanceCount ticks deliver).countHz = core.countHz ∧
    (core.advanceCount ticks deliver).countPaused = core.countPaused := by
  unfold advanceCount
  dsimp only
  split <;> simp

/-- A running core whose Count and anchor are those of a rate clock. -/
structure Tracks (hz : Nat) (core : CoreTimer) (clock : Clock) : Prop where
  rate : core.countHz = hz
  running : core.countPaused = false
  anchor : core.countAnchor = clock.anchor
  count : core.cp0Count = BitVec.ofNat 32 clock.count

variable {hz : Nat} {core : CoreTimer} {clock : Clock} {moment : Moment}

/-- A read that does not overflow is a read of the rate clock. -/
theorem Tracks.readCount (tracks : Tracks hz core clock)
    (fresh : moment.cycles ≠ core.countReadCycle) (span : moment.now - clock.anchor < 2 ^ 64)
    (fits : ticks hz nsPerSecond (moment.now - clock.anchor) < 2 ^ 64) :
    Tracks hz (core.readCount moment).1 (clock.read hz nsPerSecond moment.now) ∧
      (core.readCount moment).1.countReadCycle = moment.cycles ∧
      (core.readCount moment).2 = BitVec.ofNat 32 (clock.read hz nsPerSecond moment.now).count := by
  obtain ⟨rate, running, anchor, count⟩ := tracks
  have gained : core.pendingTicks moment = ticks hz nsPerSecond (moment.now - clock.anchor) := by
    unfold pendingTicks ticksIn elapsedNs
    rw [anchor, rate, Nat.mod_eq_of_lt span]
    exact Nat.mod_eq_of_lt fits
  have used : consumedNs (core.pendingTicks moment) core.countHz =
      consumed hz nsPerSecond
        (ticks hz nsPerSecond (moment.now - clock.anchor)) := by
    rw [gained, rate]
    exact Nat.mod_eq_of_lt (lt_of_le_of_lt (consumed_ticks_le _ _ _) span)
  simp only [CoreTimer.readCount, CoreTimer.materializeCount, running, if_neg fresh]
  by_cases still : core.pendingTicks moment = 0
  · have noTicks : ticks hz nsPerSecond (moment.now - clock.anchor) = 0 := by
      rw [← gained, still]
    have unmoved : clock.read hz nsPerSecond moment.now = clock := by
      simp [Clock.read, noTicks, consumed]
    simp only [still, ne_eq, not_true_eq_false, if_false, unmoved, Bool.false_eq_true]
    exact ⟨⟨rate, running, anchor, count⟩, trivial, count⟩
  · obtain ⟨newCount, newAnchor, newRate, newPaused⟩ :=
      advanceCount_count
    have counted : core.cp0Count + BitVec.ofNat 32 (core.pendingTicks moment) =
        BitVec.ofNat 32 (clock.read hz nsPerSecond moment.now).count := by
      rw [gained, count, ← ofNat_add]
      rfl
    simp only [still, ne_eq, not_false_eq_true, if_true, Bool.false_eq_true, if_false]
    refine ⟨⟨newRate.trans rate, newPaused.trans running, ?_, newCount.trans counted⟩, trivial,
      newCount.trans counted⟩
    exact newAnchor.trans (by rw [used, anchor]; rfl)

/-! ### Steady rates do not drift -/

private theorem ticks_fit {hz span gap : Nat} (near : hz ≤ nsPerSecond ∨ span ≤ gap + 1)
    (bounded : span < 2 ^ 64) (fits : (gap + 1) * hz < 2 ^ 64 * nsPerSecond) :
    ticks hz nsPerSecond span < 2 ^ 64 := by
  unfold ticks
  rcases near with slow | near
  · have atMost : span * hz / nsPerSecond ≤ span :=
      Nat.div_le_of_le_mul (by rw [Nat.mul_comm]; exact Nat.mul_le_mul_right span slow)
    omega
  · apply Nat.div_lt_of_lt_mul
    calc span * hz ≤ (gap + 1) * hz := Nat.mul_le_mul_right hz near
      _ < 2 ^ 64 * nsPerSecond := fits
      _ = nsPerSecond * 2 ^ 64 := Nat.mul_comm _ _

variable {Boundary : Nat → Prop} {origin start : Nat}

/-- Along a steady rate every scheduled read returns the ideal count. -/
theorem readAll_onLine (steady : Steady hz nsPerSecond (2 ^ 32) Boundary)
    (tracks : Tracks hz core clock) (cycle : core.countReadCycle = previous.cycles)
    (onLine : OnLine hz nsPerSecond (2 ^ 32) Boundary origin start clock)
    (anchored : clock.anchor ≤ previous.now)
    (lag : hz ≤ nsPerSecond ∨ previous.now ≤ clock.anchor + 1)
    (schedule : Schedule hz origin previous reads) :
    ∀ read ∈ readAll core reads, read.2 =
      BitVec.ofNat 32 (start + ticks hz nsPerSecond (read.1.now - origin)) := by
  induction reads generalizing core clock previous with
  | nil =>
    intro read member
    simp [readAll] at member
  | cons moment rest inductionHypothesis =>
    obtain ⟨later, newCycle, inRange, fits, restSchedule⟩ := schedule
    have after := onLine.after
    have span : moment.now - clock.anchor < 2 ^ 64 := by omega
    have fresh : moment.cycles ≠ core.countReadCycle := by
      rw [cycle]
      exact (BitVec.ne_of_lt newCycle).symm
    have reach : hz ≤ nsPerSecond ∨ moment.now - clock.anchor ≤ moment.now - previous.now + 1 := by
      rcases lag with slow | close
      · exact .inl slow
      · exact .inr (by omega)
    obtain ⟨tracks', cycle', value⟩ :=
      tracks.readCount fresh span (ticks_fit reach span fits)
    obtain ⟨onLine', ideal⟩ := steady.read onLine (anchored.trans later)
    have consumedLe := consumed_ticks_le hz nsPerSecond (moment.now - clock.anchor)
    have anchored' : (clock.read hz nsPerSecond moment.now).anchor ≤ moment.now := by
      simp only [Clock.read]
      omega
    have lag' : hz ≤ nsPerSecond ∨
        moment.now ≤ (clock.read hz nsPerSecond moment.now).anchor + 1 := by
      rcases steady.lag with slow | close
      · exact .inl slow
      · have near := close (moment.now - clock.anchor)
        simp only [Clock.read]
        exact .inr (by omega)
    intro read member
    rcases List.mem_cons.mp member with first | member
    · subst first
      rw [value]
      apply eq_of_toNat_eq
      exact ideal
    · exact inductionHypothesis tracks' cycle' onLine' anchored' lag' restSchedule read member

theorem driftFree_of_steady (steady : Steady hz nsPerSecond (2 ^ 32) Boundary) :
    DriftFree hz := by
  intro core reads rate running schedule read member
  have tracks : Tracks hz core ⟨core.countAnchor, core.cp0Count.toNat⟩ :=
    ⟨rate, running, rfl, by simp⟩
  have exact := readAll_onLine steady tracks rfl steady.onLine_init le_rfl
    (.inr (Nat.le_succ _)) schedule read member
  left
  rw [exact, ofNat_add, ofNat_toNat, idealCount, rate]
  rfl

/-! ### Every other rate drifts -/

/-- A read plan from a fresh anchor at 0: when each read happens, and where it
leaves the anchor and the count. -/
structure ReadPlan (hz : Nat) (time anchor count : Nat → Nat) : Prop where
  time_zero : time 0 = 0
  anchor_zero : anchor 0 = 0
  count_zero : count 0 = 0
  later : ∀ k, time k ≤ time (k + 1)
  anchor_step : ∀ k, anchor (k + 1) = anchor k +
    consumed hz nsPerSecond (ticks hz nsPerSecond (time (k + 1) - anchor k))
  count_step : ∀ k, count (k + 1) =
    count k + ticks hz nsPerSecond (time (k + 1) - anchor k)
  fits : ∀ k, (time (k + 1) - time k + 1) * hz < 2 ^ 64 * nsPerSecond
  reach : ∀ k, time (k + 1) - anchor k ≤ time (k + 1) - time k + 1

variable {time anchor count : Nat → Nat}

/-- The `k`-th read of a plan, in cycle `k + 1`. -/
def planned (time : Nat → Nat) (k : Nat) : Moment := ⟨time (k + 1), BitVec.ofNat 64 (k + 1)⟩

section
variable (plan : ReadPlan hz time anchor count)
include plan

theorem ReadPlan.time_mono (le : j ≤ k) : time j ≤ time k :=
  monotone_nat_of_le_succ plan.later le

theorem ReadPlan.schedule (few : limit < 2 ^ 64) (short : time limit < 2 ^ 64) :
    ∀ length first, first + length ≤ limit →
      Schedule hz 0 ⟨time first, BitVec.ofNat 64 first⟩
        ((List.range' first length).map (planned time)) := by
  intro length
  induction length with
  | zero =>
    intro first _
    exact trivial
  | succ length inductionHypothesis =>
    intro first inside
    have before : time (first + 1) ≤ time limit := plan.time_mono (by omega)
    refine ⟨plan.later first, ?_, ?_, plan.fits first, inductionHypothesis (first + 1) (by omega)⟩
    · simp only [planned, lt_def, toNat_ofNat]
      omega
    · simp only [planned]
      omega

theorem ReadPlan.read {limit : Nat} (short : time limit < 2 ^ 64) :
    ∀ length first core, first + length ≤ limit → Tracks hz core ⟨anchor first, count first⟩ →
      core.countReadCycle = BitVec.ofNat 64 first →
      ∀ k, first ≤ k → k < first + length →
        (planned time k, BitVec.ofNat 32 (count (k + 1))) ∈
          readAll core ((List.range' first length).map (planned time)) := by
  intro length
  induction length with
  | zero =>
    omega
  | succ length inductionHypothesis =>
    intro first core inside tracks cycle k low high
    have before : time (first + 1) ≤ time limit := plan.time_mono (by omega)
    have fresh : (planned time first).cycles ≠ core.countReadCycle := by
      rw [cycle]
      intro same
      have values := congrArg BitVec.toNat same
      simp only [planned, toNat_ofNat] at values
      omega
    have span : (planned time first).now - anchor first < 2 ^ 64 := by
      simp only [planned]
      omega
    obtain ⟨tracks', cycle', value⟩ := tracks.readCount fresh span
      (ticks_fit (.inr (plan.reach first)) span (plan.fits first))
    have next : Clock.read hz nsPerSecond ⟨anchor first, count first⟩
        (planned time first).now = ⟨anchor (first + 1), count (first + 1)⟩ := by
      simp only [Clock.read, planned, plan.anchor_step first, plan.count_step first]
    rw [next] at tracks' value
    rcases Nat.eq_or_lt_of_le low with same | above
    · subst same
      rw [← value]
      exact List.mem_cons_self
    · exact List.mem_cons_of_mem _
        (inductionHypothesis (first + 1) _ (by omega) tracks' cycle' k above (by omega))

end

/-- A drift-free rate keeps every read of a plan within one tick. -/
theorem DriftFree.planned (free : DriftFree hz) (plan : ReadPlan hz time anchor count)
    (few : k + 1 < 2 ^ 64) (short : time (k + 1) < 2 ^ 64) :
    WithinOneTick (BitVec.ofNat 32 (time (k + 1) * hz / nsPerSecond))
      (BitVec.ofNat 32 (count (k + 1))) := by
  let fresh : CoreTimer := { new 0 with countHz := hz }
  have tracks : Tracks hz fresh ⟨anchor 0, count 0⟩ :=
    ⟨rfl, rfl, plan.anchor_zero.symm, by rw [plan.count_zero]; rfl⟩
  have schedule := plan.schedule few short (k + 1) 0 (by omega)
  rw [plan.time_zero] at schedule
  have member := plan.read short (k + 1) 0 fresh (by omega) tracks rfl k (by omega) (by omega)
  have close := free fresh _ rfl rfl schedule _ member
  simpa [idealCount, fresh, new, Timer.planned] using close

theorem withinOneTick_ofNat :
    WithinOneTick (BitVec.ofNat 32 ideal) (BitVec.ofNat 32 value) ↔
      value % 2 ^ 32 = ideal % 2 ^ 32 ∨ value % 2 ^ 32 = (ideal + 1) % 2 ^ 32 ∨
        (value + 1) % 2 ^ 32 = ideal % 2 ^ 32 := by
  have same : ∀ a b : Nat, BitVec.ofNat 32 a = BitVec.ofNat 32 b ↔ a % 2 ^ 32 = b % 2 ^ 32 := by
    intro a b
    rw [← toNat_inj, toNat_ofNat, toNat_ofNat]
  rw [← same, ← same, ← same, ofNat_add, ofNat_add]
  rfl

/-- Below one tick per nanosecond: read as soon as one tick has passed. Each
read gives up the same fraction of a nanosecond. -/
theorem slowPlan (positive : 0 < hz) (slow : hz < nsPerSecond) (inexact : 0 < nsPerSecond % hz) :
    ReadPlan hz (fun k => if k = 0 then 0 else k * (nsPerSecond / hz) + 1)
      (fun k => k * (nsPerSecond / hz)) (fun k => k) := by
  have whole := Nat.div_add_mod nsPerSecond hz
  have below := Nat.mod_lt nsPerSecond positive
  rw [Nat.mul_comm] at whole
  generalize nsPerSecond / hz = period at whole ⊢
  have span : ∀ k, (k + 1) * period + 1 - k * period = period + 1 := by
    intro k
    rw [Nat.succ_mul]
    omega
  have one : ticks hz nsPerSecond (period + 1) = 1 := by
    unfold ticks
    rw [Nat.succ_mul]
    exact Nat.div_eq_of_lt_le (by omega) (by omega)
  have gap : ∀ k, (k + 1) * period + 1 - (if k = 0 then 0 else k * period + 1) ≤ period + 1 := by
    intro k
    rw [Nat.succ_mul]
    split <;> rename_i zero
    · simp [zero]
    · omega
  refine ⟨rfl, by simp, rfl, ?_, ?_, ?_, ?_, ?_⟩
  · intro k
    simp only [Nat.succ_ne_zero, if_false, Nat.succ_mul]
    split <;> omega
  · intro k
    simp only [Nat.succ_ne_zero, if_false, span, one, consumed, Nat.one_mul]
    rw [Nat.succ_mul, show nsPerSecond / hz = period from
      Nat.div_eq_of_lt_le (by omega) (by rw [Nat.succ_mul]; omega)]
  · intro k
    simp only [Nat.succ_ne_zero, if_false, span, one]
  · intro k
    calc ((k + 1) * period + 1 - (if k = 0 then 0 else k * period + 1) + 1) * hz
        ≤ (period + 1 + 1) * hz := Nat.mul_le_mul_right hz (Nat.succ_le_succ (gap k))
      _ = period * hz + 2 * hz := by ring
      _ < 2 ^ 64 * nsPerSecond := by unfold nsPerSecond at *; omega
  · intro k
    simp only [Nat.succ_ne_zero, if_false, span]
    rw [Nat.succ_mul]
    split <;> rename_i zero
    · simp [zero]
    · omega

theorem not_driftFree_slow (positive : 0 < hz) (slow : hz < nsPerSecond)
    (inexact : 0 < nsPerSecond % hz) : ¬ DriftFree hz := by
  intro free
  have plan := slowPlan positive slow inexact
  have whole := Nat.div_add_mod nsPerSecond hz
  have periodSmall : nsPerSecond / hz ≤ nsPerSecond := Nat.div_le_self _ _
  have lastRead := Nat.div_add_mod (hz + nsPerSecond) (nsPerSecond % hz)
  have lastBelow := Nat.mod_lt (hz + nsPerSecond) inexact
  have steps : (hz + nsPerSecond) / (nsPerSecond % hz) ≤ hz + nsPerSecond := Nat.div_le_self _ _
  -- the read count at which the lost time first exceeds one tick and a second
  generalize (hz + nsPerSecond) / (nsPerSecond % hz) = k at lastRead steps
  generalize nsPerSecond % hz = lost at *
  generalize nsPerSecond / hz = period at *
  have product : (k + 1) * period ≤ 2 * nsPerSecond * nsPerSecond :=
    Nat.mul_le_mul (by omega) periodSmall
  have short : (k + 1) * period + 1 < 2 ^ 64 := by
    unfold nsPerSecond at product
    omega
  have close := free.planned plan (k := k) (by unfold nsPerSecond at *; omega)
    (by simpa using short)
  have scaled : (k + 1) * period * hz + (k + 1) * lost = (k + 1) * nsPerSecond := by
    rw [← whole]
    ring
  have lostTotal : (k + 1) * lost = lost * k + lost := by ring
  have ideal : ((k + 1) * period + 1) * hz / nsPerSecond = k - 1 := by
    have early : (k - 1) * nsPerSecond + 2 * nsPerSecond = (k + 1) * nsPerSecond := by
      obtain ⟨less, rfl⟩ : ∃ less, k = less + 1 := by
        refine ⟨k - 1, ?_⟩
        have : k ≠ 0 := by
          rintro rfl
          omega
        omega
      rw [Nat.add_sub_cancel]
      ring
    have expand : ((k + 1) * period + 1) * hz = (k + 1) * period * hz + hz := by ring
    have late : (k - 1 + 1) * nsPerSecond = (k - 1) * nsPerSecond + nsPerSecond :=
      Nat.succ_mul _ _
    exact Nat.div_eq_of_lt_le (by omega) (by omega)
  simp only [Nat.succ_ne_zero, if_false] at close
  rw [withinOneTick_ofNat] at close
  have twice : 1 ≤ k := by
    rcases Nat.eq_zero_or_pos k with zero | positive
    · subst zero
      omega
    · exact positive
  omega

/-- Above one tick per nanosecond: a read one nanosecond after the anchor takes
whole ticks and gives none of that nanosecond up, so reading again at the same
time counts them again. -/
theorem repeatPlan (rate : hz < 2 ^ 64) (inexact : 0 < hz % nsPerSecond) :
    ReadPlan hz (fun k => min k 1) (fun _ => 0) (fun k => k * (hz / nsPerSecond)) := by
  have whole := Nat.div_add_mod hz nsPerSecond
  have one : ticks hz nsPerSecond 1 = hz / nsPerSecond := by
    simp [ticks]
  have nothing : consumed hz nsPerSecond (hz / nsPerSecond) = 0 := by
    apply Nat.div_eq_of_lt
    rw [Nat.mul_comm]
    omega
  have first : ∀ k, min (k + 1) 1 - 0 = 1 := by
    omega
  refine ⟨rfl, rfl, by simp, ?_, ?_, ?_, ?_, ?_⟩
  · omega
  · intro k
    rw [first, one, nothing]
  · intro k
    rw [first, one, Nat.succ_mul]
  · intro k
    have gap : min (k + 1) 1 - min k 1 + 1 ≤ 2 := by omega
    calc (min (k + 1) 1 - min k 1 + 1) * hz ≤ 2 * hz := Nat.mul_le_mul_right hz gap
      _ < 2 ^ 64 * nsPerSecond := by unfold nsPerSecond; omega
  · omega

theorem not_driftFree_fast (rate : hz < 2 ^ 64)
    (inexact : 0 < hz % nsPerSecond) (visible : hz / nsPerSecond % 2 ^ 32 ≠ 0) :
    ¬ DriftFree hz := by
  intro free
  have plan := repeatPlan rate inexact
  have second := free.planned plan (k := 1) (by decide) (by decide)
  have third := free.planned plan (k := 2) (by decide) (by decide)
  simp only [withinOneTick_ofNat] at second third
  rw [show min (1 + 1) 1 * hz = hz by simp] at second
  rw [show min (2 + 1) 1 * hz = hz by simp] at third
  omega

section
variable (fast : nsPerSecond < hz) (rate : hz < 2 ^ 64) (inexact : 0 < hz % nsPerSecond)
  (notHalf : 2 * (hz % nsPerSecond) ≠ nsPerSecond)
include fast rate inexact notHalf

/-- The same at rates whose whole ticks per nanosecond vanish modulo 2^32:
read every nanosecond. From the second read on each read spans two. -/
theorem everyNanosecondPlan :
    ReadPlan hz (fun k => k) (fun k => k - 1)
      (fun k => if k = 0 then 0 else hz / nsPerSecond + (k - 1) * (2 * hz / nsPerSecond)) := by
  have first := repeatPlan rate inexact
  have one : ticks hz nsPerSecond 1 = hz / nsPerSecond := by
    simp [ticks]
  have nothing : consumed hz nsPerSecond (hz / nsPerSecond) = 0 := by
    have step := first.anchor_step 0
    simpa [one] using step.symm
  have nothing' : consumed hz nsPerSecond (2 * hz / nsPerSecond) = 1 := by
    unfold consumed
    have whole2 := Nat.div_add_mod (2 * hz) nsPerSecond
    have small2 := Nat.mod_lt (2 * hz) (by decide : 0 < nsPerSecond)
    rw [Nat.mul_comm]
    have strict : 0 < 2 * hz % nsPerSecond := by
      unfold nsPerSecond at *
      omega
    exact Nat.div_eq_of_lt_le (by omega) (by omega)
  have two : ticks hz nsPerSecond 2 = 2 * hz / nsPerSecond := rfl
  refine ⟨rfl, rfl, rfl, fun k => Nat.le_succ k, ?_, ?_, ?_, ?_⟩
  · intro k
    rcases Nat.eq_zero_or_pos k with zero | positive
    · subst zero
      simp [one, nothing]
    · rw [show k + 1 - (k - 1) = 2 by omega, two]
      omega
  · intro k
    rcases Nat.eq_zero_or_pos k with zero | positive
    · subst zero
      simp [one]
    · rw [show k + 1 - (k - 1) = 2 by omega, two]
      obtain ⟨less, rfl⟩ : ∃ less, k = less + 1 := ⟨k - 1, by omega⟩
      simp only [Nat.succ_ne_zero, if_false, Nat.add_sub_cancel]
      ring
  · intro k
    rw [Nat.add_sub_cancel_left]
    unfold nsPerSecond
    omega
  · omega

theorem not_driftFree_wrapping (hidden : hz / nsPerSecond % 2 ^ 32 = 0) : ¬ DriftFree hz := by
  intro free
  have plan := everyNanosecondPlan fast rate inexact notHalf
  have whole := Nat.div_add_mod hz nsPerSecond
  have small := Nat.mod_lt hz (by decide : 0 < nsPerSecond)
  obtain ⟨factor, wraps⟩ := Nat.dvd_of_mod_eq_zero hidden
  rw [wraps] at whole plan
  generalize hz % nsPerSecond = part at *
  have ideal : ∀ k, (k + 1) * hz / nsPerSecond =
      2 ^ 32 * ((k + 1) * factor) + (k + 1) * part / nsPerSecond := by
    intro k
    have expand : (k + 1) * hz = (k + 1) * part + nsPerSecond * (2 ^ 32 * ((k + 1) * factor)) := by
      rw [← whole]
      ring
    rw [expand, Nat.add_mul_div_left _ _ (by decide)]
    omega
  have double : 2 * hz / nsPerSecond = 2 ^ 32 * (2 * factor) + 2 * part / nsPerSecond := ideal 1
  by_cases low : 2 * part < nsPerSecond
  · -- two nanoseconds hold no visible tick: Count stands still
    rw [Nat.div_eq_of_lt low, Nat.add_zero] at double
    have reads := Nat.div_add_mod (2 * nsPerSecond) part
    have readsBelow := Nat.mod_lt (2 * nsPerSecond) inexact
    have few : 2 * nsPerSecond / part ≤ 2 * nsPerSecond := Nat.div_le_self _ _
    generalize 2 * nsPerSecond / part = k at reads few
    have behind : (k + 1) * part / nsPerSecond = 2 := by
      have total : (k + 1) * part = part * k + part := by ring
      exact Nat.div_eq_of_lt_le (by omega) (by omega)
    have close := free.planned plan (k := k) (by unfold nsPerSecond at few; omega)
      (by unfold nsPerSecond at few; omega)
    rw [withinOneTick_ofNat, ideal k, behind, if_neg (by omega), double,
      Nat.add_sub_cancel] at close
    have counted : 2 ^ 32 * factor + k * (2 ^ 32 * (2 * factor)) =
        2 ^ 32 * (factor + k * (2 * factor)) := by ring
    omega
  · -- two nanoseconds hold one visible tick: Count runs at the full nanosecond rate
    have tick : 2 * part / nsPerSecond = 1 := Nat.div_eq_of_lt_le (by omega) (by omega)
    rw [tick] at double
    obtain ⟨rest, restEq⟩ : ∃ rest, nsPerSecond = part + rest := ⟨nsPerSecond - part, by omega⟩
    have reads := Nat.div_add_mod (2 * nsPerSecond) rest
    have readsBelow := Nat.mod_lt (2 * nsPerSecond) (by omega : 0 < rest)
    have few : 2 * nsPerSecond / rest ≤ 2 * nsPerSecond := Nat.div_le_self _ _
    have twice : 2 ≤ 2 * nsPerSecond / rest :=
      (Nat.le_div_iff_mul_le (by omega)).mpr (by omega)
    generalize 2 * nsPerSecond / rest = k at reads few twice
    have behind : (k + 1) * part / nsPerSecond = k - 2 := by
      obtain ⟨less, rfl⟩ := Nat.exists_eq_add_of_le' twice
      have split : (less + 2 + 1) * part + (rest * (less + 2) + rest) =
          less * nsPerSecond + 3 * nsPerSecond := by
        rw [restEq]
        ring
      have late : (less + 1) * nsPerSecond = _ := Nat.succ_mul less nsPerSecond
      rw [Nat.add_sub_cancel]
      exact Nat.div_eq_of_lt_le (by omega) (by omega)
    have close := free.planned plan (k := k) (by unfold nsPerSecond at few; omega)
      (by unfold nsPerSecond at few; omega)
    rw [withinOneTick_ofNat, ideal k, if_neg (by omega), double,
      Nat.add_sub_cancel] at close
    have counted : 2 ^ 32 * factor + k * (2 ^ 32 * (2 * factor) + 1) =
        2 ^ 32 * (factor + k * (2 * factor)) + k := by ring
    omega

end

/-! ### The exact condition -/

/-- Rates at which Count keeps up: a tick is a whole number of nanoseconds, a
nanosecond is a whole number of ticks, or a nanosecond is half a tick more than
a multiple of Count's range. -/
def ExactRate (hz : Nat) : Prop :=
  hz ∣ nsPerSecond ∨ nsPerSecond ∣ hz ∨
    2 * (hz % nsPerSecond) = nsPerSecond ∧ hz / nsPerSecond % 2 ^ 32 = 0
deriving Decidable

/-- Reads stay within one tick of the ideal count, whatever the schedule, at
exactly these rates. -/
theorem driftFree_iff (rate : hz < 2 ^ 64) : DriftFree hz ↔ ExactRate hz := by
  constructor
  · intro free
    by_contra inexact
    unfold ExactRate at inexact
    push Not at inexact
    obtain ⟨notDivides, notMultiple, notHalf⟩ := inexact
    have part : 0 < hz % nsPerSecond :=
      Nat.pos_of_ne_zero fun zero => notMultiple (Nat.dvd_of_mod_eq_zero zero)
    have positive : 0 < hz := Nat.pos_of_ne_zero fun zero => by simp [zero] at part
    rcases Nat.lt_trichotomy hz nsPerSecond with slow | same | fast
    · have lost : 0 < nsPerSecond % hz :=
        Nat.pos_of_ne_zero fun zero => notDivides (Nat.dvd_of_mod_eq_zero zero)
      exact not_driftFree_slow positive slow lost free
    · exact notDivides (by rw [same])
    · by_cases hidden : hz / nsPerSecond % 2 ^ 32 = 0
      · exact not_driftFree_wrapping fast rate part (fun half => notHalf half hidden) hidden free
      · exact not_driftFree_fast rate part hidden free
  · intro exact
    rcases exact with divides | multiple | ⟨half, hidden⟩
    · have positive : 0 < hz := Nat.pos_of_dvd_of_pos divides (by decide)
      exact driftFree_of_steady
        (steady_of_dvd positive (by decide) divides)
    · exact driftFree_of_steady (steady_of_den_dvd (by decide) multiple)
    rcases Nat.eq_zero_or_pos (hz / nsPerSecond) with zero | positive
    · have isHalf : hz = 500000000 := by
        unfold nsPerSecond at *
        omega
      subst isHalf
      exact driftFree_of_steady
        (steady_of_dvd (by decide) (by decide) (by decide))
    · have steady := steady_of_half 500000000 (by decide) positive
        (Nat.dvd_of_mod_eq_zero hidden)
      have rebuilt : hz / nsPerSecond * (2 * 500000000) + 500000000 = hz := by
        unfold nsPerSecond at *
        omega
      rw [rebuilt] at steady
      exact driftFree_of_steady steady

theorem driftFree_iff_at_default :
    defaultCountHz < 2 ^ 64 ∧ (DriftFree defaultCountHz ↔ ExactRate defaultCountHz) :=
  ⟨by decide, driftFree_iff (by decide)⟩

/-- At the default 33 MHz, a read every 30 ns: after 104 reads and 3121 ns Count
is 104, and 102 ticks have passed. -/
theorem default_rate_gains_two_ticks :
    let reads := (List.range 104).map fun k =>
      (⟨30 * (k + 1) + 1, BitVec.ofNat 64 (k + 1)⟩ : Moment)
    Schedule defaultCountHz 0 ⟨0, 0⟩ reads ∧
      (readAll (new 0) reads).getLast? = some (⟨3121, 104⟩, 104) ∧
      idealCount (new 0) 3121 = 102 := by
  decide +kernel

end Iris.Cpu.Timer
