import Mathlib.Data.Nat.ModEq
import Mathlib.Tactic.Linarith
import Mathlib.Tactic.Ring

/-!
Owns counters derived from a clock: `num` ticks pass in `den` time units, and a
read adds the whole ticks since an anchor and moves the anchor by the whole
time units these ticks took. Both divisions round down. It covers which rates
keep such a counter on the ideal line, however often it is read.
-/

namespace Iris.Library.RateClock

variable {num den modulus : Nat}

/-- Whole ticks in a span. -/
def ticks (num den span : Nat) : Nat := span * num / den

/-- Whole time units that `count` ticks take. -/
def consumed (num den count : Nat) : Nat := count * den / num

structure Clock where
  anchor : Nat
  count : Nat

def Clock.read (num den : Nat) (clock : Clock) (now : Nat) : Clock :=
  let gained := ticks num den (now - clock.anchor)
  ⟨clock.anchor + consumed num den gained, clock.count + gained⟩

theorem consumed_ticks_le (num den span : Nat) : consumed num den (ticks num den span) ≤ span := by
  unfold consumed ticks
  rcases Nat.eq_zero_or_pos num with isZero | positive
  · simp [isZero]
  · apply Nat.div_le_of_le_mul
    rw [Nat.mul_comm num]
    exact Nat.div_mul_le_self _ _

theorem ticks_add_of_dvd (whole : den ∣ left * num) (right : Nat) :
    ticks num den left + ticks num den right = ticks num den (left + right) := by
  unfold ticks
  rw [Nat.add_mul, Nat.add_div_of_dvd_right whole]

/-! ### Steady rates -/

/-- Anchors on a boundary stay on one, and from a boundary the counter agrees
with the ideal line modulo `modulus`. -/
structure Steady (num den modulus : Nat) (Boundary : Nat → Prop) : Prop where
  zero : Boundary 0
  step : ∀ {offset} span, Boundary offset →
    Boundary (offset + consumed num den (ticks num den span))
  value : ∀ {offset} span, Boundary offset →
    ticks num den offset + ticks num den span ≡ ticks num den (offset + span) [MOD modulus]
  keeps : ∀ {offset} span, Boundary offset →
    ticks num den offset + ticks num den span ≡
      ticks num den (offset + consumed num den (ticks num den span)) [MOD modulus]
  /-- A fast counter's anchor stays within one time unit of the last read. -/
  lag : num ≤ den ∨ ∀ span, span ≤ consumed num den (ticks num den span) + 1

/-- Ticks that each take a whole number of time units. -/
theorem steady_of_dvd (positive : 0 < num) (denPositive : 0 < den) (divides : num ∣ den) :
    Steady num den modulus fun offset => den / num ∣ offset := by
  obtain ⟨period, rfl⟩ := divides
  have periodPositive : 0 < period := Nat.pos_of_mul_pos_left denPositive
  have quotient : num * period / num = period := Nat.mul_div_cancel_left period positive
  have whole : ∀ {offset}, num * period / num ∣ offset → num * period ∣ offset * num := by
    intro offset aligned
    rw [quotient] at aligned
    rw [Nat.mul_comm offset]
    exact Nat.mul_dvd_mul_left num aligned
  have exact : ∀ count, consumed num (num * period) count = count * period := by
    intro count
    unfold consumed
    rw [← Nat.mul_assoc, Nat.mul_comm count num, Nat.mul_assoc, Nat.mul_div_cancel_left _ positive]
  have back : ∀ count, ticks num (num * period) (count * period) = count := by
    intro count
    unfold ticks
    rw [Nat.mul_assoc, Nat.mul_comm period num]
    exact Nat.mul_div_cancel count denPositive
  refine ⟨Nat.dvd_zero _, ?_, ?_, ?_, .inl (Nat.le_mul_of_pos_right num periodPositive)⟩
  · intro offset span aligned
    rw [exact, quotient] at *
    exact Nat.dvd_add aligned (Nat.dvd_mul_left _ _)
  · intro offset span aligned
    rw [ticks_add_of_dvd (whole aligned)]
  · intro offset span aligned
    rw [exact, ← ticks_add_of_dvd (whole aligned), back]

theorem steady_of_den_dvd (denPositive : 0 < den) (divides : den ∣ num) :
    Steady num den modulus fun _ => True := by
  obtain ⟨factor, rfl⟩ := divides
  have whole : ∀ offset, den ∣ offset * (den * factor) := fun offset =>
    Dvd.dvd.mul_left (Nat.dvd_mul_right den factor) offset
  have exact : 0 < factor → ∀ span,
      consumed (den * factor) den (ticks (den * factor) den span) = span := by
    intro positive span
    unfold consumed ticks
    rw [Nat.div_mul_cancel (whole span)]
    exact Nat.mul_div_cancel span (Nat.mul_pos denPositive positive)
  refine ⟨trivial, fun _ _ => trivial, ?_, ?_, ?_⟩
  · intro offset span _
    rw [ticks_add_of_dvd (whole offset)]
  · intro offset span _
    rcases Nat.eq_zero_or_pos factor with isZero | positive
    · simp [ticks, isZero, Nat.ModEq.refl]
    · rw [exact positive, ticks_add_of_dvd (whole offset)]
  · rcases Nat.eq_zero_or_pos factor with isZero | positive
    · exact .inl (by simp [isZero])
    · exact .inr fun span => by rw [exact positive]; omega

/-- Half a tick more than a multiple of the modulus in every time unit. -/
theorem steady_of_half (half : Nat) (halfPositive : 0 < half) (factorPositive : 0 < factor)
    (wraps : modulus ∣ factor) :
    Steady (factor * (2 * half) + half) (2 * half) modulus fun offset => 2 ∣ offset := by
  have count : ∀ span, ticks (factor * (2 * half) + half) (2 * half) span =
      span * factor + span / 2 := by
    intro span
    unfold ticks
    have split : span * (factor * (2 * half) + half) =
        span * factor * (2 * half) + span * half := by ring
    rw [split, Nat.add_comm, Nat.add_mul_div_right _ _ (by omega), Nat.mul_comm 2 half,
      ← Nat.div_div_eq_div_mul, Nat.mul_div_cancel _ halfPositive]
    omega
  have visible : ∀ span, ticks (factor * (2 * half) + half) (2 * half) span ≡ span / 2
      [MOD modulus] := by
    intro span
    rw [count]
    have vanish : span * factor ≡ 0 [MOD modulus] :=
      (Nat.modEq_zero_iff_dvd).mpr (Dvd.dvd.mul_left wraps span)
    simpa using vanish.add_right (span / 2)
  have exact : ∀ span, consumed (factor * (2 * half) + half) (2 * half)
      (ticks (factor * (2 * half) + half) (2 * half) span) = span / 2 * 2 := by
    intro span
    rw [count]
    unfold consumed
    -- an odd span leaves `factor * (2 * half)` of a full divisor behind
    obtain ⟨pairs, even | odd⟩ := Nat.even_or_odd' span
    · have halved : span / 2 = pairs := by omega
      rw [halved]
      have product : (span * factor + pairs) * (2 * half) =
          pairs * 2 * (factor * (2 * half) + half) := by
        rw [even]
        ring
      rw [product, Nat.mul_div_cancel _ (by positivity)]
    · have halved : span / 2 = pairs := by omega
      rw [halved]
      have product : (span * factor + pairs) * (2 * half) =
          factor * (2 * half) + pairs * 2 * (factor * (2 * half) + half) := by
        rw [odd]
        ring
      rw [product, Nat.add_mul_div_right _ _ (by positivity), Nat.div_eq_of_lt (by omega)]
      omega
  refine ⟨by simp, ?_, ?_, ?_, .inr fun span => by rw [exact]; omega⟩
  · intro offset span aligned
    rw [exact]
    exact Nat.dvd_add aligned (Nat.dvd_mul_left _ _)
  · intro offset span aligned
    have sum := (visible offset).add (visible span)
    rw [show offset / 2 + span / 2 = (offset + span) / 2 by omega] at sum
    exact sum.trans (visible (offset + span)).symm
  · intro offset span aligned
    rw [exact]
    have sum := (visible offset).add (visible span)
    rw [show offset / 2 + span / 2 = (offset + span / 2 * 2) / 2 by omega] at sum
    exact sum.trans (visible (offset + span / 2 * 2)).symm

/-! ### Reads along a steady rate -/

/-- The clock sits on a boundary and agrees with the ideal line there. -/
structure OnLine (num den modulus : Nat) (Boundary : Nat → Prop) (origin start : Nat)
    (clock : Clock) : Prop where
  after : origin ≤ clock.anchor
  boundary : Boundary (clock.anchor - origin)
  count : clock.count ≡ start + ticks num den (clock.anchor - origin) [MOD modulus]

variable {Boundary : Nat → Prop} {origin start now : Nat} {clock : Clock}

theorem Steady.onLine_init (steady : Steady num den modulus Boundary) :
    OnLine num den modulus Boundary origin start ⟨origin, start⟩ where
  after := le_rfl
  boundary := by rw [Nat.sub_self]; exact steady.zero
  count := by simp [ticks, Nat.ModEq.refl]

/-- A read keeps the clock on the line and returns the ideal count. -/
theorem Steady.read (steady : Steady num den modulus Boundary)
    (onLine : OnLine num den modulus Boundary origin start clock) (later : clock.anchor ≤ now) :
    OnLine num den modulus Boundary origin start (clock.read num den now) ∧
      (clock.read num den now).count ≡ start + ticks num den (now - origin) [MOD modulus] := by
  obtain ⟨after, boundary, count⟩ := onLine
  have gained : clock.count + ticks num den (now - clock.anchor) ≡
      start + (ticks num den (clock.anchor - origin) + ticks num den (now - clock.anchor))
      [MOD modulus] := by
    rw [← Nat.add_assoc]
    exact count.add_right _
  refine ⟨⟨Nat.le_add_right_of_le after, ?_, ?_⟩, ?_⟩
  · have next := steady.step (now - clock.anchor) boundary
    rwa [← Nat.sub_add_comm after] at next
  · have next := (steady.keeps (now - clock.anchor) boundary).add_left start
    rw [← Nat.sub_add_comm after] at next
    exact gained.trans next
  · have next := (steady.value (now - clock.anchor) boundary).add_left start
    rw [show clock.anchor - origin + (now - clock.anchor) = now - origin by omega] at next
    exact gained.trans next

end Iris.Library.RateClock
