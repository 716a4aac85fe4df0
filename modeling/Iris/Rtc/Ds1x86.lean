import Iris.Library.Checked
import Iris.Library.Run

/-!
Owns the DS1x86 clock chip: its registers, the conversions between them and centiseconds since
1970, reads, writes and time updates, with every step that can index out of range or overflow
a fault, and when none of them faults.
-/

namespace Iris.Rtc

open Library BitVec Option Checked

abbrev Byte := BitVec 8

abbrev Regs (size : Nat) := Fin size → Byte

section
variable {size : Nat}

def get (regs : Regs size) (offset : Nat) : Option Byte :=
  if inside : offset < size then some (regs ⟨offset, inside⟩) else none

def put (regs : Regs size) (offset : Nat) (val : Byte) : Option (Regs size) :=
  if inside : offset < size then some (Function.update regs ⟨offset, inside⟩ val) else none

end

/-! ### Conversions -/

def toBcd (val : Byte) : Byte := ((val / 10) <<< 4) ||| (val % 10)

def fromBcd (val : Byte) : Option Nat := do
  let tens ← mul 8 (val >>> 4).toNat 10
  add 8 tens (val &&& 0x0F).toNat

def isLeap (year : Nat) : Bool := (year % 4 = 0 ∧ year % 100 ≠ 0) ∨ year % 400 = 0

def daysInYear (year : Nat) : Nat := if isLeap year then 366 else 365

def daysInMonth (year : Nat) : List Nat :=
  [31, if isLeap year then 29 else 28, 31, 30, 31, 30, 31, 31, 30, 31, 30, 31]

theorem daysInYear_pos (year : Nat) : 0 < daysInYear year := by
  rw [daysInYear]
  split <;> decide

def takeYears (year remaining : Nat) : Option (Nat × Nat) :=
  if remaining < daysInYear year then some (year, remaining)
  else
    match add 64 year 1 with
    | none => none
    | some next => takeYears next (remaining - daysInYear year)
termination_by remaining
decreasing_by
  have := daysInYear_pos year
  omega

def takeMonths : List Nat → Nat → Nat → Option (Nat × Nat)
  | [], month, day => some (month, day)
  | dim :: rest, month, day =>
    if day ≤ dim then some (month, day)
    else (add 8 month 1).bind fun month => takeMonths rest month (day - dim)

section
variable {size : Nat}

def centisecondsToRegs (total : Nat) (regs : Regs size) : Option (Regs size) := do
  let totalSeconds := total / 100
  let totalMinutes := totalSeconds / 60
  let totalHours := totalMinutes / 60
  let totalDays := totalHours / 24
  let weekday ← add 64 totalDays 4
  let weekday ← add 64 (weekday % 7) 1
  let (year, remaining) ← takeYears 1970 totalDays
  let dayOfYear ← add 64 remaining 1
  let (month, dayOfMonth) ← takeMonths (daysInMonth year) 1 dayOfYear
  let regs ← put regs 0x00 (toBcd (.ofNat 8 (total % 100)))
  let regs ← put regs 0x01 (toBcd (.ofNat 8 (totalSeconds % 60)))
  let regs ← put regs 0x02 (toBcd (.ofNat 8 (totalMinutes % 60)))
  let regs ← put regs 0x04 (toBcd (.ofNat 8 (totalHours % 24)))
  let regs ← put regs 0x06 (.ofNat 8 weekday)
  let regs ← put regs 0x08 (toBcd (.ofNat 8 dayOfMonth))
  let regs ← put regs 0x09 (toBcd (.ofNat 8 month))
  let years ← sub year 1940
  put regs 0x0A (toBcd (.ofNat 8 (years % 100)))

/-- The decoded fields as centiseconds since 1970. -/
def toCentiseconds (year month day hours minutes seconds centiseconds : Nat) : Option Nat := do
  let days ← (List.range' 1970 (year - 1970)).foldlM
    (fun days y => add 64 days (daysInYear y)) 0
  let months ← sub month 1
  let days ← sumFirst 64 (daysInMonth year) months days
  let before ← sub day 1
  let days ← add 64 days before
  let total ← mul 64 days 24
  let total ← add 64 total hours
  let total ← mul 64 total 60
  let total ← add 64 total minutes
  let total ← mul 64 total 60
  let total ← mul 64 total 100
  let hundreds ← mul 64 seconds 100
  let total ← add 64 total hundreds
  add 64 total centiseconds

def regsToCentiseconds (regs : Regs size) : Option Nat := do
  let centiseconds ← (get regs 0x00).bind fromBcd
  let seconds ← (get regs 0x01).bind fromBcd
  let minutes ← (get regs 0x02).bind fromBcd
  let hours ← (get regs 0x04).bind fromBcd
  let day ← (get regs 0x08).bind fromBcd
  let month ← (get regs 0x09).bind fromBcd
  let year ← (get regs 0x0A).bind fromBcd
  let year ← add 64 year 1940
  toCentiseconds year month day hours minutes seconds centiseconds

end

/-! ### The chip -/

/-- `timeBase` is when the time was last set, in nanoseconds of the host's clock. -/
structure Ds1x86 (size : Nat) where
  regs : Regs size
  baseCentiseconds : BitVec 64
  timeBase : Nat

def cmdRegOffset : Nat := 0xB

def teBit : Byte := 0x80

inductive Op
  | read (addr now : Nat)
  | write (addr : Nat) (val : Byte) (now : Nat)
  /-- The NVRAM is saved to its file, with the time brought up to date first. -/
  | save (now : Nat)

namespace Ds1x86
variable {size : Nat} (clock : Ds1x86 size)

def updateTime (now : Nat) : Option (Ds1x86 size) := do
  let elapsed := now - clock.timeBase
  let seconds ← mul 64 (elapsed / 1000000000) 100
  let elapsedCentiseconds ← add 64 seconds (elapsed % 1000000000 / 10000000)
  let current ← add 64 clock.baseCentiseconds.toNat elapsedCentiseconds
  let regs ← centisecondsToRegs current clock.regs
  some { clock with regs }

/-- The time is brought up to date if updates are enabled. -/
def updateIfEnabled (now : Nat) : Option (Ds1x86 size) := do
  let cmd ← get clock.regs cmdRegOffset
  if cmd &&& teBit ≠ 0 then clock.updateTime now else some clock

/-- A read past the chip is a bus error and changes nothing. -/
def read (addr now : Nat) : Option (Option Byte × Ds1x86 size) :=
  if size ≤ addr then some (none, clock)
  else do
    let cmd ← get clock.regs cmdRegOffset
    let clock ← if cmd &&& teBit ≠ 0 ∧ addr < 14 then clock.updateTime now else some clock
    let val ← get clock.regs addr
    some (some val, clock)

def write (addr : Nat) (val : Byte) (now : Nat) : Option (Ds1x86 size) :=
  if size ≤ addr then some clock
  else do
    let oldCmd ← get clock.regs cmdRegOffset
    let regs ← put clock.regs addr val
    let clock := { clock with regs }
    if addr ≤ 0x0A then
      let base ← regsToCentiseconds regs
      some { clock with baseCentiseconds := .ofNat 64 base, timeBase := now }
    else if addr = cmdRegOffset ∧ (oldCmd ^^^ val) &&& teBit ≠ 0 ∧ val &&& teBit = 0 then
      clock.updateTime now
    else some clock

def step : Op → Option (Ds1x86 size)
  | .read addr now => (clock.read addr now).map Prod.snd
  | .write addr val now => clock.write addr val now
  | .save now => clock.updateIfEnabled now

end Ds1x86

/-! ### When the conversions fault -/

/-- The number two digits stand for, valid or not. -/
def bcd (val : Byte) : Nat := (val >>> 4).toNat * 10 + (val &&& 0x0F).toNat

theorem bcd_le (val : Byte) : bcd val ≤ 165 := by
  have high : (val >>> 4).toNat ≤ 15 := by
    rw [toNat_ushiftRight]
    omega
  have low : (val &&& 0x0F).toNat ≤ 15 := by
    exact Nat.and_le_right
  rw [bcd]
  omega

theorem fromBcd_eq (val : Byte) : fromBcd val = some (bcd val) := by
  have small := bcd_le val
  rw [bcd] at small
  rw [fromBcd, mul_of_lt (by omega)]
  exact add_of_lt (by omega)

theorem daysInYear_le (year : Nat) : daysInYear year ≤ 366 := by
  rw [daysInYear]
  split <;> decide

theorem daysInMonth_le (year : Nat) : ∀ days ∈ daysInMonth year, days ≤ 31 := by
  rw [daysInMonth]
  cases isLeap year <;> decide

/-- The days of the years before a year that two digits can name. -/
theorem years_fit {year : Nat} (small : year ≤ 2105) :
    ∃ days ≤ 366 * 135, (List.range' 1970 (year - 1970)).foldlM
      (fun days y => add 64 days (daysInYear y)) 0 = some days := by
  have length : (List.range' 1970 (year - 1970)).length = year - 1970 := List.length_range'
  obtain ⟨days, few, years⟩ := @foldlM_add 64 _ daysInYear 366 daysInYear_le
    (List.range' 1970 (year - 1970)) 0 (by omega)
  exact ⟨days, by omega, years⟩

/-- A date converts iff its month is 1 to 13 and its day is not 0. -/
theorem toCentiseconds_isSome (smallYear : year ≤ 2105) (smallDay : day ≤ 165)
    (smallHours : hours ≤ 165) (smallMinutes : minutes ≤ 165) (smallSeconds : seconds ≤ 165)
    (smallCentiseconds : centiseconds ≤ 165) :
    (toCentiseconds year month day hours minutes seconds centiseconds).isSome = true ↔
      (1 ≤ month ∧ month ≤ 13) ∧ 1 ≤ day := by
  obtain ⟨days, fewDays, years⟩ := years_fit smallYear
  simp only [toCentiseconds, bind_eq_bind]
  rw [years, bind_some]
  by_cases noMonth : month = 0
  · rw [sub_of_lt (by omega)]
    exact iff_of_false (by simp) (by omega)
  rw [sub_of_le (by omega), bind_some]
  have length : (daysInMonth year).length = 12 := rfl
  by_cases pastYear : 13 < month
  · rw [sumFirst_of_lt (by omega)]
    exact iff_of_false (by simp) (by omega)
  obtain ⟨total, few, months⟩ := @sumFirst_of_le 64 _ (month - 1) days 31 (by omega)
    (daysInMonth_le year) (by omega)
  rw [months, bind_some]
  by_cases noDay : day = 0
  · rw [sub_of_lt (by omega)]
    exact iff_of_false (by simp) (by omega)
  refine iff_of_true ?_ (by omega)
  -- every intermediate value is far below the 64-bit limit
  simp (disch := omega) only [sub_of_le, add_of_lt, mul_of_lt, bind_some, isSome_some]

/-- Taking years off moves the year no further than the days. -/
theorem takeYears_some (fits : year + remaining < 2 ^ 64) :
    ∃ last rest, takeYears year remaining = some (last, rest) ∧ year ≤ last ∧ rest ≤ remaining := by
  induction remaining using Nat.strongRecOn generalizing year with
  | ind remaining inductionHypothesis =>
    rw [takeYears]
    split
    · exact ⟨year, remaining, rfl, Nat.le_refl _, Nat.le_refl _⟩
    next whole =>
      have positive := daysInYear_pos year
      rw [add_of_lt (by omega)]
      obtain ⟨last, rest, taken, later, fewer⟩ :=
        @inductionHypothesis (remaining - daysInYear year) (by omega) (year + 1) (by omega)
      exact ⟨last, rest, taken, by omega, by omega⟩

theorem takeMonths_some {month : Nat} (fits : month + dims.length < 2 ^ 8) (day : Nat) :
    ∃ last rest, takeMonths dims month day = some (last, rest) := by
  induction dims generalizing month day with
  | nil => exact ⟨month, day, rfl⟩
  | cons dim dims inductionHypothesis =>
    rw [List.length_cons] at fits
    rw [takeMonths]
    split
    · exact ⟨month, day, rfl⟩
    · rw [add_of_lt (by omega)]
      exact inductionHypothesis (by omega) _

section
variable {size : Nat}

theorem get_of_lt (inside : offset < size) (regs : Regs size) :
    get regs offset = some (regs ⟨offset, inside⟩) := dif_pos inside

theorem put_of_lt (inside : offset < size) (regs : Regs size) (val : Byte) :
    put regs offset val = some (Function.update regs ⟨offset, inside⟩ val) := dif_pos inside

theorem centisecondsToRegs_isSome (word : total < 2 ^ 64) (fits : 11 ≤ size) (regs : Regs size) :
    (centisecondsToRegs total regs).isSome = true := by
  obtain ⟨year, remaining, years, late, few⟩ :=
    @takeYears_some 1970 (total / 100 / 60 / 60 / 24) (by omega)
  obtain ⟨month, day, months⟩ :=
    @takeMonths_some (daysInMonth year) 1 (by simp [daysInMonth]) (remaining + 1)
  rw [centisecondsToRegs]
  simp only [bind_eq_bind]
  rw [add_of_lt (by omega), bind_some, add_of_lt (by omega),
    bind_some, years, bind_some, add_of_lt (by omega), bind_some,
    months]
  simp (disch := omega) only [put_of_lt, sub_of_le, bind_some, isSome_some]

/-- The month register is 1 to 13 and the day register is not 0, as two digits decode. -/
def Dated (regs : Regs size) : Prop :=
  (1 ≤ bcd ((get regs 0x09).getD 0) ∧ bcd ((get regs 0x09).getD 0) ≤ 13) ∧
    1 ≤ bcd ((get regs 0x08).getD 0)

instance (regs : Regs size) : Decidable (Dated regs) := inferInstanceAs (Decidable (_ ∧ _))

theorem regsToCentiseconds_isSome (fits : 11 ≤ size) (regs : Regs size) :
    (regsToCentiseconds regs).isSome = true ↔ Dated regs := by
  have decoded {offset : Nat} (inside : offset < size) :
      (get regs offset).bind fromBcd = some (bcd ((get regs offset).getD 0)) := by
    rw [get_of_lt inside, bind_some, fromBcd_eq]
    rfl
  have small (offset : Nat) := bcd_le ((get regs offset).getD 0)
  have year := small 0x0A
  rw [regsToCentiseconds]
  simp only [bind_eq_bind]
  rw [decoded (by omega), bind_some, decoded (by omega), bind_some,
    decoded (by omega), bind_some, decoded (by omega), bind_some,
    decoded (by omega), bind_some, decoded (by omega), bind_some,
    decoded (by omega), bind_some, add_of_lt (by omega), bind_some]
  exact toCentiseconds_isSome (by omega) (small _) (small _) (small _) (small _) (small _)

end

/-! ### When an access faults -/

namespace Ds1x86
variable {size : Nat} {clock : Ds1x86 size}

def elapsed (clock : Ds1x86 size) (now : Nat) : Nat :=
  (now - clock.timeBase) / 1000000000 * 100 + (now - clock.timeBase) % 1000000000 / 10000000

/-- The time now is a 64-bit count of centiseconds. -/
def InRange (clock : Ds1x86 size) (now : Nat) : Prop :=
  clock.baseCentiseconds.toNat + clock.elapsed now < 2 ^ 64

def Enabled (clock : Ds1x86 size) : Prop :=
  (get clock.regs cmdRegOffset).getD 0 &&& teBit ≠ 0

/-- What an operation needs: a write of a time register leaves a date that converts, and the time
is in range wherever it is brought up to date. -/
def Safe (clock : Ds1x86 size) : Op → Prop
  | .read addr now => addr < size → addr < 14 → clock.Enabled → clock.InRange now
  | .write addr val now =>
    (addr ≤ 0x0A → ∀ regs ∈ put clock.regs addr val, Dated regs) ∧
      (addr = cmdRegOffset → clock.Enabled → val &&& teBit = 0 → clock.InRange now)
  | .save now => clock.Enabled → clock.InRange now

theorem updateTime_isSome (fits : 12 ≤ size) (now : Nat) :
    (clock.updateTime now).isSome = true ↔ clock.InRange now := by
  rw [updateTime, InRange, elapsed]
  simp only [bind_eq_bind]
  generalize (now - clock.timeBase) / 1000000000 = seconds
  generalize (now - clock.timeBase) % 1000000000 / 10000000 = rest
  by_cases manySeconds : 2 ^ 64 ≤ seconds * 100
  · rw [mul_of_le manySeconds]
    exact iff_of_false (by simp) (by omega)
  rw [mul_of_lt (by omega), bind_some]
  by_cases long : 2 ^ 64 ≤ seconds * 100 + rest
  · rw [add_of_le long]
    exact iff_of_false (by simp) (by omega)
  rw [add_of_lt (by omega), bind_some]
  by_cases late : 2 ^ 64 ≤ clock.baseCentiseconds.toNat + (seconds * 100 + rest)
  · rw [add_of_le late]
    exact iff_of_false (by simp) (by omega)
  rw [add_of_lt (by omega), bind_some]
  refine iff_of_true ?_ (by omega)
  obtain ⟨regs, converted⟩ := isSome_iff_exists.mp
    (centisecondsToRegs_isSome (Nat.lt_of_not_le late) (by omega) clock.regs)
  rw [converted]
  rfl

theorem enabled_iff (fits : cmdRegOffset < size) :
    clock.Enabled ↔ clock.regs ⟨cmdRegOffset, fits⟩ &&& teBit ≠ 0 := by
  rw [Enabled, get_of_lt fits, getD_some]

theorem updateIfEnabled_isSome (fits : 12 ≤ size) :
    (clock.updateIfEnabled now).isSome = true ↔ clock.Safe (.save now) := by
  have command : cmdRegOffset < size := fits
  rw [updateIfEnabled, get_of_lt command, Safe, enabled_iff command, bind_eq_bind, bind_some]
  split
  next enabled =>
    rw [updateTime_isSome fits]
    exact ⟨fun range _ => range, fun range => range enabled⟩
  next disabled => exact iff_of_true rfl fun enabled => absurd enabled disabled

theorem read_isSome (fits : 12 ≤ size) :
    (clock.read addr now).isSome = true ↔ clock.Safe (.read addr now) := by
  have command : cmdRegOffset < size := fits
  rw [read, Safe, enabled_iff command]
  split
  next past => exact iff_of_true rfl fun inside => absurd inside (Nat.not_lt_of_le past)
  rename_i there
  have inside : addr < size := Nat.lt_of_not_le there
  rw [get_of_lt command, bind_eq_bind, bind_some]
  simp only [get_of_lt inside]
  split
  next updated =>
    have updates := @updateTime_isSome size clock fits now
    generalize clock.updateTime now = result at updates ⊢
    cases result with
    | none =>
      refine iff_of_false (by simp) fun range => ?_
      exact absurd (updates.mpr (range inside updated.2 updated.1)) (by simp)
    | some later => exact iff_of_true rfl fun _ _ _ => updates.mp rfl
  next kept => exact iff_of_true rfl fun _ low enabled => absurd ⟨enabled, low⟩ kept

/-- Updates are switched off iff they were on and the written command has them off. -/
theorem switchedOff (old val : Byte) :
    ((old ^^^ val) &&& teBit ≠ 0 ∧ val &&& teBit = 0) ↔
      (old &&& teBit ≠ 0 ∧ val &&& teBit = 0) := by
  refine and_congr_left fun off => ?_
  have same : (old ^^^ val) &&& teBit = old &&& teBit := by
    ext i inside
    have bit : (val &&& teBit)[i] = false := by simp [off]
    simp only [getElem_and, getElem_xor] at bit ⊢
    cases inMask : teBit[i] <;> simp_all
  rw [same]

theorem write_isSome (fits : 12 ≤ size) :
    (clock.write addr val now).isSome = true ↔ clock.Safe (.write addr val now) := by
  have command : cmdRegOffset < size := fits
  rw [write, Safe, enabled_iff command]
  split
  next past =>
    refine iff_of_true rfl ⟨fun _ regs written => ?_, fun same => ?_⟩
    · rw [put, dif_neg (Nat.not_lt_of_le past)] at written
      cases written
    · exact absurd (same ▸ past) (Nat.not_le_of_lt command)
  rename_i there
  have inside : addr < size := Nat.lt_of_not_le there
  rw [get_of_lt command, put_of_lt inside]
  simp only [bind_eq_bind, bind_some]
  generalize Function.update clock.regs ⟨addr, inside⟩ val = regs
  split
  next low =>
    have converts := regsToCentiseconds_isSome (by omega) regs
    have other : addr ≠ cmdRegOffset := fun same => absurd (same ▸ low) (by decide)
    generalize regsToCentiseconds regs = result at converts ⊢
    cases result with
    | none =>
      refine iff_of_false (by simp) fun safe => ?_
      exact absurd (converts.mpr (safe.1 low regs rfl)) (by simp)
    | some base =>
      refine iff_of_true rfl ⟨fun _ written same => ?_, fun same => absurd same other⟩
      rw [← some_inj.mp same]
      exact converts.mp rfl
  next high =>
    simp only [switchedOff]
    split
    next off =>
      rw [updateTime_isSome fits]
      exact ⟨fun range => ⟨fun low => absurd low high, fun _ _ _ => range⟩,
        fun safe => safe.2 off.1 off.2.1 off.2.2⟩
    next kept =>
      exact iff_of_true rfl ⟨fun low => absurd low high,
        fun same enabled off => absurd ⟨same, enabled, off⟩ kept⟩

theorem step_isSome (fits : 12 ≤ size) (op : Op) :
    (clock.step op).isSome = true ↔ clock.Safe op := by
  cases op with
  | read addr now =>
    rw [step, isSome_map]
    exact read_isSome fits
  | write addr val now => exact write_isSome fits
  | save now => exact updateIfEnabled_isSome fits

/-- A sequence of operations runs to its end iff every operation of it finds what it needs in
the state it is applied to. -/
theorem run_isSome_iff (fits : 12 ≤ size) (clock : Ds1x86 size) (ops : List Op) :
    (ops.foldlM step clock).isSome = true ↔
      ∀ earlier op later, ops = earlier ++ op :: later →
        ∀ between ∈ earlier.foldlM step clock, between.Safe op := by
  simp only [Run.foldlM_isSome_iff, step_isSome fits]

/-- A chip of 8 KiB at 1 January, with updates off. -/
def firstOfJanuary : Ds1x86 8192 := { regs := fun _ => 0x01, baseCentiseconds := 0, timeBase := 0 }

/-- Setting 31 May, with seconds that are no digits, and reading the day back. -/
def setsDate : List Op :=
  [.write 0x09 0x05 0, .write 0x08 0x31 0, .write 0x01 0xff 0, .read 0x08 7]

theorem setsDate_finishes :
    (setsDate.foldlM step firstOfJanuary).isSome = true ∧
      ∀ earlier op later, setsDate = earlier ++ op :: later →
        ∀ between ∈ earlier.foldlM step firstOfJanuary, between.Safe op := by
  have finishes : (setsDate.foldlM step firstOfJanuary).isSome = true := by decide +kernel
  exact ⟨finishes, (run_isSome_iff (by decide) firstOfJanuary setsDate).mp finishes⟩

/-- A month of 0, a month with the oscillator's bit, and a day of 0 each fault. -/
theorem noDate_faults :
    firstOfJanuary.step (.write 0x09 0x00 0) = none ∧
      firstOfJanuary.step (.write 0x09 0x91 0) = none ∧
        firstOfJanuary.step (.write 0x08 0x00 0) = none := by
  decide +kernel

end Ds1x86

end Iris.Rtc
