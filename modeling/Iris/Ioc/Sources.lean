import Iris.Ioc.Core
import Iris.Library.Run
import Mathlib.Data.Fintype.Basic

/-!
Owns what the IOC's status bits and CPU lines say of the devices that drive them: after every
operation the lines are the masked status, and a status bit is the disjunction of its sources
as long as no source lets go of a bit that another one holds.
-/

namespace Iris.Ioc

open Library.Flags Library.Run IocState Function

namespace IocState
variable {s : IocState}

/-! ### The CPU lines -/

/-- Each line the IOC drives is as its status and masks say. -/
structure LinesDriven (s : IocState) : Prop where
  ip2 : has s.interrupts causeIp2 = s.ip2
  ip3 : has s.interrupts causeIp3 = s.ip3
  ip4 : has s.interrupts causeIp4 = s.ip4
  ip5 : has s.interrupts causeIp5 = s.ip5
  ip6 : has s.interrupts causeIp6 = s.ip6

theorem LinesDriven.congr (driven : s.LinesDriven) {t : IocState} (reg : t.reg = s.reg)
    (word : t.interrupts = s.interrupts) : t.LinesDriven := by
  cases s
  cases reg
  cases word
  exact { driven with }

/-- A line that is set where it is high and cleared where it is low. -/
theorem has_driven {low : BitVec 64} {level : Bool} (line_ne : line ≠ 0)
    (isHigh : high &&& line = if level then line else 0)
    (isLow : line &&& low = if level then 0 else line) :
    has ((word ||| high) &&& ~~~low) line = level := by
  cases level with
  | true =>
    rw [has_keep isLow, has_or_within (by rw [isHigh]; exact line_ne)]
  | false =>
    rw [if_neg Bool.false_ne_true] at isLow
    refine has_clear ?_
    rw [← isLow, BitVec.and_assoc]
    simp

theorem linesAt_and (s : IocState) :
    (∀ level, s.linesAt level &&& causeIp2 = if s.ip2 = level then causeIp2 else 0) ∧
    (∀ level, s.linesAt level &&& causeIp3 = if s.ip3 = level then causeIp3 else 0) ∧
    (∀ level, s.linesAt level &&& causeIp4 = if s.ip4 = level then causeIp4 else 0) ∧
    (∀ level, s.linesAt level &&& causeIp5 = if s.ip5 = level then causeIp5 else 0) ∧
    (∀ level, s.linesAt level &&& causeIp6 = if s.ip6 = level then causeIp6 else 0) := by
  simp only [linesAt]
  generalize s.ip2 = a
  generalize s.ip3 = b
  generalize s.ip4 = c
  generalize s.ip5 = d
  generalize s.ip6 = e
  revert a b c d e
  decide

theorem updateInterrupts_linesDriven (s : IocState) : s.updateInterrupts.LinesDriven := by
  have driven {t : IocState} {line : BitVec 64} {level : Bool} (line_ne : line ≠ 0)
      (at_ : ∀ high, t.linesAt high &&& line = if level = high then line else 0) :
      has ((t.interrupts ||| t.linesAt true) &&& ~~~t.linesAt false) line = level := by
    refine has_driven line_ne (at_ true) ?_
    rw [BitVec.and_comm, at_ false]
    cases level <;> rfl
  rw [updateInterrupts]
  generalize (s.mark .l0Stat mapInt0 _).mark .l1Stat mapInt1 _ = t
  obtain ⟨ip2, ip3, ip4, ip5, ip6⟩ := t.linesAt_and
  exact ⟨driven (by decide) ip2, driven (by decide) ip3, driven (by decide) ip4,
    driven (by decide) ip5, driven (by decide) ip6⟩

theorem new_linesDriven {sysId : Byte} {genCntlRetraceAck : Bool} :
    (new sysId genCntlRetraceAck).LinesDriven := by
  have clear {v w : Nat} (line : BitVec v) (bits : BitVec w) : has 0 line = has 0 bits := by
    simp [has]
  exact ⟨clear _ _, clear _ _, clear _ _, clear _ _, clear _ (0 : Byte)⟩

theorem setOthers_linesDriven (driven : s.LinesDriven) : (s.setOthers word).LinesDriven := by
  have kept {line : BitVec 64} (owned : ownedLines &&& line = line) :
      has (s.setOthers word).interrupts line = has s.interrupts line := by
    have apart : (word &&& ~~~ownedLines) &&& line = 0 := by
      rw [BitVec.and_assoc, ← owned, ← BitVec.and_assoc (~~~ownedLines)]
      simp
    rw [setOthers]
    rw [has_or_apart apart, has_and owned]
  exact ⟨(kept (by decide)).trans driven.ip2, (kept (by decide)).trans driven.ip3,
    (kept (by decide)).trans driven.ip4, (kept (by decide)).trans driven.ip5,
    (kept (by decide)).trans driven.ip6⟩

/-! ### The status bits -/

def shows (s : IocState) (place : Register × Fin 8) : Bool :=
  has (s.reg place.1) (1#8 <<< place.2.val)

theorem mark_shows_self {active : Bool} :
    (s.mark place.1 (1#8 <<< place.2.val) active).shows place = active := by
  rw [shows, mark, set]
  dsimp only
  rw [update_self]
  have bit : 1#8 <<< place.2.val &&& 1#8 <<< place.2.val ≠ 0 := by
    generalize place.2 = i
    revert i
    decide
  cases active with
  | true => exact has_or_within bit
  | false => exact has_clear (BitVec.and_not_self _)

theorem mark_shows_apart {r : Register} {bits : Byte} {place : Register × Fin 8}
    (apart : place.1 = r → bits &&& 1#8 <<< place.2.val = 0) :
    (s.mark r bits active).shows place = s.shows place := by
  rw [shows, shows, mark, set]
  dsimp only
  by_cases same : place.1 = r
  · subst same
    rw [update_self]
    cases active with
    | true => exact has_or_apart (apart rfl)
    | false => exact has_keep (by rw [BitVec.and_comm]; exact apart rfl)
  · rw [update_of_ne same]

theorem set_shows (other : place.1 ≠ r) : (s.set r val).shows place = s.shows place := by
  rw [shows, shows, set]
  dsimp only
  rw [update_of_ne other]

theorem bits_apart {j : Fin 8} (other : i ≠ j) : 1#8 <<< i.val &&& 1#8 <<< j.val = 0 := by
  revert i j
  decide

/-- The places of sources are those of no summary bit. -/
theorem place_apart {source : IocInterrupt} :
    (source.place.1 = .l0Stat → mapInt0 &&& 1#8 <<< source.place.2.val = 0) ∧
      (source.place.1 = .l1Stat → mapInt1 &&& 1#8 <<< source.place.2.val = 0) ∧
      (source.place.1 = .l0Stat ∨ source.place.1 = .l1Stat ∨ source.place.1 = .mapStat) := by
  cases source <;> decide

theorem updateInterrupts_shows (source : IocInterrupt) :
    s.updateInterrupts.shows source.place = s.shows source.place := by
  obtain ⟨local0, local1, -⟩ := place_apart
  rw [updateInterrupts, shows]
  dsimp only
  rw [← shows, mark_shows_apart local1, mark_shows_apart local0]

theorem setSource_shows (source other : IocInterrupt) (active : Bool) :
    (s.setSource source active).shows other.place =
      if other.place = source.place then active else s.shows other.place := by
  rw [setSource, updateInterrupts_shows, shows]
  dsimp only
  split
  next same =>
    rw [same]
    exact mark_shows_self
  next apart =>
    refine mark_shows_apart (fun same => bits_apart fun bit => apart ?_)
    exact Prod.ext same bit.symm

/-! ### Writes -/

/-- A write that clears the retrace latch: a strobe of PORT_CONFIG, or of GEN_CNTL on a board
that has it there. -/
def acknowledges (s : IocState) (addr : BitVec 64) (val : Byte) : Bool :=
  if inInt2 addr then int2Index addr = 7 ∧ val &&& 0x18 ≠ 0x18
  else offsetOf addr 4 = 0x4C ∧ s.genCntlRetraceAck ∧ val &&& 1 = 0

/-- The timers' bits are latched: a timer sets its bit and the guest clears it. -/
def Timed (source : IocInterrupt) : Prop := source = .mappable0 ∨ source = .mappable1

def Plain (r : Register) : Prop := r ≠ .l0Stat ∧ r ≠ .l1Stat ∧ r ≠ .mapStat

theorem set_plain_shows {r : Register} (plain : Plain r) {source : IocInterrupt} {val : Byte} :
    (s.set r val).shows source.place = s.shows source.place := by
  obtain ⟨-, -, bank⟩ := place_apart
  refine set_shows (fun same => ?_)
  rcases bank with bank | bank | bank
  · exact plain.1 (same.symm.trans bank)
  · exact plain.2.1 (same.symm.trans bank)
  · exact plain.2.2 (same.symm.trans bank)

variable {source : IocInterrupt}

theorem clearTimers_shows (level : ¬Timed source) :
    (s.clearTimers val).shows source.place = s.shows source.place := by
  refine mark_shows_apart (fun mappable => ?_)
  have low : (0x3 : Byte) &&& 1#8 <<< source.place.2.val = 0 := by
    revert mappable level
    rw [Timed]
    cases source <;> decide
  rw [BitVec.and_assoc, low]
  simp

theorem clearRetrace_shows :
    (s.mark .l1Stat verticalRetrace false).shows source.place =
      if source.place = retracePlace then false else s.shows source.place := by
  split
  next same =>
    rw [same]
    exact mark_shows_self
  next apart =>
    refine mark_shows_apart (fun same => ?_)
    exact @bits_apart 7 source.place.2 fun bit => apart (Prod.ext same bit.symm)

theorem writePortConfig_shows (source : IocInterrupt) (val : Byte) :
    (s.writePortConfig val).shows source.place =
      if val &&& 0x18 ≠ 0x18 ∧ source.place = retracePlace then false
      else s.shows source.place := by
  rw [writePortConfig]
  rw [set_plain_shows ⟨by decide, by decide, by decide⟩]
  by_cases strobe : val &&& 0x18 ≠ 0x18
  · simp only [strobe, if_true, true_and, ne_eq, not_false_eq_true]
    rw [← clearRetrace_shows]
    split <;> split <;> rfl
  · simp only [strobe, if_false, false_and]

theorem writeGenCntl_shows (source : IocInterrupt) (val : Byte) :
    (s.writeGenCntl val).shows source.place =
      if (s.genCntlRetraceAck ∧ val &&& 1 = 0) ∧ source.place = retracePlace then false
      else s.shows source.place := by
  rw [writeGenCntl, set_plain_shows ⟨by decide, by decide, by decide⟩]
  split
  next strobe =>
    rw [clearRetrace_shows]
    simp only [strobe, and_self, true_and]
  next none => rw [if_neg fun strobe => none strobe.1]

section
variable (level : ¬Timed source)
include level

theorem int2Write8_shows (idx : Nat) (val : Byte) :
    (s.int2Write8 idx val).shows source.place =
      if (idx = 7 ∧ val &&& 0x18 ≠ 0x18) ∧ source.place = retracePlace then false
      else s.shows source.place := by
  have other (ne : idx ≠ 7) : s.shows source.place =
      if (idx = 7 ∧ val &&& 0x18 ≠ 0x18) ∧ source.place = retracePlace then false
      else s.shows source.place := by
    rw [if_neg fun strobe => ne strobe.1.1]
  rw [int2Write8]
  split
  · exact other (by omega)
  rw [updateInterrupts_shows]
  unfold int2WriteRegister
  split
  case h_5 => simp only [writePortConfig_shows, true_and]
  case h_6 => exact (clearTimers_shows level).trans (other (by decide))
  case h_7 => exact other ‹_›
  all_goals
    refine (set_plain_shows ?_).trans (other (by decide))
    exact ⟨by decide, by decide, by decide⟩

theorem writeRegister_shows (offset : Nat) (val : Byte) :
    (s.writeRegister offset val).shows source.place =
      if (offset = 0x4C ∧ s.genCntlRetraceAck ∧ val &&& 1 = 0) ∧ source.place = retracePlace
      then false else s.shows source.place := by
  have other (ne : offset ≠ 0x4C) : s.shows source.place =
      if (offset = 0x4C ∧ s.genCntlRetraceAck ∧ val &&& 1 = 0) ∧ source.place = retracePlace
      then false else s.shows source.place := by
    rw [if_neg fun strobe => ne strobe.1.1]
  unfold writeRegister
  split
  case h_2 => simp only [writeGenCntl_shows, true_and]
  case h_12 => exact (clearTimers_shows level).trans (other (by decide))
  case h_13 => exact other ‹_›
  all_goals
    refine (set_plain_shows ?_).trans (other (by decide))
    exact ⟨by decide, by decide, by decide⟩

/-- A write leaves the status bits as they were, but for the retrace latch when it
acknowledges it. -/
theorem write8_shows (addr : BitVec 64) (val : Byte) :
    (s.write8 addr val).shows source.place =
      if s.acknowledges addr val = true ∧ source.place = retracePlace then false
      else s.shows source.place := by
  rw [write8, acknowledges]
  split
  · rw [int2Write8_shows level]
    simp only [decide_eq_true_eq]
  dsimp only
  split
  next passed =>
    rw [if_neg]
    rintro ⟨strobe, -⟩
    rw [(of_decide_eq_true strobe).1] at passed
    cases passed
  · rw [updateInterrupts_shows, writeRegister_shows level]
    simp only [decide_eq_true_eq]

theorem timerFired_shows : (s.timerFired timer).shows source.place = s.shows source.place := by
  rw [timerFired, updateInterrupts_shows]
  refine mark_shows_apart (fun mappable => ?_)
  revert mappable level timer
  rw [Timed]
  cases source <;> decide

end

/-! ### The summary bits -/

def marked (bits : Byte) (active : Bool) (word : Byte) : Byte :=
  if active then word ||| bits else word &&& ~~~bits

theorem marked_marked : marked bits active (marked bits active word) = marked bits active word := by
  cases active with
  | true => rw [marked, marked, if_pos rfl, if_pos rfl, BitVec.or_assoc, BitVec.or_self]
  | false =>
    rw [marked, marked, if_neg Bool.false_ne_true, if_neg Bool.false_ne_true, BitVec.and_assoc,
      BitVec.and_self]

def summarized (reg : Register → Byte) : Register → Byte
  | .l0Stat => marked mapInt0 (has (reg .mapStat) (reg .mapMask0)) (reg .l0Stat)
  | .l1Stat => marked mapInt1 (has (reg .mapStat) (reg .mapMask1)) (reg .l1Stat)
  | r => reg r

theorem updateInterrupts_reg (s : IocState) : s.updateInterrupts.reg = summarized s.reg := by
  funext r
  cases r <;> rfl

theorem summarized_summarized (reg : Register → Byte) :
    summarized (summarized reg) = summarized reg := by
  funext r
  cases r with
  | l0Stat | l1Stat => exact marked_marked
  | _ => rfl

/-! ### What every operation leaves -/

/-- A state of the board in which nothing is left to update. -/
structure Settled (sysId : Byte) (s : IocState) : Prop where
  board : s.sysId = sysId
  summary : summarized s.reg = s.reg
  lines : s.LinesDriven

variable {sysId : Byte}

theorem updateInterrupts_settled (board : s.sysId = sysId) : s.updateInterrupts.Settled sysId := by
  refine ⟨board, ?_, updateInterrupts_linesDriven s⟩
  rw [updateInterrupts_reg, summarized_summarized]

theorem writePortConfig_sysId : (s.writePortConfig val).sysId = s.sysId := by
  rw [writePortConfig]
  split
  · split <;> split <;> rfl
  · rfl

theorem writeGenCntl_sysId : (s.writeGenCntl val).sysId = s.sysId := by
  rw [writeGenCntl]
  split <;> rfl

theorem write8_settled (settled : s.Settled sysId) : (s.write8 addr val).Settled sysId := by
  rw [write8]
  split
  · rw [int2Write8]
    split
    · exact settled
    · refine updateInterrupts_settled ?_
      unfold int2WriteRegister
      split
      case h_5 => exact (writePortConfig_sysId).trans settled.board
      all_goals exact settled.board
  · dsimp only
    split
    · exact settled
    · refine updateInterrupts_settled ?_
      unfold writeRegister
      split
      case h_2 => exact (writeGenCntl_sysId).trans settled.board
      all_goals exact settled.board

/-- Only the registers and the CPU's word matter. -/
theorem Settled.congr (settled : s.Settled sysId) {t : IocState} (board : t.sysId = s.sysId)
    (reg : t.reg = s.reg) (lines : t.LinesDriven) : t.Settled sysId :=
  ⟨board.trans settled.board, by rw [reg]; exact settled.summary, lines⟩

theorem new_settled {sysId : Byte} {genCntlRetraceAck : Bool} :
    (new sysId genCntlRetraceAck).Settled sysId := by
  refine ⟨rfl, ?_, new_linesDriven⟩
  show summarized resetRegs = resetRegs
  funext r
  cases r <;> decide

end IocState

/-! ### Devices -/

structure System (Device : Type) where
  ioc : IocState
  asserted : Device → Bool

inductive Op (Device : Type)
  | line (device : Device) (level : Bool)
  | write8 (addr : BitVec 64) (val : Byte)
  | write16 (addr : BitVec 64) (val : BitVec 16)
  | write32 (addr : BitVec 64) (val : BitVec 32)
  | timer (timer : Fin 2)
  | extIoLevel (bits : BitVec 16) (high : Bool)
  /-- Other devices change their lines of the CPU's word. -/
  | others (word : BitVec 64)

namespace System
variable {Device : Type} (layout : Device → IocInterrupt)

def new (sysId : Byte) (genCntlRetraceAck : Bool) : System Device where
  ioc := .new sysId genCntlRetraceAck
  asserted _ := false

/-- `layout` is the source that each device drives; more than one may drive the same. -/
def step [DecidableEq Device] (system : System Device) : Op Device → System Device
  | .line device level =>
    { ioc := system.ioc.setSource (layout device) level
      asserted := update system.asserted device level }
  | .write8 addr val => { system with ioc := system.ioc.write8 addr val }
  | .write16 addr val => { system with ioc := system.ioc.write16 addr val }
  | .write32 addr val => { system with ioc := system.ioc.write32 addr val }
  | .timer timer => { system with ioc := system.ioc.timerFired timer }
  | .extIoLevel bits high => { system with ioc := system.ioc.setExtIoLevel bits high }
  | .others word => { system with ioc := system.ioc.setOthers word }

/-- No device holds the retrace latch. -/
def RetraceFree (system : System Device) : Prop :=
  ∀ device, system.asserted device = true → (layout device).place ≠ retracePlace

/-- A device lets go of a status bit only if no other device holds it, and the guest clears the
retrace latch only if none does. -/
def Alone (system : System Device) : Op Device → Prop
  | .line device false =>
    ∀ other, other ≠ device → system.asserted other = true →
      (layout other).place ≠ (layout device).place
  | .write8 addr val => system.ioc.acknowledges addr val = true → system.RetraceFree layout
  | .write32 addr val =>
    system.ioc.acknowledges (addr &&& ~~~3) (val.setWidth 8) = true → system.RetraceFree layout
  | .line _ true | .write16 .. | .timer _ | .extIoLevel .. | .others _ => True

instance [DecidableEq Device] [Fintype Device] (system : System Device) :
    ∀ op, Decidable (system.Alone layout op)
  | .line device false => inferInstanceAs (Decidable (∀ other, other ≠ device → _ → _ ≠ _))
  | .write8 .. | .write32 .. =>
    inferInstanceAs (Decidable (_ → ∀ device, system.asserted device = true → _ ≠ _))
  | .line _ true | .write16 .. | .timer _ | .extIoLevel .. | .others _ => isTrue trivial

/-- Each status bit of a source, but for the timers' latches, is set iff a device on it asserts
its line. -/
def Shown (system : System Device) : Prop :=
  ∀ source, ¬Timed source → (system.ioc.shows source.place = true ↔
    ∃ device, system.asserted device = true ∧ (layout device).place = source.place)

variable {layout} {system : System Device}

theorem new_shown {sysId : Byte} {genCntlRetraceAck : Bool} :
    (new sysId genCntlRetraceAck : System Device).Shown layout := by
  refine fun source _ => iff_of_false ?_ ?_
  · obtain ⟨-, -, bank⟩ := place_apart
    have clear : resetRegs source.place.1 = 0 := by
      rcases bank with bank | bank | bank <;> rw [bank] <;> rfl
    show ¬has (resetRegs source.place.1) _ = true
    rw [clear, has]
    simp
  · rintro ⟨device, never, -⟩
    cases never

/-- An operation that changes no status bit of a source. -/
theorem Shown.of_kept (shown : system.Shown layout) {ioc : IocState}
    (kept : ∀ source, ¬Timed source → ioc.shows source.place = system.ioc.shows source.place) :
    Shown layout { system with ioc } := by
  intro source level
  rw [kept source level]
  exact shown source level

theorem write8_shown (shown : system.Shown layout)
    (alone : system.ioc.acknowledges addr val = true → system.RetraceFree layout) :
    Shown layout { system with ioc := system.ioc.write8 addr val } := by
  intro source timed
  rw [write8_shows timed]
  split
  next cleared =>
    refine iff_of_false Bool.false_ne_true ?_
    rintro ⟨device, held, there⟩
    exact alone cleared.1 device held (there.trans cleared.2)
  · exact shown source timed

variable [DecidableEq Device]

theorem line_shown (shown : system.Shown layout) (alone : system.Alone layout (.line device level)) :
    (system.step layout (.line device level)).Shown layout := by
  intro source timed
  rw [step]
  dsimp only
  rw [setSource_shows]
  by_cases here : source.place = (layout device).place
  · rw [if_pos here]
    cases level with
    | true => exact iff_of_true rfl ⟨device, update_self _ _ _, here.symm⟩
    | false =>
      refine iff_of_false Bool.false_ne_true ?_
      rintro ⟨other, held, there⟩
      by_cases same : other = device
      · rw [same, update_self] at held
        cases held
      · rw [update_of_ne same] at held
        exact alone other same held (there.trans here)
  · rw [if_neg here, shown source timed]
    refine exists_congr fun other => and_congr_left fun there => ?_
    rw [update_of_ne]
    rintro rfl
    exact here there.symm

theorem step_shown (shown : system.Shown layout) {op : Op Device}
    (alone : system.Alone layout op) : (system.step layout op).Shown layout := by
  cases op with
  | line device level => exact line_shown shown alone
  | write8 addr val => exact write8_shown shown alone
  | write16 addr val =>
    rw [step, write16]
    split
    · exact shown.of_kept fun _ _ => rfl
    · exact shown
  | write32 addr val =>
    rw [step, write32]
    split
    · exact shown.of_kept fun _ _ => rfl
    · exact write8_shown shown alone
  | timer timer => exact shown.of_kept fun _ level => timerFired_shows level
  | extIoLevel bits high => exact shown.of_kept fun _ _ => rfl
  | others word => exact shown.of_kept fun _ _ => rfl

variable {sysId : Byte}

theorem step_settled (settled : system.ioc.Settled sysId) :
    (system.step layout op).ioc.Settled sysId := by
  cases op with
  | line device level => exact updateInterrupts_settled settled.board
  | write8 addr val => exact write8_settled settled
  | write16 addr val =>
    rw [step, write16]
    split
    · exact settled.congr rfl rfl (settled.lines.congr rfl rfl)
    · exact settled
  | write32 addr val =>
    rw [step, write32]
    split
    · exact settled.congr rfl rfl (settled.lines.congr rfl rfl)
    · exact write8_settled settled
  | timer timer => exact updateInterrupts_settled settled.board
  | extIoLevel bits high => exact settled.congr rfl rfl (settled.lines.congr rfl rfl)
  | others word =>
    exact settled.congr rfl rfl (setOthers_linesDriven settled.lines)

theorem run_settled (settled : system.ioc.Settled sysId) {ops : List (Op Device)} :
    (ops.foldl (step layout) system).ioc.Settled sysId :=
  List.foldlRecOn ops (step layout) (motive := fun system => system.ioc.Settled sysId) settled
    fun _ settled _ _ => step_settled settled

/-- On every layout, and in every run in which no device lets go of a status bit that another
one holds (and the guest acknowledges no retrace that is still held), each status bit, but for
the timers' latches, is set iff a device on it asserts its line, and each CPU line is the masked
status it stands for. -/
theorem status_eq_or (layout : Device → IocInterrupt) (sysId : Byte) (genCntlRetraceAck : Bool)
    {ops : List (Op Device)}
    (alone : Along (step layout) (Alone layout) (new sysId genCntlRetraceAck) ops) :
    (∀ source, ¬Timed source →
      ((ops.foldl (step layout) (new sysId genCntlRetraceAck)).ioc.shows source.place = true ↔
        ∃ device, (ops.foldl (step layout) (new sysId genCntlRetraceAck)).asserted device = true ∧
          (layout device).place = source.place)) ∧
    (ops.foldl (step layout) (new sysId genCntlRetraceAck)).ioc.LinesDriven := by
  have shown := Along.keeps alone (fun _ _ before condition => step_shown before condition)
    new_shown
  exact ⟨shown, (run_settled new_settled).lines⟩

/-- Two graphics heads of an Indigo2: their retrace interrupts, in the first two GIO slots. -/
def twoHeads : Bool → IocInterrupt
  | false => .gioSgGraphics
  | true => .gioS0Graphics

/-- The second head asserts its line when the first has let go. -/
theorem heads_in_turn :
    Along (step twoHeads) (Alone twoHeads) (new 0x11 false)
      [.line false true, .line false false, .line true true] ∧
    (∀ source, ¬Timed source →
      (([Op.line false true, .line false false, .line true true].foldl (step twoHeads)
        (new 0x11 false)).ioc.shows source.place = true ↔
        ∃ device, ([Op.line false true, .line false false, .line true true].foldl (step twoHeads)
          (new 0x11 false)).asserted device = true ∧ (twoHeads device).place = source.place)) ∧
    ([Op.line false true, .line false false, .line true true].foldl (step twoHeads)
      (new 0x11 false)).ioc.LinesDriven :=
  ⟨by decide +kernel, status_eq_or twoHeads 0x11 false (by decide +kernel)⟩

/-- Both heads assert their lines and the second lets go: the bit is clear, though the first
still holds it. -/
theorem second_head_clears_bit :
    ([Op.line false true, .line true true, .line true false].foldl (step twoHeads)
      (new 0x11 false)).asserted false = true ∧
    ([Op.line false true, .line true true, .line true false].foldl (step twoHeads)
      (new 0x11 false)).ioc.shows IocInterrupt.gioSgGraphics.place = false := by
  decide +kernel

end System

end Iris.Ioc
