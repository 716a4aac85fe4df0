import Iris.Scc.Channel

/-!
Owns the interrupt line that the two channels of the Z85C30 share: each publishes its pending
interrupts, reads the other's and drives the line, under its own lock, and when the line is
what the channels ask for.
-/

namespace Iris.Scc

open Library.Run
open Function (update update_of_ne update_self)

inductive Side
  | a
  | b
deriving DecidableEq, Repr

def Side.other : Side → Side
  | a => b
  | b => a

/-- How far a channel is with `update_ip`, and how many calls of it are left after this one. -/
inductive Progress
  | idle
  | publish (left : Nat)
  | read (left : Nat) (ip : Byte)
  | drive (left : Nat) (ip other : Byte)
deriving DecidableEq, Repr

/-- The chip: the channels, the flags they publish, the line, and the updates in progress. A
channel is locked until its updates are made; `both` is the one that has locked the other too. -/
structure Chip where
  channel : Side → Channel
  ip : Side → Byte
  line : Bool
  progress : Side → Progress
  both : Option Side

inductive Event
  /-- An access takes the lock, or both for a write of a control register. -/
  | start (side : Side) (a : Access)
  /-- The next step of the update in progress. -/
  | advance (side : Side)

namespace Chip

def new : Chip where
  channel _ := .new
  ip _ := 0
  line := false
  progress _ := .idle
  both := none

def updating : Nat → Progress
  | 0 => .idle
  | left + 1 => .publish left

variable (chip : Chip) (side : Side)

/-- A channel's access, up to its first update. -/
def enter (result : Channel × Nat) : Chip :=
  { chip with
    channel := update chip.channel side result.1
    progress := update chip.progress side (updating result.2) }

/-- A write of a control register holds both locks, and gives WR2 to the other channel. -/
def enterControl (val : Byte) : Chip :=
  let written := (chip.channel side).writeControl val
  let other := match written.2 with
    | some wr2 => (chip.channel side.other).setWr2 wr2
    | none => chip.channel side.other
  { chip with channel := update chip.channel side.other other, both := some side }.enter
    side written.1

/-- An access that needs its own channel's lock only. -/
def startOwn (a : Access) : Chip :=
  if chip.progress side = .idle ∧ chip.both = none then
    chip.enter side ((chip.channel side).access a)
  else chip

/-- An access starts if the locks it needs are free. -/
def start : Access → Chip
  | .writeControl val =>
    if chip.progress side = .idle ∧ chip.progress side.other = .idle then
      chip.enterControl side val
    else chip
  | .wr2 _ => chip
  | a => chip.startOwn side a

def advance : Chip :=
  match chip.progress side with
  | .idle => chip
  | .publish left =>
    let ip := (chip.channel side).getIp
    { chip with
      ip := update chip.ip side ip
      progress := update chip.progress side (.read left ip) }
  | .read left ip =>
    { chip with
      progress := update chip.progress side (.drive left ip (chip.ip side.other)) }
  | .drive left ip other =>
    { chip with
      line := ip ||| other != 0
      progress := update chip.progress side (updating left)
      both := if left = 0 ∧ chip.both = some side then none else chip.both }

def step : Event → Chip
  | .start side a => chip.start side a
  | .advance side => chip.advance side

end Chip

/-! ### What an access leaves of the pending interrupts -/

namespace Channel
variable {ch : Channel}

theorem getIp_congr {other : Channel} (wr1 : other.regs 1 = ch.regs 1)
    (rx : other.rxQueue = [] ↔ ch.rxQueue = []) (tx : other.txIntPending = ch.txIntPending) :
    other.getIp = ch.getIp := by
  rw [getIp, getIp, wr1, tx]
  simp only [ne_eq, rx]

theorem readData_getIp (quiet : ch.readData.2.2 = 0) : ch.readData.2.1.getIp = ch.getIp := by
  rw [readData] at quiet ⊢
  cases queue : ch.rxQueue with
  | nil => rfl
  | cons val rest =>
    simp only [queue] at quiet ⊢
    split at quiet
    · cases quiet
    next more =>
      rw [if_neg more]
      exact getIp_congr rfl (iff_of_false more (by simp [queue])) rfl

theorem writeData_updates (val : Byte) : (ch.writeData val).2 = 1 := by
  rw [writeData]
  split_ifs <;> rfl

theorem setWr2_getIp {val : Byte} : (ch.setWr2 val).getIp = ch.getIp := by
  have wr1 : (ch.setWr2 val).regs 1 = ch.regs 1 := by
    exact update_of_ne (show (1 : Fin 16) ≠ 2 by decide) val ch.regs
  exact getIp_congr wr1 Iff.rfl rfl

/-- An access that makes no update leaves the pending interrupts as they were. -/
theorem access_getIp {a : Access} (quiet : (ch.access a).2 = 0) :
    (ch.access a).1.getIp = ch.getIp := by
  cases a with
  | readControl =>
    have read : ch.readSelected.2.1.getIp = ch.getIp := by
      rw [access, readControl, readSelected] at quiet
      rw [readSelected]
      split
      case h_4 isData =>
        rw [isData] at quiet
        exact readData_getIp quiet
      all_goals rfl
    exact (getIp_congr rfl Iff.rfl rfl).trans read
  | writeControl val =>
    rw [access, writeControl] at quiet
    split at quiet <;> cases quiet
  | readData => exact readData_getIp quiet
  | writeData val =>
    rw [access, writeData_updates] at quiet
    cases quiet
  | wr2 val => exact setWr2_getIp
  | receive byte =>
    rw [access, receive] at quiet ⊢
    split
    · rfl
    next on =>
      split
      · rfl
      next room =>
        rw [if_neg on, if_neg room] at quiet
        cases quiet
  | transmit =>
    rw [access, transmit]
    split
    · dsimp only
      split <;> exact getIp_congr rfl Iff.rfl rfl
    · rfl
  | notifyTxEmpty | reset | load v => cases quiet

end Channel

/-! ### The line -/

@[simp] theorem Side.other_other (side : Side) : side.other.other = side := by
  cases side <;> rfl

theorem Side.other_ne (side : Side) : side.other ≠ side := by
  cases side <;> decide

theorem Side.eq_or_other (side place : Side) : place = side ∨ place = side.other := by
  cases side <;> cases place <;> decide

namespace Progress

/-- A flag is published that the line does not show yet. -/
def Driving : Progress → Prop
  | read .. | drive .. => True
  | idle | publish _ => False

def Published (ip flag : Byte) : Progress → Prop
  | idle => ip = flag
  | publish _ => True
  | read _ own | drive _ own _ => own = ip ∧ ip = flag

end Progress

namespace Chip
variable {chip : Chip}

def asked (chip : Chip) : Bool := chip.ip .a != 0 || chip.ip .b != 0

theorem asked_side : chip.asked = (chip.ip side != 0 || chip.ip side.other != 0) := by
  cases side
  · rfl
  · exact Bool.or_comm _ _

/-- The flags are of the channels, except while one is about to publish; a flag read is still
what is published, as far as the line goes; and the line is as asked unless a channel is about
to drive it. -/
structure Sound (chip : Chip) : Prop where
  own : ∀ side, (chip.progress side).Published (chip.ip side) (chip.channel side).getIp
  seen : ∀ side left ip other, chip.progress side = .drive left ip other →
    (other = 0 ↔ chip.ip side.other = 0)
  line : (∀ side, ¬(chip.progress side).Driving) → chip.line = chip.asked

theorem new_sound : new.Sound := by
  refine ⟨fun _ => ?_, fun _ _ _ _ drives => Progress.noConfusion drives, fun _ => rfl⟩
  show 0 = Channel.new.getIp
  decide

/-- No channel publishes a flag that changes what the line should be while the other one is
about to drive the line with what it read before. -/
def Timely (chip : Chip) : Event → Prop
  | .advance side =>
    match chip.progress side, chip.progress side.other with
    | .publish _, .drive .. => (chip.channel side).getIp = 0 ↔ chip.ip side = 0
    | _, _ => True
  | .start .. => True

instance (chip : Chip) : ∀ event, Decidable (chip.Timely event)
  | .start .. => isTrue trivial
  | .advance side =>
    match h : chip.progress side, h' : chip.progress side.other with
    | .publish _, .drive .. =>
      decidable_of_iff ((chip.channel side).getIp = 0 ↔ chip.ip side = 0)
        (by simp [Timely, h, h'])
    | .idle, _ | .read .., _ | .drive .., _ | .publish _, .idle | .publish _, .publish _
    | .publish _, .read .. => isTrue (by simp [Timely, h, h'])

variable {side : Side}

section
variable (sound : chip.Sound)
include sound

/-- Making one channel's access leaves the rest. -/
theorem enter_sound (idle : chip.progress side = .idle)
    (quiet : result.2 = 0 → result.1.getIp = (chip.channel side).getIp) :
    (chip.enter side result).Sound := by
  have published := sound.own side
  rw [idle] at published
  constructor
  · intro place
    rw [enter]
    dsimp only
    by_cases here : place = side
    · subst here
      rw [update_self, update_self]
      cases updates : result.2 with
      | zero =>
        exact published.trans (quiet updates).symm
      | succ left => trivial
    · rw [update_of_ne here, update_of_ne here]
      exact sound.own place
  · intro place left ip other drives
    rw [enter] at drives
    dsimp only at drives
    by_cases here : place = side
    · subst here
      rw [update_self] at drives
      cases updates : result.2 <;> rw [updates] at drives <;> cases drives
    · rw [update_of_ne here] at drives
      exact sound.seen place left ip other drives
  · intro quietLine
    refine sound.line fun place driving => ?_
    have here : place ≠ side := by
      rintro rfl
      rw [idle] at driving
      exact driving
    apply quietLine place
    rw [enter]
    dsimp only
    rwa [update_of_ne here]

/-- A chip that differs in WR2 and in the locks only. -/
theorem Sound.congr {channel : Side → Channel}
    (same : ∀ side, (channel side).getIp = (chip.channel side).getIp) {both : Option Side} :
    Sound { chip with channel, both } := by
  refine ⟨fun side => ?_, sound.seen, sound.line⟩
  rw [same]
  exact sound.own side

theorem enterControl_sound (idle : chip.progress side = .idle) :
    (chip.enterControl side val).Sound := by
  have channels (place : Side) (other : Channel)
      (same : other.getIp = (chip.channel side.other).getIp) :
      (update chip.channel side.other other place).getIp = (chip.channel place).getIp := by
    rcases Side.eq_or_other side place with rfl | rfl
    · rw [update_of_ne (Side.other_ne place).symm]
    · rw [update_self, same]
  refine enter_sound (Sound.congr sound (fun place => channels place _ ?_)) idle fun quiet => ?_
  · split
    · exact Channel.setWr2_getIp
    · rfl
  · dsimp only
    rw [update_of_ne (Side.other_ne side).symm]
    exact @Channel.access_getIp _ (.writeControl val) quiet

theorem start_sound : (chip.start side a).Sound := by
  have own : (chip.startOwn side a).Sound := by
    rw [startOwn]
    split
    next free => exact enter_sound sound free.1 Channel.access_getIp
    · exact sound
  cases a with
  | writeControl val =>
    rw [start]
    split
    next free => exact enterControl_sound sound free.1
    · exact sound
  | wr2 val => exact sound
  | readControl | readData | writeData | receive | transmit | notifyTxEmpty | reset | load =>
    exact own

/-- Publishing: the line is behind from here on, and what the other channel has read still
says whether this one asks for the line. -/
theorem publish_sound (progress : chip.progress side = .publish left)
    (timely : chip.Timely (.advance side)) : (chip.advance side).Sound := by
  rw [advance, progress]
  constructor
  · intro place
    dsimp only
    by_cases here : place = side
    · subst here
      rw [update_self, update_self]
      exact ⟨rfl, rfl⟩
    · rw [update_of_ne here, update_of_ne here]
      exact sound.own place
  · intro place left' ip other drives
    dsimp only at drives ⊢
    rcases Side.eq_or_other side place with rfl | rfl
    · rw [update_self] at drives
      cases drives
    rw [update_of_ne (Side.other_ne side)] at drives
    rw [Side.other_other, update_self]
    have before := sound.seen _ _ _ _ drives
    rw [Side.other_other] at before
    rw [Timely, progress, drives] at timely
    exact before.trans timely.symm
  · intro quiet
    have driving := quiet side
    dsimp only at driving
    rw [update_self] at driving
    exact absurd trivial driving

theorem read_sound {ip : Byte} (progress : chip.progress side = .read left ip) :
    (chip.advance side).Sound := by
  have published := sound.own side
  rw [progress] at published
  rw [advance, progress]
  constructor
  · intro place
    dsimp only
    by_cases here : place = side
    · subst here
      rw [update_self]
      exact published
    · rw [update_of_ne here]
      exact sound.own place
  · intro place left' own other drives
    dsimp only at drives ⊢
    by_cases here : place = side
    · subst here
      rw [update_self] at drives
      cases drives
      exact Iff.rfl
    · rw [update_of_ne here] at drives
      exact sound.seen place left' own other drives
  · intro quiet
    have driving := quiet side
    dsimp only at driving
    rw [update_self] at driving
    exact absurd trivial driving

/-- Driving: the line is as asked, whatever the other channel is at. -/
theorem drive_sound {ip : Byte} (progress : chip.progress side = .drive left ip other) :
    (chip.advance side).Sound := by
  have published := sound.own side
  rw [progress] at published
  obtain ⟨rfl, flag⟩ := published
  have read := sound.seen side left _ other progress
  rw [advance, progress]
  constructor
  · intro place
    dsimp only
    by_cases here : place = side
    · subst here
      rw [update_self]
      cases left with
      | zero => exact flag
      | succ left => trivial
    · rw [update_of_ne here]
      exact sound.own place
  · intro place left' own other' drives
    dsimp only at drives ⊢
    by_cases here : place = side
    · subst here
      rw [update_self] at drives
      cases left <;> cases drives
    · rw [update_of_ne here] at drives
      exact sound.seen place left' own other' drives
  · intro _
    have none : chip.ip side ||| other = 0 ↔ chip.ip side = 0 ∧ other = 0 :=
      BitVec.or_eq_zero_iff
    have level : (chip.ip side ||| other != 0) =
        (chip.ip side != 0 || chip.ip side.other != 0) := by
      rw [Bool.eq_iff_iff]
      simp only [bne_iff_ne, Bool.or_eq_true, ne_eq, none, read, not_and_or]
    exact level.trans (asked_side).symm

theorem advance_sound (timely : chip.Timely (.advance side)) : (chip.advance side).Sound := by
  cases progress : chip.progress side with
  | idle =>
    rw [advance, progress]
    exact sound
  | publish left => exact publish_sound sound progress timely
  | read left ip => exact read_sound sound progress
  | drive left ip other => exact drive_sound sound progress

theorem step_sound (timely : chip.Timely event) : (chip.step event).Sound := by
  cases event with
  | start side a => exact start_sound sound
  | advance side => exact advance_sound sound timely

end

/-- In every interleaving of the two channels' accesses in which no flag is published that
changes the line under the other channel's hands, the line is high, whenever no update is in
progress, iff a channel has a pending interrupt that is enabled. -/
theorem line_eq_pending {events : List Event} (timely : Along step Timely new events)
    (settled : ∀ side, (events.foldl step new).progress side = .idle) :
    (events.foldl step new).line = true ↔
      ∃ side, ((events.foldl step new).channel side).getIp ≠ 0 := by
  have sound : (events.foldl step new).Sound :=
    Along.keeps timely (fun _ _ before condition => step_sound before condition) new_sound
  have flags (side : Side) : (events.foldl step new).ip side =
      ((events.foldl step new).channel side).getIp := by
    have published := sound.own side
    rwa [settled side] at published
  rw [sound.line fun side driving => by rwa [settled side] at driving, asked, Bool.or_eq_true,
    bne_iff_ne, bne_iff_ne, flags, flags]
  constructor
  · rintro (pending | pending)
    · exact ⟨.a, pending⟩
    · exact ⟨.b, pending⟩
  · rintro ⟨side, pending⟩
    cases side
    · exact .inl pending
    · exact .inr pending

def controlWrite (side : Side) (val : Byte) : List Event :=
  [.start side (.writeControl val), .advance side, .advance side, .advance side]

/-- Both receivers on, with interrupts on every character, and a character in channel A. -/
def bothReceiving : List Event :=
  controlWrite .a 0x03 ++ controlWrite .a 0x01 ++ controlWrite .a 0x01 ++ controlWrite .a 0x10 ++
    controlWrite .b 0x03 ++ controlWrite .b 0x01 ++ controlWrite .b 0x01 ++
    controlWrite .b 0x10 ++
    [.start .a (.receive 0x41), .advance .a, .advance .a, .advance .a]

/-- The character of channel A is read, and then one arrives in channel B. -/
def oneAfterOther : List Event :=
  bothReceiving ++ [.start .a .readData, .advance .a, .advance .a, .advance .a,
    .start .b (.receive 0x42), .advance .b, .advance .b, .advance .b]

theorem oneAfterOther_line :
    Along step Timely new oneAfterOther ∧
    (∀ side, (oneAfterOther.foldl step new).progress side = .idle) ∧
    ((oneAfterOther.foldl step new).line = true ↔
      ∃ side, ((oneAfterOther.foldl step new).channel side).getIp ≠ 0) :=
  ⟨by decide +kernel, fun side => by cases side <;> decide +kernel,
    line_eq_pending (by decide +kernel) fun side => by cases side <;> decide +kernel⟩

/-- The character of channel A is read while one arrives in channel B: A publishes that it has
none, reads that B has none, and drives the line low after B has driven it high. -/
def bothAtOnce : List Event :=
  bothReceiving ++ [.start .a .readData, .advance .a, .advance .a,
    .start .b (.receive 0x42), .advance .b, .advance .b, .advance .b, .advance .a]

theorem bothAtOnce_loses_line :
    (∀ side, (bothAtOnce.foldl step new).progress side = .idle) ∧
    ((bothAtOnce.foldl step new).channel .b).getIp = 0x4 ∧
    (bothAtOnce.foldl step new).line = false :=
  ⟨fun side => by cases side <;> decide +kernel, by decide +kernel, by decide +kernel⟩

end Chip

end Iris.Scc
