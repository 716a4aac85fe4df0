import Iris.Library.Flags
import Iris.Snapshot.Toml

/-!
Owns the IOC: its registers under guest accesses of each width, the interrupt sources that
drive its status bits, the CPU lines it drives from them, power-on and snapshots. The serial
chip, the timer chip and the keyboard controller behind its address window are devices of
their own: an access to them is passed on.
-/

namespace Iris.Ioc

open Library.Flags Snapshot

abbrev Byte := BitVec 8

/-! ### Registers -/

/-- The byte-wide registers that a snapshot keeps. -/
inductive Register
  | l0Stat
  | l0Mask
  | l1Stat
  | l1Mask
  | mapStat
  | mapMask0
  | mapMask1
  | mapPol
  | errStat
  | portConfig
  | gcSelect
  | genCntl
  | panel
  | readReg
  | dmaSel
  | resetReg
  | writeReg
deriving DecidableEq, Repr

/-- The IOC. `interrupts` is the CPU's word of interrupt lines, which other devices change too. -/
structure IocState where
  sysId : Byte
  reg : Register → Byte
  /-- The sources of the GIO slots, active low. -/
  extIo : BitVec 16
  /-- GEN_CNTL bit 0 low clears the vertical-retrace latch: an Indy with GR2 graphics. -/
  genCntlRetraceAck : Bool
  interrupts : BitVec 64

def extIoIdle : BitVec 16 := 0xFFFF

/-- Bits of the local and mappable status registers. -/
def mapInt0 : Byte := 1 <<< 7

def mapInt1 : Byte := 1 <<< 3

def verticalRetrace : Byte := 1 <<< 7

def causeIp2 : BitVec 64 := 1 <<< 10

def causeIp3 : BitVec 64 := 1 <<< 11

def causeIp4 : BitVec 64 := 1 <<< 12

def causeIp5 : BitVec 64 := 1 <<< 13

def causeIp6 : BitVec 64 := 1 <<< 14

def ownedLines : BitVec 64 := causeIp2 ||| causeIp3 ||| causeIp4 ||| causeIp5 ||| causeIp6

variable (s : IocState) (addr : BitVec 64) (val : Byte)

namespace IocState

def set (r : Register) (val : Byte) : IocState :=
  { s with reg := Function.update s.reg r val }

def mark (r : Register) (bits : Byte) (active : Bool) : IocState :=
  s.set r (if active then s.reg r ||| bits else s.reg r &&& ~~~bits)

/-! ### The CPU lines -/

def ip2 : Bool := has (s.reg .l0Stat) (s.reg .l0Mask)

def ip3 : Bool := has (s.reg .l1Stat) (s.reg .l1Mask)

def ip4 : Bool := has (s.reg .mapStat) 0x01

def ip5 : Bool := has (s.reg .mapStat) 0x02

def ip6 : Bool := s.reg .errStat != 0

/-- The lines that are high, or those that are low. -/
def linesAt (level : Bool) : BitVec 64 :=
  (if s.ip2 = level then causeIp2 else 0) ||| (if s.ip3 = level then causeIp3 else 0) |||
    (if s.ip4 = level then causeIp4 else 0) ||| (if s.ip5 = level then causeIp5 else 0) |||
    (if s.ip6 = level then causeIp6 else 0)

/-- The summary bits of the mappable sources, and then the CPU lines. -/
def updateInterrupts : IocState :=
  let mapStat := s.reg .mapStat
  let s := s.mark .l0Stat mapInt0 (has mapStat (s.reg .mapMask0))
  let s := s.mark .l1Stat mapInt1 (has mapStat (s.reg .mapMask1))
  { s with interrupts := (s.interrupts ||| s.linesAt true) &&& ~~~s.linesAt false }

end IocState

/-! ### Sources -/

inductive IocInterrupt
  | graphics
  | parallel
  | mcDma
  | ethernet
  | scsi1
  | scsi0
  | fifoFull
  | verticalRetrace
  | videoVsync
  | acFail
  | hpcDma
  | gp2
  | panel
  | gp0
  | serial
  | kbMouse
  | gioExp0
  | gioExp1
  | mappable0
  | mappable1
  | mappable2
  | mappable3
  | gioSgFifo
  | gioSgGraphics
  | gioSgRetrace
  | gioS0Fifo
  | gioS0Graphics
  | gioS0Retrace
  | gioS1Fifo
  | gioS1Graphics
  | gioS1Retrace
deriving DecidableEq, Repr

namespace IocInterrupt

/-- The status bit of a source. The three GIO slots share theirs. -/
def place : IocInterrupt → Register × Fin 8
  | graphics | gioSgGraphics | gioS0Graphics | gioS1Graphics => (.l0Stat, 6)
  | parallel => (.l0Stat, 5)
  | mcDma => (.l0Stat, 4)
  | ethernet => (.l0Stat, 3)
  | scsi1 => (.l0Stat, 2)
  | scsi0 => (.l0Stat, 1)
  | fifoFull | gioSgFifo | gioS0Fifo | gioS1Fifo => (.l0Stat, 0)
  | verticalRetrace | gioSgRetrace | gioS0Retrace | gioS1Retrace => (.l1Stat, 7)
  | videoVsync => (.l1Stat, 6)
  | acFail => (.l1Stat, 5)
  | hpcDma => (.l1Stat, 4)
  | gp2 => (.l1Stat, 2)
  | panel => (.l1Stat, 1)
  | gp0 => (.l1Stat, 0)
  | gioExp1 => (.mapStat, 7)
  | gioExp0 => (.mapStat, 6)
  | serial => (.mapStat, 5)
  | kbMouse => (.mapStat, 4)
  | mappable3 => (.mapStat, 3)
  | mappable2 => (.mapStat, 2)
  | mappable1 => (.mapStat, 1)
  | mappable0 => (.mapStat, 0)

/-- The EXT_IO bit that tells the slots apart; the third slot has none. -/
def extIoBit : IocInterrupt → BitVec 16
  | gioSgRetrace => 1 <<< 8
  | gioSgGraphics => 1 <<< 9
  | gioSgFifo => 1 <<< 10
  | gioS0Retrace => 1 <<< 12
  | gioS0Graphics => 1 <<< 13
  | gioS0Fifo => 1 <<< 14
  | _ => 0

end IocInterrupt

namespace IocState

def retracePlace : Register × Fin 8 := (.l1Stat, 7)

/-- A source drives its status bit and its EXT_IO bit. -/
def setSource (source : IocInterrupt) (active : Bool) : IocState :=
  let (r, bit) := source.place
  let s := s.mark r (1#8 <<< bit.val) active
  let s := { s with
    extIo := if active then s.extIo &&& ~~~source.extIoBit else s.extIo ||| source.extIoBit }
  s.updateInterrupts

/-- A level a GIO board drives in EXT_IO. -/
def setExtIoLevel (bits : BitVec 16) (high : Bool) : IocState :=
  { s with extIo := if high then s.extIo ||| bits else s.extIo &&& ~~~bits }

def timerFired (timer : Fin 2) : IocState :=
  (s.mark .mapStat (1#8 <<< timer.val) true).updateInterrupts

def clearTimers : IocState := s.mark .mapStat (val &&& 0x3) false

/-! ### Guest accesses -/

end IocState

def iocBase : BitVec 64 := 0x1FBD9800

def int2Base : BitVec 64 := 0x1FBD9000

/-- What an access reaches: a value of the IOC's own, or a device behind it. -/
inductive Answer (w : Nat)
  | value (v : BitVec w)
  | scc (idx : Nat)
  | pit (idx : Nat)
  | ps2Data
  | ps2Status
  | error
deriving DecidableEq, Repr

/-- The offset in the IOC's window, `unit` bytes aligned. -/
def offsetOf (unit : BitVec 32) : Nat :=
  ((addr - iocBase).setWidth 32 &&& ~~~(unit - 1)).toNat

def inInt2 : Bool := int2Base ≤ addr ∧ addr < int2Base + 64

def int2Index : Nat := ((addr - int2Base).toNat >>> 2) &&& 0xF

def int2Register : Nat → Option Register
  | 0 => some .l0Stat
  | 1 => some .l0Mask
  | 2 => some .l1Stat
  | 3 => some .l1Mask
  | 4 => some .mapStat
  | 5 => some .mapMask0
  | 6 => some .mapMask1
  | 7 => some .portConfig
  | _ => none

/-- The registers of the IOC's window that read back. -/
def iocRegister : Nat → Option Register
  | 0x48 => some .gcSelect
  | 0x4C => some .genCntl
  | 0x50 => some .panel
  | 0x60 => some .readReg
  | 0x68 => some .dmaSel
  | 0x70 => some .resetReg
  | 0x78 => some .writeReg
  | 0x80 => some .l0Stat
  | 0x84 => some .l0Mask
  | 0x88 => some .l1Stat
  | 0x8C => some .l1Mask
  | 0x90 => some .mapStat
  | 0x94 => some .mapMask0
  | 0x98 => some .mapMask1
  | 0x9C => some .mapPol
  | 0xA4 => some .errStat
  | _ => none

def passedOn (offset : Nat) : Option (Answer 8) :=
  if 0x30 ≤ offset ∧ offset ≤ 0x3C then some (.scc ((offset - 0x30) >>> 2))
  else if 0xB0 ≤ offset ∧ offset ≤ 0xBC + 3 then some (.pit ((offset - 0xB0) >>> 2))
  else if offset = 0x40 then some .ps2Data
  else if offset = 0x44 then some .ps2Status
  else none

namespace IocState

def int2Read8 (idx : Nat) : Answer 8 :=
  if 12 ≤ idx then .pit (idx - 12)
  else .value ((int2Register idx).elim 0 s.reg)

def read8 : Answer 8 :=
  if inInt2 addr then s.int2Read8 (int2Index addr)
  else
    let offset := offsetOf addr 4
    match passedOn offset with
    | some passed => passed
    | none => .value (if offset = 0x58 then s.sysId else (iocRegister offset).elim 0 s.reg)

def read16 : Answer 16 :=
  if offsetOf addr 2 = 0x100 then .value s.extIo else .error

def read32 : Answer 32 :=
  let aligned := addr &&& ~~~3
  if offsetOf aligned 1 = 0x100 then .value (s.extIo.setWidth 32)
  else
    match s.read8 aligned with
    | .value v => .value (v.setWidth 32)
    | .scc idx => .scc idx
    | .pit idx => .pit idx
    | .ps2Data => .ps2Data
    | .ps2Status => .ps2Status
    | .error => .error

/-- PANEL: bits 6, 4 and 1 are cleared by ones, bit 0 is written. -/
def writePanel : IocState :=
  let current := s.reg .panel &&& ~~~(val &&& 0x52)
  s.set .panel ((current &&& ~~~1) ||| (val &&& 1))

def writeGenCntl : IocState :=
  let s := if s.genCntlRetraceAck ∧ val &&& 1 = 0 then s.mark .l1Stat verticalRetrace false else s
  s.set .genCntl val

/-- PORT_CONFIG: a strobe that is low clears the retrace latch that the slots share, and its
own slot's EXT_IO bit. -/
def writePortConfig : IocState :=
  let s :=
    if val &&& 0x18 ≠ 0x18 then
      let s := s.mark .l1Stat verticalRetrace false
      let s := if val &&& 0x08 = 0 then
        { s with extIo := s.extIo ||| IocInterrupt.gioSgRetrace.extIoBit } else s
      if val &&& 0x10 = 0 then
        { s with extIo := s.extIo ||| IocInterrupt.gioS0Retrace.extIoBit } else s
    else s
  s.set .portConfig val

/-- What a write to the compact window changes, before the lines are updated. -/
def int2WriteRegister (idx : Nat) (val : Byte) : IocState :=
  match idx with
  | 1 => s.set .l0Mask val
  | 3 => s.set .l1Mask val
  | 5 => s.set .mapMask0 val
  | 6 => s.set .mapMask1 val
  | 7 => s.writePortConfig val
  | 8 => s.clearTimers val
  | _ => s

def int2Write8 (idx : Nat) (val : Byte) : IocState :=
  if 12 ≤ idx then s else (s.int2WriteRegister idx val).updateInterrupts

/-- What a write to the IOC's window changes, before the lines are updated. -/
def writeRegister (offset : Nat) (val : Byte) : IocState :=
  match offset with
  | 0x48 => s.set .gcSelect val
  | 0x4C => s.writeGenCntl val
  | 0x50 => s.writePanel val
  | 0x68 => s.set .dmaSel val
  | 0x70 => s.set .resetReg val
  | 0x78 => s.set .writeReg val
  | 0x84 => s.set .l0Mask val
  | 0x8C => s.set .l1Mask val
  | 0x94 => s.set .mapMask0 val
  | 0x98 => s.set .mapMask1 val
  | 0x9C => s.set .mapPol val
  | 0xA0 => s.clearTimers val
  | _ => s

/-- An access that is passed on changes nothing here: what it does to an interrupt source
comes as a change of that source. -/
def write8 : IocState :=
  if inInt2 addr then s.int2Write8 (int2Index addr) val
  else
    let offset := offsetOf addr 4
    match passedOn offset with
    | some _ => s
    | none => (s.writeRegister offset val).updateInterrupts

def write16 (val : BitVec 16) : IocState :=
  if offsetOf addr 2 = 0x100 then { s with extIo := val } else s

def write32 (val : BitVec 32) : IocState :=
  let aligned := addr &&& ~~~3
  if offsetOf aligned 1 = 0x100 then { s with extIo := val.setWidth 16 }
  else s.write8 aligned (val.setWidth 8)

/-- Other devices change their lines of the CPU's word. -/
def setOthers (word : BitVec 64) : IocState :=
  { s with interrupts := (s.interrupts &&& ownedLines) ||| (word &&& ~~~ownedLines) }

/-! ### Power-on and snapshots -/

def resetRegs : Register → Byte
  | .panel => 1
  | .readReg => 0x70
  | _ => 0

/-- The board's identity, and an IOC that was just built for it, wired to a CPU. -/
def new (sysId : Byte) (genCntlRetraceAck : Bool) : IocState where
  sysId
  reg := resetRegs
  extIo := extIoIdle
  genCntlRetraceAck
  interrupts := 0

def powerOn : IocState :=
  { s with
    reg := resetRegs
    extIo := extIoIdle
    interrupts := s.interrupts &&& ~~~ownedLines }

end IocState

def Register.all : List Register :=
  [.l0Stat, .l0Mask, .l1Stat, .l1Mask, .mapStat, .mapMask0, .mapMask1, .mapPol, .errStat,
    .portConfig, .gcSelect, .genCntl, .panel, .readReg, .dmaSel, .resetReg, .writeReg]

def Register.key : Register → String
  | l0Stat => "l0_stat"
  | l0Mask => "l0_mask"
  | l1Stat => "l1_stat"
  | l1Mask => "l1_mask"
  | mapStat => "map_stat"
  | mapMask0 => "map_mask0"
  | mapMask1 => "map_mask1"
  | mapPol => "map_pol"
  | errStat => "err_stat"
  | portConfig => "port_config"
  | gcSelect => "gc_select"
  | genCntl => "gen_cntl"
  | panel => "panel"
  | readReg => "read_reg"
  | dmaSel => "dma_sel"
  | resetReg => "reset_reg"
  | writeReg => "write_reg"

namespace IocState

def saveState : Fields :=
  Register.all.map fun r => (r.key, .words (hexU8 (s.reg r)))

def loadState (v : Fields) (s : IocState) : IocState :=
  updateInterrupts
    { s with
      reg := fun r => Field.read (fun x => (tomlU8 x).getD (s.reg r)) (s.reg r) (getField v r.key) }

end IocState

end Iris.Ioc
