import Iris.Library.Flags

/-!
Owns the 16550A register interface: the register file, the receive FIFO and its
trigger levels, interrupt identification in priority order, loopback, the FIFO
character timeout and the divisor latch. Transmit is instant, and the host end is
polled.
-/

namespace Iris.Serial

open Library.Flags

abbrev Byte := BitVec 8

def fifoLength : Nat := 16

def outKeep : Nat := 64 * 1024

/-! ### Register numbers and bits -/

namespace Reg

def thr : Nat := 0
def ier : Nat := 1
def iirFcr : Nat := 2
def lcr : Nat := 3
def mcr : Nat := 4
def lsr : Nat := 5
def msr : Nat := 6

end Reg

def lcrDlab : Byte := 0x80
def lcrPen : Byte := 0x08
def lcrNstb : Byte := 0x04
def lcrWls : Byte := 0x03

def ierRx : Byte := 0x01
def ierTx : Byte := 0x02
def ierRls : Byte := 0x04
def ierMs : Byte := 0x08

def iirNone : Byte := 0x01
def iirId : Byte := 0x06
def iirMsi : Byte := 0x00
def iirTxEmpty : Byte := 0x02
def iirRxData : Byte := 0x04
def iirRlsi : Byte := 0x06
def iirCti : Byte := 0x0c
def iirFifo : Byte := 0xc0

def fcrFe : Byte := 0x01
def fcrRfr : Byte := 0x02
def fcrXfr : Byte := 0x04

def lsrDr : Byte := 0x01
def lsrOe : Byte := 0x02
def lsrBi : Byte := 0x10
def lsrThre : Byte := 0x20
def lsrTemt : Byte := 0x40
def lsrIntAny : Byte := 0x1e

def mcrDtr : Byte := 0x01
def mcrRts : Byte := 0x02
def mcrOut1 : Byte := 0x04
def mcrOut2 : Byte := 0x08
def mcrLoop : Byte := 0x10

def msrDcts : Byte := 0x01
def msrDdsr : Byte := 0x02
def msrTeri : Byte := 0x04
def msrDdcd : Byte := 0x08
def msrAnyDelta : Byte := 0x0f
def msrCts : Byte := 0x10
def msrDsr : Byte := 0x20
def msrRi : Byte := 0x40
def msrDcd : Byte := 0x80

/-- Ten bit times at 9600 baud, in nanoseconds. -/
def resetCharTime : Nat := 1000000000 / 9600 * 10

def msrIdleLevels : Byte := msrDcd ||| msrDsr ||| msrCts

/-! ### The port -/

/-- How long a character takes on the line, in nanoseconds, from the reference clock,
the divisor and the bits of a frame. -/
abbrev CharTime := Nat → BitVec 16 → Nat → Nat

/-- A port. `backend` holds what the host end will answer each time it is asked for a
character, and `line` what it was sent. -/
structure Ns16550 where
  backend : List (Option Byte)
  line : List Byte := []
  baudbase : Nat
  divider : BitVec 16 := 0
  rbr : Byte := 0
  ier : Byte := 0
  iir : Byte := iirNone
  lcr : Byte := 0
  mcr : Byte := 0
  lsr : Byte := 0
  msr : Byte := 0
  scr : Byte := 0
  fcr : Byte := 0
  recvFifo : List Byte := []
  recvFifoItl : Nat := 1
  thrIpending : Bool := false
  timeoutIpending : Bool := false
  timeoutDeadline : Option Nat := none
  charTransmitTime : Nat := resetCharTime
  typed : List Byte := []
  out : List Byte := []
  sent : Nat := 0

namespace Ns16550

variable (charTime : CharTime) (now : Nat) (byte : Byte) (port : Ns16550)

def reset : Ns16550 :=
  { port with
    rbr := 0
    ier := 0
    iir := iirNone
    lcr := 0
    lsr := lsrTemt ||| lsrThre
    msr := msrIdleLevels
    divider := 0x0c
    mcr := mcrOut2
    scr := 0
    fcr := 0
    recvFifoItl := 1
    charTransmitTime := resetCharTime
    timeoutIpending := false
    timeoutDeadline := none
    recvFifo := []
    thrIpending := false }

def new (baudbase : Nat) (backend : List (Option Byte)) : Ns16550 :=
  ({ backend, baudbase } : Ns16550).reset

def fifosEnabled : Bool := has port.fcr fcrFe

def dlab : Bool := has port.lcr lcrDlab

def loopback : Bool := has port.mcr mcrLoop

def dataReady : Bool := has port.lsr lsrDr

/-- True while the port is asking for attention. -/
def irq : Bool := !has port.iir iirNone

/-! ### Interrupt identification -/

def cause : Byte :=
  if has port.ier ierRls && has port.lsr lsrIntAny then iirRlsi
  else if has port.ier ierRx && port.timeoutIpending then iirCti
  else if has port.ier ierRx && port.dataReady &&
      (!port.fifosEnabled || port.recvFifoItl ≤ port.recvFifo.length) then iirRxData
  else if has port.ier ierTx && port.thrIpending then iirTxEmpty
  else if has port.ier ierMs && has port.msr msrAnyDelta then iirMsi
  else iirNone

def updateIrq : Ns16550 :=
  { port with iir := port.cause ||| (port.iir &&& 0xf0) }

def frameBits (lcr : Byte) : Nat :=
  1 + (if has lcr lcrPen then 1 else 0) + ((lcr &&& lcrWls).toNat + 5 +
    if has lcr lcrNstb then 2 else 1)

def updateParameters : Ns16550 :=
  { port with charTransmitTime := charTime port.baudbase port.divider (frameBits port.lcr) }

def setBaudbase (baudbase : Nat) (port : Ns16550) : Ns16550 :=
  ({ port with baudbase } : Ns16550).updateParameters charTime

/-! ### Receive -/

def readRbr : Byte × Ns16550 :=
  if port.fifosEnabled then
    let value := port.recvFifo.head?.getD 0
    let rest := port.recvFifo.tail
    let port :=
      if rest.isEmpty then
        { port with
          recvFifo := rest
          lsr := port.lsr &&& ~~~(lsrDr ||| lsrBi)
          timeoutDeadline := none
          timeoutIpending := false }
      else
        { port with
          recvFifo := rest
          timeoutDeadline := some (now + port.charTransmitTime * 4)
          timeoutIpending := false }
    (value, port.updateIrq)
  else
    (if port.dataReady then port.rbr else 0,
      ({ port with lsr := port.lsr &&& ~~~(lsrDr ||| lsrBi) } : Ns16550).updateIrq)

/-- How many characters the port will take now: with the FIFOs on, up to the trigger
level. -/
def canReceive : Nat :=
  if port.fifosEnabled then
    let used := port.recvFifo.length
    if fifoLength ≤ used then 0
    else if used ≤ port.recvFifoItl then port.recvFifoItl - used
    else 1
  else if port.dataReady then 0 else 1

/-- A character for the FIFO; an overrun does not overwrite its contents. -/
def push (byte : Byte) : Ns16550 :=
  if port.recvFifo.length < fifoLength then { port with recvFifo := port.recvFifo ++ [byte] }
  else { port with lsr := port.lsr ||| lsrOe }

def receive (buf : List Byte) (port : Ns16550) : Ns16550 :=
  match buf with
  | [] => port
  | first :: _ =>
    if port.fifosEnabled then
      let port := buf.foldl push port
      ({ port with
        lsr := port.lsr ||| lsrDr
        timeoutDeadline := some (now + port.charTransmitTime * 4) } : Ns16550).updateIrq
    else
      let port :=
        if port.dataReady then { port with lsr := port.lsr ||| lsrOe }
        else { port with rbr := first }
      ({ port with lsr := port.lsr ||| lsrDr } : Ns16550).updateIrq

/-- The next character: a typed one, or what the host end answers. -/
def recvByte : Option Byte × Ns16550 :=
  match port.typed with
  | byte :: rest => (some byte, { port with typed := rest })
  | [] =>
    match port.backend with
    | answer :: rest => (answer, { port with backend := rest })
    | [] => (none, port)

/-- Up to `n` characters, as far as there are any. -/
def gather : Nat → Ns16550 → List Byte × Ns16550
  | 0, port => ([], port)
  | n + 1, port =>
    match port.recvByte with
    | (none, port) => ([], port)
    | (some byte, port) =>
      let (more, port) := gather n port
      (byte :: more, port)

/-- The loop of `pump`. Each turn takes a character or is the last. -/
def pumpLoop (now : Nat) : Nat → Bool → Ns16550 → Bool × Ns16550
  | 0, moved, port => (moved, port)
  | fuel + 1, moved, port =>
    if port.canReceive = 0 then (moved, port)
    else
      match port.gather port.canReceive with
      | ([], port) => (moved, port)
      | (buf, port) => pumpLoop now fuel true (port.receive now buf)

/-- Loopback disconnects the serial input: what arrives goes nowhere. -/
def dropInput : Ns16550 :=
  { port with
    typed := []
    backend := (port.backend.dropWhile Option.isSome).tail }

/-- Take what the host has typed, as far as the port will accept it, and say whether
anything arrived. -/
def pump : Bool × Ns16550 :=
  if port.loopback then (false, port.dropInput)
  else pumpLoop now (port.typed.length + port.backend.length + 1) false port

def typeIn (bytes : List Byte) (port : Ns16550) : Ns16550 :=
  (({ port with typed := port.typed ++ bytes } : Ns16550).pump now).2

/-- Characters left unread for four character times raise the timeout cause. -/
def checkTimeout : Bool × Ns16550 :=
  match port.timeoutDeadline with
  | none => (false, port)
  | some deadline =>
    if deadline ≤ now then
      let port := { port with timeoutDeadline := none }
      if port.recvFifo.isEmpty then (false, port)
      else (true, ({ port with timeoutIpending := true } : Ns16550).updateIrq)
    else (false, port)

/-! ### Transmit and modem control -/

/-- The modem status inputs follow the outputs in loopback and sit at their idle levels
otherwise; a change latches the delta bits. -/
def updateModemLevels : Ns16550 :=
  let new :=
    if port.loopback then
      ((port.mcr &&& (mcrOut1 ||| mcrOut2)) <<< 4) ||| ((port.mcr &&& mcrRts) <<< 3) |||
        ((port.mcr &&& mcrDtr) <<< 5)
    else msrIdleLevels
  let old := port.msr &&& 0xf0
  let delta := ((new ^^^ old) >>> 4) &&& (msrDcts ||| msrDdsr ||| msrDdcd)
  let delta := if has old msrRi && !has new msrRi then delta ||| msrTeri else delta
  ({ port with msr := new ||| (port.msr &&& msrAnyDelta) ||| delta } : Ns16550).updateIrq

def send (byte : Byte) : Ns16550 :=
  { port with
    out := (if port.out.length = outKeep then port.out.tail else port.out) ++ [byte]
    sent := port.sent + 1
    line := port.line ++ [byte] }

def beginTransmit : Ns16550 :=
  ({ port with
    thrIpending := false
    lsr := port.lsr &&& ~~~(lsrThre ||| lsrTemt) } : Ns16550).updateIrq

def endTransmit : Ns16550 :=
  ({ port with
    lsr := port.lsr ||| (lsrThre ||| lsrTemt)
    thrIpending := true } : Ns16550).updateIrq

/-- A write of the holding register and the transmit it starts, which completes at
once. -/
def writeThr : Ns16550 :=
  let port := port.beginTransmit
  (if port.loopback then port.receive now [byte] else port.send byte).endTransmit

/-! ### The register file -/

def flushReceive : Ns16550 :=
  { port with
    lsr := port.lsr &&& ~~~(lsrDr ||| lsrBi)
    timeoutDeadline := none
    timeoutIpending := false
    recvFifo := [] }

def flushTransmit : Ns16550 :=
  { port with lsr := port.lsr ||| lsrThre, thrIpending := true }

def triggerLevel (fcr : Byte) : Nat :=
  match (fcr &&& 0xc0).toNat with
  | 0x00 => 1
  | 0x40 => 4
  | 0x80 => 8
  | _ => 14

/-- Only the bits that stick. -/
def setFcr : Ns16550 :=
  let fcr := byte &&& 0xc9
  if has fcr fcrFe then
    { port with fcr, iir := port.iir ||| iirFifo, recvFifoItl := triggerLevel fcr }
  else { port with fcr, iir := port.iir &&& ~~~iirFifo }

/-- Both sides are flushed when the enable changes. -/
def writeFcr : Ns16550 :=
  let byte := if has (byte ^^^ port.fcr) fcrFe then byte ||| (fcrXfr ||| fcrRfr) else byte
  let port := if has byte fcrRfr then port.flushReceive else port
  let port := if has byte fcrXfr then port.flushTransmit else port
  (port.setFcr byte).updateIrq

/-- The receive buffer: the host may have typed since the last look, and may deliver
more once the guest has made room. -/
def readData : Byte × Ns16550 :=
  let (_, port) := port.pump now
  let (value, port) := port.readRbr now
  let (_, port) := port.pump now
  (value, port)

def readIir : Byte × Ns16550 :=
  let (_, port) := port.checkTimeout now
  if port.iir &&& iirId = iirTxEmpty then
    (port.iir, ({ port with thrIpending := false } : Ns16550).updateIrq)
  else (port.iir, port)

/-- Reading clears the break and overrun latches. -/
def readLsr : Byte × Ns16550 :=
  let (_, port) := port.pump now
  let (_, port) := port.checkTimeout now
  if has port.lsr (lsrBi ||| lsrOe) then
    (port.lsr, ({ port with lsr := port.lsr &&& ~~~(lsrBi ||| lsrOe) } : Ns16550).updateIrq)
  else (port.lsr, port)

def readMsr : Byte × Ns16550 :=
  if has port.msr msrAnyDelta then
    (port.msr, ({ port with msr := port.msr &&& 0xf0 } : Ns16550).updateIrq)
  else (port.msr, port)

def read (reg : Nat) (port : Ns16550) : Byte × Ns16550 :=
  match reg % 8 with
  | 0 => if port.dlab then (port.divider.setWidth 8, port) else port.readData now
  | 1 => (if port.dlab then (port.divider >>> 8).setWidth 8 else port.ier, port)
  | 2 => port.readIir now
  | 3 => (port.lcr, port)
  | 4 => (port.mcr, port)
  | 5 => port.readLsr now
  | 6 => port.readMsr
  | _ => (port.scr, port)

def writeIer : Ns16550 :=
  let changed := (port.ier ^^^ byte) &&& 0x0f
  let port := { port with ier := byte &&& 0x0f }
  let port :=
    -- Turning the transmit interrupt on with the holding register empty raises it.
    if has changed ierTx then
      { port with thrIpending := has port.ier ierTx && has port.lsr lsrThre }
    else port
  if changed = 0 then port else port.updateIrq

def write (reg : Nat) (byte : Byte) (port : Ns16550) : Ns16550 :=
  match reg % 8 with
  | 0 =>
    if port.dlab then
      ({ port with divider := (port.divider &&& 0xff00) ||| byte.setWidth 16 } :
        Ns16550).updateParameters charTime
    else port.writeThr now byte
  | 1 =>
    if port.dlab then
      ({ port with divider := (port.divider &&& 0x00ff) ||| (byte.setWidth 16 <<< 8) } :
        Ns16550).updateParameters charTime
    else port.writeIer byte
  | 2 => port.writeFcr byte
  | 3 => ({ port with lcr := byte } : Ns16550).updateParameters charTime
  | 4 => ({ port with mcr := byte &&& 0x1f } : Ns16550).updateModemLevels
  | 5 => port
  | 6 => port
  | _ => { port with scr := byte }

/-! ### A DMA engine in front of the port -/

def dmaWrite : Ns16550 := port.writeThr now byte

/-- The character and the line status that came with it. -/
def dmaRead : Option (Byte × Byte) × Ns16550 :=
  let (_, port) := port.pump now
  if port.dataReady then
    let (status, port) := port.read now Reg.lsr
    let (byte, port) := port.readRbr now
    (some (byte, status), port)
  else (none, port)

def dmaModemControl : Ns16550 :=
  port.write charTime now Reg.mcr byte

end Ns16550

end Iris.Serial
