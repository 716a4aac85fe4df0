import Mathlib.Data.List.Basic
import Mathlib.Tactic.Ring

/-!
Owns the guest-facing TCP endpoint of the NAT: the handshake, the receive side
toward the backend, go-back-N sending toward the guest, and the close handshake.

Every call takes the host clock it reads once, in nanoseconds, and what the
backend answers: one outcome for each write or read the call makes. A list of
outcomes that ends early stands for a backend that would block. Frames are kept
as TCP header fields and data; addresses are not modelled.
-/

namespace Iris.Net.Tcp

abbrev Byte := BitVec 8

def rcvBuf : Nat := 65535
def sndBuf : Nat := 65535
def tcpMss : Nat := 1460
def defaultMss : Nat := 536
def rtoInitial : Nat := 200000000
def rtoMax : Nat := 4000000000
def giveUp : Nat := 60000000000
def halfClosedIdle : Nat := 120000000000

structure TcpFlags where
  fin : Bool := false
  syn : Bool := false
  rst : Bool := false
  psh : Bool := false
  ack : Bool := false
deriving DecidableEq, Repr

structure TcpSegment where
  seq : BitVec 32
  ack : BitVec 32
  flags : TcpFlags
  window : BitVec 16
  mss : Option (BitVec 16)
  payload : List Byte
deriving DecidableEq, Repr

structure Frame where
  seq : BitVec 32
  ack : BitVec 32
  flags : TcpFlags
  window : Nat
  mss : Option Nat
  data : List Byte
deriving DecidableEq, Repr

inductive State
  | connecting
  | synSent
  | synReceived
  | established
  | closed
deriving DecidableEq, Repr

/-! ### The backend -/

/-- What passed between a connection and its backend. -/
structure Backend where
  /-- Bytes the backend's writes accepted, in order. -/
  received : List Byte
  /-- The backend's write side was shut. -/
  writeShut : Bool
  /-- Bytes the backend's reads returned, in order. -/
  supplied : List Byte
deriving DecidableEq, Repr

def Backend.fresh : Backend := ⟨[], false, []⟩

inductive ConnectOutcome
  | pending
  | connected
  | failed
deriving DecidableEq, Repr

inductive WriteOutcome
  | accepted (count : Nat)
  | wouldBlock
  | interrupted
  | notConnected
  | failed
deriving DecidableEq, Repr

/-- No bytes is end of stream. -/
inductive ReadOutcome
  | bytes (data : List Byte)
  | wouldBlock
  | interrupted
  | failed
deriving DecidableEq, Repr

/-- What one call of `poll` reads from the outside. -/
structure PollInput where
  now : Nat
  budget : Nat
  connect : ConnectOutcome
  writes : List WriteOutcome
  reads : List ReadOutcome
deriving DecidableEq, Repr

structure TcpConn where
  state : State
  backend : Backend
  iss : BitVec 32
  sndUna : BitVec 32
  sndNxt : BitVec 32
  sndMax : BitVec 32
  unacked : List Byte
  peerWin : Nat
  peerMss : Nat
  rto : Nat
  rtoDeadline : Option Nat
  lastProgress : Nat
  irs : BitVec 32
  rcvNxt : BitVec 32
  toBackend : List Byte
  advWin : Nat
  guestFin : Bool
  backendShut : Bool
  backendEof : Bool
  finSent : Bool
  lastUse : Nat
  closedAt : Option Nat
  reset : Bool
deriving DecidableEq, Repr

/-- `a` is after `b` in sequence space. -/
def seqGt (a b : BitVec 32) : Bool := 0 < (a - b).toInt

def peerMssOf (tcp : TcpSegment) : Nat := min ((tcp.mss.map BitVec.toNat).getD defaultMss) tcpMss

namespace TcpConn

def accept (iss : BitVec 32) (now : Nat) (syn : TcpSegment) : TcpConn where
  state := .connecting
  backend := .fresh
  iss := iss
  sndUna := iss
  sndNxt := iss
  sndMax := iss
  unacked := []
  peerWin := syn.window.toNat
  peerMss := peerMssOf syn
  rto := rtoInitial
  rtoDeadline := none
  lastProgress := now
  irs := syn.seq
  rcvNxt := syn.seq + 1
  toBackend := []
  advWin := rcvBuf
  guestFin := false
  backendShut := false
  backendEof := false
  finSent := false
  lastUse := now
  closedAt := none
  reset := false

def openToGuest (iss : BitVec 32) (now : Nat) : TcpConn where
  state := .synSent
  backend := .fresh
  iss := iss
  sndUna := iss
  sndNxt := iss + 1
  sndMax := iss + 1
  unacked := []
  peerWin := 0
  peerMss := defaultMss
  rto := rtoInitial
  rtoDeadline := some (now + rtoInitial)
  lastProgress := now
  irs := 0
  rcvNxt := 0
  toBackend := []
  advWin := rcvBuf
  guestFin := false
  backendShut := false
  backendEof := false
  finSent := false
  lastUse := now
  closedAt := none
  reset := false

variable (conn : TcpConn)

def rcvWin : Nat := rcvBuf - conn.toBackend.length

def inFlight : BitVec 32 := conn.sndNxt - conn.sndUna

def seg (seq : BitVec 32) (flags : TcpFlags) (data : List Byte) : Frame where
  seq := seq
  ack := if flags.ack then conn.rcvNxt else 0
  flags := flags
  window := conn.rcvWin
  mss := if flags.syn then some tcpMss else none
  data := data

variable (now : Nat) (tcp : TcpSegment)

def armRto : TcpConn :=
  if conn.rtoDeadline = none then { conn with rtoDeadline := some (now + conn.rto) } else conn

def backoff : TcpConn :=
  let rto := min (conn.rto * 2) rtoMax
  { conn with rto, rtoDeadline := some (now + rto) }

/-- Note a segment going out that ends at `last`. -/
def sentTo (last : BitVec 32) : TcpConn :=
  { conn with sndNxt := last, sndMax := if seqGt last conn.sndMax then last else conn.sndMax }

/-- Reset the guest's side and close. -/
def abort : TcpConn × List Frame :=
  let conn := { conn with state := .closed, closedAt := some now, reset := false }
  (conn, [conn.seg conn.sndNxt { rst := true, ack := true } []])

/-! ### Receive side -/

/-- The write loop: hand the head of the buffer over until the backend stops. -/
def flushWrites (now : Nat) : TcpConn → List WriteOutcome → TcpConn
  | conn, [] => conn
  | conn, outcome :: rest =>
    if conn.toBackend = [] then conn
    else
      match outcome with
      | .accepted 0 => conn
      | .accepted count =>
        flushWrites now
          { conn with
            toBackend := conn.toBackend.drop count
            backend := { conn.backend with
              received := conn.backend.received ++ conn.toBackend.take count }
            lastUse := now } rest
      | .wouldBlock => conn
      | .interrupted => flushWrites now conn rest
      | .notConnected => conn
      | .failed => { conn with reset := true }

/-- Write what the backend takes; shut its write side after the guest's FIN. -/
def flushToBackend (writes : List WriteOutcome) : TcpConn :=
  let conn := flushWrites now conn writes
  if conn.guestFin ∧ conn.toBackend = [] ∧ ¬ conn.backendShut then
    { conn with backend := { conn.backend with writeShut := true }, backendShut := true }
  else conn

def closeIfDone : TcpConn :=
  if conn.state = .established ∧ conn.guestFin ∧ conn.finSent ∧ conn.sndUna = conn.sndMax ∧
      conn.toBackend = [] then
    { conn with state := .closed, closedAt := some now }
  else conn

def processAck : TcpConn :=
  if tcp.flags.ack then
    let conn :=
      if seqGt tcp.ack conn.sndUna ∧ ¬ seqGt tcp.ack conn.sndMax then
        let sndNxt := if seqGt tcp.ack conn.sndNxt then tcp.ack else conn.sndNxt
        { conn with
          unacked := conn.unacked.drop (tcp.ack - conn.sndUna).toNat
          sndUna := tcp.ack
          sndNxt
          rto := rtoInitial
          rtoDeadline := if tcp.ack = sndNxt then none else some (now + rtoInitial)
          lastProgress := now }
      else conn
    { conn with peerWin := tcp.window.toNat }
  else conn

/-- Only what continues the stream at `rcvNxt`, and only what fits. -/
def processData : TcpConn :=
  if tcp.payload = [] then conn
  else
    let behind := conn.rcvNxt - tcp.seq
    if 0 ≤ behind.toInt ∧ behind.toNat < tcp.payload.length ∧ ¬ conn.guestFin then
      let fresh := tcp.payload.drop behind.toNat
      let take := min fresh.length (rcvBuf - conn.toBackend.length)
      { conn with
        toBackend := conn.toBackend ++ fresh.take take
        rcvNxt := conn.rcvNxt + BitVec.ofNat 32 take }
    else conn

/-- A FIN counts only when every byte before it is in. -/
def processFin : TcpConn :=
  if tcp.flags.fin ∧ tcp.seq + BitVec.ofNat 32 tcp.payload.length = conn.rcvNxt ∧
      ¬ conn.guestFin then
    { conn with rcvNxt := conn.rcvNxt + 1, guestFin := true }
  else conn

/-- The part of `input` after the handshake. -/
def inputEstablished (writes : List WriteOutcome) : TcpConn × List Frame :=
  let conn := ((conn.processAck now tcp).processData tcp).processFin tcp
  let conn := conn.flushToBackend now writes
  if tcp.payload ≠ [] ∨ tcp.flags.fin then
    let conn := { conn with advWin := conn.rcvWin }
    (conn.closeIfDone now, [conn.seg conn.sndNxt { ack := true } []])
  else (conn.closeIfDone now, [])

def input (writes : List WriteOutcome) : TcpConn × List Frame :=
  let conn := { conn with lastUse := now }
  if tcp.flags.rst then ({ conn with state := .closed, closedAt := some now }, [])
  else
    match conn.state with
    | .connecting => (conn, [])
    | .synSent =>
      if tcp.flags.syn ∧ tcp.flags.ack ∧ tcp.ack = conn.iss + 1 then
        let conn :=
          { conn with
            irs := tcp.seq
            rcvNxt := tcp.seq + 1
            sndUna := tcp.ack
            peerWin := tcp.window.toNat
            peerMss := peerMssOf tcp
            state := .established
            rto := rtoInitial
            rtoDeadline := none
            lastProgress := now }
        (conn, [conn.seg conn.sndNxt { ack := true } []])
      else if tcp.flags.syn ∨ tcp.flags.ack then ({ conn with reset := true }, [])
      else (conn, [])
    | .synReceived =>
      if tcp.flags.syn ∧ ¬ tcp.flags.ack then
        (conn, [conn.seg conn.iss { syn := true, ack := true } []])
      else if tcp.flags.ack ∧ tcp.ack = conn.iss + 1 then
        { conn with
          state := .established
          sndUna := tcp.ack
          rto := rtoInitial
          rtoDeadline := none
          lastProgress := now }.inputEstablished now tcp writes
      else (conn, [])
    | .established | .closed =>
      if tcp.flags.syn then (conn, [conn.seg conn.sndNxt { ack := true } []])
      else conn.inputEstablished now tcp writes

/-! ### Polling -/

def timedOut : Bool := conn.rtoDeadline.any fun deadline => deadline ≤ now

/-- The window update once the backend caught up. -/
def updateWindow (budget : Nat) : TcpConn × List Frame :=
  let win := conn.rcvWin
  if 0 < budget ∧ (conn.advWin + tcpMss ≤ win ∨ win = rcvBuf ∧ conn.advWin < win) then
    let conn := { conn with advWin := win }
    (conn, [conn.seg conn.sndNxt { ack := true } []])
  else (conn, [])

/-- A retransmission timeout: probe a zero window with one byte, or go back to
the first unacknowledged byte. -/
def retransmit (out : List Frame) : TcpConn × List Frame :=
  if conn.peerWin = 0 ∧ conn.unacked ≠ [] ∧ ¬ conn.finSent then
    ((conn.sentTo (conn.sndUna + 1)).backoff now,
      out ++ [conn.seg conn.sndUna { ack := true } (conn.unacked.take 1)])
  else
    let conn := { conn with sndNxt := conn.sndUna }
    if conn.finSent ∧ conn.unacked = [] then
      ((conn.sentTo (conn.sndUna + 1)).backoff now,
        out ++ [conn.seg conn.sndUna { fin := true, ack := true } []])
    else (conn.backoff now, out)

/-- Fill the peer's window: resend from `sndNxt` what is buffered, then read
more. Each round sends a frame or consumes a read outcome. -/
def fillWindow (now budget : Nat) :
    Nat → TcpConn → List ReadOutcome → List Frame → TcpConn × List Frame
  | 0, conn, _, out => (conn, out)
  | fuel + 1, conn, reads, out =>
    let sent := conn.inFlight.toNat
    let windowRoom := conn.peerWin - sent
    if budget ≤ out.length ∨ windowRoom = 0 then (conn, out)
    else if sent < conn.unacked.length then
      let count := min (min (conn.unacked.length - sent) conn.peerMss) windowRoom
      let chunk := (conn.unacked.drop sent).take count
      let frame := conn.seg conn.sndNxt { psh := true, ack := true } chunk
      let conn := (conn.sentTo (conn.sndNxt + BitVec.ofNat 32 count)).armRto now
      fillWindow now budget fuel conn reads (out ++ [frame])
    else if conn.backendEof ∨ conn.finSent ∨ sndBuf ≤ conn.unacked.length then (conn, out)
    else
      let count := min (min conn.peerMss windowRoom) (sndBuf - conn.unacked.length)
      match reads with
      | [] => (conn, out)
      | .wouldBlock :: _ => (conn, out)
      | .interrupted :: rest => fillWindow now budget fuel conn rest out
      | .failed :: _ => ({ conn with reset := true }, out)
      | .bytes data :: rest =>
        if data.take count = [] then ({ conn with backendEof := true }, out)
        else
          let conn :=
            { conn with
              unacked := conn.unacked ++ data.take count
              backend := { conn.backend with
                supplied := conn.backend.supplied ++ data.take count }
              lastUse := now }
          fillWindow now budget fuel conn rest out

/-- Our FIN, once the backend is done and the guest has every byte. -/
def sendFin (budget : Nat) (out : List Frame) : TcpConn × List Frame :=
  if conn.backendEof ∧ ¬ conn.finSent ∧ conn.unacked = [] ∧ out.length < budget then
    ({ conn.sentTo (conn.sndNxt + 1) with finSent := true }.armRto now,
      out ++ [conn.seg conn.sndNxt { fin := true, ack := true } []])
  else (conn, out)

/-- The last part of `poll`: fill the window, finish, and drop a half-closed
connection that stopped moving. -/
def transmit (outside : PollInput) (out : List Frame) : TcpConn × List Frame :=
  let now := outside.now
  let (conn, out) :=
    fillWindow now outside.budget (outside.budget + outside.reads.length) conn outside.reads out
  let (conn, out) := conn.sendFin now outside.budget out
  if (conn.guestFin ∨ conn.finSent) ∧ halfClosedIdle < now - conn.lastUse then conn.abort now
  else (conn.closeIfDone now, out)

def pollEstablished (outside : PollInput) : TcpConn × List Frame :=
  let now := outside.now
  let (conn, out) := (conn.flushToBackend now outside.writes).updateWindow outside.budget
  if conn.timedOut now then
    if giveUp < now - conn.lastProgress then conn.abort now
    else
      let (conn, out) := conn.retransmit now out
      conn.transmit outside out
  else conn.transmit outside out

/-- Advance timers and move data from the backend. -/
def poll (outside : PollInput) : TcpConn × List Frame :=
  let now := outside.now
  if conn.reset then conn.abort now
  else
    match conn.state with
    | .connecting =>
      match outside.connect with
      | .pending => (conn, [])
      | .connected =>
        let conn :=
          { conn.sentTo (conn.iss + 1) with
            state := .synReceived, rtoDeadline := some (now + conn.rto) }
        (conn, [conn.seg conn.iss { syn := true, ack := true } []])
      | .failed =>
        ({ conn with state := .closed, closedAt := some now },
          [⟨0, conn.rcvNxt, { rst := true, ack := true }, 0, none, []⟩])
    | .synSent | .synReceived =>
      if conn.timedOut now then
        if giveUp / 4 < now - conn.lastProgress then conn.abort now
        else
          (conn.backoff now,
            [conn.seg conn.iss { syn := true, ack := conn.state = .synReceived } []])
      else (conn, [])
    | .closed => (conn, [])
    | .established => conn.pollEstablished outside

end TcpConn

end Iris.Net.Tcp
