import Mathlib.Data.List.Induction

/-!
Owns the UDP side of the NAT: the peers a guest endpoint sends to, under the addresses the
guest knows them by, and the source a reply is shown to come from.
-/

namespace Iris.Net.NatUdp

open List Function

structure SocketAddrV4 where
  ip : BitVec 32
  port : BitVec 16
deriving DecidableEq, Repr

structure NatUdpEntry where
  clientMac : BitVec 48
  /-- Real peer address to the address the guest sent to. -/
  aliases : SocketAddrV4 → Option SocketAddrV4
  lastDst : SocketAddrV4

/-- A guest datagram to `real`, which the guest knows as `visible`. -/
structure Relay where
  clientMac : BitVec 48
  visible : SocketAddrV4
  real : SocketAddrV4

def NatUdpEntry.relayed (entry : NatUdpEntry) (relay : Relay) : NatUdpEntry where
  aliases :=
    if relay.real ≠ relay.visible then update entry.aliases relay.real (some relay.visible)
    else entry.aliases
  clientMac := relay.clientMac
  lastDst := relay.visible

/-- `udp_relay` on the entry of its guest endpoint, with a host socket for a new flow. -/
def udpRelay (entry : Option NatUdpEntry) (relay : Relay) : Option NatUdpEntry :=
  some ((entry.getD ⟨relay.clientMac, fun _ => none, relay.visible⟩).relayed relay)

structure NatEngine where
  gatewayIp : BitVec 32
  xdmcpSessions : BitVec 16 → Option (BitVec 32)

def localhost : BitVec 32 := 0x7F000001

namespace NatEngine
variable (engine : NatEngine)

def hostToGateway (src : SocketAddrV4) : SocketAddrV4 :=
  if engine.xdmcpSessions src.port = some src.ip then ⟨engine.gatewayIp, src.port⟩
  else if src.ip ≠ localhost then src
  else ⟨engine.gatewayIp, src.port⟩

/-- The source `poll_udp` gives a datagram that comes from `sender`. -/
def replySource (entry : NatUdpEntry) (sender : SocketAddrV4) : SocketAddrV4 :=
  engine.hostToGateway ((entry.aliases sender).getD sender)

end NatEngine

/-! ### Histories -/

/-- The most recent relay that `keep` holds of. -/
def latest (keep : Relay → Bool) (history : List Relay) : Option Relay := history.reverse.find? keep

/-- The most recent relay to `real` under another address. -/
def lastAlias (real : SocketAddrV4) : List Relay → Option Relay :=
  latest fun relay => relay.real = real ∧ relay.visible ≠ real

theorem relayed_aliases (entry : NatUdpEntry) (relay : Relay) (real : SocketAddrV4) :
    (entry.relayed relay).aliases real =
      if relay.real = real ∧ relay.visible ≠ real then some relay.visible
      else entry.aliases real := by
  rw [NatUdpEntry.relayed]
  split <;> grind [update_apply]

theorem foldl_aliases (history : List Relay) (real : SocketAddrV4) :
    (history.foldl udpRelay none).bind (·.aliases real) =
      (lastAlias real history).map Relay.visible := by
  induction history using reverseRecOn with
  | nil => rfl
  | append_singleton before relay inductionHypothesis =>
    rw [foldl_append, foldl_cons, foldl_nil, udpRelay, Option.bind_some, relayed_aliases, lastAlias,
      latest, reverse_concat, find?_cons]
    split
    next moved => simp [moved]
    next kept =>
      rw [decide_eq_false kept]
      refine Eq.trans ?_ inductionHypothesis
      cases before.foldl udpRelay none <;> rfl

/-- The first element with a property is the first with a stronger one, if it has that. -/
theorem find?_of_stronger {α : Type} {weak strong : α → Bool} {l : List α} {x : α}
    (found : l.find? weak = some x) (weaker : ∀ y, strong y = true → weak y = true)
    (holds : strong x = true) : l.find? strong = some x := by
  obtain ⟨_, before, after, parts, none⟩ := find?_eq_some_iff_append.mp found
  refine find?_eq_some_iff_append.mpr ⟨holds, before, after, parts, fun y member => ?_⟩
  grind

/-- A reply comes from the address the guest last used for its sender exactly if rewriting
leaves that address; but where it is the sender's own, an older one is rewritten instead. -/
theorem replySource_eq_visible_iff (engine : NatEngine) {history : List Relay} {entry : NatUdpEntry}
    (opened : history.foldl udpRelay none = some entry) {sender : SocketAddrV4} {relay : Relay}
    (recent : latest (·.real = sender) history = some relay) :
    engine.replySource entry sender = relay.visible ↔
      engine.hostToGateway (if relay.visible ≠ sender then relay.visible
        else ((lastAlias sender history).map Relay.visible).getD sender) = relay.visible := by
  have aliases : entry.aliases sender = (lastAlias sender history).map Relay.visible := by
    rw [← foldl_aliases, opened]
    rfl
  rw [NatEngine.replySource, aliases]
  split
  next other =>
    have real : relay.real = sender := by simpa using find?_some recent
    rw [lastAlias, latest, find?_of_stronger recent (by simp +contextual) (by simp [real, other])]
    rfl
  next => rfl

/-- A resolver that the guest asks by the gateway's address and then by its own. -/
def askedTwice : List Relay :=
  [⟨0, ⟨0x0A000002, 53⟩, ⟨0x08080808, 53⟩⟩, ⟨0, ⟨0x08080808, 53⟩, ⟨0x08080808, 53⟩⟩]

def plainNat : NatEngine := ⟨0x0A000002, fun _ => none⟩

theorem reply_from_asked_address :
    (askedTwice.reverse.foldl udpRelay none).map (plainNat.replySource · ⟨0x08080808, 53⟩) =
      some ⟨0x0A000002, 53⟩ :=
  congrArg some ((@replySource_eq_visible_iff plainNat askedTwice.reverse _ rfl
    ⟨0x08080808, 53⟩ _ rfl).mpr rfl)

/-- The second answer still comes from the gateway. -/
theorem reply_from_old_address :
    (askedTwice.foldl udpRelay none).map (plainNat.replySource · ⟨0x08080808, 53⟩) =
        some ⟨0x0A000002, 53⟩ ∧
      (latest (·.real = ⟨0x08080808, 53⟩) askedTwice).map Relay.visible =
        some ⟨0x08080808, 53⟩ := by
  decide

end Iris.Net.NatUdp
