import Iris.Library.Recent
import Iris.Nfs.Backing

/-!
Owns the NFS server's RPC layer: the call header of a datagram, the dispatch to the programs,
and the cache of replies to calls that must not be applied twice. The NFS procedures
themselves are a parameter, over any backing store.
-/

namespace Iris.Nfs

open List

abbrev Byte := BitVec 8

abbrev Bytes := List Byte

/-! ### The wire -/

namespace Xdr

def u32 (v : BitVec 32) : Bytes :=
  [v.extractLsb' 24 8, v.extractLsb' 16 8, v.extractLsb' 8 8, v.extractLsb' 0 8]

def u64 (v : BitVec 64) : Bytes := u32 (v.extractLsb' 32 32) ++ u32 (v.extractLsb' 0 32)

def bool (v : Bool) : Bytes := u32 (if v then 1 else 0)

/-- Bytes without a length, padded to 4. -/
def fixed (b : Bytes) : Bytes := b ++ replicate ((4 - b.length % 4) % 4) 0

/-- Bytes after their length: the source's `opaque`. -/
def varied (b : Bytes) : Bytes := u32 (BitVec.ofNat 32 b.length) ++ fixed b

end Xdr

/-- The bytes of a datagram that are still to be decoded. -/
abbrev Cur := Bytes

namespace Cur

def u32 : Cur → Option (BitVec 32 × Cur)
  | b0 :: b1 :: b2 :: b3 :: rest => some (b0 ++ b1 ++ b2 ++ b3, rest)
  | _ => none

/-- Bytes without a length. A missing pad at the end is tolerated. -/
def fixed (len : Nat) (c : Cur) : Option (Bytes × Cur) :=
  if c.length < len then none else some (c.take len, c.drop (len + (4 - len % 4) % 4))

def varied (c : Cur) : Option (Bytes × Cur) :=
  (u32 c).bind fun (len, c) => fixed len.toNat c

def skipAuth (c : Cur) : Option Cur :=
  (u32 c).bind fun (_, c) => (varied c).map Prod.snd

end Cur

structure RpcCall where
  xid : BitVec 32
  prog : BitVec 32
  vers : BitVec 32
  procNum : BitVec 32
deriving DecidableEq, Repr

def msgCall : BitVec 32 := 0

def msgReply : BitVec 32 := 1

def rpcVersion : BitVec 32 := 2

/-- The call header of a datagram, and its arguments. -/
def parseCall (msg : Bytes) : Option (RpcCall × Cur) := do
  let (xid, c) ← Cur.u32 msg
  let (kind, c) ← Cur.u32 c
  if kind ≠ msgCall then none
  let (version, c) ← Cur.u32 c
  if version ≠ rpcVersion then none
  let (prog, c) ← Cur.u32 c
  let (vers, c) ← Cur.u32 c
  let (procNum, c) ← Cur.u32 c
  let c ← Cur.skipAuth c
  let c ← Cur.skipAuth c
  some ({ xid, prog, vers, procNum }, c)

inductive Accept
  | success
  | progUnavail
  | progMismatch
  | procUnavail
deriving DecidableEq, Repr

def Accept.code : Accept → BitVec 32
  | success => 0
  | progUnavail => 1
  | progMismatch => 2
  | procUnavail => 3

/-- An accepted reply: no verifier, and the procedure's result to follow. -/
def reply (xid : BitVec 32) (stat : Accept) : Bytes :=
  Xdr.u32 xid ++ Xdr.u32 msgReply ++ Xdr.u32 0 ++ Xdr.u32 0 ++ Xdr.u32 0 ++ Xdr.u32 stat.code

/-! ### Programs -/

def nfsProg : BitVec 32 := 100003

def mountProg : BitVec 32 := 100005

def putFh (fileid : BitVec 64) : Bytes := Xdr.varied (Xdr.u64 fileid)

def putFh2 (fileid : BitVec 64) : Bytes := Xdr.fixed (Xdr.u64 fileid ++ List.replicate 24 0)

/-- MOUNT hands out the root's handle, whatever path is asked for. -/
def mountCall (call : RpcCall) : Bytes :=
  let rootFh := BitVec.ofNat 64 rootId
  match call.procNum.toNat with
  | 0 | 3 | 4 => reply call.xid .success
  | 1 =>
    if call.vers = 1 then reply call.xid .success ++ Xdr.u32 0 ++ putFh2 rootFh
    else reply call.xid .success ++ Xdr.u32 0 ++ putFh rootFh ++ Xdr.u32 1 ++ Xdr.u32 0
  | 2 => reply call.xid .success ++ Xdr.bool false
  | 5 =>
    reply call.xid .success ++ Xdr.bool true ++ Xdr.varied [0x2f] ++ Xdr.bool false ++
      Xdr.bool false
  | _ => reply call.xid .procUnavail

inductive NfsVersion
  | auto
  | v2
  | v3
deriving DecidableEq, Repr

/-- SETATTR, WRITE, CREATE, REMOVE, RENAME, MKDIR and RMDIR are not to be applied twice. -/
def isIdempotent (call : RpcCall) : Bool :=
  if call.prog ≠ nfsProg then true
  else
    let nonIdempotent : List (BitVec 32) :=
      if call.vers = 2 then [2, 8, 9, 10, 11, 14, 15] else [2, 7, 8, 9, 12, 13, 14]
    !nonIdempotent.contains call.procNum

/-! ### The cache of replies -/

/-- Recent replies by transaction, the oldest dropped first. -/
structure Drc where
  cap : Nat
  order : List (BitVec 32) := []
  map : BitVec 32 → Option Bytes := fun _ => none

namespace Drc

def get (drc : Drc) (xid : BitVec 32) : Option Bytes := drc.map xid

/-- Drop the oldest replies until there is room for one more. -/
def evict (cap : Nat) :
    List (BitVec 32) → (BitVec 32 → Option Bytes) → List (BitVec 32) × (BitVec 32 → Option Bytes)
  | [], map => ([], map)
  | old :: rest, map =>
    if cap ≤ (old :: rest).length then evict cap rest (Function.update map old none)
    else (old :: rest, map)

def put (drc : Drc) (xid : BitVec 32) (reply : Bytes) : Drc :=
  if (drc.map xid).isSome then drc
  else
    let (order, map) := evict drc.cap drc.order drc.map
    { drc with order := order ++ [xid], map := Function.update map xid (some reply) }

end Drc

/-! ### The server -/

/-- The procedures of the two NFS versions over a backing store: the reply, and the store
after it. -/
structure Procedures (Backing : Type) where
  nfs2Call : RpcCall → Cur → Backing → Bytes × Backing
  nfs3Call : RpcCall → Cur → Backing → Bytes × Backing

structure NfsServer (Backing : Type) where
  backing : Backing
  drc : Drc
  version : NfsVersion

namespace NfsServer
variable {Backing : Type} (procedures : Procedures Backing) (server : NfsServer Backing)

def new (backing : Backing) (version : NfsVersion) : NfsServer Backing :=
  { backing, drc := { cap := 256 }, version }

def dispatch (call : RpcCall) (args : Cur) : Bytes × Backing :=
  if call.prog = mountProg then (mountCall call, server.backing)
  else if call.prog = nfsProg then
    if call.vers = 3 ∧ server.version ≠ .v2 then procedures.nfs3Call call args server.backing
    else if call.vers = 2 ∧ server.version ≠ .v3 then procedures.nfs2Call call args server.backing
    else (reply call.xid .progMismatch, server.backing)
  else (reply call.xid .progUnavail, server.backing)

/-- The reply to a datagram, none if it is no call. -/
def handle (msg : Bytes) : Option Bytes × NfsServer Backing :=
  match parseCall msg with
  | none => (none, server)
  | some (call, args) =>
    let idem := isIdempotent call
    match if idem then none else server.drc.get call.xid with
    | some cached => (some cached, server)
    | none =>
      let (out, backing) := server.dispatch procedures call args
      let server := { server with backing }
      if idem then (some out, server)
      else (some out, { server with drc := server.drc.put call.xid out })

def step (msg : Bytes) : NfsServer Backing := (server.handle procedures msg).2

/-! ### Executions -/

/-- A call that was executed: its datagram, its header and the reply. -/
structure Execution where
  msg : Bytes
  call : RpcCall
  reply : Bytes
deriving DecidableEq, Repr

/-- The execution, if any, of a call that is not idempotent. -/
def executions (msg : Bytes) : List Execution :=
  match parseCall msg with
  | none => []
  | some (call, args) =>
    if isIdempotent call ∨ (server.drc.get call.xid).isSome then []
    else [⟨msg, call, (server.dispatch procedures call args).1⟩]

variable {procedures server}

section
variable {msg : Bytes} {call : RpcCall} {args : Cur} (parsed : parseCall msg = some (call, args))
include parsed

theorem handle_cached (changes : isIdempotent call = false)
    (found : server.drc.get call.xid = some cached) :
    server.handle procedures msg = (some cached, server) := by
  simp [handle, parsed, changes, found]

theorem handle_executed (unknown : isIdempotent call = true ∨ server.drc.get call.xid = none) :
    (server.handle procedures msg).1 = some (server.dispatch procedures call args).1 ∧
      (server.handle procedures msg).2.backing = (server.dispatch procedures call args).2 := by
  have miss : (if isIdempotent call = true then none else server.drc.get call.xid) = none := by
    rcases unknown with same | unknown
    · rw [if_pos same]
    · rw [unknown, ite_self]
  simp only [handle, parsed, miss]
  split <;> exact ⟨rfl, rfl⟩

end

/-- The cache holds the newest executions of a log. -/
structure Cached (server : NfsServer Backing) (log : List Execution) : Prop where
  cap : server.drc.cap = 256
  newest : Library.Recent.Newest 256 server.drc.order server.drc.map
    (log.map fun execution => (execution.call.xid, execution.reply))
  calls : ∀ execution ∈ log, (∃ args, parseCall execution.msg = some (execution.call, args)) ∧
    isIdempotent execution.call = false

theorem evict_short (short : order.length < cap) (map : BitVec 32 → Option Bytes) :
    Drc.evict cap order map = (order, map) := by
  cases order with
  | nil => rfl
  | cons old rest => rw [Drc.evict, if_neg (Nat.not_le_of_lt short)]

theorem evict_full (full : cap = rest.length + 1) (map : BitVec 32 → Option Bytes) :
    Drc.evict cap (old :: rest) map = (rest, Function.update map old none) := by
  have holds : cap ≤ (old :: rest).length := Nat.le_of_eq full
  rw [Drc.evict, if_pos holds, evict_short (by omega)]

theorem put_newest {drc : Drc} (cap : drc.cap = 256)
    (newest : Library.Recent.Newest 256 drc.order drc.map log) {xid : BitVec 32}
    (fresh : drc.map xid = none) (reply : Bytes) :
    Library.Recent.Newest 256 (drc.put xid reply).order (drc.put xid reply).map
      (log ++ [(xid, reply)]) := by
  have bound : drc.order.length ≤ 256 := by
    rw [newest.length_le]
    exact Nat.min_le_left _ _
  rw [Drc.put, fresh, cap]
  by_cases short : drc.order.length < 256
  · rw [evict_short short]
    exact newest.push short fresh reply
  cases order : drc.order with
  | nil =>
    rw [order] at short
    exact absurd (by decide) short
  | cons old rest =>
    rw [order, length_cons] at bound short
    rw [order] at newest
    have full : 256 = rest.length + 1 := by omega
    rw [evict_full full]
    exact newest.replace full fresh reply

variable {log : List Execution}

theorem step_cached (procedures : Procedures Backing) (cached : server.Cached log) (msg : Bytes) :
    (server.step procedures msg).Cached (log ++ server.executions procedures msg) := by
  rw [step, handle, executions]
  cases parsed : parseCall msg with
  | none => simpa using cached
  | some found =>
    obtain ⟨call, args⟩ := found
    dsimp only
    by_cases idem : isIdempotent call = true
    · simp only [idem, if_true, true_or, append_nil]
      exact { cached with }
    cases hit : server.drc.get call.xid with
    | some reply => simpa [idem] using cached
    | none =>
      have fresh := put_newest cached.cap cached.newest hit
        (server.dispatch procedures call args).1
      simp only [idem, Bool.false_eq_true, if_false, Option.isSome_none, or_self]
      constructor
      · rw [← cached.cap, Drc.put]
        split <;> rfl
      · rw [map_append]
        exact fresh
      · intro execution member
        rcases mem_append.mp member with member | new
        · exact cached.calls execution member
        · obtain rfl := mem_singleton.mp new
          exact ⟨⟨args, parsed⟩, by simpa using idem⟩

/-- The calls that were executed by a run, those that are idempotent apart. -/
def history (procedures : Procedures Backing) : NfsServer Backing → List Bytes → List Execution :=
  Library.Run.emitted (step procedures) (executions procedures)

theorem run_cached (procedures : Procedures Backing) (cached : server.Cached log)
    (msgs : List Bytes) :
    (msgs.foldl (step procedures) server).Cached (log ++ history procedures server msgs) := by
  induction msgs generalizing server log with
  | nil => simpa [history, Library.Run.emitted] using cached
  | cons msg rest inductionHypothesis =>
    have later := inductionHypothesis (step_cached procedures cached msg)
    rwa [append_assoc] at later

theorem new_cached (backing : Backing) (version : NfsVersion) :
    (new backing version).Cached [] :=
  ⟨rfl, Library.Recent.Newest.empty, by simp⟩

theorem Cached.get (cached : server.Cached log) (xid : BitVec 32) (reply : Bytes) :
    server.drc.get xid = some reply ↔
      ∃ execution ∈ log.rtake 256, execution.call.xid = xid ∧ execution.reply = reply := by
  rw [Drc.get, cached.newest.values, List.rtake, length_map, ← map_drop, mem_map]
  simp only [Prod.mk.injEq, rtake]

theorem Cached.distinct (cached : server.Cached log) :
    ((log.rtake 256).map fun execution => execution.call.xid).Nodup := by
  have distinct := cached.newest.distinct
  rw [cached.newest.keys, rtake, length_map, ← map_drop, map_map] at distinct
  exact distinct

/-- A datagram against the newest 256 executions of calls that are not idempotent, all of
different transactions: one that was executed among them is not executed again and gets that
execution's reply, as does any call that is not idempotent and repeats a transaction of
theirs; every other call is executed and gets the reply of its own execution. -/
theorem replayed_or_executed (procedures : Procedures Backing) (backing : Backing)
    (version : NfsVersion) (msgs : List Bytes) {msg : Bytes} {call : RpcCall} {args : Cur}
    (parsed : parseCall msg = some (call, args)) :
    let server := msgs.foldl (step procedures) (new backing version)
    let recent := (history procedures (new backing version) msgs).rtake 256
    (recent.map fun execution => execution.call.xid).Nodup ∧
    (∀ execution ∈ recent, execution.msg = msg →
      server.handle procedures msg = (some execution.reply, server)) ∧
    (∀ execution ∈ recent, isIdempotent call = false → execution.call.xid = call.xid →
      server.handle procedures msg = (some execution.reply, server)) ∧
    ((isIdempotent call = true ∨ ∀ execution ∈ recent, execution.call.xid ≠ call.xid) →
      (server.handle procedures msg).1 = some (server.dispatch procedures call args).1 ∧
      (server.handle procedures msg).2.backing = (server.dispatch procedures call args).2) := by
  intro server recent
  have cached := run_cached procedures (new_cached backing version) msgs
  have replay : ∀ execution ∈ recent, isIdempotent call = false → execution.call.xid = call.xid →
      server.handle procedures msg = (some execution.reply, server) := by
    intro execution member changes same
    exact handle_cached parsed changes ((cached.get _ _).mpr ⟨execution, member, same, rfl⟩)
  refine ⟨cached.distinct, fun execution member same => ?_, replay, fun unknown => ?_⟩
  · obtain ⟨⟨args', parsed'⟩, changes⟩ := cached.calls execution (mem_of_mem_drop member)
    rw [same, parsed] at parsed'
    obtain ⟨is, -⟩ := Prod.mk.inj (Option.some.inj parsed')
    exact replay execution member (is ▸ changes) (congrArg RpcCall.xid is.symm)
  · refine handle_executed parsed (unknown.imp_right fun fresh => ?_)
    rw [Option.eq_none_iff_forall_ne_some]
    intro reply found
    obtain ⟨execution, member, same, -⟩ := (cached.get _ _).mp found
    exact fresh execution member same

/-- A version 3 call without credentials. -/
def callMsg (xid procNum : BitVec 32) (args : Bytes) : Bytes :=
  Xdr.u32 xid ++ Xdr.u32 msgCall ++ Xdr.u32 rpcVersion ++ Xdr.u32 nfsProg ++ Xdr.u32 3 ++
    Xdr.u32 procNum ++ List.replicate 16 0 ++ args

/-- Procedures over a store that counts the calls executed, and reply with the count. -/
def counting : Procedures Nat where
  nfs2Call call _ count := (reply call.xid .success ++ Xdr.u32 count, count + 1)
  nfs3Call call _ count := (reply call.xid .success ++ Xdr.u32 count, count + 1)

/-- A CREATE that comes twice is executed once, and both times gets the same reply. -/
theorem create_replayed :
    parseCall (callMsg 7 8 [1, 2, 3, 4]) = some (⟨7, nfsProg, 3, 8⟩, [1, 2, 3, 4]) ∧
    ([callMsg 7 8 [1, 2, 3, 4]].foldl (step counting) (new 0 .auto)).handle counting
      (callMsg 7 8 [1, 2, 3, 4]) = (some (reply 7 .success ++ Xdr.u32 0),
        [callMsg 7 8 [1, 2, 3, 4]].foldl (step counting) (new 0 .auto)) :=
  ⟨by decide +kernel,
    (@replayed_or_executed _ counting 0 .auto [callMsg 7 8 [1, 2, 3, 4]] _ ⟨7, nfsProg, 3, 8⟩
      [1, 2, 3, 4] (by decide +kernel)).2.1 ⟨callMsg 7 8 [1, 2, 3, 4], ⟨7, nfsProg, 3, 8⟩,
        reply 7 .success ++ Xdr.u32 0⟩ (by decide +kernel) rfl⟩

/-- A REMOVE with the transaction of an earlier CREATE is not executed, and gets the reply of
the CREATE. -/
theorem remove_answered_as_create :
    (parseCall (callMsg 7 8 [1, 2, 3, 4])).map (fun parsed => parsed.1.procNum) = some 8 ∧
    (parseCall (callMsg 7 12 [5, 6, 7, 8])).map (fun parsed => parsed.1.procNum) = some 12 ∧
    ((new 0 .auto).handle counting (callMsg 7 8 [1, 2, 3, 4])).1 =
      some (reply 7 .success ++ Xdr.u32 0) ∧
    (((new 0 .auto).step counting (callMsg 7 8 [1, 2, 3, 4])).handle counting
      (callMsg 7 12 [5, 6, 7, 8])).1 = some (reply 7 .success ++ Xdr.u32 0) ∧
    (((new 0 .auto).step counting (callMsg 7 8 [1, 2, 3, 4])).step counting
      (callMsg 7 12 [5, 6, 7, 8])).backing = 1 := by
  decide +kernel

end NfsServer

end Iris.Nfs
