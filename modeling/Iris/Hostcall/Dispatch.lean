import Mathlib.Data.Finset.Basic
import Mathlib.Tactic.Ring

/-!
Owns host calls: service routines over the calling program's memory, one page at
a time through the TLB as it stands, and the table of progress kept for calls
that answered need-page.
-/

namespace Iris.Hostcall

abbrev Byte := BitVec 8

/-- IRIX's page size on the Indy. -/
def pageSize : Nat := 0x1000

def pageOf (addr : Nat) : Nat := addr / pageSize * pageSize

/-- A page the call could not use as it stands. -/
structure Fault where
  page : Nat
  write : Bool
deriving DecidableEq

/-- Bytes stored at an address, all within one page. -/
structure Piece where
  addr : Nat
  data : List Byte
deriving DecidableEq

def Piece.storeIn (piece : Piece) (mem : Nat → Byte) : Nat → Byte := fun addr =>
  if piece.addr ≤ addr ∧ addr < piece.addr + piece.data.length then
    piece.data.getD (addr - piece.addr) 0
  else mem addr

/-! ### The calling program's pages -/

/-- The calling process as the emulator presents it: its address space, its memory,
and the pages that are in the TLB, for reading and for writing. `stored` records
what a call stores. -/
structure Access where
  space : Nat
  mem : Nat → Byte
  readable : Nat → Bool
  writable : Nat → Bool
  stored : List Piece := []

namespace Access
variable (access : Access)

def readPage (page : Nat) : Except Fault (Nat → Byte) :=
  if access.readable page then .ok fun off => access.mem (page + off)
  else .error ⟨page, false⟩

/-- The page is checked before anything is stored. -/
def writeInPage (piece : Piece) : Except Fault Access :=
  if access.writable (pageOf piece.addr) then
    .ok { access with mem := piece.storeIn access.mem, stored := access.stored ++ [piece] }
  else .error ⟨pageOf piece.addr, true⟩

end Access

/-! ### Progress of a call -/

/-- Address space, number and arguments: what tells calls apart. -/
structure Key where
  space : Nat
  number : Nat
  args : List Nat
deriving DecidableEq

/-- Progress of one call, kept until the same call completes: the pages read, and
where the pieces already written start. -/
structure InFlight where
  key : Key
  pages : Nat → Option (Nat → Byte) := fun _ => none
  written : Finset Nat := ∅

/-- The stretches of `[addr, addr + len)` that lie in one page each, in order; a
stretch has at least one byte, so `len` of them are enough. -/
def stretches : Nat → Nat → Nat → List (Nat × Nat)
  | 0, _, _ => []
  | _ + 1, _, 0 => []
  | fuel + 1, addr, len =>
    let n := min (pageSize - addr % pageSize) len
    (addr, n) :: stretches fuel (addr + n) (len - n)

namespace InFlight
variable (progress : InFlight)

/-- The page at `page`, from the record or, once, from the program's memory. -/
def page (access : Access) (page : Nat) : Except Fault ((Nat → Byte) × InFlight) :=
  match progress.pages page with
  | some held => .ok (held, progress)
  | none =>
    match access.readPage page with
    | .error fault => .error fault
    | .ok bytes =>
      .ok (bytes, { progress with
        pages := fun other => if other = page then some bytes else progress.pages other })

/-- `Memory::read`, one stretch after the other. -/
def read (access : Access) : List (Nat × Nat) → InFlight → Except Fault (List Byte) × InFlight
  | [], progress => (.ok [], progress)
  | (start, n) :: rest, progress =>
    if 2 ^ 64 ≤ start then (.error ⟨0, false⟩, progress)
    else
      match progress.page access (pageOf start) with
      | .error fault => (.error fault, progress)
      | .ok (bytes, progress) =>
        let (later, progress) := read access rest progress
        (later.map ((List.range n).map (fun i => bytes (start % pageSize + i)) ++ ·), progress)

/-- `Memory::write`, one piece after the other. A piece whose start is recorded is
not written again. -/
def write : List Piece → InFlight → Access → Except Fault Unit × InFlight × Access
  | [], progress, access => (.ok (), progress, access)
  | piece :: rest, progress, access =>
    if 2 ^ 64 ≤ piece.addr then (.error ⟨0, true⟩, progress, access)
    else if piece.addr ∈ progress.written then write rest progress access
    else
      match access.writeInPage piece with
      | .error fault => (.error fault, progress, access)
      | .ok access =>
        write rest { progress with written := insert piece.addr progress.written } access

end InFlight

def pieces (addr : Nat) (data : List Byte) : List Piece :=
  (stretches data.length addr data.length).map fun (start, n) =>
    ⟨start, (data.drop (start - addr)).take n⟩

/-! ### Services -/

inductive Reply
  | ok (v0 v1 : Nat)
  | err (errno : Nat)
  | needPage (fault : Fault)
deriving DecidableEq

def Reply.isNeedPage : Reply → Bool
  | .needPage _ => true
  | _ => false

/-- A service routine: what it does next is a function of what it has read. A fault
ends it, and it answers need-page for nothing else. -/
inductive Routine
  | read (addr len : Nat) (next : List Byte → Routine)
  | write (addr : Nat) (data : List Byte) (next : Routine)
  | finish (reply : Reply) (settled : reply.isNeedPage = false)

def Routine.call : Routine → InFlight → Access → Reply × InFlight × Access
  | .read addr len next, progress, access =>
    match progress.read access (stretches len addr len) with
    | (.error fault, progress) => (.needPage fault, progress, access)
    | (.ok bytes, progress) => (next bytes).call progress access
  | .write addr data next, progress, access =>
    match progress.write (pieces addr data) access with
    | (.error fault, progress, access) => (.needPage fault, progress, access)
    | (.ok (), progress, access) => next.call progress access
  | .finish reply _, progress, access => (reply, progress, access)

/-- The routine a number and arguments run, if a service answers the number. -/
abbrev Services := Nat → Option (List Nat → Routine)

def maxInFlight : Nat := 8

/-- The table with a slot for `key`, and its index; the oldest goes when all are
used. -/
def slotFor (key : Key) (inFlight : List InFlight) : Nat × List InFlight :=
  match inFlight.findIdx? (·.key = key) with
  | some idx => (idx, inFlight)
  | none =>
    let kept := if inFlight.length = maxInFlight then inFlight.tail else inFlight
    (kept.length, kept ++ [{ key }])

def dispatch (services : Services) (number : Nat) (access : Access) (args : List Nat)
    (inFlight : List InFlight) : Option (Reply × List InFlight × Access) := do
  let routine ← services number
  let key := ⟨access.space, number, args⟩
  let (idx, inFlight) := slotFor key inFlight
  let progress ← inFlight[idx]?
  let (reply, progress, access) := (routine args).call progress access
  let inFlight := inFlight.set idx progress
  match reply with
  | .needPage _ => return (reply, inFlight, access)
  | _ => return (reply, inFlight.eraseIdx idx, access)

/-! ### The self-test service -/

def selfTestNumber : Nat := 3009

/-- `SelfTest::call`: PING, the sum of bytes, and a fill. -/
def selfTest (args : List Nat) : Routine :=
  let arg (i : Nat) : Nat := args.getD i 0
  match arg 0 with
  | 0 => .finish (.ok 0x1215 ((args.drop 1).takeWhile (· ≠ 0)).length) rfl
  | 1 =>
    if 64 <<< 20 < arg 2 then .finish (.err 22) rfl
    else .read (arg 1) (arg 2) fun buf => .finish (.ok (buf.map BitVec.toNat).sum 0) rfl
  | 2 =>
    if 64 <<< 20 < arg 2 then .finish (.err 22) rfl
    else
      .write (arg 1) (List.replicate (arg 2) (BitVec.ofNat 8 (arg 3))) (.finish (.ok (arg 2) 0) rfl)
  | _ => .finish (.err 22) rfl

def selfTestOnly : Services := fun number => if number = selfTestNumber then some selfTest else none

end Iris.Hostcall
