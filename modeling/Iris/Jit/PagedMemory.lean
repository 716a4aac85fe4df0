import Mathlib.Data.List.Basic
import Mathlib.Tactic.Ring

/-!
Owns the arena compiled code is written into: a bump allocator shared by several
compile handles, the queue of ranges waiting to be sealed, and the mark up to which
whole pages have been made executable.
-/

namespace Iris.Jit

/-- `align_up`, for an alignment that is a power of two. -/
def alignUp (addr align : Nat) : Nat := (addr + align - 1) / align * align

/-- How a byte of the arena is mapped. -/
inductive Protection
  | none
  | readWrite
  | readExecute
deriving DecidableEq

/-- A range waiting to be sealed. `publish` is what is to be published for it, once its
code is finished; a bare placeholder has none. -/
structure SealEntry (Info : Type) where
  start : Nat
  stop : Nat
  publish : Option Info

/-- The arena. `page` is the size of a page of the host. -/
structure SharedArena (Info : Type) where
  page : Nat
  size : Nat
  position : Nat := 0
  sealedUpTo : Nat := 0
  sealQueue : List (SealEntry Info) := []
  lastSealed : List Info := []
  protection : Nat → Protection := fun _ => .none

variable {Info : Type}

variable (arena : SharedArena Info) (start stop : Nat)

def protect (protection : Nat → Protection) (start stop : Nat) (now : Protection) :
    Nat → Protection :=
  fun byte => if start ≤ byte ∧ byte < stop then now else protection byte

namespace SharedArena

/-- Bump allocation, past whatever is sealed. The range reported starts before the
padding for the alignment. -/
def allocate (size align : Nat) : Option (Nat × Nat) × SharedArena Info :=
  let arena :=
    if arena.position < arena.sealedUpTo then { arena with position := arena.sealedUpTo }
    else arena
  let unalignedStart := arena.position
  let start := alignUp arena.position align
  let stop := start + size
  let committedEnd := alignUp (max arena.position stop) arena.page
  let prevCommitted := alignUp arena.position arena.page
  if arena.size < stop then (none, arena)
  else
    (some (unalignedStart, stop), { arena with
        position := stop
        protection :=
          if prevCommitted < committedEnd then
            protect arena.protection prevCommitted committedEnd .readWrite
          else arena.protection })

/-- Take from the front of the queue what is finished and lies below `sealed`. -/
def popSealed (mark : Nat) : List (SealEntry Info) → List Info × List (SealEntry Info)
  | [] => ([], [])
  | front :: rest =>
    match front.publish with
    | none => ([], front :: rest)
    | some info =>
      if mark < front.stop then ([], front :: rest)
      else
        let (more, rest) := popSealed mark rest
        (info :: more, rest)

/-- How far the queue is finished without a gap, past its first entry. -/
def readyPast : Nat → List (SealEntry Info) → Nat
  | readyEnd, [] => readyEnd
  | readyEnd, entry :: rest =>
    if entry.publish.isNone then readyEnd
    else if entry.start = readyEnd then readyPast (max entry.stop readyEnd) rest
    else readyEnd

/-- How far the queue is finished without a gap. The first entry may straddle the mark. -/
def readyEnd (mark : Nat) : List (SealEntry Info) → Nat
  | [] => mark
  | entry :: rest =>
    if entry.publish.isNone then mark
    else if entry.start ≤ mark then readyPast (max entry.stop mark) rest
    else mark

/-- Where sealing would end. Unless forced, only pages the bump cursor has moved past
are sealed. -/
def sealEnd (force : Bool) (readyEnd : Nat) : Nat :=
  if force then alignUp readyEnd arena.page
  else
    let vacatedEnd := arena.position / arena.page * arena.page
    min readyEnd vacatedEnd / arena.page * arena.page

/-- Make the pages executable that are covered by finished ranges from the mark on, and
report the ranges that now lie below it. -/
def trySealReady (force : Bool) : List Info × SharedArena Info :=
  let (stale, queue) := popSealed arena.sealedUpTo arena.sealQueue
  let ready := readyEnd arena.sealedUpTo queue
  let stop := arena.sealEnd force ready
  if ready = arena.sealedUpTo ∨ stop ≤ arena.sealedUpTo then
    (stale, { arena with sealQueue := queue, lastSealed := stale })
  else
    let (fresh, queue) := popSealed stop queue
    (stale ++ fresh, { arena with
        sealQueue := queue
        sealedUpTo := stop
        protection := protect arena.protection arena.sealedUpTo stop .readExecute
        lastSealed := stale ++ fresh })

/-- Where a range goes in the queue: behind the last that starts no later. -/
def placeFor (queue : List (SealEntry Info)) : Nat :=
  match queue.reverse.findIdx? (·.start ≤ start) with
  | none => 0
  | some back => queue.length - back

def pushPlaceholder : SharedArena Info :=
  { arena with
    sealQueue := arena.sealQueue.insertIdx (placeFor start arena.sealQueue) ⟨start, stop, none⟩ }

/-- Fill in what is to be published for a placeholder, and try to seal. There has to be
one. -/
def patchPendingPublish (info : Info) (force : Bool) : Option (List Info × SharedArena Info) :=
  match arena.sealQueue.findIdx? fun entry => entry.start = start ∧ entry.stop = stop with
  | none => none
  | some idx =>
    some (({ arena with
      sealQueue := arena.sealQueue.modify idx fun entry =>
        { entry with publish := some info } } : SharedArena Info).trySealReady force)

end SharedArena

/-! ### Handles -/

structure Record (Info : Type) where
  start : Nat
  stop : Nat
  pushed : Bool := false
  publish : Option Info := none

/-- The arena with its compile handles: each handle's last allocation until it is queued.
`log` records the ranges allocated, in order, and `reported` what sealing reported. -/
structure Pool (Handle Info : Type) where
  arena : SharedArena Info
  mailbox : Handle → Option (Nat × Nat) := fun _ => none
  log : List (Record Info) := []
  reported : List Info := []

inductive Op (Handle Info : Type)
  | allocate (handle : Handle) (size align : Nat)
  | push (handle : Handle)
  | patch (start stop : Nat) (info : Info)
  | trySealReady
  | trySealReadyForced

namespace Pool
variable {Handle : Type} [DecidableEq Handle]

def new (page size : Nat) : Pool Handle Info := { arena := { page, size } }

def mark (change : Record Info → Record Info) (log : List (Record Info)) : List (Record Info) :=
  log.map fun record => if record.start = start then change record else record

/-- One call on a handle. A panic leaves the pool as it is. -/
def step (pool : Pool Handle Info) : Op Handle Info → Pool Handle Info
  | .allocate handle size align =>
    match pool.arena.allocate size align with
    | (none, arena) => { pool with arena }
    | (some (start, stop), arena) =>
      { pool with
        arena
        mailbox := fun other => if other = handle then some (start, stop) else pool.mailbox other
        log := pool.log ++ [{ start, stop }] }
  | .push handle =>
    match pool.mailbox handle with
    | none => pool
    | some (start, stop) =>
      { pool with
        arena := pool.arena.pushPlaceholder start stop
        mailbox := fun other => if other = handle then none else pool.mailbox other
        log := mark start (fun record => { record with pushed := true }) pool.log }
  | .patch start stop info =>
    match pool.arena.patchPendingPublish start stop info false with
    | none => pool
    | some (reported, arena) =>
      { pool with
        arena
        log := mark start (fun record => { record with publish := some info }) pool.log
        reported := pool.reported ++ reported }
  | .trySealReady =>
    let (reported, arena) := pool.arena.trySealReady false
    { pool with arena, reported := pool.reported ++ reported }
  | .trySealReadyForced =>
    let (reported, arena) := pool.arena.trySealReady true
    { pool with arena, reported := pool.reported ++ reported }

/-- How the handles are used: an allocation is for at least a byte and aligned within a
page, and sealing is forced only when every range is patched. -/
def Allowed (pool : Pool Handle Info) : Op Handle Info → Prop
  | .allocate _ size align => 1 ≤ size ∧ 1 ≤ align ∧ align ≤ pool.arena.page
  | .push _ => True
  | .patch _ _ _ => True
  | .trySealReady => True
  | .trySealReadyForced => ∀ record ∈ pool.log, record.publish.isSome = true

instance (pool : Pool Handle Info) : ∀ op, Decidable (pool.Allowed op)
  | .allocate _ size align =>
    inferInstanceAs (Decidable (1 ≤ size ∧ 1 ≤ align ∧ align ≤ pool.arena.page))
  | .push _ => isTrue trivial
  | .patch _ _ _ => isTrue trivial
  | .trySealReady => isTrue trivial
  | .trySealReadyForced =>
    inferInstanceAs (Decidable (∀ record ∈ pool.log, record.publish.isSome = true))

end Pool

end Iris.Jit
