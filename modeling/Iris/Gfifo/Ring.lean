import Iris.Library.Ring
import Mathlib.Data.List.Range

/-!
Owns the register-write ring of the graphics boards: four forms of push that check
the room behind the slowest published head, and per head a peek, a consume, a payload
drain and a publication. Operations run one at a time, so the producers' lock is free
whenever one starts.
-/

namespace Iris.Gfifo

open Library.Ring Function

abbrev Word := BitVec 64

structure GFIFOEntry where
  addr : BitVec 32
  val : Word
deriving DecidableEq, Repr

/-- The address of the payload entries behind a batch token. -/
def gfifoPayload : BitVec 32 := 0xFFFF0003

/-- A ring of `2 ^ bits` slots read by `heads` consumers. -/
structure GFifo (bits heads : Nat) where
  head : Nat → Nat
  tail : Nat
  /-- The producer's cached slowest head. -/
  shadowHead : Nat
  /-- Each consumer's cached tail and private head. -/
  shadowTail : Nat → Nat
  localHead : Nat → Nat
  buf : Nat → GFIFOEntry

namespace GFifo

variable {bits heads : Nat}

def new : GFifo bits heads where
  head _ := 0
  tail := 0
  shadowHead := 0
  shadowTail _ := 0
  localHead _ := 0
  buf _ := ⟨0, 0⟩

variable (fifo : GFifo bits heads)

def depth (_ : GFifo bits heads) : Nat := 2 ^ bits

def mask (_ : GFifo bits heads) (index : Nat) : Nat := index &&& (2 ^ bits - 1)

/-- The published head furthest behind `tail`. -/
def slowestHead (tail : Nat) : Nat :=
  (List.range' 1 (heads - 1)).foldl
    (fun slow h =>
      let v := fifo.head h
      if fifo.mask (wrappingSub tail slow) < fifo.mask (wrappingSub tail v) then v else slow)
    (fifo.head 0)

/-- Entries in the queue, for the consumer furthest behind. -/
def len : Nat := fifo.mask (wrappingSub fifo.tail (fifo.slowestHead fifo.tail))

def lenAt (h : Nat) : Nat := fifo.mask (wrappingSub fifo.tail (fifo.head h))

def writeSlot (index : Nat) (entry : GFIFOEntry) : GFifo bits heads :=
  { fifo with buf := update fifo.buf index entry }

def refresh : GFifo bits heads := { fifo with shadowHead := fifo.slowestHead fifo.tail }

/-! ### Pushes -/

/-- The slot written, and the tail published. -/
def storeOne (entry : GFIFOEntry) : GFifo bits heads :=
  { fifo.writeSlot fifo.tail entry with tail := fifo.mask (fifo.tail + 1) }

def tryPush (entry : GFIFOEntry) : GFifo bits heads × Bool :=
  let nextTail := fifo.mask (fifo.tail + 1)
  if nextTail = fifo.shadowHead then
    let fifo := fifo.refresh
    if nextTail = fifo.shadowHead then (fifo, false) else (fifo.storeOne entry, true)
  else (fifo.storeOne entry, true)

def storeTwo (first second : GFIFOEntry) : GFifo bits heads :=
  let next := fifo.mask (fifo.tail + 1)
  { (fifo.writeSlot fifo.tail first).writeSlot next second with
    tail := fifo.mask (fifo.tail + 2) }

/-- Room for both before writing either. -/
def tryPush2 (first second : GFIFOEntry) : GFifo bits heads × Bool :=
  let next := fifo.mask (fifo.tail + 1)
  let next2 := fifo.mask (fifo.tail + 2)
  if next = fifo.shadowHead ∨ next2 = fifo.shadowHead then
    let fifo := fifo.refresh
    if next = fifo.shadowHead ∨ next2 = fifo.shadowHead then (fifo, false)
    else (fifo.storeTwo first second, true)
  else (fifo.storeTwo first second, true)

/-- Free slots behind `head`: one stays empty to tell full from empty. -/
def room (head : Nat) : Nat := fifo.mask (wrappingSub (wrappingSub head fifo.tail) 1)

def writeSlice (tail : Nat) : Nat → List GFIFOEntry → GFifo bits heads → GFifo bits heads
  | _, [], fifo => fifo
  | i, entry :: rest, fifo =>
    writeSlice tail (i + 1) rest (fifo.writeSlot (fifo.mask (tail + i)) entry)

def storeSlice (entries : List GFIFOEntry) : GFifo bits heads :=
  { writeSlice fifo.tail 0 entries fifo with tail := fifo.mask (fifo.tail + entries.length) }

def tryPushSlice (entries : List GFIFOEntry) : GFifo bits heads × Bool :=
  if entries.length = 0 then (fifo, true)
  else if fifo.room fifo.shadowHead < entries.length then
    let fifo := fifo.refresh
    if fifo.room fifo.shadowHead < entries.length then (fifo, false)
    else (fifo.storeSlice entries, true)
  else (fifo.storeSlice entries, true)

def writePayload : Nat → List Word → GFifo bits heads → GFifo bits heads
  | _, [], fifo => fifo
  | index, val :: rest, fifo =>
    let index := fifo.mask (index + 1)
    writePayload index rest (fifo.writeSlot index ⟨gfifoPayload, val⟩)

def storeBatch (token : GFIFOEntry) (vals : List Word) : GFifo bits heads :=
  { writePayload fifo.tail vals (fifo.writeSlot fifo.tail token) with
    tail := fifo.mask (fifo.tail + (vals.length + 1)) }

/-- One pass of the loop in `push_batch`: `false` while there is no room and it goes
round again, and for a batch that the ring can never hold, where it panics. -/
def pushBatch (token : GFIFOEntry) (vals : List Word) : GFifo bits heads × Bool :=
  let need := vals.length + 1
  if fifo.depth ≤ need then (fifo, false)
  else
    let fifo := fifo.refresh
    let used := fifo.mask (wrappingSub fifo.tail fifo.shadowHead)
    let free := 2 ^ bits - 1 - used
    if free < need then (fifo, false) else (fifo.storeBatch token vals, true)

/-! ### Consumers -/

def peekAt (h : Nat) : GFifo bits heads × Option GFIFOEntry :=
  let head := fifo.localHead h
  if head = fifo.shadowTail h then
    let fifo := { fifo with shadowTail := update fifo.shadowTail h fifo.tail }
    if head = fifo.tail then (fifo, none) else (fifo, some (fifo.buf head))
  else (fifo, some (fifo.buf head))

/-- Advance past the entry peeked at. The head is published every 64 entries, and when
the queue is drained. -/
def consumeAt (h : Nat) : GFifo bits heads :=
  let nextHead := fifo.mask (fifo.localHead h + 1)
  let fifo := { fifo with localHead := update fifo.localHead h nextHead }
  if nextHead &&& 63 = 0 ∨ nextHead = fifo.tail then
    { fifo with head := update fifo.head h nextHead }
  else fifo

/-- The values of the next `n` slots from `head` on, with the cached tail sampled again
where it is reached; `none` if the tail is and the drain would wait. -/
def drainLoop : Nat → Nat → Nat → Option (List Word × Nat × Nat)
  | 0, head, tail => some ([], head, tail)
  | n + 1, head, tail =>
    let tail := if head = tail then fifo.tail else tail
    if head = tail then none
    else
      (drainLoop n (fifo.mask (head + 1)) tail).map fun (vals, rest) =>
        ((fifo.buf head).val :: vals, rest)

/-- The `n` payload values behind the token peeked at; the consume that follows retires
the last of them. -/
def drainPayloadAt (h n : Nat) : GFifo bits heads × Option (List Word) :=
  match fifo.drainLoop n (fifo.mask (fifo.localHead h + 1)) fifo.tail with
  | none => (fifo, none)
  | some (vals, head, tail) =>
    ({ fifo with
        shadowTail := update fifo.shadowTail h tail
        localHead := update fifo.localHead h (fifo.mask (wrappingSub head 1)) },
      some vals)

def flushHeadAt (h : Nat) : GFifo bits heads :=
  { fifo with head := update fifo.head h (fifo.localHead h) }

def isEmpty : Bool := (List.range heads).all fun h => fifo.head h = fifo.tail

/-! ### Runs -/

end GFifo

inductive RingOp
  | push (entry : GFIFOEntry)
  | push2 (first second : GFIFOEntry)
  | pushSlice (entries : List GFIFOEntry)
  | pushBatch (token : GFIFOEntry) (vals : List Word)
  | peek (h : Nat)
  | consume (h : Nat)
  | drainPayload (h n : Nat)
  | flushHead (h : Nat)
deriving DecidableEq, Repr

inductive Response
  | pushed (success : Bool)
  | peeked (entry : Option GFIFOEntry)
  | drained (vals : Option (List Word))
  | done
deriving DecidableEq, Repr

variable {bits heads : Nat}

def GFifo.step (fifo : GFifo bits heads) : RingOp → GFifo bits heads × Response
  | .push entry => let (fifo, success) := fifo.tryPush entry; (fifo, .pushed success)
  | .push2 first second =>
    let (fifo, success) := fifo.tryPush2 first second; (fifo, .pushed success)
  | .pushSlice entries => let (fifo, success) := fifo.tryPushSlice entries; (fifo, .pushed success)
  | .pushBatch token vals =>
    let (fifo, success) := fifo.pushBatch token vals; (fifo, .pushed success)
  | .peek h => let (fifo, entry) := fifo.peekAt h; (fifo, .peeked entry)
  | .consume h => (fifo.consumeAt h, .done)
  | .drainPayload h n => let (fifo, vals) := fifo.drainPayloadAt h n; (fifo, .drained vals)
  | .flushHead h => (fifo.flushHeadAt h, .done)

end Iris.Gfifo
