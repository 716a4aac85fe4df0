import Iris.Block.Sidecar
import Iris.Library.ByteFile

/-!
Owns the copy-on-write disk node: the three files it stands on, its sector-wise
reads and writes, and the operations that fold, drop, save and restore its overlay.
-/

namespace Iris.Block

open Library ByteFile

def sectorSize : Nat := 512

inductive IoError
  | invalidInput (message : String)
  | unexpectedEof
  | other (message : String)
deriving DecidableEq, Repr

/-- The range `[offset, offset + len)` lies within a node of `size` bytes. -/
def checkRange (size offset len : Nat) : Except IoError Unit :=
  if 2 ^ 64 ≤ offset + len then .error (.invalidInput "block range overflows u64")
  else if size < offset + len then .error (.invalidInput "block range past end of node")
  else .ok ()

/-- The sector range `[first, last)` covering `[offset, offset + len)`. -/
def sectorsFor (offset len : Nat) : Nat × Nat :=
  (offset / sectorSize, (offset + len + sectorSize - 1) % 2 ^ 64 / sectorSize)

/-- The sectors of an access, in the order its loop visits them. -/
def sectorList (offset len : Nat) : List Nat :=
  let (first, last) := sectorsFor offset len
  List.range' first (last - first)

/-- What the host holds of one disk: the base image, the overlay beside it and the
sidecar, if there is one. -/
structure Files where
  base : List Byte
  overlay : List Byte
  sidecar : Option (List Byte)
deriving DecidableEq, Repr

/-- A raw image node; its file is the base image. -/
structure RawNode where
  size : Nat
deriving DecidableEq, Repr

def readFile (file : List Byte) (offset len : Nat) : Except IoError (List Byte) :=
  match readExact file offset len with
  | some data => .ok data
  | none => .error .unexpectedEof

def RawNode.read (raw : RawNode) (file : List Byte) (offset len : Nat) :
    Except IoError (List Byte) := do
  checkRange raw.size offset len
  readFile file offset len

structure CowNode where
  files : Files
  backing : Option RawNode
  /-- The node knows the path of the base image. -/
  basePath : Bool
  dirty : Finset Nat
  size : Nat
deriving DecidableEq

namespace CowNode

/-- Open the overlay over `backing`, with the dirty set a previous run saved. -/
def new (backing : Option RawNode) (files : Files) (size : Nat) (derivesBase : Bool) : CowNode where
  files := files
  backing := backing
  basePath := derivesBase
  dirty := loadDirtySidecar files.sidecar
  size := size

def withBasePath (node : CowNode) : CowNode := { node with basePath := true }

variable (node : CowNode)

/-- One whole sector: the overlay if it holds it, else the backing, else zeroes. -/
def readSector (lba : Nat) : Except IoError (List Byte) :=
  if lba ∈ node.dirty then readFile node.files.overlay (lba * sectorSize) sectorSize
  else
    match node.backing with
    | some raw => raw.read node.files.base (lba * sectorSize) sectorSize
    | none => .ok (List.replicate sectorSize 0)

def readLoop (offset ending : Nat) : List Nat → List Byte → Except IoError (List Byte)
  | [], buf => .ok buf
  | lba :: rest, buf => do
      let sector ← node.readSector lba
      let sOff := lba * sectorSize
      let start := max offset sOff
      let stop := min ending (sOff + sectorSize)
      readLoop offset ending rest
        (overwrite buf (start - offset) (slice sector (start - sOff) (stop - start)))

def read (offset len : Nat) : Except IoError (List Byte) := do
  checkRange node.size offset len
  if len = 0 then .ok []
  else node.readLoop offset (offset + len) (sectorList offset len) (List.replicate len 0)

def holdSector (lba : Nat) (sector : List Byte) : CowNode :=
  { node with
    files := { node.files with
      overlay := writeAt 0 node.files.overlay (lba * sectorSize) sector }
    dirty := insert lba node.dirty }

/-- Pull each sector up through the chain, change the bytes in range, and hand it
to the overlay. -/
def writeLoop (offset : Nat) (buf : List Byte) : List Nat → CowNode → CowNode × Except IoError Unit
  | [], node => (node, .ok ())
  | lba :: rest, node =>
    match node.readSector lba with
    | .error err => (node, .error err)
    | .ok sector =>
      let sOff := lba * sectorSize
      let start := max offset sOff
      let stop := min (offset + buf.length) (sOff + sectorSize)
      let sector := overwrite sector (start - sOff) (slice buf (start - offset) (stop - start))
      writeLoop offset buf rest (node.holdSector lba sector)

def write (offset : Nat) (buf : List Byte) : CowNode × Except IoError Unit :=
  match checkRange node.size offset buf.length with
  | .error err => (node, .error err)
  | .ok () =>
    if buf = [] then (node, .ok ())
    else writeLoop offset buf (sectorList offset buf.length) node

def flush (order : HashOrder) : CowNode :=
  { node with
    files := { node.files with sidecar := some (saveDirtySidecar (order.list node.dirty)) } }

def discard (offset len : Nat) : CowNode × Except IoError Unit :=
  match checkRange node.size offset len with
  | .error err => (node, .error err)
  | .ok () =>
    if len = 0 then (node, .ok ())
    else
      ({ node with dirty := (sectorList offset len).foldl Finset.erase node.dirty }, .ok ())

def mergeSectors (overlay : List Byte) : List Nat → List Byte → List Byte × Except IoError Unit
  | [], base => (base, .ok ())
  | lba :: rest, base =>
    match readFile overlay (lba * sectorSize) sectorSize with
    | .error err => (base, .error err)
    | .ok buf => mergeSectors overlay rest (writeAt 0 base (lba * sectorSize) buf)

/-- Merge every dirty sector into the base image, then empty the overlay. -/
def commit (order : HashOrder) : CowNode × Except IoError Nat :=
  if node.basePath then
    match mergeSectors node.files.overlay (order.list node.dirty) node.files.base with
    | (base, .error err) => ({ node with files := { node.files with base } }, .error err)
    | (base, .ok ()) =>
      ({ node with files := { node.files with base, overlay := [] }, dirty := ∅ },
        .ok (order.list node.dirty).length)
  else (node, .error (.other "cannot determine base path from overlay path"))

/-- Delete every overlay write and the saved dirty set. -/
def rollback : CowNode :=
  { node with files := { node.files with overlay := [], sidecar := none }, dirty := ∅ }

/-- A copy of the overlay, and the dirty sectors in order. -/
def exportOverlay : List Byte × List Nat := (node.files.overlay, node.dirty.sort (· ≤ ·))

/-- Replace the overlay by `source`, or empty it if there is none, and adopt `dirty`. -/
def importOverlay (source : Option (List Byte)) (dirty : List Nat) : CowNode :=
  { node with files := { node.files with overlay := source.getD [] }, dirty := dirty.toFinset }

end CowNode

/-- A disk mounted with an overlay: the backing, the capacity and the base path are those
of the one image. -/
def openImage (files : Files) (derivesBase : Bool) : CowNode :=
  (CowNode.new (some ⟨files.base.length⟩) files files.base.length derivesBase).withBasePath

/-! ### Runs -/

inductive DiskOp
  | read (offset len : Nat)
  | write (offset : Nat) (data : List Byte)
  | flush (order : HashOrder)
  | discard (offset len : Nat)
  | commit (order : HashOrder)
  | rollback
  | importOverlay (source : Option (List Byte)) (dirty : List Nat)

/-- The node after an operation, and what it returned; only a read returns data. -/
def CowNode.step (node : CowNode) : DiskOp → CowNode × Except IoError (List Byte)
  | .read offset len => (node, node.read offset len)
  | .write offset data =>
    let (node, outcome) := node.write offset data
    (node, outcome.map fun _ => [])
  | .flush order => (node.flush order, .ok [])
  | .discard offset len =>
    let (node, outcome) := node.discard offset len
    (node, outcome.map fun _ => [])
  | .commit order =>
    let (node, outcome) := node.commit order
    (node, outcome.map fun _ => [])
  | .rollback => (node.rollback, .ok [])
  | .importOverlay source dirty => (node.importOverlay source dirty, .ok [])

def CowNode.run (node : CowNode) (ops : List DiskOp) : CowNode :=
  ops.foldl (fun node op => (node.step op).1) node

end Iris.Block
