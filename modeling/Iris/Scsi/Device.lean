import Iris.Block.CowNode

/-!
Owns the storage targets of a SCSI bus: disks and CD-ROM drives over a block
node, and the commands they answer. A command panics (`none`) where the code
would index past the end of a buffer, and fails where the node reports an I/O
error.
-/

namespace Iris.Scsi

open Block Library.ByteFile

/-! ### Block nodes -/

/-- What a target uses of the node under it. -/
class BlockNode (Node : Type) where
  size : Node → Nat
  read : Node → Nat → Nat → Except IoError (List Byte)
  write : Node → Nat → List Byte → Node × Except IoError Unit

/-- A CD-ROM drive's tray, with the discs queued for it. -/
structure ChangerNode (Node : Type) where
  discs : List String
  active : Option Node
  changed : Bool

namespace ChangerNode
variable {Node : Type}

def empty : ChangerNode Node := ⟨[], none, false⟩

/-- `path` is first in the queue. -/
def loaded (node : Node) (path : String) (discs : List String) : ChangerNode Node where
  discs := if discs.head? = some path then discs else path :: discs.filter (· ≠ path)
  active := some node
  changed := false

/-- The queue turns, or the tray empties; a disc that does not open leaves the
drive as it was. -/
def eject (openCdrom : String → Except IoError Node) (changer : ChangerNode Node) :
    ChangerNode Node :=
  match changer.discs with
  | [] | [_] => ⟨[], none, true⟩
  | gone :: next :: rest =>
    match openCdrom next with
    | .error _ => changer
    | .ok node => ⟨next :: rest ++ [gone], some node, true⟩

variable [BlockNode Node] (changer : ChangerNode Node)

def size : Nat := (changer.active.map BlockNode.size).getD 0

def read (offset len : Nat) : Except IoError (List Byte) :=
  match changer.active with
  | some disc => BlockNode.read disc offset len
  | none => .error (.other "no disc in the drive")

def write (offset : Nat) (data : List Byte) : ChangerNode Node × Except IoError Unit :=
  match changer.active with
  | some disc =>
    let (disc, outcome) := BlockNode.write disc offset data
    ({ changer with active := some disc }, outcome)
  | none => (changer, .error (.other "no disc in the drive"))

end ChangerNode

/-- What a device reads and writes: a disk's image, or a CD-ROM drive's tray. -/
inductive Media (Node : Type)
  | fixed (node : Node)
  | changer (tray : ChangerNode Node)

namespace Media
variable {Node : Type}

def present : Media Node → Bool
  | .fixed _ => true
  | .changer tray => tray.active.isSome

def takeChanged : Media Node → Bool × Media Node
  | .fixed node => (false, .fixed node)
  | .changer tray => (tray.changed, .changer { tray with changed := false })

variable [BlockNode Node]

def size : Media Node → Nat
  | .fixed node => BlockNode.size node
  | .changer tray => tray.size

def read : Media Node → Nat → Nat → Except IoError (List Byte)
  | .fixed node => BlockNode.read node
  | .changer tray => tray.read

def write : Media Node → Nat → List Byte → Media Node × Except IoError Unit
  | .fixed node, offset, data =>
    let (node, outcome) := BlockNode.write node offset data
    (.fixed node, outcome)
  | .changer tray, offset, data =>
    let (tray, outcome) := tray.write offset data
    (.changer tray, outcome)

end Media

/-! ### Requests and devices -/

inductive ScsiDataLength
  | unlimited
  | fixed (maxLen : Nat)

def ScsiDataLength.fit : ScsiDataLength → List Byte → List Byte
  | .unlimited, data => data
  | .fixed maxLen, data => data.take maxLen

structure ScsiRequest where
  cdb : List Byte
  dataLen : ScsiDataLength
  dataIn : Option (List Byte)

structure ScsiResponse where
  /-- 0x00 = Good, 0x02 = Check Condition -/
  status : Byte
  data : List Byte
deriving DecidableEq

inductive DeviceKind
  | disk
  | cdrom
deriving DecidableEq

structure ScsiIdentity where
  vendor : List Byte
  product : List Byte
  revision : List Byte
  vendor_length : vendor.length = 8
  product_length : product.length = 16
  revision_length : revision.length = 4

structure ScsiDevice (Node : Type) where
  media : Media Node
  kind : DeviceKind
  /-- Written and read by WRITE BUFFER and READ BUFFER. -/
  buffer : List Byte
  pendingSense : List Byte
  physBlockSize : Nat
  logicalBlockSize : Nat
  identity : ScsiIdentity

def cdromSector : Nat := 2048

def scsiBufferSize : Nat := 0x4000

/-- An answer or an I/O error, and the device after it. -/
abbrev Answer (Node : Type) := Except IoError ScsiResponse × ScsiDevice Node

def ScsiResponse.good (data : List Byte) : ScsiResponse := ⟨0x00, data⟩

def byteOf (value shift : Nat) : Byte := BitVec.ofNat 8 (value >>> shift)

def toBeBytes (value : Nat) : List Byte :=
  [byteOf value 24, byteOf value 16, byteOf value 8, byteOf value 0]

def ofBeBytes (bytes : List Byte) : Nat := bytes.foldl (fun acc byte => acc * 256 + byte.toNat) 0

def getCdbLength (opcode : Byte) : Nat :=
  match (opcode >>> 5).toNat with
  | 0 => 6
  | 1 | 2 => 10
  | 5 => 12
  | _ => 6

def allocLen10 (cdb : List Byte) : Option Nat := do
  return ofBeBytes [← cdb[7]?, ← cdb[8]?]

def requestSenseAllocLen (cdb : List Byte) : Option Nat := do
  let len ← cdb[4]?
  return if len = 0 then 4 else len.toNat

namespace ScsiDevice
variable {Node : Type}

def new (node : Node) (isCdrom : Bool) (path : String) (discs : List String)
    (identity : ScsiIdentity) : ScsiDevice Node where
  media := if isCdrom then .changer (.loaded node path discs) else .fixed node
  kind := if isCdrom then .cdrom else .disk
  buffer := List.replicate scsiBufferSize 0
  pendingSense := List.replicate 18 0
  physBlockSize := if isCdrom then cdromSector else 512
  logicalBlockSize := if isCdrom then 2048 else 512
  identity := identity

def newEmptyCdrom (identity : ScsiIdentity) : ScsiDevice Node where
  media := .changer .empty
  kind := .cdrom
  buffer := List.replicate scsiBufferSize 0
  pendingSense := List.replicate 18 0
  physBlockSize := cdromSector
  logicalBlockSize := 2048
  identity := identity

variable (dev : ScsiDevice Node)

def isCdrom : Bool := dev.kind = .cdrom

def setSense (key asc ascq : Byte) : ScsiDevice Node :=
  { dev with
    pendingSense := [0x70, 0, key, 0, 0, 0, 0, 10, 0, 0, 0, 0, asc, ascq, 0, 0, 0, 0] }

def checkCondition (key asc ascq : Byte) : Answer Node :=
  (.ok ⟨0x02, []⟩, dev.setSense key asc ascq)

def answer (response : ScsiResponse) : Answer Node := (.ok response, dev)

def eject (openCdrom : String → Except IoError Node) : ScsiDevice Node :=
  match dev.media with
  | .fixed _ => dev
  | .changer tray => { dev with media := .changer (tray.eject openCdrom) }

/-! ### Commands on the medium -/

section Commands
variable [BlockNode Node]

/-- Capacity of the loaded medium, in bytes (0 with none). -/
def size : Nat := dev.media.size

def execTestUnitReady : Answer Node :=
  let (changed, media) := dev.media.takeChanged
  let dev := { dev with media }
  if changed then dev.checkCondition 0x06 0x28 0x00
  else if !dev.media.present then dev.checkCondition 0x02 0x3a 0x00
  else dev.answer (.good [])

variable (openCdrom : String → Except IoError Node) (cdb : List Byte) (dataIn : Option (List Byte))

def execRequestSense : Option (Answer Node) := do
  let allocLen ← requestSenseAllocLen cdb
  let sense := dev.pendingSense
  let dev := { dev with pendingSense := 0x70 :: List.replicate 17 0 }
  return dev.answer (.good (sense.take allocLen))

def execInquiry : Option (Answer Node) := do
  let allocLen := (← cdb[4]?).toNat
  let lun := (← cdb[1]?) >>> 5
  let data : List Byte :=
    if lun = 0 then
      [if dev.isCdrom then 0x05 else 0x00, if dev.isCdrom then 0x80 else 0x00, 0x02, 0x02, 31,
        0, 0, 0] ++ dev.identity.vendor ++ dev.identity.product ++ dev.identity.revision
    else [0x7f, 0, 0x02, 0x02, 31] ++ List.replicate 31 0
  return dev.answer (.good (data.take allocLen))

def execReadCapacity10 : Answer Node :=
  if !dev.media.present then dev.checkCondition 0x02 0x3a 0x00
  else
    let lastLba := dev.size / dev.logicalBlockSize - 1
    dev.answer (.good (toBeBytes lastLba ++ toBeBytes dev.logicalBlockSize))

def performRead (lba count : Nat) : Answer Node :=
  if !dev.media.present then dev.checkCondition 0x02 0x3a 0x00
  else
    let lastLba := dev.size / dev.logicalBlockSize
    if 0 < count ∧ (lastLba ≤ lba ∨ lastLba < lba + count) then
      dev.checkCondition 0x05 0x21 0x00
    else
      match dev.media.read (lba * dev.logicalBlockSize) (count * dev.logicalBlockSize) with
      | .error err => (.error err, dev)
      | .ok data => dev.answer (.good data)

/-- The address and length of a six-byte READ or WRITE. -/
def fields6 : Option (Nat × Nat) := do
  let lba := ofBeBytes [(← cdb[1]?) &&& 0x1f, ← cdb[2]?, ← cdb[3]?]
  let count ← cdb[4]?
  return (lba, if count = 0 then 256 else count.toNat)

/-- The address and length of a ten-byte READ or WRITE. -/
def fields10 : Option (Nat × Nat) := do
  let lba := ofBeBytes [← cdb[2]?, ← cdb[3]?, ← cdb[4]?, ← cdb[5]?]
  return (lba, ofBeBytes [← cdb[7]?, ← cdb[8]?])

def execRead6 : Option (Answer Node) := do
  let (lba, count) ← fields6 cdb
  return dev.performRead lba count

def execRead10 : Option (Answer Node) := do
  let (lba, count) ← fields10 cdb
  return dev.performRead lba count

def performWrite (lba count : Nat) (dataIn : Option (List Byte)) : Answer Node :=
  if dev.isCdrom then dev.checkCondition 0x07 0x27 0x00
  else if dev.size < (lba + count) * dev.logicalBlockSize then dev.checkCondition 0x05 0x21 0x00
  else
    match dataIn with
    | none => dev.answer ⟨0x02, []⟩
    | some data =>
      if data.length ≠ count * dev.logicalBlockSize then dev.answer ⟨0x02, []⟩
      else if !dev.media.present then dev.checkCondition 0x02 0x3a 0x00
      else
        -- "as 512-byte sectors": the block size in force is not used here.
        match dev.media.write (lba * 512) data with
        | (media, .error _) => { dev with media }.checkCondition 0x03 0x0c 0x00
        | (media, .ok ()) => { dev with media }.answer (.good [])

def execWrite6 : Option (Answer Node) := do
  let (lba, count) ← fields6 cdb
  return dev.performWrite lba count dataIn

def execWrite10 : Option (Answer Node) := do
  let (lba, count) ← fields10 cdb
  return dev.performWrite lba count dataIn

def execStartStopUnit :
    Option (Answer Node) := do
  let bits ← cdb[4]?
  let loej := bits &&& 0x02 ≠ 0
  let start := bits &&& 0x01 ≠ 0
  let dev := if loej ∧ ¬start ∧ dev.isCdrom then dev.eject openCdrom else dev
  return dev.answer (.good [])

/-! ### Mode parameters -/

/-- The mode pages a device has: the bytes of one page each. -/
def modePages (pageCode : Byte) : List Byte :=
  let lbs := dev.logicalBlockSize
  let spt := 63
  let heads := 16
  let cylinders := (dev.size / lbs + (heads * spt - 1)) / (heads * spt)
  let page (code : Byte) (owner : Bool) (bytes : List Byte) : List Byte :=
    if owner ∧ (pageCode = 0x3f ∨ pageCode = code) then bytes else []
  page 0x01 true [0x01, 0x0a, 0x00, 0x01, 0x00, 0x00, 0x00, 0x00, 0x01, 0x00, 0x00, 0x00] ++
  page 0x2a dev.isCdrom
    [0x2a, 0x12, 0x00, 0x00, 0x71, 0x00, 0x00, 0x00, 0x01, 0x00, 0x00, 0x00, 0x00, 0x00, 0x01,
      0x00, 0x00, 0x00, 0x00, 0x00, 0x00, 0x00] ++
  page 0x0e dev.isCdrom
    [0x0e, 0x0e, 0x04, 0x00, 0x00, 0x00, 0x00, 0x4b, 0x01, 0xff, 0x02, 0xff, 0x00, 0x00, 0x00,
      0x00] ++
  page 0x03 (!dev.isCdrom)
    [0x03, 0x16, 0x00, 0x00, 0x00, 0x00, 0x00, 0x00, 0x00, 0x00, byteOf spt 8, byteOf spt 0,
      byteOf lbs 8, byteOf lbs 0, 0x00, 0x01, 0x00, 0x00, 0x00, 0x00, 0x00, 0x00, 0x00, 0x00] ++
  page 0x04 (!dev.isCdrom)
    [0x04, 0x16, byteOf cylinders 16, byteOf cylinders 8, byteOf cylinders 0, byteOf heads 0,
      0x00, 0x00, 0x00, 0x00, 0x00, 0x00, 0x00, 0x00, 0x00, 0x00, 0x00, 0x00, 0x00, 0x00, 0x1c,
      0x20, 0x00, 0x00] ++
  page 0x08 (!dev.isCdrom)
    [0x08, 0x12, 0x04, 0x00, 0x00, 0x00, 0x00, 0x00, 0xff, 0xff, 0xff, 0xff, 0x00, 0x00, 0x00,
      0x00, 0x00, 0x00, 0x00, 0x00]

/-- The block descriptor and the pages, or the refusal of a page a CD-ROM does
not have. -/
def buildModeSensePages (pageCode : Byte) (dbd : Bool) :
    Except (Answer Node) (List Byte × List Byte) :=
  if dev.isCdrom ∧ (pageCode = 0x08 ∨ pageCode = 0x03 ∨ pageCode = 0x04) then
    .error (dev.checkCondition 0x05 0x24 0x00)
  else
    let lbs := dev.logicalBlockSize
    let totalBlocks := dev.size / lbs
    let blockDesc : List Byte :=
      if dbd then []
      else [0x00, byteOf totalBlocks 16, byteOf totalBlocks 8, byteOf totalBlocks 0, 0x00,
        byteOf lbs 16, byteOf lbs 8, byteOf lbs 0]
    .ok (blockDesc, dev.modePages pageCode)

def mediumType : Byte := if dev.isCdrom then 0x01 else 0x00

def writeProtect : Byte := if dev.isCdrom then 0x80 else 0x00

def execModeSense6 : Option (Answer Node) := do
  let pageCode := (← cdb[2]?) &&& 0x3f
  let dbd : Bool := (← cdb[1]?) &&& 0x08 ≠ 0
  let allocLen := (← cdb[4]?).toNat
  match dev.buildModeSensePages pageCode dbd with
  | .error refused => return refused
  | .ok (blockDesc, pages) =>
    let totalLen := 4 + blockDesc.length + pages.length
    let data := [byteOf (totalLen - 1) 0, dev.mediumType, dev.writeProtect,
      byteOf blockDesc.length 0] ++ blockDesc ++ pages
    return dev.answer (.good (data.take allocLen))

def execModeSense10 : Option (Answer Node) := do
  let pageCode := (← cdb[2]?) &&& 0x3f
  let dbd : Bool := (← cdb[1]?) &&& 0x08 ≠ 0
  let allocLen ← allocLen10 cdb
  match dev.buildModeSensePages pageCode dbd with
  | .error refused => return refused
  | .ok (blockDesc, pages) =>
    let modeDataLen := 8 + blockDesc.length + pages.length - 2
    let data := [byteOf modeDataLen 8, byteOf modeDataLen 0, dev.mediumType, dev.writeProtect,
      0, 0, byteOf blockDesc.length 8, byteOf blockDesc.length 0] ++ blockDesc ++ pages
    return dev.answer (.good (data.take allocLen))

/-- A MODE SELECT block descriptor at `start`, `len` bytes: its block length
becomes the logical block size, if it is one a CD-ROM takes. -/
def selectBlockDescriptor (data : List Byte) (start len : Nat) : Option (ScsiDevice Node) := do
  if 8 ≤ len ∧ start + len ≤ data.length then
    let desc := slice data start len
    let newLbs := ofBeBytes [← desc[5]?, ← desc[6]?, ← desc[7]?]
    if newLbs = 512 ∨ newLbs = 1024 ∨ newLbs = 2048 then
      return { dev with logicalBlockSize := newLbs }
  return dev

def execModeSelect6 : Option (Answer Node) := do
  let paramLen := (← cdb[4]?).toNat
  match dataIn with
  | none => return dev.answer (.good [])
  | some data =>
    if data.length < paramLen ∨ paramLen < 4 then return dev.answer (.good [])
    let dev ← dev.selectBlockDescriptor data 4 (← data[3]?).toNat
    return dev.answer (.good [])

def execModeSelect10 : Option (Answer Node) := do
  let paramLen := ofBeBytes [← cdb[7]?, ← cdb[8]?]
  match dataIn.filter fun data => paramLen ≤ data.length ∧ 8 ≤ paramLen with
  | none => return dev.answer (.good [])
  | some data =>
    let dev ← dev.selectBlockDescriptor data 8 (ofBeBytes [← data[6]?, ← data[7]?])
    return dev.answer (.good [])

/-! ### Buffers, table of contents and vendor commands -/

/-- Offset and length of a READ BUFFER or WRITE BUFFER. -/
def bufferFields : Option (Nat × Nat) := do
  return (ofBeBytes [← cdb[3]?, ← cdb[4]?, ← cdb[5]?], ofBeBytes [← cdb[6]?, ← cdb[7]?, ← cdb[8]?])

def execWriteBuffer : Option (Answer Node) := do
  let mode := ((← cdb[1]?) &&& 0x1f).toNat
  let (offset, length) ← bufferFields cdb
  if 2 < mode then return dev.answer ⟨0x02, []⟩
  match dataIn with
  | none => return dev.answer (.good [])
  | some data =>
    let dataOffset := if mode = 0 then 4 else 0
    -- The slice past the header panics where the data is shorter than it.
    if data.length < dataOffset then none
    let actualData := data.drop dataOffset
    let actualLength := length - dataOffset
    if offset + actualLength ≤ scsiBufferSize ∧ actualLength ≤ actualData.length then
      let dev := { dev with buffer := overwrite dev.buffer offset (actualData.take actualLength) }
      return dev.answer (.good [])
    else return dev.answer ⟨0x02, []⟩

def capacityBytes : List Byte :=
  [byteOf scsiBufferSize 16, byteOf scsiBufferSize 8, byteOf scsiBufferSize 0]

def execReadBuffer : Option (Answer Node) := do
  let mode := ((← cdb[1]?) &&& 0x1f).toNat
  let (offset, allocLen) ← bufferFields cdb
  match mode with
  | 0 =>
    -- The room is computed with a subtraction that wraps.
    let room := (scsiBufferSize + 2 ^ 64 - offset) % 2 ^ 64
    let dataLen := min (allocLen - 4) room
    let data := 0x00 :: capacityBytes ++
      if offset < scsiBufferSize ∧ 0 < dataLen then slice dev.buffer offset dataLen else []
    return dev.answer (.good (data.take allocLen))
  | 1 | 2 =>
    if scsiBufferSize < offset + allocLen then return dev.answer ⟨0x02, []⟩
    return dev.answer (.good (slice dev.buffer offset allocLen))
  | 3 => return dev.answer (.good (0x00 :: capacityBytes))
  | _ => return dev.answer ⟨0x02, []⟩

def execReadTocPmaAtip : Option (Answer Node) := do
  if !dev.media.present then return dev.checkCondition 0x02 0x3a 0x00
  let msf := (← cdb[1]?) &&& 0x02 ≠ 0
  let format := ((← cdb[2]?) &&& 0x0f).toNat
  let allocLen ← allocLen10 cdb
  let totalLba := dev.size / dev.physBlockSize % 2 ^ 32
  match format with
  | 0 =>
    let trackOne : List Byte := if msf then [0x00, 0x00, 0x02, 0x00] else toBeBytes 0
    let leadOut : List Byte :=
      if msf then
        [0x00, byteOf (totalLba / 75 / 60) 0, byteOf (totalLba / 75 % 60) 0,
          byteOf (totalLba % 75) 0]
      else toBeBytes totalLba
    let data := [0x00, 0x12, 0x01, 0x01, 0x00, 0x14, 0x01, 0x00] ++ trackOne ++
      [0x00, 0x14, 0xaa, 0x00] ++ leadOut
    return dev.answer (.good (data.take allocLen))
  | 1 =>
    let data : List Byte := [0x00, 0x0a, 0x01, 0x01, 0x00, 0x14, 0x01, 0x00, 0, 0, 0, 0]
    return dev.answer (.good (data.take allocLen))
  | _ => return dev.checkCondition 0x05 0x24 0x00

def execSgiEject : Answer Node :=
  if !dev.isCdrom then dev.checkCondition 0x05 0x20 0x00
  else (dev.eject openCdrom).answer (.good [])

def execGetConfiguration : Option (Answer Node) := do
  if !dev.isCdrom then return dev.checkCondition 0x05 0x20 0x00
  let data : List Byte := [0x00, 0x00, 0x00, 0x0c, 0x00, 0x00, 0x00, 0x08, 0x00, 0x00, 0x03, 0x04,
    0x00, 0x08, 0x01, 0x00]
  return dev.answer (.good (data.take (← allocLen10 cdb)))

/-! ### Dispatch -/

def dispatch (opcode : Byte) (cdb : List Byte) (dataIn : Option (List Byte))
    : Option (Answer Node) :=
  match opcode.toNat with
  | 0x00 => some dev.execTestUnitReady
  | 0x03 => dev.execRequestSense cdb
  | 0x12 => dev.execInquiry cdb
  | 0x25 => some dev.execReadCapacity10
  | 0x08 => dev.execRead6 cdb
  | 0x28 => dev.execRead10 cdb
  | 0x0a => dev.execWrite6 cdb dataIn
  | 0x2a => dev.execWrite10 cdb dataIn
  | 0x1b => dev.execStartStopUnit openCdrom cdb
  | 0x1a => dev.execModeSense6 cdb
  | 0x5a => dev.execModeSense10 cdb
  | 0x3b => dev.execWriteBuffer cdb dataIn
  | 0x3c => dev.execReadBuffer cdb
  | 0x15 => dev.execModeSelect6 cdb dataIn
  | 0x55 => dev.execModeSelect10 cdb dataIn
  | 0x43 => dev.execReadTocPmaAtip cdb
  | 0x46 => dev.execGetConfiguration cdb
  | 0xc4 => some (dev.execSgiEject openCdrom)
  -- SEND DIAGNOSTIC, PREVENT ALLOW MEDIUM REMOVAL, SYNCHRONIZE CACHE, RESERVE, RELEASE,
  -- VERIFY, SET CD SPEED and the mode switch of SGI drives do nothing.
  | 0x1d | 0x1e | 0x35 | 0x16 | 0x17 | 0x2f | 0xbb | 0xc9 => some (dev.answer (.good []))
  | _ => some (dev.checkCondition 0x05 0x20 0x00)

def request (req : ScsiRequest) : Option (Answer Node) :=
  match req.cdb with
  | [] => some (dev.checkCondition 0x05 0x20 0x00)
  | opcode :: _ => do
      let lun := (← req.cdb[1]?) >>> 5
      let exempt := opcode = 0x12 ∨ opcode = 0x03
      if lun ≠ 0 ∧ ¬exempt then return dev.checkCondition 0x05 0x25 0x00
      -- Asking after a change of the medium clears it, so the exempt commands do not ask.
      let (changed, media) := if exempt then (false, dev.media) else dev.media.takeChanged
      let dev := { dev with media }
      if changed then return dev.checkCondition 0x06 0x28 0x00
      let (outcome, dev) ← dev.dispatch openCdrom opcode req.cdb req.dataIn
      return (outcome.map fun response => { response with data := req.dataLen.fit response.data },
        dev)

end Commands

end ScsiDevice

end Iris.Scsi
