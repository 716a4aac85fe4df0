import Iris.Block.FlatDisk
import Iris.Library.Run
import Iris.Scsi.Device

/-!
Owns what a disk keeps: over a node that is an array of bytes, READ returns each
logical block as the last WRITE of that block left it, and WRITE changes the
blocks it names alone, as long as every WRITE lands where READ looks for it.
-/

namespace Iris.Scsi

open Block Library.ByteFile Library.Run Option ScsiDevice ScsiRequest List

/-! ### Nodes that are arrays of bytes -/

variable {data : List Byte}

/-- What a node reads is there; what it writes is there afterwards and nothing
else changes. -/
structure FlatNode (Node : Type) [BlockNode Node] where
  Valid : Node → Prop
  byteAt : Node → Nat → Option Byte
  read_ok : ∀ {node offset len data}, Valid node → BlockNode.read node offset len = .ok data →
    data.length = len ∧ ∀ i < len, data[i]? = byteAt node (offset + i)
  write_ok : ∀ {node after offset data}, Valid node →
    BlockNode.write node offset data = (after, .ok ()) → Valid after ∧ ∀ i, byteAt after i =
      if offset ≤ i ∧ i < offset + data.length then data[i - offset]? else byteAt node i
  write_error : ∀ {node after offset data err}, Valid node →
    BlockNode.write node offset data = (after, .error err) →
      Valid after ∧ ∀ i, byteAt after i = byteAt node i

structure RawDisk where
  raw : RawNode
  file : List Byte

open RawDisk

namespace RawDisk

def write (disk : RawDisk) (offset : Nat) (data : List Byte) : RawDisk × Except IoError Unit :=
  match checkRange disk.raw.size offset data.length with
  | .error err => (disk, .error err)
  | .ok () => ({ disk with file := writeAt 0 disk.file offset data }, .ok ())

instance : BlockNode RawDisk where
  size disk := disk.raw.size
  read disk := disk.raw.read disk.file
  write := write

theorem checkRange_ok {size len : Nat} (inside : checkRange size offset len = .ok ()) :
    offset + len ≤ size := by
  unfold checkRange at inside
  split at inside
  · cases inside
  · split at inside
    · cases inside
    · omega

theorem readFile_ok {file : List Byte} {len : Nat} (done : readFile file offset len = .ok data) :
    data.length = len ∧ ∀ i < len, data[i]? = file[offset + i]? := by
  unfold readFile at done
  by_cases inside : offset + len ≤ file.length
  · rw [readExact_inside inside] at done
    cases done
    exact ⟨length_slice inside, fun i within => by rw [getElem?_slice, if_pos within]⟩
  · rw [readExact_beyond (by omega)] at done
    cases done

/-- A raw image is an array of bytes while the file has the recorded length. -/
def flat : FlatNode RawDisk where
  Valid disk := disk.raw.size ≤ disk.file.length
  byteAt disk i := disk.file[i]?
  read_ok {disk offset len data} _ done := by
    change (checkRange disk.raw.size offset len >>= fun _ => readFile disk.file offset len) = _
      at done
    cases range : checkRange disk.raw.size offset len with
    | error err =>
      rw [range] at done
      cases done
    | ok =>
      rw [range] at done
      exact readFile_ok done
  write_ok {disk after offset data} valid done := by
    change disk.write offset data = _ at done
    unfold write at done
    split at done
    · cases (Prod.mk.inj done).2
    next inside =>
      cases done
      have reach := checkRange_ok inside
      refine ⟨?_, fun i => ?_⟩
      · have grown := length_writeAt 0 disk.file offset data
        dsimp only
        omega
      · apply getElem?_writeAt
        omega
  write_error {disk after offset data err} valid done := by
    change disk.write offset data = _ at done
    unfold write at done
    split at done
    · cases done
      exact ⟨valid, fun _ => rfl⟩
    · cases (Prod.mk.inj done).2

end RawDisk

instance : BlockNode CowNode where
  size node := node.size
  read := CowNode.read
  write := CowNode.write

/-- So is an image with its overlay. -/
def cowFlat : FlatNode CowNode where
  Valid := CowNode.WellFormed
  byteAt := CowNode.byteAt
  read_ok {node offset len data} wellFormed done := by
    change node.read offset len = _ at done
    cases range : checkRange node.size offset len with
    | error err =>
      rw [CowNode.read, range] at done
      cases done
    | ok =>
      obtain ⟨_, read, length, bytes⟩ := wellFormed.read (checkRange_ok range)
      cases read.symm.trans done
      exact ⟨length, bytes⟩
  write_ok {node after offset data} wellFormed done := by
    change node.write offset data = _ at done
    cases range : checkRange node.size offset data.length with
    | error err =>
      rw [CowNode.write, range] at done
      cases (Prod.mk.inj done).2
    | ok =>
      obtain ⟨_, wrote, wellFormed', -, -, bytes⟩ :=
        wellFormed.write (checkRange_ok range)
      cases wrote.symm.trans done
      exact ⟨wellFormed', bytes⟩
  write_error {node after offset data err} wellFormed done := by
    change node.write offset data = _ at done
    cases range : checkRange node.size offset data.length with
    | error err =>
      rw [CowNode.write, range] at done
      cases done
      exact ⟨wellFormed, fun _ => rfl⟩
    | ok =>
      obtain ⟨_, wrote, -⟩ := wellFormed.write (checkRange_ok range)
      cases (Prod.mk.inj (wrote.symm.trans done)).2

/-! ### The medium of a device -/

variable {Node : Type} [BlockNode Node]

variable {openCdrom : String → Except IoError Node}

def Media.node? : Media Node → Option Node
  | .fixed node => some node
  | .changer tray => tray.active

namespace FlatNode
variable (flat : FlatNode Node)

def MediaValid (media : Media Node) : Prop := ∀ node, media.node? = some node → flat.Valid node

def mediaByte (media : Media Node) (i : Nat) : Option Byte :=
  media.node?.bind fun node => flat.byteAt node i

variable {flat} {media after : Media Node} {offset len : Nat} {data : List Byte}

theorem media_read_ok (valid : flat.MediaValid media) (done : media.read offset len = .ok data) :
    data.length = len ∧ ∀ i < len, data[i]? = flat.mediaByte media (offset + i) := by
  cases media with
  | fixed node => exact flat.read_ok (valid node rfl) done
  | changer tray =>
    simp only [Media.read, ChangerNode.read] at done
    cases active : tray.active with
    | none =>
      rw [active] at done
      cases done
    | some disc =>
      rw [active] at done
      simp only [mediaByte, Media.node?, active]
      exact flat.read_ok (valid disc active) done

/-- A write of the medium, whatever its outcome: the bytes written are there if
it succeeds, and no other byte changes. -/
theorem media_write (valid : flat.MediaValid media)
    (done : media.write offset data = (after, outcome)) :
    flat.MediaValid after ∧ ∀ i, flat.mediaByte after i =
      if outcome = .ok () ∧ offset ≤ i ∧ i < offset + data.length then data[i - offset]?
      else flat.mediaByte media i := by
  have written : ∀ node node', flat.Valid node →
      BlockNode.write node offset data = (node', outcome) → flat.Valid node' ∧
        ∀ i, flat.byteAt node' i =
          if outcome = .ok () ∧ offset ≤ i ∧ i < offset + data.length then data[i - offset]?
          else flat.byteAt node i := by
    intro node node' good wrote
    cases outcome with
    | ok =>
      simp only [true_and]
      exact flat.write_ok good wrote
    | error err =>
      exact flat.write_error good wrote
  cases media with
  | fixed node =>
    obtain ⟨rfl, same⟩ := Prod.mk.inj done
    obtain ⟨valid', bytes⟩ := written node _ (valid node rfl) (Prod.ext rfl same)
    exact ⟨fun _ inside => some.inj inside ▸ valid', bytes⟩
  | changer tray =>
    simp only [Media.write, ChangerNode.write] at done
    cases active : tray.active with
    | none =>
      rw [active] at done
      cases done
      refine ⟨fun node inside => valid node inside, fun i => ?_⟩
      rw [if_neg (by simp)]
    | some disc =>
      rw [active] at done
      obtain ⟨rfl, same⟩ := Prod.mk.inj done
      obtain ⟨valid', bytes⟩ := written disc _ (valid disc active) (Prod.ext rfl same)
      refine ⟨fun _ inside => some.inj inside ▸ valid', fun i => ?_⟩
      simp only [mediaByte, Media.node?, active]
      exact bytes i

end FlatNode

/-! ### What one command does -/

/-- The address and length a READ names. -/
def ScsiRequest.reads (req : ScsiRequest) : Option (Nat × Nat) :=
  match req.cdb with
  | 0x08#8 :: _ => fields6 req.cdb
  | 0x28#8 :: _ => fields10 req.cdb
  | _ => none

/-- The address and length a WRITE names. -/
def ScsiRequest.writes (req : ScsiRequest) : Option (Nat × Nat) :=
  match req.cdb with
  | 0x0a#8 :: _ => fields6 req.cdb
  | 0x2a#8 :: _ => fields10 req.cdb
  | _ => none

/-- The commands that move or address blocks: READ, WRITE and MODE SELECT, in
six and ten bytes. -/
def ScsiRequest.OnBlocks (req : ScsiRequest) : Prop :=
  ∃ opcode ∈ [0x08#8, 0x28#8, 0x0a#8, 0x2a#8, 0x15#8, 0x55#8], req.cdb.head? = some opcode

/-- The same medium and block size. -/
structure ScsiDevice.SameMedium (dev after : ScsiDevice Node) : Prop where
  node : after.media.node? = dev.media.node?
  logicalBlockSize : after.logicalBlockSize = dev.logicalBlockSize

variable {after : ScsiDevice Node}

variable {dev : ScsiDevice Node} {lba count : Nat} {outcome : Except IoError ScsiResponse}

section
variable (flat : FlatNode Node) {after : ScsiDevice Node} (same : dev.SameMedium after)
include same

theorem FlatNode.valid_of_same (valid : flat.MediaValid dev.media) :
    flat.MediaValid after.media :=
  fun node inside => valid node (same.node ▸ inside)

theorem FlatNode.mediaByte_of_same (i : Nat) :
    flat.mediaByte after.media i = flat.mediaByte dev.media i := by
  rw [mediaByte, same.node, mediaByte]

end

/-- A command is refused by status before it is looked at, or its handler
answers. -/
theorem ScsiDevice.request_cases (done : dev.request openCdrom req = some (outcome, after)) :
    (outcome = .ok ⟨0x02, []⟩ ∧ dev.SameMedium after) ∨
      ∃ opcode asked answered, req.cdb.head? = some opcode ∧ dev.SameMedium asked ∧
        asked.dispatch openCdrom opcode req.cdb req.dataIn = some (answered, after) ∧
        outcome = answered.map fun response =>
          { response with data := req.dataLen.fit response.data } := by
  unfold request at done
  split at done
  · cases done
    exact .inl ⟨rfl, rfl, rfl⟩
  next opcode rest split =>
    obtain ⟨lunByte, present, done⟩ := bind_eq_some_iff.mp done
    dsimp only at done
    split at done
    · cases done
      exact .inl ⟨rfl, rfl, rfl⟩
    generalize exemption : (if opcode = 0x12 ∨ opcode = 0x03 then (false, dev.media)
      else dev.media.takeChanged) = taken at done
    have node : taken.2.node? = dev.media.node? := by
      rw [← exemption]
      split
      · rfl
      · cases dev.media with
        | fixed node | changer tray => rfl
    split at done
    · cases done
      exact .inl ⟨rfl, node, rfl⟩
    · obtain ⟨⟨answered, after'⟩, dispatched, done⟩ := bind_eq_some_iff.mp done
      cases some.inj done
      exact .inr ⟨opcode, { dev with media := taken.2 }, answered, by rw [split]; rfl,
        ⟨node, rfl⟩, dispatched, rfl⟩

/-- A READ that succeeds returns the medium's bytes at its address times the block
size, and changes nothing. -/
theorem ScsiDevice.performRead_good {flat : FlatNode Node} {response : ScsiResponse}
    (valid : flat.MediaValid dev.media) (done : dev.performRead lba count = (.ok response, after))
    (good : response.status = 0x00) :
    after = dev ∧ response.data.length = count * dev.logicalBlockSize ∧
      ∀ i < count * dev.logicalBlockSize, response.data[i]? =
        flat.mediaByte dev.media (lba * dev.logicalBlockSize + i) := by
  unfold performRead at done
  split at done
  · cases done
    exact nomatch good
  dsimp only at done
  split at done
  · cases done
    exact nomatch good
  · split at done
    · cases (Prod.mk.inj done).1
    next data read =>
      cases done
      exact ⟨rfl, flat.media_read_ok valid read⟩

theorem ScsiDevice.performRead_same (dev : ScsiDevice Node) (lba count : Nat) :
    dev.SameMedium (dev.performRead lba count).2 := by
  unfold performRead
  split
  · exact ⟨rfl, rfl⟩
  dsimp only
  split
  · exact ⟨rfl, rfl⟩
  · split <;> exact ⟨rfl, rfl⟩

variable {dataIn : Option (List Byte)}

/-- A WRITE changes the medium's bytes at its address times 512, if it succeeds,
and nothing otherwise. -/
theorem ScsiDevice.performWrite_bytes {flat : FlatNode Node} (valid : flat.MediaValid dev.media)
    (done : dev.performWrite lba count dataIn = (outcome, after)) :
    flat.MediaValid after.media ∧ after.logicalBlockSize = dev.logicalBlockSize ∧
      ((∃ data, outcome = .ok (.good []) ∧ dataIn = some data ∧
          data.length = count * dev.logicalBlockSize ∧
          ∀ i, flat.mediaByte after.media i =
            if lba * 512 ≤ i ∧ i < lba * 512 + data.length then data[i - lba * 512]?
            else flat.mediaByte dev.media i) ∨
        (outcome = .ok ⟨0x02, []⟩ ∧
          ∀ i, flat.mediaByte after.media i = flat.mediaByte dev.media i)) := by
  unfold performWrite at done
  -- Five refusals, and then the write.
  iterate 5
    split at done
    · cases done
      exact ⟨valid, rfl, .inr ⟨rfl, fun _ => rfl⟩⟩
  rename_i data size _
  split at done
  next media err wrote =>
    obtain ⟨valid', bytes⟩ := flat.media_write valid wrote
    cases done
    exact ⟨valid', rfl, .inr ⟨rfl, fun i => (bytes i).trans (if_neg (by simp))⟩⟩
  next media wrote =>
    obtain ⟨valid', bytes⟩ := flat.media_write valid wrote
    cases done
    exact ⟨valid', rfl, .inl ⟨data, rfl, rfl, by simpa using size, fun i => by simpa using bytes i⟩⟩

omit [BlockNode Node] in
theorem ScsiDevice.selectBlockDescriptor_media
    (done : dev.selectBlockDescriptor data start len = some after) :
    after.media = dev.media := by
  unfold selectBlockDescriptor at done
  split at done
  · simp only [bind_eq_bind, bind_eq_some_iff] at done
    obtain ⟨_, -, _, -, _, -, done⟩ := done
    split at done <;> cases done <;> rfl
  · cases done
    rfl

omit [BlockNode Node] in
theorem ScsiDevice.execModeSelect6_media {cdb : List Byte} {answer : Answer Node}
    (done : dev.execModeSelect6 cdb dataIn = some answer) : answer.2.media = dev.media := by
  obtain ⟨_, -, done⟩ := bind_eq_some_iff.mp done
  dsimp only at done
  iterate 2
    split at done
    · cases done
      rfl
  simp only [bind_eq_bind, bind_eq_some_iff] at done
  obtain ⟨_, -, _, selected, done⟩ := done
  cases done
  exact selectBlockDescriptor_media selected

omit [BlockNode Node] in
theorem ScsiDevice.execModeSelect10_media {cdb : List Byte} {answer : Answer Node}
    (done : dev.execModeSelect10 cdb dataIn = some answer) : answer.2.media = dev.media := by
  obtain ⟨_, -, done⟩ := bind_eq_some_iff.mp done
  obtain ⟨_, -, done⟩ := bind_eq_some_iff.mp done
  dsimp only at done
  split at done
  · cases done
    rfl
  · simp only [bind_eq_bind, bind_eq_some_iff] at done
    obtain ⟨_, -, _, -, _, selected, done⟩ := done
    cases done
    exact selectBlockDescriptor_media selected

theorem ScsiDevice.dispatch_onBlocks {asked : ScsiDevice Node} {req : ScsiRequest} {opcode : Byte}
    (onBlocks : req.OnBlocks) (head : req.cdb.head? = some opcode)
    (done : asked.dispatch openCdrom opcode req.cdb req.dataIn = some (answered, after)) :
    (∃ lba count, req.reads = some (lba, count) ∧ req.writes = none ∧
        asked.performRead lba count = (answered, after)) ∨
      (∃ lba count, req.writes = some (lba, count) ∧ req.reads = none ∧
        asked.performWrite lba count req.dataIn = (answered, after)) ∨
      (req.reads = none ∧ req.writes = none ∧ after.media = asked.media) := by
  obtain ⟨opcode', member, head'⟩ := onBlocks
  cases head.symm.trans head'
  obtain ⟨tail, cdb⟩ : ∃ tail, req.cdb = opcode :: tail := by
    cases split : req.cdb with
    | nil =>
      rw [split] at head
      cases head
    | cons first tail =>
      rw [split] at head
      cases head
      exact ⟨tail, rfl⟩
  have commands : opcode = 0x08#8 ∨ opcode = 0x28#8 ∨ opcode = 0x0a#8 ∨ opcode = 0x2a#8 ∨
      opcode = 0x15#8 ∨ opcode = 0x55#8 := by simpa using member
  rcases commands with rfl | rfl | rfl | rfl | rfl | rfl
  iterate 2
    obtain ⟨⟨lba, count⟩, fields, done⟩ := bind_eq_some_iff.mp done
    refine .inl ⟨lba, count, ?_, ?_, some.inj done⟩
    · simp [reads, cdb, ← fields]
    · simp [writes, cdb]
  iterate 2
    obtain ⟨⟨lba, count⟩, fields, done⟩ := bind_eq_some_iff.mp done
    refine .inr (.inl ⟨lba, count, ?_, ?_, some.inj done⟩)
    · simp [writes, cdb, ← fields]
    · simp [reads, cdb]
  all_goals refine .inr (.inr ⟨by simp [reads, cdb], by simp [writes, cdb], ?_⟩)
  · exact execModeSelect6_media done
  · exact execModeSelect10_media done

/-! ### The blocks written since the block size changed -/

/-- The medium's bytes when the block size last changed, and the logical blocks
written since. -/
structure Ledger where
  start : Nat → Option Byte
  stored : Nat → Option (List Byte)

/-- Byte `i` of logical block `lba`. -/
def Ledger.blockByte (ledger : Ledger) (blockSize lba i : Nat) : Option Byte :=
  match ledger.stored lba with
  | some block => block[i]?
  | none => ledger.start (lba * blockSize + i)

/-- The blocks of a WRITE, each under its address. -/
def Ledger.record (ledger : Ledger) (blockSize lba count : Nat) (data : List Byte) : Ledger where
  start := ledger.start
  stored block :=
    if lba ≤ block ∧ block < lba + count then
      some (slice data ((block - lba) * blockSize) blockSize)
    else ledger.stored block

/-- A byte of the medium lies in a block of the WRITE exactly where the WRITE put
its data. -/
theorem Ledger.blockByte_record {ledger : Ledger} (length : data.length = count * blockSize)
    {block : Nat} (within : i < blockSize) :
    (ledger.record blockSize lba count data).blockByte blockSize block i =
      if lba * blockSize ≤ block * blockSize + i ∧
          block * blockSize + i < lba * blockSize + data.length then
        data[block * blockSize + i - lba * blockSize]?
      else ledger.blockByte blockSize block i := by
  have covered : (lba * blockSize ≤ block * blockSize + i ∧
      block * blockSize + i < lba * blockSize + data.length) ↔
        lba ≤ block ∧ block < lba + count := by
    rw [length, ← Nat.add_mul]
    constructor
    · rintro ⟨low, high⟩
      constructor
      · by_contra less
        have := Nat.mul_le_mul_right blockSize (by omega : block + 1 ≤ lba)
        rw [Nat.add_mul] at this
        omega
      · by_contra beyond
        have := Nat.mul_le_mul_right blockSize (by omega : lba + count ≤ block)
        omega
    · rintro ⟨low, high⟩
      have below := Nat.mul_le_mul_right blockSize low
      have above := Nat.mul_le_mul_right blockSize (by omega : block + 1 ≤ lba + count)
      rw [Nat.add_mul block] at above
      omega
  simp only [covered, Ledger.blockByte, Ledger.record]
  by_cases inside : lba ≤ block ∧ block < lba + count
  · have below := Nat.mul_le_mul_right blockSize inside.1
    rw [if_pos inside, if_pos inside]
    dsimp only
    rw [getElem?_slice, if_pos within, Nat.sub_mul]
    congr 1
    omega
  · rw [if_neg inside, if_neg inside]

structure Session (Node : Type) where
  dev : ScsiDevice Node
  ledger : Ledger

namespace Session
variable (flat : FlatNode Node) (openCdrom : String → Except IoError Node)

/-- The ledger after a command: begun again where the block size changed, with the
blocks of a WRITE that succeeded. -/
def enter (session : Session Node) (req : ScsiRequest) (outcome : Except IoError ScsiResponse)
    (after : ScsiDevice Node) : Ledger :=
  if after.logicalBlockSize ≠ session.dev.logicalBlockSize then
    ⟨flat.mediaByte after.media, fun _ => none⟩
  else
    match req.writes, req.dataIn, outcome with
    | some (lba, count), some data, .ok ⟨0x00#8, _⟩ =>
      session.ledger.record session.dev.logicalBlockSize lba count data
    | _, _, _ => session.ledger

/-- One command; a session stands still where it panics. -/
def step (session : Session Node) (req : ScsiRequest) : Session Node :=
  match session.dev.request openCdrom req with
  | none => session
  | some (outcome, after) => ⟨after, session.enter flat req outcome after⟩

/-- WRITE addresses the medium in sectors of 512 bytes. -/
def WritesInPlace (session : Session Node) (req : ScsiRequest) : Prop :=
  ∀ lba count, req.writes = some (lba, count) → lba = 0 ∨ session.dev.logicalBlockSize = 512

/-- The ledger has the bytes of the medium. -/
structure Kept (session : Session Node) : Prop where
  valid : flat.MediaValid session.dev.media
  bytes : ∀ lba, ∀ i < session.dev.logicalBlockSize,
    session.ledger.blockByte session.dev.logicalBlockSize lba i =
      flat.mediaByte session.dev.media (lba * session.dev.logicalBlockSize + i)

variable {flat openCdrom} {session : Session Node} {req : ScsiRequest}

/-- Where the medium and the block size stay, so does the ledger. -/
theorem Kept.of_same (kept : session.Kept flat) (valid : flat.MediaValid after.media)
    (blockSize : after.logicalBlockSize = session.dev.logicalBlockSize)
    (bytes : ∀ i, flat.mediaByte after.media i = flat.mediaByte session.dev.media i) :
    Kept flat ⟨after, session.ledger⟩ where
  valid := valid
  bytes lba i within := by
    rw [blockSize] at within ⊢
    rw [kept.bytes lba i within, bytes]

theorem enter_of_changed (blockSize : after.logicalBlockSize ≠ session.dev.logicalBlockSize) :
    session.enter flat req outcome after = ⟨flat.mediaByte after.media, fun _ => none⟩ := by
  exact if_pos blockSize

theorem enter_of_not_written (blockSize : after.logicalBlockSize = session.dev.logicalBlockSize)
    (notWritten : req.writes = none ∨ ∀ data, outcome ≠ .ok ⟨0x00#8, data⟩) :
    session.enter flat req outcome after = session.ledger := by
  unfold enter
  rw [if_neg (by simp [blockSize])]
  rcases notWritten with none | refused
  · rw [none]
  · split
    · exact absurd rfl (refused _)
    · rfl

theorem enter_of_written {answer : List Byte}
    (blockSize : after.logicalBlockSize = session.dev.logicalBlockSize)
    (writes : req.writes = some (lba, count)) (dataIn : req.dataIn = some data) :
    session.enter flat req (.ok ⟨0x00#8, answer⟩) after =
      session.ledger.record session.dev.logicalBlockSize lba count data := by
  unfold enter
  rw [if_neg (by simp [blockSize]), writes, dataIn]
  rfl

theorem Kept.written (kept : session.Kept flat) (valid : flat.MediaValid after.media)
    (blockSize : after.logicalBlockSize = session.dev.logicalBlockSize)
    (length : data.length = count * session.dev.logicalBlockSize)
    (bytes : ∀ i, flat.mediaByte after.media i =
      if lba * session.dev.logicalBlockSize ≤ i ∧
          i < lba * session.dev.logicalBlockSize + data.length then
        data[i - lba * session.dev.logicalBlockSize]?
      else flat.mediaByte session.dev.media i) :
    Kept flat ⟨after, session.ledger.record session.dev.logicalBlockSize lba count data⟩ where
  valid := valid
  bytes block i within := by
    rw [blockSize] at within ⊢
    rw [Ledger.blockByte_record length within, bytes, kept.bytes block i within]

omit [BlockNode Node] in
theorem WritesInPlace.offset (inPlace : session.WritesInPlace req)
    (writes : req.writes = some (lba, count)) : lba * 512 = lba * session.dev.logicalBlockSize := by
  rcases inPlace lba count writes with rfl | blockSize
  · rw [Nat.zero_mul, Nat.zero_mul]
  · rw [blockSize]

theorem step_kept (kept : session.Kept flat) (onBlocks : req.OnBlocks)
    (inPlace : session.WritesInPlace req) : (session.step flat openCdrom req).Kept flat := by
  unfold step
  split
  · exact kept
  next outcome after done =>
    rcases request_cases done with ⟨rfl, same⟩ | ⟨opcode, asked, answered, head, same,
      dispatched, rfl⟩
    · rw [enter_of_not_written same.logicalBlockSize (.inr (by simp))]
      exact kept.of_same (flat.valid_of_same same kept.valid) same.logicalBlockSize
        (flat.mediaByte_of_same same)
    have valid := flat.valid_of_same same kept.valid
    have bytes := flat.mediaByte_of_same same
    rcases dispatch_onBlocks onBlocks head dispatched with
      ⟨lba, count, reads, notWritten, performed⟩ | ⟨lba, count, writes, -, performed⟩ |
      ⟨-, notWritten, media⟩
    · have same' := asked.performRead_same lba count
      rw [performed] at same'
      have blockSize := same'.logicalBlockSize.trans same.logicalBlockSize
      rw [enter_of_not_written blockSize (.inl notWritten)]
      exact kept.of_same (flat.valid_of_same same' valid) blockSize
        fun i => (flat.mediaByte_of_same same' i).trans (bytes i)
    · obtain ⟨valid', blockSize', change⟩ := performWrite_bytes valid performed
      have blockSize := blockSize'.trans same.logicalBlockSize
      rcases change with ⟨data, rfl, dataIn, length, written⟩ | ⟨rfl, unchanged⟩
      · refine (enter_of_written blockSize writes dataIn).symm ▸ kept.written valid' blockSize ?_ ?_
        · rw [length, same.logicalBlockSize]
        · intro i
          rw [written, ← inPlace.offset writes, bytes]
      · rw [enter_of_not_written blockSize (.inr (by simp [Except.map]))]
        exact kept.of_same valid' blockSize fun i => (unchanged i).trans (bytes i)
    · have valid' : flat.MediaValid after.media := media ▸ valid
      by_cases blockSize : after.logicalBlockSize = session.dev.logicalBlockSize
      · rw [enter_of_not_written blockSize (.inl notWritten)]
        exact kept.of_same valid' blockSize fun i => media ▸ bytes i
      · rw [enter_of_changed blockSize]
        exact ⟨valid', fun _ _ _ => rfl⟩

def start (flat : FlatNode Node) (dev : ScsiDevice Node) : Session Node :=
  ⟨dev, ⟨flat.mediaByte dev.media, fun _ => none⟩⟩

theorem run_kept (kept : session.Kept flat) (onBlocks : ∀ req ∈ reqs, req.OnBlocks)
    (inPlace : Along (step flat openCdrom) WritesInPlace session reqs) :
    (reqs.foldl (step flat openCdrom) session).Kept flat :=
  inPlace.withMember.keeps (fun _ req kept allowed =>
    step_kept kept (onBlocks req allowed.1) allowed.2) kept

/-- What a successful command on blocks shows of the ledger, and what it leaves of
the medium. -/
structure Answers (flat : FlatNode Node) (session : Session Node) (req : ScsiRequest)
    (response : ScsiResponse) (after : ScsiDevice Node) : Prop where
  read : ∀ lba count, req.reads = some (lba, count) → ∃ data, response.data = req.dataLen.fit data ∧
      data.length = count * session.dev.logicalBlockSize ∧
      ∀ k < count, ∀ i < session.dev.logicalBlockSize,
        data[k * session.dev.logicalBlockSize + i]? =
          session.ledger.blockByte session.dev.logicalBlockSize (lba + k) i
  write : ∀ lba count, req.writes = some (lba, count) →
    ∀ i, ¬(lba * session.dev.logicalBlockSize ≤ i ∧
        i < (lba + count) * session.dev.logicalBlockSize) →
      flat.mediaByte after.media i = flat.mediaByte session.dev.media i

theorem Kept.answers (kept : session.Kept flat) (onBlocks : req.OnBlocks)
    (inPlace : session.WritesInPlace req) {response : ScsiResponse}
    (done : session.dev.request openCdrom req = some (.ok response, after))
    (good : response.status = 0x00) : Answers flat session req response after := by
  rcases request_cases done with ⟨refused, -⟩ | ⟨opcode, asked, answered, head, same,
    dispatched, outcome⟩
  · cases refused
    exact nomatch good
  have valid := flat.valid_of_same same kept.valid
  have bytes := flat.mediaByte_of_same same
  have blockSize := same.logicalBlockSize
  cases answered with
  | error err => cases outcome
  | ok answer =>
    obtain rfl := Except.ok.inj outcome
    rcases dispatch_onBlocks onBlocks head dispatched with
      ⟨lba, count, reads, notWritten, performed⟩ | ⟨lba, count, writes, notRead, performed⟩ |
      ⟨notRead, notWritten, -⟩
    · obtain ⟨-, length, data⟩ := performRead_good valid performed good
      constructor
      · intro lba' count' reads'
        cases reads.symm.trans reads'
        rw [blockSize] at length data
        refine ⟨answer.data, rfl, length, fun k below i within => ?_⟩
        have inside : k * session.dev.logicalBlockSize + i <
            count * session.dev.logicalBlockSize := by
          have := Nat.mul_le_mul_right session.dev.logicalBlockSize (by omega : k + 1 ≤ count)
          rw [Nat.add_mul] at this
          omega
        rw [data _ inside, bytes, kept.bytes _ i within, Nat.add_mul, Nat.add_assoc]
      · intro _ _ writes
        cases notWritten.symm.trans writes
    · constructor
      · intro _ _ reads
        cases notRead.symm.trans reads
      intro lba' count' writes' i outside
      cases writes.symm.trans writes'
      obtain ⟨-, -, ⟨data, -, -, length, written⟩ | ⟨-, unchanged⟩⟩ :=
        performWrite_bytes valid performed
      · rw [written, if_neg, bytes]
        rw [length, blockSize, inPlace.offset writes, ← Nat.add_mul]
        exact outside
      · rw [unchanged, bytes]
    · constructor
      · intro _ _ reads
        cases notRead.symm.trans reads
      · intro _ _ writes
        cases notWritten.symm.trans writes

end Session

open Session

/-- Over any node that is an array of bytes, and in every run of READ, WRITE and
MODE SELECT whose WRITEs land where READ looks for them. -/
theorem disk_keeps_blocks (flat : FlatNode Node) (openCdrom : String → Except IoError Node)
    (dev : ScsiDevice Node) (valid : flat.MediaValid dev.media) (reqs : List ScsiRequest)
    (onBlocks : ∀ req ∈ reqs, req.OnBlocks)
    (inPlace : Along (step flat openCdrom) WritesInPlace (start flat dev) reqs) :
    ∀ earlier req later, reqs = earlier ++ req :: later → ∀ response after,
      (earlier.foldl (step flat openCdrom) (start flat dev)).dev.request openCdrom req =
        some (.ok response, after) → response.status = 0x00 →
      Answers flat (earlier.foldl (step flat openCdrom) (start flat dev)) req response after := by
  rintro earlier req later rfl response after done good
  have begun : (start flat dev).Kept flat := ⟨valid, fun _ _ _ => rfl⟩
  have kept := run_kept begun (forall_mem_append.mp onBlocks).1
    inPlace.front
  exact kept.answers (onBlocks req (by simp)) (inPlace earlier req later rfl) done good

def blankDisk : ScsiDevice RawDisk :=
  .new ⟨⟨2048⟩, replicate 2048 0⟩ false "disk.img" []
    ⟨replicate 8 0x20, replicate 16 0x20, replicate 4 0x20, rfl, rfl, rfl⟩

def noDisc (_ : String) : Except IoError RawDisk := .error .unexpectedEof

def readOne : ScsiRequest := ⟨[0x28, 0, 0, 0, 0, 1, 0, 0, 1, 0], .unlimited, none⟩

def writeOne (data : List Byte) : ScsiRequest :=
  ⟨[0x2a, 0, 0, 0, 0, 1, 0, 0, 1, 0], .unlimited, some data⟩

/-- MODE SELECT(6) with a descriptor of 1024-byte blocks. -/
def select1024 : ScsiRequest :=
  ⟨[0x15, 0, 0, 0, 12, 0], .unlimited, some [0, 0, 0, 8, 0, 0, 0, 0, 0, 0, 4, 0]⟩

theorem blankDisk_valid : flat.MediaValid blankDisk.media := by
  intro node inside
  cases inside
  exact length_replicate.ge

/-- A sector written and read with 512-byte blocks in force. -/
theorem disk_keeps_sector : ∃ response after,
    ([writeOne (replicate 512 0xab)].foldl (step flat noDisc)
      (start flat blankDisk)).dev.request noDisc readOne = some (.ok response, after) ∧
    Answers flat ([writeOne (replicate 512 0xab)].foldl (step flat noDisc)
      (start flat blankDisk)) readOne response after := by
  have answered : (([writeOne (replicate 512 0xab)].foldl (step flat noDisc)
      (start flat blankDisk)).dev.request noDisc readOne).map
        (fun answer => answer.1.toOption.map (·.status)) = some (some 0x00) := by
    decide +kernel
  have onBlocks : ∀ req ∈ [writeOne (replicate 512 0xab), readOne], req.OnBlocks := by
    intro req member
    rcases mem_pair.mp member with rfl | rfl
    · exact ⟨0x2a, by decide, rfl⟩
    · exact ⟨0x28, by decide, rfl⟩
  have kept := disk_keeps_blocks flat noDisc blankDisk blankDisk_valid
    [writeOne (replicate 512 0xab), readOne] onBlocks
    (.cons (fun _ _ _ => .inr rfl) (.cons nofun .nil))
    [writeOne (replicate 512 0xab)] readOne [] rfl
  obtain ⟨⟨outcome, after⟩, done, status⟩ := map_eq_some_iff.mp answered
  cases outcome with
  | error err => cases status
  | ok response =>
    exact ⟨response, after, done, kept response after done (some.inj status)⟩

/-- With 1024-byte blocks in force, block 1 is written from byte 512 on and read
from byte 1024 on: its second half is not read back, and block 0 is changed. -/
theorem write_ignores_block_size :
    (([select1024, writeOne (replicate 1024 0xab)].foldl (step flat noDisc)
        (start flat blankDisk)).dev.request noDisc readOne).map
          (fun answer => answer.1.toOption.map fun response =>
            (response.status, response.data[1000]?)) = some (some (0x00, some 0x00)) ∧
      ([select1024, writeOne (replicate 1024 0xab)].foldl (step flat noDisc)
        (start flat blankDisk)).ledger.blockByte 1024 1 1000 = some 0xab ∧
      flat.mediaByte ([select1024, writeOne (replicate 1024 0xab)].foldl
        (step flat noDisc) (start flat blankDisk)).dev.media 1023 = some 0xab := by
  refine ⟨by decide +kernel, by decide +kernel, by decide +kernel⟩

end Iris.Scsi
