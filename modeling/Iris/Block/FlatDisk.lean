import Iris.Block.CowNode

/-!
Owns what the copy-on-write node is for: a flat array of bytes over a base image.
Every operation of the node, sector by sector over two files and a dirty set, is one
operation of the array.
-/

namespace Iris.Block

open Library ByteFile List Finset CowNode

/-! ### Sectors of an access -/

variable {offset len : Nat}

section Sectors
variable {size offset len : Nat}

/-- The sectors of an access inside a disk of whole sectors: from the one its first byte
is in, up to the one its last byte is in. -/
theorem sectorList_eq (whole : sectorSize ∣ size) (fits : size < 2 ^ 64)
    (inside : offset + len ≤ size) (some : 0 < len) :
    ∃ count, sectorList offset len = range' (offset / sectorSize) count ∧
      offset + len ≤ (offset / sectorSize + count) * sectorSize ∧
      (offset / sectorSize + count) * sectorSize < offset + len + sectorSize ∧
      (offset / sectorSize + count) * sectorSize ≤ size := by
  unfold sectorSize at *
  refine ⟨(offset + len + 511) / 512 - offset / 512, ?_, ?_, ?_, ?_⟩
  · unfold sectorList sectorsFor sectorSize
    rw [Nat.mod_eq_of_lt (by omega)]
    rfl
  all_goals omega

end Sectors

/-! ### The node's bytes -/

namespace CowNode

/-- The byte at `i`, from the file that holds its sector. -/
def byteAt (node : CowNode) (i : Nat) : Option Byte :=
  if i / sectorSize ∈ node.dirty then node.files.overlay[i]? else node.files.base[i]?

/-- A node as `openImage` mounts one, with its dirty sectors in the overlay file. -/
structure WellFormed (node : CowNode) : Prop where
  backing : node.backing = some ⟨node.size⟩
  basePath : node.basePath = true
  image : node.files.base.length = node.size
  whole : sectorSize ∣ node.size
  fits : node.size < 2 ^ 64
  held : ∀ lba ∈ node.dirty, (lba + 1) * sectorSize ≤ node.files.overlay.length ∧
    (lba + 1) * sectorSize ≤ node.size

variable {node : CowNode}

theorem checkRange_inside {size : Nat} (fits : size < 2 ^ 64) (inside : offset + len ≤ size) :
    checkRange size offset len = .ok () := by
  unfold checkRange
  rw [if_neg (by omega), if_neg (by omega)]

theorem readFile_inside {file : List Byte} {count : Nat} (inside : offset + count ≤ file.length) :
    readFile file offset count = .ok (slice file offset count) := by
  rw [readFile, readExact_inside inside]

variable {lba i : Nat}

theorem div_sector_iff :
    i / sectorSize = lba ↔ lba * sectorSize ≤ i ∧ i < lba * sectorSize + sectorSize := by
  unfold sectorSize
  omega

theorem div_sector (within : i < sectorSize) : (lba * sectorSize + i) / sectorSize = lba :=
  div_sector_iff.mpr ⟨Nat.le_add_right _ _, Nat.add_lt_add_left within _⟩

theorem lt_sector_end : i < (i / sectorSize + 1) * sectorSize := by
  unfold sectorSize
  omega

theorem WellFormed.readSector (wellFormed : node.WellFormed)
    (inside : (lba + 1) * sectorSize ≤ node.size) :
    ∃ sector, node.readSector lba = .ok sector ∧ sector.length = sectorSize ∧
      ∀ i < sectorSize, sector[i]? = node.byteAt (lba * sectorSize + i) := by
  have reach : lba * sectorSize + sectorSize ≤ node.size := by
    rw [← Nat.succ_mul]
    exact inside
  by_cases dirty : lba ∈ node.dirty
  · have held : lba * sectorSize + sectorSize ≤ node.files.overlay.length := by
      rw [← Nat.succ_mul]
      exact (wellFormed.held lba dirty).1
    refine ⟨slice node.files.overlay (lba * sectorSize) sectorSize, ?_, length_slice held, ?_⟩
    · rw [CowNode.readSector, if_pos dirty, readFile_inside held]
    · intro i within
      rw [getElem?_slice, if_pos within, byteAt, div_sector within, if_pos dirty]
  · have held : lba * sectorSize + sectorSize ≤ node.files.base.length := by
      rw [wellFormed.image]
      exact reach
    refine ⟨slice node.files.base (lba * sectorSize) sectorSize, ?_, length_slice held, ?_⟩
    · rw [CowNode.readSector, if_neg dirty, wellFormed.backing]
      simp only [RawNode.read, checkRange_inside wellFormed.fits reach, readFile_inside held]
      rfl
    · intro i within
      rw [getElem?_slice, if_pos within, byteAt, div_sector within, if_neg dirty]

/-- The buffer is filled from the front, one sector after the other. -/
theorem WellFormed.readLoop (wellFormed : node.WellFormed) {first count : Nat} (some : 0 < len)
    (begun : offset < (first + 1) * sectorSize)
    (covers : offset + len ≤ (first + count) * sectorSize)
    (tight : (first + count) * sectorSize < offset + len + sectorSize)
    (inside : (first + count) * sectorSize ≤ node.size) {buf : List Byte} (room : buf.length = len)
    (filled : ∀ i < len, offset + i < first * sectorSize → buf[i]? = node.byteAt (offset + i)) :
    ∃ data, node.readLoop offset (offset + len) (range' first count) buf = .ok data ∧
      data.length = len ∧ ∀ i < len, data[i]? = node.byteAt (offset + i) := by
  induction count generalizing first buf with
  | zero =>
    refine ⟨buf, rfl, room, fun i within => filled i within ?_⟩
    rw [Nat.add_zero] at covers
    omega
  | succ count inductionHypothesis =>
    rw [← Nat.add_assoc, Nat.succ_mul, Nat.add_mul] at covers tight inside
    rw [Nat.succ_mul] at begun
    have reach : (first + 1) * sectorSize ≤ node.size := by
      rw [Nat.succ_mul]
      omega
    obtain ⟨sector, found, size, bytes⟩ := wellFormed.readSector reach
    rw [List.range'_succ, CowNode.readLoop, found]
    have chunkLength : (slice sector
        (max offset (first * sectorSize) - first * sectorSize)
        (min (offset + len) (first * sectorSize + sectorSize) -
          max offset (first * sectorSize))).length =
        min (offset + len) (first * sectorSize + sectorSize) - max offset (first * sectorSize) :=
      length_slice (by omega)
    refine inductionHypothesis ?_ ?_ ?_ ?_ ?_ ?_
    · rw [Nat.succ_mul, Nat.succ_mul]
      omega
    · rw [Nat.add_mul, Nat.succ_mul]
      omega
    · rw [Nat.add_mul, Nat.succ_mul]
      omega
    · rw [Nat.add_mul, Nat.succ_mul]
      omega
    · rw [length_overwrite (by omega), room]
    intro i within before
    rw [Nat.succ_mul] at before
    rw [getElem?_overwrite (by omega), chunkLength]
    split
    · rw [getElem?_slice, if_pos (by omega), bytes _ (by omega)]
      congr 1
      omega
    · exact filled i within (by omega)

theorem WellFormed.read (wellFormed : node.WellFormed) {offset len : Nat}
    (inside : offset + len ≤ node.size) :
    ∃ data, node.read offset len = .ok data ∧ data.length = len ∧
      ∀ i < len, data[i]? = node.byteAt (offset + i) := by
  unfold CowNode.read
  rw [checkRange_inside wellFormed.fits inside]
  rcases Nat.eq_zero_or_pos len with zero | some
  · exact ⟨[], if_pos zero, zero.symm, fun i within => absurd within (by omega)⟩
  obtain ⟨count, sectors, covers, tight, last⟩ :=
    sectorList_eq wellFormed.whole wellFormed.fits inside some
  obtain ⟨data, done⟩ := wellFormed.readLoop some
    (show offset < (offset / sectorSize + 1) * sectorSize by unfold sectorSize; omega)
    covers tight last (@length_replicate Byte len 0)
    (fun i _ before => absurd before (by unfold sectorSize; omega))
  rw [← sectors] at done
  exact ⟨data, (if_neg some.ne').trans done.1, done.2⟩

/-! ### Writes -/

/-- The parts of a node that a write leaves alone. -/
structure SameImage (before after : CowNode) : Prop where
  base : after.files.base = before.files.base
  sidecar : after.files.sidecar = before.files.sidecar
  size : after.size = before.size

section
variable (wellFormed : node.WellFormed) {sector : List Byte} (size : sector.length = sectorSize)
include wellFormed size

theorem WellFormed.holdSector_byteAt (i : Nat) :
    (node.holdSector lba sector).byteAt i =
      if i / sectorSize = lba then sector[i - lba * sectorSize]? else node.byteAt i := by
  unfold byteAt holdSector
  by_cases here : i / sectorSize = lba
  · obtain ⟨after, before⟩ := div_sector_iff.mp here
    rw [if_pos here, if_pos (mem_insert.mpr (.inl here)),
      getElem?_writeAt _ (.inr after), size, if_pos ⟨after, before⟩]
  rw [if_neg here]
  by_cases dirty : i / sectorSize ∈ node.dirty
  · have held := (lt_sector_end).trans_le (wellFormed.held _ dirty).1
    rw [if_pos (mem_insert.mpr (.inr dirty)), if_pos dirty,
      getElem?_writeAt _ (.inl held), size, if_neg fun within => here (div_sector_iff.mpr within)]
  · rw [if_neg dirty, if_neg fun member => dirty (mem_of_mem_insert_of_ne member here)]

theorem WellFormed.holdSector (inside : (lba + 1) * sectorSize ≤ node.size) :
    (node.holdSector lba sector).WellFormed :=
  { wellFormed with
    held := by
      intro other member
      unfold CowNode.holdSector
      rw [length_writeAt, size]
      rcases mem_insert.mp member with rfl | before
      · refine ⟨?_, inside⟩
        rw [Nat.succ_mul]
        omega
      · obtain ⟨held, inside⟩ := wellFormed.held other before
        exact ⟨by omega, inside⟩ }

end

/-- The overlay keeps what it held of every sector that is not dirty. -/
structure KeepsOverlay (before after : CowNode) : Prop where
  grows : before.files.overlay.length ≤ after.files.overlay.length
  dirty : before.dirty ⊆ after.dirty
  rest : ∀ i < before.files.overlay.length, i / sectorSize ∉ after.dirty →
    after.files.overlay[i]? = before.files.overlay[i]?

theorem KeepsOverlay.refl (node : CowNode) : KeepsOverlay node node :=
  ⟨le_rfl, Subset.refl _, fun _ _ _ => rfl⟩

theorem KeepsOverlay.trans {first second third : CowNode} (before : KeepsOverlay first second)
    (after : KeepsOverlay second third) : KeepsOverlay first third where
  grows := before.grows.trans after.grows
  dirty := before.dirty.trans after.dirty
  rest i within clean :=
    (after.rest i (within.trans_le before.grows) clean).trans
      (before.rest i within fun member => clean (after.dirty member))

theorem holdSector_keeps (node : CowNode) (size : sector.length = sectorSize) :
    KeepsOverlay node (node.holdSector lba sector) where
  grows := by
    rw [holdSector, length_writeAt]
    exact (Nat.le_max_left _ _).trans (Nat.le_max_left _ _)
  dirty := subset_insert lba node.dirty
  rest i within clean := by
    have elsewhere : i / sectorSize ≠ lba := fun here =>
      clean (mem_insert.mpr (.inl here))
    rw [holdSector, getElem?_writeAt _ (.inl within), size,
      if_neg fun covered => elsewhere (div_sector_iff.mpr covered)]

section Patch
variable {sector data : List Byte} {offset sOff : Nat}

variable (size : sector.length = sectorSize) (begun : offset < sOff + sectorSize)
  (left : sOff < offset + data.length)
include size begun left

/-- The part of a write that falls into a sector has its place there. -/
theorem length_patch :
    (slice data (max offset sOff - offset)
        (min (offset + data.length) (sOff + sectorSize) - max offset sOff)).length =
      min (offset + data.length) (sOff + sectorSize) - max offset sOff ∧
    (overwrite sector (max offset sOff - sOff) (slice data (max offset sOff - offset)
        (min (offset + data.length) (sOff + sectorSize) - max offset sOff))).length =
      sectorSize := by
  have chunk : (slice data (max offset sOff - offset)
      (min (offset + data.length) (sOff + sectorSize) - max offset sOff)).length =
      min (offset + data.length) (sOff + sectorSize) - max offset sOff :=
    length_slice (by omega)
  refine ⟨chunk, ?_⟩
  rw [length_overwrite (by omega), size]

theorem getElem?_patch (within : i < sectorSize) :
    (overwrite sector (max offset sOff - sOff) (slice data (max offset sOff - offset)
        (min (offset + data.length) (sOff + sectorSize) - max offset sOff)))[i]? =
      if offset ≤ sOff + i ∧ sOff + i < offset + data.length then data[sOff + i - offset]?
      else sector[i]? := by
  rw [getElem?_overwrite (by omega), (length_patch size begun left).1]
  by_cases written : offset ≤ sOff + i ∧ sOff + i < offset + data.length
  · rw [if_pos written, if_pos (by omega), getElem?_slice, if_pos (by omega)]
    congr 1
    omega
  · rw [if_neg written, if_neg (by omega)]

end Patch

/-- The sectors before `first` are written; each further one takes its part of the data. -/
theorem WellFormed.writeLoop (wellFormed : node.WellFormed) (first : Nat) {count : Nat}
    (begun : offset < (first + 1) * sectorSize)
    (tight : (first + count) * sectorSize < offset + data.length + sectorSize)
    (inside : (first + count) * sectorSize ≤ node.size) :
    ∃ after, writeLoop offset data (range' first count) node = (after, .ok ()) ∧
      after.WellFormed ∧ SameImage node after ∧ KeepsOverlay node after ∧
      ∀ i, after.byteAt i =
        if first * sectorSize ≤ i ∧ i < (first + count) * sectorSize ∧ offset ≤ i ∧
          i < offset + data.length then data[i - offset]? else node.byteAt i := by
  induction count generalizing node first with
  | zero =>
    refine ⟨node, rfl, wellFormed, ⟨rfl, rfl, rfl⟩, .refl node, fun i => (if_neg ?_).symm⟩
    rw [Nat.add_zero]
    omega
  | succ count inductionHypothesis =>
    rw [← Nat.add_assoc, Nat.succ_mul, Nat.add_mul] at tight inside
    rw [Nat.succ_mul] at begun
    have reach : (first + 1) * sectorSize ≤ node.size := by
      rw [Nat.succ_mul]
      omega
    obtain ⟨sector, found, size, bytes⟩ := wellFormed.readSector reach
    rw [range'_succ, writeLoop, found]
    have patched := (length_patch size (by omega) (by omega :
      first * sectorSize < offset + data.length)).2
    obtain ⟨after, done, wellFormed', same, keeps, written⟩ := inductionHypothesis
      (wellFormed.holdSector patched reach) (first + 1) (by rw [Nat.succ_mul, Nat.succ_mul]; omega)
      (by rw [Nat.add_mul, Nat.succ_mul]; omega)
      (by
        show _ ≤ node.size
        rw [Nat.add_mul, Nat.succ_mul]
        omega)
    refine ⟨after, done, wellFormed', { same with },
      (holdSector_keeps node patched).trans keeps, fun i => ?_⟩
    rw [written, wellFormed.holdSector_byteAt patched]
    by_cases here : i / sectorSize = first
    · obtain ⟨lower, upper⟩ := div_sector_iff.mp here
      have place : first * sectorSize + (i - first * sectorSize) = i := by omega
      rw [if_pos here, getElem?_patch size (by omega) (by omega) (by omega), bytes _ (by omega),
        place, Nat.succ_mul, if_neg (by omega), Nat.add_mul, Nat.succ_mul]
      by_cases inData : offset ≤ i ∧ i < offset + data.length
      · rw [if_pos inData, if_pos (by omega)]
      · rw [if_neg inData, if_neg (by omega)]
    · rw [if_neg here]
      have other : ¬ (first * sectorSize ≤ i ∧ i < first * sectorSize + sectorSize) :=
        fun within => here (div_sector_iff.mpr within)
      refine if_congr ?_ rfl rfl
      rw [show first + (count + 1) = first + 1 + count by omega, Nat.succ_mul]
      omega

theorem WellFormed.write (wellFormed : node.WellFormed) {data : List Byte}
    (inside : offset + data.length ≤ node.size) :
    ∃ after, node.write offset data = (after, .ok ()) ∧ after.WellFormed ∧ SameImage node after ∧
      KeepsOverlay node after ∧ ∀ i, after.byteAt i =
        if offset ≤ i ∧ i < offset + data.length then data[i - offset]? else node.byteAt i := by
  unfold CowNode.write
  rw [checkRange_inside wellFormed.fits inside]
  rcases Nat.eq_zero_or_pos data.length with zero | some
  · have empty := length_eq_zero_iff.mp zero
    refine ⟨node, if_pos empty, wellFormed, ⟨rfl, rfl, rfl⟩, .refl node, fun i => (if_neg ?_).symm⟩
    omega
  · obtain ⟨count, sectors, covers, tight, last⟩ :=
      sectorList_eq wellFormed.whole wellFormed.fits inside some
    obtain ⟨after, done, wellFormed', same, keeps, written⟩ :=
      wellFormed.writeLoop (offset / sectorSize) lt_sector_end tight last
    have started : offset / sectorSize * sectorSize ≤ offset := Nat.div_mul_le_self _ _
    refine ⟨after, ?_, wellFormed', same, keeps, fun i => ?_⟩
    · rw [if_neg (length_pos_iff.mp some), sectors]
      exact done
    · rw [written]
      refine if_congr ?_ rfl rfl
      omega

/-! ### Folding and dropping the overlay -/

/-- The base takes the overlay's bytes at the sectors merged. -/
theorem mergeSectors_spec {size : Nat} (length : base.length = size)
    (held : ∀ lba ∈ lbas, (lba + 1) * sectorSize ≤ overlay.length ∧ (lba + 1) * sectorSize ≤ size) :
    ∃ merged, mergeSectors overlay lbas base = (merged, .ok ()) ∧ merged.length = size ∧
      ∀ i, merged[i]? = if i / sectorSize ∈ lbas then overlay[i]? else base[i]? := by
  induction lbas generalizing base with
  | nil => exact ⟨base, rfl, length, fun i => (if_neg not_mem_nil).symm⟩
  | cons lba rest inductionHypothesis =>
    obtain ⟨holds, fits⟩ := held lba mem_cons_self
    rw [Nat.succ_mul] at holds fits
    have sectorLength : (slice overlay (lba * sectorSize) sectorSize).length = sectorSize :=
      length_slice holds
    have written : (writeAt 0 base (lba * sectorSize)
        (slice overlay (lba * sectorSize) sectorSize)).length = size := by
      rw [length_writeAt]
      omega
    obtain ⟨merged, done, length', bytes⟩ := inductionHypothesis written (forall_mem_cons.mp held).2
    refine ⟨merged, ?_, length', fun i => ?_⟩
    · rw [mergeSectors, readFile_inside holds]
      exact done
    rw [bytes]
    by_cases later : i / sectorSize ∈ rest
    · rw [if_pos later, if_pos (mem_cons_of_mem lba later)]
    rw [if_neg later]
    by_cases here : i / sectorSize = lba
    · obtain ⟨lower, upper⟩ := div_sector_iff.mp here
      rw [if_pos (List.mem_cons.mpr (.inl here)), getElem?_writeAt _ (.inr lower),
        sectorLength, if_pos ⟨lower, upper⟩, getElem?_slice, if_pos (by omega)]
      congr 1
      omega
    · rw [if_neg fun member => (mem_cons.mp member).elim here later]
      rcases lt_or_ge i base.length with old | beyond
      · rw [getElem?_writeAt _ (.inl old), sectorLength,
          if_neg fun within => here (div_sector_iff.mpr within)]
      · rw [getElem?_eq_none (by omega), getElem?_eq_none beyond]

theorem WellFormed.commit (wellFormed : node.WellFormed) :
    ∃ after, node.commit order = (after, .ok (order.list node.dirty).length) ∧
      after.WellFormed ∧ after.dirty = ∅ ∧ after.files.overlay = [] ∧
      after.files.sidecar = node.files.sidecar ∧ after.size = node.size ∧
      ∀ i, after.files.base[i]? = node.byteAt i := by
  obtain ⟨merged, done, length, bytes⟩ := mergeSectors_spec wellFormed.image
    (fun lba member => wellFormed.held lba ((order.mem_list _ _).mp member))
  refine ⟨{ node with files := { node.files with base := merged, overlay := [] }, dirty := ∅ }, ?_,
    ?_, rfl, rfl, rfl, rfl, fun i => ?_⟩
  · unfold CowNode.commit
    rw [if_pos wellFormed.basePath, done]
  · exact { wellFormed with image := length, held := fun _ member => absurd member (notMem_empty _) }
  · rw [bytes]
    exact if_congr (order.mem_list _ _) rfl rfl

theorem WellFormed.rollback (wellFormed : node.WellFormed) : node.rollback.WellFormed :=
  { wellFormed with held := fun _ member => absurd member (notMem_empty _) }

theorem mem_foldl_erase {lbas : List Nat} {dirty : Finset Nat} :
    lba ∈ lbas.foldl erase dirty ↔ lba ∈ dirty ∧ lba ∉ lbas := by
  induction lbas generalizing dirty with
  | nil => simp
  | cons first rest inductionHypothesis =>
    rw [List.foldl_cons, inductionHypothesis, Finset.mem_erase, List.mem_cons]
    tauto

theorem WellFormed.discard (wellFormed : node.WellFormed) (inside : offset + len ≤ node.size) :
    ∃ after, node.discard offset len = (after, .ok ()) ∧ after.WellFormed ∧
      after.files = node.files ∧ after.size = node.size ∧
      ∀ lba, lba ∈ after.dirty ↔ lba ∈ node.dirty ∧ ¬ (0 < len ∧ lba ∈ sectorList offset len) := by
  unfold CowNode.discard
  rw [checkRange_inside wellFormed.fits inside]
  rcases Nat.eq_zero_or_pos len with zero | some
  · refine ⟨node, if_pos zero, wellFormed, rfl, rfl, fun lba => ?_⟩
    exact ⟨fun member => ⟨member, fun touched => absurd touched.1 (by omega)⟩, fun both => both.1⟩
  refine ⟨_, if_neg some.ne', ?_, rfl, rfl, fun lba => ?_⟩
  · exact { wellFormed with
      held := fun lba member => wellFormed.held lba (mem_foldl_erase.mp member).1 }
  · rw [mem_foldl_erase]
    exact and_congr_right fun _ => not_congr ⟨fun touched => ⟨some, touched⟩, fun both => both.2⟩

/-- An overlay that a disk of `size` bytes can take over: it holds the sectors it lists. -/
def Importable (size : Nat) (source : Option (List Byte)) (dirty : List Nat) : Prop :=
  ∀ lba ∈ dirty, (lba + 1) * sectorSize ≤ (source.getD []).length ∧ (lba + 1) * sectorSize ≤ size

theorem WellFormed.importOverlay (wellFormed : node.WellFormed) {dirty : List Nat}
    (importable : Importable node.size source dirty) :
    (node.importOverlay source dirty).WellFormed :=
  { wellFormed with held := fun lba member => importable lba (mem_toFinset.mp member) }

end CowNode

/-! ### The array -/

/-- A disk as a guest sees it: the bytes it reads, over a base image. -/
structure FlatDisk where
  base : List Byte
  bytes : List Byte

def FlatDisk.step (disk : FlatDisk) : DiskOp → FlatDisk
  | .read _ _ => disk
  | .write offset data => { disk with bytes := overwrite disk.bytes offset data }
  | .flush _ => disk
  | .discard offset len =>
    { disk with
      bytes := disk.bytes.mapIdx fun i byte =>
        if 0 < len ∧ i / sectorSize ∈ sectorList offset len then disk.base.getD i 0 else byte }
  | .commit _ => { disk with base := disk.bytes }
  | .rollback => { disk with bytes := disk.base }
  | .importOverlay source dirty =>
    { disk with
      bytes := disk.base.mapIdx fun i byte =>
        if i / sectorSize ∈ dirty then (source.getD []).getD i 0 else byte }

def FlatDisk.run (disk : FlatDisk) (ops : List DiskOp) : FlatDisk := ops.foldl FlatDisk.step disk

def DiskOp.InRange (size : Nat) : DiskOp → Prop
  | .read offset len => offset + len ≤ size
  | .write offset data => offset + data.length ≤ size
  | .discard offset len => offset + len ≤ size
  | .importOverlay source dirty => Importable size source dirty
  | .flush _ | .commit _ | .rollback => True

/-- The node shows the array, and its base image is the array's. -/
structure Refines (node : CowNode) (disk : FlatDisk) : Prop where
  wellFormed : node.WellFormed
  base : node.files.base = disk.base
  length : disk.bytes.length = node.size
  bytes : ∀ i < node.size, node.byteAt i = disk.bytes[i]?

section Refinement
variable {node : CowNode} {disk : FlatDisk}

section
variable (refines : Refines node disk)
include refines

theorem Refines.read {offset len : Nat} (inside : offset + len ≤ node.size) :
    node.read offset len = .ok (slice disk.bytes offset len) := by
  obtain ⟨data, done, length, bytes⟩ := refines.wellFormed.read inside
  rw [done]
  congr 1
  apply ext_getElem?
  intro i
  rw [getElem?_slice]
  split
  next within => rw [bytes i within, refines.bytes _ (by omega)]
  · exact getElem?_eq_none (by omega)

theorem Refines.base_length : disk.base.length = node.size := by
  rw [← refines.base]
  exact refines.wellFormed.image

theorem Refines.write {data : List Byte} (inside : offset + data.length ≤ node.size) :
    ∃ after, node.write offset data = (after, .ok ()) ∧ after.size = node.size ∧
      Refines after (disk.step (.write offset data)) := by
  obtain ⟨after, done, wellFormed, same, -, bytes⟩ := refines.wellFormed.write inside
  have reach : offset + data.length ≤ disk.bytes.length := by
    rw [refines.length]
    exact inside
  refine ⟨after, done, same.size, wellFormed, same.base.trans refines.base, ?_, fun i within => ?_⟩
  · rw [same.size]
    exact (length_overwrite reach).trans refines.length
  · rw [same.size] at within
    rw [bytes, FlatDisk.step, getElem?_overwrite (by omega), refines.bytes i within]

theorem Refines.discard (inside : offset + len ≤ node.size) :
    ∃ after, node.discard offset len = (after, .ok ()) ∧ after.size = node.size ∧
      Refines after (disk.step (.discard offset len)) := by
  obtain ⟨after, done, wellFormed, files, size, dirty⟩ := refines.wellFormed.discard inside
  refine ⟨after, done, size, wellFormed, ?_, ?_, fun i within => ?_⟩
  · rw [files]
    exact refines.base
  · rw [size, ← refines.length]
    exact length_mapIdx
  rw [size] at within
  have shown := refines.bytes i within
  have based : i < disk.base.length := Nat.lt_of_lt_of_eq within refines.base_length.symm
  have held : i < disk.bytes.length := Nat.lt_of_lt_of_eq within refines.length.symm
  rw [FlatDisk.step, getElem?_mapIdx, getElem?_eq_getD 0 held, Option.map_some]
  by_cases touched : 0 < len ∧ i / sectorSize ∈ sectorList offset len
  · rw [if_pos touched, byteAt, if_neg fun member => ((dirty _).mp member).2 touched, files,
      refines.base, getElem?_eq_getD 0 based]
  · rw [if_neg touched, ← getElem?_eq_getD 0 held, ← shown, byteAt, files]
    exact if_congr ((dirty _).trans (and_iff_left touched)) rfl rfl

theorem Refines.commit :
    ∃ after count, node.commit order = (after, .ok count) ∧ after.size = node.size ∧
      Refines after (disk.step (.commit order)) := by
  obtain ⟨after, done, wellFormed, clean, -, -, size, base⟩ := refines.wellFormed.commit
  have merged : after.files.base = disk.bytes := by
    apply ext_getElem?
    intro i
    rcases lt_or_ge i node.size with within | beyond
    · rw [base, refines.bytes i within]
    · rw [getElem?_eq_none (by rw [wellFormed.image, size]; exact beyond),
        getElem?_eq_none (by rw [refines.length]; exact beyond)]
  refine ⟨after, _, done, size, wellFormed, merged, refines.length.trans size.symm, fun i _ => ?_⟩
  rw [byteAt, clean, merged]
  rfl

theorem Refines.rollback : Refines node.rollback (disk.step .rollback) where
  wellFormed := refines.wellFormed.rollback
  base := refines.base
  length := refines.base_length
  bytes i _ := by
    exact congrArg (·[i]?) refines.base

theorem Refines.importOverlay {dirty : List Nat} (importable : Importable node.size source dirty) :
    Refines (node.importOverlay source dirty) (disk.step (.importOverlay source dirty)) where
  wellFormed := refines.wellFormed.importOverlay importable
  base := refines.base
  length := length_mapIdx.trans refines.base_length
  bytes i within := by
    have based : i < disk.base.length := Nat.lt_of_lt_of_eq within refines.base_length.symm
    rw [FlatDisk.step, getElem?_mapIdx, getElem?_eq_getD 0 based, Option.map_some,
      CowNode.byteAt, CowNode.importOverlay]
    by_cases listed : i / sectorSize ∈ dirty
    · have held := (lt_sector_end).trans_le (importable _ listed).1
      rw [if_pos (mem_toFinset.mpr listed), if_pos listed, getElem?_eq_getD 0 held]
    · rw [if_neg fun member => listed (mem_toFinset.mp member), if_neg listed, refines.base,
        getElem?_eq_getD 0 based]

/-- One operation of the node is that operation of the array, and succeeds. -/
theorem Refines.step (op : DiskOp) (inRange : op.InRange node.size) :
    Refines (node.step op).1 (disk.step op) ∧ (node.step op).1.size = node.size ∧
      ∃ data, (node.step op).2 = .ok data := by
  cases op with
  | read offset len => exact ⟨refines, rfl, _, refines.read inRange⟩
  | write offset data =>
    obtain ⟨after, done, size, refines'⟩ := refines.write inRange
    rw [CowNode.step, done]
    exact ⟨refines', size, [], rfl⟩
  | flush order =>
    exact ⟨{ refines with wellFormed := { refines.wellFormed with } }, rfl, [], rfl⟩
  | discard offset len =>
    obtain ⟨after, done, size, refines'⟩ := refines.discard inRange
    rw [CowNode.step, done]
    exact ⟨refines', size, [], rfl⟩
  | commit order =>
    obtain ⟨after, count, done, size, refines'⟩ := refines.commit
    rw [CowNode.step, done]
    exact ⟨refines', size, [], rfl⟩
  | rollback => exact ⟨refines.rollback, rfl, [], rfl⟩
  | importOverlay source dirty => exact ⟨refines.importOverlay inRange, rfl, [], rfl⟩

theorem Refines.run (ops : List DiskOp) (inRange : ∀ op ∈ ops, op.InRange node.size) :
    Refines (node.run ops) (disk.run ops) ∧ (node.run ops).size = node.size := by
  induction ops generalizing node disk with
  | nil => exact ⟨refines, rfl⟩
  | cons op rest inductionHypothesis =>
    obtain ⟨refines', size, -⟩ := refines.step op (inRange op mem_cons_self)
    obtain ⟨after, size'⟩ := inductionHypothesis refines' fun other member => by
      rw [size]
      exact inRange other (mem_cons_of_mem op member)
    exact ⟨after, size'.trans size⟩

end

/-- A disk mounted without a saved dirty set is its image, whatever the overlay file
still holds. -/
theorem refines_openImage {image : List Byte} {derivesBase : Bool}
    (whole : sectorSize ∣ image.length) (fits : image.length < 2 ^ 64) :
    Refines (openImage ⟨image, overlay, none⟩ derivesBase) ⟨image, image⟩ where
  wellFormed :=
    { backing := rfl, basePath := rfl, image := rfl, whole := whole, fits := fits
      held := fun _ member => absurd member (notMem_empty _) }
  base := rfl
  length := rfl
  bytes _ _ := if_neg (notMem_empty _)

end Refinement

/-- After every run of in-range operations on a freshly mounted disk of whole sectors: each
operation succeeded; a read returns the bytes of the flat array and the base file is the
array's base; a commit changes no byte that is read and makes the base the bytes shown; a
rollback makes every read that of the base. -/
theorem cowNode_is_flat_array (image overlay : List Byte) (derivesBase : Bool)
    (whole : sectorSize ∣ image.length) (fits : image.length < 2 ^ 64) (ops : List DiskOp)
    (inRange : ∀ op ∈ ops, op.InRange image.length) :
    let opened := openImage ⟨image, overlay, none⟩ derivesBase
    let node := opened.run ops
    let disk := FlatDisk.run ⟨image, image⟩ ops
    (∀ earlier op later, ops = earlier ++ op :: later →
      ∃ data, ((opened.run earlier).step op).2 = .ok data) ∧
    (∀ offset len, offset + len ≤ image.length →
      node.read offset len = .ok (slice disk.bytes offset len)) ∧
    node.files.base = disk.base ∧
    (∀ order, (node.commit order).1.files.base = disk.bytes ∧
      disk.bytes.length = image.length ∧
      ∀ offset len, offset + len ≤ image.length →
        (node.commit order).1.read offset len = node.read offset len) ∧
    ∀ offset len, offset + len ≤ image.length →
      node.rollback.read offset len = .ok (slice disk.base offset len) := by
  intro opened node disk
  have mounted : Refines opened ⟨image, image⟩ := refines_openImage whole fits
  obtain ⟨refines, size⟩ := mounted.run ops inRange
  refine ⟨?_, ?_, refines.base, ?_, ?_⟩
  · rintro earlier op later rfl
    obtain ⟨before, size'⟩ := mounted.run earlier fun other member =>
      inRange other (mem_append_left _ member)
    obtain ⟨-, -, succeeds⟩ := before.step op (by
      rw [size']
      exact inRange op (mem_append_right _ mem_cons_self))
    exact succeeds
  · intro offset len inside
    exact refines.read (inside.trans_eq size.symm)
  · intro order
    obtain ⟨after, count, done, size', refines'⟩ := refines.commit
    rw [done]
    refine ⟨refines'.base, refines.length.trans size, fun offset len inside => ?_⟩
    rw [refines'.read (inside.trans_eq (size'.trans size).symm),
      refines.read (inside.trans_eq size.symm)]
    rfl
  · intro offset len inside
    exact refines.rollback.read (inside.trans_eq size.symm)

/-! ### A disk -/

def fives : Files := ⟨replicate 1024 5, [], none⟩

def sectorOf (byte : Byte) : List Byte := replicate 512 byte

theorem length_fives : fives.base.length = 1024 := length_replicate

/-- A write over the border of two sectors, folded into the base, and one that is dropped. -/
def straddlingRun : List DiskOp :=
  [.write 510 [1, 2, 3, 4], .flush .ascending, .commit .ascending, .write 0 [9], .rollback]

theorem cowNode_is_flat_array_straddling :
    ((openImage ⟨fives.base, [7], none⟩ false).run straddlingRun).read 509 6 =
      .ok [5, 1, 2, 3, 4, 5] := by
  have inRange : ∀ op ∈ straddlingRun, op.InRange fives.base.length := by
    rw [length_fives]
    unfold straddlingRun
    simp [DiskOp.InRange]
  obtain ⟨-, reads, -⟩ := cowNode_is_flat_array fives.base [7] false
    (by rw [length_fives]; decide) (by rw [length_fives]; decide) straddlingRun inRange
  rw [reads 509 6 (by rw [length_fives]; decide)]
  exact congrArg Except.ok (by decide +kernel)

end Iris.Block
