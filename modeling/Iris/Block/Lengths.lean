import Iris.Block.FlatDisk

/-!
Owns the lengths of image an overlay can stand on. It works in whole sectors over a file
of bytes, so it serves what the raw image serves exactly when the image ends with a sector.
-/

namespace Iris.Block

open List Library.ByteFile CowNode RawNode FlatDisk

/-- The file a write to the raw node leaves. -/
def RawNode.write (raw : RawNode) (file : List Byte) (offset : Nat) (data : List Byte) :
    Except IoError (List Byte) := do
  checkRange raw.size offset data.length
  return writeAt 0 file offset data

/-- The operations that put bytes of their own into the overlay. -/
def DiskOp.Stores : DiskOp → Prop
  | .write _ _ | .importOverlay _ _ => True
  | _ => False

/-- What an overlay owes after a run: an access the raw image takes succeeds, a read returns
the image's bytes if the run stored nothing, and a commit leaves the image as long as it was. -/
structure Serves (image : List Byte) (ops : List DiskOp) (node : CowNode) : Prop where
  reads : ∀ offset len data, read ⟨image.length⟩ image offset len = .ok data →
    ∃ got, node.read offset len = .ok got ∧ ((∀ op ∈ ops, ¬op.Stores) → got = data)
  writes : ∀ offset data file, write ⟨image.length⟩ image offset data = .ok file →
    (node.write offset data).2 = .ok ()
  commits : ∀ order, (node.commit order).1.files.base.length = image.length

theorem inside_of_checkRange (ok : checkRange capacity offset len = .ok ()) :
    offset + len ≤ capacity := by
  unfold checkRange at ok
  split at ok
  · cases ok
  · split at ok
    · cases ok
    next beyond => exact Nat.le_of_not_lt beyond

theorem RawNode.inside_of_ok {after : Unit → Except IoError α}
    (ok : (checkRange capacity offset len >>= after) = .ok data) :
    offset + len ≤ capacity ∧ after () = .ok data := by
  cases checked : checkRange capacity offset len with
  | error err =>
    rw [checked] at ok
    cases ok
  | ok checkedUnit =>
    rw [checked] at ok
    exact ⟨inside_of_checkRange checked, ok⟩

/-! ### An image of whole sectors -/

theorem FlatDisk.step_unstored {image : List Byte} (stores : ¬op.Stores) :
    step ⟨image, image⟩ op = ⟨image, image⟩ := by
  cases op with
  | read | flush | commit | rollback => rfl
  | write | importOverlay => exact absurd trivial stores
  | discard offset len =>
    rw [step, mk.injEq]
    refine ⟨rfl, ext_getElem? fun i => ?_⟩
    rw [getElem?_mapIdx]
    rcases Nat.lt_or_ge i image.length with within | beyond
    · rw [getElem?_eq_getD 0 within, Option.map_some, ite_self]
    · rw [getElem?_eq_none beyond]
      rfl

theorem FlatDisk.run_unstored {image : List Byte} (stores : ∀ op ∈ ops, ¬op.Stores) :
    run ⟨image, image⟩ ops = ⟨image, image⟩ := by
  refine foldlRecOn ops step (motive := (· = _)) rfl fun disk same op member => ?_
  rw [same, step_unstored (stores op member)]

theorem Refines.serves {node : CowNode} {ops : List DiskOp}
    (refines : Refines node (FlatDisk.run ⟨image, image⟩ ops)) (size : node.size = image.length) :
    Serves image ops node where
  reads offset len data ok := by
    obtain ⟨inside, ok⟩ := inside_of_ok ok
    refine ⟨_, refines.read (inside.trans_eq size.symm), fun stores => ?_⟩
    rw [readFile_inside inside] at ok
    rw [run_unstored stores]
    exact Except.ok.inj ok
  writes offset data file ok := by
    obtain ⟨after, done, -⟩ :=
      refines.write ((inside_of_ok ok).1.trans_eq size.symm)
    rw [done]
  commits order := by
    obtain ⟨after, count, done, same, refines'⟩ := refines.commit
    rw [done, refines'.wellFormed.image, same, size]

/-! ### An image that ends inside a sector -/

/-- The last sector of such an image cannot be read whole, so no byte of it can be. -/
theorem read_partial_sector {derivesBase : Bool} (fits : image.length < 2 ^ 63)
    (begun : last * sectorSize < image.length) (ended : image.length < (last + 1) * sectorSize) :
    (openImage ⟨image, overlay, none⟩ derivesBase).read (last * sectorSize) 1 =
      .error (.invalidInput "block range past end of node") := by
  have sectors : sectorList (last * sectorSize) 1 = [last] := by
    have from_last : last * sectorSize / sectorSize = last := by
      unfold sectorSize
      omega
    have to_next : (last * sectorSize + 1 + sectorSize - 1) % 2 ^ 64 / sectorSize = last + 1 := by
      unfold sectorSize at *
      omega
    rw [sectorList, sectorsFor, from_last, to_next]
    exact congrArg (range' last) (Nat.add_sub_cancel_left last 1)
  have short : checkRange image.length (last * sectorSize) sectorSize =
      .error (.invalidInput "block range past end of node") := by
    unfold checkRange
    unfold sectorSize at *
    rw [if_neg (by omega), if_pos (by omega)]
  have sector : (openImage ⟨image, overlay, none⟩ derivesBase).readSector last =
      .error (.invalidInput "block range past end of node") := by
    exact congrArg (· >>= fun _ => readFile image _ _) short
  have checked : checkRange (openImage ⟨image, overlay, none⟩ derivesBase).size
      (last * sectorSize) 1 = .ok () :=
    checkRange_inside (fits.trans (by decide)) begun
  rw [CowNode.read, checked, sectors, readLoop, sector]
  rfl

/-- An overlay serves what its raw image serves, after every run of accesses in range, iff the
image is a whole number of sectors long. -/
theorem overlay_serves_iff (image overlay : List Byte) (derivesBase : Bool)
    (fits : image.length < 2 ^ 63) :
    (∀ ops, (∀ op ∈ ops, op.InRange image.length) →
      Serves image ops ((openImage ⟨image, overlay, none⟩ derivesBase).run ops)) ↔
    sectorSize ∣ image.length := by
  constructor
  · intro serves
    by_contra whole
    have begun : image.length / sectorSize * sectorSize < image.length :=
      lt_of_le_of_ne (Nat.div_mul_le_self _ _) fun same => whole ⟨_, by rw [Nat.mul_comm, same]⟩
    have ended := lt_sector_end (i := image.length)
    obtain ⟨got, ok, -⟩ := (serves [] nofun).reads _ 1 _ (by
      rw [RawNode.read, checkRange_inside (fits.trans (by decide)) begun]
      exact readFile_inside begun)
    cases (read_partial_sector fits begun ended).symm.trans ok
  · intro whole ops inRange
    obtain ⟨refines, size⟩ := (refines_openImage whole (fits.trans (by decide))).run ops inRange
    exact refines.serves size

theorem overlay_serves_two_sectors :
    Serves fives.base [] (openImage ⟨fives.base, [7], none⟩ false) :=
  (overlay_serves_iff fives.base [7] false (by rw [length_fives]; decide)).mpr
    (by rw [length_fives]; decide) [] nofun

/-- A disk of one byte: the raw image reads it, the overlay over it does not, and so cannot be
written either. -/
theorem one_byte_unserved :
    read ⟨1⟩ [5] 0 1 = .ok [5] ∧ write ⟨1⟩ [5] 0 [6] = .ok [6] ∧
      (openImage ⟨[5], [], none⟩ false).read 0 1 =
        .error (.invalidInput "block range past end of node") ∧
      ((openImage ⟨[5], [], none⟩ false).write 0 [6]).2 =
        .error (.invalidInput "block range past end of node") :=
  ⟨rfl, rfl, rfl, rfl⟩

end Iris.Block
