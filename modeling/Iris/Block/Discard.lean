import Iris.Block.FlatDisk

/-!
Owns what a discard leaves alone: it releases whole sectors, so the bytes it uncovers
around its range are kept only where the layer below has the same.
-/

namespace Iris.Block.CowNode

open List

variable {node : CowNode}

theorem readLoop_congr {other : CowNode}
    (same : ∀ lba ∈ lbas, node.readSector lba = other.readSector lba) (offset ending : Nat)
    (buf : List Byte) :
    node.readLoop offset ending lbas buf = other.readLoop offset ending lbas buf := by
  induction lbas generalizing buf with
  | nil => rfl
  | cons lba rest inductionHypothesis =>
    obtain ⟨here, further⟩ := forall_mem_cons.mp same
    rw [readLoop, here]
    exact bind_congr fun sector => inductionHypothesis further _

theorem read_byte_congr {other : CowNode} (size : node.size = other.size)
    (same : node.readSector (i / sectorSize) = other.readSector (i / sectorSize)) :
    node.read i 1 = other.read i 1 := by
  have one : ∀ lba ∈ sectorList i 1, lba = i / sectorSize := by
    intro lba member
    unfold sectorList sectorsFor at member
    rw [mem_range'_1] at member
    unfold sectorSize at *
    omega
  unfold read
  rw [size, readLoop_congr fun lba member => one lba member ▸ same]

theorem discard_read_byte (inRange : checkRange node.size offset len = .ok ()) (i : Nat) :
    (node.discard offset len).1.read i 1 =
      if 0 < len ∧ i / sectorSize ∈ sectorList offset len then node.rollback.read i 1
      else node.read i 1 := by
  unfold discard
  rw [inRange]
  rcases Nat.eq_zero_or_pos len with zero | some
  · simp [zero]
  simp only [if_neg some.ne', some, true_and]
  split
  next touched =>
    refine read_byte_congr (by rfl) ?_
    simp [readSector, rollback, mem_foldl_erase, touched]
  next untouched =>
    refine read_byte_congr (by rfl) ?_
    simp [readSector, mem_foldl_erase, untouched]

/-- Outside of its range a discard changes nothing exactly if the bytes it uncovers there,
in the sectors it releases, are those the overlay showed. -/
theorem discard_keeps_iff (node : CowNode) {offset len : Nat}
    (inRange : checkRange node.size offset len = .ok ()) :
    (∀ i < node.size, ¬ (offset ≤ i ∧ i < offset + len) →
      (node.discard offset len).1.read i 1 = node.read i 1) ↔
    ∀ i < node.size, ¬ (offset ≤ i ∧ i < offset + len) →
      0 < len ∧ i / sectorSize ∈ sectorList offset len → node.rollback.read i 1 = node.read i 1 := by
  refine forall₃_congr fun i _ _ => ?_
  rw [discard_read_byte inRange]
  split
  next touched => exact (imp_iff_right touched).symm
  next untouched => exact iff_of_true rfl fun touched => absurd touched untouched

/-- A disk of two sectors whose overlay shows ones where the image is zero. -/
def twoSectors : CowNode where
  files := ⟨.replicate 1024 0, .replicate 1024 1, none⟩
  backing := some ⟨1024⟩
  basePath := true
  dirty := {0, 1}
  size := 1024

theorem discard_keeps_second :
    checkRange twoSectors.size 0 512 = .ok () ∧
      ∀ i < twoSectors.size, ¬ (0 ≤ i ∧ i < 0 + 512) →
        (twoSectors.discard 0 512).1.read i 1 = twoSectors.read i 1 := by
  refine ⟨by decide, (discard_keeps_iff _ (by decide)).mpr fun i _ outside touched => ?_⟩
  have first : i / 512 = 0 := by simpa [sectorList, sectorsFor, sectorSize] using touched.2
  omega

/-- A discard of the first byte changes the second. -/
theorem discard_changes_next :
    checkRange twoSectors.size 0 1 = .ok () ∧ twoSectors.read 1 1 = .ok [1] ∧
      (twoSectors.discard 0 1).1.read 1 1 = .ok [0] := by
  decide +kernel

end Iris.Block.CowNode
