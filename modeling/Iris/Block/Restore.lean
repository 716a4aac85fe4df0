import Iris.Block.FlatDisk

/-!
Owns the disk part of a snapshot: an exported overlay, and what importing it brings
back. The export holds the overlay alone, so the sectors it does not hold come from
the base image as it is at the import, and only a commit changes that.
-/

namespace Iris.Block

open Library ByteFile List

variable {node : CowNode}

/-! ### The array behind a node -/

def CowNode.flat (node : CowNode) : FlatDisk where
  base := node.files.base
  bytes := (range node.size).map fun i => (node.byteAt i).getD 0

theorem CowNode.WellFormed.byteAt_isSome (wellFormed : node.WellFormed) (within : i < node.size) :
    ∃ byte, node.byteAt i = some byte := by
  unfold CowNode.byteAt
  split
  next dirty =>
    have held := (CowNode.lt_sector_end).trans_le (wellFormed.held _ dirty).1
    exact ⟨_, getElem?_eq_getElem held⟩
  · exact ⟨_, getElem?_eq_getElem (within.trans_eq wellFormed.image.symm)⟩

theorem CowNode.WellFormed.refines_flat (wellFormed : node.WellFormed) :
    Refines node node.flat where
  wellFormed := wellFormed
  base := rfl
  length := by rw [CowNode.flat, length_map, length_range]
  bytes i within := by
    obtain ⟨byte, shown⟩ := wellFormed.byteAt_isSome within
    rw [CowNode.flat, getElem?_map, getElem?_range within, Option.map_some, shown,
      Option.getD_some]

theorem CowNode.WellFormed.sameReads_iff {other : CowNode} (wellFormed : node.WellFormed)
    (wellFormed' : other.WellFormed) (size : other.size = node.size) :
    (∀ offset len, offset + len ≤ node.size → other.read offset len = node.read offset len) ↔
      ∀ i < node.size, other.byteAt i = node.byteAt i := by
  constructor
  · intro same i within
    have inside : i + 1 ≤ node.size := within
    obtain ⟨data, done, -, bytes⟩ := wellFormed.read inside
    obtain ⟨data', done', -, bytes'⟩ := wellFormed'.read (inside.trans_eq size.symm)
    have equal : data' = data := Except.ok.inj ((done'.symm.trans (same i 1 inside)).trans done)
    have first := bytes 0 Nat.zero_lt_one
    have first' := bytes' 0 Nat.zero_lt_one
    rw [Nat.add_zero] at first first'
    rw [← first, ← first', equal]
  · intro same offset len inside
    obtain ⟨data, done, length, bytes⟩ := wellFormed.read inside
    obtain ⟨data', done', length', bytes'⟩ := wellFormed'.read (inside.trans_eq size.symm)
    rw [done, done']
    congr 1
    apply ext_getElem?
    intro i
    rcases lt_or_ge i len with within | beyond
    · rw [bytes i within, bytes' i within, same _ (by omega)]
    · rw [getElem?_eq_none (by omega), getElem?_eq_none (by omega)]

/-! ### The base image along a run -/

def DiskOp.isCommit : DiskOp → Bool
  | .commit _ => true
  | _ => false

theorem FlatDisk.run_base (disk : FlatDisk) (uncommitted : ∀ op ∈ ops, op.isCommit = false) :
    (disk.run ops).base = disk.base := by
  refine foldlRecOn ops step (motive := (·.base = disk.base)) rfl fun later same op member => ?_
  cases op with
  | commit order => exact absurd (uncommitted _ member) (by simp [DiskOp.isCommit])
  | read | write | flush | discard | rollback | importOverlay => exact same

/-! ### Export and import -/

theorem CowNode.WellFormed.importable_export (wellFormed : node.WellFormed) :
    CowNode.Importable node.size (some node.exportOverlay.1) node.exportOverlay.2 := by
  intro lba listed
  have dirty : lba ∈ node.dirty := (Finset.mem_sort (· ≤ ·)).mp listed
  exact wellFormed.held lba dirty

/-- The node after a run, with an earlier export imported. -/
def CowNode.restored (node : CowNode) (ops : List DiskOp) : CowNode :=
  (node.run ops).importOverlay (some node.exportOverlay.1) node.exportOverlay.2

theorem CowNode.restored_byteAt (node : CowNode) :
    (node.restored ops).byteAt i =
      if i / sectorSize ∈ node.dirty then node.files.overlay[i]?
      else (node.run ops).files.base[i]? := by
  have listed : i / sectorSize ∈ node.exportOverlay.2.toFinset ↔ i / sectorSize ∈ node.dirty :=
    mem_toFinset.trans (Finset.mem_sort (· ≤ ·))
  exact if_congr listed rfl rfl

/-- After any run of in-range operations an import of the earlier export brings back every
read exactly if the base image still has its bytes in the sectors the export does not hold;
it has all of them unless there was a commit. -/
theorem import_restores_iff (node : CowNode) (wellFormed : node.WellFormed) (ops : List DiskOp)
    (inRange : ∀ op ∈ ops, op.InRange node.size) :
    ((∀ offset len, offset + len ≤ node.size →
        (node.restored ops).read offset len = node.read offset len) ↔
      ∀ i < node.size, i / sectorSize ∉ node.dirty →
        (node.run ops).files.base[i]? = node.files.base[i]?) ∧
    ((∀ op ∈ ops, op.isCommit = false) → (node.run ops).files.base = node.files.base) := by
  obtain ⟨refines, size⟩ := wellFormed.refines_flat.run ops inRange
  have importable : CowNode.Importable (node.run ops).size (some node.exportOverlay.1)
      node.exportOverlay.2 := by
    rw [size]
    exact wellFormed.importable_export
  have restored : (node.restored ops).WellFormed := refines.wellFormed.importOverlay importable
  constructor
  · rw [wellFormed.sameReads_iff restored size]
    refine forall₂_congr fun i _ => ?_
    rw [node.restored_byteAt, CowNode.byteAt]
    by_cases dirty : i / sectorSize ∈ node.dirty
    · rw [if_pos dirty, if_pos dirty]
      exact ⟨fun _ clean => absurd dirty clean, fun _ => rfl⟩
    · rw [if_neg dirty, if_neg dirty]
      exact ⟨fun same _ => same, fun same => same dirty⟩
  · intro uncommitted
    exact refines.base.trans (node.flat.run_base uncommitted)

/-- An exported write comes back over a later one, a rollback and a discard. -/
theorem import_restores_iff_rolledBack :
    let node := (openImage fives true).run [.write 510 [1, 2, 3, 4]]
    let ops : List DiskOp :=
      [.write 600 [9], .flush .ascending, .rollback, .write 0 [8], .discard 0 1]
    (node.restored ops).read 509 6 = node.read 509 6 ∧ node.read 509 6 = .ok [5, 1, 2, 3, 4, 5] := by
  intro node ops
  have mounted : Refines (openImage fives true) ⟨fives.base, fives.base⟩ :=
    refines_openImage (by rw [length_replicate]; decide)
      (by rw [length_replicate]; decide)
  obtain ⟨refines, size⟩ := mounted.run [.write 510 [1, 2, 3, 4]] (by
    show ∀ op ∈ _, DiskOp.InRange fives.base.length op
    rw [length_fives]
    simp [DiskOp.InRange])
  have size : node.size = 1024 := size.trans length_fives
  have restores := import_restores_iff node refines.wellFormed ops (by
    rw [size]
    simp [ops, DiskOp.InRange])
  have unchanged := restores.2 (by simp [ops, DiskOp.isCommit])
  refine ⟨restores.1.mpr (fun i _ _ => congrArg (·[i]?) unchanged) 509 6 ?_, by decide +kernel⟩
  rw [size]
  decide

/-- A commit behind the export folds a sector that the export does not hold. -/
theorem commit_survives_import :
    (openImage fives true).read 0 1 = .ok [5] ∧
      ((openImage fives true).restored
        [.write 0 (sectorOf 1), .commit .ascending]).read 0 1 = .ok [1] := by
  constructor <;> decide +kernel

end Iris.Block
