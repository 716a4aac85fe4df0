import Iris.Block.FlatDisk
import Iris.Library.Run

/-!
Owns what survives a crash: a disk mounted again from its three files as they are.
The sidecar says which sectors of the overlay count; each operation leaves a sector
recoverable as it is shown now, or as it was recoverable before.
-/

namespace Iris.Block

open Library ByteFile Run List Finset CowNode

/-! ### Recovery -/

def Files.saved (files : Files) : Finset Nat := loadDirtySidecar files.sidecar

def CowNode.reopen (node : CowNode) : CowNode := openImage node.files true

/-- The overlay holds every sector the sidecar lists. -/
def Persisted (node : CowNode) : Prop :=
  ∀ lba ∈ node.files.saved, (lba + 1) * sectorSize ≤ node.files.overlay.length ∧
    (lba + 1) * sectorSize ≤ node.size

theorem Persisted.reopen (persisted : Persisted node) (wellFormed : node.WellFormed) :
    node.reopen.WellFormed where
  backing := rfl
  basePath := rfl
  image := rfl
  whole := by
    show sectorSize ∣ node.files.base.length
    rw [wellFormed.image]
    exact wellFormed.whole
  fits := by
    show node.files.base.length < 2 ^ 64
    rw [wellFormed.image]
    exact wellFormed.fits
  held := by
    show ∀ lba ∈ node.files.saved, _ ∧ (lba + 1) * sectorSize ≤ node.files.base.length
    rw [wellFormed.image]
    exact persisted

def SameSector (lba : Nat) (node node' : CowNode) : Prop :=
  ∀ i, i / sectorSize = lba → node.byteAt i = node'.byteAt i

/-- An operation that leaves the sidecar true to the overlay: a commit empties the overlay
and an import replaces it, and neither rewrites the sidecar. -/
def DiskOp.KeepsSidecar (node : CowNode) : DiskOp → Prop
  | .commit _ => node.files.saved = ∅
  | .importOverlay _ dirty => ∀ lba ∈ node.files.saved, lba ∈ dirty
  | _ => True

def DiskOp.isFlush : DiskOp → Bool
  | .flush _ => true
  | _ => false

/-- After an operation the files hold a sector as it is shown now, or as before. -/
structure Survives (node after : CowNode) (flushed : Bool) : Prop where
  wellFormed : after.WellFormed
  persisted : Persisted after
  size : after.size = node.size
  sectors : ∀ lba, SameSector lba after.reopen after ∨
    flushed = false ∧ SameSector lba after.reopen node.reopen

section Steps
variable {node : CowNode}

theorem reopen_byteAt (node : CowNode) (i : Nat) :
    node.reopen.byteAt i =
      if i / sectorSize ∈ node.files.saved then node.files.overlay[i]? else node.files.base[i]? :=
  rfl

theorem Persisted.write (persisted : Persisted node) (wellFormed : node.WellFormed) {offset : Nat}
    {data : List Byte} (inside : offset + data.length ≤ node.size) :
    Survives node (node.step (.write offset data)).1 false := by
  obtain ⟨after, done, wellFormed', same, keeps, -⟩ := wellFormed.write inside
  rw [step, done]
  have saved : after.files.saved = node.files.saved := by
    rw [Files.saved, Files.saved, same.sidecar]
  refine ⟨wellFormed', ?_, same.size, fun lba => ?_⟩
  · rw [Persisted, saved, same.size]
    exact fun lba member => ⟨(persisted lba member).1.trans keeps.grows, (persisted lba member).2⟩
  -- a saved sector that is dirty now is shown from the overlay
  by_cases dirty : lba ∈ after.dirty ∧ lba ∈ node.files.saved
  · left
    rintro i rfl
    rw [reopen_byteAt, saved, if_pos dirty.2, byteAt, if_pos dirty.1]
  right
  refine ⟨rfl, ?_⟩
  rintro i rfl
  rw [reopen_byteAt, reopen_byteAt, saved, same.base]
  by_cases listed : i / sectorSize ∈ node.files.saved
  · have within := (lt_sector_end).trans_le (persisted _ listed).1
    rw [if_pos listed, if_pos listed, keeps.rest i within fun member => dirty ⟨member, listed⟩]
  · rw [if_neg listed, if_neg listed]

theorem Persisted.flush (wellFormed : node.WellFormed) :
    Survives node (node.step (.flush order)).1 true := by
  have saved : (node.flush order).files.saved = node.dirty := by
    refine @loadDirtySidecar_hashed order _ node.size (fun lba member => ?_) wellFormed.fits
    have inside := (wellFormed.held lba member).2
    unfold sectorSize at inside
    omega
  refine ⟨{ wellFormed with }, ?_, rfl, fun lba => .inl ?_⟩
  · show ∀ lba ∈ (node.flush order).files.saved, _
    rw [saved]
    exact wellFormed.held
  · rintro i rfl
    show (node.flush order).reopen.byteAt i = node.byteAt i
    rw [reopen_byteAt, saved]
    rfl

theorem Persisted.discard (persisted : Persisted node) (wellFormed : node.WellFormed)
    (inside : offset + len ≤ node.size) :
    Survives node (node.step (.discard offset len)).1 false := by
  obtain ⟨after, done, wellFormed', files, size, -⟩ := wellFormed.discard inside
  rw [step, done]
  refine ⟨wellFormed', ?_, size, fun lba => .inr ⟨rfl, ?_⟩⟩
  · rw [Persisted, files, size]
    exact persisted
  · intro i _
    rw [reopen_byteAt, reopen_byteAt, files]

theorem Persisted.commit (wellFormed : node.WellFormed) (unsaved : node.files.saved = ∅) :
    Survives node (node.step (.commit order)).1 false := by
  obtain ⟨after, done, wellFormed', clean, -, sidecar, size, -⟩ := wellFormed.commit
  rw [step, done]
  have saved : after.files.saved = ∅ := by
    rw [Files.saved, sidecar]
    exact unsaved
  refine ⟨wellFormed', ?_, size, fun lba => .inl fun i _ => ?_⟩
  · rw [Persisted, saved]
    exact fun _ member => absurd member (notMem_empty _)
  · rw [reopen_byteAt, saved, byteAt, clean]

theorem Persisted.rollback (wellFormed : node.WellFormed) :
    Survives node (node.step .rollback).1 false where
  wellFormed := wellFormed.rollback
  persisted := fun _ member => absurd member (notMem_empty _)
  size := rfl
  sectors _ := .inl fun _ _ => rfl

theorem Persisted.importOverlay (wellFormed : node.WellFormed) {dirty : List Nat}
    (importable : Importable node.size source dirty)
    (listed : ∀ lba ∈ node.files.saved, lba ∈ dirty) :
    Survives node (node.step (.importOverlay source dirty)).1 false where
  wellFormed := wellFormed.importOverlay importable
  persisted := fun lba member => importable lba (listed lba member)
  size := rfl
  sectors lba := by
    by_cases saved : lba ∈ node.files.saved
    · left
      rintro i rfl
      exact (if_pos saved).trans (if_pos (mem_toFinset.mpr (listed _ saved))).symm
    · right
      refine ⟨rfl, ?_⟩
      rintro i rfl
      rw [reopen_byteAt, reopen_byteAt, if_neg saved]
      exact if_neg saved

theorem Persisted.step (persisted : Persisted node) (wellFormed : node.WellFormed) (op : DiskOp)
    (inRange : op.InRange node.size) (keeps : op.KeepsSidecar node) :
    Survives node (node.step op).1 op.isFlush := by
  cases op with
  | read offset len =>
    exact ⟨wellFormed, persisted, rfl, fun _ => .inr ⟨rfl, fun _ _ => rfl⟩⟩
  | write offset data => exact persisted.write wellFormed inRange
  | flush order => exact Persisted.flush wellFormed
  | discard offset len => exact persisted.discard wellFormed inRange
  | commit order => exact Persisted.commit wellFormed keeps
  | rollback => exact Persisted.rollback wellFormed
  | importOverlay source dirty => exact Persisted.importOverlay wellFormed inRange keeps

end Steps

/-! ### Runs -/

section Runs
variable {node : CowNode}

theorem CowNode.run_concat (node : CowNode) (ops : List DiskOp) (op : DiskOp) :
    node.run (ops ++ [op]) = ((node.run ops).step op).1 := by
  rw [run, foldl_append]
  rfl

/-- Every operation is in range and leaves the sidecar true to the overlay. -/
def SafeRun (node : CowNode) : List DiskOp → Prop :=
  Along (fun node op => (node.step op).1)
    (fun state op => op.InRange node.size ∧ op.KeepsSidecar state) node

/-- Each sector is recoverable as some state since the last flush showed it. -/
theorem Persisted.run (persisted : Persisted node) (wellFormed : node.WellFormed)
    (fresh : ∀ lba, SameSector lba node.reopen node) (safe : SafeRun node ops) :
    (node.run ops).WellFormed ∧ Persisted (node.run ops) ∧ (node.run ops).size = node.size ∧
      ∀ lba, ∃ earlier later, ops = earlier ++ later ∧ (∀ op ∈ later, op.isFlush = false) ∧
        (node.run earlier).WellFormed ∧ (node.run earlier).size = node.size ∧
        SameSector lba (node.run ops).reopen (node.run earlier) := by
  induction ops using reverseRecOn with
  | nil =>
    refine ⟨wellFormed, persisted, rfl, fun lba => ⟨[], [], rfl, ?_, wellFormed, rfl, fresh lba⟩⟩
    exact nofun
  | append_singleton ops op inductionHypothesis =>
    obtain ⟨before, persistedBefore, size, recoverable⟩ := inductionHypothesis safe.front
    obtain ⟨inRange, keeps⟩ := safe ops op [] rfl
    have survives := persistedBefore.step before op (by rw [size]; exact inRange) keeps
    rw [← run_concat] at survives
    refine ⟨survives.wellFormed, survives.persisted, survives.size.trans size, fun lba => ?_⟩
    rcases survives.sectors lba with now | ⟨unflushed, same⟩
    · refine ⟨ops ++ [op], [], (append_nil _).symm, ?_, survives.wellFormed,
        survives.size.trans size, now⟩
      exact nofun
    obtain ⟨earlier, later, split, noFlush, shownWellFormed, shownSize, shown⟩ := recoverable lba
    refine ⟨earlier, later ++ [op], ?_, ?_, shownWellFormed, shownSize,
      fun i here => (same i here).trans (shown i here)⟩
    · rw [split, append_assoc]
    · intro other member
      rcases mem_append.mp member with old | last
      · exact noFlush other old
      · rw [List.mem_singleton.mp last]
        exact unflushed

theorem SameSector.readSector {other : CowNode} {lba : Nat} (same : SameSector lba node other)
    (wellFormed : node.WellFormed) (wellFormed' : other.WellFormed)
    (inside : (lba + 1) * sectorSize ≤ node.size) (inside' : (lba + 1) * sectorSize ≤ other.size) :
    ∃ sector, node.readSector lba = .ok sector ∧ other.readSector lba = .ok sector := by
  obtain ⟨sector, found, length, bytes⟩ := wellFormed.readSector inside
  obtain ⟨sector', found', length', bytes'⟩ := wellFormed'.readSector inside'
  have equal : sector' = sector := by
    apply ext_getElem?
    intro i
    rcases lt_or_ge i sectorSize with within | beyond
    · rw [bytes i within, bytes' i within, same _ (div_sector within)]
    · rw [getElem?_eq_none (by omega), getElem?_eq_none (by omega)]
  exact ⟨sector, found, equal ▸ found'⟩

end Runs

/-- Let a disk be mounted from files whose overlay holds what the sidecar lists, and let
every commit run while the sidecar lists no sector and every import list the sectors the
sidecar lists. Mounted again after any such run, every read in range succeeds, and every
sector has a value that it showed after some operation with no flush behind it. -/
theorem crash_recovers_shown (files : Files) (derivesBase : Bool)
    (whole : sectorSize ∣ files.base.length) (fits : files.base.length < 2 ^ 64)
    (held : ∀ lba ∈ files.saved, (lba + 1) * sectorSize ≤ files.overlay.length ∧
      (lba + 1) * sectorSize ≤ files.base.length)
    (ops : List DiskOp) (safe : SafeRun (openImage files derivesBase) ops) :
    let opened := openImage files derivesBase
    let reopened := (opened.run ops).reopen
    (∀ offset len, offset + len ≤ files.base.length →
      ∃ data, reopened.read offset len = .ok data) ∧
    ∀ lba, (lba + 1) * sectorSize ≤ files.base.length →
      ∃ sector earlier later, ops = earlier ++ later ∧ (∀ op ∈ later, op.isFlush = false) ∧
        reopened.readSector lba = .ok sector ∧
        (opened.run earlier).readSector lba = .ok sector := by
  intro opened reopened
  have wellFormed : opened.WellFormed :=
    { backing := rfl, basePath := rfl, image := rfl, whole := whole, fits := fits, held := held }
  have persisted : Persisted opened := held
  obtain ⟨after, persisted', size, recoverable⟩ :=
    persisted.run wellFormed (fun _ _ _ => rfl) safe
  have mounted : reopened.WellFormed := persisted'.reopen after
  have size' : reopened.size = files.base.length := after.image.trans size
  refine ⟨fun offset len inside => ?_, fun lba inside => ?_⟩
  · obtain ⟨data, done, -⟩ := mounted.read (inside.trans_eq size'.symm)
    exact ⟨data, done⟩
  · obtain ⟨earlier, later, split, noFlush, shown, shownSize, same⟩ := recoverable lba
    obtain ⟨sector, now, before⟩ := same.readSector mounted shown (inside.trans_eq size'.symm)
      (inside.trans_eq shownSize.symm)
    exact ⟨sector, earlier, later, split, noFlush, now, before⟩

/-! ### Two disks -/

/-- Writes that are folded, saved, changed again and discarded. -/
def savedRun : List DiskOp :=
  [.write 0 (sectorOf 1), .commit .ascending, .write 0 (sectorOf 2), .flush .ascending,
    .write 0 (sectorOf 3), .discard 0 512]

theorem crash_recovers_shown_saved :
    ((openImage fives true).run savedRun).reopen.readSector 0 = .ok (sectorOf 3) ∧
      ∃ sector earlier later, savedRun = earlier ++ later ∧ (∀ op ∈ later, op.isFlush = false) ∧
        ((openImage fives true).run savedRun).reopen.readSector 0 = .ok sector ∧
        ((openImage fives true).run earlier).readSector 0 = .ok sector := by
  have inRange : ∀ byte, 0 + (sectorOf byte).length ≤ fives.base.length := by
    intro byte
    rw [length_fives, sectorOf, length_replicate]
    decide
  have safe : SafeRun (openImage fives true) savedRun :=
    .cons ⟨inRange 1, trivial⟩ <| .cons ⟨trivial, show Files.saved _ = ∅ by decide +kernel⟩ <|
      .cons ⟨inRange 2, trivial⟩ <| .cons ⟨trivial, trivial⟩ <| .cons ⟨inRange 3, trivial⟩ <|
      .cons ⟨show 0 + 512 ≤ fives.base.length by rw [length_fives]; decide, trivial⟩ .nil
  refine ⟨by decide +kernel, ?_⟩
  exact (crash_recovers_shown fives true (by rw [length_fives]; decide) (by rw [length_fives]; decide)
    (fun _ member => absurd member (notMem_empty _)) savedRun safe).2 0
    (by rw [length_fives]; decide)

/-- A commit after a flush: the sidecar still lists the sector, the overlay is empty. Mounted
again the sector cannot be read; once another sector was written it is a hole of zeroes. It
is the same after the import of an overlay. -/
theorem commit_strands_sidecar :
    ((openImage fives true).run [.write 0 (sectorOf 1), .flush .ascending,
        .commit .ascending]).reopen.readSector 0 = .error .unexpectedEof ∧
      ((openImage fives true).run [.write 0 (sectorOf 1), .flush .ascending,
        .commit .ascending, .write 512 (sectorOf 2)]).reopen.readSector 0 = .ok (sectorOf 0) ∧
      ((openImage fives true).run [.write 0 (sectorOf 1), .flush .ascending,
        .importOverlay none []]).reopen.readSector 0 = .error .unexpectedEof := by
  refine ⟨?_, ?_, ?_⟩ <;> decide +kernel

end Iris.Block
