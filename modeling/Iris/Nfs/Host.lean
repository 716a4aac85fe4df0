import Mathlib.Data.List.Nodup
import Mathlib.Data.List.Induction

/-!
Owns the host's file system as the NFS server uses it: files and directories in a tree of
paths below the exported folder, and the host calls that create, remove and rename them. An
object keeps its identity wherever it is moved.
-/

namespace Iris.Nfs

open List

abbrev Name := List (BitVec 8)

/-- A path relative to the exported folder, which itself has the empty one. -/
abbrev Path := List Name

inductive ObjectKind
  | file
  | dir
deriving DecidableEq, Repr

structure Object where
  number : Nat
  kind : ObjectKind
deriving DecidableEq, Repr

/-- What is where. New objects are numbered from `next`. -/
structure HostFs where
  entries : List (Path × Object)
  next : Nat

namespace HostFs
variable (fs : HostFs) (path : Path)

/-- The object at a path: `symlink_metadata`. -/
def find : Option Object :=
  (fs.entries.find? fun entry => entry.1 = path).map Prod.snd

def isDir : Bool :=
  (fs.find path).any fun object => object.kind = .dir

def isEmpty : Bool :=
  fs.entries.all fun entry => entry.1 = path ∨ ¬path <+: entry.1

def add (kind : ObjectKind) : HostFs :=
  { entries := (path, ⟨fs.next, kind⟩) :: fs.entries, next := fs.next + 1 }

def drop : HostFs :=
  { fs with entries := fs.entries.filter fun entry => entry.1 ≠ path }

/-- Open for writing, creating the file or truncating the one there. -/
def createFile : Option HostFs :=
  if !fs.isDir path.dropLast then none
  else
    match fs.find path with
    | none => some (fs.add path .file)
    | some object => if object.kind = .dir then none else some fs

def createDir : Option HostFs :=
  if fs.isDir path.dropLast ∧ fs.find path = none then some (fs.add path .dir) else none

def removeFile : Option HostFs :=
  match fs.find path with
  | none => none
  | some object => if object.kind = .dir then none else some (fs.drop path)

def removeDir : Option HostFs :=
  if fs.isDir path ∧ fs.isEmpty path then some (fs.drop path) else none

/-- Everything at and below `source` goes to `target`, whose own entry is replaced. -/
def move (source target : Path) : HostFs :=
  { fs with
    entries := (fs.entries.filter fun entry => entry.1 ≠ target).map fun entry =>
      if source <+: entry.1 then (target ++ entry.1.drop source.length, entry.2) else entry }

/-- A file may take the place of a file, and a directory that of an empty directory. No
directory goes below itself. -/
def rename (source target : Path) : Option HostFs :=
  match fs.find source with
  | none => none
  | some object =>
    if !fs.isDir target.dropLast then none
    else if source = target then some fs
    else if source <+: target then none
    else
      match fs.find target with
      | none => some (fs.move source target)
      | some old =>
        if old.kind ≠ object.kind ∨ !fs.isEmpty target then none
        else some (fs.move source target)

end HostFs

/-! ### Well-formed trees -/

namespace HostFs
variable {fs : HostFs} {path : Path} {object : Object}

/-- One object a path, one path an object, and every object in a directory. -/
structure WellFormed (fs : HostFs) : Prop where
  paths : (fs.entries.map Prod.fst).Nodup
  objects : (fs.entries.map Prod.snd).Nodup
  old : ∀ entry ∈ fs.entries, entry.2.number < fs.next
  root : ∃ object, ([], object) ∈ fs.entries ∧ object.kind = .dir
  inDir : ∀ path object, (path, object) ∈ fs.entries → path ≠ [] →
    ∃ dir, (path.dropLast, dir) ∈ fs.entries ∧ dir.kind = .dir

theorem find_eq_some (wellFormed : fs.WellFormed) :
    fs.find path = some object ↔ (path, object) ∈ fs.entries := by
  rw [find, Option.map_eq_some_iff]
  constructor
  · rintro ⟨⟨place, found⟩, first, rfl⟩
    have here := find?_some first
    rw [decide_eq_true_eq] at here
    exact here ▸ mem_of_find?_eq_some first
  · intro member
    cases first : fs.entries.find? fun entry => entry.1 = path with
    | none =>
      have absent := find?_eq_none.mp first (path, object) member
      exact absurd (decide_eq_true rfl) absent
    | some entry =>
      have here := find?_some first
      rw [decide_eq_true_eq] at here
      refine ⟨entry, rfl, ?_⟩
      have same := inj_on_of_nodup_map wellFormed.paths (mem_of_find?_eq_some first) member here
      rw [same]

theorem find_eq_none : fs.find path = none ↔ ∀ object, (path, object) ∉ fs.entries := by
  rw [find, Option.map_eq_none_iff, find?_eq_none]
  constructor
  · intro absent object member
    exact absent _ member (by simp)
  · rintro absent ⟨place, object⟩ member here
    rw [decide_eq_true_eq] at here
    obtain rfl := here
    exact absent object member

theorem isDir_iff (wellFormed : fs.WellFormed) :
    fs.isDir path = true ↔ ∃ object, (path, object) ∈ fs.entries ∧ object.kind = .dir := by
  rw [isDir, Option.any_eq_true]
  simp only [find_eq_some wellFormed, decide_eq_true_eq]

theorem isEmpty_iff :
    fs.isEmpty path = true ↔
      ∀ place object, (place, object) ∈ fs.entries → path <+: place → place = path := by
  rw [isEmpty, all_eq_true]
  constructor
  · intro all place object member below
    have here := all _ member
    rw [decide_eq_true_eq] at here
    exact here.resolve_right fun outside => outside below
  · rintro all ⟨place, object⟩ member
    rw [decide_eq_true_eq]
    by_cases below : path <+: place
    · exact .inl (all place object member below)
    · exact .inr below

/-! ### Adding, dropping and moving -/

theorem add_wellFormed (wellFormed : fs.WellFormed) (free : fs.find path = none)
    (parent : fs.isDir path.dropLast = true) : (fs.add path kind).WellFormed := by
  constructor
  case paths =>
    refine nodup_cons.mpr ⟨fun there => ?_, wellFormed.paths⟩
    obtain ⟨⟨place, object⟩, member, rfl⟩ := mem_map.mp there
    exact find_eq_none.mp free object member
  case objects =>
    refine nodup_cons.mpr ⟨fun member => ?_, wellFormed.objects⟩
    obtain ⟨entry, member, same⟩ := mem_map.mp member
    have old := wellFormed.old entry member
    rw [same] at old
    exact Nat.lt_irrefl _ old
  case old =>
    intro entry member
    rcases mem_cons.mp member with rfl | member
    · exact Nat.lt_succ_self _
    · exact Nat.lt_succ_of_lt (wellFormed.old entry member)
  case root =>
    obtain ⟨object, member, isDir⟩ := wellFormed.root
    exact ⟨object, mem_cons_of_mem _ member, isDir⟩
  case inDir =>
    intro place object member below
    have above : ∃ dir, (place.dropLast, dir) ∈ fs.entries ∧ dir.kind = .dir := by
      rcases mem_cons.mp member with same | member
      · obtain ⟨rfl, -⟩ := Prod.mk.inj same
        exact (isDir_iff wellFormed).mp parent
      · exact wellFormed.inDir place object member below
    obtain ⟨dir, member, isDir⟩ := above
    exact ⟨dir, mem_cons_of_mem _ member, isDir⟩

theorem mem_drop : entry ∈ (fs.drop path).entries ↔ entry ∈ fs.entries ∧ entry.1 ≠ path := by
  rw [drop, mem_filter, decide_eq_true_eq]

theorem drop_wellFormed (wellFormed : fs.WellFormed) (below : path ≠ [])
    (empty : fs.isEmpty path = true) : (fs.drop path).WellFormed := by
  have sub : (fs.drop path).entries.Sublist fs.entries := filter_sublist
  constructor
  case paths => exact (sub.map _).nodup wellFormed.paths
  case objects => exact (sub.map _).nodup wellFormed.objects
  case old => exact fun entry member => wellFormed.old entry (sub.subset member)
  case root =>
    obtain ⟨object, member, isDir⟩ := wellFormed.root
    exact ⟨object, mem_drop.mpr ⟨member, below.symm⟩, isDir⟩
  case inDir =>
    intro place object member inside
    obtain ⟨member, other⟩ := mem_drop.mp member
    obtain ⟨dir, above, isDir⟩ := wellFormed.inDir place object member inside
    refine ⟨dir, mem_drop.mpr ⟨above, fun same => ?_⟩, isDir⟩
    have under : path <+: place := same ▸ dropLast_prefix place
    exact other (isEmpty_iff.mp empty place object member under)

/-- Where a path goes when `source` becomes `target`. -/
def relocate (source target place : Path) : Path :=
  if source <+: place then target ++ place.drop source.length else place

theorem relocate_append (source target rest : Path) :
    relocate source target (source ++ rest) = target ++ rest := by
  rw [relocate, if_pos (prefix_append _ _), drop_left]

variable {after : HostFs} {source target : Path}

theorem relocate_outside {place : Path} (outside : ¬source <+: place) :
    relocate source target place = place := if_neg outside

theorem move_entries : (fs.move source target).entries =
    (fs.entries.filter fun entry => entry.1 ≠ target).map fun entry =>
      (relocate source target entry.1, entry.2) := by
  refine map_congr_left fun entry _ => ?_
  dsimp only [relocate]
  split <;> rfl

theorem mem_move :
    entry ∈ (fs.move source target).entries ↔
      ∃ place, (place, entry.2) ∈ fs.entries ∧ place ≠ target ∧
        relocate source target place = entry.1 := by
  rw [move_entries, mem_map]
  constructor
  · rintro ⟨⟨place, object⟩, member, rfl⟩
    obtain ⟨member, other⟩ := mem_filter.mp member
    exact ⟨place, member, of_decide_eq_true other, rfl⟩
  · rintro ⟨place, member, other, lands⟩
    exact ⟨(place, entry.2), mem_filter.mpr ⟨member, decide_eq_true other⟩, Prod.ext lands rfl⟩

/-- Nothing is moved onto an entry that stays. -/
theorem relocate_injective (empty : fs.isEmpty target = true)
    (member : (place, object) ∈ fs.entries) (member' : (other, object') ∈ fs.entries)
    (kept : place ≠ target) (kept' : other ≠ target)
    (same : relocate source target place = relocate source target other) : place = other := by
  have apart {rest stays : Path} {object : Object} (member : (stays, object) ∈ fs.entries)
      (kept : stays ≠ target) : target ++ rest ≠ stays := by
    rintro rfl
    exact kept (isEmpty_iff.mp empty _ object member (prefix_append _ _))
  by_cases moved : source <+: place
  · obtain ⟨rest, rfl⟩ := moved
    rw [relocate_append] at same
    by_cases moved' : source <+: other
    · obtain ⟨rest', rfl⟩ := moved'
      rw [relocate_append] at same
      rw [append_cancel_left same]
    · rw [relocate_outside moved'] at same
      exact absurd same (apart member' kept')
  · rw [relocate_outside moved] at same
    by_cases moved' : source <+: other
    · obtain ⟨rest', rfl⟩ := moved'
      rw [relocate_append] at same
      exact absurd same.symm (apart member kept)
    · rwa [relocate_outside moved'] at same

theorem move_wellFormed (wellFormed : fs.WellFormed) (from_ : source ≠ []) (to_ : target ≠ [])
    (parent : fs.isDir target.dropLast = true) (apart : ¬source <+: target)
    (empty : fs.isEmpty target = true) : (fs.move source target).WellFormed := by
  have sub : (fs.entries.filter fun entry => entry.1 ≠ target).Sublist fs.entries :=
    filter_sublist
  constructor
  case paths =>
    rw [move_entries, map_map]
    refine Nodup.map_on ?_ (Nodup.of_map _ ((sub.map _).nodup wellFormed.paths))
    rintro ⟨place, object⟩ member ⟨other, object'⟩ member' same
    obtain ⟨member, stays⟩ := mem_filter.mp member
    obtain ⟨member', stays'⟩ := mem_filter.mp member'
    have equal := relocate_injective empty member member' (of_decide_eq_true stays)
      (of_decide_eq_true stays') same
    exact inj_on_of_nodup_map wellFormed.paths member member' equal
  case objects =>
    rw [move_entries, map_map]
    exact (sub.map _).nodup wellFormed.objects
  case old =>
    rintro ⟨there, object⟩ member
    obtain ⟨place, member, -, -⟩ := mem_move.mp member
    exact wellFormed.old (place, object) member
  case root =>
    obtain ⟨object, member, isDir⟩ := wellFormed.root
    refine ⟨object, mem_move.mpr ⟨[], member, to_.symm, relocate_outside fun below => ?_⟩, isDir⟩
    exact from_ (prefix_nil.mp below)
  case inDir =>
    rintro there object landed inside
    obtain ⟨place, member, stays, rfl⟩ := mem_move.mp landed
    by_cases moved : source <+: place
    · obtain ⟨rest, rfl⟩ := moved
      rw [relocate_append]
      by_cases top : rest = []
      · subst top
        -- The moved object itself: its new directory is not moved.
        rw [append_nil]
        obtain ⟨dir, above, isDir⟩ := (isDir_iff wellFormed).mp parent
        refine ⟨dir, mem_move.mpr ⟨_, above, ?_, relocate_outside fun below => ?_⟩, isDir⟩
        · intro same
          have shorter := congrArg length same
          rw [length_dropLast] at shorter
          have := length_pos_of_ne_nil to_
          omega
        · exact apart (below.trans (List.dropLast_prefix target))
      · -- Below it: its directory moves along.
        obtain ⟨dir, above, isDir⟩ := wellFormed.inDir _ object member (by simp [top])
        rw [dropLast_append_of_ne_nil top] at above
        refine ⟨dir, mem_move.mpr ⟨_, above, ?_, ?_⟩, isDir⟩
        · rintro rfl
          exact apart (prefix_append _ _)
        · rw [relocate_append, dropLast_append_of_ne_nil top]
    · rw [relocate_outside moved] at inside ⊢
      obtain ⟨dir, above, isDir⟩ := wellFormed.inDir place object member inside
      refine ⟨dir, mem_move.mpr ⟨_, above, ?_, relocate_outside fun below => ?_⟩, isDir⟩
      · rintro rfl
        exact stays (isEmpty_iff.mp empty place object member (List.dropLast_prefix place))
      · exact moved (below.trans (List.dropLast_prefix place))

theorem above_isDir (wellFormed : fs.WellFormed) (member : (place, object) ∈ fs.entries)
    (below : path <+: place) (strict : path ≠ place) :
    ∃ dir, (path, dir) ∈ fs.entries ∧ dir.kind = .dir := by
  induction place using reverseRecOn generalizing object with
  | nil => exact absurd (prefix_nil.mp below) strict
  | append_singleton parent name inductionHypothesis =>
    obtain ⟨dir, above, isDir⟩ := wellFormed.inDir _ object member (by simp)
    rw [dropLast_concat] at above
    rcases prefix_concat_iff.mp below with same | below
    · exact absurd same strict
    · by_cases here : path = parent
      · exact here ▸ ⟨dir, above, isDir⟩
      · exact inductionHypothesis above below here

theorem isEmpty_of_not_isDir (wellFormed : fs.WellFormed) (plain : ¬fs.isDir path = true) :
    fs.isEmpty path = true := by
  refine isEmpty_iff.mpr fun place object member below => ?_
  by_contra strict
  exact plain ((isDir_iff wellFormed).mpr (above_isDir wellFormed member below (Ne.symm strict)))

/-! ### What the host calls do -/

theorem createFile_cases (made : fs.createFile path = some after) :
    fs.isDir path.dropLast = true ∧ ((fs.find path = none ∧ after = fs.add path .file) ∨
      ((fs.find path).isSome = true ∧ after = fs)) := by
  rw [createFile] at made
  split at made
  · cases made
  next parent =>
    refine ⟨by simpa using parent, ?_⟩
    split at made
    next free => exact .inl ⟨free, (Option.some.inj made).symm⟩
    next object found =>
      split at made
      · cases made
      · exact .inr ⟨by rw [found]; rfl, (Option.some.inj made).symm⟩

theorem createDir_cases (made : fs.createDir path = some after) :
    fs.isDir path.dropLast = true ∧ fs.find path = none ∧ after = fs.add path .dir := by
  rw [createDir] at made
  split at made
  next allowed => exact ⟨allowed.1, allowed.2, (Option.some.inj made).symm⟩
  · cases made

theorem removeFile_cases (wellFormed : fs.WellFormed) (gone : fs.removeFile path = some after) :
    fs.isEmpty path = true ∧ after = fs.drop path := by
  rw [removeFile] at gone
  split at gone
  · cases gone
  next object found =>
    split at gone
    · cases gone
    next file =>
      exact ⟨isEmpty_of_not_isDir wellFormed (by simp [isDir, found, file]),
        (Option.some.inj gone).symm⟩

theorem removeDir_cases (gone : fs.removeDir path = some after) :
    fs.isEmpty path = true ∧ after = fs.drop path := by
  rw [removeDir] at gone
  split at gone
  next allowed => exact ⟨allowed.2, (Option.some.inj gone).symm⟩
  · cases gone

theorem rename_cases (wellFormed : fs.WellFormed) (renamed : fs.rename source target = some after) :
    fs.isDir target.dropLast = true ∧ ((source = target ∧ after = fs) ∨
      (¬source <+: target ∧ fs.isEmpty target = true ∧ after = fs.move source target)) := by
  rw [rename] at renamed
  split at renamed
  · cases renamed
  next object found =>
    split at renamed
    · cases renamed
    next parent =>
      refine ⟨by simpa using parent, ?_⟩
      split at renamed
      next same => exact .inl ⟨same, (Option.some.inj renamed).symm⟩
      · split at renamed
        · cases renamed
        next apart =>
          split at renamed
          next free =>
            exact .inr ⟨apart, isEmpty_of_not_isDir wellFormed (by simp [isDir, free]),
              (Option.some.inj renamed).symm⟩
          · split at renamed
            · cases renamed
            next allowed =>
              rw [not_or] at allowed
              exact .inr ⟨apart, by simpa using allowed.2, (Option.some.inj renamed).symm⟩

end HostFs

end Iris.Nfs
