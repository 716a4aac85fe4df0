import Iris.Library.Inverse
import Iris.Library.Run
import Iris.Nfs.Host

/-!
Owns the NFS server's backing store: the two tables between file handles and paths, the calls
that read and change them, and when the tables stay inverse to each other.
-/

namespace Iris.Nfs

open Function

def rootId : Nat := 2

/-- The tables between file handles and paths, each a map that may lack a key. -/
structure NfsBacking where
  nextId : Nat
  idToPath : Nat → Option Path
  pathToId : Path → Option Nat

def dot : Name := [0x2e]

def dotDot : Name := [0x2e, 0x2e]

/-- A single component off the wire: not empty, no `.` or `..`, no separator and no NUL. -/
def validComponent (name : Name) : Bool :=
  !(name = [] ∨ name = dot ∨ name = dotDot) && name.all fun b => b ≠ 0x2f ∧ b ≠ 0x5c ∧ b ≠ 0

namespace NfsBacking

def new : NfsBacking where
  nextId := rootId + 1
  idToPath := update (fun _ => none) rootId (some [])
  pathToId := update (fun _ => none) [] (some rootId)

variable (b : NfsBacking)

/-- The handle of a path, a new one if it has none. -/
def intern (rel : Path) : Nat × NfsBacking :=
  match b.pathToId rel with
  | some id => (id, b)
  | none =>
    (b.nextId,
      { nextId := b.nextId + 1
        idToPath := update b.idToPath b.nextId (some rel)
        pathToId := update b.pathToId rel (some b.nextId) })

def resolve (fs : HostFs) (id : Nat) : Option Object := (b.idToPath id).bind fs.find

/-- The path of a child, if the directory's handle is known and the name is a component. -/
def childPath (dirid : Nat) (name : Name) : Option Path :=
  if !validComponent name then none
  else (b.idToPath dirid).map fun dir => dir ++ [name]

/-- The handle of the parent, clamped at the export root. -/
def parentId (id : Nat) : Option Nat × NfsBacking :=
  match b.idToPath id with
  | none => (none, b)
  | some rel =>
    if rel = [] then (some rootId, b)
    else
      let (parent, b) := b.intern rel.dropLast
      (some parent, b)

def lookup (fs : HostFs) (dirid : Nat) (name : Name) : Option Nat × NfsBacking :=
  if name = dot ∨ name = dotDot then
    if !(b.idToPath dirid).any fs.isDir then (none, b)
    else if name = dot then (some dirid, b)
    else b.parentId dirid
  else
    match b.childPath dirid name with
    | none => (none, b)
    | some rel =>
      if fs.find rel = none then (none, b)
      else
        let (id, b) := b.intern rel
        (some id, b)

/-- Intern one listed name, unless it would not round-trip as a component. -/
def internEntry (dir : Path) (out : List (Name × Nat) × NfsBacking) (name : Name) :
    List (Name × Nat) × NfsBacking :=
  if !validComponent name then out
  else
    let (id, b) := out.2.intern (dir ++ [name])
    (out.1 ++ [(name, id)], b)

/-- List a directory, `.` and `..` first. The host lists it in an order of its own and may
fail on the way: `listing` is what it lists before that. -/
def readdir (fs : HostFs) (dirid : Nat) (listing : List Name) (failed : Bool) :
    Option (List (Name × Nat)) × NfsBacking :=
  match b.idToPath dirid with
  | none => (none, b)
  | some dir =>
    match b.parentId dirid with
    | (none, b) => (none, b)
    | (some parent, b) =>
      if !fs.isDir dir then (none, b)
      else
        let listed := listing.filter fun name => (fs.find (dir ++ [name])).isSome
        let (out, b) := listed.foldl (internEntry dir) ([], b)
        if failed then (none, b)
        else
          let all := (dot, dirid) :: (dotDot, parent) :: out
          (some (all.filter fun entry => (b.resolve fs entry.2).isSome), b)

def forget (rel : Path) : NfsBacking :=
  match b.pathToId rel with
  | none => b
  | some id =>
    { b with
      idToPath := update b.idToPath id none
      pathToId := update b.pathToId rel none }

/-- Re-point the moved handle at its new path. -/
def repoint (source target : Path) : NfsBacking :=
  match b.pathToId source with
  | none => b
  | some id =>
    { b with
      idToPath := update b.idToPath id (some target)
      pathToId := update (update b.pathToId source none) target (some id) }

end NfsBacking

/-! ### Calls -/

/-- The export: the host's folder and the server's tables. -/
structure Share where
  fs : HostFs
  backing : NfsBacking

/-- The calls of a client. The host may refuse a change (`permitted`) whatever the paths are. -/
inductive Call
  | lookup (dir : Nat) (name : Name)
  | readdir (dir : Nat) (listing : List Name) (failed : Bool)
  | create (dir : Nat) (name : Name) (permitted : Bool)
  | mkdir (dir : Nat) (name : Name) (permitted : Bool)
  | remove (dir : Nat) (name : Name) (permitted : Bool)
  | rmdir (dir : Nat) (name : Name) (permitted : Bool)
  | rename (fromDir : Nat) (fromName : Name) (toDir : Nat) (toName : Name) (permitted : Bool)

namespace Share
variable (share : Share)

/-- Make a child with a host call: CREATE and MKDIR. -/
def make (host : HostFs → Path → Option HostFs) (dir : Nat) (name : Name) (permitted : Bool) :
    Option Nat × Share :=
  match share.backing.childPath dir name with
  | none => (none, share)
  | some rel =>
    match if permitted then host share.fs rel else none with
    | none => (none, share)
    | some fs =>
      let (id, backing) := share.backing.intern rel
      (some id, { fs, backing })

def create := share.make HostFs.createFile

def mkdir := share.make HostFs.createDir

def removeWith (host : HostFs → Path → Option HostFs) (dir : Nat) (name : Name)
    (permitted : Bool) : Bool × Share :=
  match share.backing.childPath dir name with
  | none => (false, share)
  | some rel =>
    match if permitted then host share.fs rel else none with
    | none => (false, share)
    | some fs => (true, { fs, backing := share.backing.forget rel })

def remove := share.removeWith HostFs.removeFile

def rmdir := share.removeWith HostFs.removeDir

def renamePaths (fromDir : Nat) (fromName : Name) (toDir : Nat) (toName : Name) :
    Option (Path × Path) :=
  match share.backing.childPath fromDir fromName, share.backing.childPath toDir toName with
  | some source, some target => some (source, target)
  | _, _ => none

/-- The paths of a rename that the host makes, and its file system after it. -/
def renames (fromDir : Nat) (fromName : Name) (toDir : Nat) (toName : Name) (permitted : Bool) :
    Option (Path × Path × HostFs) :=
  match share.renamePaths fromDir fromName toDir toName with
  | none => none
  | some (source, target) =>
    (if permitted then share.fs.rename source target else none).map fun fs => (source, target, fs)

def rename (fromDir : Nat) (fromName : Name) (toDir : Nat) (toName : Name) (permitted : Bool) :
    Bool × Share :=
  match share.renames fromDir fromName toDir toName permitted with
  | none => (false, share)
  | some (source, target, fs) => (true, { fs, backing := share.backing.repoint source target })

def step : Call → Share
  | .lookup dir name => { share with backing := (share.backing.lookup share.fs dir name).2 }
  | .readdir dir listing failed =>
    { share with backing := (share.backing.readdir share.fs dir listing failed).2 }
  | .create dir name permitted => (share.create dir name permitted).2
  | .mkdir dir name permitted => (share.mkdir dir name permitted).2
  | .remove dir name permitted => (share.remove dir name permitted).2
  | .rmdir dir name permitted => (share.rmdir dir name permitted).2
  | .rename fromDir fromName toDir toName permitted =>
    (share.rename fromDir fromName toDir toName permitted).2

end Share

/-! ### The tables are inverse -/

namespace NfsBacking
variable {b : NfsBacking}

/-- The two tables hold the same pairs, and the handles to come are in neither. -/
structure Consistent (b : NfsBacking) : Prop where
  pairs : Library.Inverse b.idToPath b.pathToId
  known : ∀ id path, b.idToPath id = some path → id < b.nextId

theorem new_consistent : new.Consistent := by
  constructor
  · exact Library.Inverse.empty.bind rfl rfl
  intro id path pair
  rw [new] at pair
  dsimp only at pair
  by_cases isRoot : id = rootId
  · subst isRoot
    decide
  · rw [update_of_ne isRoot] at pair
    cases pair

section
variable (inv : b.Consistent)
include inv

theorem Consistent.fresh : b.idToPath b.nextId = none := by
  by_contra taken
  obtain ⟨path, pair⟩ := Option.ne_none_iff_exists'.mp taken
  exact Nat.lt_irrefl _ (inv.known _ _ pair)

theorem intern_consistent : (b.intern rel).2.Consistent := by
  rw [intern]
  split
  · exact inv
  next free =>
    refine ⟨inv.pairs.bind inv.fresh free, fun id path pair => ?_⟩
    dsimp only at pair ⊢
    by_cases new : id = b.nextId
    · omega
    · rw [update_of_ne new] at pair
      exact Nat.lt_succ_of_lt (inv.known id path pair)

end

/-! ### What interning keeps, the calls that read keep -/

section
variable {P : NfsBacking → Prop} {there : Path → Prop}
  (closed : ∀ b rel, there rel → P b → P (b.intern rel).2)
include closed

theorem internEntry_keeps (holds : P out.2) (listed : there (dir ++ [name])) :
    P (internEntry dir out name).2 := by
  rw [internEntry]
  split
  · exact holds
  · exact closed _ _ listed holds

theorem internAll_keeps {dir : Path} {names : List Name}
    (listed : ∀ name ∈ names, there (dir ++ [name])) {out : List (Name × Nat) × NfsBacking}
    (holds : P out.2) : P (names.foldl (internEntry dir) out).2 :=
  @List.foldlRecOn _ _ (fun out => P out.2) names _ out holds fun _ holds name member =>
    internEntry_keeps closed holds (listed name member)

variable (holds : P b) {fs : HostFs} {dir : Nat}
  (parent : ∀ rel, b.idToPath dir = some rel → rel ≠ [] → there rel.dropLast)
include holds parent

theorem parentId_keeps : P (b.parentId dir).2 := by
  rw [parentId]
  split
  · exact holds
  next rel pair =>
    split
    · exact holds
    next below => exact closed b _ (parent rel pair below) holds

variable (found : ∀ rel, fs.find rel ≠ none → there rel)
include found

theorem lookup_keeps (name : Name) : P (b.lookup fs dir name).2 := by
  rw [lookup]
  split
  · split
    · exact holds
    · split
      · exact holds
      · exact parentId_keeps closed holds parent
  · split
    · exact holds
    next rel _ =>
      split
      · exact holds
      next there => exact closed b rel (found rel there) holds

theorem readdir_keeps (listing : List Name) {failed : Bool} :
    P (b.readdir fs dir listing failed).2 := by
  rw [readdir]
  split
  · exact holds
  have known := parentId_keeps closed holds parent
  generalize b.parentId dir = pair at known
  obtain ⟨parent, after⟩ := pair
  cases parent with
  | none => exact known
  | some parent =>
    dsimp only
    split
    · exact known
    · split <;> exact internAll_keeps closed (fun name member => found _
        (Option.isSome_iff_ne_none.mp (List.mem_filter.mp member).2)) known

end

theorem interns_consistent (b : NfsBacking) (rel : Path) (_ : True) (inv : b.Consistent) :
    (b.intern rel).2.Consistent := intern_consistent inv

theorem forget_consistent (inv : b.Consistent) : (b.forget rel).Consistent := by
  rw [forget]
  split
  · exact inv
  next removed pair =>
    refine ⟨inv.pairs.unbind pair, fun id path kept => ?_⟩
    dsimp only at kept
    by_cases gone : id = removed
    · rw [gone, update_self] at kept
      cases kept
    · rw [update_of_ne gone] at kept
      exact inv.known id path kept

/-- A handle that is moved takes a path no other handle has. -/
theorem repoint_consistent (inv : b.Consistent)
    (free : (b.pathToId source).isSome = true → source ≠ target → b.pathToId target = none) :
    (b.repoint source target).Consistent := by
  rw [repoint]
  split
  · exact inv
  next id pair =>
    have freePath : update b.pathToId source none target = none := by
      by_cases same : target = source
      · rw [same, update_self]
      · rw [update_of_ne same]
        exact free (by rw [pair]; rfl) (Ne.symm same)
    have moved := (inv.pairs.unbind pair).bind (update_self id none b.idToPath)
      freePath
    rw [update_idem] at moved
    refine ⟨moved, fun other path kept => ?_⟩
    dsimp only at kept
    by_cases same : other = id
    · exact same ▸ inv.known id source ((inv.pairs id source).mpr pair)
    · rw [update_of_ne same] at kept
      exact inv.known other path kept

end NfsBacking

namespace Share
open Library.Run NfsBacking
variable {share : Share}

section
variable (inv : share.backing.Consistent) (host : HostFs → Path → Option HostFs) (dir : Nat)
  (name : Name) (permitted : Bool)
include inv

theorem make_consistent : (share.make host dir name permitted).2.backing.Consistent := by
  rw [make]
  split
  · exact inv
  · split
    · exact inv
    · exact intern_consistent inv

theorem removeWith_consistent :
    (share.removeWith host dir name permitted).2.backing.Consistent := by
  rw [removeWith]
  split
  · exact inv
  · split
    · exact inv
    · exact forget_consistent inv

end

/-- A rename that succeeds and moves a handle takes a path that no handle has. -/
def TargetFree (share : Share) : Call → Prop
  | .rename fromDir fromName toDir toName permitted =>
    ∀ paths ∈ share.renames fromDir fromName toDir toName permitted,
      (share.backing.pathToId paths.1).isSome = true → paths.1 ≠ paths.2.1 →
        share.backing.pathToId paths.2.1 = none
  | _ => True

instance (share : Share) : ∀ call, Decidable (share.TargetFree call)
  | .rename .. => inferInstanceAs (Decidable (∀ paths ∈ share.renames _ _ _ _ _, _))
  | .lookup .. | .readdir .. | .create .. | .mkdir .. | .remove .. | .rmdir .. => isTrue trivial

theorem step_consistent (inv : share.backing.Consistent) (free : share.TargetFree call) :
    (share.step call).backing.Consistent := by
  cases call with
  | lookup dir name =>
    exact lookup_keeps interns_consistent inv (fun _ _ _ => trivial) (fun _ _ => trivial) _
  | readdir dir listing failed =>
    exact readdir_keeps interns_consistent inv (fun _ _ _ => trivial)
      (fun _ _ => trivial) _
  | create dir name permitted | mkdir dir name permitted => exact make_consistent inv _ _ _ _
  | remove dir name permitted | rmdir dir name permitted => exact removeWith_consistent inv _ _ _ _
  | rename fromDir fromName toDir toName permitted =>
    rw [step, rename]
    cases renamed : share.renames fromDir fromName toDir toName permitted with
    | none => exact inv
    | some paths => exact repoint_consistent inv (free paths renamed)

theorem run_consistent (inv : share.backing.Consistent) (free : Along step TargetFree share calls) :
    (calls.foldl step share).backing.Consistent :=
  Along.keeps free (fun _ _ before condition => step_consistent before condition) inv

/-- Whatever a client does, as long as no rename lands a known handle on the path of another,
the two tables hold the same pairs. -/
theorem tables_inverse (fs : HostFs) {calls : List Call}
    (free : Along step TargetFree ⟨fs, .new⟩ calls) :
    Library.Inverse (calls.foldl step ⟨fs, .new⟩).backing.idToPath
      (calls.foldl step ⟨fs, .new⟩).backing.pathToId :=
  (run_consistent new_consistent free).pairs

def twoFiles : HostFs where
  entries := [([], ⟨0, .dir⟩), ([[0x61]], ⟨1, .file⟩), ([[0x62]], ⟨2, .file⟩)]
  next := 3

/-- A looked-up file is renamed to a new name. -/
theorem renamed_inverse :
    Along step TargetFree ⟨twoFiles, .new⟩
      [.lookup 2 [0x61], .lookup 2 [0x62], .rename 2 [0x61] 2 [0x63] true] ∧
    Library.Inverse
      ([Call.lookup 2 [0x61], .lookup 2 [0x62], .rename 2 [0x61] 2 [0x63] true].foldl step
        ⟨twoFiles, .new⟩).backing.idToPath
      ([Call.lookup 2 [0x61], .lookup 2 [0x62], .rename 2 [0x61] 2 [0x63] true].foldl step
        ⟨twoFiles, .new⟩).backing.pathToId :=
  ⟨by decide +kernel, tables_inverse twoFiles (by decide +kernel)⟩

/-- A looked-up file is renamed onto another: both handles are left with its path. -/
theorem renamed_onto_shares_path :
    ([Call.lookup 2 [0x61], .lookup 2 [0x62], .rename 2 [0x61] 2 [0x62] true].foldl step
        ⟨twoFiles, .new⟩).backing.idToPath 3 = some [[0x62]] ∧
    ([Call.lookup 2 [0x61], .lookup 2 [0x62], .rename 2 [0x61] 2 [0x62] true].foldl step
        ⟨twoFiles, .new⟩).backing.idToPath 4 = some [[0x62]] ∧
    ([Call.lookup 2 [0x61], .lookup 2 [0x62], .rename 2 [0x61] 2 [0x62] true].foldl step
        ⟨twoFiles, .new⟩).backing.pathToId [[0x62]] = some 3 := by
  decide +kernel

end Share

end Iris.Nfs
