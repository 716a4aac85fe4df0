import Iris.Nfs.Backing

/-!
Owns what a file handle stands for: once handed out it resolves to its object, wherever that
is moved, until the object is removed, and to nothing after that, as long as no rename moves
a directory with known handles below it or replaces an object with a known handle.
-/

namespace Iris.Nfs

open Library.Run HostFs Option
open Function (update_apply update_eq_self_iff update_of_ne update_self)

variable {id : Nat} {object : Object}

namespace HostFs

def Live (fs : HostFs) (object : Object) : Prop := ∃ path, (path, object) ∈ fs.entries

end HostFs

variable {rel : Path}

namespace NfsBacking
variable {b after later : NfsBacking} {fs : HostFs}

/-- The handles that were there are as they were, and new ones have paths that exist. -/
structure Grown (fs : HostFs) (b after : NfsBacking) : Prop where
  next : b.nextId ≤ after.nextId
  old : ∀ id < b.nextId, after.idToPath id = b.idToPath id
  new : ∀ id path, after.idToPath id = some path →
    b.idToPath id = some path ∨ ∃ object, (path, object) ∈ fs.entries

theorem Grown.refl : Grown fs b b := ⟨Nat.le_refl _, fun _ _ => rfl, fun _ _ pair => .inl pair⟩

theorem Grown.trans (one : Grown fs b after) (two : Grown fs after later) : Grown fs b later := by
  refine ⟨Nat.le_trans one.next two.next, fun id known => ?_, fun id path pair => ?_⟩
  · rw [two.old id (Nat.lt_of_lt_of_le known one.next), one.old id known]
  · rcases two.new id path pair with pair | there
    · exact one.new id path pair
    · exact .inr there

theorem intern_old (known : id < b.nextId) : (b.intern rel).2.idToPath id = b.idToPath id := by
  rw [intern]
  split
  · rfl
  · exact update_of_ne (Nat.ne_of_lt known) _ _

theorem intern_nextId : b.nextId ≤ (b.intern rel).2.nextId := by
  rw [intern]
  split
  · exact Nat.le_refl _
  · exact Nat.le_succ _

theorem intern_grown (there : ∃ object, (rel, object) ∈ fs.entries) :
    Grown fs b (b.intern rel).2 := by
  refine ⟨intern_nextId, fun id known => intern_old known, fun id path pair => ?_⟩
  rw [intern] at pair
  split at pair
  · exact .inl pair
  dsimp only at pair
  by_cases new : id = b.nextId
  · rw [new, update_self] at pair
    exact .inr (some.inj pair ▸ there)
  · rw [update_of_ne new] at pair
    exact .inl pair

theorem intern_path (inv : b.Consistent) :
    (b.intern rel).2.idToPath (b.intern rel).1 = some rel := by
  rw [intern]
  split
  next id pair => exact (inv.pairs id rel).mpr pair
  · exact update_self _ _ _

/-- Every known handle has a path that exists. -/
def Backed (fs : HostFs) (b : NfsBacking) : Prop :=
  ∀ id path, b.idToPath id = some path → ∃ object, (path, object) ∈ fs.entries

theorem exists_of_find (path : Path) (found : fs.find path ≠ none) :
    ∃ object, (path, object) ∈ fs.entries := by
  by_contra never
  exact found (find_eq_none.mpr fun object member => never ⟨object, member⟩)

theorem interns_grown (after : NfsBacking) (rel : Path)
    (there : ∃ object, (rel, object) ∈ fs.entries) (grown : Grown fs b after) :
    Grown fs b (after.intern rel).2 := grown.trans (intern_grown there)

theorem Backed.parent (wellFormed : fs.WellFormed) (backed : Backed fs b) (id : Nat) (rel : Path)
    (pair : b.idToPath id = some rel) (below : rel ≠ []) :
    ∃ object, (rel.dropLast, object) ∈ fs.entries := by
  obtain ⟨object, member⟩ := backed id rel pair
  obtain ⟨dir, member, -⟩ := wellFormed.inDir rel object member below
  exact ⟨dir, member⟩

end NfsBacking

/-! ### What a call does to the export -/

namespace Share
open NfsBacking
variable {share after : Share}

def resolve (share : Share) (id : Nat) : Option Object := share.backing.resolve share.fs id

/-- A rename that succeeds and moves something takes a path that no handle has, and moves no
path below the renamed one that has a handle. -/
def Undisturbed (share : Share) : Call → Prop
  | .rename fromDir fromName toDir toName permitted =>
    ∀ paths ∈ share.renames fromDir fromName toDir toName permitted, paths.1 ≠ paths.2.1 →
      share.backing.pathToId paths.2.1 = none ∧
        ∀ id < share.backing.nextId, ∀ path ∈ share.backing.idToPath id,
          paths.1 <+: path → path = paths.1
  | _ => True

instance (share : Share) : ∀ call, Decidable (share.Undisturbed call)
  | .rename .. => inferInstanceAs (Decidable (∀ paths ∈ share.renames _ _ _ _ _, _))
  | .lookup .. | .readdir .. | .create .. | .mkdir .. | .remove .. | .rmdir .. => isTrue trivial

/-- What holds between calls: a tree, inverse tables, the root's handle, and handles only for
what exists. -/
structure Bound (share : Share) : Prop where
  wellFormed : share.fs.WellFormed
  consistent : share.backing.Consistent
  root : share.backing.idToPath rootId = some []
  backed : Backed share.fs share.backing

theorem new_bound {fs : HostFs} (wellFormed : fs.WellFormed) : Bound ⟨fs, .new⟩ := by
  refine ⟨wellFormed, new_consistent, rfl, fun id path pair => ?_⟩
  obtain ⟨object, member, -⟩ := wellFormed.root
  rw [new] at pair
  dsimp only at pair
  by_cases isRoot : id = rootId
  · rw [isRoot] at pair
    exact ⟨object, some.inj pair ▸ member⟩
  · rw [update_of_ne isRoot] at pair
    cases pair

/-- Everything a call can do: add an object and handles, remove an object with its handle, or
move a path, and its handle with it, to a path without one. -/
inductive Effect (share after : Share) : Prop
  | grown (kept : ∀ entry ∈ share.fs.entries, entry ∈ after.fs.entries)
      (new : ∀ entry ∈ after.fs.entries, entry ∈ share.fs.entries ∨ share.fs.next ≤ entry.2.number)
      (next : share.fs.next ≤ after.fs.next) (handles : Grown after.fs share.backing after.backing)
  | removed (path : Path) (inside : path ≠ [])
      (is : after = ⟨share.fs.drop path, share.backing.forget path⟩)
  | moved (source target : Path) (inside : source ≠ [])
      (free : share.backing.pathToId target = none)
      (alone : ∀ id path, share.backing.idToPath id = some path → source <+: path → path = source)
      (is : after = ⟨share.fs.move source target, share.backing.repoint source target⟩)

theorem grown_of_handles {backing : NfsBacking} (handles : Grown share.fs share.backing backing) :
    Effect share { share with backing } :=
  .grown (fun _ member => member) (fun _ member => .inl member) (Nat.le_refl _) handles

theorem effect_refl : Effect share share := grown_of_handles .refl

theorem childPath_eq {b : NfsBacking} {dir : Nat} {name : Name}
    (child : b.childPath dir name = some rel) :
    validComponent name = true ∧ ∃ above, b.idToPath dir = some above ∧ rel = above ++ [name] := by
  rw [childPath] at child
  split at child
  · cases child
  next valid =>
    obtain ⟨above, pair, rfl⟩ := map_eq_some_iff.mp child
    exact ⟨by simpa using valid, above, pair, rfl⟩

theorem childPath_ne_nil {b : NfsBacking} {name : Name} (child : b.childPath dir name = some rel) :
    rel ≠ [] := by
  obtain ⟨-, above, -, rfl⟩ := childPath_eq child
  simp

variable {host : HostFs → Path → Option HostFs} {permitted : Bool}

/-- A host call that leaves the tree as it is or adds the object. -/
theorem make_effect (bound : share.Bound)
    (does : ∀ path fs, host share.fs path = some fs → share.fs.isDir path.dropLast = true ∧
      ((share.fs.find path = none ∧ ∃ kind, fs = share.fs.add path kind) ∨
        ((share.fs.find path).isSome = true ∧ fs = share.fs)))
    {dir : Nat} {name : Name} (permitted : Bool) :
    (share.make host dir name permitted).2.fs.WellFormed ∧
      Effect share (share.make host dir name permitted).2 := by
  rw [make]
  split
  · exact ⟨bound.wellFormed, effect_refl⟩
  next rel child =>
    split
    · exact ⟨bound.wellFormed, effect_refl⟩
    next fs made =>
      split at made
      · obtain ⟨parent, ⟨free, kind, rfl⟩ | ⟨found, rfl⟩⟩ := does rel fs made
        · refine ⟨add_wellFormed bound.wellFormed free parent, .grown ?_ ?_ (Nat.le_succ _) ?_⟩
          · exact fun entry member => List.mem_cons_of_mem _ member
          · intro entry member
            rcases List.mem_cons.mp member with rfl | member
            · exact .inr (Nat.le_refl _)
            · exact .inl member
          · exact intern_grown ⟨_, List.mem_cons_self⟩
        · have there := exists_of_find rel (isSome_iff_ne_none.mp found)
          exact ⟨bound.wellFormed, grown_of_handles (intern_grown there)⟩
      · cases made

theorem removeWith_effect (bound : share.Bound)
    (does : ∀ path fs, host share.fs path = some fs →
      share.fs.isEmpty path = true ∧ fs = share.fs.drop path)
    {dir : Nat} {name : Name} (permitted : Bool) :
    (share.removeWith host dir name permitted).2.fs.WellFormed ∧
      Effect share (share.removeWith host dir name permitted).2 := by
  rw [removeWith]
  split
  · exact ⟨bound.wellFormed, effect_refl⟩
  next rel child =>
    have inside := childPath_ne_nil child
    split
    · exact ⟨bound.wellFormed, effect_refl⟩
    next fs gone =>
      split at gone
      · obtain ⟨empty, rfl⟩ := does rel fs gone
        exact ⟨drop_wellFormed bound.wellFormed inside empty, .removed rel inside rfl⟩
      · cases gone

variable {source target : Path} {call : Call}

theorem renames_cases {fromName : Name} {fs : HostFs}
    (renamed : share.renames fromDir fromName toDir toName permitted = some (source, target, fs)) :
    source ≠ [] ∧ target ≠ [] ∧ share.fs.rename source target = some fs := by
  rw [renames] at renamed
  split at renamed
  · cases renamed
  next source' target' paths =>
    rw [renamePaths] at paths
    split at paths
    next source'' target'' child child' =>
      cases some.inj paths
      obtain ⟨fs', done, same⟩ := map_eq_some_iff.mp renamed
      obtain ⟨rfl, rfl, rfl⟩ := same
      refine ⟨childPath_ne_nil child, childPath_ne_nil child', ?_⟩
      split at done
      · exact done
      · cases done
    · cases paths

section
variable {b : NfsBacking} (inv : b.Consistent)
include inv

theorem forget_idToPath (gone : Path) (id : Nat) :
    (b.forget gone).idToPath id = if b.idToPath id = some gone then none else b.idToPath id := by
  have pair := inv.pairs id gone
  rw [forget]
  split <;> grind [update_apply]

theorem repoint_idToPath (source target : Path) (id : Nat) :
    (b.repoint source target).idToPath id =
      if b.idToPath id = some source then some target else b.idToPath id := by
  have pair := inv.pairs id source
  rw [repoint]
  split <;> grind [update_apply]

end

theorem forget_nextId (b : NfsBacking) (path : Path) : (b.forget path).nextId = b.nextId := by
  rw [forget]
  split <;> rfl

theorem repoint_nextId (b : NfsBacking) (source target : Path) :
    (b.repoint source target).nextId = b.nextId := by
  rw [repoint]
  split <;> rfl

theorem rename_effect (bound : share.Bound) {fromName : Name}
    (clear : share.Undisturbed (.rename fromDir fromName toDir toName permitted)) :
    (share.rename fromDir fromName toDir toName permitted).2.fs.WellFormed ∧
      Effect share (share.rename fromDir fromName toDir toName permitted).2 := by
  rw [rename]
  cases renamed : share.renames fromDir fromName toDir toName permitted with
  | none => exact ⟨bound.wellFormed, effect_refl⟩
  | some paths =>
    obtain ⟨source, target, fs⟩ := paths
    obtain ⟨inside, inside', done⟩ := renames_cases renamed
    obtain ⟨parent, ⟨rfl, rfl⟩ | ⟨apart, empty, rfl⟩⟩ := rename_cases bound.wellFormed done
    · have same (id : Nat) : (share.backing.repoint source source).idToPath id =
          share.backing.idToPath id := by
        rw [repoint_idToPath bound.consistent]
        split <;> simp_all
      exact ⟨bound.wellFormed, grown_of_handles
        ⟨Nat.le_of_eq (repoint_nextId ..).symm, fun id _ => same id,
          fun id path pair => .inl (same id ▸ pair)⟩⟩
    · have moves : source ≠ target := fun same => apart (same ▸ List.prefix_rfl)
      obtain ⟨free, alone⟩ := clear _ renamed moves
      refine ⟨move_wellFormed bound.wellFormed inside inside' parent apart empty,
        .moved source target inside free (fun id path pair => ?_) rfl⟩
      exact alone id (bound.consistent.known id path pair) path pair

theorem step_effect (bound : share.Bound) (clear : share.Undisturbed call) :
    (share.step call).fs.WellFormed ∧ Effect share (share.step call) := by
  cases call with
  | lookup dir name =>
    exact ⟨bound.wellFormed, grown_of_handles
      (lookup_keeps interns_grown .refl (bound.backed.parent bound.wellFormed dir)
        exists_of_find name)⟩
  | readdir dir listing failed =>
    exact ⟨bound.wellFormed, grown_of_handles
      (readdir_keeps interns_grown .refl (bound.backed.parent bound.wellFormed dir) exists_of_find _)⟩
  | create dir name permitted =>
    refine make_effect bound (fun path fs made => ?_) permitted
    obtain ⟨parent, ⟨free, is⟩ | same⟩ := createFile_cases made
    · exact ⟨parent, .inl ⟨free, _, is⟩⟩
    · exact ⟨parent, .inr same⟩
  | mkdir dir name permitted =>
    refine make_effect bound (fun path fs made => ?_) permitted
    obtain ⟨parent, free, is⟩ := createDir_cases made
    exact ⟨parent, .inl ⟨free, _, is⟩⟩
  | remove dir name permitted =>
    exact removeWith_effect bound (fun _ _ gone => removeFile_cases bound.wellFormed gone) _
  | rmdir dir name permitted =>
    exact removeWith_effect bound (fun path fs gone => removeDir_cases gone) _
  | rename fromDir fromName toDir toName permitted => exact rename_effect bound clear

/-! ### What an effect leaves of a handle -/

theorem mem_move_source (apart : source ≠ target) (member : (source, object) ∈ share.fs.entries) :
    (target, object) ∈ (share.fs.move source target).entries := by
  refine mem_move.mpr ⟨source, member, apart, ?_⟩
  have top := relocate_append source target []
  rwa [List.append_nil, List.append_nil] at top

/-- A handle with a path that is an object's, or of a removed object and without a path. -/
def Holds (share : Share) (id : Nat) (object : Object) : Prop :=
  (∃ path, share.backing.idToPath id = some path ∧ (path, object) ∈ share.fs.entries) ∨
    (share.backing.idToPath id = none ∧ id < share.backing.nextId ∧
      object.number < share.fs.next ∧ ¬share.fs.Live object)

section
variable {id : Nat} {object : Object} (bound : share.Bound)
include bound

theorem holds_grown (kept : ∀ entry ∈ share.fs.entries, entry ∈ after.fs.entries)
    (new : ∀ entry ∈ after.fs.entries, entry ∈ share.fs.entries ∨ share.fs.next ≤ entry.2.number)
    (next : share.fs.next ≤ after.fs.next) (handles : Grown after.fs share.backing after.backing)
    (holds : share.Holds id object) : after.Holds id object := by
  rcases holds with ⟨path, pair, member⟩ | ⟨none, known, old, gone⟩
  · refine .inl ⟨path, ?_, kept _ member⟩
    rw [handles.old id (bound.consistent.known id path pair), pair]
  refine .inr ⟨by rw [handles.old id known, none], Nat.lt_of_lt_of_le known handles.next,
    Nat.lt_of_lt_of_le old next, ?_⟩
  rintro ⟨path, member⟩
  rcases new _ member with member | later
  · exact gone ⟨path, member⟩
  · exact Nat.lt_irrefl _ (Nat.lt_of_lt_of_le old later)

theorem holds_removed (holds : share.Holds id object) :
    Holds ⟨share.fs.drop gone, share.backing.forget gone⟩ id object := by
  rcases holds with ⟨path, pair, member⟩ | ⟨none, known, old, dead⟩
  · by_cases here : path = gone
    · subst here
      refine .inr ⟨by simp [forget_idToPath bound.consistent, pair], ?_,
        bound.wellFormed.old _ member, ?_⟩
      · rw [forget_nextId]
        exact bound.consistent.known id path pair
      · rintro ⟨place, there⟩
        obtain ⟨there, other⟩ := mem_drop.mp there
        have same := List.inj_on_of_nodup_map bound.wellFormed.objects there member rfl
        exact other (congrArg Prod.fst same)
    · exact .inl ⟨path, by simp [forget_idToPath bound.consistent, pair, here],
        mem_drop.mpr ⟨member, here⟩⟩
  · refine .inr ⟨by simp [forget_idToPath bound.consistent, none], ?_, old, ?_⟩
    · rwa [forget_nextId]
    · rintro ⟨place, there⟩
      exact dead ⟨place, (mem_drop.mp there).1⟩

variable (free : share.backing.pathToId target = none)
  (alone : ∀ id path, share.backing.idToPath id = some path → source <+: path → path = source)
include free alone

/-- A path with a handle that is not moved stays where it is. -/
theorem mem_move_of_ne (pair : share.backing.idToPath id = some path) (stays : path ≠ source)
    (member : (path, object) ∈ share.fs.entries) :
    (path, object) ∈ (share.fs.move source target).entries := by
  refine mem_move.mpr ⟨path, member, fun same => ?_, relocate_outside fun below => ?_⟩
  · subst same
    rw [(bound.consistent.pairs id path).mp pair] at free
    cases free
  · exact stays (alone id path pair below)

theorem holds_moved (holds : share.Holds id object) :
    Holds ⟨share.fs.move source target, share.backing.repoint source target⟩ id object := by
  rcases holds with ⟨path, pair, member⟩ | ⟨none, known, old, dead⟩
  · by_cases here : path = source
    · subst here
      refine .inl ⟨target, by simp [repoint_idToPath bound.consistent, pair],
        mem_move_source ?_ member⟩
      rintro rfl
      rw [(bound.consistent.pairs id path).mp pair] at free
      cases free
    · exact .inl ⟨path, by simp [repoint_idToPath bound.consistent, pair, here],
        mem_move_of_ne bound free alone pair here member⟩
  · refine .inr ⟨by simp [repoint_idToPath bound.consistent, none], ?_, old, ?_⟩
    · rwa [repoint_nextId]
    · rintro ⟨place, there⟩
      obtain ⟨origin, there, -⟩ := mem_move.mp there
      exact dead ⟨origin, there⟩

end

section
variable (bound : share.Bound) (effect : Effect share after)
include bound effect

theorem effect_holds (holds : share.Holds id object) : after.Holds id object := by
  cases effect with
  | grown kept new next handles => exact holds_grown bound kept new next handles holds
  | removed path inside is => exact is ▸ holds_removed bound holds
  | moved source target inside free alone is => exact is ▸ holds_moved bound free alone holds

theorem effect_new (unknown : share.backing.idToPath id = none)
    (pair : after.backing.idToPath id = some path) :
    ∃ object, (path, object) ∈ after.fs.entries := by
  cases effect with
  | grown kept new next handles =>
    exact (handles.new id path pair).resolve_left (by simp [unknown])
  | removed gone inside is =>
    simp [is, forget_idToPath bound.consistent, unknown] at pair
  | moved source target inside free alone is =>
    simp [is, repoint_idToPath bound.consistent, unknown] at pair

theorem effect_backed : Backed after.fs after.backing := by
  intro id path pair
  cases before : share.backing.idToPath id with
  | none => exact effect_new bound effect before pair
  | some old =>
    obtain ⟨object, member⟩ := bound.backed id old before
    rcases effect_holds bound effect (.inl ⟨old, before, member⟩) with ⟨place, here, there⟩ | gone
    · rw [pair] at here
      exact ⟨object, some.inj here ▸ there⟩
    · rw [gone.1] at pair
      cases pair

theorem effect_root : after.backing.idToPath rootId = some [] := by
  cases effect with
  | grown kept new next handles =>
    rw [handles.old rootId (bound.consistent.known rootId [] bound.root), bound.root]
  | removed gone inside is =>
    simp [is, forget_idToPath bound.consistent, bound.root, inside.symm]
  | moved source target inside free alone is =>
    simp [is, repoint_idToPath bound.consistent, bound.root, inside.symm]

end

theorem Undisturbed.targetFree (clear : share.Undisturbed call) : share.TargetFree call := by
  cases call with
  | rename fromDir fromName toDir toName permitted =>
    exact fun paths renamed _ moves => (clear paths renamed moves).1
  | _ => trivial

theorem step_bound (bound : share.Bound) (clear : share.Undisturbed call) :
    (share.step call).Bound := by
  obtain ⟨wellFormed, effect⟩ := step_effect bound clear
  exact ⟨wellFormed, step_consistent bound.consistent clear.targetFree, effect_root bound effect,
    effect_backed bound effect⟩

theorem run_holds (bound : share.Bound) {calls : List Call}
    (clear : Along step Undisturbed share calls) (holds : share.Holds id object) :
    (calls.foldl step share).Bound ∧ (calls.foldl step share).Holds id object :=
  @Along.keeps _ _ _ _ _ (fun share => share.Bound ∧ share.Holds id object) _ clear
    (fun _ _ before condition => ⟨step_bound before.1 condition,
      effect_holds before.1 (step_effect before.1 condition).2 before.2⟩) ⟨bound, holds⟩

theorem resolve_eq_some (bound : share.Bound) :
    share.resolve id = some object ↔
      ∃ path, share.backing.idToPath id = some path ∧ (path, object) ∈ share.fs.entries := by
  rw [resolve, NfsBacking.resolve, Option.bind_eq_some_iff]
  simp only [find_eq_some bound.wellFormed]

/-! ### The handles a call gives out -/

def dirOf : Call → Nat
  | .lookup dir .. | .readdir dir .. | .create dir .. | .mkdir dir .. | .remove dir ..
  | .rmdir dir .. | .rename dir .. => dir

/-- The handles in the reply to a call, with the names they are for. -/
def handedOut (share : Share) : Call → List (Name × Nat)
  | .lookup dir name => (share.backing.lookup share.fs dir name).1.toList.map fun id => (name, id)
  | .readdir dir listing failed => (share.backing.readdir share.fs dir listing failed).1.getD []
  | .create dir name permitted =>
    (share.create dir name permitted).1.toList.map fun id => (name, id)
  | .mkdir dir name permitted =>
    (share.mkdir dir name permitted).1.toList.map fun id => (name, id)
  | .remove .. | .rmdir .. | .rename .. => []

/-- The path that a name means in a directory, clamped at the export root. -/
def named (share : Share) (dir : Nat) (name : Name) : Option Path :=
  (share.backing.idToPath dir).map fun path =>
    if name = dot then path else if name = dotDot then path.dropLast else path ++ [name]

section
variable {b : NfsBacking} {fs : HostFs} {id : Nat} {path : Path}

theorem parentId_path (inv : b.Consistent) (root : b.idToPath rootId = some [])
    (pair : b.idToPath id = some path) {parent : Nat} (found : (b.parentId id).1 = some parent) :
    (b.parentId id).2.idToPath parent = some path.dropLast := by
  rw [parentId, pair] at found ⊢
  dsimp only at found ⊢
  split at found
  next top =>
    rw [← some.inj found, top]
    exact root
  next below =>
    rw [if_neg below, ← some.inj found]
    exact intern_path inv

variable {dir : Nat} {name : Name}

theorem named_of_valid (valid : validComponent name = true)
    (pair : share.backing.idToPath dir = some above) :
    share.named dir name = some (above ++ [name]) := by
  have other : name ≠ dot ∧ name ≠ dotDot := by
    constructor <;> rintro rfl <;> exact nomatch valid
  rw [named, pair, map_some, if_neg other.1, if_neg other.2]

theorem named_of_child (child : share.backing.childPath dir name = some rel) :
    share.named dir name = some rel := by
  obtain ⟨valid, above, pair, rfl⟩ := childPath_eq child
  exact named_of_valid valid pair

theorem lookup_path (bound : share.Bound)
    (given : (share.backing.lookup share.fs dir name).1 = some id) :
    ∃ path, share.named dir name = some path ∧
      (share.backing.lookup share.fs dir name).2.idToPath id = some path := by
  rw [lookup] at given ⊢
  split at given
  next special =>
    rw [if_pos special]
    split at given
    · cases given
    next isDir =>
      rw [if_neg isDir]
      obtain ⟨path, pair⟩ : ∃ path, share.backing.idToPath dir = some path := by
        rw [← isSome_iff_exists]
        by_contra unknown
        exact isDir (by simp [not_isSome_iff_eq_none.mp unknown])
      split at given
      next here =>
        rw [if_pos here, named, pair, ← some.inj given]
        exact ⟨path, by rw [map_some, if_pos here], pair⟩
      next notDot =>
        rw [if_neg notDot, named, pair]
        refine ⟨path.dropLast, ?_, parentId_path bound.consistent bound.root pair given⟩
        rw [map_some, if_neg notDot, if_pos (special.resolve_left notDot)]
  next plain =>
    rw [if_neg plain]
    cases child : share.backing.childPath dir name with
    | none =>
      rw [child] at given
      cases given
    | some rel =>
      rw [child] at given
      dsimp only at given ⊢
      split at given
      · cases given
      next found =>
        rw [if_neg found, ← some.inj given]
        exact ⟨rel, named_of_child child, intern_path bound.consistent⟩

theorem make_path (bound : share.Bound) (given : (share.make host dir name permitted).1 = some id) :
    ∃ path, share.named dir name = some path ∧
      (share.make host dir name permitted).2.backing.idToPath id = some path := by
  rw [make] at given ⊢
  cases child : share.backing.childPath dir name with
  | none =>
    rw [child] at given
    cases given
  | some rel =>
    rw [child] at given
    dsimp only at given ⊢
    split at given
    · cases given
    next fs made =>
      exact ⟨rel, named_of_child child, some.inj given ▸ intern_path bound.consistent⟩

theorem internAll_path {dir : Path} {out : List (Name × Nat) × NfsBacking}
    (inv : out.2.Consistent) (listed : ∀ entry ∈ out.1, validComponent entry.1 = true ∧
      out.2.idToPath entry.2 = some (dir ++ [entry.1])) (names : List Name) :
    ∀ entry ∈ (names.foldl (internEntry dir) out).1, validComponent entry.1 = true ∧
      (names.foldl (internEntry dir) out).2.idToPath entry.2 = some (dir ++ [entry.1]) := by
  induction names generalizing out with
  | nil => exact listed
  | cons name rest inductionHypothesis =>
    refine inductionHypothesis (internEntry_keeps interns_consistent inv trivial) ?_
    rw [internEntry]
    split
    · exact listed
    next valid =>
      intro entry member
      rcases List.mem_append.mp member with member | new
      · obtain ⟨validEntry, pair⟩ := listed entry member
        exact ⟨validEntry, (intern_old (inv.known _ _ pair)).trans pair⟩
      · obtain rfl := List.mem_singleton.mp new
        exact ⟨by simpa using valid, intern_path inv⟩

theorem readdir_path (bound : share.Bound) {listing : List Name} {failed : Bool}
    {entry : Name × Nat} (given : (share.backing.readdir share.fs dir listing failed).1 = some all)
    (member : entry ∈ all) :
    ∃ path, share.named dir entry.1 = some path ∧
      (share.backing.readdir share.fs dir listing failed).2.idToPath entry.2 = some path := by
  rw [readdir] at given ⊢
  cases pair : share.backing.idToPath dir with
  | none =>
    rw [pair] at given
    cases given
  | some above =>
    rw [pair] at given
    have first := parentId_keeps interns_grown .refl (bound.backed.parent bound.wellFormed dir)
    have inv := parentId_keeps interns_consistent bound.consistent
      fun rel (_ : share.backing.idToPath dir = some rel) _ => trivial
    have parentPath := @parentId_path _ _ _ bound.consistent bound.root pair
    generalize share.backing.parentId dir = found at given first inv parentPath ⊢
    obtain ⟨parent, b⟩ := found
    cases parent with
    | none => cases given
    | some parent =>
      dsimp only at given first inv parentPath ⊢
      split at given
      · cases given
      next isDir =>
        rw [if_neg isDir]
        have there : ∀ name ∈ listing.filter fun name => (share.fs.find (above ++ [name])).isSome,
            ∃ object, (above ++ [name], object) ∈ share.fs.entries := fun name member =>
          exists_of_find _ (isSome_iff_ne_none.mp (List.mem_filter.mp member).2)
        generalize listing.filter _ = names at given there ⊢
        have rest : Grown share.fs b (names.foldl (internEntry above) ([], b)).2 :=
          internAll_keeps interns_grown there .refl
        have entries := @internAll_path above ([], b) inv (by simp) names
        generalize names.foldl (internEntry above) ([], b) = listed at given rest entries ⊢
        split at given
        · cases given
        next complete =>
          rw [if_neg complete]
          rw [← some.inj given] at member
          have kept {id : Nat} {path : Path} (before : b.idToPath id = some path) :
              listed.2.idToPath id = some path := by
            rw [rest.old id (inv.known id path before), before]
          simp only [List.mem_filter, List.mem_cons] at member
          obtain ⟨rfl | rfl | member, -⟩ := member
          · refine ⟨above, by rw [named, pair, map_some, if_pos rfl], kept ?_⟩
            rw [first.old dir (bound.consistent.known dir above pair), pair]
          · refine ⟨above.dropLast, ?_, kept (parentPath rfl)⟩
            rw [named, pair, map_some, if_neg (show dotDot ≠ dot by decide), if_pos rfl]
          · obtain ⟨valid, path⟩ := entries entry member
            exact ⟨above ++ [entry.1], named_of_valid valid pair, path⟩

end

/-- A handle given out has the path that its name means. -/
theorem handedOut_path (bound : share.Bound) {entry : Name × Nat}
    (given : entry ∈ share.handedOut call) :
    ∃ path, share.named (dirOf call) entry.1 = some path ∧
      (share.step call).backing.idToPath entry.2 = some path := by
  cases call with
  | lookup dir name =>
    obtain ⟨id, replied, rfl⟩ := List.mem_map.mp given
    exact lookup_path bound (mem_toList.mp replied)
  | readdir dir listing failed =>
    rw [handedOut] at given
    cases replied : (share.backing.readdir share.fs dir listing failed).1 with
    | none =>
      rw [replied] at given
      cases given
    | some all =>
      rw [replied] at given
      exact readdir_path bound replied given
  | create dir name permitted | mkdir dir name permitted =>
    obtain ⟨id, replied, rfl⟩ := List.mem_map.mp given
    exact make_path bound (mem_toList.mp replied)
  | remove dir name permitted | rmdir dir name permitted
  | rename fromDir fromName toDir toName permitted =>
    cases given

theorem run_bound (bound : share.Bound) {calls : List Call}
    (clear : Along step Undisturbed share calls) : (calls.foldl step share).Bound :=
  Along.keeps clear (fun _ _ before condition => step_bound before condition) bound

/-- A handle that a call gives out is for the object that its name means, and resolves to it
after any further calls while the object exists, and to nothing once it is removed or replaced,
as long as no rename moves a directory above a known handle or onto a known one. -/
theorem handle_stays {fs : HostFs} (wellFormed : fs.WellFormed) {before later : List Call}
    {call : Call} (clear : Along step Undisturbed ⟨fs, .new⟩ (before ++ call :: later))
    {name : Name} {id : Nat}
    (given : (name, id) ∈ (before.foldl step ⟨fs, .new⟩).handedOut call) :
    ∃ path object,
      (before.foldl step ⟨fs, .new⟩).named (dirOf call) name = some path ∧
      ((before ++ [call]).foldl step ⟨fs, .new⟩).fs.find path = some object ∧
      (((before ++ call :: later).foldl step ⟨fs, .new⟩).fs.Live object →
        ((before ++ call :: later).foldl step ⟨fs, .new⟩).resolve id = some object) ∧
      (¬((before ++ call :: later).foldl step ⟨fs, .new⟩).fs.Live object →
        ((before ++ call :: later).foldl step ⟨fs, .new⟩).resolve id = none) := by
  have bound := run_bound (new_bound wellFormed) clear.front
  have tail := clear.back
  obtain ⟨path, named, pair⟩ := handedOut_path bound given
  have bound' := step_bound bound (tail [] call later rfl)
  obtain ⟨object, member⟩ := bound'.backed id path pair
  obtain ⟨bound'', holds⟩ := run_holds bound' tail.tail (.inl ⟨path, pair, member⟩)
  rw [List.foldl_append, List.foldl_append, List.foldl_cons, List.foldl_cons]
  refine ⟨path, object, named, (find_eq_some bound'.wellFormed).mpr member, ?_, ?_⟩
  · intro live
    rcases holds with here | gone
    · exact (resolve_eq_some bound'').mpr here
    · exact absurd live gone.2.2.2
  · intro dead
    rcases holds with ⟨place, -, there⟩ | gone
    · exact absurd ⟨place, there⟩ dead
    · rw [resolve, NfsBacking.resolve, gone.1, Option.bind_none]

theorem twoFiles_wellFormed : twoFiles.WellFormed := by
  constructor
  case paths => decide
  case objects => decide
  case old => decide
  case root => exact ⟨⟨0, .dir⟩, by decide, rfl⟩
  case inDir =>
    intro path object member below
    refine ⟨⟨0, .dir⟩, ?_, rfl⟩
    simp only [twoFiles, List.mem_cons, Prod.mk.injEq, List.not_mem_nil, or_false] at member
    rcases member with ⟨rfl, -⟩ | ⟨rfl, -⟩ | ⟨rfl, -⟩
    · exact absurd rfl below
    · decide
    · decide

/-- The handle of `a` follows the file to the name `c`. -/
theorem renamed_handle_stays :
    twoFiles.WellFormed ∧
    Along step Undisturbed ⟨twoFiles, .new⟩
      ([] ++ .lookup 2 [0x61] :: [.rename 2 [0x61] 2 [0x63] true]) ∧
    ([0x61], 3) ∈ (([] : List Call).foldl step ⟨twoFiles, .new⟩).handedOut (.lookup 2 [0x61]) ∧
    ∃ path object,
      (([] : List Call).foldl step ⟨twoFiles, .new⟩).named 2 [0x61] = some path ∧
      (([] ++ [Call.lookup 2 [0x61]]).foldl step ⟨twoFiles, .new⟩).fs.find path = some object ∧
      ((([] ++ Call.lookup 2 [0x61] :: [.rename 2 [0x61] 2 [0x63] true]).foldl step
          ⟨twoFiles, .new⟩).fs.Live object →
        (([] ++ Call.lookup 2 [0x61] :: [.rename 2 [0x61] 2 [0x63] true]).foldl step
          ⟨twoFiles, .new⟩).resolve 3 = some object) ∧
      (¬(([] ++ Call.lookup 2 [0x61] :: [.rename 2 [0x61] 2 [0x63] true]).foldl step
          ⟨twoFiles, .new⟩).fs.Live object →
        (([] ++ Call.lookup 2 [0x61] :: [.rename 2 [0x61] 2 [0x63] true]).foldl step
          ⟨twoFiles, .new⟩).resolve 3 = none) :=
  ⟨twoFiles_wellFormed, by decide +kernel, by decide +kernel,
    @handle_stays _ twoFiles_wellFormed [] [.rename 2 [0x61] 2 [0x63] true] (.lookup 2 [0x61])
      (by decide +kernel) [0x61] 3 (by decide +kernel)⟩

def fileInDir : HostFs where
  entries := [([], ⟨0, .dir⟩), ([[0x64]], ⟨1, .dir⟩), ([[0x64], [0x66]], ⟨2, .file⟩)]
  next := 3

/-- The handle of `f` is lost when its directory is renamed, though the file is still there;
and the handle of `b` resolves to the file that was `a` once that is renamed onto it. -/
theorem renamed_above_loses_handle :
    (([3, 4].map ([Call.lookup 2 [0x64], .lookup 3 [0x66]].foldl step
      ⟨fileInDir, .new⟩).resolve) = [some ⟨1, .dir⟩, some ⟨2, .file⟩] ∧
    ([[0x65], [0x66]], ⟨2, .file⟩) ∈ ([Call.lookup 2 [0x64], .lookup 3 [0x66],
      .rename 2 [0x64] 2 [0x65] true].foldl step ⟨fileInDir, .new⟩).fs.entries ∧
    ([Call.lookup 2 [0x64], .lookup 3 [0x66], .rename 2 [0x64] 2 [0x65] true].foldl step
      ⟨fileInDir, .new⟩).resolve 4 = none) ∧
    (([3, 4].map ([Call.lookup 2 [0x61], .lookup 2 [0x62]].foldl step
      ⟨twoFiles, .new⟩).resolve) = [some ⟨1, .file⟩, some ⟨2, .file⟩] ∧
    ([Call.lookup 2 [0x61], .lookup 2 [0x62], .rename 2 [0x61] 2 [0x62] true].foldl step
      ⟨twoFiles, .new⟩).resolve 4 = some ⟨1, .file⟩) := by
  decide +kernel

end Share

end Iris.Nfs
