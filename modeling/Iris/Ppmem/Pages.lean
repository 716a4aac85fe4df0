import Mathlib.Data.List.GetD
import Mathlib.Data.List.Nodup
import Iris.Ppmem.Devmap

/-!
Owns what each operation of the sparse table does to one of its pages, whatever form the
page is in, and that the others keep what they hold. The books of the pool are kept: a pool
page is free, or in use by one table page.
-/

namespace Iris.Ppmem

open Library.Runs List

namespace SparseDeviceMap
variable {Entry : Type} [Inhabited Entry]
variable {map : SparseDeviceMap Entry} {dflt dev : Entry}

/-- The constant pages hold their devices, one is the default's, and a pool page is free or
in use by one table page. -/
structure Books (map : SparseDeviceMap Entry) (dflt : Entry) : Prop where
  positive : 0 < map.perPage
  constants : ∀ const < map.consts.length, map.store (.const const) = fun _ => map.device const
  default : ∃ const < map.consts.length, map.defaultConst = some const ∧ map.device const = dflt
  freeNodup : map.free.Nodup
  freeBelow : ∀ slot ∈ map.free, slot < map.pool * poolPages
  owned : ∀ page slot, map.pages page = .privatePage slot →
    slot < map.pool * poolPages ∧ slot ∉ map.free
  distinct : ∀ page other slot, map.pages page = .privatePage slot →
    map.pages other = .privatePage slot → page = other

/-- What a page in this state is a view of. -/
def viewOf : PageState → Option Backing
  | .unmapped | .lazy _ => none
  | .const const => some (.const const)
  | .privatePage slot => some (.pool slot)

def constOf : PageState → Option Nat
  | .lazy const | .const const => some const
  | .unmapped | .privatePage _ => none

/-- The entry of a page in this state. -/
def entry (map : SparseDeviceMap Entry) (dflt : Entry) (i : Nat) : PageState → Entry
  | .unmapped => dflt
  | .lazy const | .const const => map.device const
  | .privatePage slot => map.store (.pool slot) i

/-- What is known of one page: what it holds, and whether it was ever touched. -/
structure Page (map : SparseDeviceMap Entry) (dflt : Entry) (page : Nat) (f : Nat → Entry)
    (touched : Prop) : Prop where
  table : map.table page = viewOf (map.pages page)
  touched : touched ↔ map.pages page ≠ .unmapped
  known : ∀ const, constOf (map.pages page) = some const → const < map.consts.length
  entries : ∀ i < map.perPage, f i = map.entry dflt i (map.pages page)

section
variable {page : Nat} {f g : Nat → Entry} {touched : Prop}

theorem Page.congr (holds : Page map dflt page f touched)
    (same : ∀ i < map.perPage, f i = g i) {touched' : Prop} (still : touched ↔ touched') :
    Page map dflt page g touched' :=
  { holds with
    touched := still.symm.trans holds.touched
    entries := fun i low => (same i low).symm.trans (holds.entries i low) }

/-- What a page needs of the table it is in. -/
theorem Page.transfer (holds : Page map dflt page f touched)
    (pages : later.pages page = map.pages page) (table : later.table page = map.table page)
    (perPage : later.perPage = map.perPage) (consts : ∀ const < map.consts.length,
      const < later.consts.length ∧ later.device const = map.device const)
    (store : ∀ slot, map.pages page = .privatePage slot →
      later.store (.pool slot) = map.store (.pool slot)) :
    Page later dflt page f touched := by
  have known := holds.known
  refine ⟨?_, ?_, ?_, ?_⟩ <;> rw [pages]
  · rw [table, holds.table]
  · exact holds.touched
  · exact fun const named => (consts const (known const named)).1
  · intro i low
    rw [holds.entries i (perPage ▸ low)]
    cases state : map.pages page with
    | unmapped => rfl
    | lazy const | const const =>
      rw [state] at known
      exact (consts const (known const rfl)).2.symm
    | privatePage slot => exact congrFun (store slot state).symm i

end

/-! ### Constant pages -/

/-- What `const_for` does: the constant page is there, and nothing else changes. -/
structure Provided (map : SparseDeviceMap Entry) (dev : Entry) (const : Nat)
    (later : SparseDeviceMap Entry) : Prop where
  inside : const < later.consts.length
  device : later.device const = dev
  rest : ∃ consts store, later = { map with consts, store }
  consts : ∀ const < map.consts.length,
    const < later.consts.length ∧ later.device const = map.device const
  store : ∀ slot, later.store (.pool slot) = map.store (.pool slot)
  constants : (∀ const < map.consts.length, map.store (.const const) = fun _ => map.device const) →
    ∀ const < later.consts.length, later.store (.const const) = fun _ => later.device const

section
variable {const : Nat} {later : SparseDeviceMap Entry} (provided : Provided map dev const later)
include provided

theorem Provided.books (books : Books map dflt) : Books later dflt := by
  have constants := provided.constants books.constants
  obtain ⟨const, inside, chosen, same⟩ := books.default
  obtain ⟨still, device⟩ := provided.consts const inside
  obtain ⟨_, _, rfl⟩ := provided.rest
  exact { books with constants, default := ⟨const, still, chosen, device.trans same⟩ }

theorem Provided.page {page : Nat} {f : Nat → Entry} {touched : Prop}
    (holds : Page map dflt page f touched) : Page later dflt page f touched := by
  obtain ⟨_, _, rfl⟩ := provided.rest
  exact holds.transfer rfl rfl rfl provided.consts fun slot _ => provided.store slot

end

/-! ### One page changes -/

structure SameSize (map later : SparseDeviceMap Entry) : Prop where
  perPage : later.perPage = map.perPage
  npages : later.npages = map.npages

/-- One page holds `f` now, and the others what they held. -/
structure Becomes (map later : SparseDeviceMap Entry) (dflt : Entry) (page : Nat)
    (f : Nat → Entry) : Prop extends SameSize map later where
  books : Books later dflt
  here : Page later dflt page f True
  frame : ∀ other ≠ page, ∀ g touched, Page map dflt other g touched →
    Page later dflt other g touched

theorem Becomes.of_provided {f : Nat → Entry} (provided : Provided map dev const middle)
    (becomes : Becomes middle later dflt page f) : Becomes map later dflt page f := by
  have frame other apart g touched holds :=
    becomes.frame other apart g touched (provided.page holds)
  obtain ⟨_, _, rfl⟩ := provided.rest
  exact { becomes with frame }

section Change
variable {later : SparseDeviceMap Entry} {page : Nat} {state : PageState} {f : Nat → Entry}

/-- A page changes its state: the others keep their pool pages, and a pool page it is given
was nobody's. -/
theorem becomes_of_change (books : Books map dflt)
    (pages : later.pages = Function.update map.pages page state)
    (table : ∀ other ≠ page, later.table other = map.table other)
    (perPage : later.perPage = map.perPage) (npages : later.npages = map.npages)
    (consts : later.consts = map.consts) (defaultConst : later.defaultConst = map.defaultConst)
    (constants : ∀ const, later.store (.const const) = map.store (.const const))
    (store : ∀ other ≠ page, ∀ slot, map.pages other = .privatePage slot →
      later.store (.pool slot) = map.store (.pool slot))
    (pool : map.pool ≤ later.pool) (freeNodup : later.free.Nodup)
    (freeBelow : ∀ slot ∈ later.free, slot < later.pool * poolPages)
    (kept : ∀ other ≠ page, ∀ slot, map.pages other = .privatePage slot → slot ∉ later.free)
    (fresh : ∀ slot, state = .privatePage slot → slot < later.pool * poolPages ∧
      slot ∉ later.free ∧ ∀ other ≠ page, map.pages other ≠ .privatePage slot)
    (mapped : state ≠ .unmapped) (view : later.table page = viewOf state)
    (known : ∀ const, constOf state = some const → const < map.consts.length)
    (entries : ∀ i, f i = later.entry dflt i state) : Becomes map later dflt page f := by
  have at_page : later.pages page = state := by rw [pages, Function.update_self]
  have away {other : Nat} (apart : other ≠ page) : later.pages other = map.pages other := by
    rw [pages, Function.update_of_ne apart]
  have device (const : Nat) : later.device const = map.device const := by
    rw [device, consts]
    rfl
  have here : Page later dflt page f True := by
    refine ⟨?_, ?_, ?_, ?_⟩ <;> rw [at_page]
    · exact view
    · exact iff_of_true trivial mapped
    · rw [consts]
      exact known
    · exact fun i _ => entries i
  refine ⟨⟨perPage, npages⟩, ?_, here, fun other apart g touched holds => ?_⟩
  · refine ⟨by rw [perPage]; exact books.positive, fun const inside => ?_, ?_, freeNodup, freeBelow,
      fun other slot owns => ?_, fun other third slot owns also => ?_⟩
    · rw [consts] at inside
      rw [constants, books.constants const inside, device]
    · obtain ⟨const, inside, chosen, same⟩ := books.default
      exact ⟨const, by rw [consts]; exact inside, defaultConst.trans chosen,
        (device const).trans same⟩
    · by_cases apart : other = page
      · rw [apart, at_page] at owns
        exact ⟨(fresh slot owns).1, (fresh slot owns).2.1⟩
      · rw [away apart] at owns
        have below := (books.owned other slot owns).1
        exact ⟨Nat.lt_of_lt_of_le below (Nat.mul_le_mul_right _ pool), kept other apart slot owns⟩
    · by_cases first : other = page
      · by_cases second : third = page
        · exact first.trans second.symm
        · rw [first, at_page] at owns
          rw [away second] at also
          exact absurd also ((fresh slot owns).2.2 third second)
      · rw [away first] at owns
        by_cases second : third = page
        · rw [second, at_page] at also
          exact absurd owns ((fresh slot also).2.2 other first)
        · rw [away second] at also
          exact books.distinct other third slot owns also
  · exact holds.transfer (away apart) (table other apart) perPage
      (fun const inside => ⟨by rw [consts]; exact inside, device const⟩) (store other apart)

end Change

/-- The free pages once the pool page of a table page is released. -/
def freed (map : SparseDeviceMap Entry) (page : Nat) : List Nat :=
  match map.pages page with
  | .privatePage slot => slot :: map.free
  | _ => map.free

section Freed
variable {page : Nat}

theorem freed_nodup (books : Books map dflt) : (map.freed page).Nodup := by
  rw [freed]
  split
  next slot owns => exact nodup_cons.mpr ⟨(books.owned page slot owns).2, books.freeNodup⟩
  · exact books.freeNodup

theorem freed_below (books : Books map dflt) :
    ∀ slot ∈ map.freed page, slot < map.pool * poolPages := by
  rw [freed]
  split
  next slot owns =>
    intro other member
    rcases mem_cons.mp member with rfl | before
    · exact (books.owned page other owns).1
    · exact books.freeBelow other before
  · exact books.freeBelow

theorem freed_kept (books : Books map dflt) :
    ∀ other ≠ page, ∀ slot, map.pages other = .privatePage slot → slot ∉ map.freed page := by
  intro other apart slot owns member
  rw [freed] at member
  split at member
  next old also =>
    rcases mem_cons.mp member with rfl | before
    · exact apart (books.distinct other page slot owns also)
    · exact (books.owned other slot owns).2 before
  · exact (books.owned other slot owns).2 member

end Freed

section
variable (books : Books map dflt) (page : Nat) {const : Nat} (inside : const < map.consts.length)
include books inside

/-- A page that is not mapped is given a constant page to map when it is touched. -/
theorem lazy_becomes (reserved : map.table page = none) :
    Becomes map (map.setPage page (.lazy const)) dflt page (fun _ => map.device const) := by
  refine becomes_of_change books rfl (fun _ _ => rfl) rfl rfl rfl rfl (fun _ => rfl)
    (fun _ _ _ _ => rfl) (Nat.le_refl _) books.freeNodup books.freeBelow
    (fun other _ slot owns => (books.owned other slot owns).2) nofun nofun reserved ?_ fun _ => rfl
  rintro _ ⟨⟩
  exact inside

/-- A page is mapped as a view of a constant page. -/
theorem const_becomes :
    Becomes map (map.remap page (.const const) (.const const)) dflt page
      (fun _ => map.device const) := by
  rw [remap, release_eq]
  refine becomes_of_change books rfl (fun other apart => view_table_ne apart) rfl rfl rfl rfl
    (fun _ => rfl) (fun _ _ _ _ => rfl) (Nat.le_refl _) (freed_nodup books) (freed_below books)
    (freed_kept books) nofun nofun view_table_self ?_ fun _ => rfl
  rintro _ ⟨⟩
  exact inside

end

theorem becomes_self (books : Books map dflt) {f : Nat → Entry} {touched : Prop}
    (holds : Page map dflt page f touched) (known : touched) : Becomes map map dflt page f :=
  ⟨⟨rfl, rfl⟩, books, holds.congr (fun _ _ => rfl) (iff_of_true known trivial),
    fun _ _ _ _ same => same⟩

/-! ### The pool -/

/-- What `alloc_slot` does: the page was free or is new, and is nobody's. -/
structure Allocated (map : SparseDeviceMap Entry) (dflt : Entry) (slot : Nat)
    (later : SparseDeviceMap Entry) : Prop where
  books : Books later dflt
  below : slot < later.pool * poolPages
  taken : slot ∉ later.free
  unowned : ∀ page, map.pages page ≠ .privatePage slot
  rest : ∃ pool free, later = { map with pool, free }

theorem fresh_pages (pool : Nat) :
    (range poolPages).map (pool * poolPages + ·) =
      pool * poolPages :: (range' 1 (poolPages - 1)).map (pool * poolPages + ·) := rfl

theorem allocSlot_spec (books : Books map dflt) :
    Allocated map dflt map.allocSlot.1 map.allocSlot.2 := by
  rw [allocSlot]
  cases free : map.free with
  | cons slot rest =>
    have nodup := books.freeNodup
    rw [free] at nodup
    obtain ⟨fresh, nodup⟩ := nodup_cons.mp nodup
    have member : slot ∈ map.free := by simp [free]
    refine ⟨{ books with
        freeNodup := nodup
        freeBelow := fun other among => ?_
        owned := fun page other owns => ?_ },
      books.freeBelow slot member, fresh, ?_, _, _, rfl⟩
    · exact books.freeBelow other (by rw [free]; exact mem_cons_of_mem _ among)
    · obtain ⟨below, outside⟩ := books.owned page other owns
      exact ⟨below, fun among => outside (by rw [free]; exact mem_cons_of_mem _ among)⟩
    · exact fun page owns => (books.owned page slot owns).2 member
  | nil =>
    have inside {p : Nat} (small : p < poolPages) :
        map.pool * poolPages + p < (map.pool + 1) * poolPages := by
      rw [Nat.add_mul]
      omega
    rw [fresh_pages]
    have member {slot : Nat} (among : slot ∈ (range' 1 (poolPages - 1)).map
        (map.pool * poolPages + ·)) : ∃ p, 1 ≤ p ∧ p < poolPages ∧
          map.pool * poolPages + p = slot := by
      obtain ⟨p, range, rfl⟩ := mem_map.mp among
      have bounds := mem_range'_1.mp range
      exact ⟨p, bounds.1, bounds.2, rfl⟩
    refine ⟨{ books with
        freeNodup := ?_
        freeBelow := fun slot among => ?_
        owned := fun page slot owns => ?_ },
      inside (p := 0) (by decide), fun among => ?_, fun page owns => ?_, _, _, rfl⟩
    · exact Nodup.map (fun _ _ same => Nat.add_left_cancel same) nodup_range'
    · obtain ⟨p, -, small, rfl⟩ := member among
      exact inside small
    · obtain ⟨below, -⟩ := books.owned page slot owns
      refine ⟨Nat.lt_of_lt_of_le below (Nat.mul_le_mul_right _ (Nat.le_succ _)), fun among => ?_⟩
      obtain ⟨p, -, -, rfl⟩ := member among
      omega
    · obtain ⟨p, positive, -, same⟩ := member among
      change _ = map.pool * poolPages at same
      omega
    · have below := (books.owned page _ owns).1
      exact absurd below (Nat.lt_irrefl _)

/-- A mixed page is written to a fresh pool page and mapped as a view of it. -/
theorem private_becomes (books : Books map dflt) (buf : Nat → Entry) :
    Becomes map ((map.allocSlot.2.writeThroughStaging (.pool map.allocSlot.1) buf).remap page
      (.pool map.allocSlot.1) (.privatePage map.allocSlot.1)) dflt page buf := by
  have allocated := allocSlot_spec books
  generalize map.allocSlot.1 = slot at allocated ⊢
  generalize map.allocSlot.2 = middle at allocated ⊢
  have unowned : ∀ other, middle.pages other ≠ .privatePage slot := by
    obtain ⟨_, _, rfl⟩ := allocated.rest
    exact allocated.unowned
  have becomes : Becomes middle ((middle.writeThroughStaging (.pool slot) buf).remap page
      (.pool slot) (.privatePage slot)) dflt page buf := by
    have nodup : (middle.freed page).Nodup := freed_nodup allocated.books
    have below : ∀ slot ∈ middle.freed page, slot < middle.pool * poolPages :=
      freed_below allocated.books
    have untouched (const : Nat) : (middle.writeThroughStaging (.pool slot) buf).store
        (.const const) = middle.store (.const const) := write_store_ne nofun
    rw [remap, release_eq]
    refine becomes_of_change allocated.books rfl (fun other apart => view_table_ne apart) rfl rfl
      rfl rfl untouched (fun other _ owned owns => ?_)
      (Nat.le_refl _) nodup below (freed_kept allocated.books) (fun other same => ?_) nofun
      view_table_self nofun fun i => (congrFun write_store_self i).symm
    · refine @write_store_ne _ middle (.pool slot) (.pool owned) buf fun same => ?_
      exact unowned other (owns.trans (congrArg PageState.privatePage (Backing.pool.inj same)))
    · obtain rfl := PageState.privatePage.inj same
      refine ⟨allocated.below, fun member => ?_, fun other _ => unowned other⟩
      change slot ∈ middle.freed page at member
      rw [freed] at member
      split at member
      next old owns =>
        rcases mem_cons.mp member with rfl | before
        · exact unowned page owns
        · exact allocated.taken before
      · exact allocated.taken member
  obtain ⟨_, _, rfl⟩ := allocated.rest
  refine { becomes with frame := fun other apart g touched holds => ?_ }
  apply becomes.frame other apart
  exact holds.transfer rfl rfl rfl (fun _ inside => ⟨inside, rfl⟩) fun _ _ => rfl

/-! ### The operations on a page -/

variable {page : Nat} {f : Nat → Entry} {touched : Prop}

theorem Page.read (books : Books map dflt) (holds : Page map dflt page f touched)
    {backing : Backing} (viewed : map.table page = some backing) {i : Nat}
    (inside : i < map.perPage) : map.store backing i = f i := by
  have view := holds.table.symm.trans viewed
  have known := holds.known
  rw [holds.entries i inside]
  cases state : map.pages page with
  | unmapped | lazy const =>
    rw [state] at view
    cases view
  | const const =>
    rw [state] at view known
    cases view
    rw [books.constants _ (known const rfl)]
    rfl
  | privatePage slot =>
    rw [state] at view
    cases view
    rfl

omit [Inhabited Entry] in
theorem load_eq (inside : i < map.perPage) :
    map.load (page * map.perPage + i) = (map.table page).map (map.store · i) := by
  have positive : 0 < map.perPage := Nat.lt_of_le_of_lt (Nat.zero_le i) inside
  rw [load, Nat.mul_comm, Nat.mul_add_div positive, Nat.div_eq_of_lt inside, Nat.mul_add_mod,
    Nat.mod_eq_of_lt inside, Nat.add_zero]

theorem Page.private_load (holds : Page map dflt page f touched)
    {slot : Nat} (state : map.pages page = .privatePage slot) {i : Nat}
    (inside : i < map.perPage) : map.load (page * map.perPage + i) = some (f i) := by
  rw [load_eq inside, holds.table, holds.entries i inside, state]
  rfl

theorem contents_spec (books : Books map dflt) (holds : Page map dflt page f touched) :
    ∃ buf, map.contents page = some buf ∧ ∀ i < map.perPage, buf i = f i := by
  rw [contents]
  cases state : map.pages page with
  | unmapped =>
    obtain ⟨const, -, chosen, same⟩ := books.default
    refine ⟨_, by rw [chosen, Option.map_some], fun i inside => ?_⟩
    rw [holds.entries i inside, state]
    exact same
  | lazy const | const const =>
    refine ⟨_, rfl, fun i inside => ?_⟩
    rw [holds.entries i inside, state]
    rfl
  | privatePage slot =>
    exact ⟨_, rfl, fun i inside => by rw [holds.private_load state inside, Option.getD_some]⟩

theorem Becomes.congr {later : SparseDeviceMap Entry} {g : Nat → Entry}
    (becomes : Becomes map later dflt page f) (same : ∀ i < map.perPage, f i = g i) :
    Becomes map later dflt page g :=
  { becomes with
    here := becomes.here.congr (fun i inside => same i (becomes.perPage ▸ inside)) Iff.rfl }

/-- A fault maps the page and changes nothing it holds. -/
theorem fault_becomes (books : Books map dflt) (inside : slot < map.slots)
    (holds : Page map dflt (slot / map.perPage) f touched) :
    (map.fault slot).1 = true ∧ Becomes map (map.fault slot).2 dflt (slot / map.perPage) f ∧
      ((map.fault slot).2.table (slot / map.perPage)).isSome = true := by
  have mapped {const : Nat} (there : const < map.consts.length)
      (same : ∀ i < map.perPage, f i = map.device const)
      (shared : ∀ owned, map.pages (slot / map.perPage) ≠ .privatePage owned) :
      Becomes map ((map.view (slot / map.perPage) (.const const)).setPage (slot / map.perPage)
        (.const const)) dflt (slot / map.perPage) f := by
    have becomes := (const_becomes books (slot / map.perPage) there).congr
      fun i low => (same i low).symm
    have released : map.remap (slot / map.perPage) (.const const) (.const const) =
        (map.view (slot / map.perPage) (.const const)).setPage (slot / map.perPage)
          (.const const) := by
      rw [remap]
      cases state : map.pages (slot / map.perPage) with
      | privatePage owned => exact absurd state (shared owned)
      | _ => rfl
    rw [released] at becomes
    exact becomes
  have viewed {const : Nat} : (((map.view (slot / map.perPage) (.const const)).setPage
      (slot / map.perPage) (.const const)).table (slot / map.perPage)).isSome = true := by
    have view : (map.view (slot / map.perPage) (.const const)).table (slot / map.perPage) = _ :=
      view_table_self
    rw [setPage, view]
    rfl
  rw [fault, if_pos inside]
  cases state : map.pages (slot / map.perPage) with
  | unmapped =>
    obtain ⟨const, there, chosen, same⟩ := books.default
    simp only [state, chosen]
    refine ⟨trivial, mapped there (fun i low => ?_)
      (fun _ other => nomatch state.symm.trans other), viewed⟩
    rw [holds.entries i low, state]
    exact same.symm
  | lazy const =>
    simp only [state]
    refine ⟨trivial, mapped (holds.known const (by rw [state]; rfl)) (fun i low => ?_)
      (fun _ other => nomatch state.symm.trans other), viewed⟩
    rw [holds.entries i low, state]
    rfl
  | const const | privatePage owned =>
    simp only [state]
    exact ⟨trivial, becomes_self books holds (holds.touched.mpr (by simp [state])),
      by rw [holds.table, state]; rfl⟩

variable [DecidableEq Entry]

theorem constFor_spec (map : SparseDeviceMap Entry) (dev : Entry) :
    Provided map dev (map.constFor dev).1 (map.constFor dev).2 := by
  rw [constFor]
  cases found : map.consts.findIdx? (· = dev) with
  | some const =>
    obtain ⟨inside, same, -⟩ := findIdx?_eq_some_iff_getElem.mp found
    refine ⟨inside, ?_, ⟨_, _, rfl⟩, fun _ there => ⟨there, rfl⟩, fun _ => rfl, id⟩
    rw [device, getD_eq_getElem _ _ inside]
    exact of_decide_eq_true same
  | none =>
    have old {const : Nat} (there : const < map.consts.length) :
        (map.consts ++ [dev]).getD const default = map.consts.getD const default := by
      rw [getD_append _ _ _ _ there]
    have new : (map.consts ++ [dev]).getD map.consts.length default = dev := by
      simp
    refine ⟨by simp, new, ⟨_, _, rfl⟩, fun const there => ⟨by simp; omega, old there⟩,
      fun slot => ?_, fun kept const there => ?_⟩
    · have kept : (map.writeThroughStaging (.const map.consts.length) fun _ => dev).store
          (.pool slot) = map.store (.pool slot) := write_store_ne nofun
      exact kept
    change (map.writeThroughStaging (.const map.consts.length) _).store (.const const) =
      fun _ => (map.consts ++ [dev]).getD const default
    rcases Nat.lt_or_ge const map.consts.length with before | here
    · rw [write_store_ne (by simp; omega), kept const before, old before]
      rfl
    · obtain rfl : const = map.consts.length := by
        have length : const < (map.consts ++ [dev]).length := there
        rw [length_append, length_singleton] at length
        omega
      rw [write_store_self, new]

theorem mapConst_becomes (books : Books map dflt) (holds : Page map dflt page f touched)
    (dev : Entry) : Becomes map (map.mapConst page dev) dflt page (fun _ => dev) := by
  have provided := constFor_spec map dev
  rw [mapConst]
  generalize map.constFor dev = result at provided ⊢
  obtain ⟨const, middle⟩ := result
  dsimp only at provided ⊢
  have books := provided.books books
  have holds := provided.page holds
  apply Becomes.of_provided provided
  have lazily := lazy_becomes books page provided.inside
  have mapped := const_becomes books page provided.inside
  rw [provided.device] at lazily mapped
  have kept (same : constOf (middle.pages page) = some const) :
      Becomes middle middle dflt page fun _ => dev := by
    refine becomes_self books (holds.congr (fun i low => ?_) Iff.rfl)
      (holds.touched.mpr fun unmapped => ?_)
    · rw [holds.entries i low, ← provided.device]
      cases state : middle.pages page <;> rw [state] at same <;> cases same <;> rfl
    · rw [unmapped] at same
      cases same
  have view := holds.table
  cases state : middle.pages page with
  | unmapped =>
    rw [state] at view
    exact lazily view
  | lazy old =>
    rw [state] at view
    dsimp only
    split
    next same => exact kept (by rw [state, same]; rfl)
    · exact lazily view
  | const old =>
    dsimp only
    split
    next same => exact kept (by rw [state, same]; rfl)
    · exact mapped
  | privatePage slot =>
    exact mapped

theorem modify_becomes (books : Books map dflt) (holds : Page map dflt page f touched) (dev : Entry) :
    ∃ later, map.modify page lo hi dev = some later ∧
      Becomes map later dflt page (overwrite f lo hi dev) := by
  obtain ⟨buf, read, same⟩ := contents_spec books holds
  have overwritten : ∀ i < map.perPage, overwrite buf lo hi dev i = overwrite f lo hi dev i := by
    intro i inside
    rw [overwrite, overwrite, same i inside]
  rw [modify, read]
  dsimp only
  split
  next already =>
    obtain ⟨matching, mapped⟩ := already
    refine ⟨map, rfl, (becomes_self books holds (holds.touched.mpr mapped)).congr
      fun i inside => ?_⟩
    rw [overwrite]
    split
    next range =>
      rw [← same i inside]
      exact matching i range.2 range.1
    · rfl
  · split
    next constant =>
      refine ⟨_, rfl, (mapConst_becomes books holds _).congr fun i inside => ?_⟩
      rw [← constant i inside, overwritten i inside]
    · exact ⟨_, rfl, (private_becomes books _).congr overwritten⟩

end SparseDeviceMap

end Iris.Ppmem
