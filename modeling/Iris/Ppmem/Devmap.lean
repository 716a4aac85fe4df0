import Iris.Library.Runs

/-!
Owns the sparse physical decode table: one device per slot, kept in pages that are views of
shared memory, mapped when they are first loaded from. A page with one device is a view of
that device's constant page; a mixed page is a view of a page of its own from a pool.

The host's mapping calls are taken to succeed.
-/

namespace Iris.Ppmem

open Library.Runs Function

/-- Pool pages come in objects of this many pages. -/
def poolPages : Nat := 16

def slotShift : Nat := 12

inductive PageState
  /-- Never written: reserved, faults on access. -/
  | unmapped
  /-- Filled whole with a constant page, but still reserved. -/
  | lazy (const : Nat)
  | const (const : Nat)
  | privatePage (slot : Nat)
deriving DecidableEq, Repr

/-- A page of shared memory: a constant page, or a page of the pool. -/
inductive Backing
  | const (const : Nat)
  | pool (slot : Nat)
deriving DecidableEq, Repr

/-- The table. `table` says what each table page is a view of, and `store` what the shared
pages hold. The free pool pages are a stack. -/
structure SparseDeviceMap (Entry : Type) where
  perPage : Nat
  npages : Nat
  pages : Nat → PageState := fun _ => .unmapped
  consts : List Entry := []
  pool : Nat := 0
  free : List Nat := []
  defaultConst : Option Nat := none
  table : Nat → Option Backing := fun _ => none
  store : Backing → Nat → Entry

namespace SparseDeviceMap
variable {Entry : Type} [DecidableEq Entry] [Inhabited Entry]

/-- The table reserved; shared memory comes zeroed. -/
def new (perPage npages : Nat) : SparseDeviceMap Entry :=
  { perPage, npages, store := fun _ _ => default }

variable (map : SparseDeviceMap Entry) (page slot : Nat) (dev : Entry)

def slots : Nat := map.npages * map.perPage

def device (const : Nat) : Entry := map.consts.getD const default

def view (backing : Backing) : SparseDeviceMap Entry :=
  { map with table := update map.table page (some backing) }

def writeThroughStaging (backing : Backing) (buf : Nat → Entry) : SparseDeviceMap Entry :=
  { map with store := update map.store backing buf }

def setPage (state : PageState) : SparseDeviceMap Entry :=
  { map with pages := update map.pages page state }

section
omit [DecidableEq Entry] [Inhabited Entry]
variable {map : SparseDeviceMap Entry} {page other : Nat}

theorem write_store_self {buf : Nat → Entry} :
    (map.writeThroughStaging backing buf).store backing = buf :=
  update_self _ _ _

theorem write_store_ne {target : Backing} {buf : Nat → Entry} (apart : target ≠ backing) :
    (map.writeThroughStaging backing buf).store target = map.store target :=
  update_of_ne apart _ _

theorem view_table_self : (map.view page backing).table page = some backing :=
  update_self _ _ _

theorem view_table_ne (apart : other ≠ page) :
    (map.view page backing).table other = map.table other :=
  update_of_ne apart _ _

end

/-- The constant page for a device, created on first use. -/
def constFor : Nat × SparseDeviceMap Entry :=
  match map.consts.findIdx? (· = dev) with
  | some const => (const, map)
  | none =>
    (map.consts.length, { map.writeThroughStaging (.const map.consts.length) (fun _ => dev) with
        consts := map.consts ++ [dev] })

/-- A free page of the pool; a new object hands out its low pages first. -/
def allocSlot : Nat × SparseDeviceMap Entry :=
  match map.free with
  | slot :: rest => (slot, { map with free := rest })
  | [] =>
    let fresh := (List.range poolPages).map (map.pool * poolPages + ·)
    (fresh.headD 0, { map with pool := map.pool + 1, free := fresh.tail })

def release : PageState → SparseDeviceMap Entry
  | .privatePage slot => { map with free := slot :: map.free }
  | _ => map

omit [DecidableEq Entry] [Inhabited Entry] in
theorem release_eq (old : PageState) :
    map.release old = { map with free := match old with
      | .privatePage slot => slot :: map.free
      | _ => map.free } := by
  cases old <;> rfl

/-- A view is replaced in one step, and the page it was a view of released. -/
def remap (backing : Backing) (state : PageState) : SparseDeviceMap Entry :=
  ((map.view page backing).setPage page state).release (map.pages page)

/-- Point a whole page at a device. What is not mapped yet is left to the first access. -/
def mapConst : SparseDeviceMap Entry :=
  let (const, map) := map.constFor dev
  match map.pages page with
  | .unmapped => map.setPage page (.lazy const)
  | .lazy old => if old = const then map else map.setPage page (.lazy const)
  | .const old => if old = const then map else map.remap page (.const const) (.const const)
  | .privatePage _ => map.remap page (.const const) (.const const)

/-- A load through the table; nothing where the page is not mapped. -/
def load : Option Entry :=
  (map.table (slot / map.perPage)).map fun backing => map.store backing (slot % map.perPage)

/-- What a page holds. An untouched one holds the default device, which has to be set. -/
def contents : Option (Nat → Entry) :=
  match map.pages page with
  | .unmapped => map.defaultConst.map fun const _ => map.device const
  | .const const => some fun _ => map.device const
  | .lazy const => some fun _ => map.device const
  | .privatePage _ => some fun i => (map.load (page * map.perPage + i)).getD default

def overwrite (buf : Nat → Entry) (lo hi : Nat) (dev : Entry) : Nat → Entry :=
  fun i => if lo ≤ i ∧ i < hi then dev else buf i

/-- Set entries `lo..hi` of a page. The new contents are written to a fresh pool page, unless
they are all one device. -/
def modify (lo hi : Nat) (dev : Entry) : Option (SparseDeviceMap Entry) :=
  match map.contents page with
  | none => none
  | some buf =>
    if (∀ i < hi, lo ≤ i → buf i = dev) ∧ map.pages page ≠ .unmapped then some map
    else
      let buf := overwrite buf lo hi dev
      if ∀ i < map.perPage, buf i = buf 0 then some (map.mapConst page (buf 0))
      else
        let (slot, map) := map.allocSlot
        some ((map.writeThroughStaging (.pool slot) buf).remap page (.pool slot) (.privatePage slot))

/-- The fault path: whether the page is mapped now, so that the access can be retried. -/
def fault : Bool × SparseDeviceMap Entry :=
  if slot < map.slots then
    let page := slot / map.perPage
    match map.pages page with
    | .lazy const => (true, (map.view page (.const const)).setPage page (.const const))
    | .const _ => (true, map)
    | .privatePage _ => (true, map)
    | .unmapped =>
      match map.defaultConst with
      | none => (false, map)
      | some const => (true, (map.view page (.const const)).setPage page (.const const))
  else (false, map)

/-- A load that may fault and is then retried. -/
def access : Option Entry × SparseDeviceMap Entry :=
  match map.load slot with
  | some dev => (some dev, map)
  | none =>
    let (mapped, map) := map.fault slot
    if mapped then (map.load slot, map) else (none, map)

def setDefault : SparseDeviceMap Entry :=
  let (const, map) := map.constFor dev
  { map with defaultConst := some const }

/-- The loop of `fill`, which stops where a page cannot be modified. Each turn goes on to
the next page, so as many turns as there are slots are enough. -/
def fillLoop (dev : Entry) (stop : Nat) : Nat → Nat → SparseDeviceMap Entry → SparseDeviceMap Entry
  | 0, _, map => map
  | turns + 1, slot, map =>
    if slot < stop then
      let page := slot / map.perPage
      let pageStart := page * map.perPage
      let hi := min stop (pageStart + map.perPage)
      if slot = pageStart ∧ hi = pageStart + map.perPage then
        fillLoop dev stop turns hi (map.mapConst page dev)
      else
        match map.modify page (slot - pageStart) (hi - pageStart) dev with
        | none => map
        | some map => fillLoop dev stop turns hi map
    else map

/-- Point `count` slots at a device. A range that escapes the table is refused. -/
def fill (first count : Nat) (dev : Entry) : SparseDeviceMap Entry :=
  if first + count ≤ map.slots then map.fillLoop dev (first + count) count first else map

/-- Point the slots of the bytes `start..stop` at a device. An empty range is refused. -/
def fillBytes (start stop : Nat) (dev : Entry) : SparseDeviceMap Entry :=
  if start < stop then
    let first := start >>> slotShift
    let last := (stop - 1) >>> slotShift
    map.fill first (last - first + 1) dev
  else map

/-! ### Reading the table -/

/-- The entry of a slot, without faulting an untouched page in. -/
def get : Option Entry :=
  match map.pages (slot / map.perPage) with
  | .unmapped => none
  | .lazy const => some (map.device const)
  | .const _ => some ((map.load slot).getD default)
  | .privatePage _ => some ((map.load slot).getD default)

/-- Whether the slots `slot..hi` of a page all answer with `dev`. -/
def pageMatches (page slot hi : Nat) : Bool :=
  match map.pages page with
  | .unmapped => false
  | .const const => decide (map.device const = dev)
  | .lazy const => decide (map.device const = dev)
  | .privatePage _ => decide (∀ s < hi, slot ≤ s → (map.load s).getD default = dev)

def allAreLoop (map : SparseDeviceMap Entry) (dev : Entry) (stop : Nat) : Nat → Nat → Bool
  | 0, _ => true
  | turns + 1, slot =>
    if slot < stop then
      let page := slot / map.perPage
      let hi := min stop ((page + 1) * map.perPage)
      if map.pageMatches dev page slot hi then map.allAreLoop dev stop turns hi else false
    else true

/-- Whether every slot of a range answers with `dev`. Untouched pages do not match. -/
def allAre (first count : Nat) (dev : Entry) : Bool :=
  map.allAreLoop dev (first + count) count first

/-- The loop over the entries of a mixed page: the runs so far, and the one being read. -/
def privateRun (start : Nat) (read : List (Run (Option Entry)) × Nat × Entry) (i : Nat) :
    List (Run (Option Entry)) × Nat × Entry :=
  let entry := (map.load (start + i)).getD default
  if entry = read.2.2 then read
  else (push read.2.1 (start + i) (some read.2.2) read.1, start + i, entry)

def pageRuns (out : List (Run (Option Entry))) (page : Nat) : List (Run (Option Entry)) :=
  let start := page * map.perPage
  match map.pages page with
  | .unmapped => push start (start + map.perPage) none out
  | .const const => push start (start + map.perPage) (some (map.device const)) out
  | .lazy const => push start (start + map.perPage) (some (map.device const)) out
  | .privatePage _ =>
    let read := (List.range' 1 (map.perPage - 1)).foldl (map.privateRun start)
      (out, start, (map.load start).getD default)
    push read.2.1 (start + map.perPage) (some read.2.2) read.1

/-- The table as runs of equal entries, untouched pages without one. -/
def runs : List (Run (Option Entry)) :=
  (List.range map.npages).foldl map.pageRuns []

end SparseDeviceMap

/-! ### Runs of calls -/

/-- A call on the table, or a load or fault of some thread. -/
inductive Op (Entry : Type)
  | fill (first count : Nat) (dev : Entry)
  | fillBytes (start stop : Nat) (dev : Entry)
  | load (slot : Nat)
  | fault (slot : Nat)

namespace SparseDeviceMap
variable {Entry : Type} [DecidableEq Entry] [Inhabited Entry]

def step (map : SparseDeviceMap Entry) : Op Entry → SparseDeviceMap Entry
  | .fill first count dev => map.fill first count dev
  | .fillBytes start stop dev => map.fillBytes start stop dev
  | .load slot => (map.access slot).2
  | .fault slot => (map.fault slot).2

end SparseDeviceMap

end Iris.Ppmem
