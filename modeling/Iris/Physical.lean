import Iris.Ppmem.FlatArray

/-!
Owns the physical bus as a memory controller uses it: the decode table over the RAM banks,
views of a bank counted from a place of the bus, and the window the banks are mapped into
directly. On the table the bus is a flat array of entries.
-/

namespace Iris

open Ppmem

def physBits : Nat := 40

/-- The window: the first 4 GB of the physical address space. -/
def windowSize : Nat := 2 ^ 32

/-- What a slot of the table points at: a RAM bank answering `delta` bytes up the bus, memory
that reads zero, or another device. -/
inductive Physical.Entry
  | bankView (bank delta : Nat)
  | unmapped
  | device (name : Nat)
deriving DecidableEq, Repr, Inhabited

/-- What an access reaches: a byte of a bank, memory that reads zero, or a device. -/
inductive Physical.Target
  | ram (bank offset : Nat)
  | zero
  | device (name : Nat)
deriving DecidableEq, Repr

/-- The bus. `banks` are the sizes of the RAM banks; `window` says what each address of the
window is mapped to, if there is one. -/
structure Physical where
  banks : List Nat
  devmap : SparseDeviceMap Physical.Entry
  defaultDevice : Physical.Entry
  window : Option (Nat → Option (Nat × Nat))

namespace Physical

/-- The address a bank sees through a view, wrapped at its size, which is a power of two. -/
def Entry.target (banks : List Nat) (addr : Nat) : Entry → Target
  | .bankView bank delta =>
    .ram bank ((addr + 2 ^ 64 - delta) % 2 ^ 64 &&& ((banks.getD bank 0) - 1))
  | .unmapped => .zero
  | .device name => .device name

/-- A bus over the banks, with a table of `npages` pages of `perPage` slots and, if it could be
reserved, a window. -/
def new (perPage npages : Nat) (windowed : Bool) (banks : List Nat) (dflt : Entry) : Physical :=
  let devmap := (SparseDeviceMap.new perPage npages).setDefault dflt
  { banks
    devmap := devmap.fill 0 (2 ^ (32 - slotShift)) dflt
    defaultDevice := dflt
    window := if windowed then some fun _ => none else none }

section
variable (perPage npages : Nat) (windowed : Bool) (banks : List Nat) (dflt : Entry)

@[simp] theorem new_banks : (new perPage npages windowed banks dflt).banks = banks := by
  rw [new]

@[simp] theorem new_defaultDevice :
    (new perPage npages windowed banks dflt).defaultDevice = dflt := by
  rw [new]

end

variable (phys : Physical)

/-- Point slots at an entry, unless they already all answer that way. -/
def fillSlots (first count : Nat) (entry : Entry) : Physical :=
  if phys.devmap.allAre first count entry then phys
  else { phys with devmap := phys.devmap.fill first count entry }

def slotOf (addr : Nat) : Nat := (addr % 2 ^ physBits) >>> slotShift

theorem slotOf_lt : slotOf addr < 2 ^ (physBits - slotShift) := by
  rw [slotOf, Nat.shiftRight_eq_div_pow, Nat.div_lt_iff_lt_mul (Nat.two_pow_pos _)]
  exact Nat.mod_lt _ (Nat.two_pow_pos _)

/-- An access: the entry that answers, and the table once its page is mapped. -/
def access (addr : Nat) : Option Entry × Physical :=
  let (entry, devmap) := phys.devmap.access (slotOf addr)
  (entry, { phys with devmap })

def entryAt (addr : Nat) : Option Entry := (phys.access addr).1

def target (addr : Nat) : Option Target :=
  (phys.entryAt addr).map (Entry.target phys.banks addr)

def clearMappings : Physical :=
  { phys with window := phys.window.map fun _ _ => none }

/-- Map a run of a bank into the window. A run that escapes the bank or the window is
refused. -/
def mapRange (bank src offset size : Nat) : Physical :=
  if src + size ≤ phys.banks.getD bank 0 ∧ offset + size ≤ windowSize then
    { phys with
      window := phys.window.map fun window p =>
        if offset ≤ p ∧ p < offset + size then some (bank, src + (p - offset)) else window p }
  else phys

section
variable (phys : Physical) (first count bank src offset size : Nat) (entry : Entry)

@[simp] theorem fillSlots_banks : (phys.fillSlots first count entry).banks = phys.banks := by
  rw [fillSlots]
  split <;> rfl

@[simp] theorem fillSlots_defaultDevice :
    (phys.fillSlots first count entry).defaultDevice = phys.defaultDevice := by
  rw [fillSlots]
  split <;> rfl

@[simp] theorem fillSlots_window : (phys.fillSlots first count entry).window = phys.window := by
  rw [fillSlots]
  split <;> rfl

@[simp] theorem mapRange_banks : (phys.mapRange bank src offset size).banks = phys.banks := by
  rw [mapRange]
  split <;> rfl

@[simp] theorem mapRange_defaultDevice :
    (phys.mapRange bank src offset size).defaultDevice = phys.defaultDevice := by
  rw [mapRange]
  split <;> rfl

@[simp] theorem mapRange_devmap : (phys.mapRange bank src offset size).devmap = phys.devmap := by
  rw [mapRange]
  split <;> rfl

end

/-! ### The bus as an array -/

/-- The table holds this array, in a space of `2 ^ 28` slots. -/
def Shows (array : Nat → Entry) : Prop :=
  (∃ touched, SparseDeviceMap.Inv phys.devmap phys.defaultDevice array touched) ∧
    phys.devmap.slots = 2 ^ (physBits - slotShift)

section
variable {phys : Physical} {array : Nat → Entry}

section
variable (table : phys.Shows array) {first count : Nat} (entry : Entry)
  (fits : first + count ≤ 2 ^ (physBits - slotShift))
include table fits

theorem Shows.fill :
    ({ phys with devmap := phys.devmap.fill first count entry } : Physical).Shows
      (SparseDeviceMap.overwrite array first (first + count) entry) := by
  obtain ⟨⟨touched, inv⟩, slots⟩ := table
  obtain ⟨filled, perPage, npages⟩ := inv.fill entry
  refine ⟨⟨_, filled.congr (fun slot => ?_) fun _ => Iff.rfl⟩, ?_⟩
  · rw [Op.filled, SparseDeviceMap.overwrite, slots]
    by_cases covers : first ≤ slot ∧ slot < first + count
    · rw [if_pos covers, if_pos ⟨fits, covers⟩, Option.getD_some]
    · rw [if_neg covers, if_neg fun both => covers both.2, Option.getD_none]
  · rw [SparseDeviceMap.slots, perPage, npages]
    exact slots

theorem Shows.fillSlots :
    (phys.fillSlots first count entry).Shows
      (SparseDeviceMap.overwrite array first (first + count) entry) := by
  rw [Physical.fillSlots]
  split
  next already =>
    obtain ⟨⟨touched, inv⟩, slots⟩ := table
    refine ⟨⟨touched, inv.congr (fun slot => ?_) fun _ => Iff.rfl⟩, slots⟩
    rw [SparseDeviceMap.overwrite]
    split
    next covers =>
      have got := (inv.allAre first entry).mp already slot covers.1 covers.2
      by_cases known : touched (slot / phys.devmap.perPage)
      · exact Option.some.inj (((inv.get slot).1 known).symm.trans got)
      · cases ((inv.get slot).2 known).symm.trans got
    · rfl
  · exact table.fill entry fits

end

theorem Shows.access (table : phys.Shows array) (addr : Nat) :
    phys.entryAt addr = some (array (slotOf addr)) ∧ (phys.access addr).2.Shows array := by
  obtain ⟨⟨touched, inv⟩, slots⟩ := table
  have inside : slotOf addr < phys.devmap.slots := slots ▸ slotOf_lt
  obtain ⟨answer, later, perPage, npages⟩ := inv.access inside
  refine ⟨answer, ⟨_, later⟩, ?_⟩
  change (phys.devmap.access _).2.slots = _
  rw [SparseDeviceMap.slots, perPage, npages]
  exact slots

theorem Shows.of_devmap {later : Physical} (table : phys.Shows array)
    (devmap : later.devmap = phys.devmap) (dflt : later.defaultDevice = phys.defaultDevice) :
    later.Shows array := by
  rw [Shows, devmap, dflt]
  exact table

theorem Shows.congr (table : phys.Shows array) {array' : Nat → Entry}
    (same : ∀ slot, array slot = array' slot) : phys.Shows array' := by
  obtain ⟨⟨touched, inv⟩, slots⟩ := table
  exact ⟨⟨touched, inv.congr same fun _ => Iff.rfl⟩, slots⟩

end

/-- The slots of a block of `n` slots are those of the addresses in it. -/
theorem block_slots (positive : 0 < n) (aligned : place % (n <<< slotShift) = 0) :
    place >>> slotShift ≤ slot ∧ slot < place >>> slotShift + n ↔
      slot / n * (n <<< slotShift) = place := by
  obtain ⟨k, rfl⟩ := Nat.dvd_of_mod_eq_zero aligned
  have first : (n <<< slotShift * k) >>> slotShift = k * n := by
    rw [Nat.shiftLeft_eq, Nat.shiftRight_eq_div_pow, Nat.mul_right_comm,
      Nat.mul_div_cancel _ (Nat.two_pow_pos _), Nat.mul_comm]
  have size : 0 < n <<< slotShift := by
    rw [Nat.shiftLeft_eq]
    exact Nat.mul_pos positive (Nat.two_pow_pos _)
  rw [first, Nat.mul_comm _ k, Nat.mul_left_inj (Nat.ne_of_gt size), Nat.div_eq_iff positive]
  omega

theorem Shows.fillBlock {phys : Physical} {array : Nat → Entry} (table : phys.Shows array)
    {place : Nat} (positive : 0 < n) (aligned : place % (n <<< slotShift) = 0)
    (fits : place >>> slotShift + n ≤ 2 ^ (physBits - slotShift)) :
    (phys.fillSlots (place >>> slotShift) n entry).Shows fun slot =>
      if slot / n * (n <<< slotShift) = place then entry else array slot :=
  (table.fillSlots entry fits).congr fun _ =>
    if_congr (block_slots positive aligned) rfl rfl

theorem new_shows {npages : Nat} (positive : 0 < perPage)
    (whole : npages * perPage = 2 ^ (physBits - slotShift)) (windowed : Bool) {banks : List Nat}
    {dflt : Entry} : (new perPage npages windowed banks dflt).Shows fun _ => dflt := by
  have inv := @SparseDeviceMap.setDefault_inv _ _ _ perPage npages positive dflt
  have slots : ((SparseDeviceMap.new perPage npages).setDefault dflt).slots =
      2 ^ (physBits - slotShift) := by
    exact whole
  have empty : ({ banks, devmap := (SparseDeviceMap.new perPage npages).setDefault dflt,
                  defaultDevice := dflt,
                  window := if windowed then some fun _ => none else none } : Physical).Shows
      fun _ => dflt := ⟨⟨_, inv⟩, slots⟩
  refine (empty.fill dflt (by decide)).congr fun slot => ?_
  rw [SparseDeviceMap.overwrite]
  split <;> rfl

end Physical

end Iris
