import Iris.Heart.Placement

/-!
Owns where HEART's memory is: after any writes of the descriptors, the processor's bus, low
memory, the bus masters' view and the window all reach what the decode of an address tells.
-/

namespace Iris.Heart

open Ppmem Physical Library.Run List Option

/-! ### The banks fitted -/

variable {addr : Nat} {bank : Fin 4} {banks : List Nat} (words : Fin 4 → BitVec 32)

section
variable {size : Fin 4 → Nat}

theorem fitted_succ (present : size bank ≠ 0) :
    fitted size (bank + 1) = fitted size bank ++ [size bank] := by
  rw [fitted, fitted, take_add_one]
  simp [present]

theorem fitted_split {below : Nat} (present : size bank ≠ 0) (later : bank < below) :
    ∃ rest, fitted size below = fitted size bank ++ size bank :: rest := by
  have front : fitted size (bank + 1) <+: fitted size below :=
    ((take_prefix_take_left later).map size).filter _
  obtain ⟨rest, joined⟩ := front
  rw [fitted_succ present, append_assoc] at joined
  exact ⟨rest, joined.symm⟩

/-- A fitted bank has its own place among those of the bus. -/
theorem fitted_injective (present : size bank ≠ 0) (present' : size bank' ≠ 0)
    (same : (fitted size bank).length = (fitted size bank').length) : bank = bank' := by
  have apart {one other : Fin 4} (present : size one ≠ 0) (later : one < other) :
      (fitted size one).length < (fitted size other).length := by
    obtain ⟨rest, joined⟩ := fitted_split present later
    rw [joined, length_append, length_cons]
    omega
  rcases Nat.lt_trichotomy bank bank' with before | equal | after
  · exact absurd same (Nat.ne_of_lt (apart present before))
  · exact Fin.ext equal
  · exact absurd same.symm (Nat.ne_of_lt (apart present' after))

theorem fitted_getD (present : size bank ≠ 0) :
    (fitted size 4).getD (fitted size bank).length 0 = size bank := by
  obtain ⟨rest, joined⟩ := fitted_split present bank.isLt
  rw [joined, getD_append_right _ _ _ _ le_rfl, Nat.sub_self, getD_cons_zero]

theorem capacity_of_power (low : 64 <<< 20 ≤ s) (high : s ≤ 2 <<< 30) (power : s = 2 ^ s.log2) :
    Capacity s := by
  rw [power] at low high ⊢
  generalize s.log2 = n at low high ⊢
  rw [Capacity]
  have above : 26 ≤ n := (Nat.pow_le_pow_iff_right (by decide : 1 < 2)).mp low
  have below : n ≤ 31 := (Nat.pow_le_pow_iff_right (by decide : 1 < 2)).mp high
  have cases : n = 26 ∨ n = 27 ∨ n = 28 ∨ n = 29 ∨ n = 30 ∨ n = 31 := by omega
  rcases cases with rfl | rfl | rfl | rfl | rfl | rfl <;> decide

theorem checkBanks_capacity {banks : List (Fin 4)} (legal : checkBanks size banks total = .ok ()) :
    ∀ bank ∈ banks, size bank ≠ 0 → Capacity (size bank) := by
  induction banks generalizing total with
  | nil => exact nofun
  | cons bank rest inductionHypothesis =>
    rw [checkBanks] at legal
    split at legal
    · cases legal
    next taken =>
      split at legal
      · cases legal
      intro other member present
      rcases mem_cons.mp member with rfl | member
      · by_contra refused
        refine taken ⟨present, ?_⟩
        by_contra allowed
        rw [not_or, not_not, not_not] at allowed
        exact refused (capacity_of_power allowed.1.1 allowed.1.2 allowed.2)
      · exact inductionHypothesis legal other member present

end

variable {window : Nat → Option (Nat × Nat)} {windowed : Bool}

namespace HeartRam
variable {heart : HeartRam}

/-- The banks of the bus are those fitted. -/
structure Fitted (heart : HeartRam) : Prop where
  capacity : ∀ bank, heart.size bank ≠ 0 → Capacity (heart.size bank)
  index : ∀ bank, heart.index bank =
    if heart.size bank = 0 then none else some (fitted heart.size bank).length
  banks : heart.phys.banks = fitted heart.size 4

theorem Fitted.absent (banks : heart.Fitted) (empty : heart.size bank = 0) :
    heart.index bank = none := by
  rw [banks.index, if_pos empty]

theorem Fitted.present (banks : heart.Fitted) (present : heart.size bank ≠ 0) :
    heart.index bank = some (fitted heart.size bank).length ∧
      heart.phys.banks.getD (fitted heart.size bank).length 0 = heart.size bank := by
  rw [banks.index, if_neg present, banks.banks]
  exact ⟨rfl, fitted_getD present⟩

/-! ### The rebuild -/

theorem winner_claims (wins : heart.winner addr = some bank) : heart.Claims bank addr := by
  simpa using find?_some wins

/-- A claimed unit is one of the descriptor's. -/
theorem units_claimed (aligned : place % unit = 0) (claims : heart.Claims bank place) :
    descBase (heart.desc bank) + (place - descBase (heart.desc bank)) / unit * unit = place ∧
      (place - descBase (heart.desc bank)) / unit < 64 := by
  obtain ⟨-, low, inside⟩ := claims
  have whole := mod_sub aligned descBase_aligned low
  obtain ⟨span, small⟩ := descSpan_div (heart.desc bank)
  rw [← span] at inside
  have split := Nat.div_add_mod (place - descBase (heart.desc bank)) unit
  rw [Nat.mul_comm] at split
  exact ⟨by omega, Nat.lt_of_lt_of_le ((Nat.div_lt_iff_lt_mul unit_pos).mpr inside) small⟩

theorem Fitted.fits (banks : heart.Fitted) {place : Nat} (aligned : place % unit = 0)
    {entry : Entry} {i : Nat} (placed : heart.units place = some (entry, some (i, src))) :
    src + unit ≤ heart.phys.banks.getD i 0 := by
  rw [units_apply aligned] at placed
  obtain ⟨bank, wins, given⟩ := map_eq_some_iff.mp placed
  rw [placing] at given
  by_cases empty : heart.size bank = 0
  · rw [banks.absent empty] at given
    cases given
  obtain ⟨index, size⟩ := banks.present empty
  rw [index] at given
  obtain ⟨-, run⟩ := Prod.mk.inj given
  cases some.inj run
  rw [size]
  obtain ⟨-, small⟩ := units_claimed aligned (winner_claims wins)
  exact (run_of_capacity (banks.capacity bank empty) small).fits

/-- The memory is where these units say, with banks of these sizes. -/
structure PlacedAs (heart : HeartRam) (units : Nat → Option Placing) (size : Fin 4 → Nat)
    (windowed : Bool) (dflt : Entry) : Prop where
  size : heart.size = size
  banks : heart.Fitted
  device : heart.phys.defaultDevice = dflt
  table : heart.phys.Shows (tableOf units dflt)
  window : Window heart.phys windowed fun p => shown units p none
  placed : heart.placed = unitAddrs.filter fun place => (units place).isSome

/-- The memory is where the descriptors say. -/
abbrev Placed (heart : HeartRam) : (Fin 4 → Nat) → Bool → Entry → Prop :=
  heart.PlacedAs heart.units

variable {keys : List Nat} {old units : Nat → Option Placing} {size : Fin 4 → Nat} {dflt : Entry}

section
variable {phys : Physical} {array : Nat → Entry}

theorem putBack_all (nodup : keys.Nodup) (known : ∀ key ∈ keys, key ∈ unitAddrs)
    (frame : Frame banks dflt phys) (before : Window phys windowed window)
    (table : phys.Shows array) :
    (Frame banks dflt (keys.foldl (putBack units) phys) ∧
      Window (keys.foldl (putBack units) phys) windowed window) ∧
    (keys.foldl (putBack units) phys).Shows fun slot => if unitOf slot ∈ keys then
      (if (units (unitOf slot)).isSome then array slot else dflt) else array slot := by
  refine foldl_blocks (fun (phys : Physical) array =>
    (Frame banks dflt phys ∧ Window phys windowed window) ∧ phys.Shows array) unitOf
    (fun slot entry => if (units (unitOf slot)).isSome then entry else dflt)
    nodup (fun key member phys array state => ?_) ⟨⟨frame, before⟩, table⟩
  obtain ⟨⟨frame, before⟩, table⟩ := state
  exact ⟨⟨frame.putBack, (putBack_window units).trans before⟩,
    putBack_shows (known key member) table frame.device⟩

theorem placeUnit_all (nodup : keys.Nodup) (known : ∀ key ∈ keys, key ∈ unitAddrs)
    (fits : ∀ key ∈ keys, ∀ entry i src, units key = some (entry, some (i, src)) →
      src + unit ≤ banks.getD i 0)
    (frame : Frame banks dflt phys) (table : phys.Shows array)
    (before : Window phys windowed window) :
    Frame banks dflt (keys.foldl (placeUnit units) phys) ∧
    (keys.foldl (placeUnit units) phys).Shows (fun slot => if unitOf slot ∈ keys then
      ((units (unitOf slot)).map Prod.fst).getD (array slot) else array slot) ∧
    Window (keys.foldl (placeUnit units) phys) windowed fun p =>
      if p / unit * unit ∈ keys then shown units p (window p) else window p := by
  have tables := foldl_blocks (fun (phys : Physical) array => Frame banks dflt phys ∧
    phys.Shows array) unitOf (fun slot entry => ((units (unitOf slot)).map Prod.fst).getD entry)
    nodup (fun key member phys array state =>
      ⟨state.1.placeUnit, placeUnit_shows (known key member) state.2⟩) ⟨frame, table⟩
  have windows := foldl_blocks (fun (phys : Physical) window => Frame banks dflt phys ∧
    Window phys windowed window) (fun p => p / unit * unit) (shown units)
    nodup (fun key member phys window state => ⟨state.1.placeUnit,
      placeUnit_window (known key member)
        (fun entry i src given => state.1.banks ▸ fits key member entry i src given) state.2⟩)
    ⟨frame, before⟩
  exact ⟨tables.1, tables.2, windows.2⟩

end

theorem Window.congr {phys : Physical} {later : Nat → Option (Nat × Nat)}
    (before : Window phys windowed window) (same : ∀ p, window p = later p) :
    Window phys windowed later :=
  funext same ▸ before

theorem Window.clearMappings {phys : Physical} (before : Window phys windowed window) :
    Window phys.clearMappings windowed fun _ => none := by
  rw [Window, Physical.clearMappings, before]
  cases windowed <;> rfl

/-- What was in the slots before a rebuild does not matter. -/
theorem tableOf_rebuilt {before : List Nat}
    (known : ∀ place, place ∈ before ↔ (old place).isSome = true)
    (known' : ∀ place, place ∈ keys ↔ (units place).isSome = true)
    (guard : ¬(ramBase >>> slotShift ≤ slot ∧ slot < ramBase >>> slotShift + lowSize >>> slotShift))
    (low : ¬slot < lowSize >>> slotShift) (rest : ¬slot < lowWindow >>> slotShift) :
    (if unitOf slot ∈ keys then
      ((units (unitOf slot)).map Prod.fst).getD
        (if unitOf slot ∈ before then
          (if (units (unitOf slot)).isSome then tableOf old dflt slot else dflt)
        else tableOf old dflt slot)
    else if unitOf slot ∈ before then
      (if (units (unitOf slot)).isSome then tableOf old dflt slot else dflt)
    else tableOf old dflt slot) = ((units (unitOf slot)).map Prod.fst).getD dflt := by
  cases now : units (unitOf slot) with
  | some placing =>
    rw [if_pos ((known' _).mpr (by rw [now]; rfl))]
    rfl
  | none =>
    rw [if_neg (mt (known' _).mp (by rw [now]; simp))]
    cases was : old (unitOf slot) with
    | some placing =>
      rw [if_pos ((known _).mpr (by rw [was]; rfl))]
      rfl
    | none =>
      rw [if_neg (mt (known _).mp (by rw [was]; simp)), tableOf, if_neg guard, if_neg low,
        if_neg rest, was]

theorem mem_placed
    (known : ∀ place, (units place).isSome = true → place ∈ unitAddrs) (place : Nat) :
    place ∈ unitAddrs.filter (fun place => (units place).isSome) ↔ (units place).isSome = true := by
  rw [mem_filter]
  exact and_iff_right_of_imp (known place)

/-- The units depend only on the banks and on the bits of the descriptors that are compared. -/
theorem units_congr {later : HeartRam} (size : later.size = heart.size)
    (index : later.index = heart.index)
    (same : ∀ bank, decoded (later.desc bank) = decoded (heart.desc bank)) :
    later.units = heart.units := by
  have inserts : later.insertBank = heart.insertBank := by
    funext units bank
    obtain ⟨valid, fields⟩ := decoded_fields (same bank)
    refine ite_congr (propext valid) (fun _ => rfl) fun invalid => ?_
    obtain ⟨base, span, offsets⟩ := fields (mt valid.mp invalid)
    have given (k : Nat) : later.placing bank k = heart.placing bank k := by
      rw [placing, placing, index, size, base, offsets]
    simp only [base, span, given]
  rw [units, units, inserts]

/-- The rebuild places the memory anew, wherever it was. -/
theorem rebuild_placed (before : heart.PlacedAs old size windowed dflt)
    (known : ∀ place, (old place).isSome = true → place ∈ unitAddrs) :
    heart.rebuild.Placed size windowed dflt := by
  have filtered (units : Nat → Option Placing) :
      (unitAddrs.filter fun place => (units place).isSome).Nodup :=
    unitAddrs_nodup.filter _
  have member (units : Nat → Option Placing) (key : Nat)
      (kept : key ∈ unitAddrs.filter fun place => (units place).isSome) : key ∈ unitAddrs :=
    (mem_filter.mp kept).1
  have cleared : heart.phys.clearMappings.Shows (tableOf old dflt) := before.table.of_devmap rfl rfl
  have start : Frame heart.phys.banks dflt heart.phys.clearMappings := ⟨rfl, before.device⟩
  obtain ⟨⟨frame, empty⟩, back⟩ := @putBack_all _ _ _ _ heart.units _ _ _ (filtered old)
    (member old) start before.window.clearMappings cleared
  obtain ⟨frame, there, shows⟩ := placeUnit_all (filtered heart.units) (member heart.units)
    (fun key kept entry i src given =>
      before.banks.fits (unitAddrs_aligned (member _ key kept)).1 given) frame back empty
  rw [← before.placed] at frame there shows
  have units : heart.rebuild.units = heart.units := by
    rw [rebuild]
    exact units_congr rfl rfl fun _ => rfl
  rw [Placed, units, rebuild]
  generalize (unitAddrs.filter fun place => (heart.units place).isSome).foldl
    (placeUnit heart.units) (heart.placed.foldl (putBack heart.units) heart.phys.clearMappings) =
      phys at frame there shows ⊢
  have low := frame.placeLow heart.units
  refine ⟨before.size, { before.banks with banks := low.banks.trans before.banks.banks },
    low.device, ?_, placeLow_window.trans (shows.congr fun p => ?_), by dsimp only⟩
  · refine (placeLow_shows there frame.device).congr fun slot => ?_
    refine ite_congr rfl (fun _ => rfl) fun guard => ite_congr rfl (fun _ => rfl) fun low =>
      ite_congr rfl (fun _ => rfl) fun rest => ?_
    refine tableOf_rebuilt (fun place => ?_) (mem_placed fun _ => units_mem) guard low rest
    rw [before.placed]
    exact mem_placed known place
  · split
    · rfl
    next outside =>
      rw [mem_placed fun _ => units_mem, not_isSome_iff_eq_none] at outside
      rw [shown, outside]

theorem fresh_placed {phys : Physical} {noMemory : Nat}
    (legal : checkBanks size (finRange 4) 0 = .ok ()) (banks : phys.banks = fitted size 4)
    (device : phys.defaultDevice = .device noMemory) (table : phys.Shows fun _ => .device noMemory)
    (window : Window phys windowed fun _ => none) :
    let heart : HeartRam :=
      { phys, size
        index := fun bank => if size bank = 0 then none else some (fitted size bank).length }
    heart.rebuild.Placed size windowed (.device noMemory) := by
  have capacity := checkBanks_capacity legal
  have empty : unitAddrs.filter (fun _ => (none : Option Placing).isSome) = [] :=
    filter_eq_nil_iff.mpr fun _ _ => by simp
  refine @rebuild_placed _ ⟨phys, size, _, _, _⟩ (fun _ => none) _ _ ⟨rfl,
    ⟨fun bank => capacity bank (mem_finRange bank), fun _ => rfl, banks⟩, device,
    table.congr fun slot => ?_, window, empty.symm⟩ nofun
  rw [tableOf]
  split
  · rfl
  · split
    · rfl
    · split <;> rfl

theorem tryNew_placed {perPage : Nat} (positive : 0 < perPage)
    (whole : npages * perPage = 2 ^ (physBits - slotShift)) {banksMb : Fin 4 → Nat}
    (made : tryNew perPage npages windowed noMemory banksMb = .ok heart) :
    heart.Placed (fun bank => banksMb bank <<< 20) windowed (.device noMemory) := by
  rw [tryNew] at made
  split at made
  · cases made
  next legal =>
    rw [← Except.ok.inj made]
    exact fresh_placed legal (new_banks _ _ _ _ _) (new_defaultDevice _ _ _ _ _)
      (new_shows positive whole _) rfl

/-! ### Runs -/

theorem setMemcfg_placed (before : heart.Placed size windowed dflt) :
    (heart.setMemcfg words).Placed size windowed dflt := by
  have written : ({ heart with desc := words } : HeartRam).PlacedAs heart.units size windowed dflt :=
    { before with banks := { before.banks with } }
  rw [setMemcfg]
  split
  next same =>
    rw [Placed, @units_congr heart { heart with desc := words } rfl rfl fun bank => (same bank).symm]
    exact written
  · exact rebuild_placed written fun _ => units_mem

/-- What happens to the memory: the descriptors are written, or an access is made, which maps
the page of the table it falls in. -/
inductive Op
  | setMemcfg (words : Fin 4 → BitVec 32)
  | access (addr : Nat)

def step (heart : HeartRam) : Op → HeartRam
  | .setMemcfg words => heart.setMemcfg words
  | .access addr => { heart with phys := (heart.phys.access addr).2 }

theorem step_placed (before : heart.Placed size windowed dflt) (op : Op) :
    (heart.step op).Placed size windowed dflt := by
  cases op with
  | setMemcfg words => exact setMemcfg_placed words before
  | access addr =>
    rw [Placed, @units_congr heart (heart.step _) rfl rfl fun _ => rfl]
    exact { before with
      banks := { before.banks with }
      table := (before.table.access addr).2 }

theorem run_placed (before : heart.Placed size windowed dflt) (ops : List Op) :
    (ops.foldl step heart).Placed size windowed dflt := by
  induction ops generalizing heart with
  | nil => exact before
  | cons op rest inductionHypothesis => exact inductionHypothesis (step_placed before op)

/-! ### What is reached -/

theorem claims_unit : heart.Claims bank addr ↔ heart.Claims bank (addr / unit * unit) := by
  obtain ⟨span, -⟩ := descSpan_div (heart.desc bank)
  obtain ⟨b, base⟩ := Nat.dvd_of_mod_eq_zero descBase_aligned
  rw [Claims, Claims, ← span, base]
  have size : unit = 33554432 := by decide
  rw [size]
  refine and_congr_right fun _ => ?_
  omega

theorem winner_unit (addr : Nat) : heart.winner addr = heart.winner (addr / unit * unit) := by
  rw [winner]
  congr 1
  funext bank
  rw [decide_eq_decide]
  exact claims_unit

/-- What a unit was given, and how the addresses in it decode. -/
theorem unit_cases (banks : heart.Fitted) (addr : Nat) :
    (heart.units (addr / unit * unit) = none ∧ heart.decode addr = .none) ∨
    (heart.units (addr / unit * unit) = some (.unmapped, none) ∧ heart.decode addr = .absent) ∨
    ∃ bank src, heart.size bank ≠ 0 ∧ src + unit ≤ heart.size bank ∧ src ≤ addr / unit * unit ∧
      heart.units (addr / unit * unit) = some (.bankView (fitted heart.size bank).length
        (addr / unit * unit - src), some ((fitted heart.size bank).length, src)) ∧
      heart.decode addr = .ram bank (src + addr % unit) := by
  have aligned := Nat.mul_mod_left (addr / unit) unit
  rw [units_apply aligned, decode_eq, winner_unit addr]
  cases wins : heart.winner (addr / unit * unit) with
  | none => exact .inl ⟨rfl, rfl⟩
  | some bank =>
    have claims := winner_claims wins
    obtain ⟨place, small⟩ := units_claimed aligned claims
    rw [map_some, map_some, claimed, placing]
    generalize (addr / unit * unit - descBase (heart.desc bank)) / unit = k at place small ⊢
    by_cases empty : heart.size bank = 0
    · rw [banks.absent empty, if_pos empty]
      exact .inr (.inl ⟨rfl, rfl⟩)
    obtain ⟨index, -⟩ := banks.present empty
    obtain ⟨within, fits, before⟩ :=
      run_of_capacity (banks.capacity bank empty) small
    have offset : addr - descBase (heart.desc bank) = k * unit + addr % unit := by
      have whole := Nat.div_add_mod addr unit
      rw [Nat.mul_comm] at whole
      omega
    rw [index, if_neg empty, place, offset, within _ (Nat.mod_lt _ unit_pos)]
    exact .inr (.inr ⟨bank, _, empty, fits, by omega, rfl, rfl⟩)

theorem view_target {size src : Nat} (bank : banks.getD i 0 = size) (capacity : Capacity size)
    (fits : src + unit ≤ size) (inside : x < unit)
    (view : (addr + 2 ^ 64 - delta) % 2 ^ 64 = src + x) :
    (Entry.bankView i delta).target banks addr = .ram i (src + x) := by
  obtain ⟨n, -, rfl⟩ := capacity.power
  rw [Entry.target, view, bank, Nat.and_two_pow_sub_one_eq_mod, Nat.mod_eq_of_lt (by omega)]

end HeartRam

def Decode.answer (size : Fin 4 → Nat) (noMemory : Nat) : Decode → Target
  | .ram bank offset => .ram (fitted size bank).length offset
  | .absent => .zero
  | .none => .device noMemory

/-- The byte of memory a decode names, if there is one. -/
def Decode.memory (size : Fin 4 → Nat) : Decode → Option (Nat × Nat)
  | .ram bank offset => some ((fitted size bank).length, offset)
  | _ => Option.none

namespace HeartRam
variable {heart : HeartRam} {noMemory : Nat} {units : Nat → Option Placing} {size : Fin 4 → Nat}
  {dflt : Entry}

theorem target_eq (placed : heart.Placed size windowed dflt) (below : addr < sdramEnd) :
    heart.phys.entryAt addr = some (tableOf heart.units dflt (addr >>> slotShift)) := by
  have slot : slotOf addr = addr >>> slotShift := by
    rw [slotOf, Nat.mod_eq_of_lt (below.trans (by decide))]
  rw [(placed.table.access addr).1, slot]

/-- Above the guard the slots are those of the units. -/
theorem tableOf_above (above : ramBase + lowSize ≤ addr) :
    tableOf units dflt (addr >>> slotShift) =
      ((units (addr / unit * unit)).map Prod.fst).getD dflt := by
  have unitOf_slot : unitOf (addr >>> slotShift) = addr / unit * unit := by
    rw [unitOf, Nat.shiftRight_eq_div_pow, Nat.div_div_eq_div_mul]
    rfl
  have sizes : lowSize >>> slotShift = 4 ∧ lowWindow >>> slotShift = 16 ∧
      ramBase >>> slotShift = 131072 ∧ ramBase + lowSize = 131076 * 4096 := by decide
  have high : 131076 ≤ addr >>> slotShift := by
    rw [Nat.shiftRight_eq_div_pow]
    exact (Nat.le_div_iff_mul_le (by decide)).mpr (sizes.2.2.2 ▸ above)
  rw [tableOf, if_neg (by omega), if_neg (by omega),
    if_neg (by omega), unitOf_slot]

theorem bus_reaches (placed : heart.Placed size windowed (.device noMemory))
    (above : ramBase + lowSize ≤ addr) (below : addr < sdramEnd) :
    heart.phys.target addr = some ((heart.decode addr).answer heart.size noMemory) := by
  rw [target, target_eq placed below, tableOf_above above, map_some]
  congr 1
  rcases unit_cases placed.banks addr with ⟨given, decodes⟩ | ⟨given, decodes⟩ |
    ⟨bank, src, present, fits, before, given, decodes⟩ <;> rw [given, decodes]
  · rfl
  · rfl
  have inside := Nat.mod_lt addr unit_pos
  have whole := Nat.div_add_mod addr unit
  have small := (placed.banks.capacity bank present).small
  rw [Nat.mul_comm] at whole
  exact view_target (placed.banks.present present).2 (placed.banks.capacity bank present) fits
    inside (by omega)

/-- Low memory is a view of the bank the start of SDRAM space is in. -/
theorem low_reaches (placed : heart.Placed size windowed (.device noMemory)) (low : addr < lowSize) :
    (lowEntry heart.units (.device noMemory)).target heart.phys.banks addr =
      (heart.decode (ramBase + addr)).answer heart.size noMemory := by
  have sizes : unit = 33554432 ∧ ramBase = 536870912 ∧ lowSize = 16384 := by decide
  have place : (ramBase + addr) / unit * unit = ramBase := by
    rw [sizes.1]
    omega
  have inside : (ramBase + addr) % unit = addr := by
    rw [sizes.1]
    omega
  have cases := unit_cases placed.banks (ramBase + addr)
  rw [place] at cases
  rw [lowEntry]
  rcases cases with ⟨given, decodes⟩ | ⟨given, decodes⟩ |
    ⟨bank, src, present, fits, before, given, decodes⟩ <;> rw [given, decodes]
  · rfl
  · rfl
  · exact view_target (placed.banks.present present).2 (placed.banks.capacity bank present) fits
      (by omega) (by omega)

theorem tableOf_low (low : addr < lowSize) :
    tableOf units dflt (addr >>> slotShift) = lowEntry units dflt := by
  have sizes : lowSize >>> slotShift = 4 ∧ ramBase >>> slotShift = 131072 ∧
      lowSize = 4 * 4096 := by decide
  have slot : addr >>> slotShift < 4 := by
    rw [Nat.shiftRight_eq_div_pow]
    exact (Nat.div_lt_iff_lt_mul (by decide)).mpr (sizes.2.2 ▸ low)
  rw [tableOf, sizes.1, if_neg (by omega), if_pos slot]

theorem tableOf_guard (above : ramBase ≤ addr) (below : addr < ramBase + lowSize) :
    tableOf units dflt (addr >>> slotShift) = dflt := by
  have sizes : lowSize >>> slotShift = 4 ∧ ramBase >>> slotShift = 131072 ∧
      ramBase = 131072 * 4096 ∧ ramBase + lowSize = 131076 * 4096 := by decide
  rw [tableOf, sizes.2.1, if_pos]
  rw [Nat.shiftRight_eq_div_pow]
  exact ⟨(Nat.le_div_iff_mul_le (by decide)).mpr (sizes.2.2.1 ▸ above),
    (Nat.div_lt_iff_lt_mul (by decide)).mpr (sizes.2.2.2 ▸ below)⟩

theorem decode_outside (outside : ¬(ramBase ≤ addr ∧ addr < sdramEnd)) :
    heart.decode addr = .none := by
  rw [decode_eq]
  cases wins : heart.winner addr with
  | none => rfl
  | some bank =>
    obtain ⟨-, low, high⟩ := winner_claims wins
    obtain ⟨span, small⟩ := descSpan_div (heart.desc bank)
    have field : (heart.desc bank &&& 0x1ff#32).toNat ≤ 0x1ff := by
      exact Nat.and_le_right
    have sizes : unit = 33554432 ∧ ramBase = 536870912 ∧ sdramEnd = 549755813888 := by decide
    rw [descBase] at low high
    rw [sizes.1] at low high small
    omega

/-- What answers tells whether there is memory. -/
theorem memory_of_target {entry : Entry} {size : Fin 4 → Nat} {d : Decode}
    (reaches : entry.target banks a = d.answer size noMemory) :
    (if entry = .unmapped ∨ entry = .device noMemory then none else some (entry, a)).map
        (fun (entry, a) => entry.target banks a) =
      (d.memory size).map fun (i, offset) => Target.ram i offset := by
  cases d with
  | ram bank offset =>
    have backed : ¬(entry = .unmapped ∨ entry = .device noMemory) := by
      rintro (rfl | rfl) <;> cases reaches
    rw [if_neg backed]
    exact congrArg some reaches
  | absent =>
    cases entry with
    | unmapped => rfl
    | bankView bank delta | device name => cases reaches
  | none =>
    cases entry with
    | device name =>
      obtain rfl := Target.device.inj reaches
      rw [if_pos (.inr rfl)]
      rfl
    | bankView bank delta | unmapped => cases reaches

/-- A bus master reaches fitted memory, the guard's bytes included, and nothing else. -/
theorem dma_reaches (placed : heart.Placed size windowed (.device noMemory)) (addr : Nat) :
    heart.dmaTarget addr = ((heart.decode addr).memory heart.size).map
      fun (i, offset) => Target.ram i offset := by
  rw [dmaTarget, dmaAt]
  by_cases inside : ramBase ≤ addr ∧ addr < sdramEnd
  case neg =>
    rw [if_neg inside, decode_outside inside]
    rfl
  obtain ⟨above, below⟩ := inside
  rw [if_pos ⟨above, below⟩]
  dsimp only
  by_cases guard : addr < ramBase + lowSize
  · have low : addr - ramBase < lowSize := by omega
    have reaches := low_reaches placed low
    rw [Nat.add_sub_cancel' above] at reaches
    rw [if_pos guard, target_eq placed (Nat.lt_of_le_of_lt (Nat.sub_le _ _) below),
      tableOf_low low, placed.device]
    exact memory_of_target reaches
  · have reaches := bus_reaches placed (not_lt.mp guard) below
    rw [target, target_eq placed below] at reaches
    rw [if_neg guard, target_eq placed below, placed.device]
    exact memory_of_target (some.inj reaches)

theorem window_reaches (placed : heart.Placed size windowed (.device noMemory))
    (mapped : heart.phys.window = some window) {p : Nat} (inside : p < windowSize) :
    window p = (heart.decode p).memory heart.size := by
  obtain ⟨-, same⟩ := ite_none_right_eq_some.mp (placed.window.symm.trans mapped)
  obtain rfl := some.inj same
  change shown heart.units p none = _
  rw [shown]
  have sizes : unit = 33554432 ∧ windowSize = 4294967296 := by decide
  rcases unit_cases placed.banks p with ⟨given, decodes⟩ | ⟨given, decodes⟩ |
    ⟨bank, src, present, fits, before, given, decodes⟩ <;> rw [given, decodes]
  · rfl
  · rfl
  · refine if_pos ?_
    rw [sizes.1]
    omega

/-- Whatever banks are fitted and however the descriptors are written, the memory is where the
decode says. The processor's bus answers with it above the guard, and with the start of it in
low memory; the guard is the default device's. A bus master reaches what is fitted, the guard
included, and errors elsewhere. The window, if there is one, shows the fitted bytes of its
4 GiB, the guard included. -/
theorem placement_eq_decode {perPage npages : Nat} (positive : 0 < perPage)
    (whole : npages * perPage = 2 ^ (physBits - slotShift)) {windowed : Bool} {noMemory : Nat}
    {banksMb : Fin 4 → Nat} {fresh : HeartRam}
    (made : tryNew perPage npages windowed noMemory banksMb = .ok fresh) (ops : List Op)
    {heart : HeartRam} (run : ops.foldl step fresh = heart) :
    (heart.size = fun bank => banksMb bank <<< 20) ∧
    (∀ bank, heart.size bank ≠ 0 →
      heart.phys.banks.getD (fitted heart.size bank).length 0 = heart.size bank) ∧
    (∀ bank bank', heart.size bank ≠ 0 → heart.size bank' ≠ 0 →
      (fitted heart.size bank).length = (fitted heart.size bank').length → bank = bank') ∧
    (∀ addr, ramBase + lowSize ≤ addr → addr < sdramEnd →
      heart.phys.target addr = some ((heart.decode addr).answer heart.size noMemory)) ∧
    (∀ addr < lowSize, heart.phys.target addr =
      some ((heart.decode (ramBase + addr)).answer heart.size noMemory)) ∧
    (∀ addr, ramBase ≤ addr → addr < ramBase + lowSize →
      heart.phys.target addr = some (.device noMemory)) ∧
    (∀ addr, heart.dmaTarget addr = ((heart.decode addr).memory heart.size).map
      fun (i, offset) => Target.ram i offset) ∧
    heart.phys.window.isSome = windowed ∧
    ∀ window, heart.phys.window = some window → ∀ p < windowSize,
      window p = (heart.decode p).memory heart.size := by
  have placed := run_placed (tryNew_placed positive whole made) ops
  rw [run] at placed
  refine ⟨placed.size, fun bank present => (placed.banks.present present).2,
    fun bank bank' present present' => fitted_injective present present',
    fun addr above below => bus_reaches placed above below, fun addr low => ?_,
    fun addr above below => ?_, dma_reaches placed, ?_,
    fun window mapped p inside => window_reaches placed mapped inside⟩
  · rw [target, target_eq placed (low.trans (by decide)), tableOf_low low,
      map_some, low_reaches placed low]
  · rw [target, target_eq placed (below.trans (by decide)),
      tableOf_guard above below]
    rfl
  · rw [placed.window]
    cases windowed <;> rfl

theorem setMemcfg_desc (heart : HeartRam) : (heart.setMemcfg words).desc = words := by
  rw [setMemcfg]
  split <;> rfl

def oneBank (bank : Fin 4) : Nat := if bank = 0 then 64 else 0

def oneWord (bank : Fin 4) : BitVec 32 := if bank = 0 then 0x80010000 else 0

theorem oneBank_made : ∃ fresh, tryNew 1 (2 ^ 28) true 0 oneBank = .ok fresh := by
  exact ⟨_, rfl⟩

/-- One bank of 64 MiB, put at the start of SDRAM space. -/
theorem one_bank_placed : ∃ fresh heart, tryNew 1 (2 ^ 28) true 0 oneBank = .ok fresh ∧
    [Op.setMemcfg oneWord].foldl step fresh = heart ∧
    heart.phys.target 0x20004000 = some (.ram 0 0x4000) ∧
    heart.dmaTarget 0x20000000 = some (.ram 0 0) := by
  obtain ⟨fresh, made⟩ := oneBank_made
  obtain ⟨size, -, -, bus, -, -, dma, -⟩ :=
    placement_eq_decode (by decide) (by decide) made [.setMemcfg oneWord] rfl
  have desc : ([Op.setMemcfg oneWord].foldl step fresh).desc = oneWord := setMemcfg_desc _ fresh
  refine ⟨fresh, _, made, rfl, ?_, ?_⟩
  · rw [bus _ (by decide) (by decide), decode, size, desc]
    decide +kernel
  · rw [dma, decode, size, desc]
    decide +kernel

/-- The window shows the bank in the guard too, where the processor's bus has the default
device. -/
theorem guard_in_window : ∃ fresh heart window,
    tryNew 1 (2 ^ 28) true 0 oneBank = .ok fresh ∧
    [Op.setMemcfg oneWord].foldl step fresh = heart ∧ heart.phys.window = some window ∧
    window ramBase = some (0, 0) ∧ heart.phys.target ramBase = some (.device 0) := by
  obtain ⟨fresh, made⟩ := oneBank_made
  have placed := run_placed (tryNew_placed (by decide) (by decide) made) [.setMemcfg oneWord]
  have desc : ([Op.setMemcfg oneWord].foldl step fresh).desc = oneWord := setMemcfg_desc _ fresh
  refine ⟨fresh, _, _, made, rfl, placed.window, ?_, ?_⟩
  · rw [window_reaches placed placed.window (by decide), decode, placed.size, desc]
    decide +kernel
  · rw [target, target_eq placed (by decide)]
    rfl

end HeartRam

end Iris.Heart
