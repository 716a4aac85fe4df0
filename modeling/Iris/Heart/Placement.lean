import Iris.Heart.Descriptor

/-!
Owns the units HEART's descriptors place: which bank answers in each, and what putting a unit
back, placing it and placing low memory do to the table of the bus and to the window.
-/

namespace Iris.Heart

open Ppmem Physical Library.Run List Option

namespace HeartRam
variable {heart : HeartRam}

/-! ### Who answers -/

/-- The descriptor of a bank claims an address. -/
def Claims (heart : HeartRam) (bank : Fin 4) (addr : Nat) : Prop :=
  heart.desc bank &&& descValid ≠ 0#32 ∧ descBase (heart.desc bank) ≤ addr ∧
    addr - descBase (heart.desc bank) < descSpan (heart.desc bank)
deriving Decidable

def winner (heart : HeartRam) (addr : Nat) : Option (Fin 4) :=
  (finRange 4).reverse.find? fun bank => decide (heart.Claims bank addr)

theorem findSome?_ite {Item Value : Type} (items : List Item) (p : Item → Prop) [DecidablePred p]
    (f : Item → Value) :
    items.findSome? (fun item => if p item then some (f item) else none) =
      (items.find? fun item => decide (p item)).map f := by
  induction items with
  | nil => rfl
  | cons item rest inductionHypothesis =>
    by_cases holds : p item
    · simp [holds]
    · simp [holds, inductionHypothesis]

/-- What the winner's descriptor says of an address. -/
def claimed (heart : HeartRam) (addr : Nat) (bank : Fin 4) : Decode :=
  if heart.size bank = 0 then .absent
  else .ram bank (bankOffset (heart.desc bank) (heart.size bank) (addr - descBase (heart.desc bank)))

theorem decode_eq (addr : Nat) :
    heart.decode addr = ((heart.winner addr).map (heart.claimed addr)).getD .none := by
  rw [decode, winner, ← findSome?_ite]
  congr 2
  funext bank
  by_cases valid : heart.desc bank &&& descValid = 0#32
  · simp [Claims, valid]
  · simp [Claims, valid, claimed]

variable {place : Nat}

/-- A loop that overrides answers is a search from its end. -/
theorem foldl_override {Item Value : Type} (items : List Item)
    {insert : (Nat → Option Value) → Item → Nat → Option Value} {answer : Item → Option Value}
    (each : ∀ item answers, insert answers item place = (answer item).or (answers place))
    (answers : Nat → Option Value) :
    items.foldl insert answers place = (items.reverse.findSome? answer).or (answers place) := by
  induction items generalizing answers with
  | nil => rfl
  | cons item rest inductionHypothesis =>
    rw [foldl_cons, inductionHypothesis, each, reverse_cons, findSome?_append,
      List.findSome?_singleton, Option.or_assoc]

theorem unit_pos : 0 < unit := by decide

theorem foldl_units {Value : Type} (base count : Nat) (value : Nat → Value)
    (start : Nat → Option Value) (place : Nat) :
    (range count).foldl
      (fun units k => Function.update units (base + k * unit) (some (value k))) start place =
      if base ≤ place ∧ (place - base) % unit = 0 ∧ (place - base) / unit < count then
        some (value ((place - base) / unit))
      else start place := by
  refine foldl_range_invariant (fun count (units : Nat → Option Value) => ∀ place, units place =
    if base ≤ place ∧ (place - base) % unit = 0 ∧ (place - base) / unit < count then
      some (value ((place - base) / unit)) else start place) ?_ ?_ place
  · intro place
    rw [if_neg fun all => (Nat.not_lt_zero _ all.2.2)]
  intro k _ units before place
  by_cases here : place = base + k * unit
  · subst here
    have offset : base + k * unit - base = k * unit := by omega
    rw [Function.update_self, offset, Nat.mul_mod_left, Nat.mul_div_cancel _ unit_pos,
      if_pos ⟨by omega, rfl, by omega⟩]
  · rw [Function.update_of_ne here, before]
    apply if_congr _ rfl rfl
    constructor
    · rintro ⟨low, whole, inside⟩
      exact ⟨low, whole, by omega⟩
    · rintro ⟨low, whole, inside⟩
      refine ⟨low, whole, Nat.lt_of_le_of_ne (by omega) fun same => here ?_⟩
      have split := Nat.div_add_mod (place - base) unit
      rw [same, Nat.mul_comm] at split
      omega

theorem descBase_aligned : descBase d % unit = 0 := by
  rw [descBase, show ramBase = 16 * unit by decide, ← Nat.add_mul, Nat.mul_mod_left]

theorem descSpan_div (d : BitVec 32) :
    descSpan d / unit * unit = descSpan d ∧ descSpan d / unit ≤ 64 := by
  have small : ((d >>> 16) &&& 0x3f#32).toNat ≤ 0x3f := by
    exact Nat.and_le_right
  rw [descSpan, Nat.mul_div_cancel _ unit_pos]
  exact ⟨rfl, by omega⟩

theorem mod_sub (aligned : place % unit = 0) (start : base % unit = 0) (low : base ≤ place) :
    (place - base) % unit = 0 := by
  obtain ⟨i, rfl⟩ := Nat.dvd_of_mod_eq_zero aligned
  obtain ⟨j, rfl⟩ := Nat.dvd_of_mod_eq_zero start
  rw [← Nat.mul_sub, Nat.mul_mod_right]

theorem insertBank_apply (units : Nat → Option Placing) (bank : Fin 4)
    (aligned : place % unit = 0) :
    heart.insertBank units bank place =
      (if heart.Claims bank place then
        some (heart.placing bank ((place - descBase (heart.desc bank)) / unit))
      else none).or (units place) := by
  rw [insertBank]
  split
  next invalid => rw [if_neg fun claims => claims.1 invalid, none_or]
  next valid =>
    obtain ⟨span, -⟩ := descSpan_div (heart.desc bank)
    have inside : (place - descBase (heart.desc bank)) / unit < descSpan (heart.desc bank) / unit ↔
        place - descBase (heart.desc bank) < descSpan (heart.desc bank) := by
      rw [Nat.div_lt_iff_lt_mul unit_pos, span]
    rw [foldl_units]
    by_cases claims : heart.Claims bank place
    · have low := claims.2.1
      rw [if_pos claims, some_or,
        if_pos ⟨low, mod_sub aligned descBase_aligned low, inside.mpr claims.2.2⟩]
    · rw [if_neg claims, none_or, if_neg]
      rintro ⟨low, -, below⟩
      exact claims ⟨valid, low, inside.mp below⟩

/-- The units placed are those somebody claims, as the winner says. -/
theorem units_apply (aligned : place % unit = 0) :
    heart.units place = (heart.winner place).map fun bank =>
      heart.placing bank ((place - descBase (heart.desc bank)) / unit) := by
  rw [units, foldl_override _ (fun bank answers => insertBank_apply answers bank aligned),
    or_none, findSome?_ite, winner]

theorem mem_unitAddrs : place ∈ unitAddrs ↔ ∃ k < 0x1ff + 0x40, ramBase + k * unit = place := by
  rw [unitAddrs, List.mem_map]
  simp only [mem_range]

/-- Only there does a descriptor place a unit. -/
theorem insertBank_mem {units : Nat → Option Placing}
    (before : ∀ place, (units place).isSome = true → place ∈ unitAddrs)
    (placed : (heart.insertBank units bank place).isSome = true) : place ∈ unitAddrs := by
  rw [insertBank] at placed
  split at placed
  · exact before place placed
  rw [foldl_units] at placed
  split at placed
  next inside =>
    obtain ⟨-, small⟩ := descSpan_div (heart.desc bank)
    have field : (heart.desc bank &&& 0x1ff#32).toNat ≤ 0x1ff := by
      exact Nat.and_le_right
    refine mem_unitAddrs.mpr ⟨(heart.desc bank &&& 0x1ff#32).toNat +
      (place - descBase (heart.desc bank)) / unit, by omega, ?_⟩
    have split := Nat.div_add_mod (place - descBase (heart.desc bank)) unit
    rw [Nat.mul_comm] at split
    rw [Nat.add_mul, ← Nat.add_assoc]
    change descBase (heart.desc bank) + _ = place
    omega
  · exact before place placed

theorem units_mem (placed : (heart.units place).isSome = true) : place ∈ unitAddrs := by
  refine foldlRecOn _ heart.insertBank
    (motive := fun units => ∀ place, (units place).isSome = true → place ∈ unitAddrs)
    (fun _ never => absurd never (by simp)) ?_ place placed
  exact fun units before bank _ place => insertBank_mem before

theorem unitAddrs_nodup : unitAddrs.Nodup := by
  refine Nodup.map (fun one other same => ?_) nodup_range
  have := Nat.eq_of_mul_eq_mul_right unit_pos (Nat.add_left_cancel same)
  exact this

theorem unitAddrs_aligned (member : place ∈ unitAddrs) :
    place % unit = 0 ∧ place + unit ≤ 2 ^ 39 ∧ ramBase ≤ place := by
  obtain ⟨k, small, rfl⟩ := mem_unitAddrs.mp member
  refine ⟨?_, ?_, Nat.le_add_right _ _⟩
  · rw [show ramBase = 16 * unit by decide, ← Nat.add_mul, Nat.mul_mod_left]
  · have sizes : unit = 33554432 ∧ ramBase = 536870912 := by decide
    rw [sizes.1]
    omega

/-! ### The table -/

def unitOf (slot : Nat) : Nat := slot / (unit >>> slotShift) * unit

/-- What the slots answer with, when these units are placed. -/
def tableOf (units : Nat → Option Placing) (dflt : Entry) (slot : Nat) : Entry :=
  if ramBase >>> slotShift ≤ slot ∧ slot < ramBase >>> slotShift + lowSize >>> slotShift then dflt
  else if slot < lowSize >>> slotShift then lowEntry units dflt
  else if slot < lowWindow >>> slotShift then dflt
  else ((units (unitOf slot)).map Prod.fst).getD dflt

variable {phys : Physical} {units : Nat → Option Placing} {array : Nat → Entry} {dflt : Entry}

theorem unit_slots : unit = (unit >>> slotShift) <<< slotShift := by decide

section
variable (member : place ∈ unitAddrs)
include member

theorem fillUnit_shows (table : phys.Shows array) :
    (phys.fillSlots (place >>> slotShift) (unit >>> slotShift) entry).Shows fun slot =>
      if unitOf slot = place then entry else array slot := by
  obtain ⟨aligned, below, -⟩ := unitAddrs_aligned member
  refine table.fillBlock (by decide) (unit_slots ▸ aligned) ?_
  have bound : place >>> slotShift ≤ 2 ^ 39 >>> slotShift - unit >>> slotShift := by
    have sizes : unit = 33554432 ∧ slotShift = 12 := by decide
    rw [sizes.2]
    omega
  exact (Nat.add_le_add_right bound _).trans (by decide)

theorem putBack_shows (table : phys.Shows array) (same : phys.defaultDevice = dflt) :
    (putBack units phys place).Shows (fun slot => if unitOf slot = place then
      (if (units (unitOf slot)).isSome then array slot else dflt) else array slot) := by
  rw [putBack]
  split
  next kept =>
    refine table.congr fun slot => ?_
    split
    next here => rw [here, if_pos kept]
    · rfl
  next gone =>
    refine (fillUnit_shows member table).congr fun slot => ?_
    split
    next here => rw [here, if_neg gone, same]
    · rfl

theorem placeUnit_shows (table : phys.Shows array) :
    (placeUnit units phys place).Shows (fun slot => if unitOf slot = place then
      ((units (unitOf slot)).map Prod.fst).getD (array slot) else array slot) := by
  rw [placeUnit]
  cases placed : units place with
  | none =>
    refine table.congr fun slot => ?_
    split
    next here =>
      rw [here, placed]
      rfl
    · rfl
  | some placing =>
    obtain ⟨entry, run⟩ := placing
    have filled := @Shows.congr _ _ (fillUnit_shows member table) (fun slot =>
      if unitOf slot = place then ((units (unitOf slot)).map Prod.fst).getD (array slot)
      else array slot) fun slot => by
        split
        next here =>
          rw [here, placed]
          rfl
        · rfl
    cases run with
    | none => exact filled
    | some source =>
      dsimp only
      split
      · exact filled.of_devmap (mapRange_devmap _ _ _ _ _) (mapRange_defaultDevice _ _ _ _ _)
      · exact filled

end

/-- What placing a unit shows in the window where it lies. -/
def shown (units : Nat → Option Placing) (p : Nat) (old : Option (Nat × Nat)) : Option (Nat × Nat) :=
  match units (p / unit * unit) with
  | some (_, some (i, src)) =>
    if p / unit * unit + unit ≤ windowSize then some (i, src + p % unit) else old
  | _ => old

/-- The window shows this, if there is one. -/
def Window (phys : Physical) (windowed : Bool) (shown : Nat → Option (Nat × Nat)) : Prop :=
  phys.window = if windowed then some shown else none

theorem in_unit (aligned : place % unit = 0) :
    place ≤ p ∧ p < place + unit ↔ p / unit * unit = place := by
  obtain ⟨k, rfl⟩ := Nat.dvd_of_mod_eq_zero aligned
  rw [Nat.mul_comm unit k, Nat.mul_left_inj unit_pos.ne', Nat.div_eq_iff unit_pos]
  have positive := unit_pos
  omega

theorem placeUnit_window (member : place ∈ unitAddrs)
    (fits : ∀ entry i src, units place = some (entry, some (i, src)) →
      src + unit ≤ phys.banks.getD i 0)
    {window : Nat → Option (Nat × Nat)} (before : Window phys windowed window) :
    Window (placeUnit units phys place) windowed fun p =>
      if p / unit * unit = place then shown units p (window p) else window p := by
  have unchanged (none : ∀ p, p / unit * unit = place → shown units p (window p) = window p) :
      window = fun p => if p / unit * unit = place then shown units p (window p) else window p := by
    funext p
    split
    next here => exact (none p here).symm
    · rfl
  rw [placeUnit]
  cases placed : units place with
  | none =>
    rw [← unchanged fun p here => by rw [shown, here, placed]]
    exact before
  | some placing =>
    obtain ⟨entry, run⟩ := placing
    cases run with
    | none =>
      rw [← unchanged fun p here => by rw [shown, here, placed]]
      exact (fillSlots_window ..).trans before
    | some source =>
      obtain ⟨i, src⟩ := source
      dsimp only
      split
      next inside =>
        rw [Window, mapRange, if_pos ⟨by rw [fillSlots_banks]; exact fits entry i src placed, inside⟩]
        dsimp only
        rw [fillSlots_window, before]
        cases windowed with
        | false => rfl
        | true =>
        refine congrArg some (funext fun p => ?_)
        obtain ⟨aligned, -, -⟩ := unitAddrs_aligned member
        refine (if_congr (in_unit aligned) rfl rfl).trans ?_
        split
        next here =>
          have whole := Nat.div_add_mod p unit
          rw [Nat.mul_comm] at whole
          rw [shown, here, placed]
          dsimp only
          rw [if_pos inside, show p - place = p % unit by omega]
        · rfl
      next outside =>
        rw [← unchanged fun p here => by
          rw [shown, here, placed]
          exact if_neg outside]
        exact (fillSlots_window ..).trans before

/-- What placing memory leaves alone: the banks and the default device. -/
structure Frame (banks : List Nat) (dflt : Entry) (phys : Physical) : Prop where
  banks : phys.banks = banks
  device : phys.defaultDevice = dflt

section
variable {banks : List Nat} (frame : Frame banks dflt phys) {first count : Nat}
include frame

theorem Frame.fillSlots : Frame banks dflt (phys.fillSlots first count entry) :=
  ⟨(fillSlots_banks ..).trans frame.banks, (fillSlots_defaultDevice ..).trans frame.device⟩

theorem Frame.putBack : Frame banks dflt (putBack units phys place) := by
  rw [HeartRam.putBack]
  split
  · exact frame
  · exact frame.fillSlots

theorem Frame.placeUnit : Frame banks dflt (placeUnit units phys place) := by
  rw [HeartRam.placeUnit]
  cases units place with
  | none => exact frame
  | some placing =>
    obtain ⟨entry, run⟩ := placing
    have filled : Frame banks dflt
        (phys.fillSlots (place >>> slotShift) (unit >>> slotShift) entry) := frame.fillSlots
    cases run with
    | none => exact filled
    | some source =>
      dsimp only
      split
      · exact ⟨(mapRange_banks ..).trans filled.banks,
          (mapRange_defaultDevice ..).trans filled.device⟩
      · exact filled

theorem Frame.placeLow (units : Nat → Option Placing) : Frame banks dflt (placeLow units phys) :=
  frame.fillSlots.fillSlots.fillSlots

end

theorem putBack_window (units : Nat → Option Placing) :
    (putBack units phys place).window = phys.window := by
  rw [putBack]
  split <;> simp

theorem placeLow_shows (table : phys.Shows array) (same : phys.defaultDevice = dflt) :
    (placeLow units phys).Shows fun slot =>
      if ramBase >>> slotShift ≤ slot ∧ slot < ramBase >>> slotShift + lowSize >>> slotShift then dflt
      else if slot < lowSize >>> slotShift then lowEntry units dflt
      else if slot < lowWindow >>> slotShift then dflt
      else array slot := by
  have low := table.fillSlots (lowEntry units phys.defaultDevice)
    (by decide : 0 + lowSize >>> slotShift ≤ 2 ^ (physBits - slotShift))
  have rest := low.fillSlots dflt (by decide :
    lowSize >>> slotShift + (lowWindow - lowSize) >>> slotShift ≤ 2 ^ (physBits - slotShift))
  have guard := rest.fillSlots dflt (by decide :
    ramBase >>> slotShift + lowSize >>> slotShift ≤ 2 ^ (physBits - slotShift))
  simp only [placeLow, fillSlots_defaultDevice, same] at guard ⊢
  refine Shows.congr guard fun slot => ?_
  have sizes : lowSize >>> slotShift = 4 ∧ (lowWindow - lowSize) >>> slotShift = 12 ∧
      lowWindow >>> slotShift = 16 ∧ ramBase >>> slotShift = 131072 := by decide
  simp only [SparseDeviceMap.overwrite, sizes]
  repeat' split
  all_goals first | rfl | omega

theorem placeLow_window : (placeLow units phys).window = phys.window := by
  simp [placeLow]

end HeartRam

end Iris.Heart
