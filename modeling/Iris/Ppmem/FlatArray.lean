import Mathlib.Data.List.Induction
import Iris.Library.Run
import Iris.Ppmem.Pages

/-!
Owns the sparse table as a flat array: whatever is filled, loaded and faulted in, in
whatever order, a slot answers with the device of the last fill that covers it.
-/

namespace Iris.Ppmem

open Library.Runs List Option SparseDeviceMap

/-! ### The flat array -/

section
variable {Entry : Type}

/-- The device a call puts in a slot, in a table of so many slots. -/
def Op.filled (slots slot : Nat) : Op Entry → Option Entry
  | .fill first count dev =>
    if first + count ≤ slots ∧ first ≤ slot ∧ slot < first + count then some dev else none
  | .fillBytes start stop dev =>
    if start < stop ∧ (stop - 1) >>> slotShift < slots ∧ start >>> slotShift ≤ slot ∧
        slot ≤ (stop - 1) >>> slotShift then some dev
    else none
  | _ => none

/-- A range of bytes is the range of the slots it lies in. -/
theorem Op.fillBytes_filled {dev : Entry} (nonempty : start < stop) (slots slot : Nat) :
    (Op.fillBytes start stop dev).filled slots slot =
      (Op.fill (start >>> slotShift) ((stop - 1) >>> slotShift - start >>> slotShift + 1)
        dev).filled slots slot := by
  have ordered : start >>> slotShift ≤ (stop - 1) >>> slotShift := by
    rw [Nat.shiftRight_eq_div_pow, Nat.shiftRight_eq_div_pow]
    exact Nat.div_le_div_right (by omega)
  exact if_congr (by omega) rfl rfl

/-- The device of the last fill that covers a slot, else the default. -/
def flat (slots : Nat) (dflt : Entry) (ops : List (Op Entry)) (slot : Nat) : Entry :=
  ops.foldl (fun dev op => (op.filled slots slot).getD dev) dflt

/-- A call that fills or reads some slot of a page. -/
def Op.Touches (perPage npages page : Nat) (op : Op Entry) : Prop :=
  ∃ slot, slot < npages * perPage ∧ slot / perPage = page ∧
    ((op.filled (npages * perPage) slot).isSome = true ∨ op = .load slot ∨ op = .fault slot)

theorem Op.touches_of_unfilled {op : Op Entry} {perPage npages page : Nat}
    (nothing : ∀ slot, op.filled (npages * perPage) slot = none) :
    op.Touches perPage npages page ↔ ∃ slot, slot < npages * perPage ∧ slot / perPage = page ∧
      (op = .load slot ∨ op = .fault slot) := by
  simp [Touches, nothing]

end

namespace SparseDeviceMap
variable {Entry : Type} [Inhabited Entry]
variable {map : SparseDeviceMap Entry} {dflt dev : Entry}

theorem slot_eq (positive : 0 < per) : slot / per * per + slot % per = slot ∧ slot % per < per := by
  rw [Nat.mul_comm]
  exact ⟨Nat.div_add_mod slot per, Nat.mod_lt _ positive⟩

theorem div_eq {i : Nat} (inside : i < per) : (page * per + i) / per = page := by
  rw [Nat.mul_comm, Nat.mul_add_div (Nat.lt_of_le_of_lt (Nat.zero_le i) inside),
    Nat.div_eq_of_lt inside, Nat.add_zero]

theorem div_of_within {per : Nat} (low : page * per ≤ slot) (high : slot < page * per + per) :
    slot / per = page := by
  rw [← Nat.add_sub_cancel' low, div_eq (by omega)]

/-- The table holds the array, and knows which pages were touched. -/
structure Inv (map : SparseDeviceMap Entry) (dflt : Entry) (array : Nat → Entry)
    (touched : Nat → Prop) : Prop where
  books : Books map dflt
  pages : ∀ page, Page map dflt page (fun i => array (page * map.perPage + i)) (touched page)

section
variable {array : Nat → Entry} {touched : Nat → Prop}

theorem Inv.congr (inv : Inv map dflt array touched) {array' : Nat → Entry} {touched' : Nat → Prop}
    (same : ∀ slot, array slot = array' slot) (still : ∀ page, touched page ↔ touched' page) :
    Inv map dflt array' touched' :=
  ⟨inv.books, fun page => (inv.pages page).congr (fun _ _ => same _) (still page)⟩

theorem Inv.becomes (inv : Inv map dflt array touched) {later : SparseDeviceMap Entry} {page : Nat}
    {array' : Nat → Entry}
    (becomes : Becomes map later dflt page fun i => array' (page * map.perPage + i))
    (others : ∀ slot, slot / map.perPage ≠ page → array' slot = array slot) :
    Inv later dflt array' (fun other => touched other ∨ other = page) := by
  refine ⟨becomes.books, fun other => ?_⟩
  rw [becomes.perPage]
  by_cases here : other = page
  · rw [here]
    exact becomes.here.congr (fun _ _ => rfl) (iff_of_true trivial (.inr rfl))
  · have kept := becomes.frame other here _ _ (inv.pages other)
    refine kept.congr (fun i inside => ?_) (by simp [here])
    rw [becomes.perPage] at inside
    rw [others _ (by rw [div_eq inside]; exact here)]

/-! ### Filling -/

/-- One turn of the loop: the rest of the page the slot is on, or of the range. -/
theorem Inv.fillTurn [DecidableEq Entry] (inv : Inv map dflt array touched) (dev : Entry)
    (more : slot < stop) :
    ∃ later hi, hi = min stop (slot / map.perPage * map.perPage + map.perPage) ∧
      map.fillLoop dev stop (turns + 1) slot = later.fillLoop dev stop turns hi ∧
      Becomes map later dflt (slot / map.perPage)
        (fun i => overwrite array slot hi dev (slot / map.perPage * map.perPage + i)) := by
  obtain ⟨whole, inside⟩ := @slot_eq map.perPage slot inv.books.positive
  have holds := inv.pages (slot / map.perPage)
  rw [fillLoop, if_pos more]
  dsimp only
  generalize slot / map.perPage * map.perPage = pageStart at whole holds ⊢
  generalize hi_eq : min stop (pageStart + map.perPage) = hi
  split
  next covered =>
    refine ⟨_, hi, rfl, rfl, (mapConst_becomes inv.books holds dev).congr fun i low => ?_⟩
    rw [overwrite, if_pos (by omega)]
  · obtain ⟨later, modified, becomes⟩ :=
      modify_becomes inv.books holds dev
    rw [modified]
    refine ⟨later, hi, rfl, rfl, becomes.congr fun i low => ?_⟩
    exact if_congr (by omega) rfl rfl

theorem Inv.past (inv : Inv map dflt array touched) (done : stop ≤ slot) :
    Inv map dflt (overwrite array slot stop dev)
      (fun page => touched page ∨ ∃ s, slot ≤ s ∧ s < stop ∧ s / map.perPage = page) := by
  refine inv.congr (fun place => ?_) fun page => ⟨.inl, fun either => either.resolve_right ?_⟩
  · rw [overwrite, if_neg (by omega)]
  · rintro ⟨s, _, _, _⟩
    omega

theorem Inv.fillLoop [DecidableEq Entry] (inv : Inv map dflt array touched) (dev : Entry)
    {slot : Nat} (enough : stop - slot ≤ turns) :
    Inv (map.fillLoop dev stop turns slot) dflt (overwrite array slot stop dev)
      (fun page => touched page ∨ ∃ s, slot ≤ s ∧ s < stop ∧ s / map.perPage = page) ∧
      SameSize map (map.fillLoop dev stop turns slot) := by
  induction turns generalizing map array touched slot with
  | zero => exact ⟨inv.past (by omega), rfl, rfl⟩
  | succ turns inductionHypothesis =>
    by_cases more : slot < stop
    case neg =>
      rw [fillLoop, if_neg more]
      exact ⟨inv.past (by omega), rfl, rfl⟩
    obtain ⟨later, hi, hi_eq, turn, becomes⟩ := inv.fillTurn dev more
    obtain ⟨whole, inside⟩ := @slot_eq map.perPage slot inv.books.positive
    have middle := inv.becomes becomes fun place away => by
      rw [overwrite, if_neg]
      rintro ⟨low, high⟩
      exact away (div_of_within (by omega) (by omega))
    have done := inductionHypothesis middle (by omega : stop - hi ≤ turns)
    rw [turn]
    refine ⟨done.1.congr (fun place => ?_) (fun page => ?_), done.2.1.trans becomes.perPage,
      done.2.2.trans becomes.npages⟩
    · rw [overwrite, overwrite, overwrite]
      split
      · rw [if_pos (by omega)]
      · exact if_congr (by omega) rfl rfl
    · rw [becomes.perPage]
      constructor
      · rintro ((before | here) | ⟨s, low, high, there⟩)
        · exact .inl before
        · exact .inr ⟨slot, Nat.le_refl _, more, here.symm⟩
        · exact .inr ⟨s, by omega, high, there⟩
      · rintro (before | ⟨s, low, high, there⟩)
        · exact .inl (.inl before)
        rcases Nat.lt_or_ge s hi with early | late
        · exact .inl (.inr (there ▸ div_of_within (by omega) (by omega)))
        · exact .inr ⟨s, late, high, there⟩

/-! ### Loading -/

section
variable (inv : Inv map dflt array touched)
include inv

theorem Inv.touched_of_viewed (viewed : map.table page = some backing) : touched page := by
  refine (inv.pages page).touched.mpr fun state => ?_
  have view := (inv.pages page).table.symm.trans viewed
  rw [state] at view
  cases view

theorem Inv.load_of_viewed (viewed : (map.table (slot / map.perPage)).isSome = true) :
    map.load slot = some (array slot) := by
  obtain ⟨backing, there⟩ := isSome_iff_exists.mp viewed
  obtain ⟨whole, inside⟩ := @slot_eq map.perPage slot inv.books.positive
  have read := (inv.pages (slot / map.perPage)).read inv.books there inside
  rw [whole] at read
  rw [load, there, map_some, read]

/-- A load is answered by the array; the page is touched from then on. -/
theorem Inv.access {slot : Nat} (inside : slot < map.slots) :
    (map.access slot).1 = some (array slot) ∧
      Inv (map.access slot).2 dflt array
        (fun page => touched page ∨ page = slot / map.perPage) ∧
      SameSize map (map.access slot).2 := by
  rw [SparseDeviceMap.access]
  cases viewed : map.table (slot / map.perPage) with
  | some backing =>
    rw [inv.load_of_viewed (by rw [viewed]; rfl)]
    refine ⟨rfl, inv.congr (fun _ => rfl) fun page => ⟨.inl, ?_⟩, rfl, rfl⟩
    rintro (before | rfl)
    · exact before
    · exact inv.touched_of_viewed viewed
  | none =>
    have missing : map.load slot = none := by rw [load, viewed, map_none]
    obtain ⟨mapped, becomes, viewed⟩ :=
      fault_becomes inv.books inside (inv.pages (slot / map.perPage))
    have later := inv.becomes becomes fun _ _ => rfl
    rw [missing]
    dsimp only
    rw [mapped]
    have viewed : ((map.fault slot).2.table (slot / (map.fault slot).2.perPage)).isSome = true := by
      rw [becomes.perPage]
      exact viewed
    exact ⟨later.load_of_viewed viewed, later, becomes.toSameSize⟩

end

/-! ### Runs of calls -/

theorem Inv.fill [DecidableEq Entry] (inv : Inv map dflt array touched) {count : Nat} (dev : Entry) :
    Inv (map.fill first count dev) dflt
      (fun slot => ((Op.fill first count dev).filled map.slots slot).getD (array slot))
      (fun page => touched page ∨ (Op.fill first count dev).Touches map.perPage map.npages page) ∧
      SameSize map (map.fill first count dev) := by
  rw [SparseDeviceMap.fill]
  split
  next fits =>
    obtain ⟨filled, size⟩ := inv.fillLoop dev (by omega : first + count - first ≤ count)
    refine ⟨filled.congr (fun slot => ?_) (fun page => or_congr_right ?_), size⟩
    · rw [overwrite, Op.filled]
      by_cases covers : first ≤ slot ∧ slot < first + count
      · rw [if_pos covers, if_pos ⟨fits, covers⟩, getD_some]
      · rw [if_neg covers, if_neg fun both => covers both.2, getD_none]
    · constructor
      · rintro ⟨slot, low, high, there⟩
        refine ⟨slot, Nat.lt_of_lt_of_le high fits, there, .inl ?_⟩
        rw [Op.filled, if_pos ⟨fits, low, high⟩]
        rfl
      · rintro ⟨slot, -, there, covered | never | never⟩
        · rw [Op.filled] at covered
          split at covered
          next covers => exact ⟨slot, covers.2.1, covers.2.2, there⟩
          · cases covered
        · cases never
        · cases never
  next escapes =>
    have nothing (slot : Nat) : (Op.fill first count dev).filled map.slots slot = none := by
      rw [Op.filled, if_neg fun both => escapes both.1]
    refine ⟨inv.congr (fun slot => by rw [nothing, getD_none]) fun page => ?_, rfl, rfl⟩
    simp [Op.touches_of_unfilled nothing]

theorem step_inv [DecidableEq Entry] (inv : Inv map dflt array touched) :
    Inv (map.step op) dflt (fun slot => (op.filled map.slots slot).getD (array slot))
      (fun page => touched page ∨ op.Touches map.perPage map.npages page) ∧
      SameSize map (map.step op) := by
  -- a load or a fault fills nothing, and touches the page of its slot
  have reads {op : Op Entry} {slot : Nat} (fills : ∀ place, op.filled map.slots place = none)
      (only : ∀ place, op = .load place ∨ op = .fault place ↔ place = slot) (page : Nat) :
      op.Touches map.perPage map.npages page ↔ slot < map.slots ∧ page = slot / map.perPage := by
    simp only [Op.touches_of_unfilled fills, only]
    exact ⟨fun ⟨_, inside, there, same⟩ => same ▸ ⟨inside, there.symm⟩,
      fun ⟨inside, there⟩ => ⟨slot, inside, there.symm, rfl⟩⟩
  cases op with
  | fill first count dev => exact inv.fill dev
  | fillBytes start stop dev =>
    rw [step, fillBytes]
    split
    next nonempty =>
      obtain ⟨filled, size⟩ := inv.fill dev
      refine ⟨filled.congr (fun slot => ?_) fun page => or_congr_right ?_, size⟩
      · rw [Op.fillBytes_filled nonempty]
      · unfold Op.Touches
        simp only [Op.fillBytes_filled nonempty, reduceCtorEq, or_false]
    next empty =>
      have nothing (slot : Nat) : (Op.fillBytes start stop dev).filled map.slots slot = none := by
        rw [Op.filled, if_neg fun both => empty both.1]
      refine ⟨inv.congr (fun slot => by rw [nothing, getD_none]) fun page => ?_, rfl, rfl⟩
      simp [Op.touches_of_unfilled nothing]
  | load slot =>
    have touches := @reads (.load slot) slot (fun _ => rfl) (by simp [eq_comm])
    by_cases inside : slot < map.slots
    · obtain ⟨-, later, size⟩ := inv.access inside
      refine ⟨later.congr (fun _ => rfl) fun page => or_congr_right ?_, size⟩
      rw [touches page, and_iff_right inside]
    have same : (map.access slot).2 = map := by
      rw [access]
      cases map.load slot with
      | some dev => rfl
      | none => rw [fault, if_neg inside]; rfl
    rw [step, same]
    refine ⟨inv.congr (fun _ => rfl) fun page => ?_, rfl, rfl⟩
    rw [touches page, or_iff_left fun both => inside both.1]
  | fault slot =>
    have touches := @reads (.fault slot) slot (fun _ => rfl) (by simp [eq_comm])
    rw [step]
    by_cases inside : slot < map.slots
    · obtain ⟨-, becomes, -⟩ := fault_becomes inv.books inside (inv.pages (slot / map.perPage))
      have later := inv.becomes becomes fun _ _ => rfl
      refine ⟨later.congr (fun _ => rfl) fun page => or_congr_right ?_, becomes.toSameSize⟩
      rw [touches page, and_iff_right inside]
    · rw [fault, if_neg inside]
      refine ⟨inv.congr (fun _ => rfl) fun page => ?_, rfl, rfl⟩
      rw [touches page, or_iff_left fun both => inside both.1]

end

section
variable [DecidableEq Entry] {perPage npages : Nat} (positive : 0 < perPage) (dflt : Entry)
include positive

theorem setDefault_inv :
    Inv ((new perPage npages).setDefault dflt) dflt (fun _ => dflt) (fun _ => False) := by
  have provided := constFor_spec (new perPage npages) dflt
  rw [setDefault]
  generalize (new perPage npages).constFor dflt = result at provided ⊢
  obtain ⟨const, map⟩ := result
  have constants := provided.constants nofun
  have chosen := provided.device
  obtain ⟨_, _, rfl⟩ := provided.rest
  exact ⟨⟨positive, constants, ⟨const, provided.inside, rfl, chosen⟩, nodup_nil, nofun, nofun,
    nofun⟩, fun page => ⟨rfl, iff_of_false id (absurd rfl), nofun, fun _ _ => rfl⟩⟩

theorem run_inv (ops : List (Op Entry)) :
    Inv (ops.foldl step ((new perPage npages).setDefault dflt)) dflt
      (flat (npages * perPage) dflt ops)
      (fun page => ∃ op ∈ ops, op.Touches perPage npages page) ∧
      SameSize (new perPage npages) (ops.foldl step ((new perPage npages).setDefault dflt)) := by
  induction ops using reverseRecOn with
  | nil =>
    exact ⟨(setDefault_inv positive dflt).congr (fun _ => rfl) fun page => by simp, rfl, rfl⟩
  | append_singleton ops op inductionHypothesis =>
    obtain ⟨inv, size⟩ := inductionHypothesis
    obtain ⟨later, kept⟩ := step_inv inv
    rw [foldl_append]
    rw [slots, size.perPage, size.npages] at later
    refine ⟨later.congr (fun slot => ?_) fun page => ?_, kept.perPage.trans size.perPage,
      kept.npages.trans size.npages⟩
    · rw [flat, flat, foldl_append, foldl_cons, foldl_nil]
      rfl
    · simp only [mem_append, mem_singleton, or_and_right, exists_or, exists_eq_left]
      rfl

end

/-! ### Reading the table -/

section
variable {array : Nat → Entry} {touched : Nat → Prop}

/-- `get` tells a page nobody touched. -/
theorem Inv.get (inv : Inv map dflt array touched) (slot : Nat) :
    (touched (slot / map.perPage) → map.get slot = some (array slot)) ∧
      (¬touched (slot / map.perPage) → map.get slot = none) := by
  obtain ⟨whole, inside⟩ := @slot_eq map.perPage slot inv.books.positive
  have holds := inv.pages (slot / map.perPage)
  rw [holds.touched, SparseDeviceMap.get]
  have same := holds.entries _ inside
  rw [whole] at same
  cases state : map.pages (slot / map.perPage) with
  | unmapped => exact ⟨absurd rfl, fun _ => rfl⟩
  | lazy const =>
    refine ⟨fun _ => ?_, fun never => absurd nofun never⟩
    rw [same, state]
    rfl
  | const const | privatePage owned =>
    refine ⟨fun _ => ?_, fun never => absurd nofun never⟩
    rw [inv.load_of_viewed (by rw [holds.table, state]; rfl), getD_some]

theorem Inv.get_page (inv : Inv map dflt array touched) {page slot : Nat}
    (low : page * map.perPage ≤ slot) (high : slot < page * map.perPage + map.perPage) :
    map.get slot =
      match map.pages page with
      | .unmapped => none
      | .lazy const | .const const => some (map.device const)
      | .privatePage _ => some ((map.load slot).getD default) := by
  obtain ⟨i, rfl⟩ := Nat.exists_eq_add_of_le low
  have inside : i < map.perPage := by omega
  have holds := inv.pages page
  rw [SparseDeviceMap.get, div_eq inside]
  cases state : map.pages page with
  | const const =>
    have known := holds.known const (by rw [state]; rfl)
    rw [load_eq inside, holds.table, state, viewOf, map_some, inv.books.constants const known]
    rfl
  | _ => rfl

variable [DecidableEq Entry]

variable (inv : Inv map dflt array touched)
include inv

/-- One turn of the loop of `all_are` compares the part of the range on one page. -/
theorem Inv.pageMatches (dev : Entry) {page slot hi : Nat} (some_slot : slot < hi)
    (low : page * map.perPage ≤ slot) (high : hi ≤ page * map.perPage + map.perPage) :
    map.pageMatches dev page slot hi = true ↔
      ∀ place, slot ≤ place → place < hi → map.get place = some dev := by
  have constant {const : Nat} (all : ∀ place, slot ≤ place → place < hi →
      map.get place = some (map.device const)) :
      decide (map.device const = dev) = true ↔
        ∀ place, slot ≤ place → place < hi → map.get place = some dev := by
    rw [decide_eq_true_iff]
    constructor
    · rintro rfl
      exact all
    · intro given
      exact Option.some.inj ((all slot (Nat.le_refl _) some_slot).symm.trans
        (given slot (Nat.le_refl _) some_slot))
  rw [SparseDeviceMap.pageMatches]
  cases state : map.pages page with
  | unmapped =>
    refine iff_of_false nofun fun all => ?_
    have first := all slot (Nat.le_refl _) some_slot
    rw [inv.get_page low (by omega), state] at first
    cases first
  | lazy const | const const =>
    exact constant fun place after before => by
      rw [@Inv.get_page _ _ _ _ _ _ inv page place (by omega) (by omega), state]
  | privatePage owned =>
    rw [decide_eq_true_iff]
    have reads {place : Nat} (after : slot ≤ place) (before : place < hi) :
        map.get place = some ((map.load place).getD default) := by
      rw [@Inv.get_page _ _ _ _ _ _ inv page place (by omega) (by omega), state]
    constructor
    · intro given place after before
      rw [reads after before, given place before after]
    · intro given place before after
      exact Option.some.inj ((reads after before).symm.trans (given place after before))

theorem Inv.allAreLoop (dev : Entry) {stop turns slot : Nat} (enough : stop - slot ≤ turns) :
    map.allAreLoop dev stop turns slot = true ↔
      ∀ place, slot ≤ place → place < stop → map.get place = some dev := by
  induction turns generalizing slot with
  | zero => exact iff_of_true rfl fun place low high => absurd enough (by omega)
  | succ turns inductionHypothesis =>
    rw [SparseDeviceMap.allAreLoop]
    by_cases more : slot < stop
    case neg =>
      rw [if_neg more]
      exact iff_of_true rfl fun place low high => absurd more (by omega)
    obtain ⟨whole, inside⟩ := @slot_eq map.perPage slot inv.books.positive
    have turn := @Inv.pageMatches _ _ map dflt array touched _ inv dev (slot / map.perPage) slot
      (min stop (slot / map.perPage * map.perPage + map.perPage)) (by omega) (by omega) (by omega)
    rw [if_pos more]
    dsimp only
    rw [Nat.succ_mul]
    have rest := @inductionHypothesis
      (min stop (slot / map.perPage * map.perPage + map.perPage)) (by omega)
    have beyond : slot < slot / map.perPage * map.perPage + map.perPage := by omega
    generalize slot / map.perPage * map.perPage + map.perPage = pageEnd at turn rest beyond ⊢
    rw [Bool.if_false_right, Bool.and_eq_true, decide_eq_true_iff, turn, rest]
    constructor
    · intro both place low high
      rcases Nat.lt_or_ge place (min stop pageEnd) with early | late
      · exact both.1 place low early
      · exact both.2 place late high
    · intro all
      exact ⟨fun place low high => all place low (by omega),
        fun place low high => all place (by omega) high⟩

/-- Every slot of the range answers with the device, on pages somebody touched. -/
theorem Inv.allAre (first : Nat) {count : Nat} (dev : Entry) :
    map.allAre first count dev = true ↔
      ∀ slot, first ≤ slot → slot < first + count → map.get slot = some dev :=
  inv.allAreLoop dev (by omega)

/-- The loop over a mixed page: what is read so far is described, up to the run being read. -/
theorem Inv.privateRun (state : map.pages page = .privatePage owned)
    (before : Describes map.get 0 out (page * map.perPage)) (count : Nat)
    (within : count < map.perPage) :
    let read := (range' 1 count).foldl (map.privateRun (page * map.perPage))
      (out, page * map.perPage, (map.load (page * map.perPage)).getD default)
    Describes map.get 0 read.1 read.2.1 ∧ read.2.1 ≤ page * map.perPage + count ∧
      ∀ place, read.2.1 ≤ place → place ≤ page * map.perPage + count →
        map.get place = some read.2.2 := by
  have reads {place : Nat} (low : page * map.perPage ≤ place)
      (high : place < page * map.perPage + map.perPage) :
      map.get place = some ((map.load place).getD default) := by
    rw [inv.get_page low high, state]
  induction count with
  | zero =>
    refine ⟨before, Nat.le_refl _, fun place low high => ?_⟩
    obtain rfl : place = page * map.perPage := Nat.le_antisymm high low
    exact reads low (by omega)
  | succ count inductionHypothesis =>
    obtain ⟨described, reached, constant⟩ := inductionHypothesis (by omega)
    rw [range'_1_concat, foldl_append, foldl_cons, foldl_nil]
    have next := @reads (page * map.perPage + (1 + count)) (by omega) (by omega)
    rw [SparseDeviceMap.privateRun]
    split
    next same =>
      refine ⟨described, by omega, fun place low high => ?_⟩
      rcases Nat.lt_or_ge place (page * map.perPage + (1 + count)) with early | late
      · exact constant place low (by omega)
      · obtain rfl : place = page * map.perPage + (1 + count) := by omega
        rw [next, same]
    · refine ⟨described.push (by omega) fun place low high => constant place low (by omega),
        by dsimp only; omega, fun place low high => ?_⟩
      dsimp only at low
      obtain rfl : place = page * map.perPage + (1 + count) := by omega
      exact next

theorem Inv.pageRuns {page : Nat} {out : List (Run (Option Entry))}
    (before : Describes map.get 0 out (page * map.perPage)) :
    Describes map.get 0 (map.pageRuns out page) ((page + 1) * map.perPage) := by
  have positive := inv.books.positive
  have on_page := @Inv.get_page _ _ map dflt array touched inv page
  rw [Nat.succ_mul, SparseDeviceMap.pageRuns]
  cases state : map.pages page with
  | unmapped | lazy const | const const =>
    exact before.push (by omega) fun place low high => by rw [on_page low high, state]
  | privatePage owned =>
    obtain ⟨described, reached, constant⟩ :=
      inv.privateRun state before (map.perPage - 1) (by omega)
    exact described.push (by omega) fun place low high => constant place low (by omega)

theorem Inv.runs : Describes map.get 0 map.runs map.slots := by
  have begins : Describes map.get 0 [] (0 * map.perPage) := (Nat.zero_mul _).symm
  exact Library.Run.foldl_range_invariant
    (fun page out => Describes map.get 0 out (page * map.perPage)) begins
    fun page _ out before => inv.pageRuns before

end

/-- After any fills, loads and faults: a slot answers with the device of the last fill that
covers it, else the default. `get`, `all_are` and `runs` report that, and a page of which no
slot was ever filled or loaded as untouched. No pool page is in use twice, or free while in
use. -/
theorem sparse_eq_flat [DecidableEq Entry] {perPage npages : Nat} (positive : 0 < perPage)
    (dflt : Entry) (ops : List (Op Entry)) :
    let map := ops.foldl step ((new perPage npages).setDefault dflt)
    (∀ slot < npages * perPage,
      (map.access slot).1 = some (flat (npages * perPage) dflt ops slot)) ∧
      (∀ slot, ((∃ op ∈ ops, op.Touches perPage npages (slot / perPage)) →
          map.get slot = some (flat (npages * perPage) dflt ops slot)) ∧
        ((¬∃ op ∈ ops, op.Touches perPage npages (slot / perPage)) → map.get slot = none)) ∧
      (∀ first count dev, map.allAre first count dev = true ↔
        ∀ slot, first ≤ slot → slot < first + count → map.get slot = some dev) ∧
      Describes map.get 0 map.runs (npages * perPage) ∧
      (∀ page other slot, map.pages page = .privatePage slot →
        map.pages other = .privatePage slot → page = other) ∧
      ∀ page slot, map.pages page = .privatePage slot → slot ∉ map.free := by
  intro map
  obtain ⟨inv, size⟩ := run_inv positive dflt ops
  have slots : map.slots = npages * perPage := by
    rw [slots, size.perPage, size.npages]
    rfl
  refine ⟨fun slot inside => (inv.access (slots ▸ inside)).1, fun slot => ?_, inv.allAre, ?_,
    inv.books.distinct, fun page slot owns => (inv.books.owned page slot owns).2⟩
  · have shown := inv.get slot
    rw [size.perPage] at shown
    exact shown
  · rw [← slots]
    exact inv.runs

/-- A page is mixed, then whole again, and another is loaded from. -/
def mixedThenWhole : List (Op Nat) :=
  [.fill 1 2 3, .load 6, .fill 2 4 5, .fill 0 4 3]

theorem mixed_then_whole_flat :
    let map := mixedThenWhole.foldl step ((new 4 3).setDefault 9)
    (map.access 4).1 = some (flat 12 9 mixedThenWhole 4) ∧ flat 12 9 mixedThenWhole 4 = 5 ∧
      Describes map.get 0 map.runs 12 ∧
      map.runs = [⟨0, 4, some 3⟩, ⟨4, 6, some 5⟩, ⟨6, 8, some 9⟩, ⟨8, 12, none⟩] := by
  have held := @sparse_eq_flat Nat _ _ 4 3 (by decide) 9 mixedThenWhole
  exact ⟨held.1 4 (by decide), by decide, held.2.2.2.1, by decide +kernel⟩

/-- A slot nobody touched answers with the default device, which `get` and `all_are` do not
report. -/
theorem untouched_not_reported :
    let map := (new 4 3).setDefault 9
    (map.access 0).1 = some 9 ∧ map.get 0 = none ∧ map.allAre 0 1 9 = false := by
  decide +kernel

end SparseDeviceMap

end Iris.Ppmem
