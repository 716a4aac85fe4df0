import Iris.Cpu.Cache.Ops
import Iris.Snapshot.Toml
import Iris.Library.Run

/-!
Owns the snapshot of a cache: the words its tags and replacement bits are saved
as, the table they are saved in, and the loader that reads such a table over
whatever a cache holds. The words of the instruction lines are not saved; the
loader takes them from the secondary cache or memory again.
-/

namespace Iris.Cpu.Cache

open Snapshot CpuCache Library.Run List BitVec Table L1DTag Model

variable {m : Model}

/-! ### Tags as words -/

variable {count : Nat}

def L1ITag.toWord (tag : L1ITag) : BitVec 32 :=
  let rawPtag := tag.lineAddr / 0x1000 % 2 ^ 24
  BitVec.ofNat 32 (rawPtag <<< 8 ||| if tag.isValid then 2 <<< 6 else 0)

def L1ITag.ofWord (v : BitVec 32) : L1ITag :=
  let rawPtag := v.toNat / 2 ^ 8 % 2 ^ 24
  let valid := v.toNat / 2 ^ 6 % 4 ≠ 0
  ⟨if valid then rawPtag * 0x1000 + 1 else 0⟩

def L1DState.code : L1DState → Nat
  | invalid => 0
  | shared => 1
  | cleanExclusive => 2
  | dirtyExclusive => 3

def L1DState.ofCode : Nat → L1DState
  | 1 => shared
  | 2 => cleanExclusive
  | 3 => dirtyExclusive
  | _ => invalid

variable (cs : L1DState)

def L1DTag.toWord (tag : L1DTag) : BitVec 32 :=
  let rawPtag := tag.lineAddr / 0x1000 % 2 ^ 24
  BitVec.ofNat 32 (rawPtag ||| tag.cs.code <<< 24 ||| tag.dirty.toNat <<< 27)

def L1DTag.ofWord (v : BitVec 32) : L1DTag :=
  let rawPtag := v.toNat % 2 ^ 24
  let cs := v.toNat / 2 ^ 24 % 4
  { ptag := if cs ≠ 0 then rawPtag * 0x1000 + 1 else 0
    cs := .ofCode cs
    dirty := decide (v.toNat / 2 ^ 27 % 2 ≠ 0) }

def L2State.code : L2State → Nat
  | invalid => 0
  | reserved pattern => pattern.val + 1
  | cleanExclusive => 4
  | dirtyExclusive => 5
  | shared => 6
  | dirtyShared => 7

def L2State.ofCode : Nat → L2State
  | 1 => reserved 0
  | 2 => reserved 1
  | 3 => reserved 2
  | 4 => cleanExclusive
  | 5 => dirtyExclusive
  | 6 => shared
  | 7 => dirtyShared
  | _ => invalid

def L2Tag.toWord (tag : L2Tag) : BitVec 32 :=
  BitVec.ofNat 32 (tag.ptag ||| tag.pidx <<< 19 ||| tag.cs.code <<< 22 |||
    tag.hasCode.toNat <<< 25)

def L2Tag.ofWord (v : BitVec 32) : L2Tag where
  ptag := v.toNat % 2 ^ 19
  pidx := v.toNat / 2 ^ 19 % 8
  cs := .ofCode (v.toNat / 2 ^ 22 % 8)
  hasCode := decide (v.toNat / 2 ^ 25 % 2 ≠ 0)

/-- Data tags saved before `dc_tag_format` had their fields elsewhere. -/
def migrateL1dTagWordV0 (word : BitVec 32) : BitVec 32 :=
  let rawPtag := (word >>> 8) &&& 0x00ffffff &&& ~~~((1 : BitVec 32) <<< 19)
  let cs := (word >>> 6) &&& 3
  let w := (word >>> 27) &&& 1
  rawPtag ||| (cs <<< 24) ||| (w <<< 27)

/-! ### Replacement bits as words -/

/-- One bit for each set, 32 to a word. -/
def packLru {words : Nat} (lru : Table words (BitVec 64)) (numSets : Nat) : List (BitVec 32) :=
  (range ((numSets + 31) / 32)).map fun i =>
    ((range 32).filter fun b => i * 32 + b < numSets).foldl
      (fun acc b => acc ||| BitVec.ofNat 32 (CpuCache.lruGet lru (i * 32 + b)) <<< b) 0

def unpackLru (words : Nat) (packed : List (BitVec 32)) (numSets : Nat) :
    Table words (BitVec 64) :=
  (range numSets).foldl (fun dst set =>
    if (packed.getD (set / 32) 0 >>> (set % 32)) &&& 1 ≠ 0 then
      dst.set (set / 64) (dst.get (set / 64) ||| (1 : BitVec 64) <<< (set % 64))
    else dst) (.fill words 0)

namespace CpuCache

/-! ### Saving -/

def saveCacheState (c : CpuCache m) : Fields :=
  [("ic_tags", .words (u32SliceToToml (c.icTags.toList.map L1ITag.toWord))),
    ("dc_tags", .words (u32SliceToToml (c.dcTags.toList.map toWord))),
    ("dc_tag_format", .words (.integer 1)),
    ("dc_data", .words (u64SliceToToml c.dcData.toList)),
    ("l2_tags", .words (u32SliceToToml (c.l2Tags.toList.map L2Tag.toWord))),
    ("l2_data", .words (u64SliceToToml c.l2Data.toList)),
    ("llbit", .boolean c.llbit),
    ("lladdr", .words (hexU64 (BitVec.ofNat 64 c.lladdr)))] ++
  if m.isR5k then
    [("ic_lru", .words (u32SliceToToml (packLru c.icLru m.icNumLines))),
      ("dc_lru", .words (u32SliceToToml (packLru c.dcLru m.dcNumLines)))]
  else []

/-! ### Loading -/

def putL1iLine (c : CpuCache m) (eidx : Nat) (words : Nat → BitVec 32) : CpuCache m :=
  let n := m.icInstrsPerLine
  if m.isR5k then { c with icInstrs := c.icInstrs.copyIn (eidx * n) n words }
  else { c with icRaw := c.icRaw.copyIn (eidx * n) n words }

def l1iLineBase (c : CpuCache m) (eidx : Nat) : Nat :=
  l1TagToPhys (c.icTags.get eidx) (eidx % m.icNumLines * m.icLine)

/-- Refill the words of every valid primary instruction line. -/
def rebuildL1iWords (c : CpuCache m) : CpuCache m :=
  (range (m.ways * m.icNumLines)).foldl (fun c eidx =>
    if ¬(c.icTags.get eidx).isValid then c
    else
      let lineBase := c.l1iLineBase eidx
      if ¬m.isR5k ∧ (c.hitL2 lineBase).isSome then c.snapshotL1iLine eidx lineBase
      else c.putL1iLine eidx fun i => (c.downstream.read32 (lineBase + 4 * i)).getD 0) c

/-- The words of a field over an array of zeros. -/
def savedWords32 (v : Fields) (key : String) (count : Nat) : List (BitVec 32) :=
  Field.read (loadU32Slice · (replicate count 0)) (replicate count 0) (getField v key)

def savedWords64 (v : Fields) (key : String) (count : Nat) : List (BitVec 64) :=
  Field.read (loadU64Slice · (replicate count 0)) (replicate count 0) (getField v key)

/-- What the loader reads out of a table before it touches the cache. -/
def savedDcTags (v : Fields) (m : Model) : Except String (List (BitVec 32)) :=
  let dcTags := savedWords32 v "dc_tags" m.dcNumLines
  match (getField v "dc_tag_format").bind Field.asInteger with
  | none | some 0 => .ok (dcTags.map migrateL1dTagWordV0)
  | some 1 => .ok dcTags
  | some n => .error s!"unknown dc_tag_format {n}"

/-- The tag arrays are read by the number of sets, the data by its size. -/
def loadCacheState (v : Fields) (c : CpuCache m) : Except String (CpuCache m) := do
  let icTags := savedWords32 v "ic_tags" m.icNumLines
  let dcTags ← savedDcTags v m
  let l2Tags := savedWords32 v "l2_tags" m.l2NumLines
  let l2Data := c.l2Data.copyList (savedWords64 v "l2_data" (m.l2Size / 8))
  let packed := fun key numSets => savedWords32 v key ((numSets + 31) / 32)
  return rebuildL1iWords
    { c with
      icTags := c.icTags.copyList (icTags.map L1ITag.ofWord)
      dcTags := c.dcTags.copyList (dcTags.map ofWord)
      l2Tags := c.l2Tags.copyList (l2Tags.map L2Tag.ofWord)
      dcData := c.dcData.copyList (savedWords64 v "dc_data" (m.dcSize / 8))
      l2Data := l2Data
      l2Instrs := if m.isR5k then c.l2Instrs
        else c.l2Instrs.copyIn 0 m.l2Ninstrs (wordOf l2Data.get)
      icLru := if m.isR5k then unpackLru _ (packed "ic_lru" m.icNumLines) m.icNumLines
        else c.icLru
      dcLru := if m.isR5k then unpackLru _ (packed "dc_lru" m.dcNumLines) m.dcNumLines
        else c.dcLru
      llbit := ((getField v "llbit").bind tomlBool).getD c.llbit
      lladdr := (Field.read tomlU64 none (getField v "lladdr")).elim c.lladdr BitVec.toNat }

end CpuCache

/-! ### Tags come back -/

/-- Fields that do not overlap add up. -/
theorem or_shiftLeft (fits : low < 2 ^ k) (high : Nat) :
    low ||| high <<< k = high * 2 ^ k + low := by
  rw [Nat.or_comm, ← Nat.shiftLeft_add_eq_or_of_lt fits, Nat.shiftLeft_eq]

def L1ITag.Savable (tag : L1ITag) : Prop :=
  tag.ptag = 0 ∨ ∃ page < 2 ^ 24, tag.ptag = page * 0x1000 + 1

def L1DTag.Savable (tag : L1DTag) : Prop :=
  tag.ptag = 0 ∧ tag.cs = .invalid ∨
    ∃ page < 2 ^ 24, tag.ptag = page * 0x1000 + 1 ∧ tag.cs ≠ .invalid

def L2Tag.Savable (tag : L2Tag) : Prop :=
  tag.ptag < 2 ^ 19 ∧ tag.pidx < 8

theorem L1ITag.ofWord_toWord (savable : tag.Savable) : ofWord tag.toWord = tag := by
  obtain ⟨ptag⟩ := tag
  rcases savable with rfl | ⟨page, small, rfl⟩
  · rfl
  have valid : L1ITag.isValid ⟨page * 0x1000 + 1⟩ = true := by
    simp only [isValid, decide_eq_true_eq]
    omega
  have line : L1ITag.lineAddr ⟨page * 0x1000 + 1⟩ / 0x1000 % 2 ^ 24 = page := by
    simp only [lineAddr, alignDown]
    omega
  have word : (toWord ⟨page * 0x1000 + 1⟩).toNat = page * 2 ^ 8 + 128 := by
    simp only [toWord, valid, line, if_true]
    rw [Nat.or_comm, or_shiftLeft (by decide), toNat_ofNat]
    omega
  have state : (page * 2 ^ 8 + 128) / 2 ^ 6 % 4 ≠ 0 := by omega
  simp only [ofWord, word, state, ne_eq, not_false_eq_true, if_true, L1ITag.mk.injEq]
  omega

theorem L1DState.ofCode_code : ofCode cs.code = cs := by
  cases cs <;> rfl

theorem L1DState.code_lt : cs.code < 4 := by
  cases cs <;> decide

theorem L1DState.code_eq_zero : cs.code = 0 ↔ cs = .invalid := by
  cases cs <;> simp [code]

theorem L1DTag.ofWord_toWord (savable : tag.Savable) : ofWord tag.toWord = tag := by
  obtain ⟨ptag, cs, dirty⟩ := tag
  have code := cs.code_lt
  have flag : dirty.toNat < 2 := dirty.toNat_lt
  -- The page field is free of the state and the dirty bit.
  have word : ∀ page < 2 ^ 24, lineAddr ⟨ptag, cs, dirty⟩ / 0x1000 % 2 ^ 24 = page →
      (toWord ⟨ptag, cs, dirty⟩).toNat = dirty.toNat * 2 ^ 27 + (cs.code * 2 ^ 24 + page) := by
    intro page small line
    have low : cs.code * 2 ^ 24 + page < 2 ^ 27 := by omega
    simp only [toWord, line]
    rw [or_shiftLeft small, or_shiftLeft low, toNat_ofNat]
    omega
  have fields : ∀ page < 2 ^ 24, lineAddr ⟨ptag, cs, dirty⟩ / 0x1000 % 2 ^ 24 = page →
      ofWord (toWord ⟨ptag, cs, dirty⟩) =
        ⟨if cs.code ≠ 0 then page * 0x1000 + 1 else 0, cs, dirty⟩ := by
    intro page small line
    have state : (dirty.toNat * 2 ^ 27 + (cs.code * 2 ^ 24 + page)) / 2 ^ 24 % 4 = cs.code := by
      omega
    have page' : (dirty.toNat * 2 ^ 27 + (cs.code * 2 ^ 24 + page)) % 2 ^ 24 = page := by omega
    have dirty' : (dirty.toNat * 2 ^ 27 + (cs.code * 2 ^ 24 + page)) / 2 ^ 27 % 2 =
        dirty.toNat := by omega
    simp only [ofWord, word page small line, state, page', dirty', L1DState.ofCode_code]
    cases dirty <;> simp
  rcases savable with ⟨rfl, rfl⟩ | ⟨page, small, rfl, valid⟩
  · rw [fields 0 (by decide) (by simp [lineAddr, alignDown])]
    rfl
  · rw [fields page small (by simp only [lineAddr, alignDown]; omega),
      if_pos (mt cs.code_eq_zero.mp valid)]

theorem L2State.ofCode_code (cs : L2State) : ofCode cs.code = cs := by
  cases cs with
  | reserved pattern =>
    match pattern with
    | 0 | 1 | 2 => rfl
  | _ => rfl

theorem L2State.code_lt (cs : L2State) : cs.code < 8 := by
  cases cs with
  | reserved pattern =>
    simp only [code]
    omega
  | _ => simp [code]

theorem L2Tag.ofWord_toWord (savable : tag.Savable) : ofWord tag.toWord = tag := by
  obtain ⟨ptag, pidx, cs, hasCode⟩ := tag
  obtain ⟨small, small'⟩ : ptag < 2 ^ 19 ∧ pidx < 8 := savable
  -- The four fields side by side.
  have fields : ∀ code < 8, ∀ flag < 2,
      ptag ||| pidx <<< 19 ||| code <<< 22 ||| flag <<< 25 =
        flag * 2 ^ 25 + (code * 2 ^ 22 + (pidx * 2 ^ 19 + ptag)) := by
    intro code codeSmall flag _
    rw [or_shiftLeft small, or_shiftLeft (k := 22) (by omega), or_shiftLeft (k := 25) (by omega)]
  have apart : ∀ code < 8, ∀ flag < 2, ∀ word,
      word = flag * 2 ^ 25 + (code * 2 ^ 22 + (pidx * 2 ^ 19 + ptag)) →
      word % 2 ^ 32 % 2 ^ 19 = ptag ∧ word % 2 ^ 32 / 2 ^ 19 % 8 = pidx ∧
        word % 2 ^ 32 / 2 ^ 22 % 8 = code ∧ word % 2 ^ 32 / 2 ^ 25 % 2 = flag := by
    omega
  obtain ⟨first, second, third, fourth⟩ :=
    apart _ cs.code_lt _ hasCode.toNat_lt _ (fields _ cs.code_lt _ hasCode.toNat_lt)
  simp only [ofWord, toWord, toNat_ofNat, first, second, third, fourth, L2State.ofCode_code]
  cases hasCode <;> rfl

/-! ### Replacement bits come back -/

def lruBit {words : Nat} (bitmap : Table words (BitVec 64)) (set : Nat) : Bool :=
  (bitmap.get (set / 64)).getLsbD (set % 64)

variable {words numSets : Nat} {c : CpuCache m} {key : String}

theorem lruGet_eq (bitmap : Table words (BitVec 64)) (set : Nat) :
    lruGet bitmap set = (lruBit bitmap set).toNat := by
  rw [lruGet, lruBit, toNat_and, toNat_ushiftRight, getLsbD, Nat.toNat_testBit,
    Nat.shiftRight_eq_div_pow]
  exact Nat.and_one_is_mod _

theorem foldl_bits (bit : Nat → Bool) {places : List Nat} {k : Nat} (small : k < 32) :
    (places.foldl (fun acc b => acc ||| BitVec.ofNat 32 (bit b).toNat <<< b) init).getLsbD k =
      (init.getLsbD k || (decide (k ∈ places) && bit k)) := by
  induction places generalizing init with
  | nil => simp
  | cons b rest inductionHypothesis =>
    have one : (BitVec.ofNat 32 (bit b).toNat <<< b).getLsbD k = (decide (k = b) && bit b) := by
      cases bit b with
      | false => simp
      | true =>
        by_cases same : k = b
        · subst same
          simp [small]
        · by_cases below : k < b
          · simp [below, same]
          · have above : k - b ≠ 0 := by omega
            simp [same, above]
    rw [foldl_cons, inductionHypothesis, getLsbD_or, one]
    by_cases same : k = b
    · subst same
      cases bit k <;> simp
    · simp [same]

theorem packLru_bit {lru : Table words (BitVec 64)} {set : Nat} (inside : set < numSets) :
    ((packLru lru numSets).getD (set / 32) 0).getLsbD (set % 32) = lruBit lru set := by
  have within : set / 32 < (numSets + 31) / 32 := by omega
  have place : set / 32 * 32 + set % 32 = set := by omega
  have listed : set % 32 ∈ (range 32).filter fun b => set / 32 * 32 + b < numSets := by
    rw [mem_filter, mem_range, place]
    exact ⟨by omega, by simpa using inside⟩
  simp only [packLru, lruGet_eq]
  rw [getD_eq_getElem?_getD, getElem?_map, getElem?_range within, Option.map_some,
    Option.getD_some, foldl_bits (fun b => lruBit lru (set / 32 * 32 + b)) (by omega)]
  simp [listed, place]

theorem and_one_ne_zero (word : BitVec 32) (place : Nat) :
    (word >>> place) &&& 1 ≠ 0 ↔ word.getLsbD place = true := by
  show (word >>> place) &&& 1#32 ≠ 0#32 ↔ _
  rw [and_one_eq_setWidth_ofBool_getLsbD, getLsbD_ushiftRight]
  cases word.getLsbD place <;> decide

/-- Every set below `numSets` has the bit its packed word has, and no other bit
is set. -/
theorem lruBit_unpackLru {set : Nat} (inside : set / 64 < words) :
    lruBit (unpackLru words packed numSets) set =
      (decide (set < numSets) && (packed.getD (set / 32) 0).getLsbD (set % 32)) := by
  revert inside
  refine foldl_range_invariant (fun k (dst : Table words (BitVec 64)) => set / 64 < words →
    lruBit dst set = (decide (set < k) && (packed.getD (set / 32) 0).getLsbD (set % 32))) ?_ ?_
  · intro inside
    simp [lruBit, inside]
  intro k _ dst held inside
  have tested := and_one_ne_zero (packed.getD (k / 32) 0) (k % 32)
  by_cases bit : (packed.getD (k / 32) 0).getLsbD (k % 32) = true
  · rw [if_pos (tested.mpr bit)]
    by_cases word : set / 64 = k / 64
    · rw [lruBit, ← word, get_set_self inside, getLsbD_or, ← lruBit, held inside]
      by_cases same : set = k
      · subst same
        have small : set % 64 < 64 := by omega
        rw [bit]
        simp [small]
      · by_cases below : set < k
        · have later : set % 64 < k % 64 := by omega
          simp [below, later, Nat.lt_succ_of_lt below]
        · have above : set % 64 - k % 64 ≠ 0 := by omega
          have outside : ¬(set < k + 1) := by omega
          simp [below, above, outside]
    · have differ : set ≠ k := by
        rintro rfl
        exact word rfl
      rw [lruBit, get_set_of_ne word, ← lruBit, held inside]
      simp only [Nat.lt_succ_iff_lt_or_eq, differ, or_false]
  · rw [if_neg (mt tested.mp bit), held inside]
    by_cases same : set = k
    · subst same
      rw [Bool.not_eq_true] at bit
      rw [bit, Bool.and_false, Bool.and_false]
    · simp only [Nat.lt_succ_iff_lt_or_eq, same, or_false]

theorem unpackLru_packLru (lru : Table words (BitVec 64)) :
    unpackLru words (packLru lru (words * 64)) (words * 64) = lru := by
  apply ext
  intro word inside
  apply eq_of_getLsbD_eq
  intro bit small
  have place : (word * 64 + bit) / 64 = word := by omega
  have place' : (word * 64 + bit) % 64 = bit := by omega
  have within : word * 64 + bit < words * 64 := by omega
  have unpacked : lruBit (unpackLru words (packLru lru (words * 64)) (words * 64))
      (word * 64 + bit) = _ := lruBit_unpackLru (by omega)
  rw [packLru_bit within] at unpacked
  simpa [lruBit, place, place', within] using unpacked

/-! ### A saved cache comes back -/

/-- Every tag and the link address fit their words. -/
structure CpuCache.Savable (c : CpuCache m) : Prop where
  ic : ∀ idx, (c.icTags.get idx).Savable
  dc : ∀ idx, (c.dcTags.get idx).Savable
  l2 : ∀ idx, (c.l2Tags.get idx).Savable
  lladdr : c.lladdr < 2 ^ 64

/-- What loading the snapshot of `c` over `d` leaves, before the instruction
words are refilled. -/
def CpuCache.restored (c d : CpuCache m) : CpuCache m :=
  let l2Data := if m.hasL2 then c.l2Data else d.l2Data
  { c with
    downstream := d.downstream
    icTags := d.icTags.copyList (c.icTags.toList.take m.icNumLines)
    dcTags := d.dcTags.copyList (c.dcTags.toList.take m.dcNumLines)
    l2Data := l2Data
    l2Instrs := if m.isR5k then d.l2Instrs
      else d.l2Instrs.copyIn 0 m.l2Ninstrs (wordOf l2Data.get)
    icInstrs := d.icInstrs
    icRaw := d.icRaw }

theorem map_ofWord_toWord {α : Type} [Inhabited α] {toWord : α → BitVec 32} {ofWord : BitVec 32 → α}
    {table : Table n α} (back : ∀ slot, ofWord (toWord (table.get slot)) = table.get slot) :
    (((table.toList.map toWord).take count).map ofWord) = table.toList.take count := by
  rw [← map_take, map_map]
  refine (map_congr_left fun tag member => ?_).trans (map_id _)
  obtain ⟨i, rfl⟩ := mem_ofFn.mp (mem_of_mem_take member)
  have here : table.get i = table i := by simp [Table.get]
  rw [Function.comp_apply, ← here, back]
  rfl

theorem savedWords32_eq {slice : List (BitVec 32)}
    (field : getField v key = some (.words (u32SliceToToml slice))) (covers : count ≤ slice.length) :
    savedWords32 v key count = slice.take count := by
  rw [savedWords32, field, Field.read, loadU32Slice, u32SliceToToml,
    loadSlice_map tomlU32_hexU32 (by simpa using covers), length_replicate]

theorem savedWords64_eq {slice : List (BitVec 64)}
    (field : getField v key = some (.words (u64SliceToToml slice))) (covers : count ≤ slice.length) :
    savedWords64 v key count = slice.take count := by
  rw [savedWords64, field, Field.read, loadU64Slice, u64SliceToToml,
    loadSlice_map tomlU64_hexU64 (by simpa using covers), length_replicate]

/-! ### The words of the instruction lines -/

/-- The word a valid instruction line takes again. -/
def CpuCache.rebuiltWord (c : CpuCache m) (eidx i : Nat) : BitVec 32 :=
  let lineBase := c.l1iLineBase eidx
  if ¬m.isR5k ∧ (c.hitL2 lineBase).isSome then
    c.l2Instrs.get ((m.l2Index lineBase * l2Line +
      alignDown lineBase m.icLine % l2Line) / 4 + i)
  else (c.downstream.read32 (lineBase + 4 * i)).getD 0

theorem Model.icSlots (m : Model) (inside : eidx < m.icTags) (within : i < m.icInstrsPerLine) :
    eidx * m.icInstrsPerLine + i < m.icSize / 4 := by
  cases m <;>
    simp only [icTags, icInstrsPerLine, icSize, icLine] at inside within ⊢ <;> omega

theorem l1iWord_putL1iLine {c : CpuCache m} (words : Nat → BitVec 32) (inside : other < m.icTags)
    (within : i < m.icInstrsPerLine) :
    (c.putL1iLine eidx words).l1iWord other i =
      if other = eidx then words i else c.l1iWord other i := by
  have slot := m.icSlots inside within
  by_cases twoWay : m.isR5k = true
  · simp only [putL1iLine, l1iWord, twoWay, if_true]
    exact get_copyIn_line within (by rwa [icInstrSlots, if_pos twoWay])
  · simp only [putL1iLine, l1iWord, twoWay]
    exact get_copyIn_line within (by rwa [icRawWords, if_neg twoWay])

/-- Two caches that differ only in the words of their instruction lines. -/
def SameButWords (c d : CpuCache m) : Prop :=
  ∃ icInstrs icRaw, d = { c with icInstrs := icInstrs, icRaw := icRaw }

theorem SameButWords.rebuiltWord (same : SameButWords c d) (eidx i : Nat) :
    d.rebuiltWord eidx i = c.rebuiltWord eidx i := by
  obtain ⟨icInstrs, icRaw, rfl⟩ := same
  rfl

theorem SameButWords.putL1iLine (same : SameButWords c d) (words : Nat → BitVec 32) :
    SameButWords c (d.putL1iLine eidx words) := by
  obtain ⟨icInstrs, icRaw, rfl⟩ := same
  rw [CpuCache.putL1iLine]
  split <;> exact ⟨_, _, rfl⟩

theorem rebuild_round (c : CpuCache m) (eidx : Nat) :
    (if ¬m.isR5k ∧ (c.hitL2 (c.l1iLineBase eidx)).isSome then
        c.snapshotL1iLine eidx (c.l1iLineBase eidx)
      else c.putL1iLine eidx fun i => (c.downstream.read32 (c.l1iLineBase eidx + 4 * i)).getD 0) =
      c.putL1iLine eidx (c.rebuiltWord eidx) := by
  by_cases fromL2 : ¬m.isR5k ∧ (c.hitL2 (c.l1iLineBase eidx)).isSome
  · have words : c.rebuiltWord eidx = fun i => c.l2Instrs.get ((m.l2Index (c.l1iLineBase eidx) *
        l2Line + alignDown (c.l1iLineBase eidx) m.icLine % l2Line) / 4 + i) :=
      funext fun i => if_pos fromL2
    rw [if_pos fromL2, words, putL1iLine]
    simp only [fromL2.1]
    rfl
  · have words : c.rebuiltWord eidx = fun i =>
        (c.downstream.read32 (c.l1iLineBase eidx + 4 * i)).getD 0 :=
      funext fun i => if_neg fromL2
    rw [if_neg fromL2, words]

/-- The refill changes the words of the instruction lines alone, and every valid
line has the words of the secondary cache or of memory. -/
theorem rebuildL1iWords_spec (c : CpuCache m) :
    SameButWords c c.rebuildL1iWords ∧ ∀ eidx < m.ways * m.icNumLines,
      (c.icTags.get eidx).isValid = true → ∀ i < m.icInstrsPerLine,
        c.rebuildL1iWords.l1iWord eidx i = c.rebuiltWord eidx i := by
  have slots : m.ways * m.icNumLines = m.icTags := by cases m <;> rfl
  refine foldl_range_invariant (fun k (s : CpuCache m) => SameButWords c s ∧ ∀ eidx < k,
    (c.icTags.get eidx).isValid = true → ∀ i < m.icInstrsPerLine,
      s.l1iWord eidx i = c.rebuiltWord eidx i) ⟨⟨_, _, rfl⟩, fun _ none => absurd none (by omega)⟩ ?_
  rintro k inside s ⟨same, earlier⟩
  have tags : s.icTags = c.icTags := by
    obtain ⟨icInstrs, icRaw, rfl⟩ := same
    rfl
  split
  next invalid =>
    refine ⟨same, fun eidx below valid => ?_⟩
    rcases Nat.lt_succ_iff_lt_or_eq.mp below with before | rfl
    · exact earlier eidx before valid
    · rw [tags] at invalid
      exact absurd valid invalid
  · rw [rebuild_round]
    refine ⟨same.putL1iLine _, fun eidx below valid i within => ?_⟩
    rw [l1iWord_putL1iLine _ (by omega) within]
    split
    next here => rw [here, same.rebuiltWord]
    · exact earlier eidx (by omega) valid i within

theorem Model.icNumLines_le (m : Model) : m.icNumLines ≤ m.icTags := by
  cases m <;> decide

theorem Model.dcNumLines_le (m : Model) : m.dcNumLines ≤ m.dcTags := by
  cases m <;> decide

theorem Model.l2Size_le (m : Model) : m.l2Size / 8 ≤ m.l2CacheSize / 8 := by
  cases m <;> decide

/-- The replacement bits of the two-way caches come back; the others have none. -/
theorem lru_saved {lru : Table (m.lruWords numSets) (BitVec 64)}
    (unchanged : Table (m.lruWords numSets) (BitVec 64)) (whole : numSets % 64 = 0)
    (field : m.isR5k = true →
      getField c.saveCacheState key = some (.words (u32SliceToToml (packLru lru numSets)))) :
    (if m.isR5k then unpackLru _ (savedWords32 c.saveCacheState key ((numSets + 31) / 32)) numSets
      else unchanged) = lru := by
  by_cases twoWay : m.isR5k = true
  · have length : (packLru lru numSets).length = (numSets + 31) / 32 := by simp [packLru]
    have words : m.lruWords numSets * 64 = numSets := by
      rw [lruWords, if_pos twoWay]
      omega
    rw [if_pos twoWay, savedWords32_eq (field twoWay) (by omega), ← length, take_length]
    have back := unpackLru_packLru lru
    rwa [words] at back
  · apply ext
    intro slot inside
    simp [lruWords, twoWay] at inside

theorem load_save (savable : c.Savable) :
    loadCacheState c.saveCacheState d = .ok (c.restored d).rebuildL1iWords := by
  have icTags : (savedWords32 c.saveCacheState "ic_tags" m.icNumLines).map L1ITag.ofWord =
      c.icTags.toList.take m.icNumLines := by
    rw [savedWords32_eq rfl (by simpa using m.icNumLines_le),
      map_ofWord_toWord fun slot => L1ITag.ofWord_toWord (savable.ic slot)]
  have dcWords : savedDcTags c.saveCacheState m =
      .ok ((c.dcTags.toList.map toWord).take m.dcNumLines) := by
    rw [savedDcTags, savedWords32_eq rfl (by simpa using m.dcNumLines_le)]
    rfl
  have dcTags : ((c.dcTags.toList.map toWord).take m.dcNumLines).map ofWord =
      c.dcTags.toList.take m.dcNumLines :=
    map_ofWord_toWord (fun slot => ofWord_toWord (savable.dc slot))
  have l2Tags : d.l2Tags.copyList
      ((savedWords32 c.saveCacheState "l2_tags" m.l2NumLines).map L2Tag.ofWord) = c.l2Tags := by
    have all : c.l2Tags.toList.take m.l2NumLines = c.l2Tags.toList :=
      take_of_length_le (by simp)
    rw [savedWords32_eq rfl (by simp),
      map_ofWord_toWord (fun slot => L2Tag.ofWord_toWord (savable.l2 slot)), all,
      copyList_toList]
  have dcData : d.dcData.copyList (savedWords64 c.saveCacheState "dc_data" (m.dcSize / 8)) =
      c.dcData := by
    have all : c.dcData.toList.take (m.dcSize / 8) = c.dcData.toList :=
      take_of_length_le (by simp)
    rw [savedWords64_eq rfl (by simp), all, copyList_toList]
  have l2Data : d.l2Data.copyList (savedWords64 c.saveCacheState "l2_data" (m.l2Size / 8)) =
      if m.hasL2 then c.l2Data else d.l2Data := by
    rw [savedWords64_eq rfl (by simpa using m.l2Size_le), l2Size]
    split
    · have all : c.l2Data.toList.take (m.l2CacheSize / 8) = c.l2Data.toList :=
        take_of_length_le (by simp)
      rw [all, copyList_toList]
    · apply ext
      intro slot inside
      rw [get_copyList_take inside]
      simp
  have icField : m.isR5k = true → getField c.saveCacheState "ic_lru" =
      some (.words (u32SliceToToml (packLru c.icLru m.icNumLines))) := by
    intro twoWay
    simp [getField, saveCacheState, twoWay, lookup_cons]
  have dcField : m.isR5k = true → getField c.saveCacheState "dc_lru" =
      some (.words (u32SliceToToml (packLru c.dcLru m.dcNumLines))) := by
    intro twoWay
    simp [getField, saveCacheState, twoWay, lookup_cons]
  have icLru := lru_saved d.icLru (by cases m <;> rfl) icField
  have dcLru := lru_saved d.dcLru (by cases m <;> rfl) dcField
  have lladdr : (Field.read tomlU64 none (getField c.saveCacheState "lladdr")).elim d.lladdr
      BitVec.toNat = c.lladdr := by
    have field : getField c.saveCacheState "lladdr" =
      some (.words (hexU64 (BitVec.ofNat 64 c.lladdr))) := rfl
    have small := savable.lladdr
    rw [field, Field.read, tomlU64_hexU64, Option.elim_some, toNat_ofNat]
    omega
  rw [loadCacheState, dcWords]
  show Except.ok (rebuildL1iWords _) = _
  simp only [icTags, dcTags, l2Tags, dcData, l2Data, icLru, dcLru, lladdr]
  rfl

end Iris.Cpu.Cache
