import Iris.Library.LittleEndian
import Mathlib.Data.Finset.Sort

/-!
Owns the `.dirty` sidecar: a little-endian count of sectors and that many sector
numbers. What a save writes, in whatever order the set yields its members, a load
reads back as the same set.
-/

namespace Iris.Block

open Library LittleEndian Finset

abbrev Byte := BitVec 8

/-- An order in which a hash set may yield its members. -/
structure HashOrder where
  list : Finset Nat → List Nat
  mem_list : ∀ set lba, lba ∈ list set ↔ lba ∈ set
  nodup : ∀ set, (list set).Nodup

def HashOrder.ascending : HashOrder where
  list set := set.sort (· ≤ ·)
  mem_list _ _ := mem_sort (· ≤ ·)
  nodup set := sort_nodup set (· ≤ ·)

def saveDirtySidecar (lbas : List Nat) : List Byte :=
  encode 8 lbas.length ++ lbas.flatMap (encode 8)

/-- The entries, as far as the file has them. -/
def loadEntries : Nat → List Byte → Finset Nat → Finset Nat
  | 0, _, set => set
  | count + 1, file, set =>
    if file.length < 8 then set
    else loadEntries count (file.drop 8) (insert (decode (file.take 8)) set)

/-- A missing or too short file holds no sectors. -/
def loadDirtySidecar : Option (List Byte) → Finset Nat
  | none => ∅
  | some file =>
    if file.length < 8 then ∅
    else loadEntries (decode (file.take 8)) (file.drop 8) ∅

theorem loadEntries_save {lbas : List Nat} (fit : ∀ lba ∈ lbas, lba < 2 ^ 64) (set : Finset Nat) :
    loadEntries lbas.length (lbas.flatMap (encode 8)) set = lbas.toFinset ∪ set := by
  induction lbas generalizing set with
  | nil => exact (empty_union set).symm
  | cons lba rest inductionHypothesis =>
    have size : (encode 8 lba).length = 8 := length_encode
    have decoded : decode (encode 8 lba) = lba :=
      decode_encode (fit lba List.mem_cons_self)
    rw [List.flatMap_cons, List.length_cons, loadEntries, if_neg (by
      rw [List.length_append]
      omega), List.take_left' size, List.drop_left' size, decoded,
      inductionHypothesis (List.forall_mem_cons.mp fit).2]
    rw [List.toFinset_cons, insert_union, union_insert]

theorem loadDirtySidecar_save {lbas : List Nat} (fit : ∀ lba ∈ lbas, lba < 2 ^ 64)
    (few : lbas.length < 2 ^ 64) :
    loadDirtySidecar (some (saveDirtySidecar lbas)) = lbas.toFinset := by
  have size : (encode 8 lbas.length).length = 8 := length_encode
  have count : decode (encode 8 lbas.length) = lbas.length :=
    decode_encode few
  rw [loadDirtySidecar, saveDirtySidecar, if_neg (by
    rw [List.length_append]
    omega), List.take_left' size, List.drop_left' size, count, loadEntries_save fit,
    union_empty]

theorem HashOrder.toFinset_list (order : HashOrder) (set : Finset Nat) :
    (order.list set).toFinset = set := by
  ext lba
  rw [List.mem_toFinset, order.mem_list]

/-- A saved hash set of sectors below `count` is loaded back, whatever the order. -/
theorem loadDirtySidecar_hashed (order : HashOrder) {set : Finset Nat} {count : Nat}
    (below : ∀ lba ∈ set, lba < count) (fits : count < 2 ^ 64) :
    loadDirtySidecar (some (saveDirtySidecar (order.list set))) = set := by
  have few : set.card ≤ count := by
    have inRange : set ⊆ range count := fun lba member => mem_range.mpr (below lba member)
    exact (card_le_card inRange).trans_eq (card_range count)
  have length : (order.list set).length = set.card := by
    rw [← List.toFinset_card_of_nodup (order.nodup set), order.toFinset_list]
  rw [loadDirtySidecar_save, order.toFinset_list]
  · intro lba member
    exact (below lba ((order.mem_list _ _).mp member)).trans fits
  · rw [length]
    exact few.trans_lt fits

end Iris.Block
