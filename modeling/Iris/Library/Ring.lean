import Mathlib.Data.List.Basic
import Mathlib.Data.Nat.ModEq
import Mathlib.Tactic.Ring

/-!
Owns rings of slots under free-running counters. A log is kept in a ring of `size`
slots, entry `k` in slot `k % size`; the ring holds the entries from some point on as
long as they span less than it. Machine counters are the unbounded ones modulo the
size, and their masked difference is the true distance within one turn.
-/

namespace Iris.Library.Ring

open List Function

variable {α : Type*} {size : Nat}

/-! ### Counters -/

def wrappingSub (left right : Nat) : Nat := (left + (2 ^ 64 - right)) % 2 ^ 64

variable {bits high : Nat}

/-- The counters `low ≤ high` fall on one slot only a whole number of turns apart. -/
theorem mod_eq_iff (order : low < high) (near : high ≤ low + size) :
    high % size = low % size ↔ high = low + size := by
  constructor
  · intro same
    have turns : size ∣ high - low := (Nat.modEq_iff_dvd' order.le).mp same.symm
    have reach := Nat.le_of_dvd (by omega) turns
    omega
  · rintro rfl
    exact Nat.add_mod_right low size

theorem mod_eq_iff_eq (order : low ≤ high) (near : high < low + size) :
    low % size = high % size ↔ low = high := by
  rcases Nat.eq_or_lt_of_le order with rfl | less
  · exact ⟨fun _ => rfl, fun _ => rfl⟩
  · rw [eq_comm, mod_eq_iff less near.le]
    omega

section
variable (word : bits ≤ 64)
include word

theorem wrappingSub_add (inWord : right ≤ 2 ^ 64) :
    wrappingSub left right + right ≡ left [MOD 2 ^ bits] := by
  have divides : 2 ^ bits ∣ 2 ^ 64 := Nat.pow_dvd_pow 2 word
  calc wrappingSub left right + right
      ≡ left + (2 ^ 64 - right) + right [MOD 2 ^ bits] :=
        ((Nat.mod_modEq _ _).of_dvd divides).add_right right
    _ = left + 2 ^ 64 := by omega
    _ ≡ left + 0 [MOD 2 ^ bits] := (Nat.modEq_zero_iff_dvd.mpr divides).add_left left

theorem mod_le_word : counter % 2 ^ bits ≤ 2 ^ 64 :=
  (Nat.le_of_lt (Nat.mod_lt _ (Nat.two_pow_pos bits))).trans
    (Nat.pow_le_pow_right (by decide) word)

theorem distance (order : low ≤ high) (near : high < low + 2 ^ bits) :
    wrappingSub (high % 2 ^ bits) (low % 2 ^ bits) % 2 ^ bits = high - low := by
  have congruent : wrappingSub (high % 2 ^ bits) (low % 2 ^ bits) ≡ high - low [MOD 2 ^ bits] := by
    apply Nat.ModEq.add_right_cancel' low
    calc wrappingSub (high % 2 ^ bits) (low % 2 ^ bits) + low
        ≡ wrappingSub (high % 2 ^ bits) (low % 2 ^ bits) + low % 2 ^ bits [MOD 2 ^ bits] :=
          (Nat.mod_modEq _ _).symm.add_left _
      _ ≡ high % 2 ^ bits [MOD 2 ^ bits] := wrappingSub_add word (mod_le_word word)
      _ ≡ high [MOD 2 ^ bits] := Nat.mod_modEq _ _
      _ = high - low + low := (Nat.sub_add_cancel order).symm
  rw [congruent, Nat.mod_eq_of_lt (by omega)]

theorem mod_pred (counter : Nat) :
    wrappingSub ((counter + 1) % 2 ^ bits) 1 % 2 ^ bits = counter % 2 ^ bits := by
  apply Nat.ModEq.add_right_cancel' 1
  calc wrappingSub ((counter + 1) % 2 ^ bits) 1 + 1
      ≡ (counter + 1) % 2 ^ bits [MOD 2 ^ bits] := wrappingSub_add word Nat.one_le_two_pow
    _ ≡ counter + 1 [MOD 2 ^ bits] := Nat.mod_modEq _ _

/-- The free slots between two counters, one kept empty. -/
theorem room (order : low ≤ high) (near : high < low + 2 ^ bits) :
    wrappingSub (wrappingSub (low % 2 ^ bits) (high % 2 ^ bits)) 1 % 2 ^ bits =
      low + 2 ^ bits - 1 - high := by
  have congruent : wrappingSub (wrappingSub (low % 2 ^ bits) (high % 2 ^ bits)) 1 ≡
      low + 2 ^ bits - 1 - high [MOD 2 ^ bits] := by
    apply Nat.ModEq.add_right_cancel' 1
    apply Nat.ModEq.add_right_cancel' high
    calc wrappingSub (wrappingSub (low % 2 ^ bits) (high % 2 ^ bits)) 1 + 1 + high
        ≡ wrappingSub (low % 2 ^ bits) (high % 2 ^ bits) + high % 2 ^ bits [MOD 2 ^ bits] :=
          (wrappingSub_add word Nat.one_le_two_pow).add (Nat.mod_modEq _ _).symm
      _ ≡ low % 2 ^ bits [MOD 2 ^ bits] := wrappingSub_add word (mod_le_word word)
      _ ≡ low + 2 ^ bits [MOD 2 ^ bits] :=
          (Nat.mod_modEq _ _).trans (Nat.add_modEq_right (a := low) (n := 2 ^ bits)).symm
      _ = low + 2 ^ bits - 1 - high + 1 + high := by omega
  rw [congruent, Nat.mod_eq_of_lt (by omega)]

end

/-! ### Slots -/

/-- The ring holds the entries of the log from `low` on. -/
def Holds (size : Nat) (buf : Nat → α) (log : List α) (low : Nat) : Prop :=
  ∀ k entry, low ≤ k → log[k]? = some entry → buf (k % size) = entry

variable {buf : Nat → α} {log : List α} {low : Nat}

theorem Holds.mono (holds : Holds size buf log low) (later : low ≤ low') :
    Holds size buf log low' :=
  fun k entry from_ found => holds k entry (later.trans from_) found

/-- A new entry takes a slot that none of those held has. -/
theorem Holds.push (holds : Holds size buf log low) (room : log.length < low + size) (entry : α) :
    Holds size (update buf (log.length % size) entry) (log ++ [entry]) low := by
  intro k other from_ found
  have bound : k < (log ++ [entry]).length := (List.getElem?_eq_some_iff.mp found).1
  rw [length_append, length_singleton] at bound
  rcases lt_or_ge k log.length with older | newest
  · rw [getElem?_append_left older] at found
    have elsewhere : k % size ≠ log.length % size := by
      intro same
      have turn := (mod_eq_iff older (by omega)).mp same.symm
      omega
    rw [update_of_ne elsewhere]
    exact holds k other from_ found
  · have last : k = log.length := by omega
    subst last
    rw [getElem?_append_right le_rfl, Nat.sub_self] at found
    rw [update_self]
    exact Option.some.inj found

/-- The slots from counter `start` on take a list of entries. -/
def fill (size : Nat) (buf : Nat → α) : Nat → List α → Nat → α
  | _, [] => buf
  | start, entry :: rest => fill size (update buf (start % size) entry) (start + 1) rest

theorem Holds.fill (holds : Holds size buf log low)
    (room : log.length + entries.length ≤ low + size) :
    Holds size (fill size buf log.length entries) (log ++ entries) low := by
  induction entries generalizing buf log with
  | nil =>
    rw [append_nil]
    exact holds
  | cons entry rest inductionHypothesis =>
    rw [length_cons] at room
    have next := inductionHypothesis (holds.push (by omega) entry)
      (by
        rw [length_append, length_singleton]
        omega)
    rw [length_append, append_assoc] at next
    exact next

end Iris.Library.Ring
