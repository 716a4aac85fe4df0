import Mathlib.Data.List.TakeDrop
import Mathlib.Tactic.Ring

/-!
Owns reassembly of a stream from overlapping pieces of it, and the wrapping
positions such pieces are labelled with.
-/

namespace Iris.Library.Stream

open List BitVec

variable {α : Type}

/-- `piece` is what `stream` holds from `offset` on. -/
def Carries (stream : List α) (offset : Nat) (piece : List α) : Prop :=
  piece = (stream.drop offset).take piece.length

variable {offset count : Nat} {stream : List α}

/-- A slice of what came so far is a slice of the whole. -/
theorem Carries.of_begins (begins : sofar <+: stream) :
    Carries stream offset ((sofar.drop offset).take count) := by
  obtain ⟨rest, rfl⟩ := begins
  unfold Carries
  rw [length_take, length_drop]
  rcases Nat.lt_or_ge sofar.length offset with short | reach
  · have none : min count (sofar.length - offset) = 0 := by omega
    rw [drop_eq_nil_of_le (Nat.le_of_lt short), none, take_zero, take_nil]
  · rw [drop_append_of_le_length reach, take_append_of_le_length, ← take_take,
      take_of_length_le (Nat.le_of_eq length_drop)]
    rw [length_drop]
    exact Nat.min_le_right _ _

theorem Carries.within {piece : List α} (carries : Carries stream offset piece)
    (nonempty : piece ≠ []) : offset + piece.length ≤ stream.length := by
  have length := congrArg length carries
  simp only [length_take, length_drop] at length
  have positive := length_pos_iff.mpr nonempty
  omega

/-- The part of a piece past the first `count` elements of the stream continues
them. -/
theorem Carries.continues (carries : Carries stream offset piece) (reached : offset ≤ count)
    (available : taken ≤ (piece.drop (count - offset)).length) :
    stream.take count ++ (piece.drop (count - offset)).take taken = stream.take (count + taken) := by
  have fresh : piece.drop (count - offset) =
      (stream.drop count).take (piece.length - (count - offset)) := by
    have moved : offset + (count - offset) = count := by omega
    conv_lhs => rw [carries, drop_take, drop_drop, moved]
  rw [length_drop] at available
  rw [fresh, take_take, Nat.min_eq_left available, take_add]

/-! ### Wrapping positions -/

variable {width : Nat}

/-- A position at or behind `count`, less than a turn away. -/
theorem toNat_sub_of_le (base : BitVec width) (behind : offset ≤ count)
    (near : count < offset + 2 ^ width) :
    (base + BitVec.ofNat width count - (base + BitVec.ofNat width offset)).toNat =
      count - offset := by
  have shifted : base + BitVec.ofNat width count - (base + BitVec.ofNat width offset) =
      BitVec.ofNat width (count - offset) := by
    have total : BitVec.ofNat width count =
        BitVec.ofNat width offset + BitVec.ofNat width (count - offset) := by
      rw [← ofNat_add, Nat.add_sub_cancel' behind]
    rw [total, ← BitVec.add_assoc, BitVec.add_comm _ (BitVec.ofNat width (count - offset)),
      add_sub_cancel]
  rw [shifted, toNat_ofNat, Nat.mod_eq_of_lt (by omega)]

/-- A position ahead of `count`, at most a turn away, looks like one nearly a
turn behind. -/
theorem toNat_sub_of_lt (ahead : count < offset) (near : offset ≤ count + 2 ^ width) :
    (base + BitVec.ofNat width count - (base + BitVec.ofNat width offset)).toNat =
      2 ^ width - (offset - count) := by
  have turned : base + BitVec.ofNat width count =
      base + BitVec.ofNat width (count + 2 ^ width) := by
    apply eq_of_toNat_eq
    simp
  rw [turned, toNat_sub_of_le base near (by omega)]
  omega

theorem position_eq_iff (near : first < second + 2 ^ width) (near' : second < first + 2 ^ width) :
    base + BitVec.ofNat width first = base + BitVec.ofNat width second ↔ first = second := by
  constructor
  · intro same
    rcases Nat.le_total first second with le | ge
    · have distance := toNat_sub_of_le base le near'
      rw [same, BitVec.sub_self, BitVec.toNat_zero] at distance
      omega
    · have distance := toNat_sub_of_le base ge near
      rw [same, BitVec.sub_self, BitVec.toNat_zero] at distance
      omega
  · intro same
    rw [same]

end Iris.Library.Stream
