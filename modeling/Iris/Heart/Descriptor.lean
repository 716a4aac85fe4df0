import Mathlib.Data.Nat.Bitwise
import Iris.Heart.Memory

/-!
Owns the arithmetic of HEART's descriptors: a descriptor keeps the low 25 bits of an
address, so that a unit is one run of the bank, and the decode reads only the bits that are
compared when descriptors are written.
-/

namespace Iris.Heart

/-- A bank that can be fitted: a power of two from 64 MiB to 2 GiB. -/
def Capacity (size : Nat) : Prop :=
  size = 64 * mib ∨ size = 128 * mib ∨ size = 256 * mib ∨ size = 512 * mib ∨ size = 1024 * mib ∨
    size = 2048 * mib

variable {u size capacity : Nat} {d d' : BitVec 32}

theorem Capacity.units (fitted : Capacity size) : ∃ c, 0 < c ∧ size = unit * c := by
  rcases fitted with rfl | rfl | rfl | rfl | rfl | rfl
  · exact ⟨2, by decide⟩
  · exact ⟨4, by decide⟩
  · exact ⟨8, by decide⟩
  · exact ⟨16, by decide⟩
  · exact ⟨32, by decide⟩
  · exact ⟨64, by decide⟩

theorem Capacity.power (fitted : Capacity size) : ∃ n ≤ 31, size = 2 ^ n := by
  rcases fitted with rfl | rfl | rfl | rfl | rfl | rfl
  · exact ⟨26, by decide⟩
  · exact ⟨27, by decide⟩
  · exact ⟨28, by decide⟩
  · exact ⟨29, by decide⟩
  · exact ⟨30, by decide⟩
  · exact ⟨31, by decide⟩

theorem Capacity.small (fitted : Capacity size) : size ≤ 2 ^ 31 := by
  obtain ⟨n, below, rfl⟩ := fitted.power
  exact Nat.pow_le_pow_right (by decide) below

/-- A projection of bits: the low ones are kept, and some others moved down. -/
def project (bits : Nat) (moves : List (Nat × Nat)) (offset : Nat) : Nat :=
  moves.foldl (fun kept move => kept ||| ((offset &&& 2 ^ move.1) >>> move.2))
    (offset &&& (2 ^ bits - 1))

section
variable {bits : Nat} {moves : List (Nat × Nat)} {x : Nat}

theorem project_or (u x : Nat) :
    project bits moves (u ||| x) = project bits moves u ||| project bits moves x := by
  rw [project, project, project, Nat.and_or_distrib_right]
  generalize u &&& (2 ^ bits - 1) = keptU
  generalize x &&& (2 ^ bits - 1) = keptX
  induction moves generalizing keptU keptX with
  | nil => rfl
  | cons move rest inductionHypothesis =>
    simp only [List.foldl_cons]
    rw [← inductionHypothesis, Nat.and_or_distrib_right, Nat.shiftRight_or_distrib]
    simp only [Nat.or_assoc, Nat.or_left_comm]

theorem project_low (wide : 25 ≤ bits) (high : ∀ move ∈ moves, 25 ≤ move.1) (small : x < 2 ^ 25) :
    project bits moves x = x := by
  have below {bit : Nat} (above : 25 ≤ bit) : x < 2 ^ bit :=
    small.trans_le (Nat.pow_le_pow_right (by decide) above)
  rw [project, Nat.and_two_pow_sub_one_eq_mod, Nat.mod_eq_of_lt (below wide)]
  refine List.foldlRecOn moves _ (motive := (· = x)) rfl fun place same move member => ?_
  have none : x &&& 2 ^ move.1 = 0 := by
    rw [Nat.and_two_pow, Nat.testBit_lt_two_pow (below (high move member))]
    exact Nat.zero_mul _
  rw [same, none, Nat.zero_shiftRight, Nat.or_zero]

/-- What it does to the units, it does to every address in them. -/
theorem project_add (wide : 25 ≤ bits) (high : ∀ move ∈ moves, 25 ≤ move.1)
    (units : project bits moves (2 ^ 25 * u) % 2 ^ 25 = 0) (small : x < 2 ^ 25) :
    project bits moves (2 ^ 25 * u + x) = project bits moves (2 ^ 25 * u) + x := by
  obtain ⟨k, multiple⟩ := Nat.dvd_of_mod_eq_zero units
  rw [Nat.two_pow_add_eq_or_of_lt small, project_or, project_low wide high small, multiple,
    ← Nat.two_pow_add_eq_or_of_lt small]

end

/-- A run of a bank that a unit of a descriptor shows. -/
structure Run (descriptor : BitVec 32) (capacity u : Nat) : Prop where
  within : ∀ x < unit, bankOffset descriptor capacity (u * unit + x) =
    bankOffset descriptor capacity (u * unit) + x
  fits : bankOffset descriptor capacity (u * unit) + unit ≤ capacity
  before : bankOffset descriptor capacity (u * unit) ≤ u * unit

theorem run_of_project (bits : Nat) (moves : List (Nat × Nat)) (wide : 25 ≤ bits)
    (high : ∀ move ∈ moves, 25 ≤ move.1)
    (same : ∀ offset, bankOffset descriptor capacity offset = project bits moves offset)
    (units : project bits moves (2 ^ 25 * u) % 2 ^ 25 = 0 ∧
      project bits moves (2 ^ 25 * u) + 2 ^ 25 ≤ capacity ∧
      project bits moves (2 ^ 25 * u) ≤ 2 ^ 25 * u) :
    Run descriptor capacity u := by
  have unit_eq : u * unit = 2 ^ 25 * u := by
    rw [Nat.mul_comm]
    rfl
  refine ⟨fun x small => ?_, ?_, ?_⟩
  · rw [same, same, unit_eq]
    exact project_add wide high units.1 small
  · rw [same, unit_eq]
    exact units.2.1
  · rw [same, unit_eq]
    exact units.2.2

theorem run_of_mod (fitted : Capacity capacity)
    (same : ∀ offset, bankOffset descriptor capacity offset = offset % capacity) :
    Run descriptor capacity u := by
  obtain ⟨c, positive, rfl⟩ := fitted.units
  have wrapped {x : Nat} (small : x < unit) : (u * unit + x) % (unit * c) = unit * (u % c) + x := by
    rw [Nat.mod_mul, Nat.mul_comm u, Nat.mul_add_mod, Nat.mod_eq_of_lt small,
      Nat.mul_add_div (by decide), Nat.div_eq_of_lt small, Nat.add_zero, Nat.add_comm]
  have start := wrapped (by decide : 0 < unit)
  rw [Nat.add_zero, Nat.add_zero] at start
  refine ⟨fun x small => ?_, ?_, ?_⟩
  · rw [same, same, wrapped small, start]
  · rw [same, start]
    exact Nat.mul_le_mul_left _ (Nat.mod_lt u positive)
  · rw [same]
    exact Nat.mod_le _ _

/-- Every unit of every descriptor shows one run of the bank. -/
theorem run_of_capacity (fitted : Capacity capacity) (inside : u < 64) :
    Run descriptor capacity u := by
  by_cases probe : descriptor &&& 0x803f0000#32 = 0x803f0000#32 ∧ (descriptor >>> 22) &&& 7#32 = 6#32
  case neg =>
    refine run_of_mod fitted fun offset => ?_
    rw [bankOffset, if_neg probe]
  have shown (offset : Nat) : bankOffset descriptor capacity offset = _ := if_pos probe
  rcases fitted with rfl | rfl | rfl | rfl | rfl | rfl
  · exact run_of_project 25 [(26, 1)] (by decide) (by decide) shown (by revert u; decide +kernel)
  · exact run_of_project 25 [(26, 1), (30, 4)] (by decide) (by decide) shown
      (by revert u; decide +kernel)
  · exact run_of_project 27 [(28, 1)] (by decide) (by decide) shown (by revert u; decide +kernel)
  · exact run_of_project 27 [(28, 1), (30, 2)] (by decide) (by decide) shown
      (by revert u; decide +kernel)
  · exact run_of_mod (by simp [Capacity]) shown
  · exact run_of_mod (by simp [Capacity]) shown

/-! ### The bits that are compared -/

open HeartRam

/-- The bits of a valid descriptor that `decoded` keeps. -/
def decodedBits : BitVec 32 := descValid ||| 0x7#32 <<< 22 ||| 0x3f#32 <<< 16 ||| 0x1ff#32

theorem and_of_decoded (same : d &&& decodedBits = d' &&& decodedBits)
    (kept : decodedBits &&& field = field) : d &&& field = d' &&& field := by
  rw [← kept, ← BitVec.and_assoc, ← BitVec.and_assoc, same]

theorem shift_of_decoded {n : Nat} (same : d &&& decodedBits = d' &&& decodedBits)
    (kept : (decodedBits >>> n) &&& field = field) :
    (d >>> n) &&& field = (d' >>> n) &&& field := by
  have shifted := congrArg (fun word : BitVec 32 => word >>> n) same
  simp only [BitVec.ushiftRight_and_distrib] at shifted
  rw [← kept, ← BitVec.and_assoc, ← BitVec.and_assoc, shifted]

/-- Descriptors that compare equal are valid together, and then place the same. -/
theorem decoded_fields (same : decoded d = decoded d') :
    (d &&& descValid = 0#32 ↔ d' &&& descValid = 0#32) ∧
      (d &&& descValid ≠ 0#32 → descBase d = descBase d' ∧ descSpan d = descSpan d' ∧
        ∀ capacity offset, bankOffset d capacity offset = bankOffset d' capacity offset) := by
  have nonzero {d : BitVec 32} (valid : d &&& descValid ≠ 0#32) : d &&& decodedBits ≠ 0#32 := by
    intro zero
    apply valid
    rw [show descValid = decodedBits &&& descValid by decide, ← BitVec.and_assoc, zero,
      BitVec.zero_and]
  rw [decoded, decoded] at same
  split at same
  next invalid =>
    split at same
    next invalid' => exact ⟨iff_of_true invalid invalid', fun valid => absurd invalid valid⟩
    next valid' => exact absurd same.symm (nonzero valid')
  next valid =>
    split at same
    · exact absurd same (nonzero valid)
    next valid' =>
      refine ⟨iff_of_false valid valid', fun _ => ⟨?_, ?_, fun capacity offset => ?_⟩⟩
      · rw [descBase, descBase, and_of_decoded same (by decide)]
      · rw [descSpan, descSpan, shift_of_decoded same (by decide)]
      · rw [bankOffset, bankOffset, and_of_decoded same (by decide),
          shift_of_decoded same (by decide)]

end Iris.Heart
