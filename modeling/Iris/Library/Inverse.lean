import Mathlib.Tactic.Ring

/-!
Owns pairs of maps that are inverse to each other: each holds exactly the pairs of the other,
and stays so when a fresh pair is bound or a pair is dropped.
-/

namespace Iris.Library

open Function

universe u v

variable {Left : Type u} {Right : Type v} {forth : Left → Option Right} {back : Right → Option Left}

/-- The two maps hold the same pairs. -/
def Inverse (forth : Left → Option Right) (back : Right → Option Left) : Prop :=
  ∀ left right, forth left = some right ↔ back right = some left

namespace Inverse

theorem empty : Inverse (fun _ : Left => (none : Option Right)) fun _ => none := by
  intro left right
  simp

variable [DecidableEq Left] [DecidableEq Right]

variable (inverse : Inverse forth back)
include inverse

/-- A pair neither side of which is part of another one is bound or dropped. -/
theorem set (alone : ∀ place ≠ right, forth left ≠ some place)
    (alone' : ∀ other ≠ left, back right ≠ some other) (bound : Bool) :
    Inverse (update forth left (bif bound then some right else none))
      (update back right (bif bound then some left else none)) := by
  intro other place
  by_cases sameLeft : other = left
  · subst sameLeft
    by_cases sameRight : place = right
    · cases bound <;> simp [sameRight]
    · rw [update_of_ne sameRight, ← inverse]
      cases bound <;> simp [alone place sameRight, Ne.symm sameRight]
  · by_cases sameRight : place = right
    · subst sameRight
      rw [update_of_ne sameLeft, inverse]
      cases bound <;> simp [alone' other sameLeft, Ne.symm sameLeft]
    · rw [update_of_ne sameLeft, update_of_ne sameRight]
      exact inverse other place

theorem bind (freeLeft : forth left = none) (freeRight : back right = none) :
    Inverse (update forth left (some right)) (update back right (some left)) :=
  inverse.set (by simp [freeLeft]) (by simp [freeRight]) true

theorem unbind (pair : back right = some left) :
    Inverse (update forth left none) (update back right none) := by
  have there := (inverse left right).mpr pair
  exact inverse.set (by simp [there, eq_comm]) (by simp [pair, eq_comm]) false

end Inverse

end Iris.Library
