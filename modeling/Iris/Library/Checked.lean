import Mathlib.Tactic.Ring

/-!
Owns unsigned arithmetic that faults when a result does not fit its width, and table accesses
that fault outside the table.
-/

namespace Iris.Library.Checked

open List

variable {w a b : Nat}

def add (w a b : Nat) : Option Nat := if a + b < 2 ^ w then some (a + b) else none

def mul (w a b : Nat) : Option Nat := if a * b < 2 ^ w then some (a * b) else none

def sub (a b : Nat) : Option Nat := if b ≤ a then some (a - b) else none

theorem add_of_lt (fits : a + b < 2 ^ w) : add w a b = some (a + b) := if_pos fits

theorem mul_of_lt (fits : a * b < 2 ^ w) : mul w a b = some (a * b) := if_pos fits

theorem add_of_le (past : 2 ^ w ≤ a + b) : add w a b = none := if_neg (Nat.not_lt_of_le past)

theorem mul_of_le (past : 2 ^ w ≤ a * b) : mul w a b = none := if_neg (Nat.not_lt_of_le past)

theorem sub_of_le (above : b ≤ a) : sub a b = some (a - b) := if_pos above

theorem sub_of_lt (below : a < b) : sub a b = none := if_neg (Nat.not_le_of_lt below)

theorem foldlM_add {Item : Type} {value : Item → Nat} {bound : Nat}
    (small : ∀ item, value item ≤ bound) (items : List Item) {start : Nat}
    (fits : start + bound * items.length < 2 ^ w) :
    ∃ total ≤ start + bound * items.length,
      items.foldlM (fun total item => add w total (value item)) start = some total := by
  induction items generalizing start with
  | nil => exact ⟨start, Nat.le_refl _, rfl⟩
  | cons item rest inductionHypothesis =>
    have here := small item
    rw [length_cons, Nat.mul_succ] at fits
    obtain ⟨total, below, later⟩ := @inductionHypothesis (start + value item) (by omega)
    refine ⟨total, by rw [length_cons, Nat.mul_succ]; omega, ?_⟩
    rw [foldlM_cons, add_of_lt (by omega)]
    exact later

/-- A running sum of the first entries of a table. -/
def sumFirst (w : Nat) (table : List Nat) (count start : Nat) : Option Nat :=
  (range count).foldlM
    (fun total i => (table[i]?).bind fun entry => add w total entry) start

theorem sumFirst_of_le {count start bound : Nat} (inside : count ≤ table.length)
    (small : ∀ entry ∈ table, entry ≤ bound) (fits : start + bound * count < 2 ^ w) :
    ∃ total ≤ start + bound * count, sumFirst w table count start = some total := by
  induction count with
  | zero => exact ⟨start, Nat.le_refl _, rfl⟩
  | succ count inductionHypothesis =>
    rw [Nat.mul_succ] at fits
    obtain ⟨total, below, before⟩ := inductionHypothesis (by omega) (by omega)
    have there : count < table.length := inside
    have entry := small _ (getElem_mem there)
    refine ⟨total + table[count], by rw [Nat.mul_succ]; omega, ?_⟩
    rw [sumFirst] at before ⊢
    rw [range_succ, foldlM_append, before]
    simp only [Option.bind_eq_bind, Option.bind_some, foldlM_cons, foldlM_nil,
      getElem?_eq_getElem there]
    rw [add_of_lt (by omega)]
    rfl

theorem sumFirst_of_lt {count start : Nat} (outside : table.length < count) :
    sumFirst w table count start = none := by
  obtain ⟨more, rfl⟩ : ∃ more, count = table.length + 1 + more :=
    ⟨count - table.length - 1, by omega⟩
  rw [sumFirst, range_add, range_succ, foldlM_append, foldlM_append]
  cases (range table.length).foldlM
      (fun total i => (table[i]?).bind fun entry => add w total entry) start with
  | none => rfl
  | some total => simp

end Iris.Library.Checked
