import Mathlib.Data.List.Basic
import Mathlib.Tactic.Ring

/-!
Owns lists of maximal runs: a function on an interval of numbers, cut where its value
changes. Runs are pushed from left to right, and one that continues the last is joined
with it.
-/

namespace Iris.Library.Runs

structure Run (Value : Type) where
  start : Nat
  stop : Nat
  value : Value
deriving DecidableEq, Repr

variable {Value : Type}

/-- Add a run on the right, joined with the last if it continues that. -/
def push [DecidableEq Value] (start stop : Nat) (value : Value) :
    List (Run Value) → List (Run Value)
  | [] => [⟨start, stop, value⟩]
  | [last] =>
    if last.value = value ∧ last.stop = start then [{ last with stop }]
    else [last, ⟨start, stop, value⟩]
  | run :: next :: rest => run :: push start stop value (next :: rest)

/-- The runs follow each other from `base` to `limit`, none empty, the function has each
run's value on it, and neighbours differ. -/
def Describes (f : Nat → Value) : Nat → List (Run Value) → Nat → Prop
  | base, [], limit => base = limit
  | base, run :: rest, limit =>
    run.start = base ∧ base < run.stop ∧
      (∀ place, base ≤ place → place < run.stop → f place = run.value) ∧
      (∀ next ∈ rest.head?, next.value ≠ run.value) ∧ Describes f run.stop rest limit

variable {f : Nat → Value} {base limit : Nat} {runs : List (Run Value)}

theorem push_head [DecidableEq Value] {next : Run Value} :
    ∀ first ∈ (push start stop value (next :: rest)).head?, first.value = next.value := by
  intro first
  cases rest with
  | nil =>
    rw [push]
    split
    · rintro ⟨⟩
      rfl
    · rintro ⟨⟩
      rfl
  | cons other others =>
    rintro ⟨⟩
    rfl

theorem Describes.push [DecidableEq Value] (describes : Describes f base runs limit) {stop : Nat}
    {value : Value} (nonempty : limit < stop)
    (here : ∀ place, limit ≤ place → place < stop → f place = value) :
    Describes f base (push limit stop value runs) stop := by
  induction runs generalizing base with
  | nil =>
    obtain rfl : base = limit := describes
    exact ⟨rfl, nonempty, here, nofun, rfl⟩
  | cons run rest inductionHypothesis =>
    obtain ⟨begins, long, constant, differs, later⟩ := describes
    cases rest with
    | nil =>
      obtain rfl : run.stop = limit := later
      rw [push]
      split
      next joins =>
        refine ⟨begins, Nat.lt_trans long nonempty, fun place low high => ?_, ?_, rfl⟩
        · rcases Nat.lt_or_ge place run.stop with early | late
          · exact constant place low early
          · exact (here place late high).trans joins.1.symm
        · exact nofun
      next apart =>
        refine ⟨begins, long, constant, ?_, rfl, nonempty, here, ?_, rfl⟩
        · rintro next ⟨⟩ same
          exact apart ⟨same.symm, rfl⟩
        · exact nofun
    | cons next others =>
      refine ⟨begins, long, constant, ?_, inductionHypothesis later⟩
      intro first pushed same
      exact differs next rfl ((push_head first pushed).symm.trans same)

end Iris.Library.Runs
