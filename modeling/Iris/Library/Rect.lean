import Mathlib.Tactic.Ring

/-!
Owns rectangles in a plane of naturals: the points of one, of a list of them and of what two
share, one stacked on another, and the maximal runs of a row.
-/

namespace Iris.Library

open List

structure Rect where
  x : Nat
  y : Nat
  w : Nat
  h : Nat
deriving DecidableEq, Repr

namespace Rect

def Contains (r : Rect) (x y : Nat) : Prop :=
  (r.x ≤ x ∧ x < r.x + r.w) ∧ r.y ≤ y ∧ y < r.y + r.h
deriving Decidable

/-- Some rectangle of the list contains the point. -/
def Covers (rects : List Rect) (x y : Nat) : Prop := ∃ r ∈ rects, r.Contains x y

/-- What a rectangle shares with an area, if anything. -/
def meet (r area : Rect) : Option Rect :=
  let x0 := max r.x area.x
  let y0 := max r.y area.y
  let x1 := min (r.x + r.w) (area.x + area.w)
  let y1 := min (r.y + r.h) (area.y + area.h)
  if x0 < x1 ∧ y0 < y1 then some { x := x0, y := y0, w := x1 - x0, h := y1 - y0 } else none

variable {x y : Nat}

theorem contains_meet (r : Rect) :
    (∃ shared ∈ r.meet area, shared.Contains x y) ↔ r.Contains x y ∧ area.Contains x y := by
  simp only [meet, Contains, Option.mem_def]
  split
  · simp only [Option.some.injEq, exists_eq_left']
    omega
  next apart =>
    simp only [reduceCtorEq, false_and, exists_false, false_iff]
    omega

theorem meet_pos {r shared : Rect} (met : r.meet area = some shared) :
    0 < shared.w ∧ 0 < shared.h := by
  unfold meet at met
  dsimp only at met
  split at met
  · cases met
    dsimp only
    omega
  · cases met

theorem covers_nil : ¬Covers [] x y := fun ⟨_, member, _⟩ => nomatch member

theorem covers_cons : Covers (r :: rest) x y ↔ r.Contains x y ∨ Covers rest x y := by
  simp [Covers]

variable {rects : List Rect} {r : Rect}

/-- How many rectangles of the list contain the point. -/
def count (rects : List Rect) (x y : Nat) : Nat := rects.countP fun r => r.Contains x y

theorem covers_iff_count : Covers rects x y ↔ 0 < count rects x y := by
  simp [Covers, count]

theorem count_cons :
    count (r :: rects) x y = count rects x y + if r.Contains x y then 1 else 0 := by
  simp [count, countP_cons]

theorem count_append :
    count (rects ++ [r]) x y = count rects x y + if r.Contains x y then 1 else 0 := by
  simp [count, countP_append, countP_cons]

theorem covers_clipped :
    Covers (rects.filterMap fun r => r.meet area) x y ↔ Covers rects x y ∧ area.Contains x y := by
  simp only [Covers, mem_filterMap]
  constructor
  · rintro ⟨shared, ⟨r, member, met⟩, inside⟩
    obtain ⟨there, wanted⟩ := (contains_meet r).mp ⟨shared, met, inside⟩
    exact ⟨⟨r, member, there⟩, wanted⟩
  · rintro ⟨⟨r, member, there⟩, wanted⟩
    obtain ⟨shared, met, inside⟩ := (contains_meet r).mpr ⟨there, wanted⟩
    exact ⟨shared, ⟨r, member, met⟩, inside⟩

/-- A rectangle made higher by one of the same width right below it. -/
theorem contains_stacked {below : Rect} (column : r.x = below.x ∧ r.w = below.w)
    (touching : r.y + r.h = below.y) :
    ({ r with h := r.h + below.h } : Rect).Contains x y ↔ r.Contains x y ∨ below.Contains x y := by
  simp only [Contains]
  omega

theorem count_set_stacked {below : Rect} (there : rects[i]? = some r)
    (column : r.x = below.x ∧ r.w = below.w) (touching : r.y + r.h = below.y) :
    count (rects.set i { r with h := r.h + below.h }) x y =
      count rects x y + if below.Contains x y then 1 else 0 := by
  induction rects generalizing i with
  | nil => cases there
  | cons first rest inductionHypothesis =>
    cases i with
    | zero =>
      cases there
      have apart : ¬(r.Contains x y ∧ below.Contains x y) := by
        simp only [Contains]
        omega
      rw [set_cons_zero, count_cons, count_cons]
      simp only [contains_stacked column touching]
      split_ifs <;> first | omega | tauto
    | succ i =>
      rw [set_cons_succ, count_cons, count_cons, inductionHypothesis there]
      omega

theorem count_clipped_le :
    count (rects.filterMap fun r => r.meet area) x y ≤ count rects x y := by
  rw [count, count, countP_filterMap]
  refine countP_mono_left fun r _ inside => ?_
  cases met : r.meet area with
  | none => simp [met] at inside
  | some shared =>
    simp only [met, Option.map_some, Option.getD_some, decide_eq_true_eq] at inside ⊢
    exact ((contains_meet r).mp ⟨shared, met, inside⟩).1

/-- No point is in both. -/
def Apart (r s : Rect) : Prop := ∀ x y, r.Contains x y → ¬s.Contains x y

theorem pairwise_apart (once : ∀ x y, count rects x y ≤ 1) : rects.Pairwise Apart := by
  induction rects with
  | nil => exact .nil
  | cons r rest inductionHypothesis =>
    refine .cons (fun s member x y here there => ?_) (inductionHypothesis fun x y => ?_)
    · have both := once x y
      have again := covers_iff_count.mp ⟨s, member, there⟩
      rw [count_cons, if_pos here] at both
      omega
    · have both := once x y
      rw [count_cons] at both
      omega

end Rect

/-! ### Runs -/

namespace Runs
variable {p : Nat → Bool} {stop : Nat}

/-- Where the run that goes on at `x` ends. -/
def runEnd (p : Nat → Bool) (stop x : Nat) : Nat :=
  if x < stop ∧ p x then runEnd p stop (x + 1) else x
termination_by stop - x

theorem le_runEnd (p : Nat → Bool) (stop x : Nat) : x ≤ runEnd p stop x := by
  fun_induction runEnd with
  | case1 x more inductionHypothesis => omega
  | case2 x ended => exact Nat.le_refl x

theorem runEnd_le (before : x ≤ stop) : runEnd p stop x ≤ stop := by
  fun_induction runEnd with
  | case1 x more inductionHypothesis => exact inductionHypothesis more.1
  | case2 x ended => exact before

theorem of_lt_runEnd (later : x ≤ z) (inside : z < runEnd p stop x) : p z = true := by
  fun_induction runEnd with
  | case1 x more inductionHypothesis =>
    by_cases here : x = z
    · exact here ▸ more.2
    · exact inductionHypothesis (by omega) inside
  | case2 x ended => omega

/-- The maximal runs of a predicate from `x` on, each with its end. -/
def runs (p : Nat → Bool) (stop x : Nat) : List (Nat × Nat) :=
  if x < stop then
    if p x then (x, runEnd p stop (x + 1)) :: runs p stop (runEnd p stop (x + 1))
    else runs p stop (x + 1)
  else []
termination_by stop - x
decreasing_by
  · have := le_runEnd p stop (x + 1)
    omega
  · omega

/-- A place is in a run iff the predicate holds there. -/
theorem mem_runs :
    (∃ run ∈ runs p stop x, run.1 ≤ z ∧ z < run.2) ↔ x ≤ z ∧ z < stop ∧ p z = true := by
  fun_induction runs with
  | case1 x inside holds inductionHypothesis =>
    have longer := le_runEnd p stop (x + 1)
    have within : runEnd p stop (x + 1) ≤ stop := runEnd_le inside
    simp only [mem_cons, exists_eq_or_imp, inductionHypothesis]
    constructor
    · rintro (first | later)
      · refine ⟨first.1, by omega, ?_⟩
        by_cases here : x = z
        · exact here ▸ holds
        · exact of_lt_runEnd (by omega) first.2
      · exact ⟨by omega, later.2⟩
    · intro member
      by_cases first : z < runEnd p stop (x + 1)
      · exact .inl ⟨member.1, first⟩
      · exact .inr ⟨by omega, member.2⟩
  | case2 x inside fails inductionHypothesis =>
    rw [inductionHypothesis]
    refine ⟨fun member => ⟨by omega, member.2⟩, fun member => ⟨?_, member.2⟩⟩
    have other : x ≠ z := fun same => fails (same ▸ member.2.2)
    omega
  | case3 x outside =>
    simp only [not_mem_nil, false_and, exists_false, false_iff]
    omega

theorem countP_runs_le (z : Nat) :
    (runs p stop x).countP (fun run => run.1 ≤ z ∧ z < run.2) ≤ 1 := by
  fun_induction runs with
  | case1 x inside holds inductionHypothesis =>
    rw [countP_cons]
    split
    next first =>
      have later : (runs p stop (runEnd p stop (x + 1))).countP
          (fun run => run.1 ≤ z ∧ z < run.2) = 0 := by
        refine countP_eq_zero.mpr fun run member both => ?_
        have := (mem_runs.mp ⟨run, member, of_decide_eq_true both⟩).1
        have := (of_decide_eq_true first).2
        omega
      omega
    · exact inductionHypothesis
  | case2 x inside fails inductionHypothesis => exact inductionHypothesis
  | case3 x outside => exact Nat.zero_le 1

end Runs

end Iris.Library
