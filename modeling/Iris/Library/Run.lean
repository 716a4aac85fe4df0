import Mathlib.Data.List.Basic
import Mathlib.Tactic.Ring

/-!
Owns runs of a partial step function: an invariant that every allowed step
keeps, together with a ghost value computed from the steps alone, holds after
every run of allowed steps, and such a run does not get stuck; a run gets stuck only at one of
its steps. For total steps: a
counted loop's invariant, and a condition on each step of a run, at the state it
is taken in.
-/

namespace Iris.Library.Run

open List Option

variable {State Ghost Op : Type}

section
variable {step : State → Op → Option State}

theorem foldlM_invariant {ghost : Ghost → Op → Ghost} (Allowed : Op → Prop)
    (Invariant : State → Ghost → Prop)
    (preserved : ∀ state history op, Invariant state history → Allowed op →
      ∃ state', step state op = some state' ∧ Invariant state' (ghost history op))
    {ops : List Op} (allowed : ∀ op ∈ ops, Allowed op) {state : State} {history : Ghost}
    (initial : Invariant state history) :
    ∃ state', ops.foldlM step state = some state' ∧ Invariant state' (ops.foldl ghost history) := by
  induction ops generalizing state history with
  | nil => exact ⟨state, rfl, initial⟩
  | cons op rest inductionHypothesis =>
    obtain ⟨next, stepped, kept⟩ := preserved state history op initial (allowed op (by simp))
    obtain ⟨final, ran, holds⟩ := inductionHypothesis (forall_mem_cons.mp allowed).2 kept
    exact ⟨final, by simpa [stepped] using ran, holds⟩

/-- The same for an invariant of the state alone that every step keeps. -/
theorem foldlM_holds {Invariant : State → Prop}
    (preserved : ∀ state op, Invariant state →
      ∃ state', step state op = some state' ∧ Invariant state')
    {ops : List Op} {state : State} (initial : Invariant state) :
    ∃ state', ops.foldlM step state = some state' ∧ Invariant state' :=
  @foldlM_invariant State Unit Op step (fun past _ => past) (fun _ => True)
    (fun state _ => Invariant state) (fun state _ op kept _ => preserved state op kept) ops
    (fun _ _ => trivial) state () initial

/-- A run reaches its end iff no step of it is stuck. -/
theorem foldlM_isSome_iff :
    (ops.foldlM step state).isSome = true ↔ ∀ earlier op later, ops = earlier ++ op :: later →
      ∀ between ∈ earlier.foldlM step state, (step between op).isSome = true := by
  induction ops generalizing state with
  | nil => exact iff_of_true rfl fun earlier op later parts => absurd parts (by simp)
  | cons first rest inductionHypothesis =>
    rw [foldlM_cons, bind_eq_bind]
    cases stepped : step state first with
    | none =>
      refine iff_of_false (by simp) fun free => ?_
      exact absurd (free [] first rest rfl state rfl) (by simp [stepped])
    | some next =>
      rw [bind_some, inductionHypothesis]
      constructor
      · intro free earlier op later parts between reached
        cases earlier with
        | nil =>
          obtain ⟨rfl, -⟩ := cons.inj parts
          cases reached
          rw [stepped]
          rfl
        | cons head earlier =>
          obtain ⟨rfl, after⟩ := cons.inj parts
          rw [foldlM_cons, stepped] at reached
          exact free earlier op later after between reached
      · intro free earlier op later parts between reached
        refine free (first :: earlier) op later (by rw [parts, cons_append]) between ?_
        rw [foldlM_cons, stepped]
        exact reached

end

/-- A loop over `0, …, count - 1`: what holds before round `k` and is taken to
round `k + 1` by it holds at the end for `count`. -/
theorem foldl_range_invariant {round : State → Nat → State} (Invariant : Nat → State → Prop)
    (initial : Invariant 0 state) {count : Nat}
    (preserved : ∀ k < count, ∀ state, Invariant k state → Invariant (k + 1) (round state k)) :
    Invariant count ((range count).foldl round state) := by
  induction count with
  | zero => simpa using initial
  | succ count inductionHypothesis =>
    rw [range_succ, foldl_append]
    apply preserved count (by omega)
    exact inductionHypothesis fun k small => preserved k (by omega)

/-- A loop over keys, each turn of which changes one block of what the state shows: in the
end each block of a key is changed once, and the rest is as it was. -/
theorem foldl_blocks {Key Place Value : Type} [DecidableEq Key] {step : State → Key → State}
    (Shows : State → (Place → Value) → Prop) (block : Place → Key) (change : Place → Value → Value)
    {keys : List Key} (nodup : keys.Nodup)
    (each : ∀ key ∈ keys, ∀ state shown, Shows state shown → Shows (step state key) fun place =>
      if block place = key then change place (shown place) else shown place) {shown : Place → Value}
    (initial : Shows state shown) :
    Shows (keys.foldl step state) fun place =>
      if block place ∈ keys then change place (shown place) else shown place := by
  induction keys generalizing state shown with
  | nil => simpa using initial
  | cons key rest inductionHypothesis =>
    obtain ⟨fresh, nodup⟩ := nodup_cons.mp nodup
    have later := inductionHypothesis nodup (forall_mem_cons.mp each).2
      (each key (by simp) state shown initial)
    rw [foldl_cons]
    convert later using 2 with place
    by_cases here : block place = key
    · simp [here, fresh]
    · simp [here]

/-- Two choices by one condition are related as their branches are. -/
theorem ite_rel {α β : Type} {r : α → β → Prop} {p : Prop} [Decidable p] {a a' : α} {b b' : β}
    (yes : p → r a b) (no : ¬p → r a' b') : r (if p then a else a') (if p then b else b') := by
  by_cases holds : p
  · rw [if_pos holds, if_pos holds]
    exact yes holds
  · rw [if_neg holds, if_neg holds]
    exact no holds

/-! ### Conditions along a run -/

section Along
variable {step : State → Op → State} {Condition : State → Op → Prop} {state : State}

/-- Each step of the run meets the condition in the state it is taken in. -/
def Along (step : State → Op → State) (Condition : State → Op → Prop) (state : State)
    (ops : List Op) : Prop :=
  ∀ earlier op later, ops = earlier ++ op :: later → Condition (earlier.foldl step state) op

theorem Along.nil : Along step Condition state [] :=
  fun _ _ _ split => absurd split (by simp)

theorem Along.cons (first : Condition state op) (later : Along step Condition (step state op) rest) :
    Along step Condition state (op :: rest) := by
  intro earlier other after split
  cases earlier with
  | nil =>
    obtain ⟨rfl, -⟩ := cons.inj split
    exact first
  | cons head tail =>
    obtain ⟨rfl, split'⟩ := cons.inj split
    exact later tail other after split'

theorem Along.tail {op : Op} {rest : List Op} (along : Along step Condition state (op :: rest)) :
    Along step Condition (step state op) rest :=
  fun earlier other later split => along (op :: earlier) other later (congrArg (op :: ·) split)

section
variable {ops later : List Op} (along : Along step Condition state (ops ++ later))
include along

theorem Along.front : Along step Condition state ops := by
  rintro earlier other rest rfl
  exact along earlier other (rest ++ later) (by simp)

theorem Along.back : Along step Condition (ops.foldl step state) later := by
  rintro earlier other rest rfl
  have here := along (ops ++ earlier) other rest (by simp)
  rwa [foldl_append] at here

end

theorem Along.withMember {ops : List Op} (along : Along step Condition state ops) :
    Along step (fun state op => op ∈ ops ∧ Condition state op) state ops :=
  fun earlier op later split => ⟨by simp [split], along earlier op later split⟩

/-- What every step that meets the condition keeps, the run keeps. -/
theorem Along.keeps {Inv : State → Prop} {ops : List Op} (along : Along step Condition state ops)
    (kept : ∀ state op, Inv state → Condition state op → Inv (step state op))
    (begins : Inv state) : Inv (ops.foldl step state) := by
  induction ops generalizing state with
  | nil => exact begins
  | cons op rest inductionHypothesis =>
    exact inductionHypothesis along.tail (kept state op begins (along [] op rest rfl))

/-- A condition on steps that can be tested can be tested along a run. -/
instance Along.decidable [tested : ∀ state op, Decidable (Condition state op)] :
    ∀ (state : State) (ops : List Op), Decidable (Along step Condition state ops)
  | _, [] => isTrue .nil
  | state, op :: rest =>
    match tested state op, Along.decidable (step state op) rest with
    | isTrue first, isTrue later => isTrue (.cons first later)
    | isFalse never, _ => isFalse fun along => never (along [] op rest rfl)
    | _, isFalse never => isFalse fun along => never along.tail

/-- What the steps of a run give out, in order. -/
def emitted {Item : Type} (step : State → Op → State) (emit : State → Op → List Item) :
    State → List Op → List Item
  | _, [] => []
  | state, op :: rest => emit state op ++ emitted step emit (step state op) rest

section
variable {Item : Type} (step : State → Op → State) (emit : State → Op → List Item) (state : State)

theorem emitted_append (first second : List Op) :
    emitted step emit state (first ++ second) =
      emitted step emit state first ++ emitted step emit (first.foldl step state) second := by
  induction first generalizing state with
  | nil => rfl
  | cons op rest inductionHypothesis =>
    rw [cons_append, emitted, inductionHypothesis, emitted, foldl_cons, append_assoc]

/-- How a run is cut into parts makes no difference. -/
theorem emitted_flatten (parts : List (List Op)) :
    emitted (fun state part => part.foldl step state) (emitted step emit) state parts =
      emitted step emit state parts.flatten := by
  induction parts generalizing state with
  | nil => rfl
  | cons part rest inductionHypothesis =>
    rw [flatten_cons, emitted_append, emitted, inductionHypothesis]

end

/-- A run whose steps only pass on what is there: what was there is what was given out
and what is there still. -/
theorem emitted_conserved {Item : Type} {emit : State → Op → List Item}
    (content : State → List Item) (Inv : State → Prop)
    (keeps : ∀ state op, Inv state → Condition state op →
      Inv (step state op) ∧ content state = emit state op ++ content (step state op))
    (ops : List Op) (along : Along step Condition state ops) (begins : Inv state) :
    Inv (ops.foldl step state) ∧
      content state = emitted step emit state ops ++ content (ops.foldl step state) := by
  induction ops generalizing state with
  | nil => exact ⟨begins, rfl⟩
  | cons op rest inductionHypothesis =>
    obtain ⟨kept, here⟩ := keeps state op begins (along [] op rest rfl)
    obtain ⟨ends, later⟩ := inductionHypothesis along.tail kept
    exact ⟨ends, by rw [here, later, emitted, append_assoc, foldl_cons]⟩

end Along

end Iris.Library.Run
