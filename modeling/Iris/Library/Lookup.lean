import Mathlib.Tactic.Ring

/-!
Owns content-addressed lookup: a result is the miss value when nothing matches,
and otherwise the answer of one of the matching places. Where at most one place
matches, that determines the result.
-/

namespace Iris.Library.Lookup

variable {ι R : Type}

inductive Answers (matching : ι → Prop) (answer : ι → R) (miss : R) : R → Prop
  | miss (nobody : ∀ i, ¬ matching i) : Answers matching answer miss miss
  | found (i : ι) (matched : matching i) : Answers matching answer miss (answer i)

variable {matching matching' : ι → Prop} {answer answer' : ι → R} {miss result result' : R}

variable (lookup : Answers matching answer miss result)
include lookup

theorem Answers.congr (sameMatches : ∀ i, matching i ↔ matching' i)
    (sameAnswers : ∀ i, matching i → answer i = answer' i) :
    Answers matching' answer' miss result := by
  cases lookup with
  | miss nobody => exact .miss fun i matched => nobody i ((sameMatches i).mpr matched)
  | found i matched =>
    rw [sameAnswers i matched]
    exact .found i ((sameMatches i).mp matched)

theorem Answers.eq_miss_iff (answered : ∀ i, answer i ≠ miss) :
    result = miss ↔ ∀ i, ¬ matching i := by
  cases lookup with
  | miss nobody => exact iff_of_true rfl nobody
  | found i matched => exact iff_of_false (answered i) fun nobody => nobody i matched

theorem Answers.exists_of_match (matched : matching i) : ∃ j, matching j ∧ result = answer j := by
  cases lookup with
  | miss nobody => exact absurd matched (nobody i)
  | found j matched => exact ⟨j, matched, rfl⟩

theorem Answers.eq_of_unique (matched : matching i) (only : ∀ j, matching j → j = i) :
    result = answer i := by
  obtain ⟨j, matched', equal⟩ := lookup.exists_of_match matched
  rw [equal, only j matched']

theorem Answers.unique (lookup' : Answers matching answer miss result')
    (atMostOne : ∀ i j, matching i → matching j → i = j) : result = result' := by
  cases lookup with
  | miss nobody =>
    cases lookup' with
    | miss _ => rfl
    | found i matched => exact absurd matched (nobody i)
  | found i matched =>
    exact (lookup'.eq_of_unique matched fun j matched' => atMostOne j i matched' matched).symm

end Iris.Library.Lookup
