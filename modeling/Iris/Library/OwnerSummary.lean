import Mathlib.Data.List.Nodup
import Mathlib.Tactic.Ring

/-!
Owns owner summaries: one stored value that says whether a location has no
owner, exactly one owner (and names it), or several (and names one of them).
It covers the value's canonical form, how a further claim updates it, and what
can be read back from a canonical value.
-/

namespace Iris.Library.OwnerSummary

variable {ι V : Type}

/-- How summaries are written. The laws hold for the owners that can occur. -/
structure Encoding (ι V : Type) where
  Owner : ι → Prop
  vacant : V
  sole : ι → V
  shared : ι → V
  sole_ne_vacant : ∀ {owner}, Owner owner → sole owner ≠ vacant
  shared_ne_vacant : ∀ {owner}, Owner owner → shared owner ≠ vacant
  sole_ne_shared : ∀ {owner other}, Owner owner → Owner other → sole owner ≠ shared other
  sole_injective : ∀ {owner other}, Owner owner → Owner other →
    sole owner = sole other → owner = other
  shared_injective : ∀ {owner other}, Owner owner → Owner other →
    shared owner = shared other → owner = other

variable (encoding : Encoding ι V)

/-- `value` is the canonical summary of the owners `owns`. -/
inductive Summarizes (owns : ι → Prop) : V → Prop
  | vacant (nobody : ∀ owner, ¬ owns owner) : Summarizes owns encoding.vacant
  | sole (owner : ι) (valid : encoding.Owner owner) (only : ∀ other, owns other ↔ other = owner) :
      Summarizes owns (encoding.sole owner)
  | shared (owner other : ι) (valid : encoding.Owner owner) (first : owns owner)
      (second : owns other) (apart : owner ≠ other) :
      Summarizes owns (encoding.shared owner)

/-- The summary after `owner` claims the location as well. -/
def claim [DecidableEq V] (owner : ι) (value : V) : V :=
  if value = encoding.vacant then encoding.sole owner else encoding.shared owner

theorem summarizes_vacant : Summarizes encoding (fun _ => False) encoding.vacant :=
  .vacant fun _ owned => owned

variable {encoding} {owns owns' : ι → Prop} {value : V}

theorem Summarizes.congr (summary : Summarizes encoding owns value)
    (same : ∀ owner, owns owner ↔ owns' owner) : Summarizes encoding owns' value := by
  rwa [show owns' = owns from funext fun owner => propext (same owner).symm]

/-! ### Claiming -/

theorem Summarizes.claim [DecidableEq V] (summary : Summarizes encoding owns value)
    (valid : encoding.Owner owner) (fresh : ¬ owns owner) :
    Summarizes encoding (fun other => owns other ∨ other = owner)
      (claim encoding owner value) := by
  unfold OwnerSummary.claim
  cases summary with
  | vacant nobody =>
    rw [if_pos rfl]
    exact .sole owner valid fun other => by simp [nobody other]
  | sole holder holderValid only =>
    have held : owns holder := (only holder).mpr rfl
    rw [if_neg (encoding.sole_ne_vacant holderValid)]
    exact .shared owner holder valid (.inr rfl) (.inl held) fun same => fresh (same ▸ held)
  | shared holder _ holderValid held _ _ =>
    rw [if_neg (encoding.shared_ne_vacant holderValid)]
    exact .shared owner holder valid (.inr rfl) (.inl held) fun same => fresh (same ▸ held)

/-- Claims of distinct new owners, made one after the other by those of a list
that satisfy `wants`, add exactly these owners. -/
theorem Summarizes.claimAll [DecidableEq V] {claimants : List ι} (wants : ι → Bool)
    (summary : Summarizes encoding owns value) (nodup : claimants.Nodup)
    (valid : ∀ owner ∈ claimants, encoding.Owner owner)
    (fresh : ∀ owner ∈ claimants, ¬ owns owner) :
    Summarizes encoding (fun owner => owns owner ∨ owner ∈ claimants ∧ wants owner = true)
      (claimants.foldl
        (fun acc owner => if wants owner then OwnerSummary.claim encoding owner acc else acc)
        value) := by
  induction claimants generalizing owns value with
  | nil => exact summary.congr fun owner => by simp
  | cons head rest inductionHypothesis =>
    obtain ⟨headFresh, restNodup⟩ := List.nodup_cons.mp nodup
    have headUnowned := fresh head (by simp)
    rw [List.foldl_cons]
    by_cases wanted : wants head = true
    · rw [if_pos wanted]
      have step := inductionHypothesis (summary.claim (valid head (by simp)) headUnowned)
        restNodup (List.forall_mem_cons.mp valid).2 (by
          rintro owner member (owned | rfl)
          · exact fresh owner (by simp [member]) owned
          · exact headFresh member)
      refine step.congr fun owner => ?_
      constructor
      · rintro ((owned | rfl) | ⟨member, wanted'⟩)
        · exact .inl owned
        · exact .inr ⟨by simp, wanted⟩
        · exact .inr ⟨by simp [member], wanted'⟩
      · rintro (owned | ⟨member, wanted'⟩)
        · exact .inl (.inl owned)
        · rcases List.mem_cons.mp member with rfl | member
          · exact .inl (.inr rfl)
          · exact .inr ⟨member, wanted'⟩
    · rw [if_neg wanted]
      have step := inductionHypothesis summary restNodup (List.forall_mem_cons.mp valid).2
        (List.forall_mem_cons.mp fresh).2
      refine step.congr fun owner => or_congr_right ?_
      constructor
      · rintro ⟨member, wanted'⟩
        exact ⟨by simp [member], wanted'⟩
      · rintro ⟨member, wanted'⟩
        rcases List.mem_cons.mp member with rfl | member
        · exact absurd wanted' wanted
        · exact ⟨member, wanted'⟩

/-! ### Reading a canonical summary -/

variable (summary : Summarizes encoding owns value)
include summary

theorem Summarizes.eq_vacant_iff : value = encoding.vacant ↔ ∀ owner, ¬ owns owner := by
  cases summary with
  | vacant nobody => exact iff_of_true rfl nobody
  | sole owner valid only =>
    exact iff_of_false (encoding.sole_ne_vacant valid) fun nobody =>
      nobody owner ((only owner).mpr rfl)
  | shared owner _ valid first _ _ =>
    exact iff_of_false (encoding.shared_ne_vacant valid) fun nobody => nobody owner first

theorem Summarizes.eq_sole_iff (valid : encoding.Owner owner) :
    value = encoding.sole owner ↔ ∀ other, owns other ↔ other = owner := by
  cases summary with
  | vacant nobody =>
    exact iff_of_false (encoding.sole_ne_vacant valid).symm fun only =>
      nobody owner ((only owner).mpr rfl)
  | sole holder holderValid only =>
    constructor
    · intro same
      rwa [← encoding.sole_injective holderValid valid same]
    · intro only'
      rw [(only' holder).mp ((only holder).mpr rfl)]
  | shared holder other holderValid first second apart =>
    refine iff_of_false (encoding.sole_ne_shared valid holderValid).symm fun only => apart ?_
    rw [(only holder).mp first, (only other).mp second]

theorem Summarizes.eq_shared (valid : encoding.Owner owner) (named : value = encoding.shared owner) :
    owns owner ∧ ∃ other, other ≠ owner ∧ owns other := by
  cases summary with
  | vacant nobody => exact absurd named (encoding.shared_ne_vacant valid).symm
  | sole holder holderValid only =>
    exact absurd named (encoding.sole_ne_shared holderValid valid)
  | shared holder other holderValid first second apart =>
    have same := encoding.shared_injective holderValid valid named
    subst same
    exact ⟨first, other, apart.symm, second⟩

/-- Two owners force a shared summary, which names one of the owners. -/
theorem Summarizes.shared_of_two (left right : ι) (first : owns left) (second : owns right)
    (apart : left ≠ right) :
    ∃ owner, encoding.Owner owner ∧ owns owner ∧ value = encoding.shared owner := by
  cases summary with
  | vacant nobody => exact absurd first (nobody left)
  | sole owner _ only =>
    exact absurd (((only left).mp first).trans ((only right).mp second).symm) apart
  | shared owner _ valid held _ _ => exact ⟨owner, valid, held, rfl⟩

end Iris.Library.OwnerSummary
