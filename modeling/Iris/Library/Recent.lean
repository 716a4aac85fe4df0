import Mathlib.Data.List.DropRight
import Mathlib.Data.List.Nodup

/-!
Owns bounded caches that keep the newest entries of a log: the keys in the order they came,
the values by key, and the oldest key dropped to make room.
-/

namespace Iris.Library.Recent

open List Function

variable {Key Value : Type}

theorem rtake_concat_of_lt {α : Type} {log : List α} (short : log.length < n) (x : α) :
    (log ++ [x]).rtake n = log.rtake n ++ [x] := by
  obtain ⟨n, rfl⟩ : ∃ m, n = m + 1 := ⟨n - 1, by omega⟩
  rw [rtake_concat_succ, rtake, rtake, Nat.sub_eq_zero_of_le (by omega),
    Nat.sub_eq_zero_of_le (by omega)]

theorem rtake_concat_of_le {α : Type} {log : List α} (positive : 0 < n) (full : n ≤ log.length)
    (x : α) : (log ++ [x]).rtake n = (log.rtake n).tail ++ [x] := by
  obtain ⟨n, rfl⟩ : ∃ m, n = m + 1 := ⟨n - 1, by omega⟩
  rw [rtake_concat_succ, rtake, rtake, tail_drop]
  congr 2
  omega

theorem length_rtake {α : Type} (log : List α) (n : Nat) :
    (log.rtake n).length = min n log.length := by
  rw [rtake, length_drop]
  omega

/-- The keys and values of the newest `cap` entries of a log, no key of which comes twice. -/
structure Newest (cap : Nat) (order : List Key) (map : Key → Option Value)
    (log : List (Key × Value)) : Prop where
  keys : order = (log.rtake cap).map Prod.fst
  distinct : order.Nodup
  values : ∀ key value, map key = some value ↔ (key, value) ∈ log.rtake cap

variable {cap : Nat} {order : List Key} {map : Key → Option Value} {log : List (Key × Value)}

theorem Newest.empty : Newest cap [] (fun _ : Key => (none : Option Value)) [] := by
  refine ⟨by simp, nodup_nil, fun key value => ?_⟩
  simp

theorem Newest.length_le (newest : Newest cap order map log) :
    order.length = min cap log.length := by
  rw [newest.keys, length_map, length_rtake]

theorem Newest.mem_order (newest : Newest cap order map log) : key ∈ order ↔ map key ≠ none := by
  rw [newest.keys, mem_map, Option.ne_none_iff_exists']
  constructor
  · rintro ⟨⟨key, value⟩, member, rfl⟩
    exact ⟨value, (newest.values key value).mpr member⟩
  · rintro ⟨value, found⟩
    exact ⟨(key, value), (newest.values key value).mp found, rfl⟩

variable [DecidableEq Key]

theorem Newest.push (newest : Newest cap order map log) (room : order.length < cap) {key : Key}
    (fresh : map key = none) (value : Value) :
    Newest cap (order ++ [key]) (update map key (some value)) (log ++ [(key, value)]) := by
  have short : log.length < cap := by
    have := newest.length_le
    omega
  constructor
  · rw [rtake_concat_of_lt short, map_append, ← newest.keys]
    rfl
  · refine nodup_append.mpr ⟨newest.distinct, nodup_singleton _, ?_⟩
    rintro old member other single rfl
    obtain rfl := mem_singleton.mp single
    exact newest.mem_order.mp member fresh
  · intro other found
    rw [rtake_concat_of_lt short, mem_append, ← newest.values]
    by_cases same : other = key
    · subst same
      rw [fresh]
      simp [eq_comm]
    · simp [same]

/-- The oldest key makes room for a key that is not there. -/
theorem Newest.replace {old : Key} (newest : Newest cap (old :: order) map log)
    (full : cap = order.length + 1) (fresh : map key = none) (value : Value) :
    Newest cap (order ++ [key]) (update (update map old none) key (some value))
      (log ++ [(key, value)]) := by
  have long : cap ≤ log.length := by
    have := newest.length_le
    simp only [length_cons] at this
    omega
  obtain ⟨absent, nodup⟩ := nodup_cons.mp newest.distinct
  have split := rtake_concat_of_le (by omega) long (key, value)
  have keys := newest.keys
  have values := newest.values
  generalize log.rtake cap = recent at split keys values
  cases recent with
  | nil => cases keys
  | cons first rest =>
    obtain ⟨oldest, kept⟩ := cons.inj keys
    rw [tail_cons] at split
    refine ⟨by rw [split, map_append, ← kept]; rfl, ?_, fun asked found => ?_⟩
    · refine nodup_append.mpr ⟨nodup, nodup_singleton _, ?_⟩
      rintro stays member new single rfl
      obtain rfl := mem_singleton.mp single
      exact newest.mem_order.mp (mem_cons_of_mem _ member) fresh
    · rw [split, mem_append, mem_singleton]
      -- Neither the dropped key nor the new one is among the entries that stay.
      have apart {found : Value} (member : (asked, found) ∈ rest) :
          asked ≠ old ∧ asked ≠ key := by
        have among : asked ∈ order := kept ▸ mem_map_of_mem member
        refine ⟨fun same => absent (same ▸ among), ?_⟩
        rintro rfl
        exact newest.mem_order.mp (mem_cons_of_mem _ among) fresh
      by_cases new : asked = key
      · subst new
        rw [update_self]
        constructor
        · rintro ⟨rfl⟩
          exact .inr rfl
        · rintro (member | ⟨-, rfl⟩)
          · exact absurd rfl (apart member).2
          · rfl
      · rw [update_of_ne new]
        by_cases dropped : asked = old
        · subst dropped
          rw [update_self]
          constructor
          · intro never
            cases never
          · rintro (member | same)
            · exact absurd rfl (apart member).1
            · exact absurd (Prod.mk.inj same).1 new
        · rw [update_of_ne dropped, values, mem_cons]
          constructor
          · rintro (rfl | member)
            · exact absurd oldest.symm dropped
            · exact .inl member
          · rintro (member | same)
            · exact .inr member
            · exact absurd (Prod.mk.inj same).1 new

end Iris.Library.Recent
