import Mathlib.Tactic.Ring

/-!
Owns the one's-complement sum of bytes as 16-bit words: adding word by word with the carry
brought around gives the ordinary sum folded once, and the complement of a sum completes it.
-/

namespace Iris.Library.OnesComplement

def add (a b : Nat) : Nat := (a + b) % 2 ^ 16 + (a + b) / 2 ^ 16

/-- What is left of a total once all its carries are brought around. -/
def folded (total : Nat) : Nat := if total = 0 then 0 else (total - 1) % 65535 + 1

/-- Big-endian words; an odd last byte is padded. -/
def words : List (BitVec 8) → List Nat
  | [] => []
  | [high] => [high.toNat * 256]
  | high :: low :: rest => (high.toNat * 256 + low.toNat) :: words rest

def sum (bytes : List (BitVec 8)) : Nat := (words bytes).foldl add 0

theorem add_folded (small : word < 2 ^ 16) :
    add (folded total) word = folded (total + word) := by
  unfold add folded
  split <;> split <;> omega

theorem folded_complement (total : Nat) : folded (total + (65535 - folded total)) = 65535 := by
  unfold folded
  split <;> split <;> omega

theorem sum_eq (bytes : List (BitVec 8)) : sum bytes = folded (words bytes).sum := by
  have run : ∀ total, (words bytes).foldl add (folded total) =
      folded (total + (words bytes).sum) := by
    fun_induction words bytes with
    | case1 => intro total; rfl
    | case2 high =>
      intro total
      simp [add_folded (show high.toNat * 256 < 2 ^ 16 by omega)]
    | case3 high low rest inductionHypothesis =>
      intro total
      rw [List.foldl_cons, add_folded (by omega), inductionHypothesis, List.sum_cons, Nat.add_assoc]
  simpa [folded, sum] using run 0

theorem sum_le (bytes : List (BitVec 8)) : sum bytes ≤ 65535 := by
  rw [sum_eq, folded]
  split <;> omega

theorem words_append (even : front.length % 2 = 0) :
    words (front ++ back) = words front ++ words back := by
  fun_induction words front with
  | case1 => rfl
  | case2 => simp at even
  | case3 high low rest inductionHypothesis =>
    rw [List.cons_append, List.cons_append, words, inductionHypothesis (by simp at even; omega),
      List.cons_append]

theorem words_sum_le (bytes : List (BitVec 8)) :
    2 * (words bytes).sum ≤ 65535 * (bytes.length + 1) := by
  fun_induction words bytes with
  | case1 => simp
  | case2 high | case3 high low rest inductionHypothesis => simp; omega

/-- `value` as the big-endian word at `i`. -/
def put (bytes : List (BitVec 8)) (i value : Nat) : List (BitVec 8) :=
  (bytes.set i (.ofNat 8 (value / 256))).set (i + 1) (.ofNat 8 value)

theorem put_put (bytes : List (BitVec 8)) (i old value : Nat) :
    put (put bytes i old) i value = put bytes i value := by
  unfold put
  rw [List.set_comm _ _ (Nat.succ_ne_self i), List.set_set, List.set_set]

theorem words_put (even : i % 2 = 0) (inside : i + 1 < bytes.length) (small : value < 2 ^ 16) :
    (words (put bytes i value)).sum = (words (put bytes i 0)).sum + value := by
  fun_induction words bytes generalizing i with
  | case1 | case2 => simp at inside
  | case3 high low rest inductionHypothesis =>
    match i with
    | 0 => simp [put, words]; omega
    | 1 => simp at even
    | i + 2 =>
      have later := @inductionHypothesis i (by omega) (by simp at inside; omega)
      simp only [put, List.set_cons_succ, words, List.sum_cons] at later ⊢
      omega

end Iris.Library.OnesComplement
