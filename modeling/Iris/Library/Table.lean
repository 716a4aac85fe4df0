import Mathlib.Tactic.Ring

/-!
Owns tables of a fixed number of slots: reading and writing a slot, copying a
run of slots in, and that two tables agreeing slot by slot are the same table.
-/

namespace Iris

universe u

def Table (n : Nat) (α : Type u) : Type u :=
  Fin n → α

namespace Table

variable {n : Nat} {α : Type u}

def fill (n : Nat) (value : α) : Table n α :=
  fun _ => value

def set (table : Table n α) (slot : Nat) (value : α) : Table n α :=
  fun i => if i.val = slot then value else table i

/-- Slots `start`, `start + 1`, … take `count` values of `source`. -/
def copyIn (table : Table n α) (start count : Nat) (source : Nat → α) : Table n α :=
  fun i => if start ≤ i.val ∧ i.val < start + count then source (i.val - start) else table i

variable [Inhabited α]

def get (table : Table n α) (slot : Nat) : α :=
  if inside : slot < n then table ⟨slot, inside⟩ else default

theorem ext {left right : Table n α} (same : ∀ slot < n, left.get slot = right.get slot) :
    left = right := by
  funext i
  have here := same i.val i.isLt
  simpa [get] using here

variable {table : Table n α} {slot count : Nat} {value : α} {source : Nat → α}

@[simp] theorem get_fill (inside : slot < n) : (fill n value).get slot = value := by
  simp [get, fill, inside]

theorem get_fill_default (slot : Nat) : (fill n (default : α)).get slot = default := by
  by_cases inside : slot < n
  · exact get_fill inside
  · simp [get, inside]

variable {other start : Nat}

theorem get_set (inside : slot < n) :
    (table.set slot value).get other = if other = slot then value else table.get other := by
  by_cases same : other = slot
  · simp [get, set, same, inside]
  · by_cases within : other < n
    · simp [get, set, same, within]
    · simp [get, same, within]

@[simp] theorem get_set_self (inside : slot < n) : (table.set slot value).get slot = value := by
  rw [get_set inside, if_pos rfl]

theorem get_set_of_ne (differ : other ≠ slot) :
    (table.set slot value).get other = table.get other := by
  by_cases within : other < n
  · simp [get, set, differ, within]
  · simp [get, within]

theorem get_copyIn (inside : slot < n) :
    (table.copyIn start count source).get slot =
      if start ≤ slot ∧ slot < start + count then source (slot - start) else table.get slot := by
  simp [get, copyIn, inside]

theorem get_copyIn_of_outside (outside : ¬(start ≤ slot ∧ slot < start + count)) :
    (table.copyIn start count source).get slot = table.get slot := by
  by_cases within : slot < n
  · rw [get_copyIn within, if_neg outside]
  · simp [get, within]

omit [Inhabited α] in
/-- Only the values that are copied matter. -/
theorem copyIn_congr {source' : Nat → α} (same : ∀ i < count, source i = source' i) :
    table.copyIn start count source = table.copyIn start count source' := by
  funext slot
  simp only [copyIn]
  split
  · exact same _ (by omega)
  · rfl

/-- A table of lines of `width` slots, one of them replaced. -/
theorem get_copyIn_line (within : i < width) (inside : other * width + i < n) :
    (table.copyIn (line * width) width source).get (other * width + i) =
      if other = line then source i else table.get (other * width + i) := by
  rw [get_copyIn inside]
  by_cases same : other = line
  · subst same
    rw [if_pos (by omega), if_pos rfl, Nat.add_sub_cancel_left]
  rw [if_neg same, if_neg]
  rcases Nat.lt_or_gt_of_ne same with below | above
  · have apart := Nat.mul_le_mul_right width (Nat.succ_le_of_lt below)
    rw [Nat.succ_mul] at apart
    omega
  · have apart := Nat.mul_le_mul_right width (Nat.succ_le_of_lt above)
    rw [Nat.succ_mul] at apart
    omega

theorem forall_set {P : α → Prop} (every : ∀ slot, P (table.get slot)) (new : P value)
    (changed slot : Nat) : P ((table.set changed value).get slot) := by
  by_cases same : slot = changed
  · subst same
    by_cases inside : slot < n
    · rw [get_set_self inside]
      exact new
    · have outside : (table.set slot value).get slot = table.get slot := by simp [get, inside]
      rw [outside]
      exact every slot
  · rw [get_set_of_ne same]
    exact every slot

/-! ### Tables and lists -/

def toList (table : Table n α) : List α :=
  List.ofFn table

/-- The first slots take the items of a list, as many as there are of both. -/
def copyList (table : Table n α) (items : List α) : Table n α :=
  table.copyIn 0 items.length fun i => items.getD i default

omit [Inhabited α] in
@[simp] theorem length_toList (table : Table n α) : table.toList.length = n :=
  List.length_ofFn

theorem getD_toList (table : Table n α) (inside : slot < n) :
    table.toList.getD slot default = table.get slot := by
  have within : slot < table.toList.length := by rwa [length_toList]
  rw [List.getD_eq_getElem?_getD, List.getElem?_eq_getElem within, get, dif_pos inside]
  exact List.getElem_ofFn _

theorem get_copyList (inside : slot < n) :
    (table.copyList items).get slot =
      if slot < items.length then items.getD slot default else table.get slot := by
  rw [copyList, get_copyIn inside]
  simp

theorem get_copyList_take {other : Table n α} (inside : slot < n) :
    (table.copyList (other.toList.take count)).get slot =
      if slot < count then other.get slot else table.get slot := by
  rw [get_copyList inside, List.length_take, length_toList]
  by_cases below : slot < count
  · rw [if_pos (by omega), ← getD_toList other inside]
    simp [List.getD, below]
  · rw [if_neg below, if_neg (by omega)]

theorem copyList_toList (table other : Table n α) : table.copyList other.toList = other := by
  apply ext
  intro slot inside
  rw [get_copyList inside, length_toList, if_pos inside, getD_toList other inside]

end Table

end Iris
