import Mathlib.Data.List.Basic
import Mathlib.Tactic.Ring

/-!
Owns random access to sequences: the part at an offset, an in-place overwrite, and
the file operations built from them. A write behind the end of a file leaves a
hole of blanks; an exact read reaches no further than the end.
-/

namespace Iris.Library.ByteFile

open List

variable {α : Type*} (blank : α)

def slice (bytes : List α) (offset count : Nat) : List α := (bytes.drop offset).take count

/-- `bytes` with `data` in place at `offset`. -/
def overwrite (bytes : List α) (offset : Nat) (data : List α) : List α :=
  bytes.take offset ++ (data ++ bytes.drop (offset + data.length))

def writeAt (blank : α) (file : List α) (offset : Nat) (data : List α) : List α :=
  overwrite (file ++ replicate (offset - file.length) blank) offset data

def readExact (file : List α) (offset count : Nat) : Option (List α) :=
  if offset + count ≤ file.length then some (slice file offset count) else none

theorem getElem?_slice (bytes : List α) (offset count i : Nat) :
    (slice bytes offset count)[i]? = if i < count then bytes[offset + i]? else none := by
  rw [slice, getElem?_take]
  split
  · rw [getElem?_drop]
  · rfl

variable {offset count : Nat} {bytes : List α}

theorem getElem?_eq_getD (inside : i < bytes.length) : bytes[i]? = some (bytes.getD i blank) := by
  rw [getD_eq_getElem?_getD, getElem?_eq_getElem inside, Option.getD_some]

theorem length_slice (inside : offset + count ≤ bytes.length) :
    (slice bytes offset count).length = count := by
  rw [slice, length_take, length_drop]
  omega

theorem length_overwrite (inside : offset + data.length ≤ bytes.length) :
    (overwrite bytes offset data).length = bytes.length := by
  rw [overwrite, length_append, length_append, length_take, length_drop]
  omega

theorem getElem?_overwrite (inside : offset ≤ bytes.length) (i : Nat) :
    (overwrite bytes offset data)[i]? =
      if offset ≤ i ∧ i < offset + data.length then data[i - offset]? else bytes[i]? := by
  have front : (bytes.take offset).length = offset := by
    rw [length_take]
    omega
  unfold overwrite
  rcases Nat.lt_or_ge i offset with before | after
  · rw [if_neg (by omega), getElem?_append_left (by omega), getElem?_take, if_pos before]
  rw [getElem?_append_right (by omega), front]
  rcases Nat.lt_or_ge i (offset + data.length) with within | behind
  · rw [if_pos ⟨after, within⟩, getElem?_append_left (by omega)]
  · rw [if_neg (by omega), getElem?_append_right (by omega), getElem?_drop]
    congr 1
    omega

theorem readExact_inside {file : List α} (inside : offset + count ≤ file.length) :
    readExact file offset count = some (slice file offset count) :=
  if_pos inside

theorem readExact_beyond {file : List α} (beyond : file.length < offset + count) :
    readExact file offset count = none :=
  if_neg (Nat.not_le_of_lt beyond)

/-- What was there stays, outside the data written. -/
theorem getElem?_writeAt (held : i < file.length ∨ offset ≤ i) :
    (writeAt blank file offset data)[i]? =
      if offset ≤ i ∧ i < offset + data.length then data[i - offset]? else file[i]? := by
  have reach : offset ≤ (file ++ replicate (offset - file.length) blank).length := by
    rw [length_append, length_replicate]
    omega
  rw [writeAt, getElem?_overwrite reach]
  split
  · rfl
  next outside =>
    rcases Nat.lt_or_ge i file.length with inside | behind
    · exact getElem?_append_left inside
    · rw [getElem?_eq_none behind, getElem?_eq_none]
      rw [length_append, length_replicate]
      omega

theorem length_writeAt (file : List α) (offset : Nat) (data : List α) :
    (writeAt blank file offset data).length = max (max file.length offset) (offset + data.length) := by
  rw [writeAt, overwrite, length_append, length_append, length_take,
    length_drop, length_append, length_replicate]
  omega

end Iris.Library.ByteFile
