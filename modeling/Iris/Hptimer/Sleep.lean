import Iris.Hptimer.Manager
import Iris.Library.Run

/-!
Owns the worker's sleep: as long as no timer is removed or disabled while it waits in the
fifo, the worker goes to sleep only when the fifo is empty, and wakes up in time for every
enabled timer. A timer taken away from the front of the fifo has the worker sleep over the
ones behind it.
-/

namespace Iris.Hptimer

open Library.Run List Option

variable {Callback : Type}

variable {id : TimerId}

variable {now : Nat}

namespace TimerManagerInner
variable {inner : TimerManagerInner Callback}

/-! ### Finding timers -/

variable {timer : TimerEntry Callback} {generation index : Nat}

theorem find_eq_some :
    inner.find id = some timer ↔
      ∃ slot, inner.slots[id.index]? = some slot ∧ slot.generation = id.generation ∧
        slot.timer = some timer := by
  rw [find]
  cases inner.slots[id.index]? with
  | none => simp
  | some slot =>
    split
    next same => simp [same]
    next differ => simp [differ]

theorem find_put_ne {other : TimerId} {timer : Option (TimerEntry Callback)}
    (apart : other.index ≠ id.index) : (inner.put id timer).find other = inner.find other := by
  rw [find, find, put, getElem?_set_ne apart.symm]

/-- What is found after a slot was written is what went there, or was found before. -/
theorem find_put {other : TimerId} {timer : Option (TimerEntry Callback)}
    (finds : (inner.put id timer).find other = some found) :
    (other.index = id.index ∧ timer = some found) ∨
      (other.index ≠ id.index ∧ inner.find other = some found) := by
  by_cases at_slot : other.index = id.index
  · obtain ⟨slot, there, -, holds⟩ := find_eq_some.mp finds
    rw [put, at_slot] at there
    obtain ⟨inside, same⟩ := List.getElem?_eq_some_iff.mp there
    rw [getElem_set_self] at same
    rw [← same] at holds
    exact .inl ⟨at_slot, holds⟩
  · exact .inr ⟨at_slot, (find_put_ne at_slot).symm.trans finds⟩

theorem index_lt_of_find (finds : inner.find id = some timer) : id.index < inner.slots.length := by
  obtain ⟨slot, there, -⟩ := find_eq_some.mp finds
  exact (List.getElem?_eq_some_iff.mp there).1

theorem generation_unique (finds : inner.find ⟨generation, index⟩ = some timer)
    (there : inner.find ⟨other, index⟩ = some found) : other = generation := by
  obtain ⟨slot, here, same, -⟩ := find_eq_some.mp finds
  obtain ⟨slot', here', same', -⟩ := find_eq_some.mp there
  cases here.symm.trans here'
  exact same'.symm.trans same

/-! ### The books -/

/-- The fifo holds exactly the timers marked so, once each, and all of them are enabled; a free
slot is there and holds no timer. -/
structure Books (inner : TimerManagerInner Callback) : Prop where
  live : ∀ index generation, (index, generation) ∈ inner.fifo →
    ∃ timer, inner.find ⟨generation, index⟩ = some timer ∧ timer.inFifo = true ∧
      timer.enabled = true
  listed : ∀ id timer, inner.find id = some timer → timer.inFifo = true →
    (id.index, id.generation) ∈ inner.fifo
  once : inner.fifo.Nodup
  free : inner.freeIndices.Nodup
  empty : ∀ index ∈ inner.freeIndices, index < inner.slots.length ∧
    ∀ generation, inner.find ⟨generation, index⟩ = none

/-- Nothing waits in the fifo for the timer in that slot. -/
def Unqueued (inner : TimerManagerInner Callback) (index : Nat) : Prop :=
  ∀ id timer, inner.find id = some timer → id.index = index → timer.inFifo = false

theorem Books.not_free (books : inner.Books) (finds : inner.find id = some timer) :
    id.index ∉ inner.freeIndices := by
  intro member
  have none := (books.empty id.index member).2 id.generation
  cases none.symm.trans finds

theorem Books.put (books : inner.Books) {timer : Option (TimerEntry Callback)}
    (before : inner.Unqueued id.index) (taken : id.index ∉ inner.freeIndices)
    (after : ∀ found ∈ timer, found.inFifo = false) : (inner.put id timer).Books where
  live index generation member := by
    obtain ⟨timer, finds, waits, enabled⟩ := books.live index generation member
    have apart : index ≠ id.index := by
      intro at_slot
      cases waits.symm.trans (before _ timer finds at_slot)
    rw [find_put_ne apart]
    exact ⟨timer, finds, waits, enabled⟩
  listed other found finds waits := by
    rcases find_put finds with ⟨-, same⟩ | ⟨-, there⟩
    · cases waits.symm.trans (after found same)
    · exact books.listed other found there waits
  once := books.once
  free := books.free
  empty index member := by
    have apart : index ≠ id.index := fun same => taken (same ▸ member)
    obtain ⟨inside, none⟩ := books.empty index member
    refine ⟨by rw [TimerManagerInner.put, length_set]; exact inside, fun generation => ?_⟩
    rw [find_put_ne apart]
    exact none generation

/-! ### Slots -/

theorem find_append_empty (inner : TimerManagerInner Callback) (generation : Nat) (id : TimerId) :
    ({ inner with slots := inner.slots ++ [⟨generation, none⟩] } :
      TimerManagerInner Callback).find id = inner.find id := by
  rw [find, find]
  rcases Nat.lt_trichotomy id.index inner.slots.length with inside | rfl_index | beyond
  · rw [getElem?_append_left inside]
  · rw [rfl_index, getElem?_concat_length, getElem?_eq_none (Nat.le_refl _)]
    exact ite_self none
  · rw [getElem?_eq_none (by simp; omega), getElem?_eq_none (Nat.le_of_lt beyond)]

/-- What taking a slot does: it is there, empty, and no longer free. -/
theorem freeSlot_spec (books : inner.Books) :
    inner.freeSlot.2.find = inner.find ∧ inner.freeSlot.2.Books ∧
      inner.freeSlot.1 ∉ inner.freeSlot.2.freeIndices ∧
      ∀ generation, inner.find ⟨generation, inner.freeSlot.1⟩ = none := by
  rw [freeSlot]
  cases free : inner.freeIndices with
  | nil =>
    have same := funext (find_append_empty inner 0)
    rw [free] at same
    dsimp only
    refine ⟨same, ⟨?_, ?_, books.once, ?_, ?_⟩, ?_, fun generation => ?_⟩
    · rw [same]
      exact books.live
    · rw [same]
      exact books.listed
    · simp
    · simp
    · simp
    · rw [find, getElem?_eq_none (Nat.le_refl _)]
  | cons index rest =>
    have nodup := books.free
    rw [free] at nodup
    obtain ⟨fresh, nodup⟩ := nodup_cons.mp nodup
    obtain ⟨inside, none⟩ := books.empty index (by simp [free])
    refine ⟨rfl, { books with free := nodup, empty := fun other member => ?_ }, fresh, none⟩
    exact books.empty other (by simp [free, member])

/-- Each operation on the slots keeps the books, and queues nothing. -/
structure Kept (inner later : TimerManagerInner Callback) : Prop where
  books : later.Books
  unqueued : ∀ index, inner.Unqueued index → later.Unqueued index

theorem Unqueued.put (unqueued : inner.Unqueued index) {timer : Option (TimerEntry Callback)}
    (after : ∀ found ∈ timer, found.inFifo = false) : (inner.put id timer).Unqueued index := by
  intro other found finds at_slot
  rcases find_put finds with ⟨-, same⟩ | ⟨-, there⟩
  · exact after found same
  · exact unqueued other found there at_slot

theorem unqueued_of_find (finds : inner.find id = some timer) (outside : timer.inFifo = false) :
    inner.Unqueued id.index := by
  rintro ⟨generation, _⟩ found there rfl
  rw [generation_unique finds there] at there
  exact some.inj (finds.symm.trans there) ▸ outside

section
variable (books : inner.Books)
include books

theorem kept_refl : Kept inner inner := ⟨books, fun _ => id⟩

theorem put_kept (finds : inner.find id = some timer) (outside : timer.inFifo = false)
    {later : Option (TimerEntry Callback)} (after : ∀ found ∈ later, found.inFifo = false) :
    Kept inner (inner.put id later) where
  books := books.put (unqueued_of_find finds outside) (books.not_free finds) after
  unqueued _ unqueued := unqueued.put after

theorem allocate_kept (outside : entry.inFifo = false) : Kept inner (inner.allocate entry).2 := by
  obtain ⟨finds, books, taken, empty⟩ := freeSlot_spec books
  have after : ∀ found ∈ some entry, found.inFifo = false := by
    rintro _ ⟨⟩
    exact outside
  constructor
  · refine books.put ?_ taken after
    rintro ⟨generation, _⟩ timer there rfl
    rw [finds] at there
    cases there.symm.trans (empty generation)
  · intro index unqueued
    refine Unqueued.put (fun id timer there => ?_) after
    exact unqueued id timer ((congrFun finds id).symm.trans there)

theorem deallocate_kept (outside : ∀ timer, inner.find id = some timer → timer.inFifo = false) :
    Kept inner (inner.deallocate id).2 := by
  rw [deallocate]
  cases finds : inner.find id with
  | none => exact kept_refl books
  | some timer =>
    have emptied : Kept inner (inner.put id none) :=
      put_kept books finds (outside timer finds) nofun
    have fresh := books.not_free finds
    refine ⟨{ emptied.books with
      free := nodup_cons.mpr ⟨fresh, books.free⟩, empty := fun index member => ?_ },
      emptied.unqueued⟩
    rcases mem_cons.mp member with rfl | other
    · refine ⟨?_, fun generation => ?_⟩
      · rw [put, length_set]
        exact index_lt_of_find finds
      · cases there : (inner.put id none).find ⟨generation, id.index⟩ with
        | none => exact there
        | some found => rcases find_put there with ⟨-, same⟩ | ⟨apart, -⟩ <;> contradiction
    · exact emptied.books.empty index other

end

theorem put_find (finds : inner.find id = some timer) : inner.put id (some timer) = inner := by
  obtain ⟨⟨generation, held⟩, there, rfl, rfl⟩ := find_eq_some.mp finds
  obtain ⟨inside, same⟩ := List.getElem?_eq_some_iff.mp there
  have whole : inner.slots.set id.index (inner.slots[id.index]) = inner.slots :=
    set_getElem_self inside
  rw [same] at whole
  exact congrArg (mk · _ _ _) whole

theorem setEnabled_kept (books : inner.Books)
    (outside : enabled = false → ∀ timer, inner.find id = some timer → timer.inFifo = false) :
    Kept inner (inner.setEnabled id enabled).2 := by
  rw [setEnabled]
  cases finds : inner.find id with
  | none => exact kept_refl books
  | some timer =>
    cases waits : timer.inFifo with
    | true =>
      -- a timer in the fifo is enabled already
      obtain ⟨same, here, -, on⟩ := books.live _ _ (books.listed id timer finds waits)
      cases finds.symm.trans here
      have unchanged : { timer with enabled } = timer := by
        cases timer
        cases enabled with
        | false => cases waits.symm.trans (outside rfl _ finds)
        | true => cases on; rfl
      dsimp only
      rw [unchanged, put_find finds]
      exact kept_refl books
    | false =>
      refine put_kept books finds waits ?_
      rintro _ ⟨⟩
      exact waits

/-! ### The scan -/

def marked (now : Nat) (timer : TimerEntry Callback) : TimerEntry Callback :=
  if newlyExpired now timer then { timer with inFifo := true } else timer

theorem marked_of_inFifo (waits : timer.inFifo = true) : marked now timer = timer := by
  rw [marked, newlyExpired, waits]
  simp

theorem find_scan (now : Nat) (id : TimerId) :
    (inner.scan now).find id = (inner.find id).map (marked now) := by
  rw [find, find, scan]
  rw [getElem?_map]
  cases inner.slots[id.index]? with
  | none => rfl
  | some slot =>
    dsimp only [map_some, register]
    split <;> rfl

theorem mem_expired :
    (index, generation) ∈ inner.slots.zipIdx.filterMap (expiredEntry now) ↔
      ∃ timer, inner.find ⟨generation, index⟩ = some timer ∧ newlyExpired now timer = true := by
  rw [mem_filterMap]
  constructor
  · rintro ⟨⟨slot, place⟩, member, entry⟩
    rw [mem_zipIdx_iff_getElem?] at member
    rw [expiredEntry] at entry
    cases held : slot.timer with
    | none => simp [held] at entry
    | some timer =>
      rw [held] at entry
      dsimp only at entry
      split at entry
      next expired =>
        cases some.inj entry
        exact ⟨timer, find_eq_some.mpr ⟨slot, member, rfl, held⟩, expired⟩
      · cases entry
  · rintro ⟨timer, finds, expired⟩
    obtain ⟨slot, there, rfl, held⟩ := find_eq_some.mp finds
    refine ⟨(slot, index), mem_zipIdx_iff_getElem?.mpr there, ?_⟩
    rw [expiredEntry, held]
    exact if_pos expired

theorem nodup_expired : (inner.slots.zipIdx.filterMap (expiredEntry now)).Nodup := by
  have apart : inner.slots.zipIdx.Pairwise fun one other => one.2 ≠ other.2 := by
    rw [← pairwise_map (f := Prod.snd) (R := (· ≠ ·)), zipIdx_map_snd]
    exact nodup_range'
  have index_of {one : Slot Callback × Nat} {entry : Nat × Nat}
      (expired : expiredEntry now one = some entry) : entry.1 = one.2 := by
    rw [expiredEntry] at expired
    split at expired
    · cases expired
    · split at expired
      · exact some.inj expired ▸ rfl
      · cases expired
  refine Pairwise.filterMap (expiredEntry now) ?_ apart
  intro one other differ entry first entry' second same
  exact differ ((index_of first).symm.trans ((congrArg Prod.fst same).trans (index_of second)))

theorem Books.scan (books : inner.Books) : (inner.scan now).Books where
  live index generation member := by
    rw [find_scan]
    rcases mem_append.mp member with before | fresh
    · obtain ⟨timer, finds, waits, enabled⟩ := books.live index generation before
      rw [finds, map_some, marked_of_inFifo waits]
      exact ⟨timer, rfl, waits, enabled⟩
    · obtain ⟨timer, finds, expired⟩ := mem_expired.mp fresh
      rw [finds, map_some, marked, if_pos expired]
      rw [newlyExpired] at expired
      simp only [Bool.and_eq_true] at expired
      exact ⟨_, rfl, rfl, expired.1.1⟩
  listed id timer finds waits := by
    rw [find_scan] at finds
    obtain ⟨before, held, rfl⟩ := map_eq_some_iff.mp finds
    apply mem_append.mpr
    by_cases expired : newlyExpired now before = true
    · exact .inr (mem_expired.mpr ⟨before, held, expired⟩)
    · rw [marked, if_neg expired] at waits
      exact .inl (books.listed id before held waits)
  once := by
    refine nodup_append.mpr ⟨books.once, nodup_expired, ?_⟩
    rintro ⟨index, generation⟩ before entry fresh rfl
    obtain ⟨timer, finds, waits, -⟩ := books.live index generation before
    obtain ⟨same, there, expired⟩ := mem_expired.mp fresh
    cases finds.symm.trans there
    simp [newlyExpired, waits] at expired
  free := books.free
  empty index member := by
    obtain ⟨inside, none⟩ := books.empty index member
    refine ⟨by rw [TimerManagerInner.scan, length_map]; exact inside, fun generation => ?_⟩
    rw [find_scan, none generation]
    rfl

/-- When the fifo is in order, there is nothing to call only if it is empty; otherwise the
first timer is taken out of it. -/
theorem fetch_spec (books : inner.Books) :
    (inner.fifo = [] ∧ inner.fetch = (none, inner)) ∨
      ∃ id callback, inner.fetch.1 = some (id, callback) ∧ inner.fetch.2.Books ∧
        inner.fetch.2.Unqueued id.index := by
  rw [fetch]
  cases order : inner.fifo with
  | nil => exact .inl ⟨rfl, rfl⟩
  | cons front rest =>
    obtain ⟨index, generation⟩ := front
    obtain ⟨timer, finds, waits, enabled⟩ := books.live index generation (by simp [order])
    have nodup := books.once
    rw [order] at nodup
    obtain ⟨alone, nodup⟩ := nodup_cons.mp nodup
    have there : ({ inner with fifo := rest } : TimerManagerInner Callback).find
        ⟨generation, index⟩ = some timer := finds
    dsimp only
    rw [there]
    dsimp only
    rw [if_pos enabled]
    refine .inr ⟨_, _, rfl, ⟨fun other gen member => ?_, fun other found held marked => ?_, nodup,
      books.free, fun other member => ?_⟩, fun other found held at_slot => ?_⟩
    · have behind : (other, gen) ∈ rest := member
      obtain ⟨found, held, marked⟩ := books.live other gen (by simp [order, behind])
      have apart : other ≠ index := by
        rintro rfl
        rw [generation_unique finds held] at behind
        exact alone behind
      rw [find_put_ne apart]
      exact ⟨found, held, marked⟩
    · rcases find_put held with ⟨-, same⟩ | ⟨apart, before⟩
      · rw [← some.inj same] at marked
        cases marked
      have member := books.listed other found before marked
      rw [order] at member
      rcases mem_cons.mp member with same | later
      · exact absurd (Prod.mk.inj same).1 apart
      · exact later
    · obtain ⟨inside, none⟩ := books.empty other member
      have apart : other ≠ index := fun same => books.not_free finds (same ▸ member)
      refine ⟨by rw [put, length_set]; exact inside, fun gen => ?_⟩
      rw [find_put_ne apart]
      exact none gen
    · rcases find_put held with ⟨-, same⟩ | ⟨apart, -⟩
      · rw [← some.inj same]
      · exact absurd at_slot apart

/-! ### The next wakeup -/

theorem foldl_earlier_le (slots : List (Slot Callback)) (below : start ≤ bound) :
    ∃ wakeup, slots.foldl earlier (some start) = some wakeup ∧ wakeup ≤ bound := by
  induction slots generalizing start with
  | nil => exact ⟨start, rfl, below⟩
  | cons slot rest inductionHypothesis =>
    rw [foldl_cons, earlier]
    split
    · exact inductionHypothesis below
    · split
      · apply inductionHypothesis
        split <;> omega
      · exact inductionHypothesis below

theorem foldl_earlier_covers {slots : List (Slot Callback)} (member : slot ∈ slots)
    (held : slot.timer = some timer) (enabled : timer.enabled = true)
    (outside : timer.inFifo = false) (start : Option Nat) :
    ∃ wakeup, slots.foldl earlier start = some wakeup ∧ wakeup ≤ timer.nextExpiration := by
  induction slots generalizing start with
  | nil => cases member
  | cons head rest inductionHypothesis =>
    rw [foldl_cons]
    rcases mem_cons.mp member with rfl | later
    · rw [earlier, held]
      dsimp only
      rw [enabled, outside]
      cases start with
      | none => exact foldl_earlier_le rest (Nat.le_refl _)
      | some wakeup =>
        apply foldl_earlier_le rest
        split <;> omega
    · exact inductionHypothesis later _

theorem nextWakeup_le (finds : inner.find id = some timer) (enabled : timer.enabled = true)
    (outside : timer.inFifo = false) :
    ∃ wakeup, inner.nextWakeup = some wakeup ∧ wakeup ≤ timer.nextExpiration := by
  obtain ⟨slot, there, -, held⟩ := find_eq_some.mp finds
  exact foldl_earlier_covers (mem_of_getElem? there) held enabled outside none

end TimerManagerInner

/-! ### Runs -/

namespace TimerManager

open TimerManagerInner

variable {manager : TimerManager Callback}

def InTime (inner : TimerManagerInner Callback) (target : Option Nat) : Prop :=
  ∀ id timer, inner.find id = some timer → timer.enabled = true →
    ∃ wakeup, target = some wakeup ∧ wakeup ≤ timer.nextExpiration

/-- The timer being called is out of the fifo, and a wakeup decided upon is in time unless a
request came in since. -/
structure Inv (manager : TimerManager Callback) : Prop where
  books : manager.inner.Books
  calling : ∀ id callback catchUp, manager.worker = .calling id callback catchUp →
    manager.inner.Unqueued id.index
  waiting : ∀ target, manager.worker = .waiting target → manager.newTimerAdded = false →
    InTime manager.inner target

theorem init_inv : Inv ({} : TimerManager Callback) where
  books := ⟨nofun, nofun, nodup_nil, nodup_nil, nofun⟩
  calling _ _ _ looping := nomatch looping
  waiting _ looping := nomatch looping

variable {later : TimerManagerInner Callback}

theorem Inv.requested (inv : Inv manager) (kept : Kept manager.inner later)
    (fewer : added = false → manager.newTimerAdded = false ∧
      ∀ target, InTime manager.inner target → InTime later target) :
    Inv { manager with inner := later, newTimerAdded := added } where
  books := kept.books
  calling id callback catchUp calls := kept.unqueued _ (inv.calling id callback catchUp calls)
  waiting target waits quiet := (fewer quiet).2 target (inv.waiting target waits (fewer quiet).1)

section
variable {inner : TimerManagerInner Callback} {target : Option Nat} (inTime : InTime inner target)
include inTime

theorem InTime.put {timer : Option (TimerEntry Callback)}
    (off : ∀ found ∈ timer, found.enabled = false) : InTime (inner.put id timer) target := by
  intro other found finds enabled
  rcases find_put finds with ⟨-, same⟩ | ⟨-, there⟩
  · cases enabled.symm.trans (off found same)
  · exact inTime other found there enabled

theorem InTime.deallocate : InTime (inner.deallocate id).2 target := by
  rw [TimerManagerInner.deallocate]
  cases inner.find id with
  | none => exact inTime
  | some _ => exact inTime.put nofun

theorem InTime.disable : InTime (inner.setEnabled id false).2 target := by
  rw [setEnabled]
  cases inner.find id with
  | none => exact inTime
  | some _ => exact inTime.put fun _ same => some.inj same ▸ rfl

end

theorem Inv.looping (inv : Inv manager) : Inv { manager with worker := .looping } :=
  { inv with calling := nofun, waiting := nofun }

theorem iterate_inv (inv : Inv manager) : Inv (manager.iterate now) := by
  rw [iterate]
  split
  · exact ⟨inv.books, nofun, nofun⟩
  rcases fetch_spec inv.books.scan with
    ⟨empty, nothing⟩ | ⟨id, callback, fetched, books, unqueued⟩
  · rw [nothing]
    refine ⟨inv.books.scan, nofun, ?_⟩
    rintro target same - other timer finds enabled
    obtain rfl := Worker.waiting.inj same
    -- what the fifo does not hold, the wakeup counts
    have outside : timer.inFifo = false := by
      cases waits : timer.inFifo with
      | false => rfl
      | true =>
        have member := inv.books.scan.listed other timer finds waits
        rw [empty] at member
        cases member
    exact nextWakeup_le finds enabled outside
  · dsimp only
    rw [fetched]
    refine ⟨books, fun other token catchUp calls => ?_, fun target waits => ?_⟩
    · cases callback with
      | none => cases calls
      | some _ => exact (Worker.calling.inj calls).1 ▸ unqueued
    · cases callback with
      | none | some _ => cases waits

/-- The timer that was called is settled, and the worker goes back to the top. -/
theorem settled_looping (kept : Kept manager.inner later) :
    Inv { manager with inner := later, worker := .looping } :=
  { kept with calling := nofun, waiting := nofun }

theorem settled_calling (kept : Kept manager.inner later)
    (unqueued : manager.inner.Unqueued id.index) :
    Inv { manager with inner := later, worker := .calling id callback catchUp } where
  books := kept.books
  calling _ _ _ same := (Worker.calling.inj same).1 ▸ kept.unqueued _ unqueued
  waiting _ calls := nomatch calls

theorem returned_inv (inv : Inv manager) : Inv (manager.returned result now) := by
  rw [returned]
  split
  next id callback catchUp calls =>
    have unqueued := inv.calling id callback catchUp calls
    split
    · exact inv.looping
    cases finds : manager.inner.find id with
    | none => exact inv.looping
    | some timer =>
      have outside (other : TimerEntry Callback) (there : manager.inner.find id = some other) :
          other.inFifo = false := unqueued id other there rfl
      have rewritten (now : TimerEntry Callback) (same : now.inFifo = timer.inFifo) :
          Kept manager.inner (manager.inner.put id (some now)) := by
        refine put_kept inv.books finds (outside timer finds) ?_
        rintro _ ⟨⟩
        exact same.trans (outside timer finds)
      have removed := deallocate_kept inv.books outside
      cases result with
      | «continue» =>
        dsimp only [settle]
        split
        · exact settled_looping removed
        · split
          · exact settled_calling (rewritten _ rfl) unqueued
          · exact settled_looping (rewritten _ rfl)
      | delete => exact settled_looping removed
      | disable | rescheduleOneShot delay | rescheduleRecurring period =>
        exact settled_looping (rewritten _ rfl)
  · exact inv

/-- No timer is removed or disabled while it waits in the fifo. -/
def Undisturbed (manager : TimerManager Callback) : Op Callback → Prop
  | .remove id => ∀ timer, manager.inner.find id = some timer → timer.inFifo = false
  | .disable id => ∀ timer, manager.inner.find id = some timer → timer.inFifo = false
  | _ => True

theorem step_inv (inv : Inv manager) (undisturbed : Undisturbed manager op) :
    Inv (manager.step op) := by
  have quiet (inner : TimerManagerInner Callback) (later : TimerManagerInner Callback) :
      true = false → manager.newTimerAdded = false ∧
        ∀ target, InTime inner target → InTime later target := nofun
  cases op with
  | addOneShot now expireIn callback | addRecurring expireAt period callback =>
    exact inv.requested (allocate_kept inv.books rfl) (quiet _ _)
  | remove id =>
    refine inv.requested (deallocate_kept inv.books undisturbed) fun unset => ?_
    exact ⟨unset, fun target inTime => inTime.deallocate⟩
  | enable id =>
    refine inv.requested (setEnabled_kept inv.books nofun) fun unset => ?_
    obtain ⟨missing, unset⟩ := Bool.or_eq_false_iff.mp unset
    refine ⟨unset, fun target inTime => ?_⟩
    cases finds : manager.inner.find id with
    | some timer => simp [finds] at missing
    | none => simpa only [setEnabled] using inTime
  | disable id =>
    refine inv.requested (setEnabled_kept inv.books fun _ => undisturbed) fun unset => ?_
    exact ⟨unset, fun target inTime => inTime.disable⟩
  | stop =>
    exact inv.requested ⟨{ inv.books with }, fun index unqueued => unqueued⟩ (quiet _ _)
  | iterate now =>
    rw [step]
    split
    · exact iterate_inv inv
    · exact inv
  | returned result now => exact returned_inv inv
  | check now =>
    rw [step, check]
    split
    · split
      · exact inv
      · exact inv.looping
    · exact inv
  | unparked =>
    rw [step, unparked]
    split
    · exact inv.looping
    · exact inv

theorem sleepEnd_le (ahead : now < target) : sleepEnd now target ≤ target := by
  rw [sleepEnd]
  split <;> omega

/-- Whenever the worker goes to sleep, no enabled timer is due, and the sleep ends of itself
before any of them expires. -/
theorem sleeps_in_time {ops : List (Op Callback)} (undisturbed : Along step Undisturbed {} ops)
    {now : Nat} {wakes : Option Nat} (asleep : (ops.foldl step {}).sleeps now = some wakes) :
    ∀ id timer, (ops.foldl step {}).inner.find id = some timer → timer.enabled = true →
      now < timer.nextExpiration ∧ ∃ wakeup, wakes = some wakeup ∧ wakeup ≤ timer.nextExpiration := by
  have inv : Inv (ops.foldl step ({} : TimerManager Callback)) :=
    undisturbed.keeps (fun manager op kept quiet => step_inv kept quiet) init_inv
  intro id timer finds enabled
  rw [sleeps] at asleep
  split at asleep
  next waits =>
    split at asleep
    · cases asleep
    next quiet =>
      obtain ⟨wakeup, none, -⟩ := inv.waiting _ waits (by simpa using quiet) id timer finds enabled
      cases none
  next target waits =>
    split at asleep
    · cases asleep
    next ahead =>
      obtain ⟨early, quiet⟩ := not_or.mp ahead
      obtain ⟨wakeup, same, below⟩ :=
        inv.waiting _ waits (by simpa using quiet) id timer finds enabled
      cases same
      have ends := sleepEnd_le (Nat.lt_of_not_le early)
      exact ⟨by omega, sleepEnd now target, (some.inj asleep).symm, by omega⟩
  · cases asleep

/-- A recurring timer is called while a one-shot one waits far off. -/
def oneRecurring : List (Op Unit) :=
  [.addRecurring 10 100 (), .addOneShot 0 500000 (), .iterate 20, .returned .continue 20,
    .iterate 20]

theorem one_recurring_sleeps_in_time :
    (oneRecurring.foldl step {}).sleeps 20 = some (some 110) ∧
      ∀ id timer, (oneRecurring.foldl step {}).inner.find id = some timer →
        timer.enabled = true → ∃ wakeup, some 110 = some wakeup ∧ wakeup ≤ timer.nextExpiration := by
  have asleep : (oneRecurring.foldl step {}).sleeps 20 = some (some 110) := by decide
  have undisturbed : Along step Undisturbed {} oneRecurring := by
    repeat' apply Along.cons
    all_goals first | exact Along.nil | trivial
  exact ⟨asleep, fun id timer finds enabled =>
    (sleeps_in_time undisturbed asleep id timer finds enabled).2⟩

/-- Three timers expire together; the second is removed while the first is being called. -/
def removedInFifo : List (Op Unit) :=
  [.addOneShot 0 10 (), .addOneShot 0 10 (), .addOneShot 0 10 (), .iterate 20,
    .remove ⟨1, 1⟩, .returned .continue 20, .iterate 20]

/-- The worker goes to sleep for ever while the third is enabled and overdue. -/
theorem removed_in_fifo_oversleeps :
    (removedInFifo.foldl step {}).sleeps 20 = some none ∧
      ((removedInFifo.foldl step {}).inner.find ⟨1, 2⟩).map
        (fun timer => (timer.enabled, timer.nextExpiration)) = some (true, 10) := by
  decide

end TimerManager

end Iris.Hptimer
