import Iris.Hostcall.Dispatch
import Mathlib.Data.Finset.Card

/-!
Owns one attempt at a call as a walk over what the routine touches: the pages it
reads and the pieces it writes, in order. What is done is passed over, and the
walk ends at the first page that is not usable.
-/

namespace Iris.Hostcall

open List

/-- A stretch read, by its start, or a piece written. -/
inductive Touch
  | read (start : Nat)
  | store (piece : Piece)

open Touch

namespace Touch

def addr : Touch → Nat
  | .read start => start
  | .store piece => piece.addr

def isWrite : Touch → Bool
  | .read _ => false
  | .store _ => true

def fault (touch : Touch) : Fault :=
  if 2 ^ 64 ≤ touch.addr then ⟨0, touch.isWrite⟩ else ⟨pageOf touch.addr, touch.isWrite⟩

def InRange (touch : Touch) : Prop := touch.addr < 2 ^ 64

instance : DecidablePred InRange := fun touch => inferInstanceAs (Decidable (touch.addr < 2 ^ 64))

def Recorded (progress : InFlight) : Touch → Prop
  | .read start => (progress.pages (pageOf start)).isSome = true
  | .store piece => piece.addr ∈ progress.written

def Done (progress : InFlight) (touch : Touch) : Prop :=
  touch.InRange ∧ touch.Recorded progress

def make (touch : Touch) (progress : InFlight) (access : Access) :
    Except Fault (InFlight × Access) :=
  if 2 ^ 64 ≤ touch.addr then .error ⟨0, touch.isWrite⟩
  else
    match touch with
    | .read start => (progress.page access (pageOf start)).map fun (_, progress) => (progress, access)
    | .store piece =>
      if piece.addr ∈ progress.written then .ok (progress, access)
      else (access.writeInPage piece).map fun access =>
        ({ progress with written := insert piece.addr progress.written }, access)

end Touch

def walk : List Touch → InFlight → Access → Option Fault × InFlight × Access
  | [], progress, access => (none, progress, access)
  | touch :: rest, progress, access =>
    match touch.make progress access with
    | .error fault => (some fault, progress, access)
    | .ok (progress, access) => walk rest progress access

theorem walk_append (first second : List Touch) (progress : InFlight) (access : Access) :
    walk (first ++ second) progress access =
      match walk first progress access with
      | (some fault, progress, access) => (some fault, progress, access)
      | (none, progress, access) => walk second progress access := by
  induction first generalizing progress access with
  | nil => rfl
  | cons touch rest inductionHypothesis =>
    rw [cons_append, walk, walk]
    cases touch.make progress access with
    | error fault => rfl
    | ok made => exact inductionHypothesis made.1 made.2

/-- The page can be used for what it is asked for. -/
def Access.Usable (access : Access) (fault : Fault) : Prop :=
  (if fault.write then access.writable fault.page else access.readable fault.page) = true

/-! ### What one touch does -/

section Make
variable {touch : Touch} {progress progress' : InFlight} {access access' : Access}

theorem Touch.make_beyond (touch : Touch) (beyond : 2 ^ 64 ≤ touch.addr) :
    touch.make progress access = .error ⟨0, touch.isWrite⟩ :=
  if_pos beyond

theorem Touch.make_read (below : ¬2 ^ 64 ≤ start) :
    (read start).make progress access =
      (progress.page access (pageOf start)).map fun (_, progress) => (progress, access) :=
  if_neg below

theorem Touch.make_recorded (below : ¬2 ^ 64 ≤ piece.addr)
    (recorded : piece.addr ∈ progress.written) :
    (store piece).make progress access = .ok (progress, access) :=
  (if_neg below).trans (if_pos recorded)

theorem Touch.make_store (below : ¬2 ^ 64 ≤ piece.addr) (fresh : piece.addr ∉ progress.written) :
    (store piece).make progress access = (access.writeInPage piece).map fun access =>
      ({ progress with written := insert piece.addr progress.written }, access) :=
  (if_neg below).trans (if_neg fresh)

theorem Touch.Done.make (done : touch.Done progress) :
    touch.make progress access = .ok (progress, access) := by
  obtain ⟨inRange, recorded⟩ := done
  have below : ¬2 ^ 64 ≤ touch.addr := not_le.mpr inRange
  cases touch with
  | read start =>
    obtain ⟨held, present⟩ := Option.isSome_iff_exists.mp recorded
    simp only [make, if_neg below, InFlight.page, present, Except.map]
  | store piece =>
    simp only [make, if_neg below]
    exact if_pos recorded

theorem Touch.make_of_usable (inRange : touch.InRange) (usable : access.Usable touch.fault) :
    ∃ progress' access', touch.make progress access = .ok (progress', access') := by
  have below : ¬2 ^ 64 ≤ touch.addr := not_le.mpr inRange
  rw [fault, if_neg below] at usable
  cases touch with
  | read start =>
    simp only [Access.Usable, isWrite, addr, Bool.false_eq_true, if_false] at usable
    simp only [make, if_neg below, InFlight.page, Access.readPage, usable]
    split <;> exact ⟨_, _, rfl⟩
  | store piece =>
    simp only [Access.Usable, isWrite, addr, if_true] at usable
    simp only [make, if_neg below, Access.writeInPage, usable]
    split <;> exact ⟨_, _, rfl⟩

/-- What a touch that was made leaves. -/
structure Made (touch : Touch) (progress progress' : InFlight) (access access' : Access) :
    Prop where
  key : progress'.key = progress.key
  done : touch.Done progress'
  pages : ∀ page held, progress.pages page = some held → progress'.pages page = some held
  read : ∀ page, progress.pages page = none → ∀ held, progress'.pages page = some held →
    touch = .read touch.addr ∧ page = pageOf touch.addr ∧ held = fun off => access.mem (page + off)
  written : (access'.stored = access.stored ∧ progress'.written = progress.written ∧
      access'.mem = access.mem) ∨
    ∃ piece, touch = .store piece ∧ piece.addr ∉ progress.written ∧
      access'.stored = access.stored ++ [piece] ∧
      progress'.written = insert piece.addr progress.written ∧
      access'.mem = piece.storeIn access.mem

theorem Touch.made (made : touch.make progress access = .ok (progress', access')) :
    Made touch progress progress' access access' := by
  unfold make at made
  split at made
  · cases made
  next below =>
    have inRange : touch.InRange := not_le.mp below
    cases touch with
    | read start =>
      simp only [InFlight.page] at made
      split at made
      next held present =>
        cases made
        exact ⟨rfl, ⟨inRange, by simp [Recorded, present]⟩, fun _ _ same => same,
          fun _ absent _ present => (nomatch absent.symm.trans present), .inl ⟨rfl, rfl, rfl⟩⟩
      next absent =>
        cases read : access.readPage (pageOf start) with
        | error fault =>
          rw [read] at made
          cases made
        | ok bytes =>
          rw [read] at made
          cases made
          have shown : bytes = fun off => access.mem (pageOf start + off) := by
            unfold Access.readPage at read
            split at read
            · cases read
              rfl
            · cases read
          refine ⟨rfl, ⟨inRange, by simp [Recorded]⟩, fun page held same => ?_,
            fun page _ held present => ?_, .inl ⟨rfl, rfl, rfl⟩⟩
          · have other : page ≠ pageOf start := by
              rintro rfl
              cases absent.symm.trans same
            simpa [other] using same
          · dsimp only at present
            split at present
            next here =>
              cases present
              exact ⟨rfl, here, here ▸ shown⟩
            next absent' _ => cases absent'.symm.trans present
    | store piece =>
      dsimp only at made
      split at made
      next recorded =>
        cases made
        exact ⟨rfl, ⟨inRange, recorded⟩, fun _ _ same => same,
          fun _ absent _ present => (nomatch absent.symm.trans present), .inl ⟨rfl, rfl, rfl⟩⟩
      next fresh =>
        unfold Access.writeInPage at made
        split at made
        · cases made
          exact ⟨rfl, ⟨inRange, Finset.mem_insert_self _ _⟩, fun _ _ same => same,
            fun _ absent _ present => (nomatch absent.symm.trans present),
            .inr ⟨piece, rfl, fresh, rfl, rfl, rfl⟩⟩
        · cases made

theorem Touch.fault_of_error {fault : Fault} (refused : touch.make progress access = .error fault) :
    fault = touch.fault ∧ ¬touch.Done progress := by
  constructor
  · unfold make at refused
    rw [Touch.fault]
    split at refused
    next beyond =>
      rw [if_pos beyond]
      exact (Except.error.inj refused).symm
    next below =>
      rw [if_neg below]
      cases touch with
      | read start =>
        simp only [InFlight.page] at refused
        split at refused
        · cases refused
        · unfold Access.readPage at refused
          by_cases readable : access.readable (pageOf start) = true
          · simp [readable, Except.map] at refused
          · simp only [readable, Bool.false_eq_true, if_false] at refused
            exact (Except.error.inj refused).symm
      | store piece =>
        simp only [Access.writeInPage] at refused
        split at refused
        · cases refused
        · split at refused
          · cases refused
          · exact (Except.error.inj refused).symm
  · intro done
    rw [done.make] at refused
    cases refused

theorem Touch.Done.mono (done : touch.Done progress)
    (pages : ∀ page held, progress.pages page = some held → progress'.pages page = some held)
    (written : progress.written ⊆ progress'.written) : touch.Done progress' := by
  refine ⟨done.1, ?_⟩
  cases touch with
  | read start =>
    obtain ⟨held, present⟩ := Option.isSome_iff_exists.mp done.2
    exact Option.isSome_iff_exists.mpr ⟨held, pages _ held present⟩
  | store piece => exact written done.2

end Make

/-! ### What a walk does -/

section Walk
variable {touches : List Touch} {progress progress' : InFlight} {access access' : Access}

inductive Touched : InFlight → Access → InFlight → Access → Prop
  | refl (progress : InFlight) (access : Access) : Touched progress access progress access
  | head {touch : Touch} {progress between progress' : InFlight} {access access₁ access' : Access}
      (made : Made touch progress between access access₁)
      (rest : Touched between access₁ progress' access') : Touched progress access progress' access'

theorem Touched.trans {between : InFlight} {access₁ : Access}
    (first : Touched progress access between access₁)
    (rest : Touched between access₁ progress' access') :
    Touched progress access progress' access' := by
  induction first with
  | refl => exact rest
  | head made _ inductionHypothesis => exact .head made (inductionHypothesis rest)

theorem Touched.key (touched : Touched progress access progress' access') :
    progress'.key = progress.key := by
  induction touched with
  | refl => rfl
  | head made _ inductionHypothesis => exact inductionHypothesis.trans made.key

theorem Touched.pages (touched : Touched progress access progress' access') :
    ∀ page held, progress.pages page = some held → progress'.pages page = some held := by
  induction touched with
  | refl => exact fun _ _ same => same
  | head made _ inductionHypothesis =>
    exact fun page held same => inductionHypothesis page held (made.pages page held same)

/-- What a walk leaves, however it ends: more progress, and for each piece stored
its start, which was not recorded before. -/
structure Walked (touches : List Touch) (progress progress' : InFlight) (access access' : Access) :
    Prop where
  touched : Touched progress access progress' access'
  stored : ∃ new : List Piece, access'.stored = access.stored ++ new ∧
    (∀ addr, addr ∈ progress'.written ↔ addr ∈ progress.written ∨ addr ∈ new.map Piece.addr) ∧
    (new.map Piece.addr).Nodup ∧
    ∀ piece ∈ new, piece.addr ∉ progress.written ∧ .store piece ∈ touches

theorem Walked.written (walked : Walked touches progress progress' access access') :
    progress.written ⊆ progress'.written := by
  obtain ⟨new, -, written, -⟩ := walked.stored
  exact fun addr member => (written addr).mpr (.inl member)

theorem Touch.Done.walked {touch : Touch} (done : touch.Done progress)
    (walked : Walked touches progress progress' access access') : touch.Done progress' :=
  done.mono walked.touched.pages walked.written

theorem Walked.refl (touches : List Touch) (progress : InFlight) (access : Access) :
    Walked touches progress progress access access :=
  ⟨.refl _ _, [], by simp, by simp, by simp, by simp⟩

theorem Walked.cons (made : Made touch progress between access access₁)
    (walked : Walked touches between progress' access₁ access') :
    Walked (touch :: touches) progress progress' access access' := by
  refine ⟨.head made walked.touched, ?_⟩
  obtain ⟨new, stored, written, distinct, fresh⟩ := walked.stored
  rcases made.written with ⟨sameStored, sameWritten, -⟩ | ⟨piece, rfl, unwritten, more, grown, -⟩
  · refine ⟨new, by rw [stored, sameStored], fun addr => by rw [written, sameWritten], distinct,
      fun piece member => ?_⟩
    obtain ⟨before, among⟩ := fresh piece member
    exact ⟨sameWritten ▸ before, mem_cons_of_mem _ among⟩
  · refine ⟨piece :: new, by rw [stored, more, append_assoc]; rfl, fun addr => ?_, ?_, ?_⟩
    · rw [written, grown, Finset.mem_insert, map_cons, mem_cons]
      constructor
      · rintro ((here | before) | later)
        · exact .inr (.inl here)
        · exact .inl before
        · exact .inr (.inr later)
      · rintro (before | here | later)
        · exact .inl (.inr before)
        · exact .inl (.inl here)
        · exact .inr later
    · rw [map_cons, nodup_cons]
      refine ⟨fun twice => ?_, distinct⟩
      obtain ⟨other, member, same⟩ := mem_map.mp twice
      apply (fresh other member).1
      rw [grown, same]
      exact Finset.mem_insert_self _ _
    · intro other member
      rcases mem_cons.mp member with rfl | later
      · exact ⟨unwritten, mem_cons_self⟩
      · obtain ⟨before, among⟩ := fresh other later
        refine ⟨fun recorded => before ?_, mem_cons_of_mem _ among⟩
        rw [grown]
        exact Finset.mem_insert_of_mem recorded

theorem walk_walked (touches : List Touch) (progress : InFlight) (access : Access) :
    Walked touches progress (walk touches progress access).2.1 access
      (walk touches progress access).2.2 := by
  induction touches generalizing progress access with
  | nil => exact .refl _ _ _
  | cons touch rest inductionHypothesis =>
    rw [walk]
    cases made : touch.make progress access with
    | error fault => exact .refl _ _ _
    | ok result => exact .cons (Touch.made made) (inductionHypothesis result.1 result.2)

theorem walk_done (ended : (walk touches progress access).1 = none) :
    ∀ touch ∈ touches, touch.Done (walk touches progress access).2.1 := by
  induction touches generalizing progress access with
  | nil => simp
  | cons touch rest inductionHypothesis =>
    rw [walk] at ended ⊢
    cases made : touch.make progress access with
    | error fault =>
      rw [made] at ended
      cases ended
    | ok result =>
      rw [made] at ended
      intro other member
      rcases mem_cons.mp member with rfl | later
      · exact (Touch.made made).done.walked (walk_walked rest result.1 result.2)
      · exact inductionHypothesis ended other later

/-- A walk that stops has done what came before, and asks for the page of the
touch it stopped at. -/
theorem walk_fault {fault : Fault} (stopped : (walk touches progress access).1 = some fault) :
    ∃ before touch after, touches = before ++ touch :: after ∧
      (∀ other ∈ before, other.Done (walk touches progress access).2.1) ∧
      ¬touch.Done (walk touches progress access).2.1 ∧ fault = touch.fault := by
  induction touches generalizing progress access with
  | nil => cases stopped
  | cons touch rest inductionHypothesis =>
    rw [walk] at stopped ⊢
    cases made : touch.make progress access with
    | error fault' =>
      rw [made] at stopped
      cases stopped
      obtain ⟨asked, undone⟩ := fault_of_error made
      exact ⟨[], touch, rest, rfl, by simp, undone, asked⟩
    | ok result =>
      rw [made] at stopped
      obtain ⟨before, other, after, split, done, undone, asked⟩ := inductionHypothesis stopped
      refine ⟨touch :: before, other, after, by rw [split]; rfl, ?_, undone, asked⟩
      intro earlier member
      rcases mem_cons.mp member with rfl | later
      · exact (Touch.made made).done.walked (walk_walked rest result.1 result.2)
      · exact done earlier later

theorem walk_past (done : ∀ touch ∈ before, touch.Done progress) (rest : List Touch)
    (access : Access) :
    walk (before ++ rest) progress access = walk rest progress access := by
  induction before with
  | nil => rfl
  | cons touch later inductionHypothesis =>
    rw [cons_append, walk, (done touch (by simp)).make]
    exact inductionHypothesis (forall_mem_cons.mp done).2

/-- With the page it asked for usable, the next walk does the touch the last one
stopped at. -/
theorem walk_progresses {fault : Fault} (stopped : (walk touches progress access).1 = some fault)
    (usable : later.Usable fault) (inRange : ∀ touch ∈ touches, touch.InRange) :
    ∃ touch ∈ touches, ¬touch.Done (walk touches progress access).2.1 ∧
      touch.Done (walk touches (walk touches progress access).2.1 later).2.1 := by
  obtain ⟨before, touch, after, split, done, undone, rfl⟩ := walk_fault stopped
  have member : touch ∈ touches := by simp [split]
  refine ⟨touch, member, undone, ?_⟩
  generalize (walk touches progress access).2.1 = reached at done undone
  rw [split, walk_past done, walk]
  obtain ⟨progress', access', made⟩ :=
    make_of_usable (inRange touch member) usable
  rw [made]
  exact (Touch.made made).done.walked (walk_walked after progress' access')

end Walk

end Iris.Hostcall
