import Mathlib.Data.List.Basic
import Mathlib.Tactic.Ring

/-!
Owns singly linked lists threaded through a successor map: which nodes a walk
visits, the first node a search accepts together with its predecessor, and the
relinking that moves that node to the front.

A list is read from a head node by following `next` until the sentinel `nil`.
Nothing here fixes the node type or how `next` is stored.
-/

namespace Iris.Library.LinkedList

open List

variable {α : Type}

/-- Following `next` from `head` visits `nodes` in order and then stands at
`stop`. -/
def Segment (next : α → α) : α → List α → α → Prop
  | head, [], stop => head = stop
  | head, node :: rest, stop => head = node ∧ Segment next (next node) rest stop

variable {next : α → α} {head nil : α}

theorem segment_append :
    Segment next head (front ++ back) stop ↔
      ∃ middle, Segment next head front middle ∧ Segment next middle back stop := by
  induction front generalizing head with
  | nil => simp [Segment]
  | cons node rest inductionHypothesis =>
    simp only [cons_append, Segment, inductionHypothesis]
    constructor
    · rintro ⟨equal, middle, first, second⟩
      exact ⟨middle, ⟨equal, first⟩, second⟩
    · rintro ⟨middle, ⟨equal, first⟩, second⟩
      exact ⟨equal, middle, first, second⟩

/-- A walk depends on `next` at the visited nodes only. -/
theorem Segment.congr {next' : α → α} {stop : α} {nodes : List α}
    (segment : Segment next head nodes stop) (same : ∀ node ∈ nodes, next' node = next node) :
    Segment next' head nodes stop := by
  induction nodes generalizing head with
  | nil => exact segment
  | cons node rest inductionHypothesis =>
    obtain ⟨equal, tail⟩ := segment
    refine ⟨equal, ?_⟩
    rw [same node (by simp)]
    exact inductionHypothesis tail (forall_mem_cons.mp same).2

/-- The nodes of the list that starts at `head` and ends at the sentinel. -/
structure Threads (next : α → α) (nil head : α) (nodes : List α) : Prop where
  segment : Segment next head nodes nil
  noSentinel : nil ∉ nodes

/-! ### Searching -/

section Search

variable [DecidableEq α]

/-- Follow `next` from `cur` to the first node `hit` accepts and return it with
the node before it, or `none` at the sentinel. The outer `none` is a walk that
is longer than the fuel. -/
def search (next : α → α) (nil : α) (hit : α → Bool) :
    Nat → α → α → Option (Option (α × α))
  | 0, _, _ => none
  | fuel + 1, prev, cur =>
    if cur = nil then some none
    else if hit cur then some (some (prev, cur))
    else search next nil hit fuel cur (next cur)

/-- The node a search returns is one `hit` accepts. -/
theorem search_accepted {hit : α → Bool} {prev : α}
    (found : search next nil hit fuel start cur = some (some (prev, target))) :
    hit target = true := by
  induction fuel generalizing start cur with
  | zero => cases found
  | succ fuel inductionHypothesis =>
    unfold search at found
    split at found
    · cases found
    · split at found
      next accepted =>
        cases found
        exact accepted
      · exact inductionHypothesis found

/-- A search result over `nodes`: nothing is accepted, or the accepted node is
the first such one and `prev` is the node before it. -/
def SearchResult (hit : α → Bool) (start : α) (nodes : List α) :
    Option (α × α) → Prop
  | none => ∀ node ∈ nodes, hit node = false
  | some (prev, target) => ∃ before after, nodes = before ++ target :: after ∧
      (∀ node ∈ before, hit node = false) ∧ hit target = true ∧
      prev = before.getLastD start

theorem search_threads (hit : α → Bool) (start : α) (threads : Threads next nil head nodes)
    (enough : nodes.length < fuel) :
    ∃ result, search next nil hit fuel start head = some result ∧
      SearchResult hit start nodes result := by
  obtain ⟨segment, noSentinel⟩ := threads
  induction nodes generalizing fuel start head with
  | nil =>
    obtain ⟨fuel, rfl⟩ := Nat.exists_eq_add_one_of_ne_zero (Nat.ne_zero_of_lt enough)
    have atEnd : head = nil := segment
    exact ⟨none, by simp [search, atEnd], by simp [SearchResult]⟩
  | cons node rest inductionHypothesis =>
    obtain ⟨fuel, rfl⟩ := Nat.exists_eq_add_one_of_ne_zero (Nat.ne_zero_of_lt enough)
    obtain ⟨rfl, tail⟩ := segment
    have notSentinel : head ≠ nil := fun equal => noSentinel (by simp [equal])
    by_cases accepted : hit head = true
    · refine ⟨some (start, head), by simp [search, notSentinel, accepted], [], rest, ?_⟩
      simp [accepted]
    have rejected : hit head = false := by simpa using accepted
    have restEnough : rest.length < fuel := Nat.lt_of_succ_lt_succ enough
    obtain ⟨result, found, spec⟩ := inductionHypothesis head restEnough tail
      fun member => noSentinel (by simp [member])
    refine ⟨result, by simp [search, notSentinel, rejected, found], ?_⟩
    match result, spec with
    | none, spec =>
      intro other member
      rcases mem_cons.mp member with rfl | member
      · exact rejected
      · exact spec other member
    | some (prev, target), ⟨before, after, split, missed, taken, last⟩ =>
      refine ⟨head :: before, after, by simp [split], ?_, taken, ?_⟩
      · intro other member
        rcases mem_cons.mp member with rfl | member
        · exact rejected
        · exact missed other member
      · rw [last, getLastD_cons]

/-- A search stops at the first accepted node. -/
theorem search_first {hit : α → Bool} {before after : List α}
    (threads : Threads next nil head (before ++ target :: after))
    (missed : ∀ node ∈ before, hit node = false) (taken : hit target = true)
    (enough : (before ++ target :: after).length < fuel) (start : α) :
    ∃ prev, search next nil hit fuel start head = some (some (prev, target)) := by
  have first {front : List α} (back : List α) {node : α} (missed : ∀ other ∈ front, hit other = false)
      (taken : hit node = true) : (front ++ node :: back).find? hit = some node := by
    rw [find?_append, find?_eq_none.mpr fun other member => by simp [missed other member],
      Option.none_or, find?_cons_of_pos taken]
  obtain ⟨result, found, spec⟩ := search_threads hit start threads enough
  match result, spec with
  | none, spec => exact absurd (taken.symm.trans (spec target (by simp))) nofun
  | some (prev, other), ⟨front, back, split, missed', taken', _⟩ =>
    have same := first after missed taken
    rw [split, first back missed' taken'] at same
    exact ⟨prev, Option.some.inj same ▸ found⟩

end Search

/-! ### Moving a node to the front -/

section MoveToFront

variable [DecidableEq α]

/-- Unlink `target`, whose predecessor is `prev`, and relink it before `head`. -/
def relink (next : α → α) (head target prev : α) : α → α :=
  Function.update (Function.update next prev (next target)) target head

theorem relink_threads {before after : List α} {prev : α}
    (threads : Threads next nil head (before ++ prev :: target :: after))
    (nodup : (before ++ prev :: target :: after).Nodup) :
    Threads (relink next head target prev) nil target
      (target :: (before ++ prev :: after)) := by
  obtain ⟨segment, noSentinel⟩ := threads
  obtain ⟨middle, front, equal, equal', back⟩ := segment_append.mp segment
  subst equal
  have targetApart : target ∉ before ∧ target ≠ middle ∧ target ∉ after := by
    simp only [nodup_append, nodup_cons, mem_cons] at nodup
    refine ⟨fun member => nodup.2.2 target member target (by simp) rfl, ?_, nodup.2.1.2.1⟩
    rintro rfl
    exact nodup.2.1.1 (by simp)
  have prevApart : middle ∉ before ∧ middle ∉ after := by
    simp only [nodup_append, nodup_cons, mem_cons] at nodup
    exact ⟨fun member => nodup.2.2 middle member middle (by simp) rfl,
      fun member => nodup.2.1.1 (by simp [member])⟩
  have unchanged : ∀ node, node ≠ target → node ≠ middle →
      relink next head target middle node = next node := by
    intro node notTarget notPrev
    simp [relink, notTarget, notPrev]
  refine ⟨⟨rfl, ?_⟩, ?_⟩
  · rw [show relink next head target middle target = head by simp [relink]]
    refine segment_append.mpr ⟨middle, front.congr fun node member => ?_, rfl, ?_⟩
    · exact unchanged node (fun same => targetApart.1 (same ▸ member))
        fun same => prevApart.1 (same ▸ member)
    · rw [show relink next head target middle middle = next target by
        simp [relink, Ne.symm targetApart.2.1]]
      exact back.congr fun node member =>
        unchanged node (fun same => targetApart.2.2 (same ▸ member))
          fun same => prevApart.2 (same ▸ member)
  · intro member
    apply noSentinel
    simp only [mem_cons, mem_append] at member ⊢
    tauto

end MoveToFront

end Iris.Library.LinkedList
