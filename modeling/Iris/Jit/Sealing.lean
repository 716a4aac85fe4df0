import Iris.Jit.PagedMemory
import Iris.Library.Run

/-!
Owns sealing: whatever the handles' interleaving, the ranges not yet reported abut from
the sealed mark to the bump cursor, so that what is sealed is finished and what is
finished is reported once, in order.
-/

namespace Iris.Jit

open Library.Run SharedArena List Record

variable {Info : Type}

variable {align : Nat}

theorem le_alignUp (addr : Nat) (positive : 0 < align) : addr ≤ alignUp addr align := by
  have split := Nat.div_add_mod' (addr + align - 1) align
  have rest := Nat.mod_lt (addr + align - 1) positive
  unfold alignUp
  omega

/-! ### Ranges that abut -/

/-- The ranges lie end to end from `base` to `limit`, and none is empty. -/
def Chain : Nat → List (Record Info) → Nat → Prop
  | base, [], limit => base = limit
  | base, record :: rest, limit =>
    record.start = base ∧ record.start < record.stop ∧ Chain record.stop rest limit

section Chain
variable {base limit : Nat} {record : Record Info} {records first second : List (Record Info)}

theorem Chain.append : Chain base (first ++ second) limit ↔
    ∃ middle, Chain base first middle ∧ Chain middle second limit := by
  induction first generalizing base with
  | nil => exact ⟨fun chain => ⟨base, rfl, chain⟩, fun ⟨_, same, chain⟩ => same ▸ chain⟩
  | cons record rest inductionHypothesis =>
    constructor
    · rintro ⟨start, nonempty, chain⟩
      obtain ⟨middle, early, late⟩ := inductionHypothesis.mp chain
      exact ⟨middle, ⟨start, nonempty, early⟩, late⟩
    · rintro ⟨middle, ⟨start, nonempty, early⟩, late⟩
      exact ⟨start, nonempty, inductionHypothesis.mpr ⟨middle, early, late⟩⟩

section
variable (chain : Chain base records limit)
include chain

theorem Chain.le : base ≤ limit := by
  induction records generalizing base with
  | nil => exact Nat.le_of_eq chain
  | cons record rest inductionHypothesis =>
    obtain ⟨rfl, nonempty, chain⟩ := chain
    exact Nat.le_trans (Nat.le_of_lt nonempty) (inductionHypothesis chain)

theorem Chain.within (member : record ∈ records) :
    base ≤ record.start ∧ record.start < record.stop ∧ record.stop ≤ limit := by
  induction records generalizing base with
  | nil => cases member
  | cons head rest inductionHypothesis =>
    obtain ⟨rfl, nonempty, chain⟩ := chain
    rcases mem_cons.mp member with rfl | later
    · exact ⟨Nat.le_refl _, nonempty, chain.le⟩
    · obtain ⟨after, inside, before⟩ := inductionHypothesis chain later
      exact ⟨by omega, inside, before⟩

theorem Chain.pairwise : records.Pairwise fun one other => one.stop ≤ other.start := by
  induction records generalizing base with
  | nil => exact Pairwise.nil
  | cons head rest inductionHypothesis =>
    obtain ⟨-, -, chain⟩ := chain
    exact Pairwise.cons (fun other member => (chain.within member).1)
      (inductionHypothesis chain)

end

theorem Chain.limit_le (chain : Chain base records limit) (begins : base ≤ mark)
    (below : ∀ record ∈ records, record.stop ≤ mark) : limit ≤ mark := by
  induction records generalizing base with
  | nil => exact chain ▸ begins
  | cons head rest inductionHypothesis =>
    obtain ⟨-, -, chain⟩ := chain
    exact inductionHypothesis chain (below head (by simp)) (forall_mem_cons.mp below).2

end Chain

/-! ### The queue -/

def Record.entry (record : Record Info) : SealEntry Info :=
  ⟨record.start, record.stop, record.publish⟩

/-- The queue there is for ranges still to be reported. -/
def queueOf (pending : List (Record Info)) : List (SealEntry Info) :=
  (pending.filter pushed).map entry

variable {entry : SealEntry Info}

section Queue
variable {base limit mark : Nat} {pending : List (Record Info)}

theorem queueOf_append (first second : List (Record Info)) :
    queueOf (first ++ second) = queueOf first ++ queueOf second := by
  simp [queueOf]

variable {queue : List (SealEntry Info)}

theorem popSealed_none (above : ∀ entry ∈ queue, mark < entry.stop) :
    popSealed mark queue = ([], queue) := by
  cases queue with
  | nil => rfl
  | cons front rest =>
    rw [popSealed]
    split
    · rfl
    · rw [if_pos (above front (by simp))]

/-- Nothing is taken where the first range ends past the mark. -/
theorem popSealed_above (chain : Chain base pending limit)
    (above : ∀ head tail, pending = head :: tail → mark < head.stop) :
    popSealed mark (queueOf pending) = ([], queueOf pending) := by
  apply popSealed_none
  intro entry member
  obtain ⟨record, among, rfl⟩ := mem_map.mp member
  have among := mem_of_mem_filter among
  cases pending with
  | nil => cases among
  | cons head tail =>
    have beyond := above head tail rfl
    obtain ⟨-, -, chain⟩ := chain
    rcases mem_cons.mp among with rfl | later
    · exact beyond
    · have inside := chain.within later
      change mark < record.stop
      omega

/-! ### How far the queue is finished -/

/-- Where no range starts below, the first one may straddle nothing. -/
theorem readyPast_eq_readyEnd (beyond : ∀ entry ∈ queue, base ≤ entry.start) :
    readyPast base queue = readyEnd base queue := by
  cases queue with
  | nil => rfl
  | cons front rest =>
    have start : front.start = base ↔ front.start ≤ base := by
      have := beyond front (by simp)
      omega
    rw [readyPast, readyEnd]
    simp only [start]

theorem readyEnd_gap (gap : ∀ entry ∈ queue, mark < entry.start) : readyEnd mark queue = mark := by
  cases queue with
  | nil => rfl
  | cons front rest =>
    have beyond := gap front (by simp)
    have elsewhere : ¬front.start ≤ mark := by omega
    rw [readyEnd, if_neg elsewhere, ite_self]

theorem queueOf_beyond (chain : Chain base pending limit) (member : entry ∈ queueOf pending) :
    base ≤ entry.start := by
  obtain ⟨record, among, rfl⟩ := mem_map.mp member
  exact (chain.within (mem_of_mem_filter among)).1

theorem queueOf_cons_pushed (pushed : record.pushed = true) :
    queueOf (record :: pending) = record.entry :: queueOf pending := by
  rw [queueOf, filter_cons_of_pos pushed]
  rfl

theorem queueOf_cons_unpushed (unpushed : record.pushed = false) :
    queueOf (record :: pending) = queueOf pending := by
  rw [queueOf, filter_cons_of_neg (by simp [unpushed])]
  rfl

/-- From `mark` on the ranges are finished up to `ready`: past no unfinished one, and up to
`limit` where there is none. -/
structure Ready (mark limit ready : Nat) (pending : List (Record Info)) : Prop where
  grown : mark ≤ ready
  unfinished : ∀ record ∈ pending, record.publish = none → ready ≤ record.start
  complete : (∀ record ∈ pending, record.publish.isSome = true) → ready = limit

section
variable {head : Record Info} {rest : List (Record Info)} {ready : Nat}

theorem Ready.stopped (chain : Chain base (head :: rest) limit) (publish : head.publish = none)
    (here : mark ≤ head.start) : Ready mark limit mark (head :: rest) where
  grown := Nat.le_refl _
  unfinished record member _ := by
    have inside := (chain.within member).1
    have first := chain.1
    omega
  complete all := by
    have finished := all head (by simp)
    simp [publish] at finished

theorem Ready.past (publish : head.publish = some info) (beyond : mark ≤ head.stop)
    (later : Ready head.stop limit ready rest) : Ready mark limit ready (head :: rest) where
  grown := Nat.le_trans beyond later.grown
  unfinished record member none := by
    rcases mem_cons.mp member with rfl | behind
    · cases publish.symm.trans none
    · exact later.unfinished record behind none
  complete all := later.complete (forall_mem_cons.mp all).2

end

variable (chain : Chain base pending limit)
  (status : ∀ record ∈ pending, record.publish.isSome = true → record.pushed = true)
include chain status

/-- Taking what is finished off the queue takes the first ranges, as far as they lie below
the mark, if the mark passes no unfinished range. -/
theorem popSealed_spec (clear : ∀ record ∈ pending, record.publish = none → mark ≤ record.start) :
    ∃ taken rest, pending = taken ++ rest ∧
      (popSealed mark (queueOf pending)).1.map some = taken.map publish ∧
      (popSealed mark (queueOf pending)).2 = queueOf rest ∧
      (∀ record ∈ taken, record.publish.isSome = true ∧ record.stop ≤ mark) ∧
      ∀ head tail, rest = head :: tail → mark < head.stop := by
  induction pending generalizing base with
  | nil => exact ⟨[], [], rfl, rfl, rfl, by simp, by simp⟩
  | cons head rest inductionHypothesis =>
    have whole := chain
    obtain ⟨start, nonempty, chain⟩ := chain
    by_cases above : mark < head.stop
    · have first : ∀ head' tail, head :: rest = head' :: tail → mark < head'.stop := by
        rintro _ _ same
        cases same
        exact above
      rw [popSealed_above whole first]
      exact ⟨[], head :: rest, rfl, rfl, rfl, by simp, first⟩
    · cases publish : head.publish with
      | none =>
        have passed := clear head (by simp) publish
        omega
      | some info =>
        have pushed := status head (by simp) (by simp [publish])
        obtain ⟨taken, rest', split, infos, queue, finished, beyond⟩ :=
          inductionHypothesis chain (forall_mem_cons.mp status).2 (forall_mem_cons.mp clear).2
        have popped : popSealed mark (queueOf (head :: rest)) =
            (info :: (popSealed mark (queueOf rest)).1, (popSealed mark (queueOf rest)).2) := by
          rw [queueOf, filter_cons_of_pos pushed, map_cons, popSealed]
          simp only [entry, publish, if_neg above]
          rfl
        rw [popped]
        refine ⟨head :: taken, rest', by rw [split]; rfl, ?_, queue, ?_, beyond⟩
        · rw [map_cons, map_cons, infos, publish]
        · intro record member
          rcases mem_cons.mp member with rfl | later
          · exact ⟨by simp [publish], by omega⟩
          · exact finished record later

/-- The queue is finished up to its first unfinished or missing range. -/
theorem readyEnd_spec (reached : base ≤ mark)
    (straddles : ∀ head tail, pending = head :: tail →
      mark < head.stop ∧ (head.publish = none → mark ≤ head.start)) :
    Ready mark (max limit mark) (readyEnd mark (queueOf pending)) pending := by
  induction pending generalizing base mark with
  | nil => exact ⟨Nat.le_refl _, by simp, fun _ => (Nat.max_eq_right (chain ▸ reached)).symm⟩
  | cons head rest inductionHypothesis =>
    obtain ⟨beyond, unfinished⟩ := straddles head rest rfl
    have inside := (chain.within mem_cons_self).2.2
    rw [Nat.max_eq_left (by omega)]
    have whole := chain
    obtain ⟨start, nonempty, chain⟩ := chain
    cases publish : head.publish with
    | none =>
      have ready : readyEnd mark (queueOf (head :: rest)) = mark := by
        cases pushed : head.pushed with
        | true =>
          rw [queueOf_cons_pushed pushed, readyEnd]
          simp [entry, publish]
        | false =>
          rw [queueOf_cons_unpushed pushed]
          apply readyEnd_gap
          intro entry member
          have later := queueOf_beyond chain member
          omega
      rw [ready]
      exact .stopped whole publish (unfinished publish)
    | some info =>
      have pushed := status head (by simp) (by simp [publish])
      have ready : readyEnd mark (queueOf (head :: rest)) = readyEnd head.stop (queueOf rest) := by
        have further : max head.stop mark = head.stop := by omega
        have covered : head.start ≤ mark := by omega
        rw [queueOf_cons_pushed pushed, readyEnd,
          ← readyPast_eq_readyEnd fun entry => queueOf_beyond chain]
        simp [entry, publish, covered, further]
      rw [ready]
      refine .past publish (by omega) ?_
      rw [← Nat.max_eq_left chain.le]
      apply inductionHypothesis chain (forall_mem_cons.mp status).2 (Nat.le_refl _)
      rintro next tail rfl
      obtain ⟨adjacent, nonempty, -⟩ := chain
      omega

end Queue

/-! ### The pool -/

namespace Pool
variable {Handle : Type} {pool : Pool Handle Info}

/-- The ranges reported lie below the mark. Those still to be reported abut from there to
where the next range will start, and the queue holds those of them that were queued. -/
structure Inv (pool : Pool Handle Info) (done pending : List (Record Info)) : Prop where
  page : 0 < pool.arena.page
  log : pool.log = done ++ pending
  reported : pool.reported.map some = done.map publish
  finished : ∀ record ∈ done, record.publish.isSome = true ∧ record.start < record.stop
  ordered : done.Pairwise fun one other => one.stop ≤ other.start
  chain : ∃ base ≤ pool.arena.sealedUpTo, (∀ record ∈ done, record.stop ≤ base) ∧
    Chain base pending (max pool.arena.position pool.arena.sealedUpTo)
  straddles : ∀ head tail, pending = head :: tail → pool.arena.sealedUpTo < head.stop ∧
    (head.publish = none → pool.arena.sealedUpTo ≤ head.start)
  status : ∀ record ∈ pending, record.publish.isSome = true → record.pushed = true
  queue : pool.arena.sealQueue = queueOf pending
  executable : ∀ byte, pool.arena.protection byte = .readExecute ↔ byte < pool.arena.sealedUpTo
  mailbox : ∀ handle start stop, pool.mailbox handle = some (start, stop) →
    ∃ record ∈ pending, record.start = start ∧ record.stop = stop ∧ record.pushed = false
  distinct : ∀ handle other range, pool.mailbox handle = some range →
    pool.mailbox other = some range → handle = other

/-- An unfinished range lies past the mark. -/
theorem Inv.unfinished (inv : Inv pool done pending) (member : record ∈ pending)
    (none : record.publish = none) :
    pool.arena.sealedUpTo ≤ record.start := by
  obtain ⟨base, -, -, chain⟩ := inv.chain
  cases pending with
  | nil => cases member
  | cons head tail =>
    obtain ⟨beyond, here⟩ := inv.straddles head tail rfl
    obtain ⟨-, -, chain⟩ := chain
    rcases mem_cons.mp member with rfl | later
    · exact here none
    · have inside := (chain.within later).1
      omega

theorem new_inv {page size : Nat} (positive : 0 < page) :
    Inv (new page size : Pool Handle Info) [] [] where
  page := positive
  log := rfl
  reported := rfl
  finished := nofun
  ordered := Pairwise.nil
  chain := ⟨0, Nat.le_refl _, nofun, rfl⟩
  straddles := nofun
  status := nofun
  queue := rfl
  executable _ := ⟨nofun, nofun⟩
  mailbox := nofun
  distinct := nofun

section Steps
variable {done pending : List (Record Info)}

/-- The mark moves up to `mark`, which passes no unfinished range: the ranges it has passed
are reported. -/
theorem Inv.moved (inv : Inv pool done pending) {mark : Nat}
    (further : pool.arena.sealedUpTo ≤ mark)
    (clear : ∀ record ∈ pending, record.publish = none → mark ≤ record.start)
    {lastSealed : List Info} :
    ∃ taken rest, pending = taken ++ rest ∧
      Inv { pool with
        arena := { pool.arena with
          sealQueue := (popSealed mark pool.arena.sealQueue).2
          sealedUpTo := mark
          protection := protect pool.arena.protection pool.arena.sealedUpTo mark .readExecute
          lastSealed }
        reported := pool.reported ++ (popSealed mark pool.arena.sealQueue).1 }
        (done ++ taken) rest := by
  obtain ⟨base, reached, below, chain⟩ := inv.chain
  obtain ⟨taken, rest, split, infos, queue, finished, beyond⟩ :=
    popSealed_spec chain inv.status clear
  obtain ⟨middle, early, late⟩ := Chain.append.mp (split ▸ chain)
  have passed : middle ≤ mark :=
    early.limit_le (Nat.le_trans reached further) fun record member => (finished record member).2
  have under : ∀ record ∈ done ++ taken, record.stop ≤ middle := by
    intro record member
    rcases mem_append.mp member with before | now
    · exact Nat.le_trans (below record before) early.le
    · exact (early.within now).2.2
  refine ⟨taken, rest, split, ?_⟩
  subst split
  constructor
  case page => exact inv.page
  case log => rw [append_assoc]; exact inv.log
  case reported => rw [inv.queue, map_append, inv.reported, infos, map_append]
  case finished =>
    intro record member
    rcases mem_append.mp member with before | now
    · exact inv.finished record before
    · exact ⟨(finished record now).1, (early.within now).2.1⟩
  case ordered =>
    refine pairwise_append.mpr ⟨inv.ordered, early.pairwise, fun one member other among => ?_⟩
    exact Nat.le_trans (below one member) (early.within among).1
  case chain =>
    cases rest with
    | nil =>
      have covered : pool.arena.position ≤ middle := by
        rw [show middle = _ from late]
        exact Nat.le_max_left _ _
      have top : max pool.arena.position mark = mark := by omega
      exact ⟨mark, Nat.le_refl _, fun record member => Nat.le_trans (under record member) passed,
        top.symm⟩
    | cons head tail =>
      have past := beyond head tail rfl
      have inside := (late.within (mem_cons_self)).2.2
      refine ⟨middle, passed, under, ?_⟩
      have same : max pool.arena.position mark =
          max pool.arena.position pool.arena.sealedUpTo := by omega
      rw [same]
      exact late
  case straddles =>
    rintro head tail rfl
    exact ⟨beyond head tail rfl, fun none => clear head (by simp) none⟩
  case status =>
    exact fun record member => inv.status record (mem_append_right _ member)
  case queue =>
    rw [inv.queue, queue]
  case executable =>
    intro byte
    have before := inv.executable byte
    change protect _ _ _ _ byte = _ ↔ byte < mark
    unfold protect
    split
    next inside => exact ⟨fun _ => inside.2, fun _ => rfl⟩
    next outside =>
      rw [before]
      omega
  case mailbox =>
    intro handle start stop has
    obtain ⟨record, member, place⟩ := inv.mailbox handle start stop has
    rcases mem_append.mp member with now | later
    · have pushed := inv.status record member (finished record now).1
      cases pushed.symm.trans place.2.2
    · exact ⟨record, later, place⟩
  case distinct => exact inv.distinct

variable {arena : SharedArena Info} {start : Nat} {before behind : List (Record Info)}

theorem sealEnd_le : arena.sealEnd false ready ≤ ready := by
  exact Nat.le_trans (Nat.div_mul_le_self _ _) (Nat.min_le_left _ _)

theorem le_sealEnd (positive : 0 < arena.page) : ready ≤ arena.sealEnd true ready := by
  exact le_alignUp ready positive

/-- An attempt to seal, forced only when every range is finished. A forced one leaves
nothing to be reported. -/
theorem Inv.sealed (inv : Inv pool done pending) (force : Bool)
    (all : force = true → ∀ record ∈ pending, record.publish.isSome = true) :
    ∃ taken rest, pending = taken ++ rest ∧ (force = true → rest = []) ∧
      Inv { pool with
        arena := (pool.arena.trySealReady force).2
        reported := pool.reported ++ (pool.arena.trySealReady force).1 } (done ++ taken) rest := by
  obtain ⟨base, reached, -, chain⟩ := inv.chain
  have none : popSealed pool.arena.sealedUpTo pool.arena.sealQueue =
      ([], pool.arena.sealQueue) := by
    rw [inv.queue]
    exact popSealed_above chain fun head tail split => (inv.straddles head tail split).1
  obtain ⟨grown, unfinished, complete⟩ := readyEnd_spec chain inv.status reached inv.straddles
  rw [← inv.queue] at grown unfinished complete
  rw [Nat.max_assoc, Nat.max_self] at complete
  -- a forced attempt finds everything ready
  have whole : force = true → max pool.arena.position pool.arena.sealedUpTo ≤
      pool.arena.sealEnd force (readyEnd pool.arena.sealedUpTo pool.arena.sealQueue) := by
    rintro rfl
    rw [complete (all rfl)]
    exact le_sealEnd inv.page
  have beyond : ∀ head tail, pending = head :: tail →
      pool.arena.sealedUpTo < max pool.arena.position pool.arena.sealedUpTo := by
    rintro head tail rfl
    have straddles := (inv.straddles head tail rfl).1
    have inside := (chain.within (mem_cons_self)).2.2
    omega
  unfold trySealReady
  simp only [none, nil_append]
  split
  next unmoved =>
    refine ⟨[], pending, rfl, fun forced => ?_, ?_⟩
    · cases split : pending with
      | nil => rfl
      | cons head tail =>
        have higher := beyond head tail split
        have more := whole forced
        rcases unmoved with same | low
        · rw [complete (all forced)] at same
          omega
        · omega
    · rw [append_nil, append_nil]
      exact { inv with }
  next moves =>
    obtain ⟨-, further⟩ := not_or.mp moves
    have clear : ∀ record ∈ pending, record.publish = .none →
        pool.arena.sealEnd force (readyEnd pool.arena.sealedUpTo pool.arena.sealQueue) ≤
          record.start := by
      intro record member unpublished
      cases force with
      | false => exact Nat.le_trans sealEnd_le (unfinished record member unpublished)
      | true =>
        have published := all rfl record member
        simp [unpublished] at published
    obtain ⟨taken, rest, split, moved⟩ := inv.moved (Nat.le_of_not_le further) clear
    refine ⟨taken, rest, split, fun forced => ?_, moved⟩
    cases rest with
    | nil => rfl
    | cons head tail =>
      have past := (moved.straddles head tail rfl).1
      have inside := (chain.within (show head ∈ pending by simp [split])).2.2
      have more := whole forced
      dsimp only at past
      omega

/-- What an allocation does: the range starts where the next one was to start, and no byte
below it is mapped anew. -/
theorem allocate_cases (positive : 0 < arena.page) {size align : Nat} :
    arena.allocate size align =
        (none, { arena with position := max arena.position arena.sealedUpTo }) ∨
      ∃ protection, (∀ byte < max arena.position arena.sealedUpTo,
          protection byte = arena.protection byte) ∧
        (∀ byte, protection byte = .readExecute → arena.protection byte = .readExecute) ∧
        arena.allocate size align =
          (some (max arena.position arena.sealedUpTo,
              alignUp (max arena.position arena.sealedUpTo) align + size),
            { arena with
              position := alignUp (max arena.position arena.sealedUpTo) align + size
              protection }) := by
  have bumped : (if arena.position < arena.sealedUpTo then
      { arena with position := arena.sealedUpTo } else arena) =
        { arena with position := max arena.position arena.sealedUpTo } := by
    split
    next low => rw [Nat.max_eq_right (Nat.le_of_lt low)]
    next high => rw [Nat.max_eq_left (Nat.le_of_not_lt high)]
  have above := le_alignUp (max arena.position arena.sealedUpTo) positive
  unfold allocate
  rw [bumped]
  dsimp only
  split
  · exact .inl rfl
  refine .inr ⟨_, fun byte low => ?_, fun byte => ?_, rfl⟩
  · split
    · rw [protect, if_neg (by omega)]
    · rfl
  split
  · rw [protect]
    split
    · exact nofun
    · exact fun same => same
  · exact fun same => same

theorem Inv.allocated (inv : Inv pool done pending) [DecidableEq Handle] {size : Nat}
    (nonempty : 1 ≤ size) (aligned : 1 ≤ align) :
    ∃ pending', Inv (pool.step (.allocate handle size align)) done pending' := by
  obtain ⟨base, reached, below, chain⟩ := inv.chain
  have above := le_alignUp (max pool.arena.position pool.arena.sealedUpTo) aligned
  generalize reach_eq : max pool.arena.position pool.arena.sealedUpTo = reach at above chain
  have covers : pool.arena.sealedUpTo ≤ reach := reach_eq ▸ Nat.le_max_right _ _
  rcases allocate_cases inv.page with failed | ⟨protection, kept, fewer, made⟩
  · refine ⟨pending, ?_⟩
    rw [step, failed]
    refine { inv with chain := ⟨base, reached, below, ?_⟩ }
    rw [reach_eq, Nat.max_eq_left covers]
    exact chain
  · rw [reach_eq] at kept made
    refine ⟨pending ++ [{ start := reach, stop := alignUp reach align + size }], ?_⟩
    rw [step, made]
    constructor
    case page => exact inv.page
    case log =>
      change pool.log ++ _ = _
      rw [inv.log, append_assoc]
    case reported => exact inv.reported
    case finished => exact inv.finished
    case ordered => exact inv.ordered
    case chain =>
      refine ⟨base, reached, below, Chain.append.mpr ⟨reach, chain, rfl, ?_, ?_⟩⟩
      · change reach < alignUp reach align + size
        omega
      · change alignUp reach align + size = max (alignUp reach align + size) pool.arena.sealedUpTo
        omega
    case straddles =>
      intro head tail split
      cases pending with
      | nil =>
        obtain ⟨rfl, -⟩ := cons.inj split
        refine ⟨?_, fun _ => covers⟩
        change pool.arena.sealedUpTo < alignUp reach align + size
        omega
      | cons first rest =>
        obtain ⟨rfl, -⟩ := cons.inj split
        exact inv.straddles first rest rfl
    case status =>
      intro record member published
      rcases mem_append.mp member with before | now
      · exact inv.status record before published
      · rw [mem_singleton.mp now] at published
        cases published
    case queue =>
      rw [queueOf_append, ← inv.queue]
      exact (append_nil _).symm
    case executable =>
      intro byte
      refine ⟨fun now => (inv.executable byte).mp (fewer byte now), fun low => ?_⟩
      change protection byte = _
      rw [kept byte (Nat.lt_of_lt_of_le low covers)]
      exact (inv.executable byte).mpr low
    case mailbox =>
      intro other start stop has
      dsimp only at has
      split at has
      · obtain ⟨rfl, rfl⟩ := Prod.mk.inj (Option.some.inj has)
        exact ⟨_, mem_append_right _ (mem_singleton_self _), rfl, rfl, rfl⟩
      · obtain ⟨record, member, place⟩ := inv.mailbox other start stop has
        exact ⟨record, mem_append_left _ member, place⟩
    case distinct =>
      have older : ∀ other range, pool.mailbox other = .some range → range.1 < reach := by
        intro other range has
        obtain ⟨record, member, start, -⟩ := inv.mailbox other range.1 range.2 has
        have inside := chain.within member
        omega
      intro one other range first second
      dsimp only at first second
      split at first
      · split at second
        next here there => rw [here, there]
        · have lower := older other range second
          rw [← Option.some.inj first] at lower
          exact absurd lower (Nat.lt_irrefl _)
      · split at second
        · have lower := older one range first
          rw [← Option.some.inj second] at lower
          exact absurd lower (Nat.lt_irrefl _)
        · exact inv.distinct one other range first second

/-! ### A range queued, or patched -/

theorem mark_split {change : Record Info → Record Info} (here : record.start = start)
    (early : ∀ other ∈ before, other.start ≠ start) (late : ∀ other ∈ behind, other.start ≠ start) :
    mark start change (before ++ record :: behind) = before ++ change record :: behind := by
  have untouched : ∀ records : List (Record Info), (∀ other ∈ records, other.start ≠ start) →
      records.map (fun record => if record.start = start then change record else record) =
        records := by
    intro records elsewhere
    conv_rhs => rw [← map_id records]
    exact map_congr_left fun other member => if_neg (elsewhere other member)
  rw [mark, map_append, map_cons, untouched before early, untouched behind late, if_pos here]

section
variable (inv : Inv pool done pending)
include inv

theorem Inv.starts (split : pending = before ++ record :: behind) :
    (∀ other ∈ done ++ before, other.start < record.start) ∧
      ∀ other ∈ behind, record.start < other.start := by
  obtain ⟨base, -, below, chain⟩ := inv.chain
  subst split
  have begins := (chain.within (show record ∈ _ by simp)).1
  obtain ⟨middle, early, start, nonempty, late⟩ := Chain.append.mp chain
  constructor
  · intro other member
    rcases mem_append.mp member with reported | earlier
    · have nonempty := (inv.finished other reported).2
      have ends := below other reported
      omega
    · have inside := early.within earlier
      omega
  · intro other member
    have inside := late.within member
    omega

theorem Inv.mark_log (split : pending = before ++ record :: behind)
    (change : Record Info → Record Info) :
    mark record.start change pool.log = done ++ (before ++ change record :: behind) := by
  obtain ⟨earlier, later⟩ := inv.starts split
  rw [inv.log, split, ← append_assoc, mark_split rfl, append_assoc]
  · exact fun other among => Nat.ne_of_lt (earlier other among)
  · exact fun other among => (Nat.ne_of_lt (later other among)).symm

theorem Inv.eq_of_start (member : record ∈ pending)
    (among : twin ∈ pending) (same : twin.start = record.start) :
    twin = record := by
  obtain ⟨before, behind, split⟩ := append_of_mem member
  obtain ⟨earlier, later⟩ := inv.starts split
  rw [split] at among
  rcases mem_append.mp among with early | late
  · have lower := earlier twin (mem_append_right _ early)
    omega
  · rcases mem_cons.mp late with here | behind'
    · exact here
    · have higher := later twin behind'
      omega

/-- The record of one range changes, but not its place. -/
theorem Inv.marked (split : pending = before ++ record :: behind)
    (start : changed.start = record.start) (stop : changed.stop = record.stop)
    (unfinished : changed.publish = none → record.publish = none)
    (status : changed.publish.isSome = true → changed.pushed = true)
    {mailbox : Handle → Option (Nat × Nat)}
    (fewer : ∀ handle range, mailbox handle = some range → pool.mailbox handle = some range ∧
      (range.1 = record.start → changed.pushed = false)) :
    Inv { pool with
      arena := { pool.arena with sealQueue := queueOf (before ++ changed :: behind) }
      mailbox
      log := done ++ (before ++ changed :: behind) } done (before ++ changed :: behind) := by
  obtain ⟨base, reached, below, chain⟩ := inv.chain
  subst split
  have members : ∀ other ∈ before ++ changed :: behind,
      other = changed ∨ other ∈ before ++ record :: behind := by
    intro other member
    rcases mem_append.mp member with early | late
    · exact .inr (mem_append_left _ early)
    · rcases mem_cons.mp late with rfl | behind
      · exact .inl rfl
      · exact .inr (mem_append_right _ (mem_cons_of_mem _ behind))
  constructor
  case page => exact inv.page
  case log => rfl
  case reported => exact inv.reported
  case finished => exact inv.finished
  case ordered => exact inv.ordered
  case chain =>
    obtain ⟨middle, early, here, nonempty, late⟩ := Chain.append.mp chain
    refine ⟨base, reached, below, Chain.append.mpr ⟨middle, early, start.trans here, ?_, ?_⟩⟩
    · rw [start, stop]
      exact nonempty
    · rw [stop]
      exact late
  case straddles =>
    intro head tail split
    cases before with
    | nil =>
      obtain ⟨rfl, rfl⟩ := cons.inj split
      obtain ⟨beyond, here⟩ := inv.straddles record behind rfl
      refine ⟨?_, fun none => ?_⟩
      · rw [stop]
        exact beyond
      · rw [start]
        exact here (unfinished none)
    | cons first rest =>
      obtain ⟨rfl, -⟩ := cons.inj split
      exact inv.straddles first _ rfl
  case status =>
    intro other member published
    rcases members other member with rfl | same
    · exact status published
    · exact inv.status other same published
  case queue => rfl
  case executable => exact inv.executable
  case mailbox =>
    intro handle first last has
    obtain ⟨before', unpushed⟩ := fewer handle (first, last) has
    obtain ⟨other, member, place, ends, waiting⟩ := inv.mailbox handle first last before'
    rcases mem_append.mp member with early | late
    · exact ⟨other, mem_append_left _ early, place, ends, waiting⟩
    · rcases mem_cons.mp late with rfl | behind'
      · exact ⟨changed, by simp, start.trans place, stop.trans ends, unpushed place.symm⟩
      · exact ⟨other, mem_append_right _ (mem_cons_of_mem _ behind'), place, ends, waiting⟩
  case distinct =>
    exact fun one other range first second =>
      inv.distinct one other range (fewer one range first).1 (fewer other range second).1

end

variable {low high : List (SealEntry Info)}

theorem placeFor_split (under : ∀ entry ∈ low, entry.start ≤ start)
    (above : ∀ entry ∈ high, start < entry.start) : placeFor start (low ++ high) = low.length := by
  have skipped : high.reverse.findIdx? (·.start ≤ start) = none := by
    rw [findIdx?_eq_none_iff]
    intro entry member
    have beyond := above entry (mem_reverse.mp member)
    simpa using beyond
  unfold placeFor
  rw [reverse_append, findIdx?_append, skipped, Option.none_or]
  rcases eq_nil_or_concat low with rfl | ⟨front, last, rfl⟩
  · simp
  · have here := under last (by simp)
    simp only [concat_eq_append, reverse_append, reverse_singleton,
      singleton_append, findIdx?_cons, here, decide_true, if_true, length_append,
      length_reverse, length_singleton, Option.map_some]
    omega

theorem insertIdx_split : (low ++ high).insertIdx low.length entry = low ++ entry :: high := by
  induction low with
  | nil => simp
  | cons first rest inductionHypothesis => simp [inductionHypothesis]

theorem queueOf_starts (member : entry ∈ queueOf records) :
    ∃ record ∈ records, record.start = entry.start := by
  obtain ⟨record, among, rfl⟩ := mem_map.mp member
  exact ⟨record, mem_of_mem_filter among, rfl⟩

theorem Inv.pushed (inv : Inv pool done pending) [DecidableEq Handle] (handle : Handle) :
    ∃ pending', Inv (pool.step (.push handle)) done pending' := by
  rw [step]
  cases has : pool.mailbox handle with
  | none => exact ⟨pending, inv⟩
  | some range =>
    obtain ⟨start, stop⟩ := range
    obtain ⟨record, member, rfl, rfl, waiting⟩ := inv.mailbox handle start stop has
    obtain ⟨before, behind, split⟩ := append_of_mem member
    obtain ⟨earlier, later⟩ := inv.starts split
    have blank : record.publish = none := by
      cases published : record.publish with
      | none => rfl
      | some info =>
        have queued := inv.status record member (by simp [published])
        cases queued.symm.trans waiting
    have queue : pool.arena.sealQueue.insertIdx (placeFor record.start pool.arena.sealQueue)
        ⟨record.start, record.stop, none⟩ =
          queueOf (before ++ { record with pushed := true } :: behind) := by
      have old : pool.arena.sealQueue = queueOf before ++ queueOf behind := by
        rw [inv.queue, split, queueOf_append, queueOf_cons_unpushed waiting]
      rw [old, placeFor_split, insertIdx_split, queueOf_append, queueOf_cons_pushed rfl,
        entry, blank]
      · intro entry among
        obtain ⟨other, first, same⟩ := queueOf_starts among
        have lower := earlier other (mem_append_right _ first)
        omega
      · intro entry among
        obtain ⟨other, last, same⟩ := queueOf_starts among
        have higher := later other last
        omega
    refine ⟨before ++ { record with pushed := true } :: behind, ?_⟩
    dsimp only
    rw [pushPlaceholder, queue, inv.mark_log split]
    have place : ({ record with pushed := true } : Record Info).start = record.start := rfl
    refine inv.marked split place rfl (fun none => none) (fun _ => rfl) fun other range there => ?_
    split at there
    · cases there
    next away =>
      refine ⟨there, fun same => ?_⟩
      -- two mailboxes never hold one range
      obtain ⟨twin, among, twinStart, twinStop, -⟩ := inv.mailbox other range.1 range.2 there
      have twinHere := inv.eq_of_start member among (twinStart.trans same)
      rw [twinHere] at twinStop
      have whole : range = (record.start, record.stop) := Prod.ext same twinStop.symm
      exact absurd (inv.distinct other handle range there (by rw [whole]; exact has)) away

theorem findIdx?_split (apart : ∀ other ∈ low, other.start ≠ entry.start) :
    (low ++ entry :: high).findIdx? (fun other => other.start = entry.start ∧
      other.stop = entry.stop) = some low.length := by
  have skipped : low.findIdx? (fun other => other.start = entry.start ∧
      other.stop = entry.stop) = none := by
    rw [findIdx?_eq_none_iff]
    intro other member
    simp [apart other member]
  rw [findIdx?_append, skipped, findIdx?_cons]
  simp

theorem modify_split {change : SealEntry Info → SealEntry Info} :
    (low ++ entry :: high).modify low.length change = low ++ change entry :: high := by
  simp [modify_eq_take_drop]

theorem Inv.patched (inv : Inv pool done pending) [DecidableEq Handle] {stop : Nat} (info : Info) :
    ∃ done' pending', Inv (pool.step (.patch start stop info)) done' pending' := by
  by_cases queued : ∃ entry ∈ pool.arena.sealQueue, entry.start = start ∧ entry.stop = stop
  case neg =>
    have missing : pool.arena.sealQueue.findIdx? (fun entry => entry.start = start ∧
        entry.stop = stop) = none := by
      rw [findIdx?_eq_none_iff]
      exact fun entry member => decide_eq_false fun same => queued ⟨entry, member, same⟩
    exact ⟨done, pending, by rw [step, patchPendingPublish, missing]; exact inv⟩
  obtain ⟨entry, among, rfl, rfl⟩ := queued
  rw [inv.queue] at among
  obtain ⟨record, filtered, rfl⟩ := mem_map.mp among
  obtain ⟨waiting, pushed⟩ := mem_filter.mp filtered
  obtain ⟨before, behind, split⟩ := append_of_mem waiting
  obtain ⟨earlier, later⟩ := inv.starts split
  have old : pool.arena.sealQueue = queueOf before ++ record.entry :: queueOf behind := by
    rw [inv.queue, split, queueOf_append, queueOf_cons_pushed pushed]
  have found : pool.arena.sealQueue.findIdx? (fun entry => entry.start = record.start ∧
      entry.stop = record.stop) = some (queueOf before).length := by
    rw [old]
    refine @findIdx?_split _ record.entry _ _ ?_
    intro entry among
    obtain ⟨other, first, same⟩ := queueOf_starts among
    have lower := earlier other (mem_append_right _ first)
    exact fun here => absurd (same.trans here) (Nat.ne_of_lt lower)
  have queue : pool.arena.sealQueue.modify (queueOf before).length
      (fun entry => { entry with publish := some info }) =
        queueOf (before ++ { record with publish := some info } :: behind) := by
    have stillPushed : ({ record with publish := some info } : Record Info).pushed = true := pushed
    rw [old, modify_split, queueOf_append, queueOf_cons_pushed stillPushed]
    rfl
  have place : ({ record with publish := some info } : Record Info).start = record.start := rfl
  have patched := inv.marked split place rfl nofun (fun _ => pushed)
    fun handle range has => ⟨has, fun same => by
      obtain ⟨twin, among, twinStart, -, unpushed⟩ := inv.mailbox handle range.1 range.2 has
      have twinHere := inv.eq_of_start waiting among (twinStart.trans same)
      rw [twinHere] at unpushed
      exact unpushed⟩
  obtain ⟨taken, rest, -, -, sealed⟩ := patched.sealed false nofun
  refine ⟨done ++ taken, rest, ?_⟩
  rw [step, patchPendingPublish, entry, found]
  dsimp only
  rw [queue, inv.mark_log split]
  exact sealed

theorem step_inv [DecidableEq Handle] (inv : Inv pool done pending) (allowed : pool.Allowed op) :
    ∃ done' pending', Inv (pool.step op) done' pending' := by
  cases op with
  | allocate handle size align => exact ⟨done, inv.allocated allowed.1 allowed.2.1⟩
  | push handle => exact ⟨done, inv.pushed handle⟩
  | patch start stop info => exact inv.patched info
  | trySealReady =>
    obtain ⟨taken, rest, -, -, sealed⟩ := inv.sealed false nofun
    exact ⟨done ++ taken, rest, sealed⟩
  | trySealReadyForced =>
    obtain ⟨taken, rest, -, -, sealed⟩ := inv.sealed true fun _ record member =>
      allowed record (by rw [inv.log]; exact mem_append_right _ member)
    exact ⟨done ++ taken, rest, sealed⟩

variable (inv : Inv pool done pending)
include inv

theorem Inv.disjoint : pool.log.Pairwise fun one other => one.stop ≤ other.start := by
  obtain ⟨base, -, below, chain⟩ := inv.chain
  rw [inv.log, pairwise_append]
  refine ⟨inv.ordered, chain.pairwise, fun one member other among => ?_⟩
  exact Nat.le_trans (below one member) (chain.within among).1

theorem Inv.sealed_of_done (member : record ∈ done) : record.stop ≤ pool.arena.sealedUpTo := by
  obtain ⟨base, reached, below, -⟩ := inv.chain
  exact Nat.le_trans (below record member) reached

theorem Inv.within (member : record ∈ pool.log) : record.start < record.stop ∧
    record.stop ≤ max pool.arena.position pool.arena.sealedUpTo := by
  obtain ⟨base, -, -, chain⟩ := inv.chain
  rw [inv.log] at member
  rcases mem_append.mp member with reported | waiting
  · exact ⟨(inv.finished record reported).2,
      Nat.le_trans (inv.sealed_of_done reported) (Nat.le_max_right _ _)⟩
  · exact (chain.within waiting).2

/-- The next range begins past the mark and past every range there is. -/
theorem Inv.next {size stop : Nat}
    (made : pool.arena.allocate size align = (some (start, stop), arena)) :
    pool.arena.sealedUpTo ≤ start ∧ ∀ record ∈ pool.log, record.stop ≤ start := by
  obtain rfl : start = max pool.arena.position pool.arena.sealedUpTo := by
    rcases allocate_cases inv.page with failed | ⟨protection, -, -, done⟩
    · cases made.symm.trans failed
    · have same := congrArg Prod.fst (made.symm.trans done)
      exact congrArg Prod.fst (Option.some.inj same)
  exact ⟨Nat.le_max_right _ _, fun record member => (inv.within member).2⟩

end Steps

section Runs
variable [DecidableEq Handle] {page size : Nat} {ops : List (Op Handle Info)}

theorem run_inv (positive : 0 < page)
    (allowed : Along step Allowed (new page size : Pool Handle Info) ops) :
    ∃ done pending, Inv (ops.foldl step (new page size)) done pending := by
  have kept (pool : Pool Handle Info) (op : Op Handle Info)
      (before : ∃ done pending, Inv pool done pending) (permitted : pool.Allowed op) :
      ∃ done pending, Inv (pool.step op) done pending := by
    obtain ⟨done, pending, inv⟩ := before
    exact step_inv inv permitted
  exact allowed.keeps kept ⟨[], [], new_inv positive⟩

/-- After any calls on any number of handles: the ranges allocated follow each other
without overlap, and the next one starts past them and past the mark. No byte of a range
that is not patched is executable. What was reported is what the first so many ranges were
patched with, in address order, and their bytes are executable. When every range is patched,
a forced seal has them all reported. -/
theorem sealed_when_finished (positive : 0 < page)
    (allowed : Along step Allowed (new page size : Pool Handle Info) ops) :
    let pool := ops.foldl step (new page size)
    (pool.log.Pairwise fun one other => one.stop ≤ other.start) ∧
      (∀ record ∈ pool.log, record.start < record.stop) ∧
      (∀ size align start stop arena, pool.arena.allocate size align = (some (start, stop), arena) →
        pool.arena.sealedUpTo ≤ start ∧ ∀ record ∈ pool.log, record.stop ≤ start) ∧
      (∀ record ∈ pool.log, record.publish = none → ∀ byte, record.start ≤ byte →
        byte < record.stop → pool.arena.protection byte ≠ .readExecute) ∧
      (∃ done pending, pool.log = done ++ pending ∧
        pool.reported.map some = done.map publish ∧
        ∀ record ∈ done, ∀ byte, byte < record.stop → pool.arena.protection byte = .readExecute) ∧
      (pool.Allowed .trySealReadyForced →
        (pool.step .trySealReadyForced).log = pool.log ∧
          (pool.step .trySealReadyForced).reported.map some = pool.log.map publish) := by
  intro pool
  obtain ⟨done, pending, inv⟩ := run_inv positive allowed
  refine ⟨inv.disjoint, fun record member => (inv.within member).1, fun _ _ _ _ _ => inv.next, ?_,
    ⟨done, pending, inv.log, inv.reported, fun record member byte inside => ?_⟩, fun finished => ?_⟩
  · intro record member blank byte low high runs
    rw [inv.log] at member
    rcases mem_append.mp member with reported | waiting
    · have published := (inv.finished record reported).1
      simp [blank] at published
    · have beyond := inv.unfinished waiting blank
      have under := (inv.executable byte).mp runs
      exact absurd under (by omega)
  · exact (inv.executable byte).mpr (Nat.lt_of_lt_of_le inside (inv.sealed_of_done member))
  obtain ⟨taken, rest, split, all, sealed⟩ := inv.sealed true fun _ record member =>
    finished record (by rw [inv.log]; exact mem_append_right _ member)
  have everything : done ++ taken = pool.log := by
    rw [inv.log, split, all rfl, append_nil]
  refine ⟨rfl, ?_⟩
  rw [← everything]
  exact sealed.reported

end Runs

/-- Two handles allocate; the later range is queued and patched first. -/
def patchedOutOfOrder : List (Op Bool Nat) :=
  [.allocate false 3000 16, .allocate true 3000 16, .push true, .patch 3000 6008 2,
    .push false, .patch 0 3000 1]

/-- The patch of the first range seals the page the cursor has left, which covers that range
alone; forcing seals the rest. -/
theorem patched_out_of_order_sealed :
    let pool := patchedOutOfOrder.foldl step (new 4096 65536)
    pool.reported = [1] ∧ (pool.step .trySealReadyForced).reported.map some = pool.log.map publish ∧
      (pool.step .trySealReadyForced).reported = [1, 2] := by
  have forced := (sealed_when_finished (by decide)
    (by decide +kernel : Along step Allowed (new 4096 65536) patchedOutOfOrder)).2.2.2.2.2
  exact ⟨by decide +kernel, (forced (by decide +kernel)).2, by decide +kernel⟩

end Pool

end Iris.Jit
