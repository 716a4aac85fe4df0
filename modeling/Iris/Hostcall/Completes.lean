import Iris.Hostcall.Retry

/-!
Owns the completion of a call: each attempt does at least the touch the last one
stopped at, so a call that reads and then writes completes, and stores what it
writes once and in order, exactly where its ranges lie in the address space and no
two of its pieces start at one address.
-/

namespace Iris.Hostcall

open List Finset Piece

/-! ### How much of a path is done -/

/-- What a touch leaves on record: a page, or where a piece starts. -/
def Touch.slot : Touch → Bool × Nat
  | .read start => (false, pageOf start)
  | .store piece => (true, piece.addr)

def InFlight.holds (progress : InFlight) : Bool × Nat → Bool
  | (false, page) => (progress.pages page).isSome
  | (true, addr) => addr ∈ progress.written

theorem Touch.recorded_iff (touch : Touch) :
    touch.Recorded progress ↔ progress.holds touch.slot = true := by
  cases touch with
  | read start => exact Iff.rfl
  | store piece => exact (decide_eq_true_iff (p := piece.addr ∈ progress.written)).symm

/-- The records of a path that are made. -/
def recorded (touches : List Touch) (progress : InFlight) : Finset (Bool × Nat) :=
  (touches.map Touch.slot).toFinset.filter fun slot => progress.holds slot

section Recorded
variable {touches walk : List Touch} {progress progress' : InFlight} {access access' : Access}

theorem Walked.holds (walked : Walked walk progress progress' access access') {slot : Bool × Nat}
    (held : progress.holds slot = true) : progress'.holds slot = true := by
  rcases slot with ⟨_ | _, n⟩
  · obtain ⟨bytes, present⟩ := Option.isSome_iff_exists.mp held
    exact Option.isSome_iff_exists.mpr ⟨bytes, walked.touched.pages n bytes present⟩
  · exact decide_eq_true (walked.written (of_decide_eq_true held))

/-- A touch done between two walks counts. -/
theorem card_recorded_lt (walked : Walked walk progress progress' access access')
    (member : touch ∈ touches) (before : ¬touch.Done progress) (after : touch.Done progress') :
    (recorded touches progress).card < (recorded touches progress').card := by
  have among : touch.slot ∈ (touches.map Touch.slot).toFinset :=
    mem_toFinset.mpr (mem_map_of_mem member)
  apply card_lt_card
  constructor
  · intro slot inside
    obtain ⟨of, held⟩ := Finset.mem_filter.mp inside
    exact mem_filter.mpr ⟨of, walked.holds held⟩
  · intro all
    have held := (touch.recorded_iff).mp after.2
    have inside := all (mem_filter.mpr ⟨among, held⟩)
    exact before ⟨after.1, (touch.recorded_iff).mpr (Finset.mem_filter.mp inside).2⟩

/-- While a touch is not done, not all records are made. -/
theorem card_recorded_undone {touch : Touch} (member : touch ∈ touches) (inRange : touch.InRange)
    (undone : ¬touch.Done progress) :
    (recorded touches progress).card < (touches.map Touch.slot).toFinset.card := by
  apply card_lt_card
  refine ⟨filter_subset _ _, fun all => undone ⟨inRange, ?_⟩⟩
  have inside := all (mem_toFinset.mpr (mem_map_of_mem member))
  exact (touch.recorded_iff).mpr (Finset.mem_filter.mp inside).2

end Recorded

def Routine.pagesRead (mem : Nat → Byte) (routine : Routine) : Finset Nat :=
  ((routine.reads mem).map pageOf).toFinset

/-- One record for each page read and each piece written, at most. -/
theorem card_slots_le (mem : Nat → Byte) {routine : Routine} :
    ((routine.path mem).map Touch.slot).toFinset.card ≤
      (routine.pagesRead mem).card + (routine.writes mem).length := by
  have split : ((routine.path mem).map Touch.slot).toFinset =
      (routine.pagesRead mem).image (fun page => (false, page)) ∪
        ((routine.writes mem).map fun piece => (true, piece.addr)).toFinset := by
    ext slot
    simp [Routine.path, Routine.pagesRead, Touch.slot]
  rw [split]
  apply (card_union_le _ _).trans
  apply Nat.add_le_add card_image_le
  apply (toFinset_card_le _).trans
  rw [length_map]

/-! ### What the attempts have done -/

variable {parts : List Piece} {k : Nat}

section Attempts
variable {mem : Nat → Byte} {routine : Routine} {progress : InFlight} {access : Access}

theorem walk_read_stored (starts : List Nat) (progress : InFlight) (access : Access) :
    (walk (starts.map .read) progress access).2.2.stored = access.stored := by
  obtain ⟨new, stored, -, -, among⟩ := (walk_walked (starts.map .read) progress access).stored
  cases new with
  | nil => rw [stored, append_nil]
  | cons piece rest => exact absurd (among piece (by simp)).2 (by simp)

theorem path_reads_done (stored : (walk (routine.path mem) progress access).2.2.stored ≠
    access.stored) :
    ∀ start ∈ routine.reads mem,
      (Touch.read start).Done (walk (routine.path mem) progress access).2.1 := by
  intro start member
  have readsStored := walk_read_stored (routine.reads mem) progress access
  have readsDone : (walk ((routine.reads mem).map .read) progress access).1 = none →
      ∀ touch ∈ (routine.reads mem).map Touch.read,
        touch.Done (walk ((routine.reads mem).map .read) progress access).2.1 := walk_done
  rw [Routine.path, walk_append] at stored ⊢
  generalize walk ((routine.reads mem).map .read) progress access = reading at *
  obtain ⟨_ | fault, progress', access'⟩ := reading
  · exact (readsDone rfl _ (mem_map_of_mem member)).walked (walk_walked _ progress' access')
  · exact absurd readsStored stored

/-- Pieces that start at addresses of their own are stored in order. -/
theorem walk_fresh (distinct : (parts.map addr).Nodup)
    (fresh : ∀ piece ∈ parts, piece.addr ∉ progress.written) :
    ∃ k, (walk (parts.map .store) progress access).2.2.stored = access.stored ++ parts.take k := by
  induction parts generalizing progress access with
  | nil => exact ⟨0, by simp [walk]⟩
  | cons piece rest inductionHypothesis =>
    obtain ⟨alone, later⟩ := nodup_cons.mp distinct
    have unwritten := fresh piece (by simp)
    rw [List.map_cons, walk]
    cases made : (Touch.store piece).make progress access with
    | error fault => exact ⟨0, by simp⟩
    | ok result =>
      have did := Touch.made made
      rcases did.written with ⟨-, same, -⟩ | ⟨_, here, -, stored, grown, -⟩
      · exact absurd did.done.2 (by rw [Touch.Recorded, same]; exact unwritten)
      obtain rfl := Touch.store.inj here
      obtain ⟨k, more⟩ : ∃ k, (walk (rest.map .store) result.1 result.2).2.2.stored =
          result.2.stored ++ rest.take k := by
        apply inductionHypothesis later
        intro other member
        rw [grown, mem_insert, not_or]
        refine ⟨fun same => alone ?_, fresh other (by simp [member])⟩
        exact same ▸ mem_map_of_mem member
      refine ⟨k + 1, more.trans ?_⟩
      rw [stored, append_assoc]
      rfl

/-- Where the first pieces are on record, the rest is stored in order. -/
theorem walk_rest (distinct : (parts.map Piece.addr).Nodup)
    (inRange : ∀ piece ∈ parts, (Touch.store piece).InRange)
    (recorded : ∀ addr, addr ∈ progress.written ↔ addr ∈ (parts.take k).map Piece.addr) :
    ∃ j, (walk (parts.map .store) progress access).2.2.stored =
      access.stored ++ (parts.drop k).take j := by
  have split : parts.map Touch.store = (parts.take k).map .store ++ (parts.drop k).map .store := by
    rw [← map_append, take_append_drop]
  have apart : ((parts.take k).map Piece.addr ++ (parts.drop k).map Piece.addr).Nodup := by
    rw [← map_append, take_append_drop]
    exact distinct
  obtain ⟨-, distinct', disjoint⟩ := nodup_append.mp apart
  rw [split, walk_past]
  · apply walk_fresh distinct'
    intro piece member written
    exact disjoint _ ((recorded piece.addr).mp written) _ (mem_map_of_mem member) rfl
  · intro touch member
    obtain ⟨piece, among, rfl⟩ := mem_map.mp member
    exact ⟨inRange piece (mem_of_mem_take among), (recorded piece.addr).mpr (mem_map_of_mem among)⟩

end Attempts

namespace Retries
variable {call : Retries} {mem : Nat → Byte} {service : List Nat → Routine} {t : Nat}

/-- Before attempt `t`: the recorded pages are those of `mem`, the recorded starts are
those of what is stored, and nothing is stored before all pages are read. -/
structure Consistent (call : Retries) (mem : Nat → Byte) (routine : Routine) (t : Nat) : Prop where
  agrees : (progressOf call.key (call.tableAt t)).Agrees mem
  written : ∀ addr, addr ∈ (progressOf call.key (call.tableAt t)).written ↔
    addr ∈ (call.storedBefore t).map Piece.addr
  distinct : ((call.storedBefore t).map Piece.addr).Nodup
  reads : call.storedBefore t ≠ [] → ∀ start ∈ routine.reads mem,
    (Touch.read start).Done (progressOf call.key (call.tableAt t))

theorem Fair.begun (fair : call.Fair mem (routine.reads mem)) : call.Consistent mem routine 0 := by
  have fresh : progressOf call.key (call.tableAt 0) = { key := call.key } := by
    rw [tableAt, progressOf, List.find?_eq_none.mpr (by simpa using fair.begins)]
    rfl
  refine ⟨?_, ?_, by simp [storedBefore], fun stored => absurd rfl stored⟩
  · rw [fresh]
    simp [InFlight.Agrees]
  · rw [fresh]
    simp [storedBefore]

def walkAt (call : Retries) (mem : Nat → Byte) (routine : Routine) (t : Nat) :
    Option Fault × InFlight × Access :=
  walk (routine.path mem) (progressOf call.key (call.tableAt t)) (call.turns t).access

/-- The call runs `routine`, which reads and then writes, on a fair schedule. -/
structure Serves (call : Retries) (mem : Nat → Byte) (routine : Routine) : Prop where
  readsFirst : routine.ReadsFirst
  fair : call.Fair mem (routine.reads mem)
  served : ∃ service, call.services call.number = some service ∧ service call.args = routine

section Attempted
variable {routine : Routine} (serves : call.Serves mem routine)
include serves

section
variable (inv : call.Consistent mem routine t)
include inv

theorem Consistent.walked (waiting : call.Waiting t) :
    call.replyAt t = some (answer (routine.result mem) (call.walkAt mem routine t).1) ∧
      call.storedAt t = (call.walkAt mem routine t).2.2.stored ∧
      (call.walkAt mem routine t).2.1.Agrees mem ∧
      ((call.walkAt mem routine t).1 ≠ none →
        progressOf call.key (call.tableAt (t + 1)) = (call.walkAt mem routine t).2.1) := by
  have shows : (call.turns t).access.Shows mem (progressOf call.key (call.tableAt t))
      (routine.reads mem) := by
    intro start member absent
    by_cases stored : call.storedBefore t = []
    · exact serves.fair.unchanged t waiting stored start member
    · have done := (inv.reads stored start member).2
      rw [Touch.Recorded, absent] at done
      cases done
  obtain ⟨called, agrees⟩ := call_eq_walk serves.readsFirst inv.agrees shows
  obtain ⟨service, served, rfl⟩ := serves.served
  obtain ⟨replied, stored, kept⟩ := serves.fair.attempted served waiting
  rw [called] at replied stored kept
  refine ⟨replied, stored, agrees, fun stopped => kept ?_⟩
  obtain ⟨fault, ended⟩ := Option.ne_none_iff_exists'.mp stopped
  rw [walkAt] at ended
  rw [ended]
  rfl

/-- The starts on record after attempt `t` are those of what is stored by then, each
once. -/
theorem Consistent.storing (waiting : call.Waiting t) :
    ((call.storedBefore (t + 1)).map Piece.addr).Nodup ∧
      ∀ addr, addr ∈ (call.walkAt mem routine t).2.1.written ↔
        addr ∈ (call.storedBefore (t + 1)).map Piece.addr := by
  obtain ⟨-, stored, -, -⟩ := inv.walked serves waiting
  obtain ⟨new, more, written, distinct, fresh⟩ := (walk_walked (routine.path mem)
    (progressOf call.key (call.tableAt t)) (call.turns t).access).stored
  change (call.walkAt mem routine t).2.2.stored = _ at more
  rw [serves.fair.stored t] at more
  rw [storedBefore_succ, stored, more, map_append]
  constructor
  · rw [nodup_append]
    refine ⟨inv.distinct, distinct, fun addr before addr' after => ?_⟩
    rintro rfl
    obtain ⟨piece, member, rfl⟩ := mem_map.mp after
    exact (fresh piece member).1 ((inv.written piece.addr).mpr before)
  · intro addr
    rw [mem_append, ← inv.written addr]
    exact written addr

theorem Consistent.next (waiting : call.Waiting (t + 1)) :
    call.Consistent mem routine (t + 1) := by
  have earlier : call.Waiting t := waiting.le (by omega)
  obtain ⟨replied, stored, agrees, kept⟩ := inv.walked serves earlier
  obtain ⟨distinct, written⟩ := inv.storing serves earlier
  have stopped : (call.walkAt mem routine t).1 ≠ none := by
    intro ended
    obtain ⟨fault, asked⟩ := waiting t (by omega)
    rw [ended] at replied
    exact routine.result_settled mem (Option.some.inj (replied.symm.trans asked))
  have progress := kept stopped
  refine ⟨progress ▸ agrees, progress ▸ written, distinct, fun any => ?_⟩
  rw [progress]
  by_cases before : call.storedBefore t = []
  · apply path_reads_done
    intro same
    change (call.walkAt mem routine t).2.2.stored = _ at same
    rw [storedBefore_succ, stored, same, serves.fair.stored t, before] at any
    exact any rfl
  · intro start member
    exact (inv.reads before start member).walked (walk_walked _ _ _)

end

theorem inv (waiting : call.Waiting t) : call.Consistent mem routine t := by
  induction t with
  | zero => exact serves.fair.begun
  | succ t inductionHypothesis =>
    exact (inductionHypothesis (waiting.le (by omega))).next serves waiting

/-- An attempt that asks for a page has stopped there, and its progress is kept. -/
theorem stopped (waiting : call.Waiting (t + 1)) :
    ∃ fault, call.replyAt t = some (.needPage fault) ∧ (call.walkAt mem routine t).1 = some fault ∧
      progressOf call.key (call.tableAt (t + 1)) = (call.walkAt mem routine t).2.1 := by
  have earlier : call.Waiting t := waiting.le (by omega)
  obtain ⟨replied, -, -, kept⟩ := (inv serves earlier).walked serves earlier
  obtain ⟨fault, asked⟩ := waiting t (by omega)
  cases ended : (call.walkAt mem routine t).1 with
  | none =>
    rw [ended] at replied
    exact absurd (Option.some.inj (replied.symm.trans asked))
      (routine.result_settled mem)
  | some fault' =>
    rw [ended] at replied
    cases Option.some.inj (replied.symm.trans asked)
    exact ⟨fault, asked, rfl, kept (by simp [ended])⟩

section
variable (inRange : ∀ touch ∈ routine.path mem, touch.InRange)
include inRange

theorem counted (waiting : call.Waiting (t + 1)) :
    t ≤ (recorded (routine.path mem)
      (progressOf call.key (call.tableAt (t + 1)))).card := by
  induction t with
  | zero => exact Nat.zero_le _
  | succ t inductionHypothesis =>
    have earlier : call.Waiting (t + 1) := waiting.le (by omega)
    obtain ⟨fault, asked, ended, kept⟩ := stopped serves earlier
    obtain ⟨-, -, -, kept'⟩ := stopped serves waiting
    have usable := serves.fair.asked t fault (waiting.le (by omega)) asked
    obtain ⟨touch, member, before, after⟩ := walk_progresses ended usable inRange
    change ¬touch.Done (call.walkAt mem routine t).2.1 at before
    change touch.Done (walk (routine.path mem)
      (call.walkAt mem routine t).2.1 (call.turns (t + 1)).access).2.1 at after
    rw [← kept] at before after
    have more := card_recorded_lt (walk_walked (routine.path mem)
      (progressOf call.key (call.tableAt (t + 1))) (call.turns (t + 1)).access) member before after
    rw [kept']
    exact Nat.lt_of_le_of_lt (inductionHypothesis earlier) more

theorem waiting_le (waiting : call.Waiting t) :
    t ≤ (routine.pagesRead mem).card + (routine.writes mem).length := by
  cases t with
  | zero => exact Nat.zero_le _
  | succ t =>
    obtain ⟨fault, -, ended, kept⟩ := stopped serves waiting
    obtain ⟨before, touch, after, split, -, undone, -⟩ := walk_fault ended
    change ¬touch.Done (call.walkAt mem routine t).2.1 at undone
    rw [← kept] at undone
    have member : touch ∈ routine.path mem := by simp [split]
    calc t + 1 ≤ (recorded (routine.path mem)
            (progressOf call.key (call.tableAt (t + 1)))).card + 1 :=
          Nat.succ_le_succ (counted serves inRange waiting)
      _ ≤ ((routine.path mem).map Touch.slot).toFinset.card :=
          card_recorded_undone member (inRange touch member) undone
      _ ≤ _ := card_slots_le mem

variable (distinct : ((routine.writes mem).map addr).Nodup)
  (waiting : call.Waiting t)
include distinct waiting

/-- Under an attempt, what is stored stays the front of what the routine writes. -/
theorem in_order_next (front : call.storedBefore t = (routine.writes mem).take k) :
    ∃ k, call.storedBefore (t + 1) = (routine.writes mem).take k := by
  have inv := inv serves waiting
  obtain ⟨-, stored, -, -⟩ := inv.walked serves waiting
  rw [storedBefore_succ, stored, walkAt, Routine.path, walk_append]
  have readsStored := walk_read_stored (routine.reads mem)
    (progressOf call.key (call.tableAt t)) (call.turns t).access
  have readsWalked := walk_walked ((routine.reads mem).map .read)
    (progressOf call.key (call.tableAt t)) (call.turns t).access
  generalize walk ((routine.reads mem).map .read)
    (progressOf call.key (call.tableAt t)) (call.turns t).access = reading at *
  rw [serves.fair.stored t] at readsStored
  obtain ⟨_ | fault, progress', access'⟩ := reading
  · obtain ⟨new, more, written, -, among⟩ := readsWalked.stored
    have none : new = [] := by
      rw [readsStored, serves.fair.stored t] at more
      exact more.symm
    have recorded : ∀ addr, addr ∈ progress'.written ↔
        addr ∈ ((routine.writes mem).take k).map Piece.addr := by
      intro addr
      rw [written addr, none, ← front, ← inv.written addr]
      simp
    obtain ⟨j, more⟩ : ∃ j,
        (walk ((routine.writes mem).map .store) progress' access').2.2.stored =
          access'.stored ++ ((routine.writes mem).drop k).take j := by
      apply walk_rest distinct _ recorded
      intro piece member
      exact inRange _ (mem_append_right _ (mem_map_of_mem member))
    refine ⟨k + j, ?_⟩
    rw [more, readsStored, front, nil_append, take_add]
  · refine ⟨k, ?_⟩
    rw [front, readsStored, append_nil]

theorem in_order : ∃ k, call.storedBefore t = (routine.writes mem).take k := by
  induction t with
  | zero => exact ⟨0, rfl⟩
  | succ t inductionHypothesis =>
    have earlier : call.Waiting t := waiting.le (by omega)
    obtain ⟨k, front⟩ := inductionHypothesis earlier
    exact in_order_next serves inRange distinct earlier front

end

/-- Up to an attempt that walks to the end, every piece is stored. -/
theorem completed (waiting : call.Waiting t) (ended : (call.walkAt mem routine t).1 = none) :
    (∀ touch ∈ routine.path mem, touch.InRange) ∧ ((call.storedBefore (t + 1)).map addr).Nodup ∧
      ∀ piece ∈ routine.writes mem,
        piece.addr ∈ (call.storedBefore (t + 1)).map addr := by
  obtain ⟨distinct, written⟩ := (inv serves waiting).storing serves waiting
  have done := walk_done ended
  refine ⟨fun touch member => (done touch member).1, distinct, fun piece member => ?_⟩
  have recorded := (done (.store piece) (mem_append_right _ (mem_map_of_mem member))).2
  exact (written piece.addr).mp recorded

theorem ended_of_reply (waiting : call.Waiting t)
    (replied : ∀ fault, call.replyAt t ≠ some (.needPage fault)) :
    (call.walkAt mem routine t).1 = none := by
  obtain ⟨reply, -, -, -⟩ := (inv serves waiting).walked serves waiting
  cases ended : (call.walkAt mem routine t).1 with
  | none => rfl
  | some fault =>
    rw [ended] at reply
    exact absurd reply (replied fault)

theorem answered (inRange : ∀ touch ∈ routine.path mem, touch.InRange) :
    ∃ n ≤ (routine.pagesRead mem).card + (routine.writes mem).length,
      call.Waiting n ∧ ∀ fault, call.replyAt n ≠ some (.needPage fault) := by
  by_contra unanswered
  have asks : ∀ n, call.Waiting n → call.Waiting (n + 1) := by
    intro n waiting s before
    rcases Nat.lt_succ_iff_lt_or_eq.mp before with earlier | rfl
    · exact waiting s earlier
    · by_contra settled
      apply unanswered
      refine ⟨s, waiting_le serves inRange waiting, waiting, ?_⟩
      exact fun fault asked => settled ⟨fault, asked⟩
  have always : ∀ n, call.Waiting n := by
    intro n
    induction n with
    | zero => exact fun s none => absurd none (by omega)
    | succ n inductionHypothesis => exact asks n inductionHypothesis
  have bounded := waiting_le serves inRange
    (always ((routine.pagesRead mem).card +
      (routine.writes mem).length + 1))
  omega

end Attempted

/-- All pieces are stored once the front that is stored has every start. -/
theorem front_eq_all (distinct : (parts.map addr).Nodup)
    (all : ∀ piece ∈ parts, piece.addr ∈ (parts.take k).map addr) : parts.take k = parts := by
  have apart : ((parts.take k).map addr ++ (parts.drop k).map addr).Nodup := by
    rw [← map_append, take_append_drop]
    exact distinct
  obtain ⟨-, -, disjoint⟩ := nodup_append.mp apart
  have rest : parts.drop k = [] := by
    apply eq_nil_iff_forall_not_mem.mpr
    intro piece member
    exact disjoint _ (all piece (mem_of_mem_drop member)) _ (mem_map_of_mem member) rfl
  have split := take_append_drop k parts
  rw [rest, append_nil] at split
  exact split

end Retries

open Retries

/-- A call that reads and then writes completes after at most one need-page answer for
each page read and piece written, with the result it has with all pages present, and
each piece stored once, exactly where its ranges end in the address space and no two
pieces start at one address. -/
theorem hostcall_completes_iff (call : Retries) (mem : Nat → Byte) (service : List Nat → Routine)
    (served : call.services call.number = some service)
    (readsFirst : (service call.args).ReadsFirst)
    (fair : call.Fair mem ((service call.args).reads mem)) :
    (∃ n ≤ ((service call.args).pagesRead mem).card + ((service call.args).writes mem).length,
      call.Waiting n ∧ call.replyAt n = some ((service call.args).result mem) ∧
        call.storedBefore (n + 1) = (service call.args).writes mem) ↔
      (∀ touch ∈ (service call.args).path mem, touch.InRange) ∧
        (((service call.args).writes mem).map addr).Nodup := by
  have serves : call.Serves mem (service call.args) := ⟨readsFirst, fair, service, served, rfl⟩
  constructor
  · rintro ⟨n, -, waiting, replied, stored⟩
    have ended := ended_of_reply serves waiting fun fault asked =>
      (service call.args).result_settled mem (Option.some.inj (replied.symm.trans asked))
    obtain ⟨inRange, distinct, -⟩ := completed serves waiting ended
    exact ⟨inRange, stored ▸ distinct⟩
  · rintro ⟨inRange, distinct⟩
    obtain ⟨n, bound, waiting, settled⟩ := answered serves inRange
    have ended := ended_of_reply serves waiting settled
    obtain ⟨replied, -, -, -⟩ := (inv serves waiting).walked serves waiting
    rw [ended] at replied
    obtain ⟨-, -, all⟩ := completed serves waiting ended
    obtain ⟨k, before⟩ := in_order serves inRange distinct waiting
    obtain ⟨j, after⟩ := in_order_next serves inRange distinct waiting before
    refine ⟨n, bound, waiting, replied, ?_⟩
    rw [after] at all ⊢
    exact front_eq_all distinct all

def onlyPage (page : Nat) : Access :=
  ⟨7, fun _ => 9, fun other => other = page, fun other => other = page, []⟩

def copies (_ : List Nat) : Routine :=
  .read 0x2000 2 fun buf => .write 0xfff buf (.finish (.ok 2 0) rfl)

/-- Two bytes are copied to a page boundary, with one page usable at a time. -/
def copyAcross : Retries where
  services _ := some copies
  number := selfTestNumber
  args := []
  space := 7
  turns t := ⟨[], onlyPage ([0x2000, 0].getD t 0x1000)⟩
  start := []

theorem copyAcross_replies : copyAcross.replyAt 0 = some (.needPage ⟨0, true⟩) ∧
    copyAcross.replyAt 1 = some (.needPage ⟨0x1000, true⟩) ∧
    copyAcross.replyAt 2 = some (.ok 2 0) := by
  decide +kernel

theorem copyAcross_waiting (waiting : copyAcross.Waiting t) : t = 0 ∨ t = 1 ∨ t = 2 := by
  by_contra later
  obtain ⟨fault, asked⟩ := waiting 2 (by omega)
  cases copyAcross_replies.2.2.symm.trans asked

theorem copyAcross_fair : copyAcross.Fair (fun _ => 9) [0x2000] where
  begins := by simp [copyAcross]
  space _ := rfl
  stored _ := rfl
  others _ _ := trivial
  room t waiting := by
    rcases copyAcross_waiting waiting with rfl | rfl | rfl <;> exact .inr (by decide +kernel)
  asked t fault waiting asked := by
    rcases copyAcross_waiting waiting with rfl | rfl | rfl
    · cases copyAcross_replies.1.symm.trans asked
      rfl
    · cases copyAcross_replies.2.1.symm.trans asked
      rfl
    · cases copyAcross_replies.2.2.symm.trans asked
  unchanged _ _ _ _ _ _ _ := rfl

/-- It completes after at most three need-page answers, and each of the two bytes is
stored once. -/
theorem copy_across_completes : ∃ n ≤ 3, copyAcross.Waiting n ∧
    copyAcross.replyAt n = some (.ok 2 0) ∧
    copyAcross.storedBefore (n + 1) = [⟨0xfff, [9]⟩, ⟨0x1000, [9]⟩] :=
  (hostcall_completes_iff copyAcross (fun _ => 9) copies rfl (fun _ => trivial)
    copyAcross_fair).mpr ⟨by decide +kernel, by decide +kernel⟩

def writesTwice (_ : List Nat) : Routine :=
  .write 0x1000 [1] (.write 0x1000 [2] (.finish (.ok 0 0) rfl))

def writeTwice : Retries where
  services _ := some writesTwice
  number := selfTestNumber
  args := []
  space := 7
  turns _ := ⟨[], onlyPage 0x1000⟩
  start := []

/-- The second write does not reach memory, with all pages present. -/
theorem second_write_dropped : writeTwice.replyAt 0 = some (.ok 0 0) ∧
    (writesTwice []).writes (fun _ => 0) = [⟨0x1000, [1]⟩, ⟨0x1000, [2]⟩] ∧
    writeTwice.storedBefore 1 = [⟨0x1000, [1]⟩] ∧
    (writeTwice.attempt 0).map (fun attempt => attempt.2.2.mem 0x1000) = some 1 := by
  decide +kernel

end Iris.Hostcall
