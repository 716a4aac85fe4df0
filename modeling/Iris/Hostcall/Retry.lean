import Iris.Hostcall.Paging

/-!
Owns the table of progress across a call's attempts: a call finds its own progress
again while other calls come and go, as long as no more calls are in flight than
the table holds.
-/

namespace Iris.Hostcall

open List

/-! ### The table -/

/-- The progress recorded for a call, or none yet. -/
def progressOf (key : Key) (inFlight : List InFlight) : InFlight :=
  (inFlight.find? (·.key = key)).getD { key }

/-- No more calls are in flight than the table holds. -/
def Room (key : Key) (inFlight : List InFlight) : Prop :=
  (∃ progress ∈ inFlight, progress.key = key) ∨ inFlight.length < maxInFlight

theorem find_split {key : Key} (inFlight : List InFlight) :
    (inFlight.findIdx? (·.key = key) = none ∧ ∀ progress ∈ inFlight, progress.key ≠ key) ∨
      ∃ before progress after, inFlight = before ++ progress :: after ∧
        inFlight.findIdx? (·.key = key) = some before.length ∧ progress.key = key ∧
        ∀ other ∈ before, other.key ≠ key := by
  induction inFlight with
  | nil => exact .inl ⟨rfl, by simp⟩
  | cons head rest inductionHypothesis =>
    by_cases here : head.key = key
    · exact .inr ⟨[], head, rest, rfl, by simp [findIdx?_cons, here], here, by simp⟩
    rcases inductionHypothesis with ⟨absent, others⟩ |
      ⟨before, progress, after, rfl, found, same, others⟩
    · refine .inl ⟨by simp [findIdx?_cons, here, absent], fun progress member => ?_⟩
      rcases mem_cons.mp member with rfl | later
      · exact here
      · exact others progress later
    · refine .inr ⟨head :: before, progress, after, rfl,
        by simp [findIdx?_cons, here, found], same, fun other member => ?_⟩
      rcases mem_cons.mp member with rfl | later
      · exact here
      · exact others other later

theorem find_of_split {after : List InFlight} (same : progress.key = key)
    (others : ∀ other ∈ before, other.key ≠ key) :
    (before ++ progress :: after).find? (·.key = key) = some progress := by
  rw [find?_append, find?_eq_none.mpr (by simpa using others)]
  simp [same]

theorem find_other {before after : List InFlight} (same : progress.key = key)
    (different : other ≠ key) :
    (before ++ progress :: after).find? (·.key = other) =
      (before ++ after).find? (·.key = other) := by
  rw [find?_append, find?_append, find?_cons_of_neg]
  simpa [same] using Ne.symm different

/-- A slot for the call, with its progress in it, beside entries of the table: all of them
where there is room. -/
theorem slotFor_split (key : Key) (inFlight : List InFlight) :
    ∃ before after, slotFor key inFlight =
        (before.length, before ++ progressOf key inFlight :: after) ∧
      (∀ other ∈ before, other.key ≠ key) ∧ (progressOf key inFlight).key = key ∧
      (before ++ after).Sublist inFlight ∧
      ((inFlight.map InFlight.key).Nodup → ∀ other ∈ after, other.key ≠ key) ∧
      (Room key inFlight → ∀ other, other ≠ key →
        (before ++ after).find? (·.key = other) = inFlight.find? (·.key = other)) := by
  rcases find_split inFlight with ⟨absent, others⟩ | ⟨before, progress, after, rfl, found, same,
    others⟩
  · have none : inFlight.find? (·.key = key) = none := find?_eq_none.mpr (by simpa using others)
    have fewer : (if inFlight.length = maxInFlight then inFlight.tail else inFlight).Sublist
        inFlight := by
      split
      · exact tail_sublist inFlight
      · exact Sublist.refl inFlight
    refine ⟨if inFlight.length = maxInFlight then inFlight.tail else inFlight, [], ?_,
      fun other member => others other (fewer.subset member), ?_, ?_, nofun, ?_⟩
    · rw [slotFor, absent, progressOf, none]
      rfl
    · rw [progressOf, none]
      rfl
    · rw [append_nil]
      exact fewer
    · rintro (⟨progress, member, same⟩ | fits) other -
      · exact absurd same (others progress member)
      · rw [if_neg fits.ne, append_nil]
  · have here : progressOf key (before ++ progress :: after) = progress := by
      rw [progressOf, find_of_split same others]
      rfl
    refine ⟨before, after, ?_, others, by rw [here, same],
      (Sublist.refl before).append (sublist_cons_self progress after),
      fun distinct other later again => ?_, fun _ other different => ?_⟩
    · rw [slotFor, found, here]
    · rw [map_append] at distinct
      have alone := (nodup_cons.mp (nodup_append.mp distinct).2.1).1
      rw [same, ← again] at alone
      exact alone (mem_map_of_mem later)
    · exact (find_other same different).symm

theorem progressOf_eq_or (key : Key) (inFlight : List InFlight) :
    progressOf key inFlight = { key } ∨
      progressOf key inFlight ∈ inFlight ∧ (progressOf key inFlight).key = key := by
  unfold progressOf
  cases found : inFlight.find? (·.key = key) with
  | none => exact .inl rfl
  | some progress =>
    exact .inr ⟨mem_of_find?_eq_some found, by simpa using find?_some found⟩

/-! ### One dispatch -/

section Dispatch
variable {services : Services} {number : Nat} {args : List Nat} {service : List Nat → Routine}
  {access access' : Access} {inFlight : List InFlight} {reply : Reply} {progress : InFlight}

/-- What a call leaves of the table its slot was found in. -/
theorem dispatch_of_slot (served : services number = some service)
    (slot : slotFor ⟨access.space, number, args⟩ inFlight =
      (before.length, before ++ entry :: later))
    (called : (service args).call entry access = (reply, progress, access')) :
    dispatch services number access args inFlight =
      some (reply, if reply.isNeedPage then before ++ progress :: later else before ++ later,
        access') := by
  simp only [dispatch, served, slot, Option.bind_eq_bind, Option.bind_some, called,
    getElem?_append_right le_rfl, Nat.sub_self, getElem?_cons_zero,
    set_append_right _ _ le_rfl, set_cons_zero,
    eraseIdx_append_of_length_le le_rfl, eraseIdx_cons_zero]
  cases reply with
  | needPage fault | ok v0 v1 | err errno => rfl

/-- The call runs on its own progress. If it asks for a page the progress made is
kept for it, and whatever it answers the progress of other calls stays. -/
theorem dispatch_spec (served : services number = some service)
    (room : Room ⟨access.space, number, args⟩ inFlight)
    (called : (service args).call (progressOf ⟨access.space, number, args⟩ inFlight) access =
      (reply, progress, access')) :
    ∃ after, dispatch services number access args inFlight = some (reply, after, access') ∧
      (reply.isNeedPage = true → progressOf ⟨access.space, number, args⟩ after = progress) ∧
      ∀ other, other ≠ ⟨access.space, number, args⟩ →
        progressOf other after = progressOf other inFlight := by
  obtain ⟨before, later, slot, others, same, -, -, rest⟩ :=
    slotFor_split ⟨access.space, number, args⟩ inFlight
  have key : progress.key = ⟨access.space, number, args⟩ := by
    have kept := (call_touched (service args) (progressOf ⟨access.space, number, args⟩ inFlight)
      access).key
    rw [called] at kept
    exact kept.trans same
  have dispatched := dispatch_of_slot served slot called
  refine ⟨_, dispatched, fun asked => ?_, fun other different => ?_⟩
  · rw [if_pos asked, progressOf, find_of_split key others]
    rfl
  · rw [progressOf, progressOf, ← rest room other different]
    split
    · rw [find_other key different]
    · rfl

end Dispatch

/-! ### A call and its retries -/

structure Calling where
  number : Nat
  args : List Nat
  access : Access

def Calling.key (calling : Calling) : Key := ⟨calling.access.space, calling.number, calling.args⟩

def tableAfter (services : Services) (inFlight : List InFlight) (calling : Calling) :
    List InFlight :=
  ((dispatch services calling.number calling.access calling.args inFlight).map (·.2.1)).getD inFlight

/-- What happens until the next attempt: other calls, and then the attempt, with the
pages as they are by then. -/
structure Turn where
  others : List Calling
  access : Access

/-- The other calls are other calls, and find room. -/
def OthersFit (services : Services) (key : Key) : List InFlight → List Calling → Prop
  | _, [] => True
  | inFlight, calling :: rest =>
    key ≠ calling.key ∧ Room calling.key inFlight ∧
      OthersFit services key (tableAfter services inFlight calling) rest

section
variable {services : Services} {key : Key} {inFlight : List InFlight}

theorem progressOf_tableAfter (different : key ≠ calling.key) (room : Room calling.key inFlight) :
    progressOf key (tableAfter services inFlight calling) = progressOf key inFlight := by
  cases served : services calling.number with
  | none => simp [tableAfter, dispatch, served]
  | some service =>
    obtain ⟨after, dispatched, -, others⟩ := dispatch_spec served room rfl
    rw [tableAfter, dispatched]
    exact others key different

theorem OthersFit.progressOf {others : List Calling}
    (fit : OthersFit services key inFlight others) :
    progressOf key (others.foldl (tableAfter services) inFlight) = progressOf key inFlight := by
  induction others generalizing inFlight with
  | nil => rfl
  | cons calling rest inductionHypothesis =>
    obtain ⟨different, room, later⟩ := fit
    exact (inductionHypothesis later).trans (progressOf_tableAfter different room)

end

/-- A call made again and again, from a table of progress. -/
structure Retries where
  services : Services
  number : Nat
  args : List Nat
  space : Nat
  turns : Nat → Turn
  start : List InFlight

namespace Retries
variable (call : Retries)

def key : Key := ⟨call.space, call.number, call.args⟩

/-- The table before attempt `t`, and with the other calls made until then. -/
def tableAt : Nat → List InFlight
  | 0 => call.start
  | t + 1 =>
    tableAfter call.services
      ((call.turns t).others.foldl (tableAfter call.services) (tableAt t))
      ⟨call.number, call.args, (call.turns t).access⟩

def tableFor (t : Nat) : List InFlight :=
  (call.turns t).others.foldl (tableAfter call.services) (call.tableAt t)

def attempt (t : Nat) : Option (Reply × List InFlight × Access) :=
  dispatch call.services call.number (call.turns t).access call.args (call.tableFor t)

def replyAt (t : Nat) : Option Reply := (call.attempt t).map (·.1)

def storedAt (t : Nat) : List Piece := ((call.attempt t).map (·.2.2.stored)).getD []

/-- What the attempts before `t` stored, in order. -/
def storedBefore (t : Nat) : List Piece := (range t).flatMap call.storedAt

/-- All attempts before `t` answered need-page. -/
def Waiting (t : Nat) : Prop := ∀ s < t, ∃ fault, call.replyAt s = some (.needPage fault)

/-- The guest's side while a call waits: the call is not in the table when it begins,
it is made again once the page asked for is usable, at most as many calls are in
flight as the table holds, and what the call reads is `mem` until it stores. -/
structure Fair (mem : Nat → Byte) (reads : List Nat) : Prop where
  begins : ∀ progress ∈ call.start, progress.key ≠ call.key
  space : ∀ t, (call.turns t).access.space = call.space
  stored : ∀ t, (call.turns t).access.stored = []
  others : ∀ t, call.Waiting t →
    OthersFit call.services call.key (call.tableAt t) (call.turns t).others
  room : ∀ t, call.Waiting t → Room call.key (call.tableFor t)
  asked : ∀ t fault, call.Waiting t → call.replyAt t = some (.needPage fault) →
    (call.turns (t + 1)).access.Usable fault
  unchanged : ∀ t, call.Waiting t → call.storedBefore t = [] →
    ∀ first ∈ reads, ∀ off < pageSize,
      (call.turns t).access.mem (pageOf first + off) = mem (pageOf first + off)

variable {call} {mem : Nat → Byte} {service : List Nat → Routine} {t : Nat}

theorem storedBefore_succ (t : Nat) :
    call.storedBefore (t + 1) = call.storedBefore t ++ call.storedAt t := by
  simp [storedBefore, range_succ]

theorem Waiting.le (waiting : call.Waiting t) (earlier : s ≤ t) : call.Waiting s :=
  fun r before => waiting r (by omega)

/-- An attempt runs the routine on the progress of the attempts before. -/
theorem Fair.attempted (fair : call.Fair mem reads)
    (served : call.services call.number = some service) (waiting : call.Waiting t) :
    let called := (service call.args).call (progressOf call.key (call.tableAt t))
      (call.turns t).access
    call.replyAt t = some called.1 ∧ call.storedAt t = called.2.2.stored ∧
      (called.1.isNeedPage = true → progressOf call.key (call.tableAt (t + 1)) = called.2.1) := by
  have space := fair.space t
  have same : (⟨(call.turns t).access.space, call.number, call.args⟩ : Key) = call.key := by
    rw [space]
    rfl
  have own : progressOf call.key (call.tableFor t) = progressOf call.key (call.tableAt t) :=
    (fair.others t waiting).progressOf
  have room := fair.room t waiting
  rw [← same] at room
  obtain ⟨after, dispatched, kept, -⟩ := dispatch_spec served room rfl
  rw [same, own] at dispatched kept
  refine ⟨?_, ?_, fun asked => ?_⟩
  · rw [replyAt, attempt, dispatched]
    rfl
  · rw [storedAt, attempt, dispatched]
    rfl
  · rw [← kept asked]
    change progressOf call.key (((dispatch call.services call.number (call.turns t).access call.args
      (call.tableFor t)).map (·.2.1)).getD (call.tableFor t)) = progressOf call.key after
    rw [dispatched]
    rfl

end Retries

end Iris.Hostcall
