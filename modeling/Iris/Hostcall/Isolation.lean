import Iris.Hostcall.Retry
import Iris.Library.Run

/-!
Owns what a call can see of another: an attempt that finds only its own call's
progress reads bytes memory held after the call began, and passes over only what
the call itself stored.
-/

namespace Iris.Hostcall

open Library.Run List Option Routine InFlight

/-! ### What a routine sees -/

namespace Routine

/-- The ranges an attempt reads, with the bytes it gets. -/
def observed : Routine → InFlight → Access → List (Nat × List Byte)
  | .read addr len next, progress, access =>
    match progress.read access (stretches len addr len) with
    | (.error _, _) => []
    | (.ok bytes, progress) => (addr, bytes) :: (next bytes).observed progress access
  | .write addr data next, progress, access =>
    match progress.write (pieces addr data) access with
    | (.error _, _, _) => []
    | (.ok (), progress, access) => next.observed progress access
  | .finish _ _, _, _ => []

/-- The pieces of the writes an attempt carries out. -/
def issued : Routine → InFlight → Access → List Piece
  | .read addr len next, progress, access =>
    match progress.read access (stretches len addr len) with
    | (.error _, _) => []
    | (.ok bytes, progress) => (next bytes).issued progress access
  | .write addr data next, progress, access =>
    match progress.write (pieces addr data) access with
    | (.error _, _, _) => []
    | (.ok (), progress, access) => pieces addr data ++ next.issued progress access
  | .finish _ _, _, _ => []

end Routine

/-! ### How memory changes in an attempt -/

/-- `after` is `before` with some pieces stored. -/
def Access.Evolves (before after : Access) : Prop :=
  ∃ new : List Piece, after.stored = before.stored ++ new ∧
    after.mem = new.foldl (fun mem piece => piece.storeIn mem) before.mem

theorem Access.Evolves.refl (access : Access) : access.Evolves access := ⟨[], by simp, rfl⟩

theorem Access.Evolves.trans {first second third : Access} (before : first.Evolves second)
    (after : second.Evolves third) : first.Evolves third := by
  obtain ⟨new, stored, mem⟩ := before
  obtain ⟨new', stored', mem'⟩ := after
  exact ⟨new ++ new', by rw [stored', stored, append_assoc], by rw [mem', mem, foldl_append]⟩

theorem Access.Evolves.keeps {before after : Access} (evolves : before.Evolves after)
    {piece : Piece} (member : piece ∈ before.stored) : piece ∈ after.stored := by
  obtain ⟨new, stored, -⟩ := evolves
  rw [stored]
  exact mem_append_left _ member

/-- The pages on record are pages of memory at moments in `Source`, and the starts on
record are those of pieces in `Stored`. -/
structure InFlight.Sourced (Source : (Nat → Byte) → Prop) (Stored : Piece → Prop)
    (progress : InFlight) : Prop where
  pages : ∀ page held, progress.pages page = some held →
    ∃ mem, Source mem ∧ held = fun off => mem (page + off)
  written : ∀ addr ∈ progress.written, ∃ piece, Stored piece ∧ piece.addr = addr

section Walk
variable {Source : (Nat → Byte) → Prop} {Stored : Piece → Prop} {touches : List Touch}
  {progress progress' : InFlight} {access access' : Access}

theorem Made.evolves {touch : Touch} (made : Made touch progress progress' access access') :
    access.Evolves access' := by
  rcases made.written with ⟨stored, -, mem⟩ | ⟨piece, -, -, stored, -, mem⟩
  · exact ⟨[], by rw [stored, append_nil], mem⟩
  · exact ⟨[piece], stored, mem⟩

theorem Touched.evolves (touched : Touched progress access progress' access') :
    access.Evolves access' := by
  induction touched with
  | refl => exact .refl _
  | head made _ inductionHypothesis => exact made.evolves.trans inductionHypothesis

theorem Made.sourced {touch : Touch} (made : Made touch progress progress' access access')
    (sourced : progress.Sourced Source Stored) (moment : Source access.mem)
    (stores : ∀ piece ∈ access'.stored, Stored piece) : progress'.Sourced Source Stored := by
  constructor
  · intro page held present
    cases before : progress.pages page with
    | some held' =>
      cases (made.pages page held' before).symm.trans present
      exact sourced.pages page held before
    | none =>
      obtain ⟨-, rfl, rfl⟩ := made.read page before held present
      exact ⟨access.mem, moment, rfl⟩
  · intro addr member
    rcases made.written with ⟨-, same, -⟩ | ⟨piece, -, -, stored, grown, -⟩
    · exact sourced.written addr (same ▸ member)
    · rcases Finset.mem_insert.mp (grown ▸ member) with rfl | earlier
      · exact ⟨piece, stores piece (by simp [stored]), rfl⟩
      · exact sourced.written addr earlier

/-- Touches at moments that are sources, whose pieces are stored ones. -/
theorem Touched.sourced (touched : Touched progress access progress' access')
    (sourced : progress.Sourced Source Stored)
    (moments : ∀ between, access.Evolves between → between.Evolves access' → Source between.mem)
    (stores : ∀ piece ∈ access'.stored, Stored piece) : progress'.Sourced Source Stored := by
  induction touched with
  | refl => exact sourced
  | head made rest inductionHypothesis =>
    have later := rest.evolves
    apply inductionHypothesis
    · exact made.sourced sourced (moments _ (.refl _) (made.evolves.trans later))
        fun piece member => stores piece (later.keeps member)
    · exact fun between before after => moments between (made.evolves.trans before) after
    · exact stores

end Walk

/-! ### What a record makes the routine write -/

/-- The pieces the routine comes to write as far as the record leads it. -/
def Routine.replayed (progress : InFlight) : Routine → List Piece
  | .read addr len next =>
    if progress.Holds addr len then (next (shown progress.view addr len)).replayed progress
    else []
  | .write addr data next => pieces addr data ++ next.replayed progress
  | .finish _ _ => []

section Replay
variable {progress progress' : InFlight} {access : Access} {addr len : Nat}

section
variable
  (pages : ∀ page held, progress.pages page = some held → progress'.pages page = some held)
include pages

theorem InFlight.Holds.mono (holds : progress.Holds addr len) : progress'.Holds addr len := by
  intro part member
  obtain ⟨held, recorded⟩ := isSome_iff_exists.mp (holds part member)
  exact isSome_iff_exists.mpr ⟨held, pages _ _ recorded⟩

theorem InFlight.Holds.shown_eq (holds : progress.Holds addr len) :
    shown progress'.view addr len = shown progress.view addr len := by
  apply map_congr_left
  intro i member
  obtain ⟨part, among, samePage⟩ :=
    @stretches_cover len addr len i (Nat.le_refl len) (mem_range.mp member)
  obtain ⟨held, recorded⟩ := isSome_iff_exists.mp (holds part among)
  rw [view, view, samePage, recorded, pages _ _ recorded]

theorem replayed_mono {routine : Routine} :
    ∀ piece ∈ routine.replayed progress, piece ∈ routine.replayed progress' := by
  induction routine with
  | finish => exact nofun
  | write addr data next inductionHypothesis =>
    exact fun piece member =>
      mem_append.mpr ((mem_append.mp member).imp_right (inductionHypothesis piece))
  | read addr len next inductionHypothesis =>
    intro piece member
    rw [replayed] at member ⊢
    by_cases holds : progress.Holds addr len
    · rw [if_pos holds] at member
      rw [if_pos (holds.mono pages), holds.shown_eq pages]
      exact inductionHypothesis _ piece member
    · rw [if_neg holds] at member
      cases member

end

/-- What an attempt stores, and what it reports written, the record it leaves leads to. -/
theorem call_replayed {routine : Routine} (progress : InFlight) (access : Access) :
    (∀ piece ∈ (routine.call progress access).2.2.stored,
      piece ∈ access.stored ∨ piece ∈ routine.replayed (routine.call progress access).2.1) ∧
    ∀ piece ∈ routine.issued progress access,
      piece ∈ routine.replayed (routine.call progress access).2.1 := by
  induction routine generalizing progress access with
  | finish => exact ⟨fun _ => .inl, by simp [issued]⟩
  | read addr len next inductionHypothesis =>
    obtain ⟨fault, progress', -, read, holds, -⟩ :=
      @read_range progress.view progress access addr len
    rw [call, issued, read]
    rcases fault with _ | fault
    case some => exact ⟨fun _ => .inl, by simp⟩
    generalize flat : shown progress'.view addr len = bytes
    have kept := (call_touched (next bytes) progress' access).pages
    have replayed : (Routine.read addr len next).replayed
        ((next bytes).call progress' access).2.1 =
          (next bytes).replayed ((next bytes).call progress' access).2.1 := by
      rw [Routine.replayed, if_pos (InFlight.Holds.mono kept (holds rfl)),
        Holds.shown_eq kept (holds rfl), flat]
    rw [replayed]
    exact inductionHypothesis bytes progress' access
  | write addr data next inductionHypothesis =>
    obtain ⟨new, stored, -, -, among⟩ :=
      (walk_walked ((pieces addr data).map .store) progress access).stored
    have ofWrite : ∀ piece ∈ (walk ((pieces addr data).map .store) progress access).2.2.stored,
        piece ∈ access.stored ∨ piece ∈ pieces addr data := by
      intro piece member
      rw [stored] at member
      exact (mem_append.mp member).imp_right fun here => by simpa using (among piece here).2
    rw [call, issued, (write_eq_walk _ _ _).1]
    generalize walk ((pieces addr data).map .store) progress access = walked at ofWrite ⊢
    rcases walked with ⟨fault | fault, progress', access'⟩
    · obtain ⟨later, laterIssued⟩ := inductionHypothesis progress' access'
      constructor
      · intro piece member
        rcases later piece member with before | after
        · exact (ofWrite piece before).imp_right (mem_append_left _)
        · exact .inr (mem_append_right _ after)
      · exact fun piece member =>
          mem_append.mpr ((mem_append.mp member).imp_right (laterIssued piece))
    · exact ⟨fun piece member => (ofWrite piece member).imp_right (mem_append_left _), by simp⟩

end Replay

/-! ### One attempt -/

section Attempt
variable {Source : (Nat → Byte) → Prop} {Stored : Piece → Prop} {progress : InFlight}
  {access : Access}

/-- Nothing is stored between a moment and itself. -/
theorem Access.Evolves.mem_eq (before : access.Evolves between) (after : between.Evolves access) :
    between.mem = access.mem := by
  obtain ⟨new, stored, mem⟩ := before
  obtain ⟨new', stored', -⟩ := after
  have lengths := congrArg length (stored'.trans (by rw [stored]))
  simp only [length_append] at lengths
  have none : new = [] := length_eq_zero_iff.mp (by omega)
  rw [mem, none]
  rfl

/-- What is read comes from the record or from memory as it is. -/
theorem read_sourced {addr : Nat} (sourced : progress.Sourced Source Stored)
    (moment : Source access.mem) (stores : ∀ piece ∈ access.stored, Stored piece) :
    (progress.read access (stretches len addr len)).2.Sourced Source Stored ∧
      ∀ bytes, (progress.read access (stretches len addr len)).1 = .ok bytes →
        ∀ i byte, bytes[i]? = some byte → ∃ mem, Source mem ∧ byte = mem (addr + i) := by
  obtain ⟨fault, progress', walked, read, holds, -⟩ :=
    @read_range progress.view progress access addr len
  have sourced' : progress'.Sourced Source Stored := by
    have kept := walk_walked (((stretches len addr len).map Prod.fst).map .read) progress access
    rw [walked] at kept
    exact kept.touched.sourced sourced
      (fun between before later => (before.mem_eq later).symm ▸ moment) stores
  rw [read]
  refine ⟨sourced', fun bytes done i byte here => ?_⟩
  rcases fault with _ | fault
  case some => cases done
  obtain rfl := Except.ok.inj done
  obtain ⟨below, rfl⟩ : i < len ∧ progress'.view (addr + i) = byte := by
    rw [shown, getElem?_map] at here
    obtain ⟨j, range, value⟩ := map_eq_some_iff.mp here
    obtain ⟨below, rfl⟩ := List.getElem?_eq_some_iff.mp range
    exact ⟨by simpa using below, by simpa using value⟩
  obtain ⟨part, member, samePage⟩ := @stretches_cover len addr len i (Nat.le_refl len) below
  obtain ⟨held, recorded⟩ := isSome_iff_exists.mp (holds rfl part member)
  obtain ⟨mem, source, rfl⟩ := sourced'.pages _ held recorded
  refine ⟨mem, source, ?_⟩
  rw [view, samePage, recorded, ← samePage]
  exact congrArg mem (Nat.div_add_mod' (addr + i) pageSize)

/-- An attempt reads bytes of `Source`, and where it has written, a piece of `Stored`
starts. -/
structure Isolated (Source : (Nat → Byte) → Prop) (Stored : Piece → Prop) (routine : Routine)
    (progress : InFlight) (access : Access) : Prop where
  sourced : (routine.call progress access).2.1.Sourced Source Stored
  reads : ∀ range ∈ routine.observed progress access, ∀ i byte, range.2[i]? = some byte →
    ∃ mem, Source mem ∧ byte = mem (range.1 + i)
  writes : ∀ piece ∈ routine.issued progress access,
    ∃ stored, Stored stored ∧ stored.addr = piece.addr

theorem call_isolated (routine : Routine) (sourced : progress.Sourced Source Stored)
    (moments : ∀ between, access.Evolves between →
      between.Evolves (routine.call progress access).2.2 → Source between.mem)
    (stores : ∀ piece ∈ (routine.call progress access).2.2.stored, Stored piece) :
    Isolated Source Stored routine progress access := by
  induction routine generalizing progress access with
  | finish => exact ⟨sourced, by simp [observed], by simp [issued]⟩
  | read addr len next inductionHypothesis =>
    have evolves := (call_touched (.read addr len next) progress access).evolves
    obtain ⟨sourced', bytesFrom⟩ := read_sourced sourced
      (moments access (.refl access) evolves) fun piece member =>
        stores piece (evolves.keeps member)
    rw [call] at moments stores
    generalize reading : progress.read access (stretches len addr len) = result at *
    rcases result with ⟨fault | bytes, progress'⟩
    · exact ⟨by rwa [call, reading], by simp [observed, reading], by simp [issued, reading]⟩
    · have later := inductionHypothesis bytes sourced' moments stores
      refine ⟨?_, ?_, ?_⟩ <;> simp only [call, observed, issued, reading]
      · exact later.sourced
      · intro range member
        rcases mem_cons.mp member with rfl | among
        · exact bytesFrom bytes rfl
        · exact later.reads range among
      · exact later.writes
  | write addr data next inductionHypothesis =>
    have touched := (walk_walked ((pieces addr data).map .store) progress access).touched
    have evolves := touched.evolves
    have walkedTo := touched.sourced sourced
    have done : (walk ((pieces addr data).map .store) progress access).1 = none → _ := walk_done
    rw [call, (write_eq_walk _ _ _).1] at moments stores
    generalize writing : walk ((pieces addr data).map .store) progress access = result at *
    rcases result with ⟨_ | fault, progress', access'⟩
    · have after := (call_touched next progress' access').evolves
      have sourced' : progress'.Sourced Source Stored := by
        apply walkedTo
        · exact fun between before later => moments between before (later.trans after)
        · exact fun piece member => stores piece (after.keeps member)
      have later := inductionHypothesis sourced'
        (fun between before => moments between (evolves.trans before)) stores
      refine ⟨?_, ?_, ?_⟩ <;> simp only [call, observed, issued, write_eq_walk, writing]
      · exact later.sourced
      · exact later.reads
      · intro piece member
        rcases mem_append.mp member with here | among
        · exact sourced'.written _ (done rfl (.store piece) (mem_map_of_mem here)).2
        · exact later.writes piece among
    · refine ⟨?_, ?_, ?_⟩ <;> simp only [call, observed, issued, write_eq_walk, writing]
      · exact walkedTo moments stores
      · simp
      · simp

end Attempt

/-! ### Calls and their attempts -/

/-- One attempt at a call; calls are numbered as the guest makes them. -/
structure Attempt where
  call : Nat
  calling : Calling
  blank : calling.access.stored = []

/-- An attempt that was made: memory when it began, and what it stored. -/
structure Past where
  call : Nat
  access : Access
  stored : List Piece

/-- Memory as it was at some time in the attempt. -/
def Past.Moment (past : Past) (mem : Nat → Byte) : Prop :=
  ∃ k, mem = (past.stored.take k).foldl (fun mem piece => piece.storeIn mem) past.access.mem

/-- The table of progress, the call that last used each key, and all attempts so far. -/
structure World where
  table : List InFlight
  last : Key → Option Nat
  past : List Past

open World

namespace World

def start : World := ⟨[], fun _ => none, []⟩

def step (services : Services) (world : World) (attempt : Attempt) : World :=
  match dispatch services attempt.calling.number attempt.calling.access attempt.calling.args
      world.table with
  | none => world
  | some (_, table, access) =>
    { table
      last := fun key => if key = attempt.calling.key then some attempt.call else world.last key
      past := world.past ++ [⟨attempt.call, attempt.calling.access, access.stored⟩] }

/-- Memory at a moment of an attempt of the call. -/
def Source (world : World) (call : Nat) (mem : Nat → Byte) : Prop :=
  ∃ past ∈ world.past, past.call = call ∧ past.Moment mem

/-- An attempt of the call stored the piece. -/
def Stored (world : World) (call : Nat) (piece : Piece) : Prop :=
  ∃ past ∈ world.past, past.call = call ∧ piece ∈ past.stored

/-- Progress found under the attempt's key was left by the attempt's own call. -/
def OwnProgress (world : World) (attempt : Attempt) : Prop :=
  (∃ progress ∈ world.table, progress.key = attempt.calling.key) →
    world.last attempt.calling.key = some attempt.call

/-- The call stored the piece, and the record leads to it. -/
def Kept (services : Services) (world : World) (call : Nat) (progress : InFlight)
    (piece : Piece) : Prop :=
  world.Stored call piece ∧ ∀ service, services progress.key.number = some service →
    piece ∈ (service progress.key.args).replayed progress

/-- Each key has one entry, with progress of the call that last used it. -/
structure Attributed (services : Services) (world : World) : Prop where
  distinct : (world.table.map key).Nodup
  owned : ∀ progress ∈ world.table, ∃ call, world.last progress.key = some call ∧
    progress.Sourced (world.Source call) (world.Kept services call progress)

end World

namespace World
variable {services : Services} {world : World} {attempt : Attempt}
  {service : List Nat → Routine}

def calledBy (world : World) (service : List Nat → Routine) (attempt : Attempt) :
    Reply × InFlight × Access :=
  (service attempt.calling.args).call (progressOf attempt.calling.key world.table)
    attempt.calling.access

theorem dispatch_served (world : World) (served : services attempt.calling.number = some service) :
    ∃ before after, (before ++ after).Sublist world.table ∧
      ((world.table.map key).Nodup →
        ∀ other ∈ before ++ after, other.key ≠ attempt.calling.key) ∧
      (world.calledBy service attempt).2.1.key = attempt.calling.key ∧
      dispatch services attempt.calling.number attempt.calling.access attempt.calling.args
        world.table = some ((world.calledBy service attempt).1,
          if (world.calledBy service attempt).1.isNeedPage then
            before ++ (world.calledBy service attempt).2.1 :: after else before ++ after,
          (world.calledBy service attempt).2.2) := by
  obtain ⟨before, after, slot, earlier, same, fewer, later, -⟩ :=
    slotFor_split attempt.calling.key world.table
  refine ⟨before, after, fewer, fun distinct other member => ?_,
    (call_touched _ _ _).key.trans same, dispatch_of_slot served slot rfl⟩
  exact (mem_append.mp member).elim (earlier other) (later distinct other)

theorem step_unserved (unserved : services attempt.calling.number = none) :
    world.step services attempt = world := by
  simp [step, dispatch, unserved]

theorem sourced_mono {Source Source' : (Nat → Byte) → Prop} {Stored Stored' : Piece → Prop}
    {progress : InFlight} (sourced : progress.Sourced Source Stored)
    (sources : ∀ mem, Source mem → Source' mem) (stores : ∀ piece, Stored piece → Stored' piece) :
    progress.Sourced Source' Stored' where
  pages page held present := by
    obtain ⟨mem, source, shown⟩ := sourced.pages page held present
    exact ⟨mem, sources mem source, shown⟩
  written addr member := by
    obtain ⟨piece, stored, start⟩ := sourced.written addr member
    exact ⟨piece, stores piece stored, start⟩

theorem past_step {past : Past} (among : past ∈ world.past) :
    past ∈ (world.step services attempt).past := by
  rw [step]
  split
  · exact among
  · exact mem_append_left _ among

theorem source_step {call : Nat} {mem : Nat → Byte} (source : world.Source call mem) :
    (world.step services attempt).Source call mem :=
  source.imp fun _ => And.imp_left past_step

theorem stored_step {call : Nat} (stored : world.Stored call piece) :
    (world.step services attempt).Stored call piece :=
  stored.imp fun _ => And.imp_left past_step

theorem isolated (attributed : world.Attributed services) (own : world.OwnProgress attempt)
    (served : services attempt.calling.number = some service) :
    Isolated ((world.step services attempt).Source attempt.call)
      ((world.step services attempt).Kept services attempt.call
        (world.calledBy service attempt).2.1) (service attempt.calling.args)
      (progressOf attempt.calling.key world.table) attempt.calling.access := by
  obtain ⟨before, after, -, -, key, dispatched⟩ := dispatch_served world served
  have now : ⟨attempt.call, attempt.calling.access,
      (world.calledBy service attempt).2.2.stored⟩ ∈ (world.step services attempt).past := by
    rw [step, dispatched]
    exact mem_append_right _ (mem_singleton_self _)
  -- the record only grows in the attempt, so what it led to it leads to still
  have leads : ∀ piece, piece ∈ (service attempt.calling.args).replayed
      (world.calledBy service attempt).2.1 → ∀ service',
        services (world.calledBy service attempt).2.1.key.number = some service' →
          piece ∈ (service' (world.calledBy service attempt).2.1.key.args).replayed
            (world.calledBy service attempt).2.1 := by
    intro piece member service' served'
    rw [key] at served' ⊢
    cases served.symm.trans served'
    exact member
  apply call_isolated
  · rcases progressOf_eq_or attempt.calling.key world.table with none | ⟨member, same⟩
    · rw [none]
      exact ⟨nofun, by simp⟩
    · obtain ⟨call, last, sourced⟩ := attributed.owned _ member
      have mine := own ⟨_, member, same⟩
      rw [same] at last
      cases last.symm.trans mine
      apply sourced_mono sourced (fun _ => source_step)
      rintro piece ⟨stored, led⟩
      refine ⟨stored_step stored, leads piece ?_⟩
      rw [same] at led
      exact replayed_mono (call_touched _ _ _).pages piece (led service served)
  · rintro between ⟨new, stored, mem⟩ ⟨new', stored', -⟩
    refine ⟨_, now, rfl, new.length, ?_⟩
    rw [attempt.blank, nil_append] at stored
    have all : (world.calledBy service attempt).2.2.stored = between.stored ++ new' := stored'
    rw [all, stored, take_left, mem]
  · intro piece member
    refine ⟨⟨_, now, rfl, member⟩, leads piece ?_⟩
    rcases (call_replayed _ _).1 piece member with before | replayed
    · rw [attempt.blank] at before
      cases before
    · exact replayed

theorem Attributed.step (attributed : world.Attributed services)
    (own : world.OwnProgress attempt) : (world.step services attempt).Attributed services := by
  cases served : services attempt.calling.number with
  | none => rwa [step_unserved served]
  | some service =>
    have isolated := (isolated attributed own served).sourced
    obtain ⟨before, after, fewer, others, key, dispatched⟩ := dispatch_served world served
    have others := others attributed.distinct
    -- entries that stay were left by calls whose attribution stands
    have kept : ∀ progress ∈ before ++ after, ∃ call,
        (world.step services attempt).last progress.key = some call ∧
          progress.Sourced ((world.step services attempt).Source call)
            ((world.step services attempt).Kept services call progress) := by
      intro progress member
      obtain ⟨call, last, sourced⟩ := attributed.owned progress (fewer.subset member)
      refine ⟨call, ?_, sourced_mono sourced (fun _ => source_step)
        fun _ kept => ⟨stored_step kept.1, kept.2⟩⟩
      rw [World.step, dispatched]
      exact (if_neg (others progress member)).trans last
    have mine : (world.step services attempt).last
        (world.calledBy service attempt).2.1.key = some attempt.call := by
      rw [World.step, dispatched]
      exact if_pos key
    have table : (world.step services attempt).table =
        if (world.calledBy service attempt).1.isNeedPage then
          before ++ (world.calledBy service attempt).2.1 :: after else before ++ after := by
      rw [World.step, dispatched]
    have distinct : ((before ++ after).map InFlight.key).Nodup :=
      attributed.distinct.sublist (fewer.map _)
    cases asked : (world.calledBy service attempt).1.isNeedPage with
    | false =>
      rw [if_neg (by simp [asked])] at table
      exact ⟨by rwa [table], by rwa [table]⟩
    | true =>
      rw [if_pos asked] at table
      constructor
      · rw [table]
        apply ((perm_middle.map InFlight.key).nodup_iff).mpr
        rw [map_cons, nodup_cons, key]
        refine ⟨fun member => ?_, distinct⟩
        obtain ⟨other, among, same⟩ := mem_map.mp member
        exact others other among same
      · rw [table]
        intro progress member
        rcases mem_cons.mp (perm_middle.mem_iff.mp member) with rfl | among
        · exact ⟨attempt.call, mine, isolated⟩
        · exact kept progress among

theorem start_attributed : start.Attributed services := ⟨nodup_nil, nofun⟩

end World

/-- No two pieces the routine writes start at one address, whatever it reads. -/
def Routine.DistinctStarts (routine : Routine) : Prop :=
  ∀ progress, ((routine.replayed progress).map Piece.addr).Nodup

/-- In a run where progress is found only by the call that left it, every attempt is
isolated: each byte it reads was in memory at a moment of an attempt of the same call, and
each piece it reports written was stored by an attempt of the same call. -/
theorem hostcall_isolated (services : Services) (earlier later : List Attempt) (attempt : Attempt)
    (own : Along (step services) OwnProgress start (earlier ++ attempt :: later))
    (service : List Nat → Routine) (served : services attempt.calling.number = some service)
    (distinct : (service attempt.calling.args).DistinctStarts) :
    let before := earlier.foldl (step services) start
    let after := before.step services attempt
    let progress := progressOf attempt.calling.key before.table
    let called := (service attempt.calling.args).call progress attempt.calling.access
    (dispatch services attempt.calling.number attempt.calling.access attempt.calling.args
      before.table).map (fun answer => (answer.1, answer.2.2)) = some (called.1, called.2.2) ∧
    (∀ range ∈ (service attempt.calling.args).observed progress attempt.calling.access,
      ∀ i byte, range.2[i]? = some byte →
        ∃ mem, after.Source attempt.call mem ∧ byte = mem (range.1 + i)) ∧
    ∀ piece ∈ (service attempt.calling.args).issued progress attempt.calling.access,
      after.Stored attempt.call piece := by
  intro before after progress called
  have attributed := own.front.keeps (fun _ _ before condition => before.step condition)
    start_attributed
  have isolated := isolated attributed (own earlier attempt later rfl) served
  refine ⟨?_, isolated.reads, fun piece member => ?_⟩
  · obtain ⟨_, _, -, -, -, dispatched⟩ := dispatch_served before served
    rw [dispatched]
    rfl
  obtain ⟨stored, ⟨byCall, led⟩, start⟩ := isolated.writes piece member
  obtain ⟨_, _, -, -, key, -⟩ := dispatch_served before served
  have replayed := (call_replayed _ _).2 piece member
  have led := led service (by rw [key]; exact served)
  rw [key] at led
  obtain rfl := inj_on_of_nodup_map (distinct _) led replayed start
  exact byCall

/-- An attempt at a self-test call with one page usable, and `byte` in all of memory. -/
def selfTestAttempt (call : Nat) (args : List Nat) (page : Nat) (byte : Byte) : Attempt :=
  ⟨call, ⟨selfTestNumber, args, ⟨7, fun _ => byte, (· = page), (· = page), []⟩⟩, rfl⟩

/-- A fill of two bytes across a page boundary, made again after a need-page answer: the
byte the retry passes over was stored by the first attempt. -/
theorem fill_across_isolated :
    (([selfTestAttempt 0 [2, 0xfff, 2, 9] 0 0, selfTestAttempt 0 [2, 0xfff, 2, 9] 0x1000 0]).foldl
      (step selfTestOnly) start).Stored 0 ⟨0xfff, [9]⟩ := by
  have isolated := hostcall_isolated selfTestOnly [selfTestAttempt 0 [2, 0xfff, 2, 9] 0 0] []
    (selfTestAttempt 0 [2, 0xfff, 2, 9] 0x1000 0)
    (Along.cons nofun
      (Along.cons (fun _ => by decide +kernel) Along.nil))
    selfTest rfl (fun _ => (by decide +kernel :
      ((pieces 0xfff [9, 9] ++ []).map Piece.addr).Nodup))
  exact isolated.2.2 _ (by decide +kernel)

/-- A sum of two bytes across a page boundary, abandoned after its first page was read. A
later call with the same arguments reads that page's old byte, which memory never holds
while the later call is made. -/
theorem abandoned_page_read :
    let before := [selfTestAttempt 0 [1, 0x1fff, 2] 0x1000 0].foldl (step selfTestOnly)
      start
    let second := selfTestAttempt 1 [1, 0x1fff, 2] 0x2000 1
    (dispatch selfTestOnly selfTestNumber second.calling.access second.calling.args
      before.table).map Prod.fst = some (.ok 1 0) ∧
    ∃ range ∈ (selfTest second.calling.args).observed
        (progressOf second.calling.key before.table) second.calling.access,
      ∃ i byte, range.2[i]? = some byte ∧
        ∀ mem, (before.step selfTestOnly second).Source second.call mem →
          byte ≠ mem (range.1 + i) := by
  intro before second
  refine ⟨by decide +kernel, (0x1fff, [0, 1]), by decide +kernel, 0, 0, rfl, ?_⟩
  have attempted : ∀ past ∈ (before.step selfTestOnly second).past, past.call = second.call →
      past.stored = [] ∧ past.access.mem 0x1fff = 1 := by
    decide +kernel
  rintro mem ⟨past, member, ofCall, k, rfl⟩
  obtain ⟨stored, ones⟩ := attempted past member ofCall
  rw [stored, take_nil, foldl_nil, ones]
  decide

end Iris.Hostcall
