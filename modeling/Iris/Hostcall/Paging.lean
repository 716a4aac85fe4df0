import Iris.Hostcall.Walk

/-!
Owns calls under paging: a routine that reads and then writes is made again after
every need-page answer, while pages come and go, until it completes. It completes
after at most one answer for each page it reads and each piece it writes, with the
result it has where all pages are present, and stores each piece once.
-/

namespace Iris.Hostcall

open List Touch InFlight

/-! ### What a routine touches -/

variable (mem : Nat → Byte)

/-- The bytes of `mem` at `[addr, addr + len)`. -/
def shown (mem : Nat → Byte) (addr len : Nat) : List Byte :=
  (range len).map fun i => mem (addr + i)

variable {routine : Routine} {start : Nat}

namespace Routine

/-- The result with all pages present, and `mem` in them. -/
def result (mem : Nat → Byte) : Routine → Reply
  | .read addr len next => (next (shown mem addr len)).result mem
  | .write _ _ next => next.result mem
  | .finish reply _ => reply

def reads (mem : Nat → Byte) : Routine → List Nat
  | .read addr len next =>
    (stretches len addr len).map Prod.fst ++ (next (shown mem addr len)).reads mem
  | .write _ _ next => next.reads mem
  | .finish _ _ => []

def writes (mem : Nat → Byte) : Routine → List Piece
  | .read addr len next => (next (shown mem addr len)).writes mem
  | .write addr data next => pieces addr data ++ next.writes mem
  | .finish _ _ => []

def WritesOnly : Routine → Prop
  | .read _ _ _ => False
  | .write _ _ next => next.WritesOnly
  | .finish _ _ => True

/-- Some reads, followed by some writes. -/
def ReadsFirst : Routine → Prop
  | .read _ _ next => ∀ bytes, (next bytes).ReadsFirst
  | .write _ _ next => next.WritesOnly
  | .finish _ _ => True

/-- What the routine touches, in order. -/
def path (mem : Nat → Byte) (routine : Routine) : List Touch :=
  (routine.reads mem).map .read ++ (routine.writes mem).map .store

theorem WritesOnly.reads_nil (writesOnly : routine.WritesOnly) : routine.reads mem = [] := by
  induction routine with
  | read => exact writesOnly.elim
  | write addr data next inductionHypothesis => exact inductionHypothesis writesOnly
  | finish => rfl

theorem result_settled (routine : Routine) {fault : Fault} :
    routine.result mem ≠ .needPage fault := by
  induction routine with
  | read addr len next inductionHypothesis => exact inductionHypothesis _
  | write addr data next inductionHypothesis => exact inductionHypothesis
  | finish reply settled =>
    rintro rfl
    cases settled

end Routine

/-! ### Stretches -/

theorem stretches_within {addr len n : Nat} (member : (start, n) ∈ stretches fuel addr len) :
    start % pageSize + n ≤ pageSize := by
  induction fuel generalizing addr len with
  | zero => cases member
  | succ fuel inductionHypothesis =>
    cases len with
    | zero => cases member
    | succ len =>
      rcases mem_cons.mp member with here | later
      · obtain ⟨rfl, rfl⟩ := Prod.mk.inj here
        have := Nat.mod_lt start (by decide : pageSize > 0)
        omega
      · exact inductionHypothesis later

theorem shown_append (addr first second : Nat) :
    shown mem addr first ++ shown mem (addr + first) second = shown mem addr (first + second) := by
  simp only [shown, range_add, map_append, map_map]
  congr 1
  apply map_congr_left
  intro i _
  rw [Function.comp_apply, Nat.add_assoc]

/-- The stretches make up the range. -/
theorem flatMap_stretches {addr len : Nat} (enough : len ≤ fuel) :
    (stretches fuel addr len).flatMap (fun stretch => shown mem stretch.1 stretch.2) =
      shown mem addr len := by
  induction fuel generalizing addr len with
  | zero =>
    obtain rfl : len = 0 := by omega
    rfl
  | succ fuel inductionHypothesis =>
    cases len with
    | zero => rfl
    | succ len =>
      have inPage := Nat.mod_lt addr (by decide : pageSize > 0)
      rw [stretches, flatMap_cons, inductionHypothesis (by omega), shown_append]
      · congr 1
        omega
      · simp

/-! ### The bytes on record -/

/-- Memory as the record shows it. -/
def InFlight.view (progress : InFlight) (addr : Nat) : Byte :=
  ((progress.pages (pageOf addr)).getD fun _ => 0) (addr % pageSize)

theorem pageOf_add (within : start % pageSize + n ≤ pageSize) (below : i < n) :
    pageOf (start + i) = pageOf start ∧ (start + i) % pageSize = start % pageSize + i := by
  simp only [pageOf, pageSize] at within ⊢
  omega

theorem stretches_cover {addr len i : Nat} (enough : len ≤ fuel) (below : i < len) :
    ∃ part ∈ stretches fuel addr len, pageOf (addr + i) = pageOf part.1 := by
  induction fuel generalizing addr len i with
  | zero => omega
  | succ fuel inductionHypothesis =>
    cases len with
    | zero => omega
    | succ len =>
      have inPage := Nat.mod_lt addr (by decide : pageSize > 0)
      rw [stretches]
      · generalize count : min (pageSize - addr % pageSize) (len + 1) = n
        by_cases first : i < n
        · exact ⟨(addr, n), by simp, (pageOf_add (by omega) first).1⟩
        obtain ⟨part, member, same⟩ : ∃ part ∈ stretches fuel (addr + n) (len + 1 - n),
            pageOf (addr + n + (i - n)) = pageOf part.1 :=
          inductionHypothesis (by omega) (by omega)
        refine ⟨part, mem_cons_of_mem _ member, ?_⟩
        rw [← same]
        congr 1
        omega
      · simp

theorem shown_view {progress : InFlight} {page : Nat → Byte} {n : Nat}
    (within : start % pageSize + n ≤ pageSize)
    (recorded : progress.pages (pageOf start) = some page) :
    (range n).map (fun i => page (start % pageSize + i)) = shown progress.view start n := by
  apply map_congr_left
  intro i member
  obtain ⟨samePage, offset⟩ := pageOf_add within (mem_range.mp member)
  rw [view, samePage, recorded, offset]
  rfl

/-- The pages of the range are on record. -/
def InFlight.Holds (progress : InFlight) (addr len : Nat) : Prop :=
  ∀ part ∈ stretches len addr len, (progress.pages (pageOf part.1)).isSome = true

instance (progress : InFlight) (addr len : Nat) : Decidable (progress.Holds addr len) :=
  decidableBAll _ _

/-! ### An attempt is a walk -/

/-- The recorded pages are those of `mem`. -/
def InFlight.Agrees (mem : Nat → Byte) (progress : InFlight) : Prop :=
  ∀ page held, progress.pages page = some held → ∀ off < pageSize, held off = mem (page + off)

/-- The pages still to be read are those of `mem`. -/
def Access.Shows (mem : Nat → Byte) (access : Access) (progress : InFlight) (starts : List Nat) :
    Prop :=
  ∀ start ∈ starts, progress.pages (pageOf start) = none →
    ∀ off < pageSize, access.mem (pageOf start + off) = mem (pageOf start + off)

section Attempt
variable {mem : Nat → Byte} {progress progress' : InFlight} {access access' : Access}

theorem Access.Shows.mono (shows : access.Shows mem progress starts)
    (fewer : ∀ start ∈ starts', start ∈ starts)
    (pages : ∀ page held, progress.pages page = some held → progress'.pages page = some held) :
    access.Shows mem progress' starts' := by
  intro start member absent
  apply shows start (fewer start member)
  cases present : progress.pages (pageOf start) with
  | none => rfl
  | some held => cases (pages _ _ present).symm.trans absent

theorem InFlight.Agrees.shown_eq {addr len : Nat} (agrees : progress.Agrees mem)
    (holds : progress.Holds addr len) :
    shown progress.view addr len = shown mem addr len := by
  apply map_congr_left
  intro i member
  obtain ⟨part, among, samePage⟩ :=
    @stretches_cover len addr len i (Nat.le_refl len) (mem_range.mp member)
  obtain ⟨held, recorded⟩ := Option.isSome_iff_exists.mp (holds part among)
  rw [← samePage] at recorded
  rw [view, recorded]
  exact (agrees _ held recorded _ (Nat.mod_lt _ (by decide))).trans
    (congrArg mem (Nat.div_add_mod' (addr + i) pageSize))

theorem Made.agrees (made : Made (.read start) progress progress' access access')
    (agrees : progress.Agrees mem) (shows : access.Shows mem progress [start]) :
    progress'.Agrees mem := by
  intro page held present off within
  cases before : progress.pages page with
  | some held' =>
    cases (made.pages page held' before).symm.trans present
    exact agrees page held before off within
  | none =>
    obtain ⟨-, rfl, rfl⟩ := made.read page before held present
    exact shows start (by simp) before off within

theorem InFlight.page_recorded {page : Nat} {bytes : Nat → Byte}
    (read : progress.page access page = .ok (bytes, progress')) :
    progress'.pages page = some bytes := by
  unfold InFlight.page at read
  split at read
  next held present =>
    cases read
    exact present
  · split at read
    · cases read
    · cases read
      exact if_pos rfl

/-- Reading stretches walks their pages, and gives what the record then shows. Where the pages
read are those of `mem`, so are the recorded ones. -/
theorem read_eq_walk (within : ∀ part ∈ parts, part.1 % pageSize + part.2 ≤ pageSize) :
    ∃ fault progress', walk ((parts.map Prod.fst).map .read) progress access =
        (fault, progress', access) ∧
      progress.read access parts =
        (match fault with
          | none => .ok (parts.flatMap fun part => shown progress'.view part.1 part.2)
          | some fault => .error fault, progress') ∧
      (progress.Agrees mem → access.Shows mem progress (parts.map Prod.fst) →
        progress'.Agrees mem) := by
  induction parts generalizing progress with
  | nil => exact ⟨none, progress, rfl, rfl, fun agrees _ => agrees⟩
  | cons part rest inductionHypothesis =>
    obtain ⟨start, n⟩ := part
    rw [map_cons, map_cons, walk, InFlight.read]
    by_cases beyond : 2 ^ 64 ≤ start
    · rw [if_pos beyond, make_beyond (.read start) beyond]
      exact ⟨some ⟨0, false⟩, progress, rfl, rfl, fun agrees _ => agrees⟩
    rw [if_neg beyond, make_read beyond]
    cases read : progress.page access (pageOf start) with
    | error fault => exact ⟨some fault, progress, rfl, rfl, fun agrees _ => agrees⟩
    | ok result =>
      obtain ⟨bytes, recorded⟩ := result
      have made : Made (.read start) progress recorded access access := by
        apply made
        rw [make_read beyond, read]
        rfl
      obtain ⟨fault, progress', walked, later, agreeing⟩ := @inductionHypothesis recorded
        (forall_mem_cons.mp within).2
      have kept := (walk_walked ((rest.map Prod.fst).map .read) recorded access).touched.pages _ _
        (page_recorded read)
      rw [walked] at kept
      refine ⟨fault, progress', walked, ?_, fun agrees shows => ?_⟩
      · dsimp only
        rw [later, shown_view (within (start, n) (by simp)) kept]
        cases fault with
        | none | some fault => rfl
      · exact agreeing (made.agrees agrees (shows.mono (by simp) fun _ _ same => same))
          (shows.mono (fun _ member => mem_cons_of_mem _ member) made.pages)

/-- Reading a range that does not stop leaves its pages on record. -/
theorem read_range (progress : InFlight) (access : Access) (addr len : Nat) :
    ∃ fault progress', walk (((stretches len addr len).map Prod.fst).map .read) progress access =
        (fault, progress', access) ∧
      progress.read access (stretches len addr len) =
        (match fault with
          | none => .ok (shown progress'.view addr len)
          | some fault => .error fault, progress') ∧
      (fault = none → progress'.Holds addr len) ∧
      (progress.Agrees mem → access.Shows mem progress ((stretches len addr len).map Prod.fst) →
        progress'.Agrees mem) := by
  obtain ⟨fault, progress', walked, read, agreeing⟩ :=
    @read_eq_walk mem progress access (stretches len addr len)
      fun part member => stretches_within member
  rw [flatMap_stretches _ (Nat.le_refl len)] at read
  refine ⟨fault, progress', walked, read, ?_, agreeing⟩
  rintro rfl part member
  have done := walk_done (congrArg Prod.fst walked) (.read part.1)
    (mem_map_of_mem (mem_map_of_mem member))
  rw [walked] at done
  exact done.2

/-- Writing pieces walks them, and leaves the pages on record. -/
theorem write_eq_walk (parts : List Piece) (progress : InFlight) (access : Access) :
    progress.write parts access =
        (match (walk (parts.map .store) progress access).1 with
          | none => .ok ()
          | some fault => .error fault,
          (walk (parts.map .store) progress access).2) ∧
      (walk (parts.map .store) progress access).2.1.pages = progress.pages := by
  induction parts generalizing progress access with
  | nil => exact ⟨rfl, rfl⟩
  | cons piece rest inductionHypothesis =>
    rw [map_cons, walk, write]
    by_cases beyond : 2 ^ 64 ≤ piece.addr
    · rw [if_pos beyond, make_beyond (.store piece) beyond]
      exact ⟨rfl, rfl⟩
    rw [if_neg beyond]
    by_cases recorded : piece.addr ∈ progress.written
    · rw [if_pos recorded, make_recorded beyond recorded]
      exact inductionHypothesis progress access
    · rw [if_neg recorded, make_store beyond recorded]
      cases stored : access.writeInPage piece with
      | error fault => exact ⟨rfl, rfl⟩
      | ok access' => exact inductionHypothesis _ access'

def answer (reply : Reply) : Option Fault → Reply
  | none => reply
  | some fault => .needPage fault

theorem writesOnly_call_eq_walk (writesOnly : routine.WritesOnly) (mem : Nat → Byte)
    (progress : InFlight) (access : Access) :
    routine.call progress access =
      (answer (routine.result mem) (walk ((routine.writes mem).map .store) progress access).1,
        (walk ((routine.writes mem).map .store) progress access).2) := by
  induction routine generalizing progress access with
  | read => exact writesOnly.elim
  | finish => rfl
  | write addr data next inductionHypothesis =>
    rw [Routine.call, (write_eq_walk _ _ _).1, Routine.writes, map_append, walk_append]
    rcases walk ((pieces addr data).map .store) progress access with
      ⟨fault | fault, progress', access'⟩
    · exact inductionHypothesis writesOnly progress' access'
    · rfl

/-- An attempt at a routine that reads first walks its path. -/
theorem call_eq_walk (readsFirst : routine.ReadsFirst) (agrees : progress.Agrees mem)
    (shows : access.Shows mem progress (routine.reads mem)) :
    routine.call progress access =
        (answer (routine.result mem) (walk (routine.path mem) progress access).1,
          (walk (routine.path mem) progress access).2) ∧
      (walk (routine.path mem) progress access).2.1.Agrees mem := by
  induction routine generalizing progress access with
  | finish => exact ⟨rfl, agrees⟩
  | write addr data next =>
    have writesOnly : (Routine.write addr data next).WritesOnly := readsFirst
    have path : (Routine.write addr data next).path mem =
        ((Routine.write addr data next).writes mem).map .store := by
      rw [Routine.path, writesOnly.reads_nil, map_nil, nil_append]
    rw [path]
    refine ⟨writesOnly_call_eq_walk writesOnly mem progress access, ?_⟩
    unfold Agrees
    rw [(write_eq_walk _ progress access).2]
    exact agrees
  | read addr len next inductionHypothesis =>
    obtain ⟨fault, progress', walked, read, holds, agreeing⟩ := read_range progress access addr len
    have agrees' := agreeing agrees
      (shows.mono (fun _ member => mem_append_left _ member) fun _ _ same => same)
    have path : (Routine.read addr len next).path mem =
        ((stretches len addr len).map Prod.fst).map .read ++
          (next (shown mem addr len)).path mem := by
      simp [Routine.path, Routine.reads, Routine.writes]
    rw [path, walk_append, walked, Routine.call, read]
    cases fault with
    | some fault => exact ⟨rfl, agrees'⟩
    | none =>
      rw [agrees'.shown_eq (holds rfl)]
      apply inductionHypothesis _ (readsFirst _) agrees'
      have kept := walk_walked (((stretches len addr len).map Prod.fst).map .read) progress access
      rw [walked] at kept
      exact shows.mono (fun _ member => mem_append_right _ member) kept.touched.pages

theorem read_touched (progress : InFlight) (access : Access) (addr len : Nat) :
    Touched progress access (progress.read access (stretches len addr len)).2 access := by
  obtain ⟨_, progress', walked, read, -⟩ := @read_range progress.view progress access addr len
  have kept := walk_walked (((stretches len addr len).map Prod.fst).map .read) progress access
  rw [walked] at kept
  rw [read]
  exact kept.touched

theorem call_touched (routine : Routine) (progress : InFlight) (access : Access) :
    Touched progress access (routine.call progress access).2.1
      (routine.call progress access).2.2 := by
  induction routine generalizing progress access with
  | finish => exact .refl _ _
  | read addr len next inductionHypothesis =>
    have touched := read_touched progress access addr len
    rw [Routine.call]
    generalize progress.read access (stretches len addr len) = read at touched ⊢
    rcases read with ⟨fault | bytes, progress'⟩
    · exact touched
    · exact touched.trans (inductionHypothesis bytes progress' access)
  | write addr data next inductionHypothesis =>
    have touched := (walk_walked ((pieces addr data).map .store) progress access).touched
    rw [Routine.call, (write_eq_walk _ _ _).1]
    generalize walk ((pieces addr data).map .store) progress access = walked at touched ⊢
    rcases walked with ⟨fault | fault, progress', access'⟩
    · exact touched.trans (inductionHypothesis progress' access')
    · exact touched

end Attempt

end Iris.Hostcall
