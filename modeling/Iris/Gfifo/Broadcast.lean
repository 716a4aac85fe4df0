import Iris.Gfifo.Ring
import Iris.Library.Run

/-!
Owns the delivery of the broadcast ring. An observer notes the entries whose push
succeeded and the values each head was given; over every run in which the consumers
keep to their contract the latter is a prefix of the former, for every head.
-/

namespace Iris.Gfifo

open Library.Ring Library.Run List Function GFifo GFIFOEntry

/-! ### The observer -/

/-- Where a consumer stands with its next entry. -/
inductive Phase
  | idle
  | peeked
  | drained
deriving DecidableEq, Repr

/-- What went in and what came out. -/
structure Observed where
  pushed : List GFIFOEntry
  seen : Nat → List Word
  phase : Nat → Phase

def Observed.none : Observed := ⟨[], fun _ => [], fun _ => .idle⟩

def RingOp.entries : RingOp → List GFIFOEntry
  | .push entry => [entry]
  | .push2 first second => [first, second]
  | .pushSlice entries => entries
  | .pushBatch token vals => token :: vals.map fun val => ⟨gfifoPayload, val⟩
  | .peek _ | .consume _ | .drainPayload _ _ | .flushHead _ => []

/-- An entry is given to a head at its first peek, payload by the drain. -/
def Observed.note (observed : Observed) : RingOp → Response → Observed
  | .peek h, .peeked (some entry) =>
    if observed.phase h = .idle then
      { observed with
        seen := update observed.seen h (observed.seen h ++ [entry.val])
        phase := update observed.phase h .peeked }
    else observed
  | .drainPayload h n, .drained (some vals) =>
    { observed with
      seen := update observed.seen h (observed.seen h ++ vals)
      phase := update observed.phase h (if n = 0 then .peeked else .drained) }
  | .consume h, _ => { observed with phase := update observed.phase h .idle }
  | op, .pushed true => { observed with pushed := observed.pushed ++ op.entries }
  | _, _ => observed

/-- The consumers' contract: a consume follows a successful peek, a drain follows one at
its token, and the consume follows the drain. -/
def Observed.Follows (heads : Nat) (observed : Observed) : RingOp → Prop
  | .peek h => h < heads ∧ observed.phase h ≠ .drained
  | .consume h => h < heads ∧ observed.phase h ≠ .idle
  | .drainPayload h _ => h < heads ∧ observed.phase h = .peeked
  | .flushHead h => h < heads
  | .push _ | .push2 _ _ | .pushSlice _ | .pushBatch _ _ => True

instance (heads : Nat) (observed : Observed) :
    (op : RingOp) → Decidable (observed.Follows heads op)
  | .peek _ | .consume _ | .drainPayload _ _ => inferInstanceAs (Decidable (_ ∧ _))
  | .flushHead _ => inferInstanceAs (Decidable (_ < _))
  | .push _ | .push2 _ _ | .pushSlice _ | .pushBatch _ _ => inferInstanceAs (Decidable True)

def Observed.retired (observed : Observed) (h : Nat) : Nat :=
  (observed.seen h).length - if observed.phase h = .idle then 0 else 1

/-! ### The invariant -/

/-- The counters behind the indices of the ring: the producer's cached head, and for each
head what is published and the cached tail. -/
structure Counters where
  low : Nat
  published : Nat → Nat
  cached : Nat → Nat

variable {bits heads : Nat} {fifo : GFifo bits heads} {observed : Observed} {counters : Counters}

structure HeadOk (fifo : GFifo bits heads) (observed : Observed) (counters : Counters) (h : Nat) :
    Prop where
  behind : counters.low ≤ counters.published h
  published_le : counters.published h ≤ observed.retired h
  retired_le : observed.retired h ≤ counters.cached h
  cached_le : counters.cached h ≤ observed.pushed.length
  head : fifo.head h = counters.published h % 2 ^ bits
  localHead : fifo.localHead h = observed.retired h % 2 ^ bits
  shadowTail : fifo.shadowTail h = counters.cached h % 2 ^ bits
  -- An entry in hand was seen, and lies before the cached tail.
  pending : observed.phase h ≠ .idle →
    0 < (observed.seen h).length ∧ observed.retired h < counters.cached h
  seen : observed.seen h = (observed.pushed.take (observed.seen h).length).map val

/-- The ring holds what some head may still read. -/
structure Broadcasting (fifo : GFifo bits heads) (observed : Observed) (counters : Counters) :
    Prop where
  tail : fifo.tail = observed.pushed.length % 2 ^ bits
  shadowHead : fifo.shadowHead = counters.low % 2 ^ bits
  low_le : counters.low ≤ observed.pushed.length
  span : observed.pushed.length < counters.low + 2 ^ bits
  holds : Holds (2 ^ bits) fifo.buf observed.pushed counters.low
  each : ∀ h < heads, HeadOk fifo observed counters h

theorem mask_eq (fifo : GFifo bits heads) (index : Nat) : fifo.mask index = index % 2 ^ bits :=
  Nat.and_two_pow_sub_one_eq_mod index bits

theorem mask_mod_add (index count : Nat) :
    fifo.mask (index % 2 ^ bits + count) = (index + count) % 2 ^ bits := by
  rw [mask_eq, Nat.mod_add_mod]

theorem broadcasting_new :
    Broadcasting (new : GFifo bits heads) .none ⟨0, fun _ => 0, fun _ => 0⟩ where
  tail := (Nat.zero_mod _).symm
  shadowHead := (Nat.zero_mod _).symm
  low_le := le_rfl
  span := by
    rw [Nat.zero_add]
    exact Nat.two_pow_pos bits
  holds := fun k entry _ found => absurd found (by simp [Observed.none])
  each h _ :=
    { behind := le_rfl, published_le := le_rfl, retired_le := le_rfl
      cached_le := le_rfl, head := (Nat.zero_mod _).symm
      localHead := (Nat.zero_mod _).symm, shadowTail := (Nat.zero_mod _).symm
      pending := fun pending => absurd rfl pending, seen := rfl }

/-- Where a head stands: less than a ring separates what is published from the tail. -/
theorem Broadcasting.order (inv : Broadcasting fifo observed counters) (inUse : h < heads) :
    counters.low ≤ counters.published h ∧ counters.published h ≤ observed.retired h ∧
      observed.retired h ≤ counters.cached h ∧ counters.cached h ≤ observed.pushed.length ∧
      observed.pushed.length < counters.low + 2 ^ bits :=
  have ok := inv.each h inUse
  ⟨ok.behind, ok.published_le, ok.retired_le, ok.cached_le, inv.span⟩

/-! ### The slowest head -/

section Slowest
variable (word : bits ≤ 64) (inv : Broadcasting fifo observed counters)
include word inv

theorem Broadcasting.distanceTo (inUse : h < heads) :
    fifo.mask (wrappingSub fifo.tail (counters.published h % 2 ^ bits)) =
        observed.pushed.length - counters.published h ∧
      counters.published h ≤ observed.pushed.length := by
  have order := inv.order inUse
  refine ⟨?_, by omega⟩
  rw [mask_eq, inv.tail, distance word (by omega) (by omega)]

/-- The fold keeps the head of one consumer that none looked at so far is behind. -/
theorem Broadcasting.slowest_fold (others : List Nat) (inUse : ∀ h ∈ others, h < heads)
    (firstInUse : first < heads) :
    ∃ h < heads,
      others.foldl (fun slow h =>
          let v := fifo.head h
          if fifo.mask (wrappingSub fifo.tail slow) < fifo.mask (wrappingSub fifo.tail v)
          then v else slow) (counters.published first % 2 ^ bits) =
        counters.published h % 2 ^ bits ∧
      counters.published h ≤ counters.published first ∧
      ∀ other ∈ others, counters.published h ≤ counters.published other := by
  induction others generalizing first with
  | nil =>
    exact ⟨first, firstInUse, rfl, le_rfl, nofun⟩
  | cons next rest inductionHypothesis =>
    have nextInUse := inUse next mem_cons_self
    have later : ∀ h ∈ rest, h < heads := (forall_mem_cons.mp inUse).2
    obtain ⟨toFirst, first_le⟩ := inv.distanceTo word firstInUse
    obtain ⟨toNext, next_le⟩ := inv.distanceTo word nextInUse
    rw [foldl_cons]
    dsimp only
    rw [(inv.each next nextInUse).head]
    split
    next further =>
      obtain ⟨h, hInUse, found, least, all⟩ := inductionHypothesis later nextInUse
      refine ⟨h, hInUse, found, by omega, fun other member => ?_⟩
      rcases mem_cons.mp member with rfl | inRest
      · exact least
      · exact all other inRest
    next notFurther =>
      obtain ⟨h, hInUse, found, least, all⟩ := inductionHypothesis later firstInUse
      refine ⟨h, hInUse, found, least, fun other member => ?_⟩
      rcases mem_cons.mp member with rfl | inRest
      · omega
      · exact all other inRest

/-- The slowest head is the published head of one consumer, and none is behind it. -/
theorem Broadcasting.slowestHead (some : 0 < heads) :
    ∃ slow < heads, fifo.slowestHead fifo.tail = counters.published slow % 2 ^ bits ∧
      ∀ h < heads, counters.published slow ≤ counters.published h := by
  obtain ⟨slow, inUse, found, least, all⟩ := inv.slowest_fold word
    (range' 1 (heads - 1)) (fun h member => by
      rw [mem_range'_1] at member
      omega) some
  refine ⟨slow, inUse, ?_, fun h hInUse => ?_⟩
  · rw [GFifo.slowestHead, (inv.each 0 some).head]
    exact found
  · rcases Nat.eq_zero_or_pos h with rfl | positive
    · exact least
    · exact all h (mem_range'_1.mpr (by omega))

theorem Broadcasting.len (some : 0 < heads) :
    ∃ slow < heads, fifo.len = observed.pushed.length - counters.published slow ∧
      ∀ h < heads, counters.published slow ≤ counters.published h := by
  obtain ⟨slow, inUse, found, least⟩ := inv.slowestHead word some
  refine ⟨slow, inUse, ?_, least⟩
  rw [GFifo.len, found, (inv.distanceTo word inUse).1]

theorem Broadcasting.refresh (some : 0 < heads) :
    ∃ slow < heads, (∀ h < heads, counters.published slow ≤ counters.published h) ∧
      Broadcasting fifo.refresh observed { counters with low := counters.published slow } := by
  obtain ⟨slow, inUse, found, least⟩ := inv.slowestHead word some
  have order := inv.order inUse
  refine ⟨slow, inUse, least, ?_⟩
  exact
    { tail := inv.tail
      shadowHead := found
      low_le := (inv.distanceTo word inUse).2
      span := by
        show observed.pushed.length < counters.published slow + 2 ^ bits
        omega
      holds := inv.holds.mono order.1
      each := fun h hInUse => { inv.each h hInUse with behind := least h hInUse } }

end Slowest

/-! ### Pushes -/

def Observed.pushing (observed : Observed) (entries : List GFIFOEntry) : Observed :=
  { observed with pushed := observed.pushed ++ entries }

theorem HeadOk.seen_le (ok : HeadOk fifo observed counters h) :
    (observed.seen h).length ≤ observed.pushed.length := by
  have retired := ok.retired_le
  have cached := ok.cached_le
  have pending := ok.pending
  unfold Observed.retired at *
  split at pending <;> rename_i phase
  · rw [if_pos phase] at retired
    omega
  · have inHand := (pending phase).2
    omega

/-- `entries` go into the slots from counter `count` on, and the tail behind them. -/
def GFifo.stored (fifo : GFifo bits heads) (count : Nat) (entries : List GFIFOEntry) :
    GFifo bits heads :=
  { fifo with
    buf := fill (2 ^ bits) fifo.buf count entries
    tail := (count + entries.length) % 2 ^ bits }

theorem Broadcasting.stored (inv : Broadcasting fifo observed counters)
    (room : observed.pushed.length + entries.length < counters.low + 2 ^ bits) :
    Broadcasting (fifo.stored observed.pushed.length entries) (observed.pushing entries)
      counters where
  tail := by
    rw [GFifo.stored, Observed.pushing, length_append]
  shadowHead := inv.shadowHead
  low_le := inv.low_le.trans (prefix_append _ _).length_le
  span := length_append ▸ room
  holds := inv.holds.fill room.le
  each h inUse := by
    have ok := inv.each h inUse
    exact
      { ok with
        cached_le := ok.cached_le.trans (prefix_append _ _).length_le
        seen := by
          rw [Observed.pushing, take_append_of_le_length ok.seen_le]
          exact ok.seen }

/-- What a push does: all of the entries or none of them, by the room there is. -/
structure Pushed (fifo : GFifo bits heads) (observed : Observed) (entries : List GFIFOEntry)
    (result : GFifo bits heads × Bool) : Prop where
  broadcasting : ∃ counters, Broadcasting result.1
    (if result.2 then observed.pushing entries else observed) counters
  success_iff : result.2 = true ↔ fifo.len + entries.length < 2 ^ bits
  failed : result.2 = false → result.1 = { fifo with shadowHead := result.1.shadowHead }

section Push
variable (word : bits ≤ 64) (some : 0 < heads) {entries : List GFIFOEntry}
include word some

section
variable (inv : Broadcasting fifo observed counters)
include inv

/-- A push that checked the heads as they are. -/
theorem Broadcasting.pushRefreshed {full : Prop} [Decidable full]
    (fullIff : ∀ counters, Broadcasting fifo.refresh observed counters →
      (full ↔ counters.low + 2 ^ bits ≤ observed.pushed.length + entries.length))
    (stores : store = fifo.refresh.stored observed.pushed.length entries) :
    Pushed fifo observed entries (if full then (fifo.refresh, false) else (store, true)) := by
  subst stores
  obtain ⟨slow, inUse, least, refreshed⟩ := inv.refresh word some
  obtain ⟨slow', inUse', len, least'⟩ := inv.len word some
  have order := (inv.distanceTo word inUse).2
  have same : counters.published slow = counters.published slow' :=
    le_antisymm (least slow' inUse') (least' slow inUse)
  have full_iff := fullIff _ refreshed
  dsimp only at full_iff
  split
  next isFull =>
    have little := full_iff.mp isFull
    exact ⟨⟨_, refreshed⟩, ⟨nofun, fun room => by omega⟩, fun _ => rfl⟩
  next notFull =>
    have enough := mt full_iff.mpr notFull
    exact ⟨⟨_, refreshed.stored (Nat.lt_of_not_le enough)⟩, ⟨fun _ => by omega, fun _ => rfl⟩, nofun⟩

/-- A push that checks the cached head first. -/
theorem Broadcasting.push (full : GFifo bits heads → Prop) [DecidablePred full]
    (store : GFifo bits heads → GFifo bits heads)
    (fullIff : ∀ (fifo : GFifo bits heads) (counters : Counters),
      Broadcasting fifo observed counters →
        (full fifo ↔ counters.low + 2 ^ bits ≤ observed.pushed.length + entries.length))
    (stores : ∀ (fifo : GFifo bits heads) (counters : Counters),
      Broadcasting fifo observed counters →
        store fifo = fifo.stored observed.pushed.length entries) :
    Pushed fifo observed entries
      (if full fifo then
        if full fifo.refresh then (fifo.refresh, false) else (store fifo.refresh, true)
      else (store fifo, true)) := by
  split
  · obtain ⟨_, -, -, refreshed⟩ := inv.refresh word some
    exact inv.pushRefreshed word some (fun counters => fullIff _ counters)
      (stores _ _ refreshed)
  next notFull =>
    have enough := Nat.lt_of_not_le (mt (fullIff _ _ inv).mpr notFull)
    obtain ⟨slow, inUse, len, least⟩ := inv.len word some
    have order := inv.order inUse
    rw [stores _ _ inv]
    exact ⟨⟨_, inv.stored enough⟩, ⟨fun _ => by omega, fun _ => rfl⟩, nofun⟩

theorem Broadcasting.tryPush : Pushed fifo observed [entry] (fifo.tryPush entry) := by
  refine inv.push word some (fun fifo => fifo.mask (fifo.tail + 1) = fifo.shadowHead)
    (fun fifo => fifo.storeOne entry) ?_ ?_
  · intro fifo counters inv
    have low := inv.low_le
    have span := inv.span
    rw [inv.tail, mask_mod_add, inv.shadowHead, mod_eq_iff (by omega) (by omega), length_singleton]
    omega
  · intro fifo counters inv
    rw [storeOne, inv.tail, mask_mod_add]
    rfl

theorem Broadcasting.tryPush2 :
    Pushed fifo observed [first, second] (fifo.tryPush2 first second) := by
  refine inv.push word some
    (fun fifo => fifo.mask (fifo.tail + 1) = fifo.shadowHead ∨
      fifo.mask (fifo.tail + 2) = fifo.shadowHead)
    (fun fifo => fifo.storeTwo first second) ?_ ?_
  · intro fifo counters inv
    have low := inv.low_le
    have span := inv.span
    rw [inv.tail, mask_mod_add, mask_mod_add, inv.shadowHead,
      mod_eq_iff (by omega) (by omega), length_cons, length_singleton]
    -- with one slot left the first comparison decides, else the second one does
    rcases lt_or_ge (observed.pushed.length + 1) (counters.low + 2 ^ bits) with more | last
    · rw [mod_eq_iff (by omega) (by omega)]
      omega
    · exact ⟨fun _ => by omega, fun _ => .inl (by omega)⟩
  · intro fifo counters inv
    rw [storeTwo, inv.tail, mask_mod_add, mask_mod_add]
    rfl

end

omit word some in
theorem writeSlice_eq (count i : Nat) (entries : List GFIFOEntry) (fifo : GFifo bits heads) :
    writeSlice (count % 2 ^ bits) i entries fifo =
      { fifo with buf := fill (2 ^ bits) fifo.buf (count + i) entries } := by
  induction entries generalizing i fifo with
  | nil => rfl
  | cons entry rest inductionHypothesis =>
    rw [writeSlice, inductionHypothesis, mask_mod_add]
    rfl

theorem Broadcasting.tryPushSlice (inv : Broadcasting fifo observed counters) :
    Pushed fifo observed entries (fifo.tryPushSlice entries) := by
  unfold GFifo.tryPushSlice
  split
  next none =>
    have empty := length_eq_zero_iff.mp none
    obtain ⟨slow, inUse, len, -⟩ := inv.len word some
    have order := inv.order inUse
    refine ⟨⟨counters, ?_⟩, ⟨fun _ => by omega, fun _ => rfl⟩, nofun⟩
    rw [empty, Observed.pushing, append_nil]
    exact inv
  · refine inv.push word some (fun fifo => fifo.room fifo.shadowHead < entries.length)
      (fun fifo => fifo.storeSlice entries) ?_ ?_
    · intro fifo counters inv
      have low := inv.low_le
      have span := inv.span
      rw [GFifo.room, mask_eq, inv.tail, inv.shadowHead, room word low span]
      omega
    · intro fifo counters inv
      have written := writeSlice_eq observed.pushed.length 0 entries fifo
      rw [← inv.tail] at written
      rw [storeSlice, written, inv.tail, mask_mod_add]
      rfl

omit word some in
theorem writePayload_eq (count : Nat) (vals : List Word) (fifo : GFifo bits heads) :
    writePayload (count % 2 ^ bits) vals fifo =
      { fifo with
        buf := fill (2 ^ bits) fifo.buf (count + 1)
          (vals.map fun val => ⟨gfifoPayload, val⟩) } := by
  induction vals generalizing count fifo with
  | nil => rfl
  | cons val rest inductionHypothesis =>
    rw [writePayload, mask_mod_add, inductionHypothesis]
    rfl

theorem Broadcasting.pushBatch (inv : Broadcasting fifo observed counters) :
    Pushed fifo observed (token :: vals.map fun val => ⟨gfifoPayload, val⟩)
      (fifo.pushBatch token vals) := by
  unfold GFifo.pushBatch
  dsimp only
  split
  next tooLarge =>
    refine ⟨⟨counters, inv⟩, ⟨nofun, fun fits => ?_⟩, fun _ => rfl⟩
    rw [length_cons, length_map] at fits
    unfold depth at tooLarge
    omega
  · refine inv.pushRefreshed word some ?_ ?_
    · intro counters refreshed
      have low := refreshed.low_le
      have span := refreshed.span
      rw [mask_eq, refreshed.tail, refreshed.shadowHead, distance word low span, length_cons,
        length_map]
      omega
    · obtain ⟨_, -, -, refreshed⟩ := inv.refresh word some
      have written := writePayload_eq observed.pushed.length vals
        (fifo.refresh.writeSlot fifo.refresh.tail token)
      rw [← refreshed.tail] at written
      rw [storeBatch, written, GFifo.stored, length_cons, length_map, refreshed.tail, mask_mod_add]
      rfl

end Push

/-! ### Consumers -/

theorem Broadcasting.slot (inv : Broadcasting fifo observed counters) {k : Nat}
    (held : counters.low ≤ k) (before : k < observed.pushed.length) :
    observed.pushed[k]? = some (fifo.buf (k % 2 ^ bits)) := by
  have found := getElem?_eq_getElem before
  rw [inv.holds k _ held found]
  exact found

section
variable (inv : Broadcasting fifo observed counters) {h : Nat} (inUse : h < heads)
include inv inUse

theorem Broadcasting.at_shadowTail :
    fifo.localHead h = fifo.shadowTail h ↔ observed.retired h = counters.cached h := by
  have order := inv.order inUse
  rw [(inv.each h inUse).localHead, (inv.each h inUse).shadowTail]
  exact mod_eq_iff_eq (by omega) (by omega)

theorem Broadcasting.at_tail :
    fifo.localHead h = fifo.tail ↔ observed.retired h = observed.pushed.length := by
  have order := inv.order inUse
  rw [(inv.each h inUse).localHead, inv.tail]
  exact mod_eq_iff_eq (by omega) (by omega)

theorem Broadcasting.next (more : observed.retired h < observed.pushed.length) :
    observed.pushed[observed.retired h]? = some (fifo.buf (fifo.localHead h)) := by
  have order := inv.order inUse
  rw [(inv.each h inUse).localHead]
  exact inv.slot (by omega) more

/-- A peek shows the entry behind those the head is done with, if there is one. -/
theorem Broadcasting.peek_entry : (fifo.peekAt h).2 = observed.pushed[observed.retired h]? := by
  have order := inv.order inUse
  unfold peekAt
  dsimp only
  split
  · split
    next empty =>
      rw [(inv.at_tail inUse).mp empty]
      exact (getElem?_eq_none le_rfl).symm
    next notEmpty =>
      have behind := mt (inv.at_tail inUse).mpr notEmpty
      exact (inv.next inUse (by omega)).symm
  next ahead =>
    have behind := mt (inv.at_shadowTail inUse).mpr ahead
    exact (inv.next inUse (by omega)).symm

end

def GFifo.setHead (fifo : GFifo bits heads) (h head localHead shadowTail : Nat) :
    GFifo bits heads :=
  { fifo with
    head := update fifo.head h head
    localHead := update fifo.localHead h localHead
    shadowTail := update fifo.shadowTail h shadowTail }

def Observed.setHead (observed : Observed) (h : Nat) (seen : List Word) (phase : Phase) : Observed :=
  { observed with
    seen := update observed.seen h seen
    phase := update observed.phase h phase }

def Counters.setHead (counters : Counters) (h published cached : Nat) : Counters :=
  { counters with
    published := update counters.published h published
    cached := update counters.cached h cached }

theorem HeadOk.setHead_of_ne {head localHead shadowTail published cached : Nat} {seen : List Word}
    {phase : Phase} (ok : HeadOk fifo observed counters k) (other : k ≠ h) :
    HeadOk (fifo.setHead h head localHead shadowTail) (observed.setHead h seen phase)
      (counters.setHead h published cached) k := by
  have retired : (observed.setHead h seen phase).retired k = observed.retired k := by
    simp only [Observed.retired, Observed.setHead, update_of_ne other]
  obtain ⟨_, _, _, _, _, _, _, _, _⟩ := ok
  constructor <;> (try rw [retired]) <;>
    simp only [setHead, Observed.setHead, Counters.setHead, update_of_ne other] <;> assumption

/-- One head moves: given where it stands then, the rest is as before. -/
theorem Broadcasting.setHead (inv : Broadcasting fifo observed counters)
    (h retired : Nat) {published cached : Nat} (seen : List Word) (phase : Phase)
    (inHand : seen.length = retired + if phase = .idle then 0 else 1)
    (behind : counters.low ≤ published) (published_le : published ≤ retired)
    (retired_le : retired ≤ cached) (cached_le : cached ≤ observed.pushed.length)
    (pending : phase ≠ .idle → retired < cached)
    (taken : seen = (observed.pushed.take seen.length).map val) :
    Broadcasting
      (fifo.setHead h (published % 2 ^ bits) (retired % 2 ^ bits) (cached % 2 ^ bits))
      (observed.setHead h seen phase) (counters.setHead h published cached) := by
  have retiredNow : (observed.setHead h seen phase).retired h = retired := by
    simp only [Observed.retired, Observed.setHead, update_self, inHand, Nat.add_sub_cancel]
  refine { inv with each := fun k inUse => ?_ }
  by_cases here : k = h
  case neg => exact (inv.each k inUse).setHead_of_ne here
  subst here
  constructor <;> (try rw [retiredNow]) <;>
    simp only [GFifo.setHead, Observed.setHead, Counters.setHead, update_self]
  case pending =>
    intro waiting
    rw [if_neg waiting] at inHand
    exact ⟨by omega, pending waiting⟩
  all_goals assumption

theorem HeadOk.seen_length (ok : HeadOk fifo observed counters h) :
    (observed.seen h).length = observed.retired h + if observed.phase h = .idle then 0 else 1 := by
  have pending := ok.pending
  unfold Observed.retired at *
  split <;> rename_i phase
  · rfl
  · have some := (pending phase).1
    omega

theorem setHead_self (fifo : GFifo bits heads) (h : Nat) :
    fifo.setHead h (fifo.head h) (fifo.localHead h) (fifo.shadowTail h) = fifo := by
  simp only [setHead, update_eq_self]

theorem Observed.setHead_self (observed : Observed) (h : Nat) :
    observed.setHead h (observed.seen h) (observed.phase h) = observed := by
  simp only [Observed.setHead, update_eq_self]

theorem peekAt_state (fifo : GFifo bits heads) (h : Nat) :
    (fifo.peekAt h).1 =
      if fifo.localHead h = fifo.shadowTail h then
        fifo.setHead h (fifo.head h) (fifo.localHead h) fifo.tail
      else fifo := by
  unfold peekAt
  dsimp only
  split
  · simp only [setHead, update_eq_self]
    split <;> rfl
  · rfl

section
variable (inv : Broadcasting fifo observed counters) {h : Nat} (inUse : h < heads)
include inv inUse

/-- A peek keeps the ring, with the cached tail sampled where it was reached. -/
theorem Broadcasting.peek_state :
    ∃ cached, Broadcasting (fifo.peekAt h).1 observed
        (counters.setHead h (counters.published h) cached) ∧
      (observed.retired h < observed.pushed.length → observed.retired h < cached) := by
  have ok := inv.each h inUse
  have order := inv.order inUse
  have kept : ∀ cached, observed.retired h ≤ cached → cached ≤ observed.pushed.length →
      (observed.phase h ≠ .idle → observed.retired h < cached) →
      Broadcasting (fifo.setHead h (fifo.head h) (fifo.localHead h) (cached % 2 ^ bits)) observed
        (counters.setHead h (counters.published h) cached) := by
    intro cached above below pending
    have moved := inv.setHead h _ _ _ ok.seen_length ok.behind ok.published_le above
      below pending ok.seen
    rw [observed.setHead_self, ← ok.head, ← ok.localHead] at moved
    exact moved
  rw [peekAt_state]
  split
  · rw [inv.tail]
    refine ⟨_, kept _ (by omega) le_rfl fun pending => ?_, fun more => more⟩
    exact (ok.pending pending).2.trans_le ok.cached_le
  next ahead =>
    have behind := mt (inv.at_shadowTail inUse).mpr ahead
    have same := kept _ ok.retired_le ok.cached_le fun pending => (ok.pending pending).2
    rw [← ok.shadowTail, setHead_self] at same
    exact ⟨_, same, fun _ => by omega⟩

theorem Broadcasting.peek :
    ∃ counters', Broadcasting (fifo.peekAt h).1
      (observed.note (.peek h) (.peeked (fifo.peekAt h).2)) counters' := by
  obtain ⟨cached, peeked, reached⟩ := inv.peek_state inUse
  rw [inv.peek_entry inUse]
  cases found : observed.pushed[observed.retired h]? with
  | none => exact ⟨_, peeked⟩
  | some entry =>
    have more : observed.retired h < observed.pushed.length :=
      (List.getElem?_eq_some_iff.mp found).1
    rw [Observed.note]
    split
    next idle =>
      have ok := peeked.each h inUse
      have length := ok.seen_length
      rw [idle, if_pos rfl, Nat.add_zero] at length
      have seen := ok.seen
      rw [length] at seen
      have given : observed.seen h ++ [entry.val] =
          (observed.pushed.take (observed.retired h + 1)).map val := by
        rw [take_add_one, found, map_append, ← seen]
        rfl
      have moved := peeked.setHead h (observed.retired h) (observed.seen h ++ [entry.val])
        .peeked (by rw [length_append, length]; rfl) ok.behind ok.published_le ok.retired_le
        ok.cached_le (fun _ => by simpa only [Counters.setHead, update_self] using reached more)
        (by rw [length_append, length]; exact given)
      rw [← ok.head, ← ok.localHead, ← ok.shadowTail, setHead_self] at moved
      exact ⟨_, moved⟩
    · exact ⟨_, peeked⟩

theorem Broadcasting.consume (inHand : observed.phase h ≠ .idle) :
    ∃ counters', Broadcasting (fifo.consumeAt h) (observed.note (.consume h) .done) counters' := by
  have ok := inv.each h inUse
  obtain ⟨-, before⟩ := ok.pending inHand
  have length := ok.seen_length
  rw [if_neg inHand] at length
  have order := inv.order inUse
  have noted : observed.note (.consume h) .done = observed.setHead h (observed.seen h) .idle := by
    simp only [Observed.note, Observed.setHead, update_eq_self]
  have moved : ∀ published', counters.low ≤ published' → published' ≤ observed.retired h + 1 →
      Broadcasting (fifo.setHead h (published' % 2 ^ bits) (fifo.mask (fifo.localHead h + 1))
        (fifo.shadowTail h)) (observed.note (.consume h) .done)
        (counters.setHead h published' (counters.cached h)) := by
    intro published' above below
    rw [noted, ok.shadowTail, ok.localHead, mask_mod_add]
    exact inv.setHead h _ _ _ length above below before ok.cached_le
      (absurd rfl) ok.seen
  unfold consumeAt
  dsimp only
  split
  · have published := moved (observed.retired h + 1) (by omega) le_rfl
    rw [← mask_mod_add, ← ok.localHead] at published
    simp only [GFifo.setHead, update_eq_self] at published
    exact ⟨_, published⟩
  · have unpublished := moved _ ok.behind (by omega)
    rw [← ok.head] at unpublished
    simp only [GFifo.setHead, update_eq_self] at unpublished
    exact ⟨_, unpublished⟩

theorem Broadcasting.flushHead :
    ∃ counters', Broadcasting (fifo.flushHeadAt h) observed counters' := by
  have ok := inv.each h inUse
  have moved := inv.setHead h _ _ _ ok.seen_length
    (ok.behind.trans ok.published_le) le_rfl ok.retired_le ok.cached_le
    (fun waiting => (ok.pending waiting).2) ok.seen
  rw [observed.setHead_self, ← ok.localHead, ← ok.shadowTail] at moved
  simp only [GFifo.setHead, update_eq_self] at moved
  exact ⟨_, moved⟩

end

/-- The loop takes the values of the next entries, or waits for them. -/
theorem Broadcasting.drainLoop (inv : Broadcasting fifo observed counters) (n : Nat)
    (held : counters.low ≤ k) (order : k ≤ observed.pushed.length) :
    fifo.drainLoop n (k % 2 ^ bits) fifo.tail =
      if k + n ≤ observed.pushed.length then
        some (((observed.pushed.drop k).take n).map val, (k + n) % 2 ^ bits, fifo.tail)
      else none := by
  have span := inv.span
  induction n generalizing k with
  | zero =>
    rw [if_pos (by omega)]
    rfl
  | succ n inductionHypothesis =>
    have atTail : k % 2 ^ bits = fifo.tail ↔ k = observed.pushed.length := by
      rw [inv.tail]
      exact mod_eq_iff_eq order (by omega)
    rw [GFifo.drainLoop]
    rw [ite_self]
    by_cases reached : k = observed.pushed.length
    · rw [if_pos (atTail.mpr reached), if_neg (by omega)]
    have next := inductionHypothesis (k := k + 1) (by omega) (by omega)
    rw [if_neg (mt atTail.mp reached), mask_mod_add, next]
    by_cases enough : k + (n + 1) ≤ observed.pushed.length
    · have found := inv.slot held (by omega)
      have split : observed.pushed.drop k =
          fifo.buf (k % 2 ^ bits) :: observed.pushed.drop (k + 1) :=
        drop_eq_getElem?_toList_append.trans (by rw [found]; rfl)
      rw [if_pos (by omega), if_pos enough, split,
        show k + 1 + n = k + (n + 1) by omega]
      rfl
    · rw [if_neg (by omega), if_neg enough]
      rfl

/-- A drain gives the head the payload behind its token. -/
theorem Broadcasting.drainPayload (word : bits ≤ 64) (inv : Broadcasting fifo observed counters)
    (inUse : h < heads) (atToken : observed.phase h = .peeked) :
    ∃ counters', Broadcasting (fifo.drainPayloadAt h n).1
      (observed.note (.drainPayload h n) (.drained (fifo.drainPayloadAt h n).2)) counters' := by
  have ok := inv.each h inUse
  have inHand : observed.phase h ≠ .idle := by
    rw [atToken]
    decide
  obtain ⟨-, before⟩ := ok.pending inHand
  have length := ok.seen_length
  rw [if_neg inHand] at length
  have order := inv.order inUse
  have ran := inv.drainLoop n (k := observed.retired h + 1) (by omega) (by omega)
  unfold drainPayloadAt
  rw [ok.localHead, mask_mod_add, ran]
  by_cases enough : observed.retired h + 1 + n ≤ observed.pushed.length
  · have taken : ((observed.pushed.drop (observed.retired h + 1)).take n).length = n := by
      rw [length_take, length_drop]
      omega
    have seen := ok.seen
    rw [length] at seen
    have given : observed.seen h ++
        ((observed.pushed.drop (observed.retired h + 1)).take n).map val =
        (observed.pushed.take (observed.retired h + 1 + n)).map val := by
      rw [take_add, map_append, ← seen]
    have total : (observed.seen h ++
        ((observed.pushed.drop (observed.retired h + 1)).take n).map val).length =
        observed.retired h + 1 + n := by
      rw [length_append, length_map, taken, length]
    have moved := inv.setHead h (observed.retired h + n)
      (observed.seen h ++ ((observed.pushed.drop (observed.retired h + 1)).take n).map val)
      (if n = 0 then .peeked else .drained)
      (by
        rw [if_neg (by split <;> decide)]
        omega)
      ok.behind (by omega) (by omega) le_rfl (fun _ => by omega) (by rw [total]; exact given)
    have stepped : fifo.mask (wrappingSub ((observed.retired h + 1 + n) % 2 ^ bits) 1) =
        (observed.retired h + n) % 2 ^ bits := by
      rw [mask_eq, show observed.retired h + 1 + n = observed.retired h + n + 1 by omega,
        mod_pred word]
    rw [← ok.head, ← stepped, ← inv.tail] at moved
    simp only [GFifo.setHead, update_eq_self] at moved
    rw [if_pos enough]
    exact ⟨_, moved⟩
  · rw [if_neg enough]
    exact ⟨counters, inv⟩

/-! ### Runs -/

/-- An operation, with the observer's note of it. -/
def observeStep (state : GFifo bits heads × Observed) (op : RingOp) : GFifo bits heads × Observed :=
  let (fifo, response) := state.1.step op
  (fifo, state.2.note op response)

def RingOp.isPush : RingOp → Bool
  | .push _ | .push2 _ _ | .pushSlice _ | .pushBatch _ _ => true
  | .peek _ | .consume _ | .drainPayload _ _ | .flushHead _ => false

section
variable (word : bits ≤ 64) (some : 0 < heads) (inv : Broadcasting fifo observed counters)
include word some inv

theorem Broadcasting.pushed (push : op.isPush = true) :
    ∃ success, (fifo.step op).2 = .pushed success ∧
      observed.note op (.pushed success) =
        (if success then observed.pushing op.entries else observed) ∧
      Pushed fifo observed op.entries ((fifo.step op).1, success) := by
  have noted : ∀ success, observed.note op (.pushed success) =
      if success then observed.pushing op.entries else observed := by
    intro success
    cases op <;> cases success <;> first | rfl | cases push
  cases op with
  | push entry => exact ⟨_, rfl, noted _, inv.tryPush word some⟩
  | push2 first second => exact ⟨_, rfl, noted _, inv.tryPush2 word some⟩
  | pushSlice entries => exact ⟨_, rfl, noted _, inv.tryPushSlice word some⟩
  | pushBatch token vals => exact ⟨_, rfl, noted _, inv.pushBatch word some⟩
  | peek | consume | drainPayload | flushHead => cases push

theorem Broadcasting.step (op : RingOp) (follows : observed.Follows heads op) :
    ∃ counters', Broadcasting (observeStep (fifo, observed) op).1
      (observeStep (fifo, observed) op).2 counters' := by
  by_cases push : op.isPush = true
  · obtain ⟨success, response, noted, pushed⟩ := inv.pushed word some push
    rw [observeStep]
    dsimp only
    rw [response, noted]
    exact pushed.broadcasting
  · cases op with
    | peek h => exact inv.peek follows.1
    | consume h => exact inv.consume follows.1 follows.2
    | drainPayload h n => exact inv.drainPayload word follows.1 follows.2
    | flushHead h => exact inv.flushHead follows
    | push | push2 | pushSlice | pushBatch => exact absurd rfl push

end

/-- A ring and its observer after a run from a new ring. -/
def observeRun (bits heads : Nat) (ops : List RingOp) : GFifo bits heads × Observed :=
  ops.foldl observeStep (new, .none)

/-- The consumers keep to their contract all along. -/
def KeepsContract (bits heads : Nat) : List RingOp → Prop :=
  Along (@observeStep bits heads) (fun state op => state.2.Follows heads op) (new, .none)

theorem Broadcasting.empty (inv : Broadcasting fifo observed counters)
    (empty : fifo.isEmpty = true) {h : Nat} (inUse : h < heads) :
    observed.retired h = observed.pushed.length ∧ observed.seen h = observed.pushed.map val := by
  have ok := inv.each h inUse
  have order := inv.order inUse
  have caughtUp : fifo.head h = fifo.tail :=
    of_decide_eq_true (all_eq_true.mp empty h (mem_range.mpr inUse))
  rw [ok.head, inv.tail, mod_eq_iff_eq (by omega) (by omega)] at caughtUp
  have all : observed.retired h = observed.pushed.length := by omega
  have length := ok.seen_length
  have seen := ok.seen
  rw [take_of_length_le (by omega)] at seen
  exact ⟨all, seen⟩

theorem Broadcasting.lenAt (word : bits ≤ 64) (inv : Broadcasting fifo observed counters)
    (inUse : h < heads) :
    fifo.lenAt h = observed.pushed.length - counters.published h := by
  rw [GFifo.lenAt, (inv.each h inUse).head]
  exact (inv.distanceTo word inUse).1

/-- After every run that keeps the consumers' contract, on a ring of any power-of-two depth
with any number of heads: what a head was given is a prefix of what was pushed, and its next
peek shows the entry behind those it is done with; less than a ring of entries is live, for
every head; a push succeeds exactly if the slowest published head leaves room for all of its
entries, and otherwise changes nothing but the producer's cached head; and if the ring says it
is empty every head is done with everything pushed. -/
theorem broadcast_delivers (bits heads : Nat) (word : bits < 64) (some : 0 < heads)
    (ops : List RingOp) (contract : KeepsContract bits heads ops) :
    let fifo := (observeRun bits heads ops).1
    let observed := (observeRun bits heads ops).2
    (∀ h < heads, observed.seen h <+: observed.pushed.map val ∧
      (fifo.peekAt h).2 = observed.pushed[observed.retired h]?) ∧
    (∃ slow < heads, fifo.len = fifo.lenAt slow) ∧
    (∀ h < heads, fifo.lenAt h < 2 ^ bits ∧ fifo.lenAt h ≤ fifo.len ∧
      observed.pushed.length ≤ observed.retired h + fifo.lenAt h) ∧
    (∀ op, RingOp.isPush op = true → ∃ success, (fifo.step op).2 = .pushed success ∧
      (success = true ↔ fifo.len + op.entries.length < 2 ^ bits) ∧
      (success = false →
        (fifo.step op).1 = { fifo with shadowHead := (fifo.step op).1.shadowHead })) ∧
    (fifo.isEmpty = true → ∀ h < heads, observed.retired h = observed.pushed.length ∧
      observed.seen h = observed.pushed.map val) := by
  intro fifo observed
  obtain ⟨counters, inv⟩ : ∃ counters, Broadcasting fifo observed counters := by
    refine @Along.keeps _ _ _ _ _ (fun state => ∃ counters, Broadcasting state.1 state.2 counters) _
      contract ?_ ⟨_, broadcasting_new⟩
    intro state op inv follows
    obtain ⟨_, inv⟩ := inv
    exact inv.step word.le some op follows
  obtain ⟨slow, slowInUse, len, least⟩ := inv.len word.le some
  refine ⟨fun h inUse => ⟨?_, inv.peek_entry inUse⟩, ⟨slow, slowInUse, ?_⟩,
    fun h inUse => ?_, fun op push => ?_, fun empty h inUse => inv.empty empty inUse⟩
  · have seen := (inv.each h inUse).seen
    rw [seen, map_take]
    exact take_prefix _ _
  · rw [len, inv.lenAt word.le slowInUse]
  · have order := inv.order inUse
    have slowest := least h inUse
    rw [inv.lenAt word.le inUse]
    omega
  · obtain ⟨success, response, -, pushed⟩ := inv.pushed word.le some push
    exact ⟨success, response, pushed.success_iff, pushed.failed⟩

/-! ### Two rings -/

/-- Two heads on a ring of eight: a pair and a batch, which one head drains. -/
def batchRun : List RingOp :=
  [.push2 ⟨1, 10⟩ ⟨2, 20⟩, .peek 0, .consume 0, .pushBatch ⟨3, 2⟩ [30, 40], .peek 0, .consume 0,
    .peek 0, .drainPayload 0 2, .consume 0, .peek 1, .push2 ⟨4, 50⟩ ⟨5, 60⟩, .push ⟨6, 70⟩]

theorem broadcast_delivers_batch :
    (observeRun 3 2 batchRun).2.pushed.map val = [10, 20, 2, 30, 40, 50, 60] ∧
      (observeRun 3 2 batchRun).2.seen 0 = [10, 20, 2, 30, 40] ∧
      (observeRun 3 2 batchRun).2.seen 1 <+:
        (observeRun 3 2 batchRun).2.pushed.map val := by
  have contract : KeepsContract 3 2 batchRun := by
    repeat' first
      | exact Along.nil
      | refine Along.cons (by decide +kernel) ?_
  exact ⟨by decide +kernel, by decide +kernel,
    ((broadcast_delivers 3 2 (by decide) (by decide) batchRun contract).1 1 (by decide)).1⟩

/-- A consume without a peek leaves the contract: the entry pushed next is passed over, and
the head is shown one that was never pushed. -/
theorem unpeeked_consume_skips :
    (observeRun 3 1 [.consume 0, .push ⟨1, 7⟩]).2.pushed = [⟨1, 7⟩] ∧
      ((observeRun 3 1 [.consume 0, .push ⟨1, 7⟩]).1.peekAt 0).2 = some ⟨0, 0⟩ := by
  constructor <;> decide +kernel

end Iris.Gfifo
