import Iris.Library.Run

/-!
Owns the telnet filter in front of the terminal endpoints: a byte in, at most one data byte and
one reply out. Whatever commands stand between the data, and however the stream arrives, the data
comes through; and when a passive filter agrees to an option.
-/

namespace Iris.Net.Telnet

open Library.Run

abbrev Byte := BitVec 8

def iac : Byte := 255

def sb : Byte := 250

def se : Byte := 240

inductive Verb
  | will
  | wont
  | do_
  | dont
deriving DecidableEq

def Verb.code : Verb → Byte
  | .dont => 254
  | .do_ => 253
  | .wont => 252
  | .will => 251

def optBinary : Byte := 0

def optEcho : Byte := 1

def optSga : Byte := 3

inductive State
  | data
  | iac
  | option (verb : Verb)
  | sb
  | sbIac
deriving DecidableEq

structure Reply where
  verb : Verb
  opt : Byte
deriving DecidableEq

def Reply.bytes (reply : Reply) : List Byte := [iac, reply.verb.code, reply.opt]

/-- The last WILL or WONT, and DO or DONT, sent for each option. -/
structure TelnetFilter where
  state : State
  weWill : Byte → Option Bool
  weDo : Byte → Option Bool

namespace TelnetFilter

/-- Character-at-a-time mode, the initial handshake taken as sent. -/
def new : TelnetFilter where
  state := .data
  weWill opt := if opt ∈ [optEcho, optSga, optBinary] then some true else none
  weDo opt := if opt = optBinary then some true else none

def newPassive : TelnetFilter := ⟨.data, fun _ => none, fun _ => none⟩

variable (filter : TelnetFilter)

def maybeReplyWill (opt : Byte) (desired : Bool) : TelnetFilter × Option Reply :=
  if filter.weWill opt ≠ some desired then
    ({ filter with weWill := Function.update filter.weWill opt (some desired) },
      some ⟨if desired then .will else .wont, opt⟩)
  else (filter, none)

def maybeReplyDo (opt : Byte) (desired : Bool) : TelnetFilter × Option Reply :=
  if filter.weDo opt ≠ some desired then
    ({ filter with weDo := Function.update filter.weDo opt (some desired) },
      some ⟨if desired then .do_ else .dont, opt⟩)
  else (filter, none)

def answer (byte : Byte) : Verb → TelnetFilter × Option Reply
  | .will => filter.maybeReplyDo byte (byte = optBinary)
  | .wont => filter.maybeReplyDo byte false
  | .do_ => filter.maybeReplyWill byte (byte ∈ [optEcho, optSga, optBinary])
  | .dont => filter.maybeReplyWill byte false

/-- One inbound byte: the data byte that falls out, and the reply. -/
def feed (byte : Byte) : TelnetFilter × Option Byte × Option Reply :=
  match filter.state with
  | .data =>
    if byte = iac then ({ filter with state := .iac }, none, none) else (filter, some byte, none)
  | .iac =>
    if byte = iac then ({ filter with state := .data }, some iac, none)
    else if byte = Verb.code .will then ({ filter with state := .option .will }, none, none)
    else if byte = Verb.code .wont then ({ filter with state := .option .wont }, none, none)
    else if byte = Verb.code .do_ then ({ filter with state := .option .do_ }, none, none)
    else if byte = Verb.code .dont then ({ filter with state := .option .dont }, none, none)
    else if byte = sb then ({ filter with state := .sb }, none, none)
    else ({ filter with state := .data }, none, none)
  | .option verb =>
    let (filter, reply) := filter.answer byte verb
    ({ filter with state := .data }, none, reply)
  | .sb => ({ filter with state := if byte = iac then .sbIac else .sb }, none, none)
  | .sbIac => ({ filter with state := if byte = se then .data else .sb }, none, none)

def step (byte : Byte) : TelnetFilter := (filter.feed byte).1

def passed (byte : Byte) : List Byte := (filter.feed byte).2.1.toList

def replies (byte : Byte) : List Reply := (filter.feed byte).2.2.toList

def receive (chunk : List Byte) : TelnetFilter := chunk.foldl step filter

end TelnetFilter

open TelnetFilter

variable {filter : TelnetFilter}

/-! ### Data between commands -/

/-- An outbound or quoted byte: 255 is doubled. -/
def escapeByte (byte : Byte) : List Byte := if byte = iac then [iac, byte] else [byte]

/-- What a stream is made of: data, and complete commands. -/
inductive Item
  | data (byte : Byte)
  | command (code : {code : Byte // code < sb})
  | option (verb : Verb) (opt : Byte)
  | subnegotiation (payload : List Byte)

open Item

def Item.encode : Item → List Byte
  | .data byte => escapeByte byte
  | .command code => [iac, code.val]
  | .option verb opt => [iac, verb.code, opt]
  | .subnegotiation payload => [iac, sb] ++ payload.flatMap escapeByte ++ [iac, se]

def Item.bytes : Item → List Byte
  | .data byte => [byte]
  | _ => []

/-- A stretch of the stream takes the filter from one state to another, and lets `data` out. -/
def Takes (before : State) (stretch : List Byte) (after : State) (data : List Byte) : Prop :=
  ∀ filter : TelnetFilter, filter.state = before →
    (stretch.foldl step filter).state = after ∧ emitted step passed filter stretch = data

theorem Takes.append (one : Takes a first b before) (two : Takes b second c after) :
    Takes a (first ++ second) c (before ++ after) := by
  intro filter begins
  obtain ⟨between, passes⟩ := one filter begins
  obtain ⟨ends, then_⟩ := two _ between
  rw [List.foldl_append, emitted_append, passes, then_]
  exact ⟨ends, rfl⟩

/-- A quoted byte of a subnegotiation is swallowed. -/
theorem takes_quoted : Takes .sb (escapeByte byte) .sb [] := by
  intro filter begins
  rw [escapeByte]
  split
  next isIac =>
    subst isIac
    simp [step, feed, passed, emitted, begins, iac, se]
  next plain => simp [step, feed, passed, emitted, begins, plain]

theorem takes_payload {payload : List Byte} : Takes .sb (payload.flatMap escapeByte) .sb [] := by
  induction payload with
  | nil => exact fun _ begins => ⟨begins, rfl⟩
  | cons byte rest inductionHypothesis => exact (takes_quoted).append inductionHypothesis

theorem takes_item {item : Item} : Takes .data item.encode .data item.bytes := by
  cases item with
  | data byte =>
    intro filter begins
    rw [encode, escapeByte]
    split
    next isIac =>
      subst isIac
      simp [step, feed, passed, emitted, begins, bytes]
    next plain => simp [step, feed, passed, emitted, begins, plain, bytes]
  | command code =>
    intro filter begins
    obtain ⟨code, low⟩ := code
    have other : ∀ high : Byte, sb ≤ high → code ≠ high := by
      rintro _ high rfl
      exact absurd low (BitVec.not_lt.mpr high)
    simp [encode, step, feed, passed, emitted, begins, bytes, other iac (by decide),
      other (Verb.code .will) (by decide), other (Verb.code .wont) (by decide),
      other (Verb.code .do_) (by decide), other (Verb.code .dont) (by decide), other sb (by decide)]
  | option verb opt =>
    intro filter begins
    cases verb <;> simp [encode, step, feed, passed, emitted, begins, bytes, Verb.code, iac]
  | subnegotiation payload =>
    have opens : Takes .data [iac, sb] .sb [] := by
      intro filter begins
      simp [step, feed, passed, emitted, begins, Verb.code, iac, sb]
    have closes : Takes .sb [iac, se] .data [] := by
      intro filter begins
      simp [step, feed, passed, emitted, begins]
    exact (opens.append takes_payload).append closes

theorem takes_items (items : List Item) :
    Takes .data (items.flatMap encode) .data (items.flatMap bytes) := by
  induction items with
  | nil => exact fun _ begins => ⟨begins, rfl⟩
  | cons item rest inductionHypothesis => exact (takes_item).append inductionHypothesis

/-- Data with any complete commands between its bytes comes through a filter that is between
commands, in whatever chunks the stream arrives, and the replies are those to the whole. -/
theorem telnet_transparent (filter : TelnetFilter) (between : filter.state = .data)
    (items : List Item) (chunks : List (List Byte))
    (split : chunks.flatten = items.flatMap encode) :
    emitted receive (emitted step passed) filter chunks = items.flatMap bytes ∧
      emitted receive (emitted step replies) filter chunks =
        emitted step replies filter (items.flatMap encode) := by
  have data := (takes_items items filter between).2
  have passing := emitted_flatten step passed filter chunks
  have replying := emitted_flatten step replies filter chunks
  rw [split] at passing replying
  exact ⟨passing.trans data, replying⟩

/-- A 255 between two negotiations and quoted in a subnegotiation, cut within both. -/
theorem telnet_transparent_cut :
    emitted receive (emitted step passed) new
        [[255, 253, 24, 255], [255, 255, 250, 24, 255], [255, 240, 255, 240, 7]] = [255, 7] ∧
      emitted receive (emitted step replies) new
        [[255, 253, 24, 255], [255, 255, 250, 24, 255], [255, 240, 255, 240, 7]] = [⟨.wont, 24⟩] :=
  have whole := telnet_transparent new rfl
    [.option .do_ 24, .data 255, .subnegotiation [24, 255, 240], .data 7]
    [[255, 253, 24, 255], [255, 255, 250, 24, 255], [255, 240, 255, 240, 7]] (by decide)
  ⟨whole.1, whole.2.trans (by decide)⟩

/-! ### A passive filter -/

/-- The byte completes an offer of BINARY, or a request for ECHO, SGA or BINARY. -/
def Agreeable : State → Byte → Prop
  | .option .will, byte => byte = optBinary
  | .option .do_, byte => byte ∈ [optEcho, optSga, optBinary]
  | _, _ => False

/-- A reply that agrees to nothing. -/
def Reply.Declines (reply : Reply) : Prop := reply.verb = .wont ∨ reply.verb = .dont

structure Declining (filter : TelnetFilter) : Prop where
  will : ∀ opt, filter.weWill opt ≠ some true
  do_ : ∀ opt, filter.weDo opt ≠ some true

/-- A reply agrees exactly if that is desired; if not, nothing was agreed to afterwards either. -/
def Heeds (desired : Prop) (result : TelnetFilter × Option Reply) : Prop :=
  (desired → ∃ reply ∈ result.2, ¬reply.Declines) ∧
    (¬desired → (∀ reply ∈ result.2, reply.Declines) ∧ Declining result.1)

section
variable (declining : Declining filter)
include declining

theorem maybeReplyWill_heeds {opt : Byte} (desired : Bool) :
    Heeds (desired = true) (filter.maybeReplyWill opt desired) := by
  rw [maybeReplyWill]
  constructor
  · rintro rfl
    rw [if_pos (declining.will opt)]
    exact ⟨_, rfl, by simp [Reply.Declines]⟩
  intro refused
  rw [Bool.not_eq_true] at refused
  subst refused
  split
  · refine ⟨by simp [Reply.Declines], fun other => ?_, declining.do_⟩
    by_cases here : other = opt
    · simp [here]
    · simpa [here] using declining.will other
  · exact ⟨by simp, declining⟩

theorem maybeReplyDo_heeds {opt : Byte} (desired : Bool) :
    Heeds (desired = true) (filter.maybeReplyDo opt desired) := by
  rw [maybeReplyDo]
  constructor
  · rintro rfl
    rw [if_pos (declining.do_ opt)]
    exact ⟨_, rfl, by simp [Reply.Declines]⟩
  intro refused
  rw [Bool.not_eq_true] at refused
  subst refused
  split
  · refine ⟨by simp [Reply.Declines], declining.will, fun other => ?_⟩
    by_cases here : other = opt
    · simp [here]
    · simpa [here] using declining.do_ other
  · exact ⟨by simp, declining⟩

theorem feed_heeds :
    Heeds (Agreeable filter.state byte) ((filter.feed byte).1, (filter.feed byte).2.2) := by
  rw [feed]
  cases filter.state with
  | data =>
    refine ⟨False.elim, fun _ => ?_⟩
    dsimp only
    split <;> exact ⟨nofun, declining.will, declining.do_⟩
  | iac =>
    refine ⟨False.elim, fun _ => ?_⟩
    split_ifs <;> exact ⟨nofun, declining.will, declining.do_⟩
  | option verb =>
    have heeds : Heeds (Agreeable (.option verb) byte) (filter.answer byte verb) := by
      unfold Agreeable
      cases verb with
      | will => simpa [answer] using maybeReplyDo_heeds declining (byte = optBinary)
      | wont => simpa [answer] using maybeReplyDo_heeds declining false
      | do_ =>
        simpa [answer] using
          maybeReplyWill_heeds declining (byte ∈ [optEcho, optSga, optBinary])
      | dont => simpa [answer] using maybeReplyWill_heeds declining false
    refine ⟨heeds.1, fun refused => ?_⟩
    obtain ⟨declines, still⟩ := heeds.2 refused
    exact ⟨declines, still.will, still.do_⟩
  | sb | sbIac => exact ⟨False.elim, fun _ => ⟨nofun, declining.will, declining.do_⟩⟩

theorem declines_iff :
    (∀ reply ∈ emitted step replies filter input, reply.Declines) ↔
      Along step (fun filter byte => ¬Agreeable filter.state byte) filter input := by
  induction input generalizing filter with
  | nil => exact iff_of_true (by simp [emitted]) .nil
  | cons byte rest inductionHypothesis =>
    obtain ⟨agrees, keeps⟩ := feed_heeds declining
    by_cases asked : Agreeable filter.state byte
    · obtain ⟨reply, given, agreed⟩ := agrees asked
      refine iff_of_false (fun all => agreed (all reply ?_)) fun along => along [] byte rest rfl asked
      exact List.mem_append_left _ (Option.mem_toList.mpr given)
    obtain ⟨declines, still⟩ := keeps asked
    constructor
    · intro all
      exact .cons asked ((inductionHypothesis still).mp fun reply later =>
        all reply (List.mem_append_right _ later))
    · intro along reply member
      rcases List.mem_append.mp member with now | later
      · exact declines reply (Option.mem_toList.mp now)
      · exact (inductionHypothesis still).mpr along.tail reply later

end

/-- Whatever a passive filter is fed and in whatever chunks, all its replies decline exactly if
the client never offers BINARY and never asks for ECHO, SGA or BINARY. -/
theorem passive_declines_iff (chunks : List (List Byte)) :
    (∀ reply ∈ emitted receive (emitted step replies) newPassive chunks, reply.Declines) ↔
      Along step (fun filter byte => ¬Agreeable filter.state byte) newPassive chunks.flatten := by
  have whole := emitted_flatten step replies newPassive chunks
  rw [show emitted receive (emitted step replies) newPassive chunks = _ from whole]
  exact declines_iff ⟨by simp [newPassive], by simp [newPassive]⟩

/-- Asked for ECHO, a passive filter says WILL. -/
theorem passive_agrees_to_echo :
    emitted receive (emitted step replies) newPassive [[255, 253, 1]] = [⟨.will, optEcho⟩] ∧
      Reply.bytes ⟨.will, optEcho⟩ = [255, 251, 1] := by
  decide

end Iris.Net.Telnet
