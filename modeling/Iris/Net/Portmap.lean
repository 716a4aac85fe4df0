import Iris.Nfs.Server
import Iris.Net.Tcp.Receive

/-!
Owns the portmapper: its reply to a call, and the service that answers record-marked calls off
a TCP stream. However the stream is cut, the service answers each of its records once, in order.
-/

namespace Iris.Net.Portmap

open Library.Run Nfs

def word (b : Bytes) (i : Nat) : Option (BitVec 32) := (Cur.u32 (b.drop i)).map Prod.fst

/-- The guest-visible port a GETPORT call asks for, or 0 if unknown. -/
def lookup (call : Bytes) : BitVec 32 :=
  let parse : Option (BitVec 32) := do
    if (← word call 4) ≠ 0 ∨ (← word call 8) ≠ 2 ∨ (← word call 12) ≠ 100000 ∨
        (← word call 20) ≠ 3 then none
    let credLen ← word call 28
    let verf := 32 + credLen.toNat
    let args := verf + 8 + (← word call (verf + 4)).toNat
    -- the whole mapping must be there
    let _ ← word call (args + 12)
    let prog ← word call args
    return if prog = nfsProg then 2049 else if prog = mountProg then 1234
      else if prog = 100000 then 111 else 0
  parse.getD 0

def reply (call : Bytes) : Bytes :=
  [(word call 0).getD 0, 1, 0, 0, 0, 0, lookup call].flatMap Xdr.u32

/-! ### The service -/

/-- The reply to a call as a record. -/
def answer (call : Bytes) : Bytes :=
  Xdr.u32 (BitVec.ofNat 32 (reply call).length ||| 0x80000000) ++ reply call

/-- The last-fragment bit of a mark is not looked at. -/
def lengthOf (mark : BitVec 32) : Nat := (mark &&& 0x7fffffff).toNat

/-- The call of the first record and what is behind it, if the record is there as a whole. -/
def nextRecord (inbuf : Bytes) : Option (Bytes × Bytes) :=
  match Cur.u32 inbuf with
  | none => none
  | some (mark, rest) =>
    if rest.length < lengthOf mark then none
    else some (rest.take (lengthOf mark), rest.drop (lengthOf mark))

/-- The loop of `input`: the answers, and what stays in the buffer. Each turn takes a record, so
as many turns as there are bytes are enough. -/
def answerLoop : Nat → Bytes → Bytes × Bytes
  | 0, inbuf => ([], inbuf)
  | turns + 1, inbuf =>
    match nextRecord inbuf with
    | none => ([], inbuf)
    | some (call, rest) =>
      let (out, inbuf) := answerLoop turns rest
      (answer call ++ out, inbuf)

structure PortmapService where
  inbuf : Bytes := []

namespace PortmapService

variable (service : PortmapService) (data : Bytes)

def input : Bytes × PortmapService :=
  let inbuf := service.inbuf ++ data
  let (out, inbuf) := answerLoop inbuf.length inbuf
  (out, ⟨inbuf⟩)

def step : PortmapService := (service.input data).2

def output : Bytes := (service.input data).1

end PortmapService

open PortmapService

/-! ### Records -/

/-- A mark and as many bytes as it tells. -/
structure Record where
  mark : Byte × Byte × Byte × Byte
  call : Bytes
  fits : lengthOf (mark.1 ++ mark.2.1 ++ mark.2.2.1 ++ mark.2.2.2) = call.length

def Record.bytes (record : Record) : Bytes :=
  [record.mark.1, record.mark.2.1, record.mark.2.2.1, record.mark.2.2.2] ++ record.call

/-- No record is at the front. -/
def Incomplete (tail : Bytes) : Prop := ∀ record : Record, ¬record.bytes <+: tail

/-- The stream is made of these records and, behind them, part of one. -/
structure Marked (stream : Bytes) (records : List Record) (tail : Bytes) : Prop where
  parts : stream = records.flatMap Record.bytes ++ tail
  incomplete : Incomplete tail

theorem Record.bytes_inj {other : Record} {rest : Bytes}
    (same : record.bytes ++ rest = other.bytes ++ behind) : record = other ∧ rest = behind := by
  obtain ⟨⟨a, b, c, d⟩, call, fits⟩ := record
  obtain ⟨⟨a', b', c', d'⟩, call', fits'⟩ := other
  simp only [bytes, List.cons_append, List.nil_append, List.cons.injEq] at same
  obtain ⟨rfl, rfl, rfl, rfl, same⟩ := same
  obtain ⟨rfl, rfl⟩ := List.append_inj same (fits.symm.trans fits')
  exact ⟨rfl, rfl⟩

/-- A stream is so made in one way. -/
theorem Marked.unique {tail' : Bytes} (one : Marked stream records tail)
    (two : Marked stream records' tail') :
    records = records' := by
  induction records generalizing stream records' with
  | nil =>
    cases records' with
    | nil => rfl
    | cons record rest =>
      have same := two.parts.symm.trans one.parts
      rw [List.flatMap_cons, List.append_assoc] at same
      exact absurd ⟨_, same⟩ (one.incomplete record)
  | cons record rest inductionHypothesis =>
    have same := one.parts.symm.trans two.parts
    rw [List.flatMap_cons, List.append_assoc] at same
    cases records' with
    | nil => exact absurd ⟨_, same⟩ (two.incomplete record)
    | cons record' rest' =>
      rw [List.flatMap_cons, List.append_assoc] at same
      obtain ⟨rfl, behind⟩ := Record.bytes_inj same
      rw [inductionHypothesis ⟨rfl, one.incomplete⟩ ⟨behind, two.incomplete⟩]

/-! ### Every record is answered -/

theorem nextRecord_cases (inbuf : Bytes) :
    nextRecord inbuf = none ∧ Incomplete inbuf ∨
      ∃ record : Record, ∃ rest, nextRecord inbuf = some (record.call, rest) ∧
        inbuf = record.bytes ++ rest := by
  rw [nextRecord]
  match inbuf with
  | a :: b :: c :: d :: body =>
    rw [Cur.u32]
    dsimp only
    split
    next short =>
      refine .inl ⟨rfl, fun ⟨mark, call, fits⟩ ⟨behind, whole⟩ => ?_⟩
      simp only [Record.bytes, List.cons_append, List.nil_append, List.cons.injEq] at whole
      obtain ⟨rfl, rfl, rfl, rfl, rfl⟩ := whole
      rw [List.length_append] at short
      omega
    next long =>
      refine .inr ⟨⟨(a, b, c, d), body.take (lengthOf (a ++ b ++ c ++ d)), ?_⟩, _, rfl, ?_⟩
      · rw [List.length_take]
        dsimp only
        omega
      · simp [Record.bytes]
  | [] | [_] | [_, _] | [_, _, _] =>
    refine .inl ⟨rfl, fun record front => ?_⟩
    have length := front.length_le
    simp only [Record.bytes, List.length_append, List.length_cons, List.length_nil] at length
    omega

theorem answerLoop_marked {inbuf : Bytes} (enough : inbuf.length ≤ turns) :
    ∃ records, Marked inbuf records (answerLoop turns inbuf).2 ∧
      (answerLoop turns inbuf).1 = records.flatMap fun record => answer record.call := by
  induction turns generalizing inbuf with
  | zero =>
    obtain rfl := List.length_eq_zero_iff.mp (Nat.le_zero.mp enough)
    exact ⟨[], ⟨rfl, fun record front => nomatch front.length_le⟩, rfl⟩
  | succ turns inductionHypothesis =>
    rw [answerLoop]
    rcases nextRecord_cases inbuf with ⟨none, incomplete⟩ | ⟨record, rest, next, rfl⟩
    · rw [none]
      exact ⟨[], ⟨rfl, incomplete⟩, rfl⟩
    have shorter : rest.length ≤ turns := by
      simp only [Record.bytes, List.length_append, List.length_cons] at enough
      omega
    obtain ⟨records, ⟨parts, incomplete⟩, answered⟩ := inductionHypothesis shorter
    rw [next]
    refine ⟨record :: records, ⟨?_, incomplete⟩, ?_⟩
    · rw [List.flatMap_cons, List.append_assoc, ← parts]
    · rw [List.flatMap_cons, ← answered]

theorem output_marked (service : PortmapService) {chunks : List Bytes}
    (held : Incomplete service.inbuf) :
    ∃ records, ∃ tail, Marked (service.inbuf ++ chunks.flatten) records tail ∧
      emitted step output service chunks = records.flatMap fun record => answer record.call := by
  induction chunks generalizing service with
  | nil => exact ⟨[], service.inbuf, ⟨by simp, held⟩, rfl⟩
  | cons data rest inductionHypothesis =>
    obtain ⟨records, ⟨parts, incomplete⟩, answered⟩ :=
      answerLoop_marked (Nat.le_refl (service.inbuf ++ data).length)
    obtain ⟨later, tail, ⟨parts', ends⟩, answered'⟩ :=
      inductionHypothesis (service.step data) incomplete
    refine ⟨records ++ later, tail, ⟨?_, ends⟩, ?_⟩
    · rw [List.flatten_cons, ← List.append_assoc, parts, List.append_assoc, List.flatMap_append,
        List.append_assoc, ← parts']
      rfl
    · rw [emitted, answered', List.flatMap_append, ← answered]
      rfl

theorem emitted_eq_output (chunks : List Bytes) :
    emitted step output {} chunks = output {} chunks.flatten := by
  have empty : Incomplete [] := fun record front => nomatch front.length_le
  obtain ⟨records, tail, marked, answered⟩ := output_marked {} empty
  obtain ⟨records', tail', marked', whole⟩ := output_marked {} empty
  rw [List.flatten_singleton] at marked'
  rw [answered, marked.unique marked', ← whole]
  exact List.append_nil _

/-- However a stream is cut, the answers are those to the whole stream given at once, and they
are the answers to its records, each once and in order. -/
theorem portmap_segmented (chunks : List Bytes) :
    emitted step output {} chunks = output {} chunks.flatten ∧
      ∀ records tail, Marked chunks.flatten records tail →
        emitted step output {} chunks = records.flatMap fun record => answer record.call := by
  have empty : Incomplete [] := fun record front => nomatch front.length_le
  refine ⟨emitted_eq_output chunks, fun others tail there => ?_⟩
  obtain ⟨records, _, marked, answered⟩ := output_marked {} empty
  rw [answered, marked.unique there]

/-- Two calls and part of a third, cut within a mark and within a call. -/
theorem portmap_segmented_cut :
    emitted step output {} [[128, 0], [0, 1, 7, 0, 0, 0], [2, 8], [9, 0, 0, 0, 1]] =
      [⟨(128, 0, 0, 1), [7], rfl⟩, ⟨(0, 0, 0, 2), [8, 9], rfl⟩].flatMap
        fun record : Record => answer record.call := by
  refine (portmap_segmented _).2 _ [0, 0, 0, 1] ⟨by decide, ?_⟩
  rcases nextRecord_cases [0, 0, 0, 1] with ⟨-, incomplete⟩ | ⟨record, rest, next, -⟩
  · exact incomplete
  · cases next

/-! ### Over a connection -/

open Tcp

/-- However a guest's segments come, and in whatever pieces the service is given what they
carry: its answers are the first of those to the whole stream, and all once the guest's end
is shut. -/
theorem portmap_over_tcp {stream : Bytes} (short : stream.length < 2 ^ 32)
    (opens : Opens irs conn) (ops : List ConnOp)
    (carried : ∀ now tcp writes, .segment now tcp writes ∈ ops → Carried stream irs tcp)
    (chunks : List Bytes) (given : chunks.flatten = (connRun conn ops).backend.received) :
    emitted step output {} chunks <+: output {} stream ∧
      ((connRun conn ops).backend.writeShut = true →
        emitted step output {} chunks = output {} stream) := by
  have inv := opens.receiving.run (opens.receiving.runFits_of_short short carried)
  constructor
  · obtain ⟨rest, rfl⟩ : chunks.flatten <+: stream := by
      rw [given]
      exact (List.prefix_append _ _).trans (inv.bytes ▸ List.take_prefix _ stream)
    have answered := emitted_eq_output (chunks ++ [rest])
    rw [emitted_append, List.flatten_append, List.flatten_singleton] at answered
    exact ⟨_, answered⟩
  · intro shut
    rw [emitted_eq_output, given, inv.shut_complete shut]

/-- A call given to the service in two pieces. -/
theorem portmap_over_tcp_call :
    emitted step output {} [[128], [0, 0, 1, 7]] = output {} [128, 0, 0, 1, 7] := by
  refine (portmap_over_tcp (by decide) (.accepted 1000 0 lastSyn) [connectPoll,
      .segment 1 (dataSegment 0 true [128, 0, 0, 1, 7]) [.accepted 1, .accepted 4]]
    (fun now tcp writes member => ?_) _ (by decide +kernel)).2 (by decide +kernel)
  obtain ⟨-, rfl, -⟩ := by simpa [connectPoll] using member
  exact fun _ => ⟨0, rfl, rfl, fun _ => rfl⟩

end Iris.Net.Portmap
