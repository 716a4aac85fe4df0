import Mathlib.Data.List.Basic

/-!
Owns the XDMCP gateway's rewriting of a `Request`: the walk over its connection addresses,
each internet one replaced by the gateway's, and where in the packet those lie.
-/

namespace Iris.Net.Xdmcp

open List Option

abbrev Bytes := List (BitVec 8)

abbrev Ipv4Addr := Fin 4 → BitVec 8

def xdmcpVersion : BitVec 16 := 1

def opRequest : BitVec 16 := 7

def familyInternet : BitVec 16 := 0

def rdU16 (b : Bytes) (o : Nat) : Option (BitVec 16) := do return (← b[o]?) ++ (← b[o + 1]?)

def addrAt (out : Bytes) (o : Nat) : Ipv4Addr := fun k => out.getD (o + k) 0

def setAddr (out : Bytes) (o : Nat) (addr : Ipv4Addr) : Bytes :=
  out.mapIdx fun k byte => if h : o ≤ k ∧ k < o + 4 then addr ⟨k - o, by omega⟩ else byte

structure RequestRewrite where
  packet : Bytes
  displayNumber : BitVec 16
  clientIpv4 : List Ipv4Addr

def readTypes (out : Bytes) : Nat → Nat → Option (List (BitVec 16))
  | 0, _ => some []
  | n + 1, o => do return (← rdU16 out o) :: (← readTypes out n (o + 2))

/-- An address without a type counts as an internet one. -/
def isInet (types : List (BitVec 16)) (i : Nat) : Bool :=
  (types[i]?.map fun t => t == familyInternet).getD true

/-- The loop over the addresses: `n` are left, the `i`-th is at offset `o`. -/
def addrLoop (types : List (BitVec 16)) (newAddr : Ipv4Addr) :
    Nat → Nat → Nat → Bytes → List Ipv4Addr → Option (Bytes × List Ipv4Addr)
  | 0, _, _, out, clientIpv4 => some (out, clientIpv4)
  | n + 1, i, o, out, clientIpv4 =>
    match rdU16 out o with
    | none => none
    | some alen =>
      let astart := o + 2
      if out.length < astart + alen.toNat then none
      else if isInet types i ∧ alen.toNat = 4 then
        addrLoop types newAddr n (i + 1) (astart + alen.toNat) (setAddr out astart newAddr)
          (clientIpv4 ++ [addrAt out astart])
      else addrLoop types newAddr n (i + 1) (astart + alen.toNat) out clientIpv4

/-- What comes before the addresses: the display number, the types, the number of addresses
and the offset of the first. -/
structure Head where
  displayNumber : BitVec 16
  types : List (BitVec 16)
  nAddrs : Nat
  start : Nat

def readHead (pkt : Bytes) : Option Head := do
  let version ← rdU16 pkt 0
  let opcode ← rdU16 pkt 2
  let length ← rdU16 pkt 4
  if version ≠ xdmcpVersion ∨ opcode ≠ opRequest ∨ pkt.length < 6 + length.toNat then none
  else
    let displayNumber ← rdU16 pkt 6
    let nTypes ← pkt[8]?
    let types ← readTypes pkt nTypes.toNat 9
    let nAddrs ← pkt[9 + 2 * nTypes.toNat]?
    return ⟨displayNumber, types, nAddrs.toNat, 10 + 2 * nTypes.toNat⟩

def rewriteRequestIpv4 (pkt : Bytes) (newAddr : Ipv4Addr) : Option RequestRewrite := do
  let head ← readHead pkt
  let (packet, clientIpv4) ← addrLoop head.types newAddr head.nAddrs 0 head.start pkt []
  return ⟨packet, head.displayNumber, clientIpv4⟩

/-! ### The fields of a packet -/

/-- Where the 4-byte internet addresses are, among `n` addresses from offset `o` on. -/
def inetFields (types : List (BitVec 16)) (pkt : Bytes) : Nat → Nat → Nat → List Nat
  | 0, _, _ => []
  | n + 1, i, o =>
    let alen := ((rdU16 pkt o).getD 0).toNat
    let more := inetFields types pkt n (i + 1) (o + 2 + alen)
    if isInet types i ∧ alen = 4 then (o + 2) :: more else more

def requestFields (pkt : Bytes) : List Nat :=
  match readHead pkt with
  | none => []
  | some head => inetFields head.types pkt head.nAddrs 0 head.start

/-- Within the body that the header declares. -/
def InBody (pkt : Bytes) (field : Nat) : Prop :=
  6 ≤ field ∧ field + 4 ≤ 6 + ((rdU16 pkt 4).getD 0).toNat
deriving Decidable

/-- `out` is `pkt` with the address in each of the fields. -/
structure Rewrites (newAddr : Ipv4Addr) (fields : List Nat) (pkt out : Bytes) : Prop where
  length : out.length = pkt.length
  outside : ∀ k, (∀ field ∈ fields, k < field ∨ field + 4 ≤ k) → out[k]? = pkt[k]?
  inside : ∀ field ∈ fields, addrAt out field = newAddr

section
variable {types : List (BitVec 16)} {newAddr : Ipv4Addr} {n i o : Nat} {pkt out : Bytes}

theorem getElem?_setAddr (k : Nat) (outside : k < o ∨ o + 4 ≤ k) :
    (setAddr pkt o newAddr)[k]? = pkt[k]? := by
  rw [setAddr, getElem?_mapIdx]
  cases pkt[k]? with
  | none => rfl
  | some byte => exact congrArg some (dif_neg (by omega))

theorem addrAt_setAddr (fits : o + 4 ≤ pkt.length) : addrAt (setAddr pkt o newAddr) o = newAddr := by
  funext k
  have inside : o + k < pkt.length := by omega
  simp [addrAt, setAddr, inside]

theorem setAddr_addrAt : setAddr pkt o (addrAt pkt o) = pkt := by
  refine ext_getElem? fun k => ?_
  rw [setAddr, getElem?_mapIdx]
  cases held : pkt[k]? with
  | none => rfl
  | some byte => grind [addrAt]

theorem rdU16_congr (lo : out[o]? = pkt[o]?) (hi : out[o + 1]? = pkt[o + 1]?) :
    rdU16 out o = rdU16 pkt o := by
  rw [rdU16, rdU16, lo, hi]

theorem addrAt_congr (same : ∀ k, o ≤ k → k < o + 4 → out[k]? = pkt[k]?) :
    addrAt out o = addrAt pkt o := by
  funext k
  rw [addrAt, addrAt, getD_eq_getElem?_getD, getD_eq_getElem?_getD, same _ (by omega) (by omega)]

theorem inetFields_congr (same : ∀ k, o ≤ k → out[k]? = pkt[k]?) :
    inetFields types out n i o = inetFields types pkt n i o := by
  induction n generalizing i o with
  | zero => rfl
  | succ n inductionHypothesis =>
    unfold inetFields
    rw [rdU16_congr (same o (Nat.le_refl _)) (same _ (by omega))]
    dsimp only
    rw [inductionHypothesis fun k far => same k (by omega)]

theorem inetFields_ge {field : Nat} (member : field ∈ inetFields types pkt n i o) :
    o + 2 ≤ field := by
  induction n generalizing i o with
  | zero => cases member
  | succ n inductionHypothesis =>
    unfold inetFields at member
    dsimp only at member
    split at member
    · rcases mem_cons.mp member with rfl | later
      · exact Nat.le_refl _
      · have := inductionHypothesis later
        omega
    · have := inductionHypothesis member
      omega

/-- The loop rewrites the fields of the packet it starts from, and a second one finds the
same fields: it reads no byte that the first has changed. -/
theorem addrLoop_rewrites (ok : addrLoop types newAddr n i o pkt clientIpv4 = some (out, originals)) :
    let fields := inetFields types pkt n i o
    Rewrites newAddr fields pkt out ∧ originals = clientIpv4 ++ fields.map (addrAt pkt) ∧
      ∀ clientIpv4, ∃ others, addrLoop types newAddr n i o out clientIpv4 = some (out, others) := by
  induction n generalizing i o pkt clientIpv4 with
  | zero =>
    obtain ⟨rfl, rfl⟩ := Prod.mk.inj (some.inj ok)
    exact ⟨⟨rfl, fun _ _ => rfl, nofun⟩, (append_nil _).symm, fun others => ⟨others, rfl⟩⟩
  | succ n inductionHypothesis =>
    unfold addrLoop at ok ⊢
    split at ok
    next => cases ok
    next alen read =>
    dsimp only at ok
    split at ok
    next => cases ok
    next fits =>
    -- The fields after this address lie beyond it, so its length and its bytes stay.
    have before {k : Nat} {mid : Bytes} (near : k < o + 2 + alen.toNat)
        (rest : Rewrites newAddr (inetFields types pkt n (i + 1) (o + 2 + alen.toNat)) mid out) :
        out[k]? = mid[k]? :=
      rest.outside k fun field member => .inl (by have := inetFields_ge member; omega)
    split at ok
    next inet =>
      obtain ⟨rest, originals, again⟩ := inductionHypothesis ok
      have kept : ∀ k, _ → (setAddr pkt (o + 2) newAddr)[k]? = pkt[k]? := getElem?_setAddr
      rw [inetFields_congr fun k far => kept k (by omega)] at rest originals
      have here : addrAt out (o + 2) = newAddr :=
        (addrAt_congr fun k _ _ => before (by omega) rest).trans (addrAt_setAddr (by omega))
      have same : rdU16 out o = some alen := read ▸ rdU16_congr
        ((before (by omega) rest).trans (kept _ (by omega)))
        ((before (by omega) rest).trans (kept _ (by omega)))
      have length := rest.length.trans length_mapIdx
      simp only [inetFields, read, getD_some, if_pos inet, same, length, if_neg fits,
        show setAddr out (o + 2) newAddr = out from here ▸ setAddr_addrAt]
      refine ⟨⟨length, fun k outside => ?_, forall_mem_cons.mpr ⟨here, rest.inside⟩⟩, ?_,
        fun others => again _⟩
      · obtain ⟨apart, outside⟩ := forall_mem_cons.mp outside
        exact (rest.outside k outside).trans (kept k apart)
      · rw [originals, append_assoc, map_congr_left fun field member => addrAt_congr
          fun k far _ => kept k (by have := inetFields_ge member; omega)]
        rfl
    next other =>
      obtain ⟨rest, originals, again⟩ := inductionHypothesis ok
      have same : rdU16 out o = some alen :=
        read ▸ rdU16_congr (before (by omega) rest) (before (by omega) rest)
      simp only [inetFields, read, getD_some, if_neg other, same, rest.length, if_neg fits]
      exact ⟨rest, originals, again⟩

theorem readTypes_congr (same : ∀ k < o + 2 * n, out[k]? = pkt[k]?) :
    readTypes out n o = readTypes pkt n o := by
  induction n generalizing o with
  | zero => rfl
  | succ n inductionHypothesis =>
    rw [readTypes, readTypes, rdU16_congr (same _ (by omega)) (same _ (by omega)),
      inductionHypothesis fun k near => same k (by omega)]

theorem readHead_congr {head : Head} (found : readHead pkt = some head)
    (length : out.length = pkt.length) (same : ∀ k < head.start, out[k]? = pkt[k]?) :
    readHead out = some head := by
  simp only [readHead, bind_eq_bind, bind_eq_some_iff] at found ⊢
  obtain ⟨version, v, opcode, c, len, l, found⟩ := found
  split at found
  next => cases found
  next well =>
  simp only [bind_eq_some_iff] at found
  obtain ⟨display, d, nTypes, t, types, ts, nAddrs, a, done⟩ := found
  cases done
  dsimp only at same
  have word {o : Nat} (near : o < 8) : rdU16 out o = rdU16 pkt o :=
    rdU16_congr (same o (by omega)) (same _ (by omega))
  refine ⟨version, (word (by decide)).trans v, opcode, (word (by decide)).trans c, len,
    (word (by decide)).trans l, ?_⟩
  rw [length, if_neg well, word (by decide), d, same 8 (by omega), t]
  simp only [bind_some]
  rw [readTypes_congr fun k near => same k (by omega), ts, same _ (by omega), a]
  rfl

end

/-! ### Confinement -/

/-- The result is the packet with the address in the internet fields of its declared body,
reports what they held in their order, and does not change when it is rewritten again. -/
structure Confined (pkt : Bytes) (newAddr : Ipv4Addr) (result : RequestRewrite) : Prop where
  rewrites : Rewrites newAddr ((requestFields pkt).filter (InBody pkt ·)) pkt result.packet
  originals : result.clientIpv4 = ((requestFields pkt).filter (InBody pkt ·)).map (addrAt pkt)
  again : (rewriteRequestIpv4 result.packet newAddr).map (·.packet) = some result.packet

/-- The walk does not stop at the end of the body: its fields are to be within it. -/
theorem rewrite_confined_iff {pkt : Bytes} {newAddr : Ipv4Addr} {result : RequestRewrite}
    (ok : rewriteRequestIpv4 pkt newAddr = some result) :
    Confined pkt newAddr result ↔ ∀ field ∈ requestFields pkt, InBody pkt field := by
  obtain ⟨head, found, ok⟩ := bind_eq_some_iff.mp ok
  obtain ⟨⟨packet, clientIpv4⟩, loop, done⟩ := bind_eq_some_iff.mp ok
  cases done
  obtain ⟨rewrites, originals, again⟩ := addrLoop_rewrites loop
  have fields : requestFields pkt = inetFields head.types pkt head.nAddrs 0 head.start := by
    rw [requestFields, found]
  constructor
  · intro confined
    have lengths := congrArg length (confined.originals.symm.trans originals)
    rw [nil_append, length_map, length_map, ← fields, length_filter_eq_length_iff] at lengths
    exact fun field member => of_decide_eq_true (lengths field member)
  · intro within
    have all : (requestFields pkt).filter (InBody pkt ·) = requestFields pkt :=
      filter_eq_self.mpr fun field member => decide_eq_true (within field member)
    have same := readHead_congr found rewrites.length fun k near => rewrites.outside k
      fun field member => .inl (by have := inetFields_ge member; omega)
    obtain ⟨others, more⟩ := again []
    refine ⟨?_, ?_, ?_⟩
    · rwa [all, fields]
    · rwa [all, fields]
    · simp [rewriteRequestIpv4, same, more]

/-- A request whose header declares a body of `length` bytes, with one internet address. -/
def oneAddress (length : BitVec 8) : Bytes :=
  [0, 1, 0, 7, 0, length, 0, 0, 0, 1, 0, 4, 127, 0, 0, 1]

theorem rewrite_confined_to_body :
    Confined (oneAddress 10) (fun _ => 9)
      ⟨(oneAddress 10).take 12 ++ [9, 9, 9, 9], 0, [addrAt (oneAddress 10) 12]⟩ :=
  (rewrite_confined_iff rfl).mpr (by decide)

/-- The body ends at byte 8, and bytes 12 to 15 are rewritten. -/
theorem rewrite_beyond_body :
    rdU16 (oneAddress 2) 4 = some 2 ∧
      (rewriteRequestIpv4 (oneAddress 2) fun _ => 9).map (·.packet) =
        some ((oneAddress 2).take 12 ++ [9, 9, 9, 9]) := by
  decide

end Iris.Net.Xdmcp
