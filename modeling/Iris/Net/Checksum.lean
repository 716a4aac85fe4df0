import Iris.Library.OnesComplement

/-!
Owns the checksums the IOC3 Ethernet fills into transmitted frames. A frame changes only in the
checksum field of a whole TCP or UDP datagram, which then verifies. A UDP checksum that comes
out as zero is left so, which says that there is none.
-/

namespace Iris.Net.Ioc3Eth

open Library.OnesComplement

abbrev Byte := BitVec 8

def csumAdd (data : List Byte) : Nat :=
  data.zipIdx.foldl (fun sum (b, i) => sum + b.toNat <<< (if i % 2 = 0 then 8 else 0)) 0

def csumFold (sum : Nat) : Nat :=
  if sum / 2 ^ 16 = 0 then sum else csumFold (sum % 2 ^ 16 + sum / 2 ^ 16)

def byte (frame : List Byte) (i : Nat) : Nat := (frame.getD i 0).toNat

def be16 (frame : List Byte) (i : Nat) : Nat := byte frame i * 256 + byte frame (i + 1)

def slice (frame : List Byte) (start len : Nat) : List Byte := (frame.drop start).take len

def csumAt (proto plen : Nat) : Option Nat :=
  if proto = 6 ∧ 20 ≤ plen then some 16 else if proto = 17 ∧ 8 ≤ plen then some 6 else none

/-- The sum over the addresses, the protocol, the length and the segment. -/
def total (frame : List Byte) (proto start plen : Nat) : Nat :=
  csumAdd (slice frame 26 8) + (proto + plen) + csumAdd (slice frame start plen)

def tcpUdpChecksum (frame : List Byte) : List Byte :=
  if frame.length < 14 + 20 ∨ byte frame 12 ≠ 0x08 ∨ byte frame 13 ≠ 0x00 then frame
  else if byte frame 14 / 16 ≠ 4 then frame
  else
    let hlen := byte frame 14 % 16 * 4
    let ipLen := be16 frame 16
    let frag := be16 frame 20 % 2 ^ 14
    if hlen < 20 ∨ ipLen < hlen ∨ frame.length < 14 + ipLen ∨ frag ≠ 0 then frame
    else
      let proto := byte frame 23
      let plen := ipLen - hlen
      match csumAt proto plen with
      | none => frame
      | some csumAt =>
        let start := 14 + hlen
        let frame := put frame (start + csumAt) 0
        -- the sum is 32 bits wide
        put frame (start + csumAt) (65535 - csumFold (total frame proto start plen % 2 ^ 32))

theorem csumFold_eq (sum : Nat) : csumFold sum = folded sum := by
  fun_induction csumFold sum with
  | case1 sum low => unfold folded; split <;> omega
  | case2 sum high inductionHypothesis =>
    rw [inductionHypothesis]
    unfold folded
    split <;> split <;> omega

theorem csumAdd_eq (data : List Byte) : csumAdd data = (words data).sum := by
  have run : ∀ i sum, i % 2 = 0 →
      (data.zipIdx i).foldl (fun sum (b, i) => sum + b.toNat <<< (if i % 2 = 0 then 8 else 0)) sum =
        sum + (words data).sum := by
    fun_induction words data with
    | case1 => simp
    | case2 high =>
      intro i sum even
      simp [even, Nat.shiftLeft_eq]
    | case3 high low rest inductionHypothesis =>
      intro i sum even
      have odd : ¬ (i + 1) % 2 = 0 := by omega
      rw [List.zipIdx_cons, List.zipIdx_cons, List.foldl_cons, List.foldl_cons,
        inductionHypothesis _ _ (by omega)]
      simp only [if_pos even, if_neg odd, Nat.shiftLeft_eq, List.sum_cons]
      omega
  exact (run 0 0 rfl).trans (Nat.zero_add _)

/-- An unfragmented IPv4 datagram of TCP or UDP, its segment of `len` bytes at `start`, whose
lengths fit the frame. -/
structure Datagram (frame : List Byte) (proto start len : Nat) : Prop where
  ipv4 : byte frame 12 = 0x08 ∧ byte frame 13 = 0x00 ∧ byte frame 14 / 16 = 4
  header : start = 14 + byte frame 14 % 16 * 4 ∧ 34 ≤ start
  fits : start + len = 14 + be16 frame 16 ∧ start + len ≤ frame.length
  whole : be16 frame 20 % 2 ^ 14 = 0
  kind : byte frame 23 = proto ∧ (proto = 6 ∧ 20 ≤ len ∨ proto = 17 ∧ 8 ≤ len)

/-- Where the checksum of a segment at `start` stands. -/
def field (proto start : Nat) : Nat := start + if proto = 6 then 16 else 6

/-- The bytes a checksum covers: the pseudo-header, then the segment. -/
def covered (frame : List Byte) (proto start len : Nat) : List Byte :=
  slice frame 26 8 ++ [0, .ofNat 8 proto, .ofNat 8 (len / 256), .ofNat 8 len] ++
    slice frame start len

/-- What inserting a checksum has to leave of a frame. -/
structure Inserted (frame out : List Byte) : Prop where
  length : out.length = frame.length
  unchanged : ∀ i, out[i]? ≠ frame[i]? → ∃ proto start len,
    Datagram frame proto start len ∧ (i = field proto start ∨ i = field proto start + 1)
  verifies : ∀ {proto start len}, Datagram frame proto start len →
    sum (covered out proto start len) = 0xffff
  udp : ∀ {start len}, Datagram frame 17 start len → be16 out (field 17 start) ≠ 0

theorem slice_put (frame : List Byte) (start len k value : Nat) :
    slice (put frame (start + k) value) start len = put (slice frame start len) k value := by
  have set (frame : List Byte) (k : Nat) (v : Byte) :
      slice (frame.set (start + k) v) start len = (slice frame start len).set k v := by
    rw [slice, List.drop_set, if_neg (by omega), Nat.add_sub_cancel_left, List.take_set]
    rfl
  rw [put, Nat.add_assoc, set, set]
  rfl

theorem slice_put_beyond (beyond : start + len ≤ i) :
    slice (put frame i value) start len = slice frame start len := by
  have set (frame : List Byte) {i : Nat} (beyond : start + len ≤ i) (v : Byte) :
      slice (frame.set i v) start len = slice frame start len := by
    rw [slice, List.drop_set, if_neg (by omega), List.take_set]
    exact List.set_eq_of_length_le (by simp; omega)
  rw [put, set _ (by omega), set _ beyond]

namespace Datagram

variable (datagram : Datagram frame proto start len)
include datagram

theorem small : proto < 2 ^ 8 ∧ len < 2 ^ 16 := by
  obtain ⟨-, ⟨-, low⟩, ⟨total, -⟩, -, -, kind⟩ := datagram
  unfold be16 byte at total
  omega

/-- A checksum in its field adds just itself to a datagram's sum. -/
theorem sum_put (value16 : value < 2 ^ 16) :
    sum (covered (put frame (field proto start) value) proto start len) =
      folded (total (put frame (field proto start) 0) proto start len + value) := by
  obtain ⟨proto8, len16⟩ := datagram.small
  obtain ⟨-, ⟨-, low⟩, ⟨-, inside⟩, -, -, kind⟩ := datagram
  obtain ⟨k, here, even, room⟩ : ∃ k, field proto start = start + k ∧ k % 2 = 0 ∧ k + 1 < len := by
    unfold field
    split
    · exact ⟨16, rfl, rfl, by omega⟩
    · exact ⟨6, rfl, rfl, by omega⟩
  have addresses : (slice frame 26 8).length = 8 := by simp [slice]; omega
  have long : k + 1 < (slice frame start len).length := by simp [slice]; omega
  rw [here, sum_eq, covered, total, slice_put, slice_put, slice_put_beyond (by omega),
    slice_put_beyond (by omega), words_append (by simp [addresses]),
    words_append (by simp [addresses]), List.sum_append, List.sum_append,
    words_put even long value16, csumAdd_eq, csumAdd_eq]
  simp [words]
  congr 1
  omega

/-- A datagram gets the complement of what it sums to without a checksum. -/
theorem tcpUdpChecksum :
    tcpUdpChecksum frame = put frame (field proto start)
      (65535 - sum (covered (put frame (field proto start) 0) proto start len)) := by
  rw [datagram.sum_put (by decide)]
  obtain ⟨proto8, len16⟩ := datagram.small
  have fits (frame : List Byte) : total frame proto start len < 2 ^ 32 := by
    have addresses := words_sum_le (slice frame 26 8)
    have segment := words_sum_le (slice frame start len)
    have short : (slice frame 26 8).length ≤ 8 := List.length_take_le ..
    have short' : (slice frame start len).length ≤ len := List.length_take_le ..
    rw [total, csumAdd_eq, csumAdd_eq]
    omega
  obtain ⟨⟨type, type', version⟩, ⟨rfl, low⟩, ⟨sized, inside⟩, whole, rfl, kind⟩ := datagram
  have plen : be16 frame 16 - byte frame 14 % 16 * 4 = len := by omega
  have offset : csumAt (byte frame 23) len = some (if byte frame 23 = 6 then 16 else 6) := by
    unfold csumAt
    rcases kind with ⟨proto, room⟩ | ⟨proto, room⟩ <;> simp [proto, room]
  rw [Ioc3Eth.tcpUdpChecksum, if_neg (by omega), if_neg (by omega)]
  dsimp only
  rw [if_neg (by omega), plen, offset]
  dsimp only
  rw [Nat.mod_eq_of_lt (fits _), csumFold_eq]
  exact put_put ..

end Datagram

theorem datagram_of_changed (changed : tcpUdpChecksum frame ≠ frame) :
    ∃ proto start len, Datagram frame proto start len := by
  by_contra none
  apply changed
  unfold tcpUdpChecksum
  split_ifs with type version
  · rfl
  · rfl
  dsimp only
  split_ifs with lengths
  · rfl
  cases offset : csumAt (byte frame 23) (be16 frame 16 - byte frame 14 % 16 * 4) with
  | none => rfl
  | some k =>
    apply absurd _ none
    refine ⟨_, _, be16 frame 16 - byte frame 14 % 16 * 4, by omega, ⟨rfl, by omega⟩, by omega,
      by omega, rfl, ?_⟩
    unfold csumAt at offset
    split_ifs at offset with tcp udp
    · exact .inl tcp
    · exact .inr udp

theorem be16_put (inside : i + 1 < frame.length) (value16 : value < 2 ^ 16) :
    be16 (put frame i value) i = value := by
  have before := Nat.lt_of_succ_lt inside
  simp [be16, byte, put, inside, before]
  omega

/-- The checksum is right unless a UDP datagram sums to all ones without one: its checksum is
then left as zero. -/
theorem tcpUdpChecksum_inserted_iff (frame : List Byte) :
    Inserted frame (tcpUdpChecksum frame) ↔ ∀ start len, Datagram frame 17 start len →
      sum (covered (put frame (field 17 start) 0) 17 start len) ≠ 0xffff := by
  have udp {start len : Nat} (datagram : Datagram frame 17 start len) :
      be16 (tcpUdpChecksum frame) (field 17 start) =
        65535 - sum (covered (put frame (field 17 start) 0) 17 start len) := by
    have inside := datagram.fits
    have room := datagram.kind
    rw [datagram.tcpUdpChecksum, be16_put (by simp [field]; omega) (by omega)]
  constructor
  · intro inserted start len datagram full
    apply inserted.udp datagram
    rw [udp datagram, full]
  intro notFull
  constructor
  · by_cases changed : tcpUdpChecksum frame = frame
    · rw [changed]
    · obtain ⟨_, _, _, datagram⟩ := datagram_of_changed changed
      simp [datagram.tcpUdpChecksum, put]
  · intro i differs
    obtain ⟨proto, start, len, datagram⟩ := datagram_of_changed fun same => differs (by rw [same])
    refine ⟨proto, start, len, datagram, ?_⟩
    by_contra elsewhere
    apply differs
    rw [datagram.tcpUdpChecksum, put, List.getElem?_set_ne (by omega),
      List.getElem?_set_ne (by omega)]
  · intro proto start len datagram
    rw [datagram.tcpUdpChecksum, datagram.sum_put (by omega), datagram.sum_put (by decide)]
    exact folded_complement _
  · intro start len datagram
    have below := sum_le (covered (put frame (field 17 start) 0) 17 start len)
    have ne := notFull start len datagram
    rw [udp datagram]
    omega

/-- A UDP datagram of no data from port 0xffde. -/
def zeroUdp : List Byte :=
  List.replicate 12 0 ++ [8, 0, 0x45, 0, 0, 28, 0, 0, 0, 0, 64, 17, 0, 0] ++
    List.replicate 8 0 ++ [0xff, 0xde, 0, 0, 0, 8, 0, 0]

theorem zeroUdp_not_inserted : ¬ Inserted zeroUdp (tcpUdpChecksum zeroUdp) := by
  intro inserted
  have datagram : Datagram zeroUdp 17 34 8 :=
    ⟨by decide, by decide, by decide, by decide, by decide⟩
  apply inserted.udp datagram
  rw [datagram.tcpUdpChecksum]
  decide

end Iris.Net.Ioc3Eth
