import Iris.Nfs.Server

/-!
Owns the XDR codec over sequences of typed fields: what the cursor decodes from any bytes, and
that it decodes what was encoded.
-/

namespace Iris.Nfs

open List Option

/-- Eight bytes, or nothing. -/
def Cur.u64 (c : Cur) : Option (BitVec 64 × Cur) :=
  (u32 c).bind fun (high, c) => (u32 c).map fun (low, c) => (high ++ low, c)

inductive FieldKind
  | u32
  | u64
  | varied
  | fixed (len : Nat)
deriving DecidableEq

inductive Field
  | u32 (v : BitVec 32)
  | u64 (v : BitVec 64)
  | varied (b : Bytes)
  | fixed (b : Bytes)
deriving DecidableEq

namespace Field

def kind : Field → FieldKind
  | u32 _ => .u32
  | u64 _ => .u64
  | varied _ => .varied
  | fixed b => .fixed b.length

def put : Field → Bytes
  | u32 v => Xdr.u32 v
  | u64 v => Xdr.u64 v
  | varied b => Xdr.varied b
  | fixed b => Xdr.fixed b

/-- The bytes that carry the value. -/
def wire : Field → Bytes
  | varied b => Xdr.u32 (.ofNat 32 b.length) ++ b
  | fixed b => b
  | f => f.put

def pad : Field → Nat
  | varied b | fixed b => (4 - b.length % 4) % 4
  | _ => 0

/-- The length of a variable field fits its word. -/
def Fits : Field → Prop
  | varied b => b.length < 2 ^ 32
  | _ => True

/-- The value stands at the front of `c`, and `rest` is what follows its pad. -/
def Leads (f : Field) (c rest : Cur) : Prop := ∃ tail, c = f.wire ++ tail ∧ rest = tail.drop f.pad

theorem put_eq (f : Field) : f.put = f.wire ++ replicate f.pad 0 := by
  cases f with
  | u32 | u64 => exact (append_nil _).symm
  | varied b => exact (append_assoc _ _ _).symm
  | fixed b => rfl

end Field

def FieldKind.get (c : Cur) : FieldKind → Option (Field × Cur)
  | u32 => (Cur.u32 c).map fun (v, c) => (.u32 v, c)
  | u64 => (Cur.u64 c).map fun (v, c) => (.u64 v, c)
  | varied => (Cur.varied c).map fun (b, c) => (.varied b, c)
  | fixed len => (Cur.fixed len c).map fun (b, c) => (.fixed b, c)

def encode (fields : List Field) : Bytes := fields.flatMap Field.put

def decode : List FieldKind → Cur → Option (List Field × Cur)
  | [], c => some ([], c)
  | kind :: kinds, c => do
    let (f, c) ← kind.get c
    let (fields, c) ← decode kinds c
    return (f :: fields, c)

/-- The values stand one after the other from the front of `c` up to `rest`. Only the end of `c`
can cut a pad short. -/
def Lead : List Field → Cur → Cur → Prop
  | [], c, rest => rest = c
  | f :: fields, c, rest => ∃ tail, f.Leads c tail ∧ Lead fields tail rest

/-! ### One field -/

variable {c rest : Cur}

theorem Cur.u32_iff {v : BitVec 32} : Cur.u32 c = some (v, rest) ↔ c = Xdr.u32 v ++ rest := by
  constructor
  · fun_cases Cur.u32 c with
    | case1 b0 b1 b2 b3 tail =>
      have bytes : Xdr.u32 (b0 ++ b1 ++ b2 ++ b3) = [b0, b1, b2, b3] := by
        simp only [Xdr.u32, cons.injEq, and_true]
        refine ⟨?_, ?_, ?_, ?_⟩ <;> ext i <;> simp <;> grind
      intro read
      cases read
      rw [bytes]
      rfl
    | case2 => exact nofun
  · rintro rfl
    have whole : v.extractLsb' 24 8 ++ v.extractLsb' 16 8 ++ v.extractLsb' 8 8 ++
        v.extractLsb' 0 8 = v := by
      ext i
      simp
      grind
    exact congrArg (fun v => some (v, rest)) whole

theorem Cur.u64_iff {v : BitVec 64} : Cur.u64 c = some (v, rest) ↔ c = Xdr.u64 v ++ rest := by
  have halves (high low : BitVec 32) : v = high ++ low ↔
      high = v.extractLsb' 32 32 ∧ low = v.extractLsb' 0 32 := by
    constructor
    · rintro rfl
      constructor <;> ext i <;> simp <;> grind
    · rintro ⟨rfl, rfl⟩
      ext i
      simp
      grind
  simp only [Cur.u64, bind_eq_some_iff, map_eq_some_iff, Prod.exists, Cur.u32_iff]
  grind [Xdr.u64]

theorem Cur.fixed_iff {b : Bytes} : Cur.fixed len c = some (b, rest) ↔
    b.length = len ∧ ∃ tail, c = b ++ tail ∧ rest = tail.drop ((4 - len % 4) % 4) := by
  rw [Cur.fixed]
  split
  next short =>
    refine iff_of_false (by simp) ?_
    rintro ⟨rfl, tail, rfl, -⟩
    simp at short
  next enough =>
    constructor
    · intro read
      cases read
      exact ⟨by simp; omega, c.drop len, (take_append_drop len c).symm, by rw [drop_drop]⟩
    · rintro ⟨rfl, tail, rfl, rfl⟩
      simp [← drop_drop]

theorem FieldKind.get_iff {kind : FieldKind} {f : Field} :
    kind.get c = some (f, rest) ↔ f.kind = kind ∧ f.Fits ∧ f.Leads c rest := by
  cases kind with
  | varied =>
    simp only [get, Cur.varied, map_eq_some_iff, bind_eq_some_iff, Prod.exists, Cur.u32_iff,
      Cur.fixed_iff]
    cases f <;> simp [Field.kind, Field.Fits, Field.Leads, Field.wire, Field.pad]
    constructor
    · rintro ⟨len, tail, ⟨rfl, same⟩, rfl⟩
      exact ⟨same ▸ len.isLt, tail, by simp [same], by rw [same]⟩
    · rintro ⟨fits, tail, rfl, rfl⟩
      refine ⟨.ofNat 32 _, tail, ⟨rfl, ?_⟩, ?_⟩ <;>
        rw [BitVec.toNat_ofNat, Nat.mod_eq_of_lt fits]
  | _ =>
    simp only [get, map_eq_some_iff, Prod.exists, Cur.u32_iff, Cur.u64_iff, Cur.fixed_iff]
    cases f <;> simp [Field.kind, Field.Fits, Field.Leads, Field.wire, Field.put, Field.pad]
    try grind

/-! ### Sequences -/

theorem decode_iff {fields : List Field} : decode kinds c = some (fields, rest) ↔
    fields.map Field.kind = kinds ∧ (∀ f ∈ fields, f.Fits) ∧ Lead fields c rest := by
  induction kinds generalizing fields c with
  | nil =>
    cases fields with
    | nil => simp only [decode, Lead]; grind
    | cons f fields => simp [decode]
  | cons kind kinds inductionHypothesis =>
    simp only [decode, bind_eq_bind, bind_eq_some_iff, Prod.exists, FieldKind.get_iff]
    cases fields with
    | nil => simp
    | cons f fields =>
      simp only [Lead]
      grind

theorem Lead.suffix {fields : List Field} (leads : Lead fields c rest) : rest <:+ c := by
  induction fields generalizing c with
  | nil => exact leads ▸ suffix_rfl
  | cons f fields inductionHypothesis =>
    obtain ⟨_, ⟨tail, rfl, rfl⟩, later⟩ := leads
    exact ((inductionHypothesis later).trans (drop_suffix _ _)).trans (suffix_append _ _)

theorem lead_encode (fields : List Field) : Lead fields (encode fields) [] := by
  induction fields with
  | nil => rfl
  | cons f fields inductionHypothesis =>
    refine ⟨_, ⟨_, by rw [encode, flatMap_cons, f.put_eq, append_assoc], ?_⟩, inductionHypothesis⟩
    simp [encode]

/-- What is encoded decodes to the same fields and leaves nothing, and any input decodes iff the
values are in it one after the other, with what follows them left. -/
theorem decode_encode_exact :
    (∀ fields : List Field, (∀ f ∈ fields, f.Fits) →
      decode (fields.map Field.kind) (encode fields) = some (fields, [])) ∧
    ∀ kinds c fields rest, (decode kinds c = some (fields, rest) ↔
        fields.map Field.kind = kinds ∧ (∀ f ∈ fields, f.Fits) ∧ Lead fields c rest) ∧
      (decode kinds c = some (fields, rest) → rest <:+ c) :=
  ⟨fun fields fits => decode_iff.mpr ⟨rfl, fits, lead_encode fields⟩,
    fun _ _ _ _ => ⟨decode_iff, fun read => (decode_iff.mp read).2.2.suffix⟩⟩

def mixedFields : List Field :=
  [.varied [7], .u32 1, .fixed [1, 2, 3], .u64 5, .varied [9, 8, 7, 6, 5]]

theorem decode_encode_mixed :
    encode mixedFields = [0, 0, 0, 1, 7, 0, 0, 0, 0, 0, 0, 1, 1, 2, 3, 0, 0, 0, 0, 0, 0, 0, 0, 5,
      0, 0, 0, 5, 9, 8, 7, 6, 5, 0, 0, 0] ∧
    decode (mixedFields.map Field.kind) (encode mixedFields) = some (mixedFields, []) :=
  ⟨by decide, decode_encode_exact.1 mixedFields (by simp [mixedFields, Field.Fits])⟩

/-- A byte whose pad is cut off decodes, and a length of 2^32 wraps to 0. -/
theorem truncated_pad_decodes :
    decode [.varied] ((encode [.varied [7]]).take 5) = some ([.varied [7]], []) ∧
      ∃ b, b.length = 2 ^ 32 ∧ decode [.varied] (encode [.varied b]) ≠ some ([.varied b], []) := by
  obtain ⟨b, long⟩ : ∃ b : Bytes, b.length = 2 ^ 32 := ⟨replicate _ 7, length_replicate⟩
  refine ⟨by decide, b, long, fun read => ?_⟩
  have fits : b.length < 2 ^ 32 := (decode_iff.mp read).2.1 _ (mem_singleton_self _)
  omega

end Iris.Nfs
