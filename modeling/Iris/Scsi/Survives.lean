import Iris.Library.Checked
import Iris.Scsi.Blocks

/-!
Owns what a target survives: which commands of standard length return, without overflow and with
no more data than their allocation or transfer length.
-/

namespace Iris.Scsi

open Block Library List BitVec Option Checked

variable {Node : Type} [BlockNode Node] {data : List Byte}
  (openCdrom : String → Except IoError Node) {result : Option (Answer Node)}
  {dataIn : Option (List Byte)}

namespace ScsiDevice

/-- What every device holds to: the lengths its types give, a block size MODE SELECT takes, and a
medium that fills the buffer it is read into. -/
structure Sound (dev : ScsiDevice Node) : Prop where
  buffer : dev.buffer.length = scsiBufferSize
  blocks : dev.logicalBlockSize = 512 ∨ dev.logicalBlockSize = 1024 ∨ dev.logicalBlockSize = 2048
  size : dev.size < 2 ^ 64
  fills : ∀ {offset len data}, dev.media.read offset len = .ok data → data.length = len

variable (dev : ScsiDevice Node)

/-- The allocation or transfer length of a command that returns data, in bytes. READ CAPACITY
has none. -/
def limit (opcode : Byte) (cdb : List Byte) : Option Nat :=
  match opcode.toNat with
  | 0x03 => requestSenseAllocLen cdb
  | 0x12 | 0x1a => cdb[4]?.map BitVec.toNat
  | 0x08 => (fields6 cdb).map fun fields => fields.2 * dev.logicalBlockSize
  | 0x28 => (fields10 cdb).map fun fields => fields.2 * dev.logicalBlockSize
  | 0x5a | 0x43 | 0x46 => allocLen10 cdb
  | 0x3c => (bufferFields cdb).map Prod.snd
  | _ => none

/-- The arithmetic of a READ or WRITE whose address is scaled by `scale`. -/
def moves (scale : Nat) : Nat × Nat → List (Option Nat)
  | (lba, count) =>
    let lbs := dev.logicalBlockSize
    [add 64 lba count, mul 64 (lba + count) lbs, mul 64 count lbs, mul 64 lba scale]

/-- The machine arithmetic of a command's handler, each result nothing where it overflows. -/
def arithmetic (opcode : Byte) (cdb : List Byte) (dataIn : Option (List Byte)) :
    List (Option Nat) :=
  let data i := ((dataIn.getD []).getD i 0).toNat
  let mode := ((cdb.getD 1 0) &&& 0x1f).toNat
  let (offset, length) := (bufferFields cdb).getD (0, 0)
  match opcode.toNat with
  | 0x08 => dev.moves dev.logicalBlockSize ((fields6 cdb).getD (0, 0))
  | 0x28 => dev.moves dev.logicalBlockSize ((fields10 cdb).getD (0, 0))
  | 0x0a => dev.moves 512 ((fields6 cdb).getD (0, 0))
  | 0x2a => dev.moves 512 ((fields10 cdb).getD (0, 0))
  | 0x1a | 0x5a => [add 64 (dev.size / dev.logicalBlockSize) (16 * 63 - 1)]
  | 0x15 => [add 64 4 (data 3)]
  | 0x55 => [add 64 8 (data 6 * 256 + data 7)]
  | 0x3b => [add 64 offset (length - if mode = 0 then 4 else 0)]
  | 0x3c =>
    if mode = 0 then
      [sub scsiBufferSize offset, add 64 offset (min (length - 4) (scsiBufferSize - offset))]
    else if mode = 1 ∨ mode = 2 then [add 64 offset length]
    else []
  | _ => []

/-- The device a handler runs on, unless the command is refused before it. -/
def asked (opcode selector : Byte) : Option (ScsiDevice Node) :=
  let exempt := opcode = 0x12 ∨ opcode = 0x03
  let (changed, media) := if exempt then (false, dev.media) else dev.media.takeChanged
  if selector >>> 5 ≠ 0 ∧ ¬exempt ∨ changed then none else some { dev with media }

end ScsiDevice

/-- A command that returns, with no more data than its limit, if it has one. -/
def Returns (limit : Option Nat) (dataLen : ScsiDataLength) (result : Option (Answer Node)) :
    Prop :=
  ∃ outcome after, result = some (outcome, after) ∧ ∀ response, outcome = .ok response →
    ∀ most ∈ limit, (dataLen.fit response.data).length ≤ most

/-- What a handler needs: WRITE BUFFER with a header has one, READ BUFFER with a header starts in
the buffer, and a descriptor is asked for whole. -/
def Survivable (opcode : Byte) (req : ScsiRequest) : Prop :=
  let mode := ((req.cdb.getD 1 0) &&& 0x1f).toNat
  let (offset, length) := (ScsiDevice.bufferFields req.cdb).getD (0, 0)
  (opcode = 0x3b → mode = 0 → ∀ data ∈ req.dataIn, 4 ≤ data.length) ∧
    (opcode = 0x3c → mode = 0 → offset ≤ scsiBufferSize) ∧
    (opcode = 0x3c → mode = 3 →
      (req.dataLen.fit (0x00 :: ScsiDevice.capacityBytes)).length ≤ length)

/-! ### Handlers -/

theorem byte_there {cdb : List Byte} (inside : i < cdb.length) : cdb[i]? = some (cdb.getD i 0) := by
  rw [getD_eq_getElem?_getD, List.getElem?_eq_getElem inside, getD_some]

theorem fit_le {dataLen : ScsiDataLength} : (dataLen.fit data).length ≤ data.length := by
  cases dataLen with
  | unlimited => exact le_rfl
  | fixed maxLen => exact length_take_le' _ _

theorem ofBeBytes_lt (bytes : List Byte) : ofBeBytes bytes < 256 ^ bytes.length := by
  rw [ofBeBytes]
  suffices bounded : ∀ acc, bytes.foldl (fun acc byte => acc * 256 + byte.toNat) acc <
      (acc + 1) * 256 ^ bytes.length by simpa using bounded 0
  induction bytes with
  | nil => simp
  | cons byte rest inductionHypothesis =>
    intro acc
    refine (inductionHypothesis _).trans_le ?_
    rw [length_cons, Nat.pow_succ', ← Nat.mul_assoc]
    exact Nat.mul_le_mul_right _ (by dsimp only; omega)

namespace Returns
variable {limit : Option Nat} {dataLen : ScsiDataLength} {dev : ScsiDevice Node}

omit [BlockNode Node]

theorem good {most : Nat} (short : data.length ≤ most) :
    Returns (some most) dataLen (some (dev.answer (.good data))) := by
  refine ⟨_, _, rfl, fun response same other given => ?_⟩
  obtain rfl := Except.ok.inj same
  cases given
  exact (fit_le).trans short

theorem taken {most : Nat} :
    Returns (some most) dataLen (some (dev.answer (.good (data.take most)))) :=
  good (length_take_le _ _)

theorem empty {status : Byte} : Returns limit dataLen (some (.ok ⟨status, []⟩, dev)) := by
  refine ⟨_, _, rfl, fun response same most _ => ?_⟩
  obtain rfl := Except.ok.inj same
  exact (fit_le).trans (Nat.zero_le most)

theorem unlimited (returns : result.isSome = true) : Returns none dataLen result := by
  obtain ⟨⟨outcome, after⟩, rfl⟩ := isSome_iff_exists.mp returns
  exact ⟨outcome, after, rfl, nofun⟩

end Returns

namespace ScsiDevice
variable {dev : ScsiDevice Node} {cdb : List Byte} {dataLen : ScsiDataLength}

theorem performRead_returns (sound : dev.Sound) {lba count : Nat} :
    Returns (some (count * dev.logicalBlockSize)) dataLen (some (dev.performRead lba count)) := by
  rw [performRead]
  split
  · exact .empty
  dsimp only
  split
  · exact .empty
  split
  · exact ⟨_, _, rfl, nofun⟩
  next read => exact .good (Nat.le_of_eq (sound.fills read))

omit [BlockNode Node] in
theorem selectBlockDescriptor_isSome (data : List Byte) (start len : Nat) :
    (dev.selectBlockDescriptor data start len).isSome = true := by
  rw [selectBlockDescriptor]
  split
  next inside =>
    have long : 8 ≤ (ByteFile.slice data start len).length := by
      rw [ByteFile.length_slice inside.2]
      exact inside.1
    simp (disch := omega) only [byte_there, bind_eq_bind, bind_some]
    split <;> rfl
  · rfl

theorem refused_mode (built : dev.buildModeSensePages pageCode dbd = .error refused) :
    refused = dev.checkCondition 0x05 0x24 0x00 := by
  rw [buildModeSensePages] at built
  split at built
  · exact (Except.error.inj built).symm
  · cases built

omit [BlockNode Node] in
theorem execModeSelect6_isSome (six : cdb.length = 6) :
    (dev.execModeSelect6 cdb dataIn).isSome = true := by
  simp (disch := omega) only [execModeSelect6, byte_there, bind_eq_bind, bind_some]
  split
  · rfl
  next data =>
    split
    · rfl
    · obtain ⟨after, selected⟩ := isSome_iff_exists.mp
        (@selectBlockDescriptor_isSome _ dev data 4 (data.getD 3 0).toNat)
      rw [selected]
      rfl

omit [BlockNode Node] in
theorem execModeSelect10_isSome (ten : cdb.length = 10) :
    (dev.execModeSelect10 cdb dataIn).isSome = true := by
  simp (disch := omega) only [execModeSelect10, byte_there, bind_eq_bind, bind_some]
  split
  · rfl
  next data chosen =>
    have long : 8 ≤ data.length := by
      have kept := (filter_eq_some_iff.mp chosen).2
      simp only [decide_eq_true_eq] at kept
      omega
    obtain ⟨after, selected⟩ := isSome_iff_exists.mp
      (@selectBlockDescriptor_isSome _ dev data 8 (ofBeBytes [data.getD 6 0, data.getD 7 0]))
    simp (disch := omega) only [byte_there, bind_some, selected]
    rfl

theorem bufferFields_some (ten : cdb.length = 10) :
    ∃ offset length, bufferFields cdb = some (offset, length) ∧ offset < 2 ^ 24 ∧ length < 2 ^ 24 := by
  have small (a b c : Byte) : ofBeBytes [a, b, c] < 2 ^ 24 := by simpa using ofBeBytes_lt [a, b, c]
  simp (disch := omega) only [bufferFields, byte_there]
  exact ⟨_, _, rfl, small _ _ _, small _ _ _⟩

omit [BlockNode Node] in
/-- WRITE BUFFER returns iff data with a header has one. -/
theorem execWriteBuffer_isSome (ten : cdb.length = 10) :
    (dev.execWriteBuffer cdb dataIn).isSome = true ↔
      (((cdb.getD 1 0) &&& 0x1f).toNat = 0 → ∀ data ∈ dataIn, 4 ≤ data.length) := by
  obtain ⟨offset, length, fields, -⟩ := bufferFields_some ten
  simp (disch := omega) only [execWriteBuffer, fields, byte_there, bind_eq_bind, bind_some]
  generalize ((cdb.getD 1 0) &&& 0x1f).toNat = mode
  split
  · exact iff_of_true rfl fun zero => by omega
  cases dataIn with
  | none => exact iff_of_true rfl fun _ => nofun
  | some data =>
    by_cases short : data.length < if mode = 0 then 4 else 0
    · refine iff_of_false (by simp [short]) fun header => ?_
      split at short
      next zero => exact absurd (header zero data rfl) (by omega)
      · omega
    · refine iff_of_true ?_ fun zero other same => ?_
      · generalize (if mode = 0 then 4 else 0) = skip at short ⊢
        simp only [if_neg short]
        split <;> rfl
      · obtain rfl := some.inj same
        rw [if_pos zero] at short
        omega

/-- READ BUFFER answers within its allocation length iff a descriptor fits it. -/
theorem execReadBuffer_returns (sound : dev.Sound) (ten : cdb.length = 10) :
    Returns ((bufferFields cdb).map Prod.snd) dataLen (dev.execReadBuffer cdb) ↔
      (((cdb.getD 1 0) &&& 0x1f).toNat = 3 →
        (dataLen.fit (0x00 :: capacityBytes)).length ≤ ((bufferFields cdb).getD (0, 0)).2) := by
  obtain ⟨offset, length, fields, -⟩ := bufferFields_some ten
  simp (disch := omega) only [execReadBuffer, fields, byte_there, bind_eq_bind,
    bind_some, map_some, getD_some]
  split
  · exact iff_of_true .taken (by omega)
  iterate 2
    refine iff_of_true ?_ (by omega)
    split
    · exact .empty
    · refine .good (Nat.le_of_eq (ByteFile.length_slice ?_))
      rw [sound.buffer]
      omega
  next three =>
    refine ⟨fun ⟨_, _, same, short⟩ _ => ?_, fun short => ⟨_, _, rfl, fun _ same _ given => ?_⟩⟩
    · obtain ⟨rfl, -⟩ := Prod.mk.inj (some.inj same)
      exact short _ rfl _ rfl
    · obtain rfl := Except.ok.inj same
      cases given
      exact short three
  next other => exact iff_of_true .empty fun three => absurd three other

variable {opcode : Byte} {req : ScsiRequest}

theorem dispatch_returns (sound : dev.Sound) (standard : req.cdb.length = getCdbLength opcode)
    (survivable : Survivable opcode req) :
    Returns (dev.limit opcode req.cdb) req.dataLen
      (dev.dispatch openCdrom opcode req.cdb req.dataIn) := by
  have long {n : Nat} (same : opcode.toNat = n) : req.cdb.length = getCdbLength (.ofNat 8 n) := by
    rw [standard, ← same, ofNat_toNat, setWidth_eq]
  have there {n i : Nat} (same : opcode.toNat = n) (inside : i < getCdbLength (.ofNat 8 n)) :
      req.cdb[i]? = some (req.cdb.getD i 0) := byte_there (by rwa [long same])
  unfold dispatch
  split
  case h_27 => exact .empty
  all_goals
    rename_i same
    simp (disch := decide) only [limit, same, execRequestSense, requestSenseAllocLen, execInquiry,
      execRead6, fields6, execRead10, fields10, execWrite6, execWrite10, execStartStopUnit,
      execModeSense6, execModeSense10, allocLen10, execReadTocPmaAtip, execGetConfiguration,
      there same, bind_eq_bind, bind_some]
  · exact .unlimited rfl
  · exact .taken
  · exact .taken
  · exact .unlimited rfl
  · exact performRead_returns sound
  · exact performRead_returns sound
  · exact .unlimited rfl
  · exact .unlimited rfl
  · exact .unlimited rfl
  iterate 2
    split
    next built => exact refused_mode built ▸ .empty
    · exact .taken
  · exact .unlimited ((execWriteBuffer_isSome (long same)).mpr
      (survivable.1 (eq_of_toNat_eq same)))
  · exact (execReadBuffer_returns sound (long same)).mpr
      (survivable.2.2 (eq_of_toNat_eq same))
  · exact .unlimited (execModeSelect6_isSome (long same))
  · exact .unlimited (execModeSelect10_isSome (long same))
  · split
    · exact .empty
    · split
      · exact .taken
      · exact .taken
      · exact .empty
  · split
    · exact .empty
    · exact .taken
  · exact .unlimited rfl
  all_goals exact .empty

/-! ### Arithmetic -/

theorem moves_isSome (sound : dev.Sound) (scaled : scale ≤ 2048) (lba : fields.1 < 2 ^ 32)
    (count : fields.2 ≤ 2 ^ 16) :
    ∀ result ∈ dev.moves scale fields, result.isSome = true := by
  have block : dev.logicalBlockSize ≤ 2048 := by
    rcases sound.blocks with size | size | size <;> omega
  have product {a b : Nat} (small : a ≤ 2 ^ 33) (short : b ≤ 2048) :
      (mul 64 a b).isSome = true := by
    rw [mul_of_lt (Nat.lt_of_le_of_lt (Nat.mul_le_mul small short) (by decide))]
    rfl
  simp only [moves, mem_cons, not_mem_nil, or_false]
  rintro result (rfl | rfl | rfl | rfl)
  · rw [add_of_lt (by omega)]
    rfl
  · exact product (by omega) block
  · exact product (by omega) block
  · exact product (by omega) scaled

/-- Nothing overflows but the room READ BUFFER with a header computes. -/
theorem arithmetic_isSome (sound : dev.Sound) (standard : cdb.length = getCdbLength opcode)
    (dataIn : Option (List Byte)) :
    (∀ result ∈ dev.arithmetic opcode cdb dataIn, result.isSome = true) ↔
      (opcode = 0x3c → ((cdb.getD 1 0) &&& 0x1f).toNat = 0 →
        ((bufferFields cdb).getD (0, 0)).1 ≤ scsiBufferSize) := by
  have long {n : Nat} (same : opcode.toNat = n) : cdb.length = getCdbLength (.ofNat 8 n) := by
    rw [standard, ← same, ofNat_toNat, setWidth_eq]
  have there {n i : Nat} (same : opcode.toNat = n) (inside : i < getCdbLength (.ofNat 8 n)) :
      cdb[i]? = some (cdb.getD i 0) := byte_there (by rwa [long same])
  have apart {n : Nat} (same : opcode.toNat = n) (differ : n ≠ 0x3c) {P : Prop}
      (is : opcode = 0x3c) : P := by
    subst is
    exact absurd same.symm differ
  have wide (bytes : List Byte) (short : bytes.length ≤ 4) : ofBeBytes bytes < 2 ^ 32 :=
    (ofBeBytes_lt bytes).trans_le (Nat.pow_le_pow_right (by decide) short)
  have two (a b : Byte) : ofBeBytes [a, b] ≤ 2 ^ 16 := by
    simpa using Nat.le_of_lt (ofBeBytes_lt [a, b])
  have single {a b : Nat} (fits : a + b < 2 ^ 64) :
      ∀ result ∈ [add 64 a b], result.isSome = true := by
    simp [add_of_lt fits]
  have six (byte : Byte) : (if byte = 0 then 256 else byte.toNat) ≤ 2 ^ 16 := by
    split <;> omega
  have block : 512 ≤ dev.logicalBlockSize ∧ dev.logicalBlockSize ≤ 2048 := by
    rcases sound.blocks with size | size | size <;> omega
  unfold arithmetic
  dsimp only
  split <;> rename_i same
  case h_10 =>
    obtain ⟨offset, length, fields, near, far⟩ := bufferFields_some (long same)
    simp only [fields, getD_some]
    have here : opcode = 0x3c := eq_of_toNat_eq same
    split <;> rename_i mode
    · have last : (add 64 offset (min (length - 4) (scsiBufferSize - offset))).isSome =
          true := single (by omega) _ (mem_singleton_self _)
      rw [forall_mem_cons, forall_mem_singleton]
      rcases lt_or_ge scsiBufferSize offset with beyond | inside
      · rw [sub_of_lt beyond]
        exact iff_of_false (by simp) fun safe => absurd (safe here mode) (by omega)
      · rw [sub_of_le inside]
        exact iff_of_true ⟨rfl, last⟩ fun _ _ => inside
    · refine iff_of_true ?_ fun _ header => absurd header mode
      split
      · exact single (by omega)
      · simp
  case h_11 => exact iff_of_true (by simp) fun is => absurd (by rw [is]; rfl) same
  all_goals refine iff_of_true ?_ (apart same (by decide))
  · simp (disch := decide) only [fields6, there same, bind_eq_bind, bind_some]
    exact moves_isSome sound block.2 (wide _ (by simp)) (six _)
  · simp (disch := decide) only [fields10, there same, bind_eq_bind, bind_some]
    exact moves_isSome sound block.2 (wide _ (by simp)) (two _ _)
  · simp (disch := decide) only [fields6, there same, bind_eq_bind, bind_some]
    exact moves_isSome sound (by decide) (wide _ (by simp)) (six _)
  · simp (disch := decide) only [fields10, there same, bind_eq_bind, bind_some]
    exact moves_isSome sound (by decide) (wide _ (by simp)) (two _ _)
  iterate 2
    refine single ?_
    have size := sound.size
    rcases sound.blocks with block | block | block <;> rw [block] <;> omega
  · exact single (by have := ((dataIn.getD []).getD 3 0).isLt; omega)
  · refine single ?_
    omega
  · obtain ⟨offset, length, fields, near, far⟩ := bufferFields_some (long same)
    simp only [fields, getD_some]
    exact single (by omega)

theorem dispatch_survives (sound : dev.Sound) (standard : req.cdb.length = getCdbLength opcode) :
    (Returns (dev.limit opcode req.cdb) req.dataLen
        (dev.dispatch openCdrom opcode req.cdb req.dataIn) ∧
      ∀ result ∈ dev.arithmetic opcode req.cdb req.dataIn, result.isSome = true) ↔
    Survivable opcode req := by
  rw [arithmetic_isSome sound standard]
  constructor
  · rintro ⟨returns, room⟩
    refine ⟨?_, room, ?_⟩
    · rintro rfl
      obtain ⟨_, _, returned, -⟩ := returns
      exact (execWriteBuffer_isSome standard).mp (isSome_iff_exists.mpr ⟨_, returned⟩)
    · rintro rfl
      exact (execReadBuffer_returns sound standard).mp returns
  · exact fun survivable => ⟨dispatch_returns openCdrom sound standard survivable, survivable.2.1⟩

/-! ### Requests -/

/-- The request returns, nothing in it overflows, and it returns no more data than its command
asks for. -/
def Survives (dev : ScsiDevice Node) (openCdrom : String → Except IoError Node) (opcode : Byte)
    (req : ScsiRequest) : Prop :=
  Returns (dev.limit opcode req.cdb) .unlimited (dev.request openCdrom req) ∧
    ∀ asked ∈ dev.asked opcode (req.cdb.getD 1 0),
      ∀ result ∈ asked.arithmetic opcode req.cdb req.dataIn, result.isSome = true

/-- A request is refused with no data, or answered as its handler answers. -/
theorem request_asked (dev : ScsiDevice Node) (head : req.cdb.head? = some opcode)
    (long : 1 < req.cdb.length) :
    match dev.asked opcode (req.cdb.getD 1 0) with
    | none => ∃ after, dev.request openCdrom req = some (.ok ⟨0x02, []⟩, after)
    | some asked => dev.request openCdrom req =
        (asked.dispatch openCdrom opcode req.cdb req.dataIn).map fun answer =>
          (answer.1.map fun response => { response with data := req.dataLen.fit response.data },
            answer.2) := by
  obtain ⟨tail, cdb⟩ := head?_eq_some_iff.mp head
  have second := byte_there long
  rw [cdb] at second
  simp only [request, asked, cdb, second, bind_eq_bind, bind_some]
  by_cases lun : (opcode :: tail).getD 1 0 >>> 5 ≠ 0 ∧ ¬(opcode = 0x12 ∨ opcode = 0x03)
  · rw [if_pos lun, if_pos (.inl lun)]
    exact ⟨_, rfl⟩
  rw [if_neg lun]
  generalize (if opcode = 0x12 ∨ opcode = 0x03 then (false, dev.media)
    else dev.media.takeChanged) = taken
  rcases taken with ⟨_ | _, media⟩
  · rw [if_neg (by simpa using lun)]
    dsimp only
    rw [map_eq_bind]
    rfl
  · rw [if_pos (.inr rfl)]
    exact ⟨_, rfl⟩

omit [BlockNode Node] in
theorem asked_cases {asked : ScsiDevice Node} (found : dev.asked opcode selector = some asked) :
    asked = dev ∨ asked = { dev with media := dev.media.takeChanged.2 } := by
  unfold ScsiDevice.asked at found
  dsimp only at found
  split at found <;> split at found <;> cases found
  · exact .inl rfl
  · exact .inr rfl

theorem Sound.asked {asked : ScsiDevice Node} {selector : Byte} (sound : dev.Sound)
    (found : dev.asked opcode selector = some asked) : asked.Sound := by
  obtain ⟨media, kind, buffer, sense, phys, logical, identity⟩ := dev
  rcases asked_cases found with rfl | rfl
  · exact sound
  · cases media <;> exact { sound with }

end ScsiDevice

omit [BlockNode Node] in
theorem Returns.fitted {limit : Option Nat} :
    Returns limit .unlimited (result.map fun answer =>
      (answer.1.map fun response => { response with data := dataLen.fit response.data }, answer.2)) ↔
    Returns limit dataLen result := by
  rcases result with _ | ⟨error | response, after⟩
  · exact ⟨nofun, nofun⟩
  · exact iff_of_true ⟨_, _, rfl, nofun⟩ ⟨_, _, rfl, nofun⟩
  constructor
  all_goals
    rintro ⟨_, _, same, short⟩
    cases same
    exact ⟨_, _, rfl, fun _ same => Except.ok.inj same ▸ short _ rfl⟩

open ScsiDevice in
/-- A request of standard length survives iff it is refused before its handler or survivable. -/
theorem request_survives_iff (dev : ScsiDevice Node) (sound : dev.Sound)
    (openCdrom : String → Except IoError Node) (opcode : Byte) (req : ScsiRequest)
    (head : req.cdb.head? = some opcode) (standard : req.cdb.length = getCdbLength opcode) :
    dev.Survives openCdrom opcode req ↔
      dev.asked opcode (req.cdb.getD 1 0) = none ∨ Survivable opcode req := by
  have long : 1 < req.cdb.length := by
    rw [standard, getCdbLength]
    split <;> decide
  have answered := request_asked openCdrom dev head long
  cases found : dev.asked opcode (req.cdb.getD 1 0) with
  | none =>
    simp only [found] at answered
    obtain ⟨after, refused⟩ := answered
    refine iff_of_true ⟨?_, ?_⟩ (.inl rfl)
    · rw [refused]
      exact .empty
    · rw [found]
      exact nofun
  | some asked =>
    simp only [found] at answered
    have same : dev.limit opcode req.cdb = asked.limit opcode req.cdb := by
      rcases asked_cases found with rfl | rfl <;> rfl
    rw [ScsiDevice.Survives, answered, Returns.fitted, same, found]
    simp only [mem_some_iff, forall_eq', reduceCtorEq, false_or]
    exact dispatch_survives openCdrom (sound.asked found) standard

def emptyCdrom : ScsiDevice RawDisk := .newEmptyCdrom blankDisk.identity

/-- READ BUFFER or WRITE BUFFER, from `offset` on and with one byte for its length. -/
def bufferRequest (opcode mode : Byte) (offset : Nat) (length : Byte)
    (dataIn : Option (List Byte)) : ScsiRequest :=
  ⟨[opcode, mode, 0, byteOf offset 16, byteOf offset 8, byteOf offset 0, 0, 0, length, 0],
    .unlimited, dataIn⟩

theorem emptyCdrom_sound : emptyCdrom.Sound :=
  ⟨length_replicate, .inr (.inr rfl), by decide, nofun⟩

theorem descriptor_survives :
    emptyCdrom.Survives noDisc 0x3c (bufferRequest 0x3c 3 0 4 none) :=
  (request_survives_iff emptyCdrom emptyCdrom_sound noDisc 0x3c _ rfl rfl).mpr
    (.inr ⟨nofun, by decide, by decide +kernel⟩)

/-- WRITE BUFFER with a header and no data panics, READ BUFFER with a header past the buffer
overflows, and a descriptor comes whole where nothing was asked for. -/
theorem buffer_commands_fail :
    (emptyCdrom.request noDisc (bufferRequest 0x3b 0 0 0 (some []))).isNone = true ∧
      none ∈ emptyCdrom.arithmetic 0x3c (bufferRequest 0x3c 0 (scsiBufferSize + 1) 0 none).cdb none ∧
      emptyCdrom.limit 0x3c (bufferRequest 0x3c 3 0 0 none).cdb = some 0 ∧
      (emptyCdrom.request noDisc (bufferRequest 0x3c 3 0 0 none)).map
        (fun answer => answer.1.toOption.map (·.data.length)) = some (some 4) := by
  decide +kernel

end Iris.Scsi
