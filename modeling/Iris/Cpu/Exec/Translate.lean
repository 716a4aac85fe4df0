import Iris.Cpu.Exec.Flow

/-!
Owns address translation in the executor: the segment decode of both addressing
modes, the TLB path with its CP0 side effects, and the translation caches in
front of them (the fetch nano-TLB slot and the read and write micro-TLBs). The
statistics and JIT tracking of the same functions are not modelled.
-/

namespace Iris.Cpu.Exec

open Tlb Function

/-! ### What the CPU model and the board fix -/

def trMapped : BitVec 32 := 0x8
def trGlobal : BitVec 32 := 0x10

/-- The C-field value an attribute is passed around as. -/
def cField : CacheAttr → BitVec 32
  | .uncached => 2
  | .cacheable => 3
  | .cacheableCoherent => 5

/-- Meaning of a C field on the model. -/
def decodeCacheAttr (model : CpuModel) (c : BitVec 32) : CacheAttr :=
  let c := c &&& 0x7
  if model.r10kCacheOps then
    if c = 3 then .cacheable else if c = 4 ∨ c = 5 then .cacheableCoherent else .uncached
  else if model.mips4 then
    if c = 0 ∨ c = 1 then .cacheable else if c = 3 then .cacheable else .uncached
  else if c = 3 then .cacheable
  else if c = 4 ∨ c = 5 ∨ c = 6 then .cacheableCoherent
  else .uncached

def cacheAttrTable (model : CpuModel) : CacheTable := fun c => decodeCacheAttr model (c.setWidth 32)

/-- The boards an executor is built for: on its own, behind the MC, in an
Octane and in an O2. -/
inductive Board
  | bare
  | mc
  | ip30
  | ip32
deriving DecidableEq, Repr

namespace Board

/-- `(base, size, target)` of the alias window. -/
def physAlias : Board → Option (BitVec 64 × BitVec 64 × BitVec 64)
  | .ip32 => some (0x80000000, 0x40000000, 0x40000000)
  | _ => none

def physMask : Board → BitVec 64
  | .bare => 0xFFFFFFFFFFFFFFFF
  | .mc => 0xFFFFFFFF
  | .ip30 => 0xFFFFFFFFFF
  | .ip32 => 0xFFFFFFFF

/-- A CPU physical address as the board decodes it. -/
def foldPhys (board : Board) (pa : BitVec 64) : BitVec 64 :=
  let pa :=
    match board.physAlias with
    | some (base, size, target) => if pa - base < size then pa - base + target else pa
    | none => pa
  pa &&& board.physMask

end Board

/-- What an executor is built for; fixed over its life. -/
structure Machine where
  model : CpuModel
  board : Board

/-! ### The executor's translation state -/

structure NanoTlbEntry where
  vaTag : BitVec 64
  paEncoded : BitVec 64
deriving DecidableEq, Repr

structure NuTlbEntry where
  virttag : BitVec 64
  phys : BitVec 64
deriving DecidableEq, Repr

/-- `nanotlb` is the Fetch slot; the slots of the other access types are never
consulted. The micro-TLBs are indexed by whether they serve stores. -/
structure Mmu where
  tlb : MipsTlb
  /-- The translator picked for the current mode: 64-bit addressing, privilege. -/
  translateFn : Bool × PrivilegeMode
  nanotlb : NanoTlbEntry
  nutlb : Bool → BitVec 8 → NuTlbEntry
  nutlbValid : Bool → BitVec 8 → Bool

structure TranslateResult where
  phys : BitVec 64
  status : BitVec 32
deriving DecidableEq, Repr

namespace TranslateResult

def ok (phys : BitVec 64) (cField : BitVec 32) : TranslateResult := ⟨phys, cField⟩

def okMapped (phys : BitVec 64) (cField : BitVec 32) (global : Bool) : TranslateResult :=
  ⟨phys, cField ||| trMapped ||| (if global then trGlobal else 0)⟩

def exc (status : ExecStatus) : TranslateResult := ⟨0, status⟩

def isException (result : TranslateResult) : Bool := result.status &&& execIsException != 0

def cacheAttr (result : TranslateResult) : BitVec 32 := result.status &&& 0x7

end TranslateResult

/-! ### Full translation -/

variable (machine : Machine) (core : MipsCore) (accessType : AccessType)

def addressErrorCode : BitVec 32 :=
  if accessType = .write then excAdes else excAdel

def xcontextOnMiss (vaBits : Nat) (oldXcontext virtAddr : BitVec 64) : BitVec 64 :=
  let vpn2Mask : BitVec 64 := ((((1 : BitVec 64) <<< (vaBits - 13)) - 1) <<< 13) &&& ~~~0xFFF
  let ptebase := oldXcontext &&& ((~~~0 : BitVec 64) <<< (vaBits - 7))
  let badvpn2 := ((virtAddr &&& vpn2Mask) >>> 13) <<< 4
  let region := (virtAddr >>> 62) &&& 0x3
  ptebase ||| (region <<< (vaBits - 9)) ||| badvpn2

def updateTlbExceptionRegisters (virtAddr : BitVec 64) (core : MipsCore) : MipsCore :=
  { core with
    cp0BadVAddr := virtAddr
    cp0EntryHi := (virtAddr &&& 0xC00000FFFFFFE000) ||| (core.cp0EntryHi &&& 0xFF)
    cp0Context := (core.cp0Context &&& 0xFFFFFFFFFF800000) |||
      (((virtAddr &&& 0x00000000FFFFE000) >>> 13) <<< 4)
    cp0XContext := xcontextOnMiss machine.model.vaBits core.cp0XContext virtAddr }

/-- The way an address goes: to a physical address fixed by its segment, to the
TLB (with the 64-bit compare and vector or not), or to an address error. -/
inductive Route
  | unmapped (phys : BitVec 64) (attr : CacheAttr)
  | mapped (xtlb : Bool)
  | addressError
deriving DecidableEq, Repr

/-- `translate_32bit_impl` up to the TLB call. -/
def route32 (privilege : PrivilegeMode) (virtAddr : BitVec 64) : Route :=
  let virtAddr32 := virtAddr.setWidth 32
  let segment := virtAddr32 >>> 29
  let unmapped := (virtAddr32 &&& 0x1FFFFFFF).setWidth 64
  if segment ≤ 3 then
    if core.cp0Status &&& statusErl != 0 then .unmapped (virtAddr32.setWidth 64) .uncached
    else .mapped false
  else if segment = 4 then
    if privilege = .kernel then .unmapped unmapped (decodeCacheAttr machine.model core.cp0Config)
    else .addressError
  else if segment = 5 then
    if privilege = .kernel then .unmapped unmapped .uncached else .addressError
  else if segment = 6 then
    if privilege = .kernel ∨ privilege = .supervisor then .mapped false else .addressError
  else if privilege = .kernel then .mapped false
  else .addressError

/-- `translate_64bit_impl` up to the TLB call. -/
def route64 (privilege : PrivilegeMode) (virtAddr : BitVec 64) : Route :=
  let topBits := virtAddr >>> 62
  if topBits = 0 then
    if virtAddr >>> 40 ≠ 0 then .addressError
    else if core.cp0Status &&& statusErl != 0 then
      .unmapped (machine.board.foldPhys virtAddr) .uncached
    else .mapped true
  else if topBits = 1 then
    if privilege = .kernel ∨ privilege = .supervisor then .mapped true else .addressError
  else if topBits = 2 then
    let bits6159 := (virtAddr >>> 59) &&& 0x7
    if bits6159 ≥ 2 ∧ bits6159 ≤ 7 then
      if privilege = .kernel then
        .unmapped (machine.board.foldPhys (virtAddr &&& 0x07FFFFFFFFFFFFFF))
          (decodeCacheAttr machine.model (bits6159.setWidth 32))
      else .addressError
    else .addressError
  else if privilege = .kernel then
    let addr32 := virtAddr.setWidth 32
    let unmapped := (addr32 &&& 0x1FFFFFFF).setWidth 64
    -- ckseg0 and ckseg1: the 32-bit unmapped windows, sign-extended.
    if virtAddr >>> 32 = 0xFFFFFFFF ∧ (addr32 >>> 29) &&& 0x7 = 4 then
      .unmapped unmapped (decodeCacheAttr machine.model core.cp0Config)
    else if virtAddr >>> 32 = 0xFFFFFFFF ∧ (addr32 >>> 29) &&& 0x7 = 5 then
      .unmapped unmapped .uncached
    else .mapped true
  else .addressError

def route (translateFn : Bool × PrivilegeMode) (virtAddr : BitVec 64) : Route :=
  if translateFn.1 then route64 machine core translateFn.2 virtAddr
  else route32 machine core translateFn.2 virtAddr

/-- What `tlb_translate_impl` makes of the TLB's answer. -/
def tlbOutcome (xtlb : Bool) (accessType : AccessType) :
    TlbResult → TranslateResult
  | .hit phys attr dirty global =>
    if accessType = .write ∧ dirty = false then .exc (execException excMod)
    else .okMapped (machine.board.foldPhys phys) (cField attr) global
  | .miss _ =>
    let code := if accessType = .write then excTlbs else excTlbl
    .exc (if xtlb then execXtlbMiss code else execTlbMiss code)
  | .invalid _ => .exc (execException (if accessType = .write then excTlbs else excTlbl))
  | .modified _ => .exc (execException excMod)

namespace Executor

variable (machine : Machine) (exec : Executor Mmu)

def asid (core : MipsCore) : BitVec 8 := (core.cp0EntryHi &&& 0xFF).setWidth 8

/-- The translator `translateFn` on one address. `none` stands for a TLB list
that loops. The `DEBUG` form leaves CP0 alone. -/
def translateWith (debug : Bool) (translateFn : Bool × PrivilegeMode) (virtAddr : BitVec 64)
    (accessType : AccessType) : Option (Executor Mmu × TranslateResult) :=
  match route machine exec.core translateFn virtAddr with
  | .unmapped phys attr => some (exec, .ok phys (cField attr))
  | .addressError =>
    let core := if debug then exec.core else { exec.core with cp0BadVAddr := virtAddr }
    some ({ exec with core := core }, .exc (execException (addressErrorCode accessType)))
  | .mapped xtlb =>
    (exec.rest.tlb.translate xtlb virtAddr (asid exec.core) accessType).map fun found =>
      let result := tlbOutcome machine xtlb accessType found.2
      let core :=
        if result.isException && !debug then
          updateTlbExceptionRegisters machine virtAddr exec.core
        else exec.core
      (⟨core, { exec.rest with tlb := found.1 }⟩, result)

/-- `translate_impl`: the translator for the mode Status says. -/
def translateImpl (debug : Bool) (virtAddr : BitVec 64) (accessType : AccessType) :
    Option (Executor Mmu × TranslateResult) :=
  let privilege := if debug then .kernel else exec.core.getPrivilegeMode
  exec.translateWith machine debug (exec.core.is64BitMode, privilege) virtAddr accessType

/-! ### Translation caches -/

variable (write : Bool) (va : BitVec 64) (result : TranslateResult)

def nutlbIndex : BitVec 8 := (va >>> 12).setWidth 8

/-- The tag and validity test of the micro-TLB. -/
def nutlbHit : Bool :=
  (exec.rest.nutlb write (nutlbIndex va)).virttag == va &&& ~~~0xFFF &&
    exec.rest.nutlbValid write (nutlbIndex va)

def nanotlbHit : Bool := exec.rest.nanotlb.vaTag == (va &&& ~~~0xFFF) ||| 1

/-- The address and attribute a cached word `encoded` gives for `va`. -/
def cachedResult (encoded va : BitVec 64) : TranslateResult :=
  .ok ((encoded &&& ~~~0xFFF) ||| (va &&& 0xFFF)) ((encoded &&& 0x7).setWidth 32)

/-- The word a successful translation is cached as. -/
def encode : BitVec 64 :=
  (result.phys &&& ~~~0xFFF) ||| (result.status &&& 0x7).setWidth 64

def nutlbCacheableSegment (is64Bit : Bool) : Bool :=
  !is64Bit || va >>> 62 != 0 || va >>> 40 == 0

def nutlbFill : Executor Mmu :=
  if exec.core.cp0Status &&& statusErl != 0 then exec
  else if !nutlbCacheableSegment va exec.core.is64BitMode then exec
  else
    let idx := nutlbIndex va
    let entry : NuTlbEntry := ⟨va &&& ~~~0xFFF, encode result⟩
    { exec with rest := { exec.rest with
        nutlb := update exec.rest.nutlb write
          (update (exec.rest.nutlb write) idx entry)
        nutlbValid := update exec.rest.nutlbValid write
          (update (exec.rest.nutlbValid write) idx true) } }

def nutlbTranslate : Option (Executor Mmu × TranslateResult) :=
  if exec.nutlbHit write va then
    some (exec, cachedResult (exec.rest.nutlb write (nutlbIndex va)).phys va)
  else
    (exec.translateWith machine false exec.rest.translateFn va (if write then .write else .read)).map
      fun (exec, result) =>
        (if result.isException then exec else exec.nutlbFill write va result, result)

/-- Translation of a guest access: loads and stores through their micro-TLB,
fetches through the nano-TLB slot. -/
def nanotlbTranslate (accessType : AccessType) (va : BitVec 64) :
    Option (Executor Mmu × TranslateResult) :=
  match accessType with
  | .read => exec.nutlbTranslate machine false va
  | .write => exec.nutlbTranslate machine true va
  -- `Debug` has no slot; no caller asks for it.
  | .debug => none
  | .fetch =>
    if exec.nanotlbHit va then some (exec, cachedResult exec.rest.nanotlb.paEncoded va)
    else
      (exec.translateWith machine false exec.rest.translateFn va .fetch).map
        fun (exec, result) =>
          (if result.isException then exec
           else { exec with rest := { exec.rest with
             nanotlb := ⟨(va &&& ~~~0xFFF) ||| 1, encode result⟩ } }, result)

end Executor

/-- Drop every cached translation. Tags of the micro-TLBs stay; nothing reads
one without its valid bit. -/
def Mmu.nanotlbInvalidate (mmu : Mmu) : Mmu :=
  { mmu with nanotlb := { mmu.nanotlb with vaTag := 0 }, nutlbValid := fun _ _ => false }

/-- The executor's hooks over its translation state. The memory caches are not
part of it: `cacheErr` is what they latched. -/
def mmuBackend (cacheErr : BitVec 32) : Backend Mmu where
  clearLlbit := fun mmu => mmu
  takeCacheErr := fun mmu => (cacheErr, mmu)
  resyncPrivilegeState := fun core mmu =>
    { mmu with translateFn := (core.is64BitMode, core.getPrivilegeMode) }.nanotlbInvalidate

end Iris.Cpu.Exec
