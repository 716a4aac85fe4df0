import Iris.Cpu.Core

/-!
Owns instruction decode: the fields of a word, the handler a CPU model dispatches
it to, its pre-processed immediate, and, in builds with opcode fusion, the handler
that executes it together with the word behind it.
-/

namespace Iris.Cpu.Exec

/-- The handlers a decoded word can be dispatched to. The FPU's data movement and
arithmetic share `cop1`; the last two groups exist with opcode fusion only. -/
inductive Handler
  | sll | srl | sra | sllv | srlv | srav | movci | jr | jalr | movz | movn
  | syscall | breakInstr | sync | mfhi | mthi | mflo | mtlo | dsllv | dsrlv | dsrav
  | mult | multu | div | divu | dmult | dmultu | ddiv | ddivu
  | add | addu | sub | subu | and | or | xor | nor | slt | sltu
  | dadd | daddu | dsub | dsubu | tge | tgeu | tlt | tltu | teq | tne
  | dsll | dsrl | dsra | dsll32 | dsrl32 | dsra32
  | bltz | bgez | bltzlRi | bgezlRi | tgei | tgeiu | tlti | tltiu | teqi | tnei
  | bltzal | bgezal | bltzall | bgezall
  | j | jal | beq | bne | blez | bgtz | beql | bnel | blezl | bgtzl
  | addi | addiu | daddi | daddiu | slti | sltiu | andi | ori | xori | lui
  | cop0 | cop1 | bc1
  | lb | lh | lwl | lw | lbu | lhu | lwr | lwu | sb | sh | swl | sw | sdl | sdr | swr
  | cache | ll | ldl | ldr | ld | sc | sd | pref | lld | scd
  | reserved
  | jrNop | jNop | jalNop | beqNop | bneNop
  | adduLs | subuLs | addiuLs | luiImm32 | luiSimm32
deriving DecidableEq, Repr

def Handler.isFused : Handler → Bool
  | .jrNop | .jNop | .jalNop | .beqNop | .bneNop => true
  | .adduLs | .subuLs | .addiuLs | .luiImm32 | .luiSimm32 => true
  | _ => false

structure DecodedInstr where
  raw : BitVec 32
  imm : BitVec 32
  handler : Handler
deriving DecidableEq, Repr

/-! ### Fields -/

variable (model : CpuModel) (raw : BitVec 32)

def opField : BitVec 6 := raw.extractLsb' 26 6
def rsField : BitVec 5 := raw.extractLsb' 21 5
def rtField : BitVec 5 := raw.extractLsb' 16 5
def rdField : BitVec 5 := raw.extractLsb' 11 5
def saField : BitVec 5 := raw.extractLsb' 6 5
def functField : BitVec 6 := raw.extractLsb' 0 6

def immSe : BitVec 32 := (raw.setWidth 16).signExtend 32
def immSe4 : BitVec 32 := (raw.setWidth 16).signExtend 32 * 4
def immZe : BitVec 32 := raw &&& 0xFFFF
def immLui : BitVec 32 := (raw &&& 0xFFFF) <<< 16
def immJ : BitVec 32 := (raw &&& 0x3FFFFFF) <<< 2

namespace DecodedInstr

variable (d : DecodedInstr)

def rs : BitVec 5 := rsField d.raw
def rt : BitVec 5 := rtField d.raw
def rd : BitVec 5 := rdField d.raw
def sa : BitVec 5 := saField d.raw
def funct : BitVec 6 := functField d.raw

/-- The immediate zero-widened. -/
def immi64 : BitVec 64 := d.imm.setWidth 64

/-- The immediate sign-extended. -/
def immu64 : BitVec 64 := d.imm.signExtend 64

end DecodedInstr

/-! ### The dispatch table -/

def mips4Only (handler : Handler) : Handler :=
  if model.mips4 then handler else .reserved

def decodeSpecial (funct : BitVec 6) : Handler :=
  match funct.toNat with
  | 0x00 => .sll
  | 0x01 => mips4Only model .movci
  | 0x02 => .srl
  | 0x03 => .sra
  | 0x04 => .sllv
  | 0x06 => .srlv
  | 0x07 => .srav
  | 0x08 => .jr
  | 0x09 => .jalr
  | 0x0A => mips4Only model .movz
  | 0x0B => mips4Only model .movn
  | 0x0C => .syscall
  | 0x0D => .breakInstr
  | 0x0F => .sync
  | 0x10 => .mfhi
  | 0x11 => .mthi
  | 0x12 => .mflo
  | 0x13 => .mtlo
  | 0x14 => .dsllv
  | 0x16 => .dsrlv
  | 0x17 => .dsrav
  | 0x18 => .mult
  | 0x19 => .multu
  | 0x1A => .div
  | 0x1B => .divu
  | 0x1C => .dmult
  | 0x1D => .dmultu
  | 0x1E => .ddiv
  | 0x1F => .ddivu
  | 0x20 => .add
  | 0x21 => .addu
  | 0x22 => .sub
  | 0x23 => .subu
  | 0x24 => .and
  | 0x25 => .or
  | 0x26 => .xor
  | 0x27 => .nor
  | 0x2A => .slt
  | 0x2B => .sltu
  | 0x2C => .dadd
  | 0x2D => .daddu
  | 0x2E => .dsub
  | 0x2F => .dsubu
  | 0x30 => .tge
  | 0x31 => .tgeu
  | 0x32 => .tlt
  | 0x33 => .tltu
  | 0x34 => .teq
  | 0x36 => .tne
  | 0x38 => .dsll
  | 0x3A => .dsrl
  | 0x3B => .dsra
  | 0x3C => .dsll32
  | 0x3E => .dsrl32
  | 0x3F => .dsra32
  | _ => .reserved

def decodeRegimm : Handler × BitVec 32 :=
  match (rtField raw).toNat with
  | 0x00 => (.bltz, immSe4 raw)
  | 0x01 => (.bgez, immSe4 raw)
  | 0x02 => (.bltzlRi, immSe4 raw)
  | 0x03 => (.bgezlRi, immSe4 raw)
  | 0x08 => (.tgei, immSe raw)
  | 0x09 => (.tgeiu, immSe raw)
  | 0x0A => (.tlti, immSe raw)
  | 0x0B => (.tltiu, immSe raw)
  | 0x0C => (.teqi, immSe raw)
  | 0x0E => (.tnei, immSe raw)
  | 0x10 => (.bltzal, immSe4 raw)
  | 0x11 => (.bgezal, immSe4 raw)
  | 0x12 => (.bltzall, immSe4 raw)
  | 0x13 => (.bgezall, immSe4 raw)
  | _ => (.reserved, 0)

/-- The functions of the single and double formats that differ in the one
conversion they lack (to themselves). -/
def decodeFmt (convert : Nat) (funct : BitVec 6) : Handler :=
  let funct := funct.toNat
  if funct ≤ 0x0F ∨ funct = convert ∨ funct = 0x24 ∨ funct = 0x25 ∨ 0x30 ≤ funct then .cop1
  else if [0x11, 0x12, 0x13, 0x15, 0x16].contains funct then mips4Only model .cop1
  else .reserved

def decodeCop1 : Handler × BitVec 32 :=
  match (rsField raw).toNat with
  | 0x00 | 0x01 | 0x02 | 0x04 | 0x05 | 0x06 => (.cop1, 0)
  | 0x08 => (.bc1, immSe4 raw)
  | 0x10 => (decodeFmt model 0x21 (functField raw), 0)
  | 0x11 => (decodeFmt model 0x20 (functField raw), 0)
  | 0x14 | 0x15 =>
    (if functField raw = 0x20 ∨ functField raw = 0x21 then .cop1 else .reserved, 0)
  | _ => (.reserved, 0)

def decodeCop1x (funct : BitVec 6) : Handler :=
  if [0x00, 0x01, 0x08, 0x09, 0x0F, 0x20, 0x21, 0x28, 0x29, 0x30, 0x31, 0x38, 0x39].contains
      funct.toNat
  then mips4Only model .cop1
  else .reserved

def decodeOp : Handler × BitVec 32 :=
  match (opField raw).toNat with
  | 0x00 => (decodeSpecial model (functField raw), 0)
  | 0x01 => decodeRegimm raw
  | 0x02 => (.j, immJ raw)
  | 0x03 => (.jal, immJ raw)
  | 0x04 => (.beq, immSe4 raw)
  | 0x05 => (.bne, immSe4 raw)
  | 0x06 => (.blez, immSe4 raw)
  | 0x07 => (.bgtz, immSe4 raw)
  | 0x08 => (.addi, immSe raw)
  | 0x09 => (.addiu, immSe raw)
  | 0x0A => (.slti, immSe raw)
  | 0x0B => (.sltiu, immSe raw)
  | 0x0C => (.andi, immZe raw)
  | 0x0D => (.ori, immZe raw)
  | 0x0E => (.xori, immZe raw)
  | 0x0F => (.lui, immLui raw)
  | 0x10 => (.cop0, 0)
  | 0x11 => decodeCop1 model raw
  | 0x13 => (decodeCop1x model (functField raw), 0)
  | 0x14 => (.beql, immSe4 raw)
  | 0x15 => (.bnel, immSe4 raw)
  | 0x16 => (.blezl, immSe4 raw)
  | 0x17 => (.bgtzl, immSe4 raw)
  | 0x18 => (.daddi, immSe raw)
  | 0x19 => (.daddiu, immSe raw)
  | 0x1A => (.ldl, immSe raw)
  | 0x1B => (.ldr, immSe raw)
  | 0x20 => (.lb, immSe raw)
  | 0x21 => (.lh, immSe raw)
  | 0x22 => (.lwl, immSe raw)
  | 0x23 => (.lw, immSe raw)
  | 0x24 => (.lbu, immSe raw)
  | 0x25 => (.lhu, immSe raw)
  | 0x26 => (.lwr, immSe raw)
  | 0x27 => (.lwu, immSe raw)
  | 0x28 => (.sb, immSe raw)
  | 0x29 => (.sh, immSe raw)
  | 0x2A => (.swl, immSe raw)
  | 0x2B => (.sw, immSe raw)
  | 0x2C => (.sdl, immSe raw)
  | 0x2D => (.sdr, immSe raw)
  | 0x2E => (.swr, immSe raw)
  | 0x2F => (.cache, immSe raw)
  | 0x30 => (.ll, immSe raw)
  | 0x31 | 0x35 | 0x39 | 0x3D => (.cop1, immSe raw)
  | 0x33 => (mips4Only model .pref, 0)
  | 0x34 => (.lld, immSe raw)
  | 0x37 => (.ld, immSe raw)
  | 0x38 => (.sc, immSe raw)
  | 0x3C => (.scd, immSe raw)
  | 0x3F => (.sd, immSe raw)
  | _ => (.reserved, 0)

/-- `decode_into` for a word whose successor is not at hand. -/
def decode : DecodedInstr where
  raw := raw
  imm := (decodeOp model raw).2
  handler := (decodeOp model raw).1

/-! ### Fusion -/

def isFusableLoadStore (nextRaw : BitVec 32) (addrReg : BitVec 5) : Bool :=
  rsField nextRaw == addrReg &&
    [0x20, 0x24, 0x21, 0x25, 0x23, 0x37, 0x28, 0x29, 0x2B, 0x3F].contains (opField nextRaw).toNat

/-- A LUI with the ORI or ADDIU behind it that completes its register. -/
def fuseLui (d : DecodedInstr) (next : BitVec 32) : DecodedInstr :=
  let sameReg := rsField next = d.rt ∧ rtField next = d.rt
  if sameReg ∧ opField next = 0x0D then
    { d with imm := immLui d.raw ||| immZe next, handler := .luiImm32 }
  else if sameReg ∧ opField next = 0x09 then
    { d with imm := immLui d.raw + immSe next, handler := .luiSimm32 }
  else d

/-- What `decode_into` makes of a word whose successor `next`, of the same line
of the instruction cache, is at hand. -/
def fuse (d : DecodedInstr) (next : BitVec 32) : DecodedInstr :=
  match d.handler with
  | .jr => if next = 0 then { d with handler := .jrNop } else d
  | .j => if next = 0 then { d with handler := .jNop } else d
  | .jal => if next = 0 then { d with handler := .jalNop } else d
  | .beq => if next = 0 then { d with handler := .beqNop } else d
  | .bne => if next = 0 then { d with handler := .bneNop } else d
  -- The immediate slot keeps the load or store itself.
  | .addu => if isFusableLoadStore next d.rd then { d with imm := next, handler := .adduLs } else d
  | .subu => if isFusableLoadStore next d.rd then { d with imm := next, handler := .subuLs } else d
  | .addiu =>
    if isFusableLoadStore next d.rt then { d with imm := next, handler := .addiuLs } else d
  | .lui => fuseLui d next
  | _ => d

def decodeInto (next : Option (BitVec 32)) : DecodedInstr :=
  match next with
  | none => decode model raw
  | some next => fuse (decode model raw) next

end Iris.Cpu.Exec
