import HereEmu.Cpu

/-!
# The decoder

`MaskDecoder` looks a word up in a table of descriptors, and `decode_info` takes
its operands apart by the format the descriptor names. The table of the source
is generated at build time; a `Platform` may be built over any.

The formats of the compressed instructions are never met here: those have a
decoder of their own.
-/

namespace HereEmu

variable {F V : Type}

/-- The formats of 32-bit instructions. -/
inductive InstrFormat where
  | none | R | R_rm | R4_rm | I | S | B | U | J | A | V
  deriving DecidableEq, Repr

/-- A descriptor of the generated table. -/
structure RVInstrDesc (F V : Type) where
  instr : RiscvInstr F V
  format : InstrFormat
  mask : BitVec 32
  key : BitVec 32

namespace Decode

variable (raw : BitVec 32)

/-- The operand of a register field that starts at bit `lo`. -/
def reg (lo : Nat) : RegIdx := (raw >>> lo).setWidth 5

/-- The bits `mask` selects after a shift, as a word. -/
def bits (lo : Nat) (mask : BitVec 32) : BitVec 32 := (raw >>> lo) &&& mask

/-- The immediate of the I format, of which shifts use the low bits only. -/
def immI (instr : RiscvInstr F V) : WordType :=
  let imm : WordType := (bits raw 20 0xfff).setWidth 64
  match instr with
  | .SRLI | .SRAI => signExtend (imm &&& 0x3f) 12
  | .SRLIW | .SRAIW => signExtend (imm &&& 0x1f) 12
  | _ => signExtend imm 12

def immS : WordType :=
  signExtend (((bits raw 25 0xff <<< 5) ||| bits raw 7 0b11111).setWidth 64) 12

def immB : WordType :=
  signExtend (((bits raw 31 1 <<< 12) ||| (bits raw 7 1 <<< 11) ||| (bits raw 25 0b111111 <<< 5) |||
    (bits raw 8 0b1111 <<< 1)).setWidth 64) 13

def immU : WordType :=
  signExtend (((raw >>> 12) <<< 12).setWidth 64) 32

def immJ : WordType :=
  signExtend (((bits raw 31 1 <<< 20) ||| (bits raw 12 0xff <<< 12) ||| (bits raw 20 1 <<< 11) |||
    (bits raw 21 0x3ff <<< 1)).setWidth 64) 21

end Decode

open Decode in
def decodeInfo (raw : BitVec 32) (instr : RiscvInstr F V) : InstrFormat → RVInstrInfo
  | .V => .V (reg raw 15) (reg raw 20) (reg raw 7) (raw &&& (1 <<< 25) != 0) ((raw >>> 26).setWidth 6)
  | .R => .R (reg raw 15) (reg raw 20) (reg raw 7)
  | .R_rm => .R_rm (reg raw 15) (reg raw 20) (reg raw 7) ((raw >>> 12).setWidth 3)
  | .R4_rm => .R4_rm (reg raw 15) (reg raw 20) (reg raw 27) (reg raw 7) ((raw >>> 12).setWidth 3)
  | .A => .A (reg raw 15) (reg raw 20) (reg raw 7) (bits raw 25 1 != 0) (bits raw 26 1 != 0)
  | .I => .I (reg raw 15) (reg raw 7) (immI raw instr)
  | .S => .S (reg raw 15) (reg raw 20) (immS raw)
  | .U => .U (reg raw 7) (immU raw)
  | .B => .B (reg raw 15) (reg raw 20) (immB raw)
  | .J => .J (reg raw 7) (immJ raw)
  | .none => .none

/-- `DecodeMask::matches`. -/
def RVInstrDesc.matches (desc : RVInstrDesc F V) (raw : BitVec 32) : Bool :=
  raw &&& desc.mask == desc.key

/-- `MaskDecoder::decode`: the first descriptor that matches. -/
def maskDecode (masks : List (RVInstrDesc F V)) (raw : BitVec 32) : Option (DecodeInstr F V) :=
  (masks.find? (·.matches raw)).map fun desc =>
    { instr := desc.instr, info := decodeInfo raw desc.instr desc.format }

/-- Entries of the generated table, enough for small programs. -/
def programTable : List (RVInstrDesc F V) :=
  [⟨.MRET, .none, 0xffffffff, 0x30200073⟩, ⟨.SRET, .none, 0xffffffff, 0x10200073⟩,
    ⟨.ECALL, .none, 0xffffffff, 0x73⟩, ⟨.ADDI, .I, 0x707f, 0x13⟩, ⟨.LD, .I, 0x707f, 0x3003⟩,
    ⟨.JALR, .I, 0x707f, 0x67⟩, ⟨.CSRRW, .I, 0x707f, 0x1073⟩, ⟨.CSRRS, .I, 0x707f, 0x2073⟩,
    ⟨.AUIPC, .U, 0x7f, 0x17⟩, ⟨.LUI, .U, 0x7f, 0x37⟩, ⟨.JAL, .J, 0x7f, 0x6f⟩]

/-- A machine with RAM and nothing else that runs small programs. -/
def Platform.program : Platform := .ramOnly (maskDecode programTable)

/-- RAM that holds a program from its start and zeroes after it. -/
def Ram.ofProgram (words : List (BitVec 32)) : Ram :=
  { Ram.new with data := fun j => ((words.getD (j / 4) 0) >>> (8 * (j % 4))).setWidth 8 }

/-- A machine just reset, with a program in RAM. -/
def programCpu (words : List (BitVec 32)) : RVCPU .program :=
  .reset _ { ram := .ofProgram words, devices := () } none fun _ => 0

end HereEmu
