import HereEmu.Decoder

/-!
# The compressed decoder

Instructions of 16 bits have formats and a decoder of their own. Their
immediates are scattered over the word; `extract_field!` gathers them range by
range. `Decoder` puts the decoders of both lengths together.
-/

namespace HereEmu

variable {F V : Type}

/-- The formats of 16-bit instructions. -/
inductive CompressedFormat where
  | none | CR | CI | CSS | CIW | CL | CS | CA | CB | CJ
  deriving DecidableEq, Repr

namespace Decode

variable (raw : BitVec 32)

/-- `extract_range`: the bits from `l` to `r`. -/
def extractRange (l r : Nat) : BitVec 32 :=
  (raw >>> l) &&& ((1 <<< (r - l + 1)) - 1)

/-- One item `hi : lo <- src` of `extract_field!`. -/
structure FieldRange where
  dstHigh : Nat
  dstLow : Nat
  srcLow : Nat

def FieldRange.get (f : FieldRange) : BitVec 32 :=
  extractRange raw f.srcLow (f.srcLow + f.dstHigh - f.dstLow) <<< f.dstLow

def extractField (fields : List FieldRange) : BitVec 32 :=
  fields.foldl (fun field f => field ||| f.get raw) 0

/-- The highest destination bit is the sign. -/
def signExtExtract (fields : List FieldRange) : WordType :=
  signExtend ((extractField raw fields).setWidth 64) ((fields.map (·.dstHigh)).foldl max 0 + 1)

def zeroExtExtract (fields : List FieldRange) : WordType :=
  (extractField raw fields).setWidth 64

def cvtShortReg (regIdx : RegIdx) : RegIdx := regIdx + 8

/-- The immediate of the CB format. -/
def immCB : RiscvInstr F V → Rust WordType
  | .C_SRLI | .C_SRAI | .C_ANDI => .ok (signExtExtract raw [⟨5, 5, 12⟩, ⟨4, 0, 2⟩])
  | .C_BEQZ | .C_BNEZ =>
    .ok (signExtExtract raw [⟨8, 8, 12⟩, ⟨4, 3, 10⟩, ⟨7, 6, 5⟩, ⟨2, 1, 3⟩, ⟨5, 5, 2⟩])
  | _ => .error .instrInfo

def immCI : RiscvInstr F V → WordType
  | .C_ADDI16SP => signExtExtract raw [⟨9, 9, 12⟩, ⟨4, 4, 6⟩, ⟨6, 6, 5⟩, ⟨8, 7, 3⟩, ⟨5, 5, 2⟩]
  | .C_LDSP | .C_FLDSP => zeroExtExtract raw [⟨5, 5, 12⟩, ⟨4, 3, 5⟩, ⟨8, 6, 2⟩]
  | .C_LWSP | .C_FLWSP => zeroExtExtract raw [⟨5, 5, 12⟩, ⟨4, 2, 4⟩, ⟨7, 6, 2⟩]
  | .C_LUI => signExtExtract raw [⟨5, 5, 12⟩, ⟨4, 0, 2⟩] <<< 12
  | _ => signExtExtract raw [⟨5, 5, 12⟩, ⟨4, 0, 2⟩]

def immCIW : WordType :=
  zeroExtExtract raw [⟨5, 4, 11⟩, ⟨9, 6, 7⟩, ⟨2, 2, 6⟩, ⟨3, 3, 5⟩]

def targetCJ : WordType :=
  signExtExtract raw [⟨11, 11, 12⟩, ⟨4, 4, 11⟩, ⟨9, 8, 9⟩, ⟨10, 10, 8⟩, ⟨6, 6, 7⟩, ⟨7, 7, 6⟩,
    ⟨3, 1, 3⟩, ⟨5, 5, 2⟩]

/-- The offset of the CL and CS formats. -/
def immCL : RiscvInstr F V → Rust WordType
  | .C_FLD | .C_LD | .C_FSD | .C_SD => .ok (zeroExtExtract raw [⟨5, 3, 10⟩, ⟨7, 6, 5⟩])
  | .C_LW | .C_FLW | .C_SW | .C_FSW =>
    .ok (zeroExtExtract raw [⟨5, 3, 10⟩, ⟨2, 2, 6⟩, ⟨6, 6, 5⟩])
  | _ => .error .instrInfo

def immCSS : RiscvInstr F V → Rust WordType
  | .C_FSDSP | .C_SDSP => .ok (zeroExtExtract raw [⟨5, 3, 10⟩, ⟨8, 6, 7⟩])
  | .C_SWSP | .C_FSWSP => .ok (zeroExtExtract raw [⟨5, 2, 9⟩, ⟨7, 6, 7⟩])
  | _ => .error .instrInfo

end Decode

open Decode in
/-- A descriptor whose instruction is not of its format is a panic. -/
def decodeCompressedInfo (raw : BitVec 32) (instr : RiscvInstr F V) :
    CompressedFormat → Rust RVInstrInfo
  | .CA => .ok (.CA rdRs1Short rdRs2Short)
  | .CB => return .CB rdRs1Short (← immCB raw instr)
  | .CI => .ok (.CI rdRs1 (immCI raw instr))
  | .CIW => .ok (.CIW rdRs2Short (immCIW raw))
  | .CJ => .ok (.CJ (targetCJ raw))
  | .CL => return .CL rdRs2Short rdRs1Short (← immCL raw instr)
  | .CS => return .CS rdRs1Short rdRs2Short (← immCL raw instr)
  | .CSS => return .CSS rs2 (← immCSS raw instr)
  | .CR => .ok (.CR rdRs1 rs2)
  | .none => .ok .none
where
  rs2 : RegIdx := (Decode.extractRange raw 2 6).setWidth 5
  rdRs1 : RegIdx := (Decode.extractRange raw 7 11).setWidth 5
  rdRs2Short : RegIdx := cvtShortReg ((Decode.extractRange raw 2 4).setWidth 5)
  rdRs1Short : RegIdx := cvtShortReg ((Decode.extractRange raw 7 9).setWidth 5)

/-- A descriptor of an instruction of 16 bits. -/
structure CompressedDesc (F V : Type) where
  instr : RiscvInstr F V
  format : CompressedFormat
  mask : BitVec 32
  key : BitVec 32

/-- `CompressedDecoder::decode`: the first descriptor that matches. -/
def compressedDecode (masks : List (CompressedDesc F V)) (raw : BitVec 32) :
    Rust (Option (DecodeInstr F V)) :=
  match masks.find? fun desc => raw &&& desc.mask == desc.key with
  | none => .ok none
  | some desc => do
    return some { instr := desc.instr, info := ← decodeCompressedInfo raw desc.instr desc.format }

/-- The decoders of an instruction set. The table by opcode, `funct3` and
`funct7` is whatever `recognize_instr` finds in it. -/
structure Decoder (F V : Type) where
  compressDecoder : List (CompressedDesc F V)
  recognizeInstr : BitVec 32 → Option (RiscvInstr F V × InstrFormat)
  maskDecoder : List (RVInstrDesc F V)

def Decoder.decode (dec : Decoder F V) (raw : BitVec 32) : Rust (Option (DecodeInstr F V)) :=
  if raw &&& 0b11 == 0b11 then
    match dec.recognizeInstr raw with
    | some (instr, format) => .ok (some { instr, info := decodeInfo raw instr format })
    | none => .ok (maskDecode dec.maskDecoder raw)
  else compressedDecode dec.compressDecoder raw

-- c.j by -2, and c.beqz of x8 by 8
example : decodeCompressedInfo 0xbffd (.C_J : RiscvInstr F V) .CJ = .ok (.CJ (-2)) := rfl
example : decodeCompressedInfo 0xc401 (.C_BEQZ : RiscvInstr F V) .CB = .ok (.CB 8 8) := rfl

end HereEmu
