import HereEmu.Basic

/-!
# Decoded instructions

`RVInstrInfo` carries the operands of an instruction, with
immediates already shifted and sign-extended by the decoder, and the operation
types say what its function computes: one for each type the generic functions
of the source are instantiated at.

The arithmetic of the F and D extensions and of the vector unit is left to the
platform, so those instructions are named by parameters. Their memory accesses
and the configuration instructions of the vector unit are not.
-/

namespace HereEmu

/-- The number of a register. -/
abbrev RegIdx := BitVec 5

inductive RVInstrInfo where
  | none
  | R (rs1 rs2 rd : RegIdx)
  | R_rm (rs1 rs2 rd : RegIdx) (rm : BitVec 3)
  | R4_rm (rs1 rs2 rs3 rd : RegIdx) (rm : BitVec 3)
  | I (rs1 rd : RegIdx) (imm : WordType)
  | S (rs1 rs2 : RegIdx) (imm : WordType)
  | B (rs1 rs2 : RegIdx) (imm : WordType)
  | U (rd : RegIdx) (imm : WordType)
  | J (rd : RegIdx) (imm : WordType)
  | A (rs1 rs2 rd : RegIdx) (rl aq : Bool)
  | V (rs1 rs2 rd : RegIdx) (vm : Bool) (func6 : BitVec 6)
  | CR (rd_rs1 rs2 : RegIdx)
  | CI (rd_rs1 : RegIdx) (imm : WordType)
  | CSS (rs2 : RegIdx) (imm : WordType)
  | CIW (rd : RegIdx) (imm : WordType)
  | CL (rd rs1 : RegIdx) (imm : WordType)
  | CS (rs1 rs2 : RegIdx) (imm : WordType)
  | CA (rd_rs1 rs2 : RegIdx)
  | CB (rd_rs1 : RegIdx) (imm : WordType)
  | CJ (target : WordType)
  deriving DecidableEq, Repr

/-! ## Integer operations -/

/-- The `Exec…` types that compute a word from two. -/
inductive ArithOp where
  | add | addw | sub | subw
  | mulLow | mulHighSigned | mulHighUnsigned | mulHighSignedUnsigned
  | divSigned | divUnsigned | remSigned | remUnsigned
  | mulw | divw | divuw | remw | remuw
  | sll | srl | sra | sllw | srlw | sraw
  | signedLess | unsignedLess | and | or | xor
  deriving DecidableEq, Repr

namespace ArithOp

/-- The low 32 bits, as the `W` forms take their operands. -/
def low (v : WordType) : BitVec 32 := v.setWidth 32

def signExtendU32 (v : BitVec 32) : WordType := signExtend (v.setWidth 64) 32

def ofBool (b : Bool) : WordType := if b then 1 else 0

def exec : ArithOp → WordType → WordType → WordType
  | add, a, b => a + b
  | addw, a, b => signExtendU32 (low a + low b)
  | sub, a, b => a - b
  | subw, a, b => signExtendU32 (low a - low b)
  | mulLow, a, b => a * b
  | mulHighSigned, a, b => BitVec.ofInt 64 (a.toInt * b.toInt / 2 ^ 64)
  | mulHighUnsigned, a, b => BitVec.ofNat 64 (a.toNat * b.toNat / 2 ^ 64)
  | mulHighSignedUnsigned, a, b => BitVec.ofInt 64 (a.toInt * b.toNat / 2 ^ 64)
  | divSigned, a, b => if b = 0 then BitVec.allOnes 64 else BitVec.ofInt 64 (a.toInt.tdiv b.toInt)
  | divUnsigned, a, b => if b = 0 then BitVec.allOnes 64 else a / b
  | remSigned, a, b => if b = 0 then a else BitVec.ofInt 64 (a.toInt.tmod b.toInt)
  | remUnsigned, a, b => if b = 0 then a else a % b
  | mulw, a, b => signExtendU32 (low a * low b)
  | divw, a, b =>
    if low b = 0 then BitVec.allOnes 64
    else signExtendU32 (BitVec.ofInt 32 ((low a).toInt.tdiv (low b).toInt))
  | divuw, a, b => if low b = 0 then BitVec.allOnes 64 else signExtendU32 (low a / low b)
  | remw, a, b =>
    if low b = 0 then signExtendU32 (low a)
    else signExtendU32 (BitVec.ofInt 32 ((low a).toInt.tmod (low b).toInt))
  | remuw, a, b => if low b = 0 then signExtendU32 (low a) else signExtendU32 (low a % low b)
  | sll, a, b => a <<< (b &&& 63).toNat
  | srl, a, b => a >>> (b &&& 63).toNat
  | sra, a, b => a.sshiftRight (b &&& 63).toNat
  | sllw, a, b => signExtendU32 (low a <<< (b &&& 31).toNat)
  | srlw, a, b => signExtendU32 (low a >>> (b &&& 31).toNat)
  | sraw, a, b => signExtendU32 ((low a).sshiftRight (b &&& 31).toNat)
  | signedLess, a, b => ofBool (a.slt b)
  | unsignedLess, a, b => ofBool (a.ult b)
  | and, a, b => a &&& b
  | or, a, b => a ||| b
  | xor, a, b => a ^^^ b

end ArithOp

/-- The `Exec…` types that decide a branch. -/
inductive BranchOp where
  | equal | notEqual | signedLess | signedGreatEqual | unsignedLess | unsignedGreatEqual
  deriving DecidableEq, Repr

def BranchOp.exec : BranchOp → WordType → WordType → Bool
  | equal, a, b => a == b
  | notEqual, a, b => a != b
  | signedLess, a, b => a.slt b
  | signedGreatEqual, a, b => !a.slt b
  | unsignedLess, a, b => a.ult b
  | unsignedGreatEqual, a, b => !a.ult b

/-- The `ExecAmo…` types. -/
inductive AmoOp where
  | add | and | or | xor | swap | max | min | maxU | minU
  deriving DecidableEq, Repr

/-- The new value of the memory word, at the width of the access. -/
def AmoOp.exec {n : Nat} : AmoOp → BitVec n → BitVec n → BitVec n
  | add, a, b => a + b
  | and, a, b => a &&& b
  | or, a, b => a ||| b
  | xor, a, b => a ^^^ b
  | swap, _, b => b
  | max, a, b => if a.slt b then b else a
  | min, a, b => if b.slt a then b else a
  | maxU, a, b => if a.ult b then b else a
  | minU, a, b => if b.ult a then b else a

/-! ## Vector element widths -/

inductive Vsew where
  | E8 | E16 | E32 | E64
  deriving DecidableEq, Repr

namespace Vsew

def width : Vsew → Width
  | E8 => .u8
  | E16 => .u16
  | E32 => .u32
  | E64 => .u64

def intoByteWidth (s : Vsew) : Nat := s.width.bytes

end Vsew

/-- The vector loads and stores. Those the emulator does not implement panic. -/
inductive VectorMemOp where
  | unitStrideLoad (eew : Vsew)
  | constantStrideLoad (eew : Vsew)
  | indexedOrderedLoad (eew : Vsew)
  | wholeRegisterLoad
  | maskLoad
  | unitStrideStore (eew : Vsew)
  | constantStrideStore (eew : Vsew)
  | indexedOrderedStore (eew : Vsew)
  | wholeRegisterStore
  | maskStore
  | unimplemented
  deriving DecidableEq, Repr

inductive VectorConfigOp where
  | vsetvl | vsetvli | vsetivli
  deriving DecidableEq, Repr

/-- The two float formats, by the width of a memory access. -/
inductive FloatFmt where
  | f32 | f64
  deriving DecidableEq, Repr

def FloatFmt.width : FloatFmt → Width
  | f32 => .u32
  | f64 => .u64

end HereEmu
