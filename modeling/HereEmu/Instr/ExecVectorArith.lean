import HereEmu.Instr.ExecFloat
import HereEmu.Vector.FixedPoint

/-!
# The vector arithmetic instructions

The rows of the mapping, by what they do and where their first operand comes
from, and what each reads and writes of the CPU: the integer registers, `vcsr`
and the vector unit.
-/

namespace HereEmu

/-- A scalar operand: a register, or the five bits in its place. -/
inductive ScalarForm where
  | x | simm | uimm
  deriving DecidableEq

def ScalarForm.value (regFile : RegIdx → WordType) (rs1 : RegIdx) : ScalarForm → WordType
  | x => regFile rs1
  | simm => signExtend (rs1.setWidth 64) 5
  | uimm => rs1.setWidth 64

/-- The `vv` forms name a register group, the `vx` and `vi` forms a scalar. -/
inductive OperandForm where
  | vector
  | scalar (form : ScalarForm)
  deriving DecidableEq

def OperandForm.src (regFile : RegIdx → WordType) (rs1 : RegIdx) : OperandForm → ArithSrc
  | vector => .reg rs1
  | scalar form => .scalar (form.value regFile rs1)

/-- The instructions that write to vector registers and nowhere else. -/
inductive VectorDestInstr where
  | integer (op : IntegerOp) (form : OperandForm)
  | multiplyAdd (op : MultiplyAddOp) (form : OperandForm)
  | widening (op : WideningOp) (ty : WideningTypes) (form : OperandForm)
  | wideningW (op : WideningOp) (signed : Bool) (form : OperandForm)
  | wideningMultiplyAdd (ty : WideningTypes) (form : OperandForm)
  | narrowingShift (op : NarrowingShiftOp) (form : OperandForm)
  | ext (signed : Bool) (factor : Nat)
  | integerMask (op : MaskOp) (form : OperandForm)
  | integerMaskCarry (op : MaskCarryOp) (form : OperandForm)
  | carry (op : CarryOp) (form : OperandForm)
  | bit (op : BitOp)
  | slideUp (form : ScalarForm)
  | slideDown (form : ScalarForm)
  | slide1Up
  | slide1Down
  | gather (form : OperandForm)
  | gatherEi16
  | compress
  | move (form : OperandForm)
  | moveSX
  | wholeRegisterMove (lmul : Nat)
  | beforeFirst (mode : Vector.MaskBeforeFirstMode)
  | iota
  | id
  deriving DecidableEq

inductive VectorInstr where
  | dest (instr : VectorDestInstr)
  | fixedPoint (op : FixedPointOp) (form : OperandForm)
  | narrowingClip (signed : Bool) (form : OperandForm)
  | moveXS
  | cpop
  | first
  deriving DecidableEq

/-- `fixed_point_rounding_mode`, from `vcsr.vxrm`. -/
def FixedPointRoundingMode.ofVcsr (vcsr : WordType) : FixedPointRoundingMode :=
  match ((vcsr >>> 1) &&& 0b11).toNat with
  | 0 => .roundToNearestUp
  | 1 => .roundToNearestEven
  | 2 => .roundDown
  | _ => .roundToOdd

/-- `finish_fixed_point_op`: the flag is bit 0 of `vcsr`. -/
def finishFixedPointOp (saturated : Bool) (vcsr : WordType) : WordType :=
  if saturated then vcsr ||| 1 else vcsr

/-- What an instruction reaches besides `vstart`. -/
structure VectorView where
  regFile : RegIdx → WordType
  vcsr : WordType
  vector : Vector

def illegalIf (c : Prop) [Decidable c] : VArith Unit := if c then throw .illegalInstruction else return ()

namespace VectorDestInstr

def exec (regFile : RegIdx → WordType) (v : Vector) (rs1 rs2 rd : RegIdx) (vm : Bool) (vstart : Nat) :
    VectorDestInstr → VArith Vector
  | integer op form => v.execInteger (form.src regFile rs1) rs2 rd (!vm) vstart op
  | multiplyAdd op form => v.execMultiplyAdd (form.src regFile rs1) rs2 rd (!vm) vstart op
  | widening op ty form => v.execWidening (form.src regFile rs1) rs2 rd (!vm) vstart op ty
  | wideningW op signed form => v.execWideningW (form.src regFile rs1) rs2 rd (!vm) vstart op signed
  | wideningMultiplyAdd ty form =>
    v.execWideningMultiplyAdd (form.src regFile rs1) rs2 rd (!vm) vstart ty
  | narrowingShift op form => v.execNarrowingShift (form.src regFile rs1) rs2 rd (!vm) vstart op
  | ext signed factor => v.execExt rs2 rd (!vm) vstart signed factor
  | integerMask op form => v.execIntegerMask (form.src regFile rs1) rs2 rd (!vm) vstart op
  | integerMaskCarry op form => v.execIntegerMaskCarry (form.src regFile rs1) rs2 rd vstart op
  | carry op form => v.execCarry (form.src regFile rs1) rs2 rd vstart op
  | bit op => v.execBit rs1 rs2 rd (!vm) vstart op
  | slideUp form => do
    illegalIf (form = .x ∧ rd = rs2)
    v.execSlideUp rs2 rd (!vm) vstart (form.value regFile rs1)
  | slideDown form => v.execSlideDown rs2 rd (!vm) vstart (form.value regFile rs1)
  | slide1Up => v.execSlide1Up rs2 rd (!vm) vstart (regFile rs1)
  | slide1Down => v.execSlide1Down rs2 rd (!vm) vstart (regFile rs1)
  | gather form => do
    illegalIf (rd = rs2 ∨ form = .vector ∧ rd = rs1)
    v.execGather (form.src regFile rs1) rs2 rd (!vm) vstart
  | gatherEi16 => do
    illegalIf (rd = rs2 ∨ rd = rs1)
    v.execGatherEi16 rs1 rs2 rd (!vm) vstart
  | compress => do
    illegalIf (vm = false)
    v.execCompress rs1 rs2 rd vstart
  | move form => do
    illegalIf (rs2 ≠ 0)
    v.execMove (form.src regFile rs1) rd vstart
  | moveSX => do
    illegalIf (rs2 ≠ 0)
    return v.execMoveScalarToElement rd vstart (regFile rs1)
  | wholeRegisterMove lmul => do
    illegalIf (rs1.toNat + 1 ≠ lmul)
    v.execWholeRegisterMove rs2 rd vstart lmul
  | beforeFirst mode => v.execBeforeFirst rs2 rd (!vm) vstart mode
  | iota => v.execIota rs2 rd (!vm) vstart
  | id => v.execIndex rd (!vm) vstart

end VectorDestInstr

namespace VectorInstr

def exec (instr : VectorInstr) (info : RVInstrInfo) (vstart : Nat) (s : VectorView) : VArith VectorView :=
  match info with
  | .V rs1 rs2 rd vm _ =>
    let v := s.vector
    let saturating (exec : FixedPointRoundingMode → VArith (Vector × Bool)) : VArith VectorView := do
      let (vector, saturated) ← exec (.ofVcsr s.vcsr)
      return { s with vector, vcsr := finishFixedPointOp saturated s.vcsr }
    match instr with
    | dest instr => do return { s with vector := ← instr.exec s.regFile v rs1 rs2 rd vm vstart }
    | fixedPoint op form => saturating fun round =>
      v.execFixedPoint (form.src s.regFile rs1) rs2 rd (!vm) vstart round op
    | narrowingClip signed form => saturating fun round =>
      v.execNarrowingClip (form.src s.regFile rs1) rs2 rd (!vm) vstart round signed
    | moveXS => do
      illegalIf (rs1 ≠ 0)
      match v.execMoveElementToScalar rs2 vstart with
      | some value => return { s with regFile := writeX s.regFile rd value }
      | none => return s
    | cpop => return { s with regFile := writeX s.regFile rd (v.maskPopcount rs2 (!vm) vstart) }
    | first => return { s with regFile := writeX s.regFile rd (v.maskFirst rs2 (!vm) vstart) }
  | _ => throw (.panic .instrInfo)

/-- The arithmetic as a platform has it. -/
def vectorExec (instr : VectorInstr) (info : RVInstrInfo) (vstart : Nat) (regFile : RegIdx → WordType)
    (vcsr : WordType) (v : Vector) : Option (Bool × (RegIdx → WordType) × WordType × Vector) :=
  match instr.exec info vstart ⟨regFile, vcsr, v⟩ with
  | .ok s => some (true, s.regFile, s.vcsr, s.vector)
  | .error .illegalInstruction => some (false, regFile, vcsr, v)
  | .error (.panic _) => none

end VectorInstr

/-- What the emulator is built with, apart from its float and vector units. -/
structure HerePlatform where
  floats : FloatLib
  stack : Nat
  bus : DeviceBus
  decode : BitVec 32 → Option (DecodeInstr FloatInstr VectorInstr)
  extensionBits : WordType
  zeroed : Option (DecodeInstr FloatInstr VectorInstr)

abbrev HerePlatform.soft (H : HerePlatform) : SoftPlatform :=
  { floats := H.floats, stack := H.stack, bus := H.bus, VectorOp := VectorInstr, decode := H.decode
    extensionBits := H.extensionBits, zeroed := H.zeroed, vectorExec := VectorInstr.vectorExec }

end HereEmu
