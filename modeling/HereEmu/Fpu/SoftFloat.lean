import HereEmu.Instr.Types
import Mathlib.Logic.Function.Basic

/-!
# The soft float unit

`SoftFPU` holds the float registers and the flags the last operation left. The
arithmetic is that of `rustc_apfloat`, and for the square root that of the host:
both are taken as they are, as the operations of a `FloatLib`.

A register holds a single or a double and is read as either. The flags of an
operation go to `lastStatus`, which the operations that raise none leave alone.
-/

namespace HereEmu

inductive Round where
  | nearestTiesToEven | towardPositive | towardNegative | towardZero | nearestTiesToAway
  deriving DecidableEq, Repr

inductive Classification where
  | negativeInfinity | normalNegative | subnormalNegative | negativeZero | positiveZero
  | subnormalPositive | normalPositive | positiveInfinity | signalingNaN | quietNaN
  deriving DecidableEq, Repr

/-- The discriminants of the enumeration. -/
def Classification.bits : Classification → WordType
  | negativeInfinity => 0x1
  | normalNegative => 0x2
  | subnormalNegative => 0x4
  | negativeZero => 0x8
  | positiveZero => 0x10
  | subnormalPositive => 0x20
  | normalPositive => 0x40
  | positiveInfinity => 0x80
  | signalingNaN => 0x100
  | quietNaN => 0x200

/-! ## The float library -/

/-- `rustc_apfloat::Status`, a set of flags. -/
abbrev Status := BitVec 8

namespace Status

def OK : Status := 0x00
def INVALID_OP : Status := 0x01
def INEXACT : Status := 0x10

end Status

structure StatusAnd (α : Type) where
  status : Status
  value : α

/-- The operations on one float type: those of `rustc_apfloat::Float` the unit
uses, and the host's own on the same bits. -/
structure FloatOps (F : Type) where
  fromBits : BitVec 128 → F
  toBits : F → BitVec 128
  /-- `qnan(None)`, the canonical quiet NaN. -/
  qnan : F
  isNan : F → Bool
  isSignaling : F → Bool
  isNegative : F → Bool
  isZero : F → Bool
  isInfinite : F → Bool
  isNormal : F → Bool
  isDenormal : F → Bool
  neg : F → F
  abs : F → F
  copySign : F → F → F
  min : F → F → F
  max : F → F → F
  eq : F → F → Bool
  lt : F → F → Bool
  le : F → F → Bool
  addR : F → F → Round → StatusAnd F
  subR : F → F → Round → StatusAnd F
  mulR : F → F → Round → StatusAnd F
  divR : F → F → Round → StatusAnd F
  mulAddR : F → F → F → Round → StatusAnd F
  fromU128R : BitVec 128 → Round → StatusAnd F
  fromI128R : BitVec 128 → Round → StatusAnd F
  /-- To an unsigned integer of so many bits. -/
  toU128R : F → Nat → Round → StatusAnd (BitVec 128)
  toI128R : F → Nat → Round → StatusAnd (BitVec 128)
  hostSqrt : F → F
  hostNeg : F → F
  hostMulAdd : F → F → F → F
  /-- The comparison `!= 0.0` of the host. -/
  hostNonzero : F → Bool

/-- The two float types, `Single` and `Double`, with the conversions between them. -/
structure FloatLib where
  Float : FloatFmt → Type
  ops : (f : FloatFmt) → FloatOps (Float f)
  convertR : (f t : FloatFmt) → Float f → Round → StatusAnd (Float t)

variable {L : FloatLib} {F : Type} (o : FloatOps F)

/-! ## Operations -/

/-- The operations of two operands that round. -/
inductive BinaryOpR where
  | add | sub | mul | div
  deriving DecidableEq, Repr

def BinaryOpR.apply : BinaryOpR → F → F → Round → StatusAnd F
  | add => o.addR
  | sub => o.subR
  | mul => o.mulR
  | div => o.divR

inductive TernaryOpR where
  | mulAdd | mulSub | negMulAdd | negMulSub
  deriving DecidableEq, Repr

def TernaryOpR.apply : TernaryOpR → F → F → F → Round → StatusAnd F
  | mulAdd, a, b, c, round => o.mulAddR a b c round
  | mulSub, a, b, c, round => o.mulAddR a b (o.neg c) round
  | negMulAdd, a, b, c, round => o.mulAddR (o.neg a) b (o.neg c) round
  | negMulSub, a, b, c, round => o.mulAddR (o.neg a) b c round

inductive SignInject where
  | copy | neg | xor
  deriving DecidableEq, Repr

def SignInject.apply : SignInject → F → F → F
  | copy, a, b => o.copySign a b
  | neg, a, b => if o.isNegative a = o.isNegative b then o.neg a else a
  | xor, a, b => if o.isNegative a ≠ o.isNegative b then o.neg (o.abs a) else o.abs a

inductive CmpOp where
  | eq | lt | le
  deriving DecidableEq, Repr

/-- Equality is a quiet comparison, the other two are signaling. -/
def CmpOp.apply : CmpOp → F → F → StatusAnd Bool
  | eq, a, b =>
    if o.isSignaling a || o.isSignaling b then ⟨.INVALID_OP, false⟩ else ⟨.OK, o.eq a b⟩
  | lt, a, b => if o.isNan a || o.isNan b then ⟨.INVALID_OP, false⟩ else ⟨.OK, o.lt a b⟩
  | le, a, b => if o.isNan a || o.isNan b then ⟨.INVALID_OP, false⟩ else ⟨.OK, o.le a b⟩

/-- The class of a float. A float that is in none of them is a branch the source
declares unreachable. -/
def classify (x : F) : Option Classification :=
  let bySign (negative positive : Classification) := if o.isNegative x then negative else positive
  if o.isNormal x then some (bySign .normalNegative .normalPositive)
  else if o.isDenormal x then some (bySign .subnormalNegative .subnormalPositive)
  else if o.isZero x then some (bySign .negativeZero .positiveZero)
  else if o.isInfinite x then some (bySign .negativeInfinity .positiveInfinity)
  else if o.isNan x then some (if o.isSignaling x then .signalingNaN else .quietNaN)
  else none

/-! ## Registers -/

inductive APFloat (L : FloatLib) where
  | single (s : L.Float .f32)
  | double (d : L.Float .f64)

namespace APFloat

/-- The upper half, which is all ones in a boxed single. -/
def boxMask : WordType := 0xFFFFFFFF00000000

/-- `From<APFloat>`: the register as a float of the type asked for. A double that
is no boxed single reads as the canonical NaN. -/
def into : (f : FloatFmt) → APFloat L → L.Float f
  | .f32, single s => s
  | .f32, double d =>
    let bits := (L.ops .f64).toBits d
    if bits.setWidth 64 &&& boxMask ≠ boxMask then (L.ops .f32).qnan
    else (L.ops .f32).fromBits bits
  | .f64, single s =>
    (L.ops .f64).fromBits ((((L.ops .f32).toBits s).setWidth 64 ||| boxMask).setWidth 128)
  | .f64, double d => d

/-- `Into<APFloat>`. -/
def ofFloat : (f : FloatFmt) → L.Float f → APFloat L
  | .f32, s => single s
  | .f64, d => double d

end APFloat

structure SoftFPU (L : FloatLib) where
  lastStatus : Status
  regFile : RegIdx → APFloat L
  unifyCnan : Bool

namespace SoftFPU

variable (fpu : SoftFPU L) (f : FloatFmt)

/-- `SoftFPU::from`. -/
def new (unifyCnan : Bool) : SoftFPU L :=
  { lastStatus := .OK
    regFile := fun _ => .single ((L.ops .f32).fromBits 0)
    unifyCnan }

/-- A register as an operand. -/
def operand (index : RegIdx) : L.Float f := (fpu.regFile index).into f

def store (index : RegIdx) (value : L.Float f) : SoftFPU L :=
  { fpu with regFile := Function.update fpu.regFile index (.ofFloat f value) }

/-- `save_and_unwrap`, and the assignments to `last_status` in its place. -/
def saveStatus (status : Status) : SoftFPU L := { fpu with lastStatus := status }

def loadRaw (index : RegIdx) : WordType :=
  ((L.ops .f64).toBits (fpu.operand .f64 index)).setWidth 64

def storeRaw (index : RegIdx) (value : WordType) : SoftFPU L :=
  fpu.store f index ((L.ops f).fromBits (value.setWidth 128))

/-- `load`: a register as a float of the host, which is given by its bits. -/
def load (index : RegIdx) : BitVec f.width.bits :=
  ((L.ops f).toBits (fpu.operand f index)).setWidth _

/-- `store` of a float of the host. -/
def storeHost (index : RegIdx) (value : BitVec f.width.bits) : SoftFPU L :=
  fpu.store f index ((L.ops f).fromBits (value.setWidth 128))

/-- The NaN a result is replaced by, if NaNs are unified. -/
def unify (x : L.Float f) : L.Float f :=
  if fpu.unifyCnan && (L.ops f).isNan x then (L.ops f).qnan else x

/-! ### Conversions -/

def cvtUnsignedAndStore (index : RegIdx) (value : BitVec 128)
    (round : Round) : SoftFPU L :=
  let rst := (L.ops f).fromU128R value round
  (fpu.saveStatus rst.status).store f index rst.value

def cvtSignedAndStore (index : RegIdx) (value : BitVec 128)
    (round : Round) : SoftFPU L :=
  let rst := (L.ops f).fromI128R value round
  (fpu.saveStatus rst.status).store f index rst.value

/-- The conversions to integers. A NaN becomes the largest value of the type,
and the status is left as it was. -/
def getAndCvt (toInt : {f : FloatFmt} → FloatOps (L.Float f) → L.Float f → Nat → Round →
      StatusAnd (BitVec 128))
    (max : BitVec 128) (fpu : SoftFPU L) (f : FloatFmt) (u : Width) (index : RegIdx)
    (round : Round) : BitVec 128 × SoftFPU L :=
  let x := fpu.operand f index
  if (L.ops f).isNan x then (max, fpu)
  else
    let rst := toInt (L.ops f) x u.bits round
    (rst.value, fpu.saveStatus rst.status)

def getAndCvtUnsigned (u : Width) (index : RegIdx) (round : Round) : BitVec 128 × SoftFPU L :=
  getAndCvt (fun o => o.toU128R) (BitVec.ofNat 128 (2 ^ u.bits - 1)) fpu f u index round

def getAndCvtSigned (u : Width) (index : RegIdx) (round : Round) : BitVec 128 × SoftFPU L :=
  getAndCvt (fun o => o.toI128R) (BitVec.ofNat 128 (2 ^ (u.bits - 1) - 1)) fpu f u index round

def cvtFloatAndStore (f t : FloatFmt) (rd rs : RegIdx) (round : Round) : SoftFPU L :=
  let rst := L.convertR f t (fpu.operand f rs) round
  (fpu.saveStatus rst.status).store t rd (fpu.unify t rst.value)

/-! ### Comparisons -/

def classify (fpu : SoftFPU L) (f : FloatFmt) (rs : RegIdx) : Option Classification :=
  HereEmu.classify (L.ops f) (fpu.operand f rs)

def compare (fpu : SoftFPU L) (op : CmpOp) (f : FloatFmt) (rs1 rs2 : RegIdx) : Bool × SoftFPU L :=
  let rst := op.apply (L.ops f) (fpu.operand f rs1) (fpu.operand f rs2)
  (rst.value, fpu.saveStatus rst.status)

/-- `min_num` and `max_num`. Of two zeros of different sign the negative one is
the smaller. -/
def minMaxNum (pick : {f : FloatFmt} → FloatOps (L.Float f) → L.Float f → L.Float f → L.Float f)
    (wantNegative : Bool) (fpu : SoftFPU L) (f : FloatFmt) (rs1 rs2 rd : RegIdx) : SoftFPU L :=
  let o := L.ops f
  let a := fpu.operand f rs1
  let b := fpu.operand f rs2
  if o.isSignaling a || o.isSignaling b then
    let fpu := fpu.saveStatus .INVALID_OP
    if fpu.unifyCnan && o.isNan a && o.isNan b then fpu.store f rd o.qnan
    else fpu.store f rd (pick o a b)
  else
    let fpu := fpu.saveStatus .OK
    if fpu.unifyCnan && o.isNan a && o.isNan b then fpu.store f rd o.qnan
    else if o.isZero a && o.isZero b && o.isNegative a != o.isNegative b then
      fpu.store f rd (if o.isNegative a = wantNegative then a else b)
    else fpu.store f rd (pick o a b)

def minNum (rs1 rs2 rd : RegIdx) : SoftFPU L :=
  minMaxNum (fun o => o.min) true fpu f rs1 rs2 rd

def maxNum (rs1 rs2 rd : RegIdx) : SoftFPU L :=
  minMaxNum (fun o => o.max) false fpu f rs1 rs2 rd

/-! ### Arithmetic -/

/-- The flags of a square root: an invalid operand, or a root whose square, less
the operand, is not zero. -/
def sqrtStatus (o : FloatOps F) (x root : F) : Status :=
  let invalid := if o.isNan x then o.isSignaling x else o.isNegative x && !o.isZero x
  if invalid then .INVALID_OP
  else if !o.isInfinite root && !o.isNan root && !o.isZero root &&
      o.hostNonzero (o.hostMulAdd root root (o.hostNeg x)) then .INEXACT
  else .OK

/-- The rounding mode is not used. -/
def sqrt (rs rd : RegIdx) (_round : Round) : SoftFPU L :=
  let x := fpu.operand f rs
  let root := (L.ops f).hostSqrt x
  (fpu.saveStatus (sqrtStatus (L.ops f) x root)).store f rd (fpu.unify f root)

def execBinaryIgnoreCnan (fpu : SoftFPU L) (op : SignInject) (f : FloatFmt) (rs1 rs2 rd : RegIdx) :
    SoftFPU L :=
  fpu.store f rd (op.apply (L.ops f) (fpu.operand f rs1) (fpu.operand f rs2))

def execBinaryR (fpu : SoftFPU L) (op : BinaryOpR) (f : FloatFmt) (rs1 rs2 rd : RegIdx)
    (round : Round) : SoftFPU L :=
  let rst := op.apply (L.ops f) (fpu.operand f rs1) (fpu.operand f rs2) round
  (fpu.saveStatus rst.status).store f rd (fpu.unify f rst.value)

def execTernaryR (fpu : SoftFPU L) (op : TernaryOpR) (f : FloatFmt) (rs1 rs2 rs3 rd : RegIdx)
    (round : Round) : SoftFPU L :=
  let rst := op.apply (L.ops f) (fpu.operand f rs1) (fpu.operand f rs2) (fpu.operand f rs3) round
  (fpu.saveStatus rst.status).store f rd (fpu.unify f rst.value)

end SoftFPU

end HereEmu
