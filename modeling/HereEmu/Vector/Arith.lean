import HereEmu.Instr.ExecTrait
import HereEmu.Vector.Unit

/-!
# Vector arithmetic on integers

Every instruction copies its sources and its mask before it writes, so what an
element gets is a function of the registers as they were. A slice is such a
copy, read by index; the assertions on equal element widths hold by its type.
The functions of one shape are one function of an operand, which is a register
group or a scalar.

The registers are packed as the host packs them, lowest byte first. The chunks
of 32 bits the mask logic goes through are not told apart from their bits.
-/

namespace HereEmu

open ExecTrait List

/-- How an instruction ends that does not complete. It has written nothing then. -/
inductive VectorFault where
  | illegalInstruction
  | panic (site : PanicSite)
  deriving DecidableEq

abbrev VArith (α : Type) : Type := Except VectorFault α

def VArith.ofRust {α : Type} (x : Rust α) : VArith α := x.mapError .panic

/-! ## Groups -/

/-- `Vsew::from_byte_width`. -/
def Width.fromByteWidth : Nat → Option Width
  | 1 => some .u8
  | 2 => some .u16
  | 4 => some .u32
  | 8 => some .u64
  | _ => none

namespace Vlmul

def lmulRatio : Vlmul → Nat × Nat
  | M1 => (1, 1)
  | M2 => (2, 1)
  | M4 => (4, 1)
  | M8 => (8, 1)
  | Mf2 => (1, 2)
  | Mf4 => (1, 4)
  | Mf8 => (1, 8)

def physicalLmulFromRatio (numerator denominator : Nat) : VArith Nat :=
  let physicalLmul := max ((numerator + denominator - 1) / denominator) 1
  if 8 < physicalLmul then throw .illegalInstruction else return physicalLmul

def gatherEi16IndexLmul (vlmul : Vlmul) (sew : Nat) : VArith Nat :=
  physicalLmulFromRatio (vlmul.lmulRatio.1 * 2) (vlmul.lmulRatio.2 * sew)

def narrowingSourceLmul (vlmul : Vlmul) : VArith Nat :=
  physicalLmulFromRatio (vlmul.lmulRatio.1 * 2) vlmul.lmulRatio.2

end Vlmul

def vectorRegisterGroupOverlaps (lhs : RegIdx) (lhsLmul : Nat) (rhs : RegIdx) (rhsLmul : Nat) : Bool :=
  decide (lhs.toNat < rhs.toNat + rhsLmul) && decide (rhs.toNat < lhs.toNat + lhsLmul)

/-- The elements of a copied group; past its end there are none. -/
abbrev Slice (w : Width) : Type := Nat → Option (BitVec w.bits)

def Slice.get {w : Width} (s : Slice w) (index : Nat) : VArith (BitVec w.bits) :=
  match s index with
  | some x => return x
  | none => throw (.panic .outOfBounds)

namespace Vector

variable (v : Vector)

/-- `get_ref` and `get_mut` refuse a register that starts no group. -/
def checkGroup (lmul : Nat) (reg : RegIdx) : VArith Unit :=
  if groupLegal lmul reg then return () else throw .illegalInstruction

def place (reg : RegIdx) (w : Width) (index : Nat) : Nat := reg.toNat * VLEN_BYTE + index * w.bytes

def element (w : Width) (reg : RegIdx) (index : Nat) : BitVec w.bits :=
  Lib.loadLE v.vectorRegfile (place reg w index) w.bytes

def putElement (w : Width) (reg : RegIdx) (index : Nat) (x : BitVec w.bits) : Vector :=
  { v with vectorRegfile := Lib.storeLE v.vectorRegfile (place reg w index) w.bytes x }

def sliceLen (lmul : Nat) (w : Width) : Nat := lmul * VLEN_BYTE / w.bytes

/-- `as_slice` of a copy of the group. -/
def slice (w : Width) (lmul : Nat) (reg : RegIdx) : Slice w := fun index =>
  if index < sliceLen lmul w then some (v.element w reg index) else none

def maskBit (reg : RegIdx) (index : Nat) : Bool :=
  (v.vectorRegfile (reg.toNat * VLEN_BYTE + index / 8)).getLsbD (index % 8)

def readMaskBit (reg : RegIdx) (index : Nat) : VArith Bool :=
  if index / 8 < VLEN_BYTE then return v.maskBit reg index else throw (.panic .outOfBounds)

def putMaskBit (reg : RegIdx) (index : Nat) (value : Bool) : Vector :=
  let offset := reg.toNat * VLEN_BYTE + index / 8
  let byte := v.vectorRegfile offset
  let bit := 1#8 <<< (index % 8)
  { v with vectorRegfile :=
      Function.update v.vectorRegfile offset (if value then byte ||| bit else byte &&& ~~~bit) }

end Vector

/-! ## Masks -/

/-- A mask for elements from `start` on; those below are done already. -/
structure ArithMask extends VecOpMask where
  start : Nat

namespace ArithMask

variable (m : ArithMask)

def newWithStart (v : Vector) (enableMask : Bool) (start : Nat) : ArithMask :=
  { VecOpMask.new v 1 enableMask with start }

def isBodyIndex (index : Nat) : Bool := decide (index < m.length)

def isActiveBody (index : Nat) : Bool :=
  decide (m.start ≤ index) && m.shouldAccess index

def writeEnd (capacity : Nat) : Nat :=
  if m.tailAgnostic then capacity else min m.length capacity

def maskValue {α : Type} [Inhabited α] (m : ArithMask) (value : α) (index : Nat) : Option α :=
  if index < m.start then none
  else if m.length ≤ index then if m.tailAgnostic then some default else none
  else if m.bit index then some value
  else if m.maskAgnostic then some default
  else none

def elementLoad {w : Width} (m : ArithMask) (vd : RegIdx) (index : Nat) (value : BitVec w.bits)
    (v : Vector) : Vector :=
  match m.maskValue value index with
  | some x => v.putElement w vd index x
  | none => v

def maskBitLoad (vd : RegIdx) (index : Nat) (value : Bool) (v : Vector) : VArith Vector :=
  match m.maskValue value index with
  | some b => if index / 8 < VLEN_BYTE then return v.putMaskBit vd index b else throw (.panic .outOfBounds)
  | none => return v

/-- The walk over elements of the destination. -/
def loadElements {w : Width} (m : ArithMask) (vd : RegIdx) (indices : List Nat)
    (value : Nat → VArith (BitVec w.bits)) (v : Vector) : VArith Vector :=
  indices.foldlM (fun v index => return m.elementLoad vd index (← value index) v) v

/-- The walk over bits of the destination. -/
def loadMaskBits (vd : RegIdx) (indices : List Nat) (value : Nat → VArith Bool)
    (v : Vector) : VArith Vector :=
  indices.foldlM (fun v index => do m.maskBitLoad vd index (← value index) v) v

end ArithMask

/-! ## Operations on elements -/

section Operations

variable {n m : Nat}

inductive IntegerOp where
  | add | sub | revSub | and | or | xor | sll | srl | sra | max | maxu | min | minu
  | mul | mulh | mulhu | mulhsu | div | divu | rem | remu
  deriving DecidableEq

def IntegerOp.exec : IntegerOp → BitVec n → BitVec n → Rust (BitVec n)
  | add, a, b => return a + b
  | sub, a, b => return a - b
  | revSub, a, b => return b - a
  | and, a, b => return a &&& b
  | or, a, b => return a ||| b
  | xor, a, b => return a ^^^ b
  | sll, a, b => ExecTrait.sll a b
  | srl, a, b => ExecTrait.srl a b
  | sra, a, b => ExecTrait.sra a b
  | max, a, b => return if ← signedLess b a then a else b
  | maxu, a, b => return if a.ult b then b else a
  | min, a, b => return if ← signedLess a b then a else b
  | minu, a, b => return if b.ult a then b else a
  | mul, a, b => return a * b
  | mulh, a, b => mulHighSigned a b
  | mulhu, a, b => mulHighUnsigned a b
  | mulhsu, a, b => mulHighSignedUnsigned a b
  | div, a, b => divSigned a b
  | divu, a, b => divUnsigned a b
  | rem, a, b => remSigned a b
  | remu, a, b => remUnsigned a b

inductive MultiplyAddOp where
  | macc | nmsac | madd | nmsub
  deriving DecidableEq

def MultiplyAddOp.exec : MultiplyAddOp → (vs2 vs1 vd : BitVec n) → BitVec n
  | macc, vs2, vs1, vd => vs1 * vs2 + vd
  | nmsac, vs2, vs1, vd => -(vs1 * vs2) + vd
  | madd, vs2, vs1, vd => vs1 * vd + vs2
  | nmsub, vs2, vs1, vd => -(vs1 * vd) + vs2

/-- The types of the two sources of a widening operation: `i8` to `i32` if set. -/
structure WideningTypes where
  src1 : Bool
  src2 : Bool
  deriving DecidableEq

namespace WideningTypes

/-! The variants of the macros. -/

def signed : WideningTypes := ⟨true, true⟩

def unsigned : WideningTypes := ⟨false, false⟩

def signedUnsigned : WideningTypes := ⟨false, true⟩

def unsignedSigned : WideningTypes := ⟨true, false⟩

end WideningTypes

/-- `Dst::from`. -/
def widen (signed : Bool) (m : Nat) (x : BitVec n) : BitVec m :=
  if signed then x.signExtend m else x.setWidth m

inductive WideningOp where
  | add | sub | mul
  deriving DecidableEq

def WideningOp.exec : WideningOp → BitVec n → BitVec n → BitVec n
  | add, a, b => a + b
  | sub, a, b => a - b
  | mul, a, b => a * b

inductive NarrowingShiftOp where
  | nsrl | nsra
  deriving DecidableEq

/-- The amount is masked by the width of its own type. -/
def NarrowingShiftOp.exec : NarrowingShiftOp → BitVec m → BitVec n → Rust (BitVec n)
  | nsrl, src, shift => return (← checkedShr src (shiftAmount shift)).setWidth n
  | nsra, src, shift => return fromSignedI128 (← checkedSar (← asSignedI128 src) (shiftAmount shift))

inductive MaskOp where
  | madc | msbc | mseq | msne | msltu | mslt | msleu | msle | msgtu | msgt
  deriving DecidableEq

def MaskOp.exec : MaskOp → BitVec n → BitVec n → Rust Bool
  | madc, a, b => return (a.setWidth 128 + b.setWidth 128) >>> n != 0
  | msbc, a, b => return a.ult b
  | mseq, a, b => return a == b
  | msne, a, b => return a != b
  | msltu, a, b => return a.ult b
  | mslt, a, b => signedLess a b
  | msleu, a, b => return a.ule b
  | msle, a, b => return (← asSignedI128 a).sle (← asSignedI128 b)
  -- the greater-than types ask whether the second operand is the greater one
  | msgtu, a, b => return a.ult b
  | msgt, a, b => signedLess a b

inductive CarryOp where
  | adc | sbc | merge
  deriving DecidableEq

def CarryOp.exec : CarryOp → (vs2 vs1 : BitVec n) → Bool → BitVec n
  | adc, a, b, c => (a.setWidth 128 + b.setWidth 128 + c.toNat).setWidth n
  | sbc, a, b, c => (a.setWidth 128 - (b.setWidth 128 + c.toNat)).setWidth n
  | merge, a, b, c => if c then b else a

inductive MaskCarryOp where
  | madc | msbc
  deriving DecidableEq

def MaskCarryOp.exec : MaskCarryOp → BitVec n → BitVec n → Bool → Bool
  | madc, a, b, c => (a.setWidth 128 + b.setWidth 128 + c.toNat) >>> n != 0
  | msbc, a, b, c => (a.setWidth 128).ult (b.setWidth 128 + c.toNat)

inductive BitOp where
  | and | nand | andn | xor | or | nor | orn | xnor
  deriving DecidableEq

def BitOp.exec : BitOp → (vs2 vs1 : Bool) → Bool
  | and, a, b => a && b
  | nand, a, b => !(a && b)
  | andn, a, b => a && !b
  | xor, a, b => a ^^ b
  | or, a, b => a || b
  | nor, a, b => !(a || b)
  | orn, a, b => a || !b
  | xnor, a, b => !(a ^^ b)

end Operations

/-! ## Instructions -/

/-- The operand beside `vs2`. -/
inductive ArithSrc where
  | reg (vs1 : RegIdx)
  | scalar (x1 : WordType)

namespace ArithSrc

def check (lmul : Nat) : ArithSrc → VArith Unit
  | reg vs1 => Vector.checkGroup lmul vs1
  | scalar _ => return ()

/-- A scalar is cut to the width of the elements. -/
def get (v : Vector) (w : Width) (lmul : Nat) : ArithSrc → Nat → VArith (BitVec w.bits)
  | reg vs1, index => (v.slice w lmul vs1).get index
  | scalar x1, _ => return x1.setWidth w.bits

end ArithSrc

namespace Vector

variable (v : Vector) (src : ArithSrc) (vs1 vs2 vd : RegIdx) (enableMask : Bool) (vstart : Nat)

def sew : Width := v.config.vsew.width

def lmul : Nat := v.config.vlmul.getLmul

/-- How all element-wise instructions end: the destination is checked and walked. -/
def loadGroupWith {w : Width} (lmul : Nat) (value : Nat → VArith (BitVec w.bits)) : VArith Vector := do
  checkGroup lmul vd
  (ArithMask.newWithStart v enableMask vstart).loadElements vd (range (sliceLen lmul w)) value v

/-- `exec_integer_vv` and `exec_integer_vx`. -/
def execInteger (op : IntegerOp) : VArith Vector := do
  src.check v.lmul
  checkGroup v.lmul vs2
  v.loadGroupWith vd enableMask vstart (w := v.sew) v.lmul fun index => do
    .ofRust (op.exec (← (v.slice v.sew v.lmul vs2).get index) (← src.get v v.sew v.lmul index))

/-- `exec_integer_vvv` and `exec_integer_vxv` of the multiply-add types. -/
def execMultiplyAdd (op : MultiplyAddOp) : VArith Vector := do
  src.check v.lmul
  checkGroup v.lmul vs2
  v.loadGroupWith vd enableMask vstart (w := v.sew) v.lmul fun index =>
    return op.exec (← (v.slice v.sew v.lmul vs2).get index) (← src.get v v.sew v.lmul index)
      (← (v.slice v.sew v.lmul vd).get index)

/-- The width and the size of a destination of double width. -/
def wideDest : VArith (Width × Nat) := do
  let some dstEew := Width.fromByteWidth (v.sew.bytes * 2) | throw .illegalInstruction
  if 8 < v.lmul * 2 then throw .illegalInstruction
  return (dstEew, v.lmul * 2)

/-- `exec_widening_integer_vv` and `exec_widening_integer_vx`. -/
def execWidening (op : WideningOp) (ty : WideningTypes) : VArith Vector := do
  let (dst, dstLmul) ← v.wideDest
  src.check v.lmul
  checkGroup v.lmul vs2
  v.loadGroupWith vd enableMask vstart (w := dst) dstLmul fun index =>
    return op.exec (widen ty.src2 dst.bits (← (v.slice v.sew v.lmul vs2).get index))
      (widen ty.src1 dst.bits (← src.get v v.sew v.lmul index))

/-- `exec_widening_integer_wv` and `exec_widening_integer_wx`. -/
def execWideningW (op : WideningOp) (signed : Bool) : VArith Vector := do
  let (dst, dstLmul) ← v.wideDest
  src.check v.lmul
  checkGroup dstLmul vs2
  v.loadGroupWith vd enableMask vstart (w := dst) dstLmul fun index =>
    return op.exec (← (v.slice dst dstLmul vs2).get index)
      (widen signed dst.bits (← src.get v v.sew v.lmul index))

/-- `exec_widening_integer_vvv` and `exec_widening_integer_vxv`, with `ExecWmacc`. -/
def execWideningMultiplyAdd (ty : WideningTypes) : VArith Vector := do
  let (dst, dstLmul) ← v.wideDest
  src.check v.lmul
  checkGroup v.lmul vs2
  v.loadGroupWith vd enableMask vstart (w := dst) dstLmul fun index =>
    return widen ty.src1 dst.bits (← src.get v v.sew v.lmul index) *
      widen ty.src2 dst.bits (← (v.slice v.sew v.lmul vs2).get index) +
      (← (v.slice dst dstLmul vd).get index)

/-- The width and the size of a source of double width. -/
def wideSource : VArith (Width × Nat) := do
  let some srcEew := Width.fromByteWidth (v.sew.bytes * 2) | throw .illegalInstruction
  let srcLmul ← v.config.vlmul.narrowingSourceLmul
  if vectorRegisterGroupOverlaps vd v.lmul vs2 srcLmul then throw .illegalInstruction
  return (srcEew, srcLmul)

/-- `exec_integer_narrowing_wv` and `exec_integer_narrowing_vx`. -/
def execNarrowingShift (op : NarrowingShiftOp) : VArith Vector := do
  let (wide, srcLmul) ← v.wideSource vs2 vd
  src.check v.lmul
  checkGroup srcLmul vs2
  checkGroup v.lmul vd
  -- only as far as the source goes
  (ArithMask.newWithStart v enableMask vstart).loadElements vd
    (range (min (sliceLen v.lmul v.sew) (sliceLen srcLmul wide))) (w := v.sew) (fun index => do
      .ofRust (op.exec (← (v.slice wide srcLmul vs2).get index) (← src.get v v.sew v.lmul index))) v

/-- `exec_integer_v_ext`: the source group is as large as the destination's. -/
def execExt (signed : Bool) (factor : Nat) : VArith Vector := do
  let some srcEew := Width.fromByteWidth (v.sew.bytes / factor) | throw .illegalInstruction
  checkGroup v.lmul vs2
  v.loadGroupWith vd enableMask vstart (w := v.sew) v.lmul fun index =>
    return widen signed v.sew.bits (← (v.slice srcEew v.lmul vs2).get index)

/-- `exec_integer_v` and `exec_integer_scalar_move` on 64-bit elements. -/
def execMove : VArith Vector := do
  src.check v.lmul
  v.loadGroupWith vd false vstart v.lmul (src.get v .u64 v.lmul)

/-- `exec_integer_vvm` and `exec_integer_vxm`, with the carries in `v0`. -/
def execCarry (op : CarryOp) : VArith Vector := do
  src.check v.lmul
  checkGroup v.lmul vs2
  v.loadGroupWith vd false vstart (w := v.sew) v.lmul fun index =>
    return op.exec (← (v.slice v.sew v.lmul vs2).get index) (← src.get v v.sew v.lmul index)
      (← v.readMaskBit 0 index)

/-- `exec_integer_mask_vv` and `exec_integer_mask_vx`. -/
def execIntegerMask (op : MaskOp) : VArith Vector := do
  src.check v.lmul
  checkGroup v.lmul vs2
  (ArithMask.newWithStart v enableMask vstart).loadMaskBits vd (range (sliceLen v.lmul v.sew))
    (fun index => do
      .ofRust (op.exec (← (v.slice v.sew v.lmul vs2).get index) (← src.get v v.sew v.lmul index))) v

/-- `exec_integer_mask_vvm` and `exec_integer_mask_vxm`. -/
def execIntegerMaskCarry (op : MaskCarryOp) : VArith Vector := do
  src.check v.lmul
  checkGroup v.lmul vs2
  (ArithMask.newWithStart v false vstart).loadMaskBits vd (range (sliceLen v.lmul v.sew))
    (fun index =>
      return op.exec (← (v.slice v.sew v.lmul vs2).get index) (← src.get v v.sew v.lmul index)
        (← v.readMaskBit 0 index)) v

/-- The bits of a register, and those a mask has still to write. -/
def bitCapacity : Nat := 8 * VLEN_BYTE

def pendingBits (m : ArithMask) : List Nat :=
  (range (m.writeEnd bitCapacity)).drop (min m.start bitCapacity)

def execBit (op : BitOp) : VArith Vector :=
  let m := ArithMask.newWithStart v enableMask vstart
  m.loadMaskBits vd (pendingBits m)
    (fun index => return op.exec (v.maskBit vs2 index) (v.maskBit vs1 index)) v

/-! Permutations. -/

/-- `exec_integer_gather_vv` and `exec_integer_gather_vx`. -/
def execGather : VArith Vector := do
  let overlaps := match src with
    | .reg vs1 => vectorRegisterGroupOverlaps vd v.lmul vs1 v.lmul
    | .scalar _ => false
  if overlaps || vectorRegisterGroupOverlaps vd v.lmul vs2 v.lmul then throw .illegalInstruction
  src.check v.lmul
  checkGroup v.lmul vs2
  v.loadGroupWith vd enableMask vstart (w := v.sew) v.lmul fun index => do
    let j ← match src with
      | .reg vs1 => (·.toNat) <$> (v.slice v.sew v.lmul vs1).get index
      | .scalar x1 => pure x1.toNat
    return (v.slice v.sew v.lmul vs2 j).getD 0

def execGatherEi16 : VArith Vector := do
  let indexLmul ← v.config.vlmul.gatherEi16IndexLmul v.sew.bytes
  if vectorRegisterGroupOverlaps vd v.lmul vs1 indexLmul ||
      vectorRegisterGroupOverlaps vd v.lmul vs2 v.lmul then throw .illegalInstruction
  checkGroup indexLmul vs1
  checkGroup v.lmul vs2
  v.loadGroupWith vd enableMask vstart (w := v.sew) v.lmul fun index => do
    let j ← (v.slice .u16 indexLmul vs1).get index
    return (v.slice v.sew v.lmul vs2 j.toNat).getD 0

/-- What `exec_integer_slideup` and `exec_integer_slidedown` check. -/
def checkSlide : VArith Unit := do
  if vectorRegisterGroupOverlaps vd v.lmul vs2 v.lmul then throw .illegalInstruction
  checkGroup v.lmul vs2
  checkGroup v.lmul vd

def execSlideUp (offset : WordType) : VArith Vector := do
  v.checkSlide vs2 vd
  -- the elements below the offset are skipped
  (ArithMask.newWithStart v enableMask vstart).loadElements vd
    (pending (sliceLen v.lmul v.sew) offset.toNat)
    (fun index => return (v.slice v.sew v.lmul vs2 (index - offset.toNat)).getD 0) v

def execSlideDown (offset : WordType) : VArith Vector := do
  v.checkSlide vs2 vd
  v.loadGroupWith vd enableMask vstart (w := v.sew) v.lmul fun index =>
    if index + offset.toNat < 2 ^ 64 then
      return (v.slice v.sew v.lmul vs2 (index + offset.toNat)).getD 0
    else throw (.panic .overflow)

def execSlide1Up (x1 : WordType) : VArith Vector := do
  v.checkSlide vs2 vd
  v.loadGroupWith vd enableMask vstart (w := v.sew) v.lmul fun index =>
    return if index = 0 then x1.setWidth v.sew.bits else (v.slice v.sew v.lmul vs2 (index - 1)).getD 0

def execSlide1Down (x1 : WordType) : VArith Vector := do
  v.checkSlide vs2 vd
  let m := ArithMask.newWithStart v enableMask vstart
  v.loadGroupWith vd enableMask vstart (w := v.sew) v.lmul fun index =>
    return if m.isBodyIndex index && !m.isBodyIndex (index + 1) then x1.setWidth v.sew.bits
      else (v.slice v.sew v.lmul vs2 (index + 1)).getD 0

/-- The mask under which `vcompress` writes: the selected elements, and a tail. -/
def compressMask : ArithMask :=
  { VecOpMask.new v 1 false with
    length := (range v.config.vl).countP (v.maskBit vs1)
    start := 0 }

/-- One turn of the first loop of `vector_op_compress`, with the next destination. -/
def compressStep (s : Vector × Nat) (source : Nat) : VArith (Vector × Nat) := do
  if ← v.readMaskBit vs1 source then
    -- `dest_iter.next().unwrap()`
    if sliceLen v.lmul v.sew ≤ s.2 then throw (.panic .outOfBounds)
    let x ← (v.slice v.sew v.lmul vs2).get source
    return ((v.compressMask vs1).elementLoad vd s.2 x s.1, s.2 + 1)
  else return s

def execCompress : VArith Vector := do
  if vstart ≠ 0 then throw .illegalInstruction
  if vectorRegisterGroupOverlaps vd v.lmul vs2 v.lmul || vectorRegisterGroupOverlaps vd v.lmul vs1 1 then
    throw .illegalInstruction
  checkGroup v.lmul vs2
  checkGroup v.lmul vd
  let (v', dest) ← (range v.config.vl).foldlM (v.compressStep vs1 vs2 vd) (v, 0)
  (v.compressMask vs1).loadElements (w := v.sew) vd (pending (sliceLen v.lmul v.sew) dest)
    (fun _ => return 0) v'

/-! Mask registers. -/

/-- What `vector_op_mask_popcount` and `vector_op_mask_first` look for. -/
def activeBit (index : Nat) : Bool :=
  (ArithMask.newWithStart v enableMask vstart).isActiveBody index && v.maskBit vs2 index

def maskPopcount : WordType :=
  BitVec.ofNat 64 ((range bitCapacity).countP (v.activeBit vs2 enableMask vstart))

def maskFirst : WordType :=
  match (range bitCapacity).find? (v.activeBit vs2 enableMask vstart) with
  | some index => BitVec.ofNat 64 index
  | none => BitVec.allOnes 64

inductive MaskBeforeFirstMode where
  | before | including | only
  deriving DecidableEq

def MaskBeforeFirstMode.value (mode : MaskBeforeFirstMode) (seenFirst active : Bool) : Bool :=
  match mode with
  | before => !seenFirst && !active
  | including => !seenFirst
  | only => !seenFirst && active

/-- One turn of the loop of `vector_op_mask_before_first`, with `seen_first`. -/
def beforeFirstStep (mode : MaskBeforeFirstMode) (s : Vector × Bool) (index : Nat) :
    VArith (Vector × Bool) := do
  let m := ArithMask.newWithStart v enableMask vstart
  let active := m.shouldAccess index && v.maskBit vs2 index
  let v' ← m.maskBitLoad vd index (mode.value s.2 active) s.1
  return (v', s.2 || active)

/-- `exec_mask_unary`. -/
def execBeforeFirst (mode : MaskBeforeFirstMode) : VArith Vector := do
  if vd = vs2 then throw .illegalInstruction
  let m := ArithMask.newWithStart v enableMask vstart
  let seenFirst := (range (min vstart bitCapacity)).any fun index =>
    m.shouldAccess index && v.maskBit vs2 index
  Prod.fst <$> (pendingBits m).foldlM (v.beforeFirstStep vs2 vd enableMask vstart mode) (v, seenFirst)

/-- One turn of the loop of `vector_op_iota`, with the count so far. -/
def iotaStep (s : Vector × Nat) (index : Nat) : VArith (Vector × Nat) := do
  let m := ArithMask.newWithStart v enableMask vstart
  let v' := m.elementLoad (w := v.sew) vd index (BitVec.ofNat _ s.2) s.1
  if m.isBodyIndex index then if ← v.readMaskBit vs2 index then return (v', s.2 + 1)
  return (v', s.2)

/-- `exec_mask_to_vector`. -/
def execIota : VArith Vector := do
  if vectorRegisterGroupOverlaps vd v.lmul vs2 1 then throw .illegalInstruction
  checkGroup v.lmul vd
  Prod.fst <$> (range (sliceLen v.lmul v.sew)).foldlM (v.iotaStep vs2 vd enableMask vstart) (v, 0)

def execIndex : VArith Vector :=
  v.loadGroupWith vd enableMask vstart (w := v.sew) v.lmul fun index => return BitVec.ofNat _ index

/-! Moves. -/

def execMoveScalarToElement (x1 : WordType) : Vector :=
  if vstart ≠ 0 ∨ v.config.vl = 0 then v else v.putElement v.sew vd 0 (x1.setWidth v.sew.bits)

def execMoveElementToScalar : Option WordType :=
  if vstart ≠ 0 ∨ v.config.vl = 0 then none else some (signExtend ((v.element v.sew vs2 0).setWidth 64) v.sew.bits)

/-- The registers are moved as doublewords, whatever the configuration. -/
def execWholeRegisterMove (lmul : Nat) : VArith Vector := do
  checkGroup lmul vs2
  checkGroup lmul vd
  let m : ArithMask := { maskBit := none, length := VLEN_BYTE * lmul / 8, maskAgnostic := false
                         tailAgnostic := false, start := vstart }
  m.loadElements (w := .u64) vd (range (sliceLen lmul .u64)) (v.slice .u64 lmul vs2).get v

end Vector

end HereEmu
