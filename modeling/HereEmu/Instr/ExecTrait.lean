import HereEmu.Instr.Types

/-!
# The `Exec…` types, step by step

The arithmetic types are generic in the width of their operands. High products,
signed division and signed shifts go through an intermediate of 128 bits, and the
operators that are not wrapping ones are checked: an overflow, a zero divisor or
a shift by too much is a panic. `ArithOp.exec` is what they come to at 64 bits.
-/

namespace HereEmu.ExecTrait

variable {w : Nat} (a b : BitVec w)

/-! ## Checked operators -/

def checkedSubI128 (a b : BitVec 128) : Rust (BitVec 128) :=
  if a.ssubOverflow b then .error .overflow else .ok (a - b)

def checkedMulI128 (a b : BitVec 128) : Rust (BitVec 128) :=
  if a.smulOverflow b then .error .overflow else .ok (a * b)

def checkedMulU128 (a b : BitVec 128) : Rust (BitVec 128) :=
  if a.umulOverflow b then .error .overflow else .ok (a * b)

/-- The smallest number divided by minus one is itself. -/
def wrappingDiv : Rust (BitVec w) :=
  if b = 0 then .error .overflow else .ok (a.sdiv b)

def wrappingRem : Rust (BitVec w) :=
  if b = 0 then .error .overflow else .ok (a.srem b)

def checkedDiv : Rust (BitVec w) := if b = 0 then .error .overflow else .ok (a / b)

def checkedRem : Rust (BitVec w) := if b = 0 then .error .overflow else .ok (a % b)

def checkedShl (a : BitVec w) (n : Nat) : Rust (BitVec w) :=
  if n < w then .ok (a <<< n) else .error .overflow

def checkedShr (a : BitVec w) (n : Nat) : Rust (BitVec w) :=
  if n < w then .ok (a >>> n) else .error .overflow

/-- `>>` on a signed type. -/
def checkedSar (a : BitVec w) (n : Nat) : Rust (BitVec w) :=
  if n < w then .ok (a.sshiftRight n) else .error .overflow

/-! ## Conversions -/

def shiftAmount (value : BitVec w) : Nat :=
  ((value.setWidth 64).setWidth 32 &&& BitVec.ofNat 32 (w - 1)).toNat

def asSignedI128 (value : BitVec w) : Rust (BitVec 128) :=
  let value := value.setWidth 128
  let signMask := 1#128 <<< (w - 1)
  if value &&& signMask = 0 then .ok value else checkedSubI128 value (1#128 <<< w)

def fromSignedI128 (value : BitVec 128) : BitVec w := value.setWidth w

/-! ## Operations -/

def mulHighUnsigned : Rust (BitVec w) := do
  let product ← checkedMulU128 (a.setWidth 128) (b.setWidth 128)
  return (← checkedShr product w).setWidth w

def mulHighSigned : Rust (BitVec w) := do
  let product ← checkedMulI128 (← asSignedI128 a) (← asSignedI128 b)
  return fromSignedI128 (← checkedSar product w)

def mulHighSignedUnsigned : Rust (BitVec w) := do
  let product ← checkedMulI128 (← asSignedI128 a) (b.setWidth 128)
  return fromSignedI128 (← checkedSar product w)

def divSigned : Rust (BitVec w) := do
  if b = 0 then return BitVec.allOnes w
  return fromSignedI128 (← wrappingDiv (← asSignedI128 a) (← asSignedI128 b))

def divUnsigned : Rust (BitVec w) :=
  if b = 0 then .ok (BitVec.allOnes w) else checkedDiv a b

def remSigned : Rust (BitVec w) := do
  if b = 0 then return a
  return fromSignedI128 (← wrappingRem (← asSignedI128 a) (← asSignedI128 b))

def remUnsigned : Rust (BitVec w) := if b = 0 then .ok a else checkedRem a b

def sll : Rust (BitVec w) := checkedShl a (shiftAmount b)

def srl : Rust (BitVec w) := checkedShr a (shiftAmount b)

def sra : Rust (BitVec w) := do
  return fromSignedI128 (← checkedSar (← asSignedI128 a) (shiftAmount b))

def signedLess : Rust Bool := do
  return (← asSignedI128 a).slt (← asSignedI128 b)

/-! The word forms, on the low halves. -/

open ArithOp (low signExtendU32 ofBool)

variable (a b : WordType)

/-- `(b as u32) & 0x1F`. -/
def wordShift (b : WordType) : Nat := (b.setWidth 32 &&& 0x1f).toNat

def divw : Rust WordType := do
  if low b = 0 then return BitVec.allOnes 64
  return signExtendU32 (← wrappingDiv (low a) (low b))

def remw : Rust WordType := do
  if low b = 0 then return signExtendU32 (low a)
  return signExtendU32 (← wrappingRem (low a) (low b))

def divuw : Rust WordType := do
  if low b = 0 then return BitVec.allOnes 64
  return signExtendU32 (← checkedDiv (low a) (low b))

def remuw : Rust WordType := do
  if low b = 0 then return signExtendU32 (low a)
  return signExtendU32 (← checkedRem (low a) (low b))

/-- `wrapping_shl` and `wrapping_shr` take the amount modulo the width. -/
def sllw : WordType := signExtendU32 (low a <<< (wordShift b % 32))

def srlw : WordType := signExtendU32 (low a >>> (wordShift b % 32))

def sraw : Rust WordType := do
  let shifted ← checkedSar (← asSignedI128 (low a)) (wordShift b)
  return signExtendU32 (shifted.setWidth 32)

/-- The types by name, as the dispatch table uses them. -/
def exec : ArithOp → WordType → WordType → Rust WordType
  | .add, a, b => .ok (a + b)
  | .addw, a, b => .ok (signExtendU32 (low a + low b))
  | .sub, a, b => .ok (a - b)
  | .subw, a, b => .ok (signExtendU32 (low a - low b))
  | .mulLow, a, b => .ok (a * b)
  | .mulHighSigned, a, b => mulHighSigned a b
  | .mulHighUnsigned, a, b => mulHighUnsigned a b
  | .mulHighSignedUnsigned, a, b => mulHighSignedUnsigned a b
  | .divSigned, a, b => divSigned a b
  | .divUnsigned, a, b => divUnsigned a b
  | .remSigned, a, b => remSigned a b
  | .remUnsigned, a, b => remUnsigned a b
  | .mulw, a, b => .ok (signExtendU32 (low a * low b))
  | .divw, a, b => divw a b
  | .divuw, a, b => divuw a b
  | .remw, a, b => remw a b
  | .remuw, a, b => remuw a b
  | .sll, a, b => sll a b
  | .srl, a, b => srl a b
  | .sra, a, b => sra a b
  | .sllw, a, b => .ok (sllw a b)
  | .srlw, a, b => .ok (srlw a b)
  | .sraw, a, b => sraw a b
  | .signedLess, a, b => do return ofBool (← signedLess a b)
  | .unsignedLess, a, b => .ok (ofBool (a.ult b))
  | .and, a, b => .ok (a &&& b)
  | .or, a, b => .ok (a ||| b)
  | .xor, a, b => .ok (a ^^^ b)

end HereEmu.ExecTrait
