import HereEmu.Vector.Arith

/-!
# Vector arithmetic on fixed-point numbers

The intermediate results have 128 bits and are integers here; where the source
adds, subtracts or multiplies, the result is checked. Rounding takes bits of the
two's complement, which are those of the quotient by a power of two.

The unit also keeps the rounding mode and the saturation flag in its own
configuration, where nothing but its tests looks at them.
-/

namespace HereEmu

open ExecTrait

inductive FixedPointRoundingMode where
  | roundToNearestUp | roundToNearestEven | roundDown | roundToOdd
  deriving DecidableEq, Repr

def checkedI128 (x : Int) : Rust Int := if -2 ^ 127 ≤ x ∧ x < 2 ^ 127 then return x else throw .overflow

def checkedU128 (x : Nat) : Rust Nat := if x < 2 ^ 128 then return x else throw .overflow

def roundIncrement (value : Int) (shift : Nat) (round : FixedPointRoundingMode) : Int :=
  if shift = 0 then 0
  else
    let bit (index : Nat) : Bool := value / 2 ^ index % 2 == 1
    let half := bit (shift - 1)
    let increment := match round with
      | .roundToNearestUp => half
      | .roundToNearestEven => half && (value % 2 ^ (shift - 1) != 0 || bit shift)
      | .roundDown => false
      | .roundToOdd => !bit shift && value % 2 ^ shift != 0
    if increment then 1 else 0

/-- `round_unsigned` and `round_signed`: after a shift there is room for the increment. -/
def roundShift (value : Int) (shift : Nat) (round : FixedPointRoundingMode) : Int :=
  if shift = 0 then value else value / 2 ^ shift + roundIncrement value shift round

section

variable {n m : Nat}

def saturateUnsigned (n : Nat) (value : Int) : BitVec n × Bool :=
  if 2 ^ n - 1 < value then (BitVec.allOnes n, true) else (BitVec.ofInt n value, false)

def saturateSigned (n : Nat) (value : Int) : BitVec n × Bool :=
  if 2 ^ (n - 1) - 1 < value then (BitVec.ofInt n (2 ^ (n - 1) - 1), true)
  else if value < -2 ^ (n - 1) then (BitVec.ofInt n (-2 ^ (n - 1)), true)
  else (BitVec.ofInt n value, false)

inductive FixedPointOp where
  | saddu | sadd | ssubu | ssub | aaddu | aadd | asubu | asub | smul | ssrl | ssra
  deriving DecidableEq

/-- The signed reading, through 128 bits. -/
def signedOf (x : BitVec n) : Rust Int := BitVec.toInt <$> asSignedI128 x

def FixedPointOp.exec (round : FixedPointRoundingMode) :
    FixedPointOp → (vs2 vs1 : BitVec n) → Rust (BitVec n × Bool)
  | saddu, a, b => return saturateUnsigned n (← checkedU128 (a.toNat + b.toNat))
  | sadd, a, b => return saturateSigned n (← checkedI128 ((← signedOf a) + (← signedOf b)))
  | ssubu, a, b => return if a.ult b then (0, true) else (a - b, false)
  | ssub, a, b => return saturateSigned n (← checkedI128 ((← signedOf a) - (← signedOf b)))
  | aaddu, a, b =>
    return (BitVec.ofInt n (roundShift (← checkedU128 (a.toNat + b.toNat)) 1 round), false)
  | aadd, a, b =>
    return (BitVec.ofInt n (roundShift (← checkedI128 ((← signedOf a) + (← signedOf b))) 1 round), false)
  | asubu, a, b =>
    return (BitVec.ofInt n (roundShift (← checkedI128 (a.toNat - b.toNat)) 1 round), false)
  | asub, a, b =>
    return (BitVec.ofInt n (roundShift (← checkedI128 ((← signedOf a) - (← signedOf b))) 1 round), false)
  | smul, a, b => do
    let product ← checkedI128 ((← signedOf a) * (← signedOf b))
    return saturateSigned n (roundShift product (n - 1) round)
  | ssrl, a, b => return (BitVec.ofInt n (roundShift a.toNat (shiftAmount b) round), false)
  | ssra, a, b => return (BitVec.ofInt n (roundShift (← signedOf a) (shiftAmount b) round), false)

/-- The amount is masked by the width of the source. -/
def clipShift (m : Nat) (shift : BitVec n) : Nat :=
  ((shift.setWidth 64).setWidth 32 &&& BitVec.ofNat 32 (m - 1)).toNat

def narrowingClip (signed : Bool) (round : FixedPointRoundingMode) (src : BitVec m) (shift : BitVec n) :
    Rust (BitVec n × Bool) :=
  if signed then return saturateSigned n (roundShift (← signedOf src) (clipShift m shift) round)
  else return saturateUnsigned n (roundShift src.toNat (clipShift m shift) round)

end

namespace Vector

variable (v : Vector) (src : ArithSrc) (vs2 vd : RegIdx) (enableMask : Bool) (vstart : Nat)
  (round : FixedPointRoundingMode)

/-- The walk, with the flag that some element was saturated. -/
def loadSaturating {w : Width} (indices : List Nat) (exec : Nat → VArith (BitVec w.bits × Bool)) :
    VArith (Vector × Bool) :=
  indices.foldlM (fun s index => do
    let (value, saturated) ← exec index
    return ((ArithMask.newWithStart v enableMask vstart).elementLoad vd index value s.1,
      s.2 || saturated)) (v, false)

/-- `exec_fixed_point_vv` and `exec_fixed_point_vx`. -/
def execFixedPoint (op : FixedPointOp) : VArith (Vector × Bool) := do
  src.check v.lmul
  checkGroup v.lmul vs2
  checkGroup v.lmul vd
  v.loadSaturating vd enableMask vstart (w := v.sew) (List.range (sliceLen v.lmul v.sew)) fun index => do
    .ofRust (op.exec round (← (v.slice v.sew v.lmul vs2).get index) (← src.get v v.sew v.lmul index))

/-- `exec_fixed_point_narrowing_wv` and `exec_fixed_point_narrowing_vx`. -/
def execNarrowingClip (signed : Bool) : VArith (Vector × Bool) := do
  let (wide, srcLmul) ← v.wideSource vs2 vd
  src.check v.lmul
  checkGroup srcLmul vs2
  checkGroup v.lmul vd
  v.loadSaturating vd enableMask vstart (w := v.sew)
    (List.range (min (sliceLen v.lmul v.sew) (sliceLen srcLmul wide))) fun index => do
      .ofRust (narrowingClip signed round (← (v.slice wide srcLmul vs2).get index)
        (← src.get v v.sew v.lmul index))

end Vector

end HereEmu
