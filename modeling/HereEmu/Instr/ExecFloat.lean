import HereEmu.Cpu
import HereEmu.Fpu.SoftFloat

/-!
# The float instructions of the soft float unit

What the functions of the dispatch table for the F and D extensions do to the
float unit and the integer registers, inside of `normal_float_exec`. Loads and
stores are with the other accesses to memory.

A `SoftPlatform` is what the emulator is built with, its float unit being this
one.
-/

namespace HereEmu

/-- The instructions of RV_F and RV_D but for loads and stores. -/
inductive FloatInstr where
  | FADD_S | FSUB_S | FMUL_S | FDIV_S | FMADD_S | FNMADD_S | FMSUB_S | FNMSUB_S | FSQRT_S
  | FMIN_S | FMAX_S
  | FADD_D | FSUB_D | FMUL_D | FDIV_D | FMADD_D | FNMADD_D | FMSUB_D | FNMSUB_D | FSQRT_D
  | FMIN_D | FMAX_D
  | FSGNJ_S | FSGNJN_S | FSGNJX_S | FSGNJ_D | FSGNJN_D | FSGNJX_D
  | FCVT_W_S | FCVT_WU_S | FCVT_S_W | FCVT_S_WU | FCVT_L_S | FCVT_LU_S | FCVT_S_L | FCVT_S_LU
  | FCVT_W_D | FCVT_WU_D | FCVT_D_W | FCVT_D_WU | FCVT_L_D | FCVT_LU_D | FCVT_D_L | FCVT_D_LU
  | FCVT_D_S | FCVT_S_D
  | FEQ_S | FLT_S | FLE_S | FEQ_D | FLT_D | FLE_D
  | FMV_X_W | FMV_W_X | FMV_X_D | FMV_D_X
  | FCLASS_S | FCLASS_D
  deriving DecidableEq, Repr

/-- The functions of the dispatch table they are executed by. -/
inductive FloatFunc where
  | arithR4Rm (f : FloatFmt) (op : TernaryOpR)
  | arithRm (f : FloatFmt) (op : BinaryOpR)
  | arith (f : FloatFmt) (op : SignInject)
  | sqrt (f : FloatFmt)
  | cvtUFromF (f : FloatFmt) (u : Width)
  | cvtIFromF (f : FloatFmt) (u : Width)
  | cvtFFromU (f : FloatFmt) (bits : Nat)
  | cvtFFromI (f : FloatFmt) (bits : Nat)
  | cvtFloat (f t : FloatFmt)
  | compare (op : CmpOp) (f : FloatFmt)
  | classify (f : FloatFmt)
  | mvXFromF (f : FloatFmt) (extend : Bool)
  | mvFFromX (f : FloatFmt)
  | min (f : FloatFmt)
  | max (f : FloatFmt)
  deriving DecidableEq, Repr

def getFloatFunc : FloatInstr → FloatFunc
  | .FADD_S => .arithRm .f32 .add
  | .FSUB_S => .arithRm .f32 .sub
  | .FMUL_S => .arithRm .f32 .mul
  | .FDIV_S => .arithRm .f32 .div
  | .FMADD_S => .arithR4Rm .f32 .mulAdd
  | .FNMADD_S => .arithR4Rm .f32 .negMulAdd
  | .FMSUB_S => .arithR4Rm .f32 .mulSub
  | .FNMSUB_S => .arithR4Rm .f32 .negMulSub
  | .FSQRT_S => .sqrt .f32
  | .FMIN_S => .min .f32
  | .FMAX_S => .max .f32
  | .FADD_D => .arithRm .f64 .add
  | .FSUB_D => .arithRm .f64 .sub
  | .FMUL_D => .arithRm .f64 .mul
  | .FDIV_D => .arithRm .f64 .div
  | .FMADD_D => .arithR4Rm .f64 .mulAdd
  | .FNMADD_D => .arithR4Rm .f64 .negMulAdd
  | .FMSUB_D => .arithR4Rm .f64 .mulSub
  | .FNMSUB_D => .arithR4Rm .f64 .negMulSub
  | .FSQRT_D => .sqrt .f64
  | .FMIN_D => .min .f64
  | .FMAX_D => .max .f64
  | .FSGNJ_S => .arith .f32 .copy
  | .FSGNJN_S => .arith .f32 .neg
  | .FSGNJX_S => .arith .f32 .xor
  | .FSGNJ_D => .arith .f64 .copy
  | .FSGNJN_D => .arith .f64 .neg
  | .FSGNJX_D => .arith .f64 .xor
  | .FCVT_W_S => .cvtIFromF .f32 .u32
  | .FCVT_WU_S => .cvtUFromF .f32 .u32
  | .FCVT_S_W => .cvtFFromI .f32 32
  | .FCVT_S_WU => .cvtFFromU .f32 32
  | .FCVT_L_S => .cvtIFromF .f32 .u64
  | .FCVT_LU_S => .cvtUFromF .f32 .u64
  | .FCVT_S_L => .cvtFFromI .f32 64
  | .FCVT_S_LU => .cvtFFromU .f32 64
  | .FCVT_W_D => .cvtIFromF .f64 .u32
  | .FCVT_WU_D => .cvtUFromF .f64 .u32
  | .FCVT_D_W => .cvtFFromI .f64 32
  | .FCVT_D_WU => .cvtFFromU .f64 32
  | .FCVT_L_D => .cvtIFromF .f64 .u64
  | .FCVT_LU_D => .cvtUFromF .f64 .u64
  | .FCVT_D_L => .cvtFFromI .f64 64
  | .FCVT_D_LU => .cvtFFromU .f64 64
  | .FCVT_D_S => .cvtFloat .f32 .f64
  | .FCVT_S_D => .cvtFloat .f64 .f32
  | .FEQ_S => .compare .eq .f32
  | .FLT_S => .compare .lt .f32
  | .FLE_S => .compare .le .f32
  | .FEQ_D => .compare .eq .f64
  | .FLT_D => .compare .lt .f64
  | .FLE_D => .compare .le .f64
  | .FMV_X_W => .mvXFromF .f32 true
  | .FMV_W_X => .mvFFromX .f32
  | .FMV_X_D => .mvXFromF .f64 false
  | .FMV_D_X => .mvFFromX .f64
  | .FCLASS_S => .classify .f32
  | .FCLASS_D => .classify .f64

/-! ## Executing -/

def Fcsr.rm : BitField := ⟨5, 3⟩

/-- `rm_to_round`, on a stack with room for so many calls. The dynamic mode asks
again with the mode of `fcsr`, also when that is dynamic itself. -/
def rmToRound (fcsr : WordType) : Nat → BitVec 3 → Option Round
  | 0, _ => none
  | stack + 1, rm =>
    match rm with
    | 0b000 => some .nearestTiesToEven
    | 0b001 => some .towardZero
    | 0b010 => some .towardNegative
    | 0b011 => some .towardPositive
    | 0b100 => some .nearestTiesToAway
    | 0b111 => rmToRound fcsr stack ((Fcsr.rm.get fcsr).setWidth 3)
    | _ => some .nearestTiesToEven

/-- `status_to_fflags`: the low five bits in the opposite order. -/
def statusToFflags (status : Status) : BitVec 8 :=
  (List.range 5).foldl (fun rst i => rst ||| (((status >>> i) &&& 1#8) <<< (4 - i))) 0#8

/-- `TruncateToBits` for `u64`. -/
def truncateToBits (val : WordType) (bits : Nat) : WordType :=
  if 64 ≤ bits then val else val &&& BitVec.ofNat 64 (2 ^ bits - 1)

/-- `RegFile::write` on the integer registers. -/
def writeX (regFile : RegIdx → WordType) (rd : RegIdx) (v : WordType) : RegIdx → WordType :=
  if rd = 0 then regFile else Function.update regFile rd v

/-- An integer result, truncated to its type and sign-extended from there. -/
def cvtResult (u : Width) (v : BitVec 128) : WordType :=
  signExtend (u.truncate (v.setWidth 64)) u.bits

variable {L : FloatLib}

namespace FloatFunc

/-- The functions under `normal_float_exec`. Operands of the wrong format are
unreachable in the source. -/
def exec (stack : Nat) (func : FloatFunc) (info : RVInstrInfo) (regFile : RegIdx → WordType)
    (fcsr : WordType) (fpu : SoftFPU L) : Option (SoftFPU L × (RegIdx → WordType)) :=
  match func, info with
  | arithR4Rm f op, .R4_rm rs1 rs2 rs3 rd rm =>
    (rmToRound fcsr stack rm).map fun round =>
      (fpu.execTernaryR op f rs1 rs2 rs3 rd round, regFile)
  | arithRm f op, .R_rm rs1 rs2 rd rm =>
    (rmToRound fcsr stack rm).map fun round => (fpu.execBinaryR op f rs1 rs2 rd round, regFile)
  | arith f op, .R rs1 rs2 rd => some (fpu.execBinaryIgnoreCnan op f rs1 rs2 rd, regFile)
  | sqrt f, .R_rm rs1 _ rd rm =>
    (rmToRound fcsr stack rm).map fun round => (fpu.sqrt f rs1 rd round, regFile)
  | cvtUFromF f u, .R_rm rs1 _ rd rm =>
    (rmToRound fcsr stack rm).map fun round =>
      let rst := fpu.getAndCvtUnsigned f u rs1 round
      (rst.2, writeX regFile rd (cvtResult u rst.1))
  | cvtIFromF f u, .R_rm rs1 _ rd rm =>
    (rmToRound fcsr stack rm).map fun round =>
      let rst := fpu.getAndCvtSigned f u rs1 round
      (rst.2, writeX regFile rd (cvtResult u rst.1))
  | cvtFFromU f bits, .R_rm rs1 _ rd rm =>
    (rmToRound fcsr stack rm).map fun round =>
      (fpu.cvtUnsignedAndStore f rd ((truncateToBits (regFile rs1) bits).setWidth 128) round, regFile)
  -- the signed conversions take the whole register
  | cvtFFromI f _, .R_rm rs1 _ rd rm =>
    (rmToRound fcsr stack rm).map fun round =>
      (fpu.cvtSignedAndStore f rd ((regFile rs1).signExtend 128) round, regFile)
  | cvtFloat f t, .R_rm rs1 _ rd rm =>
    (rmToRound fcsr stack rm).map fun round => (fpu.cvtFloatAndStore f t rd rs1 round, regFile)
  | compare op f, .R rs1 rs2 rd =>
    let rst := fpu.compare op f rs1 rs2
    some (rst.2, writeX regFile rd (if rst.1 then 1 else 0))
  | classify f, .R rs1 _ rd =>
    (fpu.classify f rs1).map fun rst => (fpu, writeX regFile rd rst.bits)
  | mvXFromF _ extend, .R rs1 _ rd =>
    let rst := fpu.loadRaw rs1
    some (fpu, writeX regFile rd (if extend then signExtend rst 32 else rst))
  | mvFFromX f, .R rs1 _ rd => some (fpu.storeRaw f rd (regFile rs1), regFile)
  | min f, .R rs1 rs2 rd => some (fpu.minNum f rs1 rs2 rd, regFile)
  | max f, .R rs1 rs2 rd => some (fpu.maxNum f rs1 rs2 rd, regFile)
  | _, _ => none

end FloatFunc

/-- What the emulator is built with, apart from its float unit. -/
structure SoftPlatform where
  floats : FloatLib
  /-- How deep calls may nest on the host. -/
  stack : Nat
  bus : DeviceBus
  VectorOp : Type
  decode : BitVec 32 → Option (DecodeInstr FloatInstr VectorOp)
  extensionBits : WordType
  zeroed : Option (DecodeInstr FloatInstr VectorOp)
  vectorExec : VectorOp → RVInstrInfo → Nat → (RegIdx → WordType) → WordType → Vector →
    Option (Bool × (RegIdx → WordType) × WordType × Vector)

/-- The CPU unifies NaNs. -/
abbrev SoftPlatform.platform (H : SoftPlatform) : Platform where
  bus := H.bus
  FloatOp := FloatInstr
  VectorOp := H.VectorOp
  decode := H.decode
  extensionBits := H.extensionBits
  zeroed := H.zeroed
  Fpu := SoftFPU H.floats
  fpuNew := .new true
  fpuLoadRaw := fun fpu index => fpu.loadRaw index
  fpuStoreRaw := fun f index value fpu => fpu.storeRaw f index value
  fpuLastStatus := fun fpu => (statusToFflags fpu.lastStatus).setWidth 5
  floatExec := fun op => (getFloatFunc op).exec H.stack
  vectorExec := H.vectorExec

end HereEmu
