import HereEmu.Proofs.FloatRun

/-!
# Boxed singles

The unit keeps a register as the float that was written last, a single or a
double, and turns it into the other type when it is read so. What a program sees
is plain registers of 64 bits: a single is written with its upper half all ones,
and read as a single only if it finds the upper half so.

Every operation of the unit reads operands, leaves a status and writes one
result (`FpuCmd.effect`). That is all the two kinds of registers have to agree
on, so they agree along every sequence of operations, and so for every float
instruction.
-/

namespace HereEmu

open Lib (runAll runAll_map exists_of_map_ok)
open SoftFPU APFloat

/-! ## Plain registers -/

section Words

variable {L : FloatLib}

/-- A single in a register of 64 bits. -/
def boxed (bits : BitVec 32) : WordType := BitVec.allOnes 32 ++ bits

/-- How a float is written to a register. -/
def wordOf : (f : FloatFmt) → L.Float f → WordType
  | .f32, s => boxed (((L.ops .f32).toBits s).setWidth 32)
  | .f64, d => ((L.ops .f64).toBits d).setWidth 64

/-- How a float is read from a register. -/
def readWord : (f : FloatFmt) → WordType → L.Float f
  | .f32, w =>
    if w.extractLsb' 32 32 = BitVec.allOnes 32 then
      (L.ops .f32).fromBits ((w.setWidth 32).setWidth 128)
    else (L.ops .f32).qnan
  | .f64, w => (L.ops .f64).fromBits (w.setWidth 128)

end Words

/-- The float unit with registers of 64 bits. -/
structure RawFPU where
  lastStatus : Status
  regFile : RegIdx → WordType
  unifyCnan : Bool

/-- Floats are their bits: `from_bits` looks at the low bits of its argument and
`to_bits` gives them back. -/
structure FloatLib.Faithful (L : FloatLib) : Prop where
  toBits_fromBits : ∀ f bits,
    (L.ops f).toBits ((L.ops f).fromBits bits) = (bits.setWidth f.width.bits).setWidth 128
  fromBits_toBits : ∀ f x, (L.ops f).fromBits ((L.ops f).toBits x) = x

/-! ## Abstraction -/

section Halves

/-- A word in two halves. -/
theorem exists_halves (w : WordType) : ∃ hi lo : BitVec 32, w = hi ++ lo :=
  ⟨_, _, (@BitVec.extractLsb'_append_extractLsb' 32 32 w).symm⟩

theorem boxMask_eq : boxMask = BitVec.allOnes 32 ++ 0#32 := by decide

theorem and_boxMask_iff (w : WordType) : w &&& boxMask = boxMask ↔
    w.extractLsb' 32 32 = BitVec.allOnes 32 := by
  obtain ⟨hi, lo, rfl⟩ := exists_halves w
  have hand : (hi ++ lo) &&& (BitVec.allOnes 32 ++ 0#32) = hi ++ 0#32 := by
    rw [BitVec.and_append, BitVec.and_allOnes, BitVec.and_zero]
  rw [boxMask_eq, hand, BitVec.append_left_inj, BitVec.extractLsb'_append_eq_left]

theorem or_boxMask (w : WordType) : w ||| boxMask = boxed (w.setWidth 32) := by
  obtain ⟨hi, lo, rfl⟩ := exists_halves w
  have hor : (hi ++ lo) ||| (BitVec.allOnes 32 ++ 0#32) = BitVec.allOnes 32 ++ lo := by
    rw [BitVec.or_append, BitVec.or_allOnes, BitVec.or_zero]
  rw [boxMask_eq, hor, BitVec.setWidth_append_eq_right]
  rfl

end Halves

section Abstraction

variable {L : FloatLib} (hL : L.Faithful)

/-- A register as a program sees it. -/
def APFloat.raw (x : APFloat L) : WordType := ((L.ops .f64).toBits (x.into .f64)).setWidth 64

def SoftFPU.raw (fpu : SoftFPU L) : RawFPU where
  lastStatus := fpu.lastStatus
  regFile := fun index => (fpu.regFile index).raw
  unifyCnan := fpu.unifyCnan

include hL

/-- A word that is kept as a double is given back. -/
theorem toBits_double (w : WordType) :
    ((L.ops .f64).toBits ((L.ops .f64).fromBits (w.setWidth 128))).setWidth 64 = w := by
  have hbits : (L.ops .f64).toBits ((L.ops .f64).fromBits (w.setWidth 128)) =
      ((w.setWidth 128).setWidth 64).setWidth 128 := hL.toBits_fromBits .f64 _
  rw [hbits]
  simp

theorem fromBits_double (d : L.Float .f64) :
    (L.ops .f64).fromBits ((((L.ops .f64).toBits d).setWidth 64).setWidth 128) = d := by
  have hbits : (L.ops .f64).toBits ((L.ops .f64).fromBits ((L.ops .f64).toBits d)) =
      (((L.ops .f64).toBits d).setWidth 64).setWidth 128 := hL.toBits_fromBits .f64 _
  rw [← hbits, hL.fromBits_toBits, hL.fromBits_toBits]

/-- `from_bits` looks at the low bits only. -/
theorem fromBits_single (bits : BitVec 128) :
    (L.ops .f32).fromBits ((bits.setWidth 32).setWidth 128) = (L.ops .f32).fromBits bits := by
  have hbits : (L.ops .f32).toBits ((L.ops .f32).fromBits bits) = (bits.setWidth 32).setWidth 128 :=
    hL.toBits_fromBits .f32 bits
  rw [← hbits, hL.fromBits_toBits]

theorem APFloat.raw_ofFloat (f : FloatFmt) (x : L.Float f) : (ofFloat f x).raw = wordOf f x := by
  cases f with
  | f32 =>
    have hraw : (APFloat.single x).raw = ((L.ops .f32).toBits x).setWidth 64 ||| boxMask :=
      toBits_double hL _
    show (APFloat.single x).raw = boxed _
    rw [hraw, or_boxMask, BitVec.setWidth_setWidth_of_le _ (by decide)]
  | f64 => rfl

theorem APFloat.readWord_raw (f : FloatFmt) (x : APFloat L) : readWord f x.raw = x.into f := by
  cases f with
  | f64 =>
    exact fromBits_double hL _
  | f32 =>
    unfold readWord
    cases x with
    | single s =>
      have hraw : (APFloat.single s).raw = boxed _ := raw_ofFloat hL .f32 s
      dsimp only
      rw [hraw]
      unfold boxed
      rw [if_pos BitVec.extractLsb'_append_eq_left, BitVec.setWidth_append_eq_right,
        fromBits_single hL, hL.fromBits_toBits]
      rfl
    | double d =>
      have hraw : (APFloat.double d).raw = ((L.ops .f64).toBits d).setWidth 64 := rfl
      have hlow : (((L.ops .f64).toBits d).setWidth 64).setWidth 32 =
        ((L.ops .f64).toBits d).setWidth 32 := BitVec.setWidth_setWidth_of_le _ (by decide)
      dsimp only
      rw [hraw, hlow, fromBits_single hL]
      simp only [← and_boxMask_iff, into, ne_eq, ite_not]

end Abstraction

/-! ## Operations -/

/-- The operations of the unit. -/
inductive FpuCmd (L : FloatLib) where
  | store (f : FloatFmt) (index : RegIdx) (value : L.Float f)
  | storeHost (f : FloatFmt) (index : RegIdx) (value : BitVec f.width.bits)
  | storeRaw (f : FloatFmt) (index : RegIdx) (value : WordType)
  | load (f : FloatFmt) (index : RegIdx)
  | loadRaw (index : RegIdx)
  | cvtUnsignedAndStore (f : FloatFmt) (index : RegIdx) (value : BitVec 128) (round : Round)
  | cvtSignedAndStore (f : FloatFmt) (index : RegIdx) (value : BitVec 128) (round : Round)
  | getAndCvtUnsigned (f : FloatFmt) (u : Width) (index : RegIdx) (round : Round)
  | getAndCvtSigned (f : FloatFmt) (u : Width) (index : RegIdx) (round : Round)
  | cvtFloatAndStore (f t : FloatFmt) (rd rs : RegIdx) (round : Round)
  | classify (f : FloatFmt) (rs : RegIdx)
  | compare (op : CmpOp) (f : FloatFmt) (rs1 rs2 : RegIdx)
  | minNum (f : FloatFmt) (rs1 rs2 rd : RegIdx)
  | maxNum (f : FloatFmt) (rs1 rs2 rd : RegIdx)
  | sqrt (f : FloatFmt) (rs rd : RegIdx) (round : Round)
  | binaryIgnoreCnan (op : SignInject) (f : FloatFmt) (rs1 rs2 rd : RegIdx)
  | binaryR (op : BinaryOpR) (f : FloatFmt) (rs1 rs2 rd : RegIdx) (round : Round)
  | ternaryR (op : TernaryOpR) (f : FloatFmt) (rs1 rs2 rs3 rd : RegIdx) (round : Round)

/-- What an operation returns. -/
inductive FpuAnswer where
  | done
  | bits (v : BitVec 128)
  | holds (b : Bool)
  | class (c : Option Classification)
  deriving DecidableEq

/-- What an operation does: its answer, the status it leaves if it leaves one, and
the float it writes to a register. -/
structure FpuEffect (L : FloatLib) where
  answer : FpuAnswer
  status : Option Status
  result : Option ((f : FloatFmt) × RegIdx × L.Float f)

section Run

variable {L : FloatLib}

/-- An operation on the unit as it is. -/
def SoftFPU.run (fpu : SoftFPU L) : FpuCmd L → FpuAnswer × SoftFPU L
  | .store f index value => (.done, fpu.store f index value)
  | .storeHost f index value => (.done, fpu.storeHost f index value)
  | .storeRaw f index value => (.done, fpu.storeRaw f index value)
  | .load f index => (.bits ((fpu.load f index).setWidth 128), fpu)
  | .loadRaw index => (.bits ((fpu.loadRaw index).setWidth 128), fpu)
  | .cvtUnsignedAndStore f index value round => (.done, fpu.cvtUnsignedAndStore f index value round)
  | .cvtSignedAndStore f index value round => (.done, fpu.cvtSignedAndStore f index value round)
  | .getAndCvtUnsigned f u index round =>
    let rst := fpu.getAndCvtUnsigned f u index round
    (.bits rst.1, rst.2)
  | .getAndCvtSigned f u index round =>
    let rst := fpu.getAndCvtSigned f u index round
    (.bits rst.1, rst.2)
  | .cvtFloatAndStore f t rd rs round => (.done, fpu.cvtFloatAndStore f t rd rs round)
  | .classify f rs => (.class (fpu.classify f rs), fpu)
  | .compare op f rs1 rs2 =>
    let rst := fpu.compare op f rs1 rs2
    (.holds rst.1, rst.2)
  | .minNum f rs1 rs2 rd => (.done, fpu.minNum f rs1 rs2 rd)
  | .maxNum f rs1 rs2 rd => (.done, fpu.maxNum f rs1 rs2 rd)
  | .sqrt f rs rd round => (.done, fpu.sqrt f rs rd round)
  | .binaryIgnoreCnan op f rs1 rs2 rd => (.done, fpu.execBinaryIgnoreCnan op f rs1 rs2 rd)
  | .binaryR op f rs1 rs2 rd round => (.done, fpu.execBinaryR op f rs1 rs2 rd round)
  | .ternaryR op f rs1 rs2 rs3 rd round => (.done, fpu.execTernaryR op f rs1 rs2 rs3 rd round)

namespace FpuEffect

/-- An operation that only answers. -/
def answering (answer : FpuAnswer) : FpuEffect L := ⟨answer, none, none⟩

/-- An operation that only writes. -/
def writing (f : FloatFmt) (rd : RegIdx) (value : L.Float f) : FpuEffect L :=
  ⟨.done, none, some ⟨f, rd, value⟩⟩

/-- Arithmetic. -/
def computing (f : FloatFmt) (rd : RegIdx) (status : Status) (value : L.Float f) : FpuEffect L :=
  ⟨.done, some status, some ⟨f, rd, value⟩⟩

/-- A conversion to an integer, of which a NaN has none. -/
def converting (o : FloatOps (L.Float f)) (x : L.Float f) (max : BitVec 128)
    (rst : StatusAnd (BitVec 128)) : FpuEffect L :=
  if o.isNan x then answering (.bits max) else ⟨.bits rst.value, some rst.status, none⟩

/-- The smaller or the larger of two numbers. -/
def picking (f : FloatFmt) (rd : RegIdx) (unify : Bool) (a b picked : L.Float f) (wantNegative : Bool) :
    FpuEffect L :=
  let o := L.ops f
  let signaling := o.isSignaling a || o.isSignaling b
  let zeros := o.isZero a && o.isZero b && o.isNegative a != o.isNegative b
  computing f rd (if signaling then .INVALID_OP else .OK)
    (if unify && o.isNan a && o.isNan b then o.qnan
    else if !signaling && zeros then if o.isNegative a = wantNegative then a else b
    else picked)

end FpuEffect

/-- What an operation does, given its operands, the registers as words, and
whether NaNs are unified. -/
def FpuCmd.effect (operand : (f : FloatFmt) → RegIdx → L.Float f) (raw : RegIdx → WordType)
    (unifyCnan : Bool) : FpuCmd L → FpuEffect L :=
  let unify {f : FloatFmt} (x : L.Float f) : L.Float f :=
    if unifyCnan && (L.ops f).isNan x then (L.ops f).qnan else x
  fun
  | .store f index value => .writing f index value
  | .storeHost f index value => .writing f index ((L.ops f).fromBits (value.setWidth 128))
  | .storeRaw f index value => .writing f index ((L.ops f).fromBits (value.setWidth 128))
  | .load f index =>
    .answering (.bits ((((L.ops f).toBits (operand f index)).setWidth f.width.bits).setWidth 128))
  | .loadRaw index => .answering (.bits ((raw index).setWidth 128))
  | .cvtUnsignedAndStore f index value round =>
    let rst := (L.ops f).fromU128R value round
    .computing f index rst.status rst.value
  | .cvtSignedAndStore f index value round =>
    let rst := (L.ops f).fromI128R value round
    .computing f index rst.status rst.value
  | .getAndCvtUnsigned f u index round =>
    let x := operand f index
    .converting (L.ops f) x (BitVec.ofNat 128 (2 ^ u.bits - 1)) ((L.ops f).toU128R x u.bits round)
  | .getAndCvtSigned f u index round =>
    let x := operand f index
    .converting (L.ops f) x (BitVec.ofNat 128 (2 ^ (u.bits - 1) - 1)) ((L.ops f).toI128R x u.bits round)
  | .cvtFloatAndStore f t rd rs round =>
    let rst := L.convertR f t (operand f rs) round
    .computing t rd rst.status (unify rst.value)
  | .classify f rs => .answering (.class (HereEmu.classify (L.ops f) (operand f rs)))
  | .compare op f rs1 rs2 =>
    let rst := op.apply (L.ops f) (operand f rs1) (operand f rs2)
    ⟨.holds rst.value, some rst.status, none⟩
  | .minNum f rs1 rs2 rd =>
    let a := operand f rs1
    let b := operand f rs2
    .picking f rd unifyCnan a b ((L.ops f).min a b) true
  | .maxNum f rs1 rs2 rd =>
    let a := operand f rs1
    let b := operand f rs2
    .picking f rd unifyCnan a b ((L.ops f).max a b) false
  | .sqrt f rs rd _ =>
    let x := operand f rs
    let root := (L.ops f).hostSqrt x
    .computing f rd (sqrtStatus (L.ops f) x root) (unify root)
  | .binaryIgnoreCnan op f rs1 rs2 rd =>
    .writing f rd (op.apply (L.ops f) (operand f rs1) (operand f rs2))
  | .binaryR op f rs1 rs2 rd round =>
    let rst := op.apply (L.ops f) (operand f rs1) (operand f rs2) round
    .computing f rd rst.status (unify rst.value)
  | .ternaryR op f rs1 rs2 rs3 rd round =>
    let rst := op.apply (L.ops f) (operand f rs1) (operand f rs2) (operand f rs3) round
    .computing f rd rst.status (unify rst.value)

/-- The unit after an operation. -/
def SoftFPU.apply (fpu : SoftFPU L) (e : FpuEffect L) : SoftFPU L where
  lastStatus := e.status.getD fpu.lastStatus
  regFile := match e.result with
    | none => fpu.regFile
    | some ⟨f, rd, value⟩ => Function.update fpu.regFile rd (.ofFloat f value)
  unifyCnan := fpu.unifyCnan

def RawFPU.apply (fpu : RawFPU) (e : FpuEffect L) : RawFPU where
  lastStatus := e.status.getD fpu.lastStatus
  regFile := match e.result with
    | none => fpu.regFile
    | some ⟨f, rd, value⟩ => Function.update fpu.regFile rd (wordOf f value)
  unifyCnan := fpu.unifyCnan

/-- An operation on plain registers. -/
def RawFPU.run (fpu : RawFPU) (cmd : FpuCmd L) : FpuAnswer × RawFPU :=
  let e := cmd.effect (fun f index => readWord f (fpu.regFile index)) fpu.regFile fpu.unifyCnan
  (e.answer, fpu.apply e)

theorem getAndCvt_eq (toInt : {f : FloatFmt} → FloatOps (L.Float f) → L.Float f → Nat → Round →
      StatusAnd (BitVec 128)) (max : BitVec 128) (fpu : SoftFPU L) (f : FloatFmt) (u : Width)
    (index : RegIdx) (round : Round) : let x := fpu.operand f index
    let e := FpuEffect.converting (L.ops f) x max (toInt (L.ops f) x u.bits round)
    let rst := getAndCvt toInt max fpu f u index round
    (FpuAnswer.bits rst.1, rst.2) = (e.answer, fpu.apply e) := by
  unfold getAndCvt FpuEffect.converting
  dsimp only
  split <;> rfl

theorem minMaxNum_eq
    (pick : {f : FloatFmt} → FloatOps (L.Float f) → L.Float f → L.Float f → L.Float f)
    (wantNegative : Bool) (fpu : SoftFPU L) (f : FloatFmt) (rs1 rs2 rd : RegIdx) :
    let a := fpu.operand f rs1
    let b := fpu.operand f rs2
    minMaxNum pick wantNegative fpu f rs1 rs2 rd =
      fpu.apply (.picking f rd fpu.unifyCnan a b (pick (L.ops f) a b) wantNegative) := by
  unfold minMaxNum FpuEffect.picking
  dsimp only [saveStatus]
  -- what is asked of the two numbers
  generalize ((L.ops f).isSignaling (fpu.operand f rs1) ||
    (L.ops f).isSignaling (fpu.operand f rs2)) = signaling
  generalize (fpu.unifyCnan && (L.ops f).isNan (fpu.operand f rs1) &&
    (L.ops f).isNan (fpu.operand f rs2)) = nans
  generalize ((L.ops f).isZero (fpu.operand f rs1) && (L.ops f).isZero (fpu.operand f rs2) &&
    (L.ops f).isNegative (fpu.operand f rs1) != (L.ops f).isNegative (fpu.operand f rs2)) = zeros
  cases signaling <;> cases nans <;> cases zeros <;> rfl

/-- Every operation does what its effect says and no more. -/
theorem SoftFPU.run_eq (fpu : SoftFPU L) (cmd : FpuCmd L) :
    let e := cmd.effect fpu.operand fpu.loadRaw fpu.unifyCnan
    fpu.run cmd = (e.answer, fpu.apply e) := by
  cases cmd with
  | getAndCvtUnsigned f u index round | getAndCvtSigned f u index round =>
    exact getAndCvt_eq _ _ fpu f u index round
  | minNum f rs1 rs2 rd | maxNum f rs1 rs2 rd =>
    exact congrArg (Prod.mk _) (minMaxNum_eq _ _ fpu f rs1 rs2 rd)
  | _ => rfl

end Run

/-! ## Refinement -/

section Refine

variable {L : FloatLib} (hL : L.Faithful)

include hL

theorem SoftFPU.raw_apply (fpu : SoftFPU L) (e : FpuEffect L) : (fpu.apply e).raw = fpu.raw.apply e := by
  have hregs : ∀ index, ((fpu.apply e).regFile index).raw = (fpu.raw.apply e).regFile index := by
    intro index
    obtain ⟨answer, status, result⟩ := e
    cases result with
    | none => rfl
    | some w =>
      obtain ⟨f, rd, value⟩ := w
      by_cases hrd : index = rd
      · subst hrd
        simp only [apply, RawFPU.apply, Function.update_self]
        exact raw_ofFloat hL f value
      · simp only [apply, RawFPU.apply, Function.update_of_ne hrd]
        rfl
  exact congrArg (RawFPU.mk _ · _) (funext hregs)

/-- An operation does to the plain registers what it does to the unit. -/
theorem SoftFPU.raw_run (fpu : SoftFPU L) (cmd : FpuCmd L) :
    fpu.raw.run cmd = ((fpu.run cmd).1, (fpu.run cmd).2.raw) := by
  have hoperand : (fun f index => readWord f (fpu.raw.regFile index)) = fpu.operand :=
    funext fun f => funext fun index => readWord_raw hL f (fpu.regFile index)
  have hraw : fpu.raw.regFile = fpu.loadRaw := rfl
  unfold RawFPU.run
  rw [hoperand, hraw, run_eq]
  rw [raw_apply hL]
  rfl

end Refine

section Instr

variable {L : FloatLib}

def SoftFPU.step (fpu : SoftFPU L) (cmd : FpuCmd L) : Rust (FpuAnswer × SoftFPU L) := .ok (fpu.run cmd)

def RawFPU.step (fpu : RawFPU) (cmd : FpuCmd L) : Rust (FpuAnswer × RawFPU) := .ok (fpu.run cmd)

namespace FloatFunc

/-- The operation an instruction asks of the unit, and the integer registers once
it has its answer. -/
def command (stack : Nat) (func : FloatFunc) (info : RVInstrInfo) (regFile : RegIdx → WordType)
    (fcsr : WordType) : Option (FpuCmd L × (FpuAnswer → Option (RegIdx → WordType))) :=
  let keep : FpuAnswer → Option (RegIdx → WordType) := fun _ => some regFile
  match func, info with
  | arithR4Rm f op, .R4_rm rs1 rs2 rs3 rd rm =>
    (rmToRound fcsr stack rm).map fun round => (.ternaryR op f rs1 rs2 rs3 rd round, keep)
  | arithRm f op, .R_rm rs1 rs2 rd rm =>
    (rmToRound fcsr stack rm).map fun round => (.binaryR op f rs1 rs2 rd round, keep)
  | arith f op, .R rs1 rs2 rd => some (.binaryIgnoreCnan op f rs1 rs2 rd, keep)
  | sqrt f, .R_rm rs1 _ rd rm =>
    (rmToRound fcsr stack rm).map fun round => (.sqrt f rs1 rd round, keep)
  | cvtUFromF f u, .R_rm rs1 _ rd rm =>
    (rmToRound fcsr stack rm).map fun round => (.getAndCvtUnsigned f u rs1 round, fun
      | .bits v => some (writeX regFile rd (cvtResult u v))
      | _ => none)
  | cvtIFromF f u, .R_rm rs1 _ rd rm =>
    (rmToRound fcsr stack rm).map fun round => (.getAndCvtSigned f u rs1 round, fun
      | .bits v => some (writeX regFile rd (cvtResult u v))
      | _ => none)
  | cvtFFromU f bits, .R_rm rs1 _ rd rm =>
    (rmToRound fcsr stack rm).map fun round =>
      (.cvtUnsignedAndStore f rd ((truncateToBits (regFile rs1) bits).setWidth 128) round, keep)
  | cvtFFromI f _, .R_rm rs1 _ rd rm =>
    (rmToRound fcsr stack rm).map fun round =>
      (.cvtSignedAndStore f rd ((regFile rs1).signExtend 128) round, keep)
  | cvtFloat f t, .R_rm rs1 _ rd rm =>
    (rmToRound fcsr stack rm).map fun round => (.cvtFloatAndStore f t rd rs1 round, keep)
  | compare op f, .R rs1 rs2 rd =>
    some (.compare op f rs1 rs2, fun
      | .holds b => some (writeX regFile rd (if b then 1 else 0))
      | _ => none)
  | classify f, .R rs1 _ rd =>
    some (.classify f rs1, fun
      | .class c => c.map fun c => writeX regFile rd c.bits
      | _ => none)
  | mvXFromF _ extend, .R rs1 _ rd =>
    some (.loadRaw rs1, fun
      | .bits v =>
        let rst := v.setWidth 64
        some (writeX regFile rd (if extend then signExtend rst 32 else rst))
      | _ => none)
  | mvFFromX f, .R rs1 _ rd => some (.storeRaw f rd (regFile rs1), keep)
  | min f, .R rs1 rs2 rd => some (.minNum f rs1 rs2 rd, keep)
  | max f, .R rs1 rs2 rd => some (.maxNum f rs1 rs2 rd, keep)
  | _, _ => none

/-- A float instruction on plain registers. -/
def rawExec (L : FloatLib) (stack : Nat) (func : FloatFunc) (info : RVInstrInfo)
    (regFile : RegIdx → WordType) (fcsr : WordType) (fpu : RawFPU) :
    Option (RawFPU × (RegIdx → WordType)) := do
  let (cmd, write) ← func.command (L := L) stack info regFile fcsr
  let (answer, fpu) := fpu.run cmd
  return (fpu, ← write answer)

variable {func : FloatFunc} {stack : Nat} {info : RVInstrInfo} {regFile : RegIdx → WordType}
  {fcsr : WordType}

/-- Every instruction is its operation. -/
theorem exec_eq_command (fpu : SoftFPU L) : func.exec stack info regFile fcsr fpu =
    (func.command stack info regFile fcsr).bind fun c =>
      (c.2 (fpu.run c.1).1).map fun regFile' => ((fpu.run c.1).2, regFile') := by
  have hrounded : ∀ (rm : BitVec 3) (op : Round → SoftFPU L × (RegIdx → WordType))
      (cmd : Round → FpuCmd L) (write : FpuAnswer → Option (RegIdx → WordType)),
      (∀ round, some (op round) = (write (fpu.run (cmd round)).1).map fun regFile' =>
        ((fpu.run (cmd round)).2, regFile')) →
      (rmToRound fcsr stack rm).map op = ((rmToRound fcsr stack rm).map fun round =>
        (cmd round, write)).bind fun c =>
          (c.2 (fpu.run c.1).1).map fun regFile' => ((fpu.run c.1).2, regFile') := by
    intro rm op cmd write h
    cases rmToRound fcsr stack rm with
    | none => rfl
    | some round => exact h round
  cases func with
  | arithR4Rm f op =>
    cases info with
    | R4_rm rs1 rs2 rs3 rd rm => exact hrounded rm _ _ _ fun _ => rfl
    | _ => rfl
  | arithRm _ _ | sqrt _ | cvtUFromF _ _ | cvtIFromF _ _ | cvtFFromU _ _ | cvtFFromI _ _
  | cvtFloat _ _ =>
    cases info with
    | R_rm rs1 rs2 rd rm => exact hrounded rm _ _ _ fun _ => rfl
    | _ => rfl
  | classify f =>
    cases info with
    | R rs1 rs2 rd =>
      show (fpu.classify f rs1).map _ = ((fpu.classify f rs1).map _).map _
      rw [Option.map_map]
      rfl
    | _ => rfl
  | mvXFromF f extend =>
    cases info with
    | R rs1 rs2 rd =>
      have hword : ((fpu.loadRaw rs1).setWidth 128).setWidth 64 = fpu.loadRaw rs1 := by simp
      simp only [exec, command, run, Option.bind_some, hword, Option.map_some]
    | _ => rfl
  | _ => cases info <;> rfl

end FloatFunc

/-- The unit behaves as plain registers of 64 bits: it starts with boxed zeros in
them, and every sequence of operations and every instruction gives the same
answers and leaves the same registers. -/
theorem nan_boxed_refinement (hL : L.Faithful) :
    (∀ unifyCnan, (new unifyCnan : SoftFPU L).raw = ⟨.OK, fun _ => boxed 0, unifyCnan⟩) ∧
    (∀ (fpu : SoftFPU L) (cmds : List (FpuCmd L)), runAll RawFPU.step fpu.raw cmds =
      (runAll step fpu cmds).map fun out => (out.1, out.2.raw)) ∧
    ∀ (fpu : SoftFPU L) (func : FloatFunc) (stack : Nat) (info : RVInstrInfo)
      (regFile : RegIdx → WordType) (fcsr : WordType),
      func.rawExec L stack info regFile fcsr fpu.raw =
        (func.exec stack info regFile fcsr fpu).map fun out => (out.1.raw, out.2) := by
  refine ⟨fun unifyCnan => ?_, fun fpu cmds => ?_, fun fpu func stack info regFile fcsr => ?_⟩
  · have hzero : (APFloat.single ((L.ops .f32).fromBits 0)).raw = boxed 0 := by
      have hbits : (L.ops .f32).toBits ((L.ops .f32).fromBits 0) = 0 := hL.toBits_fromBits .f32 0
      have hraw : (APFloat.single ((L.ops .f32).fromBits 0)).raw =
        boxed (((L.ops .f32).toBits _).setWidth 32) := raw_ofFloat hL .f32 _
      rw [hraw, hbits]
      rfl
    exact congrArg (RawFPU.mk .OK · unifyCnan) (funext fun _ => hzero)
  · exact runAll_map (fun fpu cmd => congrArg Except.ok (raw_run hL fpu cmd)) fpu cmds
  · rw [FloatFunc.exec_eq_command]
    unfold FloatFunc.rawExec
    cases func.command (L := L) stack info regFile fcsr with
    | none => rfl
    | some c =>
      simp only [Option.bind_eq_bind, Option.bind_some, raw_run hL]
      cases c.2 (fpu.run c.1).1 <;> rfl

end Instr

theorem bitFloats_faithful : bitPlatform.floats.Faithful where
  toBits_fromBits f bits := by cases f <;> rfl
  fromBits_toBits f x := by
    show (x.setWidth 128).setWidth _ = x
    cases f <;> exact BitVec.setWidth_setWidth_of_le _ (by decide)

/-- A double is read as a single, which it is not, and overwritten by one. -/
def mixedCmds : List (FpuCmd bitPlatform.floats) :=
  [.storeRaw .f64 1 0x3ff0000000000000, .load .f32 1, .storeRaw .f32 1 0x3f800000, .load .f64 1,
    .load .f32 1, .binaryIgnoreCnan .neg .f32 1 1 2, .loadRaw 2]

theorem nan_boxed_refinement_mixed :
    ∃ fpu, runAll step (new true) mixedCmds = .ok ([.done, .bits 0x7fc00000, .done,
      .bits 0xffffffff3f800000, .bits 0x3f800000, .done, .bits 0xffffffffbf800000], fpu) ∧
      fpu.raw.regFile 2 = 0xffffffffbf800000 := by
  obtain ⟨hnew, hruns, -⟩ := nan_boxed_refinement bitFloats_faithful
  obtain ⟨out, hout, hanswers, hreg⟩ : ∃ out, runAll RawFPU.step ⟨.OK, fun _ => boxed 0, true⟩
      mixedCmds = .ok out ∧ out.1 = [.done, .bits 0x7fc00000, .done, .bits 0xffffffff3f800000,
        .bits 0x3f800000, .done, .bits 0xffffffffbf800000] ∧
        out.2.regFile 2 = 0xffffffffbf800000 := by decide +kernel
  rw [← hnew true, hruns] at hout
  obtain ⟨⟨answers, fpu⟩, hrun, rfl⟩ := exists_of_map_ok hout
  exact ⟨fpu, by rw [hrun, ← hanswers], hreg⟩

end HereEmu
