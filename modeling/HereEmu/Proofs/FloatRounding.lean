import HereEmu.Proofs.FloatOff

/-!
# The rounding mode of a float instruction

An instruction names its rounding mode, or leaves it to `fcsr`. `rm_to_round`
finds it by calling itself with the mode of `fcsr`, and so with the same mode
for ever once that says "dynamic" too. The two modes that are left over are not
refused either: they round to nearest. For the five modes there are, the
operation is carried out in the one asked for, but for the square root, which is
the host's and rounds to nearest in any mode.
-/

namespace HereEmu

open Lib (Exec exists_of_map_ok)
open Lib.Exec (Along)
open RVCPU CsrRegFile

/-! ## Resolving -/

section Resolve

variable {fcsr : WordType} {rm mode : BitVec 3} {round : Round}

end Resolve

/-! ## Executing -/

namespace FloatFunc

variable {L : FloatLib} {func : FloatFunc} {info : RVInstrInfo} {mode : BitVec 3} {round : Round}
  {fcsr : WordType}

/-- The field an instruction that rounds has for its mode. -/
def rm : FloatFunc → RVInstrInfo → Option (BitVec 3)
  | arithR4Rm _ _, .R4_rm _ _ _ _ rm => some rm
  | arithRm _ _, .R_rm _ _ _ rm | sqrt _, .R_rm _ _ _ rm | cvtUFromF _ _, .R_rm _ _ _ rm
  | cvtIFromF _ _, .R_rm _ _ _ rm | cvtFFromU _ _, .R_rm _ _ _ rm | cvtFFromI _ _, .R_rm _ _ _ rm
  | cvtFloat _ _, .R_rm _ _ _ rm => some rm
  | _, _ => none

section Sqrt

variable (sqrtR : (f : FloatFmt) → L.Float f → Round → L.Float f)

/-- What an instruction that rounds does in a given mode, with square roots that
round in it as well. -/
def rounded (func : FloatFunc) (info : RVInstrInfo) (regFile : RegIdx → WordType) (fpu : SoftFPU L)
    (round : Round) : SoftFPU L × (RegIdx → WordType) :=
  match func, info with
  | arithR4Rm f op, .R4_rm rs1 rs2 rs3 rd _ => (fpu.execTernaryR op f rs1 rs2 rs3 rd round, regFile)
  | arithRm f op, .R_rm rs1 rs2 rd _ => (fpu.execBinaryR op f rs1 rs2 rd round, regFile)
  | sqrt f, .R_rm rs1 _ rd _ =>
    let x := fpu.operand f rs1
    let root := sqrtR f x round
    ((fpu.saveStatus (SoftFPU.sqrtStatus (L.ops f) x root)).store f rd (fpu.unify f root), regFile)
  | cvtUFromF f u, .R_rm rs1 _ rd _ =>
    let rst := fpu.getAndCvtUnsigned f u rs1 round
    (rst.2, writeX regFile rd (cvtResult u rst.1))
  | cvtIFromF f u, .R_rm rs1 _ rd _ =>
    let rst := fpu.getAndCvtSigned f u rs1 round
    (rst.2, writeX regFile rd (cvtResult u rst.1))
  | cvtFFromU f bits, .R_rm rs1 _ rd _ =>
    (fpu.cvtUnsignedAndStore f rd ((truncateToBits (regFile rs1) bits).setWidth 128) round, regFile)
  | cvtFFromI f _, .R_rm rs1 _ rd _ =>
    (fpu.cvtSignedAndStore f rd ((regFile rs1).signExtend 128) round, regFile)
  | cvtFloat f t, .R_rm rs1 _ rd _ => (fpu.cvtFloatAndStore f t rd rs1 round, regFile)
  | _, _ => (fpu, regFile)

variable {sqrtR}

end Sqrt

end FloatFunc

section Exec

variable {H : SoftPlatform} {s : RVCPU H.platform} {op : FloatInstr} {info : RVInstrInfo}

end Exec

/-! ## Instructions -/

/-- Whether the last digit goes up, by how what is cut off compares with nothing
and with one half of it. -/
def Round.up (negative odd inexact : Bool) (half : Ordering) : Round → Bool
  | nearestTiesToEven => half == .gt || half == .eq && odd
  | nearestTiesToAway => half != .lt
  | towardZero => false
  | towardPositive => inexact && !negative
  | towardNegative => inexact && negative

/-- The float of a significand that has its leading digit in place. A carry goes
on to the exponent. -/
def FloatFmt.pack (f : FloatFmt) (negative : Bool) (exponent significand : Nat) : FloatBits f :=
  let magnitude := exponent * 2 ^ f.fraction + (significand - 2 ^ f.fraction)
  .ofNat _ ((if negative then 2 ^ (f.exponent + f.fraction) else 0) + magnitude)

def FloatFmt.bias (f : FloatFmt) : Nat := 2 ^ (f.exponent - 1) - 1

/-- An integer as a float. -/
def ofIntR (f : FloatFmt) (n : Int) (round : Round) : StatusAnd (FloatBits f) :=
  let negative := n < 0
  let digits := n.natAbs.log2
  if n = 0 then ⟨.OK, 0⟩
  else if digits ≤ f.fraction then
    ⟨.OK, f.pack negative (f.bias + digits) (n.natAbs * 2 ^ (f.fraction - digits))⟩
  else
    let cut := 2 ^ (digits - f.fraction)
    let q := n.natAbs / cut
    let r := n.natAbs % cut
    let up := round.up negative (q % 2 == 1) (r != 0) (compare (2 * r) cut)
    ⟨if r = 0 then .OK else .INEXACT, f.pack negative (f.bias + digits) (if up then q + 1 else q)⟩

/-- The integer square root, digit by digit. -/
def intSqrt (bits n : Nat) : Nat :=
  (List.range bits).foldr (fun i root => if (root + 2 ^ i) ^ 2 ≤ n then root + 2 ^ i else root) 0

/-- The square root of a positive normal number. -/
def sqrtR (f : FloatFmt) (x : FloatBits f) (round : Round) : FloatBits f :=
  if !(bitOps f).isNormal x || (bitOps f).isNegative x then (bitOps f).qnan
  else
    let exponent := x.toNat / 2 ^ f.fraction
    let m := 2 ^ f.fraction + x.toNat % 2 ^ f.fraction
    let n := m * 2 ^ (f.fraction + (exponent + f.bias) % 2)
    let q := intSqrt (f.fraction + 1) n
    let up := round.up false (q % 2 == 1) (n != q ^ 2) (compare (n - q ^ 2) q)
    f.pack false ((exponent + f.bias) / 2) (if up then q + 1 else q)

/-- Floats as their bits, with integers turned into them. Square roots round to
nearest, as those of the host do. -/
def roundPlatform : SoftPlatform :=
  { bitPlatform with
    floats :=
      { Float := FloatBits
        ops := fun f =>
          { bitOps f with
            fromU128R := fun n => ofIntR f n.toNat
            fromI128R := fun n => ofIntR f n.toInt
            hostSqrt := fun x => sqrtR f x .nearestTiesToEven }
        convertR := bitPlatform.floats.convertR } }

/-- A machine just reset with the float unit on, some `fcsr`, a number in `x1`
and its bits in `f1`. -/
def roundCpu (fcsr x : WordType) : RVCPU roundPlatform.platform :=
  let s : RVCPU roundPlatform.platform := .reset _ { ram := .new, devices := () } none
    fun r => if r = 1 then x else 0
  { s with csr := (s.csr.setValue .mstatus 0x2000).setValue .fcsr fcsr, fpu := s.fpu.storeRaw .f32 1 x }

/-- How an instruction ends, and `f2` after it. -/
def roundRun (op : FloatInstr) (rm : BitVec 3) (fcsr x : WordType) :
    Rust (Except Exception Unit × WordType) :=
  ((execute ⟨.float op, .R_rm 1 0 2 rm⟩).run (roundCpu fcsr x)).map fun out =>
    (out.1, out.2.fpu.loadRaw 2)

end HereEmu
