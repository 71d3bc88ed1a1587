import HereEmu.Instr.ExecFloat
import HereEmu.Proofs.InstrFrame

/-!
# The flags an instruction leaves

A float instruction that completes copies the status the float unit holds into
`fflags`, whatever was there. So what it leaves depends on whether its operation
has set that status. Arithmetic, conversions and comparisons do; loads, stores,
moves, sign injections and the classification do not, and neither does the
conversion of a NaN to an integer. The compressed stores do not copy anything.

Against this stand the flags the instruction raises (`raised`): those its
operation reports, none for the instructions that are no arithmetic, and an
invalid operation for a NaN that is converted.
-/

namespace HereEmu

open Lib (Exec)
open Lib.Exec (Spec Along)
open RVCPU

/-! ## Instructions that leave the float unit alone -/

section Frame

variable {P : Platform}

structure SameFloat (s s' : RVCPU P) : Prop where
  fpu : s'.fpu = s.fpu
  fcsr : s'.csr.value .fcsr = s.csr.value .fcsr

theorem SameFloat.refl (s : RVCPU P) : SameFloat s s := ⟨rfl, rfl⟩

theorem SameFloat.trans {s t u : RVCPU P} (h : SameFloat s t) (h' : SameFloat t u) : SameFloat s u :=
  ⟨h'.fpu.trans h.fpu, h'.fcsr.trans h.fcsr⟩

instance SameFloat.preorder : IsPreorder (RVCPU P) SameFloat where
  refl := .refl
  trans _ _ _ := .trans

/-- An access to memory, whatever it does there. -/
theorem Within.access {ε α : Type} {access : AccessType} {addr : WordType}
    {toException : ε → Exception} {m : AccessPolicy → Exec PanicSite ε (VirtAddrManager P.bus) α} :
    Within SameFloat (do
      let policy ← RVCPU.dataPolicy access
      RVCPU.finishMemoryAccess addr toException (m policy)) := by
  refine Within.bind (.get_bind fun _ => .lift _) fun policy s => ?_
  exact finishMemoryAccess_spec (.of_ends fun _ _ _ => trivial) (fun _ _ _ => ⟨rfl, rfl⟩)
    fun _ _ _ => ⟨rfl, rfl⟩

instance SameFloat.cpuRel : CpuRel (SameFloat : RVCPU P → RVCPU P → Prop) where
  plain _ _ _ hfpu _ hcsr := ⟨hfpu, hcsr .fcsr (by decide)⟩
  vector _ _ _ hfpu hfcsr := ⟨hfpu, hfcsr⟩
  flushTlb _ := ⟨rfl, rfl⟩
  read _ _ := Within.access
  write _ _ _ := Within.access
  storeConditional _ _ _ := Within.access
  fetchAndOpAmo _ _ _ := Within.access

/-- The vector unit has the memory and its own registers. -/
theorem Within.execVectorMem (op : VectorMemOp) (info : RVInstrInfo) :
    Within SameFloat (execVectorMem op info : CpuM P Unit) := fun s =>
  exec_vector_spec (f := .vectorMem op) rfl (fun _ _ => trivial) (fun _ => .refl s)
    (fun _ _ _ _ => ⟨rfl, VectorEnd.value_state (by decide)⟩)
    fun _ _ _ => ⟨rfl, VectorEnd.value_vectorRetired (by decide)⟩

/-- No other instruction touches the float unit or its register. -/
theorem Within.exec_other {f : ExecFunc P.FloatOp P.VectorOp} (hfloat : f.isFloat = false)
    (hcsr : f.isCsr = false) (info : RVInstrInfo) : Within SameFloat (RVCPU.exec f info : CpuM P Unit) := by
  refine .exec (fun _ _ _ => .access) (fun h => ?_) ?_ Within.execVectorMem hcsr info
  · cases hfloat.symm.trans h
  · rintro ⟨op, rfl⟩
    cases hfloat

end Frame

/-! ## The status of an operation -/

/-- The flags of a status, in the order of `fflags`. -/
def Status.toFflags (status : Status) : BitVec 5 := (statusToFflags status).setWidth 5

section Status

variable {L : FloatLib} {fpu fpu' : SoftFPU L} {stack : Nat} {func : FloatFunc} {info : RVInstrInfo}
  {regFile regFile' : RegIdx → WordType} {fcsr : WordType}

/-- The flags an instruction raises. The operations of the library report theirs,
those that are no arithmetic have none, and there is no integer for a NaN. -/
def FloatFunc.raised (stack : Nat) (func : FloatFunc) (info : RVInstrInfo)
    (regFile : RegIdx → WordType) (fcsr : WordType) (fpu : SoftFPU L) : Status :=
  let rounded (rm : BitVec 3) (status : Round → Status) : Status :=
    ((rmToRound fcsr stack rm).map status).getD .OK
  match func, info with
  | arithR4Rm f op, .R4_rm rs1 rs2 rs3 _ rm => rounded rm fun round =>
    (op.apply (L.ops f) (fpu.operand f rs1) (fpu.operand f rs2) (fpu.operand f rs3) round).status
  | arithRm f op, .R_rm rs1 rs2 _ rm => rounded rm fun round =>
    (op.apply (L.ops f) (fpu.operand f rs1) (fpu.operand f rs2) round).status
  | sqrt f, .R_rm rs1 _ _ _ =>
    SoftFPU.sqrtStatus (L.ops f) (fpu.operand f rs1) ((L.ops f).hostSqrt (fpu.operand f rs1))
  | cvtUFromF f u, .R_rm rs1 _ _ rm => rounded rm fun round =>
    if (L.ops f).isNan (fpu.operand f rs1) then .INVALID_OP
    else ((L.ops f).toU128R (fpu.operand f rs1) u.bits round).status
  | cvtIFromF f u, .R_rm rs1 _ _ rm => rounded rm fun round =>
    if (L.ops f).isNan (fpu.operand f rs1) then .INVALID_OP
    else ((L.ops f).toI128R (fpu.operand f rs1) u.bits round).status
  | cvtFFromU f bits, .R_rm rs1 _ _ rm => rounded rm fun round =>
    ((L.ops f).fromU128R ((truncateToBits (regFile rs1) bits).setWidth 128) round).status
  | cvtFFromI f _, .R_rm rs1 _ _ rm => rounded rm fun round =>
    ((L.ops f).fromI128R ((regFile rs1).signExtend 128) round).status
  | cvtFloat f t, .R_rm rs1 _ _ rm => rounded rm fun round =>
    (L.convertR f t (fpu.operand f rs1) round).status
  | compare op f, .R rs1 rs2 _ =>
    (op.apply (L.ops f) (fpu.operand f rs1) (fpu.operand f rs2)).status
  | min f, .R rs1 rs2 _ | max f, .R rs1 rs2 _ =>
    if (L.ops f).isSignaling (fpu.operand f rs1) || (L.ops f).isSignaling (fpu.operand f rs2) then
      .INVALID_OP
    else .OK
  | _, _ => .OK

/-- The operation sets the status of the unit. -/
def FloatFunc.reports (func : FloatFunc) (info : RVInstrInfo) (fpu : SoftFPU L) : Bool :=
  match func, info with
  | arith _ _, _ | classify _, _ | mvXFromF _ _, _ | mvFFromX _, _ => false
  | cvtUFromF f _, .R_rm rs1 _ _ _ | cvtIFromF f _, .R_rm rs1 _ _ _ =>
    !(L.ops f).isNan (fpu.operand f rs1)
  | _, _ => true

/-- Moves between the register files, sign injections and classification. -/
def FloatFunc.isSilent : FloatFunc → Bool
  | arith _ _ | classify _ | mvXFromF _ _ | mvFFromX _ => true
  | _ => false

theorem FloatFunc.raised_of_silent (h : func.isSilent) :
    func.raised stack info regFile fcsr fpu = .OK := by
  cases func with
  | arith _ _ | classify _ | mvXFromF _ _ | mvFFromX _ => rfl
  | _ => cases h

/-- A NaN is converted to an integer. -/
def FloatFunc.convertsNan (func : FloatFunc) (info : RVInstrInfo) (fpu : SoftFPU L) : Bool :=
  match func, info with
  | cvtUFromF f _, .R_rm rs1 _ _ _ | cvtIFromF f _, .R_rm rs1 _ _ _ =>
    (L.ops f).isNan (fpu.operand f rs1)
  | _, _ => false

theorem FloatFunc.raised_of_nan (h : func.exec stack info regFile fcsr fpu = some (fpu', regFile'))
    (hnan : func.convertsNan info fpu) : func.raised stack info regFile fcsr fpu = .INVALID_OP := by
  unfold convertsNan at hnan
  split at hnan
  · obtain ⟨round, hround, -⟩ := Option.map_eq_some_iff.mp h
    simp [raised, hround, hnan]
  · obtain ⟨round, hround, -⟩ := Option.map_eq_some_iff.mp h
    simp [raised, hround, hnan]
  · cases hnan

/-! What is left as the status of the unit where it depends on the operands. -/

namespace SoftFPU

variable {f t : FloatFmt} {rs1 rs2 rs3 rd : RegIdx} {round : Round}

/-- A NaN leaves the status as it was. -/
theorem lastStatus_getAndCvt
    (toInt : {f : FloatFmt} → FloatOps (L.Float f) → L.Float f → Nat → Round →
      StatusAnd (BitVec 128)) (max : BitVec 128) (u : Width) :
    (getAndCvt toInt max fpu f u rs1 round).2.lastStatus =
      if (L.ops f).isNan (fpu.operand f rs1) then fpu.lastStatus
      else (toInt (L.ops f) (fpu.operand f rs1) u.bits round).status := by
  unfold getAndCvt
  dsimp only
  split <;> rfl

theorem lastStatus_minMaxNum
    (pick : {f : FloatFmt} → FloatOps (L.Float f) → L.Float f → L.Float f → L.Float f)
    (wantNegative : Bool) : (minMaxNum pick wantNegative fpu f rs1 rs2 rd).lastStatus =
      if (L.ops f).isSignaling (fpu.operand f rs1) || (L.ops f).isSignaling (fpu.operand f rs2) then
        .INVALID_OP
      else .OK := by
  unfold minMaxNum
  dsimp only
  split
  · split <;> rfl
  · split
    · rfl
    · split <;> rfl

end SoftFPU

theorem FloatFunc.exec_lastStatus
    (h : func.exec stack info regFile fcsr fpu = some (fpu', regFile')) :
    fpu'.lastStatus = if func.reports info fpu then func.raised stack info regFile fcsr fpu
      else fpu.lastStatus := by
  unfold FloatFunc.exec at h
  split at h
  -- the operations that do not round
  any_goals
    cases h
    first
    | rfl
    | exact SoftFPU.lastStatus_minMaxNum _ _
  -- those that round did so in some mode
  any_goals
    obtain ⟨round, hround, hout⟩ := Option.map_eq_some_iff.mp h
    obtain ⟨rfl, -⟩ := Prod.mk.inj hout
    simp only [raised, hround]
    first
    | rfl
    | -- a conversion to an integer, of a NaN or of a number
      refine (SoftFPU.lastStatus_getAndCvt _ _ _).trans ?_
      unfold reports
      split <;> simp_all
  -- the operands of another instruction
  cases h

end Status

end HereEmu
