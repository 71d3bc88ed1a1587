import HereEmu.Proofs.FloatStatus

/-!
# The flags a float instruction leaves

By design the flags in `fcsr` accrue: an instruction adds those it raises. Here
a float instruction that completes replaces them by the status of the float
unit, so it keeps to the design exactly when that status makes up for the flags
already set (`AccruesFlags`, `accrues_iff`):

* one whose operation sets the status must raise every flag that is set again;
* one whose operation does not must find in the status, left by some operation
  before it, just the flags that are set and those it raises.
-/

namespace HereEmu

open Lib (Exec)
open Lib.Exec (Along Spec)
open RVCPU CsrRegFile

/-! ## Copying the status -/

section Copy

variable {P : Platform} {s s' : RVCPU P} {m : CpuM P Unit}

/-- The accrued flags. -/
def RVCPU.fflags (s : RVCPU P) : BitVec 5 := (s.csr.value .fcsr).setWidth 5

theorem SameFloat.fflags (h : SameFloat s s') : s'.fflags = s.fflags :=
  congrArg (BitVec.setWidth 5) h.fcsr

theorem setWidth_put_fflags (v : WordType) (flags : BitVec 5) :
    ((BitField.mk 0 5).put v (flags.setWidth 64)).setWidth 5 = flags := by
  refine BitVec.eq_of_getLsbD_eq fun i hi => ?_
  rw [BitVec.getLsbD_setWidth, BitField.getLsbD_put (by decide), if_pos ⟨Nat.zero_le i, by omega⟩]
  simp [hi, show i < 64 by omega]

/-- The status the body leaves is copied. -/
theorem copies_status (h : (do requireFloat; m; saveFflags).run s = .ok (.ok (), s')) :
    ∃ s₁, m.run s = .ok (.ok (), s₁) ∧ s'.fflags = P.fpuLastStatus s₁.fpu := by
  rw [run_requireFloat_bind] at h
  split at h
  · cases h
  · obtain ⟨_, s₁, hm, hsave⟩ := Exec.run_bind_eq_ok h
    rw [run_saveFflags] at hsave
    cases hsave
    exact ⟨s₁, hm, (congrArg _ setValue_same).trans (setWidth_put_fflags _ _)⟩

end Copy

/-! ## The law -/

section Instr

variable {H : SoftPlatform} {s s' : RVCPU H.platform} {f : ExecFunc FloatInstr H.VectorOp}
  {info : RVInstrInfo}

/-- The flags of the status of the float unit. -/
def lastFlags (s : RVCPU H.platform) : BitVec 5 := s.fpu.lastStatus.toFflags

/-- The flags an instruction raises. Loads and stores raise none. -/
def raisedFlags (s : RVCPU H.platform) : ExecFunc FloatInstr H.VectorOp → RVInstrInfo → BitVec 5
  | .float op, info =>
    ((getFloatFunc op).raised H.stack info s.regFile (s.csr.value .fcsr) s.fpu).toFflags
  | _, _ => 0

def reportsFlags (s : RVCPU H.platform) : ExecFunc FloatInstr H.VectorOp → RVInstrInfo → Bool
  | .float op, info => (getFloatFunc op).reports info s.fpu
  | _, _ => false

/-- The status is copied by all float instructions but the compressed stores. -/
def ExecFunc.copiesStatus {F V : Type} : ExecFunc F V → Bool
  | .floatLoad _ | .floatStore _ | .float _ | .compressFloatLoad _ | .compressFloatLoadSp _ => true
  | _ => false

/-- The flags that are set survive the instruction, and those it raises are added. -/
def AccruesFlags (s : RVCPU H.platform) (f : ExecFunc FloatInstr H.VectorOp) (info : RVInstrInfo) :
    Prop :=
  if f.copiesStatus then
    if reportsFlags s f info then s.fflags &&& ~~~raisedFlags s f info = 0
    else lastFlags s = s.fflags ||| raisedFlags s f info
  else True

instance : Decidable (AccruesFlags s f info) := by
  unfold AccruesFlags
  infer_instance

/-! ### Loads and stores -/

def SameStatus (s s' : RVCPU H.platform) : Prop := lastFlags s' = lastFlags s

theorem SameFloat.sameStatus (h : SameFloat s s') : SameStatus s s' := by
  unfold SameStatus lastFlags
  rw [h.fpu]

instance SameStatus.cpuRel : CpuRel (SameStatus : RVCPU H.platform → RVCPU H.platform → Prop) where
  refl _ := rfl
  trans _ _ _ h h' := h'.trans h
  plain s s' hmem hfpu hvec hcsr :=
    (FrameRel.plain (R := SameFloat) s s' hmem hfpu hvec hcsr).sameStatus
  vector s s' hmem hfpu hfcsr := (CpuRel.vector (R := SameFloat) s s' hmem hfpu hfcsr).sameStatus
  flushTlb _ := rfl
  read w a s := (CpuRel.read (R := SameFloat) w a s).mono fun _ _ h => h.sameStatus
  write w a data s := (CpuRel.write (R := SameFloat) w a data s).mono fun _ _ h => h.sameStatus
  storeConditional w a data s :=
    (CpuRel.storeConditional (R := SameFloat) w a data s).mono fun _ _ h => h.sameStatus
  fetchAndOpAmo w a f s :=
    (CpuRel.fetchAndOpAmo (R := SameFloat) w a f s).mono fun _ _ h => h.sameStatus

/-- An operation of the float unit that completed. -/
theorem floatExec_of_run {op : FloatInstr} (h : (exec (.float op) info).run s = .ok (.ok (), s')) :
    ∃ fpu' regFile', (getFloatFunc op).exec H.stack info s.regFile (s.csr.value .fcsr) s.fpu =
      some (fpu', regFile') ∧ s'.fflags = fpu'.lastStatus.toFflags := by
  obtain ⟨s₂, hbody, hflags⟩ := copies_status h
  obtain ⟨_, s₁, hm, hfinish⟩ := Exec.run_bind_eq_ok hbody
  have hfpu : s₂.fpu = s₁.fpu := (Along.elim (Within.finish (R := SameFloat) 4) hfinish).fpu
  rw [hfpu] at hflags
  rw [Exec.run_bind_ok (Exec.run_get s)] at hm
  cases hexec : H.platform.floatExec op info s.regFile (s.csr.value .fcsr) s.fpu with
  | none =>
    rw [hexec] at hm
    cases hm
  | some out =>
    rw [hexec] at hm
    cases hm
    exact ⟨out.1, out.2, hexec, hflags⟩

/-- Loads and stores leave the status alone, those of the float unit as well. -/
theorem course_copies (info : RVInstrInfo) (hf : f.copiesStatus)
    (hop : ∀ op, f ≠ .float op) : ∃ c, course s f info = .float c ∧ c.Keeps SameStatus := by
  cases f with
  | floatLoad fmt | compressFloatLoad fmt | compressFloatLoadSp fmt =>
    cases info <;> first | exact ⟨_, rfl, trivial⟩ | exact ⟨_, rfl, trivial, fun _ _ => rfl⟩
  | floatStore fmt => cases info <;> first | exact ⟨_, rfl, trivial⟩ | exact ⟨_, rfl, trivial, trivial⟩
  | float op => exact absurd rfl (hop op)
  | _ => cases hf

/-- What a float instruction that copies the status leaves. -/
theorem fflags_of_copies (hf : f.copiesStatus) (h : (exec f info).run s = .ok (.ok (), s')) :
    s'.fflags = if reportsFlags s f info then raisedFlags s f info else lastFlags s := by
  cases f with
  | floatLoad fmt | floatStore fmt | compressFloatLoad fmt | compressFloatLoadSp fmt =>
    obtain ⟨c, hc, hkeeps⟩ := course_copies (s := s) info hf nofun
    rw [run_exec_course rfl, hc] at h
    obtain ⟨s₁, hm, hflags⟩ := copies_status h
    have hsame : SameStatus s s₁ := Along.elim (Within.course hkeeps) hm
    exact hflags.trans hsame
  | float op =>
    obtain ⟨fpu', regFile', hexec, hflags⟩ := floatExec_of_run h
    rw [hflags, FloatFunc.exec_lastStatus hexec]
    show Status.toFflags _ = if (getFloatFunc op).reports info s.fpu then
      Status.toFflags _ else Status.toFflags _
    split <;> rfl
  | _ => cases hf

/-- The compressed stores leave the flags alone. -/
theorem fflags_of_not_copies (hfloat : f.isFloat) (hf : f.copiesStatus = false)
    (h : (exec f info).run s = .ok (.ok (), s')) :
    s'.fflags = s.fflags ∧ raisedFlags s f info = 0 := by
  cases f with
  | compressFloatStore fmt | compressFloatStoreSp fmt =>
    rw [run_exec_course rfl] at h
    refine ⟨SameFloat.fflags (Along.elim (Within.course ?_) h), rfl⟩
    cases info <;> first | exact trivial | exact ⟨trivial, trivial⟩
  | floatLoad _ | floatStore _ | float _ | compressFloatLoad _ | compressFloatLoadSp _ => cases hf
  | _ => cases hfloat

/-- The float instructions that are no arithmetic. -/
def ExecFunc.isSilent {V : Type} : ExecFunc FloatInstr V → Bool
  | .float op => (getFloatFunc op).isSilent
  | f => f.isFloat

theorem raisedFlags_of_silent (hf : f.isSilent) : raisedFlags s f info = 0 := by
  cases f with
  | float op =>
    unfold raisedFlags
    dsimp only
    rw [FloatFunc.raised_of_silent hf]
    rfl
  | _ => rfl

/-- The instruction converts a NaN to an integer. -/
def convertsNan (s : RVCPU H.platform) : ExecFunc FloatInstr H.VectorOp → RVInstrInfo → Bool
  | .float op, info => (getFloatFunc op).convertsNan info s.fpu
  | _, _ => false

/-- The flag of an invalid operation. -/
def NV : BitVec 5 := 0x10

theorem raisedFlags_of_nan (hnan : convertsNan s f info)
    (h : (exec f info).run s = .ok (.ok (), s')) : raisedFlags s f info = NV := by
  cases f with
  | float op =>
    obtain ⟨fpu', regFile', hexec, -⟩ := floatExec_of_run h
    unfold raisedFlags
    dsimp only
    rw [FloatFunc.raised_of_nan hexec hnan]
    rfl
  | _ => cases hnan

theorem eq_or_self_iff : ∀ a b : BitVec 5, b = a ||| b ↔ a &&& ~~~b = 0 := by decide +kernel

/-- A float instruction adds the flags it raises exactly in the states where the
status it copies makes up for the flags already set. -/
theorem accrues_iff (hf : f.isFloat) (h : (exec f info).run s = .ok (.ok (), s')) :
    s'.fflags = s.fflags ||| raisedFlags s f info ↔ AccruesFlags s f info := by
  unfold AccruesFlags
  cases hc : f.copiesStatus with
  | false =>
    obtain ⟨hflags, hraised⟩ := fflags_of_not_copies hf hc h
    rw [hflags, hraised]
    simp
  | true =>
    rw [fflags_of_copies hc h, if_pos rfl]
    cases reportsFlags s f info with
    | false => exact Iff.rfl
    | true => exact eq_or_self_iff _ _

end Instr

end HereEmu
