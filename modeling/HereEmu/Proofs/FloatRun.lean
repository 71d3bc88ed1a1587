import HereEmu.Instr.ExecVectorArith
import HereEmu.Lib.Sticky
import HereEmu.Proofs.CsrRun
import HereEmu.Proofs.FloatFlags
import HereEmu.Proofs.UnitFrame

/-!
# Accrued float flags

The flags along a run. Sticky flags change in two ways: an instruction raises
some, and a CSR write puts others in their place. Each step of the CPU is such
an event (`flagEvent`), and a run whose float instructions all keep to the
design leaves the flags these events accrue to (`fflags_run`): a flag stays set
until a CSR write clears it, and comes back only if it is raised or written.

A run with any other float instruction need not: a sign injection drops a flag
that is set or brings back one that was cleared, and a NaN converted to an
integer raises none.
-/

namespace HereEmu

open Lib (Exec Always runAll runAll_history exists_of_map_ok FlagEvent)
open Lib.Exec (Spec Along)
open Lib.FlagEvent (accrue)
open RVCPU CsrRegFile BitVec

/-! ## CSR writes -/

section CsrWrites

/-- What a CSR write does to the flags. -/
def csrFlagEvent (addr data : WordType) : FlagEvent 5 :=
  if addr = FFLAGS ∨ addr = FCSR then .write (data.setWidth 5) else .raise 0

/-- A mask that selects all the flags. -/
theorem flags_and_mask (v mask : WordType) (h : mask.setWidth 5 = allOnes 5) :
    (v &&& mask).setWidth 5 = v.setWidth 5 := by
  rw [setWidth_and, h, and_allOnes]

theorem fflags_write (c : CsrRegFile) (addr data : WordType) :
    ((c.writeUncheckPrivilege addr data).value .fcsr).setWidth 5 =
      (csrFlagEvent addr data).apply ((c.value .fcsr).setWidth 5) := by
  unfold csrFlagEvent
  by_cases h1 : addr = FFLAGS
  · have hrest (v : WordType) : (v &&& ~~~0b11111#64).setWidth 5 = 0#5 := by
      rw [setWidth_and]
      exact and_zero
    rw [if_pos (.inl h1), writeUncheckPrivilege, if_pos h1, setValue_same, setWidth_or,
      flags_and_mask data _ rfl, hrest, zero_or]
    rfl
  by_cases h2 : addr = FCSR
  · rw [if_pos (.inr h2), h2, writeUncheckPrivilege, if_neg (by decide), if_neg (by decide),
      if_pos rfl, setValue_same, flags_and_mask data _ rfl]
    rfl
  have hnone : ∀ v : BitVec 5, (FlagEvent.raise 0).apply v = v := fun v => or_zero
  rw [if_neg (not_or.mpr ⟨h1, h2⟩), hnone]
  by_cases h3 : addr = FRM
  · have hfrm (v : WordType) : (v <<< 5).setWidth 5 = 0#5 :=
      eq_of_getLsbD_eq fun i hi => by simp [hi]
    rw [h3, writeUncheckPrivilege, if_neg (by decide), if_pos rfl, setValue_same,
      setWidth_or, flags_and_mask _ _ rfl, hfrm, or_zero]
  · rw [writeUncheckPrivilege_frame]
    have hbase : ∀ r : Csr, r.base = .fcsr → r = .fcsr := by
      intro r
      cases r <;> decide
    intro hw
    unfold written at hw
    rw [if_neg (by simp [h1, h2, h3])] at hw
    split at hw
    · cases hw
    · obtain ⟨r, hr, hb⟩ := Option.map_eq_some_iff.mp hw
      refine h2 ?_
      rw [← Csr.addr_of_ofAddr hr, hbase r hb]
      rfl

end CsrWrites

/-! ## Steps -/

section Steps

variable {H : SoftPlatform} {s s' : RVCPU H.platform} {e : Event H.platform}

/-- What an instruction that completes does to the flags, as sticky flags. -/
def instrFlagEvent (s : RVCPU H.platform) (f : ExecFunc FloatInstr H.VectorOp) (info : RVInstrInfo) :
    FlagEvent 5 :=
  if f.isFloat then .raise (raisedFlags s f info)
  else (pendingCsrWrite s.csr s.regFile f info).elim (.raise 0) fun w => csrFlagEvent w.1 w.2

theorem fflags_exec {f : ExecFunc FloatInstr H.VectorOp} {info : RVInstrInfo}
    (hfits : f.isFloat → AccruesFlags s f info) (h : (exec f info).run s = .ok (.ok (), s')) :
    s'.fflags = (instrFlagEvent s f info).apply s.fflags := by
  unfold instrFlagEvent
  cases hfloat : f.isFloat with
  | true =>
    exact (accrues_iff hfloat h).mpr (hfits hfloat)
  | false =>
    cases hcsr : f.isCsr with
    | true =>
      have hafter : s'.fflags = ((csrAfter s f info).value .fcsr).setWidth 5 :=
        congrArg _ (value_of_csr hcsr h .fcsr (by decide))
      rw [hafter]
      unfold csrAfter
      cases pendingCsrWrite s.csr s.regFile f info with
      | none => exact or_zero.symm
      | some w => exact fflags_write s.csr w.1 w.2
    | false =>
      have hpending : pendingCsrWrite s.csr s.regFile f info = none := by
        cases f with
        | csrw _ | csrBit _ _ => cases hcsr
        | _ => rfl
      rw [hpending, (Along.elim (Within.exec_other hfloat hcsr info) h).fflags]
      exact or_zero.symm

/-- The instruction the next step is going to complete, and the state it is
executed in. -/
def RVCPU.completing {P : Platform} (s : RVCPU P) : Option (P.Decoded × RVCPU P) :=
  match (decodeAtChecked s.pc).run s with
  | .ok (.ok d, s₁) =>
    match (execute d).run s₁ with
    | .ok (.ok (), _) => some (d, s₁)
    | _ => none
  | _ => none

/-- What a step does to the flags, as sticky flags. -/
def flagEvent (s : RVCPU H.platform) : Event H.platform → FlagEvent 5
  | .instr => s.completing.elim (.raise 0) fun p =>
    instrFlagEvent p.2 (getExecFunc p.1.instr) p.1.info
  | _ => .raise 0

/-- The float instruction the step completes, if it does, adds its flags. -/
def StepAccrues (s : RVCPU H.platform) : Event H.platform → Prop
  | .instr => ∀ p ∈ s.completing, (getExecFunc p.1.instr).isFloat →
    AccruesFlags p.2 (getExecFunc p.1.instr) p.1.info
  | _ => True

/-- An instruction that raises an exception leaves the float unit alone. -/
theorem sameFloat_of_error {P : Platform} {s s' : RVCPU P} {f : ExecFunc P.FloatOp P.VectorOp}
    {info : RVInstrInfo} {x : Exception} (h : (exec f info).run s = .ok (.error x, s')) :
    SameFloat s s' := by
  cases hv : f.isVector with
  | true =>
    refine Along.elim (Within.exec_other ?_ ?_ info) h
    · cases f <;> first | rfl | cases hv
    · cases f <;> first | rfl | cases hv
  | false => exact (SameUnits.of_error hv h).sameFloat

theorem completing_of_fault {P : Platform} {s s₁ : RVCPU P} {e : ExceptionInfo}
    (hdec : (decodeAtChecked s.pc).run s = .ok (.error e, s₁)) : s.completing = none := by
  unfold RVCPU.completing
  rw [hdec]

theorem completing_of_exec {P : Platform} {s s₁ s₂ : RVCPU P} {d : P.Decoded}
    {r : Except Exception Unit} (hdec : (decodeAtChecked s.pc).run s = .ok (.ok d, s₁))
    (hrun : (exec (getExecFunc d.instr) d.info).run s₁ = .ok (r, s₂)) :
    s.completing = if r.isOk then some (d, s₁) else none := by
  unfold RVCPU.completing
  simp only [hdec, run_execute hrun]
  cases r <;> rfl

theorem fflags_stepImpl (h : s.stepImpl = .ok s') (hfits : StepAccrues s .instr) :
    s'.fflags = (flagEvent s .instr).apply s.fflags := by
  -- a step that completes no instruction leaves the flags alone
  have hidle : s.completing = none → SameFloat s s' →
      s'.fflags = (flagEvent s .instr).apply s.fflags := by
    intro hnone hsame
    unfold flagEvent
    rw [hnone, hsame.fflags]
    exact or_zero.symm
  cases stepImpl_way h with
  | fault hdec hsame => exact hidle (completing_of_fault hdec) hsame.sameFloat
  | exception hdec hfetch hrun hsame =>
    have hbefore := (SameUnits.of_fetchOnly hfetch).sameFloat
    exact hidle (completing_of_exec hdec hrun)
      ((hbefore.trans (sameFloat_of_error hrun)).trans hsame.sameFloat)
  | @completed d s₁ s₂ hdec hfetch hrun hclear =>
    have hnext : s.completing = some (d, s₁) := completing_of_exec hdec hrun
    unfold flagEvent
    rw [hnext, ← (SameUnits.of_fetchOnly hfetch).sameFloat.fflags, hclear,
      (SameUnits.clearX0 s₂).sameFloat.fflags]
    exact fflags_exec (hfits (d, s₁) hnext) hrun

/-- A step whose float instruction adds its flags treats the flags as sticky. -/
theorem fflags_step (h : s.step e = .ok s') (hfits : StepAccrues s e) :
    s'.fflags = (flagEvent s e).apply s.fflags := by
  have hidle : e.isInstr = false → s'.fflags = s.fflags ||| 0 := by
    intro he
    have hvalue := value_idle (r := .fcsr) h he (by decide) (by decide) fun hr => (by cases hr)
    unfold RVCPU.fflags
    rw [hvalue]
    exact or_zero.symm
  cases e with
  | instr =>
    obtain ⟨s₁, himpl, rfl⟩ := stepOnce_cases h
    have hcycle : s₁.incrementMcycle.fflags = s₁.fflags :=
      congrArg (setWidth 5) (setValue_ne (by decide))
    rw [hcycle]
    exact fflags_stepImpl himpl hfits
  | checkInterrupt | irq _ _ | devices _ _ => exact hidle rfl

/-- A step, with what it does to the flags. -/
def flagStep (s : RVCPU H.platform) (e : Event H.platform) :
    Rust (FlagEvent 5 × RVCPU H.platform) :=
  (s.step e).map fun s' => (flagEvent s e, s')

theorem fflags_run {es : List (Event H.platform)} {events : List (FlagEvent 5)}
    (h : runAll flagStep s es = .ok (events, s')) (hfits : Always flagStep StepAccrues s es) :
    s'.fflags = accrue s.fflags events := by
  have hkeep : ∀ (events : List (FlagEvent 5)) (s₁ : RVCPU H.platform) e event s₂,
      s₁.fflags = accrue s.fflags events → StepAccrues s₁ e → flagStep s₁ e = .ok (event, s₂) →
        s₂.fflags = accrue s.fflags (events ++ [event]) := by
    intro events s₁ e event s₂ hs₁ hfits hstep
    obtain ⟨s₃, hs, hout⟩ := exists_of_map_ok hstep
    obtain ⟨rfl, rfl⟩ := Prod.mk.inj hout
    rw [FlagEvent.accrue_snoc, ← hs₁]
    exact fflags_step hs hfits
  have hstart : s.fflags = accrue s.fflags [] := rfl
  exact runAll_history hkeep hstart hfits h

end Steps

instance {H : SoftPlatform} (s : RVCPU H.platform) (e : Event H.platform) :
    Decidable (StepAccrues s e) := by
  unfold StepAccrues
  split <;> infer_instance

/-- A float instruction that completes adds the flags it raises to those that
are set exactly when `AccruesFlags` holds. Along a run of such instructions the
flags are what the CSR writes and the flags raised accrue to, so one that is set
stays set until a CSR write clears it, and one that is clear is not restored. -/
theorem fflags_accrue (H : SoftPlatform) :
    (∀ (s s' : RVCPU H.platform) (d : H.platform.Decoded),
      (getExecFunc d.instr).isFloat → (execute d).run s = .ok (.ok (), s') →
        (s'.fflags = s.fflags ||| raisedFlags s (getExecFunc d.instr) d.info ↔
          AccruesFlags s (getExecFunc d.instr) d.info) ∧
        ((getExecFunc d.instr).isSilent → raisedFlags s (getExecFunc d.instr) d.info = 0) ∧
        (convertsNan s (getExecFunc d.instr) d.info →
          raisedFlags s (getExecFunc d.instr) d.info = NV)) ∧
    ∀ (s s' : RVCPU H.platform) (es : List (Event H.platform)) (events : List (FlagEvent 5)),
      runAll flagStep s es = .ok (events, s') → Always flagStep StepAccrues s es →
        s'.fflags = accrue s.fflags events ∧
        (∀ i, s.fflags.getLsbD i → (∀ e ∈ events, e.Keeps i) → s'.fflags.getLsbD i) ∧
        ∀ i, s'.fflags.getLsbD i →
          s.fflags.getLsbD i ∨ ∃ e ∈ events, e.flags.getLsbD i := by
  refine ⟨fun s s' d hfloat hexec => ?_, fun s s' es events hrun hfits => ?_⟩
  · obtain ⟨s₁, hrun, rfl⟩ := execute_cases hexec
    refine ⟨?_, raisedFlags_of_silent, fun hnan => raisedFlags_of_nan hnan hrun⟩
    rw [(SameUnits.clearX0 s₁).sameFloat.fflags]
    exact accrues_iff hfloat hrun
  · have hflags := fflags_run hrun hfits
    refine ⟨hflags, fun i hset hkeeps => ?_, fun i hset => ?_⟩
    · rw [hflags]
      exact FlagEvent.getLsbD_accrue_of_set hset hkeeps
    · rw [hflags] at hset
      exact FlagEvent.of_getLsbD_accrue hset

/-! ## Programs -/

/-- The bits of the exponent and of the fraction. -/
def FloatFmt.exponent : FloatFmt → Nat
  | .f32 => 8
  | .f64 => 11

def FloatFmt.fraction : FloatFmt → Nat
  | .f32 => 23
  | .f64 => 52

abbrev FloatBits (f : FloatFmt) := BitVec (1 + f.exponent + f.fraction)

/-- Floats as their bits. The programs below move, compare and classify them;
the operations that would round are left out. -/
def bitOps (f : FloatFmt) : FloatOps (FloatBits f) :=
  let signBit : FloatBits f := .twoPow _ (f.exponent + f.fraction)
  let sign (x : FloatBits f) := x &&& signBit != 0
  let exp (x : FloatBits f) := (x >>> f.fraction).setWidth f.exponent
  let frac (x : FloatBits f) := x.setWidth f.fraction
  let top : BitVec f.exponent := allOnes _
  let isNan (x : FloatBits f) := exp x == top && frac x != 0
  let order (x : FloatBits f) : Int :=
    if sign x then -((x &&& ~~~signBit).toNat : Int) else x.toNat
  let ordered (x y : FloatBits f) := !isNan x && !isNan y
  let qnan : FloatBits f := (top.setWidth _ <<< f.fraction) ||| .twoPow _ (f.fraction - 1)
  { fromBits := fun bits => bits.setWidth _
    toBits := fun x => x.setWidth _
    qnan
    isNan
    isSignaling := fun x => isNan x && !x.getLsbD (f.fraction - 1)
    isNegative := sign
    isZero := fun x => exp x == 0 && frac x == 0
    isInfinite := fun x => exp x == top && frac x == 0
    isNormal := fun x => exp x != 0 && exp x != top
    isDenormal := fun x => exp x == 0 && frac x != 0
    neg := fun x => x ^^^ signBit
    abs := fun x => x &&& ~~~signBit
    copySign := fun x y => (x &&& ~~~signBit) ||| (y &&& signBit)
    min := fun x y => if isNan x then y else if ordered x y && order y < order x then y else x
    max := fun x y => if isNan x then y else if ordered x y && order x < order y then y else x
    eq := fun x y => ordered x y && order x == order y
    lt := fun x y => ordered x y && order x < order y
    le := fun x y => ordered x y && order x ≤ order y
    addR := fun _ _ _ => ⟨.OK, qnan⟩
    subR := fun _ _ _ => ⟨.OK, qnan⟩
    mulR := fun _ _ _ => ⟨.OK, qnan⟩
    divR := fun _ _ _ => ⟨.OK, qnan⟩
    mulAddR := fun _ _ _ _ => ⟨.OK, qnan⟩
    fromU128R := fun _ _ => ⟨.OK, qnan⟩
    fromI128R := fun _ _ => ⟨.OK, qnan⟩
    toU128R := fun _ _ _ => ⟨.OK, 0⟩
    toI128R := fun _ _ _ => ⟨.OK, 0⟩
    hostSqrt := fun _ => qnan
    hostNeg := fun x => x ^^^ signBit
    hostMulAdd := fun _ _ _ => qnan
    hostNonzero := fun x => !(exp x == 0 && frac x == 0) }

/-- A machine with RAM and no devices, and enough of the generated table for
small programs with floats. -/
def bitPlatform : SoftPlatform := HerePlatform.soft {
  floats := { Float := FloatBits, ops := bitOps
              convertR := fun _ t _ _ => ⟨.OK, (bitOps t).qnan⟩ }
  stack := 2
  bus := { Dev := Unit, map := [], read := fun _ _ _ _ => none, write := fun _ _ _ _ _ _ => none }
  decode := maskDecode (programTable ++
    [⟨.float .FSGNJ_S, .R, 0xfe00707f, 0x20000053⟩, ⟨.float .FMV_W_X, .R, 0xfff0707f, 0xf0000053⟩,
      ⟨.float .FCVT_W_S, .R_rm, 0xfff0007f, 0xc0000053⟩, ⟨.float .FEQ_S, .R, 0xfe00707f, 0xa0002053⟩])
  extensionBits := 0b101101
  zeroed := none }

/-- A machine just reset whose program first turns the float unit on:
`lui x1, 2; csrrw x0, mstatus, x1`. -/
def floatCpu (words : List (BitVec 32)) : RVCPU bitPlatform.platform :=
  .reset _ { ram := .ofProgram ([0x000020b7, 0x30009073] ++ words), devices := () } none fun _ => 0

/-- A NaN that signals is compared twice: `lui x3, 0x7f800; addi x3, x3, 1;
fmv.w.x f2, x3; feq.s x5, f2, f2; feq.s x5, f2, f2`. -/
def comparedNan : List (BitVec 32) := [0x7f8001b7, 0x00118193, 0xf0018153, 0xa02122d3, 0xa02122d3]

/-- A machine just reset with the float unit on. -/
def floatOn : RVCPU bitPlatform.platform :=
  { floatCpu [] with csr := (floatCpu []).csr.setValue .mstatus 0x2000 }

/-- `fsgnj.s f1, f1, f1`. -/
def copySign : bitPlatform.platform.Decoded := ⟨.float FloatInstr.FSGNJ_S, .R 1 1 1⟩

theorem fflags_accrue_compared :
    (∃ s', (execute copySign).run floatOn = .ok (.ok (), s') ∧ s'.fflags = floatOn.fflags) ∧
    ∃ s', runAll flagStep (floatCpu comparedNan) (List.replicate 7 .instr) =
      .ok (List.replicate 5 (.raise 0) ++ [.raise NV, .raise NV], s') ∧ s'.fflags = NV := by
  obtain ⟨hinstr, hruns⟩ := fflags_accrue bitPlatform
  refine ⟨?_, ?_⟩
  · obtain ⟨⟨r, s'⟩, hrun, rfl⟩ :
        ∃ out, (execute copySign).run floatOn = .ok out ∧ out.1 = .ok () := by decide +kernel
    obtain ⟨hlaw, hsilent, -⟩ := hinstr floatOn s' _ rfl hrun
    refine ⟨s', hrun, ?_⟩
    rw [hlaw.mpr (by decide +kernel), hsilent rfl]
    exact or_zero
  · obtain ⟨⟨events, s'⟩, hrun, rfl⟩ :
        ∃ out, runAll flagStep (floatCpu comparedNan) (List.replicate 7 .instr) = .ok out ∧
          out.1 = List.replicate 5 (.raise 0) ++ [.raise NV, .raise NV] := by decide +kernel
    obtain ⟨hflags, -, -⟩ := hruns _ s' _ _ hrun (by decide +kernel)
    refine ⟨s', hrun, ?_⟩
    rw [hflags]
    decide +kernel

/-- The flags the first steps of a program accrue to, and those they leave. -/
def flagRun (words : List (BitVec 32)) (n : Nat) : Rust (BitVec 5 × BitVec 5) :=
  (runAll flagStep (floatCpu words) (List.replicate n .instr)).map fun out =>
    (accrue (floatCpu words).fflags out.1, out.2.fflags)

/-- `csrrw x0, fflags, x2; fsgnj.s f1, f1, f1` with the inexact flag in `x2`. -/
def lostFlag : List (BitVec 32) := [0x00100113, 0x00111073, 0x201080d3]

/-- The flag of a comparison is cleared before a sign injection. -/
def restoredFlag : List (BitVec 32) :=
  [0x7f8001b7, 0x00118193, 0xf0018153, 0xa02122d3, 0x00101073, 0x201080d3]

/-- `lui x3, 0x7fc00; fmv.w.x f2, x3; fcvt.w.s x4, f2, rtz`. -/
def convertedNan : List (BitVec 32) := [0x7fc001b7, 0xf0018153, 0xc0011253]

theorem fflags_replaced :
    flagRun lostFlag 5 = .ok (1, 0) ∧ flagRun restoredFlag 8 = .ok (0, NV) ∧
      flagRun convertedNan 5 = .ok (NV, 0) := by
  decide +kernel

end HereEmu
