import HereEmu.Proofs.CsrFrame
import HereEmu.Proofs.FloatStatus
import HereEmu.Proofs.PreciseTrap

/-!
# What leaves the float and the vector unit alone

A step looks an instruction up, executes it, and takes a trap if it failed. The
first and the last of these do not touch the two units, and neither does a CSR
instruction, except through the registers of the units in the CSR file. What
that file holds after a CSR instruction is exact: the one write it makes, with
`minstret` counted on (`value_of_csr`).
-/

namespace HereEmu

open Lib (Exec)
open Lib.Exec (Spec Along)
open RVCPU CsrRegFile

/-! ## Fetches and traps -/

section Units

variable {P : Platform} {s s' : RVCPU P} {x : Exception}

/-- The units and their registers in the CSR file are the same. -/
structure SameUnits (s s' : RVCPU P) : Prop where
  fpu : s'.fpu = s.fpu
  vector : s'.vector = s.vector
  csr : ∀ r ∈ unitCsrs, s'.csr.value r = s.csr.value r

theorem SameUnits.trans {t u : RVCPU P} (h : SameUnits s t) (h' : SameUnits t u) : SameUnits s u :=
  ⟨h'.fpu.trans h.fpu, h'.vector.trans h.vector, fun r hr => (h'.csr r hr).trans (h.csr r hr)⟩

theorem SameUnits.sameFloat (h : SameUnits s s') : SameFloat s s' := ⟨h.fpu, h.csr .fcsr (by decide)⟩

theorem SameUnits.clearX0 (s : RVCPU P) : SameUnits s s.clearX0 := ⟨rfl, rfl, fun _ _ => rfl⟩

theorem SameUnits.of_fetchOnly (h : FetchOnly s s') : SameUnits s s' := by
  rw [h.only]
  exact ⟨rfl, rfl, fun _ _ => rfl⟩

theorem SameUnits.of_takeException {tval : WordType} (h : s.takeException x tval = .ok s') :
    SameUnits s s' := by
  obtain ⟨honly, hrec⟩ := takeException_recorded h
  refine ⟨by rw [honly], by rw [honly], fun r hr => hrec.frame r fun hmem => ?_⟩
  revert hr
  unfold trapWrites PrivilegeLevel.trapRegs at hmem
  revert hmem r
  cases s'.csr.cpl <;> decide

/-- The trap of an instruction that raised an exception. -/
theorem SameUnits.of_finishStep (h : finishStep (.error x, s) = .ok s') : SameUnits s s' := by
  obtain ⟨s₁, tval, hfetch, htake, -⟩ := finishStep_error h
  have hsame : SameUnits s s₁ := by
    rw [hfetch.only]
    exact ⟨rfl, rfl, fun _ _ => rfl⟩
  exact hsame.trans (.of_takeException htake)

/-- An instruction outside the vector unit that raises an exception. -/
theorem SameUnits.of_error {f : ExecFunc P.FloatOp P.VectorOp} {info : RVInstrInfo}
    (hv : f.isVector = false) (h : (exec f info).run s = .ok (.error x, s')) : SameUnits s s' := by
  have habort : Aborted _ s x s' := (exec_precise info hv).elim h
  rw [habort.only]
  exact ⟨rfl, rfl, fun _ _ => rfl⟩

end Units

/-! ## The three ways of a step -/

section Step

variable {P : Platform} {s s' : RVCPU P}

/-- How a step can go. -/
inductive StepWay (s s' : RVCPU P) : Prop
  | fault {e s₁} : (decodeAtChecked s.pc).run s = .ok (.error e, s₁) → SameUnits s s' → StepWay s s'
  | exception {d s₁ x s₂} : (decodeAtChecked s.pc).run s = .ok (.ok d, s₁) → FetchOnly s s₁ →
    (exec (getExecFunc d.instr) d.info).run s₁ = .ok (.error x, s₂) → SameUnits s₂ s' → StepWay s s'
  | completed {d s₁ s₂} : (decodeAtChecked s.pc).run s = .ok (.ok d, s₁) → FetchOnly s s₁ →
    (exec (getExecFunc d.instr) d.info).run s₁ = .ok (.ok (), s₂) → s' = s₂.clearX0 → StepWay s s'

theorem stepImpl_way (h : s.stepImpl = .ok s') : StepWay s s' := by
  have hfetch : ∀ {r s₁}, (decodeAtChecked s.pc).run s = .ok (r, s₁) → FetchOnly s s₁ :=
    (decodeAtChecked_fetchOnly s.pc).elim
  rcases stepImpl_cases h with ⟨e, s₁, hdec, htake⟩ | ⟨d, s₁, r, s₂, hdec, hrun, hfinish⟩
  · exact .fault hdec ((SameUnits.of_fetchOnly (hfetch hdec)).trans (.of_takeException htake))
  · cases r with
    | error x =>
      exact .exception hdec (hfetch hdec) hrun ((SameUnits.clearX0 s₂).trans (.of_finishStep hfinish))
    | ok _ =>
      cases hfinish
      exact .completed hdec (hfetch hdec) hrun rfl

end Step

/-! ## CSR instructions -/

section CsrWrites

variable {P : Platform} {s s' : RVCPU P} {f : ExecFunc P.FloatOp P.VectorOp} {info : RVInstrInfo}

/-- Apart from the CSR file, the units are the same. -/
def SameRegs (s s' : RVCPU P) : Prop := s'.fpu = s.fpu ∧ s'.vector = s.vector

instance SameRegs.frameRel : FrameRel (SameRegs : RVCPU P → RVCPU P → Prop) where
  refl _ := ⟨rfl, rfl⟩
  trans _ _ _ h h' := ⟨h'.1.trans h.1, h'.2.trans h.2⟩
  plain _ _ _ hfpu hvector _ := ⟨hfpu, hvector⟩

theorem readCsr_sameRegs (addr : WordType) : Within SameRegs (readCsr addr : CpuM P WordType) := by
  refine .get_bind fun s => ?_
  split
  · split
    · next timeAddr _ =>
        refine Along.mapError (fun s => ?_) fun _ _ => rfl
        show Exec.Outcome _ _ (((VirtAddrManager.readByPaddr .u64 timeAddr).run s.memory).map _)
        cases (VirtAddrManager.readByPaddr .u64 timeAddr).run s.memory with
        | error p => trivial
        | ok out => exact ⟨rfl, rfl⟩
    · exact .throw _
  · split
    · exact .pure _
    · exact .throw _

theorem writeCsr_sameRegs (addr data : WordType) :
    Within SameRegs (writeCsr addr data : CpuM P Unit) := by
  intro s
  refine Spec.get_bind ?_
  cases s.csr.writeChecked addr data with
  | none => exact ⟨rfl, rfl⟩
  | some csr =>
    dsimp only
    split
    · unfold applySatp
      cases s.memory.setMode (csr.get .satp Satp.mode) with
      | error p => trivial
      | ok memory => exact ⟨rfl, rfl⟩
    · exact ⟨rfl, rfl⟩

theorem sameRegs_of_csr (hf : f.isCsr) {r : Except Exception Unit}
    (h : (exec f info).run s = .ok (r, s')) : SameRegs s s' :=
  Along.elim (Within.execCsr readCsr_sameRegs writeCsr_sameRegs hf info) h

/-- The CSR file after the write an instruction is about to make. -/
def csrAfter (s : RVCPU P) (f : ExecFunc P.FloatOp P.VectorOp) (info : RVInstrInfo) : CsrRegFile :=
  (pendingCsrWrite s.csr s.regFile f info).elim s.csr fun w => s.csr.writeUncheckPrivilege w.1 w.2

/-- The registers are those of `c`, except that instructions are counted. -/
def CountedFrom (c : CsrRegFile) (s' : RVCPU P) : Prop :=
  ∀ r, r ≠ .minstret → s'.csr.value r = c.value r

theorem csrTail_countedFrom {addr data : WordType} (hlegal : s.csr.isWritePrivLegal addr)
    (regFile : RegIdx → WordType) :
    Spec (fun _ => True) (do writeCsr addr data; retireCsr addr; advancePc 4) { s with regFile }
      fun _ s' => CountedFrom (s.csr.writeUncheckPrivilege addr data) s' := by
  refine (csrTail_counts (s := { s with regFile }) (fun _ => trivial) hlegal).mono ?_
  rintro _ s' ⟨-, hcsr⟩ r hr
  rw [hcsr, countedCsr_value _ _ hr]

theorem value_of_csr (hf : f.isCsr) (h : (exec f info).run s = .ok (.ok (), s')) :
    CountedFrom (csrAfter s f info) s' := by
  have hspec : Spec (fun _ => True) (exec f info) s fun r s' => r = .ok () →
      CountedFrom (csrAfter s f info) s' := by
    unfold csrAfter
    refine csrPlan_spec hf fun p _ hp => ?_
    cases p with
    | wrong => trivial
    | skip =>
      rw [hp]
      exact fun _ _ _ => rfl
    | refused => exact fun h => (by cases h)
    | peek rd addr =>
      rw [hp]
      refine ((readCsr_refused s addr).weaken fun _ _ => trivial).seq ?_ fun _ _ _ h => (by cases h)
      rintro value s₁ ⟨hcsr, -⟩
      obtain ⟨regFile, hwrite⟩ := run_writeReg rd value s₁
      refine Spec.bind (Spec.of_run hwrite fun _ r _ => ?_)
      show s₁.csr.value r = s.csr.value r
      rw [hcsr]
    | write rd old addr data =>
      have hlegal := writable_of_pending hp
      rw [hp]
      exact CsrPlan.spec_write fun regFile => (csrTail_countedFrom hlegal regFile).mono fun _ _ h _ => h
  exact hspec.elim h rfl

end CsrWrites

end HereEmu
