import HereEmu.Proofs.Precise
import HereEmu.Decoder

/-!
# Precise exceptions

A step whose instruction raises an exception has three parts that touch the
state: the fetch, the instruction up to where it fails, and the trap. The first
two leave the registers, the CSRs and the program counter alone and write A and
D bits to RAM at most; the trap writes `mstatus` and the three registers of the
mode it goes to. So software that returns from the trap finds the instruction
as if it had never started.
-/

namespace HereEmu

open Lib (Exec)
open Lib.Exec (Spec)
open RVCPU

/-! ## The fetch -/

section Fetch

variable {P : Platform} {s s₁ s₂ s' : RVCPU P}

/-- Only the memory and the instruction cache are different, and RAM by A and D
bits at most. -/
structure FetchOnly (s s' : RVCPU P) : Prop where
  only : s' = { s with memory := s'.memory, icache := s'.icache }
  ram : AdWrites s.memory s'.memory

theorem FetchOnly.refl (s : RVCPU P) : FetchOnly s s := ⟨rfl, .refl _⟩

theorem FetchOnly.trans (h : FetchOnly s s₁) (h' : FetchOnly s₁ s₂) : FetchOnly s s₂ :=
  ⟨by rw [h'.only, h.only], h.ram.trans h'.ram⟩

theorem ifetchHalf_fetchOnly (va : WordType) :
    Returns (ifetchHalf va) s fun _ s' => FetchOnly s s' := by
  show Exec.Outcome _ _ _
  cases hrun : (ifetchHalf va).run s with
  | error p => trivial
  | ok out =>
    obtain ⟨policy, _, hread, honly⟩ := ifetchHalf_cases hrun
    exact ⟨by rw [honly], (readWithPolicy_adWrites .u16 va policy).elim hread⟩

theorem ifetchAt_fetchOnly (va : WordType) :
    Returns (ifetchAt va) s fun _ s' => FetchOnly s s' := by
  refine (ifetchHalf_fetchOnly va).seq (fun lo s₁ h₁ => ?_) fun _ _ h => h
  split
  · cases hadd : checkedAdd va 2 with
    | error p => trivial
    | ok va' =>
      refine Spec.bind (Spec.of_run (Exec.run_lift_ok va' _) ?_)
      exact (ifetchHalf_fetchOnly va').seq (fun _ _ h₂ => h₁.trans h₂) fun _ _ h₂ => h₁.trans h₂
  · exact h₁

theorem decodeAtChecked_fetchOnly (va : WordType) :
    Returns (decodeAtChecked va) s fun _ s' => FetchOnly s s' := by
  refine Spec.get_bind ?_
  cases hhit : s.icache.get va with
  | some d => exact FetchOnly.refl s
  | none =>
    refine (ifetchAt_fetchOnly va).seq (fun raw s₁ h₁ => ?_) fun _ _ h => h
    unfold decodeRaw
    cases hdec : P.decode raw with
    | none => exact h₁
    | some d => exact ⟨by rw [h₁.only], h₁.ram⟩

end Fetch

/-! ## The trap -/

/-- The registers a trap that has gone to the mode of `csr` has written. -/
def trapWrites (csr : CsrRegFile) : List Csr :=
  [.mstatus, csr.cpl.trapRegs.cause, csr.cpl.trapRegs.epc, csr.cpl.trapRegs.tval]

/-- What a trap has left in the CSRs. -/
structure TrapRecorded (csr : CsrRegFile) (pc : WordType) (cause : Trap) (tval : WordType)
    (csr' : CsrRegFile) : Prop where
  target : TrapController.toMachine csr cause = .ok (decide (csr'.cpl = .M))
  epc : csr'.value csr'.cpl.trapRegs.epc = pc
  tval : csr'.value csr'.cpl.trapRegs.tval = tval
  frame : ∀ r, r ∉ trapWrites csr' → csr'.value r = csr.value r

theorem TrapTaken.recorded {csr csr' : CsrRegFile} {pc pc' tval : WordType} {cause : Trap}
    (h : TrapTaken csr pc cause tval csr' pc') : TrapRecorded csr pc cause tval csr' := by
  obtain @⟨machine, w, -, hto, hentered, -⟩ := h
  refine ⟨?_, ?_, ?_, ?_⟩
  · rw [hto, hentered.cpl]
    cases machine <;> rfl
  · rw [hentered.cpl]
    exact hentered.epc
  · rw [hentered.cpl]
    exact hentered.tval
  · unfold trapWrites
    rw [hentered.cpl]
    exact hentered.frame

section Step

variable {P : Platform} {s s₁ s₂ s' : RVCPU P} {e : Exception}

theorem takeException_recorded {tval : WordType} (h : s.takeException e tval = .ok s') :
    s' = { s with csr := s'.csr, pc := s'.pc } ∧
      TrapRecorded s.csr s.pc (.exception e) tval s'.csr := by
  obtain ⟨ctx, ht, h⟩ := Lib.exists_of_bind_ok h
  cases h
  exact ⟨rfl, (takeException_taken ht).recorded⟩

/-- The trap of an instruction that raised an exception. Only one it cannot
have left a value for takes its value from a second fetch. -/
theorem finishStep_error (h : finishStep (.error e, s) = .ok s') :
    ∃ s₁ tval, FetchOnly { s with pendingTval := s₁.pendingTval } s₁ ∧
      s₁.takeException e tval = .ok s' ∧
      (e = .illegalInstruction ∧ s₁.pendingTval = s.pendingTval ∨
        e ≠ .illegalInstruction ∧ s₁.pendingTval = none ∧ tval = s.pendingTval.getD 0) := by
  by_cases he : e = .illegalInstruction
  · subst he
    obtain ⟨⟨raw, s₁⟩, hf, h⟩ := Lib.exists_of_bind_ok h
    have hfetch := (ifetchAt_fetchOnly s.pc).elim (ifetchAt_of_refetch hf)
    have ht : s₁.pendingTval = s.pendingTval := by rw [hfetch.only]
    refine ⟨s₁, raw.setWidth 64, ?_, h, .inl ⟨rfl, ht⟩⟩
    rw [ht]
    exact hfetch
  · rw [finishStep_of_ne he] at h
    exact ⟨{ s with pendingTval := none }, _, .refl _, h, .inr ⟨he, rfl, rfl⟩⟩

variable {d : P.Decoded} {r : Except Exception Unit}

theorem execute_cases (h : (execute d).run s = .ok (r, s')) :
    ∃ s₁, (exec (getExecFunc d.instr) d.info).run s = .ok (r, s₁) ∧ s' = s₁.clearX0 := by
  unfold execute at h
  obtain ⟨out, hx, hout⟩ := Lib.exists_of_bind_ok h
  cases hout
  exact ⟨out.2, hx, rfl⟩

theorem run_execute (h : (exec (getExecFunc d.instr) d.info).run s = .ok (r, s')) :
    (execute d).run s = .ok (r, s'.clearX0) := by
  unfold execute
  rw [Exec.run_ofFun, h]
  rfl

theorem stepImpl_decoded (hdec : (decodeAtChecked s.pc).run s = .ok (.ok d, s₁))
    (hexec : (execute d).run s₁ = .ok (r, s₂)) : s.stepImpl = finishStep (r, s₂) := by
  unfold stepImpl
  simp only [hdec, hexec, bind, Except.bind]

/-- A step that ends: its instruction cannot be fetched, or is executed. -/
theorem stepImpl_cases (h : s.stepImpl = .ok s') :
    (∃ e s₁, (decodeAtChecked s.pc).run s = .ok (.error e, s₁) ∧
      s₁.takeException e.cause e.tval = .ok s') ∨
    ∃ d s₁ r s₂, (decodeAtChecked s.pc).run s = .ok (.ok d, s₁) ∧
      (exec (getExecFunc d.instr) d.info).run s₁ = .ok (r, s₂) ∧ finishStep (r, s₂.clearX0) = .ok s' := by
  obtain ⟨⟨r, s₁⟩, hdec, h⟩ := Lib.exists_of_bind_ok h
  cases r with
  | error e => exact .inl ⟨e, s₁, hdec, h⟩
  | ok d =>
    obtain ⟨⟨r, s₃⟩, hexec, h⟩ := Lib.exists_of_bind_ok h
    obtain ⟨s₂, hrun, rfl⟩ := execute_cases hexec
    exact .inr ⟨d, s₁, r, s₂, hdec, hrun, h⟩

end Step

/-! ## The step -/

section Precise

variable {P : Platform} {s s₁ s₂ s' : RVCPU P} {d : P.Decoded} {e : Exception}

/-- `s'` is `s` but for a trap that was taken, whose registers are in the CSRs. -/
structure OnlyTrapped (s : RVCPU P) (e : Exception) (s' : RVCPU P) : Prop where
  regs : ∀ r, r ≠ 0 → s'.regFile r = s.regFile r
  zero : s'.regFile 0 = 0
  fpu : s'.fpu = s.fpu
  vector : s'.vector = s.vector
  csr : ∀ r, r ∉ trapWrites s'.csr → s'.csr.value r = s.csr.value r
  target : TrapController.toMachine s.csr (.exception e) = .ok (decide (s'.csr.cpl = .M))
  epc : s'.csr.value s'.csr.cpl.trapRegs.epc = s.pc

/-- An instruction outside the vector unit that raises an exception leaves the
integer and floating-point registers, and every CSR but those of the trap, as
they were before the step, and of RAM all but A and D bits. -/
theorem scalar_exception_precise
    (hdec : (decodeAtChecked s.pc).run s = .ok (.ok d, s₁))
    (hscalar : (getExecFunc d.instr).isVector = false)
    (hexec : (execute d).run s₁ = .ok (.error e, s₂)) (hstep : s.stepImpl = .ok s') :
    OnlyTrapped s e s' ∧
      (P.bus.RefusesCleanly → AdWrites s.memory s'.memory ∧
        ∀ j, s'.memory.mmio.ram.data j ||| 0xc0 = s.memory.mmio.ram.data j ||| 0xc0) ∧
      (s.pendingTval = none → s'.pendingTval = none ∧ s.stepOnce = .ok s'.incrementMcycle) ∧
      (e ∈ dataExceptions → dataAddr s.regFile (getExecFunc d.instr) d.info =
        some (s'.csr.value s'.csr.cpl.trapRegs.tval)) := by
  have hfetch := (decodeAtChecked_fetchOnly s.pc).elim hdec
  obtain ⟨s₃, hrun, rfl⟩ := execute_cases hexec
  have habort : Aborted _ s₁ e s₃ := (exec_precise d.info hscalar).elim hrun
  rw [stepImpl_decoded hdec hexec] at hstep
  obtain ⟨s₄, tval, hagain, htake, htval⟩ := finishStep_error hstep
  obtain ⟨honly, hrec⟩ := takeException_recorded htake
  -- up to the trap, nothing is left of the instruction but what is in memory
  have hbefore : s₄ = { s.clearX0 with
      memory := s₄.memory, icache := s₄.icache, pendingTval := s₄.pendingTval } := by
    rw [hagain.only, habort.only, hfetch.only]
    rfl
  have hcsr : s₄.csr = s.csr := by rw [hbefore]; rfl
  have hpc : s₄.pc = s.pc := by rw [hbefore]; rfl
  have hregs : s'.regFile = Function.update s.regFile 0 0 := by rw [honly, hbefore]; rfl
  have hmem : s'.memory = s₄.memory := by rw [honly]
  have hpending : s'.pendingTval = s₄.pendingTval := by rw [honly]
  rw [hcsr, hpc] at hrec
  refine ⟨⟨fun r hr => ?_, ?_, ?_, ?_, hrec.frame, hrec.target, hrec.epc⟩, fun hbus => ?_,
    fun hnone => ?_, fun he => ?_⟩
  · rw [hregs, Function.update_of_ne hr]
  · rw [hregs, Function.update_self]
  · rw [honly, hbefore]
    rfl
  · rw [honly, hbefore]
    rfl
  · have had : AdWrites s.memory s'.memory := by
      rw [hmem]
      exact (hfetch.ram.trans (habort.ram hbus)).trans hagain.ram
    exact ⟨had, had.bytes⟩
  · have hlast : s'.pendingTval = none := by
      rw [hpending]
      rcases htval with ⟨rfl, ht⟩ | ⟨-, ht, -⟩
      · rw [ht]
        show s₃.pendingTval = none
        rw [habort.illegal rfl, hfetch.only]
        exact hnone
      · exact ht
    refine ⟨hlast, ?_⟩
    unfold stepOnce
    rw [stepImpl_decoded hdec hexec, hstep]
    exact if_pos hlast
  · obtain ⟨a, haddr, ha⟩ := habort.data he
    have hs₁ : s₁.regFile = s.regFile := by rw [hfetch.only]
    rw [← hs₁, haddr, hrec.tval]
    rcases htval with ⟨rfl, -⟩ | ⟨-, -, ht⟩
    · exact absurd he (by decide)
    · rw [ht]
      show some a = some (s₃.pendingTval.getD 0)
      rw [ha]
      rfl

/-- A load from an address that nothing answers at: `ld x1, 8(x0)`. -/
def strayLoadCpu : RVCPU .program := programCpu [0x00803083]

theorem scalar_exception_precise_load :
    ∃ s', strayLoadCpu.stepImpl = .ok s' ∧ OnlyTrapped strayLoadCpu .loadFault s' ∧
      AdWrites strayLoadCpu.memory s'.memory ∧ s'.pendingTval = none ∧
      s'.csr.value s'.csr.cpl.trapRegs.tval = 8 := by
  obtain ⟨s₁, hs₁⟩ : ∃ s₁, s₁ = { strayLoadCpu with
      icache := strayLoadCpu.icache.put strayLoadCpu.pc ⟨.LD, .I 0 1 8⟩ } := ⟨_, rfl⟩
  have hdec : (decodeAtChecked strayLoadCpu.pc).run strayLoadCpu = .ok (.ok ⟨.LD, .I 0 1 8⟩, s₁) := by
    rw [hs₁]
    rfl
  have hexec : (execute ⟨.LD, .I 0 1 8⟩).run s₁ =
      .ok (.error .loadFault, { s₁.clearX0 with pendingTval := some 8 }) := by
    rw [hs₁]
    rfl
  have hreturns : strayLoadCpu.stepImpl.isOk := by decide +kernel
  cases hstep : strayLoadCpu.stepImpl with
  | error p =>
    rw [hstep] at hreturns
    cases hreturns
  | ok s' =>
    obtain ⟨honly, hram, htval, hdata⟩ := scalar_exception_precise hdec rfl hexec hstep
    refine ⟨s', rfl, honly, (hram ?_).1, (htval rfl).1, (Option.some.inj (hdata (by decide))).symm⟩
    intro _ _ _ _ _ _ _ _ _ h
    cases h

end Precise

end HereEmu
