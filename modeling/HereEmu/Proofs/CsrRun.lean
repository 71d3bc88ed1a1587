import HereEmu.Proofs.Icache

/-!
# The CSR file along a run

Most registers change only when an instruction writes them: counting, traps
and returns touch a fixed few, and the interrupt lines touch `mip`. So an
invariant of the others over a run is an invariant of two kinds of step, the
CSR write the next instruction is about to make (`nextCsrWrite`) and a change
of a line.

The walker's policy and the empty trap value are what the analysis of a step
rests on. Both hold from reset on, whatever the guest does.
-/

namespace HereEmu

open Lib (Exec Always)
open Lib.Exec (Spec Ends)
open CsrRegFile RVCPU

section Runs

variable {P : Platform} {s s' : RVCPU P} {e : Event P} {r : Csr}

/-- The CSR write the next instruction is about to make. -/
def nextCsrWrite (s : RVCPU P) : Option (WordType × WordType) :=
  match (decodeAtChecked s.pc).run s with
  | .ok (.ok d, _) => pendingCsrWrite s.csr s.regFile (getExecFunc d.instr) d.info
  | _ => none

theorem nextCsrWrite_of_decodes {d : P.Decoded} (hd : Decodes s d) : nextCsrWrite s =
    pendingCsrWrite s.csr s.regFile (getExecFunc d.instr) d.info := by
  obtain ⟨s₁, hrun⟩ := hd
  unfold nextCsrWrite
  rw [hrun]

/-- A step, as a run takes it. -/
def runStep (s : RVCPU P) (e : Event P) : Rust (Unit × RVCPU P) :=
  match s.step e with
  | .error p => .error p
  | .ok s' => .ok ((), s')

theorem runStep_eq_ok {o : Unit} (h : runStep s e = .ok (o, s')) : s.step e = .ok s' := by
  unfold runStep at h
  split at h <;> cases h
  assumption

/-! ## What holds in every run -/

/-- A clear A or D bit faults, and no trap value is left over. -/
structure Steady (s : RVCPU P) : Prop where
  policy : s.memory.pageTable.adUpdatePolicy = .faultOnClear
  tval : s.pendingTval = none

theorem steady_reset (mmio : MemoryMapIo P.bus) (timeAddr : Option WordType)
    (regFile : RegIdx → WordType) : Steady (reset P mmio timeAddr regFile) := ⟨rfl, rfl⟩

/-- With every panic allowed, nothing else is asked of a state. -/
theorem Steady.stepReady (h : Steady s) : StepReady (fun _ => True) s where
  benign := fun _ _ => trivial
  policy := h.policy
  level := .inr trivial
  modes := .inr ⟨trivial, trivial⟩
  setMode := trivial
  trap := fun _ _ _ _ _ _ => .trivial fun _ _ => True.intro
  refetch := fun _ _ _ _ _ => .inr trivial
  tval := h.tval

theorem Steady.instr (h : Steady s) (hs : s.step .instr = .ok s') : InstrEffect s s' :=
  (stepOnce_effect h.stepReady).elim hs

theorem Steady.step (h : Steady s) (hs : s.step e = .ok s') : Steady s' := by
  cases he : e.isInstr with
  | false =>
    have hidle := step_idle he hs
    exact ⟨by rw [show s'.memory.pageTable = s.memory.pageTable from hidle.walker]; exact h.policy,
      hidle.tval.trans h.tval⟩
  | true =>
    cases e with
    | instr =>
      have heffect := h.instr hs
      refine ⟨?_, heffect.tval⟩
      rcases heffect.caches with hk | hk
      · exact (policy_of_config hk.mem.config).trans h.policy
      · exact hk.policy.trans h.policy
    | _ => cases he

/-! ## The registers only a write changes -/

/-- The registers traps and returns are recorded in. -/
def trapRecords : List Csr := [.mstatus, .mcause, .mepc, .mtval, .scause, .sepc, .stval]

/-- An instruction leaves such registers alone, or makes its write. -/
theorem Steady.value_instr (h : Steady s) (hs : s.step .instr = .ok s') :
    (∀ r, r ∉ countingCsrs → r ∉ trapRecords → s'.csr.value r = s.csr.value r) ∨
      ∃ addr data, nextCsrWrite s = some (addr, data) ∧ ∀ r, r ∉ countingCsrs → r ∉ trapRecords →
        s'.csr.value r = (s.csr.writeUncheckPrivilege addr data).value r := by
  have hmstatus : ∀ r, r ∉ trapRecords → r ≠ .mstatus := fun r hr e => hr (by rw [e]; decide)
  cases (h.instr hs).csr with
  | same hsame => exact .inl fun r hc _ => hsame.value r hc
  | trap hsame _ htake hsame' =>
    refine .inl fun r hc hr => ?_
    rw [hsame'.value r hc, (takeException_taken htake).frame hr, hsame.value r hc]
  | written hd hp hsame =>
    exact .inr ⟨_, _, (nextCsrWrite_of_decodes hd).trans hp, fun r hc _ => hsame.value r hc⟩
  | xret hret hsame =>
    exact .inl fun r hc hr => (hsame.value r hc).trans (hret.frame r (hmstatus r hr))

/-- What the lines of the board do. -/
theorem step_irq {i : Interrupt} {level : Bool} (hs : s.step (.irq i level) = .ok s') :
    ∃ f, irqField i = some f ∧ s'.csr = s.csr.setValue .mip
      (f.put (s.csr.value .mip) (if level then 1 else 0)) := by
  obtain ⟨f, csr, hf, hset, rfl⟩ := handleIrq_cases hs
  have hkeeps : Csr.mip.base.Keeps f ∧ (1 : WordType) ≤ f.ones := by
    revert hf
    cases i <;> rintro ⟨⟩ <;>
      exact ⟨.of_mask (by decide) (by decide) (by decide +kernel), by decide +kernel⟩
  have hval : (if level then 1 else 0 : WordType) ≤ f.ones := by
    cases level
    · exact Nat.zero_le _
    · exact hkeeps.2
  rw [set_of_keeps hkeeps.1 hval] at hset
  cases hset
  exact ⟨f, hf, rfl⟩

/-- The other events leave such a register alone. -/
theorem value_idle (hs : s.step e = .ok s') (he : e.isInstr = false) (hc : r ≠ .mcycle)
    (ht : r ∉ trapRecords) (hmip : r = .mip → ∀ i level, e ≠ .irq i level) :
    s'.csr.value r = s.csr.value r := by
  cases e with
  | instr => cases he
  | checkInterrupt =>
    obtain ⟨taken, csr, pc, htake, hs'⟩ := tryTakePendingInterrupt_cases hs
    have hcsr : csr.value r = s.csr.value r := by
      rcases tryTakeInterrupt_cases htake with ⟨-, rfl, -⟩ | ⟨i, -, -, htaken⟩
      · rfl
      · exact htaken.frame ht
    rcases hs' with rfl | rfl
    · exact hcsr
    · exact (setValue_ne hc).trans hcsr
  | irq i level =>
    obtain ⟨f, -, hcsr⟩ := step_irq hs
    rw [hcsr]
    exact setValue_ne fun hr => hmip hr i level rfl
  | devices dev data =>
    cases hs
    rfl

end Runs

end HereEmu
