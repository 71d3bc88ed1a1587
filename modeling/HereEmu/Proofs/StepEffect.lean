import HereEmu.Proofs.CsrEffect
import HereEmu.Proofs.Fetch

/-!
# What one event does

One instruction is fetched, through the instruction cache or from memory,
executed, and possibly turned into a trap. `stepOnce_spec` says what that leaves
of the caches and of the registers traps depend on: either both caches hold what
they held, with the instruction just fetched and the pages just walked on top
(`Kept`), or both are empty (`Emptied`).
-/

namespace HereEmu

open Lib (Exec)
open Lib.Exec (Spec Ends)
open RVCPU

section Definitions

variable {P : Platform}

/-- A fetch at `va` finds an instruction that decodes to `d`. -/
def Fetches (s : RVCPU P) (va : WordType) (d : P.Decoded) : Prop :=
  ∃ raw s', (ifetchAt va).run s = .ok (.ok raw, s') ∧ P.decode raw = some d

/-- The instruction the CPU is about to execute. -/
def Decodes (s : RVCPU P) (d : P.Decoded) : Prop :=
  ∃ s', (decodeAtChecked s.pc).run s = .ok (.ok d, s')

/-- What looking an instruction up leaves. -/
structure Fetched (va : WordType) (s s' : RVCPU P) : Prop where
  rest : s' = { s with memory := s'.memory, icache := s'.icache }
  mem : MemStill s.memory s'.memory
  icache : ∀ a d, s'.icache.get a = some d → s.icache.get a = some d ∨ a = va ∧ Fetches s va d

/-- The caches after a step that did not flush them. -/
structure Kept (s s' : RVCPU P) : Prop where
  mem : MemAfter s.memory s'.memory
  icache : ∀ a d, s'.icache.get a = some d → s.icache.get a = some d ∨ a = s.pc ∧ Fetches s s.pc d
  epoch : s'.icacheEpoch = s.icacheEpoch

/-- The caches after a step that flushed them. -/
structure Emptied (s s' : RVCPU P) : Prop where
  tlb : ∀ k, s'.memory.pageTable.tlb.get k = none
  icache : ∀ a, s'.icache.get a = none
  epoch : s'.icacheEpoch = s.icacheEpoch + 1
  policy : s'.memory.pageTable.adUpdatePolicy = s.memory.pageTable.adUpdatePolicy

/-- The registers after an instruction. -/
inductive Controlled (s : RVCPU P) (c : CsrRegFile) : Prop
  | same : SameControl s.csr c → Controlled s c
  | trap {c₁ c₂ pc pc' e tval} : SameControl s.csr c₁ → e ≠ .unknown →
    TrapController.takeException c₁ pc e tval = .ok (c₂, pc') → SameControl c₂ c → Controlled s c
  | written {d addr data} : Decodes s d →
    pendingCsrWrite s.csr s.regFile (getExecFunc d.instr) d.info = some (addr, data) →
    SameControl (s.csr.writeUncheckPrivilege addr data) c → Controlled s c
  | xret {machine c₁} : Returned (.of machine) s.csr c₁ → SameControl c₁ c → Controlled s c

/-- What one instruction leaves. -/
structure InstrEffect (s s' : RVCPU P) : Prop where
  caches : Kept s s' ∨ Emptied s s'
  csr : Controlled s s'.csr
  tval : s'.pendingTval = none

end Definitions

/-! ## Fetching -/

section Fetching

variable {P : Platform} {S : PanicSite → Prop} {s : RVCPU P} {va : WordType}

/-- The panics of a fetch: those of memory, and that of an undefined level. -/
structure FetchReady (S : PanicSite → Prop) (s : RVCPU P) : Prop where
  benign : ∀ p, PanicSite.Benign p → S p
  policy : s.memory.pageTable.adUpdatePolicy = .faultOnClear
  level : s.csr.cpl ≠ .V ∨ S .ifetchPolicy

/-- What a fetch leaves when it fails, or succeeds. -/
def FetchOutcome (s : RVCPU P) {α : Type} (r : Except ExceptionInfo α) (s' : RVCPU P) : Prop :=
  ∃ memory, s' = { s with memory } ∧ MemStill s.memory memory ∧
    ∀ e, r = .error e → e.cause ≠ .unknown

theorem FetchReady.still (h : FetchReady S s) {memory : VirtAddrManager P.bus}
    (hm : MemStill s.memory memory) : FetchReady S { s with memory } :=
  ⟨h.benign, (policy_of_config hm.config).trans h.policy, h.level⟩

theorem ifetchPolicy_faultIn {csr : CsrRegFile} {policy : AccessPolicy}
    (h : resolveIfetchPolicy csr true = .ok policy) : policy.FaultIn MemError.IsLoad := by
  unfold resolveIfetchPolicy at h
  cases hc : csr.cpl <;> rw [hc] at h <;> cases h
  · exact List.mem_cons_self
  · exact List.mem_cons_self
  · trivial

theorem fromInstrFetchErr_load {e : MemError} (h : e.IsLoad) :
    ∃ cause, Exception.fromInstrFetchErr e = .ok cause ∧ cause ≠ .unknown := by
  simp only [MemError.IsLoad, List.mem_cons, List.not_mem_nil, or_false] at h
  rcases h with rfl | rfl | rfl
  · exact ⟨_, rfl, by decide⟩
  · exact ⟨_, rfl, by decide⟩
  · exact ⟨_, rfl, by decide⟩

theorem ifetchHalf_spec (hs : FetchReady S s) : Spec S (ifetchHalf va) s (FetchOutcome s) := by
  cases hpol : resolveIfetchPolicy s.csr true with
  | error p =>
    -- only the undefined level has no policy
    have hp : p = .ifetchPolicy ∧ s.csr.cpl = .V := by
      unfold resolveIfetchPolicy at hpol
      cases hc : s.csr.cpl <;> rw [hc] at hpol <;> cases hpol
      exact ⟨rfl, rfl⟩
    show Exec.Outcome _ _ _
    unfold ifetchHalf
    rw [Exec.run_ofFun, run_readForIfetch_panic hpol, hp.1]
    exact hs.level.resolve_left fun h => h hp.2
  | ok policy =>
    have hread := readWithPolicy_still .u16 va hs.policy (ifetchPolicy_faultIn hpol)
      fun _ he => he
    show Exec.Outcome _ _ _
    unfold ifetchHalf
    rw [Exec.run_ofFun, run_readForIfetch hpol]
    unfold Spec at hread
    generalize (VirtAddrManager.readWithPolicy .u16 va policy).run s.memory = out at hread ⊢
    rcases out with p | ⟨e | v, memory⟩
    · exact hs.benign p hread
    · obtain ⟨cause, hcause, hknown⟩ := fromInstrFetchErr_load (hread.2 e rfl)
      simp only [Except.map, bind, Except.bind, hcause]
      refine ⟨memory, rfl, hread.1, fun e' he => ?_⟩
      cases he
      exact hknown
    · exact ⟨memory, rfl, hread.1, fun e he => by cases he⟩

theorem ifetchAt_spec (hs : FetchReady S s) : Spec S (ifetchAt va) s (FetchOutcome s) := by
  refine (ifetchHalf_spec hs).seq ?_ ?_
  · rintro lo s₁ ⟨m₁, rfl, h₁, -⟩
    split
    · cases hadd : checkedAdd va 2 with
      | error p =>
        rw [checkedAdd_panic hadd]
        exact hs.benign _ (by decide)
      | ok va' =>
        refine Spec.bind (Spec.of_run (Exec.run_lift_ok va' _) ?_)
        refine (ifetchHalf_spec (hs.still h₁)).seq ?_ ?_
        · rintro hi s₂ ⟨m₂, rfl, h₂, -⟩
          exact ⟨m₂, rfl, h₁.trans h₂, fun e he => by cases he⟩
        · rintro e s₂ ⟨m₂, rfl, h₂, herr⟩
          exact ⟨m₂, rfl, h₁.trans h₂, fun e' he => by cases he; exact herr e rfl⟩
    · exact ⟨m₁, rfl, h₁, fun e he => by cases he⟩
  · rintro e s₁ ⟨m₁, rfl, h₁, herr⟩
    exact ⟨m₁, rfl, h₁, fun e' he => by cases he; exact herr e rfl⟩

/-- The cache is asked first, and remembers what was fetched. -/
theorem decodeAtChecked_spec (va : WordType) (hs : FetchReady S s) :
    Spec S (decodeAtChecked va) s fun r s' =>
      Fetched va s s' ∧ ∀ e, r = .error e → e.cause ≠ .unknown := by
  refine Spec.get_bind ?_
  cases hhit : s.icache.get va with
  | some d => exact ⟨⟨rfl, .refl _, fun _ _ h => .inl h⟩, fun e he => by cases he⟩
  | none =>
    have hfetch : Spec S (ifetchAt va) s _ := ifetchAt_spec hs
    unfold Spec at hfetch ⊢
    rw [Exec.run_bind]
    rcases hrun : (ifetchAt va).run s with p | ⟨e | raw, s₁⟩ <;> rw [hrun] at hfetch
    · exact hfetch
    · obtain ⟨memory, rfl, hstill, herr⟩ := hfetch
      exact ⟨⟨rfl, hstill, fun _ _ h => .inl h⟩, fun e' he => by cases he; exact herr e rfl⟩
    · obtain ⟨memory, rfl, hstill, herr⟩ := hfetch
      show Exec.Outcome _ _ ((Exec.check (decodeRaw P raw) >>= _).run _)
      unfold decodeRaw
      cases hdec : P.decode raw with
      | none =>
        refine ⟨⟨rfl, hstill, fun _ _ h => .inl h⟩, fun e he => ?_⟩
        cases he
        exact show Exception.illegalInstruction ≠ .unknown by decide
      | some d =>
        refine ⟨⟨rfl, hstill, fun a d' hget => ?_⟩, fun e he => by cases he⟩
        rcases DirectCache.get_put hget with ⟨ha, rfl⟩ | hold
        · exact .inr ⟨ha, raw, _, hrun, hdec⟩
        · exact .inl hold

end Fetching

/-! ## One instruction -/

section Instruction

variable {P : Platform} {S : PanicSite → Prop} {s s₁ s₂ s₃ : RVCPU P}

/-- What the panics `S` allows have to cover for an instruction from `s`. -/
structure StepReady (S : PanicSite → Prop) (s : RVCPU P) : Prop extends FetchReady S s where
  modes : PrivilegeDefined s.csr ∨ S .dataAccessPrivilege ∧ S .ecall
  setMode : S .setMode
  trap : ∀ c pc e tval, SameControl s.csr c → e ≠ .unknown →
    Ends S (TrapController.takeException c pc e tval) fun _ => True
  refetch : ∀ d s₁ s₂, (decodeAtChecked s.pc).run s = .ok (.ok d, s₁) → Still s₁ s₂ →
    (∃ raw s₃, (ifetchAt s₂.pc).run s₂ = .ok (.ok raw, s₃)) ∨ S .illegalRefetch
  tval : s.pendingTval = none

theorem Fetched.ready (h : Fetched s.pc s s₁) (hs : StepReady S s) : Ready S s₁ := by
  rw [h.rest]
  exact ⟨hs.benign, (policy_of_config h.mem.config).trans hs.policy, hs.modes⟩

theorem Fetched.csr {va : WordType} (h : Fetched va s s₁) : s₁.csr = s.csr := by rw [h.rest]

theorem Fetched.pendingTval {va : WordType} (h : Fetched va s s₁) :
    s₁.pendingTval = s.pendingTval := by rw [h.rest]

/-- After the fetch, memory was used, and the instruction cache was not. -/
theorem Fetched.kept (h : Fetched s.pc s s₁) (hm : MemAfter s₁.memory s₂.memory)
    (hi : s₂.icache = s₁.icache) (he : s₂.icacheEpoch = s₁.icacheEpoch) : Kept s s₂ := by
  refine ⟨h.mem.after hm, fun a d hget => ?_, ?_⟩
  · rw [hi] at hget
    exact h.icache a d hget
  · rw [he, h.rest]

theorem Kept.same (h : Kept s s₁) (hm : s₂.memory = s₁.memory) (hi : s₂.icache = s₁.icache)
    (he : s₂.icacheEpoch = s₁.icacheEpoch) : Kept s s₂ :=
  ⟨h.mem.then_same (by rw [hm]), by rw [hi]; exact h.icache, he.trans h.epoch⟩

theorem Controlled.then_same {c c' : CsrRegFile} (h : Controlled s c) (h' : SameControl c c') :
    Controlled s c' := by
  cases h with
  | same hc => exact .same (hc.trans h')
  | trap h₁ hu ht h₂ => exact .trap h₁ hu ht (h₂.trans h')
  | written hd hp hc => exact .written hd hp (hc.trans h')
  | xret hr hc => exact .xret hr (hc.trans h')

/-- The integer registers and the counters are nobody's concern here. -/
theorem InstrEffect.then_same (h : InstrEffect s s₁) (h' : RegsOnly s₁ s₂) : InstrEffect s s₂ := by
  refine ⟨h.caches.imp (·.same h'.memory h'.icache h'.epoch) fun he => ?_, h.csr.then_same h'.csr,
    h'.tval.trans h.tval⟩
  exact ⟨by rw [h'.memory]; exact he.tlb, by rw [h'.icache]; exact he.icache,
    h'.epoch.trans he.epoch, by rw [h'.memory]; exact he.policy⟩

theorem regsOnly_clearX0 (s : RVCPU P) : RegsOnly s s.clearX0 := ⟨rfl, .refl _, rfl, rfl, rfl⟩

theorem regsOnly_incrementMcycle (s : RVCPU P) : RegsOnly s s.incrementMcycle :=
  ⟨rfl, .setValue s.csr (by decide) _, rfl, rfl, rfl⟩

/-- An instruction that completed. -/
theorem ExecOutcome.effect {d : P.Decoded} (hf : Fetched s.pc s s₁) (hd : Decodes s d)
    (ht : s.pendingTval = none) (h : ExecOutcome (getExecFunc d.instr) d.info s₁ (.ok ()) s₂) :
    InstrEffect s s₂ := by
  have ht₁ : s₁.pendingTval = none := hf.pendingTval.trans ht
  have hregs : s₁.regFile = s.regFile := by rw [hf.rest]
  have hepoch : s₁.icacheEpoch = s.icacheEpoch := by rw [hf.rest]
  have hempty : ∀ {s₂ : RVCPU P}, Flushed s₁ s₂ →
      s₂.memory.pageTable.adUpdatePolicy = s₁.memory.pageTable.adUpdatePolicy → Emptied s s₂ := by
    intro s₂ h hp
    refine ⟨h.tlb, fun a => ?_, by rw [h.epoch, hepoch],
      hp.trans (policy_of_config hf.mem.config)⟩
    rw [h.icache]
    exact DirectCache.get_clear (c := s₁.icache)
  have hkept : ∀ {s₂ : RVCPU P}, Untouched s₁ s₂ → Kept s s₂ := fun h =>
    hf.kept (.of_pageTable h.pageTable) h.icache h.epoch
  cases h with
  | plain ha htval =>
    refine ⟨.inl (hf.kept ha.mem ha.icache ha.epoch), .same ?_, htval.trans ht₁⟩
    rw [← hf.csr]
    exact ha.csr
  | written hp hw =>
    rename_i addr data
    rw [hf.csr, hregs] at hp
    refine ⟨?_, .written hd hp (by rw [← hf.csr]; exact hw.csr), hw.tval.trans ht₁⟩
    by_cases ha : addr = Csr.satp.addr
    · exact .inr (hempty (hw.satp ha).toFlushed (hw.satp ha).policy)
    · exact .inl (hkept (hw.plain ha))
  | fenced h =>
    refine ⟨.inr (hempty h.toFlushed (policy_of_config h.config)), .same ?_, h.tval.trans ht₁⟩
    rw [← hf.csr]
    exact h.csr
  | returned hr h =>
    rw [hf.csr] at hr
    exact ⟨.inl (hkept h.toUntouched), .xret hr h.csr, h.tval.trans ht₁⟩

/-- A trap taken in the state an instruction left. -/
theorem takeException_effect (hs : StepReady S s) (hk : Kept s s₁) (hc : SameControl s.csr s₁.csr)
    (ht : s₁.pendingTval = none) {e : Exception} (hu : e ≠ .unknown) (tval : WordType) :
    Ends S (s₁.takeException e tval) (InstrEffect s) := by
  have htrap := hs.trap s₁.csr s₁.pc e tval hc hu
  unfold RVCPU.takeException
  cases hrun : TrapController.takeException s₁.csr s₁.pc e tval with
  | error p =>
    rw [hrun] at htrap
    exact htrap
  | ok ctx => exact ⟨.inl (hk.same rfl rfl rfl), .trap hc hu hrun (.refl _), ht⟩

theorem still_clearX0 (s : RVCPU P) : Still s s.clearX0 := ⟨.refl _, .refl _, rfl, rfl, rfl, rfl⟩

/-- The illegal instruction is fetched once more, from an unchanged machine. -/
theorem refetch_effect {d : P.Decoded} (hs : StepReady S s) (hf : Fetched s.pc s s₁)
    (hd : (decodeAtChecked s.pc).run s = .ok (.ok d, s₁)) (hstill : Still s₁ s₂) :
    Ends S (finishStep (.error .illegalInstruction, s₂)) (InstrEffect s) := by
  have hready : FetchReady S s₂ := by
    refine ⟨hs.benign, (policy_of_config hstill.mem.config).trans (hf.ready hs).policy, ?_⟩
    rw [hstill.csr.cpl, hf.csr]
    exact hs.level
  have hfails : (∀ raw s₃, (ifetchAt s₂.pc).run s₂ ≠ .ok (.ok raw, s₃)) → S .illegalRefetch :=
    fun hno => (hs.refetch d s₁ s₂ hd hstill).resolve_left fun ⟨raw, s₃, hok⟩ => hno raw s₃ hok
  refine Ends.bind ?_
  unfold RVCPU.refetch
  rcases hrun : (ifetchAt s₂.pc).run s₂ with p | ⟨e | raw, s₃⟩
  · exact hfails (by simp [hrun])
  · exact hfails (by simp [hrun])
  · obtain ⟨memory, rfl, hmem, -⟩ := (ifetchAt_spec hready).elim hrun
    refine takeException_effect hs ?_ ?_ ?_ (by decide) _
    · exact hf.kept (hstill.mem.trans hmem).toMemAfter hstill.icache hstill.epoch
    · rw [← hf.csr]
      exact hstill.csr
    · exact hstill.tval.trans (hf.pendingTval.trans hs.tval)

theorem finishStep_effect {d : P.Decoded} {r : Except Exception Unit} (hs : StepReady S s)
    (hf : Fetched s.pc s s₁) (hd : (decodeAtChecked s.pc).run s = .ok (.ok d, s₁))
    (h : ExecOutcome (getExecFunc d.instr) d.info s₁ r s₂) :
    Ends S (finishStep (r, s₂.clearX0)) (InstrEffect s) := by
  cases r with
  | ok _ => exact (h.effect hf ⟨s₁, hd⟩ hs.tval).then_same (regsOnly_clearX0 s₂)
  | error e =>
    obtain ⟨hfailed⟩ := h
    by_cases he : e = .illegalInstruction
    · subst he
      exact refetch_effect hs hf hd ((hfailed.illegal rfl).trans (still_clearX0 s₂))
    · rw [finishStep_of_ne he]
      refine takeException_effect hs ?_ ?_ rfl hfailed.known _
      · exact hf.kept hfailed.after.mem hfailed.after.icache hfailed.after.epoch
      · rw [← hf.csr]
        exact hfailed.after.csr

theorem stepImpl_effect (hs : StepReady S s) : Ends S s.stepImpl (InstrEffect s) := by
  have hdecode := decodeAtChecked_spec s.pc hs.toFetchReady
  refine Ends.bind ?_
  rcases hrun : (decodeAtChecked s.pc).run s with p | ⟨e | d, s₁⟩
  · exact hdecode.elim_panic hrun
  · obtain ⟨hf, herr⟩ := hdecode.elim hrun
    refine takeException_effect hs ?_ ?_ (hf.pendingTval.trans hs.tval) (herr e rfl) _
    · exact hf.kept (MemStill.refl _).toMemAfter rfl rfl
    · rw [hf.csr]
      exact .refl _
  · obtain ⟨hf, -⟩ := hdecode.elim hrun
    have hexec := exec_spec (getExecFunc d.instr) d.info (hf.ready hs) fun _ _ => .inr hs.setMode
    refine Ends.bind ?_
    unfold execute
    refine Ends.bind ?_
    cases hx : (exec (getExecFunc d.instr) d.info).run s₁ with
    | error p => exact hexec.elim_panic hx
    | ok out => exact finishStep_effect hs hf hrun (hexec.elim hx)

theorem stepOnce_effect (hs : StepReady S s) : Ends S s.stepOnce (InstrEffect s) := by
  refine Ends.bind ((stepImpl_effect hs).mono fun s₁ h => ?_)
  have heffect := h.then_same (regsOnly_incrementMcycle s₁)
  rw [if_pos heffect.tval]
  exact heffect

end Instruction

end HereEmu
