import HereEmu.Proofs.Retire

/-!
# The retired-instruction counter over a step

CSR instructions are the exceptions to the counting of `Retire`. One that
writes `minstret` leaves what it writes, and one that sets or clears no bits is
not counted. Every other instruction that a step completes adds one to the
counter, and panics where there is no next count; one that raises an exception
leaves it.
-/

namespace HereEmu

open Lib (Exec)
open Lib.Exec (Spec run_bind_ok run_get)
open RVCPU CsrRegFile Csr

/-! ## CSR instructions -/

section CsrInstructions

variable {P : Platform} {s : RVCPU P} {addr imm : WordType} {set uimm : Bool} {rs1 rd : RegIdx}

/-- The counter is seen at two addresses. -/
def SeesInstret (addr : WordType) : Prop := addr = minstret.addr ∨ addr = instret.addr

theorem SeesInstret.of_base {r : Csr} (h : r.base = .minstret) : SeesInstret r.addr := by
  have hr : r = .minstret ∨ r = .instret := by
    cases r <;> first | exact .inl rfl | exact .inr rfl | cases h
  rcases hr with rfl | rfl
  · exact .inl rfl
  · exact .inr rfl

theorem written_ne_minstret (h : ¬ SeesInstret addr) : CsrRegFile.written addr ≠ some .minstret := by
  intro hw
  rcases addr_of_written hw with hr | hr | ⟨r, hbase, rfl⟩
  · cases hr
  · cases hr
  · exact h (.of_base hbase)

theorem readUncheckPrivilege_recount (h : ¬ SeesInstret addr) (c : CsrRegFile) (v : WordType) :
    (c.setValue .minstret v).readUncheckPrivilege addr = c.readUncheckPrivilege addr := by
  have hf : (c.setValue .minstret v).value .fcsr = c.value .fcsr :=
    setValue_ne (by decide)
  have hv : (c.setValue .minstret v).value .vcsr = c.value .vcsr :=
    setValue_ne (by decide)
  unfold readUncheckPrivilege
  rw [hf, hv]
  cases hr : ofAddr addr with
  | none => rfl
  | some r =>
    have hbase : r.base ≠ .minstret := by
      intro hbase
      rw [← addr_of_ofAddr hr] at h
      exact h (.of_base hbase)
    unfold base at hbase
    cases hs : r.shadowOf with
    | none =>
      rw [hs] at hbase
      simp only [hs, setValue_ne (show r ≠ .minstret from hbase)]
    | some b =>
      rw [hs] at hbase
      simp only [hs, setValue_ne (show b ≠ .minstret from hbase)]

/-- Whether an access is allowed does not depend on the count. -/
theorem isReadPrivLegal_recount (addr v : WordType) (c : CsrRegFile) :
    (c.setValue .minstret v).isReadPrivLegal addr = c.isReadPrivLegal addr := by
  unfold isReadPrivLegal
  rfl

theorem isWritePrivLegal_recount (addr v : WordType) (c : CsrRegFile) :
    (c.setValue .minstret v).isWritePrivLegal addr = c.isWritePrivLegal addr := by
  unfold isWritePrivLegal
  rw [isReadPrivLegal_recount]

theorem Oblivious.readCsr (h : ¬ SeesInstret addr) : Oblivious (readCsr addr : CpuM P WordType) := by
  intro v s
  unfold RVCPU.readCsr
  rw [run_bind_ok (run_get s), run_bind_ok (run_get _)]
  have hread : (s.recount v).csr.readChecked addr = s.csr.readChecked addr := by
    unfold readChecked
    rw [show (s.recount v).csr = s.csr.setValue .minstret v from rfl, isReadPrivLegal_recount,
      readUncheckPrivilege_recount h]
  rw [hread, show (s.recount v).timeAddr = s.timeAddr from rfl]
  split
  · cases s.timeAddr with
    | none => rfl
    | some a =>
      show Except.map _ (((VirtAddrManager.readByPaddr .u64 a).run s.memory).map _) =
        Except.map _ (Except.map _ (((VirtAddrManager.readByPaddr .u64 a).run s.memory).map _))
      cases (VirtAddrManager.readByPaddr .u64 a).run s.memory with
      | error p => rfl
      | ok out => obtain ⟨_ | _, m⟩ := out <;> rfl
  · cases s.csr.readChecked addr <;> rfl

theorem applySatp_recount (v : WordType) (s : RVCPU P) :
    (s.recount v).applySatp = s.applySatp.map (RVCPU.recount v) := by
  unfold RVCPU.applySatp
  rw [get_recount (by decide), get_recount (by decide), show (s.recount v).memory = s.memory from rfl]
  cases s.memory.setMode (s.csr.get .satp Satp.mode) <;> rfl

theorem Oblivious.writeCsr (h : ¬ SeesInstret addr) (data : WordType) :
    Oblivious (writeCsr addr data : CpuM P Unit) := by
  intro v s
  have hwrite : (s.recount v).csr.writeUncheckPrivilege addr data =
      (s.csr.writeUncheckPrivilege addr data).setValue .minstret v :=
    writeUncheckPrivilege_setValue (written_ne_minstret h)
  have hlegal : (s.recount v).csr.isWritePrivLegal addr = _ := isWritePrivLegal_recount addr v s.csr
  cases hl : s.csr.isWritePrivLegal addr with
  | false =>
    rw [hl] at hlegal
    unfold RVCPU.writeCsr writeChecked
    rw [run_bind_ok (run_get s), run_bind_ok (run_get _), hl, hlegal]
    rfl
  | true =>
    rw [hl] at hlegal
    rw [run_writeCsr hl, run_writeCsr hlegal, hwrite]
    split
    · have hap := applySatp_recount v { s with csr := s.csr.writeUncheckPrivilege addr data }
      refine (congrArg (Except.map fun s' => (Except.ok (), s')) hap).trans ?_
      cases ({ s with csr := s.csr.writeUncheckPrivilege addr data } : RVCPU P).applySatp <;> rfl
    · rfl

/-- The end of a CSR instruction that does not write the counter. -/
theorem Counts.csrTail (h : ¬ SeesInstret addr) (data : WordType) :
    Counts (do RVCPU.writeCsr addr data; RVCPU.retireCsr addr; RVCPU.advancePc 4 : CpuM P Unit) := by
  have hretire : (RVCPU.retireCsr addr : CpuM P Unit) = RVCPU.retire := if_neg fun ha => h (.inl ha)
  rw [hretire]
  exact (Oblivious.writeCsr h data).then_counts fun _ =>
    Counts.retire.then_completes (.advancePc 4) fun _ => ⟨_, rfl⟩

/-! ### Instructions that write the counter -/

/-- `minstret` keeps every bit it is given. -/
theorem writeUncheckPrivilege_minstret (c : CsrRegFile) (data : WordType) :
    c.writeUncheckPrivilege minstret.addr data = c.setValue .minstret data := by
  rw [writeUncheckPrivilege_addr (by decide) rfl,
    writeReg_of_keeps (Keeps.of_mask (by decide) (by decide) (by decide +kernel))]

theorem csrTail_minstret (hlegal : s.csr.isWritePrivLegal minstret.addr)
    (data : WordType) (regFile : RegIdx → WordType) :
    ∃ s', Exec.run (do
      writeCsr minstret.addr data
      retireCsr minstret.addr
      advancePc 4) { s with regFile } = .ok (.ok (), s') ∧ s'.instret = data := by
  have hwrite := run_writeCsr (s := { s with regFile }) hlegal data
  rw [if_neg (by decide), writeUncheckPrivilege_minstret] at hwrite
  rw [run_bind_ok hwrite]
  exact ⟨_, rfl, setValue_same⟩

/-! ### Instructions that are not counted -/

/-- Reading the counter, from either address. -/
theorem readCsr_instret (hsees : SeesInstret addr) (s : RVCPU P) : ∃ value,
    (readCsr addr).run s = .ok (if s.csr.isReadPrivLegal addr then .ok value
      else .error .illegalInstruction, s) := by
  have htime : addr ≠ TIME := by
    rcases hsees with rfl | rfl <;> decide
  obtain ⟨value, hvalue⟩ : ∃ value, s.csr.readUncheckPrivilege addr = some value := by
    rcases hsees with rfl | rfl <;> exact ⟨_, rfl⟩
  refine ⟨value, ?_⟩
  unfold readCsr readChecked
  rw [run_bind_ok (run_get s), if_neg htime, hvalue]
  cases s.csr.isReadPrivLegal addr <;> rfl

/-- Whether a register can be read does not depend on the count. -/
theorem readCsr_completes {v value : WordType} {s₂ : RVCPU P}
    (h : (readCsr addr).run (s.recount v) = .ok (.ok value, s₂)) :
    ∃ value' s', (readCsr addr).run s = .ok (.ok value', s') ∧ s'.instret = s.instret := by
  by_cases hsees : SeesInstret addr
  · obtain ⟨value₁, h₁⟩ := readCsr_instret hsees s
    obtain ⟨value₂, h₂⟩ := readCsr_instret hsees (s.recount v)
    have hlegal : (s.recount v).csr.isReadPrivLegal addr = s.csr.isReadPrivLegal addr :=
      isReadPrivLegal_recount addr v s.csr
    rw [hlegal] at h₂
    cases hl : s.csr.isReadPrivLegal addr with
    | false =>
      rw [hl, h] at h₂
      cases h₂
    | true =>
      rw [hl] at h₁
      exact ⟨value₁, s, h₁, rfl⟩
  · have hblind := Oblivious.readCsr hsees v s
    rw [h] at hblind
    obtain ⟨⟨r, s'⟩, hr, hout⟩ := Lib.exists_of_map_ok hblind.symm
    cases hout
    exact ⟨value, s', hr, (Oblivious.readCsr hsees).instret hr⟩

/-- The plan of an instruction does not depend on the count, unless it writes it.
The counter's second address is read-only. -/
theorem csrPlan_recount {F V : Type} (c : CsrRegFile) (regFile : RegIdx → WordType) (f : ExecFunc F V)
    (info : RVInstrInfo) :
    (∀ v, csrPlan (c.setValue .minstret v) regFile f info = csrPlan c regFile f info) ∨
      ∃ rd old data, csrPlan c regFile f info = .write rd old minstret.addr data := by
  have hold : c.readUncheckPrivilege minstret.addr = some (c.value .minstret) := rfl
  have hread : ∀ addr v, c.isWritePrivLegal addr → addr ≠ minstret.addr →
      (c.setValue .minstret v).readUncheckPrivilege addr = c.readUncheckPrivilege addr := by
    intro addr v hlegal hm
    refine readUncheckPrivilege_recount (not_or.mpr ⟨hm, ?_⟩) c v
    rintro rfl
    cases hlegal
  unfold csrPlan CsrPlan.update
  simp only [isWritePrivLegal_recount]
  cases f with
  | csrw uimm | csrBit set uimm => cases info <;> grind
  | _ => exact .inl fun _ => rfl

end CsrInstructions

/-! ## Every instruction -/

section Instructions

variable {P : Platform} {s s₂ : RVCPU P} {f : ExecFunc P.FloatOp P.VectorOp} {info : RVInstrInfo}
  {v : WordType}

/-- The instructions that complete without being counted. -/
def Uncounted {F V : Type} (regFile : RegIdx → WordType) : ExecFunc F V → RVInstrInfo → Prop
  | .csrBit _ uimm, .I rs1 _ _ => csrOperandOf regFile uimm rs1 = 0
  | .csrw _, .I _ _ _ => False
  | .csrw _, _ => True
  | _, _ => False

/-- The value an instruction writes to the counter, if it does. -/
def instretWrite {F V : Type} (csr : CsrRegFile) (regFile : RegIdx → WordType)
    (f : ExecFunc F V) (info : RVInstrInfo) : Option WordType :=
  (pendingCsrWrite csr regFile f info).bind fun w =>
    if w.1 = minstret.addr then some w.2 else none

section

variable {F V : Type} {csr : CsrRegFile} {regFile : RegIdx → WordType} {f : ExecFunc F V}

theorem instretWrite_of_pending {data : WordType}
    (h : pendingCsrWrite csr regFile f info = some (minstret.addr, data)) :
    instretWrite csr regFile f info = some data := by
  unfold instretWrite
  rw [h]
  rfl

theorem instretWrite_of_none (h : pendingCsrWrite csr regFile f info = none) :
    instretWrite csr regFile f info = none := by
  unfold instretWrite
  rw [h]
  rfl

end

theorem uncounted_iff {F V : Type} (csr : CsrRegFile) (regFile : RegIdx → WordType) (f : ExecFunc F V)
    (info : RVInstrInfo) : Uncounted regFile f info ↔ match csrPlan csr regFile f info with
      | .skip | .peek _ _ => True
      | _ => False := by
  unfold Uncounted csrPlan CsrPlan.update
  cases f with
  | csrw uimm | csrBit set uimm => cases info <;> grind
  | _ => exact Iff.rfl

/-- What becomes of the counter when an instruction that would complete, were
there always a next count, is executed. -/
inductive CountOutcome (s : RVCPU P) (f : ExecFunc P.FloatOp P.VectorOp) (info : RVInstrInfo) : Prop
  | skipped (s' : RVCPU P) (huncounted : Uncounted s.regFile f info)
      (hwrite : instretWrite s.csr s.regFile f info = none)
      (hrun : (exec f info).run s = .ok (.ok (), s')) (hinstret : s'.instret = s.instret)
  | written (s' : RVCPU P) (hcounted : ¬ Uncounted s.regFile f info) (data : WordType)
      (hwrite : instretWrite s.csr s.regFile f info = some data)
      (hrun : (exec f info).run s = .ok (.ok (), s')) (hinstret : s'.instret = data)
  | counted (s' : RVCPU P) (hcounted : ¬ Uncounted s.regFile f info)
      (hwrite : instretWrite s.csr s.regFile f info = none) (hlast : s.instret ≠ lastCount)
      (hrun : (exec f info).run s = .ok (.ok (), s')) (hinstret : s'.instret = s.instret + 1)
  | overflow (hcounted : ¬ Uncounted s.regFile f info)
      (hwrite : instretWrite s.csr s.regFile f info = none) (hlast : s.instret = lastCount)
      (hrun : (exec f info).run s = .error .overflow)

/-- Executing with any count is executing with none and counting from there. -/
def CountsFrom (s : RVCPU P) (m : CpuM P Unit) : Prop :=
  ∀ w, m.run (s.recount w) = m.run (s.recount 0) >>= countOn w

theorem Counts.from {m : CpuM P Unit} (h : Counts m) (s : RVCPU P) : CountsFrom s m := by
  intro w
  have h0 := h (s.recount 0) w (by rw [instret_recount]; decide)
  rw [recount_recount] at h0
  exact h0

theorem CountsFrom.congr {m m' : CpuM P Unit} (h : CountsFrom s m')
    (hm : ∀ w, m.run (s.recount w) = m'.run (s.recount w)) : CountsFrom s m := by
  intro w
  rw [hm, hm]
  exact h w

theorem CountOutcome.of_countsFrom (hc : CountsFrom s (exec f info))
    (hcounted : ¬ Uncounted s.regFile f info) (hwrite : instretWrite s.csr s.regFile f info = none)
    (h : (exec f info).run (s.recount v) = .ok (.ok (), s₂)) : CountOutcome s f info := by
  rw [hc v] at h
  have hs := hc s.instret
  rw [recount_instret] at hs
  obtain ⟨⟨r, t⟩, hr, h⟩ := Lib.exists_of_bind_ok h
  rw [hr] at hs
  cases r with
  | error e => cases h
  | ok _ =>
    by_cases hlast : s.instret = lastCount
    · exact .overflow hcounted hwrite hlast (hs.trans (if_pos hlast))
    · exact .counted _ hcounted hwrite hlast (hs.trans (if_neg hlast)) (instret_recount _ _)

theorem CountsFrom.exec_error {e : Exception} (hc : CountsFrom s (exec f info))
    (h : (exec f info).run s = .ok (.error e, s₂)) : s₂.instret = s.instret := by
  have hs := hc s.instret
  rw [recount_instret, h] at hs
  obtain ⟨⟨r, t⟩, _, hs⟩ := Lib.exists_of_bind_ok hs.symm
  cases r with
  | error e' =>
    cases hs
    exact instret_recount _ _
  | ok _ =>
    rw [countOn_ok] at hs
    split at hs <;> cases hs

/-- Every instruction outside CSRs is counted. -/
theorem Counts.exec (hf : f.isCsr = false) (info : RVInstrInfo) : Counts (exec f info) := by
  cases hv : f.isVector with
  | false => exact .of_course (by rw [ExecFunc.ownWay, hf, hv]; rfl) info
  | true => exact .vector hv info

theorem csr_outcome (hf : f.isCsr)
    (h : (exec f info).run (s.recount v) = .ok (.ok (), s₂)) : CountOutcome s f info := by
  have hcount := uncounted_iff s.csr s.regFile f info
  have hfits := csrPlan_fits s.csr s.regFile f info
  have hrun : ∀ t, (exec f info).run t = _ := run_exec_csr hf
  have hs := hrun s
  have hwritten : ∀ {rd old data}, csrPlan s.csr s.regFile f info = .write rd old minstret.addr data →
      CountOutcome s f info := by
    intro rd old data hp
    rw [hp] at hs hcount hfits
    obtain ⟨regFile, hreg⟩ := run_writeReg rd old s
    obtain ⟨s', htail, hinstret⟩ := csrTail_minstret (writable_of_pending hfits) data regFile
    exact .written s' hcount.1 data (instretWrite_of_pending hfits)
      (hs.trans ((run_bind_ok hreg).trans htail)) hinstret
  rcases csrPlan_recount s.csr s.regFile f info with hsame | ⟨rd, old, data, hp⟩
  · have hv : (csrPlan s.csr s.regFile f info).run.run (s.recount v) = .ok (.ok (), s₂) := by
      rw [← hsame v]
      exact (hrun _).symm.trans h
    cases hp : csrPlan s.csr s.regFile f info with
    | wrong | refused =>
      rw [hp] at hv
      cases hv
    | skip =>
      rw [hp] at hs hcount hfits
      exact .skipped _ (hcount.2 trivial) (instretWrite_of_none hfits) hs rfl
    | peek rd addr =>
      rw [hp] at hv hs hcount hfits
      obtain ⟨_, _, hr, _⟩ := Exec.run_bind_eq_ok hv
      obtain ⟨value, s', hs', hinstret⟩ := readCsr_completes hr
      obtain ⟨regFile, hreg⟩ := run_writeReg rd value s'
      exact .skipped _ (hcount.2 trivial) (instretWrite_of_none hfits)
        (hs.trans ((run_bind_ok hs').trans (run_bind_ok hreg))) hinstret
    | write rd old addr data =>
      by_cases hm : addr = minstret.addr
      · exact hwritten (hm ▸ hp)
      · rw [hp] at hcount hfits
        have hsees : ¬ SeesInstret addr := by
          refine not_or.mpr ⟨hm, ?_⟩
          rintro rfl
          cases writable_of_pending hfits
        have hcounts : Counts ((CsrPlan.write rd old addr data).run : CpuM P Unit) :=
          (Oblivious.writeReg rd old).then_counts fun _ => .csrTail hsees data
        refine .of_countsFrom ((hcounts.from s).congr fun w => ?_) hcount.1 ?_ h
        · rw [hrun, show csrPlan (s.recount w).csr (s.recount w).regFile f info = _ from hsame w, hp]
        · unfold instretWrite
          rw [hfits]
          exact if_neg hm
  · exact hwritten hp

theorem exec_outcome (h : (exec f info).run (s.recount v) = .ok (.ok (), s₂)) :
    CountOutcome s f info := by
  cases hf : f.isCsr with
  | true => exact csr_outcome hf h
  | false =>
    refine .of_countsFrom ((Counts.exec hf info).from s) ?_ ?_ h
    · cases f <;> first | exact id | cases hf
    · cases f <;> first | rfl | cases hf

theorem exec_error_instret {e : Exception} (h : (exec f info).run s = .ok (.error e, s₂)) :
    s₂.instret = s.instret := by
  by_cases hvector : f.isVector
  · have hf : f.isCsr = false := by cases f <;> first | rfl | cases hvector
    exact ((Counts.exec hf info).from s).exec_error h
  · have habort := (exec_precise info (Bool.eq_false_iff.mpr hvector)).elim h
    rw [habort.only]
    rfl

end Instructions

/-! ## Steps -/

section Steps

variable {P : Platform} {s s₁ s₂ s' : RVCPU P} {d : P.Decoded} {e : Exception} {v : WordType}

theorem trapWrites_minstret (csr : CsrRegFile) : minstret ∉ trapWrites csr := by
  unfold trapWrites
  cases csr.cpl <;> decide

theorem takeException_instret {tval : WordType} (h : s.takeException e tval = .ok s') :
    s'.instret = s.instret :=
  (takeException_recorded h).2.frame _ (trapWrites_minstret _)

theorem FetchOnly.instret (h : FetchOnly s s') : s'.instret = s.instret := by
  rw [h.only]
  rfl

theorem finishStep_instret (h : finishStep (.error e, s) = .ok s') : s'.instret = s.instret := by
  obtain ⟨s₁, tval, hfetch, htake, -⟩ := finishStep_error h
  rw [takeException_instret htake, hfetch.instret]
  rfl

theorem stepImpl_fetch_error {e : ExceptionInfo}
    (hdec : (decodeAtChecked s.pc).run s = .ok (.error e, s₁)) :
    s.stepImpl = s₁.takeException e.cause e.tval := by
  unfold stepImpl
  simp only [hdec, bind, Except.bind]

/-- A step is its instruction, when that completes. -/
theorem stepImpl_exec (hdec : (decodeAtChecked s.pc).run s = .ok (.ok d, s₁))
    (hrun : (exec (getExecFunc d.instr) d.info).run s₁ = .ok (.ok (), s₂)) :
    s.stepImpl = .ok s₂.clearX0 := by
  have hexec : (execute d).run s₁ = .ok (.ok (), s₂.clearX0) := by
    unfold execute
    rw [Exec.run_ofFun, hrun]
    rfl
  rw [stepImpl_decoded hdec hexec]
  rfl

theorem stepImpl_exec_panic {p : PanicSite} (hdec : (decodeAtChecked s.pc).run s = .ok (.ok d, s₁))
    (hrun : (exec (getExecFunc d.instr) d.info).run s₁ = .error p) : s.stepImpl = .error p := by
  unfold stepImpl execute
  simp only [hdec, Exec.run_ofFun, hrun, bind, Except.bind]

/-- The counter as it should be after a step that completes `d`. -/
def RVCPU.nextInstret (s : RVCPU P) (d : P.Decoded) : WordType :=
  (instretWrite s.csr s.regFile (getExecFunc d.instr) d.info).getD (s.instret + 1)

/-- A step that ends in an exception, of the fetch or of the instruction, leaves
the counter. One whose instruction completes, or would with some count, counts
it, or leaves what it writes to the counter, exactly if it is no CSR instruction
without a bit to set or clear and, not writing the counter, finds a next count. -/
theorem stepImpl_instret (s : RVCPU P) :
    (∀ e s₁ s', (decodeAtChecked s.pc).run s = .ok (.error e, s₁) → s.stepImpl = .ok s' →
      s'.instret = s.instret) ∧
    ∀ d s₁, (decodeAtChecked s.pc).run s = .ok (.ok d, s₁) →
      (∀ e s₂ s', (execute d).run s₁ = .ok (.error e, s₂) → s.stepImpl = .ok s' →
        s'.instret = s.instret) ∧
      ∀ v s₂, (execute d).run (s₁.recount v) = .ok (.ok (), s₂) →
        ((∃ s', s.stepImpl = .ok s' ∧ s'.instret = s.nextInstret d) ↔
          ¬ Uncounted s.regFile (getExecFunc d.instr) d.info ∧
            (instretWrite s.csr s.regFile (getExecFunc d.instr) d.info = none →
              s.instret ≠ lastCount)) := by
  refine ⟨fun e s₁ s' hdec hstep => ?_, fun d s₁ hdec => ?_⟩
  · rw [stepImpl_fetch_error hdec] at hstep
    rw [takeException_instret hstep, ((decodeAtChecked_fetchOnly s.pc).elim hdec).instret]
  have hfetch := (decodeAtChecked_fetchOnly s.pc).elim hdec
  refine ⟨fun e s₂ s' hexec hstep => ?_, fun v s₂ hexec => ?_⟩
  · rw [stepImpl_decoded hdec hexec] at hstep
    obtain ⟨s₃, hrun, rfl⟩ := execute_cases hexec
    rw [finishStep_instret hstep, show s₃.clearX0.instret = s₃.instret from rfl,
      exec_error_instret hrun, hfetch.instret]
  · obtain ⟨s₃, hrun, rfl⟩ := execute_cases hexec
    have hcsr : s₁.csr = s.csr := by rw [hfetch.only]
    have hregs : s₁.regFile = s.regFile := by rw [hfetch.only]
    have hcount := hfetch.instret
    unfold RVCPU.nextInstret
    rw [← hcsr, ← hregs, ← hcount]
    cases exec_outcome hrun with
    | skipped s' huncounted hwrite hrun hinstret =>
      refine iff_of_false ?_ fun h => h.1 huncounted
      rw [stepImpl_exec hdec hrun, hwrite]
      rintro ⟨_, hs', hnext⟩
      cases hs'
      have hsame : s₁.instret = s₁.instret + 1 := hinstret.symm.trans hnext
      exact absurd hsame (by simp)
    | written s' hcounted data hwrite hrun hinstret =>
      refine iff_of_true ⟨_, stepImpl_exec hdec hrun, ?_⟩ ⟨hcounted, ?_⟩
      · rw [hwrite]
        exact hinstret
      · rw [hwrite]
        exact nofun
    | counted s' hcounted hwrite hlast hrun hinstret =>
      refine iff_of_true ⟨_, stepImpl_exec hdec hrun, ?_⟩ ⟨hcounted, fun _ => hlast⟩
      rw [hwrite]
      exact hinstret
    | overflow hcounted hwrite hlast hrun =>
      refine iff_of_false ?_ fun h => h.2 hwrite hlast
      rw [stepImpl_exec_panic hdec hrun]
      rintro ⟨_, hs', -⟩
      cases hs'

/-- `addi x1, x0, 1`. -/
def countedCpu : RVCPU .program := programCpu [0x00100093]

theorem stepImpl_instret_addi : ∃ s', countedCpu.stepImpl = .ok s' ∧ s'.instret = 1 := by
  obtain ⟨s₁, hs₁⟩ : ∃ s₁, s₁ = { countedCpu with
      icache := countedCpu.icache.put countedCpu.pc ⟨.ADDI, .I 0 1 1⟩ } := ⟨_, rfl⟩
  have hdec : (decodeAtChecked countedCpu.pc).run countedCpu = .ok (.ok ⟨.ADDI, .I 0 1 1⟩, s₁) := by
    rw [hs₁]
    rfl
  obtain ⟨s₂, hs₂⟩ : ∃ s₂, (execute (⟨.ADDI, .I 0 1 1⟩ : Platform.program.Decoded)).run
      (s₁.recount 0) = .ok (.ok (), s₂) := by
    rw [hs₁]
    exact ⟨_, rfl⟩
  exact (((stepImpl_instret countedCpu).2 _ _ hdec).2 0 s₂ hs₂).mpr ⟨id, fun _ => by decide⟩

/-- A read of a CSR, `csrrs x1, mscratch, x0`, is not counted, and an instruction
that completes with another count panics at the last. -/
theorem stepImpl_instret_uncounted :
    (programCpu [0x340020f3]).stepImpl.map (fun s' => (s'.pc, s'.instret)) =
      .ok (DEFAULT_PC_VALUE + 4, 0) ∧
    countedCpu.stepImpl.map (fun s' => (s'.pc, s'.instret)) = .ok (DEFAULT_PC_VALUE + 4, 1) ∧
    (countedCpu.recount lastCount).stepImpl.map (fun s' => (s'.pc, s'.instret)) =
      .error .overflow := by
  decide +kernel

end Steps

end HereEmu
