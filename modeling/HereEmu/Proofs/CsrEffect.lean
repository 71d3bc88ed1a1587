import HereEmu.Proofs.ExecEffect

/-!
# System instructions

The instructions that do change what the next fetch and the next trap depend
on. A CSR instruction writes at most one register, and which one and what
value is known before it runs (`pendingCsrWrite`). A write to `satp` sets up
the walker and empties both caches; the fences empty both caches; `mret` and
`sret` change the privilege level and leave the caches alone.
-/

namespace HereEmu

open Lib (Exec)
open Lib.Exec (Spec Outcome run_bind_ok run_get)
open RVCPU

section Definitions

variable {P : Platform}

/-- The operand of a CSR instruction. -/
def csrOperandOf (regFile : RegIdx → WordType) (uimm : Bool) (rs1 : RegIdx) : WordType :=
  if uimm then rs1.setWidth 64 else regFile rs1

/-- The address and value a CSR instruction is about to write, if it writes. -/
def pendingCsrWrite {F V : Type} (csr : CsrRegFile) (regFile : RegIdx → WordType) :
    ExecFunc F V → RVInstrInfo → Option (WordType × WordType)
  | .csrw uimm, .I rs1 _ imm =>
    if csr.isWritePrivLegal (imm &&& 0xfff) then some (imm &&& 0xfff, csrOperandOf regFile uimm rs1)
    else none
  | .csrBit set uimm, .I rs1 _ imm =>
    let rhs := csrOperandOf regFile uimm rs1
    if rhs ≠ 0 ∧ csr.isWritePrivLegal (imm &&& 0xfff) then
      (csr.readUncheckPrivilege (imm &&& 0xfff)).map fun value =>
        (imm &&& 0xfff, if set then value ||| rhs else value &&& ~~~rhs)
    else none
  | _, _ => none

theorem writable_of_pending {F V : Type} {csr : CsrRegFile} {regFile : RegIdx → WordType}
    {f : ExecFunc F V} {info : RVInstrInfo} {addr data : WordType}
    (h : pendingCsrWrite csr regFile f info = some (addr, data)) : csr.isWritePrivLegal addr := by
  unfold pendingCsrWrite at h
  split at h
  · split at h
    · next hlegal =>
        cases h
        exact hlegal
    · cases h
  · dsimp only at h
    split at h
    · next hlegal =>
        obtain ⟨value, -, heq⟩ := Option.map_eq_some_iff.mp h
        cases heq
        exact hlegal.2
    · cases h
  · cases h

/-- Both caches were emptied. -/
structure Flushed (s s' : RVCPU P) : Prop where
  tlb : ∀ k, s'.memory.pageTable.tlb.get k = none
  icache : s'.icache = s.icache.clear
  epoch : s'.icacheEpoch = s.icacheEpoch + 1

/-- Neither cache was touched, nor the walker. -/
structure Untouched (s s' : RVCPU P) : Prop where
  pageTable : s'.memory.pageTable = s.memory.pageTable
  icache : s'.icache = s.icache
  epoch : s'.icacheEpoch = s.icacheEpoch

/-- The walker after a write to `satp`. -/
structure SatpApplied (s s' : RVCPU P) : Prop extends Flushed s s' where
  mode : s.memory.pageTable.setMode (s'.csr.get .satp Satp.mode) =
    .ok { s.memory.pageTable with mode := s'.memory.pageTable.mode }
  root : s'.memory.pageTable.rootAddress = s'.csr.get .satp Satp.ppn <<< PAGE_SIZE_XLEN
  policy : s'.memory.pageTable.adUpdatePolicy = s.memory.pageTable.adUpdatePolicy

/-- What a CSR instruction that writes `data` to `addr` leaves. -/
structure CsrWritten (addr data : WordType) (s s' : RVCPU P) : Prop where
  csr : SameControl (s.csr.writeUncheckPrivilege addr data) s'.csr
  mmio : s'.memory.mmio = s.memory.mmio
  tval : s'.pendingTval = s.pendingTval
  plain : addr ≠ Csr.satp.addr → Untouched s s'
  satp : addr = Csr.satp.addr → SatpApplied s s'

/-- After a fence. -/
structure Fenced (s s' : RVCPU P) : Prop extends Flushed s s' where
  csr : SameControl s.csr s'.csr
  config : s'.memory.pageTable.flushTlb = s.memory.pageTable.flushTlb
  mmio : s'.memory.mmio = s.memory.mmio
  tval : s'.pendingTval = s.pendingTval

/-- After `mret` or `sret`, which left the registers `csr`. -/
structure Switched (csr : CsrRegFile) (s s' : RVCPU P) : Prop extends Untouched s s' where
  csr : SameControl csr s'.csr
  mmio : s'.memory.mmio = s.memory.mmio
  tval : s'.pendingTval = s.pendingTval

/-- How an instruction can end. -/
inductive ExecOutcome (f : ExecFunc P.FloatOp P.VectorOp) (info : RVInstrInfo) (s : RVCPU P) :
    Except Exception Unit → RVCPU P → Prop
  | failed {e s'} : Failed s e s' → ExecOutcome f info s (.error e) s'
  | plain {s'} : After s s' → s'.pendingTval = s.pendingTval → ExecOutcome f info s (.ok ()) s'
  | written {addr data s'} : pendingCsrWrite s.csr s.regFile f info = some (addr, data) →
    CsrWritten addr data s s' → ExecOutcome f info s (.ok ()) s'
  | fenced {s'} : Fenced s s' → ExecOutcome f info s (.ok ()) s'
  | returned {machine csr s'} : Returned (.of machine) s.csr csr → Switched csr s s' →
    ExecOutcome f info s (.ok ()) s'

end Definitions

/-! ## Ends -/

section Ends

variable {P : Platform} {S : PanicSite → Prop} {s s₁ s₂ : RVCPU P} {addr data : WordType}

theorem Flushed.then_regs (h : Flushed s s₁) (h' : RegsOnly s₁ s₂) : Flushed s s₂ :=
  ⟨by rw [h'.memory]; exact h.tlb, h'.icache.trans h.icache, h'.epoch.trans h.epoch⟩

theorem Untouched.then_regs (h : Untouched s s₁) (h' : RegsOnly s₁ s₂) : Untouched s s₂ :=
  ⟨by rw [h'.memory, h.pageTable], h'.icache.trans h.icache, h'.epoch.trans h.epoch⟩

theorem CsrWritten.then_regs (h : CsrWritten addr data s s₁) (h' : RegsOnly s₁ s₂) :
    CsrWritten addr data s s₂ := by
  refine ⟨h.csr.trans h'.csr, by rw [h'.memory, h.mmio], h'.tval.trans h.tval,
    fun ha => (h.plain ha).then_regs h', fun ha => ?_⟩
  obtain ⟨hflushed, hmode, hroot, hpolicy⟩ := h.satp ha
  have hget : ∀ f, s₂.csr.get .satp f = s₁.csr.get .satp f := fun f =>
    congrArg f.get (h'.csr.value .satp (by decide))
  refine ⟨hflushed.then_regs h', ?_, ?_, ?_⟩
  · rw [hget, h'.memory]
    exact hmode
  · rw [hget, h'.memory]
    exact hroot
  · rw [h'.memory]
    exact hpolicy

theorem Fenced.then_regs (h : Fenced s s₁) (h' : RegsOnly s₁ s₂) : Fenced s s₂ :=
  ⟨h.toFlushed.then_regs h', h.csr.trans h'.csr, by rw [h'.memory, h.config],
    by rw [h'.memory, h.mmio], h'.tval.trans h.tval⟩

theorem Switched.then_regs {csr : CsrRegFile} (h : Switched csr s s₁) (h' : RegsOnly s₁ s₂) :
    Switched csr s s₂ :=
  ⟨h.toUntouched.then_regs h', h.csr.trans h'.csr, by rw [h'.memory, h.mmio], h'.tval.trans h.tval⟩

variable {f : ExecFunc P.FloatOp P.VectorOp} {info : RVInstrInfo} {m k : CpuM P Unit}

theorem ExecOutcome.then_regs (h : ExecOutcome f info s (.ok ()) s₁) (h' : RegsOnly s₁ s₂) :
    ExecOutcome f info s (.ok ()) s₂ := by
  cases h with
  | plain hafter htval => exact .plain (hafter.then_regs h') (h'.tval.trans htval)
  | written hpending hwritten => exact .written hpending (hwritten.then_regs h')
  | fenced hfenced => exact .fenced (hfenced.then_regs h')
  | returned hcsr hswitched => exact .returned hcsr (hswitched.then_regs h')

theorem Done.outcome (hm : Done S m) (hs : Ready S s) : Spec S m s (ExecOutcome f info s) := by
  refine (hm s hs).mono fun r s' h => ?_
  cases r with
  | error e => exact .failed h
  | ok _ => exact .plain h.1 h.2

theorem ExecOutcome.then_fin {s₀ : RVCPU P} (hm : Spec S m s₀ (ExecOutcome f info s)) (hk : Fin S k)
    (hS : ∀ p, PanicSite.Benign p → S p) : Spec S (do m; k) s₀ (ExecOutcome f info s) := by
  refine hm.seq (fun _ s₁ h₁ => (hk hS s₁).mono fun r s₂ h₂ => ?_) fun _ _ h => h
  cases r with
  | ok _ => exact h₁.then_regs h₂
  | error e => exact h₂.elim

/-- Every course, in a state it is safe in up to the panics `S`. -/
theorem course_outcome (c : Course P) (hs : Ready S s) : Spec S c.run s (ExecOutcome f info s) := by
  induction c with
  | stuck p benign => exact hs.benign p benign
  | illegal => exact Calm.throw_illegal.done.outcome hs
  | breakpoint => exact (Calm.throw_known (by decide)).done.outcome hs
  | ecall => exact Done.execEcall.outcome hs
  | move check rd v target =>
    refine Done.outcome ((Calm.checkTarget check target).then_done fun _ => Fin.done ?_) hs
    exact (Fin.writeReg rd v).bind fun _ => (Fin.writePc target).bind fun _ => .retire
  | access req sink n =>
    exact ((Done.send req).then_fin fun v => (Fin.put sink v).bind fun _ => .finish n).outcome hs
  | fence =>
    have hflush : Fenced s s.flushIcache.flushTlb :=
      ⟨⟨fun _ => DirectCache.get_clear (c := s.memory.pageTable.tlb), rfl, rfl⟩, .refl _, rfl, rfl, rfl⟩
    exact ExecOutcome.then_fin (ExecOutcome.fenced hflush) (.finish 4) hs.benign
  | xret machine =>
    obtain ⟨csr, hcsr, hret⟩ := xret_eq s.csr machine
    refine Spec.get_bind ?_
    rw [hret]
    refine Spec.bind (Spec.of_run (Exec.run_lift_ok _ s)
      (ExecOutcome.then_fin (Spec.set ?_) .retire hs.benign))
    exact .returned hcsr ⟨⟨rfl, rfl, rfl⟩, .refl _, rfl, rfl⟩
  | compute fpu regFile =>
    have hset : Fin S (modify fun cpu => { cpu with fpu, regFile }) :=
      .modify fun _ => ⟨rfl, .refl _, rfl, rfl, rfl⟩
    exact (hset.bind fun _ => .finish 4).done.outcome hs
  | float c ih =>
    show Outcome _ _ _
    rw [Course.run, run_requireFloat_bind]
    split
    · exact .failed (.of_illegal (.refl s))
    · exact ExecOutcome.then_fin ih .saveFflags hs.benign

end Ends

section Reads

variable {P : Platform} {S : PanicSite → Prop}

theorem Calm.readCsr (addr : WordType) : Calm S (readCsr addr : CpuM P WordType) := by
  intro s hs
  refine Spec.get_bind ?_
  split
  · split
    · next timeAddr _ =>
        have hread := readByPaddr_still (m := s.memory) .u64 timeAddr
        refine Spec.mapError (T := fun _ s' => Still s s') ?_ (fun _ _ h => h) fun _ _ h =>
          Failed.of_illegal h
        show Outcome _ _ (((VirtAddrManager.readByPaddr .u64 timeAddr).run s.memory).map _)
        cases hr : (VirtAddrManager.readByPaddr .u64 timeAddr).run s.memory with
        | error p => exact hs.benign p (hread.elim_panic hr)
        | ok out => exact ⟨(hread.elim hr).1, .refl _, rfl, rfl, rfl, rfl⟩
    · exact Calm.throw_illegal s hs
  · split
    · exact Still.refl s
    · exact Calm.throw_illegal s hs

end Reads

/-! ## Writes -/

section Writes

variable {P : Platform} {S : PanicSite → Prop} {s : RVCPU P} {addr data : WordType}

theorem ne_TIME_of_writable {csr : CsrRegFile} (h : csr.isWritePrivLegal addr) : addr ≠ TIME := by
  rintro rfl
  unfold CsrRegFile.isWritePrivLegal at h
  cases h

theorem readable_of_writable {csr : CsrRegFile} (h : csr.isWritePrivLegal addr) :
    csr.isReadPrivLegal addr := by
  unfold CsrRegFile.isWritePrivLegal at h
  split at h
  · cases h
  · exact h

/-- Reading a register that could be written touches nothing. -/
theorem readCsr_of_writable (h : s.csr.isWritePrivLegal addr) :
    (readCsr addr).run s = .ok (match s.csr.readUncheckPrivilege addr with
      | some value => .ok value
      | none => .error .illegalInstruction, s) := by
  unfold readCsr
  rw [run_bind_ok (run_get s), if_neg (ne_TIME_of_writable h)]
  unfold CsrRegFile.readChecked
  rw [if_pos (readable_of_writable h)]
  cases s.csr.readUncheckPrivilege addr <;> rfl

theorem setMode_cases (w : PageTableWalker) (mode : WordType) :
    (w.setMode mode = .error .setMode ∧ satpMode mode = none) ∨
    ∃ m, w.setMode mode = .ok { w with mode := m } ∧ ∀ m', satpMode mode = some m' → m = m' := by
  unfold PageTableWalker.setMode satpMode
  split
  · exact .inr ⟨_, rfl, fun m' h => Option.some.inj h⟩
  · split
    · next h => exact .inr ⟨_, rfl, fun m' h' => by subst h; cases h'⟩
    · split
      · exact .inr ⟨_, rfl, fun m' h => Option.some.inj h⟩
      · split
        · exact .inr ⟨_, rfl, fun m' h => Option.some.inj h⟩
        · split
          · exact .inr ⟨_, rfl, fun m' h => Option.some.inj h⟩
          · exact .inl ⟨rfl, rfl⟩

/-- `satp` keeps every bit it is given. -/
theorem value_satp_of_write (csr : CsrRegFile) (data : WordType) :
    csr.writeUncheckPrivilege Csr.satp.addr data = csr.setValue .satp data := by
  rw [CsrRegFile.writeUncheckPrivilege_addr (by decide) rfl,
    CsrRegFile.writeReg_of_keeps (Csr.Keeps.of_mask (by decide) (by decide) (by decide +kernel))]

/-- Setting up the walker from `satp`. -/
theorem applySatp_cases (cpu : RVCPU P) :
    (cpu.applySatp = .error .setMode ∧ satpMode (cpu.csr.get .satp Satp.mode) = none) ∨
    ∃ cpu', cpu.applySatp = .ok cpu' ∧ SatpApplied cpu cpu' ∧ cpu'.csr = cpu.csr ∧
      cpu'.memory.mmio = cpu.memory.mmio ∧ cpu'.pendingTval = cpu.pendingTval := by
  unfold applySatp VirtAddrManager.setMode
  rcases setMode_cases cpu.memory.pageTable (cpu.csr.get .satp Satp.mode) with
    ⟨hset, hnone⟩ | ⟨m, hset, -⟩
  · refine .inl ⟨?_, hnone⟩
    rw [hset]
    rfl
  · refine .inr ⟨{ cpu with
      memory := { cpu.memory with
        pageTable :=
          { tlb := cpu.memory.pageTable.tlb.clear
            rootAddress := cpu.csr.get .satp Satp.ppn <<< PAGE_SIZE_XLEN
            mode := m
            adUpdatePolicy := cpu.memory.pageTable.adUpdatePolicy } }
      icache := cpu.icache.clear
      icacheEpoch := cpu.icacheEpoch + 1 }, ?_,
      ⟨⟨fun _ => DirectCache.get_clear (c := cpu.memory.pageTable.tlb), rfl, rfl⟩, hset, rfl, rfl⟩, rfl, rfl, rfl⟩
    rw [hset]
    rfl

/-- A write that is allowed. Only one to `satp` can still go wrong. -/
theorem run_writeCsr (hlegal : s.csr.isWritePrivLegal addr) (data : WordType) :
    (writeCsr addr data).run s =
      if addr = Csr.satp.addr then
        ({ s with csr := s.csr.writeUncheckPrivilege addr data } : RVCPU P).applySatp.map
          fun s' => (.ok (), s')
      else .ok (.ok (), { s with csr := s.csr.writeUncheckPrivilege addr data }) := by
  unfold writeCsr CsrRegFile.writeChecked
  rw [run_bind_ok (run_get s), if_pos hlegal]
  by_cases h : addr = Csr.satp.addr
  · simp only [h, if_true]
    cases ({ s with csr := s.csr.writeUncheckPrivilege Csr.satp.addr data } : RVCPU P).applySatp <;> rfl
  · simp only [h, if_false]
    rfl

theorem writeCsr_spec (hlegal : s.csr.isWritePrivLegal addr)
    (hmode : addr = Csr.satp.addr → satpMode (Satp.mode.get data) ≠ none ∨ S .setMode) :
    Spec S (writeCsr addr data) s fun r s' => r = .ok () ∧ CsrWritten addr data s s' := by
  show Outcome _ _ _
  rw [run_writeCsr hlegal]
  by_cases haddr : addr = Csr.satp.addr
  · subst haddr
    generalize hc : { s with csr := s.csr.writeUncheckPrivilege Csr.satp.addr data } = cpu
    have hdata : cpu.csr.get .satp Satp.mode = Satp.mode.get data := by
      subst hc
      rw [value_satp_of_write]
      exact congrArg Satp.mode.get CsrRegFile.setValue_same
    rcases applySatp_cases cpu with ⟨hap, hnone⟩ | ⟨cpu', hap, hsatp, hcsr, hmmio, htval⟩
    · rw [hap]
      rcases hmode rfl with hok | hS
      · rw [hdata] at hnone
        exact absurd hnone hok
      · exact hS
    · rw [hap]
      subst hc
      have happlied : SatpApplied s cpu' :=
        ⟨⟨hsatp.tlb, hsatp.icache, hsatp.epoch⟩, hsatp.mode, hsatp.root, hsatp.policy⟩
      have hsame : SameControl (s.csr.writeUncheckPrivilege Csr.satp.addr data) cpu'.csr := by
        rw [hcsr]
        exact .refl _
      exact ⟨rfl, hsame, hmmio, htval, fun h => absurd rfl h, fun _ => happlied⟩
  · rw [if_neg haddr]
    exact ⟨rfl, .refl _, rfl, rfl, fun _ => ⟨rfl, rfl, rfl⟩, fun h => absurd h haddr⟩

/-- Only the integer registers were written before the write. -/
theorem CsrWritten.of_regs {regFile : RegIdx → WordType} {s' : RVCPU P}
    (h : CsrWritten addr data { s with regFile } s') : CsrWritten addr data s s' :=
  ⟨h.csr, h.mmio, h.tval,
    fun ha => ⟨(h.plain ha).pageTable, (h.plain ha).icache, (h.plain ha).epoch⟩,
    fun ha => ⟨⟨(h.satp ha).tlb, (h.satp ha).icache, (h.satp ha).epoch⟩, (h.satp ha).mode,
      (h.satp ha).root, (h.satp ha).policy⟩⟩

theorem run_writeReg (rd : RegIdx) (v : WordType) (s : RVCPU P) :
    ∃ regFile, (writeReg rd v).run s = .ok (.ok (), { s with regFile }) :=
  ⟨_, run_writeReg_eq rd v⟩

theorem run_csrOperand (uimm : Bool) (rs1 : RegIdx) (s : RVCPU P) :
    (csrOperand uimm rs1).run s = .ok (.ok (csrOperandOf s.regFile uimm rs1), s) := by
  cases uimm <;> rfl

theorem run_requireWritable_bind {m : CpuM P Unit} : Exec.run (do requireWritable addr; m) s =
    Exec.run (if s.csr.isWritePrivLegal addr then m else throw .illegalInstruction) s := by
  unfold requireWritable
  rw [bind_assoc, run_bind_ok (run_get s)]
  cases s.csr.isWritePrivLegal addr <;> rfl

/-- What a CSR instruction comes to, once it has looked at its operand and at the
CSRs. A write has the old value for its destination at hand. -/
inductive CsrPlan
  | wrong
  | skip
  | refused
  | peek (rd : RegIdx) (addr : WordType)
  | write (rd : RegIdx) (old addr data : WordType)

namespace CsrPlan

def run : CsrPlan → CpuM P Unit
  | wrong => wrongInfo
  | skip => advancePc 4
  | refused => throw .illegalInstruction
  | peek rd addr => do
    let value ← readCsr addr
    writeReg rd value
    advancePc 4
  | write rd old addr data => do
    writeReg rd old
    writeCsr addr data
    retireCsr addr
    advancePc 4

/-- A write that needs the old value. -/
def update (csr : CsrRegFile) (rd : RegIdx) (addr : WordType) (data : WordType → WordType) : CsrPlan :=
  match csr.readUncheckPrivilege addr with
  | none => refused
  | some old => write rd old addr (data old)

/-- What the plan says of the pending write. -/
def Fits (pending : Option (WordType × WordType)) : CsrPlan → Prop
  | write _ _ addr data => pending = some (addr, data)
  | skip | peek _ _ => pending = none
  | _ => True

end CsrPlan

def csrPlan {F V : Type} (csr : CsrRegFile) (regFile : RegIdx → WordType) :
    ExecFunc F V → RVInstrInfo → CsrPlan
  | .csrw uimm, .I rs1 rd imm =>
    let data := csrOperandOf regFile uimm rs1
    if csr.isWritePrivLegal (imm &&& 0xfff) then
      if rd ≠ 0 then .update csr rd (imm &&& 0xfff) fun _ => data else .write 0 0 (imm &&& 0xfff) data
    else .refused
  | .csrw _, _ => .skip
  | .csrBit set uimm, .I rs1 rd imm =>
    let rhs := csrOperandOf regFile uimm rs1
    if rhs = 0 then .peek rd (imm &&& 0xfff)
    else if csr.isWritePrivLegal (imm &&& 0xfff) then
      .update csr rd (imm &&& 0xfff) fun old => if set then old ||| rhs else old &&& ~~~rhs
    else .refused
  | _, _ => .wrong

theorem csrPlan_fits {F V : Type} (csr : CsrRegFile) (regFile : RegIdx → WordType) (f : ExecFunc F V)
    (info : RVInstrInfo) : (csrPlan csr regFile f info).Fits (pendingCsrWrite csr regFile f info) := by
  unfold csrPlan CsrPlan.update pendingCsrWrite CsrPlan.Fits
  cases f with
  | csrw uimm | csrBit set uimm => cases info <;> grind
  | _ => trivial

theorem run_csrUpdate {rd : RegIdx} (h : s.csr.isWritePrivLegal addr)
    (data : WordType → WordType) : Exec.run (do
      let value ← readCsr addr
      writeReg rd value
      writeCsr addr (data value)
      retireCsr addr
      advancePc 4) s = (CsrPlan.update s.csr rd addr data).run.run s := by
  have hread := readCsr_of_writable h
  unfold CsrPlan.update
  cases hv : s.csr.readUncheckPrivilege addr with
  | none =>
    rw [hv] at hread
    exact Exec.run_bind_error hread
  | some old =>
    rw [hv] at hread
    exact run_bind_ok hread

section Plan

variable {f : ExecFunc P.FloatOp P.VectorOp} {info : RVInstrInfo}

/-- The CSR instructions do what they plan. -/
theorem run_exec_csr (hf : f.isCsr) (s : RVCPU P) :
    (exec f info).run s = (csrPlan s.csr s.regFile f info).run.run s := by
  cases f with
  | csrw uimm =>
    cases info with
    | I rs1 rd imm =>
      refine run_requireWritable_bind.trans ?_
      unfold csrPlan
      dsimp only
      split
      · next hlegal =>
          refine (run_bind_ok (run_csrOperand uimm rs1 s)).trans ?_
          split
          · exact run_csrUpdate hlegal _
          · rfl
      · rfl
    | _ => rfl
  | csrBit set uimm =>
    cases info with
    | I rs1 rd imm =>
      refine (run_bind_ok (run_csrOperand uimm rs1 s)).trans ?_
      unfold csrPlan
      dsimp only
      split
      · rfl
      · refine run_requireWritable_bind.trans ?_
        split
        · next hlegal => exact run_csrUpdate hlegal _
        · rfl
    | _ => rfl
  | _ => cases hf

theorem csrPlan_spec {R : Except Exception Unit → RVCPU P → Prop} (hf : f.isCsr)
    (h : ∀ p, csrPlan s.csr s.regFile f info = p →
      p.Fits (pendingCsrWrite s.csr s.regFile f info) → Spec S p.run s R) :
    Spec S (exec f info) s R := by
  unfold Spec
  rw [run_exec_csr hf]
  exact h _ rfl (csrPlan_fits ..)

/-- A planned write, with the integer registers as they are then. -/
theorem CsrPlan.spec_write {rd : RegIdx} {old : WordType} {R : Except Exception Unit → RVCPU P → Prop}
    (h : ∀ regFile, Spec S (do writeCsr addr data; retireCsr addr; advancePc 4) { s with regFile } R) :
    Spec S (CsrPlan.write rd old addr data).run s R := by
  obtain ⟨regFile, hwrite⟩ := run_writeReg rd old s
  exact Spec.bind (Spec.of_run hwrite (h regFile))

theorem execCsr_spec (hf : f.isCsr) (hs : Ready S s)
    (hmode : ∀ data, pendingCsrWrite s.csr s.regFile f info = some (Csr.satp.addr, data) →
      satpMode (Satp.mode.get data) ≠ none ∨ S .setMode) :
    Spec S (exec f info) s (ExecOutcome f info s) := by
  refine csrPlan_spec hf fun p _ hp => ?_
  cases p with
  | wrong => exact hs.benign _ (by decide)
  | skip => exact (Fin.advancePc 4).done.outcome hs
  | refused => exact .failed (.of_illegal (.refl s))
  | peek rd addr =>
    exact ((Calm.readCsr _).then_done fun _ =>
      ((Fin.writeReg _ _).bind fun _ => .advancePc 4).done).outcome hs
  | write rd old addr data =>
    refine CsrPlan.spec_write fun regFile => ExecOutcome.then_fin ?_ ?_ hs.benign
    · refine (writeCsr_spec (s := { s with regFile }) (writable_of_pending hp) ?_).mono ?_
      · rintro rfl
        exact hmode data hp
      · rintro _ s' ⟨rfl, h⟩
        exact .written hp h.of_regs
    · unfold retireCsr
      split
      · exact (Fin.pure ()).bind fun _ => .advancePc 4
      · exact Fin.retire.bind fun _ => .advancePc 4

end Plan

end Writes

/-! ## All instructions -/

/-- Every instruction, in a state it is safe in up to the panics `S`. -/
theorem exec_spec {P : Platform} {S : PanicSite → Prop} {s : RVCPU P}
    (f : ExecFunc P.FloatOp P.VectorOp) (info : RVInstrInfo) (hs : Ready S s)
    (hmode : ∀ data, pendingCsrWrite s.csr s.regFile f info = some (Csr.satp.addr, data) →
      satpMode (Satp.mode.get data) ≠ none ∨ S .setMode) :
    Spec S (exec f info) s (ExecOutcome f info s) := by
  cases hway : f.ownWay with
  | false =>
    unfold Spec
    rw [run_exec_course hway]
    exact course_outcome _ hs
  | true =>
    cases f with
    | csrw _ | csrBit _ _ => exact execCsr_spec rfl hs hmode
    | vectorConfig _ | vectorMem _ | vector _ => exact Done.outcome (.vector rfl info) hs
    | _ => cases hway

end HereEmu
