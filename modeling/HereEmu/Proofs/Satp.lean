import HereEmu.Proofs.CsrEffect

/-!
# `satp` and the walker

The mode and root of the page-table walker live apart from `satp` and are set
when `satp` is written. Whether the two stay in step depends on what is
written: `set_mode` refuses most reserved values of MODE with a panic and takes
one of them, and `satp` itself keeps all of them. A guest that only writes the
four modes of the architecture keeps the walker and `satp` equal, whatever else
it does to the control registers.
-/

namespace HereEmu

open Lib (Exec Always)
open Lib.Exec (Spec)
open RVCPU Csr

inductive CsrOp where
  /-- CSRRW. -/
  | write
  /-- CSRRS and CSRRC. -/
  | bit (set : Bool)
  deriving DecidableEq, Repr

/-- A CSR instruction of a guest in S or M mode, with the registers it finds. -/
structure CsrInstr where
  level : PrivilegeLevel
  privileged : level = .S ∨ level = .M
  regFile : RegIdx → WordType
  op : CsrOp
  uimm : Bool
  rs1 : RegIdx
  rd : RegIdx
  imm : WordType

namespace CsrInstr

variable {P : Platform} (i : CsrInstr)

def func {F V : Type} : ExecFunc F V :=
  match i.op with
  | .write => .csrw i.uimm
  | .bit set => .csrBit set i.uimm

def info : RVInstrInfo := .I i.rs1 i.rd i.imm

/-- The CPU as the instruction finds it. -/
def issue (cpu : RVCPU P) : RVCPU P :=
  { cpu with csr := { cpu.csr with cpl := i.level }, regFile := i.regFile }

/-- The register and value the instruction is about to write. -/
def pending (cpu : RVCPU P) : Option (WordType × WordType) :=
  pendingCsrWrite (i.issue cpu).csr i.regFile (i.func : ExecFunc P.FloatOp P.VectorOp) i.info

end CsrInstr

section Definitions

variable {P : Platform}

/-- One CSR instruction. An illegal one leaves its exception and the CPU goes on. -/
def csrStep (cpu : RVCPU P) (i : CsrInstr) : Rust (Except Exception Unit × RVCPU P) :=
  (exec i.func i.info).run (i.issue cpu)

/-- The walker is set up as the value says that is read back from `satp`. -/
def ReadsBack (csr : CsrRegFile) (w : PageTableWalker) : Prop :=
  ∃ v, csr.readUncheckPrivilege satp.addr = some v ∧
    satpMode (Satp.mode.get v) = some w.mode ∧
    w.rootAddress = Satp.ppn.get v <<< PAGE_SIZE_XLEN

/-- `satp` is WARL and the walker follows it, across one CSR instruction. -/
structure SatpWarl (cpu : RVCPU P) (i : CsrInstr) : Prop where
  /-- The write to `satp` returns, and the instruction does not end in `set_mode`. -/
  returns : (∀ data, i.pending cpu = some (satp.addr, data) →
    ∃ out, (writeCsr satp.addr data).run (i.issue cpu) = .ok out) ∧
    csrStep cpu i ≠ .error .setMode
  reserved : ∀ data r cpu', i.pending cpu = some (satp.addr, data) →
    satpMode (Satp.mode.get data) = none → csrStep cpu i = .ok (r, cpu') →
    cpu'.csr.value .satp = cpu.csr.value .satp ∧
      cpu'.memory.pageTable.mode = cpu.memory.pageTable.mode ∧
      cpu'.memory.pageTable.rootAddress = cpu.memory.pageTable.rootAddress
  follows : ∀ r cpu', csrStep cpu i = .ok (r, cpu') → ReadsBack cpu'.csr cpu'.memory.pageTable ∧
    ∀ mem va check effect,
      cpu'.memory.pageTable.translateVaddr mem va check effect ≠ .error .walkMode

/-- What is about to be written to `satp` has a mode of the architecture. -/
def WritesKnownMode (cpu : RVCPU P) (i : CsrInstr) : Prop :=
  ∀ data, i.pending cpu = some (satp.addr, data) → satpMode (Satp.mode.get data) ≠ none

/-- The walker follows `satp`. That a clear A or D bit faults is how the
emulator runs from reset on. -/
structure SatpInv (cpu : RVCPU P) : Prop where
  walker : WalkerMatches cpu.csr cpu.memory.pageTable
  policy : cpu.memory.pageTable.adUpdatePolicy = .faultOnClear

end Definitions

section Proofs

variable {P : Platform} {cpu cpu' : RVCPU P} {i : CsrInstr}

theorem walkerMatches_congr {csr csr' : CsrRegFile} {w w' : PageTableWalker}
    (hc : csr'.value .satp = csr.value .satp) (hm : w'.mode = w.mode)
    (hr : w'.rootAddress = w.rootAddress) (h : WalkerMatches csr w) : WalkerMatches csr' w' := by
  have hget : ∀ f, csr'.get .satp f = csr.get .satp f := fun f => congrArg f.get hc
  unfold WalkerMatches
  rw [hget, hget, hm, hr]
  exact h

theorem readsBack_of_matches {csr : CsrRegFile} {w : PageTableWalker} (h : WalkerMatches csr w) :
    ReadsBack csr w := ⟨csr.value .satp, rfl, h⟩

theorem satpMode_known {mode : WordType} {m : VirtualMemoryMode} (h : satpMode mode = some m) :
    m ∈ knownModes := by
  unfold satpMode at h
  repeat' split at h
  all_goals cases h
  all_goals decide

/-- As long as `satp` is not written the walker stays as it is. -/
theorem SatpInv.of_config (h : SatpInv cpu)
    (hconfig : cpu'.memory.pageTable.flushTlb = cpu.memory.pageTable.flushTlb)
    (hcsr : cpu'.csr.value .satp = cpu.csr.value .satp) : SatpInv cpu' := by
  have hmode : cpu'.memory.pageTable.flushTlb.mode = cpu.memory.pageTable.flushTlb.mode := by
    rw [hconfig]
  have hroot : cpu'.memory.pageTable.flushTlb.rootAddress =
      cpu.memory.pageTable.flushTlb.rootAddress := by rw [hconfig]
  exact ⟨walkerMatches_congr hcsr hmode hroot h.walker, (policy_of_config hconfig).trans h.policy⟩

theorem SatpInv.issue (h : SatpInv cpu) (i : CsrInstr) : SatpInv (i.issue cpu) :=
  ⟨walkerMatches_congr rfl rfl rfl h.walker, h.policy⟩

theorem SatpInv.written {addr data : WordType} (h : SatpInv cpu)
    (hmode : addr = satp.addr → satpMode (Satp.mode.get data) ≠ none)
    (h' : CsrWritten addr data cpu cpu') : SatpInv cpu' := by
  by_cases haddr : addr = satp.addr
  · obtain ⟨-, hset, hroot, hpolicy⟩ := h'.satp haddr
    refine ⟨⟨?_, hroot⟩, hpolicy.trans h.policy⟩
    have hvalue : cpu'.csr.value .satp = data := by
      rw [h'.csr.value .satp (by decide), haddr, value_satp_of_write, CsrRegFile.setValue_same]
    obtain ⟨m, hm⟩ := Option.ne_none_iff_exists'.mp (hmode haddr)
    have hget : cpu'.csr.get .satp Satp.mode = Satp.mode.get data := congrArg Satp.mode.get hvalue
    rw [hget, hm]
    rcases setMode_cases cpu.memory.pageTable (cpu'.csr.get .satp Satp.mode) with
      ⟨hbad, -⟩ | ⟨m', hok, hsame⟩
    · rw [hset] at hbad
      cases hbad
    · rw [hset] at hok
      have hmm : cpu'.memory.pageTable.mode = m' :=
        congrArg PageTableWalker.mode (Except.ok.inj hok)
      rw [hmm, hsame m (hget ▸ hm)]
  · have hpt := (h'.plain haddr).pageTable
    refine ⟨walkerMatches_congr ?_ (by rw [hpt]) (by rw [hpt]) h.walker, by rw [hpt]; exact h.policy⟩
    rw [h'.csr.value .satp (by decide)]
    exact CsrRegFile.value_write_of_ne (by decide) (by decide) rfl haddr

theorem csrStep_spec (h : SatpInv cpu) (hmode : WritesKnownMode cpu i) :
    Spec (· ≠ PanicSite.setMode) (exec i.func i.info) (i.issue cpu)
      (ExecOutcome i.func i.info (i.issue cpu)) := by
  have hready : Ready (· ≠ PanicSite.setMode) (i.issue cpu) := by
    refine ⟨?_, h.policy, .inr ⟨by decide, by decide⟩⟩
    rintro p hp rfl
    exact absurd hp (by decide)
  exact exec_spec _ _ hready fun data hd => .inl (hmode data hd)

theorem SatpInv.step {r : Except Exception Unit} (h : SatpInv cpu) (hmode : WritesKnownMode cpu i)
    (hstep : csrStep cpu i = .ok (r, cpu')) : SatpInv cpu' := by
  have hissue := h.issue i
  cases (csrStep_spec h hmode).elim hstep with
  | failed h' => exact hissue.of_config h'.after.mem.config (h'.after.csr.value .satp (by decide))
  | plain h' _ => exact hissue.of_config h'.mem.config (h'.csr.value .satp (by decide))
  | written hpending h' =>
    refine hissue.written (fun haddr => ?_) h'
    subst haddr
    exact hmode _ hpending
  | fenced h' => exact hissue.of_config h'.config (h'.csr.value .satp (by decide))
  | returned hret h' =>
    refine hissue.of_config (by rw [h'.pageTable]) ?_
    exact (h'.csr.value .satp (by decide)).trans (hret.frame .satp (by decide))

theorem SatpInv.warl (h : SatpInv cpu) (hmode : WritesKnownMode cpu i) : SatpWarl cpu i := by
  refine ⟨⟨fun data hpending => ?_, fun hpanic => ?_⟩, fun data r cpu' hpending hnone => ?_,
    fun r cpu' hstep => ?_⟩
  · exact (writeCsr_spec (S := fun _ => False) (writable_of_pending hpending) fun _ =>
      .inl (hmode data hpending)).exists_run
  · exact (csrStep_spec h hmode).elim_panic hpanic rfl
  · exact absurd hnone (hmode data hpending)
  · have h' := h.step hmode hstep
    refine ⟨readsBack_of_matches h'.walker, fun mem va check effect hpanic => ?_⟩
    rcases translateVaddr_panic h'.policy hpanic with hover | ⟨-, hnot⟩
    · cases hover
    · exact hnot (satpMode_known h'.walker.1)

/-- In a run of CSR instructions that writes no reserved mode, `satp` is WARL
and the walker follows it at every instruction. -/
theorem satp_followed_by_walker (cpu : RVCPU P) (is : List CsrInstr) (hinv : SatpInv cpu)
    (hmode : Always csrStep WritesKnownMode cpu is) : Always csrStep SatpWarl cpu is :=
  Always.of_inv (fun _ _ _ _ h hc hs => SatpInv.step h hc hs) (fun _ _ => SatpInv.warl) hinv hmode

theorem satpInv_reset (mmio : MemoryMapIo P.bus) (timeAddr : Option WordType)
    (regFile : RegIdx → WordType) : SatpInv (RVCPU.reset P mmio timeAddr regFile) := by
  have hmode : satpMode (Satp.mode.get 0) = some .none := by decide +kernel
  have hroot : (0 : WordType) = Satp.ppn.get 0 <<< PAGE_SIZE_XLEN := by decide +kernel
  exact ⟨⟨hmode, hroot⟩, rfl⟩

end Proofs

/-! ## Runs from reset -/

/-- A machine with zeroed RAM, just reset. -/
def bareCpu : RVCPU (.ramOnly fun _ => none) :=
  .reset _ { ram := .new, devices := () } none fun _ => 0

/-- `csrw`, in M mode. -/
def csrWriteOf (addr value : WordType) : CsrInstr :=
  { level := .M, privileged := .inr rfl, regFile := fun _ => value, op := .write, uimm := false
    rs1 := 1, rd := 0, imm := addr }

theorem satp_followed_by_walker_sv39 : Always csrStep SatpWarl bareCpu
    [csrWriteOf satp.addr (8#64 <<< 60 ||| 0x80001), csrWriteOf stvec.addr 7] := by
  refine satp_followed_by_walker bareCpu _ (satpInv_reset _ _ _)
    ⟨fun data h => ?_, fun _ cpu' _ => ⟨fun data h => ?_, fun _ _ _ => trivial⟩⟩
  · cases h
    decide +kernel
  · cases h

theorem satp_reserved_mode_not_warl :
    ¬ SatpWarl bareCpu (csrWriteOf satp.addr (2#64 <<< 60)) ∧
    ¬ SatpWarl bareCpu (csrWriteOf satp.addr (1#64 <<< 60)) := by
  constructor
  · intro h
    exact h.returns.2 rfl
  · intro h
    obtain ⟨cpu', hstep, hmode⟩ : ∃ cpu',
        csrStep bareCpu (csrWriteOf satp.addr (1#64 <<< 60)) = .ok (.ok (), cpu') ∧
        cpu'.memory.pageTable.mode = .page32bit := ⟨_, rfl, rfl⟩
    have hkept := (h.reserved (1#64 <<< 60) _ cpu' rfl rfl hstep).2.1
    rw [hmode] at hkept
    cases hkept

end HereEmu
