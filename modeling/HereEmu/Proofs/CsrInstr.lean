import HereEmu.Proofs.CsrEffect

/-!
# The CSR instructions, exactly

What the six CSR instructions do, with nothing left out: when they are
refused, and what the CSR file holds when they are not. An instruction that
panics (a write of an unknown mode to `satp`, a counter at its end) was not
refused either, so the panics are allowed to assume that.

The questions about CSR instructions are then questions about the CSR file
alone: which writes are legal, and what a legal write can reach.
-/

namespace HereEmu

open Lib (Exec)
open Lib.Exec (Spec)
open RVCPU

inductive CsrKind where
  | write | set | clear
  deriving DecidableEq, Repr

/-- A CSR instruction. In the immediate forms `rs1` is the immediate. -/
structure ZicsrInstr where
  kind : CsrKind
  uimm : Bool
  rs1 : RegIdx
  rd : RegIdx
  csr : BitVec 12
  deriving DecidableEq, Repr

namespace ZicsrInstr

variable (i : ZicsrInstr)

def instr {F V : Type} (i : ZicsrInstr) : RiscvInstr F V :=
  match i.kind, i.uimm with
  | .write, false => .CSRRW
  | .write, true => .CSRRWI
  | .set, false => .CSRRS
  | .set, true => .CSRRSI
  | .clear, false => .CSRRC
  | .clear, true => .CSRRCI

/-- The instruction as the decoder hands it on, with the address sign-extended. -/
def decoded (P : Platform) : P.Decoded :=
  ⟨i.instr, .I i.rs1 i.rd (i.csr.signExtend 64)⟩

def addr : WordType := i.csr.setWidth 64

def operand (regFile : RegIdx → WordType) : WordType :=
  csrOperandOf regFile i.uimm i.rs1

/-- The value the instruction writes, given the old one. -/
def newValue (operand old : WordType) : WordType :=
  match i.kind with
  | .write => operand
  | .set => old ||| operand
  | .clear => old &&& ~~~operand

/-- What is left of the sign extension is the address. -/
theorem truncate_addr : i.csr.signExtend 64 &&& 0xfff = i.addr := by
  unfold addr
  refine BitVec.eq_of_getLsbD_eq fun k hk => ?_
  have hmask : (0xfff : WordType).getLsbD k = decide (k < 12) := by
    rw [show (0xfff : WordType) = BitVec.ofNat 64 (2 ^ 12 - 1) from rfl, BitVec.getLsbD_ofNat,
      Nat.testBit_two_pow_sub_one]
    simp [hk]
  rw [BitVec.getLsbD_and, hmask, BitVec.getLsbD_signExtend, BitVec.getLsbD_setWidth]
  by_cases h : k < 12
  · simp [h, hk]
  · simp [h, BitVec.getLsbD_of_ge _ _ (Nat.le_of_not_lt h)]

end ZicsrInstr

section Outcome

variable {P : Platform}

/-- The `time` register cannot be read: there is no timer, or it refuses. -/
def TimeRefused (s : RVCPU P) : Prop :=
  match s.timeAddr with
  | none => True
  | some a => ∃ e m, (VirtAddrManager.readByPaddr .u64 a).run s.memory = .ok (.error e, m)

/-- The read is refused. -/
def ReadRefused (s : RVCPU P) (addr : WordType) : Prop :=
  if addr = TIME then TimeRefused s else s.csr.readChecked addr = none

/-- The instruction is refused. The plain write reads only for a destination
other than `x0`, the bit operations write only with a bit to set or clear. -/
def ZicsrInstr.Refused (i : ZicsrInstr) (s : RVCPU P) : Prop :=
  match i.kind with
  | .write => s.csr.isWritePrivLegal i.addr = false ∨ i.rd ≠ 0 ∧ ReadRefused s i.addr
  | _ =>
    if i.operand s.regFile = 0 then ReadRefused s i.addr
    else s.csr.isWritePrivLegal i.addr = false ∨ ReadRefused s i.addr

/-- The CSRs after an instruction that wrote to `addr` has been counted. -/
def countedCsr (addr : WordType) (c : CsrRegFile) : CsrRegFile :=
  if addr = Csr.minstret.addr then c else c.setValue .minstret (c.value .minstret + 1)

/-- The instruction writes `data`: it may write, and it has something to write. -/
def ZicsrInstr.Writes (i : ZicsrInstr) (s : RVCPU P) (data : WordType) : Prop :=
  s.csr.isWritePrivLegal i.addr ∧
    match i.kind with
    | .write => data = i.operand s.regFile
    | _ => i.operand s.regFile ≠ 0 ∧ ∃ old, s.csr.readUncheckPrivilege i.addr = some old ∧
        data = i.newValue (i.operand s.regFile) old

/-- How the instruction ends. -/
def ZicsrInstr.Outcome (i : ZicsrInstr) (s : RVCPU P) (r : Except Exception Unit) (s' : RVCPU P) : Prop :=
  match r with
  | .error e => e = .illegalInstruction ∧ i.Refused s ∧ s'.csr = s.csr
  | .ok _ => ¬ i.Refused s ∧ ((∀ data, ¬ i.Writes s data) ∧ s'.csr = s.csr ∨
      ∃ data, i.Writes s data ∧
        s'.csr = countedCsr i.addr (s.csr.writeUncheckPrivilege i.addr data))

end Outcome

/-! ## The parts of an instruction -/

section Parts

variable {P : Platform} {S : PanicSite → Prop} {s : RVCPU P} {addr data : WordType}

theorem retire_counts (hS : ∀ p, S p) (s : RVCPU P) : Spec S retire s fun r s' =>
    r = .ok () ∧ s' = { s with csr := s.csr.setValue .minstret (s.csr.value .minstret + 1) } := by
  show Exec.Outcome _ _ _
  rw [run_retire]
  split
  · exact hS _
  · exact ⟨rfl, rfl⟩

/-- From the write on, an instruction does not fail. -/
theorem csrTail_counts (hS : ∀ p, S p) (hlegal : s.csr.isWritePrivLegal addr) :
    Spec S (do writeCsr addr data; retireCsr addr; advancePc 4) s fun r s' =>
      r = .ok () ∧ s'.csr = countedCsr addr (s.csr.writeUncheckPrivilege addr data) := by
  have hrest : ∀ s₁ : RVCPU P, s₁.csr = s.csr.writeUncheckPrivilege addr data →
      Spec S (do retireCsr addr; advancePc 4) s₁ fun r s' =>
        r = .ok () ∧ s'.csr = countedCsr addr (s.csr.writeUncheckPrivilege addr data) := by
    intro s₁ h₁
    unfold retireCsr countedCsr
    rw [← h₁]
    split
    · exact ⟨rfl, rfl⟩
    · refine (retire_counts hS s₁).seq ?_ (fun e s' h => by cases h.1)
      rintro _ s₂ ⟨-, rfl⟩
      exact ⟨rfl, rfl⟩
  have hwrite : Spec S (writeCsr addr data) s fun r s₁ =>
      r = .ok () ∧ s₁.csr = s.csr.writeUncheckPrivilege addr data := by
    show Exec.Outcome _ _ _
    rw [run_writeCsr hlegal]
    split
    · rcases applySatp_cases { s with csr := s.csr.writeUncheckPrivilege addr data } with
        ⟨hap, -⟩ | ⟨cpu', hap, -, hcsr, -⟩
      · rw [hap]
        exact hS _
      · rw [hap]
        exact ⟨rfl, hcsr⟩
    · exact ⟨rfl, rfl⟩
  refine hwrite.seq ?_ (fun e s' h => by cases h.1)
  rintro _ s₁ ⟨-, h₁⟩
  exact hrest s₁ h₁

theorem readRefused_of_writable (h : s.csr.isWritePrivLegal addr) :
    ReadRefused s addr ↔ s.csr.readUncheckPrivilege addr = none := by
  unfold ReadRefused CsrRegFile.readChecked
  rw [if_neg (ne_TIME_of_writable h), if_pos (readable_of_writable h)]

/-- Reading a register changes no CSR, and fails exactly when it is refused. -/
theorem readCsr_refused (s : RVCPU P) (addr : WordType) :
    Spec (fun _ => ¬ ReadRefused s addr) (readCsr addr) s fun r s' => s'.csr = s.csr ∧
      match r with
      | .error e => e = .illegalInstruction ∧ ReadRefused s addr
      | .ok _ => ¬ ReadRefused s addr := by
  unfold readCsr ReadRefused
  refine Spec.get_bind ?_
  by_cases ht : addr = TIME
  · rw [if_pos ht, if_pos ht]
    unfold TimeRefused
    cases s.timeAddr with
    | none => exact ⟨rfl, rfl, trivial⟩
    | some a =>
      dsimp only
      -- The whole read is the timer's answer with the CPU put around it.
      show Exec.Outcome _ _ (((((VirtAddrManager.readByPaddr .u64 a).run s.memory).map _)).map _)
      rcases (VirtAddrManager.readByPaddr .u64 a).run s.memory with p | ⟨e | v, m⟩
      · exact fun ⟨_, _, h⟩ => nomatch h
      · exact ⟨rfl, rfl, e, m, rfl⟩
      · exact ⟨rfl, fun ⟨_, _, h⟩ => nomatch h⟩
  · rw [if_neg ht, if_neg ht]
    cases s.csr.readChecked addr with
    | none => exact ⟨rfl, rfl, rfl⟩
    | some v => exact ⟨rfl, nofun⟩

end Parts

/-! ## The six instructions -/

section Instructions

variable {P : Platform} {s : RVCPU P} {i : ZicsrInstr}

/-- An instruction that was not refused and has come to its write. -/
theorem ZicsrInstr.tail_outcome {data : WordType} (hlegal : s.csr.isWritePrivLegal i.addr)
    (hnot : ¬ i.Refused s) (hw : i.Writes s data) (regFile : RegIdx → WordType) :
    Spec (fun _ => ¬ i.Refused s) (do writeCsr i.addr data; retireCsr i.addr; advancePc 4)
      { s with regFile } (i.Outcome s) := by
  refine (csrTail_counts (s := { s with regFile }) (fun _ => hnot) hlegal).mono ?_
  rintro r s' ⟨rfl, hcsr⟩
  exact ⟨hnot, .inr ⟨data, hw, hcsr⟩⟩

def ZicsrInstr.func (i : ZicsrInstr) : ExecFunc P.FloatOp P.VectorOp :=
  match i.kind with
  | .write => .csrw i.uimm
  | .set => .csrBit true i.uimm
  | .clear => .csrBit false i.uimm

theorem ZicsrInstr.func_eq (i : ZicsrInstr) : getExecFunc (i.decoded P).instr = i.func := by
  unfold ZicsrInstr.decoded ZicsrInstr.instr ZicsrInstr.func
  cases i.kind <;> cases i.uimm <;> rfl

/-- The plan of an instruction, in the words above. -/
theorem ZicsrInstr.plan_cases (i : ZicsrInstr) (s : RVCPU P) :
    match csrPlan s.csr s.regFile (i.func : ExecFunc P.FloatOp P.VectorOp)
      (.I i.rs1 i.rd (i.csr.signExtend 64)) with
    | .wrong | .skip => False
    | .refused => i.Refused s
    | .peek _ addr => addr = i.addr ∧ (ReadRefused s addr ↔ i.Refused s) ∧ ∀ data, ¬ i.Writes s data
    | .write _ _ addr data => addr = i.addr ∧ ¬ i.Refused s ∧ i.Writes s data := by
  have hread : s.csr.isWritePrivLegal i.addr →
      (ReadRefused s i.addr ↔ s.csr.readUncheckPrivilege i.addr = none) := readRefused_of_writable
  unfold csrPlan CsrPlan.update ZicsrInstr.func ZicsrInstr.Refused ZicsrInstr.Writes
    ZicsrInstr.newValue ZicsrInstr.operand
  cases i.kind <;> simp only [i.truncate_addr] <;> grind

theorem ZicsrInstr.exec_outcome (i : ZicsrInstr) (s : RVCPU P) : Spec (fun _ => ¬ i.Refused s)
    (exec (i.func : ExecFunc P.FloatOp P.VectorOp) (.I i.rs1 i.rd (i.csr.signExtend 64))) s
    (i.Outcome s) := by
  have hf : (i.func : ExecFunc P.FloatOp P.VectorOp).isCsr := by
    unfold ZicsrInstr.func
    cases i.kind <;> rfl
  refine csrPlan_spec hf fun p hp _ => ?_
  have hcase := i.plan_cases s
  rw [hp] at hcase
  cases p with
  | wrong | skip => exact hcase.elim
  | refused => exact ⟨rfl, hcase, rfl⟩
  | peek rd addr =>
    obtain ⟨rfl, href, hnot⟩ := hcase
    have hread := readCsr_refused s i.addr
    rw [href] at hread
    refine hread.seq ?_ fun e s' h => ⟨h.2.1, h.2.2, h.1⟩
    rintro value s' ⟨hcsr, hok⟩
    obtain ⟨regFile, hwrite⟩ := run_writeReg rd value s'
    exact Spec.bind (Spec.of_run hwrite ⟨hok, .inl ⟨hnot, hcsr⟩⟩)
  | write rd old addr data =>
    obtain ⟨rfl, hnot, hw⟩ := hcase
    exact CsrPlan.spec_write (ZicsrInstr.tail_outcome hw.1 hnot hw)

/-- Every CSR instruction ends as its outcome says. -/
theorem ZicsrInstr.execute_outcome (i : ZicsrInstr) (s : RVCPU P) :
    Spec (fun _ => ¬ i.Refused s) (execute (i.decoded P)) s (i.Outcome s) := by
  have hexec : Spec (fun _ => ¬ i.Refused s)
      (exec (getExecFunc (i.decoded P).instr) (i.decoded P).info) s (i.Outcome s) := by
    rw [i.func_eq]
    exact i.exec_outcome s
  show Exec.Outcome _ _ ((exec (getExecFunc (i.decoded P).instr) (i.decoded P).info).run s >>= _)
  unfold Spec at hexec
  generalize (exec (getExecFunc (i.decoded P).instr) (i.decoded P).info).run s = out at hexec ⊢
  -- Only the integer registers change after this.
  rcases out with p | ⟨e | _, s'⟩ <;> exact hexec

end Instructions

end HereEmu
