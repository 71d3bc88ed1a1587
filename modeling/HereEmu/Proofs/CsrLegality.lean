import HereEmu.Decoder
import HereEmu.Proofs.CsrInstr

/-!
# When a CSR access is illegal

The architecture puts the rules in the address: two bits say which level is
needed, two that the register cannot be written. The emulator looks the level
up in a table of ranges and tests the address against `0xC00`, and both come
to the same.

It differs in two places, and only there. The plain write to `x0` does not
read, so it never finds out that the register does not exist, and the write
that follows is dropped. And a bit operation takes "nothing to write" to mean
an operand of zero, where the rule is the register `x0`.
-/

namespace HereEmu

open Lib (Exec)
open Lib.Exec (Spec)
open RVCPU CsrRegFile

/-- The addresses that answer: those of the table, and the names for parts of
a register and for the timer. -/
def Implemented (addr : WordType) : Prop :=
  (Csr.ofAddr addr).isSome ∨ addr ∈ [FFLAGS, FRM, VXSAT, VXRM, TIME]
  deriving Decidable

namespace ZicsrInstr

variable {P : Platform} (i : ZicsrInstr) (s : RVCPU P)

/-- The instruction asks for a write. -/
def AsksWrite : Prop := i.kind = .write ∨ i.rs1 ≠ 0

/-- The level the address needs. -/
def level : Nat := i.csr.toNat / 2 ^ 8 % 2 ^ 2

/-- The address is one of a register that cannot be written. -/
def ReadOnly : Prop := i.csr.toNat / 2 ^ 10 % 2 ^ 2 = 3

/-- The architecture's rule. -/
def Illegal : Prop :=
  ¬ Implemented i.addr ∨ s.csr.cpl.toNat < i.level ∨
    (i.addr = Csr.satp.addr ∧ s.csr.cpl = .S ∧ s.csr.get .mstatus Mstatus.tvm = 1) ∨
    (i.AsksWrite ∧ i.ReadOnly)

/-- Execution raises the exception. -/
def Raises : Prop :=
  ∃ s', (execute (i.decoded P)).run s = .ok (.error .illegalInstruction, s')

/-- A plain write to a register that does not exist, without a destination. -/
def BlindWrite : Prop :=
  i.kind = .write ∧ i.rd = 0 ∧ ¬ Implemented i.addr ∧ i.level ≤ s.csr.cpl.toNat ∧ ¬ i.ReadOnly

/-- A bit operation on a read-only register with a register that holds zero. -/
def ZeroMask : Prop :=
  i.kind ≠ .write ∧ i.uimm = false ∧ i.rs1 ≠ 0 ∧ s.regFile i.rs1 = 0 ∧ Implemented i.addr ∧
    i.level ≤ s.csr.cpl.toNat ∧ i.ReadOnly

end ZicsrInstr

/-! ## The tables -/

section Tables

/-- Ranges start at multiples of sixteen, so the low four bits do not matter. -/
theorem csrPrivilege_congr {a b : WordType} (h : a.toNat / 16 = b.toNat / 16) :
    csrPrivilege a = csrPrivilege b := by
  have hstart : ∀ e ∈ CSR_PRIVILEGE_TABLE, e.1.toNat % 16 = 0 := by decide
  have hfind : CSR_PRIVILEGE_TABLE.reverse.find? (fun e => e.1 ≤ a) =
      CSR_PRIVILEGE_TABLE.reverse.find? (fun e => e.1 ≤ b) := by
    rw [← List.head?_filter, ← List.head?_filter]
    congr 1
    refine List.filter_congr fun e he => ?_
    have h16 := hstart e (List.mem_reverse.mp he)
    simp only [BitVec.le_def, decide_eq_decide]
    omega
  unfold csrPrivilege
  rw [hfind]

/-- The table of ranges spells out two bits of the address. -/
theorem csrPrivilege_eq (a : BitVec 12) :
    (csrPrivilege (a.setWidth 64)).toNat = a.toNat / 2 ^ 8 % 2 ^ 2 := by
  have hrow : ∀ r : BitVec 8, (csrPrivilege (r.setWidth 64 <<< 4)).toNat = r.toNat / 2 ^ 4 % 2 ^ 2 := by
    decide +kernel
  have hr : (BitVec.ofNat 8 (a.toNat / 16)).toNat = a.toNat / 16 := by
    rw [BitVec.toNat_ofNat]
    omega
  have hshift : ((BitVec.ofNat 8 (a.toNat / 16)).setWidth 64 <<< 4).toNat = a.toNat / 16 * 16 := by
    rw [BitVec.toNat_shiftLeft, BitVec.toNat_setWidth, hr, Nat.shiftLeft_eq]
    omega
  have hlow : csrPrivilege (a.setWidth 64) =
      csrPrivilege ((BitVec.ofNat 8 (a.toNat / 16)).setWidth 64 <<< 4) := by
    refine csrPrivilege_congr ?_
    rw [hshift, BitVec.toNat_setWidth]
    omega
  rw [hlow, hrow, hr]
  omega

variable {P : Platform} {i : ZicsrInstr} {s : RVCPU P}

theorem ZicsrInstr.addr_toNat (i : ZicsrInstr) : i.addr.toNat = i.csr.toNat := by
  unfold ZicsrInstr.addr
  rw [BitVec.toNat_setWidth]
  omega

theorem readUncheckPrivilege_eq_none {c : CsrRegFile} {addr : WordType} (ht : addr ≠ TIME) :
    c.readUncheckPrivilege addr = none ↔ ¬ Implemented addr := by
  unfold readUncheckPrivilege Implemented
  by_cases h1 : addr = FFLAGS
  · rw [if_pos h1]
    simp [h1]
  by_cases h2 : addr = FRM
  · rw [if_neg h1, if_pos h2]
    simp [h2]
  by_cases h3 : addr = VXSAT
  · rw [if_neg h1, if_neg h2, if_pos h3]
    simp [h3]
  by_cases h4 : addr = VXRM
  · rw [if_neg h1, if_neg h2, if_neg h3, if_pos h4]
    simp [h4]
  rw [if_neg h1, if_neg h2, if_neg h3, if_neg h4]
  cases hr : Csr.ofAddr addr with
  | none => simp [h1, h2, h3, h4, ht]
  | some r =>
    dsimp only
    cases r.shadowOf <;> simp

theorem isReadPrivLegal_iff : s.csr.isReadPrivLegal i.addr ↔
    ¬ (i.addr = Csr.satp.addr ∧ s.csr.cpl = .S ∧ s.csr.get .mstatus Mstatus.tvm = 1) ∧
      i.level ≤ s.csr.cpl.toNat := by
  have hlevel : csrPrivilege i.addr ≤ s.csr.cpl ↔ i.level ≤ s.csr.cpl.toNat := by
    show (csrPrivilege i.addr).toNat ≤ _ ↔ _
    rw [ZicsrInstr.addr, csrPrivilege_eq]
    rfl
  unfold isReadPrivLegal
  split
  · next h => simp [h]
  · next h => simp only [decide_eq_true_eq, hlevel, h, not_false_eq_true, true_and]

theorem isWritePrivLegal_iff : s.csr.isWritePrivLegal i.addr ↔
    ¬ i.ReadOnly ∧ s.csr.isReadPrivLegal i.addr := by
  have hro : 0xC00 ≤ i.addr ↔ i.ReadOnly := by
    show (0xC00#64).toNat ≤ i.addr.toNat ↔ _
    have hc : (0xC00#64).toNat = 3072 := rfl
    unfold ZicsrInstr.ReadOnly
    rw [i.addr_toNat, hc]
    omega
  unfold isWritePrivLegal
  split
  · next h => simp [hro.mp h]
  · next h => simp [mt hro.mpr h]

/-- A read is refused for its level, for the trap on `satp`, or because there
is nothing to read. -/
theorem readRefused_iff (htime : ¬ TimeRefused s) : ReadRefused s i.addr ↔
    s.csr.isReadPrivLegal i.addr = false ∨ ¬ Implemented i.addr := by
  unfold ReadRefused
  by_cases ht : i.addr = TIME
  · have himpl : Implemented i.addr := .inr (by simp [ht])
    have hlegal : s.csr.isReadPrivLegal i.addr := by
      have hnat := i.addr_toNat
      rw [ht, show (TIME).toNat = 0xc01 from rfl] at hnat
      refine isReadPrivLegal_iff.mpr ⟨fun h => ?_, ?_⟩
      · rw [ht] at h
        exact absurd h.1 (by decide)
      · unfold ZicsrInstr.level
        rw [← hnat]
        exact Nat.zero_le _
    rw [if_pos ht]
    simp [htime, himpl, hlegal]
  · rw [if_neg ht, readChecked]
    cases hl : s.csr.isReadPrivLegal i.addr with
    | false => simp
    | true => simp [readUncheckPrivilege_eq_none ht]

end Tables

/-! ## The rule and the code -/

section Rule

variable {P : Platform} {i : ZicsrInstr} {s : RVCPU P}

/-- An instruction raises the exception when it is refused. -/
theorem raises_iff_refused (i : ZicsrInstr) (s : RVCPU P) : i.Raises s ↔ i.Refused s := by
  have hout := i.execute_outcome s
  constructor
  · rintro ⟨s', hrun⟩
    exact (hout.elim hrun).2.1
  · intro href
    rcases hrun : (execute (i.decoded P)).run s with p | ⟨e | _, s'⟩
    · exact absurd href (hout.elim_panic hrun)
    · obtain ⟨rfl, -⟩ := hout.elim hrun
      exact ⟨s', hrun⟩
    · exact absurd href (hout.elim hrun).1

/-- A register the rule calls readable: the level is enough, and it is not a
trapped `satp`. -/
theorem isReadPrivLegal_of_ne_satp (h : i.addr ≠ Csr.satp.addr) :
    s.csr.isReadPrivLegal i.addr ↔ i.level ≤ s.csr.cpl.toNat := by
  rw [isReadPrivLegal_iff]
  simp [h]

theorem illegal_iff : i.Illegal s ↔ ¬ Implemented i.addr ∨
    s.csr.isReadPrivLegal i.addr = false ∨ i.AsksWrite ∧ i.ReadOnly := by
  rw [← Bool.not_eq_true, isReadPrivLegal_iff, not_and_or, not_not, Nat.not_le]
  constructor
  · rintro (h | h | h | h)
    · exact .inl h
    · exact .inr (.inl (.inr h))
    · exact .inr (.inl (.inl h))
    · exact .inr (.inr h)
  · rintro (h | (h | h) | h)
    · exact .inl h
    · exact .inr (.inr (.inl h))
    · exact .inr (.inl h)
    · exact .inr (.inr (.inr h))

theorem not_writable_iff : s.csr.isWritePrivLegal i.addr = false ↔
    i.ReadOnly ∨ s.csr.isReadPrivLegal i.addr = false := by
  rw [← Bool.not_eq_true, isWritePrivLegal_iff, not_and_or, not_not, Bool.not_eq_true]

theorem ne_satp_of_not_implemented (h : ¬ Implemented i.addr) : i.addr ≠ Csr.satp.addr := by
  intro heq
  rw [heq] at h
  exact h (by decide)

theorem ne_satp_of_readOnly (h : i.ReadOnly) : i.addr ≠ Csr.satp.addr := by
  intro heq
  have hnat := i.addr_toNat
  rw [heq, show Csr.satp.addr.toNat = 0x180 from rfl] at hnat
  unfold ZicsrInstr.ReadOnly at h
  omega

/-- The plain write misses the registers that do not exist, when it does not read. -/
theorem refused_write_iff (hk : i.kind = .write) (htime : ¬ TimeRefused s) :
    (i.Refused s ↔ i.Illegal s) ↔ ¬ i.BlindWrite s := by
  have hasks : i.AsksWrite := .inl hk
  have href : i.Refused s ↔ i.ReadOnly ∨ s.csr.isReadPrivLegal i.addr = false ∨
      i.rd ≠ 0 ∧ ¬ Implemented i.addr := by
    unfold ZicsrInstr.Refused
    rw [not_writable_iff, readRefused_iff htime]
    grind
  rw [href, illegal_iff]
  unfold ZicsrInstr.BlindWrite
  by_cases himpl : Implemented i.addr
  · simp [himpl, hasks, or_comm]
  · have hlevel := isReadPrivLegal_of_ne_satp (s := s) (ne_satp_of_not_implemented himpl)
    grind

/-- A bit operation misses the registers that cannot be written, when its
operand is zero. -/
theorem refused_bit_iff (hk : i.kind ≠ .write) (hx0 : s.regFile 0 = 0)
    (htime : ¬ TimeRefused s) : (i.Refused s ↔ i.Illegal s) ↔ ¬ i.ZeroMask s := by
  have hasks : i.AsksWrite ↔ i.rs1 ≠ 0 := by
    unfold ZicsrInstr.AsksWrite
    simp [hk]
  have href : i.Refused s ↔ ¬ Implemented i.addr ∨ s.csr.isReadPrivLegal i.addr = false ∨
      i.operand s.regFile ≠ 0 ∧ i.ReadOnly := by
    have hcases : i.Refused s ↔ if i.operand s.regFile = 0 then ReadRefused s i.addr
        else s.csr.isWritePrivLegal i.addr = false ∨ ReadRefused s i.addr := by
      unfold ZicsrInstr.Refused
      cases h : i.kind with
      | write => exact absurd h hk
      | set => rfl
      | clear => rfl
    rw [hcases, not_writable_iff, readRefused_iff htime]
    grind
  have hop : i.operand s.regFile ≠ 0 ↔ i.rs1 ≠ 0 ∧ ¬ (i.uimm = false ∧ s.regFile i.rs1 = 0) := by
    unfold ZicsrInstr.operand csrOperandOf
    cases i.uimm with
    | false =>
      have hrs : s.regFile i.rs1 ≠ 0 → i.rs1 ≠ 0 := fun h he => h (he ▸ hx0)
      simpa using hrs
    | true =>
      have hwide : i.rs1.setWidth 64 = 0#64 ↔ i.rs1 = 0 := by
        rw [← BitVec.toNat_inj, ← BitVec.toNat_inj, BitVec.toNat_setWidth_of_le (by decide)]
        rfl
      simpa using hwide.not
  rw [href, illegal_iff, hasks, hop]
  unfold ZicsrInstr.ZeroMask
  by_cases hro : i.ReadOnly
  · have hlevel := isReadPrivLegal_of_ne_satp (s := s) (ne_satp_of_readOnly hro)
    grind
  · grind

/-- The exception is raised exactly when the architecture asks for it, except
for blind writes and zero masks, where it is missing. -/
theorem csr_legality_iff (i : ZicsrInstr) (s : RVCPU P) (hx0 : s.regFile 0 = 0)
    (htime : ¬ TimeRefused s) : (i.Raises s ↔ i.Illegal s) ↔ ¬ i.BlindWrite s ∧ ¬ i.ZeroMask s := by
  rw [raises_iff_refused]
  by_cases hk : i.kind = .write
  · have hzero : ¬ i.ZeroMask s := fun h => h.1 hk
    rw [refused_write_iff hk htime]
    exact ⟨fun h => ⟨h, hzero⟩, fun h => h.1⟩
  · have hblind : ¬ i.BlindWrite s := fun h => hk h.1
    rw [refused_bit_iff hk hx0 htime]
    exact ⟨fun h => ⟨hblind, h⟩, fun h => h.2⟩

/-- A machine in M mode with the float and the vector unit on, whose timer is a
word of RAM. -/
def timedCpu : RVCPU .program :=
  { programCpu [] with
    timeAddr := some 0x80000000
    csr := (resetCsr .program).setValue .mstatus 0xa00002200 }

theorem timedCpu_time : ¬ TimeRefused timedCpu := by
  rintro ⟨e, m, h⟩
  have hok : ((VirtAddrManager.readByPaddr .u64 0x80000000).run timedCpu.memory).toOption.map
      (·.1.toBool) = some true := by decide +kernel
  rw [h] at hok
  cases hok

/-- A write to `mscratch` is neither blind nor masked. -/
theorem csr_legality_iff_mscratch :
    ((⟨.write, false, 1, 0, 0x340⟩ : ZicsrInstr).Raises timedCpu ↔
        (⟨.write, false, 1, 0, 0x340⟩ : ZicsrInstr).Illegal timedCpu) ↔
      ¬ (⟨.write, false, 1, 0, 0x340⟩ : ZicsrInstr).BlindWrite timedCpu ∧
        ¬ (⟨.write, false, 1, 0, 0x340⟩ : ZicsrInstr).ZeroMask timedCpu :=
  csr_legality_iff _ timedCpu rfl timedCpu_time

/-- A plain write to `0x800`, which does not exist, goes unnoticed; so does
setting no bits of `mhartid`, which cannot be written, by way of `x1`. -/
theorem illegal_csr_accesses_pass :
    timedCpu.csr.get .mstatus Mstatus.fs ≠ 0 ∧ timedCpu.csr.get .mstatus Mstatus.vs ≠ 0 ∧
    ((⟨.write, false, 1, 0, 0x800⟩ : ZicsrInstr).Illegal timedCpu ∧
      ¬ (⟨.write, false, 1, 0, 0x800⟩ : ZicsrInstr).Raises timedCpu) ∧
    (⟨.set, false, 1, 2, 0xf14⟩ : ZicsrInstr).Illegal timedCpu ∧
      ¬ (⟨.set, false, 1, 2, 0xf14⟩ : ZicsrInstr).Raises timedCpu := by
  have hpass : ∀ i : ZicsrInstr, ((execute (i.decoded .program)).run timedCpu).toOption.map
      (·.1.toBool) = some true → ¬ i.Raises timedCpu := by
    rintro i h ⟨s', hrun⟩
    rw [hrun] at h
    cases h
  refine ⟨by decide, by decide, ⟨.inl (by decide +kernel), hpass _ (by decide +kernel)⟩, ?_,
    hpass _ (by decide +kernel)⟩
  exact .inr (.inr (.inr ⟨.inr (by decide), rfl⟩))

end Rule

end HereEmu
