import HereEmu.Proofs.VectorExec

/-!
# Setting the vector length

What `vsetvli`, `vsetivli` and `vsetvl` should do is said by LMUL, SEW and the
length of a register. The code agrees with it as long as the setting is one the
unit has and the length asked for is in a register or in the instruction. It
does not know the two meanings of `x0` as the register of the length, traps on
a setting it refuses, takes a setting without room for one element, and shifts
by four for an eighth.
-/

namespace HereEmu

open Lib (Exec)
open RVCPU Vtype

/-! ## What should happen -/

def VLEN : Nat := 128

/-- LMUL, counted in eighths. -/
def Vlmul.eighths : Vlmul → Nat
  | Mf8 => 1
  | Mf4 => 2
  | Mf2 => 4
  | M1 => 8
  | M2 => 16
  | M4 => 32
  | M8 => 64

/-- `LMUL * VLEN / SEW`. -/
def vlmax (vlmul : Vlmul) (vsew : Vsew) : Nat :=
  vlmul.eighths * VLEN / (8 * (8 * vsew.intoByteWidth))

/-- The longest vector of a setting, if the unit has it. -/
def supported (vtype : WordType) : Option Nat :=
  match vlmulOf vtype, vsewOf vtype with
  | some vlmul, some vsew => if 1 ≤ vlmax vlmul vsew then some (vlmax vlmul vsew) else none
  | _, _ => none

/-- The bit of `vtype` for a setting that was refused. -/
def VILL : WordType := 1#64 <<< 63

/-- One of the three instructions. -/
structure VsetInstr where
  op : VectorConfigOp
  rs1 : RegIdx
  rs2 : RegIdx
  rd : RegIdx
  vm : Bool
  func6 : BitVec 6

namespace VsetInstr

variable {P : Platform} (i : VsetInstr) (s : RVCPU P)

/-- The upper twelve bits of the instruction. -/
def imm : WordType :=
  (i.func6.setWidth 64 <<< 6) ||| (if i.vm then 0x20 else 0) ||| i.rs2.setWidth 64

/-- The bits that tell the three forms apart. -/
def WellFormed : Prop :=
  match i.op with
  | .vsetivli => i.imm &&& 0xC00 = 0xC00
  | .vsetvli => i.imm &&& 0x800 = 0
  | .vsetvl => i.imm &&& 0xFE0 = 0x800

def decoded : P.Decoded :=
  ⟨match i.op with
    | .vsetivli => .VSETIVLI
    | .vsetvli => .VSETVLI
    | .vsetvl => .VSETVL, .V i.rs1 i.rs2 i.rd i.vm i.func6⟩

/-- The setting that is asked for: ten or eleven bits of the instruction, or `x[rs2]`. -/
def vtype : WordType :=
  match i.op with
  | .vsetivli => i.imm &&& 0x3FF
  | .vsetvli => i.imm &&& 0x7FF
  | .vsetvl => s.regFile i.rs2

/-- The length in the register or in the instruction. -/
def operand : Nat :=
  match i.op with
  | .vsetivli => i.rs1.toNat
  | .vsetvli | .vsetvl => (s.regFile i.rs1).toNat

/-- The length is not that of an operand but of the setting, or the old one. -/
def isX0 : Bool := i.op != .vsetivli && i.rs1 == 0

/-- The length that is asked for, where `n` is the longest there is. -/
def avl (i : VsetInstr) (n : Nat) (s : RVCPU P) : Nat :=
  if i.isX0 then if i.rd = 0 then (s.csr.value .vl).toNat else n
  else i.operand s

/-- What the instruction should leave behind. -/
def Law : Prop :=
  ∃ s', (execute i.decoded).run s = .ok (.ok (), s') ∧
    match supported (i.vtype s) with
    | some n =>
      let vl := BitVec.ofNat 64 (min (i.avl n s) n)
      s'.csr.value .vtype = i.vtype s &&& ~~~VILL ∧ s'.csr.value .vl = vl ∧
        s'.regFile i.rd = if i.rd = 0 then 0 else vl
    | none =>
      s'.csr.value .vtype = VILL ∧ s'.csr.value .vl = 0 ∧ s'.regFile i.rd = 0

/-- The settings and operands for which it does. -/
def Meets : Prop :=
  s.csr.value .minstret ≠ BitVec.allOnes 64 ∧ (i.vtype s).getLsbD 63 = false ∧
  ∃ vlmul vsew, vlmulOf (i.vtype s) = some vlmul ∧ vsewOf (i.vtype s) = some vsew ∧
    1 ≤ vlmax vlmul vsew ∧
    if i.isX0 then i.rd = 0 ∧ s.csr.value .vl = 0
    else vlmul = .Mf8 → i.operand s < vlmax vlmul vsew

end VsetInstr

/-! ## The shifts -/

section Shifts

variable {vlmul : Vlmul} {vsew : Vsew}

theorem vlmax_le (vlmul : Vlmul) (vsew : Vsew) : vlmax vlmul vsew ≤ VL_MAX := by
  cases vlmul <;> cases vsew <;> decide

theorem maxVl_eq (h : vlmul ≠ .Mf8) : maxVl vlmul vsew = vlmax vlmul vsew := by
  cases vlmul <;> cases vsew <;> first | rfl | exact absurd rfl h

/-- The shift by four loses the last element there is. -/
theorem maxVl_eighth (vsew : Vsew) : maxVl .Mf8 vsew = vlmax .Mf8 vsew - 1 := by
  cases vsew <;> rfl

theorem min_maxVl_iff (h : 1 ≤ vlmax vlmul vsew) {n : Nat} :
    min n (maxVl vlmul vsew) = min n (vlmax vlmul vsew) ↔
      (vlmul = .Mf8 → n < vlmax vlmul vsew) := by
  by_cases hm : vlmul = .Mf8
  · subst hm
    rw [maxVl_eighth]
    simp only [forall_const]
    omega
  · rw [maxVl_eq hm]
    exact ⟨fun _ h => absurd h hm, fun _ => rfl⟩

end Shifts

/-! ## Fields -/

section Fields

variable {P : Platform} {i : VsetInstr} {s : RVCPU P}

theorem VsetInstr.imm_and (i : VsetInstr) : i.imm &&& 0xFFF#64 = i.imm := by
  have hlt : i.imm.toNat < 2 ^ 12 := by
    refine Nat.or_lt_two_pow (Nat.or_lt_two_pow ?_ ?_) ?_
    · rw [BitVec.toNat_shiftLeft, BitVec.toNat_setWidth, Nat.shiftLeft_eq]
      omega
    · cases i.vm <;> decide
    · rw [BitVec.toNat_setWidth]
      omega
  apply BitVec.eq_of_toNat_eq
  rw [BitVec.toNat_and, show (0xFFF#64).toNat = 2 ^ 12 - 1 from rfl, Nat.and_two_pow_sub_one_eq_mod,
    Nat.mod_eq_of_lt hlt]

/-- A mask on the twelve bits, written as what it takes away. -/
theorem VsetInstr.imm_and_not (i : VsetInstr) (m : WordType) :
    i.imm &&& ~~~m = i.imm &&& (0xFFF#64 &&& ~~~m) := by
  rw [← BitVec.and_assoc, i.imm_and]

theorem configOperands_eq (hwf : i.WellFormed) : ∃ len : WordType, len.toNat = i.operand s ∧
    configOperands s.regFile i.imm i.rs1 i.rs2 i.op = (true, i.vtype s, len) := by
  obtain ⟨op, rs1, rs2, rd, vm, func6⟩ := i
  have hformed : ∀ {b : Bool} {vtype len vtype' : WordType}, b → vtype = vtype' →
      (b, vtype, len) = (true, vtype', len) := by
    rintro _ _ _ _ rfl rfl
    rfl
  cases op with
  | vsetivli =>
    refine ⟨rs1.setWidth 64, ?_, hformed (beq_iff_eq.2 hwf) (VsetInstr.imm_and_not _ _)⟩
    simp only [VsetInstr.operand, BitVec.toNat_setWidth]
    have := rs1.isLt
    omega
  | vsetvli =>
    exact ⟨s.regFile rs1, rfl, hformed (beq_iff_eq.2 hwf) (VsetInstr.imm_and_not _ _)⟩
  | vsetvl => exact ⟨s.regFile rs1, rfl, hformed (beq_iff_eq.2 hwf) rfl⟩

end Fields

/-! ## The instruction -/

section Run

variable {P : Platform} {i : VsetInstr} {s : RVCPU P}

/-- After a setting that was taken. -/
def RVCPU.configured (s : RVCPU P) (vtype : WordType) (config : VectorConfig) (rd : RegIdx) :
    RVCPU P :=
  let vl := BitVec.ofNat 64 config.vl
  { s with
    csr := (s.csr.setValue .vtype vtype).setValue .vl vl
    vector := { s.vector with config }
    regFile := if rd = 0 then s.regFile else Function.update s.regFile rd vl }

/-- After one that was refused. -/
def RVCPU.refused (s : RVCPU P) (vtype : WordType) (rd : RegIdx) : RVCPU P :=
  { s with
    csr := s.csr.setValue .vtype (vtype ||| VILL)
    regFile := if rd = 0 then s.regFile else Function.update s.regFile rd 0 }

theorem run_execVectorConfig (hon : s.csr.get .mstatus Mstatus.vs ≠ 0) (hwf : i.WellFormed) :
    ∃ len : WordType, len.toNat = i.operand s ∧
      (execVectorConfig i.op (.V i.rs1 i.rs2 i.rd i.vm i.func6)).run s =
        match Vtype.config (i.vtype s) len with
        | some config => (s.configured (i.vtype s) config i.rd).retireVector
        | none => .ok (.error .illegalInstruction, s.refused (i.vtype s) i.rd) := by
  obtain ⟨len, hlen, hoperands⟩ := configOperands_eq (s := s) hwf
  refine ⟨len, hlen, ?_⟩
  have hrun := run_exec_vector (f := .vectorConfig i.op) rfl (.V i.rs1 i.rs2 i.rd i.vm i.func6) s
  have hend : vectorEnd s (.vectorConfig i.op) (.V i.rs1 i.rs2 i.rd i.vm i.func6) =
    configEnd s i.op i.imm i.rs1 i.rs2 i.rd := rfl
  rw [if_neg hon, hend, configEnd, hoperands] at hrun
  refine hrun.trans ?_
  dsimp only
  cases Vtype.config (i.vtype s) len <;> rfl

theorem execute_decoded : (execute (i.decoded : P.Decoded)).run s =
    ((execVectorConfig i.op (.V i.rs1 i.rs2 i.rd i.vm i.func6)).run s).map
      fun out => (out.1, out.2.clearX0) := by
  have hexec : exec (getExecFunc (i.decoded : P.Decoded).instr) (i.decoded : P.Decoded).info =
      (execVectorConfig i.op (.V i.rs1 i.rs2 i.rd i.vm i.func6)) := by
    obtain ⟨op, rs1, rs2, rd, vm, func6⟩ := i
    cases op <;> rfl
  rw [execute, Exec.run_ofFun, hexec]
  cases (execVectorConfig i.op (.V i.rs1 i.rs2 i.rd i.vm i.func6)).run s <;> rfl

end Run

/-! ## The law -/

section Law

variable {P : Platform} {i : VsetInstr} {s : RVCPU P} {vtype len : WordType} {vlmul : Vlmul}
  {vsew : Vsew}

/-- The setting of a `vtype` whose two fields are legal. -/
theorem config_eq_some (hm : vlmulOf vtype = some vlmul) (hw : vsewOf vtype = some vsew) :
    ∃ config, Vtype.config vtype len = some config ∧
      config.vl = min len.toNat (maxVl vlmul vsew) := by
  simp only [Vtype.config, hm, hw]
  exact ⟨_, rfl, rfl⟩

theorem config_eq_none (h : vlmulOf vtype = none ∨ vsewOf vtype = none) :
    Vtype.config vtype len = none := by
  rcases h with h | h
  · simp only [Vtype.config, h]
  · simp only [Vtype.config, h]
    split <;> first | rfl | contradiction

theorem and_not_vill_iff : vtype = vtype &&& ~~~VILL ↔ vtype.getLsbD 63 = false := by
  constructor
  · intro h
    rw [h, BitVec.getLsbD_and]
    simp [VILL]
  · intro h
    apply BitVec.eq_of_getLsbD_eq
    intro k hk
    rw [BitVec.getLsbD_and]
    by_cases hlast : k = 63
    · rw [hlast, h]
      rfl
    · have hbits : ∀ k < 64, k ≠ 63 → (~~~VILL).getLsbD k := by decide
      rw [hbits k hk hlast, Bool.and_true]

/-- The bit alone asks for bytes in one register. -/
theorem vtype_ne_vill (hm : vlmulOf vtype = some vlmul) (hw : vsewOf vtype = some vsew)
    (hroom : ¬1 ≤ vlmax vlmul vsew) : vtype ≠ VILL := by
  rintro rfl
  cases hm
  cases hw
  exact hroom (by decide)

theorem ofNat_inj {m n : Nat} (hm : m ≤ VL_MAX) (hn : n ≤ VL_MAX) :
    BitVec.ofNat 64 m = BitVec.ofNat 64 n ↔ m = n := by
  unfold VL_MAX at hm hn
  constructor
  · intro h
    have := congrArg BitVec.toNat h
    rw [BitVec.toNat_ofNat, BitVec.toNat_ofNat] at this
    omega
  · rintro rfl
    rfl

/-- When the code's length is the one it should be. -/
theorem length_iff (hx0 : s.regFile 0 = 0) (hroom : 1 ≤ vlmax vlmul vsew) :
    min (i.operand s) (maxVl vlmul vsew) = min (i.avl (vlmax vlmul vsew) s) (vlmax vlmul vsew) ↔
      if i.isX0 then i.rd = 0 ∧ s.csr.value .vl = 0
      else vlmul = .Mf8 → i.operand s < vlmax vlmul vsew := by
  unfold VsetInstr.avl
  by_cases hzero : i.isX0
  · have hoperand : i.operand s = 0 := by
      obtain ⟨op, rs1, rs2, rd, vm, func6⟩ := i
      simp only [VsetInstr.isX0, Bool.and_eq_true, bne_iff_ne, beq_iff_eq] at hzero
      obtain ⟨hop, rfl⟩ := hzero
      cases op with
      | vsetivli => exact absurd rfl hop
      | vsetvli | vsetvl => exact congrArg BitVec.toNat hx0
    rw [if_pos hzero, if_pos hzero, hoperand]
    by_cases hrd : i.rd = 0
    · have hvl : s.csr.value .vl = 0 ↔ (s.csr.value .vl).toNat = 0 :=
        ⟨fun h => by rw [h]; rfl, fun h => BitVec.eq_of_toNat_eq h⟩
      rw [if_pos hrd, hvl]
      simp only [hrd, true_and]
      omega
    · rw [if_neg hrd]
      simp only [hrd, false_and, iff_false]
      omega
  · rw [if_neg hzero, if_neg hzero]
    exact min_maxVl_iff hroom

/-- What a setting that was taken leaves in the three places. -/
theorem configured_retired (i : VsetInstr) (s : RVCPU P) (vtype : WordType)
    (config : VectorConfig) : let t := (s.configured vtype config i.rd).vectorRetired.clearX0
    t.csr.value .vtype = vtype ∧ t.csr.value .vl = BitVec.ofNat 64 config.vl ∧
      t.regFile i.rd = if i.rd = 0 then 0 else BitVec.ofNat 64 config.vl := by
  refine ⟨?_, ?_, ?_⟩
  · simp [configured, vectorRetired, clearX0]
  · simp [configured, vectorRetired, clearX0]
  · by_cases hrd : i.rd = 0
    · simp only [clearX0, hrd, Function.update_self, if_true]
    · simp only [configured, vectorRetired, clearX0, if_neg hrd, Function.update_of_ne hrd,
        Function.update_self]

/-- A setting that is taken, with the length `vl`: when that is as it should be. -/
theorem law_of_taken {s' : RVCPU P} {vl : Nat} (hx0 : s.regFile 0 = 0)
    (hrun : (execute (i.decoded : P.Decoded)).run s = .ok (.ok (), s'))
    (hm : vlmulOf (i.vtype s) = some vlmul) (hw : vsewOf (i.vtype s) = some vsew)
    (hvl : vl = min (i.operand s) (maxVl vlmul vsew))
    (hvtype : s'.csr.value .vtype = i.vtype s) (hcsr : s'.csr.value .vl = BitVec.ofNat 64 vl)
    (hrd : s'.regFile i.rd = if i.rd = 0 then 0 else BitVec.ofNat 64 vl) :
    i.Law s ↔ (i.vtype s).getLsbD 63 = false ∧ 1 ≤ vlmax vlmul vsew ∧
      if i.isX0 then i.rd = 0 ∧ s.csr.value .vl = 0
      else vlmul = .Mf8 → i.operand s < vlmax vlmul vsew := by
  have hle : vl ≤ VL_MAX := by
    rw [hvl]
    exact Nat.le_trans (Nat.min_le_right ..) (maxVl_le ..)
  have hexists : ∀ Q : RVCPU P → Prop,
      (∃ t, (execute (i.decoded : P.Decoded)).run s = .ok (.ok (), t) ∧ Q t) ↔ Q s' := by
    intro Q
    rw [hrun]
    constructor
    · rintro ⟨t, heq, hq⟩
      cases heq
      exact hq
    · exact fun hq => ⟨s', rfl, hq⟩
  rw [VsetInstr.Law, hexists, supported, hm, hw]
  by_cases hroom : 1 ≤ vlmax vlmul vsew
  · have hle' : min (i.avl (vlmax vlmul vsew) s) (vlmax vlmul vsew) ≤ VL_MAX :=
      Nat.le_trans (Nat.min_le_right ..) (vlmax_le ..)
    simp only [hvtype, hcsr, hrd, and_not_vill_iff, hroom, if_true, true_and]
    rw [← length_iff hx0 hroom, ← hvl]
    constructor
    · exact fun h => ⟨h.1, (ofNat_inj hle hle').1 h.2.1⟩
    · rintro ⟨hbit, heq⟩
      exact ⟨hbit, by rw [heq], by rw [heq]⟩
  · simp only [hvtype, hroom, if_false, false_and, and_false, iff_false]
    exact fun h => vtype_ne_vill hm hw hroom h.1

/-- A setting of the vector unit is taken as it should be exactly when the
operands are such. Bits 62 to 8 of `vtype` play no part in it. -/
theorem vector_config_iff (i : VsetInstr) (s : RVCPU P) (hx0 : s.regFile 0 = 0)
    (hon : s.csr.get .mstatus Mstatus.vs ≠ 0) (hwf : i.WellFormed) : i.Law s ↔ i.Meets s := by
  obtain ⟨len, hlen, hrun⟩ := run_execVectorConfig hon hwf
  have hexec : (execute (i.decoded : P.Decoded)).run s = _ := execute_decoded
  rw [hrun] at hexec
  by_cases hnone : vlmulOf (i.vtype s) = none ∨ vsewOf (i.vtype s) = none
  · -- a reserved field: the code traps
    rw [config_eq_none hnone] at hexec
    refine iff_of_false ?_ ?_
    · rintro ⟨s', hok, -⟩
      rw [hexec] at hok
      cases hok
    · rintro ⟨-, -, vlmul, vsew, hm, hw, -⟩
      rcases hnone with h | h
      · rw [hm] at h
        cases h
      · rw [hw] at h
        cases h
  · obtain ⟨hm, hw⟩ := not_or.1 hnone
    obtain ⟨vlmul, hm⟩ := Option.ne_none_iff_exists'.1 hm
    obtain ⟨vsew, hw⟩ := Option.ne_none_iff_exists'.1 hw
    obtain ⟨config, hconfig, hvl⟩ : ∃ config, Vtype.config (i.vtype s) len = some config ∧ _ :=
      config_eq_some hm hw
    rw [hlen] at hvl
    rw [hconfig] at hexec
    simp only [retireVector] at hexec
    by_cases hcount : s.csr.value .minstret = BitVec.allOnes 64
    · -- the count panics
      rw [if_pos (show _ = _ by exact hcount)] at hexec
      refine iff_of_false ?_ fun h => h.1 hcount
      rintro ⟨s', hok, -⟩
      rw [hexec] at hok
      cases hok
    · rw [if_neg (show ¬_ = _ by exact hcount)] at hexec
      obtain ⟨hvtype, hcsr, hrd⟩ := configured_retired i s (i.vtype s) config
      rw [law_of_taken hx0 hexec hm hw hvl hvtype hcsr hrd, VsetInstr.Meets]
      constructor
      · rintro ⟨hbit, hroom, hlength⟩
        exact ⟨hcount, hbit, vlmul, vsew, hm, hw, hroom, hlength⟩
      · rintro ⟨-, hbit, vlmul', vsew', hm', hw', hroom, hlength⟩
        cases hm.symm.trans hm'
        cases hw.symm.trans hw'
        exact ⟨hbit, hroom, hlength⟩

end Law

/-- A machine just reset with its vector unit on, `x2` holding five. -/
def configCpu : RVCPU (.ramOnly fun _ => none) :=
  let cpu := RVCPU.reset _ ⟨.new, ()⟩ none fun r => if r = 2 then 5 else 0
  { cpu with csr := cpu.csr.setValue .mstatus 0x200 }

/-- `vsetvli x1, x2, e32, m2`. -/
def vsetWords : VsetInstr := ⟨.vsetvli, 2, 0x11, 1, false, 0⟩

theorem vector_config_words :
    configCpu.csr.get .mstatus Mstatus.vs ≠ 0 ∧ vsetWords.WellFormed ∧ vsetWords.Law configCpu := by
  have hon : configCpu.csr.get .mstatus Mstatus.vs ≠ 0 := by decide +kernel
  have hwf : vsetWords.WellFormed := by
    show vsetWords.imm &&& 0x800 = 0
    decide
  refine ⟨hon, hwf, (vector_config_iff vsetWords configCpu rfl hon hwf).2 ?_⟩
  exact ⟨by decide +kernel, by decide, .M2, .E32, rfl, rfl, by decide, by decide⟩

/-- `vsetvli x1, x0, e8, m1` asks for the longest vector and gets none. A reserved
element width, with `vsetvli x1, x2`, traps. -/
theorem vector_config_fails :
    ¬(⟨.vsetvli, 0, 0, 1, false, 0⟩ : VsetInstr).Law configCpu ∧
    ¬(⟨.vsetvli, 2, 0, 1, true, 0⟩ : VsetInstr).Law configCpu := by
  constructor
  · rintro ⟨s', hrun, hlaw⟩
    cases hrun
    exact absurd hlaw.2.1 (by decide +kernel)
  · rintro ⟨s', hrun, -⟩
    cases hrun

end HereEmu
