import HereEmu.Decoder.Compressed
import HereEmu.Proofs.Precise

/-!
# Where instructions go is aligned

An instruction goes on after itself, jumps by an offset that was decoded with
it, jumps to an address from a register, or returns from a trap. Offsets are
even because the decoders never fill their low bit; addresses from registers
are masked; and without the C extension what is left to be odd by two is
refused. Only a return goes where it is told, so its address has to be aligned
to begin with.
-/

namespace HereEmu

open Lib (Exec)
open Lib.Exec (Spec)
open RVCPU Decode BitVec

/-! ## Alignment -/

section Alignment

/-- The alignment of instructions in bytes. -/
def ialign (csr : CsrRegFile) : Nat := if cEnabled csr then 2 else 4

/-- An address an instruction may start at. -/
def Aligned (csr : CsrRegFile) (a : WordType) : Prop := ialign csr ∣ a.toNat
  deriving Decidable

variable {csr : CsrRegFile} {a b : WordType}

theorem ialign_dvd_four (csr : CsrRegFile) : ialign csr ∣ 4 := by
  unfold ialign
  split <;> decide

/-- As the architecture has it. -/
theorem aligned_iff : Aligned csr a ↔ 2 ∣ a.toNat ∧ (cEnabled csr = false → 4 ∣ a.toNat) := by
  unfold Aligned ialign
  cases cEnabled csr with
  | true => simp
  | false =>
    simp only [Bool.false_eq_true, if_false, true_implies]
    omega

theorem Aligned.add (ha : Aligned csr a) (hb : Aligned csr b) : Aligned csr (a + b) := by
  have h64 : ialign csr ∣ 2 ^ 64 := Nat.dvd_trans (ialign_dvd_four csr) (by decide)
  unfold Aligned
  rw [toNat_add, Nat.dvd_mod_iff h64]
  exact Nat.dvd_add ha hb

theorem aligned_of_four_dvd (h : 4 ∣ a.toNat) : Aligned csr a :=
  Nat.dvd_trans (ialign_dvd_four csr) h

theorem aligned_of_compressed (hc : cEnabled csr) (h : 2 ∣ a.toNat) : Aligned csr a := by
  unfold Aligned ialign
  rw [if_pos hc]
  exact h

theorem two_dvd_toNat_iff : 2 ∣ a.toNat ↔ a.getLsbD 0 = false := by
  rw [← testBit_toNat, Nat.testBit_zero, decide_eq_false_iff_not]
  omega

/-- Multiples of a power of two have no low bits. -/
theorem dvd_toNat_iff {k : Nat} {mask : WordType} (hmask : mask.toNat = 2 ^ k - 1) :
    2 ^ k ∣ a.toNat ↔ a &&& mask = 0 := by
  rw [← toNat_inj, toNat_and, hmask, Nat.and_two_pow_sub_one_eq_mod]
  exact Nat.dvd_iff_mod_eq_zero

theorem and_not_eq_self {k : WordType} (h : a &&& k = 0) : a &&& ~~~k = a := by
  refine eq_of_getLsbD_eq fun i hi => ?_
  have hbit := congrArg (·.getLsbD i) h
  simp only [getLsbD_and, getLsbD_not, hi, decide_true, Bool.true_and] at hbit ⊢
  revert hbit
  cases a.getLsbD i <;> cases k.getLsbD i <;> simp

/-- A target that passes the check of a jump, if it is even. -/
theorem JumpAligned.aligned (h : JumpAligned csr a) (heven : 2 ∣ a.toNat) : Aligned csr a := by
  rcases h with hc | hand
  · exact aligned_of_compressed hc heven
  · exact aligned_of_four_dvd ((dvd_toNat_iff (k := 2) rfl).mpr hand)

theorem two_dvd_clearLow (a : WordType) : 2 ∣ (a &&& ~~~1#64).toNat := by
  rw [two_dvd_toNat_iff, getLsbD_and]
  exact Bool.and_false _

/-- The address with the bits cleared that `mepc` and `sepc` do not have. -/
def maskedTarget (csr : CsrRegFile) (a : WordType) : WordType :=
  if cEnabled csr then a &&& ~~~1#64 else a &&& ~~~3#64

theorem maskedTarget_eq_self (h : Aligned csr a) : maskedTarget csr a = a := by
  unfold Aligned ialign at h
  unfold maskedTarget
  split
  · next hc =>
      rw [if_pos hc] at h
      exact and_not_eq_self ((dvd_toNat_iff (k := 1) rfl).mp h)
  · next hc =>
      rw [if_neg hc] at h
      exact and_not_eq_self ((dvd_toNat_iff (k := 2) rfl).mp h)

end Alignment

/-! ## Decoded offsets -/

section Offsets

variable {F V : Type} (raw : BitVec 32)

theorem signExtend_low (v : WordType) {n : Nat} (hn : 0 < n) (h64 : n ≤ 64) :
    (signExtend v n).getLsbD 0 = v.getLsbD 0 := by
  unfold signExtend
  rw [getLsbD_sshiftRight, getLsbD_shiftLeft]
  have hlt : 64 - n < 64 := by omega
  simp [hlt]

theorem signExtend_even {v : WordType} {n : Nat} (hn : 0 < n) (h64 : n ≤ 64)
    (hv : v.getLsbD 0 = false) : 2 ∣ (signExtend v n).toNat :=
  two_dvd_toNat_iff.mpr ((signExtend_low v hn h64).trans hv)

theorem immB_even : 2 ∣ (immB raw).toNat :=
  signExtend_even (by decide) (by decide) (by simp)

theorem immJ_even : 2 ∣ (immJ raw).toNat :=
  signExtend_even (by decide) (by decide) (by simp)

/-- No range of a field reaches its lowest bit. -/
theorem extractField_low {fields : List FieldRange}
    (h : ∀ f ∈ fields, 0 < f.dstLow) : (extractField raw fields).getLsbD 0 = false := by
  suffices ∀ field : BitVec 32, field.getLsbD 0 = false →
      (fields.foldl (fun field f => field ||| f.get raw) field).getLsbD 0 = false from this 0 rfl
  induction fields with
  | nil => exact fun _ h0 => h0
  | cons f fields ih =>
    intro field h0
    refine ih (fun g hg => h g (List.mem_cons_of_mem _ hg)) _ ?_
    rw [getLsbD_or, h0, FieldRange.get, getLsbD_shiftLeft]
    simp [h f List.mem_cons_self]

theorem signExtExtract_even {fields : List FieldRange}
    (h : ∀ f ∈ fields, 0 < f.dstLow) (h64 : (fields.map (·.dstHigh)).foldl max 0 + 1 ≤ 64) :
    2 ∣ (signExtExtract raw fields).toNat := by
  refine signExtend_even (Nat.succ_pos _) h64 ?_
  rw [getLsbD_setWidth, extractField_low raw h]
  rfl

/-- The offset a jump adds to the program counter. -/
def jumpOffset : ExecFunc F V → RVInstrInfo → Option WordType
  | .branch _, .B _ _ imm | .jal, .J _ imm | .compressBranch _, .CB _ imm
  | .compressJump _, .CJ imm => some imm
  | _, _ => none

/-- What alignment asks of a decoded instruction, where `c` says whether there
are instructions of 16 bits. -/
structure WellDecoded (c : Bool) (d : DecodeInstr F V) : Prop where
  offset : ∀ imm, jumpOffset (getExecFunc d.instr) d.info = some imm → 2 ∣ imm.toNat
  compressed : (getExecFunc d.instr).isCompressed → c

variable {info : RVInstrInfo} {imm : WordType}

/-- The four kinds of jumps that have an offset. -/
theorem jumpOffset_cases {f : ExecFunc F V} (h : jumpOffset f info = some imm) :
    (∃ rs1 rs2, info = .B rs1 rs2 imm) ∨ (∃ rd, info = .J rd imm) ∨
      (∃ op rs1, f = .compressBranch op ∧ info = .CB rs1 imm) ∨ info = .CJ imm := by
  unfold jumpOffset at h
  split at h
  · cases h
    exact .inl ⟨_, _, rfl⟩
  · cases h
    exact .inr (.inl ⟨_, rfl⟩)
  · cases h
    exact .inr (.inr (.inl ⟨_, _, rfl, rfl⟩))
  · cases h
    exact .inr (.inr (.inr rfl))
  · cases h

variable {raw : BitVec 32} {instr : RiscvInstr F V}

theorem jumpOffset_decodeInfo {format : InstrFormat} {f : ExecFunc F V}
    (h : jumpOffset f (decodeInfo raw instr format) = some imm) : 2 ∣ imm.toNat := by
  have hinfo := jumpOffset_cases h
  cases format with
  | B =>
    have himm : immB raw = imm := by simpa [decodeInfo] using hinfo
    exact himm ▸ immB_even raw
  | J =>
    have himm : immJ raw = imm := by simpa [decodeInfo] using hinfo
    exact himm ▸ immJ_even raw
  | _ => simp [decodeInfo] at hinfo

theorem maskDecode_offset {masks : List (RVInstrDesc F V)} {d : DecodeInstr F V}
    (h : maskDecode masks raw = some d)
    (himm : jumpOffset (getExecFunc d.instr) d.info = some imm) : 2 ∣ imm.toNat := by
  obtain ⟨desc, -, rfl⟩ := Option.map_eq_some_iff.mp h
  exact jumpOffset_decodeInfo himm

/-- The branches of the CB format have an even immediate. -/
theorem immCB_even {op : BranchOp} (hf : getExecFunc instr = .compressBranch op)
    (h : immCB raw instr = .ok imm) : 2 ∣ imm.toNat := by
  unfold immCB at h
  split at h
  · cases hf
  · cases hf
  · cases hf
  · rw [← Except.ok.inj h]
    exact signExtExtract_even raw (by decide) (by decide)
  · rw [← Except.ok.inj h]
    exact signExtExtract_even raw (by decide) (by decide)
  · cases h

theorem jumpOffset_decodeCompressedInfo {format : CompressedFormat}
    (hinfo : decodeCompressedInfo raw instr format = .ok info)
    (h : jumpOffset (getExecFunc instr) info = some imm) : 2 ∣ imm.toNat := by
  have hret : ∀ {m : Rust WordType} {g : WordType → RVInstrInfo},
      (do return g (← m)) = Except.ok info → ∃ imm, m = .ok imm ∧ g imm = info := by
    intro m g hm
    cases m with
    | error p => cases hm
    | ok imm => exact ⟨imm, rfl, Except.ok.inj hm⟩
  have hjump := jumpOffset_cases h
  cases format with
  | CB =>
    obtain ⟨imm', himm, rfl⟩ := hret hinfo
    obtain ⟨⟨op, hf⟩, rfl⟩ : (∃ op, getExecFunc instr = .compressBranch op) ∧ imm' = imm := by
      simpa using hjump
    exact immCB_even hf himm
  | CJ =>
    cases hinfo
    have himm : targetCJ raw = imm := by simpa using hjump
    exact himm ▸ signExtExtract_even raw (by decide) (by decide)
  | CL | CS | CSS => obtain ⟨_, -, rfl⟩ := hret hinfo; simp at hjump
  | _ => cases hinfo; simp at hjump

/-- What the decoders of an instruction set find is well decoded, if there are
instructions of 16 bits among it only with the C extension. -/
theorem Decoder.wellDecoded {dec : Decoder F V} {d : DecodeInstr F V} {c : Bool}
    (h : dec.decode raw = .ok (some d))
    (hc : (getExecFunc d.instr).isCompressed → c) : WellDecoded c d := by
  refine ⟨fun imm himm => ?_, hc⟩
  unfold Decoder.decode at h
  split at h
  · split at h
    · cases h
      exact jumpOffset_decodeInfo himm
    · exact maskDecode_offset (Except.ok.inj h) himm
  · unfold compressedDecode at h
    split at h
    · cases h
    · next desc _ =>
        obtain ⟨info, hinfo, h⟩ := Lib.exists_of_bind_ok h
        cases h
        exact jumpOffset_decodeCompressedInfo hinfo himm

end Offsets

/-! ## Targets -/

section Targets

variable {P : Platform} {s : RVCPU P} {d : P.Decoded}

variable {target : WordType}

/-- A checked target is even, whether it is aligned or not. -/
theorem checkedTarget_even (hpc : Aligned s.csr s.pc) (hd : WellDecoded (cEnabled s.csr) d)
    (h : checkedTarget s (getExecFunc d.instr) d.info = some target) : 2 ∣ target.toNat := by
  have hoffset := hd.offset
  have hadd : ∀ imm : WordType, 2 ∣ imm.toNat → 2 ∣ (s.pc + imm).toNat := by
    intro imm himm
    have h2 := (aligned_iff.mp hpc).1
    rw [toNat_add]
    omega
  revert h hoffset
  generalize getExecFunc d.instr = f, d.info = info
  unfold checkedTarget
  split
  · intro h hoffset
    split at h
    · cases h
      exact hadd _ (hoffset _ rfl)
    · cases h
  · rintro ⟨⟩ hoffset
    exact hadd _ (hoffset _ rfl)
  · rintro ⟨⟩ -
    exact two_dvd_clearLow _
  · nofun

/-- An instruction that completes goes to an aligned address, provided the one
a return would go to is aligned. -/
theorem nextPc_aligned (hpc : Aligned s.csr s.pc) (hmepc : Aligned s.csr (s.csr.value .mepc))
    (hsepc : Aligned s.csr (s.csr.value .sepc)) (hd : WellDecoded (cEnabled s.csr) d)
    (hchecked : ∀ target, checkedTarget s (getExecFunc d.instr) d.info = some target →
      JumpAligned s.csr target) : Aligned s.csr (nextPc s (getExecFunc d.instr) d.info) := by
  have htarget : ∀ target, checkedTarget s (getExecFunc d.instr) d.info = some target →
      Aligned s.csr target := fun target ht =>
    (hchecked target ht).aligned (checkedTarget_even hpc hd ht)
  have hfour : Aligned s.csr (s.pc + 4) := hpc.add (aligned_of_four_dvd (by decide))
  have hshort : cEnabled s.csr → Aligned s.csr (s.pc + 2) := fun hc =>
    hpc.add (aligned_of_compressed hc (by decide))
  have hoffset := hd.offset
  have hcompressed := hd.compressed
  revert htarget hoffset hcompressed
  generalize getExecFunc d.instr = f, d.info = info
  unfold nextPc
  split
  · -- a branch is checked when it is taken
    intro htarget _ _
    split
    · next hb => exact htarget _ (if_pos hb)
    · exact hfour
  · exact fun htarget _ _ => htarget _ rfl
  · exact fun htarget _ _ => htarget _ rfl
  · exact fun _ _ _ => hmepc
  · exact fun _ _ _ => hsepc
  · intro _ hoffset hcompressed
    split
    · exact hpc.add (aligned_of_compressed (hcompressed rfl) (hoffset _ rfl))
    · exact hshort (hcompressed rfl)
  · exact fun _ hoffset hcompressed =>
      hpc.add (aligned_of_compressed (hcompressed rfl) (hoffset _ rfl))
  · exact fun _ _ hcompressed => aligned_of_compressed (hcompressed rfl) (two_dvd_clearLow _)
  · intro _ _ hcompressed
    split
    · next hc => exact hshort (hcompressed hc)
    · exact hfour

/-- A checked target is one the course checks. -/
theorem course_of_checkedTarget {f : ExecFunc P.FloatOp P.VectorOp} {info : RVInstrInfo}
    (h : checkedTarget s f info = some target) : f.ownWay = false ∧
      ((∃ rd v, course s f info = .move true rd v target) ∨ ∃ p hp, course s f info = .stuck p hp) := by
  unfold checkedTarget at h
  split at h
  · split at h
    · next hb =>
        cases h
        exact ⟨rfl, .inl ⟨0, 0, if_pos hb⟩⟩
    · cases h
  · cases h
    exact ⟨rfl, .inl ⟨_, _, rfl⟩⟩
  · cases h
    refine ⟨rfl, ?_⟩
    dsimp only [course, Course.link]
    split
    · exact .inl ⟨_, _, rfl⟩
    · exact .inr ⟨.overflow, by decide, rfl⟩
  · cases h

/-- A jump whose target does not pass the check is refused. -/
theorem exec_refuses {f : ExecFunc P.FloatOp P.VectorOp} {info : RVInstrInfo}
    (ht : checkedTarget s f info = some target) (h : ¬ JumpAligned s.csr target) :
    Returns (exec f info) s fun r _ => r = .error .instructionMisaligned := by
  obtain ⟨hway, hcourse⟩ := course_of_checkedTarget ht
  show Exec.Outcome _ _ _
  rw [run_exec_course hway]
  rcases hcourse with ⟨rd, v, hmove⟩ | ⟨p, hp, hstuck⟩
  · have hcheck : (!cEnabled s.csr && target &&& 3 != 0) := by
      unfold JumpAligned at h
      revert h
      cases cEnabled s.csr <;> simp
    rw [hmove, Course.run, checkTarget, if_pos rfl, run_checkJumpAlignment_bind, if_pos hcheck]
    exact rfl
  · rw [hstuck]
    trivial

end Targets

/-- Every instruction that completes is where `nextPc` says, and every other
one is where it was. -/
theorem exec_pc {P : Platform} {s : RVCPU P} (f : ExecFunc P.FloatOp P.VectorOp) (info : RVInstrInfo) :
    Returns (exec f info) s fun r s' =>
      match r with
      | .ok _ => Arrived s f info s'
      | .error _ => s'.pc = s.pc := by
  cases hv : f.isVector with
  | false =>
    refine Spec.mono (exec_precise info hv) fun r s' h => ?_
    cases r with
    | ok _ => exact h
    | error e =>
      have habort : Aborted _ s e s' := h
      rw [habort.only]
  | true =>
    have hnext : nextPc s f info = s.pc + 4 ∧ checkedTarget s f info = none := by
      cases f <;> first | exact ⟨rfl, rfl⟩ | cases hv
    refine exec_vector_spec hv (fun _ _ => trivial) (fun _ => rfl) (fun _ _ _ _ => rfl)
      fun e _ _ => ?_
    refine ⟨hnext.1.symm, fun target ht => ?_⟩
    cases hnext.2.symm.trans ht

end HereEmu
