import HereEmu.Proofs.CsrInstr
import HereEmu.Proofs.Encoding
import HereEmu.Proofs.IntegerOps
import HereEmu.Proofs.Precise

/-!
# Compressed instructions and their expansions

The manual defines every compressed instruction by an instruction of 32 bits.
The source executes the two kinds by different functions. Here the functions are
shown to agree: from the same state they panic alike, raise the same exception in
the same state, or complete in states that differ in what the length of the
instruction decides, which is where execution goes on if nothing jumps, and the
link (`Shrunk`).

Most instructions are a body and the step to the next instruction, and the bodies
are the same. What is left are the jumps. Those of 32 bits check the alignment of
their target, which on a machine with compressed instructions is no check.
-/

namespace HereEmu

open Lib (Exec)
open RVCPU Layout Function

/-! ## Expansion -/

/-- The integer instructions of RV64C. -/
inductive RvcInstr where
  | addi4spn | lw | ld | sw | sd
  | nop | addi | addiw | li | addi16sp | lui | srli | srai | andi
  | sub | xor | or | and | subw | addw | j | beqz | bnez
  | slli | lwsp | ldsp | jr | mv | ebreak | jalr | add | swsp | sdsp
  deriving DecidableEq, Repr

namespace RvcInstr

variable {F V : Type}

def instr : RvcInstr → RiscvInstr F V
  | addi4spn => .C_ADDI4SPN
  | lw => .C_LW
  | ld => .C_LD
  | sw => .C_SW
  | sd => .C_SD
  | nop => .C_NOP
  | addi => .C_ADDI
  | addiw => .C_ADDIW
  | li => .C_LI
  | addi16sp => .C_ADDI16SP
  | lui => .C_LUI
  | srli => .C_SRLI
  | srai => .C_SRAI
  | andi => .C_ANDI
  | sub => .C_SUB
  | xor => .C_XOR
  | or => .C_OR
  | and => .C_AND
  | subw => .C_SUBW
  | addw => .C_ADDW
  | j => .C_J
  | beqz => .C_BEQZ
  | bnez => .C_BNEZ
  | slli => .C_SLLI
  | lwsp => .C_LWSP
  | ldsp => .C_LDSP
  | jr => .C_JR
  | mv => .C_MV
  | ebreak => .C_EBREAK
  | jalr => .C_JALR
  | add => .C_ADD
  | swsp => .C_SWSP
  | sdsp => .C_SDSP

/-- The format the generated table has for it. -/
def format : RvcInstr → CompressedFormat
  | addi4spn => .CIW
  | lw | ld => .CL
  | sw | sd => .CS
  | addi | addiw | li | addi16sp | lui | slli | lwsp | ldsp => .CI
  | srli | srai | andi | beqz | bnez => .CB
  | sub | xor | or | and | subw | addw => .CA
  | j => .CJ
  | nop | jr | mv | jalr | add => .CR
  | swsp | sdsp => .CSS
  | ebreak => .none

/-- How the manual draws it. -/
def layout : RvcInstr → Layout
  | addi4spn => .CIW
  | lw => .lw
  | ld => .ld
  | sw => .sw
  | sd => .sd
  | nop | addi | addiw | li => .CI
  | addi16sp => .addi16sp
  | lui => .lui
  | slli => .cshift
  | lwsp => .lwsp
  | ldsp => .ldsp
  | srli | srai => .cbShift
  | andi => .cbImm
  | beqz | bnez => .branch
  | sub | xor | or | and | subw | addw => .CA
  | j => .CJ
  | jr | mv | ebreak | jalr | add => .CR
  | swsp => .swsp
  | sdsp => .sdsp

/-- What tells the instruction from others of the same code, and from reserved
encodings. Hints are not reserved. -/
def distinct : RvcInstr → Operands → Prop
  | addi4spn, o => o.imm ≠ 0
  | nop, o => o.rd = 0
  | addi, o | addiw, o | lwsp, o | ldsp, o => o.rd ≠ 0
  | addi16sp, o => o.rd = SP ∧ o.imm ≠ 0
  | lui, o => o.rd ≠ SP ∧ o.imm ≠ 0
  | jr, o | jalr, o => o.rd ≠ 0 ∧ o.rs2 = 0
  | mv, o | add, o => o.rs2 ≠ 0
  | ebreak, o => o.rd = 0 ∧ o.rs2 = 0
  | _, _ => True

/-- The instruction of 32 bits that the manual gives. The register of the CR
format that is a source or a destination, or both, is `rd`. -/
def expand (o : Operands) : RvcInstr → DecodeInstr F V
  | addi4spn => ⟨.ADDI, .I SP o.rd o.imm⟩
  | lw => ⟨.LW, .I o.rs1 o.rd o.imm⟩
  | ld => ⟨.LD, .I o.rs1 o.rd o.imm⟩
  | sw => ⟨.SW, .S o.rs1 o.rs2 o.imm⟩
  | sd => ⟨.SD, .S o.rs1 o.rs2 o.imm⟩
  | nop => ⟨.ADDI, .I 0 0 0⟩
  | addi => ⟨.ADDI, .I o.rd o.rd o.imm⟩
  | addiw => ⟨.ADDIW, .I o.rd o.rd o.imm⟩
  | li => ⟨.ADDI, .I 0 o.rd o.imm⟩
  | addi16sp => ⟨.ADDI, .I SP SP o.imm⟩
  | lui => ⟨.LUI, .U o.rd o.imm⟩
  | srli => ⟨.SRLI, .I o.rd o.rd o.imm⟩
  | srai => ⟨.SRAI, .I o.rd o.rd o.imm⟩
  | andi => ⟨.ANDI, .I o.rd o.rd o.imm⟩
  | sub => ⟨.SUB, .R o.rd o.rs2 o.rd⟩
  | xor => ⟨.XOR, .R o.rd o.rs2 o.rd⟩
  | or => ⟨.OR, .R o.rd o.rs2 o.rd⟩
  | and => ⟨.AND, .R o.rd o.rs2 o.rd⟩
  | subw => ⟨.SUBW, .R o.rd o.rs2 o.rd⟩
  | addw => ⟨.ADDW, .R o.rd o.rs2 o.rd⟩
  | j => ⟨.JAL, .J 0 o.imm⟩
  | beqz => ⟨.BEQ, .B o.rs1 0 o.imm⟩
  | bnez => ⟨.BNE, .B o.rs1 0 o.imm⟩
  | slli => ⟨.SLLI, .I o.rd o.rd o.imm⟩
  | lwsp => ⟨.LW, .I SP o.rd o.imm⟩
  | ldsp => ⟨.LD, .I SP o.rd o.imm⟩
  | jr => ⟨.JALR, .I o.rd 0 0⟩
  | mv => ⟨.ADD, .R 0 o.rs2 o.rd⟩
  | ebreak => ⟨.EBREAK, .none⟩
  | jalr => ⟨.JALR, .I o.rd RA 0⟩
  | add => ⟨.ADD, .R o.rd o.rs2 o.rd⟩
  | swsp => ⟨.SW, .S SP o.rs2 o.imm⟩
  | sdsp => ⟨.SD, .S SP o.rs2 o.imm⟩

/-- Whether it goes anywhere but to the next instruction. -/
def jumps {P : Platform} (c : RvcInstr) (o : Operands) (s : RVCPU P) : Bool :=
  match c with
  | j | jr | jalr => true
  | beqz => s.regFile o.rs1 == 0
  | bnez => s.regFile o.rs1 != 0
  | _ => false

def links : RvcInstr → Bool
  | jalr => true
  | _ => false

end RvcInstr

/-! ## Outcomes that differ in the length -/

section Shrunk

variable {P : Platform} {s : RVCPU P} {jumps links : Bool}

/-- The state after a short instruction, from the one after a long one. -/
def shrink (s : RVCPU P) (jumps links : Bool) (t : RVCPU P) : RVCPU P :=
  { t with
    pc := if jumps then t.pc else s.pc + 2
    regFile := if links then update t.regFile RA (s.pc + 2) else t.regFile }

/-- The outcomes of a long instruction and a short one from `s`. The value for the
trap is part of the state, except that of an illegal instruction, which neither
is. -/
inductive Shrunk (s : RVCPU P) (jumps links : Bool) :
    Rust (Except Exception Unit × RVCPU P) → Rust (Except Exception Unit × RVCPU P) → Prop
  | panics (p : PanicSite) : Shrunk s jumps links (.error p) (.error p)
  | raises (e : Exception) (t : RVCPU P) (legal : e ≠ .illegalInstruction) :
      Shrunk s jumps links (.ok (.error e, t)) (.ok (.error e, t))
  | completes (t : RVCPU P) (next : jumps = false → t.pc = s.pc + 4)
      (link : links → t.regFile RA = s.pc + 4) :
      Shrunk s jumps links (.ok (.ok (), t)) (.ok (.ok (), shrink s jumps links t))

theorem clearX0_shrink (t : RVCPU P) :
    (shrink s jumps links t).clearX0 = shrink s jumps links t.clearX0 := by
  cases links with
  | false => rfl
  | true =>
    have hra : RA ≠ 0 := by decide
    unfold shrink RVCPU.clearX0
    simp only [if_true, update_comm hra]

/-- Both instructions take their courses. -/
theorem Shrunk.execute {d d' : P.Decoded}
    (h : Shrunk s jumps links ((course s (getExecFunc d.instr) d.info).run.run s)
      ((course s (getExecFunc d'.instr) d'.info).run.run s))
    (hd : (getExecFunc d.instr).ownWay = false := by rfl)
    (hd' : (getExecFunc d'.instr).ownWay = false := by rfl) :
    Shrunk s jumps links ((RVCPU.execute d).run s) ((RVCPU.execute d').run s) := by
  unfold RVCPU.execute
  rw [Exec.run_ofFun, Exec.run_ofFun, run_exec_course hd, run_exec_course hd']
  generalize (course s (getExecFunc d.instr) d.info).run.run s = out at h ⊢
  generalize (course s (getExecFunc d'.instr) d'.info).run.run s = out' at h ⊢
  cases h with
  | panics p => exact .panics p
  | raises e t legal => exact .raises e t.clearX0 legal
  | completes t next link =>
    show Shrunk s jumps links _ (.ok (.ok (), (shrink s jumps links t).clearX0))
    rw [clearX0_shrink]
    refine .completes t.clearX0 next fun hl => ?_
    exact (update_of_ne (by decide : RA ≠ 0) 0 t.regFile).trans (link hl)

/-- The end of an instruction that has left `t`, where the two may have changed
the program counter and the link as they like. -/
theorem Shrunk.retire {t : RVCPU P} (next : jumps = false → t.pc = s.pc + 4)
    (link : links → t.regFile RA = s.pc + 4) :
    Shrunk s jumps links (RVCPU.retire.run t) (RVCPU.retire.run (shrink s jumps links t)) := by
  rw [run_retire, run_retire]
  show Shrunk s jumps links (if t.csr.value .minstret = _ then _ else _)
    (if t.csr.value .minstret = _ then _ else _)
  split
  · exact .panics _
  · exact .completes _ next link

end Shrunk

/-! ## Courses that differ in the length -/

section Courses

variable {P : Platform} {s : RVCPU P} {c c' : Course P}

/-- A machine with compressed instructions has no misaligned target. -/
theorem run_move {check : Bool} {rd : RegIdx} {v target : WordType}
    (hc : check → cEnabled s.csr) :
    (Course.move check rd v target).run.run s = RVCPU.retire.run { s with
      regFile := if rd = 0 then s.regFile else update s.regFile rd v, pc := target } := by
  cases check with
  | false =>
    simp only [Course.run, checkTarget, writePc, Bool.false_eq_true, if_false, pure_bind,
      run_writeReg_bind, run_modify_bind]
  | true =>
    simp only [Course.run, checkTarget, writePc, if_true, run_checkJumpAlignment_bind, hc rfl,
      Bool.not_true, Bool.false_and, Bool.false_eq_true, if_false, run_writeReg_bind,
      run_modify_bind]

theorem Shrunk.next {rd : RegIdx} {v v' : WordType} (hc : c = .move false rd v (s.pc + 4))
    (hc' : c' = .move false rd v' (s.pc + 2)) (hv : rd = 0 ∨ v' = v := by exact .inr rfl) :
    Shrunk s false false (c.run.run s) (c'.run.run s) := by
  rw [hc, hc', run_move (fun h => by cases h), run_move (fun h => by cases h)]
  obtain rfl | rfl := hv
  · exact .retire (fun _ => rfl) nofun
  · exact .retire (fun _ => rfl) nofun

/-- The link is the address after the instruction. -/
theorem Shrunk.jump (link : Bool) {check : Bool} {v v' target : WordType}
    (hc : c = .move check (if link then RA else 0) v target)
    (hc' : c' = .move false (if link then RA else 0) v' target) (hen : cEnabled s.csr)
    (hlink : link → v = s.pc + 4 ∧ v' = s.pc + 2) :
    Shrunk s true link (c.run.run s) (c'.run.run s) := by
  rw [hc, hc', run_move (fun _ => hen), run_move (fun _ => hen)]
  cases link with
  | false => exact .retire nofun nofun
  | true =>
    obtain ⟨rfl, rfl⟩ := hlink rfl
    have h : Shrunk s true true _ _ := .retire (t := { s with
        regFile := update s.regFile RA (s.pc + 4), pc := target }) nofun
      fun _ => update_self RA (s.pc + 4) s.regFile
    unfold shrink at h
    rw [if_pos rfl, if_pos rfl, update_idem] at h
    exact h

/-- However it ends, the program counter is where it was. It is not refused as
illegal. -/
def Body {α : Type} (m : CpuM P α) : Prop := ∀ s, Returns m s fun r s' =>
  s'.pc = s.pc ∧ r ≠ .error .illegalInstruction

theorem Body.bind {α β : Type} {m : CpuM P α} {f : α → CpuM P β} (hm : Body m)
    (hf : ∀ a, Body (f a)) : Body (m >>= f) := fun s =>
  (hm s).seq (fun a s₁ h₁ => (hf a s₁).mono fun _ _ h₂ => ⟨h₂.1.trans h₁.1, h₂.2⟩)
    fun e _ h => ⟨h.1, fun he => h.2 (by rw [Except.error.inj he])⟩

theorem Body.access {α : Type} (access : AccessType) (a : WordType)
    (m : AccessPolicy → Exec PanicSite MemError (VirtAddrManager P.bus) α) :
    Body (dataPolicy access >>= fun policy => finishMemoryAccess a .fromMemoryErr (m policy)) := by
  refine Body.bind (fun s => Lib.Exec.Spec.get_bind ?_) fun policy s => ?_
  · cases resolveDataPolicy s.csr access true with
    | error p => trivial
    | ok policy => exact ⟨rfl, nofun⟩
  · refine finishMemoryAccess_spec (.of_ends fun _ _ _ => trivial) (fun _ _ _ => ⟨rfl, nofun⟩)
      fun e _ _ => ⟨rfl, fun he => ?_⟩
    exact (fromMemoryErr_known e).2 (Except.error.inj he)

/-- The same access, followed by the step to the next instruction. -/
theorem Shrunk.access {req : Request} {sink : Sink}
    (hm : Body (do sink.put (← req.send) : CpuM P Unit)) (hc : c = .access req sink 4)
    (hc' : c' = .access req sink 2) : Shrunk s false false (c.run.run s) (c'.run.run s) := by
  have hbody : Exec.Outcome _ _ _ := hm s
  have hrun : ∀ n, (Course.access req sink n).run =
      ((do sink.put (← req.send)) >>= fun _ => finish n : CpuM P Unit) := fun n => by
    rw [bind_assoc]
    rfl
  rw [hc, hc', hrun, hrun]
  generalize (do sink.put (← req.send) : CpuM P Unit) = m at hbody ⊢
  rw [Exec.run_bind, Exec.run_bind]
  generalize m.run s = out at hbody ⊢
  rcases out with p | ⟨e | _, t⟩
  · exact .panics p
  · exact .raises e t fun he => hbody.2 (congrArg _ he)
  · show Shrunk s false false ((finish 4).run t) ((finish 2).run t)
    rw [run_finish, run_finish, run_move (fun h => by cases h), run_move (fun h => by cases h),
      hbody.1]
    exact .retire (fun _ => rfl) nofun

theorem Shrunk.load {w : Width} {extend : Bool} {rd : RegIdx} {a : WordType}
    (hc : c = .load w extend rd a 4) (hc' : c' = .load w extend rd a 2) :
    Shrunk s false false (c.run.run s) (c'.run.run s) := by
  refine .access ((Body.access .read a _).bind fun v => ?_) hc hc'
  show Body (writeReg rd _)
  unfold RVCPU.writeReg
  split
  · exact fun _ => ⟨rfl, nofun⟩
  · exact fun _ => ⟨rfl, nofun⟩

theorem Shrunk.store {w : Width} {a data : WordType} (hc : c = .store w a data 4)
    (hc' : c' = .store w a data 2) : Shrunk s false false (c.run.run s) (c'.run.run s) := by
  have hpure : ∀ (α : Type) (v : α), Body (pure v : CpuM P α) := fun _ _ _ => ⟨rfl, nofun⟩
  refine .access (Body.bind ?_ fun _ => hpure _ _) hc hc'
  exact (Body.access .write a _).bind fun _ => hpure _ _

/-- A branch on a register and the zero register. -/
theorem Shrunk.branch (op : BranchOp) {rs1 : RegIdx} {imm : WordType} (hx0 : s.regFile 0 = 0)
    (hen : cEnabled s.csr) : Shrunk s (op.exec (s.regFile rs1) 0) false
      ((course s (.branch op : ExecFunc P.FloatOp P.VectorOp) (.B rs1 0 imm)).run.run s)
      ((course s (.compressBranch op : ExecFunc P.FloatOp P.VectorOp) (.CB rs1 imm)).run.run s) := by
  dsimp only [course]
  rw [hx0]
  cases op.exec (s.regFile rs1) 0 with
  | true => exact .jump false rfl rfl hen nofun
  | false => exact .next rfl rfl

/-- The register a jump goes to is read before the link is written. -/
theorem Shrunk.jumpReg (link : Bool) {rs1 : RegIdx} (rs2 : RegIdx) (hen : cEnabled s.csr)
    (hpc : s.pc.toNat + 4 < 2 ^ 64) : Shrunk s true link
      ((course s (.jalr : ExecFunc P.FloatOp P.VectorOp)
        (.I rs1 (if link then RA else 0) 0)).run.run s)
      ((course s (.compressJumpReg link : ExecFunc P.FloatOp P.VectorOp) (.CR rs1 rs2)).run.run s) := by
  have hpc' : s.pc.toNat + (2 : WordType).toNat < 2 ^ 64 := by
    have htwo : (2 : WordType).toNat = 2 := rfl
    omega
  refine .jump link (if_pos hpc) ((if_pos hpc').trans ?_) hen fun _ => ⟨rfl, rfl⟩
  rw [show s.regFile rs1 + 0 = s.regFile rs1 from BitVec.add_zero _]

end Courses

/-! ## All of them -/

section Main

variable {P : Platform} {o : Operands} {s : RVCPU P}

/-- A shift looks at six bits of its amount. -/
theorem exec_shift_congr {op : ArithOp} (hop : op = .sll ∨ op = .srl ∨ op = .sra)
    {imm imm' : WordType} (h : imm'.setWidth 6 = imm.setWidth 6) (v : WordType) :
    op.exec v imm' = op.exec v imm := by
  have hnat : (imm' &&& 63).toNat = (imm &&& 63).toNat := by
    have hmod := congrArg BitVec.toNat h
    rw [ExecTrait.toNat_and_63, ExecTrait.toNat_and_63]
    exact hmod
  obtain rfl | rfl | rfl := hop <;> simp only [ArithOp.exec, hnat]

/-- What is decoded, for an instruction whose format has the layout. -/
theorem decoded_word {F V : Type} {instr : RiscvInstr F V} {format : CompressedFormat} {l : Layout}
    (hl : ofCompressed instr format = some l) (hb : l.immBits = 64) (he : l.Encodable o) :
    decodeCompressedInfo (l.word o) instr format = .ok (l.info o o.imm) := by
  obtain ⟨imm, himm, hdec⟩ := decodeCompressedInfo_word hl he
  rw [hb, BitVec.setWidth_eq, BitVec.setWidth_eq] at himm
  rw [hdec, himm]

/-- A compressed instruction does what its expansion does, and is two bytes
shorter. -/
theorem compressed_equals_expansion (c : RvcInstr) (o : Operands) (s : RVCPU P)
    (he : c.layout.Encodable o) (hd : c.distinct o) (hx0 : s.regFile 0 = 0)
    (hc : cEnabled s.csr) (hpc : s.pc.toNat + 4 < 2 ^ 64) :
    ∃ info, decodeCompressedInfo (c.layout.word o)
        (c.instr : RiscvInstr P.FloatOp P.VectorOp) c.format = .ok info ∧
      Shrunk s (c.jumps o s) c.links ((execute (c.expand o)).run s)
        ((execute ⟨c.instr, info⟩).run s) := by
  have hzero : ∀ v, s.regFile 0 + v = v := fun v => by rw [hx0]; exact BitVec.zero_add v
  cases c with
  | addi4spn => exact ⟨_, decoded_word rfl rfl he, .execute (.next rfl rfl)⟩
  | lw | ld | lwsp | ldsp => exact ⟨_, decoded_word rfl rfl he, .execute (.load rfl rfl)⟩
  | sw | sd | swsp | sdsp => exact ⟨_, decoded_word rfl rfl he, .execute (.store rfl rfl)⟩
  | nop => exact ⟨_, rfl, .execute (.next rfl rfl (.inl rfl))⟩
  | addi | addiw | lui | andi | sub | xor | or | and | subw | addw | add =>
    exact ⟨_, decoded_word rfl rfl he, .execute (.next rfl rfl)⟩
  | li | mv =>
    exact ⟨_, decoded_word rfl rfl he, .execute (.next rfl rfl (.inr (hzero _).symm))⟩
  | addi16sp =>
    have hinfo : RvcInstr.addi16sp.layout.info o o.imm = .CI SP o.imm := by rw [← hd.1]; rfl
    refine ⟨_, decoded_word rfl rfl he, .execute (.next rfl ?_)⟩
    rw [hinfo]
    rfl
  | srli =>
    have hl : ofCompressed (.C_SRLI : RiscvInstr P.FloatOp P.VectorOp) .CB = some .cbShift := rfl
    obtain ⟨imm, himm, hdec⟩ := decodeCompressedInfo_word hl he
    exact ⟨_, hdec, .execute (.next rfl rfl (.inr (exec_shift_congr (.inr (.inl rfl)) himm _)))⟩
  | srai =>
    have hl : ofCompressed (.C_SRAI : RiscvInstr P.FloatOp P.VectorOp) .CB = some .cbShift := rfl
    obtain ⟨imm, himm, hdec⟩ := decodeCompressedInfo_word hl he
    exact ⟨_, hdec, .execute (.next rfl rfl (.inr (exec_shift_congr (.inr (.inr rfl)) himm _)))⟩
  | slli =>
    have hl : ofCompressed (.C_SLLI : RiscvInstr P.FloatOp P.VectorOp) .CI = some .cshift := rfl
    obtain ⟨imm, himm, hdec⟩ := decodeCompressedInfo_word hl he
    exact ⟨_, hdec, .execute (.next rfl rfl (.inr (exec_shift_congr (.inl rfl) himm _)))⟩
  | j => exact ⟨_, decoded_word rfl rfl he, .execute (.jump false rfl rfl hc nofun)⟩
  | beqz => exact ⟨_, decoded_word rfl rfl he, .execute (.branch .equal hx0 hc)⟩
  | bnez => exact ⟨_, decoded_word rfl rfl he, .execute (.branch .notEqual hx0 hc)⟩
  | jr => exact ⟨_, decoded_word rfl rfl he, .execute (.jumpReg false o.rs2 hc hpc)⟩
  | jalr => exact ⟨_, decoded_word rfl rfl he, .execute (.jumpReg true o.rs2 hc hpc)⟩
  | ebreak => exact ⟨_, rfl, .execute (.raises .breakpoint s nofun)⟩

end Main

/-- `c.jalr x10`. -/
def jalrOperands : Operands := { (default : Operands) with rd := 10, rest := 0b101001 }

theorem compressed_equals_expansion_jalr :
    cEnabled (programCpu []).csr ∧ RvcInstr.jalr.layout.Encodable jalrOperands ∧
    RvcInstr.jalr.distinct jalrOperands ∧
    ∃ info, decodeCompressedInfo (RvcInstr.jalr.layout.word jalrOperands)
        (.C_JALR : RiscvInstr Empty Empty) .CR = .ok info ∧
      Shrunk (programCpu []) true true
        ((execute (P := .program) ⟨.JALR, .I 10 RA 0⟩).run (programCpu []))
        ((execute (P := .program) ⟨.C_JALR, info⟩).run (programCpu [])) :=
  have hc : cEnabled (programCpu []).csr := by decide +kernel
  have he : RvcInstr.jalr.layout.Encodable jalrOperands := ⟨⟨by decide, by decide⟩, by decide⟩
  have hd : RvcInstr.jalr.distinct jalrOperands := ⟨by decide, by decide⟩
  ⟨hc, he, hd, compressed_equals_expansion .jalr jalrOperands (programCpu []) he hd rfl hc (by decide)⟩

end HereEmu
