import HereEmu.Executor
import HereEmu.Proofs.MemEffect
import HereEmu.Proofs.TrapEntry

/-!
# The course of an instruction

Once its operands are read, a scalar instruction takes one of a few courses. It
moves on, with a result for a register; or it makes one request to data memory,
and moves on when that is answered; or it empties the caches, or returns from a
trap; or it comes to nothing. `course` is that course for every function of the
dispatch table outside the CSRs and the vector unit, and `run_exec_course` says
that the function does just that.
What holds of the courses then holds of the functions, and no function has to
be followed along its text a second time.
-/

namespace HereEmu

open Lib (Exec)
open RVCPU BitField BitVec

/-- A request to data memory. -/
inductive Request
  | load (w : Width) (addr : WordType)
  | loadReserved (w : Width) (addr : WordType)
  | store (w : Width) (addr data : WordType)
  | storeConditional (w : Width) (addr data : WordType)
  | amo (w : Width) (addr : WordType) (f : WordType → WordType)

/-- Where the answer to a request goes. -/
inductive Sink
  | none
  | reg (rd : RegIdx) (g : WordType → WordType)
  | float (f : FloatFmt) (rd : RegIdx)

inductive Course (P : Platform)
  | stuck (p : PanicSite) (benign : p.Benign)
  | illegal
  | breakpoint
  | ecall
  /-- The target is checked for its alignment if `check` says so. -/
  | move (check : Bool) (rd : RegIdx) (v target : WordType)
  | access (req : Request) (sink : Sink) (n : WordType)
  /-- Both caches are emptied. -/
  | fence
  | xret (machine : Bool)
  /-- The float unit and the registers as an operation leaves them. -/
  | compute (fpu : P.Fpu) (regFile : RegIdx → WordType)
  /-- With the float unit asked for first, and its flags saved at the end. -/
  | float (c : Course P)

section Run

variable {P : Platform}

def Request.addr : Request → WordType
  | load _ addr | loadReserved _ addr | store _ addr _ | storeConditional _ addr _ | amo _ addr _ => addr

def Request.send : Request → CpuM P WordType
  | load w addr => RVCPU.read w addr
  | loadReserved w addr => RVCPU.loadReserved w addr
  | store w addr data => do RVCPU.write w addr data; return 0
  | storeConditional w addr data => do
    return if ← RVCPU.storeConditional w addr data then 0 else 1
  | amo w addr f => RVCPU.fetchAndOpAmo w addr f

def Sink.put : Sink → WordType → CpuM P Unit
  | none, _ => return ()
  | reg rd g, v => writeReg rd (g v)
  | float f rd, v => modify fun cpu => { cpu with fpu := P.fpuStoreRaw f rd v cpu.fpu }

def checkTarget (check : Bool) (target : WordType) : CpuM P Unit :=
  if check then checkJumpAlignment target else return ()

def Course.run : Course P → CpuM P Unit
  | stuck p _ => Exec.panic p
  | illegal => throw .illegalInstruction
  | breakpoint => throw .breakpoint
  | ecall => execEcall
  | move check rd v target => do
    checkTarget check target
    writeReg rd v
    writePc target
    retire
  | access req sink n => do
    sink.put (← req.send)
    finish n
  | fence => execFenceI
  | xret machine => do
    let cpu ← get
    let (csr, pc) ← Exec.lift ((TrapTarget.of machine).xret cpu.csr)
    set { cpu with csr, pc }
    retire
  | compute fpu regFile => do
    modify fun cpu => { cpu with fpu, regFile }
    finish 4
  | float c => do
    requireFloat
    c.run
    saveFflags

end Run

def ExecFunc.isCsr {F V : Type} : ExecFunc F V → Bool
  | .csrw _ | .csrBit _ _ => true
  | _ => false

def ExecFunc.isVector {F V : Type} : ExecFunc F V → Bool
  | .vectorConfig _ | .vectorMem _ | .vector _ => true
  | _ => false

/-- The functions that have no course. -/
def ExecFunc.ownWay {F V : Type} (f : ExecFunc F V) : Bool := f.isCsr || f.isVector

section Table

variable {P : Platform}

/-- Operands of the wrong format. -/
def Course.wrong : Course P := stuck .instrInfo (by decide)

/-- A link, which may lie past the end of the address space. -/
def Course.link (a b : WordType) (k : WordType → Course P) : Course P :=
  if a.toNat + b.toNat < 2 ^ 64 then k (a + b) else stuck .overflow (by decide)

def Course.load (w : Width) (extend : Bool) (rd : RegIdx) (addr n : WordType) : Course P :=
  access (.load w addr) (.reg rd fun v => if extend then signExtend v w.bits else v) n

def Course.store (w : Width) (addr data n : WordType) : Course P :=
  access (.store w addr (w.truncate data)) .none n

def Course.loadFloat (f : FloatFmt) (rd : RegIdx) (addr n : WordType) : Course P :=
  float (access (.load f.width addr) (.float f rd) n)

/-- Below S, and in S when the trap bit for the instruction is set, it is illegal. -/
def Course.supervised (csr : CsrRegFile) (trapBit : BitField) (c : Course P) : Course P :=
  if csr.cpl < .S ∨ csr.cpl = .S ∧ csr.get .mstatus trapBit = 1 then illegal else c

/-- What the function `f` does from the state `s`, if it has a course. -/
def course (s : RVCPU P) (f : ExecFunc P.FloatOp P.VectorOp) (info : RVInstrInfo) : Course P :=
  let x := s.regFile
  let next (rd : RegIdx) (v : WordType) : Course P := .move false rd v (s.pc + 4)
  let next2 (rd : RegIdx) (v : WordType) : Course P := .move false rd v (s.pc + 2)
  let raw (rs2 : RegIdx) : WordType := P.fpuLoadRaw s.fpu rs2
  match f with
  | .arith op => match info with
    | .R rs1 rs2 rd => next rd (op.exec (x rs1) (x rs2))
    | .I rs1 rd imm => next rd (op.exec (x rs1) imm)
    | _ => .wrong
  | .branch op => match info with
    | .B rs1 rs2 imm =>
      if op.exec (x rs1) (x rs2) then .move true 0 0 (s.pc + imm) else next 0 0
    | _ => .wrong
  | .load w extend => match info with
    | .I rs1 rd imm => .load w extend rd (x rs1 + imm) 4
    | _ => .wrong
  | .store w => match info with
    | .S rs1 rs2 imm => .store w (x rs1 + imm) (x rs2) 4
    | _ => .wrong
  | .jal => match info with
    | .J rd imm => .move true rd (s.pc + 4) (s.pc + imm)
    | _ => .wrong
  | .jalr => match info with
    | .I rs1 rd imm =>
      .link s.pc 4 fun link => .move true rd link ((x rs1 + imm) &&& ~~~1#64)
    | _ => .wrong
  | .auipc => match info with
    | .U rd imm => next rd (s.pc + imm)
    | _ => .wrong
  | .lui => match info with
    | .U rd imm => next rd imm
    | _ => .wrong
  | .ebreak => .breakpoint
  | .ecall => .ecall
  | .fenceI => .fence
  | .sfenceVma => .supervised s.csr Mstatus.tvm .fence
  | .mret => if s.csr.cpl ≠ .M then .illegal else .xret true
  | .sret => .supervised s.csr Mstatus.tsr (.xret false)
  | .float op =>
    .float (match P.floatExec op info x (s.csr.value .fcsr) s.fpu with
      | none => .wrong
      | some (fpu, regFile) => .compute fpu regFile)
  | .illegal => .illegal
  | .nop => next 0 0
  | .floatLoad f => match info with
    | .I rs1 rd imm => .loadFloat f rd (x rs1 + imm) 4
    | _ => .float .wrong
  | .floatStore f => match info with
    | .S rs1 rs2 imm => .float (.store f.width (x rs1 + imm) (raw rs2) 4)
    | _ => .float .wrong
  | .amo op w => match info with
    | .A rs1 rs2 rd _ _ =>
      .access (.amo w (x rs1) (amoUpdate op w (x rs2))) (.reg rd (signExtend · w.bits)) 4
    | _ => .wrong
  | .lr w extend => match info with
    | .A rs1 _ rd _ _ =>
      .access (.loadReserved w (x rs1)) (.reg rd fun v => if extend then signExtend v w.bits else v) 4
    | _ => .wrong
  | .sc w => match info with
    | .A rs1 rs2 rd _ _ =>
      .access (.storeConditional w (x rs1) (w.truncate (x rs2))) (.reg rd id) 4
    | _ => .wrong
  | .compressArith op => match info with
    | .CR rd rs2 | .CA rd rs2 => next2 rd (op.exec (x rd) (x rs2))
    | .CI rd imm | .CB rd imm => next2 rd (op.exec (x rd) imm)
    | _ => .wrong
  | .addi4spn => match info with
    | .CIW rd imm => next2 rd (x SP + imm)
    | _ => .wrong
  | .compressMv => match info with
    | .CR rd rs2 => next2 rd (x rs2)
    | _ => .wrong
  | .compressLi => match info with
    | .CI rd imm => next2 rd imm
    | _ => .wrong
  | .compressNop => next2 0 0
  | .compressLoad w extend => match info with
    | .CL rd rs1 imm => .load w extend rd (x rs1 + imm) 2
    | _ => .wrong
  | .compressLoadSp w extend => match info with
    | .CI rd imm => .load w extend rd (x SP + imm) 2
    | _ => .wrong
  | .compressStore w => match info with
    | .CS rs1 rs2 imm => .store w (x rs1 + imm) (x rs2) 2
    | _ => .wrong
  | .compressStoreSp w => match info with
    | .CSS rs2 imm => .store w (x SP + imm) (x rs2) 2
    | _ => .wrong
  | .compressFloatLoad f => match info with
    | .CL rd rs1 imm => .loadFloat f rd (x rs1 + imm) 2
    | _ => .float .wrong
  | .compressFloatLoadSp f => match info with
    | .CI rd imm => .loadFloat f rd (x SP + imm) 2
    | _ => .float .wrong
  | .compressFloatStore f => match info with
    | .CS rs1 rs2 imm => .store f.width (x rs1 + imm) (raw rs2) 2
    | _ => .wrong
  | .compressFloatStoreSp f => match info with
    | .CSS rs2 imm => .store f.width (x SP + imm) (raw rs2) 2
    | _ => .wrong
  | .compressBranch op => match info with
    | .CB rs1 imm => if op.exec (x rs1) 0 then .move false 0 0 (s.pc + imm) else next2 0 0
    | _ => .wrong
  | .compressJump link => match info with
    | .CJ target => .move false (if link then RA else 0) (s.pc + 2) (s.pc + target)
    | _ => .wrong
  | .compressJumpReg link => match info with
    | .CR rs1 _ =>
      .link s.pc 2 fun t => .move false (if link then RA else 0) t (x rs1 &&& ~~~1#64)
    | _ => .wrong
  | _ => .wrong

end Table

/-! ## Ending an instruction -/

section Ends

variable {P : Platform}

theorem le_wholeField_ones (v : WordType) : v ≤ wholeField.ones := by
  show v.toNat ≤ wholeField.ones.toNat
  have h : wholeField.ones.toNat = 2 ^ 64 - 1 := rfl
  omega

/-- The flags of the float unit fit their field. -/
theorem fflags_le_ones (fpu : P.Fpu) : (P.fpuLastStatus fpu).setWidth 64 ≤ (BitField.mk 0 5).ones := by
  show ((P.fpuLastStatus fpu).setWidth 64).toNat ≤ (BitField.mk 0 5).ones.toNat
  have h : (BitField.mk 0 5).ones.toNat = 31 := rfl
  rw [h, toNat_setWidth]
  omega

theorem wholeField_get (v : WordType) : wholeField.get v = v := by
  refine eq_of_getLsbD_eq fun i hi => ?_
  rw [getLsbD_get (by decide)]
  simp [wholeField, hi]

theorem wholeField_put (v val : WordType) : wholeField.put v val = val := by
  refine eq_of_getLsbD_eq fun i hi => ?_
  rw [getLsbD_put (by decide), if_pos (by simpa [wholeField] using hi)]
  rfl

/-- Counting an instruction adds one to `minstret` and does nothing else. There
is no next count after the last. -/
theorem run_retire (s : RVCPU P) : retire.run s =
    if s.csr.value .minstret = allOnes 64 then .error .overflow
    else .ok (.ok (), { s with csr := s.csr.setValue .minstret (s.csr.value .minstret + 1) }) := by
  have hkeep : Csr.minstret.base.Keeps wholeField :=
    Csr.Keeps.of_mask (by decide) (by decide) (by decide +kernel)
  have hset := CsrRegFile.set_of_keeps (c := s.csr) hkeep (le_wholeField_ones (s.csr.value .minstret + 1))
  rw [wholeField_put] at hset
  have hget : s.csr.get .minstret wholeField = s.csr.value .minstret := wholeField_get _
  have hlast : (s.csr.value .minstret).toNat + (1 : WordType).toNat < 2 ^ 64 ↔
      s.csr.value .minstret ≠ allOnes 64 := by
    have h1 : (1 : WordType).toNat = 1 := rfl
    rw [ne_eq, ← toNat_inj, toNat_allOnes, h1]
    omega
  unfold retire
  rw [Exec.run_bind_ok (Exec.run_get s), hget]
  unfold checkedAdd
  by_cases h : s.csr.value .minstret = allOnes 64
  · rw [if_pos h, if_neg fun hlt => hlast.1 hlt h]
    rfl
  · rw [if_neg h, if_pos (hlast.2 h), Exec.run_bind_ok (Exec.run_lift_ok _ s), hset]
    rfl

/-- The flags of the float unit go to `fcsr`, and nothing else changes. -/
theorem run_saveFflags (s : RVCPU P) : saveFflags.run s = .ok (.ok (), { s with
    csr := s.csr.setValue .fcsr ((BitField.mk 0 5).put (s.csr.value .fcsr)
      ((P.fpuLastStatus s.fpu).setWidth 64)) }) := by
  have hset := CsrRegFile.set_of_keeps (c := s.csr) (r := .fcsr) (f := ⟨0, 5⟩)
    (Csr.Keeps.of_mask (by decide) (by decide) (by decide +kernel)) (fflags_le_ones s.fpu)
  unfold saveFflags
  rw [Exec.run_bind_ok (Exec.run_get s), hset]
  rfl

end Ends

/-! ## The functions take their courses -/

section Exec

variable {P : Platform} {α : Type} {s : RVCPU P}

theorem run_get_bind {f : RVCPU P → CpuM P α} : (get >>= f).run s = (f s).run s :=
  Exec.run_bind_ok (Exec.run_get s)

theorem run_readReg_bind {r : RegIdx} {f : WordType → CpuM P α} :
    (readReg r >>= f).run s = (f (s.regFile r)).run s := Exec.run_bind_ok rfl

variable {f : Unit → CpuM P α}

theorem run_modify_bind {g : RVCPU P → RVCPU P} :
    (modify g >>= f).run s = (f ()).run (g s) := Exec.run_bind_ok rfl

theorem run_writeReg_eq (rd : RegIdx) (v : WordType) : (writeReg rd v).run s = .ok (.ok (), { s with
    regFile := if rd = 0 then s.regFile else Function.update s.regFile rd v }) := by
  unfold writeReg
  split <;> rfl

theorem run_writeReg_bind {rd : RegIdx} {v : WordType} : (writeReg rd v >>= f).run s =
    (f ()).run { s with regFile := if rd = 0 then s.regFile else Function.update s.regFile rd v } :=
  Exec.run_bind_ok (run_writeReg_eq rd v)

theorem run_link {a b : WordType} {f : WordType → CpuM P Unit} {k : WordType → Course P}
    (h : ∀ v, (f v).run s = (k v).run.run s) :
    (Exec.lift (checkedAdd a b) >>= f).run s = (Course.link a b k).run.run s := by
  unfold checkedAdd Course.link
  split
  · exact h _
  · rfl

theorem run_checkJumpAlignment_bind {target : WordType} : (checkJumpAlignment target >>= f).run s =
      if !cEnabled s.csr && target &&& 3 != 0 then
        .ok (.error .instructionMisaligned, { s with pendingTval := some target })
      else (f ()).run s := by
  unfold checkJumpAlignment
  rw [bind_assoc, run_get_bind]
  split <;> rfl

theorem run_requireFloat_bind : (requireFloat >>= f).run s =
    if s.csr.get .mstatus Mstatus.fs = 0 then .ok (.error .illegalInstruction, s)
    else (f ()).run s := by
  unfold requireFloat
  rw [bind_assoc, run_get_bind]
  split <;> rfl

theorem run_supervised {trapBit : BitField} {c : Course P} {m : CpuM P Unit}
    (h : m.run s = c.run.run s) : (requireSupervisor trapBit >>= fun _ => m).run s =
      (Course.supervised s.csr trapBit c).run.run s := by
  unfold requireSupervisor Course.supervised
  rw [bind_assoc, run_get_bind]
  dsimp only
  split
  · rfl
  · exact h

theorem run_writeReg_finish (rd : RegIdx) (v n : WordType) :
    (do writeReg rd v; finish n).run s =
      (Course.move false rd v (s.pc + n)).run.run s := by
  simp only [Course.run, checkTarget, finish, writePc, advancePc, Bool.false_eq_true, if_false,
    pure_bind, run_writeReg_bind, run_modify_bind]

theorem run_finish {n : WordType} : (finish n).run s =
    (Course.move false 0 0 (s.pc + n)).run.run s := run_writeReg_finish 0 0 n

/-- Every function that has a course takes it. -/
theorem run_exec_course {f : ExecFunc P.FloatOp P.VectorOp} (hf : f.ownWay = false)
    (info : RVInstrInfo) (s : RVCPU P) : (exec f info).run s = (course s f info).run.run s := by
  cases f with
  | ebreak | illegal | ecall | fenceI => rfl
  | sfenceVma | sret => exact run_supervised rfl
  | mret =>
    simp only [exec, execMret, course, run_get_bind]
    split <;> rfl
  | float op =>
    simp only [exec, execFloat, normalFloatExec, normalExec, course, Course.run,
      run_requireFloat_bind, bind_assoc, run_get_bind]
    cases P.floatExec op info s.regFile (s.csr.value .fcsr) s.fpu with
    | none => rfl
    | some out =>
      rfl
  | nop | compressNop =>
    simp only [exec, normalExec, normalCompressExec, course, pure_bind, run_finish]
  | arith op =>
    cases info with
    | R _ _ _ | I _ _ _ =>
      simp only [exec, execArith, normalExec, course, bind_assoc, run_readReg_bind,
        run_writeReg_finish]
    | _ => rfl
  | compressArith op =>
    cases info with
    | CR _ _ | CA _ _ | CI _ _ | CB _ _ =>
      simp only [exec, execCompressArith, normalCompressExec, course, bind_assoc,
        run_readReg_bind, run_writeReg_finish]
    | _ => rfl
  | auipc | lui =>
    cases info with
    | U _ _ => simp only [exec, execAuipc, execLui, course, run_get_bind, run_writeReg_finish]
    | _ => rfl
  | addi4spn =>
    cases info with
    | CIW _ _ =>
      simp only [exec, execAddi4spn, normalCompressExec, course, bind_assoc, run_readReg_bind,
        run_writeReg_finish]
    | _ => rfl
  | compressMv =>
    cases info with
    | CR _ _ =>
      simp only [exec, execCompressMv, normalCompressExec, course, bind_assoc, run_readReg_bind,
        run_writeReg_finish]
    | _ => rfl
  | compressLi =>
    cases info with
    | CI _ _ => simp only [exec, execCompressLi, normalCompressExec, course, run_writeReg_finish]
    | _ => rfl
  | branch op =>
    cases info with
    | B _ _ _ =>
      simp only [exec, execBranch, course, run_readReg_bind]
      split
      · simp only [Course.run, checkTarget, writePc, run_get_bind, run_modify_bind,
          run_writeReg_bind, run_checkJumpAlignment_bind, if_true]
      · rw [run_finish]
    | _ => rfl
  | compressBranch op =>
    cases info with
    | CB _ _ =>
      simp only [exec, execCompressBranch, course, run_readReg_bind]
      split
      · rw [← finish, run_finish]
      · rw [run_finish]
    | _ => rfl
  | jal =>
    cases info with
    | J _ _ => simp only [exec, execJal, course, Course.run, checkTarget, run_get_bind, if_true]
    | _ => rfl
  | jalr =>
    cases info with
    | I _ _ _ =>
      simp only [exec, execJalr, course, run_get_bind]
      refine run_link fun v => ?_
      simp only [Course.run, checkTarget, writePc, run_readReg_bind, run_modify_bind,
        run_writeReg_bind, run_checkJumpAlignment_bind, if_true]
    | _ => rfl
  | compressJump link =>
    cases info with
    | CJ target =>
      cases link <;> simp [exec, execCompressJump, course, Course.run, checkTarget, writePc,
        run_get_bind, run_modify_bind, run_writeReg_bind]
    | _ => rfl
  | compressJumpReg link =>
    cases info with
    | CR rs1 rs2 =>
      simp only [exec, execCompressJumpReg, course, run_get_bind]
      refine run_link fun v => ?_
      cases link <;> simp [Course.run, checkTarget, writePc, run_readReg_bind, run_modify_bind,
        run_writeReg_bind]
    | _ => rfl
  | load _ _ | floatLoad _ =>
    cases info with
    | I _ _ _ =>
      simp only [exec, execLoad, execFloatLoad, normalExec, normalFloatExec, handleLoad,
        handleFloatLoad, course, Course.load, Course.loadFloat, Course.run, Request.send,
        Sink.put, bind_assoc, run_readReg_bind, run_requireFloat_bind]
    | _ => rfl
  | compressLoad _ _ | compressFloatLoad _ =>
    cases info with
    | CL _ _ _ =>
      simp only [exec, execCompressLoad, execCompressFloatLoad, normalCompressExec,
        normalCompressFloatExec, handleLoad, handleFloatLoad, course, Course.load,
        Course.loadFloat, Course.run, Request.send, Sink.put, bind_assoc, run_readReg_bind,
        run_requireFloat_bind]
    | _ => rfl
  | compressLoadSp _ _ | compressFloatLoadSp _ =>
    cases info with
    | CI _ _ =>
      simp only [exec, execCompressLoadSp, execCompressFloatLoadSp, normalCompressExec,
        normalCompressFloatExec, handleLoad, handleFloatLoad, course, Course.load,
        Course.loadFloat, Course.run, Request.send, Sink.put, bind_assoc, run_readReg_bind,
        run_requireFloat_bind]
    | _ => rfl
  | store _ | floatStore _ =>
    cases info with
    | S _ _ _ =>
      simp only [exec, execStore, execFloatStore, normalExec, normalFloatExec, handleStore,
        handleFloatStore, course, Course.store, Course.run, Request.send, Sink.put, bind_assoc,
        pure_bind, run_get_bind, run_readReg_bind, run_requireFloat_bind]
    | _ => rfl
  | compressStore _ | compressFloatStore _ =>
    cases info with
    | CS _ _ _ =>
      simp only [exec, execCompressStore, execCompressFloatStore, normalCompressExec, handleStore,
        handleFloatStore, course, Course.store, Course.run, Request.send, Sink.put, bind_assoc,
        pure_bind, run_get_bind, run_readReg_bind]
    | _ => rfl
  | compressStoreSp _ | compressFloatStoreSp _ =>
    cases info with
    | CSS _ _ =>
      simp only [exec, execCompressStoreSp, execCompressFloatStoreSp, normalCompressExec,
        handleStore, handleFloatStore, course, Course.store, Course.run, Request.send, Sink.put,
        bind_assoc, pure_bind, run_get_bind, run_readReg_bind]
    | _ => rfl
  | amo _ _ | lr _ _ | sc _ =>
    cases info with
    | A _ _ _ _ _ =>
      simp only [exec, execAtomicMemoryOperation, execLr, execSc, course, Course.run,
        Request.send, Sink.put, bind_assoc, pure_bind, run_readReg_bind, id_eq]
    | _ => rfl
  | csrw _ | csrBit _ _ | vectorConfig _ | vectorMem _ | vector _ => cases hf

end Exec

end HereEmu
