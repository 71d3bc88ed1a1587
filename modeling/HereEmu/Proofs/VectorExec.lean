import HereEmu.Proofs.Course
import HereEmu.Proofs.VectorRecord

/-!
# The course of a vector instruction

`normal_vector_exec` asks for `mstatus.VS` first and then runs the body of the
instruction. Only a body that succeeds is followed by anything: the step to the
next instruction, the count in `minstret`, which panics at its last value, and
a zero in `vstart`.

A body reads the integer registers, the vector unit, memory and the vector
CSRs, and changes nothing else. `vectorEnd` says what it leaves there, and
`run_exec_vector` that the instruction does just that.
-/

namespace HereEmu

open Lib (Exec)
open Lib.Exec (Spec Outcome run_bind_ok run_bind_panic)
open RVCPU CsrRegFile

variable {P : Platform} {s s₁ : RVCPU P}

/-- The state after a vector instruction whose body ended in `s`. -/
def RVCPU.vectorRetired (s : RVCPU P) : RVCPU P :=
  { s with
    pc := s.pc + 4
    csr := (s.csr.setValue .minstret (s.csr.value .minstret + 1)).setValue .vstart 0 }

/-- What follows a body that succeeded. -/
def RVCPU.retireVector (s : RVCPU P) : Rust (Except Exception Unit × RVCPU P) :=
  if s.csr.value .minstret = BitVec.allOnes 64 then .error .overflow
  else .ok (.ok (), s.vectorRetired)

/-! ## What a body leaves -/

/-- The registers a body sets. -/
def vectorCsrs : List Csr := [.vstart, .vl, .vtype, .vcsr]

structure VectorEnd (P : Platform) where
  result : Except Exception Unit
  regFile : RegIdx → WordType
  vector : Vector
  mmio : MemoryMapIo P.bus
  csrs : List (Csr × WordType)
  own : csrs.all (·.1 ∈ vectorCsrs) := by rfl

/-- The state such a body that started in `s` has ended in. -/
def VectorEnd.state (e : VectorEnd P) (s : RVCPU P) : RVCPU P :=
  { s with
    regFile := e.regFile
    vector := e.vector
    memory := { s.memory with mmio := e.mmio }
    csr := e.csrs.foldl (fun c w => c.setValue w.1 w.2) s.csr }

def VectorEnd.finish (e : VectorEnd P) (s : RVCPU P) : Rust (Except Exception Unit × RVCPU P) :=
  match e.result with
  | .ok () => (e.state s).retireVector
  | .error x => .ok (.error x, e.state s)

/-- The debug assertion on the operands of a configuration, `vtype` and the
requested length. -/
def configOperands (x : RegIdx → WordType) (imm : WordType) (rs1 rs2 : RegIdx) :
    VectorConfigOp → Bool × WordType × WordType
  | .vsetivli => (imm &&& 0xC00 == 0xC00, imm &&& ~~~0xC00#64, rs1.setWidth 64)
  | .vsetvli => (imm &&& 0x800 == 0, imm &&& ~~~0x800#64, x rs1)
  | .vsetvl => (imm &&& 0xFE0 == 0x800, x rs2, x rs1)

/-- What a configuration leaves. A setting that is refused is kept with its top bit. -/
def configEnd (s : RVCPU P) (op : VectorConfigOp) (imm : WordType) (rs1 rs2 rd : RegIdx) :
    Rust (VectorEnd P) :=
  let set (v : WordType) := if rd = 0 then s.regFile else Function.update s.regFile rd v
  match configOperands s.regFile imm rs1 rs2 op with
  | (false, _) => .error .instrInfo
  | (true, vtype, len) =>
    match Vtype.config vtype len with
    | some config =>
      let vl := BitVec.ofNat 64 config.vl
      .ok ⟨.ok (), set vl, { s.vector with config }, s.memory.mmio,
        [(.vtype, vtype), (.vl, vl)], rfl⟩
    | none =>
      .ok ⟨.error .illegalInstruction, set 0, s.vector, s.memory.mmio,
        [(.vtype, vtype ||| (1#64 <<< 63))], rfl⟩

/-- The result of a load or store, and the index it leaves in `vstart`. -/
def transferEnd : Except VectorMemException Unit → Except Exception Unit × Option Nat
  | .ok () => (.ok (), none)
  | .error (.memory index e) => (.error e, some index)
  | .error (.other e) => (.error e, none)

/-- What the body of the vector instruction `f` leaves. -/
def vectorEnd (s : RVCPU P) (f : ExecFunc P.FloatOp P.VectorOp) (info : RVInstrInfo) :
    Rust (VectorEnd P) :=
  let vstart := (s.csr.value .vstart).toNat
  let io := s.memory.mmio
  match f, info with
  | .vectorConfig op, .V rs1 rs2 rd vm func6 =>
    configEnd s op ((func6.setWidth 64 <<< 6) ||| (if vm then 0x20 else 0) ||| rs2.setWidth 64)
      rs1 rs2 rd
  | .vectorMem op, .V rs1 rs2 rd vm func6 =>
    if vectorMemInfoOk op rs2 vm func6 then do
      let (r, t) ← (vectorMemAccess (physMem P.bus)
        (vectorMemFields s.regFile rs1 rs2 rd vm func6 vstart) op).run ⟨s.vector, io⟩
      let (result, index) := transferEnd r
      return ⟨result, s.regFile, t.vector, t.mem,
        index.toList.map fun i => (.vstart, .ofNat 64 i), by cases index <;> rfl⟩
    else .error .instrInfo
  | .vector op, info =>
    match P.vectorExec op info vstart s.regFile (s.csr.value .vcsr) s.vector with
    | none => .error .unimplemented
    | some (done, regFile, vcsr, vector) =>
      .ok ⟨if done then .ok () else .error .illegalInstruction, regFile, vector, io,
        [(.vcsr, vcsr)], rfl⟩
  | _, _ => .error .instrInfo

/-! ## The functions do that -/

section Run

variable {f : Nat → CpuM P Unit}

theorem run_normalVectorExec (out : Rust (VectorEnd P))
    (hbody : (f (s.csr.value .vstart).toNat).run s = out.map fun e => (e.result, e.state s)) :
    (normalVectorExec f).run s =
      if s.csr.get .mstatus Mstatus.vs = 0 then .ok (.error .illegalInstruction, s)
      else out >>= fun e => e.finish s := by
  rw [normalVectorExec, run_bind_ok (Exec.run_get s)]
  by_cases hoff : s.csr.get .mstatus Mstatus.vs = 0
  · simp only [if_pos hoff]
    rfl
  simp only [if_neg hoff]
  have hnormal : (normalExec (f (s.csr.value .vstart).toNat)).run s = _ := Exec.run_bind ..
  rw [hbody] at hnormal
  cases out with
  | error p => exact run_bind_panic hnormal
  | ok e =>
    rw [Except.map] at hnormal
    change _ = e.finish s
    unfold VectorEnd.finish
    cases hresult : e.result with
    | error x =>
      rw [hresult] at hnormal
      exact Exec.run_bind_error hnormal
    | ok _ =>
      rw [hresult] at hnormal
      change _ = retire.run { e.state s with pc := (e.state s).pc + 4 } at hnormal
      unfold retireVector
      by_cases hcount : (e.state s).csr.value .minstret = BitVec.allOnes 64
      · rw [run_retire, if_pos (show _ = _ from hcount)] at hnormal
        rw [run_bind_panic hnormal, if_pos hcount]
      · rw [run_retire, if_neg (show ¬_ = _ from hcount)] at hnormal
        rw [run_bind_ok hnormal, if_neg hcount]
        rfl

theorem run_vectorConfigField (op : VectorConfigOp) (imm : WordType) (rs1 rs2 : RegIdx) :
    (vectorConfigField op imm rs1 rs2).run s = match configOperands s.regFile imm rs1 rs2 op with
      | (true, operands) => .ok (.ok operands, s)
      | (false, _) => .error .instrInfo := by
  have hassert : ∀ (b : Bool) (operands : WordType × WordType) (m : CpuM P (WordType × WordType)),
      m.run s = .ok (.ok operands, s) → (assertInfo b >>= fun _ => m).run s =
        match (b, operands) with
        | (true, operands) => .ok (.ok operands, s)
        | (false, _) => .error .instrInfo := by
    rintro (_ | _) operands m hm
    · rfl
    · exact hm
  cases op <;> exact hassert _ _ _ rfl

/-- Every vector instruction takes its course. -/
theorem run_exec_vector {f : ExecFunc P.FloatOp P.VectorOp} (hf : f.isVector)
    (info : RVInstrInfo) (s : RVCPU P) : (exec f info).run s =
      if s.csr.get .mstatus Mstatus.vs = 0 then .ok (.error .illegalInstruction, s)
      else vectorEnd s f info >>= fun e => e.finish s := by
  cases f with
  | vectorConfig op =>
    show (execVectorConfig op info).run s = _
    refine run_normalVectorExec _ ?_
    cases info with
    | V rs1 rs2 rd vm func6 =>
      unfold vectorEnd configEnd
      dsimp only
      rcases hoperands : configOperands _ _ _ _ _ with ⟨_ | _, vtype, len⟩
      · exact run_bind_panic (by rw [run_vectorConfigField, hoperands])
      · rw [run_bind_ok (a := (vtype, len)) (by rw [run_vectorConfigField, hoperands])]
        dsimp only
        cases Vtype.config vtype len with
        | some config =>
          rw [run_modify_bind, run_writeReg_eq]
          rfl
        | none =>
          rw [run_modify_bind, run_writeReg_bind]
          rfl
    | _ => rfl
  | vectorMem op =>
    show (execVectorMem op info).run s = _
    refine run_normalVectorExec _ ?_
    cases info with
    | V rs1 rs2 rd vm func6 =>
      unfold vectorEnd
      dsimp only
      cases vectorMemInfoOk op rs2 vm func6 with
      | false => rfl
      | true =>
        show ((vectorMemAccess _ _ op).run ⟨s.vector, s.memory.mmio⟩ >>= _) = Except.map _ (_ >>= _)
        rcases (vectorMemAccess _ _ op).run ⟨s.vector, s.memory.mmio⟩ with
          p | ⟨(_ | _) | _, t⟩ <;> rfl
    | _ => rfl
  | vector op =>
    show (execVector op info).run s = _
    refine run_normalVectorExec _ ?_
    unfold vectorEnd
    dsimp only
    rw [run_get_bind]
    rcases P.vectorExec _ _ _ _ _ _ with _ | ⟨_ | _, regFile, vcsr, vector⟩ <;> rfl
  | _ => cases hf

end Run

/-! ## What can be said of the end -/

section Ends

variable {f : ExecFunc P.FloatOp P.VectorOp} {info : RVInstrInfo} {e : VectorEnd P}

/-- Only a load or store changes memory, and ends in another exception. -/
theorem vectorEnd_cases (h : vectorEnd s f info = .ok e) :
    (e.mmio = s.memory.mmio ∧ (e.result = .ok () ∨ e.result = .error .illegalInstruction)) ∨
      ∃ op fields r t, f = .vectorMem op ∧ (vectorMemAccess (physMem P.bus) fields op).run
          ⟨s.vector, s.memory.mmio⟩ = .ok (r, t) ∧
        e.mmio = t.mem ∧ e.result = (transferEnd r).1 := by
  unfold vectorEnd at h
  dsimp only at h
  split at h
  · unfold configEnd at h
    dsimp only at h
    split at h
    · cases h
    · split at h <;> cases h <;> exact .inl ⟨rfl, by simp⟩
  · split at h
    · obtain ⟨⟨r, t⟩, hrun, h⟩ := Lib.exists_of_bind_ok h
      cases h
      exact .inr ⟨_, _, r, t, rfl, hrun, rfl, rfl⟩
    · cases h
  · split at h
    · cases h
    · next done _ _ _ _ => cases h; cases done <;> exact .inl ⟨rfl, by simp⟩
  · cases h

theorem vectorEnd_panic {p : PanicSite} (h : vectorEnd s f info = .error p) : p.Benign := by
  unfold vectorEnd at h
  dsimp only at h
  split at h
  · unfold configEnd at h
    dsimp only at h
    split at h
    · cases h
      decide
    · split at h <;> cases h
  · split at h
    · next op rs1 rs2 rd vm func6 _ =>
        cases hrun : (vectorMemAccess (physMem P.bus) _ op).run ⟨s.vector, s.memory.mmio⟩ with
        | ok out => rw [hrun] at h; cases h
        | error p' =>
          rw [hrun] at h
          cases h
          exact (Tracks.access _ op ⟨s.vector, s.memory.mmio⟩ ⟨s.vector, ⟨s.memory.mmio, []⟩⟩
            ⟨rfl, rfl, rfl⟩).elim_panic hrun
    · cases h
      decide
  · split at h <;> cases h
    decide
  · cases h
    decide

/-- What holds of every state the instruction can end in. -/
theorem exec_vector_spec {S : PanicSite → Prop} {Q : Except Exception Unit → RVCPU P → Prop}
    (hf : f.isVector) (hS : ∀ p, PanicSite.Benign p → S p)
    (hoff : s.csr.get .mstatus Mstatus.vs = 0 → Q (.error .illegalInstruction) s)
    (hfail : ∀ e x, vectorEnd s f info = .ok e → e.result = .error x → Q (.error x) (e.state s))
    (hdone : ∀ e, vectorEnd s f info = .ok e → e.result = .ok () →
      Q (.ok ()) (e.state s).vectorRetired) : Spec S (exec f info) s Q := by
  show Outcome _ _ _
  rw [run_exec_vector hf]
  split
  · next h => exact hoff h
  cases hend : vectorEnd s f info with
  | error p => exact hS p (vectorEnd_panic hend)
  | ok e =>
    show Outcome _ _ (e.finish s)
    unfold VectorEnd.finish
    split
    · next hr =>
        unfold retireVector
        split
        · exact hS _ (by decide)
        · exact hdone e hend hr
    · next x hr => exact hfail e x hend hr

/-- Only the vector CSRs are set. -/
theorem VectorEnd.csr_ind {M : CsrRegFile → Prop} (h0 : M s.csr)
    (hset : ∀ c, M c → ∀ r ∈ vectorCsrs, ∀ v, M (c.setValue r v)) : M (e.state s).csr :=
  List.foldlRecOn (motive := M) e.csrs _ h0 fun c hc w hw =>
    hset c hc w.1 (of_decide_eq_true (List.all_eq_true.1 e.own w hw)) w.2

theorem VectorEnd.value_state {r : Csr} (hr : r ∉ vectorCsrs) :
    (e.state s).csr.value r = s.csr.value r := by
  refine VectorEnd.csr_ind (M := fun c => c.value r = s.csr.value r) rfl fun c hc r' hr' v => ?_
  refine (setValue_ne ?_).trans hc
  rintro rfl
  exact hr hr'

theorem VectorEnd.value_vectorRetired {r : Csr} (hr : r ∉ .minstret :: vectorCsrs) :
    (e.state s).vectorRetired.csr.value r = s.csr.value r := by
  rw [List.mem_cons, not_or] at hr
  have hvstart : r ≠ .vstart := by
    rintro rfl
    exact hr.2 (by decide)
  exact (setValue_ne hvstart).trans ((setValue_ne hr.1).trans (value_state hr.2))

end Ends

end HereEmu
