import HereEmu.Proofs.CsrInstr

/-!
# What most instructions leave alone

Apart from the float instructions, the functions of the dispatch table change
the registers, the program counter, the vector unit and a few CSRs, and for the
rest reach the state through a handful of operations: loads, stores, SC, AMO, the
vector unit's accesses, and flushing the TLB. A relation between states that
says nothing about the former and is kept to by the latter (`CpuRel`) is kept to
by all of these functions, whichever way they end.

For the CSR instructions it must be a relation that a CSR access keeps to as
well, for LR one that taking a reservation keeps to, and for the float
instructions one that the work of the float unit keeps to.
-/

namespace HereEmu

open Lib (Exec)
open Lib.Exec (Spec Along)
open RVCPU

/-- The registers of the float and the vector unit. -/
def unitCsrs : List Csr := [.fcsr, .vstart, .vl, .vtype, .vcsr]

/-- A relation about memory and the two units. -/
class FrameRel {P : Platform} (R : RVCPU P → RVCPU P → Prop) : Prop extends
    IsPreorder (RVCPU P) R where
  /-- Nothing else is part of the relation. -/
  plain : ∀ s s', s'.memory = s.memory → s'.fpu = s.fpu → s'.vector = s.vector →
    (∀ r ∈ unitCsrs, s'.csr.value r = s.csr.value r) → R s s'

/-- A relation about memory and the float unit. -/
class CpuRel {P : Platform} (R : RVCPU P → RVCPU P → Prop) : Prop extends FrameRel R where
  /-- The vector unit is not part of the relation. -/
  vector : ∀ s s', s'.memory = s.memory → s'.fpu = s.fpu → s'.csr.value .fcsr = s.csr.value .fcsr →
    R s s'
  flushTlb : ∀ s, R s s.flushTlb
  read : ∀ w a, Along R (RVCPU.read w a)
  write : ∀ w a data, Along R (RVCPU.write w a data)
  storeConditional : ∀ w a data, Along R (RVCPU.storeConditional w a data)
  fetchAndOpAmo : ∀ w a f, Along R (RVCPU.fetchAndOpAmo w a f)

/-! ## The parts of an instruction -/

section Parts

variable {P : Platform} {R : RVCPU P → RVCPU P → Prop} {ε α β : Type}

/-- However the computation ends, it has kept to `R`. -/
def Within (R : RVCPU P → RVCPU P → Prop) (m : Exec PanicSite ε (RVCPU P) α) : Prop := Along R m

theorem Within.wrongInfo : Within R (wrongInfo : CpuM P α) := .panic _

theorem Within.get_bind {f : RVCPU P → Exec PanicSite ε (RVCPU P) α} (hf : ∀ s, Within R (f s)) :
    Within R (get >>= f) := Along.get_bind hf

theorem Within.of_course {f : ExecFunc P.FloatOp P.VectorOp} (hway : f.ownWay = false)
    {info : RVInstrInfo} (h : ∀ s : RVCPU P, Within R ((HereEmu.course s f info).run)) :
    Within R (RVCPU.exec f info) := by
  intro s
  show Exec.Outcome _ _ _
  rw [run_exec_course hway]
  exact h s s

section Preorder

variable [IsPreorder (RVCPU P) R]

theorem Within.bind {m : Exec PanicSite ε (RVCPU P) α} {f : α → Exec PanicSite ε (RVCPU P) β}
    (hm : Within R m) (hf : ∀ a, Within R (f a)) : Within R (m >>= f) :=
  Along.bind hm hf

theorem Within.pure (a : α) : Within R (pure a : Exec PanicSite ε (RVCPU P) α) := Along.pure a

theorem Within.throw (e : ε) : Within R (throw e : Exec PanicSite ε (RVCPU P) α) := Along.throw e

end Preorder

section Frame

variable [FrameRel R]

/-- The rest of the machine is not part of the relation. -/
theorem Within.modify {g : RVCPU P → RVCPU P}
    (h : ∀ s, (g s).memory = s.memory ∧ (g s).fpu = s.fpu ∧ (g s).vector = s.vector ∧
      (g s).csr = s.csr) : Within R (modify g : Exec PanicSite ε (RVCPU P) PUnit) :=
  Along.modify fun s => FrameRel.plain s (g s) (h s).1 (h s).2.1 (h s).2.2.1
    fun _ _ => by rw [(h s).2.2.2]

theorem Within.writeReg (rd : RegIdx) (v : WordType) : Within R (writeReg rd v) := by
  unfold RVCPU.writeReg
  split
  · exact .pure ()
  · exact .modify fun _ => ⟨rfl, rfl, rfl, rfl⟩

theorem Within.writePc (pc : WordType) : Within R (writePc pc) :=
  .modify fun _ => ⟨rfl, rfl, rfl, rfl⟩

theorem Within.advancePc (n : WordType) : Within R (advancePc n) :=
  .modify fun _ => ⟨rfl, rfl, rfl, rfl⟩

theorem Within.retire : Within R retire := by
  intro s
  refine (retire_counts (fun _ => trivial) s).mono ?_
  rintro _ _ ⟨-, rfl⟩
  refine FrameRel.plain _ _ rfl rfl rfl fun r hr => CsrRegFile.setValue_ne ?_
  rintro rfl
  exact absurd hr (by decide)

theorem Within.finish (n : WordType) : Within R (finish n) :=
  (Within.advancePc n).bind fun _ => .retire

theorem Within.checkJumpAlignment (target : WordType) :
    Within R (checkJumpAlignment target) := by
  intro s
  refine Spec.get_bind ?_
  split
  · exact FrameRel.plain s _ rfl rfl rfl fun _ _ => rfl
  · exact refl s

end Frame

end Parts

/-! ## The functions of the dispatch table -/

section Csr

variable {P : Platform} {R : RVCPU P → RVCPU P → Prop} [FrameRel R]

-- What the accesses to the CSR file do depends on the relation.
variable (hread : ∀ addr, Within R (RVCPU.readCsr addr))
  (hwrite : ∀ addr data, Within R (RVCPU.writeCsr addr data))

include hread hwrite

theorem Within.execCsr {f : ExecFunc P.FloatOp P.VectorOp} (hf : f.isCsr)
    (info : RVInstrInfo) : Within R (RVCPU.exec f info : CpuM P Unit) := by
  refine fun s => csrPlan_spec hf fun p _ _ => ?_
  have hplan : Within R (p.run : CpuM P Unit) := by
    cases p with
    | wrong => exact .wrongInfo
    | skip => exact .advancePc 4
    | refused => exact .throw _
    | peek rd addr =>
      exact (hread addr).bind fun _ => (Within.writeReg rd _).bind fun _ => .advancePc 4
    | write rd old addr data =>
      refine (Within.writeReg rd old).bind fun _ => (hwrite addr data).bind fun _ =>
        Within.bind ?_ fun _ => .advancePc 4
      unfold RVCPU.retireCsr
      split
      · exact .pure ()
      · exact .retire
  exact hplan s

end Csr

/-! ### Courses -/

section Keeps

variable {P : Platform} (R : RVCPU P → RVCPU P → Prop)

def Request.Keeps : Request → Prop
  | loadReserved w a => Within R (RVCPU.loadReserved w a)
  | _ => True

def Sink.Keeps : Sink → Prop
  | float f rd => ∀ v, Within R (Sink.put (.float f rd) v)
  | _ => True

/-- What a course does with reservations and the float unit keeps to the relation. -/
def Course.Keeps : Course P → Prop
  | access req sink _ => req.Keeps R ∧ sink.Keeps R
  | compute fpu regFile => ∀ s, R s { s with fpu, regFile }
  | float c => Within R saveFflags ∧ c.Keeps
  | _ => True

end Keeps

section Functions

variable {P : Platform} {R : RVCPU P → RVCPU P → Prop} [CpuRel R]

theorem Within.send {req : Request} (hreq : req.Keeps R) :
    Within R req.send := by
  cases req with
  | load w a => exact CpuRel.read w a
  | loadReserved w a => exact hreq
  | store w a data => exact Within.bind (CpuRel.write w a data) fun _ => .pure _
  | storeConditional w a data =>
    exact Within.bind (CpuRel.storeConditional w a data) fun _ => .pure _
  | amo w a f => exact CpuRel.fetchAndOpAmo w a f

theorem FrameRel.flushIcache (s : RVCPU P) : R s s.flushIcache :=
  FrameRel.plain _ _ rfl rfl rfl fun _ _ => rfl

theorem Within.course {c : Course P} (hc : c.Keeps R) : Within R c.run := by
  induction c with
  | stuck p _ => exact .panic p
  | illegal | breakpoint => exact .throw _
  | ecall =>
    refine .get_bind fun s => ?_
    split
    · exact .throw _
    · exact .throw _
    · exact .throw _
    · exact .panic _
  | move check rd v target =>
    refine Within.bind ?_ fun _ => (Within.writeReg rd v).bind fun _ =>
      (Within.writePc target).bind fun _ => .retire
    cases check with
    | true => exact .checkJumpAlignment target
    | false => exact .pure ()
  | access req sink n =>
    refine (Within.send hc.1).bind fun v => Within.bind ?_ fun _ => .finish n
    cases sink with
    | none => exact .pure ()
    | reg rd g => exact .writeReg rd _
    | float f rd => exact hc.2 v
  | fence =>
    refine Within.bind (Along.modify fun s => ?_) fun _ => .finish 4
    exact trans_of R (FrameRel.flushIcache s) (CpuRel.flushTlb _)
  | xret machine =>
    intro s
    -- a trap return changes `mstatus` and the level
    obtain ⟨csr, hcsr, hret⟩ := xret_eq s.csr machine
    refine Spec.get_bind ?_
    rw [hret]
    refine Spec.bind (Spec.of_run (Exec.run_lift_ok _ s) (Spec.bind (Spec.set ?_)))
    refine (Within.retire { s with csr, pc := _ }).mono fun _ _ h => trans_of R ?_ h
    refine FrameRel.plain s _ rfl rfl rfl fun r hr => hcsr.frame r ?_
    rintro rfl
    exact absurd hr (by decide)
  | compute fpu regFile => exact Within.bind (Along.modify hc) fun _ => .finish 4
  | float c ih =>
    have hfs : Within R RVCPU.requireFloat := by
      refine .get_bind fun s => ?_
      split
      · exact .throw _
      · exact .pure ()
    exact hfs.bind fun _ => (ih hc.2).bind fun _ => hc.1

/-! ### Vector instructions -/

/-- Without a transfer, memory stays. -/
theorem Within.vector {f : ExecFunc P.FloatOp P.VectorOp} (hf : f.isVector)
    (hmem : ∀ op, f ≠ .vectorMem op) (info : RVInstrInfo) : Within R (exec f info) := by
  intro s
  have hsame : ∀ e, vectorEnd s f info = .ok e → (e.state s).memory = s.memory := by
    intro e hend
    rcases vectorEnd_cases hend with ⟨hmmio, -⟩ | ⟨op, _, _, _, hop, -⟩
    · show { s.memory with mmio := e.mmio } = s.memory
      rw [hmmio]
    · exact absurd hop (hmem op)
  refine exec_vector_spec hf (fun _ _ => trivial) (fun _ => refl s)
    (fun e x hend _ => ?_) fun e hend _ => ?_
  · exact CpuRel.vector s _ (hsame e hend) rfl (VectorEnd.value_state (by decide))
  · exact CpuRel.vector s _ (hsame e hend) rfl (VectorEnd.value_vectorRetired (by decide))

def ExecFunc.isLr {F V : Type} : ExecFunc F V → Bool
  | .lr _ _ => true
  | _ => false

/-- The float instructions. -/
def ExecFunc.isFloat {F V : Type} : ExecFunc F V → Bool
  | .floatLoad _ | .floatStore _ | .float _ | .compressFloatLoad _ | .compressFloatLoadSp _
  | .compressFloatStore _ | .compressFloatStoreSp _ => true
  | _ => false

section Dispatch

variable {f : ExecFunc P.FloatOp P.VectorOp}
  (hlr : f.isLr → ∀ w a, Within R (RVCPU.loadReserved w a))
  (hfloat : f.isFloat → Within R RVCPU.saveFflags ∧
    ∀ fmt rd v, Within R (Sink.put (.float fmt rd) v))
  (hcompute : (∃ op, f = .float op) → ∀ s fpu regFile, R s { s with fpu, regFile })

include hlr hfloat hcompute

omit [CpuRel R] in
theorem course_keeps (info : RVInstrInfo) (s : RVCPU P) : (course s f info).Keeps R := by
  cases f with
  | branch op | compressBranch op =>
    cases info <;> dsimp only [HereEmu.course] <;> first | exact trivial | (split <;> exact trivial)
  | jalr | compressJumpReg link =>
    cases info <;> dsimp only [HereEmu.course, Course.link] <;>
      first | exact trivial | (split <;> exact trivial)
  | mret | sret | sfenceVma =>
    dsimp only [HereEmu.course, Course.supervised]
    split <;> exact trivial
  | lr w extend => cases info <;> first | exact trivial | exact ⟨hlr rfl _ _, trivial⟩
  | floatLoad fmt | compressFloatLoad fmt | compressFloatLoadSp fmt | floatStore fmt =>
    obtain ⟨hsave, hput⟩ := hfloat rfl
    cases info <;> first
      | exact ⟨hsave, trivial⟩
      | exact ⟨hsave, trivial, trivial⟩
      | exact ⟨hsave, trivial, hput _ _⟩
  | float op =>
    refine ⟨(hfloat rfl).1, ?_⟩
    split
    · exact trivial
    · exact fun s => hcompute ⟨op, rfl⟩ s _ _
  | _ => cases info <;> first | exact trivial | exact ⟨trivial, trivial⟩

theorem Within.exec (hvec : ∀ op info, Within R (RVCPU.execVectorMem op info))
    (hcsr : f.isCsr = false) (info : RVInstrInfo) : Within R (RVCPU.exec f info) := by
  cases hv : f.isVector with
  | false =>
    have hway : f.ownWay = false := by
      rw [ExecFunc.ownWay, hcsr, hv]
      rfl
    exact .of_course hway fun s => .course (course_keeps hlr hfloat hcompute info s)
  | true =>
    cases f with
    | vectorConfig _ | vector _ => exact .vector rfl (fun _ h => by cases h) info
    | vectorMem op => exact hvec op info
    | _ => cases hv

end Dispatch

end Functions

end HereEmu
