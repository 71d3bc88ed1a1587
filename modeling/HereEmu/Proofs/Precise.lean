import HereEmu.Proofs.AdWrites
import HereEmu.Proofs.CsrEffect

/-!
# How a scalar instruction ends

Every function of the dispatch table outside the vector unit has one shape.
What can fail comes first, and nothing but memory has been touched until it
has passed (`Precise`); what comes after cannot fail (`Certain`). So an
instruction that raises an exception has left the registers, the CSRs and the
program counter alone, and one that does not has gone where `nextPc` says.
-/

namespace HereEmu

open Lib (Exec)
open Lib.Exec (Spec)
open RVCPU

/-- The exceptions an access to data memory raises. -/
def dataExceptions : List Exception :=
  [.loadMisaligned, .loadFault, .loadPageFault, .storeMisaligned, .storeFault, .storePageFault]

section Judgements

variable {P : Platform} {α β : Type}

/-- The instruction raised `e`. Memory apart, it left the value for the trap
and nothing else, and `addr` is the one address of data it could raise it for. -/
structure Aborted (addr : Option WordType) (s : RVCPU P) (e : Exception) (s' : RVCPU P) : Prop where
  only : s' = { s with memory := s'.memory, pendingTval := s'.pendingTval }
  ram : P.bus.RefusesCleanly → AdWrites s.memory s'.memory
  illegal : e = .illegalInstruction → s'.pendingTval = s.pendingTval
  data : e ∈ dataExceptions → ∃ a, addr = some a ∧ s'.pendingTval = some a

def Precise (addr : Option WordType) (m : CpuM P α) (s : RVCPU P) (K : RVCPU P → Prop) : Prop :=
  Returns m s fun r s' =>
    match r with
    | .ok _ => K s'
    | .error e => Aborted addr s e s'

def Certain (m : CpuM P α) (s : RVCPU P) (K : RVCPU P → Prop) : Prop :=
  Returns m s fun r s' =>
    match r with
    | .ok _ => K s'
    | .error _ => False

variable {addr : Option WordType} {s : RVCPU P} {K K' : RVCPU P → Prop} {m : CpuM P α}
  {f : α → CpuM P β}

theorem Aborted.refl {e : Exception} (he : e ∉ dataExceptions) : Aborted addr s e s :=
  ⟨rfl, fun _ => .refl _, fun _ => rfl, fun h => absurd h he⟩

theorem Certain.mono (h : Certain m s K) (hK : ∀ s', K s' → K' s') : Certain m s K' :=
  Spec.mono h fun r s' hr => by
    cases r with
    | ok a => exact hK s' hr
    | error e => exact hr

theorem Certain.bind (h : Certain m s K) (hf : ∀ a s₁, K s₁ → Certain (f a) s₁ K') :
    Certain (m >>= f) s K' :=
  Spec.seq h (fun a s₁ h₁ => hf a s₁ h₁) fun _ _ h => h

/-- The end of an instruction that began in `s`. -/
theorem Certain.after {s₁ : RVCPU P} (h : Certain m s₁ K) : Returns m s₁ fun r s' =>
    match r with
    | .ok _ => K s'
    | .error e => Aborted addr s e s' :=
  Spec.mono h fun r s' hr => by
    cases r with
    | ok a => exact hr
    | error e => exact hr.elim

theorem Certain.precise (h : Certain m s K) : Precise addr m s K := h.after

theorem Precise.then_certain (h : Precise addr m s K)
    (hf : ∀ a s₁, K s₁ → Certain (f a) s₁ K') : Precise addr (m >>= f) s K' :=
  Spec.seq h (fun a s₁ h₁ => (hf a s₁ h₁).after) fun _ _ h => h

theorem Precise.mono (h : Precise addr m s K) (hK : ∀ s', K s' → K' s') : Precise addr m s K' :=
  Spec.mono h fun r s' hr => by
    cases r with
    | ok a => exact hK s' hr
    | error e => exact hr

theorem Precise.get_bind {f : RVCPU P → CpuM P β} (h : Precise addr (f s) s K) :
    Precise addr (get >>= f) s K := Spec.get_bind h

theorem Precise.wrongInfo : Precise addr (wrongInfo : CpuM P α) s K := trivial

theorem Precise.throw {e : Exception} (he : e ∉ dataExceptions) :
    Precise addr (throw e : CpuM P α) s K := Aborted.refl he

/-- A value that may be a panic. -/
theorem Precise.lift_bind {x : Rust α} (h : ∀ a, x = .ok a → Precise addr (f a) s K) :
    Precise addr (Exec.lift x >>= f) s K := by
  cases hx : x with
  | error p => exact Spec.bind trivial
  | ok a => exact Spec.bind (h a hx)

end Judgements

/-! ## What cannot fail -/

section Parts

variable {P : Platform} {s : RVCPU P}

theorem Certain.modify (g : RVCPU P → RVCPU P) : Certain (modify g : CpuM P Unit) s (· = g s) := rfl

theorem Certain.writeReg (rd : RegIdx) (v : WordType) :
    Certain (writeReg rd v : CpuM P Unit) s fun s' => s' = { s with regFile := s'.regFile } := by
  unfold RVCPU.writeReg
  split <;> exact rfl

theorem Certain.writePc (pc : WordType) : Certain (writePc pc : CpuM P Unit) s (·.pc = pc) := rfl

theorem Certain.advancePc (n : WordType) :
    Certain (advancePc n : CpuM P Unit) s (·.pc = s.pc + n) := rfl

theorem Certain.retire : Certain (retire : CpuM P Unit) s (·.pc = s.pc) := by
  show Exec.Outcome _ _ _
  rw [run_retire]
  split
  · trivial
  · exact rfl

theorem Certain.finish (n : WordType) : Certain (finish n : CpuM P Unit) s (·.pc = s.pc + n) :=
  (Certain.advancePc n).bind fun _ _ h => Certain.retire.mono fun _ h' => h'.trans h

theorem Certain.saveFflags : Certain (saveFflags : CpuM P Unit) s (·.pc = s.pc) :=
  Spec.of_run (run_saveFflags s) rfl

end Parts

/-! ## Accesses to data memory -/

section Accesses

variable {P : Platform} {α ε : Type} {s : RVCPU P} {a : WordType}

theorem Precise.finishMemoryAccess {toException : ε → Exception}
    {m : Exec PanicSite ε (VirtAddrManager P.bus) α}
    (hm : Returns m s.memory fun r m' => ∀ e, r = .error e →
      toException e ≠ .illegalInstruction ∧ (P.bus.RefusesCleanly → AdWrites s.memory m')) :
    Precise (some a) (finishMemoryAccess a toException m) s (·.pc = s.pc) := by
  refine finishMemoryAccess_spec hm (fun _ _ _ => rfl) fun e _ hq => ?_
  exact ⟨rfl, (hq e rfl).2, fun hi => absurd hi (hq e rfl).1, fun _ => ⟨a, rfl, rfl⟩⟩

/-- A data access: its policy, and then the access under it. -/
theorem Precise.dataAccess {access : AccessType} {toException : ε → Exception}
    {m : AccessPolicy → Exec PanicSite ε (VirtAddrManager P.bus) α}
    (hm : ∀ policy, Returns (m policy) s.memory fun r m' => ∀ e, r = .error e →
      toException e ≠ .illegalInstruction ∧ (P.bus.RefusesCleanly → AdWrites s.memory m')) :
    Precise (some a) (dataPolicy access >>= fun policy =>
      RVCPU.finishMemoryAccess a toException (m policy)) s (·.pc = s.pc) := by
  unfold dataPolicy
  rw [bind_assoc]
  exact .get_bind (.lift_bind fun policy _ => .finishMemoryAccess (hm policy))

/-- A request is refused with its address, or answered. -/
theorem Precise.send (req : Request) :
    Precise (some req.addr) (req.send : CpuM P WordType) s (·.pc = s.pc) := by
  have hpure : ∀ {β : Type} {m : CpuM P β} (g : β → WordType),
      Precise (some req.addr) m s (·.pc = s.pc) →
      Precise (some req.addr) (m >>= fun b => pure (g b)) s (·.pc = s.pc) :=
    fun g h => h.then_certain fun _ _ h₁ => h₁
  cases req with
  | load w a =>
    exact .dataAccess fun policy => (readWithPolicy_adWrites w a policy).mono fun _ _ h e _ =>
      ⟨(fromMemoryErr_known e).2, fun _ => h⟩
  | loadReserved w a =>
    exact .dataAccess fun policy =>
      (loadReservedWithPolicy_leaves (.refl _) (translateWithPolicy_adWrites a policy)).mono
        fun _ _ h e _ => ⟨(fromMemoryErr_known e).2, fun _ => .of_leaves trivial h⟩
  | store w a data =>
    exact hpure _ (.dataAccess fun policy =>
      (writeWithPolicy_leaves (fun _ _ => trivial) (translateWithPolicy_adWrites a policy)).mono
        fun _ _ h e he => ⟨(fromMemoryErr_known e).2, fun hB => .of_leaves ⟨hB, e, he⟩ h⟩)
  | storeConditional w a data =>
    exact hpure _ (.dataAccess fun policy =>
      (storeConditionalWithPolicy_leaves (.refl _) (translateWithPolicy_adWrites a policy)).mono
        fun _ _ h e he => ⟨(fromMemoryErr_known e).2, fun _ => .of_leaves ⟨e, he⟩ h⟩)
  | amo w a f =>
    refine .dataAccess fun policy =>
      (fetchAndOpAmoWithPolicy_leaves (translateWithPolicy_adWrites a policy)).mono
        fun _ _ h e he => ⟨?_, fun _ => .of_leaves ⟨e, he⟩ h.1⟩
    have hmem := h.2 e he
    simp only [List.mem_cons, List.not_mem_nil, or_false] at hmem
    rcases hmem with rfl | rfl | rfl <;> decide

end Accesses

/-! ## Where an instruction goes, and what data it addresses -/

/-- The functions of the instructions of two bytes. -/
def ExecFunc.isCompressed {F V : Type} : ExecFunc F V → Bool
  | .compressArith _ | .addi4spn | .compressMv | .compressLi | .compressNop | .compressLoad _ _
  | .compressLoadSp _ _ | .compressStore _ | .compressStoreSp _ | .compressFloatLoad _
  | .compressFloatLoadSp _ | .compressFloatStore _ | .compressFloatStoreSp _ | .compressBranch _
  | .compressJump _ | .compressJumpReg _ => true
  | _ => false

section Targets

variable {P : Platform} {F V : Type}

/-- The program counter after an instruction that completes. -/
def nextPc (s : RVCPU P) : ExecFunc F V → RVInstrInfo → WordType
  | .branch op, .B rs1 rs2 imm =>
    if op.exec (s.regFile rs1) (s.regFile rs2) then s.pc + imm else s.pc + 4
  | .jal, .J _ imm => s.pc + imm
  | .jalr, .I rs1 _ imm => (s.regFile rs1 + imm) &&& ~~~1#64
  | .mret, _ => s.csr.value .mepc
  | .sret, _ => s.csr.value .sepc
  | .compressBranch op, .CB rs1 imm => if op.exec (s.regFile rs1) 0 then s.pc + imm else s.pc + 2
  | .compressJump _, .CJ target => s.pc + target
  | .compressJumpReg _, .CR rs1 _ => s.regFile rs1 &&& ~~~1#64
  | f, _ => if f.isCompressed then s.pc + 2 else s.pc + 4

/-- The target of a jump whose alignment is checked. -/
def checkedTarget (s : RVCPU P) : ExecFunc F V → RVInstrInfo → Option WordType
  | .branch op, .B rs1 rs2 imm =>
    if op.exec (s.regFile rs1) (s.regFile rs2) then some (s.pc + imm) else none
  | .jal, .J _ imm => some (s.pc + imm)
  | .jalr, .I rs1 _ imm => some ((s.regFile rs1 + imm) &&& ~~~1#64)
  | _, _ => none

/-- The address of the data an instruction loads or stores. -/
def dataAddr (regFile : RegIdx → WordType) : ExecFunc F V → RVInstrInfo → Option WordType
  | .load _ _, .I rs1 _ imm | .floatLoad _, .I rs1 _ imm => some (regFile rs1 + imm)
  | .store _, .S rs1 _ imm | .floatStore _, .S rs1 _ imm => some (regFile rs1 + imm)
  | .amo _ _, .A rs1 _ _ _ _ | .lr _ _, .A rs1 _ _ _ _ | .sc _, .A rs1 _ _ _ _ => some (regFile rs1)
  | .compressLoad _ _, .CL _ rs1 imm | .compressFloatLoad _, .CL _ rs1 imm => some (regFile rs1 + imm)
  | .compressLoadSp _ _, .CI _ imm | .compressFloatLoadSp _, .CI _ imm => some (regFile SP + imm)
  | .compressStore _, .CS rs1 _ imm | .compressFloatStore _, .CS rs1 _ imm =>
    some (regFile rs1 + imm)
  | .compressStoreSp _, .CSS _ imm | .compressFloatStoreSp _, .CSS _ imm => some (regFile SP + imm)
  | _, _ => none

/-- An aligned target, as the check has it. -/
def JumpAligned (csr : CsrRegFile) (target : WordType) : Prop :=
  cEnabled csr ∨ target &&& 3 = 0

/-- What is left by an instruction that completes: it is where `nextPc` says,
and if it got there by a jump that checks its target, the check passed. -/
def Arrived (s : RVCPU P) (f : ExecFunc F V) (info : RVInstrInfo) (s' : RVCPU P) : Prop :=
  s'.pc = nextPc s f info ∧ ∀ target, checkedTarget s f info = some target →
    JumpAligned s.csr target

end Targets

/-! ## The functions of the dispatch table -/

section Functions

variable {P : Platform} {s : RVCPU P} {addr : Option WordType}

variable {m : CpuM P Unit} {K : RVCPU P → Prop}

/-- What asks for the float unit first. -/
theorem Precise.requireFloat_bind (h : Precise addr m s K) :
    Precise addr (requireFloat >>= fun _ => m) s K := by
  unfold requireFloat
  rw [bind_assoc]
  refine .get_bind ?_
  split
  · exact Precise.throw (by decide)
  · exact h

/-- The check of a jump passes, or nothing has happened yet. -/
theorem Precise.checkTarget_bind {check : Bool} {target : WordType}
    (h : (check → JumpAligned s.csr target) → Precise addr m s K) :
    Precise addr (checkTarget check target >>= fun _ => m) s K := by
  cases check with
  | false => exact h nofun
  | true =>
    show Precise addr (checkJumpAlignment target >>= fun _ => m) s K
    unfold checkJumpAlignment
    rw [bind_assoc]
    refine .get_bind ?_
    split
    · exact Spec.bind ⟨rfl, fun _ => .refl _, fun he => absurd he (by decide),
        fun he => absurd he (by decide)⟩
    · next hc =>
        refine h fun _ => ?_
        unfold JumpAligned
        revert hc
        cases cEnabled s.csr <;> simp

/-- Where a course leads, and the target it checks on the way. -/
def Course.Leads (s : RVCPU P) (addr : Option WordType) (pc : WordType) (checked : Option WordType) :
    Course P → Prop
  | stuck _ _ | illegal | breakpoint | ecall => True
  | move check _ _ target => target = pc ∧ ∀ t, checked = some t → check ∧ t = target
  | access req _ n => addr = some req.addr ∧ s.pc + n = pc ∧ checked = none
  | fence | compute _ _ => s.pc + 4 = pc ∧ checked = none
  | xret machine => s.csr.value (TrapTarget.of machine).level.trapRegs.epc = pc ∧ checked = none
  | float c => c.Leads s addr pc checked

theorem Precise.course {c : Course P} {pc : WordType} {checked : Option WordType}
    (hc : c.Leads s addr pc checked) : Precise addr (c.run : CpuM P Unit) s fun s' =>
      s'.pc = pc ∧ ∀ t, checked = some t → JumpAligned s.csr t := by
  induction c with
  | stuck p _ => exact trivial
  | illegal | breakpoint => exact .throw (by decide)
  | ecall =>
    refine .get_bind ?_
    split
    · exact .throw (by decide)
    · exact .throw (by decide)
    · exact .throw (by decide)
    · exact trivial
  | move check rd v target =>
    obtain ⟨rfl, hchecked⟩ := hc
    refine .checkTarget_bind fun hj => Certain.precise ((Certain.writeReg rd v).bind fun _ _ _ =>
      (Certain.writePc target).bind fun _ _ h₂ => Certain.retire.mono fun _ h₃ =>
        ⟨h₃.trans h₂, fun t ht => ?_⟩)
    obtain ⟨hcheck, rfl⟩ := hchecked t ht
    exact hj hcheck
  | access req sink n =>
    obtain ⟨rfl, rfl, rfl⟩ := hc
    refine (Precise.send req).then_certain fun v s₁ h₁ => ?_
    have hput : Certain (sink.put v : CpuM P Unit) s₁ (·.pc = s₁.pc) := by
      cases sink with
      | none | float f rd => exact rfl
      | reg rd g => exact (Certain.writeReg rd _).mono fun _ h => by rw [h]
    exact hput.bind fun _ _ h₂ => (Certain.finish n).mono fun _ h₃ =>
      ⟨by rw [h₃, h₂, h₁], nofun⟩
  | fence | compute fpu regFile =>
    obtain ⟨rfl, rfl⟩ := hc
    exact Certain.precise ((Certain.modify _).bind fun _ _ h₁ => (Certain.finish 4).mono
      fun _ h₂ => ⟨by subst h₁; exact h₂, nofun⟩)
  | xret machine =>
    obtain ⟨rfl, rfl⟩ := hc
    obtain ⟨csr, -, hret⟩ := xret_eq s.csr machine
    refine .get_bind ?_
    rw [hret]
    have hretire (pc) : Certain (RVCPU.retire : CpuM P Unit) { s with csr, pc } (·.pc = pc) := .retire
    exact ((hretire _).mono fun _ h => ⟨h, nofun⟩).after
  | float c ih =>
    exact .requireFloat_bind ((ih hc).then_certain fun _ _ h₁ =>
      Certain.saveFflags.mono fun _ h₂ => ⟨h₂.trans h₁.1, h₁.2⟩)

variable {f : ExecFunc P.FloatOp P.VectorOp}

/-- The courses lead where `nextPc` says. -/
theorem course_leads (hway : f.ownWay = false) (info : RVInstrInfo) :
    (course s f info).Leads s (dataAddr s.regFile f info) (nextPc s f info)
      (checkedTarget s f info) := by
  cases f with
  | branch op =>
    cases info with
    | B rs1 rs2 imm =>
      dsimp only [course, nextPc, checkedTarget]
      split
      · exact ⟨rfl, fun t ht => ⟨rfl, (Option.some.inj ht).symm⟩⟩
      · exact ⟨rfl, fun _ h => by cases h⟩
    | _ => exact trivial
  | compressBranch op =>
    cases info with
    | CB rs1 imm =>
      dsimp only [course, nextPc]
      split
      · exact ⟨rfl, fun _ h => by cases h⟩
      · exact ⟨rfl, fun _ h => by cases h⟩
    | _ => exact trivial
  | jal =>
    cases info with
    | J rd imm => exact ⟨rfl, fun t ht => ⟨rfl, (Option.some.inj ht).symm⟩⟩
    | _ => exact trivial
  | jalr =>
    cases info with
    | I rs1 rd imm =>
      dsimp only [course, Course.link]
      split
      · exact ⟨rfl, fun t ht => ⟨rfl, (Option.some.inj ht).symm⟩⟩
      · exact trivial
    | _ => exact trivial
  | compressJumpReg link =>
    cases info with
    | CR rs1 rs2 =>
      dsimp only [course, Course.link]
      split
      · exact ⟨rfl, fun _ h => by cases h⟩
      · exact trivial
    | _ => exact trivial
  | mret | sret | sfenceVma =>
    dsimp only [course, Course.supervised]
    split
    · exact trivial
    · exact ⟨rfl, rfl⟩
  | float op =>
    dsimp only [course, Course.Leads]
    split
    · exact trivial
    · exact ⟨rfl, rfl⟩
  | fenceI => exact ⟨rfl, rfl⟩
  | csrw _ | csrBit _ _ | vectorConfig _ | vectorMem _ | vector _ => cases hway
  | _ =>
    cases info <;> first | exact trivial | exact ⟨rfl, rfl, rfl⟩ | exact ⟨rfl, fun _ h => by cases h⟩

/-! ### CSR instructions -/

theorem applySatp_pc {s' : RVCPU P} (h : s.applySatp = .ok s') : s'.pc = s.pc := by
  obtain ⟨memory, -, h⟩ := Lib.exists_of_bind_ok h
  cases h
  rfl

variable {a : WordType}

theorem Certain.writeCsr {data : WordType} (h : s.csr.isWritePrivLegal a) :
    Certain (writeCsr a data : CpuM P Unit) s (·.pc = s.pc) := by
  unfold RVCPU.writeCsr CsrRegFile.writeChecked
  refine Spec.get_bind ?_
  rw [if_pos h]
  dsimp only
  split
  · generalize hs : ({ s with csr := s.csr.writeUncheckPrivilege a data } : RVCPU P) = t
    have hpc : t.pc = s.pc := by rw [← hs]
    cases hap : t.applySatp with
    | error p => exact Spec.bind trivial
    | ok t' => exact (applySatp_pc hap).trans hpc
  · exact rfl

theorem Certain.csrTail {data : WordType} (h : s.csr.isWritePrivLegal a) :
    Certain (do RVCPU.writeCsr a data; retireCsr a; RVCPU.advancePc 4 : CpuM P Unit) s
      (·.pc = s.pc + 4) := by
  refine (Certain.writeCsr h).bind fun _ s₁ h₁ => ?_
  have hretire : Certain (retireCsr a : CpuM P Unit) s₁ (·.pc = s₁.pc) := by
    unfold retireCsr
    split
    · exact rfl
    · exact Certain.retire
  exact hretire.bind fun _ s₂ h₂ => (Certain.advancePc 4).mono fun _ h₃ => by rw [h₃, h₂, h₁]

theorem Precise.readCsr :
    Precise addr (readCsr a : CpuM P WordType) s fun s' => s' = { s with memory := s'.memory } := by
  refine .get_bind ?_
  split
  · split
    · next timeAddr _ =>
        have hread : Returns (VirtAddrManager.readByPaddr .u64 timeAddr) s.memory _ :=
          readByPaddr_adWrites .u64 timeAddr
        show Exec.Outcome _ _ _
        simp only [Exec.mapError, Exec.zoom, Exec.run_ofFun]
        rcases hr : (VirtAddrManager.readByPaddr .u64 timeAddr).run s.memory with p | ⟨e | v, memory⟩
        · trivial
        · exact ⟨rfl, fun _ => hread.elim hr, fun _ => rfl, fun he => absurd he (by decide)⟩
        · exact rfl
    · exact .throw (by decide)
  · split
    · exact rfl
    · exact .throw (by decide)

theorem Precise.execCsr (hf : f.isCsr) (info : RVInstrInfo) :
    Precise addr (exec f info : CpuM P Unit) s (·.pc = s.pc + 4) := by
  refine csrPlan_spec hf fun p _ hp => ?_
  cases p with
  | wrong => exact Precise.wrongInfo
  | skip => exact (Certain.advancePc 4).precise
  | refused => exact Precise.throw (by decide)
  | peek rd a =>
    exact Precise.then_certain .readCsr fun _ _ h₁ => (Certain.writeReg rd _).bind
      fun _ _ h₂ => (Certain.advancePc 4).mono fun _ h₃ => by rw [h₃, h₂, h₁]
  | write rd old a data =>
    refine CsrPlan.spec_write fun regFile => ?_
    exact (Certain.csrTail (s := { s with regFile }) (writable_of_pending hp)).after

/-- Every function but the vector ones completes where `nextPc` says, or raises
an exception before it has changed anything. -/
theorem exec_precise (info : RVInstrInfo) (hf : f.isVector = false) :
    Precise (dataAddr s.regFile f info) (exec f info) s (Arrived s f info) := by
  cases hcsr : f.isCsr with
  | false =>
    have hway : f.ownWay = false := by rw [ExecFunc.ownWay, hcsr, hf]; rfl
    show Exec.Outcome _ _ _
    rw [run_exec_course hway]
    exact Precise.course (course_leads hway info)
  | true =>
    refine (Precise.execCsr hcsr info).mono fun _ h => ?_
    cases f with
    | csrw _ | csrBit _ _ => exact ⟨h, nofun⟩
    | _ => cases hcsr

end Functions

end HereEmu
