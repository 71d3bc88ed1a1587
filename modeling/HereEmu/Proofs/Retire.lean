import HereEmu.Proofs.CsrInstr
import HereEmu.Proofs.PreciseTrap

/-!
# Counting retired instructions

`minstret` is counted up by hand at the end of every function of the dispatch
table. What comes before that neither reads nor writes the counter, which is
said here by changing it: a computation is `Oblivious` if it does the same from
a state with another count and leaves that count. An instruction `Counts` if it
does the same from a state with another count but for leaving one more, and
nothing but the sum can make a difference: at the last value of the counter an
instruction that would complete panics instead.
-/

namespace HereEmu

open Lib (Exec)
open Lib.Exec (Spec Blind run_bind run_bind_ok run_get)
open RVCPU CsrRegFile

section Judgements

variable {P : Platform} {α β : Type} (v : WordType) (s : RVCPU P)

/-- The number of instructions retired. -/
def RVCPU.instret : WordType := s.csr.value .minstret

/-- The same state with another count. -/
def RVCPU.recount : RVCPU P :=
  { s with csr := s.csr.setValue .minstret v }

/-- The count there is no next one for. -/
def lastCount : WordType := BitVec.allOnes 64

theorem recount_instret : s.recount s.instret = s := by
  unfold RVCPU.recount RVCPU.instret setValue
  rw [Function.update_eq_self]

@[simp] theorem instret_recount : (s.recount v).instret = v :=
  setValue_same

@[simp] theorem recount_recount (v w : WordType) (s : RVCPU P) :
    (s.recount v).recount w = s.recount w := by
  unfold RVCPU.recount setValue
  simp

def Oblivious (m : CpuM P α) : Prop := ∀ v, Blind (RVCPU.recount v) m

/-- The outcome of an instruction, with its count made from `v`. -/
def countOn : Except Exception Unit × RVCPU P → Rust (Except Exception Unit × RVCPU P)
  | (.ok (), s) => if v = lastCount then .error .overflow else .ok (.ok (), s.recount (v + 1))
  | (.error e, s) => .ok (.error e, s.recount v)

theorem countOn_ok : countOn v (.ok (), s) =
    if v = lastCount then .error .overflow else .ok (.ok (), s.recount (v + 1)) := rfl

def Counts (m : CpuM P Unit) : Prop :=
  ∀ s v, s.instret ≠ lastCount → m.run (s.recount v) = m.run s >>= countOn v

/-- What follows the count: it completes, whatever the count is. -/
def Completes (m : CpuM P Unit) : Prop := ∀ s, ∃ s', m.run s = .ok (.ok (), s')

variable {m : CpuM P α} {f : α → CpuM P β}

/-- What does not see the counter keeps it. -/
theorem Oblivious.instret {s s' : RVCPU P} {r : Except Exception α} (hm : Oblivious m)
    (h : m.run s = .ok (r, s')) : s'.instret = s.instret := by
  have hsame := hm s.instret s
  rw [recount_instret, h] at hsame
  have hs' : s' = s'.recount s.instret := (Prod.mk.inj (Except.ok.inj hsame)).2
  rw [hs', instret_recount]

theorem Oblivious.bind (hm : Oblivious m) (hf : ∀ a, Oblivious (f a)) : Oblivious (m >>= f) :=
  fun v => (hm v).bind fun a => hf a v

theorem Oblivious.get_bind {f : RVCPU P → CpuM P β} (hg : ∀ v s, f (s.recount v) = f s)
    (hf : ∀ s, Oblivious (f s)) : Oblivious (get >>= f) :=
  fun v => Blind.get_bind (hg v) fun s => hf s v

theorem Oblivious.then_counts {f : α → CpuM P Unit} (hm : Oblivious m) (hf : ∀ a, Counts (f a)) :
    Counts (m >>= f) := by
  intro s v hs
  rw [run_bind, run_bind, hm v s]
  rcases hr : m.run s with p | ⟨e | a, s'⟩
  · rfl
  · rfl
  · exact hf a s' v (by rw [hm.instret hr]; exact hs)

theorem Counts.then_completes {m k : CpuM P Unit} (hm : Counts m) (hk : Oblivious k)
    (hdone : Completes k) : Counts (m >>= fun _ => k) := by
  intro s v hs
  rw [run_bind, run_bind, hm s v hs]
  rcases m.run s with p | ⟨e | _, s'⟩
  · rfl
  · rfl
  · obtain ⟨s'', hs''⟩ := hdone s'
    show (countOn v (.ok (), s') >>= _) = k.run s' >>= countOn v
    rw [hs'', countOn_ok]
    split
    · next hv => exact (if_pos hv).symm
    · next hv =>
        show k.run _ = _
        rw [hk (v + 1) s', hs'']
        exact (if_neg hv).symm

end Judgements

/-! ## The parts of an instruction -/

section Parts

variable {P : Platform} {α ε : Type}

theorem Oblivious.pure (a : α) : Oblivious (pure a : CpuM P α) := fun _ => .pure a

theorem Oblivious.throw (e : Exception) : Oblivious (throw e : CpuM P α) := fun _ => .throw e

theorem Oblivious.lift (x : Rust α) : Oblivious (Exec.lift x : CpuM P α) := fun _ => .lift x

theorem Oblivious.modify {g : RVCPU P → RVCPU P} (h : ∀ v s, g (s.recount v) = (g s).recount v) :
    Oblivious (modify g : CpuM P Unit) := fun v => .modify (h v)

theorem Oblivious.writeReg (rd : RegIdx) (v : WordType) :
    Oblivious (writeReg rd v : CpuM P Unit) := by
  unfold RVCPU.writeReg
  split
  · exact .pure ()
  · exact .modify fun _ _ => rfl

theorem Oblivious.writePc (pc : WordType) : Oblivious (writePc pc : CpuM P Unit) :=
  .modify fun _ _ => rfl

theorem Oblivious.advancePc (n : WordType) : Oblivious (advancePc n : CpuM P Unit) :=
  .modify fun _ _ => rfl

/-- Fields of the other registers are read as they are. -/
theorem get_recount {r : Csr} (hr : r.base ≠ .minstret) (f : BitField) (v : WordType)
    (s : RVCPU P) : (s.recount v).csr.get r f = s.csr.get r f := get_setValue hr

theorem Oblivious.checkJumpAlignment (target : WordType) :
    Oblivious (checkJumpAlignment target : CpuM P Unit) := by
  intro v s
  have hc : cEnabled (s.recount v).csr = cEnabled s.csr := by
    unfold cEnabled
    rw [get_recount (by decide)]
  unfold RVCPU.checkJumpAlignment
  rw [run_bind_ok (run_get s), run_bind_ok (run_get _), hc]
  split <;> rfl

theorem retire_run (s : RVCPU P) : RVCPU.retire.run s =
    if s.instret = lastCount then .error .overflow
    else .ok (.ok (), s.recount (s.instret + 1)) := run_retire s

theorem Counts.retire : Counts (retire : CpuM P Unit) := by
  intro s v hs
  rw [retire_run, retire_run, instret_recount, recount_recount, if_neg hs]
  show _ = countOn v (.ok (), s.recount (s.instret + 1))
  rw [countOn_ok, recount_recount]

theorem Counts.finish (n : WordType) : Counts (finish n : CpuM P Unit) :=
  (Oblivious.advancePc n).then_counts fun _ => .retire

theorem Oblivious.saveFflags : Oblivious (saveFflags : CpuM P Unit) := by
  intro v s
  unfold RVCPU.saveFflags
  rw [run_bind_ok (run_get s), run_bind_ok (run_get _)]
  have hset : (s.recount v).csr.set .fcsr ⟨0, 5⟩ ((P.fpuLastStatus (s.recount v).fpu).setWidth 64) =
      (s.csr.set .fcsr ⟨0, 5⟩ ((P.fpuLastStatus s.fpu).setWidth 64)).map (·.setValue .minstret v) :=
    set_setValue (by decide)
  rw [hset]
  cases s.csr.set .fcsr ⟨0, 5⟩ ((P.fpuLastStatus s.fpu).setWidth 64) <;> rfl

theorem Completes.saveFflags : Completes (saveFflags : CpuM P Unit) :=
  fun s => ⟨_, run_saveFflags s⟩

theorem Oblivious.requireFloat : Oblivious (requireFloat : CpuM P Unit) := by
  refine .get_bind (fun v s => ?_) fun s => ?_
  · rw [get_recount (by decide)]
  · split
    · exact .throw _
    · exact .pure ()

/-! ### Accesses to memory -/

theorem Oblivious.finishMemoryAccess {addr : WordType} {toException : ε → Exception}
    {m : Exec PanicSite ε (VirtAddrManager P.bus) α} :
    Oblivious (finishMemoryAccess addr toException m) := by
  intro v s
  unfold RVCPU.finishMemoryAccess
  rw [Exec.run_ofFun, Exec.run_ofFun, show (s.recount v).memory = s.memory from rfl]
  rcases m.run s.memory with p | ⟨e | a, memory⟩ <;> rfl

theorem resolveDataPolicy_recount (access : AccessType) (v : WordType) (s : RVCPU P) :
    resolveDataPolicy (s.recount v).csr access true = resolveDataPolicy s.csr access true := by
  have hpriv : determineDataAccessPrivilege (s.recount v).csr =
      determineDataAccessPrivilege s.csr := by
    unfold determineDataAccessPrivilege
    simp only [get_recount (show Csr.mstatus.base ≠ .minstret by decide),
      get_recount (show Csr.sstatus.base ≠ .minstret by decide)]
    rfl
  unfold resolveDataPolicy
  rw [hpriv, get_recount (by decide)]

theorem Oblivious.dataPolicy (access : AccessType) :
    Oblivious (dataPolicy access : CpuM P AccessPolicy) := by
  refine .get_bind (fun v s => ?_) fun s => .lift _
  rw [resolveDataPolicy_recount]

theorem Oblivious.access {access : AccessType} {addr : WordType} {toException : ε → Exception}
    {m : AccessPolicy → Exec PanicSite ε (VirtAddrManager P.bus) α} :
    Oblivious (RVCPU.dataPolicy access >>= fun policy =>
      RVCPU.finishMemoryAccess addr toException (m policy) : CpuM P α) :=
  (Oblivious.dataPolicy _).bind fun _ => .finishMemoryAccess

theorem Oblivious.send (req : Request) : Oblivious (req.send : CpuM P WordType) := by
  cases req with
  | load w a | loadReserved w a | amo w a f => exact .access
  | store w a data | storeConditional w a data => exact Oblivious.access.bind fun _ => .pure _

end Parts

/-! ## The functions of the dispatch table -/

section Functions

variable {P : Platform}

theorem Counts.throw (e : Exception) : Counts (throw e : CpuM P Unit) := fun _ _ _ => rfl

theorem Counts.get_bind {f : RVCPU P → CpuM P Unit} (hg : ∀ v s, f (s.recount v) = f s)
    (hf : ∀ s, Counts (f s)) : Counts (get >>= f) := by
  intro s v hs
  rw [run_bind_ok (run_get s), run_bind_ok (run_get _), hg v s]
  exact hf s s v hs

/-- A return takes the counter along. -/
theorem Returned.recount {x : TrapTarget} {c c₁ c₂ : CsrRegFile} {v : WordType}
    (h₁ : Returned x c c₁) (h₂ : Returned x (c.setValue .minstret v) c₂) : c₂ = c₁.setValue .minstret v := by
  have hcpl : c₂.cpl = c₁.cpl := by
    have hword : c₂.cpl.toWord = c₁.cpl.toWord := by
      rw [h₂.cpl, h₁.cpl, get_setValue (by decide)]
    revert hword
    cases c₂.cpl <;> cases c₁.cpl <;> decide
  have hvalue : c₂.value = (c₁.setValue .minstret v).value := by
    funext r
    by_cases hr : r = .minstret
    · subst hr
      rw [h₂.frame _ (by decide), setValue_same, setValue_same]
    · rw [setValue_ne hr]
      by_cases hst : r = .mstatus
      · subst hst
        rw [h₂.mstatus, h₁.mstatus, setValue_ne hr]
      · rw [h₂.frame _ hst, h₁.frame _ hst, setValue_ne hr]
  cases c₂
  cases hcpl
  cases hvalue
  rfl

theorem Counts.course (c : Course P) : Counts (c.run : CpuM P Unit) := by
  induction c with
  | stuck p _ => exact fun _ _ _ => rfl
  | illegal | breakpoint => exact .throw _
  | ecall =>
    refine .get_bind (fun _ _ => rfl) fun s => ?_
    split
    · exact .throw _
    · exact .throw _
    · exact .throw _
    · exact fun _ _ _ => rfl
  | move check rd v target =>
    refine Oblivious.then_counts ?_ fun _ => (Oblivious.writeReg rd v).then_counts fun _ =>
      (Oblivious.writePc target).then_counts fun _ => .retire
    cases check with
    | true => exact .checkJumpAlignment target
    | false => exact .pure ()
  | access req sink n =>
    refine (Oblivious.send req).then_counts fun v => Oblivious.then_counts ?_ fun _ => .finish n
    cases sink with
    | none => exact .pure ()
    | reg rd g => exact .writeReg rd _
    | float f rd => exact .modify fun _ _ => rfl
  | fence => exact (Oblivious.modify fun _ _ => rfl).then_counts fun _ => .finish 4
  | xret machine =>
    intro s v hs
    obtain ⟨c₁, hc₁, h₁⟩ := xret_eq s.csr machine
    obtain ⟨c₂, hc₂, h₂⟩ := xret_eq (s.csr.setValue .minstret v) machine
    unfold Course.run
    rw [run_get_bind, run_get_bind, show (s.recount v).csr = s.csr.setValue .minstret v from rfl, h₁,
      h₂, setValue_ne (by cases machine <;> decide), hc₁.recount hc₂]
    refine Counts.retire ({ s with csr := c₁, pc := _ } : RVCPU P) v ?_
    show c₁.value .minstret ≠ _
    rw [hc₁.frame _ (by decide)]
    exact hs
  | compute fpu regFile => exact (Oblivious.modify fun _ _ => rfl).then_counts fun _ => .finish 4
  | float c ih =>
    exact Oblivious.requireFloat.then_counts fun _ => ih.then_completes .saveFflags .saveFflags

/-- A course is made from registers that are not counted in. -/
theorem course_recount (f : ExecFunc P.FloatOp P.VectorOp) (info : RVInstrInfo) (s : RVCPU P)
    (v : WordType) : course (s.recount v) f info = course s f info := by
  cases f <;> rfl

theorem Counts.of_course {f : ExecFunc P.FloatOp P.VectorOp} (hway : f.ownWay = false)
    (info : RVInstrInfo) : Counts (exec f info : CpuM P Unit) := by
  intro s v hs
  rw [run_exec_course hway, run_exec_course hway, course_recount]
  exact Counts.course _ s v hs

/-! ### Vector instructions -/

theorem state_recount (e : VectorEnd P) (v : WordType) (s : RVCPU P) :
    e.state (s.recount v) = (e.state s).recount v := by
  have hfold : ∀ (csrs : List (Csr × WordType)) (c : CsrRegFile),
      (∀ w ∈ csrs, Csr.minstret ≠ w.1) →
      csrs.foldl (fun c w => c.setValue w.1 w.2) (c.setValue .minstret v) =
        (csrs.foldl (fun c w => c.setValue w.1 w.2) c).setValue .minstret v := by
    intro csrs
    induction csrs with
    | nil => exact fun _ _ => rfl
    | cons w csrs ih =>
      intro c h
      rw [List.foldl_cons, setValue_comm (h w List.mem_cons_self)]
      exact ih _ fun w' hw' => h w' (List.mem_cons_of_mem _ hw')
  unfold VectorEnd.state RVCPU.recount
  rw [hfold]
  intro w hw heq
  have hown := of_decide_eq_true (List.all_eq_true.1 e.own w hw)
  rw [← heq] at hown
  exact absurd hown (by decide)

theorem vectorRetired_recount (v : WordType) (s : RVCPU P) :
    (s.recount v).vectorRetired = s.vectorRetired.recount (v + 1) := by
  unfold vectorRetired RVCPU.recount
  simp only [setValue_comm (show Csr.vstart ≠ .minstret by decide)]
  unfold setValue
  simp

theorem Counts.vector {f : ExecFunc P.FloatOp P.VectorOp} (hf : f.isVector)
    (info : RVInstrInfo) : Counts (exec f info : CpuM P Unit) := by
  intro s v hs
  have hend : vectorEnd (s.recount v) f info = vectorEnd s f info := rfl
  rw [run_exec_vector hf, run_exec_vector hf, hend, get_recount (by decide)]
  split
  · rfl
  cases vectorEnd s f info with
  | error p => rfl
  | ok e =>
    show e.finish (s.recount v) = e.finish s >>= countOn v
    unfold VectorEnd.finish
    rw [state_recount]
    cases e.result with
    | error x => rfl
    | ok _ =>
      have hcount : (e.state s).csr.value .minstret ≠ BitVec.allOnes 64 := by
        rw [VectorEnd.value_state (by decide)]
        exact hs
      have hv : ((e.state s).recount v).csr.value .minstret = v := setValue_same
      unfold retireVector
      rw [if_neg hcount, hv, vectorRetired_recount]
      rfl

end Functions

end HereEmu
