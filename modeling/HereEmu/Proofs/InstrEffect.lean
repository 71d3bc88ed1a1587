import HereEmu.Proofs.Access
import HereEmu.Proofs.Course

/-!
# What an instruction does to the machine around it

Most instructions work on registers and memory and leave alone what decides
how the next instruction is fetched and whether a trap can be taken: the
privilege level, the control registers, the mode and root of the walker, the
instruction cache. They come in phases. First registers and memory are read,
where an instruction may still turn out illegal (`Calm`); then there is at most
one store (`Done`); what follows only counts and moves on (`Fin`). The rules
below put the phases together, and one lemma for each function of the dispatch
table follows the text of the function.
-/

namespace HereEmu

open Lib (Exec)
open Lib.Exec (Spec)
open RVCPU

/-- The registers instructions write on the side. -/
def countingCsrs : List Csr := [.minstret, .mcycle, .fcsr, .vstart, .vl, .vtype, .vcsr]

structure SameControl (c c' : CsrRegFile) : Prop where
  cpl : c'.cpl = c.cpl
  value : ∀ r, r ∉ countingCsrs → c'.value r = c.value r

theorem SameControl.refl (c : CsrRegFile) : SameControl c c := ⟨rfl, fun _ _ => rfl⟩

theorem SameControl.trans {c c₁ c₂ : CsrRegFile} (h : SameControl c c₁) (h' : SameControl c₁ c₂) :
    SameControl c c₂ :=
  ⟨h'.cpl.trans h.cpl, fun r hr => (h'.value r hr).trans (h.value r hr)⟩

theorem SameControl.setValue (c : CsrRegFile) {r : Csr} (hr : r ∈ countingCsrs) (v : WordType) :
    SameControl c (c.setValue r v) := by
  refine ⟨rfl, fun r' hr' => CsrRegFile.setValue_ne ?_⟩
  rintro rfl
  exact hr' hr

theorem SameControl.privilegeDefined {c c' : CsrRegFile} (h : SameControl c c')
    (hd : PrivilegeDefined c) : PrivilegeDefined c' := by
  have hst : c'.value .mstatus = c.value .mstatus := h.value .mstatus (by decide)
  refine ⟨by rw [h.cpl]; exact hd.cpl, ?_⟩
  have hget : c'.get .mstatus Mstatus.mpp = c.get .mstatus Mstatus.mpp :=
    congrArg Mstatus.mpp.get hst
  rw [hget]
  exact hd.mpp

section Relations

variable {P : Platform}

/-- Memory was written to at the end, if at all. -/
structure After (s s' : RVCPU P) : Prop where
  mem : MemAfter s.memory s'.memory
  csr : SameControl s.csr s'.csr
  icache : s'.icache = s.icache
  epoch : s'.icacheEpoch = s.icacheEpoch

/-- Nothing happened that a second fetch of the instruction could notice. -/
structure Still (s s' : RVCPU P) : Prop where
  mem : MemStill s.memory s'.memory
  csr : SameControl s.csr s'.csr
  icache : s'.icache = s.icache
  epoch : s'.icacheEpoch = s.icacheEpoch
  pc : s'.pc = s.pc
  tval : s'.pendingTval = s.pendingTval

/-- Memory was left alone. -/
structure RegsOnly (s s' : RVCPU P) : Prop where
  memory : s'.memory = s.memory
  csr : SameControl s.csr s'.csr
  icache : s'.icache = s.icache
  epoch : s'.icacheEpoch = s.icacheEpoch
  tval : s'.pendingTval = s.pendingTval

/-- The instruction raised `e`. -/
structure Failed (s : RVCPU P) (e : Exception) (s' : RVCPU P) : Prop where
  after : After s s'
  known : e ≠ .unknown
  illegal : e = .illegalInstruction → Still s s'

variable {s s₁ s₂ : RVCPU P} {e : Exception}

theorem Still.refl (s : RVCPU P) : Still s s := ⟨.refl _, .refl _, rfl, rfl, rfl, rfl⟩

theorem Still.toAfter (h : Still s s₁) : After s s₁ := ⟨h.mem.toMemAfter, h.csr, h.icache, h.epoch⟩

theorem Still.trans (h : Still s s₁) (h' : Still s₁ s₂) : Still s s₂ :=
  ⟨h.mem.trans h'.mem, h.csr.trans h'.csr, h'.icache.trans h.icache, h'.epoch.trans h.epoch,
    h'.pc.trans h.pc, h'.tval.trans h.tval⟩

theorem Still.after (h : Still s s₁) (h' : After s₁ s₂) : After s s₂ :=
  ⟨h.mem.after h'.mem, h.csr.trans h'.csr, h'.icache.trans h.icache, h'.epoch.trans h.epoch⟩

theorem Still.failed (h : Still s s₁) (h' : Failed s₁ e s₂) : Failed s e s₂ :=
  ⟨h.after h'.after, h'.known, fun he => h.trans (h'.illegal he)⟩

theorem After.then_regs (h : After s s₁) (h' : RegsOnly s₁ s₂) : After s s₂ :=
  ⟨h.mem.then_same (by rw [h'.memory]), h.csr.trans h'.csr, h'.icache.trans h.icache,
    h'.epoch.trans h.epoch⟩

theorem RegsOnly.trans (h : RegsOnly s s₁) (h' : RegsOnly s₁ s₂) : RegsOnly s s₂ :=
  ⟨h'.memory.trans h.memory, h.csr.trans h'.csr, h'.icache.trans h.icache,
    h'.epoch.trans h.epoch, h'.tval.trans h.tval⟩

theorem RegsOnly.toAfter (h : RegsOnly s s₁) : After s s₁ :=
  ⟨.of_pageTable (by rw [h.memory]), h.csr, h.icache, h.epoch⟩

theorem Failed.of_illegal (h : Still s s₁) : Failed s .illegalInstruction s₁ :=
  ⟨h.toAfter, by decide, fun _ => h⟩

theorem Failed.of_known (h : After s s₁) (hu : e ≠ .unknown) (hi : e ≠ .illegalInstruction) :
    Failed s e s₁ := ⟨h, hu, fun he => absurd he hi⟩

end Relations

/-! ## The phases -/

section Phases

variable {P : Platform} {α β : Type}

/-- The panics `S` are those that may happen in a state: the ones outside the
trap and privilege machinery always, and those that ask for the privilege level
when it is not a defined one. -/
structure Ready (S : PanicSite → Prop) (s : RVCPU P) : Prop where
  benign : ∀ p, p.Benign → S p
  policy : s.memory.pageTable.adUpdatePolicy = .faultOnClear
  modes : PrivilegeDefined s.csr ∨ S .dataAccessPrivilege ∧ S .ecall

def Calm (S : PanicSite → Prop) (m : CpuM P α) : Prop :=
  ∀ s, Ready S s → Spec S m s fun r s' =>
    match r with
    | .ok _ => Still s s'
    | .error e => Failed s e s'

def Done (S : PanicSite → Prop) (m : CpuM P α) : Prop :=
  ∀ s, Ready S s → Spec S m s fun r s' =>
    match r with
    | .ok _ => After s s' ∧ s'.pendingTval = s.pendingTval
    | .error e => Failed s e s'

/-- This phase asks nothing of the state it runs in. -/
def Fin (S : PanicSite → Prop) (m : CpuM P α) : Prop :=
  (∀ p, PanicSite.Benign p → S p) → ∀ s, Spec S m s fun r s' =>
    match r with
    | .ok _ => RegsOnly s s'
    | .error _ => False

variable {S : PanicSite → Prop} {s s₁ : RVCPU P} {m : CpuM P α} {f : α → CpuM P β}

theorem Ready.after (h : Ready S s) (h' : After s s₁) : Ready S s₁ :=
  ⟨h.benign, (policy_of_config h'.mem.config).trans h.policy,
    h.modes.imp h'.csr.privilegeDefined id⟩

theorem Calm.bind (hm : Calm S m) (hf : ∀ a, Calm S (f a)) : Calm S (m >>= f) := by
  intro s hs
  refine (hm s hs).seq (fun a s₁ h₁ => ?_) fun e s₁ h₁ => h₁
  refine (hf a s₁ (hs.after h₁.toAfter)).mono fun r s₂ h₂ => ?_
  cases r with
  | ok b => exact h₁.trans h₂
  | error e => exact h₁.failed h₂

theorem Calm.then_done (hm : Calm S m) (hf : ∀ a, Done S (f a)) : Done S (m >>= f) := by
  intro s hs
  refine (hm s hs).seq (fun a s₁ h₁ => ?_) fun e s₁ h₁ => h₁
  refine (hf a s₁ (hs.after h₁.toAfter)).mono fun r s₂ h₂ => ?_
  cases r with
  | ok b => exact ⟨h₁.after h₂.1, h₂.2.trans h₁.tval⟩
  | error e => exact h₁.failed h₂

theorem Calm.done (hm : Calm S m) : Done S m := by
  intro s hs
  refine (hm s hs).mono fun r s₁ h₁ => ?_
  cases r with
  | ok a => exact ⟨h₁.toAfter, h₁.tval⟩
  | error e => exact h₁

theorem Done.then_fin (hm : Done S m) (hf : ∀ a, Fin S (f a)) : Done S (m >>= f) := by
  intro s hs
  refine (hm s hs).seq (fun a s₁ h₁ => ?_) fun e s₁ h₁ => h₁
  refine (hf a hs.benign s₁).mono fun r s₂ h₂ => ?_
  cases r with
  | ok b => exact ⟨h₁.1.then_regs h₂, h₂.tval.trans h₁.2⟩
  | error e => exact h₂.elim

theorem Fin.bind (hm : Fin S m) (hf : ∀ a, Fin S (f a)) : Fin S (m >>= f) := by
  intro hS s
  refine (hm hS s).seq (fun a s₁ h₁ => ?_) fun e s₁ h₁ => h₁
  refine (hf a hS s₁).mono fun r s₂ h₂ => ?_
  cases r with
  | ok b => exact h₁.trans h₂
  | error e => exact h₂

theorem Fin.done (hm : Fin S m) : Done S m := by
  intro s hs
  refine (hm hs.benign s).mono fun r s₁ h₁ => ?_
  cases r with
  | ok a => exact ⟨h₁.toAfter, h₁.tval⟩
  | error e => exact h₁.elim

theorem Calm.pure (a : α) : Calm S (pure a : CpuM P α) := fun s _ => Still.refl s

theorem Fin.pure (a : α) : Fin S (pure a : CpuM P α) := fun _ _ =>
  ⟨rfl, .refl _, rfl, rfl, rfl⟩

theorem Calm.throw_illegal : Calm S (throw .illegalInstruction : CpuM P α) := fun s _ =>
  Failed.of_illegal (.refl s)

theorem Calm.throw_known {e : Exception} (hu : e ≠ .unknown) : Calm S (throw e : CpuM P α) :=
  fun s _ => ⟨(Still.refl s).toAfter, hu, fun _ => .refl s⟩

end Phases

/-! ## The common parts -/

section Parts

variable {P : Platform} {α : Type} {S : PanicSite → Prop}

theorem Fin.modify {g : RVCPU P → RVCPU P} (h : ∀ s, RegsOnly s (g s)) :
    Fin S (modify g : CpuM P Unit) := fun _ s => h s

theorem Fin.writeReg (rd : RegIdx) (v : WordType) : Fin S (writeReg rd v : CpuM P Unit) := by
  unfold RVCPU.writeReg
  split
  · exact .pure ()
  · exact .modify fun s => ⟨rfl, .refl _, rfl, rfl, rfl⟩

theorem Fin.writePc (pc : WordType) : Fin S (writePc pc : CpuM P Unit) :=
  .modify fun _ => ⟨rfl, .refl _, rfl, rfl, rfl⟩

theorem Fin.advancePc (n : WordType) : Fin S (advancePc n : CpuM P Unit) :=
  .modify fun _ => ⟨rfl, .refl _, rfl, rfl, rfl⟩

theorem Fin.retire : Fin S (retire : CpuM P Unit) := by
  intro hS s
  show Exec.Outcome _ _ _
  rw [run_retire]
  split
  · exact hS _ (by decide)
  · exact ⟨rfl, .setValue _ (by decide) _, rfl, rfl, rfl⟩

theorem Fin.finish (n : WordType) : Fin S (finish n : CpuM P Unit) :=
  (Fin.advancePc n).bind fun _ => .retire

theorem Fin.saveFflags : Fin S (saveFflags : CpuM P Unit) := fun _ s =>
  Spec.of_run (run_saveFflags s) ⟨rfl, .setValue _ (by decide) _, rfl, rfl, rfl⟩

theorem Calm.checkJumpAlignment (target : WordType) :
    Calm S (checkJumpAlignment target : CpuM P Unit) := by
  intro s _
  refine Spec.get_bind ?_
  split
  · exact Failed.of_known ⟨.of_pageTable rfl, .refl _, rfl, rfl⟩ (by decide) (by decide)
  · exact Still.refl s

end Parts

/-! ## Memory accesses -/

section Accesses

variable {P : Platform} {α ε : Type} {S : PanicSite → Prop}

/-- With a defined privilege a data access has a policy, whose fault is that of
the access. -/
theorem resolveDataPolicy_of_defined {csr : CsrRegFile} (h : PrivilegeDefined csr)
    (access : AccessType) : ∃ policy, resolveDataPolicy csr access true = .ok policy := by
  obtain ⟨k, hk, hacc⟩ : ∃ k : AccessKind, k ≠ .fetch ∧ k.access = access := by
    cases access with
    | read => exact ⟨.load, by decide, rfl⟩
    | write => exact ⟨.store, by decide, rfl⟩
    | readWrite => exact ⟨.amo, by decide, rfl⟩
  subst hacc
  by_cases he : k.effectivePrivilege csr = .M
  · exact ⟨_, resolveDataPolicy_machine h hk he⟩
  · obtain ⟨check, hpolicy, -⟩ := resolveDataPolicy_eq h hk he
    exact ⟨_, hpolicy⟩

theorem resolveDataPolicy_panic {csr : CsrRegFile} {access : AccessType} {p : PanicSite}
    (h : resolveDataPolicy csr access true = .error p) : p = .dataAccessPrivilege := by
  unfold resolveDataPolicy at h
  cases hd : determineDataAccessPrivilege csr with
  | ok privilege =>
    rw [hd] at h
    simp only [bind, Except.bind] at h
    split at h
    · cases h
    · split at h <;> cases h
  | error q =>
    rw [hd] at h
    cases h
    unfold determineDataAccessPrivilege at hd
    split at hd
    · split at hd
      · cases hd
      · split at hd <;> cases hd <;> rfl
    · cases hd
    · cases hd
    · cases hd
      rfl

theorem Calm.dataPolicy (access : AccessType) : Calm S (dataPolicy access : CpuM P AccessPolicy) := by
  intro s hs
  refine Spec.get_bind ?_
  cases h : resolveDataPolicy s.csr access true with
  | ok policy => exact Still.refl s
  | error p =>
    rcases hs.modes with hd | ⟨hS, -⟩
    · obtain ⟨policy, hp⟩ := resolveDataPolicy_of_defined hd access
      rw [hp] at h
      cases h
    · rw [resolveDataPolicy_panic h]
      exact hS

theorem fromMemoryErr_known (e : MemError) :
    Exception.fromMemoryErr e ≠ .unknown ∧ Exception.fromMemoryErr e ≠ .illegalInstruction := by
  cases e <;> decide

/-- A load, in either of its forms. -/
theorem Calm.finishMemoryAccess {addr : WordType}
    {m : Exec PanicSite MemError (VirtAddrManager P.bus) α}
    (hm : ∀ mem : VirtAddrManager P.bus, mem.pageTable.adUpdatePolicy = .faultOnClear →
      Spec PanicSite.Benign m mem fun _ mem' => MemStill mem mem') :
    Calm S (finishMemoryAccess addr .fromMemoryErr m) := by
  intro s hs
  refine finishMemoryAccess_spec ((hm s.memory hs.policy).weaken hs.benign)
    (fun a memory h => ?_) fun e memory h => ?_
  · exact ⟨h, .refl _, rfl, rfl, rfl, rfl⟩
  · exact Failed.of_known ⟨h.toMemAfter, .refl _, rfl, rfl⟩ (fromMemoryErr_known e).1
      (fromMemoryErr_known e).2

/-- A store, in any of its forms. -/
theorem Done.finishMemoryAccess {addr : WordType} {toException : ε → Exception}
    {m : Exec PanicSite ε (VirtAddrManager P.bus) α}
    (hm : ∀ mem : VirtAddrManager P.bus, mem.pageTable.adUpdatePolicy = .faultOnClear →
      Spec PanicSite.Benign m mem fun r mem' => MemAfter mem mem' ∧ ∀ e, r = .error e →
        toException e ≠ .unknown ∧ toException e ≠ .illegalInstruction) :
    Done S (finishMemoryAccess addr toException m) := by
  intro s hs
  refine finishMemoryAccess_spec ((hm s.memory hs.policy).weaken hs.benign)
    (fun a memory h => ?_) fun e memory h => ?_
  · exact ⟨⟨h.1, .refl _, rfl, rfl⟩, rfl⟩
  · exact Failed.of_known ⟨h.1, .refl _, rfl, rfl⟩ (h.2 e rfl).1 (h.2 e rfl).2

theorem Calm.read (w : Width) (addr : WordType) : Calm S (read w addr : CpuM P WordType) :=
  (Calm.dataPolicy .read).bind fun policy => .finishMemoryAccess fun _ hp =>
    (readWithPolicy_still w addr hp policy.faultIn_true fun _ _ => trivial).mono fun _ _ h => h.1

theorem Calm.loadReserved (w : Width) (addr : WordType) :
    Calm S (loadReserved w addr : CpuM P WordType) :=
  (Calm.dataPolicy .read).bind fun policy => .finishMemoryAccess fun _ hp =>
    (loadReservedWithPolicy_leaves (.refl _) (translate_still addr policy hp)).mono
      fun _ _ => .of_leaves

theorem Done.write (w : Width) (addr data : WordType) : Done S (write w addr data : CpuM P Unit) :=
  (Calm.dataPolicy .write).then_done fun policy => .finishMemoryAccess fun _ hp =>
    (writeWithPolicy_leaves (fun _ h => h) (translate_still addr policy hp)).mono fun _ _ h =>
      ⟨.of_leaves h, fun e _ => fromMemoryErr_known e⟩

theorem Done.storeConditional (w : Width) (addr data : WordType) :
    Done S (storeConditional w addr data : CpuM P Bool) :=
  (Calm.dataPolicy .write).then_done fun policy => .finishMemoryAccess fun _ hp =>
    (storeConditionalWithPolicy_leaves (.refl _) (translate_still addr policy hp)).mono fun _ _ h =>
      ⟨.of_leaves h, fun e _ => fromMemoryErr_known e⟩

theorem Done.fetchAndOpAmo (w : Width) (addr : WordType) (f : WordType → WordType) :
    Done S (fetchAndOpAmo w addr f : CpuM P WordType) :=
  (Calm.dataPolicy .readWrite).then_done fun policy => .finishMemoryAccess fun _ hp =>
    (fetchAndOpAmoWithPolicy_leaves (translate_still addr policy hp)).mono fun _ _ h => by
      refine ⟨.of_leaves h.1, fun e he => ?_⟩
      have hmem := h.2 e he
      simp only [List.mem_cons, List.not_mem_nil, or_false] at hmem
      rcases hmem with rfl | rfl | rfl <;> decide

end Accesses

end HereEmu
