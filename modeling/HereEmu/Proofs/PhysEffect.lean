import HereEmu.Proofs.InstrFrame
import HereEmu.Proofs.PreciseTrap
import HereEmu.Proofs.VectorIsolation

/-!
# What an instruction does to the physical address space

Everything an instruction does to RAM and to the devices it does by way of a
few operations: translations, loads, stores, SC, AMO, and LR. A relation that
those keep to (`PhysRel`) is kept to by every function of the dispatch table,
whichever way it ends, and by whole steps of the CPU. LR is the operation that
is left out, since the relations this is used for are about the reservation.
-/

namespace HereEmu

open Lib (Exec)
open Lib.Exec (Spec Along Outcome)
open RVCPU VirtAddrManager

/-- A relation between physical memories that every operation but LR keeps to. -/
class PhysRel {B : DeviceBus} (R : MemoryMapIo B → MemoryMapIo B → Prop) : Prop extends
    IsPreorder (MemoryMapIo B) R where
  /-- The entry of a leaf is written behind the back of the reservation. -/
  translate : ∀ io w va check effect r w' ram,
    PageTableWalker.translateVaddr w io.ram va check effect = .ok (r, w', ram) → R io { io with ram }
  read : ∀ io w addr r io', io.readByType w addr = .ok (r, io') → R io io'
  write : ∀ io w addr data r io', io.writeByType w addr data = .ok (r, io') → R io io'
  storeConditional : ∀ io w addr data, R io (io.storeConditional w addr data).2
  clearReservation : ∀ io, R io io.clearReservation
  amo : ∀ io w f offset, R io { io with ram := (amoOnRam w f io.ram offset).2 }

/-! ## Memory -/

section Memory

variable {B : DeviceBus} {R : MemoryMapIo B → MemoryMapIo B → Prop} {ε α β : Type}

/-- A computation on memory keeps to `R`. -/
def MemThrough (R : MemoryMapIo B → MemoryMapIo B → Prop)
    (m : Exec PanicSite ε (VirtAddrManager B) α) : Prop :=
  Along (Order.Preimage mmio R) m

theorem MemThrough.onMmio {f : MemoryMapIo B → Rust (Except MemError α × MemoryMapIo B)}
    (h : ∀ io r io', f io = .ok (r, io') → R io io') : MemThrough R (VirtAddrManager.onMmio f) := by
  intro m
  show Outcome _ _ _
  unfold VirtAddrManager.onMmio
  rw [Exec.run_ofFun]
  cases hr : f m.mmio with
  | error p => trivial
  | ok out => exact h _ _ _ hr

variable [PhysRel R]

theorem MemThrough.translateVaddr (va : WordType) (check : PermissionCheck) (effect : AccessEffect) :
    MemThrough R (VirtAddrManager.translateVaddr va check effect) := by
  intro m
  show Outcome _ _ _
  unfold VirtAddrManager.translateVaddr
  rw [Exec.run_ofFun]
  cases hr : m.pageTable.translateVaddr m.mmio.ram va check effect with
  | error p => trivial
  | ok out => exact PhysRel.translate m.mmio _ va check effect _ _ _ hr

theorem MemThrough.translateWithPolicy (va : WordType) (policy : AccessPolicy) :
    MemThrough R (VirtAddrManager.translateWithPolicy va policy) := by
  cases policy with
  | direct => exact .pure va
  | translated check effect fault =>
    unfold VirtAddrManager.translateWithPolicy
    exact (MemThrough.translateVaddr va check effect).mapError fun _ _ => rfl

theorem MemThrough.readByPaddr (w : Width) (addr : WordType) : MemThrough R (readByPaddr w addr) :=
  .onMmio fun io => PhysRel.read io w addr

theorem MemThrough.readWithPolicy (w : Width) (addr : WordType) (policy : AccessPolicy) :
    MemThrough R (readWithPolicy w addr policy) :=
  (MemThrough.translateWithPolicy addr policy).bind fun _ => MemThrough.readByPaddr w _

theorem MemThrough.writeWithPolicy (w : Width) (addr data : WordType) (policy : AccessPolicy) :
    MemThrough R (writeWithPolicy w addr data policy) :=
  (MemThrough.translateWithPolicy addr policy).bind fun paddr =>
    MemThrough.onMmio fun io => PhysRel.write io w paddr data

theorem MemThrough.storeConditionalWithPolicy (w : Width) (addr data : WordType)
    (policy : AccessPolicy) :
    MemThrough R (VirtAddrManager.storeConditionalWithPolicy w addr data policy) := by
  have hattempt : ∀ paddr, MemThrough R (storeConditionalByPaddr w paddr data) :=
    fun paddr => .onMmio fun io r io' h => by
      cases h
      exact trans_of R (PhysRel.storeConditional io w paddr data) (PhysRel.clearReservation _)
  have hrest : MemThrough R (do
      let paddr ← VirtAddrManager.translateWithPolicy addr policy
      storeConditionalByPaddr w paddr data) :=
    (MemThrough.translateWithPolicy addr policy).bind hattempt
  have hclear : MemThrough R VirtAddrManager.clearReservation :=
    Along.modify fun m => PhysRel.clearReservation m.mmio
  unfold VirtAddrManager.storeConditionalWithPolicy
  split
  · exact hclear.bind fun _ => .throw _
  · exact hrest

theorem MemThrough.fetchAndOpAmoWithPolicy (w : Width) (addr : WordType) (policy : AccessPolicy)
    (f : WordType → WordType) : MemThrough R (fetchAndOpAmoWithPolicy w addr policy f) := by
  have htranslate : MemThrough R ((VirtAddrManager.translateWithPolicy addr policy).mapError
      fun _ m => (Exception.storePageFault, m)) :=
    (MemThrough.translateWithPolicy addr policy).mapError fun _ _ => rfl
  refine htranslate.bind fun paddr => ?_
  unfold fetchAndOpAmoByPaddr
  dsimp only
  intro m
  split
  · exact refl m.mmio
  · split
    · exact refl m.mmio
    · exact PhysRel.amo m.mmio w f _

end Memory

/-! ## The parts of an instruction -/

section Parts

variable {P : Platform} {R : MemoryMapIo P.bus → MemoryMapIo P.bus → Prop} {ε α β : Type}

/-- The relation, as one between states of the CPU. -/
abbrev OnPhys (R : MemoryMapIo P.bus → MemoryMapIo P.bus → Prop) : RVCPU P → RVCPU P → Prop :=
  Order.Preimage (fun s => s.memory.mmio) R

/-- A computation on the CPU keeps to `R`. -/
def Through (R : MemoryMapIo P.bus → MemoryMapIo P.bus → Prop)
    (m : Exec PanicSite ε (RVCPU P) α) : Prop := Within (OnPhys R) m

theorem Through.finishMemoryAccess {addr : WordType} {toException : ε → Exception}
    {m : Exec PanicSite ε (VirtAddrManager P.bus) α} (h : MemThrough R m) :
    Through R (finishMemoryAccess addr toException m) :=
  fun s => finishMemoryAccess_spec (h s.memory) (fun _ _ h => h) fun _ _ h => h

variable [PhysRel R]

/-- The rest of the machine is not part of the relation. -/
theorem Through.modify {g : RVCPU P → RVCPU P} (h : ∀ s, (g s).memory.mmio = s.memory.mmio) :
    Through R (modify g : Exec PanicSite ε (RVCPU P) PUnit) :=
  Along.modify fun s => by
    show R s.memory.mmio (g s).memory.mmio
    rw [h s]
    exact refl _

/-- The state read is written back with the same memory. -/
theorem Through.of_same {m : Exec PanicSite ε (RVCPU P) α}
    (h : ∀ s r s', m.run s = .ok (r, s') → s'.memory.mmio = s.memory.mmio) : Through R m := by
  refine fun s => .of_ends fun r s' hr => ?_
  show R _ s'.memory.mmio
  rw [h s r s' hr]
  exact refl _

/-- What only works on the registers. -/
theorem Through.of_fin {m : CpuM P α} (h : Fin (fun _ => True) m) : Through R m := by
  refine .of_same fun s r s' hr => ?_
  have hout := (h (fun _ _ => trivial) s).elim hr
  cases r with
  | ok _ => rw [hout.memory]
  | error e => exact hout.elim

theorem Through.dataPolicy (access : AccessType) :
    Through R (dataPolicy access) := .get_bind fun _ => .lift _

theorem Through.read (w : Width) (a : WordType) : Through R (read w a) :=
  (Through.dataPolicy _).bind fun _ => Through.finishMemoryAccess (.readWithPolicy w a _)

theorem Through.write (w : Width) (a data : WordType) : Through R (write w a data) :=
  (Through.dataPolicy _).bind fun _ => Through.finishMemoryAccess (.writeWithPolicy w a data _)

theorem Through.storeConditional (w : Width) (a data : WordType) :
    Through R (storeConditional w a data) :=
  (Through.dataPolicy _).bind fun _ => Through.finishMemoryAccess (.storeConditionalWithPolicy w a data _)

theorem Through.fetchAndOpAmo (w : Width) (a : WordType) (f : WordType → WordType) :
    Through R (fetchAndOpAmo w a f) :=
  (Through.dataPolicy _).bind fun _ => Through.finishMemoryAccess (.fetchAndOpAmoWithPolicy w a _ f)

theorem Through.readCsr (addr : WordType) : Through R (readCsr addr) := by
  refine .get_bind fun s => ?_
  split
  · split
    · next timeAddr _ =>
        refine Along.mapError (fun s => ?_) fun _ _ => rfl
        have hread := MemThrough.readByPaddr (R := R) .u64 timeAddr s.memory
        show Outcome _ _ (((readByPaddr .u64 timeAddr).run s.memory).map _)
        cases hr : (readByPaddr .u64 timeAddr).run s.memory with
        | error p => trivial
        | ok out => exact hread.elim hr
    · exact .throw _
  · split
    · exact .pure _
    · exact .throw _

theorem Through.writeCsr (addr data : WordType) : Through R (writeCsr addr data) := by
  refine .of_same fun s r s' h => ?_
  cases hlegal : s.csr.isWritePrivLegal addr with
  | false =>
    unfold RVCPU.writeCsr CsrRegFile.writeChecked at h
    rw [Exec.run_bind_ok (Exec.run_get s), hlegal] at h
    cases h
    rfl
  | true =>
    rw [run_writeCsr hlegal] at h
    split at h
    · rcases applySatp_cases { s with csr := s.csr.writeUncheckPrivilege addr data } with
        ⟨hap, -⟩ | ⟨cpu', hap, -, -, hmmio, -⟩
      · rw [hap] at h
        cases h
      · rw [hap] at h
        cases h
        exact hmmio
    · cases h
      rfl

end Parts

/-! ## The functions of the dispatch table -/

section Functions

variable {P : Platform} {R : MemoryMapIo P.bus → MemoryMapIo P.bus → Prop} [PhysRel R]

/-- One access after the other. -/
theorem PhysRel.replays {io io' : MemoryMapIo P.bus} {log : List (ElementAccess P.bus)}
    (h : Replays io log io') : R io io' := by
  induction log generalizing io with
  | nil =>
    cases h
    exact refl _
  | cons a log ih =>
    obtain ⟨-, r, io₁, hphys, hrest⟩ := h
    refine trans_of R (b := io₁) ?_ (ih hrest)
    unfold ElementAccess.physical at hphys
    split at hphys
    · obtain ⟨out, hread, hout⟩ := Lib.exists_of_map_ok hphys
      cases hout
      exact PhysRel.read _ _ _ _ _ hread
    · exact PhysRel.write _ _ _ _ _ _ hphys

theorem Through.execVectorMem (op : VectorMemOp) (info : RVInstrInfo) :
    Through R (execVectorMem op info) :=
  fun _ => (execVectorMem_replays op info).mono fun _ _ h => PhysRel.replays h

instance OnPhys.cpuRel : CpuRel (OnPhys R : RVCPU P → RVCPU P → Prop) where
  plain s s' hmem _ _ _ := by
    show R s.memory.mmio s'.memory.mmio
    rw [hmem]
    exact refl _
  vector s s' hmem _ _ := by
    show R s.memory.mmio s'.memory.mmio
    rw [hmem]
    exact refl _
  flushTlb s := refl s.memory.mmio
  read := Through.read
  write := Through.write
  storeConditional := Through.storeConditional
  fetchAndOpAmo := Through.fetchAndOpAmo

/-- Every instruction but LR keeps to the relation. -/
theorem Through.exec {f : ExecFunc P.FloatOp P.VectorOp} (hlr : f.isLr = false)
    (info : RVInstrInfo) : Through R (exec f info) := by
  cases hcsr : f.isCsr with
  | true => exact Within.execCsr (R := OnPhys R) Through.readCsr Through.writeCsr hcsr info
  | false =>
    refine Within.exec (R := OnPhys R) (fun h => ?_) (fun _ => ?_) (fun _ s _ _ => refl s.memory.mmio)
      Through.execVectorMem hcsr info
    · cases hlr.symm.trans h
    · exact ⟨Through.of_fin .saveFflags, fun _ _ _ => Through.modify fun _ => rfl⟩

end Functions

/-! ## Steps -/

/-- The instruction the next step is going to execute. -/
def RVCPU.fetched {P : Platform} (cpu : RVCPU P) : Option P.Decoded :=
  match (decodeAtChecked cpu.pc).run cpu with
  | .ok (.ok d, _) => some d
  | _ => none

/-- The next step executes an LR. -/
def RVCPU.atLr {P : Platform} (cpu : RVCPU P) : Bool :=
  cpu.fetched.any fun d => (getExecFunc d.instr).isLr

/-! A fetch reads memory and does nothing else to it. -/

section Fetch

variable {P : Platform} {Q : VirtAddrManager P.bus → VirtAddrManager P.bus → Prop}
  (hread : ∀ va policy, Along Q (readWithPolicy .u16 va policy))

include hread

theorem ifetchHalf_along (va : WordType) :
    Within (Order.Preimage (memory (P := P)) Q) (ifetchHalf va) := by
  refine fun s => .of_ends fun r s' hrun => ?_
  obtain ⟨policy, _, hrun', -⟩ := ifetchHalf_cases hrun
  exact (hread va policy).elim hrun'

variable [IsPreorder (VirtAddrManager P.bus) Q]

theorem ifetchAt_along (va : WordType) :
    Within (Order.Preimage (memory (P := P)) Q) (ifetchAt va) := by
  refine (ifetchHalf_along hread va).bind fun lo => ?_
  split
  · exact Within.bind (.lift _) fun va' => (ifetchHalf_along hread va').bind fun _ => .pure _
  · exact .pure _

theorem decodeAtChecked_along (va : WordType) :
    Within (Order.Preimage (memory (P := P)) Q) (decodeAtChecked va) := by
  refine .get_bind fun s => ?_
  split
  · exact .pure _
  · refine (ifetchAt_along hread va).bind fun raw => ?_
    refine Within.bind (fun s => refl s.memory) fun d => ?_
    exact Within.bind (Along.modify fun s => refl s.memory) fun _ => .pure d

end Fetch

section Steps

variable {P : Platform} {R : MemoryMapIo P.bus → MemoryMapIo P.bus → Prop} [PhysRel R]
  {s s' : RVCPU P}

theorem Through.ifetchAt (va : WordType) : Through R (ifetchAt va : FetchM P (BitVec 32)) :=
  ifetchAt_along (fun va policy => MemThrough.readWithPolicy .u16 va policy) va

theorem Through.decodeAtChecked (va : WordType) :
    Through R (decodeAtChecked va) :=
  decodeAtChecked_along (fun va policy => MemThrough.readWithPolicy .u16 va policy) va

/-- A trap changes no memory. -/
theorem takeException_mmio {e : Exception} {tval : WordType} (h : s.takeException e tval = .ok s') :
    s'.memory.mmio = s.memory.mmio := by
  rw [(takeException_recorded h).1]

theorem finishStep_through {r : Except Exception Unit} (h : finishStep (r, s) = .ok s') :
    R s.memory.mmio s'.memory.mmio := by
  cases r with
  | ok _ =>
    cases h
    exact refl _
  | error e =>
    by_cases he : e = .illegalInstruction
    · subst he
      obtain ⟨out, hf, h⟩ := Lib.exists_of_bind_ok h
      rw [takeException_mmio h]
      exact (Through.ifetchAt s.pc).elim (ifetchAt_of_refetch hf)
    · rw [finishStep_of_ne he] at h
      rw [takeException_mmio h]
      exact refl _

theorem stepImpl_through (hlr : s.atLr = false) (h : s.stepImpl = .ok s') :
    R s.memory.mmio s'.memory.mmio := by
  have hdecode := Through.decodeAtChecked (R := R) s.pc
  rcases stepImpl_cases h with ⟨e, s₁, hdec, htake⟩ | ⟨d, s₁, r, s₂, hdec, hrun, hfinish⟩
  · rw [takeException_mmio htake]
    exact hdecode.elim hdec
  · have hf : (getExecFunc d.instr).isLr = false := by
      unfold RVCPU.atLr RVCPU.fetched at hlr
      rw [hdec] at hlr
      exact hlr
    have hexec : R s₁.memory.mmio s₂.memory.mmio := (Through.exec hf d.info).elim hrun
    have hend : R s₂.clearX0.memory.mmio s'.memory.mmio := finishStep_through hfinish
    exact trans_of R (hdecode.elim hdec) (trans_of R hexec hend)

/-- No event but an LR and what the devices do by themselves leaves the relation. -/
theorem step_through {e : Event P} (hlr : e = .instr → s.atLr = false)
    (hdev : ∀ dev data, e ≠ .devices dev data) (h : s.step e = .ok s') :
    R s.memory.mmio s'.memory.mmio := by
  cases e with
  | instr =>
    obtain ⟨s₁, hs₁, rfl⟩ := stepOnce_cases h
    show R s.memory.mmio s₁.memory.mmio
    exact stepImpl_through (hlr rfl) hs₁
  | checkInterrupt =>
    have hsame : s'.memory = s.memory := by
      obtain ⟨_, _, _, -, rfl | rfl⟩ := tryTakePendingInterrupt_cases h <;> rfl
    rw [hsame]
    exact refl _
  | irq interrupt level =>
    have hsame : s'.memory = s.memory := by
      obtain ⟨_, _, -, -, rfl⟩ := handleIrq_cases h
      rfl
    rw [hsame]
    exact refl _
  | devices dev data => exact absurd rfl (hdev dev data)

end Steps

end HereEmu
