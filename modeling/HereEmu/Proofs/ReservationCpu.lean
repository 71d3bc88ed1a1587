import HereEmu.Proofs.CsrRun
import HereEmu.Proofs.PhysEffect
import HereEmu.Proofs.Reservation

/-!
# The reservation of the hart

No instruction but LR fills the slot, and an SC empties it, unless its address
does not translate: that path returns before the reservation is dropped. So an
SC that raises a page fault can be followed by one that succeeds.
-/

namespace HereEmu

open Lib (Exec Always)
open Lib.Exec (Along run_bind_ok run_bind_panic run_get)
open RVCPU VirtAddrManager

/-! ## The slot on the CPU -/

/-- The reservation of the hart. -/
def RVCPU.reservation {P : Platform} (cpu : RVCPU P) : Option Reservation := cpu.memory.mmio.ram.reserved

def RVCPU.Unreserved {P : Platform} (cpu : RVCPU P) : Prop := cpu.reservation = none

/-- The reservation is as it was, or gone. -/
def Released {B : DeviceBus} (io io' : MemoryMapIo B) : Prop :=
  io'.ram.reserved = io.ram.reserved ∨ io'.ram.reserved = none

section Slot

variable {B : DeviceBus}

variable {va : WordType}

/-- The walker writes behind the back of the reservation. -/
theorem translateVaddr_reserved {w w' : PageTableWalker} {ram ram' : Ram} {check : PermissionCheck}
    {effect : AccessEffect} {r : Except PageTableError WordType}
    (h : w.translateVaddr ram va check effect = .ok (r, w', ram')) :
    ram'.reserved = ram.reserved := by
  rcases PageTableWalker.translateVaddr_cases h with ⟨-, rfl, -⟩ | ⟨-, -, info, w₁, -, hleaf⟩
  · rfl
  · obtain ⟨-, rfl | ⟨-, na, nd, hset⟩⟩ := PageTableWalker.translateLeaf_eq_ok hleaf
    · rfl
    · obtain ⟨off, rfl⟩ := PageTableWalker.updatePte_eq_ok hset
      rfl

theorem tryInvalidate_released (ram : Ram) (offset : WordType) :
    (ram.tryInvalidateReservation offset).reserved = ram.reserved ∨
      (ram.tryInvalidateReservation offset).reserved = none := by
  unfold Ram.tryInvalidateReservation
  split
  · exact .inr rfl
  · exact .inl rfl

theorem write_released (ram : Ram) (w : Width) (offset data : WordType) :
    (ram.write w offset data).2.reserved = ram.reserved ∨
      (ram.write w offset data).2.reserved = none := by
  unfold Ram.write
  split
  · exact .inl rfl
  · split <;> exact tryInvalidate_released ram offset

theorem storeConditional_released (ram : Ram) (w : Width) (offset data : WordType) :
    (ram.storeConditional w offset data).2.reserved = ram.reserved ∨
      (ram.storeConditional w offset data).2.reserved = none := by
  have hwrite := write_released ram w offset data
  unfold Ram.storeConditional
  split
  · exact .inr rfl
  · split
    · split
      · next h => rw [h] at hwrite; exact hwrite
      · next h => rw [h] at hwrite; exact hwrite
    · exact .inr rfl

variable {w : Width}

theorem readByType_ram {io io' : MemoryMapIo B} {addr : WordType} {r : Except MemError WordType}
    (h : io.readByType w addr = .ok (r, io')) : io'.ram = io.ram :=
  ((readByType_outcome io w addr).elim h).1

variable {data : WordType}

theorem writeByType_released {io io' : MemoryMapIo B} {addr : WordType} {r : Except MemError Unit}
    (h : io.writeByType w addr data = .ok (r, io')) : Released io io' := by
  unfold MemoryMapIo.writeByType MemoryMapIo.writeToDevice at h
  split at h
  · cases h
    exact write_released io.ram w _ data
  · split at h
    · cases h; exact .inl rfl
    · split at h
      · cases h; exact .inl rfl
      · split at h
        · cases h; exact .inl rfl
        · split at h <;> cases h <;> exact .inl rfl

/-- No operation but LR fills the slot. -/
instance : PhysRel (Released (B := B)) where
  refl _ := .inl rfl
  trans io io₁ io₂ h h' := by
    unfold Released at *
    rcases h' with h' | h'
    · rw [h']
      exact h
    · exact .inr h'
  translate _ _ _ _ _ _ _ _ h := .inl (translateVaddr_reserved h)
  read _ _ _ _ _ h := .inl (congrArg Ram.reserved (readByType_ram h))
  write _ _ _ _ _ _ h := writeByType_released h
  storeConditional io w addr data := by
    unfold MemoryMapIo.storeConditional
    split
    · exact storeConditional_released io.ram w _ data
    · exact .inl rfl
  clearReservation _ := .inr rfl
  amo io w f offset := by
    exact tryInvalidate_released { io.ram with data := _ } offset

/-- The slot is the same. -/
def SameSlot (m m' : VirtAddrManager B) : Prop := m'.mmio.ram.reserved = m.mmio.ram.reserved

instance : IsPreorder (VirtAddrManager B) SameSlot where
  refl _ := rfl
  trans _ _ _ h h' := Eq.trans h' h

theorem translateWithPolicy_sameSlot (va : WordType) (policy : AccessPolicy) :
    Along SameSlot (translateWithPolicy va policy : MemM B WordType) := by
  have htranslate : ∀ check effect, Along SameSlot (translateVaddr (B := B) va check effect) := by
    intro check effect m
    show Exec.Outcome _ _ _
    unfold translateVaddr
    rw [Exec.run_ofFun]
    cases hr : m.pageTable.translateVaddr m.mmio.ram va check effect with
    | error p => trivial
    | ok out => exact translateVaddr_reserved hr
  cases policy with
  | direct => exact fun _ => rfl
  | translated check effect fault =>
    unfold translateWithPolicy
    exact (htranslate check effect).mapError fun _ _ => rfl

/-- The address translates, so the SC gets to its attempt. -/
def Translates (m : VirtAddrManager B) (va : WordType) (policy : AccessPolicy) : Prop :=
  ∃ paddr m', (translateWithPolicy va policy).run m = .ok (.ok paddr, m')

variable {m m' : VirtAddrManager B} {policy : AccessPolicy} {r : Except MemError Bool}

/-- An SC fails before its attempt or makes it. -/
theorem storeConditionalWithPolicy_cases
    (h : (storeConditionalWithPolicy w va data policy).run m = .ok (r, m')) :
    (checkAlign w va = false ∧ r = .error .storeMisaligned ∧
      m' = { m with mmio := m.mmio.clearReservation }) ∨
    (checkAlign w va ∧ ∃ e, r = .error e ∧
      (translateWithPolicy va policy).run m = .ok (.error e, m')) ∨
    (checkAlign w va ∧ ∃ paddr m₁,
      (translateWithPolicy va policy).run m = .ok (.ok paddr, m₁) ∧
      r = (m₁.mmio.storeConditional w paddr data).1 ∧
      m' = { m₁ with mmio := (m₁.mmio.storeConditional w paddr data).2.clearReservation }) := by
  unfold storeConditionalWithPolicy at h
  cases halign : checkAlign w va with
  | false =>
    rw [halign] at h
    cases h
    exact .inl ⟨rfl, rfl, rfl⟩
  | true =>
    rw [halign] at h
    replace h : Exec.run (translateWithPolicy va policy >>= fun paddr =>
      storeConditionalByPaddr w paddr data) m = .ok (r, m') := h
    rw [Exec.run_bind] at h
    rcases ht : (translateWithPolicy va policy).run m with p | ⟨e | paddr, m₁⟩ <;> rw [ht] at h <;>
      cases h
    · exact .inr (.inl ⟨rfl, e, rfl, rfl⟩)
    · exact .inr (.inr ⟨rfl, paddr, m₁, rfl, rfl, rfl⟩)

/-- An SC empties the slot, but for an address that does not translate. -/
theorem storeConditionalWithPolicy_reserved
    (h : (storeConditionalWithPolicy w va data policy).run m = .ok (r, m')) :
    m'.mmio.ram.reserved = none ↔
      m.mmio.ram.reserved = none ∨ checkAlign w va = false ∨ Translates m va policy := by
  rcases storeConditionalWithPolicy_cases h with
    ⟨halign, -, rfl⟩ | ⟨halign, e, -, ht⟩ | ⟨-, paddr, m₁, ht, -, rfl⟩
  · exact iff_of_true rfl (.inr (.inl halign))
  · have hsame : m'.mmio.ram.reserved = m.mmio.ram.reserved :=
      (translateWithPolicy_sameSlot va policy).elim ht
    rw [hsame]
    refine ⟨.inl, ?_⟩
    rintro (hnone | hfalse | ⟨paddr, m₁, hok⟩)
    · exact hnone
    · rw [halign] at hfalse
      cases hfalse
    · rw [ht] at hok
      cases hok
  · exact iff_of_true rfl (.inr (.inr ⟨paddr, m₁, ht⟩))

/-- Without a reservation an SC does not succeed. -/
theorem storeConditionalWithPolicy_fails (hnone : m.mmio.ram.reserved = none)
    (h : (storeConditionalWithPolicy w va data policy).run m = .ok (r, m')) : r ≠ .ok true := by
  rcases storeConditionalWithPolicy_cases h with
    ⟨-, rfl, -⟩ | ⟨-, e, rfl, -⟩ | ⟨-, paddr, m₁, ht, rfl, -⟩
  · exact nofun
  · exact nofun
  · have hsame : SameSlot m m₁ := (translateWithPolicy_sameSlot va policy).elim ht
    have hram : m₁.mmio.ram.reserved = none := hsame.trans hnone
    unfold MemoryMapIo.storeConditional Ram.storeConditional
    rw [hram]
    split
    · dsimp only
      split <;> exact nofun
    · exact nofun

end Slot

/-! ## SC as an instruction -/

section Instruction

variable {P : Platform} {s s₁ s' : RVCPU P} {w : Width} {rs1 rs2 rd : RegIdx} {rl aq : Bool}
  {d : P.Decoded}

/-- The store conditional of the instruction, on memory. -/
def scAccess (w : Width) (rs1 rs2 : RegIdx) (s : RVCPU P) (policy : AccessPolicy) :
    MemM P.bus Bool :=
  storeConditionalWithPolicy w (s.regFile rs1) (w.truncate (s.regFile rs2)) policy

/-- How an SC ends: it reports the error of its access, or leaves the outcome in
its register. -/
inductive ScEnds (s : RVCPU P) (w : Width) (rs1 rs2 rd : RegIdx) :
    Except Exception Unit → RVCPU P → Prop
  | refused (policy : AccessPolicy) (e : MemError) (s' : RVCPU P)
      (hpolicy : resolveDataPolicy s.csr .write true = .ok policy)
      (haccess : (scAccess w rs1 rs2 s policy).run s.memory = .ok (.error e, s'.memory)) :
      ScEnds s w rs1 rs2 rd (.error (.fromMemoryErr e)) s'
  | attempted (policy : AccessPolicy) (success : Bool) (s' : RVCPU P)
      (hpolicy : resolveDataPolicy s.csr .write true = .ok policy)
      (haccess : (scAccess w rs1 rs2 s policy).run s.memory = .ok (.ok success, s'.memory))
      (hrd : rd ≠ 0 → s'.regFile rd = if success then 0 else 1) :
      ScEnds s w rs1 rs2 rd (.ok ()) s'

variable {r : Except Exception Unit}

/-- The end of an SC whose attempt was made. -/
theorem scTail_run {v : WordType}
    (h : Exec.run (do writeReg rd v; finish 4) s = .ok (r, s')) :
    r = .ok () ∧ s'.memory = s.memory ∧ (rd ≠ 0 → s'.regFile rd = v) := by
  rw [run_writeReg_bind] at h
  generalize hregs : (if rd = 0 then s.regFile else Function.update s.regFile rd v) = regFile at h
  have hretire : RVCPU.retire.run { s with regFile, pc := s.pc + 4 } = .ok (r, s') := h
  rw [run_retire] at hretire
  split at hretire
  · cases hretire
  · cases hretire
    refine ⟨rfl, rfl, fun hrd => ?_⟩
    rw [← hregs, if_neg hrd]
    exact Function.update_self ..

theorem execSc_ends (h : (execSc w (.A rs1 rs2 rd rl aq)).run s = .ok (r, s')) :
    ScEnds s w rs1 rs2 rd r s' := by
  have hreg : ∀ i, (readReg i).run s = .ok (.ok (s.regFile i), s) := fun _ => rfl
  unfold execSc at h
  rw [run_bind_ok (hreg rs2), run_bind_ok (hreg rs1)] at h
  cases hpolicy : resolveDataPolicy s.csr .write true with
  | error p =>
    have hpanic : (storeConditional w (s.regFile rs1) (w.truncate (s.regFile rs2))).run s =
        .error p := by
      unfold storeConditional dataPolicy
      rw [bind_assoc, run_bind_ok (run_get s), hpolicy]
      rfl
    rw [run_bind_panic hpanic] at h
    cases h
  | ok policy =>
    have hstore : (storeConditional w (s.regFile rs1) (w.truncate (s.regFile rs2))).run s =
        (finishMemoryAccess (s.regFile rs1) .fromMemoryErr (scAccess w rs1 rs2 s policy)).run s :=
      run_bind_ok (run_dataPolicy hpolicy)
    rcases haccess : (scAccess w rs1 rs2 s policy).run s.memory with p | ⟨e | success, memory⟩
    · rw [run_bind_panic (hstore.trans (finishMemoryAccess_panic s haccess _ _))] at h
      cases h
    · rw [Exec.run_bind_error (hstore.trans (finishMemoryAccess_error s haccess _ _))] at h
      cases h
      exact .refused policy e _ hpolicy haccess
    · rw [run_bind_ok (hstore.trans (finishMemoryAccess_ok s haccess _ _))] at h
      obtain ⟨rfl, hmem, hrd⟩ := scTail_run h
      refine .attempted policy success s' hpolicy ?_ hrd
      rw [hmem]
      exact haccess

/-- The address of a store translates under the policy of the hart. -/
def RVCPU.StoreTranslates (s : RVCPU P) (va : WordType) : Prop :=
  ∃ policy, resolveDataPolicy s.csr .write true = .ok policy ∧ Translates s.memory va policy

theorem ScEnds.reservation (h : ScEnds s w rs1 rs2 rd r s') : s'.reservation = none ↔
      s.reservation = none ∨ checkAlign w (s.regFile rs1) = false ∨
        s.StoreTranslates (s.regFile rs1) := by
  have htranslates : ∀ policy, resolveDataPolicy s.csr .write true = .ok policy →
      (s.StoreTranslates (s.regFile rs1) ↔ Translates s.memory (s.regFile rs1) policy) := by
    intro policy hpolicy
    refine ⟨?_, fun h => ⟨policy, hpolicy, h⟩⟩
    rintro ⟨policy', hpolicy', h⟩
    rw [hpolicy] at hpolicy'
    cases hpolicy'
    exact h
  cases h with
  | refused policy e _ hpolicy haccess | attempted policy success _ hpolicy haccess hrd =>
    rw [htranslates policy hpolicy]
    exact storeConditionalWithPolicy_reserved haccess

/-- Without a reservation the outcome is a failure. -/
theorem ScEnds.fails (h : ScEnds s w rs1 rs2 rd (.ok ()) s') (hnone : s.reservation = none)
    (hrd : rd ≠ 0) : s'.regFile rd = 1 := by
  cases h with
  | attempted policy success _ hpolicy haccess hreg =>
    have hfail := storeConditionalWithPolicy_fails hnone haccess
    rw [hreg hrd]
    cases success with
    | true => exact absurd rfl hfail
    | false => rfl

theorem execute_sc_ends (hf : getExecFunc d.instr = .sc w) (hinfo : d.info = .A rs1 rs2 rd rl aq)
    (h : (execute d).run s = .ok (r, s')) : ∃ s₁, ScEnds s w rs1 rs2 rd r s₁ ∧ s' = s₁.clearX0 := by
  obtain ⟨s₁, hrun, rfl⟩ := execute_cases h
  rw [hf, hinfo] at hrun
  have hsc : (execSc w (.A rs1 rs2 rd rl aq)).run s = .ok (r, s₁) := hrun
  exact ⟨s₁, execSc_ends hsc, rfl⟩

/-- The trap of an SC that was refused leaves memory alone. -/
theorem ScEnds.trap_mmio {s₂ : RVCPU P} (h : ScEnds s w rs1 rs2 rd r s₁)
    (hstep : finishStep (r, s₂) = .ok s') : s'.memory.mmio = s₂.memory.mmio := by
  cases h with
  | refused policy e _ hpolicy haccess =>
    have hne : Exception.fromMemoryErr e ≠ .illegalInstruction := by cases e <;> decide
    rw [finishStep_of_ne hne] at hstep
    have hmmio := takeException_mmio hstep
    exact hmmio
  | attempted policy success _ hpolicy haccess hreg =>
    cases hstep
    rfl

/-- If the next instruction is an SC and completes, it reports a failure. -/
def ScFails (s : RVCPU P) : Prop :=
  ∀ d s₁ s₂ w rs1 rs2 rd rl aq, (decodeAtChecked s.pc).run s = .ok (.ok d, s₁) →
    getExecFunc d.instr = .sc w → d.info = .A rs1 rs2 rd rl aq →
    (execute d).run s₁ = .ok (.ok (), s₂) → rd ≠ 0 → s₂.regFile rd = 1

theorem Released.none {io io' : MemoryMapIo P.bus} (h : Released io io')
    (hnone : io.ram.reserved = none) : io'.ram.reserved = none := by
  rcases h with h | h
  · exact h.trans hnone
  · exact h

theorem ScFails.of_unreserved (hnone : s.Unreserved) : ScFails s := by
  intro d s₁ s₂ w rs1 rs2 rd rl aq hdec hf hinfo hexec hrd
  obtain ⟨s₃, hends, rfl⟩ := execute_sc_ends hf hinfo hexec
  have hfetch : Released s.memory.mmio s₁.memory.mmio :=
    (Through.decodeAtChecked (R := Released) s.pc).elim hdec
  have hreg := hends.fails (hfetch.none hnone) hrd
  show Function.update s₃.regFile 0 0 rd = 1
  rw [Function.update_of_ne hrd]
  exact hreg

/-- Without an LR the slot stays empty, whatever else happens. -/
theorem step_unreserved {e : Event P} (hlr : e = .instr → s.atLr = false)
    (hnone : s.Unreserved) (h : s.step e = .ok s') : s'.Unreserved := by
  by_cases hdev : ∃ dev data, e = .devices dev data
  · obtain ⟨dev, data, rfl⟩ := hdev
    cases h
    exact hnone
  · have hrel : Released s.memory.mmio s'.memory.mmio :=
      step_through hlr (fun dev data he => hdev ⟨dev, data, he⟩) h
    exact hrel.none hnone

/-- An SC leaves no reservation exactly if there was none, its address is
misaligned, or the address translates. When none is left, every SC of a run
without an LR fails. -/
theorem sc_step_releases_iff (hdec : (decodeAtChecked s.pc).run s = .ok (.ok d, s₁))
    (hf : getExecFunc d.instr = .sc w) (hinfo : d.info = .A rs1 rs2 rd rl aq)
    (hstep : s.stepImpl = .ok s') :
    (s'.reservation = none ↔
      s₁.reservation = none ∨ checkAlign w (s₁.regFile rs1) = false ∨
        s₁.StoreTranslates (s₁.regFile rs1)) ∧
    (s'.reservation = none → ∀ events,
      Always runStep (fun t e => e = .instr → t.atLr = false) s' events →
      Always runStep (fun t e => e = .instr → ScFails t) s' events) := by
  refine ⟨?_, fun hnone events hlr => ?_⟩
  · rcases hexec : (execute d).run s₁ with p | ⟨r, s₂⟩
    · unfold stepImpl at hstep
      simp only [hdec, hexec, bind, Except.bind] at hstep
      cases hstep
    · rw [stepImpl_decoded hdec hexec] at hstep
      obtain ⟨s₃, hends, rfl⟩ := execute_sc_ends hf hinfo hexec
      have hmmio : s'.memory.mmio = s₃.clearX0.memory.mmio := hends.trap_mmio hstep
      rw [← hends.reservation]
      unfold RVCPU.reservation
      rw [hmmio]
      rfl
  · have hkeep : ∀ (t : RVCPU P) e (o : Unit) t', t.Unreserved → (e = .instr → t.atLr = false) →
        runStep t e = .ok (o, t') → t'.Unreserved :=
      fun t e _ t' ht hC hrun => step_unreserved hC ht (runStep_eq_ok hrun)
    have hfails : ∀ (t : RVCPU P) (e : Event P), t.Unreserved → (e = .instr → t.atLr = false) →
        e = .instr → ScFails t := fun t e ht _ _ => .of_unreserved ht
    exact Always.of_inv hkeep hfails hnone hlr

end Instruction

/-! ### A reservation that outlives an SC -/

/-- Every instruction is `sc.w x3, x2, (x1)`. -/
def scPlatform : Platform := .ramOnly fun _ => some ⟨.SC_W, .A 1 2 3 false false⟩

/-- A machine that has reserved the word `x1` points to and stands before an SC.
Its data accesses go through page tables that map nothing if `mstatus` has MPRV
set and MPP at S; its trap handler is at the start of RAM. -/
def scCpu (mstatus : WordType) : RVCPU scPlatform :=
  let cpu : RVCPU scPlatform := .reset _
    { ram := { Ram.new with reserved := some (.new 0x1000) }, devices := () } none
    fun r => if r = 1 then BASE_ADDR + 0x1000 else if r = 2 then 7 else 5
  { cpu with
    csr := (cpu.csr.setValue .mstatus mstatus).setValue .mtvec BASE_ADDR
    memory := { cpu.memory with pageTable := .new (BASE_ADDR + 0x2000) .page39bit } }

theorem sc_step_releases_iff_direct : ∃ s', (scCpu 0).stepImpl = .ok s' ∧ s'.reservation = none ∧
    Always runStep (fun t e => e = .instr → ScFails t) s' [.instr] := by
  obtain ⟨s₁, hs₁⟩ : ∃ s₁, s₁ = { scCpu 0 with
      icache := (scCpu 0).icache.put (scCpu 0).pc ⟨.SC_W, .A 1 2 3 false false⟩ } := ⟨_, rfl⟩
  have hdec : (decodeAtChecked (scCpu 0).pc).run (scCpu 0) =
      .ok (.ok ⟨.SC_W, .A 1 2 3 false false⟩, s₁) := by
    rw [hs₁]
    rfl
  obtain ⟨s', hstep, hlr⟩ : ∃ s', (scCpu 0).stepImpl = .ok s' ∧ s'.atLr = false := by decide +kernel
  obtain ⟨hiff, hfails⟩ := sc_step_releases_iff hdec rfl rfl hstep
  have hnone : s'.reservation = none := by
    refine hiff.mpr (.inr (.inr ⟨.direct, ?_, _, _, rfl⟩))
    rw [hs₁]
    rfl
  exact ⟨s', hstep, hnone, hfails hnone [.instr] ⟨fun _ => hlr, fun _ _ _ => trivial⟩⟩

/-- The SC raises a store page fault and keeps the reservation, and the same SC
in the trap handler, where it is not translated, succeeds. -/
theorem sc_fault_keeps_reservation :
    (scCpu 0x20800).stepImpl.map (fun s' => (s'.csr.value .mcause, s'.reservation)) =
      .ok (15, some (.new 0x1000)) ∧
    ((scCpu 0x20800).stepImpl >>= stepImpl).map (fun s' =>
      (s'.regFile 3, (Lib.loadLE s'.memory.mmio.ram.data 0x1000 4 : WordType))) = .ok (0, 7) := by
  decide +kernel

end HereEmu
