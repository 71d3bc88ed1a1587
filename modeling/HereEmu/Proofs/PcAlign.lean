import HereEmu.Proofs.CsrRun
import HereEmu.Proofs.JumpTarget
import HereEmu.Proofs.PreciseTrap

/-!
# The program counter stays aligned

Every way to set the program counter keeps it aligned but one: `mret` and
`sret` go to `mepc` and `sepc` as they are, and software may have written
anything there. So the invariant is about all three registers, and it is kept
by every step that does not write an address that is not aligned to `mepc` or
`sepc`. What the decoders give is part of the invariant too, since the
instruction cache carries it from one step to the next.
-/

namespace HereEmu

open Lib (Exec Always)
open Lib.Exec (Spec Ends)
open CsrRegFile RVCPU

/-! ## What a step does to the program counter -/

section Moves

variable {P : Platform} {s s₁ s₂ s' : RVCPU P} {d : P.Decoded}

/-- How an instruction moves the program counter: it is trapped where it is, or
it arrives. -/
inductive Moved (s s' : RVCPU P) : Prop
  | trapped {c₁ c₂ e tval} : SameControl s.csr c₁ →
    TrapTaken c₁ s.pc (.exception e) tval c₂ s'.pc → SameControl c₂ s'.csr → Moved s s'
  | arrived {d : P.Decoded} {s₁ s₂ : RVCPU P} : (decodeAtChecked s.pc).run s = .ok (.ok d, s₁) →
    ExecOutcome (getExecFunc d.instr) d.info s₁ (.ok ()) s₂ →
    Arrived s₁ (getExecFunc d.instr) d.info s₂ → s'.pc = s₂.pc → SameControl s₂.csr s'.csr →
    Moved s s'

theorem Moved.then_same (h : Moved s s₁) (hpc : s₂.pc = s₁.pc) (hcsr : SameControl s₁.csr s₂.csr) :
    Moved s s₂ := by
  cases h with
  | trapped hsame ht hsame' =>
    rw [← hpc] at ht
    exact .trapped hsame ht (hsame'.trans hcsr)
  | arrived hdec hexec harr hpc' hsame =>
    exact .arrived hdec hexec harr (hpc.trans hpc') (hsame.trans hcsr)

/-- A trap taken where the instruction is. -/
theorem moved_of_takeException {e : Exception} {tval : WordType} (hpc : s₁.pc = s.pc)
    (hcsr : SameControl s.csr s₁.csr) (h : s₁.takeException e tval = .ok s') : Moved s s' := by
  obtain ⟨ctx, ht, h⟩ := Lib.exists_of_bind_ok h
  cases h
  rw [hpc] at ht
  exact .trapped hcsr (takeException_taken ht) (.refl _)

theorem stepImpl_moved (hst : Steady s) (h : s.stepImpl = .ok s') : Moved s s' := by
  have hready := hst.stepReady
  have hdecode := decodeAtChecked_spec s.pc hready.toFetchReady
  rcases stepImpl_cases h with ⟨e, s₁, hrun, htake⟩ | ⟨d, s₁, r, s₃, hrun, hx, hfinish⟩
  · obtain ⟨hf, -⟩ := hdecode.elim hrun
    refine moved_of_takeException (by rw [hf.rest]) ?_ htake
    rw [hf.csr]
    exact .refl _
  · obtain ⟨hf, -⟩ := hdecode.elim hrun
    have houtcome := (exec_spec (getExecFunc d.instr) d.info (hf.ready hready)
      fun _ _ => .inr hready.setMode).elim hx
    have hmove := (exec_pc (getExecFunc d.instr) d.info).elim hx
    cases r with
    | ok _ =>
      cases hfinish
      exact .arrived hrun houtcome hmove rfl (.refl _)
    | error e =>
      obtain ⟨hfailed⟩ := houtcome
      obtain ⟨s₄, tval, hagain, htake, -⟩ := finishStep_error hfinish
      have hpc₄ : s₄.pc = s₃.pc := by rw [hagain.only]; rfl
      have hcsr₄ : s₄.csr = s₃.csr := by rw [hagain.only]; rfl
      refine moved_of_takeException (hpc₄.trans (hmove.trans (by rw [hf.rest]))) ?_ htake
      rw [hcsr₄, ← hf.csr]
      exact hfailed.after.csr

theorem stepOnce_moved (hst : Steady s) (h : s.stepOnce = .ok s') : Moved s s' := by
  obtain ⟨s₁, himpl, rfl⟩ := stepOnce_cases h
  exact (stepImpl_moved hst himpl).then_same rfl (regsOnly_incrementMcycle s₁).csr

end Moves

/-! ## The registers a return reads -/

section Registers

theorem cEnabled_congr {c c' : CsrRegFile} (h : c'.value .misa = c.value .misa) :
    cEnabled c' = cEnabled c := congrArg (fun v => BitField.get ⟨0, 25⟩ v &&& 0b100 != 0) h

theorem aligned_congr {c c' : CsrRegFile} {a : WordType} (h : cEnabled c' = cEnabled c) :
    Aligned c' a ↔ Aligned c a := by
  unfold Aligned ialign
  rw [h]

/-- `mepc` and `sepc` hold addresses instructions may start at. -/
structure ReturnsAligned (c₀ c : CsrRegFile) : Prop where
  misa : c.value .misa = c₀.value .misa
  mepc : Aligned c₀ (c.value .mepc)
  sepc : Aligned c₀ (c.value .sepc)

variable {c₀ c c' : CsrRegFile}

theorem ReturnsAligned.congr (h : ReturnsAligned c₀ c)
    (hv : ∀ r ∈ [Csr.misa, .mepc, .sepc], c'.value r = c.value r) : ReturnsAligned c₀ c' :=
  ⟨(hv .misa (by decide)).trans h.misa, by rw [hv .mepc (by decide)]; exact h.mepc,
    by rw [hv .sepc (by decide)]; exact h.sepc⟩

theorem ReturnsAligned.same (h : ReturnsAligned c₀ c) (hc : SameControl c c') :
    ReturnsAligned c₀ c' := by
  refine h.congr fun r hr => hc.value r ?_
  revert hr
  cases r <;> decide

/-- A trap records an address it was taken at, and goes to a multiple of four. -/
theorem ReturnsAligned.trap {pc pc' tval : WordType} {cause : Trap} (h : ReturnsAligned c₀ c)
    (hpc : Aligned c₀ pc) (ht : TrapTaken c pc cause tval c' pc') : ReturnsAligned c₀ c' := by
  obtain @⟨machine, w, -, -, hentered, -⟩ := ht
  cases machine with
  | true =>
    refine ⟨(hentered.frame .misa (by decide)).trans h.misa, ?_, ?_⟩
    · rw [show c'.value .mepc = pc from hentered.epc]
      exact hpc
    · rw [hentered.frame .sepc (by decide)]
      exact h.sepc
  | false =>
    refine ⟨(hentered.frame .misa (by decide)).trans h.misa, ?_, ?_⟩
    · rw [hentered.frame .mepc (by decide)]
      exact h.mepc
    · rw [show c'.value .sepc = pc from hentered.epc]
      exact hpc

theorem four_dvd_shiftLeft (base : WordType) : 4 ∣ (base <<< 2).toNat := by
  rw [BitVec.toNat_shiftLeft, Nat.shiftLeft_eq]
  omega

theorem nextPcByTvec_aligned {cause : Trap} {mode base pc : WordType}
    (h : TrapController.nextPcByTvec cause mode base = .ok pc) : 4 ∣ pc.toNat := by
  unfold TrapController.nextPcByTvec at h
  split at h
  · cases h
    exact four_dvd_shiftLeft base
  · split at h
    · cases cause with
      | exception e =>
        cases h
        exact four_dvd_shiftLeft base
      | interrupt i =>
        obtain ⟨offset, -, h⟩ := Lib.exists_of_bind_ok h
        split at h
        · cases h
          have hbase := four_dvd_shiftLeft base
          show 4 ∣ ((base <<< 2).toNat + offset.toNat * 4 % 2 ^ 64) % 2 ^ 64
          omega
        · cases h
    · cases h

theorem TrapTaken.aligned {pc pc' tval : WordType} {cause : Trap}
    (h : TrapTaken c pc cause tval c' pc') : 4 ∣ pc'.toNat := by
  obtain ⟨-, -, -, hvec⟩ := h
  exact nextPcByTvec_aligned hvec

/-- The condition on a write: an address it puts into `mepc` or `sepc` is aligned. -/
def AlignedWrite (c : CsrRegFile) (addr data : WordType) : Prop :=
  addr ∈ [Csr.mepc.addr, Csr.sepc.addr] → Aligned c data
  deriving Decidable

theorem misa_of_write (addr data : WordType) :
    (c.writeUncheckPrivilege addr data).value .misa = c.value .misa := by
  by_cases ha : addr = Csr.misa.addr
  · subst ha
    rw [value_write (r := .misa) (by decide) rfl, Csr.validate_const (by decide)]
    show getNewValue 0 (c.value .misa) data = c.value .misa
    refine BitVec.eq_of_getLsbD_eq fun i _ => ?_
    rw [getLsbD_getNewValue, if_neg (by simp)]
  · exact value_write_of_ne (by decide) (by decide) rfl ha

/-- The two registers take any value. -/
theorem ReturnsAligned.write {addr data : WordType} (h : ReturnsAligned c₀ c)
    (hw : AlignedWrite c₀ addr data) : ReturnsAligned c₀ (c.writeUncheckPrivilege addr data) := by
  have hepc : ∀ r ∈ [Csr.mepc, .sepc], Aligned c₀ (c.value r) →
      Aligned c₀ ((c.writeUncheckPrivilege addr data).value r) := by
    intro r hr hold
    have hplain : r ≠ .fcsr ∧ r ∉ [Csr.fcsr, .vcsr] ∧
        r ∉ [Csr.mcycle, .minstret, .mstatus, .mie, .mip] ∧ r.shadowOf = none ∧
        r ∈ [Csr.mcause, .mepc, .mtval, .scause, .sepc, .stval] := by
      revert hr
      cases r <;> decide
    by_cases ha : addr = r.addr
    · subst ha
      rw [writeUncheckPrivilege_addr hplain.1 hplain.2.2.2.1, writeReg_of_keeps
        (keeps_whole hplain.2.2.2.2), setValue_same]
      exact hw (List.mem_map_of_mem (f := Csr.addr) hr)
    · rw [value_write_of_ne hplain.2.1 hplain.2.2.1 hplain.2.2.2.1 ha]
      exact hold
  exact ⟨(misa_of_write addr data).trans h.misa, hepc .mepc (by decide) h.mepc,
    hepc .sepc (by decide) h.sepc⟩

end Registers

/-! ## Runs -/

section Runs

variable {P : Platform} {s s₁ s₂ s' : RVCPU P} {e : Event P} {d : P.Decoded}

/-- What is asked of the platform: the decoder and an untouched slot of the
instruction cache give even offsets, and instructions of 16 bits only where
`misa` has C. -/
structure Platform.DecodesAligned (P : Platform) : Prop where
  decode : ∀ raw d, P.decode raw = some d → WellDecoded (cEnabled (resetCsr P)) d
  zeroed : ∀ d, P.zeroed = some d → WellDecoded (cEnabled (resetCsr P)) d

/-- The decoders of an instruction set are of this kind. -/
theorem decodesAligned_of_decoder (dec : Decoder P.FloatOp P.VectorOp)
    (hdec : ∀ raw, dec.decode raw = .ok (P.decode raw))
    (hc : ∀ raw d, P.decode raw = some d → (getExecFunc d.instr).isCompressed →
      cEnabled (resetCsr P))
    (hzeroed : ∀ d, P.zeroed = some d → WellDecoded (cEnabled (resetCsr P)) d) : P.DecodesAligned :=
  ⟨fun raw d hd => Decoder.wellDecoded ((hdec raw).trans (congrArg Except.ok hd)) (hc raw d hd),
    hzeroed⟩

/-- A transfer of control that would not be aligned is refused if it is a jump,
and a return goes to what is left of its address when the low bits are cleared. -/
structure GuardedTransfer (s₁ : RVCPU P) (d : P.Decoded) (r : Except Exception Unit)
    (s₂ : RVCPU P) : Prop where
  jump : ∀ target, checkedTarget s₁ (getExecFunc d.instr) d.info = some target →
    ¬ Aligned s₁.csr target → r = .error .instructionMisaligned
  mret : getExecFunc d.instr = .mret → r = .ok () → s₂.pc = maskedTarget s₁.csr (s₁.csr.value .mepc)
  sret : getExecFunc d.instr = .sret → r = .ok () → s₂.pc = maskedTarget s₁.csr (s₁.csr.value .sepc)

/-- A step leaves the program counter at a multiple of two, and of four without
the C extension, and its transfer of control is guarded. -/
def AlignedStep (s : RVCPU P) (e : Event P) : Prop :=
  (∀ s', s.step e = .ok s' → 2 ∣ s'.pc.toNat ∧ (cEnabled s'.csr = false → 4 ∣ s'.pc.toNat)) ∧
    (e.isInstr → ∀ d s₁ r s₂, (decodeAtChecked s.pc).run s = .ok (.ok d, s₁) →
      (execute d).run s₁ = .ok (r, s₂) → GuardedTransfer s₁ d r s₂)

/-- The next instruction puts no address that is not aligned into `mepc` or `sepc`. -/
def AlignsReturns (s : RVCPU P) (e : Event P) : Prop :=
  e.isInstr → (nextCsrWrite s).all (fun w => decide (AlignedWrite s.csr w.1 w.2))
  deriving Decidable

structure AlignInv (s : RVCPU P) : Prop where
  steady : Steady s
  pc : Aligned (resetCsr P) s.pc
  returns : ReturnsAligned (resetCsr P) s.csr
  icache : ∀ a d, s.icache.get a = some d → WellDecoded (cEnabled (resetCsr P)) d

theorem AlignInv.cEnabled_eq (h : AlignInv s) : cEnabled s.csr = cEnabled (resetCsr P) :=
  cEnabled_congr h.returns.misa

/-- An instruction comes out of the cache or out of the decoder. -/
theorem decodeAtChecked_found (va : WordType) : Returns (decodeAtChecked va) s fun r _ =>
    ∀ d, r = .ok d → s.icache.get va = some d ∨ ∃ raw, P.decode raw = some d := by
  refine Spec.get_bind ?_
  cases hhit : s.icache.get va with
  | some d => exact fun _ hd => .inl (congrArg some (Except.ok.inj hd))
  | none =>
    refine (ifetchAt_fetchOnly va).seq (fun raw s₁ _ => ?_) fun _ _ _ _ hd => by cases hd
    unfold decodeRaw
    cases hdec : P.decode raw with
    | none => exact fun _ hd => by cases hd
    | some d => exact fun _ hd => .inr ⟨raw, by rw [hdec]; exact congrArg some (Except.ok.inj hd)⟩

theorem AlignInv.wellDecoded (hP : P.DecodesAligned) (h : AlignInv s)
    (hdec : (decodeAtChecked s.pc).run s = .ok (.ok d, s₁)) :
    WellDecoded (cEnabled (resetCsr P)) d := by
  rcases (decodeAtChecked_found s.pc).elim hdec d rfl with hhit | ⟨raw, hraw⟩
  · exact h.icache s.pc d hhit
  · exact hP.decode raw d hraw

/-- A fetched instruction, in the state it is executed in. -/
structure Launched (s₁ : RVCPU P) (d : P.Decoded) : Prop where
  pc : Aligned s₁.csr s₁.pc
  returns : ReturnsAligned (resetCsr P) s₁.csr
  decoded : WellDecoded (cEnabled s₁.csr) d

theorem Launched.aligned_iff (h : Launched s₁ d) (a : WordType) :
    Aligned s₁.csr a ↔ Aligned (resetCsr P) a := aligned_congr (cEnabled_congr h.returns.misa)

theorem AlignInv.launched (hP : P.DecodesAligned) (h : AlignInv s)
    (hdec : (decodeAtChecked s.pc).run s = .ok (.ok d, s₁)) : Launched s₁ d := by
  have hfetch := (decodeAtChecked_fetchOnly s.pc).elim hdec
  have hcsr : s₁.csr = s.csr := by rw [hfetch.only]
  have hpc : s₁.pc = s.pc := by rw [hfetch.only]
  have hc := cEnabled_congr h.returns.misa
  rw [← hcsr] at hc
  refine ⟨?_, by rw [hcsr]; exact h.returns, by rw [hc]; exact h.wellDecoded hP hdec⟩
  rw [hpc]
  exact (aligned_congr hc).mpr h.pc

/-- An instruction that completes leaves `mepc` and `sepc` aligned, if what it
writes there is. -/
theorem ExecOutcome.returnsAligned {f : ExecFunc P.FloatOp P.VectorOp} {info : RVInstrInfo}
    {c₀ : CsrRegFile} (h : ExecOutcome f info s (.ok ()) s') (hold : ReturnsAligned c₀ s.csr)
    (hw : ∀ w, pendingCsrWrite s.csr s.regFile f info = some w → AlignedWrite c₀ w.1 w.2) :
    ReturnsAligned c₀ s'.csr := by
  cases h with
  | plain hafter _ => exact hold.same hafter.csr
  | written hpending hwritten => exact (hold.write (hw _ hpending)).same hwritten.csr
  | fenced hfenced => exact hold.same hfenced.csr
  | returned hret hswitched =>
    refine (hold.congr fun r hr => hret.frame r ?_).same hswitched.csr
    rintro rfl
    exact absurd hr (by decide)

theorem AlignInv.instr (hP : P.DecodesAligned) (h : AlignInv s)
    (hc : ∀ w, nextCsrWrite s = some w → AlignedWrite (resetCsr P) w.1 w.2)
    (hs : s.step .instr = .ok s') : AlignInv s' := by
  have hcached : ∀ a d, s'.icache.get a = some d → WellDecoded (cEnabled (resetCsr P)) d := by
    intro a d hget
    rcases (h.steady.instr hs).caches with hkept | hempty
    · rcases hkept.icache a d hget with hold | ⟨-, raw, _, -, hraw⟩
      · exact h.icache a d hold
      · exact hP.decode raw d hraw
    · rw [hempty.icache a] at hget
      cases hget
  cases stepOnce_moved h.steady hs with
  | trapped hsame ht hsame' =>
    exact ⟨h.steady.step hs, aligned_of_four_dvd ht.aligned,
      ((h.returns.same hsame).trap h.pc ht).same hsame', hcached⟩
  | @arrived d s₁ s₂ hdec hexec harr hpc hsame =>
    have hlaunch := h.launched hP hdec
    refine ⟨h.steady.step hs, ?_, ?_, hcached⟩
    · rw [hpc, harr.1]
      exact (hlaunch.aligned_iff _).mp (nextPc_aligned hlaunch.pc
        ((hlaunch.aligned_iff _).mpr hlaunch.returns.mepc)
        ((hlaunch.aligned_iff _).mpr hlaunch.returns.sepc) hlaunch.decoded harr.2)
    · have hfetch := (decodeAtChecked_fetchOnly s.pc).elim hdec
      refine (hexec.returnsAligned hlaunch.returns fun w hw => hc w ?_).same hsame
      rw [nextCsrWrite_of_decodes ⟨s₁, hdec⟩, ← hw, hfetch.only]

/-- The other events move the program counter by an interrupt at most. -/
theorem AlignInv.idle (h : AlignInv s) (he : e.isInstr = false) (hs : s.step e = .ok s') :
    AlignInv s' := by
  have hcached : ∀ a d, s'.icache.get a = some d → WellDecoded (cEnabled (resetCsr P)) d := by
    rw [(step_idle he hs).icache]
    exact h.icache
  suffices Aligned (resetCsr P) s'.pc ∧ ReturnsAligned (resetCsr P) s'.csr from
    ⟨h.steady.step hs, this.1, this.2, hcached⟩
  cases e with
  | instr => cases he
  | checkInterrupt =>
    obtain ⟨taken, csr, pc, htake, hs'⟩ := tryTakePendingInterrupt_cases hs
    have hctx : Aligned (resetCsr P) pc ∧ ReturnsAligned (resetCsr P) csr := by
      rcases tryTakeInterrupt_cases htake with ⟨-, rfl, rfl⟩ | ⟨i, -, -, htaken⟩
      · exact ⟨h.pc, h.returns⟩
      · exact ⟨aligned_of_four_dvd htaken.aligned, h.returns.trap h.pc htaken⟩
    rcases hs' with rfl | rfl
    · exact hctx
    · exact ⟨hctx.1, hctx.2.same (regsOnly_incrementMcycle { s with csr, pc }).csr⟩
  | irq i level =>
    obtain ⟨f, -, hcsr⟩ := step_irq hs
    have hpc : s'.pc = s.pc := by
      obtain ⟨_, _, -, -, rfl⟩ := handleIrq_cases hs
      rfl
    rw [hpc, hcsr]
    refine ⟨h.pc, h.returns.congr fun r hr => setValue_ne ?_⟩
    rintro rfl
    exact absurd hr (by decide)
  | devices dev data =>
    cases hs
    exact ⟨h.pc, h.returns⟩

theorem AlignInv.guarded (hP : P.DecodesAligned) (h : AlignInv s) {r : Except Exception Unit}
    (hdec : (decodeAtChecked s.pc).run s = .ok (.ok d, s₁)) (hexec : (execute d).run s₁ = .ok (r, s₂)) :
    GuardedTransfer s₁ d r s₂ := by
  have hlaunch := h.launched hP hdec
  obtain ⟨s₃, hrun, rfl⟩ := execute_cases hexec
  refine ⟨fun target ht hbad => ?_, fun hf hr => ?_, fun hf hr => ?_⟩
  · have hj : ¬ JumpAligned s₁.csr target := fun hj =>
      hbad (hj.aligned (checkedTarget_even hlaunch.pc hlaunch.decoded ht))
    exact (exec_refuses ht hj).elim hrun
  · subst hr
    have harr := (exec_pc (getExecFunc d.instr) d.info).elim hrun
    rw [maskedTarget_eq_self ((hlaunch.aligned_iff _).mpr hlaunch.returns.mepc)]
    exact harr.1.trans (by rw [hf]; rfl)
  · subst hr
    have harr := (exec_pc (getExecFunc d.instr) d.info).elim hrun
    rw [maskedTarget_eq_self ((hlaunch.aligned_iff _).mpr hlaunch.returns.sepc)]
    exact harr.1.trans (by rw [hf]; rfl)

theorem AlignInv.step (hP : P.DecodesAligned) (h : AlignInv s) (hc : AlignsReturns s e)
    (hs : s.step e = .ok s') : AlignInv s' := by
  cases he : e.isInstr with
  | false => exact h.idle he hs
  | true =>
    cases e with
    | instr =>
      refine h.instr hP (fun w hw => ?_) hs
      have hall := hc rfl
      rw [hw] at hall
      intro ha
      exact (aligned_congr h.cEnabled_eq).mp (of_decide_eq_true hall ha)
    | _ => cases he

theorem AlignInv.alignedStep (hP : P.DecodesAligned) (h : AlignInv s) (hc : AlignsReturns s e) :
    AlignedStep s e := by
  refine ⟨fun s' hs => ?_, fun _ d s₁ r s₂ hdec hexec => h.guarded hP hdec hexec⟩
  have h' := h.step hP hc hs
  exact aligned_iff.mp ((aligned_congr h'.cEnabled_eq).mpr h'.pc)

theorem alignInv_reset (hP : P.DecodesAligned) (mmio : MemoryMapIo P.bus)
    (timeAddr : Option WordType) (regFile : RegIdx → WordType) {pc : WordType}
    (hpc : Aligned (resetCsr P) pc) : AlignInv { reset P mmio timeAddr regFile with pc } := by
  have hepc : ∀ r ∈ [Csr.mepc, .sepc], Aligned (resetCsr P) ((resetCsr P).value r) := by
    intro r hr
    have hzero : (resetCsr P).value r = 0 := value_resetCsr (by revert hr; cases r <;> decide)
    rw [hzero]
    exact Nat.dvd_zero _
  refine ⟨⟨rfl, rfl⟩, hpc, ⟨rfl, hepc .mepc (by decide), hepc .sepc (by decide)⟩, fun a d hget => ?_⟩
  have hnew : (reset P mmio timeAddr regFile).icache.get a = if 0 = a then P.zeroed else none :=
    DirectCache.get_new
  rw [hnew] at hget
  split at hget
  · exact hP.zeroed d hget
  · cases hget

/-- In every run from an aligned address in which no address that is not aligned
is written to `mepc` or `sepc`, the program counter stays aligned, jumps to
other addresses are refused, and returns go to masked ones. -/
theorem pc_stays_aligned (hP : P.DecodesAligned) (mmio : MemoryMapIo P.bus)
    (timeAddr : Option WordType) (regFile : RegIdx → WordType) (pc : WordType)
    (hpc : Aligned (resetCsr P) pc) (events : List (Event P))
    (h : Always runStep AlignsReturns { reset P mmio timeAddr regFile with pc } events) :
    Always runStep AlignedStep { reset P mmio timeAddr regFile with pc } events :=
  Always.of_inv (fun _ _ _ _ hinv hc hs => hinv.step hP hc (runStep_eq_ok hs))
    (fun _ _ hinv hc => hinv.alignedStep hP hc) (alignInv_reset hP mmio timeAddr regFile hpc) h

/-- No entry of the table describes an instruction of 16 bits. -/
theorem maskDecode_programTable {F V : Type} {raw : BitVec 32} (h : raw &&& 3 ≠ 3) :
    maskDecode (programTable : List (RVInstrDesc F V)) raw = none := by
  have htable : ∀ desc ∈ (programTable : List (RVInstrDesc F V)),
      desc.mask &&& 3 = 3 ∧ desc.key &&& 3 = 3 := by simp [programTable]
  refine Option.map_eq_none_iff.mpr (List.find?_eq_none.mpr fun desc hdesc hm => h ?_)
  obtain ⟨hmask, hkey⟩ := htable desc hdesc
  rw [← hmask, ← BitVec.and_assoc, eq_of_beq hm, hkey, hmask]

theorem decodesAligned_program : Platform.program.DecodesAligned := by
  refine decodesAligned_of_decoder ⟨[], fun _ => none, programTable⟩ (fun raw => ?_)
    (fun _ _ _ _ => rfl) fun _ h => by cases h
  unfold Decoder.decode
  split
  · rfl
  · next hlow => exact congrArg Except.ok (maskDecode_programTable (mt beq_iff_eq.mpr hlow)).symm

/-- A return to the instruction after it. -/
def alignedReturnProgram : List (BitVec 32) :=
  [0x00000097, -- auipc x1, 0
    0x01008093, -- addi x1, x1, 16
    0x34109073, -- csrrw x0, mepc, x1
    0x30200073, -- mret
    0x00000013] -- addi x0, x0, 0

/-- A return to an odd address. -/
def oddReturnProgram : List (BitVec 32) :=
  [0x00100093, -- addi x1, x0, 1
    0x34109073, -- csrrw x0, mepc, x1
    0x30200073] -- mret

theorem pc_stays_aligned_return :
    Always runStep AlignedStep (programCpu alignedReturnProgram)
      [.instr, .instr, .instr, .checkInterrupt, .instr, .instr] :=
  pc_stays_aligned decodesAligned_program _ none _ DEFAULT_PC_VALUE (by decide +kernel) _
    (by decide +kernel)

/-- `mret` goes to an odd address. -/
theorem mret_goes_odd :
    ¬ Always runStep AlignedStep (programCpu oddReturnProgram) [.instr, .instr, .instr] := by
  intro h
  have heven := h.mono
    (Q := fun s e => ∀ s' ∈ (s.step e).toOption, 2 ∣ s'.pc.toNat) fun s e hstep s' hs' => by
    refine (hstep.1 s' ?_).1
    cases hstep' : s.step e with
    | error p => rw [hstep'] at hs'; cases hs'
    | ok s₁ => rw [hstep'] at hs'; exact congrArg Except.ok (Option.some.inj hs')
  exact absurd heven (by decide +kernel)

end Runs

end HereEmu
