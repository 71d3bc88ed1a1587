import HereEmu.Proofs.CsrRun
import HereEmu.Proofs.Interrupt

/-!
# The trap machinery does not stop the emulator

The branches of the trap and privilege code that the source marks as
unreachable are unreachable as long as the CSR file keeps `TrapInv`: the level
and `mstatus.MPP` are levels that exist, both trap vectors are usable, and no
interrupt without a name is pending and enabled.

Trap entry, `mret`, `sret` and the interrupt lines keep it. Guest writes do not:
`mstatus.MPP`, `stvec.MODE` and the reserved bits of `mie` and `mip` take any
value, and the vectored mode adds to a base that may be too large. What is asked
of a guest is that its writes spare those (`TameWrite`), and, for the illegal
instruction that is fetched a second time, that it does not fetch one address at
two levels without a flush.
-/

namespace HereEmu

open Lib (Exec Always)
open Lib.Exec (Spec Ends)
open TrapController CsrRegFile RVCPU TrapTarget BitField BitVec Mstatus

/-! ## The invariant -/

/-- The interrupts that have a name. -/
def namedInterrupts : List Nat := [0, 1, 3, 4, 5, 7, 8, 9, 11]

/-- Their bits. -/
def namedMask : WordType := 0xbbb

/-- What keeps the trap machinery away from its unreachable branches. -/
structure TrapInv (c : CsrRegFile) : Prop where
  priv : PrivilegeDefined c
  mtvec : VectorUsable (c.value .mtvec) 11
  stvec : VectorUsable (c.value .stvec) 11
  pending : c.value .mip &&& c.value .mie &&& ~~~namedMask = 0

section Invariant

variable {c c' : CsrRegFile} {pc tval w tvec : WordType} {cause : Trap} {l : Nat}

/-- The registers the invariant looks at. -/
def trapCsrs : List Csr := [.mtvec, .stvec, .mip, .mie]

theorem TrapInv.of_frame (h : TrapInv c) (hcpl : c'.cpl ≠ .V)
    (hmpp : mpp.get (c'.value .mstatus) ∈ [0, 1, 3])
    (hf : ∀ r ∈ trapCsrs, c'.value r = c.value r) : TrapInv c' := by
  refine ⟨⟨hcpl, hmpp⟩, ?_, ?_, ?_⟩
  · rw [hf .mtvec (by decide)]
    exact h.mtvec
  · rw [hf .stvec (by decide)]
    exact h.stvec
  · rw [hf .mip (by decide), hf .mie (by decide)]
    exact h.pending

theorem TrapInv.same (h : TrapInv c) (hs : SameControl c c') : TrapInv c' := by
  obtain ⟨hcpl, hmpp⟩ := hs.privilegeDefined h.priv
  refine h.of_frame hcpl hmpp fun r hr => hs.value r ?_
  revert r
  decide

theorem TrapInv.named (h : TrapInv c) {i : Nat} (hi : c.PendingEnabled i) :
    i ∈ namedInterrupts := by
  have hbit := congrArg (·.getLsbD i) h.pending
  have hpend : (c.value .mip &&& c.value .mie).getLsbD i := hi
  have hlt : i < 64 := lt_of_getLsbD hpend
  have hnamed : namedMask.getLsbD i := by
    rw [getLsbD_and, hpend, getLsbD_not, decide_eq_true hlt, Bool.true_and, Bool.true_and] at hbit
    simpa using hbit
  have hall : ∀ j < 64, namedMask.getLsbD j → j ∈ namedInterrupts := by decide
  exact hall i hlt hnamed

/-- A level as the field that stores it. -/
theorem toWord_mem {l : PrivilegeLevel} (h : l ≠ .V) : l.toWord ∈ [(0 : WordType), 1, 3] := by
  cases l with
  | V => exact absurd rfl h
  | _ => decide

theorem ne_V_of_toWord {l : PrivilegeLevel} (h : l.toWord ∈ [(0 : WordType), 1, 3]) : l ≠ .V := by
  rintro rfl
  revert h
  decide

/-! ## Taking a trap -/

theorem vectorUsable_mono (h : VectorUsable tvec 11) (hl : l ≤ 11) : VectorUsable tvec l := by
  refine h.imp_right fun ⟨hmode, hroom⟩ => ⟨hmode, ?_⟩
  omega

theorem nextPcByTvec_exception (e : Exception) (h : VectorUsable tvec 11) :
    ∃ pc', nextPcByTvec (.exception e) (Xtvec.mode.get tvec) (Xtvec.base.get tvec) = .ok pc' := by
  refine ⟨Xtvec.base.get tvec <<< 2, ?_⟩
  unfold nextPcByTvec
  rcases h with h0 | ⟨h1, -⟩
  · rw [if_pos h0]
  · rw [h1]
    rfl

theorem intoWord_named (h : l ∈ namedInterrupts) :
    (Interrupt.fromNr l).intoWord = .ok (BitVec.ofNat 64 l) := by
  revert l
  decide

theorem nextPcByTvec_named (hl : l ∈ namedInterrupts) (h : VectorUsable tvec 11) :
    ∃ pc', nextPcByTvec (.interrupt (.fromNr l)) (Xtvec.mode.get tvec) (Xtvec.base.get tvec) =
      .ok pc' := by
  have hle : l ≤ 11 ∧ (BitVec.ofNat 64 l * 4).toNat = 4 * l := by
    clear h
    revert l
    decide
  unfold nextPcByTvec
  rcases vectorUsable_mono h hle.1 with h0 | ⟨h1, hroom⟩
  · exact ⟨_, if_pos h0⟩
  · simp only [h1, intoWord_named hl, bind, Except.bind, hle.2]
    exact ⟨_, if_pos hroom⟩

theorem isDelegated_named (hl : l ∈ namedInterrupts) :
    ∃ b, isDelegatedMMode c (.interrupt (.fromNr l)) = .ok b := by
  simp only [namedInterrupts, List.mem_cons, List.not_mem_nil, or_false] at hl
  rcases hl with rfl | rfl | rfl | rfl | rfl | rfl | rfl | rfl | rfl <;> exact ⟨_, rfl⟩

theorem Entered.trapInv {machine : Bool} (h : Entered (.of machine) c c' pc w tval)
    (hfits : c.cpl.toWord ≤ (of machine).pp.ones) (hc : TrapInv c) : TrapInv c' := by
  refine hc.of_frame (by rw [h.cpl]; cases machine <;> decide) ?_ fun r hr => h.frame r ?_
  · rw [h.mstatus]
    unfold enteredStatus
    cases machine with
    | true =>
      simp only [of, TrapTarget.machine]
      simp (disch := decide) only [get_put_disjoint]
      rw [get_put_same (f := mpp) (by decide) hfits]
      exact toWord_mem hc.priv.cpl
    | false =>
      simp (disch := decide) only [get_put_disjoint]
      exact hc.priv.mpp
  · revert r
    cases machine <;> decide

/-- A trap whose cause has a number and whose delegation is known is taken, or
blocked, and leaves the invariant. -/
theorem TrapInv.trySend (hc : TrapInv c) (pc tval : WordType) (hw : cause.intoWord = .ok w)
    (hd : ∃ b, isDelegatedMMode c cause = .ok b)
    (hnext : ∀ tvec, VectorUsable tvec 11 →
      ∃ pc', nextPcByTvec cause (Xtvec.mode.get tvec) (Xtvec.base.get tvec) = .ok pc') :
    ∃ taken c' pc', trySendTrapSignal c pc cause tval = .ok (taken, c', pc') ∧ TrapInv c' := by
  obtain ⟨machine, hto, hlow⟩ : ∃ machine, toMachine c cause = .ok machine ∧
      (machine = false → c.cpl ≤ .S) := by
    unfold toMachine
    by_cases hM : c.cpl = .M
    · exact ⟨true, if_pos hM, fun h => by cases h⟩
    · obtain ⟨b, hb⟩ := hd
      refine ⟨!b, by rw [if_neg hM, hb]; rfl, fun _ => ?_⟩
      have hV := hc.priv.cpl
      revert hM hV
      cases c.cpl <;> decide
  by_cases hen : Admits c machine cause
  · have hfits := fits hlow
    have husable : VectorUsable (c.value (of machine).tvec) 11 := by
      cases machine with
      | true => exact hc.mtvec
      | false => exact hc.stvec
    obtain ⟨c', hentered, hsend⟩ := trySendTrapSignal_enters pc tval hfits hw hto hen
    obtain ⟨pc', hpc⟩ := hnext _ husable
    exact ⟨true, c', pc', hsend.trans (congrArg (Except.map _) hpc), hentered.trapInv hfits hc⟩
  · exact ⟨_, _, _, (trySendTrapSignal_eq pc tval hto).2 hen, hc⟩

theorem TrapInv.takeException (hc : TrapInv c) (pc tval : WordType) {e : Exception}
    (he : e ≠ .unknown) :
    ∃ c' pc', TrapController.takeException c pc e tval = .ok (c', pc') ∧ TrapInv c' := by
  obtain ⟨w, hw⟩ : ∃ w, (Trap.exception e).intoWord = .ok w := by
    cases e with
    | unknown => exact absurd rfl he
    | _ => exact ⟨_, rfl⟩
  obtain ⟨taken, c', pc', hsend, hinv⟩ := hc.trySend pc tval hw ⟨_, rfl⟩
    fun tvec h => nextPcByTvec_exception e h
  refine ⟨c', pc', ?_, hinv⟩
  unfold TrapController.takeException
  rw [hsend]
  rfl

theorem TrapInv.tryTakeInterrupt (hc : TrapInv c) (pc : WordType) :
    ∃ taken c' pc', TrapController.tryTakeInterrupt c pc = .ok (taken, c', pc') ∧ TrapInv c' := by
  unfold TrapController.tryTakeInterrupt
  by_cases hany : ∃ i, c.PendingEnabled i
  · obtain ⟨i, hi⟩ := hany
    obtain ⟨l, -, hl⟩ := exists_lowest hi
    have hnamed := hc.named hl.1
    have hlt : l < 16 := by
      have hall : ∀ j ∈ namedInterrupts, j < 16 := by decide
      exact hall l hnamed
    obtain ⟨w, hw⟩ : ∃ w, (Trap.interrupt (.fromNr l)).intoWord = .ok w := by
      simp only [Trap.intoWord, intoWord_named hnamed]
      exact ⟨_, rfl⟩
    obtain ⟨taken, c', pc', hsend, hinv⟩ := hc.trySend pc 0 hw (isDelegated_named hnamed)
      fun tvec h => nextPcByTvec_named hnamed h
    refine ⟨if taken then some (.fromNr l) else none, c', pc', ?_, hinv⟩
    rw [hasInterrupt_lowest hl hlt]
    simp only [bind, Except.bind, hsend]
    rfl
  · refine ⟨none, c, pc, ?_, hc⟩
    rw [hasInterrupt_none fun i hi => hany ⟨i, hi⟩]
    rfl

end Invariant

/-! ## Returns and writes -/

section Writes

variable {c c' : CsrRegFile} {data : WordType}

theorem Returned.trapInv {machine : Bool} (h : Returned (.of machine) c c') (hc : TrapInv c) :
    TrapInv c' := by
  refine hc.of_frame (ne_V_of_toWord ?_) ?_ fun r hr => h.frame r ?_
  · rw [h.cpl]
    cases machine with
    | true => exact hc.priv.mpp
    | false =>
      rw [show c.get .mstatus (of false).pp = _ from get_one (by decide)]
      split <;> decide
  · rw [h.mstatus]
    unfold returnStatus
    cases machine with
    | true =>
      simp only [of, TrapTarget.machine]
      rw [get_put_same (by decide) (by decide +kernel)]
      decide
    | false =>
      simp only [of, supervisor, reduceCtorEq, false_and, if_false]
      simp (disch := decide) only [get_put_disjoint]
      exact hc.priv.mpp
  · revert r
    decide

/-- A write that leaves alone what the validators let through: `mstatus.MPP` is
a level that exists, the trap vectors are usable in either mode, and no
interrupt without a name becomes both pending and enabled. -/
@[mk_iff]
structure TameWrite (c : CsrRegFile) (addr data : WordType) : Prop where
  mstatus : addr = Csr.mstatus.addr → mpp.get data ∈ [0, 1, 3]
  mtvec : addr = Csr.mtvec.addr → (Xtvec.base.get data <<< 2).toNat + 4 * 11 < 2 ^ 64
  stvec : addr = Csr.stvec.addr → VectorUsable data 11
  mie : addr = Csr.mie.addr → c.value .mip &&& data &&& ~~~namedMask = 0
  mip : addr = Csr.mip.addr → data &&& c.value .mie &&& ~~~namedMask = 0

instance (tvec : WordType) (l : Nat) : Decidable (VectorUsable tvec l) :=
  inferInstanceAs (Decidable (_ ∨ _))

instance (c : CsrRegFile) (addr data : WordType) : Decidable (TameWrite c addr data) :=
  decidable_of_iff' _ (tameWrite_iff ..)

variable {addr : WordType}

theorem mpp_of_write (hc : TrapInv c) (ht : TameWrite c addr data) :
    (c.writeUncheckPrivilege addr data).get .mstatus mpp ∈ [0, 1, 3] := by
  show mpp.get ((c.writeUncheckPrivilege addr data).value .mstatus) ∈ _
  rcases value_write_cases c (r := .mstatus) (by decide) rfl addr data with
    ⟨rfl, hv⟩ | ⟨view, hview, rfl, hv⟩ | hv
  · rw [hv, get_getNewValue_of_subset (by decide)
      (by rw [Csr.validate_const (by decide)]; decide +kernel)]
    exact ht.mstatus rfl
  · obtain rfl : view = .sstatus := by simpa using shadowOf_mem hview
    rw [hv, get_getNewValue_of_disjoint (by decide)
      (by rw [Csr.validate_const (by decide), Csr.validate_const (r := .sstatus) (by decide)]
          decide +kernel)]
    exact hc.priv.mpp
  · rw [hv]
    exact hc.priv.mpp

theorem stvec_of_write (hc : TrapInv c) (ht : TameWrite c addr data) :
    VectorUsable ((c.writeUncheckPrivilege addr data).value .stvec) 11 := by
  by_cases ha : addr = Csr.stvec.addr
  · subst ha
    have hkeeps : Csr.stvec.Keeps wholeField :=
      .of_mask (by decide) (by decide) (by decide +kernel)
    rw [writeUncheckPrivilege_addr (by decide) rfl, writeReg_of_keeps hkeeps, setValue_same]
    exact ht.stvec rfl
  · rw [value_write_of_ne (by decide) (by decide) rfl ha]
    exact hc.stvec

/-- The mode of `mtvec` is never a reserved one. -/
theorem mode_of_mtvec_write {old v : WordType}
    (hold : Xtvec.mode.get old = 0 ∨ Xtvec.mode.get old = 1) :
    Xtvec.mode.get (getNewValue (Csr.mtvec.validate v) old v) = 0 ∨
      Xtvec.mode.get (getNewValue (Csr.mtvec.validate v) old v) = 1 := by
  rw [mode_mtvec_write]
  split
  · next h =>
      have hle : (Xtvec.mode.get v).toNat ≤ 1 := h.2
      rcases (show (Xtvec.mode.get v).toNat = 0 ∨ (Xtvec.mode.get v).toNat = 1 by omega) with h | h
      · exact .inl (eq_of_toNat_eq h)
      · exact .inr (eq_of_toNat_eq h)
  · exact hold

theorem mtvec_of_write (hc : TrapInv c) (ht : TameWrite c addr data) :
    VectorUsable ((c.writeUncheckPrivilege addr data).value .mtvec) 11 := by
  by_cases ha : addr = Csr.mtvec.addr
  · subst ha
    rw [value_write (by decide) rfl]
    refine (mode_of_mtvec_write (hc.mtvec.imp_right (·.1))).imp_right fun hmode => ⟨hmode, ?_⟩
    rw [base_mtvec_write]
    exact ht.mtvec rfl
  · rw [value_write_of_ne (by decide) (by decide) rfl ha]
    exact hc.mtvec

/-- Of the bits written, those shared with `other` all have a name. -/
theorem and_getNewValue {mask old v other : WordType} (hold : other &&& old &&& ~~~namedMask = 0)
    (hnew : other &&& v &&& mask &&& ~~~namedMask = 0) :
    other &&& getNewValue mask old v &&& ~~~namedMask = 0 := by
  refine eq_of_getLsbD_eq fun i hi => ?_
  have h1 := congrArg (·.getLsbD i) hold
  have h2 := congrArg (·.getLsbD i) hnew
  simp only [getLsbD_and] at h1 h2 ⊢
  rw [getLsbD_getNewValue]
  cases hm : mask.getLsbD i with
  | true => simpa [hm] using h2
  | false => simpa [hm] using h1

theorem and_subset {a b mask : WordType} (h : a &&& b = 0) : a &&& mask &&& b = 0 := by
  rw [BitVec.and_assoc, BitVec.and_comm mask, ← BitVec.and_assoc, h]
  exact zero_and

/-- A register with a view keeps to the named bits, as far as `other` has them
too, if a write to it does; the view shows no others. -/
theorem named_of_write {r view : Csr} {other : WordType} (hr : r ∉ [Csr.fcsr, .vcsr])
    (hs : r.shadowOf = none) (hview : ∀ v : Csr, v.shadowOf = some r → v = view)
    (hmask : ∀ v, r.validate v &&& view.validate v &&& ~~~namedMask = 0)
    (hold : other &&& c.value r &&& ~~~namedMask = 0)
    (hnew : addr = r.addr → other &&& data &&& ~~~namedMask = 0) :
    other &&& (c.writeUncheckPrivilege addr data).value r &&& ~~~namedMask = 0 := by
  rcases value_write_cases c hr hs addr data with ⟨ha, hv⟩ | ⟨v, hv', -, hv⟩ | hv
  · rw [hv]
    exact and_getNewValue hold (and_subset (hnew ha))
  · rw [hv, hview v hv']
    refine and_getNewValue hold ?_
    rw [BitVec.and_assoc, hmask]
    exact and_zero
  · rw [hv]
    exact hold

/-- A write reaches one of the two registers at most. -/
theorem pending_of_write (hc : TrapInv c) (ht : TameWrite c addr data) :
    (c.writeUncheckPrivilege addr data).value .mip &&&
      (c.writeUncheckPrivilege addr data).value .mie &&& ~~~namedMask = 0 := by
  have hvalidate {r v : Csr} (hr : r ≠ .mtvec) (hv : v ≠ .mtvec) (x : WordType) :
      r.validate x &&& v.validate x = r.validate 0 &&& v.validate 0 := by
    rw [Csr.validate_const hr, Csr.validate_const hv]
  by_cases hw : written addr = some .mip
  · rw [writeUncheckPrivilege_frame (r := .mie) (by rw [hw]; decide), BitVec.and_comm _ (c.value .mie)]
    refine named_of_write (by decide) rfl (fun v hv => by simpa using shadowOf_mem hv) (fun x => ?_)
      (BitVec.and_comm _ (c.value .mie) ▸ hc.pending) fun ha => BitVec.and_comm data _ ▸ ht.mip ha
    rw [hvalidate (by decide) (by decide)]
    decide +kernel
  · rw [writeUncheckPrivilege_frame hw]
    refine named_of_write (by decide) rfl (fun v hv => by simpa using shadowOf_mem hv) (fun x => ?_)
      hc.pending ht.mie
    rw [hvalidate (by decide) (by decide)]
    decide +kernel

theorem TrapInv.write (hc : TrapInv c) (ht : TameWrite c addr data) :
    TrapInv (c.writeUncheckPrivilege addr data) :=
  ⟨⟨by rw [writeUncheckPrivilege_cpl]; exact hc.priv.cpl, mpp_of_write hc ht⟩,
    mtvec_of_write hc ht, stvec_of_write hc ht, pending_of_write hc ht⟩

/-- The lines drive interrupts that have a name. -/
theorem TrapInv.setLine {f : BitField} {i : Interrupt} (hc : TrapInv c) (hf : irqField i = some f)
    (level : Bool) : ∃ c', c.set .mip f (if level then 1 else 0) = .ok c' ∧ TrapInv c' := by
  have hfield : f.len = 1 ∧ Csr.mip.Keeps f ∧ f.ones <<< f.bit &&& ~~~namedMask = 0 := by
    cases i <;> cases hf <;>
      exact ⟨rfl, .of_mask (by decide) (by decide) (by decide +kernel), by decide +kernel⟩
  have hval : (if level then 1 else 0 : WordType) ≤ f.ones := by
    unfold ones
    rw [hfield.1]
    cases level <;> decide
  refine ⟨_, set_of_keeps (r := .mip) hfield.2.1 hval, ⟨hc.priv.cpl, hc.priv.mpp⟩, hc.mtvec,
    hc.stvec, ?_⟩
  show (c.setValue .mip _).value .mip &&& (c.setValue .mip _).value .mie &&& ~~~namedMask = 0
  rw [setValue_same, setValue_ne (by decide), BitVec.and_comm _ (c.value .mie)]
  refine and_getNewValue ?_ ?_
  · rw [BitVec.and_comm (c.value .mie)]
    exact hc.pending
  · rw [BitVec.and_assoc, hfield.2.2]
    exact and_zero

end Writes

/-! ## Runs -/

/-- The panics of the trap and privilege machinery. -/
def PanicSite.TrapMachinery (p : PanicSite) : Prop :=
  p ∈ [.isInterruptDelegated, .hasInterrupt, .trapNumber, .nextPcByTvec, .xret, .fieldSetter,
    .missingCsr, .dataAccessPrivilege, .ifetchPolicy, .illegalRefetch, .instrFetchErr, .ecall,
    .pendingTval]
  deriving Decidable

section Runs

variable {P : Platform} {s s' s₁ s₂ : RVCPU P} {g : FetchHistory P} {e : Event P}

/-- It spares what the validators let through. -/
def tameNext (s : RVCPU P) : Bool :=
  match nextCsrWrite s with
  | none => true
  | some (addr, data) => decide (TameWrite s.csr addr data)

/-- What is asked of a guest. -/
def Tame (sg : RVCPU P × FetchHistory P) (e : Event P) : Prop :=
  e.isInstr → Unmodified sg.1 sg.2 ∧ FetchedAlike sg.1 sg.2 ∧ tameNext sg.1
  deriving Decidable

/-- The level exists, and the step does not end in the trap machinery. -/
def TrapSafe (sg : RVCPU P × FetchHistory P) (e : Event P) : Prop :=
  KnownMode sg.1.csr.cpl ∧ ∀ p, sg.1.step e = .error p → ¬ p.TrapMachinery

theorem knownMode_of_ne_V {l : PrivilegeLevel} (h : l ≠ .V) : KnownMode l := by
  cases l with
  | U => exact .inl rfl
  | S => exact .inr (.inl rfl)
  | V => exact absurd rfl h
  | M => exact .inr (.inr rfl)

theorem tameWrite_of_next {d : P.Decoded} {addr data : WordType} (ht : tameNext s)
    (hd : Decodes s d)
    (hp : pendingCsrWrite s.csr s.regFile (getExecFunc d.instr) d.info = some (addr, data)) :
    TameWrite s.csr addr data := by
  unfold tameNext at ht
  rw [nextCsrWrite_of_decodes hd, hp] at ht
  exact of_decide_eq_true ht

/-- An instruction that was decoded can be fetched once more while nothing its
fetch depends on has changed. -/
theorem CacheInv.refetch {d : P.Decoded} (h : CacheInv s g) (hu : Unmodified s g)
    (hf : FetchedAlike s g) (hd : (decodeAtChecked s.pc).run s = .ok (.ok d, s₁))
    (hstill : Still s₁ s₂) : ∃ raw s₃, (ifetchAt s₂.pc).run s₂ = .ok (.ok raw, s₃) := by
  have hfetched : Fetched s.pc s s₁ :=
    ((decodeAtChecked_spec (S := fun _ => True) s.pc
      ⟨fun _ _ => trivial, h.policy, .inr trivial⟩).elim hd).1
  have hmem : MemStill s.memory s₂.memory := hfetched.mem.trans hstill.mem
  have hcpl : s₂.csr.cpl = s.csr.cpl := by rw [hstill.csr.cpl, hfetched.csr]
  have hpc : s₂.pc = s.pc := by rw [hstill.pc, hfetched.rest]
  -- what was decoded is what a fresh fetch finds
  obtain ⟨raw, hraw⟩ : ∃ raw, fetchWord s.csr s.walker s.ram s.pc = .ok (.ok raw) := by
    have htrans := h.transparent hu hf
    rw [hd, freshDecode_eq h.policy hf] at htrans
    cases hw : fetchWord s.csr s.walker s.ram s.pc with
    | error p =>
      rw [hw] at htrans
      cases htrans
    | ok r =>
      cases r with
      | error e =>
        rw [hw] at htrans
        cases htrans
      | ok raw => exact ⟨raw, rfl⟩
  have hgives := ifetchAt_gives (s := s₂) ((policy_of_config hmem.config).trans h.policy)
    ((h.wordReady hu hf).still h.policy hcpl hmem)
  rw [fetchWord_still h.policy hcpl hmem, hraw] at hgives
  obtain ⟨memory, hrun, -⟩ := hgives
  rw [hpc]
  exact ⟨raw, _, hrun⟩

/-- What one instruction leaves of the registers keeps the invariant. -/
theorem TrapInv.controlled (h : TrapInv s.csr) (ht : tameNext s) {c : CsrRegFile}
    (hc : Controlled s c) : TrapInv c := by
  cases hc with
  | same hsame => exact h.same hsame
  | trap hsame hu htake hsame' =>
    obtain ⟨c', pc', hok, hinv⟩ := (h.same hsame).takeException _ _ hu
    rw [htake] at hok
    cases hok
    exact hinv.same hsame'
  | written hd hp hsame => exact (h.write (tameWrite_of_next ht hd hp)).same hsame
  | xret hr hsame => exact (hr.trapInv h).same hsame

theorem TrapInv.stepReady (h : TrapInv s.csr) (hg : CacheInv s g) (hu : Unmodified s g)
    (hf : FetchedAlike s g) : StepReady (fun p => ¬ p.TrapMachinery) s where
  benign := fun p hp => by
    have hall : ∀ q ∈ [PanicSite.walkMode, .overflow, .outOfBounds, .instrInfo, .unimplemented,
      .device], ¬ q.TrapMachinery := by decide
    exact hall p hp
  policy := hg.policy
  level := .inl h.priv.cpl
  modes := .inl h.priv
  setMode := by decide
  trap := fun c pc e tval hsame he => by
    obtain ⟨c', pc', hok, -⟩ := (h.same hsame).takeException pc tval he
    rw [hok]
    trivial
  refetch := fun _ _ _ hd hstill => .inl (hg.refetch hu hf hd hstill)
  tval := hg.tval

/-- The events other than instructions. -/
theorem TrapInv.idle (h : TrapInv s.csr) (he : e.isInstr = false) :
    Ends (fun p => ¬ p.TrapMachinery) (s.step e) fun s' => TrapInv s'.csr := by
  cases e with
  | instr => cases he
  | checkInterrupt =>
    obtain ⟨taken, c', pc', htake, hinv⟩ := h.tryTakeInterrupt s.pc
    show Ends _ s.tryTakePendingInterrupt _
    unfold tryTakePendingInterrupt
    rw [htake]
    show TrapInv (RVCPU.csr (if taken.isSome then _ else _))
    split
    · exact hinv.same (.setValue _ (by decide) _)
    · exact hinv
  | irq interrupt level =>
    show Ends _ (s.handleIrq interrupt level) _
    unfold handleIrq
    cases hf : irqField interrupt with
    | none => exact show ¬ PanicSite.handleIrq.TrapMachinery by decide
    | some f =>
      obtain ⟨c', hset, hinv⟩ := h.setLine hf level
      dsimp only
      rw [hset]
      exact hinv
  | devices dev data => exact h

variable {sg : RVCPU P × FetchHistory P}

theorem TrapInv.step_ends (h : TrapInv sg.1.csr) (hg : CacheInv sg.1 sg.2) (ht : Tame sg e) :
    Ends (fun p => ¬ p.TrapMachinery) (sg.1.step e) fun s' => TrapInv s'.csr := by
  cases he : e.isInstr with
  | false => exact h.idle he
  | true =>
    obtain ⟨hu, hf, htame⟩ := ht he
    cases e with
    | instr =>
      exact (stepOnce_effect (h.stepReady hg hu hf)).mono fun s' heffect =>
        h.controlled htame heffect.csr
    | _ => cases he

theorem trapInv_reset (mmio : MemoryMapIo P.bus) (timeAddr : Option WordType)
    (regFile : RegIdx → WordType) : TrapInv (reset P mmio timeAddr regFile).csr := by
  have hzero : ∀ r ∈ trapCsrs, (resetCsr P).value r = 0 := fun r hr => value_resetCsr (by
    revert r
    decide)
  refine ⟨⟨(nomatch ·), ?_⟩, .inl ?_, .inl ?_, ?_⟩
  · show mpp.get ((resetCsr P).value .mstatus) ∈ _
    rw [mstatus_resetCsr]
    decide +kernel
  · show Xtvec.mode.get ((resetCsr P).value .mtvec) = 0
    rw [hzero _ (by decide)]
    rfl
  · show Xtvec.mode.get ((resetCsr P).value .stvec) = 0
    rw [hzero _ (by decide)]
    rfl
  · show (resetCsr P).value .mip &&& (resetCsr P).value .mie &&& ~~~namedMask = 0
    rw [hzero _ (by decide), hzero _ (by decide)]
    rfl

/-- The two invariants together. -/
def SafeInv (sg : RVCPU P × FetchHistory P) : Prop := CacheInv sg.1 sg.2 ∧ TrapInv sg.1.csr

theorem SafeInv.step {o : Unit} {sg' : RVCPU P × FetchHistory P} (h : SafeInv sg) (ht : Tame sg e)
    (hs : historyStep sg e = .ok (o, sg')) : SafeInv sg' := by
  refine ⟨h.1.step (fun he => ⟨(ht he).1, (ht he).2.1⟩) hs, ?_⟩
  obtain ⟨s', hstep, hs⟩ := Lib.exists_of_bind_ok hs
  cases hs
  exact (h.2.step_ends h.1 ht).elim hstep

theorem SafeInv.safe (h : SafeInv sg) (ht : Tame sg e) : TrapSafe sg e := by
  refine ⟨knownMode_of_ne_V h.2.priv.cpl, fun p hp => ?_⟩
  have hends := h.2.step_ends h.1 ht
  rw [hp] at hends
  exact hends

/-- In every run whose CSR writes spare the fields the validators do not guard,
and in which the instruction cache is used within its discipline, the level is
always one that exists and no step ends in the trap and privilege machinery. -/
theorem trap_machinery_safe_of_tame (mmio : MemoryMapIo P.bus) (timeAddr : Option WordType)
    (regFile : RegIdx → WordType) (events : List (Event P))
    (h : Always historyStep Tame (reset P mmio timeAddr regFile, .start P) events) :
    Always historyStep TrapSafe (reset P mmio timeAddr regFile, .start P) events :=
  Always.of_inv (fun _ _ _ _ hinv ht hs => SafeInv.step hinv ht hs)
    (fun _ _ hinv ht => SafeInv.safe hinv ht) ⟨cacheInv_reset .., trapInv_reset ..⟩ h

end Runs

/-! ## Guests that stop it -/

/-- Machine mode returns to the level that does not exist. -/
def reservedLevelProgram : List (BitVec 32) :=
  [0x000010b7, -- lui x1, 1
    0x30009073, -- csrrw x0, mstatus, x1
    0x30200073] -- mret

theorem trap_machinery_safe_of_tame_boot :
    Always historyStep TrapSafe (programCpu levelProgram, .start _)
      [.checkInterrupt, .instr, .instr, .instr, .irq .machineTimer true, .instr, .instr, .instr] :=
  trap_machinery_safe_of_tame _ _ _ _ (by decide +kernel)

theorem reserved_level_stops_fetch :
    Lib.trace historyStep (programCpu reservedLevelProgram, .start _) (List.replicate 4 .instr) =
      [.ok (), .ok (), .ok (), .error .ifetchPolicy] ∧
    ¬ Always historyStep TrapSafe (programCpu reservedLevelProgram, .start _)
      (List.replicate 4 .instr) := by
  refine ⟨by decide +kernel, fun h => ?_⟩
  have hlevel := h.mono (Q := fun sg _ => sg.1.csr.cpl ≠ .V) fun sg _ hsafe => by
    rcases hsafe.1 with h | h | h <;> rw [h] <;> decide
  exact absurd hlevel (by decide +kernel)

end HereEmu
