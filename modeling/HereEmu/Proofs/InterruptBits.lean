import HereEmu.Proofs.CsrFrame
import HereEmu.Proofs.CsrRun

/-!
# Pending and enabled bits along a run

Two questions about `mip` and `mie`. Do the bits the board drives say what the
board last said? And do `sie` and `sip` show S only what M delegated?

Neither is so for every guest. `mip` is written like any other register, the
driven bits included, and the views of S have a fixed set of bits that does
not look at `mideleg`. Each gets the condition on the guest's writes under
which it holds.
-/

namespace HereEmu

open Lib (Always)
open CsrRegFile RVCPU BitVec

section Bits

variable {P : Platform} {c : CsrRegFile} {addr data mask old v k : WordType} {r b : Csr}

/-- The value written agrees with the old one on `k`, so nothing changes there. -/
theorem getNewValue_and_of_agree (h : v &&& k = old &&& k) :
    getNewValue mask old v &&& k = old &&& k := by
  refine eq_of_getLsbD_eq fun j hj => ?_
  have hbit := congrArg (·.getLsbD j) h
  simp only [getLsbD_and] at hbit ⊢
  rw [getLsbD_getNewValue]
  split
  · exact hbit
  · rfl

/-- Words that agree on `k` have the same bits there. -/
theorem getLsbD_of_and_eq {i : Nat} (h : v &&& k = old &&& k) (hk : k.getLsbD i) :
    v.getLsbD i = old.getLsbD i := by
  have hbit := congrArg (·.getLsbD i) h
  simpa only [getLsbD_and, hk, Bool.and_true] using hbit

/-- What a write leaves of some bits of `mie` or `mip`: all of them, unless it
is one to the register or to its view that has other bits there. -/
theorem value_and_of_write (hb : b ∈ [.mie, .mip])
    (hbase : addr = b.addr → data &&& k = c.value b &&& k)
    (hview : ∀ r : Csr, r.shadowOf = some b → addr = r.addr →
      r.validate 0 &&& k = 0 ∨ data &&& k = c.value b &&& k) :
    (c.writeUncheckPrivilege addr data).value b &&& k = c.value b &&& k := by
  have hplain : b ∉ [Csr.fcsr, .vcsr] ∧ b.shadowOf = none := by
    revert hb
    cases b <;> decide
  rcases value_write_cases c hplain.1 hplain.2 addr data with ⟨rfl, hv⟩ | ⟨r, hs, rfl, hv⟩ | hv
  · rw [hv]
    exact getNewValue_and_of_agree (hbase rfl)
  · rw [hv]
    rcases hview r hs rfl with hzero | hagree
    · refine getNewValue_and ?_
      have hr : r ≠ .mtvec := by rintro rfl; cases hs
      rw [Csr.validate_const hr, BitVec.and_assoc, hzero]
      exact and_zero
    · exact getNewValue_and_of_agree hagree
  · rw [hv]

end Bits

/-! ## The lines of the board -/

section Lines

variable {P : Platform} (sl : RVCPU P × Levels)

/-- The interrupts the board drives, with their bits. -/
def drivenLines : List (Interrupt × Nat) :=
  [(.machineSoft, 3), (.machineTimer, 7), (.machineExternal, 11)]

def drivenMask : WordType := 0x888

/-- The level each line was last given. -/
abbrev Levels : Type := Interrupt → Bool

def Levels.next (levels : Levels) : Event P → Levels
  | .irq i level => Function.update levels i level
  | _ => levels

/-- A step, with the levels beside it. -/
def lineStep (e : Event P) : Rust (Unit × RVCPU P × Levels) :=
  match sl.1.step e with
  | .error p => .error p
  | .ok s' => .ok ((), s', sl.2.next e)

/-- The driven bits of `mip` are the levels of their lines. -/
def Mirrors : Prop :=
  ∀ line ∈ drivenLines, (sl.1.csr.value .mip).getLsbD line.2 = sl.2 line.1
  deriving Decidable

/-- They do, and an instruction does not change them. -/
def LinesKept (e : Event P) : Prop :=
  Mirrors sl ∧ (e.isInstr → ∀ s', sl.1.step e = .ok s' →
    s'.csr.value .mip &&& drivenMask = sl.1.csr.value .mip &&& drivenMask)

/-- A write to `mip` has the driven bits as they are. -/
def SparesLines (e : Event P) : Prop :=
  e.isInstr → ∀ w ∈ nextCsrWrite sl.1, w.1 = Csr.mip.addr →
    w.2 &&& drivenMask = sl.1.csr.value .mip &&& drivenMask

instance (sl : RVCPU P × Levels) (e : Event P) : Decidable (SparesLines sl e) :=
  -- the write there is, not all values of the type
  have := Option.decidableForallMem (p := fun w : WordType × WordType => w.1 = Csr.mip.addr →
    w.2 &&& drivenMask = sl.1.csr.value .mip &&& drivenMask) (nextCsrWrite sl.1)
  inferInstanceAs (Decidable (_ → _))

variable {s s' : RVCPU P} {sl sl' : RVCPU P × Levels} {e : Event P}

theorem lineStep_eq_ok {o : Unit} (h : lineStep sl e = .ok (o, sl')) :
    sl.1.step e = .ok sl'.1 ∧ sl'.2 = sl.2.next e := by
  unfold lineStep at h
  split at h <;> cases h
  exact ⟨by assumption, rfl⟩

/-- An instruction that spares the driven bits leaves them alone. -/
theorem driven_instr (hst : Steady s)
    (hspare : ∀ w ∈ nextCsrWrite s, w.1 = Csr.mip.addr →
      w.2 &&& drivenMask = s.csr.value .mip &&& drivenMask)
    (hs : s.step .instr = .ok s') :
    s'.csr.value .mip &&& drivenMask = s.csr.value .mip &&& drivenMask := by
  rcases hst.value_instr hs with heq | ⟨addr, data, hnext, heq⟩
  · rw [heq .mip (by decide) (by decide)]
  · rw [heq .mip (by decide) (by decide)]
    refine value_and_of_write (by decide) (hspare (addr, data) hnext) fun r hr _ => .inl ?_
    -- the view of S has none of them
    cases r <;> cases hr
    decide +kernel

/-- Driving a line sets its own bit and no other. -/
theorem getLsbD_irq {i : Interrupt} {f : BitField} {v : WordType} {line : Interrupt × Nat}
    (level : Bool) (hf : irqField i = some f) (hl : line ∈ drivenLines) :
    (f.put v (if level then 1 else 0)).getLsbD line.2 =
      if line.1 = i then level else v.getLsbD line.2 := by
  have hfield : ∀ i : Interrupt, ∀ f ∈ irqField i, ∀ line ∈ drivenLines,
      f.bit + f.len ≤ 64 ∧ f.len = 1 ∧ (line.1 = i ↔ line.2 = f.bit) := by
    intro i
    cases i <;> rintro f ⟨⟩ <;> decide
  obtain ⟨hfits, hlen, hline⟩ := hfield i f hf line hl
  rw [BitField.getLsbD_put hfits, hlen]
  by_cases hi : line.1 = i
  · have hbit := hline.mp hi
    rw [if_pos (by omega), if_pos hi, hbit, Nat.sub_self]
    cases level <;> rfl
  · have hbit := mt hline.mpr hi
    rw [if_neg (by omega), if_neg hi]

/-- The state and the levels stay together. -/
structure LineInv (sl : RVCPU P × Levels) : Prop where
  steady : Steady sl.1
  mirrors : Mirrors sl

theorem LineInv.step {o : Unit} (h : LineInv sl) (hc : SparesLines sl e)
    (hs : lineStep sl e = .ok (o, sl')) : LineInv sl' := by
  obtain ⟨hstep, hlevels⟩ := lineStep_eq_ok hs
  refine ⟨h.steady.step hstep, fun line hl => ?_⟩
  have hold := h.mirrors line hl
  rw [hlevels]
  cases e with
  | instr =>
    have hbit : ∀ line ∈ drivenLines, drivenMask.getLsbD line.2 := by decide
    rw [getLsbD_of_and_eq (driven_instr h.steady (hc rfl) hstep) (hbit line hl)]
    exact hold
  | irq i level =>
    obtain ⟨f, hf, hcsr⟩ := step_irq hstep
    rw [hcsr, setValue_same, getLsbD_irq level hf hl, hold]
    show _ = Function.update sl.2 i level line.1
    rw [Function.update_apply]
  | checkInterrupt | devices dev data =>
    rw [value_idle hstep rfl (by decide) (by decide) fun _ _ _ => nofun]
    exact hold

theorem LineInv.kept (h : LineInv sl) (hc : SparesLines sl e) : LinesKept sl e := by
  refine ⟨h.mirrors, fun he s' hs => ?_⟩
  cases e with
  | instr => exact driven_instr h.steady (hc rfl) hs
  | _ => cases he

/-- In every run whose writes to `mip` spare the driven bits, those bits are at
every step what the board last said, and no instruction changes them. -/
theorem driven_bits_mirror_lines (mmio : MemoryMapIo P.bus) (timeAddr : Option WordType)
    (regFile : RegIdx → WordType) (events : List (Event P))
    (h : Always lineStep SparesLines (reset P mmio timeAddr regFile, fun _ => false) events) :
    Always lineStep LinesKept (reset P mmio timeAddr regFile, fun _ => false) events := by
  refine Always.of_inv (fun _ _ _ _ hinv hc hs => LineInv.step hinv hc hs)
    (fun _ _ hinv hc => LineInv.kept hinv hc) ⟨steady_reset .., fun line _ => ?_⟩ h
  show ((resetCsr P).value .mip).getLsbD line.2 = false
  exact getLsbD_zero

/-- The guest sets `mip.MTIP` itself. -/
def ownTimerProgram : List (BitVec 32) :=
  [0x08000093, -- addi x1, x0, 0x80
    0x34409073] -- csrrw x0, mip, x1

theorem driven_bits_mirror_lines_boot :
    Always lineStep LinesKept (programCpu levelProgram, fun _ => false)
      [.irq .machineTimer true, .instr, .irq .machineTimer false, .instr, .checkInterrupt, .instr] :=
  driven_bits_mirror_lines _ _ _ _ (by decide +kernel)

theorem guest_drives_timer_bit :
    ¬ Always lineStep LinesKept (programCpu ownTimerProgram, fun _ => false)
      [.instr, .instr, .checkInterrupt] := by
  intro h
  have hmirror := h.mono (Q := fun sl _ => Mirrors sl) fun _ _ hkept => hkept.1
  exact absurd hmirror (by decide +kernel)

end Lines

/-! ## What S is shown -/

section Delegation

variable {P : Platform}

/-- The bits of `sie` and `sip`. -/
def viewBits : List Nat := [0, 1, 4, 5, 8, 9]

/-- The bits of the views that are not delegated. -/
def hiddenMask (c : CsrRegFile) : WordType := 0x333 &&& ~~~c.value .mideleg

/-- A bit of a view reads as the machine's if it is delegated, and as zero if
it is not. -/
def ShowsDelegated (c : CsrRegFile) : Prop :=
  ∀ r b : Csr, r ∈ [Csr.sie, .sip] → r.shadowOf = some b →
    ∀ v, c.readUncheckPrivilege r.addr = some v → ∀ i ∈ viewBits,
      v.getLsbD i = ((c.value .mideleg).getLsbD i && (c.value b).getLsbD i)

/-- What a write to a view leaves: the bits that are not delegated, and, for
`sip`, the bits of the timer and of the external line. -/
def ChangesDelegated (c c' : CsrRegFile) (addr : WordType) : Prop :=
  (addr ∈ [Csr.sie.addr, Csr.sip.addr] → ∀ i ∈ viewBits, (c.value .mideleg).getLsbD i = false →
    (c'.value .mie).getLsbD i = (c.value .mie).getLsbD i ∧
      (c'.value .mip).getLsbD i = (c.value .mip).getLsbD i) ∧
  (addr = Csr.sip.addr → (c'.value .mip).getLsbD 5 = (c.value .mip).getLsbD 5 ∧
    (c'.value .mip).getLsbD 9 = (c.value .mip).getLsbD 9)

/-- The views keep to what is delegated, in the state and across the step. -/
def ViewsDelegated (s : RVCPU P) (e : Event P) : Prop :=
  ShowsDelegated s.csr ∧ (e.isInstr → ∀ w ∈ nextCsrWrite s, ∀ s', s.step e = .ok s' →
    ChangesDelegated s.csr s'.csr w.1)

/-- A write that keeps the machine's bits within what is delegated. -/
@[mk_iff]
structure RespectfulWrite (c : CsrRegFile) (addr data : WordType) : Prop where
  mie : addr = Csr.mie.addr → data &&& hiddenMask c = 0
  mip : addr = Csr.mip.addr → data &&& hiddenMask c = 0
  mideleg : addr = Csr.mideleg.addr → (c.value .mie ||| c.value .mip) &&& 0x222 &&& ~~~data = 0
  sie : addr = Csr.sie.addr → data &&& hiddenMask c = c.value .mie &&& hiddenMask c
  sip : addr = Csr.sip.addr → data &&& hiddenMask c = c.value .mip &&& hiddenMask c ∧
    data &&& 0x220 = c.value .mip &&& 0x220

instance (c : CsrRegFile) (addr data : WordType) : Decidable (RespectfulWrite c addr data) :=
  decidable_of_iff' _ (respectfulWrite_iff ..)

/-- The next write, if there is one, is respectful. -/
def respectfulNext (s : RVCPU P) : Bool :=
  match nextCsrWrite s with
  | none => true
  | some (addr, data) => decide (RespectfulWrite s.csr addr data)

/-- What is asked of the guest, and of the board: the external line of S is
raised only while it is delegated. -/
def Respectful (s : RVCPU P) : Event P → Prop
  | .instr => respectfulNext s
  | .irq .supervisorExternal true => (s.csr.value .mideleg).getLsbD 9
  | _ => True

instance (s : RVCPU P) (e : Event P) : Decidable (Respectful s e) := by
  unfold Respectful
  split <;> infer_instance

/-- Nothing that is not delegated is pending or enabled in the views. -/
def DelegationInv (c : CsrRegFile) : Prop :=
  ∀ b ∈ [Csr.mie, .mip], c.value b &&& hiddenMask c = 0

variable {c : CsrRegFile} {addr data : WordType}

/-- A hidden bit is one of the views that is not delegated. -/
theorem getLsbD_hiddenMask {i : Nat} (hi : i ∈ viewBits) :
    (hiddenMask c).getLsbD i = !(c.value .mideleg).getLsbD i := by
  have hbit : ∀ i ∈ viewBits, (0x333 : WordType).getLsbD i ∧ i < 64 := by decide
  obtain ⟨h1, h2⟩ := hbit i hi
  rw [hiddenMask, getLsbD_and, getLsbD_not, h1]
  simp [h2]

theorem getLsbD_of_hidden {x y : WordType} {i : Nat} (hi : i ∈ viewBits)
    (hd : (c.value .mideleg).getLsbD i = false) (h : x &&& hiddenMask c = y &&& hiddenMask c) :
    x.getLsbD i = y.getLsbD i :=
  getLsbD_of_and_eq h (by rw [getLsbD_hiddenMask hi, hd]; rfl)

/-- Within the invariant the views show what is delegated and nothing else. -/
theorem DelegationInv.shows (h : DelegationInv c) : ShowsDelegated c := by
  intro r b hr hs v hv i hi
  have hview : c.readUncheckPrivilege r.addr = some (c.value b &&& 0x333) ∧ b ∈ [Csr.mie, .mip] := by
    simp only [List.mem_cons, List.not_mem_nil, or_false] at hr
    rcases hr with rfl | rfl <;> cases hs <;> exact ⟨rfl, by decide⟩
  obtain ⟨hread, hb⟩ := hview
  have hbit : ∀ i ∈ viewBits, (0x333 : WordType).getLsbD i := by decide
  rw [hread] at hv
  cases hv
  rw [getLsbD_and, hbit i hi, Bool.and_true]
  cases hd : (c.value .mideleg).getLsbD i with
  | true => rfl
  | false =>
    have h0 : c.value b &&& hiddenMask c = 0 &&& hiddenMask c := by
      rw [h b hb]
      exact zero_and.symm
    rw [getLsbD_of_hidden hi hd h0]
    simp

/-- Only a write to `mideleg` changes what is delegated. -/
theorem hiddenMask_of_write (h : addr ≠ Csr.mideleg.addr) :
    hiddenMask (c.writeUncheckPrivilege addr data) = hiddenMask c := by
  rw [hiddenMask, hiddenMask, value_write_of_ne (by decide) (by decide) rfl h]

/-- A respectful write leaves the hidden bits of `mie` and `mip` as they are. -/
theorem hidden_of_write (hinv : DelegationInv c) (h : RespectfulWrite c addr data) :
    ∀ b ∈ [Csr.mie, .mip], (c.writeUncheckPrivilege addr data).value b &&& hiddenMask c =
      c.value b &&& hiddenMask c := by
  intro b hb
  refine value_and_of_write hb (fun ha => ?_) fun r hr ha => .inr ?_
  all_goals
    simp only [List.mem_cons, List.not_mem_nil, or_false] at hb
    rcases hb with rfl | rfl
  · rw [h.mie ha, hinv .mie (by decide)]
  · rw [h.mip ha, hinv .mip (by decide)]
  · cases r <;> cases hr
    exact h.sie ha
  · cases r <;> cases hr
    exact (h.sip ha).1

/-- Delegation is taken from no bit that is set. -/
theorem hidden_of_undelegate {x m data : WordType} (h : x &&& (0x333 &&& ~~~m) = 0)
    (hd : x &&& 0x222 &&& ~~~data = 0) : x &&& (0x333 &&& ~~~getNewValue 0x222 m data) = 0 := by
  refine eq_of_getLsbD_eq fun j hj => ?_
  have hb := congrArg (·.getLsbD j) h
  have hdb := congrArg (·.getLsbD j) hd
  simp only [getLsbD_and, getLsbD_not] at hb hdb ⊢
  rw [getLsbD_getNewValue]
  split
  · next hm =>
      rw [hm] at hdb
      revert hdb
      cases x.getLsbD j <;> cases data.getLsbD j <;> simp [hj]
  · exact hb

theorem DelegationInv.write (hinv : DelegationInv c) (h : RespectfulWrite c addr data) :
    DelegationInv (c.writeUncheckPrivilege addr data) := by
  intro b hb
  by_cases ha : addr = Csr.mideleg.addr
  · subst ha
    -- `mie` and `mip` stay, and the bits they have stay delegated
    have hframe : (c.writeUncheckPrivilege Csr.mideleg.addr data).value b = c.value b := by
      refine writeUncheckPrivilege_frame ?_
      revert hb
      cases b <;> decide
    have hset := h.mideleg rfl
    rw [BitVec.and_assoc, and_or_distrib_right] at hset
    have hkept : c.value b &&& (0x222 &&& ~~~data) = 0 := by
      simp only [List.mem_cons, List.not_mem_nil, or_false] at hb
      rcases hb with rfl | rfl
      · exact (or_eq_zero_iff.mp hset).1
      · exact (or_eq_zero_iff.mp hset).2
    have hnew : (c.writeUncheckPrivilege Csr.mideleg.addr data).value .mideleg =
        getNewValue 0x222 (c.value .mideleg) data := by
      rw [value_write (r := .mideleg) (by decide) rfl, Csr.validate_const (by decide)]
      congr 1
    rw [hframe, hiddenMask, hnew]
    exact hidden_of_undelegate (hinv b hb) ((BitVec.and_assoc ..).trans hkept)
  · rw [hiddenMask_of_write ha, hidden_of_write hinv h b hb, hinv b hb]

/-- The line of S is the only one with a bit in the views. -/
theorem DelegationInv.irq {i : Interrupt} {level : Bool} {f : BitField} (hinv : DelegationInv c)
    (hf : irqField i = some f)
    (hline : i = .supervisorExternal → level → (c.value .mideleg).getLsbD 9) :
    DelegationInv (c.setValue .mip (f.put (c.value .mip) (if level then 1 else 0))) := by
  have hfield : ∀ i : Interrupt, ∀ f ∈ irqField i, f.bit + f.len ≤ 64 ∧ f.len = 1 ∧
      ((0x333 : WordType).getLsbD f.bit → i = .supervisorExternal ∧ f.bit = 9) := by
    intro i
    cases i <;> rintro f ⟨⟩ <;> decide
  obtain ⟨hfits, hlen, hbit⟩ := hfield i f hf
  have hmask : hiddenMask (c.setValue .mip (f.put (c.value .mip) (if level then 1 else 0))) =
      hiddenMask c := by
    rw [hiddenMask, hiddenMask, setValue_ne (by decide)]
  intro b hb
  by_cases hmip : b = .mip
  swap
  · rw [setValue_ne hmip]
    exact hinv b hb
  rw [hmip, setValue_same]
  refine eq_of_getLsbD_eq fun j hj => ?_
  have hold := congrArg (·.getLsbD j) (hinv .mip (by decide))
  simp only [getLsbD_and] at hold ⊢
  rw [BitField.getLsbD_put hfits, hlen]
  split
  · next hin =>
      have hjb : j = f.bit := by omega
      subst hjb
      rw [hiddenMask, getLsbD_and, getLsbD_not, Nat.sub_self]
      by_cases hv : (0x333 : WordType).getLsbD f.bit
      · obtain ⟨hi, h9⟩ := hbit hv
        cases level with
        | false => simp
        | true => simp [h9, hline hi rfl]
      · rw [Bool.not_eq_true] at hv
        rw [hv, Bool.false_and, Bool.and_false]
        exact getLsbD_zero.symm
  · exact hold

variable {s s' : RVCPU P} {e : Event P}

theorem respectfulNext_iff : respectfulNext s ↔
    ∀ w ∈ nextCsrWrite s, RespectfulWrite s.csr w.1 w.2 := by
  unfold respectfulNext
  cases nextCsrWrite s with
  | none => simp
  | some w =>
    constructor
    · rintro h _ ⟨⟩
      exact of_decide_eq_true h
    · intro h
      exact decide_eq_true (h w rfl)

/-- The invariant reads three registers. -/
theorem DelegationInv.congr {c' : CsrRegFile} (hinv : DelegationInv c)
    (h : ∀ r ∈ [Csr.mideleg, .mie, .mip], c'.value r = c.value r) : DelegationInv c' := by
  have hmask : hiddenMask c' = hiddenMask c := by
    rw [hiddenMask, hiddenMask, h .mideleg (by decide)]
  intro b hb
  rw [hmask, h b (List.mem_cons_of_mem _ hb)]
  exact hinv b hb

theorem DelegationInv.step (hst : Steady s) (hinv : DelegationInv s.csr) (hc : Respectful s e)
    (hs : s.step e = .ok s') : DelegationInv s'.csr := by
  have hthree : ∀ r ∈ [Csr.mideleg, .mie, .mip], r ∉ countingCsrs ∧ r ∉ trapRecords := by decide
  have hidle : e.isInstr = false → (∀ i level, e ≠ .irq i level) → DelegationInv s'.csr :=
    fun he hirq => hinv.congr fun r hr =>
      value_idle hs he (fun hm => (hthree r hr).1 (by rw [hm]; decide)) (hthree r hr).2 fun _ => hirq
  cases e with
  | instr =>
    rcases hst.value_instr hs with heq | ⟨addr, data, hnext, heq⟩
    · exact hinv.congr fun r hr => heq r (hthree r hr).1 (hthree r hr).2
    · have hw := respectfulNext_iff.mp hc (addr, data) hnext
      exact (hinv.write hw).congr fun r hr => heq r (hthree r hr).1 (hthree r hr).2
  | irq i level =>
    obtain ⟨f, hf, hcsr⟩ := step_irq hs
    rw [hcsr]
    refine hinv.irq hf ?_
    rintro rfl rfl
    exact hc
  | checkInterrupt | devices dev data => exact hidle rfl fun _ _ => nofun

/-- A respectful write to a view changes what is delegated only. -/
theorem changesDelegated_write (hinv : DelegationInv c) (h : RespectfulWrite c addr data) :
    ChangesDelegated c (c.writeUncheckPrivilege addr data) addr := by
  have hhidden := hidden_of_write hinv h
  refine ⟨fun _ i hi hd => ⟨getLsbD_of_hidden hi hd (hhidden .mie (by decide)),
    getLsbD_of_hidden hi hd (hhidden .mip (by decide))⟩, ?_⟩
  rintro rfl
  have hkept : (c.writeUncheckPrivilege Csr.sip.addr data).value .mip &&& 0x220 =
      c.value .mip &&& 0x220 := by
    refine value_and_of_write (by decide) (fun ha => absurd ha (by decide)) fun r hr ha => .inr ?_
    exact (h.sip rfl).2
  exact ⟨getLsbD_of_and_eq hkept (by decide), getLsbD_of_and_eq hkept (by decide)⟩

theorem DelegationInv.views (hst : Steady s) (hinv : DelegationInv s.csr) (hc : Respectful s e) :
    ViewsDelegated s e := by
  refine ⟨hinv.shows, fun he w hw s' hs => ?_⟩
  cases e with
  | instr =>
    have hwrite := changesDelegated_write hinv (respectfulNext_iff.mp hc w hw)
    rcases hst.value_instr hs with heq | ⟨addr, data, hnext, heq⟩
    · unfold ChangesDelegated
      rw [heq .mie (by decide) (by decide), heq .mip (by decide) (by decide)]
      exact ⟨fun _ _ _ _ => ⟨rfl, rfl⟩, fun _ => ⟨rfl, rfl⟩⟩
    · obtain rfl : (addr, data) = w := Option.some.inj (hnext.symm.trans hw)
      unfold ChangesDelegated at hwrite ⊢
      rw [heq .mie (by decide) (by decide), heq .mip (by decide) (by decide)]
      exact hwrite
  | _ => cases he

/-- What a respectful run keeps. -/
structure ViewInv (s : RVCPU P) : Prop where
  steady : Steady s
  delegated : DelegationInv s.csr

theorem ViewInv.step {o : Unit} (h : ViewInv s) (hc : Respectful s e)
    (hs : runStep s e = .ok (o, s')) : ViewInv s' :=
  ⟨h.steady.step (runStep_eq_ok hs), h.delegated.step h.steady hc (runStep_eq_ok hs)⟩

theorem viewInv_reset (mmio : MemoryMapIo P.bus) (timeAddr : Option WordType)
    (regFile : RegIdx → WordType) : ViewInv (reset P mmio timeAddr regFile) := by
  refine ⟨steady_reset .., fun b hb => ?_⟩
  have hreset : (resetCsr P).value b = 0 := value_resetCsr (by revert hb; cases b <;> decide)
  show (resetCsr P).value b &&& _ = 0
  rw [hreset]
  exact zero_and

/-- In every run whose writes are respectful, `sie` and `sip` show what is
delegated and nothing else, and a write to them changes nothing else. -/
theorem views_show_delegated (mmio : MemoryMapIo P.bus) (timeAddr : Option WordType)
    (regFile : RegIdx → WordType) (events : List (Event P))
    (h : Always runStep Respectful (reset P mmio timeAddr regFile) events) :
    Always runStep ViewsDelegated (reset P mmio timeAddr regFile) events :=
  Always.of_inv (fun _ _ _ _ hinv hc hs => ViewInv.step hinv hc hs)
    (fun _ _ hinv hc => hinv.delegated.views hinv.steady hc) (viewInv_reset mmio timeAddr regFile) h

/-- M delegates before it enables, and the views are written within that. -/
def delegatingProgram : List (BitVec 32) :=
  [0x22200093, -- addi x1, x0, 0x222
    0x30309073, -- csrrw x0, mideleg, x1
    0x30409073, -- csrrw x0, mie, x1
    0x10401073, -- csrrw x0, sie, x0
    0x20200113, -- addi x2, x0, 0x202
    0x14411073] -- csrrw x0, sip, x2

/-- M enables what it has not delegated. -/
def undelegatedProgram : List (BitVec 32) :=
  [0x00200093, -- addi x1, x0, 2
    0x30409073] -- csrrw x0, mie, x1

/-- The timer of S is delegated, and raised through `sip`. -/
def ownSupervisorTimerProgram : List (BitVec 32) :=
  [0x02000093, -- addi x1, x0, 0x20
    0x30309073, -- csrrw x0, mideleg, x1
    0x14409073] -- csrrw x0, sip, x1

theorem views_show_delegated_boot :
    Always runStep ViewsDelegated (programCpu delegatingProgram)
      [.instr, .instr, .irq .supervisorExternal true, .instr, .instr, .instr, .instr, .checkInterrupt] :=
  views_show_delegated _ _ _ _ (by decide +kernel)

/-- `sie` shows a bit that is not delegated, and a write to `sip` raises the
timer of S. -/
theorem views_show_undelegated :
    ¬ Always runStep ViewsDelegated (programCpu undelegatedProgram)
        [.instr, .instr, .checkInterrupt] ∧
      ¬ Always runStep ViewsDelegated (programCpu ownSupervisorTimerProgram)
        [.instr, .instr, .instr] := by
  constructor
  · intro h
    have hread := h.mono
      (Q := fun s _ => s.csr.readUncheckPrivilege Csr.sie.addr = some 2 →
        (s.csr.value .mideleg).getLsbD 1) fun s _ hv hr => by
      have h1 := hv.1 .sie .mie (by decide) rfl 2 hr 1 (by decide)
      revert h1
      cases (s.csr.value .mideleg).getLsbD 1 <;> simp
    exact absurd hread (by decide +kernel)
  · intro h
    have hwrite := h.mono
      (Q := fun s e => e.isInstr → nextCsrWrite s = some (Csr.sip.addr, 0x20) →
        (∀ s' ∈ (s.step e).toOption, (s'.csr.value .mip).getLsbD 5 =
          (s.csr.value .mip).getLsbD 5)) fun s e hv he hw s' hs => by
      refine ((hv.2 he _ hw s' ?_).2 rfl).1
      cases hstep : s.step e with
      | error p => rw [hstep] at hs; cases hs
      | ok t => rw [hstep] at hs; cases hs; rfl
    exact absurd hwrite (by decide +kernel)

end Delegation

end HereEmu
