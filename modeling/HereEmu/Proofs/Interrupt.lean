import HereEmu.Proofs.TrapEntry
import Mathlib.Data.Nat.Find

/-!
# Which interrupt is taken

`tryTakeInterrupt` picks one pending and enabled interrupt first, the one with
the lowest number, and asks only then whether that one may be taken. So an
interrupt that may not be taken hides every other behind it, and the order of
preference is the lowest number first.

The specification side is stated on the bits of the registers: an interrupt is
eligible by its delegation bit, the privilege level and the global enables, and
its target is supervisor mode exactly if it is delegated.
-/

namespace HereEmu

open TrapController TrapTarget

/-! ## Pending, eligible, delivered -/

namespace CsrRegFile

variable (csr : CsrRegFile) (i : Nat)

/-- The supervisor and machine software, timer and external interrupts. -/
def standardInterrupts : List Nat := [1, 3, 5, 7, 9, 11]

def PendingEnabled : Prop := (pendingInterrupts csr).getLsbD i
  deriving Decidable

def Delegated : Prop := (csr.value .mideleg).getLsbD i
  deriving Decidable

/-- The mode an interrupt is to be taken in. -/
def target : PrivilegeLevel := if csr.Delegated i then .S else .M

/-- Whether an interrupt may be taken now. -/
def Eligible : Prop :=
  if csr.Delegated i then csr.cpl = .U ∨ csr.cpl = .S ∧ csr.get .mstatus Mstatus.sie = 1
  else csr.cpl < .M ∨ csr.get .mstatus Mstatus.mie = 1

instance (csr : CsrRegFile) (i : Nat) : Decidable (csr.Eligible i) := by
  unfold Eligible
  infer_instance

/-- The trap vector, cause and return address of a mode. -/
def tvec : PrivilegeLevel → WordType
  | .S => csr.value .stvec
  | _ => csr.value .mtvec

def xcause : PrivilegeLevel → WordType
  | .S => csr.value .scause
  | _ => csr.value .mcause

def xepc : PrivilegeLevel → WordType
  | .S => csr.value .sepc
  | _ => csr.value .mepc

/-- The trap vector names a handler for interrupt `i`: direct mode, or vectored
mode with the entry below the top of the address space. -/
def VectorUsable (tvec : WordType) (i : Nat) : Prop :=
  Xtvec.mode.get tvec = 0 ∨
    Xtvec.mode.get tvec = 1 ∧ (Xtvec.base.get tvec <<< 2).toNat + 4 * i < 2 ^ 64

/-- Where the handler of interrupt `i` starts. -/
def handler (tvec : WordType) (i : Nat) : WordType :=
  if Xtvec.mode.get tvec = 0 then Xtvec.base.get tvec <<< 2
  else (Xtvec.base.get tvec <<< 2) + BitVec.ofNat 64 (4 * i)

/-- Interrupt `i`, raised in `csr` at `pc`, was taken in its target mode. -/
structure Delivered (csr : CsrRegFile) (pc : WordType) (i : Nat) (csr' : CsrRegFile)
    (pc' : WordType) : Prop where
  cpl : csr'.cpl = csr.target i
  xcause : csr'.xcause (csr.target i) = BitVec.ofNat 64 i ||| (1#64 <<< 63)
  xepc : csr'.xepc (csr.target i) = pc
  pc : pc' = handler (csr.tvec (csr.target i)) i

end CsrRegFile

/-- Delivery is exact: an interrupt is taken iff one is eligible, and the one
that is taken is pending, enabled and eligible and is taken in its target mode. -/
def InterruptExact (csr : CsrRegFile) (pc : WordType) : Prop :=
  ∃ taken csr' pc', tryTakeInterrupt csr pc = .ok (taken, csr', pc') ∧
    (taken.isSome ↔ ∃ i, csr.PendingEnabled i ∧ csr.Eligible i) ∧
    ∀ interrupt, taken = some interrupt → ∃ i, interrupt = .fromNr i ∧ csr.PendingEnabled i ∧
      csr.Eligible i ∧ csr.Delivered pc i csr' pc'

/-! ## The scan -/

/-- `l` is the lowest pending and enabled interrupt. -/
def LowestPending (csr : CsrRegFile) (l : Nat) : Prop :=
  csr.PendingEnabled l ∧ ∀ i < l, ¬ csr.PendingEnabled i

variable {csr : CsrRegFile}

theorem pending_eq_zero_iff : pendingInterrupts csr = 0 ↔ ∀ i, ¬ csr.PendingEnabled i := by
  constructor
  · intro h i hi
    unfold CsrRegFile.PendingEnabled at hi
    rw [h] at hi
    simp at hi
  · intro h
    refine BitVec.eq_of_getLsbD_eq fun i hi => ?_
    rw [Bool.eq_false_iff.mpr (h i)]
    simp

theorem hasInterrupt_none (h : ∀ i, ¬ csr.PendingEnabled i) : hasInterrupt csr = .ok none := by
  unfold hasInterrupt
  rw [if_pos (pending_eq_zero_iff.mpr h)]

/-- The scan ends at the lowest one. -/
theorem hasInterrupt_lowest {l : Nat} (hl : LowestPending csr l) (hlt : l < 16) :
    hasInterrupt csr = .ok (some (.fromNr l)) := by
  have hne : pendingInterrupts csr ≠ 0 := fun h => pending_eq_zero_iff.mp h l hl.1
  have hfind : (List.range 16).find? (fun i => pendingInterrupts csr &&& (1#64 <<< i) != 0)
      = some l := by
    rw [List.find?_range_eq_some]
    refine ⟨?_, List.mem_range.mpr hlt, fun j hj => ?_⟩
    · rw [bit_ne_zero _ (by omega)]
      exact hl.1
    · rw [bit_ne_zero _ (by omega), Bool.not_eq_true', Bool.eq_false_iff]
      exact hl.2 j hj
  unfold hasInterrupt
  simp only [if_neg hne, hfind]

theorem exists_lowest {i : Nat} (h : csr.PendingEnabled i) : ∃ l ≤ i, LowestPending csr l := by
  have hex : ∃ j, csr.PendingEnabled j := ⟨i, h⟩
  exact ⟨Nat.find hex, Nat.find_min' hex h, Nat.find_spec hex, fun j hj => Nat.find_min hex hj⟩

/-! ## What becomes of the interrupt the scan picked -/

namespace CsrRegFile

/-- The machine interrupts, which the code never delegates. -/
def machineInterrupts : List Nat := [3, 7, 11]

/-- The delegation the code acts on. -/
def CodeDelegated (csr : CsrRegFile) (i : Nat) : Prop :=
  i ∉ machineInterrupts ∧ csr.Delegated i

instance (csr : CsrRegFile) (i : Nat) : Decidable (csr.CodeDelegated i) := by
  unfold CodeDelegated
  infer_instance

end CsrRegFile

open CsrRegFile

section Picked

variable {csr : CsrRegFile} {l : Nat}

theorem intoWord_fromNr (h : l ∈ standardInterrupts) :
    (Interrupt.fromNr l).intoWord = .ok (BitVec.ofNat 64 l) := by
  revert l
  decide

theorem get_mideleg_ne_zero {b : Nat} (hb : b < 64) :
    (csr.get .mideleg ⟨b, 1⟩ != 0) = decide (csr.Delegated b) := by
  have hget : csr.get .mideleg ⟨b, 1⟩ = if csr.Delegated b then 1 else 0 := BitField.get_one hb
  rw [hget]
  by_cases hd : csr.Delegated b
  · rw [if_pos hd, decide_eq_true hd]
    rfl
  · rw [if_neg hd, decide_eq_false hd]
    rfl

theorem isInterruptDelegatedMMode_fromNr (h : l ∈ standardInterrupts) :
    isInterruptDelegatedMMode csr (.fromNr l) = .ok (decide (csr.CodeDelegated l)) := by
  simp only [standardInterrupts, List.mem_cons, List.not_mem_nil, or_false] at h
  rcases h with rfl | rfl | rfl | rfl | rfl | rfl
  case inl | inr.inr.inl | inr.inr.inr.inr.inl =>
    refine congrArg Except.ok ((get_mideleg_ne_zero (by decide)).trans ?_)
    simp [CodeDelegated, machineInterrupts]
  all_goals
    simp [Interrupt.fromNr, isInterruptDelegatedMMode, CodeDelegated, machineInterrupts]

theorem toMachine_fromNr (h : l ∈ standardInterrupts) :
    toMachine csr (.interrupt (.fromNr l)) =
      .ok (decide (csr.cpl = .M ∨ ¬ csr.CodeDelegated l)) := by
  unfold toMachine
  by_cases hM : csr.cpl = .M
  · simp [hM]
  · simp only [isDelegatedMMode, isInterruptDelegatedMMode_fromNr h, hM, false_or]
    by_cases hd : csr.CodeDelegated l <;> simp [hd, bind, Except.bind, pure, Except.pure]

/-- The handler address is computed, or the vector is not usable and the code
stops. -/
theorem nextPcByTvec_fromNr (h : l ∈ standardInterrupts) (tvec : WordType) :
    (VectorUsable tvec l →
      nextPcByTvec (.interrupt (.fromNr l)) (Xtvec.mode.get tvec) (Xtvec.base.get tvec)
        = .ok (handler tvec l)) ∧
    (¬ VectorUsable tvec l →
      nextPcByTvec (.interrupt (.fromNr l)) (Xtvec.mode.get tvec) (Xtvec.base.get tvec)
        = .error .nextPcByTvec) := by
  have hoffset : BitVec.ofNat 64 l * 4 = BitVec.ofNat 64 (4 * l) ∧
      (BitVec.ofNat 64 l * 4).toNat = 4 * l := by
    revert l
    decide
  unfold nextPcByTvec VectorUsable handler
  by_cases h0 : Xtvec.mode.get tvec = 0
  · simp [h0]
  · by_cases h1 : Xtvec.mode.get tvec = 1
    · simp only [h1, intoWord_fromNr h, bind, Except.bind, hoffset.1, hoffset.1 ▸ hoffset.2]
      simp
    · simp only [h0, h1, if_false, false_or, false_and, false_implies, not_false_iff, true_implies,
        and_self]

/-- The cause register's value for interrupt `i`. -/
def interruptCause (i : Nat) : WordType := BitVec.ofNat 64 i ||| (1#64 <<< 63)

theorem trapIntoWord_fromNr (h : l ∈ standardInterrupts) :
    (Trap.interrupt (.fromNr l)).intoWord = .ok (interruptCause l) := by
  simp only [Trap.intoWord, intoWord_fromNr h]
  rfl

theorem tryTakeInterrupt_of_lowest (pc : WordType) (hl : LowestPending csr l)
    (h : l ∈ standardInterrupts) :
    tryTakeInterrupt csr pc = (trySendTrapSignal csr pc (.interrupt (.fromNr l)) 0).map
      fun r => (if r.1 then some (.fromNr l) else none, r.2) := by
  have hlt : l < 16 := by
    have hall : ∀ i ∈ standardInterrupts, i < 16 := by decide
    exact hall l h
  unfold tryTakeInterrupt
  simp only [hasInterrupt_lowest hl hlt, bind, Except.bind]
  cases trySendTrapSignal csr pc (.interrupt (.fromNr l)) 0 <;> rfl

/-- How `tryTakeInterrupt` ends when `l` is the lowest one. -/
inductive Picked (csr : CsrRegFile) (pc : WordType) (l : Nat) : Prop where
  | taken (machine : Bool) (hto : machine ↔ csr.cpl = .M ∨ ¬ csr.CodeDelegated l)
      (hen : csr.cpl < (of machine).level ∨ csr.get .mstatus (of machine).ie = 1)
      (csr' : CsrRegFile) (hentered : Entered (.of machine) csr csr' pc (interruptCause l) 0)
      (heq : tryTakeInterrupt csr pc = ((of machine).vector csr (.interrupt (.fromNr l))).map
        fun pc' => (some (.fromNr l), csr', pc'))
  | blocked (machine : Bool) (hto : machine ↔ csr.cpl = .M ∨ ¬ csr.CodeDelegated l)
      (hlevel : csr.cpl = (of machine).level)
      (hoff : csr.get .mstatus (of machine).ie ≠ 1)
      (heq : tryTakeInterrupt csr pc = .ok (none, csr, pc))

/-- The modes a hart of this machine runs in. -/
def KnownMode (l : PrivilegeLevel) : Prop := l = .U ∨ l = .S ∨ l = .M

theorem picked_cases (pc : WordType) (hcpl : KnownMode csr.cpl) (hl : LowestPending csr l)
    (h : l ∈ standardInterrupts) : Picked csr pc l := by
  have htake := tryTakeInterrupt_of_lowest pc hl h
  obtain ⟨machine, hmachine⟩ : ∃ m, m = decide (csr.cpl = .M ∨ ¬ csr.CodeDelegated l) := ⟨_, rfl⟩
  have hiff : machine ↔ csr.cpl = .M ∨ ¬ csr.CodeDelegated l := by
    rw [hmachine, decide_eq_true_iff]
  have hto : toMachine csr (.interrupt (.fromNr l)) = .ok machine := by
    rw [hmachine]
    exact toMachine_fromNr h
  have hlow : machine = false → csr.cpl ≠ .M := by
    rintro rfl hM
    cases hiff.mpr (.inl hM)
  by_cases hen : Admits csr machine (.interrupt (.fromNr l))
  · have hfits : csr.cpl.toWord ≤ (of machine).pp.ones := by
      refine fits fun hS => ?_
      rcases hcpl with hU | hS' | hM
      · rw [hU]; decide
      · rw [hS']; decide
      · exact absurd hM (hlow hS)
    obtain ⟨csr', hentered, hsend⟩ := trySendTrapSignal_enters pc 0 hfits (trapIntoWord_fromNr h) hto hen
    refine .taken machine hiff hen csr' hentered ?_
    rw [htake, hsend]
    cases (of machine).vector csr _ <;> rfl
  · refine .blocked machine hiff ?_ (fun h => hen (.inr h)) ?_
    · have hnot : ¬ csr.cpl < (of machine).level := fun h => hen (.inl h)
      revert hnot hlow
      rcases hcpl with hU | hS | hM
      · rw [hU]; cases machine <;> decide
      · rw [hS]; cases machine <;> decide
      · rw [hM]; cases machine <;> decide
    · rw [htake, (trySendTrapSignal_eq pc 0 hto).2 hen]
      rfl

end Picked

/-! ## When delivery is exact -/

/-- Nothing is pending; or the lowest pending interrupt may be taken and its
vector is usable; or none may be taken and the code does not take the lowest
one either. -/
def LowestDecides (csr : CsrRegFile) : Prop :=
  (∀ i, ¬ csr.PendingEnabled i) ∨
  ∃ l, LowestPending csr l ∧
    ((csr.Eligible l ∧ VectorUsable (csr.tvec (csr.target l)) l ∧
        (l ∈ machineInterrupts → ¬ csr.Delegated l)) ∨
      ((∀ i, csr.PendingEnabled i → ¬ csr.Eligible i) ∧
        ¬ (csr.cpl = .M ∧ csr.get .mstatus Mstatus.mie = 1) ∧
        (l ∈ machineInterrupts → ¬ csr.Delegated l ∨ csr.cpl = .M)))

section Exact

variable {csr csr' : CsrRegFile} {pc : WordType} {l : Nat}

theorem fromNr_inj {i : Nat} (hi : i ∈ standardInterrupts) (hl : l ∈ standardInterrupts)
    (h : Interrupt.fromNr l = Interrupt.fromNr i) : i = l := by
  have hall : ∀ i ∈ standardInterrupts, ∀ l ∈ standardInterrupts,
      Interrupt.fromNr l = Interrupt.fromNr i → i = l := by decide
  exact hall i hi l hl h

/-- What was taken, when a handler address was found. -/
theorem taken_of_map (h : l ∈ standardInterrupts) {tvec pc₁ : WordType} {csr₁ : CsrRegFile}
    {taken : Option Interrupt}
    (heq : (nextPcByTvec (.interrupt (.fromNr l)) (Xtvec.mode.get tvec) (Xtvec.base.get tvec)).map
      (fun pc' => (some (.fromNr l), csr', pc')) = .ok (taken, csr₁, pc₁)) :
    VectorUsable tvec l ∧ taken = some (.fromNr l) ∧ csr₁ = csr' := by
  by_cases husable : VectorUsable tvec l
  · rw [(nextPcByTvec_fromNr h tvec).1 husable] at heq
    cases heq
    exact ⟨husable, rfl, rfl⟩
  · rw [(nextPcByTvec_fromNr h tvec).2 husable] at heq
    cases heq

/-- A delivery that names `l` is a delivery of `l`. -/
theorem exact_of_taken (hbits : ∀ i, csr.PendingEnabled i → i ∈ standardInterrupts)
    (hl : l ∈ standardInterrupts) {pc' : WordType}
    (hall : ∀ interrupt, some (Interrupt.fromNr l) = some interrupt →
      ∃ i, interrupt = .fromNr i ∧ csr.PendingEnabled i ∧ csr.Eligible i ∧
        csr.Delivered pc i csr' pc') : csr.Eligible l ∧ csr.Delivered pc l csr' pc' := by
  obtain ⟨i, hi, hpend, helig, hdel⟩ := hall _ rfl
  cases fromNr_inj (hbits i hpend) hl hi
  exact ⟨helig, hdel⟩

theorem lowestDecides_of_exact (hcpl : KnownMode csr.cpl)
    (hbits : ∀ i, csr.PendingEnabled i → i ∈ standardInterrupts) (hexact : InterruptExact csr pc) :
    LowestDecides csr := by
  by_cases hnone : ∀ i, ¬ csr.PendingEnabled i
  · exact .inl hnone
  rw [not_forall_not] at hnone
  obtain ⟨l, -, hl⟩ := exists_lowest hnone.choose_spec
  have hstd := hbits l hl.1
  refine .inr ⟨l, hl, ?_⟩
  obtain ⟨taken, csr₁, pc₁, hrun, hsome, hall⟩ := hexact
  cases picked_cases pc hcpl hl hstd with
  | taken machine hto hen csr' hentered heq =>
    obtain ⟨husable, rfl, rfl⟩ := taken_of_map hstd (heq.symm.trans hrun)
    obtain ⟨helig, hdel⟩ := exact_of_taken hbits hstd hall
    -- the mode that was entered was the target
    have htarget : csr.target l = (of machine).level := hdel.cpl.symm.trans hentered.cpl
    refine .inl ⟨helig, ?_, fun hm hd => ?_⟩
    · rw [htarget]
      cases machine <;> exact husable
    · rw [show csr.target l = .S from if_pos hd] at htarget
      cases machine with
      | true => cases htarget
      | false => cases hto.mpr (.inr fun hcode => hcode.1 hm)
  | blocked machine hto hlevel hoff heq =>
    rw [heq] at hrun
    cases hrun
    have hmachine : csr.cpl = .M ∨ ¬ csr.CodeDelegated l →
        csr.cpl = .M ∧ csr.get .mstatus Mstatus.mie ≠ 1 := by
      intro hM
      obtain rfl := hto.mpr hM
      exact ⟨hlevel, hoff⟩
    refine .inr ⟨fun i hp he => ?_, fun hMie => ?_, fun hm => .inr ?_⟩
    · exact absurd (hsome.mpr ⟨i, hp, he⟩) (by simp)
    · exact (hmachine (.inl hMie.1)).2 hMie.2
    · exact (hmachine (.inr fun hd => hd.1 hm)).1

variable {machine : Bool}

/-- An interrupt that is eligible, and that the code delegates as it should, goes
to its target mode, and that mode lets it through. -/
theorem target_of_eligible (hto : machine ↔ csr.cpl = .M ∨ ¬ csr.CodeDelegated l)
    (helig : csr.Eligible l) (hmach : l ∈ machineInterrupts → ¬ csr.Delegated l) :
    csr.target l = (of machine).level ∧
      (csr.cpl < (of machine).level ∨ csr.get .mstatus (of machine).ie = 1) := by
  unfold Eligible at helig
  by_cases hd : csr.Delegated l
  · rw [if_pos hd] at helig
    have hfalse : machine = false := by
      rw [← Bool.not_eq_true, hto]
      rintro (hM | hcode)
      · rw [hM] at helig
        rcases helig with h | ⟨h, -⟩ <;> cases h
      · exact hcode ⟨fun hm => hmach hm hd, hd⟩
    subst hfalse
    refine ⟨if_pos hd, helig.imp (fun hU => ?_) And.right⟩
    rw [hU]
    decide
  · rw [if_neg hd] at helig
    obtain rfl := hto.mpr (.inr fun h => hd h.2)
    exact ⟨if_neg hd, helig⟩

/-- The interrupt was taken in its target mode, whose vector is usable. -/
theorem exact_of_entered (hstd : l ∈ standardInterrupts) (hl : LowestPending csr l)
    (helig : csr.Eligible l) (hmode : csr.target l = (of machine).level)
    (husable : VectorUsable (csr.tvec (csr.target l)) l)
    (hentered : Entered (.of machine) csr csr' pc (interruptCause l) 0)
    (heq : tryTakeInterrupt csr pc = ((of machine).vector csr (.interrupt (.fromNr l))).map
      fun pc' => (some (.fromNr l), csr', pc')) : InterruptExact csr pc := by
  have hvec : csr.value (of machine).tvec = csr.tvec (csr.target l) := by
    rw [hmode]
    cases machine <;> rfl
  refine ⟨some (.fromNr l), csr', handler (csr.tvec (csr.target l)) l, ?_, ?_, ?_⟩
  · rw [heq, vector, hvec, (nextPcByTvec_fromNr hstd _).1 husable]
    rfl
  · exact ⟨fun _ => ⟨l, hl.1, helig⟩, fun _ => rfl⟩
  · intro interrupt h
    cases h
    refine ⟨l, rfl, hl.1, helig, hentered.cpl.trans hmode.symm, ?_, ?_, rfl⟩
    · rw [hmode]
      cases machine <;> exact hentered.cause
    · rw [hmode]
      cases machine <;> exact hentered.epc

/-- Nothing is taken, and nothing was to be taken. -/
theorem exact_of_none (hno : ∀ i, csr.PendingEnabled i → ¬ csr.Eligible i)
    (heq : tryTakeInterrupt csr pc = .ok (none, csr, pc)) : InterruptExact csr pc := by
  refine ⟨none, csr, pc, heq, ⟨fun h => (by cases h), ?_⟩, fun _ h => (by cases h)⟩
  rintro ⟨i, hp, he⟩
  exact absurd he (hno i hp)

theorem exact_of_lowestDecides (hcpl : KnownMode csr.cpl)
    (hbits : ∀ i, csr.PendingEnabled i → i ∈ standardInterrupts) (h : LowestDecides csr) :
    InterruptExact csr pc := by
  rcases h with hnone | ⟨l, hl, h⟩
  · refine exact_of_none (fun i hp => absurd hp (hnone i)) ?_
    unfold tryTakeInterrupt
    simp only [hasInterrupt_none hnone, bind, Except.bind]
    rfl
  have hstd := hbits l hl.1
  rcases h with ⟨helig, husable, hmach⟩ | ⟨hno, hMie, hmach⟩
  · cases picked_cases pc hcpl hl hstd with
    | taken machine hto hen csr' hentered heq =>
      have htarget := (target_of_eligible hto helig hmach).1
      exact exact_of_entered hstd hl helig htarget husable hentered heq
    | blocked machine hto hlevel hoff =>
      have hen := (target_of_eligible hto helig hmach).2
      rw [hlevel] at hen
      exact absurd (hen.resolve_left (by cases machine <;> decide)) hoff
  · have hl' := hno l hl.1
    unfold Eligible at hl'
    cases picked_cases pc hcpl hl hstd with
    | taken machine hto hen =>
      cases machine with
      | true =>
        -- taken in machine mode: either out of machine mode, or with its enable set
        by_cases hM : csr.cpl = .M
        · rw [hM] at hen
          exact absurd ⟨hM, hen.resolve_left (by decide)⟩ hMie
        · have hd : csr.Delegated l := by
            by_contra hd
            rw [if_neg hd] at hl'
            exact hl' hen
          have hm : l ∈ machineInterrupts := by
            by_contra hm
            exact (hto.mp rfl).resolve_left hM ⟨hm, hd⟩
          exact absurd ((hmach hm).resolve_left (not_not.mpr hd)) hM
      | false =>
        obtain ⟨hnotM, hcode⟩ := not_or.mp (mt hto.mpr (by decide))
        rw [if_pos (not_not.mp hcode).2] at hl'
        rcases hcpl with hU | hS | hM
        · exact absurd (.inl hU) hl'
        · rw [hS] at hen
          exact absurd (.inr ⟨hS, hen.resolve_left (by decide)⟩) hl'
        · exact absurd hM hnotM
    | blocked _ _ _ _ heq => exact exact_of_none hno heq

end Exact

/-- In a known mode and with only standard interrupts pending, delivery is
exact iff the lowest pending interrupt settles the matter. -/
theorem interruptExact_iff (csr : CsrRegFile) (pc : WordType) (hcpl : KnownMode csr.cpl)
    (hbits : ∀ i, csr.PendingEnabled i → i ∈ standardInterrupts) :
    InterruptExact csr pc ↔ LowestDecides csr :=
  ⟨lowestDecides_of_exact hcpl hbits, exact_of_lowestDecides hcpl hbits⟩

theorem forall_pending {P : Nat → Prop} (h : ∀ i < 64, csr.PendingEnabled i → P i) :
    ∀ i, csr.PendingEnabled i → P i := by
  intro i hi
  refine h i ?_ hi
  by_contra hge
  have hfalse : (pendingInterrupts csr).getLsbD i = false := BitVec.getLsbD_of_ge _ _ (by omega)
  unfold PendingEnabled at hi
  rw [hfalse] at hi
  cases hi

/-- A hart at level `cpl` with the given interrupts delegated and pending. -/
def pendingCsr (cpl : PrivilegeLevel) (mideleg pending : WordType) : CsrRegFile :=
  { (((CsrRegFile.new.setValue .mideleg mideleg).setValue .mie pending).setValue .mip pending) with
    cpl }

/-- A user program is interrupted by the machine timer. -/
theorem interruptExact_iff_timer : InterruptExact (pendingCsr .U 0x222 0x80) 0x80000000 := by
  refine (interruptExact_iff _ _ (.inl rfl) (forall_pending (by decide +kernel))).mpr ?_
  exact .inr ⟨7, ⟨by decide +kernel, by decide +kernel⟩,
    .inl ⟨by decide +kernel, .inl (by decide +kernel), fun _ => by decide +kernel⟩⟩

/-- In supervisor mode with its interrupts off, a delegated software interrupt
keeps the machine timer from being taken. -/
theorem hidden_timer_not_exact :
    KnownMode (pendingCsr .S 0x222 0x82).cpl ∧
    (∀ i, (pendingCsr .S 0x222 0x82).PendingEnabled i → i ∈ standardInterrupts) ∧
    ¬ InterruptExact (pendingCsr .S 0x222 0x82) 0x80000000 := by
  have hmode : KnownMode (pendingCsr .S 0x222 0x82).cpl := .inr (.inl rfl)
  have hbits : ∀ i, (pendingCsr .S 0x222 0x82).PendingEnabled i → i ∈ standardInterrupts :=
    forall_pending (by decide +kernel)
  refine ⟨hmode, hbits, fun h => ?_⟩
  rcases lowestDecides_of_exact hmode hbits h with hnone | ⟨l, hl, h⟩
  · exact absurd (show PendingEnabled _ 7 by decide +kernel) (hnone 7)
  · have hl1 : l = 1 := by
      rcases Nat.lt_trichotomy l 1 with h | h | h
      · exact absurd hl.1 (by rw [show l = 0 by omega]; decide +kernel)
      · exact h
      · exact absurd (show PendingEnabled _ 1 by decide +kernel) (hl.2 1 h)
    rcases h with ⟨helig, -⟩ | ⟨hno, -⟩
    · rw [hl1] at helig
      revert helig
      decide +kernel
    · exact hno 7 (by decide +kernel) (by decide +kernel)

/-! ## Priority

The project's CSR document ranks interrupts by number, the highest first. -/

/-- The interrupt that is taken is the one with the highest number. -/
def PicksHighest (csr : CsrRegFile) (pc : WordType) : Prop :=
  ∃ h ctx, csr.PendingEnabled h ∧ (∀ i, csr.PendingEnabled i → i ≤ h) ∧
    tryTakeInterrupt csr pc = .ok (some (.fromNr h), ctx)

section Priority

variable {csr : CsrRegFile} {pc : WordType}

theorem fromNr_eq_unknown {n : Nat} (h : 12 ≤ n) : Interrupt.fromNr n = .unknown := by
  obtain ⟨k, rfl⟩ := Nat.exists_eq_add_of_le' h
  rfl

variable {l : Nat}

/-- Two numbers with the same meaning are the same, or have none. -/
theorem eq_or_unknown_of_fromNr_eq {h : Nat} (heq : Interrupt.fromNr l = Interrupt.fromNr h) :
    l = h ∨ Interrupt.fromNr l = .unknown := by
  by_cases hl : 12 ≤ l
  · exact .inr (fromNr_eq_unknown hl)
  by_cases hh : 12 ≤ h
  · exact .inr (heq.trans (fromNr_eq_unknown hh))
  have hall : ∀ l < 12, ∀ h < 12, Interrupt.fromNr l = Interrupt.fromNr h →
      l = h ∨ Interrupt.fromNr l = .unknown := by decide
  exact hall l (by omega) h (by omega) heq

variable {ctx : Context}

/-- Whatever is taken is the lowest one. -/
theorem taken_lowest (hl : LowestPending csr l) {interrupt : Interrupt}
    (h : tryTakeInterrupt csr pc = .ok (some interrupt, ctx)) :
    interrupt = .fromNr l ∧ interrupt ≠ .unknown := by
  obtain ⟨csr', pc'⟩ := ctx
  rcases tryTakeInterrupt_cases h with ⟨hnone, -⟩ | ⟨i, hi, hfound, htaken⟩
  · cases hnone
  cases hi
  constructor
  · by_cases hlt : l < 16
    · rw [hasInterrupt_lowest hl hlt] at hfound
      exact (Option.some.inj (Except.ok.inj hfound)).symm
    · have hnone : (List.range 16).find? (fun i => pendingInterrupts csr &&& (1#64 <<< i) != 0)
          = none := by
        rw [List.find?_eq_none]
        intro i hi
        have hi := List.mem_range.mp hi
        rw [bit_ne_zero _ (by omega)]
        exact hl.2 i (by omega)
      have hne : pendingInterrupts csr ≠ 0 := fun h => pending_eq_zero_iff.mp h l hl.1
      unfold hasInterrupt at hfound
      simp only [if_neg hne, hnone] at hfound
      cases hfound
  · -- a cause without a number is not sent
    rintro rfl
    obtain ⟨hw, -⟩ := htaken
    cases hw

theorem higher_not_taken {h : Nat} (hl : LowestPending csr l) (hlt : l < h) :
    tryTakeInterrupt csr pc ≠ .ok (some (.fromNr h), ctx) := by
  intro htaken
  obtain ⟨heq, hknown⟩ := taken_lowest hl htaken
  rcases eq_or_unknown_of_fromNr_eq heq with h' | h'
  · omega
  · exact hknown h'

end Priority

/-- Two or more interrupts are pending and enabled, and all of them may be taken
in the same mode. -/
def Contested (csr : CsrRegFile) : Prop :=
  (∃ i j, i ≠ j ∧ csr.PendingEnabled i ∧ csr.PendingEnabled j) ∧
    ∃ mode, ∀ i, csr.PendingEnabled i → csr.Eligible i ∧ csr.target i = mode

theorem lowest_lt_highest {l h : Nat} (hcontest : Contested csr) (hl : LowestPending csr l)
    (hmax : ∀ i, csr.PendingEnabled i → i ≤ h) : l < h := by
  obtain ⟨⟨i, j, hij, hi, hj⟩, -⟩ := hcontest
  have hli : l ≤ i := Nat.le_of_not_lt fun hlt => hl.2 i hlt hi
  have hlj : l ≤ j := Nat.le_of_not_lt fun hlt => hl.2 j hlt hj
  have hih := hmax i hi
  have hjh := hmax j hj
  omega

/-- The highest of several is never the one that is taken. -/
theorem never_picks_highest (csr : CsrRegFile) (pc : WordType) (hcontest : Contested csr) :
    ¬ PicksHighest csr pc := by
  rintro ⟨h, ctx, hpend, hmax, htaken⟩
  obtain ⟨l, -, hl⟩ := exists_lowest hpend
  exact higher_not_taken hl (lowest_lt_highest hcontest hl hmax) htaken

/-- The machine's software, timer and external interrupt, all pending. -/
theorem contested_machine : Contested (pendingCsr .U 0 0x888) :=
  ⟨⟨3, 11, by decide, by decide +kernel, by decide +kernel⟩, .M,
    forall_pending (by decide +kernel)⟩

theorem never_picks_highest_machine : ¬ PicksHighest (pendingCsr .U 0 0x888) 0x80000000 :=
  never_picks_highest _ _ contested_machine

/-- Of those three the software interrupt is taken, the lowest in rank. -/
theorem software_before_external :
    Contested (pendingCsr .U 0 0x888) ∧
    (∃ ctx, tryTakeInterrupt (pendingCsr .U 0 0x888) 0x80000000 = .ok (some .machineSoft, ctx)) ∧
    ¬ PicksHighest (pendingCsr .U 0 0x888) 0x80000000 := by
  have hl : LowestPending (pendingCsr .U 0 0x888) 3 := ⟨by decide +kernel, by decide +kernel⟩
  have hstd : 3 ∈ standardInterrupts := by decide
  refine ⟨contested_machine, ?_, ?_⟩
  · cases picked_cases 0x80000000 (.inl rfl) hl hstd with
    | taken machine hto _ csr' _ heq =>
      obtain rfl := hto.mpr (.inr (by decide +kernel))
      have hnext := (nextPcByTvec_fromNr hstd ((pendingCsr .U 0 0x888).value .mtvec)).1
        (.inl (by decide +kernel))
      exact ⟨_, heq.trans (congrArg (Except.map _) hnext)⟩
    | blocked machine _ hlevel => cases machine <;> cases hlevel
  · rintro ⟨h, ctx, hpend, hmax, htaken⟩
    exact higher_not_taken hl (lowest_lt_highest contested_machine hl hmax) htaken

end HereEmu
