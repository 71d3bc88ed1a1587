import HereEmu.Device.Plic

/-!
# The registers and gateways of the interrupt controller

A gateway is idle, pending or busy. A high level moves an idle one to pending, a
claim moves it on to busy, and a completion by a context that has the source
enabled moves it back, to pending if the level is still high. `GatewayInv` says
so of all of them together, and what the search for the next source rests on:
source 0 takes no part, and `priorityOrder` is in order. Every operation on the
layout keeps it.
-/

namespace HereEmu

open Lib Function

/-! ## Bit registers as sets -/

namespace PLICBitReg

variable {r : PLICBitReg} {i j : Source}

theorem bit_lt (i : Source) : i.val % INTERRUPTS_PER_REGISTER < 32 := Nat.mod_lt _ (by decide)

theorem getBit_eq (r : PLICBitReg) (i : Source) :
    r.getBit i = (r.bits (interruptWord i)).getLsbD (i.val % INTERRUPTS_PER_REGISTER) :=
  bit_ne_zero _ (bit_lt i)

theorem source_eq (hword : interruptWord i = interruptWord j)
    (hbit : i.val % INTERRUPTS_PER_REGISTER = j.val % INTERRUPTS_PER_REGISTER) : i = j := by
  have hdiv : i.val / INTERRUPTS_PER_REGISTER = j.val / INTERRUPTS_PER_REGISTER :=
    congrArg Fin.val hword
  apply Fin.ext
  rw [← Nat.div_add_mod i.val INTERRUPTS_PER_REGISTER, hdiv, hbit, Nat.div_add_mod]

theorem mask_getLsbD (i j : Source) (hword : interruptWord i = interruptWord j) :
    (interruptMask i).getLsbD (j.val % INTERRUPTS_PER_REGISTER) = decide (i = j) := by
  have hbit : i.val % INTERRUPTS_PER_REGISTER = j.val % INTERRUPTS_PER_REGISTER ↔ i = j :=
    ⟨source_eq hword, fun h => by rw [h]⟩
  show (BitVec.twoPow 32 _).getLsbD _ = _
  rw [BitVec.getLsbD_twoPow, decide_eq_true (bit_lt i), Bool.true_and]
  exact decide_eq_decide.2 hbit

@[simp]
theorem getBit_new (i : Source) : new.getBit i = false := by
  rw [getBit_eq]
  exact BitVec.getLsbD_zero

theorem getBit_setBit : (r.setBit i).getBit j = (decide (i = j) || r.getBit j) := by
  simp only [getBit_eq, setBit]
  by_cases hword : interruptWord j = interruptWord i
  · rw [hword, update_self, BitVec.getLsbD_or, mask_getLsbD i j hword.symm, Bool.or_comm]
  · have hne : i ≠ j := fun h => hword (by rw [h])
    rw [update_of_ne hword]
    simp [hne]

theorem getBit_clearBit : (r.clearBit i).getBit j = (!decide (i = j) && r.getBit j) := by
  simp only [getBit_eq, clearBit]
  by_cases hword : interruptWord j = interruptWord i
  · rw [hword, update_self, BitVec.getLsbD_and, BitVec.getLsbD_not,
      mask_getLsbD i j hword.symm, decide_eq_true (bit_lt j), Bool.true_and, Bool.and_comm]
  · have hne : i ≠ j := fun h => hword (by rw [h])
    rw [update_of_ne hword]
    simp [hne]

theorem getBit_writeWord {index : Fin PLIC_INTERRUPT_WORDS} {value : BitVec 32} :
    (r.writeWord index value).getBit j = if interruptWord j = index
      then value.getLsbD (j.val % INTERRUPTS_PER_REGISTER) else r.getBit j := by
  rw [getBit_eq, getBit_eq]
  unfold writeWord
  dsimp only
  split
  · next hword => rw [hword, update_self]
  · next hword => rw [update_of_ne hword]

end PLICBitReg

/-! ## The order of the sources -/

instance priorityLe_total (p : Source → BitVec 32) : Std.Total (priorityLe p) where
  total i j := by
    unfold priorityLe
    generalize p i = a
    generalize p j = b
    simp only [BitVec.lt_def, ← BitVec.toNat_inj, Fin.le_def]
    omega

instance priorityLe_trans (p : Source → BitVec 32) : IsTrans Source (priorityLe p) where
  trans i j k := by
    unfold priorityLe
    generalize p i = a
    generalize p j = b
    generalize p k = c
    simp only [BitVec.lt_def, ← BitVec.toNat_inj, Fin.le_def]
    omega

namespace PLICLayout

variable {l : PLICLayout} {i j : Source} {c : ContextId} {level : Bool}

/-! ## What an operation does to the gateways -/

theorem pending_setSourceLevel : (l.setSourceLevel i level).pending.getBit j =
    (l.pending.getBit j || decide (i = j) && level && decide (i ∉ l.interruptSourcesBusy)) := by
  unfold setSourceLevel
  cases level with
  | false => simp
  | true =>
    dsimp only
    by_cases hij : i = j
    · subst hij
      by_cases hpending : l.pending.getBit i <;>
        by_cases hbusy : i ∈ l.interruptSourcesBusy <;>
        simp [hpending, hbusy, PLICBitReg.getBit_setBit]
    · rw [if_pos rfl]
      split <;> simp [hij, PLICBitReg.getBit_setBit]

theorem sourceLevel_setSourceLevel : (l.setSourceLevel i level).sourceLevel.getBit j =
    if i = j then level else l.sourceLevel.getBit j := by
  unfold setSourceLevel
  cases level with
  | false =>
    by_cases hij : i = j <;> simp [hij, PLICBitReg.getBit_clearBit]
  | true =>
    dsimp only
    rw [if_pos rfl]
    split <;> by_cases hij : i = j <;> simp [hij, PLICBitReg.getBit_setBit]

/-- Two layouts with the same priorities, contexts and busy sources. -/
structure SameBut (l l' : PLICLayout) : Prop where
  priority : l'.priority = l.priority
  contexts : l'.contexts = l.contexts
  order : l'.priorityOrder = l.priorityOrder
  busy : l'.interruptSourcesBusy = l.interruptSourcesBusy

theorem sameBut_setSourceLevel : SameBut l (l.setSourceLevel i level) := by
  unfold setSourceLevel
  split
  · dsimp only
    split <;> exact ⟨rfl, rfl, rfl, rfl⟩
  · exact ⟨rfl, rfl, rfl, rfl⟩

/-- What the claim returns is not source 0, has a priority, is pending and
enabled, and is not busy. -/
theorem examine_eq_take {applyThreshold : Bool} :
    l.examine c applyThreshold i = .take ↔ i ≠ INTERRUPT_SOURCE_ZERO ∧ l.priority i ≠ 0 ∧
      (applyThreshold → (l.contexts c).priorityThreshold < l.priority i) ∧
      i ∉ l.interruptSourcesBusy ∧ l.isEnabled c i ∧ l.pending.getBit i := by
  unfold examine
  by_cases hzero : i = INTERRUPT_SOURCE_ZERO
  · simp [hzero]
  by_cases hpriority : l.priority i = 0
  · simp [hzero, hpriority]
  by_cases hbusy : i ∈ l.interruptSourcesBusy
  · refine ⟨fun h => ?_, fun h => absurd hbusy h.2.2.2.1⟩
    rw [if_neg hzero, if_neg hpriority, if_pos hbusy, ite_self] at h
    cases h
  rw [if_neg hzero, if_neg hpriority, if_neg hbusy]
  split
  · next hskip =>
      rw [Bool.and_eq_true, decide_eq_true_eq] at hskip
      refine ⟨fun h => (by cases h), fun h => absurd (h.2.2.1 hskip.1) ?_⟩
      exact BitVec.not_lt.2 hskip.2
  · next hkeep =>
      rw [Bool.and_eq_true, decide_eq_true_eq] at hkeep
      split
      · next htake =>
          rw [Bool.and_eq_true] at htake
          refine ⟨fun _ => ⟨hzero, hpriority, fun happly => ?_, hbusy, htake⟩, fun _ => rfl⟩
          exact BitVec.not_le.1 fun hle => hkeep ⟨happly, hle⟩
      · next hnot =>
          rw [Bool.and_eq_true] at hnot
          exact ⟨fun h => (by cases h), fun h => absurd h.2.2.2.2 hnot⟩

/-- The gateways of a layout and the order of its sources. -/
structure GatewayInv (l : PLICLayout) : Prop where
  exclusive : ∀ i, l.pending.getBit i → i ∉ l.interruptSourcesBusy
  level : ∀ i, l.sourceLevel.getBit i →
    l.pending.getBit i ∨ i ∈ l.interruptSourcesBusy
  zero_pending : l.pending.getBit INTERRUPT_SOURCE_ZERO = false
  zero_busy : INTERRUPT_SOURCE_ZERO ∉ l.interruptSourcesBusy
  zero_enabled : ∀ c, l.isEnabled c INTERRUPT_SOURCE_ZERO = false
  perm : l.priorityOrder.Perm (List.finRange VIRT_MAX_INTERRUPTS)
  sorted : l.priorityOrder.Pairwise (priorityLe l.priority)

theorem GatewayInv.new : PLICLayout.new.GatewayInv where
  exclusive := fun i _ => Finset.notMem_empty i
  level := fun i h => absurd h (by rw [PLICLayout.new, PLICBitReg.getBit_new]; exact Bool.false_ne_true)
  zero_pending := PLICBitReg.getBit_new _
  zero_busy := Finset.notMem_empty _
  zero_enabled := fun _ => PLICBitReg.getBit_new _
  perm := List.Perm.refl _
  sorted := (List.pairwise_le_finRange _).imp fun hle => .inr ⟨rfl, hle⟩

theorem GatewayInv.setSourceLevel (hl : l.GatewayInv) (hi : i ≠ INTERRUPT_SOURCE_ZERO) :
    (l.setSourceLevel i level).GatewayInv := by
  have hsame : SameBut l (l.setSourceLevel i level) := sameBut_setSourceLevel
  refine ⟨fun j => ?_, fun j => ?_, ?_, ?_, fun c => ?_, ?_, ?_⟩
  · rw [pending_setSourceLevel, hsame.busy]
    have hexclusive := hl.exclusive j
    simp only [Bool.or_eq_true, Bool.and_eq_true, decide_eq_true_eq]
    rintro (hpending | ⟨⟨rfl, _⟩, hbusy⟩)
    · exact hexclusive hpending
    · exact hbusy
  · rw [pending_setSourceLevel, sourceLevel_setSourceLevel, hsame.busy]
    have hlevel := hl.level j
    simp only [Bool.or_eq_true, Bool.and_eq_true, decide_eq_true_eq]
    split
    · next hij =>
        subst hij
        intro hhigh
        by_cases hbusy : i ∈ l.interruptSourcesBusy
        · exact .inr hbusy
        · exact .inl (.inr ⟨⟨rfl, hhigh⟩, hbusy⟩)
    · intro hhigh
      rcases hlevel hhigh with h | h
      · exact .inl (.inl h)
      · exact .inr h
  · rw [pending_setSourceLevel, hl.zero_pending]
    simp [hi]
  · rw [hsame.busy]
    exact hl.zero_busy
  · rw [isEnabled, hsame.contexts]
    exact hl.zero_enabled c
  · rw [hsame.order]
    exact hl.perm
  · rw [hsame.order, hsame.priority]
    exact hl.sorted

theorem GatewayInv.writePriority (hl : l.GatewayInv) (value : BitVec 32) :
    (l.writePriority i value).GatewayInv := by
  unfold PLICLayout.writePriority
  split
  · exact { hl with
      perm := (List.perm_insertionSort _ _).trans hl.perm
      sorted := List.pairwise_insertionSort _ _ }
  · exact hl

theorem GatewayInv.writeEnableWord (hl : l.GatewayInv) (index : Fin PLIC_INTERRUPT_WORDS)
    (value : BitVec 32) : (l.writeEnableWord c index value).GatewayInv := by
  refine { hl with zero_enabled := fun c' => ?_ }
  unfold PLICLayout.writeEnableWord isEnabled
  dsimp only
  by_cases hc : c' = c
  · subst hc
    rw [update_self, PLICBitReg.getBit_writeWord]
    split
    · next hindex =>
        rw [if_pos hindex.symm, BitVec.getLsbD_and, BitVec.getLsbD_not, PLICBitReg.mask_getLsbD _ _ rfl]
        simp
    · exact hl.zero_enabled c'
  · rw [update_of_ne hc]
    exact hl.zero_enabled c'

theorem GatewayInv.writePriorityThreshold (hl : l.GatewayInv) (value : BitVec 32) :
    (l.writePriorityThreshold c value).GatewayInv := by
  refine { hl with zero_enabled := fun c' => ?_ }
  unfold PLICLayout.writePriorityThreshold isEnabled
  dsimp only
  by_cases hc : c' = c
  · subst hc
    rw [update_self]
    exact hl.zero_enabled c'
  · rw [update_of_ne hc]
    exact hl.zero_enabled c'

/-- A claim takes a source that is pending and makes it busy, or there is none. -/
theorem readClaim_cases (hl : l.GatewayInv) (c : ContextId) :
    l.readClaim c = (0, l) ∨ ∃ i, i ≠ INTERRUPT_SOURCE_ZERO ∧ l.pending.getBit i ∧
      i ∉ l.interruptSourcesBusy ∧ l.readClaim c = (BitVec.ofNat 32 i.val, { l with
        pending := l.pending.clearBit i,
        interruptSourcesBusy := insert i l.interruptSourcesBusy }) := by
  unfold readClaim
  cases hfind : l.findPendingInterrupt c false with
  | none => exact .inl rfl
  | some i =>
    obtain ⟨_, htake, _⟩ := scan_eq_some hl.sorted hfind
    obtain ⟨hzero, _, _, hbusy, _, hpending⟩ := examine_eq_take.1 htake
    exact .inr ⟨i, hzero, hpending, hbusy, rfl⟩

theorem GatewayInv.readClaim (hl : l.GatewayInv) (c : ContextId) :
    (l.readClaim c).2.GatewayInv := by
  rcases readClaim_cases hl c with h | ⟨i, hzero, _, _, h⟩
  · rw [h]
    exact hl
  · rw [h]
    refine { hl with exclusive := fun j => ?_, level := fun j => ?_, zero_pending := ?_, zero_busy := ?_ }
    · rw [PLICBitReg.getBit_clearBit, Finset.mem_insert, not_or]
      simp only [Bool.and_eq_true, Bool.not_eq_true', decide_eq_false_iff_not]
      exact fun ⟨hne, hpending⟩ => ⟨fun h => hne h.symm, hl.exclusive j hpending⟩
    · rw [PLICBitReg.getBit_clearBit, Finset.mem_insert]
      simp only [Bool.and_eq_true, Bool.not_eq_true', decide_eq_false_iff_not]
      intro hhigh
      by_cases hij : i = j
      · exact .inr (.inl hij.symm)
      · rcases hl.level j hhigh with h | h
        · exact .inl ⟨hij, h⟩
        · exact .inr (.inr h)
    · rw [PLICBitReg.getBit_clearBit, hl.zero_pending, Bool.and_false]
    · rw [Finset.mem_insert, not_or]
      exact ⟨hzero.symm, hl.zero_busy⟩

/-- A completion ends the claim of a source that is enabled, and is otherwise
ignored. -/
theorem writeComplete_cases (l : PLICLayout) (c : ContextId) (value : BitVec 32) :
    l.writeComplete c value = l ∨ ∃ i, validInterruptId value.toNat = some i ∧
      l.isEnabled c i ∧ l.writeComplete c value = { l with
        interruptSourcesBusy := l.interruptSourcesBusy.erase i
        pending := if i ∈ l.interruptSourcesBusy ∧ l.sourceLevel.getBit i
          then l.pending.setBit i else l.pending } := by
  unfold writeComplete
  cases hid : validInterruptId value.toNat with
  | none => exact .inl rfl
  | some i =>
    dsimp only
    cases henabled : l.isEnabled c i with
    | false => exact .inl rfl
    | true =>
      refine .inr ⟨i, rfl, henabled, ?_⟩
      rw [Bool.not_true, if_neg Bool.false_ne_true]
      split <;> rfl

theorem validInterruptId_ne_zero {id : Nat} (h : validInterruptId id = some i) :
    i ≠ INTERRUPT_SOURCE_ZERO := by
  unfold validInterruptId at h
  split at h
  · next hvalid =>
      cases h
      exact fun hzero => hvalid.1 (congrArg Fin.val hzero)
  · cases h

theorem GatewayInv.writeComplete (hl : l.GatewayInv) (c : ContextId) (value : BitVec 32) :
    (l.writeComplete c value).GatewayInv := by
  rcases writeComplete_cases l c value with h | ⟨i, hid, _, h⟩
  · rw [h]
    exact hl
  · have hzero := validInterruptId_ne_zero hid
    have hpending : ∀ j, (if i ∈ l.interruptSourcesBusy ∧ l.sourceLevel.getBit i
        then l.pending.setBit i else l.pending).getBit j ↔
          l.pending.getBit j ∨ i = j ∧ i ∈ l.interruptSourcesBusy ∧
            l.sourceLevel.getBit i := by
      intro j
      split
      · next hagain =>
          rw [PLICBitReg.getBit_setBit, Bool.or_eq_true, decide_eq_true_eq]
          tauto
      · tauto
    rw [h]
    refine { hl with exclusive := fun j => ?_, level := fun j => ?_, zero_pending := ?_, zero_busy := ?_ }
    · rw [hpending, Finset.mem_erase, not_and]
      rintro (hold | ⟨hij, _⟩)
      · exact fun _ => hl.exclusive j hold
      · exact fun hne => absurd hij.symm hne
    · rw [hpending, Finset.mem_erase]
      intro hhigh
      rcases hl.level j hhigh with h | h
      · exact .inl (.inl h)
      · by_cases hij : i = j
        · subst hij
          exact .inl (.inr ⟨rfl, h, hhigh⟩)
        · exact .inr ⟨fun h => hij h.symm, h⟩
    · rw [← Bool.not_eq_true, hpending, hl.zero_pending]
      rintro (h | ⟨h, _⟩)
      · cases h
      · exact hzero h
    · exact fun h => hl.zero_busy (Finset.mem_of_mem_erase h)

end PLICLayout

end HereEmu
