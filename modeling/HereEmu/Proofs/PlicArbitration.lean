import HereEmu.Proofs.PlicGateway

/-!
# Arbitration and the lines to the hart

The search goes through the sources in the order of their priorities and gives
up at the first without one. Because the order is kept, the first source it
finds is the best, and giving up misses nothing (`Lib.scan`).

A line is driven only when its level changes, from a cache that is thrown away
with the line. `LineInv` ties the cache to the calls that were made: as long as
a context has a line, the level in the cache is the one sent last.
-/

namespace HereEmu

open Lib PlicAction PLICLayout List Function

namespace PLICLayout

variable {l : PLICLayout} {i j : Source} {c : ContextId} {applyThreshold : Bool}

/-- What context `c` can claim, or is told of. -/
def Eligible (l : PLICLayout) (c : ContextId) (applyThreshold : Bool) (i : Source) : Prop :=
  l.pending.getBit i ∧ l.isEnabled c i ∧ 0 < l.priority i ∧
    (applyThreshold → (l.contexts c).priorityThreshold < l.priority i)

theorem GatewayInv.examine_iff (hl : l.GatewayInv) :
    l.examine c applyThreshold i = .take ↔ l.Eligible c applyThreshold i := by
  rw [examine_eq_take]
  constructor
  · rintro ⟨_, hpriority, hthreshold, _, henabled, hpending⟩
    exact ⟨hpending, henabled, by bv_omega, hthreshold⟩
  · rintro ⟨hpending, henabled, hpriority, hthreshold⟩
    refine ⟨?_, (BitVec.ne_of_lt hpriority).symm, hthreshold, hl.exclusive i hpending, henabled,
      hpending⟩
    rintro rfl
    rw [hl.zero_pending] at hpending
    cases hpending

theorem examine_eq_stop (h : l.examine c applyThreshold i = .stop) : l.priority i = 0 := by
  unfold examine at h
  split at h
  · cases h
  split at h
  · next hzero => exact hzero
  split at h
  · cases h
  split at h
  · cases h
  split at h <;> cases h

/-- The search finds the best source, or there is none. -/
theorem GatewayInv.find_cases (hl : l.GatewayInv) (c : ContextId) (applyThreshold : Bool) :
    (l.findPendingInterrupt c applyThreshold = none ∧ ∀ i, ¬ l.Eligible c applyThreshold i) ∨
      ∃ i, l.findPendingInterrupt c applyThreshold = some i ∧ l.Eligible c applyThreshold i ∧
        ∀ j, l.Eligible c applyThreshold j → priorityLe l.priority i j := by
  have hall : ∀ i, i ∈ l.priorityOrder := fun i => hl.perm.mem_iff.2 (mem_finRange i)
  cases hfind : l.findPendingInterrupt c applyThreshold with
  | none =>
    have hstop : ∀ a b, priorityLe l.priority a b → l.examine c applyThreshold a = .stop →
        l.examine c applyThreshold b ≠ .take := by
      intro a b hle hgive htake
      have hzero := examine_eq_stop hgive
      have hpos := (hl.examine_iff.1 htake).2.2.1
      rcases hle with hlt | ⟨heq, _⟩
      · rw [hzero] at hlt
        exact BitVec.not_lt_zero hlt
      · rw [← heq, hzero] at hpos
        exact BitVec.not_lt_zero hpos
    refine .inl ⟨rfl, fun i hi => ?_⟩
    exact scan_eq_none hl.sorted hstop hfind i (hall i) (hl.examine_iff.2 hi)
  | some i =>
    obtain ⟨_, htake, hbest⟩ := scan_eq_some hl.sorted hfind
    refine .inr ⟨i, rfl, hl.examine_iff.1 htake, fun j hj => ?_⟩
    rcases hbest j (hall j) (hl.examine_iff.2 hj) with rfl | hle
    · exact .inr ⟨rfl, Fin.le_refl j⟩
    · exact hle

end PLICLayout

namespace PLIC

variable {p p' : PLIC} {e : PlicEvent} {a : PlicAction} {levels : Source → Bool} {c c' : ContextId}
  {calls : List IrqCall} {es : List PlicEvent} {os : List PlicAction} {level : Bool}

/-- What a read of the claim register of context `c` returns. -/
theorem claim_answer {addr : WordType} (hp : p.PlicInv)
    (hdecode : decodeRegister addr = some (.claimComplete c)) (levels : Source → Bool) :
    ∃ v p', p.step (.read .u32 addr levels) = .ok (.answer (.ok v), p') ∧
      ((v = 0 ∧ ∀ i, ¬ (p.syncPeripheralIrqLevels levels).layout.Eligible c false i) ∨
        ∃ i, v = BitVec.ofNat 64 i.val ∧
          (p.syncPeripheralIrqLevels levels).layout.Eligible c false i ∧
          ∀ j, (p.syncPeripheralIrqLevels levels).layout.Eligible c false j →
            priorityLe p.layout.priority i j) := by
  refine ⟨_, _, step_claim hdecode levels, ?_⟩
  rcases (hp.sync levels).gateway.find_cases c false with ⟨hfind, hnone⟩ | ⟨i, hfind, hi, hbest⟩
  · refine .inl ⟨?_, hnone⟩
    simp only [readClaim, hfind]
    rfl
  · rw [sync_sameBut.priority] at hbest
    refine .inr ⟨i, ?_, hi, hbest⟩
    have hlt : i.val < 64 := i.isLt
    simp only [readClaim, hfind]
    apply BitVec.eq_of_toNat_eq
    simp only [BitVec.toNat_setWidth, BitVec.toNat_ofNat]
    omega

/-! ## Lines -/

/-- The cache has the level each line was left at. -/
def LineInv (calls : List IrqCall) (p : PLIC) : Prop :=
  ∀ c level, (p.riscvIrqLine c).isSome → p.riscvIrqLevel c = some level →
    lastLevel c.val calls = some level

/-- The line of the context has been brought up to date. -/
def Refreshed (c : ContextId) (p : PLIC) : Prop :=
  p.riscvIrqLevel c = some (p.layout.pendingInterruptToNotify c).isSome

theorem LineInv.setContextIrqLine (hp : LineInv calls p) (c : ContextId) (level : Bool) :
    LineInv (calls ++ (p.setContextIrqLine c level).1) (p.setContextIrqLine c level).2 := by
  unfold PLIC.setContextIrqLine
  split
  · rwa [append_nil]
  · intro c' level' hline hlevel
    dsimp only at hline hlevel ⊢
    rw [lastLevel_append]
    by_cases hc : c' = c
    · subst hc
      rw [update_self] at hlevel
      cases hlevel
      obtain ⟨line, hline⟩ := Option.isSome_iff_exists.1 hline
      simp [hline, IRQLine.setIrq, lastLevel]
    · rw [update_of_ne hc] at hlevel
      have hother : lastLevel c'.val (((p.riscvIrqLine c).map fun line =>
          line.setIrq c.val level).toList) = none := by
        have hne : c.val ≠ c'.val := fun h => hc (Fin.ext h.symm)
        cases p.riscvIrqLine c <;> simp [IRQLine.setIrq, lastLevel, hne]
      rw [hother, Option.none_or]
      exact hp c' level' hline hlevel

theorem LineInv.congr (hp : LineInv calls p) (hline : p'.riscvIrqLine = p.riscvIrqLine)
    (hlevel : p'.riscvIrqLevel = p.riscvIrqLevel) : LineInv calls p' := by
  unfold LineInv
  rw [hline, hlevel]
  exact hp

theorem LineInv.refresh (hp : LineInv calls p) (c : ContextId) :
    LineInv (calls ++ (p.refreshContextIrqLine c).2.1) (p.refreshContextIrqLine c).2.2 :=
  hp.setContextIrqLine c _

theorem LineInv.refreshAll (hp : LineInv calls p) (ids : List Nat) :
    LineInv (calls ++ (p.refreshContextIrqLines ids).1) (p.refreshContextIrqLines ids).2 := by
  induction ids generalizing p calls with
  | nil => exact (append_nil calls).symm ▸ hp
  | cons id ids ih =>
    unfold refreshContextIrqLines
    split
    · exact ih hp
    · next c _ =>
        have hrest := ih (hp.refresh c)
        rwa [append_assoc] at hrest

theorem LineInv.step (hp : LineInv calls p) (h : p.step e = .ok (a, p')) :
    LineInv (calls ++ a.made) p' := by
  cases step_turn h with
  | idle _ hcalls => rwa [hcalls, append_nil]
  | claim | plainWrite | complete | setLevel | register =>
    rw [made, append_nil]
    exact hp.congr rfl rfl
  | @updates _ ids levels =>
    have hsync : LineInv calls (p.syncPeripheralIrqLevels levels) := hp.congr rfl rfl
    exact hsync.refreshAll ids
  | @setLine line id c =>
    refine LineInv.refresh ?_ c
    intro c' level hline hlevel
    dsimp only at hline hlevel
    by_cases hc : c' = c
    · subst hc
      rw [update_self] at hlevel
      cases hlevel
    · rw [update_of_ne hc] at hline hlevel
      exact hp c' level hline hlevel

theorem LineInv.run (h : runAll PLIC.step .new es = .ok (os, p)) : LineInv (os.flatMap made) p := by
  have hkeep : ∀ os p e a p', LineInv (flatMap made os) p → True →
      PLIC.step p e = .ok (a, p') → LineInv (flatMap made (os ++ [a])) p' := by
    intro os p e a p' hp _ h
    rw [flatMap_append, flatMap_singleton]
    exact hp.step h
  have hnew : LineInv (flatMap made []) .new := fun _ _ hline => (by cases hline)
  exact runAll_history hkeep hnew (Always.intro (fun _ _ => trivial) _ _) h

/-- A line that is up to date stays so when another is brought up to date. -/
theorem refreshed_refresh (h : p.Refreshed c ∨ c = c') :
    (p.refreshContextIrqLine c').2.2.Refreshed c := by
  unfold Refreshed
  unfold refreshContextIrqLine setContextIrqLine
  dsimp only
  by_cases hc : c = c'
  · subst hc
    split
    · next hcached => exact hcached
    · exact update_self ..
  · have hp := h.resolve_right hc
    split
    · exact hp
    · exact (update_of_ne hc _ _).trans hp

theorem refreshed_refreshAll {ids : List Nat}
    (h : p.Refreshed c ∨ ∃ id ∈ ids, validContextId id = some c) :
    (p.refreshContextIrqLines ids).2.Refreshed c := by
  induction ids generalizing p with
  | nil => exact h.resolve_right fun ⟨_, hmem, _⟩ => absurd hmem not_mem_nil
  | cons id ids ih =>
    unfold refreshContextIrqLines
    split
    · next hid =>
        refine ih (h.imp_right ?_)
        rintro ⟨id', hmem, hid'⟩
        rcases mem_cons.1 hmem with rfl | hmem
        · rw [hid] at hid'
          cases hid'
        · exact ⟨id', hmem, hid'⟩
    · next c' hid =>
        refine ih ?_
        rcases h with h | ⟨id', hmem, hid'⟩
        · exact .inl (refreshed_refresh (.inl h))
        · rcases mem_cons.1 hmem with rfl | hmem
          · rw [hid] at hid'
            cases hid'
            exact .inl (refreshed_refresh (.inr rfl))
          · exact .inr ⟨id', hmem, hid'⟩

/-- The event brings the line of context `c` up to date. -/
def Updates (c : ContextId) : PlicEvent → Prop
  | .updateContextIrqLine id _ => validContextId id = some c
  | .updateContextIrqLines ids _ => ∃ id ∈ ids, validContextId id = some c
  | _ => False

theorem refreshed_step (hupdates : Updates c e) (h : p.step e = .ok (a, p')) : p'.Refreshed c := by
  cases e with
  | updateContextIrqLine id levels =>
    simp only [step, updateContextIrqLine, show validContextId id = some c from hupdates] at h
    cases h
    exact refreshed_refresh (.inr rfl)
  | updateContextIrqLines ids levels =>
    cases h
    exact refreshed_refreshAll (.inr hupdates)
  | _ => exact hupdates.elim

/-- In every state the controller can get into, a read of the claim register of a
context returns the best of the sources that are pending, enabled for it and
have a priority, whatever its threshold, or 0 if there is none; and after its
line has been brought up to date, the level last sent through it is high if and
only if a source is pending and enabled whose priority is above the threshold. -/
theorem claims_best_and_drives_line (hrun : runAll PLIC.step .new es = .ok (os, p)) :
    (∀ addr levels c, decodeRegister addr = some (.claimComplete c) →
      ∃ v p', p.step (.read .u32 addr levels) = .ok (.answer (.ok v), p') ∧
        ((v = 0 ∧ ∀ i, ¬ (p.syncPeripheralIrqLevels levels).layout.Eligible c false i) ∨
          ∃ i, v = BitVec.ofNat 64 i.val ∧
            (p.syncPeripheralIrqLevels levels).layout.Eligible c false i ∧
            ∀ j, (p.syncPeripheralIrqLevels levels).layout.Eligible c false j →
              priorityLe p.layout.priority i j)) ∧
      ∀ c e a p', Updates c e → p.step e = .ok (a, p') → (p'.riscvIrqLine c).isSome →
        ∃ level, lastLevel c.val ((os ++ [a]).flatMap made) = some level ∧
          (level ↔ ∃ i, p'.layout.pending.getBit i ∧
            p'.layout.isEnabled c i ∧
            (p'.layout.contexts c).priorityThreshold < p'.layout.priority i) := by
  have hp := PlicInv.run hrun
  refine ⟨fun addr levels c hdecode => claim_answer hp hdecode levels, ?_⟩
  intro c e a p' hupdates hstep hline
  have hlines : LineInv ((os ++ [a]).flatMap made) p' := by
    rw [flatMap_append, flatMap_singleton]
    exact (LineInv.run hrun).step hstep
  refine ⟨_, hlines c _ hline (refreshed_step hupdates hstep), ?_⟩
  rcases (hp.step hstep).gateway.find_cases c true with ⟨hfind, hnone⟩ | ⟨i, hfind, hi, _⟩
  · rw [pendingInterruptToNotify, hfind]
    refine ⟨fun h => (by cases h), ?_⟩
    rintro ⟨i, hpending, henabled, hlt⟩
    exact absurd ⟨hpending, henabled, by bv_omega, fun _ => hlt⟩ (hnone i)
  · rw [pendingInterruptToNotify, hfind]
    exact ⟨fun _ => ⟨i, hi.1, hi.2.1, hi.2.2.2 rfl⟩, fun _ => rfl⟩

/-- The board gives context 0 its line. -/
def setUpLine : List PlicEvent := setUpSource ++ [.setIrqLine ⟨.machineExternal⟩ 0]

/-- The level of the device at source 3 goes high, and the line does. -/
theorem claims_best_and_drives_line_high : ∃ os p a p',
    runAll step .new setUpLine = .ok (os, p) ∧
      p.step (.updateContextIrqLines [0, 1] fun _ => true) = .ok (a, p') ∧
      a = .calls [⟨0, .machineExternal, true⟩] ∧
      (∃ i, p'.layout.pending.getBit i ∧ p'.layout.isEnabled ⟨0, by decide⟩ i ∧
        (p'.layout.contexts ⟨0, by decide⟩).priorityThreshold < p'.layout.priority i) ∧
      ∃ v p'', p.step claimContext0 = .ok (.answer (.ok v), p'') := by
  obtain ⟨⟨os, p⟩, hrun, rfl, ⟨a, p'⟩, hstep, ha, hline⟩ :
      ∃ out, runAll step .new setUpLine = .ok out ∧ out.1 = [.calls [], .answer (.ok 0),
          .answer (.ok 0), .calls [⟨0, .machineExternal, false⟩]] ∧
        ∃ out', out.2.step (.updateContextIrqLines [0, 1] fun _ => true) = .ok out' ∧
          out'.1 = .calls [⟨0, .machineExternal, true⟩] ∧
          out'.2.riscvIrqLine ⟨0, by decide⟩ = some ⟨.machineExternal⟩ := by decide +kernel
  dsimp only at ha hline
  obtain ⟨hclaims, hlines⟩ := claims_best_and_drives_line hrun
  have hupdates : Updates ⟨0, by decide⟩ (.updateContextIrqLines [0, 1] fun _ => true) :=
    ⟨0, mem_cons_self, rfl⟩
  obtain ⟨level, hlevel, hiff⟩ := hlines _ _ a p' hupdates hstep (by rw [hline]; rfl)
  have hhigh : level := by
    rw [ha] at hlevel
    exact (Option.some.inj hlevel).symm
  have hdecode : decodeRegister 0x200004 = some (.claimComplete ⟨0, by decide⟩) := by
    decide +kernel
  obtain ⟨v, p'', hclaim, _⟩ := hclaims _ (fun _ => true) _ hdecode
  exact ⟨_, p, a, p', hrun, hstep, ha, hiff.1 hhigh, v, p'', hclaim⟩

end PLIC

end HereEmu
