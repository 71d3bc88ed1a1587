import HereEmu.Lib.Run
import HereEmu.Proofs.PlicLayout

/-!
# Runs of the interrupt controller

Every event looks at the devices first or does not, and then does one thing to
the layout; `PlicTurn` lists them. So the gateways are in order in every state
the controller can get into. What was sampled last is read off the events
(`sampled`), and a source that has been claimed stays busy until an event
completes it, which gives the order of claims and completions in a run.
-/

namespace HereEmu

open Lib PLICLayout Function

def PlicAction.made : PlicAction → List IrqCall
  | .calls made => made
  | .answer _ => []

namespace PLIC

variable {p p' q : PLIC} {e : PlicEvent} {a : PlicAction} {levels : Source → Bool} {i : Source}
  {c : ContextId} {es : List PlicEvent} {os : List PlicAction}

/-! ## Looking at the devices -/

/-- What every sample of a device keeps, looking at all of them keeps. -/
theorem sync_induction {P : PLICLayout → Prop} (h0 : P p.layout)
    (hset : ∀ l i, p.peripheralIrqDevices i → P l → P (l.setSourceLevel i (levels i))) :
    P (p.syncPeripheralIrqLevels levels).layout := by
  have hfold : ∀ (ids : List Source) (l : PLICLayout), P l → P (ids.foldl (fun l id =>
      if p.peripheralIrqDevices id then l.setSourceLevel id (levels id) else l) l) := by
    intro ids
    induction ids with
    | nil => exact fun _ hl => hl
    | cons i ids ih =>
      intro l hl
      refine ih _ ?_
      dsimp only
      split
      · next hdevice => exact hset l i hdevice hl
      · exact hl
  exact hfold _ _ h0

theorem sync_sameBut : p.layout.SameBut (p.syncPeripheralIrqLevels levels).layout := by
  refine sync_induction ⟨rfl, rfl, rfl, rfl⟩ fun l i _ hl => ?_
  have hset : l.SameBut (l.setSourceLevel i (levels i)) := sameBut_setSourceLevel
  exact ⟨hset.priority.trans hl.priority, hset.contexts.trans hl.contexts,
    hset.order.trans hl.order, hset.busy.trans hl.busy⟩

/-- After a look at the devices the level of a source is that of its device. -/
theorem sync_sourceLevel : (p.syncPeripheralIrqLevels levels).layout.sourceLevel.getBit i =
    if p.peripheralIrqDevices i then levels i else p.layout.sourceLevel.getBit i := by
  have hfold : ∀ (ids : List Source) (l : PLICLayout), (ids.foldl (fun l id =>
      if p.peripheralIrqDevices id then l.setSourceLevel id (levels id) else l) l).sourceLevel.getBit i =
      if i ∈ ids ∧ p.peripheralIrqDevices i then levels i else l.sourceLevel.getBit i := by
    intro ids
    induction ids with
    | nil => simp
    | cons j ids ih =>
      intro l
      rw [List.foldl_cons, ih]
      by_cases hmem : i ∈ ids ∧ p.peripheralIrqDevices i
      · rw [if_pos hmem, if_pos ⟨List.mem_cons_of_mem _ hmem.1, hmem.2⟩]
      · rw [if_neg hmem]
        by_cases hij : j = i
        · subst hij
          cases hdevice : p.peripheralIrqDevices j <;>
            simp [sourceLevel_setSourceLevel]
        · have hhead : (if p.peripheralIrqDevices j then l.setSourceLevel j (levels j)
              else l).sourceLevel.getBit i = l.sourceLevel.getBit i := by
            split
            · rw [sourceLevel_setSourceLevel, if_neg hij]
            · rfl
          rw [hhead, if_neg]
          rintro ⟨h, hdevice⟩
          rcases List.mem_cons.1 h with h | h
          · exact hij h.symm
          · exact hmem ⟨h, hdevice⟩
  rw [syncPeripheralIrqLevels, hfold]
  simp

/-! ## What an event can do -/

/-- Whether an access looks at the devices. -/
def accessSamples (w : Width) (addr : WordType) : Bool :=
  decide (w = .u32) && (decodeRegister addr).any samples

/-- The levels an event looks at. -/
def snapshot? : PlicEvent → Option (Source → Bool)
  | .read w addr levels => if accessSamples w addr then some levels else none
  | .write w addr _ levels => if accessSamples w addr then some levels else none
  | .updateContextIrqLine id levels => (validContextId id).map fun _ => levels
  | .updateContextIrqLines _ levels => some levels
  | _ => none

/-- The level an event samples for a source. -/
def sampled (i : Source) (p : PLIC) (e : PlicEvent) : Option Bool :=
  match e with
  | .setInterruptLevel id level => if validInterruptId id.toNat = some i then some level else none
  | e => (snapshot? e).bind fun levels =>
    if p.peripheralIrqDevices i then some (levels i) else none

/-- Everything an event can do to the controller. -/
inductive PlicTurn (p : PLIC) : PlicEvent → PlicAction → PLIC → Prop
  | idle {e : PlicEvent} {a : PlicAction} (hnone : ∀ i, sampled i p e = none) (hcalls : a.made = []) :
      PlicTurn p e a p
  | claim {addr : WordType} {levels : Source → Bool} {c : ContextId}
      (hdecode : decodeRegister addr = some (.claimComplete c)) :
      PlicTurn p (.read .u32 addr levels)
        (.answer (.ok (((p.syncPeripheralIrqLevels levels).layout.readClaim c).1.setWidth 64)))
        { p.syncPeripheralIrqLevels levels with
          layout := ((p.syncPeripheralIrqLevels levels).layout.readClaim c).2 }
  | plainWrite {e : PlicEvent} {r : PlicRegister} (value : BitVec 32)
      (hnone : ∀ i, sampled i p e = none) (hplain : samples r = false) :
      PlicTurn p e (.answer (.ok 0)) { p with layout := p.layout.writeRegister r value }
  | complete {addr data : WordType} {levels : Source → Bool} {c : ContextId}
      (hdecode : decodeRegister addr = some (.claimComplete c)) :
      PlicTurn p (.write .u32 addr data levels) (.answer (.ok 0))
        { p.syncPeripheralIrqLevels levels with
          layout := (p.syncPeripheralIrqLevels levels).layout.writeComplete c (data.setWidth 32) }
  | setLevel {id : BitVec 32} {level : Bool} {i : Source}
      (hid : validInterruptId id.toNat = some i) :
      PlicTurn p (.setInterruptLevel id level) (.calls [])
        { p with layout := p.layout.setSourceLevel i level }
  | register {id : BitVec 32} {i : Source} (hid : validInterruptId id.toNat = some i) :
      PlicTurn p (.registerDevice id) (.calls [])
        { p with peripheralIrqDevices := update p.peripheralIrqDevices i true }
  | updates {e : PlicEvent} {ids : List Nat} {levels : Source → Bool}
      (hsampled : ∀ i, sampled i p e = if p.peripheralIrqDevices i then some (levels i) else none) :
      PlicTurn p e (.calls ((p.syncPeripheralIrqLevels levels).refreshContextIrqLines ids).1)
        ((p.syncPeripheralIrqLevels levels).refreshContextIrqLines ids).2
  | setLine {line : IRQLine} {id : Nat} {c : ContextId} (hid : validContextId id = some c) :
      PlicTurn p (.setIrqLine line id)
        (.calls (({ p with
          riscvIrqLine := update p.riscvIrqLine c (some line)
          riscvIrqLevel := update p.riscvIrqLevel c none } : PLIC).refreshContextIrqLine c).2.1)
        (({ p with
          riscvIrqLine := update p.riscvIrqLine c (some line)
          riscvIrqLevel := update p.riscvIrqLevel c none } : PLIC).refreshContextIrqLine c).2.2

/-- An access that does not look at the devices samples nothing. -/
theorem sampled_plain {w : Width} {addr : WordType} (h : accessSamples w addr = false)
    (i : Source) : sampled i p (.read w addr levels) = none ∧
      ∀ data, sampled i p (.write w addr data levels) = none := by
  simp [sampled, snapshot?, h]

theorem accessSamples_decode {r : Option PlicRegister} {addr : WordType}
    (hdecode : decodeRegister addr = r) (hplain : r.any samples = false) (w : Width) :
    accessSamples w addr = false := by
  rw [accessSamples, hdecode, hplain, Bool.and_false]

theorem step_turn (h : p.step e = .ok (a, p')) : PlicTurn p e a p' := by
  cases e with
  | read w addr levels =>
    have hidle : ∀ {r}, accessSamples w addr = false →
        PlicTurn p (.read w addr levels) (.answer r) p :=
      fun hs => .idle (fun i => (sampled_plain hs i).1) rfl
    cases w with
    | u8 | u16 | u64 =>
      cases h
      exact hidle rfl
    | u32 =>
      simp only [step, read] at h
      cases hdecode : decodeRegister addr with
      | none =>
        rw [hdecode] at h
        cases h
        exact hidle (accessSamples_decode hdecode rfl _)
      | some register =>
        rw [hdecode] at h
        cases register with
        | claimComplete c =>
          cases h
          exact .claim hdecode
        | _ =>
          cases h
          exact hidle (accessSamples_decode hdecode rfl _)
  | write w addr data levels =>
    have hnone : accessSamples w addr = false → ∀ i, sampled i p (.write w addr data levels) = none :=
      fun hs i => (sampled_plain hs i).2 data
    cases w with
    | u8 | u16 | u64 =>
      cases h
      exact .idle (hnone rfl) rfl
    | u32 =>
      simp only [step, write] at h
      cases hdecode : decodeRegister addr with
      | none =>
        rw [hdecode] at h
        cases h
        exact .idle (hnone (accessSamples_decode hdecode rfl _)) rfl
      | some register =>
        rw [hdecode] at h
        cases register with
        | pending index =>
          cases h
          exact .idle (hnone (accessSamples_decode hdecode rfl _)) rfl
        | claimComplete c =>
          cases h
          exact .complete hdecode
        | _ =>
          cases h
          exact .plainWrite _ (hnone (accessSamples_decode hdecode rfl _)) rfl
  | setInterruptLevel id level =>
    simp only [step, setInterruptLevel] at h
    split at h
    · next hid =>
        cases h
        exact .idle (fun i => by simp [sampled, hid]) rfl
    · next i hid =>
        cases h
        exact .setLevel hid
  | registerDevice id =>
    simp only [step, registerDevice] at h
    split at h
    · cases h
    · next i hid =>
        cases h
        exact .register hid
  | updateContextIrqLine id levels =>
    simp only [step, updateContextIrqLine] at h
    split at h
    · next hid =>
        cases h
        exact .idle (fun i => by simp [sampled, snapshot?, hid]) rfl
    · next c hid =>
        cases h
        have hturn : PlicTurn p (.updateContextIrqLine id levels) _ _ :=
          @PlicTurn.updates p _ [id] levels fun i => by simp [sampled, snapshot?, hid]
        simpa [refreshContextIrqLines, hid] using hturn
  | updateContextIrqLines ids levels =>
    cases h
    exact .updates fun _ => rfl
  | setIrqLine line id =>
    simp only [step, setIrqLine] at h
    split at h
    · cases h
    · next c hid =>
        cases h
        exact .setLine hid

theorem refresh_frame (p : PLIC) (c : ContextId) :
    (p.refreshContextIrqLine c).2.2.layout = p.layout ∧
      (p.refreshContextIrqLine c).2.2.peripheralIrqDevices = p.peripheralIrqDevices := by
  unfold refreshContextIrqLine setContextIrqLine
  dsimp only
  split <;> exact ⟨rfl, rfl⟩

theorem refreshAll_frame (p : PLIC) (ids : List Nat) :
    (p.refreshContextIrqLines ids).2.layout = p.layout ∧
      (p.refreshContextIrqLines ids).2.peripheralIrqDevices = p.peripheralIrqDevices := by
  induction ids generalizing p with
  | nil => exact ⟨rfl, rfl⟩
  | cons id ids ih =>
    unfold refreshContextIrqLines
    split
    · exact ih p
    · next c _ =>
        obtain ⟨hlayout, hdevices⟩ := refresh_frame p c
        obtain ⟨hlayout', hdevices'⟩ := ih (p.refreshContextIrqLine c).2.2
        exact ⟨hlayout'.trans hlayout, hdevices'.trans hdevices⟩

/-- The gateways are in order, and source 0 has no device. -/
structure PlicInv (p : PLIC) : Prop where
  gateway : p.layout.GatewayInv
  zero_device : p.peripheralIrqDevices INTERRUPT_SOURCE_ZERO = false

theorem PlicInv.new : new.PlicInv := ⟨.new, rfl⟩

theorem PlicInv.congr (hp : p.PlicInv) (hlayout : p'.layout = p.layout)
    (hdevices : p'.peripheralIrqDevices = p.peripheralIrqDevices) : p'.PlicInv := by
  refine ⟨?_, ?_⟩
  · rw [hlayout]
    exact hp.gateway
  · rw [hdevices]
    exact hp.zero_device

theorem PlicInv.sync (hp : p.PlicInv) (levels : Source → Bool) :
    (p.syncPeripheralIrqLevels levels).PlicInv := by
  refine ⟨sync_induction hp.gateway fun l i hdevice hl => hl.setSourceLevel ?_, hp.zero_device⟩
  rintro rfl
  rw [hp.zero_device] at hdevice
  cases hdevice

theorem PlicInv.step (hp : p.PlicInv) (h : p.step e = .ok (a, p')) : p'.PlicInv := by
  cases step_turn h with
  | idle => exact hp
  | claim => exact ⟨(hp.sync _).gateway.readClaim _, hp.zero_device⟩
  | @plainWrite _ r _ _ hplain =>
    refine ⟨?_, hp.zero_device⟩
    cases r with
    | priority => exact hp.gateway.writePriority _
    | enable => exact hp.gateway.writeEnableWord _ _
    | threshold => exact hp.gateway.writePriorityThreshold _
    | pending => exact hp.gateway
    | claimComplete => cases hplain
  | complete => exact ⟨(hp.sync _).gateway.writeComplete _ _, hp.zero_device⟩
  | setLevel hid =>
    exact ⟨hp.gateway.setSourceLevel (validInterruptId_ne_zero hid), hp.zero_device⟩
  | register hid =>
    refine ⟨hp.gateway, ?_⟩
    exact (update_of_ne (validInterruptId_ne_zero hid).symm _ _).trans
      hp.zero_device
  | updates =>
    obtain ⟨hlayout, hdevices⟩ := refreshAll_frame (p.syncPeripheralIrqLevels _) _
    exact (hp.sync _).congr hlayout hdevices
  | setLine => exact hp.congr (refresh_frame _ _).1 (refresh_frame _ _).2

theorem PlicInv.run (h : runAll PLIC.step .new es = .ok (os, p)) : p.PlicInv :=
  runAll_kept (fun _ _ _ _ hp h => hp.step h) PlicInv.new h

/-! ## What was sampled last -/

theorem accessSamples_claim {addr : WordType}
    (hdecode : decodeRegister addr = some (.claimComplete c)) : accessSamples .u32 addr := by
  rw [accessSamples, hdecode]
  rfl

theorem sourceLevel_readClaim (l : PLICLayout) (c : ContextId) :
    (l.readClaim c).2.sourceLevel = l.sourceLevel := by
  unfold readClaim
  split <;> rfl

theorem sourceLevel_writeComplete (l : PLICLayout) (c : ContextId) (value : BitVec 32) :
    (l.writeComplete c value).sourceLevel = l.sourceLevel := by
  rcases writeComplete_cases l c value with h | ⟨_, _, _, h⟩ <;> rw [h]

theorem sync_sampled (levels : Source → Bool) (i : Source) :
    (p.syncPeripheralIrqLevels levels).layout.sourceLevel.getBit i =
      (if p.peripheralIrqDevices i then some (levels i) else none).getD
        (p.layout.sourceLevel.getBit i) := by
  rw [sync_sourceLevel]
  split <;> rfl

theorem sourceLevel_step (i : Source) (h : p.step e = .ok (a, p')) :
    p'.layout.sourceLevel.getBit i = (sampled i p e).getD (p.layout.sourceLevel.getBit i) := by
  cases step_turn h with
  | idle hnone =>
    rw [hnone i]
    rfl
  | @claim addr levels c hdecode =>
    simp only [sampled, snapshot?, accessSamples_claim hdecode, if_true, Option.bind_some]
    rw [sourceLevel_readClaim]
    exact sync_sampled levels i
  | @plainWrite _ r _ hnone hplain =>
    rw [hnone i]
    cases r with
    | priority =>
      dsimp only [writeRegister]
      unfold writePriority
      split <;> rfl
    | _ => first | rfl | cases hplain
  | @complete addr data levels c hdecode =>
    simp only [sampled, snapshot?, accessSamples_claim hdecode, if_true, Option.bind_some]
    rw [sourceLevel_writeComplete]
    exact sync_sampled levels i
  | @setLevel id level j hid =>
    simp only [sampled, hid, Option.some.injEq]
    rw [sourceLevel_setSourceLevel]
    split <;> rfl
  | register => rfl
  | updates hsampled =>
    rw [(refreshAll_frame _ _).1, hsampled i]
    exact sync_sampled _ i
  | setLine =>
    rw [(refresh_frame _ _).1]
    rfl

/-- The level of a source is the one that was sampled last. -/
theorem sourceLevel_run (i : Source) (h : runAll step .new es = .ok (os, p)) :
    p.layout.sourceLevel.getBit i = (lastObserved step (sampled i) .new es).getD false := by
  have hkeep : ∀ l p e a p', PLICBitReg.getBit (sourceLevel (layout p)) i = l.getD false →
      step p e = .ok (a, p') →
      p'.layout.sourceLevel.getBit i = ((sampled i p e).or l).getD false := by
    intro l p e a p' hp h
    rw [sourceLevel_step i h, hp]
    cases sampled i p e <;> rfl
  have hrun := runAll_last hkeep (l := none) (PLICBitReg.getBit_new i) h
  rwa [Option.or_none] at hrun

/-! ## Claims and completions -/

/-- The access claims source `i`. -/
def Claims (i : Source) (e : PlicEvent) (a : PlicAction) : Prop :=
  i ≠ INTERRUPT_SOURCE_ZERO ∧ a = .answer (.ok (BitVec.ofNat 64 i.val)) ∧
    ∃ addr levels c, e = .read .u32 addr levels ∧ decodeRegister addr = some (.claimComplete c)

/-- The access completes source `i` for a context that has it enabled. -/
def Completes (i : Source) (p : PLIC) (e : PlicEvent) : Prop :=
  ∃ addr data levels c, e = .write .u32 addr data levels ∧
    decodeRegister addr = some (.claimComplete c) ∧
    validInterruptId (data.setWidth 32 : BitVec 32).toNat = some i ∧ p.layout.isEnabled c i

theorem isEnabled_sync (p : PLIC) (levels : Source → Bool) (c : ContextId) (i : Source) :
    (p.syncPeripheralIrqLevels levels).layout.isEnabled c i = p.layout.isEnabled c i := by
  rw [isEnabled, isEnabled, sync_sameBut.contexts]

/-- A source that is busy stays so until it is completed. -/
theorem busy_step (hp : p.PlicInv) (hbusy : i ∈ p.layout.interruptSourcesBusy)
    (h : p.step e = .ok (a, p')) : i ∈ p'.layout.interruptSourcesBusy ∨ Completes i p e := by
  have hsync : ∀ levels, i ∈ (p.syncPeripheralIrqLevels levels).layout.interruptSourcesBusy := by
    intro levels
    rw [sync_sameBut.busy]
    exact hbusy
  cases step_turn h with
  | idle | register => exact .inl hbusy
  | @claim addr levels c =>
    refine .inl ?_
    rcases readClaim_cases (hp.sync levels).gateway c with h | ⟨j, _, _, _, h⟩
    · rw [h]
      exact hsync levels
    · rw [h]
      exact Finset.mem_insert_of_mem (hsync levels)
  | @plainWrite _ r _ _ hplain =>
    refine .inl ?_
    cases r with
    | priority =>
      dsimp only [writeRegister]
      unfold writePriority
      split <;> exact hbusy
    | _ => first | exact hbusy | cases hplain
  | @complete addr data levels c hdecode =>
    rcases writeComplete_cases (p.syncPeripheralIrqLevels levels).layout c
      (data.setWidth 32) with h | ⟨j, hid, henabled, h⟩
    · rw [h]
      exact .inl (hsync levels)
    · by_cases hij : i = j
      · subst hij
        rw [isEnabled_sync] at henabled
        exact .inr ⟨addr, data, levels, c, rfl, hdecode, hid, henabled⟩
      · rw [h]
        exact .inl (Finset.mem_erase.2 ⟨hij, hsync levels⟩)
  | setLevel =>
    rw [sameBut_setSourceLevel.busy]
    exact .inl hbusy
  | updates =>
    rw [(refreshAll_frame _ _).1]
    exact .inl (hsync _)
  | setLine =>
    rw [(refresh_frame _ _).1]
    exact .inl hbusy

/-- A read of a claim register. -/
theorem step_claim {addr : WordType}
    (hdecode : decodeRegister addr = some (.claimComplete c)) (levels : Source → Bool) :
    p.step (.read .u32 addr levels) = .ok
      (.answer (.ok (((p.syncPeripheralIrqLevels levels).layout.readClaim c).1.setWidth 64)),
        { p.syncPeripheralIrqLevels levels with
          layout := ((p.syncPeripheralIrqLevels levels).layout.readClaim c).2 }) := by
  simp only [step, read, hdecode]
  rfl

/-- A claim makes a source busy that was not. -/
theorem claim_step (hp : p.PlicInv) (h : p.step e = .ok (a, p')) (hclaim : Claims i e a) :
    i ∉ p.layout.interruptSourcesBusy ∧ i ∈ p'.layout.interruptSourcesBusy := by
  obtain ⟨hzero, ha, addr, levels, c, rfl, hdecode⟩ := hclaim
  have hi : i.val < 64 := i.isLt
  have hval : i.val ≠ 0 := fun h => hzero (Fin.ext h)
  rw [step_claim hdecode] at h
  cases h
  simp only [PlicAction.answer.injEq, Except.ok.injEq] at ha
  rcases readClaim_cases (hp.sync levels).gateway c with h | ⟨j, _, _, hbusy, h⟩
  · rw [h] at ha
    have hnat := congrArg BitVec.toNat ha
    simp only [BitVec.ofNat_eq_ofNat, BitVec.toNat_setWidth, BitVec.toNat_ofNat] at hnat
    omega
  · rw [h] at ha ⊢
    have hj : j.val < 64 := j.isLt
    have hnat := congrArg BitVec.toNat ha
    simp only [BitVec.toNat_setWidth, BitVec.toNat_ofNat] at hnat
    obtain rfl : j = i := Fin.ext (by omega)
    rw [sync_sameBut.busy] at hbusy
    exact ⟨hbusy, Finset.mem_insert_self _ _⟩

/-- In every state the controller can get into: no source is pending and busy;
a source whose level was high when it was last sampled is one of the two; source
0 is neither and is enabled nowhere; `priorityOrder` has every source, in order;
and a source that is claimed and claimed again has been completed in between, by
a context that had it enabled. -/
theorem gateway_invariants (hrun : runAll PLIC.step .new es = .ok (os, p)) :
    (∀ i, ¬ (p.layout.pending.getBit i ∧ i ∈ p.layout.interruptSourcesBusy)) ∧
      (∀ i, lastObserved PLIC.step (sampled i) .new es = some true →
        p.layout.pending.getBit i ∨ i ∈ p.layout.interruptSourcesBusy) ∧
      (p.layout.pending.getBit INTERRUPT_SOURCE_ZERO = false ∧
        INTERRUPT_SOURCE_ZERO ∉ p.layout.interruptSourcesBusy ∧
        ∀ c, p.layout.isEnabled c INTERRUPT_SOURCE_ZERO = false) ∧
      (p.layout.priorityOrder.Perm (List.finRange VIRT_MAX_INTERRUPTS) ∧
        p.layout.priorityOrder.Pairwise (priorityLe p.layout.priority)) ∧
      ∀ i e₁ a₁ p₁ es' os' p₂ e₂ a₂ p₃, p.step e₁ = .ok (a₁, p₁) → Claims i e₁ a₁ →
        runAll PLIC.step p₁ es' = .ok (os', p₂) → p₂.step e₂ = .ok (a₂, p₃) → Claims i e₂ a₂ →
        ∃ es₁ e es₂ os₁ q, es' = es₁ ++ e :: es₂ ∧ runAll PLIC.step p₁ es₁ = .ok (os₁, q) ∧
          Completes i q e := by
  have hp := PlicInv.run hrun
  refine ⟨fun i h => hp.gateway.exclusive i h.1 h.2, fun i hlast => hp.gateway.level i ?_,
    ⟨hp.gateway.zero_pending, hp.gateway.zero_busy, hp.gateway.zero_enabled⟩,
    ⟨hp.gateway.perm, hp.gateway.sorted⟩, ?_⟩
  · rw [sourceLevel_run i hrun, hlast]
    rfl
  · intro i e₁ a₁ p₁ es' os' p₂ e₂ a₂ p₃ hstep₁ hclaim₁ hbetween hstep₂ hclaim₂
    have hp₁ := hp.step hstep₁
    have hbusy₁ := (claim_step hp hstep₁ hclaim₁).2
    -- the source stays busy, together with the invariant, until it is completed
    have hkeep : ∀ p e a p', (PlicInv p ∧ i ∈ p.layout.interruptSourcesBusy) →
        PLIC.step p e = .ok (a, p') →
        (PlicInv p' ∧ i ∈ p'.layout.interruptSourcesBusy) ∨ Completes i p e := by
      intro p e a p' hp h
      rcases busy_step hp.1 hp.2 h with hbusy | hcomplete
      · exact .inl ⟨hp.1.step h, hbusy⟩
      · exact .inr hcomplete
    rcases runAll_until hkeep ⟨hp₁, hbusy₁⟩ hbetween with ⟨hp₂, hbusy₂⟩ | hcomplete
    · exact absurd hbusy₂ (claim_step hp₂ hstep₂ hclaim₂).1
    · exact hcomplete

/-- A device at source 3, with a priority, enabled for context 0. -/
def setUpSource : List PlicEvent :=
  [.registerDevice 3, .write .u32 0xc 5 fun _ => false, .write .u32 0x2000 8 fun _ => false]

def claimContext0 : PlicEvent := .read .u32 0x200004 fun _ => true

def completeSource : PlicEvent := .write .u32 0x200004 3 fun _ => true

/-- The level stays high, and the source is claimed, completed and claimed again. -/
theorem gateway_invariants_claimed : ∃ os p p₁ os' p₂ p₃,
    runAll step .new setUpSource = .ok (os, p) ∧
      p.step claimContext0 = .ok (.answer (.ok 3), p₁) ∧
      runAll step p₁ [completeSource] = .ok (os', p₂) ∧
      p₂.step claimContext0 = .ok (.answer (.ok 3), p₃) ∧
      ∃ es₁ e es₂ os₁ q, [completeSource] = es₁ ++ e :: es₂ ∧
        runAll step p₁ es₁ = .ok (os₁, q) ∧ Completes ⟨3, by decide⟩ q e := by
  obtain ⟨⟨os₀, p⟩, hrun₀, ⟨a₁, p₁⟩, hstep₁, rfl, ⟨os', p₂⟩, hbetween, ⟨a₃, p₃⟩, hstep₃, rfl⟩ :
      ∃ out, runAll step .new setUpSource = .ok out ∧
        ∃ out₁, out.2.step claimContext0 = .ok out₁ ∧ out₁.1 = .answer (.ok 3) ∧
        ∃ out₂, runAll step out₁.2 [completeSource] = .ok out₂ ∧
        ∃ out₃, out₂.2.step claimContext0 = .ok out₃ ∧ out₃.1 = .answer (.ok 3) := by decide +kernel
  have hdecode : decodeRegister 0x200004 = some (.claimComplete ⟨0, by decide⟩) := by
    decide +kernel
  have hclaims : Claims ⟨3, by decide⟩ claimContext0 (.answer (.ok 3)) :=
    ⟨by decide, rfl, _, _, _, rfl, hdecode⟩
  refine ⟨os₀, p, p₁, os', p₂, p₃, hrun₀, hstep₁, hbetween, hstep₃, ?_⟩
  exact (gateway_invariants hrun₀).2.2.2.2 _ _ _ _ _ _ _ _ _ _ hstep₁ hclaims hbetween hstep₃ hclaims

end PLIC

end HereEmu
