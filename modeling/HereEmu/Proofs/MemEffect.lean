import HereEmu.Mmu.Access
import HereEmu.Proofs.Tlb

/-!
# What an access does to memory

Under `FaultOnClear`, which is how the emulator runs, an access changes the
walker in one way only: the TLB may gain the leaf a walk of the RAM at hand
found. Loads and translations change no byte of RAM on top of that
(`MemStill`); stores come after their translation, so that what they left in
the TLB is still what the RAM before them says (`MemAfter`).
-/

namespace HereEmu

open Lib (Exec)
open Lib.Exec (Spec Outcome run_ofFun)
open PageTableWalker MemoryMapIo VirtAddrManager Exception

/-- The panics that are not of the trap and privilege machinery. -/
def PanicSite.Benign (p : PanicSite) : Prop :=
  p ∈ [.walkMode, .overflow, .outOfBounds, .instrInfo, .unimplemented, .device]
  deriving Decidable

structure MemAfter {B : DeviceBus} (m m' : VirtAddrManager B) : Prop where
  config : m'.pageTable.flushTlb = m.pageTable.flushTlb
  fill : ∀ k info, m'.pageTable.tlb.get k = some info → m.pageTable.tlb.get k = some info ∨
    m.pageTable.walkPte m.mmio.ram k = .ok (.ok info)

structure MemStill {B : DeviceBus} (m m' : VirtAddrManager B) : Prop extends MemAfter m m' where
  data : m'.mmio.ram.data = m.mmio.ram.data

section Relations

variable {B : DeviceBus} {m m₁ m₂ : VirtAddrManager B}

theorem walkPte_of_data {w : PageTableWalker} {mem mem' : Ram} (h : mem'.data = mem.data)
    (k : WordType) : w.walkPte mem' k = w.walkPte mem k :=
  walkPte_congr fun _ _ _ _ => by rw [h]

/-- Changing the physical side after an access. -/
theorem MemAfter.then_same (h : MemAfter m m₁) (h' : m₂.pageTable = m₁.pageTable) :
    MemAfter m m₂ := by
  constructor
  · rw [h', h.config]
  · intro k info hk
    rw [h'] at hk
    exact h.fill k info hk

theorem MemAfter.of_pageTable (h : m₁.pageTable = m.pageTable) : MemAfter m m₁ :=
  then_same ⟨rfl, fun _ _ => .inl⟩ h

theorem MemStill.of_pageTable (h : m₁.pageTable = m.pageTable)
    (hd : m₁.mmio.ram.data = m.mmio.ram.data) : MemStill m m₁ :=
  ⟨.of_pageTable h, hd⟩

theorem MemStill.refl (m : VirtAddrManager B) : MemStill m m := .of_pageTable rfl rfl

theorem MemStill.after (h : MemStill m m₁) (h' : MemAfter m₁ m₂) : MemAfter m m₂ := by
  refine ⟨h'.config.trans h.config, fun k info hk => ?_⟩
  rcases h'.fill k info hk with hk | hwalk
  · exact h.fill k info hk
  · rw [walkPte_of_flushTlb h.config, walkPte_of_data h.data] at hwalk
    exact .inr hwalk

theorem MemStill.trans (h : MemStill m m₁) (h' : MemStill m₁ m₂) : MemStill m m₂ :=
  ⟨h.after h'.toMemAfter, h'.data.trans h.data⟩

theorem policy_of_config (h : m₁.pageTable.flushTlb = m.pageTable.flushTlb) :
    m₁.pageTable.adUpdatePolicy = m.pageTable.adUpdatePolicy := policy_of_flushTlb h

end Relations

/-! ## Translation -/

section Translation

variable {w w' : PageTableWalker} {mem mem' : Ram} {va : WordType} {check : PermissionCheck}
  {effect : AccessEffect} {info : WalkInfo} {r : Except PageTableError WordType} {p : PanicSite}

/-- With a known leaf the answer depends on the leaf alone, and nothing changes. -/
theorem translateFound_faultOnClear (va : WordType) (leaf : Except PageTableError WalkInfo)
    (check : PermissionCheck) (effect : AccessEffect) : ∃ r, ∀ (w : PageTableWalker) (mem : Ram),
      w.adUpdatePolicy = .faultOnClear →
      w.translateFound mem va check effect leaf = .ok (r, w, mem) := by
  cases leaf with
  | error e => exact ⟨_, fun _ _ _ => rfl⟩
  | ok info =>
    cases hperm : permits check info.leafFlags with
    | false => exact ⟨_, fun _ _ _ => translateLeaf_of_not_permits hperm⟩
    | true =>
      by_cases hn : needAccessedDirty info effect = (false, false)
      · exact ⟨_, fun _ _ _ => translateLeaf_of_no_need hperm hn⟩
      · exact ⟨_, fun _ _ hp => translateLeaf_of_fault hperm hn hp⟩

theorem policy_filled (leaf : Except PageTableError WalkInfo) :
    (w.filled va leaf).adUpdatePolicy = w.adUpdatePolicy := policy_of_flushTlb (flushTlb_filled leaf)

theorem lookupLeaf_policy {leaf : Except PageTableError WalkInfo}
    (h : w.lookupLeaf mem va = .ok (leaf, w')) : w'.adUpdatePolicy = w.adUpdatePolicy := by
  rcases lookupLeaf_cases h with ⟨_, -, -, rfl⟩ | ⟨-, -, rfl⟩
  · rfl
  · exact policy_filled leaf

theorem translated_of_eq (hp : w.adUpdatePolicy = .faultOnClear)
    (h : w.translateVaddr mem va check effect = .ok (r, w', mem')) :
    Translated w w' mem mem' va := by
  rcases translateVaddr_cases h with ⟨rfl, rfl, -⟩ | ⟨hm, hc, info, w₁, hlook, hleaf⟩
  · exact .refl ..
  obtain ⟨r', hfound⟩ := translateFound_faultOnClear va (.ok info) check effect
  cases hleaf.symm.trans (hfound w₁ mem ((lookupLeaf_policy hlook).trans hp))
  exact .of_lookup hlook (.inl rfl)

theorem checkedAdd_panic {a b : WordType} (h : checkedAdd a b = .error p) : p = .overflow := by
  unfold checkedAdd at h
  split at h
  · cases h
  · cases h
    rfl

theorem loadPte_panic (h : loadPte mem va = .error p) : p = .overflow := by
  unfold loadPte checkedSub at h
  split at h
  · simp only [bind, Except.bind] at h
    split at h <;> cases h
  · cases h
    rfl

variable {k : WordType}

theorem walkPteFrom_panic {entry : WordType} {i : Nat} (h : walkPteFrom mem k i entry = .error p) :
    p = .overflow := by
  induction i using Nat.strongRecOn generalizing entry with
  | ind i ih =>
    cases hadd : checkedAdd entry (SvMode.vpnIndex k i * 8#64) with
    | error q =>
      rw [walkPteFrom_overflow hadd] at h
      cases h
      exact checkedAdd_panic hadd
    | ok a =>
      rw [walkPteFrom_unfold hadd] at h
      cases hload : loadPte mem a with
      | error q =>
        rw [hload] at h
        cases h
        exact loadPte_panic hload
      | ok res =>
        rw [hload] at h
        cases res with
        | error e => cases h
        | ok pte =>
          simp only [bind, Except.bind] at h
          split at h
          · cases h
          · cases h
          · cases i with
            | zero => cases h
            | succ j => exact ih j j.lt_succ_self h

theorem walkPte_panic (h : w.walkPte mem k = .error p) :
    p = .overflow ∨ p = .walkMode ∧ w.mode ∉ [.page39bit, .page48bit, .page57bit] := by
  unfold walkPte at h
  split at h
  · exact .inl (walkPteFrom_panic h)
  · exact .inl (walkPteFrom_panic h)
  · exact .inl (walkPteFrom_panic h)
  · next h1 h2 h3 =>
      cases h
      refine .inr ⟨rfl, ?_⟩
      simp only [List.mem_cons, List.not_mem_nil, or_false, not_or]
      exact ⟨h1, h2, h3⟩

/-- The modes `translate_vaddr` knows how to handle. -/
def knownModes : List VirtualMemoryMode := [.none, .page39bit, .page48bit, .page57bit]

/-- A translation panics on an address past the end, or in a mode it does not know. -/
theorem translateVaddr_panic (hp : w.adUpdatePolicy = .faultOnClear)
    (h : w.translateVaddr mem va check effect = .error p) :
    p = .overflow ∨ p = .walkMode ∧ w.mode ∉ knownModes := by
  by_cases hm : w.mode = .none
  · rw [translateVaddr_of_bare hm] at h
    cases h
  cases hc : w.isCanonicalVaddr va with
  | false =>
    rw [translateVaddr_of_not_canonical hm hc] at h
    cases h
  | true =>
    cases hget : w.tlb.get (vpn va) with
    | some info =>
      obtain ⟨r, hfound⟩ := translateFound_faultOnClear va (.ok info) check effect
      rw [translateVaddr_of_hit hm hc hget] at h
      cases h.symm.trans (hfound w mem hp)
    | none =>
      rw [translateVaddr_of_miss hm hc hget] at h
      cases hwalk : w.walkPte mem (vpn va) with
      | error q =>
        rw [hwalk] at h
        cases h
        rcases walkPte_panic hwalk with hover | ⟨hmode, hnot⟩
        · exact .inl hover
        · exact .inr ⟨hmode, fun hmem => (List.mem_cons.mp hmem).elim hm hnot⟩
      | ok leaf =>
        rw [hwalk] at h
        obtain ⟨r, hfound⟩ := translateFound_faultOnClear va leaf check effect
        cases h.symm.trans (hfound _ mem ((policy_filled leaf).trans hp))

end Translation

/-! ## Accesses -/

section Accesses

variable {B : DeviceBus} {m : VirtAddrManager B}

theorem translateVaddr_still (va : WordType) (check : PermissionCheck) (effect : AccessEffect)
    (hp : m.pageTable.adUpdatePolicy = .faultOnClear) :
    Spec PanicSite.Benign (VirtAddrManager.translateVaddr va check effect) m
      fun _ m' => MemStill m m' ∧ m'.mmio = m.mmio := by
  unfold VirtAddrManager.translateVaddr
  cases h : m.pageTable.translateVaddr m.mmio.ram va check effect with
  | error p =>
    show Outcome _ _ _
    rw [run_ofFun, h]
    rcases translateVaddr_panic hp h with hover | ⟨hmode, -⟩
    · exact (by rw [hover]; decide : p.Benign)
    · exact (by rw [hmode]; decide : p.Benign)
  | ok out =>
    obtain ⟨r, w', mem'⟩ := out
    refine Spec.of_run (by rw [run_ofFun, h]; rfl) ?_
    have ht := translated_of_eq hp h
    have hmem : mem' = m.mmio.ram := by
      rcases ht.ram with heq | ⟨hauto, -⟩
      · exact heq
      · rw [hp] at hauto
        cases hauto
    subst hmem
    refine ⟨⟨⟨ht.config, fun k info hk => ?_⟩, rfl⟩, rfl⟩
    rcases ht.fill k info hk with hold | ⟨-, hwalk⟩
    · exact .inl hold
    · exact .inr hwalk

variable {α : Type}

/-- The errors of reads and of their translations. -/
def MemError.IsLoad (e : MemError) : Prop := e ∈ [.loadPageFault, .loadMisaligned, .loadFault]
  deriving Decidable

def AccessPolicy.FaultIn (policy : AccessPolicy) (E : MemError → Prop) : Prop :=
  match policy with
  | .direct => True
  | .translated _ _ fault => E fault

theorem translateWithPolicy_still (va : WordType) {policy : AccessPolicy} {E : MemError → Prop}
    (hp : m.pageTable.adUpdatePolicy = .faultOnClear) (hE : policy.FaultIn E) :
    Spec PanicSite.Benign (translateWithPolicy va policy) m
      fun r m' => MemStill m m' ∧ m'.mmio = m.mmio ∧ ∀ e, r = .error e → E e := by
  cases policy with
  | direct => exact ⟨.refl m, rfl, fun e h => by cases h⟩
  | translated check effect fault =>
    refine Spec.mapError (g := fun _ m => (fault, m)) (translateVaddr_still va check effect hp) ?_ ?_
    · intro a s' h
      exact ⟨h.1, h.2, fun e he => by cases he⟩
    · intro e s' h
      refine ⟨h.1, h.2, fun e' he => ?_⟩
      cases he
      exact hE

variable {io : MemoryMapIo B} {f : MemoryMapIo B → Rust (Except MemError α × MemoryMapIo B)}

theorem run_onMmio_ok {r : Except MemError α} (h : f m.mmio = .ok (r, io)) :
    (onMmio f).run m = .ok (r, { m with mmio := io }) := by
  unfold onMmio
  rw [run_ofFun, h]
  rfl

theorem run_onMmio_panic {p : PanicSite} (h : f m.mmio = .error p) :
    (onMmio f).run m = .error p := by
  unfold onMmio
  rw [run_ofFun, h]
  rfl

theorem onMmio_spec {S : PanicSite → Prop} {Q : Except MemError α → MemoryMapIo B → Prop}
    (h : Outcome S Q (f m.mmio)) :
    Spec S (onMmio f) m fun r m' => m'.pageTable = m.pageTable ∧ Q r m'.mmio := by
  show Outcome _ _ _
  cases hf : f m.mmio with
  | error p =>
    rw [hf] at h
    rw [run_onMmio_panic hf]
    exact h
  | ok out =>
    rw [hf] at h
    rw [run_onMmio_ok hf]
    exact ⟨rfl, h⟩

variable {w : Width} {e : MemError}

theorem ram_read_error {ram : Ram} {addr : WordType} (h : ram.read w addr = .error e) :
    e ∈ [.loadMisaligned, .loadFault] := by
  unfold Ram.read at h
  split at h
  · cases h
    decide
  · split at h
    · cases h
    · cases h
      decide

theorem readByType_outcome (io : MemoryMapIo B) (w : Width) (pAddr : WordType) :
    Outcome PanicSite.Benign
      (fun r io' => io'.ram = io.ram ∧ ∀ e, r = .error e → e ∈ [.loadMisaligned, .loadFault])
      (io.readByType w pAddr) := by
  have herr : ∀ {e : MemError}, e ∈ [MemError.loadMisaligned, .loadFault] → ∀ e',
      (.error e : Except MemError WordType) = .error e' → e' ∈ [.loadMisaligned, .loadFault] := by
    intro e he e' h
    cases h
    exact he
  unfold readByType readFromDevice
  split
  · exact ⟨rfl, fun e => ram_read_error⟩
  · split
    · exact ⟨rfl, herr (by decide)⟩
    · split
      · exact ⟨rfl, herr (by decide)⟩
      · split
        · exact ⟨rfl, herr (by decide)⟩
        · split
          · exact (by decide : PanicSite.device.Benign)
          · exact ⟨rfl, nofun⟩
          · next e _ _ => exact ⟨rfl, herr (by cases e <;> decide)⟩

theorem readByPaddr_still (w : Width) (paddr : WordType) :
    Spec PanicSite.Benign (readByPaddr w paddr) m
      fun r m' => MemStill m m' ∧ ∀ e, r = .error e → e.IsLoad :=
  (onMmio_spec (readByType_outcome m.mmio w paddr)).mono fun _ _ h =>
    ⟨.of_pageTable h.1 (by rw [h.2.1]), fun e he => List.mem_cons_of_mem _ (h.2.2 e he)⟩

theorem readWithPolicy_still (w : Width) (addr : WordType) {policy : AccessPolicy}
    {E : MemError → Prop} (hp : m.pageTable.adUpdatePolicy = .faultOnClear)
    (hE : policy.FaultIn E) (hload : ∀ e, MemError.IsLoad e → E e) :
    Spec PanicSite.Benign (readWithPolicy w addr policy) m
      fun r m' => MemStill m m' ∧ ∀ e, r = .error e → E e := by
  refine (translateWithPolicy_still addr hp hE).seq ?_ ?_
  · rintro paddr m₁ ⟨h₁, -⟩
    exact (readByPaddr_still w paddr).mono fun r m' h =>
      ⟨h₁.trans h.1, fun e he => hload e (h.2 e he)⟩
  · rintro e m' ⟨h, -, herr⟩
    exact ⟨h, fun e' he => by cases he; exact herr e rfl⟩

/-- Every policy faults with some error. -/
theorem AccessPolicy.faultIn_true (policy : AccessPolicy) : policy.FaultIn fun _ => True := by
  cases policy <;> trivial

/-- The result is a failure. -/
def Failing {ε α : Type} (r : Except ε α) : Prop := ∃ e, r = .error e

/-- A write a device refuses leaves RAM alone. -/
def DeviceBus.RefusesCleanly (B : DeviceBus) : Prop :=
  ∀ dev offset len data devices ram e devices' ram',
    B.write dev offset len data devices ram = some (.error e, devices', ram') → ram' = ram

variable {data : WordType}

theorem ram_write_error {ram : Ram} {addr : WordType} (h : (ram.write w addr data).1 = .error e) :
    e ∈ [.storeMisaligned, .storeFault] ∧ (ram.write w addr data).2.data = ram.data := by
  unfold Ram.write at h ⊢
  split at h
  · next hc =>
      cases h
      rw [if_pos hc]
      exact ⟨by decide, rfl⟩
  · next hc =>
      rw [if_neg hc]
      split at h
      · cases h
      · next ha =>
          cases h
          rw [if_neg ha]
          exact ⟨by decide, Ram.tryInvalidateReservation_data⟩

theorem writeByType_outcome (io : MemoryMapIo B) (w : Width) (pAddr data : WordType) :
    Outcome PanicSite.Benign
      (fun r io' => ∀ e, r = .error e → e ∈ [.storeMisaligned, .storeFault] ∧
        (B.RefusesCleanly → io'.ram.data = io.ram.data)) (io.writeByType w pAddr data) := by
  have herr : ∀ {e : MemError}, e ∈ [MemError.storeMisaligned, .storeFault] → ∀ e',
      (.error e : Except MemError Unit) = .error e' → e' ∈ [.storeMisaligned, .storeFault] ∧
        (B.RefusesCleanly → io.ram.data = io.ram.data) := by
    intro e he e' h
    cases h
    exact ⟨he, fun _ => rfl⟩
  unfold writeByType writeToDevice
  split
  · exact fun e he => (ram_write_error he).imp_right fun h _ => h
  · split
    · exact herr (by decide)
    · split
      · exact herr (by decide)
      · split
        · exact herr (by decide)
        · split
          · exact (by decide : PanicSite.device.Benign)
          · exact nofun
          · next e _ _ hw =>
              intro e' he'
              cases he'
              exact ⟨by cases e <;> decide, fun hB => hB _ _ _ _ _ _ _ _ _ hw⟩

theorem storeConditional_failing {ram : Ram} {addr : WordType}
    (h : Failing (ram.storeConditional w addr data).1) :
    (ram.storeConditional w addr data).2.data = ram.data := by
  unfold Ram.storeConditional at h ⊢
  split
  · rfl
  · next hs =>
      rw [if_neg hs] at h
      split
      · next hres =>
          rw [if_pos hres] at h
          rcases hwrite : ram.write w addr data with ⟨e | _, ram'⟩
          · have hdata := (ram_write_error (congrArg Prod.fst hwrite)).2
            rw [hwrite] at hdata
            exact hdata
          · rw [hwrite] at h
            obtain ⟨_, he⟩ := h
            cases he
      · rfl

/-! An access is a translation and an operation at the physical address. What
is known of the translation, `Q`, holds of a memory that the operation finds. -/

/-- The page table is the same, and under `C` the bytes of RAM are too. -/
def Leaves (C : Prop) (m m' : VirtAddrManager B) : Prop :=
  m'.pageTable = m.pageTable ∧ (C → m'.mmio.ram.data = m.mmio.ram.data)

section Policy

variable {S : PanicSite → Prop} {Q : VirtAddrManager B → Prop} {addr : WordType}
  {policy : AccessPolicy}

theorem writeWithPolicy_leaves (hS : ∀ p, PanicSite.Benign p → S p)
    (h : Spec S (translateWithPolicy addr policy) m fun _ => Q) :
    Spec S (writeWithPolicy w addr data policy) m
      fun r m' => ∃ m₁, Q m₁ ∧ Leaves (B.RefusesCleanly ∧ Failing r) m₁ m' := by
  refine h.seq (fun paddr m₁ hq => ?_) fun e m' hq => ⟨m', hq, rfl, fun _ => rfl⟩
  refine ((onMmio_spec (writeByType_outcome _ w paddr data)).weaken hS).mono fun r m' h => ?_
  exact ⟨m₁, hq, h.1, fun ⟨hB, e, he⟩ => (h.2 e he).2 hB⟩

theorem loadReservedWithPolicy_leaves (hm : Q m)
    (h : Spec S (translateWithPolicy addr policy) m fun _ => Q) :
    Spec S (loadReservedWithPolicy w addr policy) m
      fun _ m' => ∃ m₁, Q m₁ ∧ Leaves True m₁ m' := by
  unfold loadReservedWithPolicy
  split
  · exact Spec.throw ⟨m, hm, rfl, fun _ => rfl⟩
  · refine h.seq (fun paddr m₁ hq => ⟨m₁, hq, rfl, fun _ => ?_⟩)
      fun e m' hq => ⟨m', hq, rfl, fun _ => rfl⟩
    show (m₁.mmio.loadReserved w paddr).2.ram.data = _
    unfold loadReserved
    split
    · exact Ram.loadReserved_data
    · rfl

theorem storeConditionalWithPolicy_leaves (hm : Q m)
    (h : Spec S (translateWithPolicy addr policy) m fun _ => Q) :
    Spec S (storeConditionalWithPolicy w addr data policy) m
      fun r m' => ∃ m₁, Q m₁ ∧ Leaves (Failing r) m₁ m' := by
  unfold storeConditionalWithPolicy
  split
  · exact ⟨m, hm, rfl, fun _ => rfl⟩
  · refine h.seq (fun paddr m₁ hq => ⟨m₁, hq, rfl, fun hr => ?_⟩)
      fun e m' hq => ⟨m', hq, rfl, fun _ => rfl⟩
    have hr : Failing (m₁.mmio.storeConditional w paddr data).1 := hr
    show (m₁.mmio.storeConditional w paddr data).2.ram.data = _
    unfold storeConditional at hr ⊢
    split
    · next hin =>
        rw [if_pos hin] at hr
        exact storeConditional_failing hr
    · rfl

theorem fetchAndOpAmoWithPolicy_leaves {f : WordType → WordType}
    (h : Spec S (translateWithPolicy addr policy) m fun _ => Q) :
    Spec S (fetchAndOpAmoWithPolicy w addr policy f) m fun r m' =>
      (∃ m₁, Q m₁ ∧ Leaves (Failing r) m₁ m') ∧ ∀ e, r = .error e →
        e ∈ [storePageFault, .storeMisaligned, .storeFault] := by
  have hfail : ∀ {e : Exception} {m' : VirtAddrManager B}, Q m' →
      e ∈ [storePageFault, .storeMisaligned, .storeFault] →
      (∃ m₁, Q m₁ ∧ Leaves (Failing (.error e : Except Exception WordType)) m₁ m') ∧
        ∀ e', (.error e : Except Exception WordType) = .error e' →
          e' ∈ [storePageFault, .storeMisaligned, .storeFault] := by
    intro e m' hq he
    refine ⟨⟨m', hq, rfl, fun _ => rfl⟩, fun e' h => ?_⟩
    cases h
    exact he
  refine (Spec.mapError (g := fun _ m => (storePageFault, m)) (Q := fun r m' => Q m' ∧ ∀ e,
    r = .error e → e = storePageFault) h (fun _ _ hq => ⟨hq, nofun⟩)
    fun _ _ hq => ⟨hq, fun e he => by cases he; rfl⟩).seq ?_ ?_
  · rintro paddr m₁ ⟨hq, -⟩
    unfold fetchAndOpAmoByPaddr
    cases checkAlign w paddr with
    | false => exact hfail hq (by decide)
    | true =>
      cases inRam paddr with
      | false => exact hfail hq (by decide)
      | true => exact ⟨⟨m₁, hq, rfl, fun ⟨_, he⟩ => by cases he⟩, nofun⟩
  · rintro e m' ⟨hq, herr⟩
    exact hfail hq (by rw [herr e rfl]; decide)

end Policy

theorem translate_still (addr : WordType) (policy : AccessPolicy)
    (hp : m.pageTable.adUpdatePolicy = .faultOnClear) :
    Spec PanicSite.Benign (translateWithPolicy addr policy) m fun _ => MemStill m :=
  (translateWithPolicy_still addr hp policy.faultIn_true).mono fun _ _ h => h.1

theorem MemAfter.of_leaves {C : Prop} {m' : VirtAddrManager B} :
    (∃ m₁, MemStill m m₁ ∧ Leaves C m₁ m') → MemAfter m m' :=
  fun ⟨_, h, hl⟩ => h.toMemAfter.then_same hl.1

theorem MemStill.of_leaves {m' : VirtAddrManager B} :
    (∃ m₁, MemStill m m₁ ∧ Leaves True m₁ m') → MemStill m m' :=
  fun ⟨_, h, hpt, hdata⟩ => h.trans (.of_pageTable hpt (hdata trivial))

end Accesses

end HereEmu
