import HereEmu.Proofs.Tlb

/-!
# Walks that leave RAM

The addresses a walk reads at come from the guest: the root from `satp`, the
rest from the entries themselves. An address past the end of RAM is refused by
the read and becomes a page fault. An address below RAM is not: the walker
subtracts `BASE_ADDR` before it reads, and the subtraction overflows.

So a translation is safe exactly when no entry on its path lies below RAM.
Nothing else can go wrong. Tables start on a page, which keeps the index from
overflowing, and a leaf that was loaded, now or when it was cached, can be
updated.
-/

namespace HereEmu

open PageTableWalker

/-- The addresses of the entries a translation reads. A hit reads none, and
neither does an address that is not canonical. -/
def PageTableWalker.walked (w : PageTableWalker) (mem : Ram) (va : WordType) : List WordType :=
  if w.isCanonicalVaddr va && (w.tlb.get (vpn va)).isNone then w.visits mem (vpn va) else []

/-- The translation returns, with an error when it met an entry that is not
wholly in RAM. -/
def WalkSafe (w : PageTableWalker) (mem : Ram) (va : WordType) (check : PermissionCheck)
    (effect : AccessEffect) : Prop :=
  ∃ r w' mem', w.translateVaddr mem va check effect = .ok (r, w', mem') ∧
    ((∃ a ∈ w.walked mem va, ¬ InRam a.toNat) → ∃ e, r = .error e)

/-- The leaves in the TLB were read from RAM. -/
def CachedInRam (w : PageTableWalker) : Prop :=
  ∀ k info, w.tlb.get k = some info → ∀ mem, ∃ pte, loadPte mem info.leafPteAddr = .ok (.ok pte)

/-! ## Level by level -/

section Level

variable {mem : Ram} {va entry a : WordType} {i : Nat}

theorem loadPte_below (mem : Ram) (h : a.toNat < BASE_ADDR.toNat) :
    loadPte mem a = .error .overflow := by
  unfold loadPte checkedSub
  rw [if_neg (by omega : ¬ BASE_ADDR.toNat ≤ a.toNat)]
  rfl

/-- Past the end of RAM the read fails, and the walk with it. -/
theorem loadPte_above (mem : Ram) (h : BASE_ADDR.toNat ≤ a.toNat) (hout : ¬ InRam a.toNat) :
    loadPte mem a = .ok (.error .pageFault) := by
  have hsub : (a - BASE_ADDR).toNat = a.toNat - BASE_ADDR.toNat := BitVec.toNat_sub_of_le h
  have hread : mem.read .u64 (a - BASE_ADDR) = .error .loadFault := by
    have hc : Ram.containsAccess .u64 (a - BASE_ADDR) = false := by
      unfold Ram.containsAccess
      rw [decide_eq_false_iff_not, hsub]
      intro hle
      have hw : Width.u64.bytes = 8 := rfl
      exact hout ⟨h, by omega⟩
    unfold Ram.read
    rw [hc]
    rfl
  unfold loadPte checkedSub
  rw [if_pos h]
  simp only [bind, Except.bind, hread]

/-- Whether an entry can be loaded does not depend on what RAM holds. -/
theorem exists_loadPte {mem' : Ram} {pte : PageTableEntry} (h : loadPte mem a = .ok (.ok pte)) :
    ∃ pte', loadPte mem' a = .ok (.ok pte') := by
  obtain ⟨h1, h2, h3, -⟩ := loadPte_eq_ok h
  exact ⟨_, loadPte_of_aligned h1 h2 h3⟩

theorem stepPte_eq_table {pte : PageTableEntry} {next : WordType}
    (h : stepPte i a pte = .table next) : next = pte.ppn := by
  unfold stepPte at h
  split at h
  · cases h
  · split at h
    · cases h
    · split at h
      · split at h <;> cases h
      · cases h
        rfl

/-- One level: the walk ends here, by a panic below RAM and by an answer
elsewhere, or it goes on to a table from an entry that lies in RAM. -/
theorem walkPteFrom_visit_cases (mem : Ram) (va : WordType) (i : Nat)
    (halign : entry.toNat % 2 ^ 12 = 0) :
    ∃ a : WordType,
      (walkVisits mem (vpn va) i entry = [a] ∧
        (a.toNat < BASE_ADDR.toNat ∧ walkPteFrom mem (vpn va) i entry = .error .overflow ∨
          BASE_ADDR.toNat ≤ a.toNat ∧ ∃ r, walkPteFrom mem (vpn va) i entry = .ok r ∧
            (¬ InRam a.toNat → ∃ e, r = .error e))) ∨
      ∃ j next, i = j + 1 ∧ next.toNat % 2 ^ 12 = 0 ∧ InRam a.toNat ∧
        walkVisits mem (vpn va) i entry = a :: walkVisits mem (vpn va) j next ∧
        walkPteFrom mem (vpn va) i entry = walkPteFrom mem (vpn va) j next := by
  obtain ⟨a, hadd, ha⟩ := checkedAdd_vpnIndex va i halign
  obtain rfl := checkedAdd_eq hadd
  refine ⟨entry + SvMode.vpnIndex (vpn va) i * 8#64, ?_⟩
  rw [walkPteFrom_unfold hadd, walkVisits.eq_def]
  generalize entry + SvMode.vpnIndex (vpn va) i * 8#64 = a at ha ⊢
  by_cases hlow : a.toNat < BASE_ADDR.toNat
  · simp only [loadPte_below mem hlow, bind, Except.bind]
    exact .inl ⟨trivial, .inl ⟨hlow, trivial⟩⟩
  have hbase : BASE_ADDR.toNat ≤ a.toNat := Nat.le_of_not_lt hlow
  by_cases hin : InRam a.toNat
  · obtain ⟨pte, hload, -⟩ := loadPte_of_inRam mem hin (ha ▸ pteAddr_mod_eight halign)
    -- An entry in RAM is loaded, so the answer here may be anything.
    have hend : ∀ r : Except PageTableError WalkInfo, ¬ InRam a.toNat → ∃ e, r = .error e :=
      fun _ h => absurd hin h
    simp only [hload, bind, Except.bind]
    cases hstep : stepPte i a pte with
    | fault e | leaf info => exact .inl ⟨rfl, .inr ⟨hbase, _, rfl, hend _⟩⟩
    | table next =>
      cases i with
      | zero => exact .inl ⟨rfl, .inr ⟨hbase, _, rfl, hend _⟩⟩
      | succ j =>
        obtain rfl := stepPte_eq_table hstep
        refine .inr ⟨j, pte.ppn, rfl, ?_, hin, rfl, rfl⟩
        rw [ppn_toNat]
        omega
  · simp only [loadPte_above mem hbase hin, bind, Except.bind]
    exact .inl ⟨trivial, .inr ⟨hbase, _, rfl, fun _ => ⟨_, rfl⟩⟩⟩

/-- A walk that meets an entry below RAM panics. Any other returns, with an
error when it met an entry that is not wholly in RAM. -/
def WalkOutcome (mem : Ram) (vpn : WordType) (i : Nat) (entry : WordType) : Prop :=
  (∃ a ∈ walkVisits mem vpn i entry, a.toNat < BASE_ADDR.toNat) ∧
      walkPteFrom mem vpn i entry = .error .overflow ∨
    (∀ a ∈ walkVisits mem vpn i entry, BASE_ADDR.toNat ≤ a.toNat) ∧
      ∃ r, walkPteFrom mem vpn i entry = .ok r ∧
        ((∃ a ∈ walkVisits mem vpn i entry, ¬ InRam a.toNat) → ∃ e, r = .error e)

theorem walkOutcome (mem : Ram) (va : WordType) (i : Nat) (halign : entry.toNat % 2 ^ 12 = 0) :
    WalkOutcome mem (vpn va) i entry := by
  induction i using Nat.strongRecOn generalizing entry with
  | ind i ih =>
    unfold WalkOutcome at ih ⊢
    obtain ⟨a, ⟨hv, hend⟩ | ⟨j, next, rfl, hn, hin, hv, hw⟩⟩ :=
      walkPteFrom_visit_cases mem va i halign
    · simp only [hv, List.mem_singleton, forall_eq, exists_eq_left]
      exact hend
    · simp only [hv, hw, List.mem_cons, exists_eq_or_imp, forall_eq_or_imp, hin, hin.1,
        Nat.not_lt_of_le hin.1, not_true_eq_false, false_or, true_and]
      exact ih j j.lt_succ_self hn

end Level

/-! ## The translation -/

section Translate

variable {w w' : PageTableWalker} {mem mem' : Ram} {va : WordType} {check : PermissionCheck}
  {effect : AccessEffect} {info : WalkInfo} {m : SvMode} {r : Except PageTableError WordType}

theorem visits_of_mode (hmode : w.mode = m.toMode) (mem : Ram) (k : WordType) :
    w.visits mem k = walkVisits mem k (m.LEVELS - 1) (fromPaddr w.rootAddress) := by
  unfold PageTableWalker.visits
  rw [hmode]
  cases m <;> rfl

theorem cachedInRam_new (root : WordType) (mode : VirtualMemoryMode) :
    CachedInRam (.new root mode) := by
  intro k info h
  rw [show (PageTableWalker.new root mode).tlb.get k = none from DirectCache.get_new_none] at h
  cases h

variable {leaf : Except PageTableError WalkInfo}

/-- A translation caches a leaf it has just loaded, if any. -/
theorem CachedInRam.lookupLeaf (hc : CachedInRam w) (h : w.lookupLeaf mem va = .ok (leaf, w')) :
    CachedInRam w' ∧ ∀ info, leaf = .ok info → ∃ pte, loadPte mem info.leafPteAddr = .ok (.ok pte) := by
  rcases lookupLeaf_cases h with ⟨info, rfl, hget, rfl⟩ | ⟨-, hwalk, rfl⟩
  · exact ⟨hc, fun x hx => by cases hx; exact hc _ _ hget mem⟩
  · cases leaf with
    | error e => exact ⟨hc, fun x hx => by cases hx⟩
    | ok info =>
      obtain ⟨pte, hload, -⟩ := walkPte_leaf hwalk
      refine ⟨fun k x hx mem' => ?_, fun x hx => by cases hx; exact ⟨pte, hload⟩⟩
      rcases DirectCache.get_put hx with ⟨-, rfl⟩ | hold
      · exact exists_loadPte hload
      · exact hc k x hold mem'

/-- After a lookup that returned, the translation returns as well, with the
lookup's error if that is what it was. -/
theorem translateVaddr_of_lookup_returns (check : PermissionCheck) (effect : AccessEffect)
    (hc : CachedInRam w) (hm : w.mode ≠ .none) (hcan : w.isCanonicalVaddr va)
    (hlook : w.lookupLeaf mem va = .ok (leaf, w')) :
    ∃ r w'' mem', w.translateVaddr mem va check effect = .ok (r, w'', mem') ∧
      ((∃ e, leaf = .error e) → ∃ e, r = .error e) := by
  rw [translateVaddr_of_canonical hm hcan, hlook]
  cases leaf with
  | error e => exact ⟨_, _, _, rfl, fun _ => ⟨e, rfl⟩⟩
  | ok info =>
    obtain ⟨pte, hload⟩ := (hc.lookupLeaf hlook).2 info rfl
    obtain ⟨r, mem', hret⟩ := translateLeaf_returns w' va check effect hload
    exact ⟨r, w', mem', hret, fun ⟨e, he⟩ => nomatch he⟩

/-- In every paging mode, from every root and over every RAM, a translation is
safe exactly when none of the entries it reads lies below RAM. -/
theorem walkSafe_iff (m : SvMode) (w : PageTableWalker) (mem : Ram) (va : WordType)
    (check : PermissionCheck) (effect : AccessEffect) (hmode : w.mode = m.toMode)
    (hcached : CachedInRam w) :
    WalkSafe w mem va check effect ↔ ∀ a ∈ w.walked mem va, BASE_ADDR.toNat ≤ a.toNat := by
  have hne := mode_ne_none hmode
  unfold WalkSafe walked
  cases hcan : w.isCanonicalVaddr va with
  | false =>
    simp only [translateVaddr_of_not_canonical hne hcan, Bool.false_and]
    exact ⟨fun _ _ ha => (nomatch ha), fun _ => ⟨_, _, _, rfl, fun _ => ⟨_, rfl⟩⟩⟩
  | true =>
    cases hget : w.tlb.get (vpn va) with
    | some info =>
      have hlook : w.lookupLeaf mem va = _ := lookupLeaf_of_hit hget
      obtain ⟨r, w', mem', hret, -⟩ :=
        translateVaddr_of_lookup_returns check effect hcached hne hcan hlook
      exact ⟨fun _ _ ha => (nomatch ha),
        fun _ => ⟨r, w', mem', hret, fun ⟨_, ha, _⟩ => (nomatch ha)⟩⟩
    | none =>
      have hwalk := walkOutcome mem va (m.LEVELS - 1) (fromPaddr_aligned w.rootAddress)
      unfold WalkOutcome at hwalk
      rw [← walkPte_of_mode hmode, ← visits_of_mode hmode] at hwalk
      rcases hwalk with ⟨⟨a, ha, hlow⟩, hpanic⟩ | ⟨hbase, leaf, hok, herr⟩
      · rw [translateVaddr_of_miss hne hcan hget, hpanic]
        exact ⟨fun ⟨_, _, _, h, _⟩ => (nomatch h), fun h => absurd (h a ha) (Nat.not_le_of_lt hlow)⟩
      · have hlook : w.lookupLeaf mem va = _ := lookupLeaf_of_miss hget
        rw [hok] at hlook
        obtain ⟨r, w'', mem', hret, hr⟩ :=
          translateVaddr_of_lookup_returns check effect hcached hne hcan hlook
        exact ⟨fun _ => hbase, fun _ => ⟨r, w'', mem', hret, fun h => hr (herr h)⟩⟩

theorem walkSafe_gigapage :
    WalkSafe (.new 0x80001000 .page39bit) gigapageRam 0x80000123 ⟨0, .R, .R⟩ .accessed ↔
      ∀ a ∈ (PageTableWalker.new 0x80001000 .page39bit).walked gigapageRam 0x80000123,
        BASE_ADDR.toNat ≤ a.toNat :=
  walkSafe_iff .sv39 _ _ _ _ _ rfl (cachedInRam_new _ _)

/-- With a root below RAM the first entry is not read, it panics. -/
theorem root_below_ram_panics :
    ¬ WalkSafe (.new 0 .page39bit) Ram.new 0x123 ⟨0, .R, .R⟩ .accessed := by
  rintro ⟨r, w', mem', h, -⟩
  have hpanic : ((PageTableWalker.new 0 .page39bit).translateVaddr Ram.new 0x123 ⟨0, .R, .R⟩
      .accessed).isOk = false := by decide +kernel
  rw [h] at hpanic
  cases hpanic

end Translate

end HereEmu
