import HereEmu.Mmu.PageTable

/-!
# What a walk reads, and what it does not look at

A walk reads one entry per level. `walkVisits` lists the addresses of those
entries, and `walkPteFrom_congr` says the walk depends on nothing else: a
memory that holds the same entries there gives the same answer. That is what
makes a cached leaf good for as long as nobody touches its path.

The walker itself does touch paths: under `AutoSet` it sets A and D in a leaf
that other cached translations may share. `AdLe` is the relation such an
update leaves behind, and `walkPteFrom_adLe` says the walk looks at A and D
nowhere, so the answer changes in the flags it reports and in nothing else.
-/

namespace HereEmu

open PageTableEntry SvMode BitVec

/-- The RAM offsets of the entry at physical address `a`. -/
def PteByte (a : WordType) (j : Nat) : Prop :=
  a.toNat ≤ BASE_ADDR.toNat + j ∧ BASE_ADDR.toNat + j < a.toNat + 8

/-- The addresses of the entries a walk from level `i` reads. -/
def walkVisits (mem : Ram) (vpn : WordType) (i : Nat) (entry : WordType) : List WordType :=
  let pteAddr := entry + vpnIndex vpn i * 8#64
  pteAddr ::
    match loadPte mem pteAddr with
    | .ok (.ok pte) =>
      match stepPte i pteAddr pte with
      | .table next =>
        match i with
        | 0 => []
        | i + 1 => walkVisits mem vpn i next
      | _ => []
    | _ => []

section Congr

variable {mem mem' : Ram} {a vpn entry : WordType} {i : Nat}

variable {a b : WordType}

theorem checkedSub_toNat {c : WordType} (h : checkedSub a b = .ok c) :
    b.toNat ≤ a.toNat ∧ c.toNat = a.toNat - b.toNat := by
  unfold checkedSub at h
  split at h
  · next hle =>
      cases h
      exact ⟨hle, toNat_sub_of_le hle⟩
  · cases h

theorem loadPte_congr (h : ∀ j, PteByte a j → mem.data j = mem'.data j) :
    loadPte mem a = loadPte mem' a := by
  unfold loadPte
  cases hs : checkedSub a BASE_ADDR with
  | error p => rfl
  | ok off =>
    obtain ⟨hle, hoff⟩ := checkedSub_toNat hs
    have hread : mem.read .u64 off = mem'.read .u64 off :=
      Ram.read_congr fun j h1 h2 => h j ⟨by omega, by
        have : Width.u64.bytes = 8 := rfl
        omega⟩
    simp only [bind, Except.bind, hread]

theorem mem_walkVisits_self : entry + vpnIndex vpn i * 8#64 ∈ walkVisits mem vpn i entry := by
  rw [walkVisits.eq_def]
  exact List.mem_cons_self

/-- The entries below a table entry are visited with it. -/
theorem mem_walkVisits_table {next : WordType} {pte : PageTableEntry}
    (hload : loadPte mem (entry + vpnIndex vpn (i + 1) * 8#64) = .ok (.ok pte))
    (hstep : stepPte (i + 1) (entry + vpnIndex vpn (i + 1) * 8#64) pte = .table next)
    (hb : b ∈ walkVisits mem vpn i next) : b ∈ walkVisits mem vpn (i + 1) entry := by
  rw [walkVisits.eq_def]
  simp only [hload, hstep]
  exact List.mem_cons_of_mem _ hb

theorem checkedAdd_eq {c : WordType} (h : checkedAdd a b = .ok c) : c = a + b := by
  unfold checkedAdd at h
  split at h
  · cases h; rfl
  · cases h

/-- A walk is its first entry and then, below a table, a shorter walk. -/
theorem walkPteFrom_unfold (hadd : checkedAdd entry (vpnIndex vpn i * 8#64) = .ok a) :
    walkPteFrom mem vpn i entry = (do
      match ← loadPte mem a with
      | .error e => .ok (.error e)
      | .ok pte =>
        match stepPte i a pte with
        | .fault e => .ok (.error e)
        | .leaf info => .ok (.ok info)
        | .table next =>
          match i with
          | 0 => .ok (.error .pageFault)
          | i + 1 => walkPteFrom mem vpn i next) :=
  (walkPteFrom.eq_def mem vpn i entry).trans (by rw [hadd]; rfl)

theorem walkPteFrom_overflow {p : PanicSite}
    (hadd : checkedAdd entry (vpnIndex vpn i * 8#64) = .error p) :
    walkPteFrom mem vpn i entry = .error p :=
  (walkPteFrom.eq_def mem vpn i entry).trans (by rw [hadd]; rfl)

/-- A walk depends on the entries it visits and on nothing else. -/
theorem walkPteFrom_congr
    (h : ∀ b ∈ walkVisits mem vpn i entry, ∀ j, PteByte b j → mem.data j = mem'.data j) :
    walkPteFrom mem' vpn i entry = walkPteFrom mem vpn i entry := by
  induction i using Nat.strongRecOn generalizing entry with
  | ind i ih =>
    cases hadd : checkedAdd entry (vpnIndex vpn i * 8#64) with
    | error p => rw [walkPteFrom_overflow hadd, walkPteFrom_overflow hadd]
    | ok a =>
      rw [walkPteFrom_unfold hadd, walkPteFrom_unfold hadd]
      obtain rfl := checkedAdd_eq hadd
      rw [← loadPte_congr (h _ mem_walkVisits_self)]
      -- Each side is computed before the two are compared.
      cases hload : loadPte mem (entry + vpnIndex vpn i * 8#64) with
      | error p => simp only [bind, Except.bind]
      | ok r =>
        cases r with
        | error e => simp only [bind, Except.bind]
        | ok pte =>
          simp only [bind, Except.bind]
          cases hstep : stepPte i (entry + vpnIndex vpn i * 8#64) pte with
          | fault e | leaf info => simp only
          | table next =>
            cases i with
            | zero => simp only
            | succ j =>
              exact ih j j.lt_succ_self fun b hb => h b (mem_walkVisits_table hload hstep hb)

end Congr

/-! ## A and D are not looked at -/

/-- `y` has the bits of `x`, and possibly A and D on top. Entries and their
flags have A and D at the same two places. -/
structure AdLe {n : Nat} (x y : BitVec n) : Prop where
  same : ∀ k, k ≠ 6 → k ≠ 7 → y.getLsbD k = x.getLsbD k
  grow : ∀ k, x.getLsbD k → y.getLsbD k

/-- The same leaf, with possibly A and D set in its flags. -/
structure WalkInfo.AdLe (info info' : WalkInfo) : Prop where
  level : info'.leafLevel = info.leafLevel
  addr : info'.leafPteAddr = info.leafPteAddr
  ppn : info'.leafPpn = info.leafPpn
  flags : HereEmu.AdLe info.leafFlags info'.leafFlags

section AdLe

variable {n i : Nat} {x y z m : BitVec n} {p q : PageTableEntry} {a : WordType}

theorem AdLe.refl (x : BitVec n) : AdLe x x := ⟨fun _ _ _ => rfl, fun _ h => h⟩

theorem AdLe.trans (h1 : AdLe x y) (h2 : AdLe y z) : AdLe x z :=
  ⟨fun i h6 h7 => (h2.same i h6 h7).trans (h1.same i h6 h7), fun i h => h2.grow i (h1.grow i h)⟩

theorem WalkInfo.AdLe.refl (info : WalkInfo) : info.AdLe info := ⟨rfl, rfl, rfl, .refl _⟩

theorem WalkInfo.AdLe.trans {x y z : WalkInfo} (h1 : x.AdLe y) (h2 : y.AdLe z) : x.AdLe z :=
  ⟨h2.level.trans h1.level, h2.addr.trans h1.addr, h2.ppn.trans h1.ppn, h1.flags.trans h2.flags⟩

/-- A test that does not ask for A or D cannot tell the two apart. -/
theorem AdLe.and_eq (h : AdLe x y) (h6 : m.getLsbD 6 = false) (h7 : m.getLsbD 7 = false) :
    y &&& m = x &&& m := by
  refine eq_of_getLsbD_eq fun k _ => ?_
  rw [getLsbD_and, getLsbD_and]
  cases hm : m.getLsbD k with
  | false => simp
  | true =>
    have hk6 : k ≠ 6 := fun e => by rw [e, h6] at hm; cases hm
    have hk7 : k ≠ 7 := fun e => by rw [e, h7] at hm; cases hm
    rw [h.same k hk6 hk7]

theorem AdLe.flags (h : AdLe p.bits q.bits) : AdLe p.flags q.flags := by
  have hbit : ∀ (e : PageTableEntry) k, e.flags.getLsbD k =
      (decide (k < 8) && (e.bits.getLsbD k && PTE_FLAG_MASK.getLsbD k)) := by
    intro e k
    rw [PageTableEntry.flags, getLsbD_setWidth, getLsbD_and]
  constructor
  · intro k h6 h7
    rw [hbit, hbit, h.same k h6 h7]
  · intro k hk
    rw [hbit] at hk ⊢
    simp only [Bool.and_eq_true] at hk ⊢
    exact ⟨hk.1, h.grow k hk.2.1, hk.2.2⟩

theorem AdLe.ppn (h : AdLe p.bits q.bits) : q.ppn = p.ppn := by
  unfold PageTableEntry.ppn
  rw [h.and_eq (by decide) (by decide)]

theorem superpageMask_low {k : Nat} (hk : k < 10) : (superpageMask i).getLsbD k = false := by
  rw [superpageMask, getLsbD_shiftLeft]
  simp [PTE_FLAG_XLEN, hk]

/-- What an entry means does not depend on A and D, except for the flags a leaf
reports. -/
theorem stepPte_adLe (h : AdLe p.bits q.bits) : stepPte i a q =
    match stepPte i a p with
    | .leaf info => .leaf { info with leafFlags := q.flags }
    | s => s := by
  have hf := h.flags
  have hv : q.isValid = p.isValid := by
    rw [isValid, isValid, hf.and_eq (by decide) (by decide)]
  have he : q.isInvalidEncoding = p.isInvalidEncoding := by
    rw [isInvalidEncoding, isInvalidEncoding, hf.and_eq (by decide) (by decide)]
  have hl : q.isLeaf = p.isLeaf := by
    rw [isLeaf, isLeaf, hasAnyFlag, hasAnyFlag, hf.and_eq (by decide) (by decide)]
  have hm : q.bits &&& superpageMask i = p.bits &&& superpageMask i :=
    h.and_eq (superpageMask_low (by decide)) (superpageMask_low (by decide))
  unfold stepPte
  rw [hv, he, hl, hm, h.ppn]
  split
  · rfl
  · split
    · rfl
    · split
      · split <;> rfl
      · rfl

end AdLe

/-! ## Leaves and where they lie -/

section Leaf

variable {mem mem' : Ram} {a b vpn entry : WordType} {pte : PageTableEntry} {info : WalkInfo}
  {i : Nat}

/-- A loaded entry is an aligned doubleword of RAM. -/
theorem loadPte_eq_ok (h : loadPte mem a = .ok (.ok pte)) :
    BASE_ADDR.toNat ≤ a.toNat ∧ a.toNat + 8 ≤ BASE_ADDR.toNat + SIZE ∧ a.toNat % 8 = 0 ∧
      pte.bits = Lib.loadLE mem.data (a.toNat - BASE_ADDR.toNat) 8 := by
  obtain ⟨off, hs, h⟩ := Lib.exists_of_bind_ok h
  obtain ⟨hle, hoff⟩ := checkedSub_toNat hs
  split at h
  · cases h
  · next bits hr =>
      cases h
      obtain ⟨hin, hal, hv⟩ := Ram.read_eq_ok hr
      have hbase : BASE_ADDR.toNat % 8 = 0 := by decide
      have hw : Width.u64.bytes = 8 := rfl
      rw [hw] at hin hal
      exact ⟨hle, by omega, by omega, by rw [← hoff]; exact hv⟩

theorem loadPte_of_aligned (h1 : BASE_ADDR.toNat ≤ a.toNat)
    (h2 : a.toNat + 8 ≤ BASE_ADDR.toNat + SIZE) (h3 : a.toNat % 8 = 0) :
    loadPte mem a = .ok (.ok ⟨Lib.loadLE mem.data (a.toNat - BASE_ADDR.toNat) 8⟩) := by
  have hbase : BASE_ADDR.toNat % 8 = 0 := by decide
  have hsub : (a - BASE_ADDR).toNat = a.toNat - BASE_ADDR.toNat := toNat_sub_of_le h1
  have hw : Width.u64.bytes = 8 := rfl
  have hread := Ram.read_of_mem mem .u64 (a - BASE_ADDR)
    (by omega) (by rw [hw]; omega)
  unfold loadPte
  rw [checkedSub, if_pos h1]
  simp only [bind, Except.bind, hread, hsub, hw]

theorem stepPte_eq_leaf (h : stepPte i a pte = .leaf info) : info = ⟨i, pte.flags, a, pte.ppn⟩ := by
  unfold stepPte at h
  split at h
  · cases h
  · split at h
    · cases h
    · split at h
      · split at h
        · cases h
        · cases h; rfl
      · cases h

/-- A walk that finds a leaf finds it here, or below the table found here. -/
theorem walkPteFrom_ok_cases (h : walkPteFrom mem vpn i entry = .ok (.ok info)) :
    ∃ pte, loadPte mem (entry + vpnIndex vpn i * 8#64) = .ok (.ok pte) ∧
      (stepPte i (entry + vpnIndex vpn i * 8#64) pte = .leaf info ∨
        ∃ j next, i = j + 1 ∧ stepPte i (entry + vpnIndex vpn i * 8#64) pte = .table next ∧
          walkPteFrom mem vpn j next = .ok (.ok info)) := by
  cases hadd : checkedAdd entry (vpnIndex vpn i * 8#64) with
  | error p => rw [walkPteFrom_overflow hadd] at h; cases h
  | ok a =>
    rw [walkPteFrom_unfold hadd] at h
    obtain rfl := checkedAdd_eq hadd
    obtain ⟨r, hload, h⟩ := Lib.exists_of_bind_ok h
    cases r with
    | error e => cases h
    | ok pte =>
      refine ⟨pte, hload, ?_⟩
      dsimp only at h
      cases hstep : stepPte i (entry + vpnIndex vpn i * 8#64) pte with
      | fault e => rw [hstep] at h; cases h
      | leaf info' => rw [hstep] at h; cases h; exact .inl rfl
      | table next =>
        rw [hstep] at h
        cases i with
        | zero => cases h
        | succ j => exact .inr ⟨j, next, rfl, rfl, h⟩

/-- The leaf a walk reports is an entry of RAM, and the walk read it. -/
theorem walkPteFrom_leaf (h : walkPteFrom mem vpn i entry = .ok (.ok info)) :
    info.leafPteAddr ∈ walkVisits mem vpn i entry ∧
      ∃ pte, loadPte mem info.leafPteAddr = .ok (.ok pte) ∧ info.leafFlags = pte.flags ∧
        info.leafPpn = pte.ppn := by
  induction i using Nat.strongRecOn generalizing entry with
  | ind i ih =>
    obtain ⟨pte, hload, hleaf | ⟨j, next, rfl, hstep, hrest⟩⟩ := walkPteFrom_ok_cases h
    · obtain rfl := stepPte_eq_leaf hleaf
      exact ⟨mem_walkVisits_self, pte, hload, rfl, rfl⟩
    · obtain ⟨hmem, hpte⟩ := ih j j.lt_succ_self hrest
      exact ⟨mem_walkVisits_table hload hstep hmem, hpte⟩

/-- Two results are the same fault or panic, or successes related by `R`. -/
inductive Agree {ε α : Type} (R : α → α → Prop) : Rust (Except ε α) → Rust (Except ε α) → Prop
  | ok {x y : α} : R x y → Agree R (.ok (.ok x)) (.ok (.ok y))
  | fault (e : ε) : Agree R (.ok (.error e)) (.ok (.error e))
  | panicked (p : PanicSite) : Agree R (.error p) (.error p)

variable {ε α : Type} {R : α → α → Prop} {y : Rust (Except ε α)}

theorem Agree.eq_of_panicked {p : PanicSite} (h : Agree R (.error p) y) : y = .error p := by
  cases h
  rfl

theorem Agree.eq_of_fault {e : ε} (h : Agree R (.ok (.error e)) y) : y = .ok (.error e) := by
  cases h
  rfl

theorem Agree.exists_ok {x : α} (h : Agree R (.ok (.ok x)) y) :
    ∃ x', y = .ok (.ok x') ∧ R x x' := by
  cases h with
  | ok hR => exact ⟨_, rfl, hR⟩

/-- `mem'` holds the entries of `mem`, with possibly A and D set in some. -/
def Ram.AdLe (mem mem' : Ram) : Prop :=
  ∀ a, Agree (fun p q : PageTableEntry => HereEmu.AdLe p.bits q.bits) (loadPte mem a)
    (loadPte mem' a)

/-- Setting A and D anywhere leaves every walk as it was, but for the flags. -/
theorem walkPteFrom_adLe (h : mem.AdLe mem') :
    Agree WalkInfo.AdLe (walkPteFrom mem vpn i entry) (walkPteFrom mem' vpn i entry) := by
  induction i using Nat.strongRecOn generalizing entry with
  | ind i ih =>
    cases hadd : checkedAdd entry (vpnIndex vpn i * 8#64) with
    | error p =>
      rw [walkPteFrom_overflow hadd, walkPteFrom_overflow hadd]
      exact .panicked p
    | ok a =>
      rw [walkPteFrom_unfold hadd, walkPteFrom_unfold hadd]
      have hload := h a
      revert hload
      generalize loadPte mem a = r, loadPte mem' a = r'
      intro hload
      cases hload with
      | fault e => exact .fault e
      | panicked p => exact .panicked p
      | @ok p q hpq =>
        simp only [bind, Except.bind, stepPte_adLe hpq]
        cases hstep : stepPte i a p with
        | fault e => exact .fault e
        | leaf info =>
          obtain rfl := stepPte_eq_leaf hstep
          exact .ok ⟨rfl, rfl, rfl, hpq.flags⟩
        | table next =>
          cases i with
          | zero => exact .fault _
          | succ j => exact ih j j.lt_succ_self

end Leaf

end HereEmu
