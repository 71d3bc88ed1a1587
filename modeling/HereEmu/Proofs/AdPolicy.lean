import HereEmu.Proofs.Footprint

/-!
# Setting A and D

The walker sets A and D through a raw pointer at an address it remembers. What
that does to RAM is said once here: the entry at that address becomes the
entry with the missing bits set, and no other byte changes (`PteUpdated`).
Everything about other translations follows from `Ram.AdLe`, because an
aligned entry either is the updated one or does not meet it.
-/

namespace HereEmu

open PageTableWalker PageTableEntry

/-- `mem'` is `mem` with the entry at `a` replaced by `q`. -/
structure PteUpdated (mem mem' : Ram) (a : WordType) (q : PageTableEntry) : Prop where
  reserved : mem'.reserved = mem.reserved
  frame : ∀ j, ¬ PteByte a j → mem'.data j = mem.data j
  entry : loadPte mem' a = .ok (.ok q)

section Update

variable {mem mem' : Ram} {a b : WordType} {pte q : PageTableEntry}

theorem loadLE_storeLE_eight {m : Nat → BitVec 8} {off : Nat} {v : WordType} :
    (Lib.loadLE (Lib.storeLE m off 8 v) off 8 : WordType) = v := by
  rw [Lib.loadLE_storeLE_same]
  exact BitVec.and_allOnes

/-- Updating an entry that can be loaded changes it and nothing else. -/
theorem updatePte_of_load (h : loadPte mem a = .ok (.ok pte))
    (f : PageTableEntry → PageTableEntry) :
    ∃ mem', updatePte mem a f = .ok mem' ∧ PteUpdated mem mem' a (f pte) := by
  obtain ⟨h1, h2, h3, hbits⟩ := loadPte_eq_ok h
  have hsub : (a - BASE_ADDR).toNat = a.toNat - BASE_ADDR.toNat := BitVec.toNat_sub_of_le h1
  -- The offset stays a name: unfolded, it is a subtraction of a large literal.
  obtain ⟨off, hoff⟩ : ∃ off, off = a.toNat - BASE_ADDR.toNat := ⟨_, rfl⟩
  rw [← hoff] at hsub hbits
  have hlt : off < SIZE := by omega
  refine ⟨{ mem with data := Lib.storeLE mem.data off 8 (f pte).bits }, ?_, rfl, ?_, ?_⟩
  · unfold updatePte
    rw [checkedSub, if_pos h1]
    simp only [bind, Except.bind]
    rw [hsub, if_pos hlt, ← hbits]
  · intro j hj
    have hout : ¬ (off ≤ j ∧ j < off + 8) := by
      rintro ⟨h4, h5⟩
      exact hj ⟨by omega, by omega⟩
    exact Lib.storeLE_outside hout
  · rw [loadPte_of_aligned h1 h2 h3, ← hoff, loadLE_storeLE_eight]

/-- The loads of two entries: the updated one, or one it does not meet. -/
theorem PteUpdated.load (h : PteUpdated mem mem' a q) (ha : a.toNat % 8 = 0)
    (hb : b.toNat % 8 = 0) : b = a ∨ loadPte mem' b = loadPte mem b := by
  by_cases hab : b = a
  · exact .inl hab
  · have hne : b.toNat ≠ a.toNat := fun h => hab (BitVec.eq_of_toNat_eq h)
    refine .inr (loadPte_congr fun j hj => h.frame j fun hj' => ?_)
    obtain ⟨h1, h2⟩ := hj
    obtain ⟨h3, h4⟩ := hj'
    omega

theorem PteUpdated.refl (h : loadPte mem a = .ok (.ok pte)) : PteUpdated mem mem a pte :=
  ⟨rfl, fun _ _ => rfl, h⟩

/-- The update is determined by the entry it leaves. -/
theorem PteUpdated.unique {mem₁ mem₂ : Ram} (h₁ : PteUpdated mem mem₁ a q)
    (h₂ : PteUpdated mem mem₂ a q) : mem₁ = mem₂ := by
  have hdata : mem₁.data = mem₂.data := by
    funext j
    by_cases hj : PteByte a j
    · obtain ⟨h1, -, -, hb₁⟩ := loadPte_eq_ok h₁.entry
      obtain ⟨-, -, -, hb₂⟩ := loadPte_eq_ok h₂.entry
      obtain ⟨h3, h4⟩ := hj
      obtain ⟨off, hoff⟩ : ∃ off, off = a.toNat - BASE_ADDR.toNat := ⟨_, rfl⟩
      rw [← hoff] at hb₁ hb₂
      rw [Lib.byte_eq_of_loadLE (m := mem₁.data) (w := 64) (a := off) (n := 8) (by decide)
          (by omega) (by omega),
        Lib.byte_eq_of_loadLE (m := mem₂.data) (w := 64) (a := off) (n := 8) (by decide)
          (by omega) (by omega), ← hb₁, ← hb₂]
    · rw [h₁.frame j hj, h₂.frame j hj]
  have hres : mem₁.reserved = mem₂.reserved := h₁.reserved.trans h₂.reserved.symm
  cases mem₁
  cases mem₂
  cases hdata
  cases hres
  rfl

/-- A load fails or succeeds by the address alone. -/
theorem loadPte_agree (mem mem' : Ram) (b : WordType) :
    Agree (fun _ _ => True) (loadPte mem b) (loadPte mem' b) := by
  unfold loadPte
  cases checkedSub b BASE_ADDR with
  | error p => exact .panicked p
  | ok off =>
    simp only [bind, Except.bind]
    cases hr : mem.read .u64 off with
    | error e => rw [(Ram.read_error_iff mem').mp hr]; exact .fault _
    | ok v =>
      obtain ⟨hin, hal, -⟩ := Ram.read_eq_ok hr
      rw [Ram.read_of_mem _ _ _ hin hal]
      exact .ok trivial

/-- Adding A and D to one entry adds them nowhere else. -/
theorem PteUpdated.adLe (h : PteUpdated mem mem' a q) (hload : loadPte mem a = .ok (.ok pte))
    (hq : AdLe pte.bits q.bits) : mem.AdLe mem' := by
  intro b
  have hagree := loadPte_agree mem mem' b
  cases hb : loadPte mem b with
  | error p => rw [hb] at hagree; rw [hagree.eq_of_panicked]; exact .panicked p
  | ok r =>
    cases r with
    | error e => rw [hb] at hagree; rw [hagree.eq_of_fault]; exact .fault e
    | ok p =>
      have ha8 := (loadPte_eq_ok hload).2.2.1
      have hb8 := (loadPte_eq_ok hb).2.2.1
      rcases h.load ha8 hb8 with rfl | hsame
      · rw [hload] at hb
        cases hb
        rw [h.entry]
        exact .ok hq
      · rw [hsame, hb]
        exact .ok (.refl _)

end Update

/-! ## The policy -/

section Policy

variable {w : PageTableWalker} {mem : Ram} {info : WalkInfo} {effect : AccessEffect}
  {pte : PageTableEntry} {na nd : Bool}

theorem setNeeded_getLsbD (k : Nat) : (setNeeded na nd pte).bits.getLsbD k =
    (pte.bits.getLsbD k || (na && decide (k = 6)) || (nd && decide (k = 7))) := by
  have hA : ∀ k, (PTEFlags.A.setWidth 64).getLsbD k = decide (k = 6) := by
    intro k
    rw [BitVec.getLsbD_setWidth, show PTEFlags.A = BitVec.ofNat 8 (2 ^ 6) from rfl,
      BitVec.getLsbD_ofNat, Nat.testBit_two_pow]
    by_cases hk : k = 6
    · simp [hk]
    · simp [hk, Ne.symm hk]
  have hD : ∀ k, (PTEFlags.D.setWidth 64).getLsbD k = decide (k = 7) := by
    intro k
    rw [BitVec.getLsbD_setWidth, show PTEFlags.D = BitVec.ofNat 8 (2 ^ 7) from rfl,
      BitVec.getLsbD_ofNat, Nat.testBit_two_pow]
    by_cases hk : k = 7
    · simp [hk]
    · simp [hk, Ne.symm hk]
  cases na <;> cases nd <;>
    simp [setNeeded, setAccessed, setDirty, setFlag, hA, hD]

theorem setNeeded_adLe : AdLe pte.bits (setNeeded na nd pte).bits := by
  constructor
  · intro k h6 h7
    rw [setNeeded_getLsbD]
    simp [h6, h7]
  · intro k hk
    rw [setNeeded_getLsbD, hk]
    simp

theorem applyAdPolicy_no_need (h : needAccessedDirty info effect = (false, false)) :
    w.applyAdPolicy mem info effect = .ok (.ok (), mem) := by
  unfold applyAdPolicy
  rw [h]
  rfl

theorem applyAdPolicy_fault (h : needAccessedDirty info effect ≠ (false, false))
    (hp : w.adUpdatePolicy = .faultOnClear) :
    w.applyAdPolicy mem info effect = .ok (.error .pageFault, mem) := by
  unfold applyAdPolicy
  revert h
  generalize needAccessedDirty info effect = n
  obtain ⟨na, nd⟩ := n
  intro h
  rw [hp]
  cases na <;> cases nd <;> first | rfl | exact absurd rfl h

/-- Under `AutoSet` the leaf in RAM ends up with what the access needs. -/
theorem applyAdPolicy_set (effect : AccessEffect) (hp : w.adUpdatePolicy = .autoSet)
    (hload : loadPte mem info.leafPteAddr = .ok (.ok pte)) :
    ∃ mem', w.applyAdPolicy mem info effect = .ok (.ok (), mem') ∧
      PteUpdated mem mem' info.leafPteAddr
        (setNeeded (needAccessedDirty info effect).1 (needAccessedDirty info effect).2 pte) := by
  by_cases h : needAccessedDirty info effect = (false, false)
  · refine ⟨mem, applyAdPolicy_no_need h, ?_⟩
    rw [h]
    exact .refl hload
  · unfold applyAdPolicy
    revert h
    generalize needAccessedDirty info effect = n
    obtain ⟨na, nd⟩ := n
    intro h
    obtain ⟨mem', hu, hupd⟩ := updatePte_of_load hload (setNeeded na nd)
    refine ⟨mem', ?_, hupd⟩
    rw [hp]
    simp only [hu, bind, Except.bind]
    cases na <;> cases nd <;> first | rfl | exact absurd rfl h

/-- The bits an access asks for. -/
def required : AccessEffect → Bool × Bool
  | .none => (false, false)
  | .accessed => (true, false)
  | .accessedDirty => (true, true)

theorem contains_A_eq (f : PTEFlags) : f.contains .A = f.getLsbD 6 := by
  revert f
  decide

theorem contains_D_eq (f : PTEFlags) : f.contains .D = f.getLsbD 7 := by
  revert f
  decide

theorem needAccessedDirty_eq : needAccessedDirty info effect =
    ((required effect).1 && !info.leafFlags.getLsbD 6,
      (required effect).2 && !info.leafFlags.getLsbD 7) := by
  cases effect <;> simp [needAccessedDirty, required, contains_A_eq, contains_D_eq]

/-- Cached flags may lack A and D the entry has meanwhile got. Setting what the
cached flags lack, and setting what the access asks for, come to the same. -/
theorem setNeeded_required (h : AdLe info.leafFlags pte.flags) :
    setNeeded (needAccessedDirty info effect).1 (needAccessedDirty info effect).2 pte =
      setNeeded (required effect).1 (required effect).2 pte := by
  have hbit : ∀ k, k < 8 → pte.flags.getLsbD k = pte.bits.getLsbD k := by
    intro k hk
    have hmask : PTE_FLAG_MASK.getLsbD k := by
      rw [show PTE_FLAG_MASK = BitVec.ofNat 64 (2 ^ 10 - 1) from rfl, BitVec.getLsbD_ofNat,
        Nat.testBit_two_pow_sub_one]
      simp
      omega
    rw [flags, BitVec.getLsbD_setWidth, BitVec.getLsbD_and, hmask]
    simp [hk]
  have hbits : (setNeeded (needAccessedDirty info effect).1 (needAccessedDirty info effect).2
      pte).bits = (setNeeded (required effect).1 (required effect).2 pte).bits := by
    refine BitVec.eq_of_getLsbD_eq fun k _ => ?_
    rw [setNeeded_getLsbD, setNeeded_getLsbD, needAccessedDirty_eq]
    by_cases h6 : k = 6
    · subst h6
      have hg := h.grow 6
      rw [hbit 6 (by decide)] at hg
      cases hi : info.leafFlags.getLsbD 6 with
      | false => simp
      | true => simp [hg hi]
    · by_cases h7 : k = 7
      · subst h7
        have hg := h.grow 7
        rw [hbit 7 (by decide)] at hg
        cases hi : info.leafFlags.getLsbD 7 with
        | false => simp
        | true => simp [hg hi]
      · simp [h6, h7]
  calc setNeeded (needAccessedDirty info effect).1 (needAccessedDirty info effect).2 pte
      = ⟨(setNeeded (needAccessedDirty info effect).1 (needAccessedDirty info effect).2
          pte).bits⟩ := rfl
    _ = ⟨(setNeeded (required effect).1 (required effect).2 pte).bits⟩ := by rw [hbits]
    _ = setNeeded (required effect).1 (required effect).2 pte := rfl

end Policy

end HereEmu
