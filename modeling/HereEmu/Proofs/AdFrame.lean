import HereEmu.Proofs.Tlb

/-!
# What a translation writes

A translation may write RAM in one place only, the leaf it used, and only to
set A and D there. For a leaf that comes out of the TLB this rests on the
entry still being what was cached, so the statement is about runs in which
nobody but the walker changes the leaf of a cached page before it is used
again. The rest of the path may change at will: a hit does not look at it.
-/

namespace HereEmu

open Lib PageTableWalker

/-- The entry a leaf was read from is still there, up to A and D. -/
def LeafOk (w : PageTableWalker) (ram : Ram) (info : WalkInfo) : Prop :=
  ∃ pte, loadPte ram info.leafPteAddr = .ok (.ok pte) ∧ AdLe info.leafFlags pte.flags ∧
    (w.adUpdatePolicy = .faultOnClear → info.leafFlags = pte.flags)

/-- What a translation that returned has done to RAM. -/
structure AdFrame (w : PageTableWalker) (ram : Ram) (va : WordType) (check : PermissionCheck)
    (effect : AccessEffect) (r : Except PageTableError WordType) (ram' : Ram) : Prop where
  /-- A translation that fails writes nothing. -/
  fault : ∀ e, r = .error e → ram' = ram
  /-- Without an effect nothing is written. -/
  noEffect : effect = .none → ram' = ram
  /-- Nothing is ever written under `FaultOnClear`. -/
  faultOnClear : w.adUpdatePolicy = .faultOnClear → ram' = ram
  /-- A translation that succeeds has a leaf that permits it. Under `AutoSet`
  the leaf's entry gets the bits the access asks for and nothing else changes;
  under `FaultOnClear` it has them already. -/
  success : ∀ p, r = .ok p → ∃ info pte w', w.lookupLeaf ram va = .ok (.ok info, w') ∧
    permits check info.leafFlags ∧ loadPte ram info.leafPteAddr = .ok (.ok pte) ∧
    (w.adUpdatePolicy = .autoSet → PteUpdated ram ram' info.leafPteAddr
      (setNeeded (required effect).1 (required effect).2 pte)) ∧
    (w.adUpdatePolicy = .faultOnClear →
      ((required effect).1 → pte.flags.contains .A) ∧
      ((required effect).2 → pte.flags.contains .D))

section Frame

variable {w w' w₁ : PageTableWalker} {mem mem' : Ram} {va : WordType} {check : PermissionCheck}
  {effect : AccessEffect} {info : WalkInfo} {r : Except PageTableError WordType}

/-- A leaf that was just looked up is backed by its entry. -/
theorem LeafOk.of_lookup
    (hleaf : ∀ info, w.tlb.get (vpn va) = some info → LeafOk w mem info)
    (h : w.lookupLeaf mem va = .ok (.ok info, w₁)) :
    LeafOk w mem info ∧ w₁.flushTlb = w.flushTlb := by
  rcases lookupLeaf_cases h with ⟨_, hr, hget, rfl⟩ | ⟨-, hwalk, rfl⟩
  · cases hr
    exact ⟨hleaf info hget, rfl⟩
  · obtain ⟨pte, hload, hflags⟩ := walkPte_leaf hwalk
    exact ⟨⟨pte, hload, hflags ▸ .refl _, fun _ => hflags⟩, rfl⟩

/-- Nothing is missing, so the cached flags hold what the access asks for. -/
theorem required_of_no_need (h : needAccessedDirty info effect = (false, false)) :
    ((required effect).1 → info.leafFlags.contains .A) ∧
      ((required effect).2 → info.leafFlags.contains .D) := by
  rw [needAccessedDirty_eq, Prod.mk.injEq] at h
  rw [contains_A_eq, contains_D_eq]
  constructor
  · intro hr
    simpa [hr] using h.1
  · intro hr
    simpa [hr] using h.2

/-- The frame of a translation that has got to its leaf. -/
theorem AdFrame.of_leaf (hlook : w.lookupLeaf mem va = .ok (.ok info, w₁))
    (hok : LeafOk w mem info) (hpol : w₁.adUpdatePolicy = w.adUpdatePolicy)
    (h : w₁.translateLeaf mem va info check effect = .ok (r, w', mem')) :
    AdFrame w mem va check effect r mem' ∧ w' = w₁ ∧
      (mem' = mem ∨ w.adUpdatePolicy = .autoSet ∧ mem.AdLe mem') := by
  obtain ⟨pte, hload, hle, hfault⟩ := hok
  rcases translateLeaf_cases w₁ va check effect hload with
    ⟨_, he⟩ | ⟨_, hf, _, he⟩ | ⟨hp, hf, hn, he⟩ | ⟨hp, hs, ram', hupd, he⟩
  · rw [he] at h
    cases h
    exact ⟨⟨fun _ _ => rfl, fun _ => rfl, fun _ => rfl, fun _ hr => nomatch hr⟩, rfl, .inl rfl⟩
  · rw [he] at h
    cases h
    exact ⟨⟨fun _ _ => rfl, fun _ => rfl, fun _ => rfl, fun _ hr => nomatch hr⟩, rfl, .inl rfl⟩
  · rw [he] at h
    cases h
    rw [hpol] at hf
    refine ⟨⟨fun _ _ => rfl, fun _ => rfl, fun _ => rfl, fun p _ => ⟨info, pte, w', hlook, hp, hload,
      fun hs => ?_, fun _ => ?_⟩⟩, rfl, .inl rfl⟩
    · rw [hf] at hs; cases hs
    · rw [← hfault hf]
      exact required_of_no_need hn
  · rw [he] at h
    cases h
    rw [hpol] at hs
    have hupd := hupd hle
    refine ⟨⟨fun e hr => (nomatch hr), fun heff => ?_, fun hf => ?_, fun p _ => ⟨info, pte, w', hlook,
      hp, hload, fun _ => hupd, fun hf => ?_⟩⟩, rfl, .inr ⟨hs, hupd.adLe hload setNeeded_adLe⟩⟩
    · subst heff
      exact hupd.unique (.refl hload)
    · rw [hs] at hf; cases hf
    · rw [hs] at hf; cases hf

/-- Whatever a translation returns, it has kept to its frame. -/
theorem translateVaddr_frame
    (hleaf : ∀ info, w.tlb.get (vpn va) = some info → LeafOk w mem info)
    (h : w.translateVaddr mem va check effect = .ok (r, w', mem')) :
    Translated w w' mem mem' va ∧ (w.mode ≠ .none → AdFrame w mem va check effect r mem') := by
  rcases translateVaddr_cases h with ⟨rfl, rfl, hr⟩ | ⟨hm, hc, info, w₁, hlook, hl⟩
  · refine ⟨.refl .., fun hm => ?_⟩
    rcases hr with ⟨hnone, _⟩ | ⟨_, e, rfl⟩
    · exact absurd hnone hm
    · exact ⟨fun _ _ => rfl, fun _ => rfl, fun _ => rfl, fun _ hr => nomatch hr⟩
  · obtain ⟨hok, hcfg⟩ := LeafOk.of_lookup hleaf hlook
    obtain ⟨hframe, rfl, hram⟩ := AdFrame.of_leaf hlook hok (policy_of_flushTlb hcfg) hl
    exact ⟨.of_lookup hlook hram, fun _ => hframe⟩

theorem LeafOk.adLe (h : LeafOk w mem info) (hle : mem.AdLe mem')
    (hp : w.adUpdatePolicy = .autoSet) : LeafOk w mem' info := by
  obtain ⟨pte, hload, hflags, -⟩ := h
  have hagree := hle info.leafPteAddr
  rw [hload] at hagree
  obtain ⟨pte', hload', hpte⟩ := hagree.exists_ok
  refine ⟨pte', hload', hflags.trans hpte.flags, fun hf => ?_⟩
  rw [hp] at hf
  cases hf

theorem LeafOk.of_flushTlb (h : w'.flushTlb = w.flushTlb) (hok : LeafOk w mem info) :
    LeafOk w' mem info := by
  unfold LeafOk
  rw [policy_of_flushTlb h]
  exact hok

end Frame

/-! ## Along a run -/

/-- Every cached page that is not stale has its entry behind it. -/
def LeafInv (g : TlbState × (WordType → Prop)) : Prop :=
  ∀ k info, g.1.walker.tlb.get k = some info → ¬ g.2 k → LeafOk g.1.walker g.1.ram info

section Run

variable {s : TlbState} {stale : WordType → Prop} {va : WordType} {w' : PageTableWalker}
  {mem' : Ram}

theorem LeafInv.translate (hinv : LeafInv (s, stale))
    (hhit : ∀ info, s.walker.tlb.get (vpn va) = some info → ¬ stale (vpn va))
    (ht : Translated s.walker w' s.ram mem' va) :
    LeafInv (⟨w', mem'⟩, fun k => stale k ∧ k ≠ vpn va) := by
  intro k info hget hk
  have hold : LeafOk s.walker s.ram info := by
    rcases ht.fill k info hget with hget' | ⟨rfl, hwalk⟩
    · refine hinv k info hget' fun hs => hk ⟨hs, ?_⟩
      rintro rfl
      exact hhit info hget' hs
    · obtain ⟨pte, hload, hflags⟩ := walkPte_leaf hwalk
      exact ⟨pte, hload, hflags ▸ .refl _, fun _ => hflags⟩
  refine LeafOk.of_flushTlb ht.config ?_
  rcases ht.ram with hr | ⟨hp, hle⟩
  · rw [hr]; exact hold
  · exact hold.adLe hle hp

theorem LeafInv.writeRam (hinv : LeafInv (s, stale)) :
    LeafInv (⟨s.walker, mem'⟩, fun k => stale k ∨ Touched watchLeaf s mem' k) := by
  intro k info hget hk
  obtain ⟨pte, hload, hrest⟩ := hinv k info hget fun hs => hk (.inl hs)
  refine ⟨pte, ?_, hrest⟩
  rw [← hload]
  refine (loadPte_congr fun j hj => ?_).symm
  by_contra hne
  exact hk (.inr ⟨info, hget, _, List.mem_singleton.mpr rfl, j, hj, Ne.symm hne⟩)

theorem LeafInv.empty {w : PageTableWalker} {mem : Ram} (h : ∀ k, w.tlb.get k = none) :
    LeafInv (⟨w, mem⟩, stale) := by
  intro k info hget
  rw [show (⟨w, mem⟩ : TlbState).walker.tlb.get k = none from h k] at hget
  cases hget

theorem LeafInv.step {g g' : TlbState × (WordType → Prop)} {op : TlbOp} {out : TlbOut}
    (hinv : LeafInv g) (hhit : HitsFresh g op) (h : staleStep watchLeaf g op = .ok (out, g')) :
    LeafInv g' := by
  obtain ⟨s, stale⟩ := g
  obtain ⟨hexec, hstale⟩ := staleStep_eq_ok h
  obtain ⟨s', stale'⟩ := g'
  obtain rfl : stale' = _ := hstale
  cases op with
  | translate va check effect =>
    simp only [TlbState.exec] at hexec
    split at hexec
    · cases hexec
    · next r w' ram' ht =>
        cases hexec
        have hleaf : ∀ info, s.walker.tlb.get (vpn va) = some info → LeafOk s.walker s.ram info :=
          fun info hi => hinv _ _ hi (hhit info hi)
        exact LeafInv.translate hinv hhit (translateVaddr_frame hleaf ht).1
  | flushTlb => cases hexec; exact LeafInv.empty fun _ => DirectCache.get_clear (c := s.walker.tlb)
  | reconfigure mode root =>
    cases hexec
    exact LeafInv.empty fun _ => DirectCache.get_clear (c := s.walker.tlb)
  | writeRam f => cases hexec; exact LeafInv.writeRam hinv

end Run

end HereEmu
