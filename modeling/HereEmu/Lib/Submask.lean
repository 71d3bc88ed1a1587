import Mathlib.Tactic.Common

/-!
# Counting down through the subsets of a mask

`curr ← mask & (curr - 1)`, from the mask itself down to zero, is the usual loop
over all subsets of a mask. It meets each of them once: among the subsets, the
one before `curr` is exactly `mask & (curr - 1)`.
-/

namespace HereEmu.Lib

open BitVec

/-- The subsets below `curr` are the ones up to `mask & (curr - 1)`. The induction
is on `curr`, one bit at a time from the low end. -/
theorem le_and_pred_iff {mask curr x : Nat} (hx : x &&& mask = x) (hc : curr &&& mask = curr)
    (h0 : curr ≠ 0) : x ≤ mask &&& (curr - 1) ↔ x < curr := by
  induction curr using Nat.strongRecOn generalizing mask x with
  | ind curr ih =>
    have hxdiv : x / 2 &&& mask / 2 = x / 2 := by rw [← Nat.and_div_two, hx]
    have hcdiv : curr / 2 &&& mask / 2 = curr / 2 := by rw [← Nat.and_div_two, hc]
    have hdiv : (mask &&& (curr - 1)) / 2 = mask / 2 &&& (curr - 1) / 2 := Nat.and_div_two
    have hlow : (mask &&& (curr - 1)) % 2 = 1 ↔ mask % 2 = 1 ∧ (curr - 1) % 2 = 1 :=
      Nat.and_mod_two_eq_one
    by_cases hodd : curr % 2 = 1
    · -- the low bit goes, and what is left is a subset already
      have hpred : (curr - 1) / 2 = curr / 2 := by omega
      rw [hpred, Nat.and_comm (mask / 2), hcdiv] at hdiv
      omega
    · -- the low bit is borrowed, and comes back as that of the mask
      have hpred : (curr - 1) / 2 = curr / 2 - 1 := by omega
      rw [hpred] at hdiv
      have hih := ih (curr / 2) (by omega) hxdiv hcdiv (by omega)
      have hxlow : x % 2 = 1 → mask % 2 = 1 := by
        intro hone
        rw [← hx] at hone
        exact (Nat.and_mod_two_eq_one.mp hone).2
      omega

variable {w : Nat} {mask curr x : BitVec w}

theorem toNat_ne_zero (h : curr ≠ 0) : curr.toNat ≠ 0 := fun h0 => h (eq_of_toNat_eq h0)

theorem toNat_subset (h : x &&& mask = x) : x.toNat &&& mask.toNat = x.toNat := by
  rw [← toNat_and, h]

theorem and_pred_subset (mask curr : BitVec w) :
    mask &&& (curr - 1) &&& mask = mask &&& (curr - 1) := by
  rw [BitVec.and_comm, ← BitVec.and_assoc, BitVec.and_self]

theorem toNat_and_pred (mask : BitVec w) (h : curr ≠ 0) :
    (mask &&& (curr - 1)).toNat = mask.toNat &&& (curr.toNat - 1) := by
  have hpos : 0 < curr.toNat := Nat.pos_of_ne_zero (toNat_ne_zero h)
  have hone : (1 : BitVec w).toNat = 1 :=
    (toNat_ofNat 1 w).trans (Nat.mod_eq_of_lt (Nat.lt_of_le_of_lt hpos curr.isLt))
  rw [toNat_and, toNat_sub_of_le (le_def.mpr (hone ▸ hpos)), hone]

theorem toNat_and_pred_lt (mask : BitVec w) (h : curr ≠ 0) :
    (mask &&& (curr - 1)).toNat < curr.toNat := by
  have hpos := toNat_ne_zero h
  have hle : mask.toNat &&& (curr.toNat - 1) ≤ curr.toNat - 1 := Nat.and_le_right
  rw [toNat_and_pred mask h]
  omega

/-- The values of `curr` the loop goes through. -/
def submasksFrom (mask curr : BitVec w) : List (BitVec w) :=
  if curr = 0 then [curr] else curr :: submasksFrom mask (mask &&& (curr - 1))
termination_by curr.toNat
decreasing_by exact toNat_and_pred_lt mask ‹_›

/-- These are the subsets up to `curr`. -/
theorem mem_submasksFrom (hc : curr &&& mask = curr) :
    x ∈ submasksFrom mask curr ↔ x &&& mask = x ∧ x ≤ curr := by
  fun_induction submasksFrom mask curr with
  | case1 =>
    rw [List.mem_singleton, le_def]
    constructor
    · rintro rfl
      exact ⟨zero_and, Nat.le_refl _⟩
    · exact fun h => eq_of_toNat_eq (Nat.le_zero.mp h.2)
  | case2 curr h ih =>
    have hbefore (hx : x &&& mask = x) :
        x.toNat ≤ mask.toNat &&& (curr.toNat - 1) ↔ x.toNat < curr.toNat :=
      le_and_pred_iff (toNat_subset hx) (toNat_subset hc) (toNat_ne_zero h)
    rw [List.mem_cons, ih (and_pred_subset mask curr), le_def, le_def, toNat_and_pred mask h]
    constructor
    · rintro (rfl | ⟨hx, hle⟩)
      · exact ⟨hc, Nat.le_refl _⟩
      · exact ⟨hx, Nat.le_of_lt ((hbefore hx).mp hle)⟩
    · rintro ⟨hx, hle⟩
      rcases Nat.lt_or_eq_of_le hle with hlt | heq
      · exact .inr ⟨hx, (hbefore hx).mpr hlt⟩
      · exact .inl (eq_of_toNat_eq heq)

/-- All of them come from the mask itself. -/
theorem mem_submasks : x ∈ submasksFrom mask mask ↔ x &&& mask = x := by
  rw [mem_submasksFrom BitVec.and_self]
  refine ⟨And.left, fun hx => ⟨hx, ?_⟩⟩
  rw [le_def, ← hx, toNat_and]
  exact Nat.and_le_right

theorem nodup_submasksFrom (hc : curr &&& mask = curr) : (submasksFrom mask curr).Nodup := by
  fun_induction submasksFrom mask curr with
  | case1 => exact List.pairwise_singleton _ _
  | case2 curr h ih =>
    refine List.nodup_cons.mpr ⟨fun hmem => ?_, ih (and_pred_subset mask curr)⟩
    have hle := ((mem_submasksFrom (and_pred_subset mask curr)).mp hmem).2
    exact Nat.not_le_of_lt (toNat_and_pred_lt mask h) hle

end HereEmu.Lib
