import HereEmu.Proofs.MemEffect
import Mathlib.Logic.Relation

/-!
# RAM after an access that failed

An access that fails can still have been translated, and a translation sets A
and D where the policy says so. `AdWrites` is the relation between two
memories that only translations lie between: each of them looked a leaf up, in
the TLB or in the tables, and at most set those two bits in its entry. The
accesses are followed up to the point where they fail; what a device does with
an access is its own business, as long as a write it refuses leaves RAM alone.
-/

namespace HereEmu

open Lib (Exec)
open Lib.Exec (Spec)
open PageTableWalker VirtAddrManager

/-! ## The relation -/

/-- A translation got to a leaf, and may have set A and D in its entry. The
reservation is not part of what RAM holds. -/
inductive AdStep : PageTableWalker × Ram → PageTableWalker × Ram → Prop where
  | reservation {w : PageTableWalker} {ram ram' : Ram} (h : ram'.data = ram.data) :
    AdStep (w, ram) (w, ram')
  | lookup {w w' : PageTableWalker} {ram : Ram} {va : WordType} {info : WalkInfo}
    (h : w.lookupLeaf ram va = .ok (.ok info, w')) : AdStep (w, ram) (w', ram)
  | set {w w' : PageTableWalker} {ram ram' : Ram} {va : WordType} {info : WalkInfo} {na nd : Bool}
    (h : w.lookupLeaf ram va = .ok (.ok info, w')) (hp : w.adUpdatePolicy = .autoSet)
    (hset : updatePte ram info.leafPteAddr (setNeeded na nd) = .ok ram') :
    AdStep (w, ram) (w', ram')

/-- Only translations lie between the two memories. -/
def AdWrites {B : DeviceBus} (m m' : VirtAddrManager B) : Prop :=
  Relation.ReflTransGen AdStep (m.pageTable, m.mmio.ram) (m'.pageTable, m'.mmio.ram)

section Relation

variable {B : DeviceBus} {m m₁ m₂ : VirtAddrManager B} {x y : PageTableWalker × Ram}

theorem AdWrites.refl (m : VirtAddrManager B) : AdWrites m m := Relation.ReflTransGen.refl

theorem AdWrites.trans (h : AdWrites m m₁) (h' : AdWrites m₁ m₂) : AdWrites m m₂ :=
  Relation.ReflTransGen.trans h h'

theorem AdWrites.of_data (hpt : m₁.pageTable = m.pageTable)
    (hdata : m₁.mmio.ram.data = m.mmio.ram.data) : AdWrites m m₁ := by
  refine .single ?_
  rw [hpt]
  exact .reservation hdata

/-- Setting A and D in an entry changes those two bits of RAM at most. -/
theorem storeLE_setNeeded {d : Nat → BitVec 8} {off : Nat} {na nd : Bool} (j : Nat) :
    Lib.storeLE d off 8 (setNeeded na nd ⟨Lib.loadLE d off 8⟩).bits j ||| 0xc0 = d j ||| 0xc0 := by
  by_cases hj : off ≤ j ∧ j < off + 8
  · rw [Lib.storeLE_inside hj.1 hj.2]
    refine BitVec.eq_of_getLsbD_eq fun i hi => ?_
    have hdiv : off + (8 * (j - off) + i) / 8 = j := by omega
    have hmod : (8 * (j - off) + i) % 8 = i := by omega
    have hwidth : 8 * (j - off) + i < 64 ∧ 8 * (j - off) + i < 8 * 8 := by omega
    have hbits : ∀ i < 8, (0xc0 : BitVec 8).getLsbD i = (decide (i = 6) || decide (i = 7)) := by
      decide
    simp only [BitVec.getLsbD_or, BitVec.getLsbD_setWidth, BitVec.getLsbD_ushiftRight,
      setNeeded_getLsbD, Lib.getLsbD_loadLE, hdiv, hmod, hwidth, hbits i hi, hi, decide_true,
      Bool.true_and]
    by_cases h6 : i = 6
    · simp [h6]
    · by_cases h7 : i = 7
      · simp [h7]
      · have hA : 8 * (j - off) + i ≠ 6 := by omega
        have hD : 8 * (j - off) + i ≠ 7 := by omega
        simp [h6, h7, hA, hD]
  · rw [Lib.storeLE_outside hj]

theorem updatePte_bytes {ram ram' : Ram} {a : WordType} {na nd : Bool}
    (h : updatePte ram a (setNeeded na nd) = .ok ram') (j : Nat) :
    ram'.data j ||| 0xc0 = ram.data j ||| 0xc0 := by
  obtain ⟨off, rfl⟩ := updatePte_eq_ok h
  exact storeLE_setNeeded j

/-- What no translation changes is the same after any number of them. -/
theorem AdWrites.same {β : Type} {f : PageTableWalker × Ram → β}
    (hstep : ∀ x y, AdStep x y → f y = f x) (h : AdWrites m m₁) :
    f (m₁.pageTable, m₁.mmio.ram) = f (m.pageTable, m.mmio.ram) := by
  unfold AdWrites at h
  generalize (m₁.pageTable, m₁.mmio.ram) = y at h ⊢
  induction h with
  | refl => rfl
  | tail _ hlast ih => exact (hstep _ _ hlast).trans ih

/-- Nothing else of RAM changed. -/
theorem AdWrites.bytes (h : AdWrites m m₁) (j : Nat) :
    m₁.mmio.ram.data j ||| 0xc0 = m.mmio.ram.data j ||| 0xc0 := by
  refine h.same (f := fun x => x.2.data j ||| 0xc0) fun x y hxy => ?_
  cases hxy with
  | reservation hdata => exact congrArg (· j ||| 0xc0) hdata
  | lookup _ => rfl
  | set _ _ hset => exact updatePte_bytes hset j

end Relation

/-! ## Translations and reads -/

section Reads

variable {B : DeviceBus} {m : VirtAddrManager B}

/-- What holds of a computation that returned. -/
abbrev Returns {ε σ α : Type} (c : Exec PanicSite ε σ α) (s : σ) (Q : Except ε α → σ → Prop) : Prop :=
  Spec (fun _ => True) c s Q

theorem translateVaddr_adStep {w w' : PageTableWalker} {ram ram' : Ram} {va : WordType}
    {check : PermissionCheck} {effect : AccessEffect} {r : Except PageTableError WordType}
    (h : w.translateVaddr ram va check effect = .ok (r, w', ram')) :
    Relation.ReflTransGen AdStep (w, ram) (w', ram') := by
  rcases translateVaddr_cases h with ⟨rfl, rfl, -⟩ | ⟨-, -, info, w₁, hlook, hleaf⟩
  · exact .refl
  · obtain ⟨rfl, rfl | ⟨hp, na, nd, hset⟩⟩ := translateLeaf_eq_ok hleaf
    · exact .single (.lookup hlook)
    · exact .single (.set hlook ((lookupLeaf_policy hlook).symm.trans hp) hset)

theorem translateWithPolicy_adWrites (va : WordType) (policy : AccessPolicy) :
    Returns (translateWithPolicy va policy) m fun _ m' => AdWrites m m' := by
  cases policy with
  | direct => exact .refl m
  | translated check effect fault =>
    have hvaddr : Returns (VirtAddrManager.translateVaddr va check effect) m
        fun _ m' => AdWrites m m' := by
      show Exec.Outcome _ _ _
      unfold VirtAddrManager.translateVaddr
      rw [Exec.run_ofFun]
      cases ht : m.pageTable.translateVaddr m.mmio.ram va check effect with
      | error p => trivial
      | ok out => exact translateVaddr_adStep ht
    exact hvaddr.mapError (g := fun _ m => (fault, m)) (fun _ _ h => h) fun _ _ h => h

/-- What follows a translation leaves RAM alone. -/
theorem AdWrites.of_leaves {C : Prop} {m' : VirtAddrManager B} (hC : C) :
    (∃ m₁, AdWrites m m₁ ∧ Leaves C m₁ m') → AdWrites m m' :=
  fun ⟨_, h, hpt, hdata⟩ => h.trans (.of_data hpt (hdata hC))

theorem readByPaddr_adWrites (w : Width) (paddr : WordType) :
    Returns (readByPaddr w paddr) m fun _ m' => AdWrites m m' :=
  ((onMmio_spec (readByType_outcome m.mmio w paddr)).weaken fun _ _ => trivial).mono
    fun _ _ h => .of_data h.1 (by rw [h.2.1])

theorem readWithPolicy_adWrites (w : Width) (addr : WordType) (policy : AccessPolicy) :
    Returns (readWithPolicy w addr policy) m fun _ m' => AdWrites m m' :=
  (translateWithPolicy_adWrites addr policy).seq
    (fun paddr _ h => (readByPaddr_adWrites w paddr).mono fun _ _ h' => h.trans h')
    fun _ _ h => h

end Reads

end HereEmu
