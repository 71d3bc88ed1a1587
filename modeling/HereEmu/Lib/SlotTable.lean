import Mathlib.Logic.Function.Basic

/-!
# Tables with one slot per index

A table that keeps at most one tagged value per index, where an index
function sends many keys to the same slot. Storing under a key evicts whatever
the slot held, and a lookup answers only when the tag is the key itself, so
what a lookup can return after a store is either the value stored or something
the table already returned before it.

`Sound P t` says that everything a lookup can return satisfies `P`. That is
the shape of every fact worth having about a cache, and `Sound.set` is how a
store keeps such a fact.
-/

namespace HereEmu.Lib

/-- One tagged, possibly empty, slot per index. -/
structure SlotTable (κ ι α : Type) where
  slots : ι → κ × Option α

namespace SlotTable

variable {κ ι α : Type} [DecidableEq κ]

/-- Every slot holds the same tag and the same data. -/
def fill (tag : κ) (data : Option α) : SlotTable κ ι α := ⟨fun _ => (tag, data)⟩

def lookup (idx : κ → ι) (t : SlotTable κ ι α) (k : κ) : Option α :=
  if (t.slots (idx k)).1 = k then (t.slots (idx k)).2 else none

/-- The slot of `k` holds `tag` and `data`, whatever it held. -/
def set [DecidableEq ι] (idx : κ → ι) (t : SlotTable κ ι α) (k tag : κ)
    (data : Option α) : SlotTable κ ι α :=
  ⟨Function.update t.slots (idx k) (tag, data)⟩

/-- Every value a lookup can return satisfies `P` at its key. -/
def Sound (idx : κ → ι) (P : κ → α → Prop) (t : SlotTable κ ι α) : Prop :=
  ∀ k v, lookup idx t k = some v → P k v

variable {idx : κ → ι} {t : SlotTable κ ι α} {P : κ → α → Prop} {k k' tag : κ} {v : α}

@[simp] theorem lookup_fill (d : Option α) :
    lookup idx (fill tag d : SlotTable κ ι α) k = if tag = k then d else none := rfl

variable [DecidableEq ι]

/-- A store answers for its own key, empties the other keys of its slot, and
leaves the rest alone. -/
theorem lookup_set :
    lookup idx (set idx t k k (some v)) k' =
      if k' = k then some v else if idx k' = idx k then none else lookup idx t k' := by
  unfold lookup set
  by_cases hi : idx k' = idx k
  · simp only [hi, Function.update_self]
    by_cases hk : k' = k
    · simp [hk]
    · rw [if_neg (Ne.symm hk), if_neg hk, if_pos trivial]
  · have hk : k' ≠ k := fun h => hi (by rw [h])
    simp only [Function.update_of_ne hi, if_neg hk, if_neg hi]

/-- Whatever is found under another key after a store was there before it. -/
theorem lookup_of_lookup_set {x : α} (hne : k' ≠ k)
    (h : lookup idx (set idx t k k (some v)) k' = some x) : lookup idx t k' = some x := by
  rw [lookup_set, if_neg hne] at h
  split at h
  · cases h
  · exact h

theorem Sound.set (h : Sound idx P t) (hv : P k v) : Sound idx P (set idx t k k (some v)) := by
  intro k' x hx
  by_cases hk : k' = k
  · subst hk
    rw [lookup_set, if_pos rfl] at hx
    cases hx
    exact hv
  · exact h k' x (lookup_of_lookup_set hk hx)

end SlotTable

end HereEmu.Lib
