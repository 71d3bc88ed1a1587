import Mathlib.Data.List.Basic

/-!
# Binary search

The search of a sorted list by a three-way comparison, as the Rust library has
it. An interval that holds the last element not above the target is cut in half
until one element is left, and only that element is asked whether it is equal.

The answer is a place, or the place at which an element could be inserted. Who
wants the last element not above the target takes the one before the insertion
point (`predecessor`). That is the one a search from the end of the list would
find first (`find?_reverse_of_binarySearchBy`).
-/

namespace HereEmu.Lib

open List

variable {α : Type}

/-- The halving of `[base, base + size)`, for at most `fuel` rounds. -/
def narrow (cmp : Nat → Ordering) : (fuel size base : Nat) → Nat
  | 0, _, base => base
  | fuel + 1, size, base =>
    if 1 < size then
      let half := size / 2
      let mid := base + half
      narrow cmp fuel (size - half) (if cmp mid = .gt then base else mid)
    else base

/-- `slice::binary_search_by`. -/
def binarySearchBy (f : α → Ordering) : List α → Except Nat Nat
  | [] => .error 0
  | x :: l =>
    let cmp := fun i => f ((x :: l).getD i x)
    let base := narrow cmp (l.length + 1) (l.length + 1) 0
    match cmp base with
    | .eq => .ok base
    | .lt => .error (base + 1)
    | .gt => .error base

/-- The place of the last element not above the target. -/
def predecessor : Except Nat Nat → Option Nat
  | .ok i => some i
  | .error 0 => none
  | .error (i + 1) => some i

theorem predecessor_eq_none {r : Except Nat Nat} : predecessor r = none ↔ r = .error 0 := by
  constructor
  · intro h
    match r with
    | .error 0 => rfl
  · rintro rfl
    rfl

theorem predecessor_eq_some {r : Except Nat Nat} {i : Nat} :
    predecessor r = some i ↔ r = .ok i ∨ r = .error (i + 1) := by
  constructor
  · intro h
    match r with
    | .ok j => cases h; exact .inl rfl
    | .error (j + 1) => cases h; exact .inr rfl
  · rintro (rfl | rfl) <;> rfl

/-- What the halving keeps true: nothing from the end of the interval on is at
or below the target, and what was left behind is no answer. -/
structure Narrowed (cmp : Nat → Ordering) (n size base : Nat) : Prop where
  pos : 0 < size
  le : base + size ≤ n
  above : ∀ j, base + size ≤ j → j < n → cmp j = .gt
  base_le : base = 0 ∨ cmp base ≠ .gt

section Narrow

variable {cmp : Nat → Ordering} {n size base : Nat}

theorem Narrowed.step (hmono : ∀ i j, i ≤ j → j < n → cmp i = .gt → cmp j = .gt)
    (h : Narrowed cmp n size base) (hsize : 1 < size) :
    Narrowed cmp n (size - size / 2)
      (if cmp (base + size / 2) = .gt then base else base + size / 2) := by
  have hle := h.le
  split
  · next hgt =>
      refine ⟨by omega, by omega, fun j hj hn => ?_, h.base_le⟩
      exact hmono _ j (by omega) hn hgt
  · next hgt =>
      refine ⟨by omega, by omega, fun j hj hn => ?_, .inr hgt⟩
      exact h.above j (by omega) hn

theorem Narrowed.narrow (hmono : ∀ i j, i ≤ j → j < n → cmp i = .gt → cmp j = .gt) {fuel : Nat}
    (hfuel : size ≤ fuel) (h : Narrowed cmp n size base) :
    Narrowed cmp n 1 (narrow cmp fuel size base) := by
  induction fuel generalizing size base with
  | zero => exact absurd h.pos (by omega)
  | succ fuel ih =>
    rw [Lib.narrow]
    split
    · next hsize => exact ih (by omega) (h.step hmono hsize)
    · next hsize =>
        have hone : size = 1 := by have := h.pos; omega
        exact hone ▸ h

end Narrow

variable {f : α → Ordering} {xs : List α}

/-- The last place not above the target is found, and when there is none nothing
in the list is at or below it. -/
theorem binarySearchBy_cases (hsorted : xs.Pairwise fun a b => f a = .gt → f b = .gt) :
    (predecessor (binarySearchBy f xs) = none ∧ ∀ a ∈ xs, f a = .gt) ∨
    ∃ i, ∃ h : i < xs.length, predecessor (binarySearchBy f xs) = some i ∧ f xs[i] ≠ .gt ∧
      ∀ j, (hj : j < xs.length) → i < j → f xs[j] = .gt := by
  match xs with
  | [] => exact .inl ⟨rfl, fun a ha => absurd ha not_mem_nil⟩
  | x :: l =>
    have hget : ∀ i (hi : i < (x :: l).length), (x :: l).getD i x = (x :: l)[i] := by
      intro i hi
      rw [getD_eq_getElem?_getD, getElem?_eq_getElem hi]
      rfl
    have hmono : ∀ i j, i ≤ j → j < (x :: l).length →
        f ((x :: l).getD i x) = .gt → f ((x :: l).getD j x) = .gt := by
      intro i j hij hj
      rw [hget i (by omega), hget j hj]
      rcases Nat.lt_or_eq_of_le hij with hlt | rfl
      · exact pairwise_iff_getElem.1 hsorted i j (by omega) hj hlt
      · exact id
    have hstart : Narrowed (fun i => f ((x :: l).getD i x)) (x :: l).length (l.length + 1) 0 :=
      ⟨by omega, by simp, fun j hj hn => absurd hn (by simp at *; omega), .inl rfl⟩
    have hend := hstart.narrow hmono (Nat.le_refl _)
    rw [binarySearchBy]
    -- the one element left decides, whatever the halving did on the way
    generalize narrow (fun i => f ((x :: l).getD i x)) (l.length + 1) (l.length + 1) 0 = base
      at hend ⊢
    have hlt : base < (x :: l).length := by have := hend.le; omega
    have habove : ∀ j, (hj : j < (x :: l).length) → base < j → f (x :: l)[j] = .gt := by
      intro j hj hbase
      rw [← hget j hj]
      exact hend.above j (by omega) hj
    simp only [hget base hlt]
    cases hcmp : f (x :: l)[base] with
    | eq | lt => exact .inr ⟨base, hlt, rfl, by rw [hcmp]; decide, habove⟩
    | gt =>
      -- only the first place can be above the target, and then all of them are
      have hzero : base = 0 := hend.base_le.resolve_right (by rw [hget base hlt, hcmp]; simp)
      subst hzero
      refine .inl ⟨rfl, fun a ha => ?_⟩
      obtain ⟨j, hj, rfl⟩ := mem_iff_getElem.1 ha
      rcases Nat.eq_zero_or_pos j with rfl | hpos
      · exact hcmp
      · exact habove j hj hpos

/-- The last place that satisfies a test is where a search from the end stops. -/
theorem find?_reverse_eq_getElem {p : α → Bool} {i : Nat} (hi : i < xs.length) (hp : p xs[i])
    (hlast : ∀ j, (hj : j < xs.length) → i < j → p xs[j] = false) :
    xs.reverse.find? p = some xs[i] := by
  rw [find?_eq_some_iff_getElem]
  refine ⟨hp, xs.length - 1 - i, by rw [length_reverse]; omega, ?_, fun j hj => ?_⟩
  · rw [getElem_reverse]
    congr 1
    omega
  · rw [getElem_reverse, hlast _ _ (by omega)]
    rfl

/-- In a sorted list the search from the end stops at the greatest of those that
satisfy the test. -/
theorem of_find?_reverse_eq_some {p : α → Bool} {r : α → α → Prop} {a b : α}
    (hsorted : xs.Pairwise r) (h : xs.reverse.find? p = some a) (hb : b ∈ xs) (hp : p b) :
    b = a ∨ r b a := by
  obtain ⟨-, before, after, hsplit, hbefore⟩ := find?_eq_some_iff_append.1 h
  have hpair : (before ++ a :: after).Pairwise fun x y => r y x := by
    rw [← hsplit]
    exact pairwise_reverse.2 hsorted
  have hmem : b ∈ before ++ a :: after := by
    rw [← hsplit]
    exact mem_reverse.2 hb
  rcases mem_append.1 hmem with hin | hin
  · have := hbefore b hin
    rw [hp] at this
    cases this
  · rcases mem_cons.1 hin with rfl | hin
    · exact .inl rfl
    · exact .inr (rel_of_pairwise_cons (pairwise_append.1 hpair).2.1 hin)

/-- A search from the end of the list stops at the predecessor. -/
theorem find?_reverse_of_binarySearchBy
    (hsorted : xs.Pairwise fun a b => f a = .gt → f b = .gt) :
    (predecessor (binarySearchBy f xs) = none ∧ (xs.reverse.find? fun a => f a != .gt) = none) ∨
    ∃ i, ∃ h : i < xs.length, predecessor (binarySearchBy f xs) = some i ∧
      (xs.reverse.find? fun a => f a != .gt) = some xs[i] := by
  rcases binarySearchBy_cases hsorted with ⟨hnone, hall⟩ | ⟨i, hi, hsome, hle, hlast⟩
  · refine .inl ⟨hnone, find?_eq_none.2 fun a ha => ?_⟩
    rw [hall a (mem_reverse.1 ha)]
    decide
  · have hbase : (f xs[i] != .gt) := bne_iff_ne.2 hle
    refine .inr ⟨i, hi, hsome, find?_reverse_eq_getElem hi hbase fun j hj hij => ?_⟩
    rw [hlast j hj hij]
    rfl

end HereEmu.Lib
