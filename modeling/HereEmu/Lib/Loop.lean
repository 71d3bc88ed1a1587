import Mathlib.Data.Finset.Card
import Mathlib.Tactic.Common

/-!
# Loops that may come back to where they were

A loop is a partial function `next`: it moves on or ends. Between two *entries*
a rank goes down, and an entry (a state `enter` gives a key to) may raise it
again up to a limit. What such a loop does after an entry depends on the key
alone, so the loop ends if and only if it never enters with the same key
twice, and when it ends the number of its turns is bounded by the number of
keys and the limit.

Nothing here says what the states are.
-/

namespace HereEmu.Lib

section Loop

variable {σ κ : Type} (next : σ → Option σ) (enter : σ → Option κ)

/-- The state after `n` turns, unless the loop has ended before. -/
def turns : Nat → σ → Option σ
  | 0, s => some s
  | n + 1, s => (next s).bind (turns n)

/-- The loop enters with one key at two of its turns. -/
def Reenters (s : σ) : Prop :=
  ∃ i j t u k, i < j ∧ turns next i s = some t ∧ turns next j s = some u ∧
    enter t = some k ∧ enter u = some k

variable {next enter} {s : σ}

theorem turns_add (m n : Nat) : turns next (m + n) s = (turns next m s).bind (turns next n) := by
  induction m generalizing s with
  | zero => simp [turns]
  | succ m ih =>
    rw [Nat.succ_add]
    cases h : next s with
    | none => simp [turns, h]
    | some t => simp [turns, h, ih]

theorem turns_succ (n : Nat) : turns next (n + 1) s = (turns next n s).bind next := by
  rw [turns_add]
  congr 1
  funext t
  cases h : next t <;> simp [turns, h]

/-- What has been reached was reached through every earlier turn. -/
theorem turns_of_le {m n : Nat} {t : σ} (h : m ≤ n) (ht : turns next n s = some t) :
    ∃ u, turns next m s = some u := by
  obtain ⟨d, rfl⟩ := Nat.exists_eq_add_of_le h
  rw [turns_add] at ht
  cases hm : turns next m s with
  | none => rw [hm] at ht; cases ht
  | some u => exact ⟨u, rfl⟩

theorem turns_eq_none_of_le {m n : Nat} (h : m ≤ n) (hm : turns next m s = none) :
    turns next n s = none := by
  obtain ⟨d, rfl⟩ := Nat.exists_eq_add_of_le h
  rw [turns_add, hm, Option.bind_none]

/-- Only the states a loop goes through matter. -/
theorem turns_congr {next' : σ → Option σ}
    (h : ∀ n t, turns next n s = some t → next' t = next t) (n : Nat) :
    turns next' n s = turns next n s := by
  induction n generalizing s with
  | zero => rfl
  | succ n ih =>
    rw [turns, turns, h 0 s rfl]
    cases hs : next s with
    | none => rfl
    | some t => exact ih fun m u hu => h (m + 1) u (by rw [turns, hs]; exact hu)

/-- A loop that is back in a state it has been in never ends. -/
theorem turns_ne_none_of_cycle {p : Nat} (hp : 0 < p) (hback : turns next p s = some s) (n : Nat) :
    turns next n s ≠ none := by
  have hround : ∀ m, turns next (m * p) s = some s := by
    intro m
    induction m with
    | zero => simp [turns]
    | succ m ih => rw [Nat.succ_mul, turns_add, ih, Option.bind_some, hback]
  obtain ⟨u, hu⟩ := turns_of_le (Nat.le_mul_of_pos_right n hp) (hround n)
  rw [hu]
  exact Option.some_ne_none u

/-- Entering with one key twice is going round a cycle. -/
theorem Reenters.turns_ne_none
    (hdet : ∀ t u k, enter t = some k → enter u = some k → next t = next u)
    (h : Reenters next enter s) (n : Nat) : turns next n s ≠ none := by
  obtain ⟨i, j, t, u, k, hij, ht, hu, hkt, hku⟩ := h
  -- the state after the first entry exists, because the second comes later
  obtain ⟨v, hv⟩ := turns_of_le (Nat.succ_le_of_lt hij) hu
  have hnext : next t = some v := by
    rw [Nat.succ_eq_add_one, turns_succ, ht] at hv
    exact hv
  have hv' : turns next (j + 1) s = some v := by
    rw [turns_succ, hu, Option.bind_some, ← hdet t u k hkt hku, hnext]
  have hcycle : turns next (j - i) v = some v := by
    have hsplit : j + 1 = i.succ + (j - i) := by omega
    rw [hsplit, turns_add, hv] at hv'
    exact hv'
  rcases Nat.lt_or_ge n i.succ with hn | hn
  · obtain ⟨w, hw⟩ := turns_of_le hn.le hv
    rw [hw]
    exact Option.some_ne_none w
  · obtain ⟨d, rfl⟩ := Nat.exists_eq_add_of_le hn
    rw [turns_add, hv]
    exact turns_ne_none_of_cycle (by omega) hcycle d

/-- The rank goes down between entries, and an entry leaves it at most at `limit`. -/
structure RankedBy (next : σ → Option σ) (enter : σ → Option κ) (rank : σ → Nat)
    (keys : Finset κ) (limit : Nat) : Prop where
  lower : ∀ s t, enter s = none → next s = some t → rank t < rank s
  entry : ∀ s t k, enter s = some k → next s = some t → rank t ≤ limit
  key : ∀ s k, enter s = some k → k ∈ keys

variable [DecidableEq κ] {rank : σ → Nat} {keys : Finset κ} {limit : Nat}

/-- Without a second entry the keys left over pay for the turns to come. -/
theorem RankedBy.ends (hr : RankedBy next enter rank keys limit) (fresh : Finset κ)
    (hfresh : ∀ n t k, turns next n s = some t → enter t = some k → k ∈ fresh)
    (h : ¬ Reenters next enter s) :
    turns next (fresh.card * (limit + 1) + rank s + 1) s = none := by
  -- by induction on the bound, which every turn makes smaller
  generalize hb : fresh.card * (limit + 1) + rank s = bound
  induction bound using Nat.strong_induction_on generalizing s fresh with
  | _ bound ih =>
    cases hs : next s with
    | none => simp [turns, hs]
    | some t =>
      have hlater : ∀ n, turns next (n + 1) s = turns next n t := fun n => by
        simp [turns, hs]
      have ht : ¬ Reenters next enter t := by
        rintro ⟨i, j, u, v, k, hij, hu, hv, hk⟩
        exact h ⟨i + 1, j + 1, u, v, k, by omega, by rw [hlater, hu], by rw [hlater, hv], hk⟩
      have hless : ∀ fresh' : Finset κ,
          (∀ n u k, turns next n t = some u → enter u = some k → k ∈ fresh') →
          fresh'.card * (limit + 1) + rank t < bound → turns next (bound + 1) s = none := by
        intro fresh' hkeys hlt
        have hend := ih _ hlt fresh' hkeys ht rfl
        rw [hlater]
        exact turns_eq_none_of_le hlt hend
      cases he : enter s with
      | none =>
        refine hless fresh (fun n u k hu => hfresh (n + 1) u k (by rw [hlater, hu])) ?_
        have := hr.lower s t he hs
        omega
      | some k =>
        have hk : k ∈ fresh := hfresh 0 s k rfl he
        refine hless (fresh.erase k) (fun n u k' hu hk' => ?_) ?_
        · refine Finset.mem_erase.2 ⟨?_, hfresh (n + 1) u k' (by rw [hlater, hu]) hk'⟩
          rintro rfl
          exact h ⟨0, n + 1, s, u, k', by omega, rfl, by rw [hlater, hu], he, hk'⟩
        · have hrank := hr.entry s t k he hs
          have hcard := Finset.card_erase_add_one hk
          rw [← hb, ← hcard, Nat.succ_mul]
          omega

end Loop

end HereEmu.Lib
