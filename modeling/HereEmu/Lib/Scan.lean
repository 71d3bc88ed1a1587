import Mathlib.Data.List.Basic

/-!
# A loop over a sorted list

A loop that looks at the elements of a list in turn and passes over one, gives
up, or returns it. Over a list in the order of a relation it returns the first
of the elements it would return in that order (`scan_eq_some`), and giving up
misses none of them as long as none comes after one it gives up at
(`scan_eq_none`).
-/

namespace HereEmu.Lib

/-- What the body of the loop does with an element. -/
inductive Verdict where
  | skip | stop | take
  deriving DecidableEq, Repr

def scan {α : Type} (verdict : α → Verdict) : List α → Option α
  | [] => none
  | a :: l =>
    match verdict a with
    | .skip => scan verdict l
    | .stop => none
    | .take => some a

variable {α : Type} {verdict : α → Verdict} {r : α → α → Prop} {l : List α} {a : α}

theorem scan_eq_some (hsorted : l.Pairwise r) (h : scan verdict l = some a) :
    a ∈ l ∧ verdict a = .take ∧ ∀ b ∈ l, verdict b = .take → b = a ∨ r a b := by
  induction l with
  | nil => cases h
  | cons c l ih =>
    rw [List.pairwise_cons] at hsorted
    rw [scan] at h
    split at h
    · next hskip =>
        obtain ⟨hmem, htake, hfirst⟩ := ih hsorted.2 h
        refine ⟨List.mem_cons_of_mem _ hmem, htake, fun b hb hb' => ?_⟩
        rcases List.mem_cons.1 hb with rfl | hb
        · rw [hskip] at hb'
          cases hb'
        · exact hfirst b hb hb'
    · cases h
    · next htake =>
        cases h
        refine ⟨List.mem_cons_self, htake, fun b hb _ => ?_⟩
        rcases List.mem_cons.1 hb with rfl | hb
        · exact .inl rfl
        · exact .inr (hsorted.1 b hb)

theorem scan_eq_none (hsorted : l.Pairwise r)
    (hstop : ∀ a b, r a b → verdict a = .stop → verdict b ≠ .take) (h : scan verdict l = none) :
    ∀ b ∈ l, verdict b ≠ .take := by
  induction l with
  | nil => exact fun _ hb => absurd hb List.not_mem_nil
  | cons c l ih =>
    rw [List.pairwise_cons] at hsorted
    rw [scan] at h
    refine List.forall_mem_cons.2 ?_
    split at h
    · next hskip => exact ⟨by rw [hskip]; exact fun h => (by cases h), ih hsorted.2 h⟩
    · next hgive =>
        refine ⟨by rw [hgive]; exact fun h => (by cases h), fun b hb => ?_⟩
        exact hstop c b (hsorted.1 b hb) hgive
    · cases h

end HereEmu.Lib
