import Mathlib.Tactic.Common

/-!
# Words laid out in boxes

An encoding diagram is a row of boxes, each of which holds a range of the bits of
a named field. A field may be cut up, and its pieces may stand in any order. The
word is put together by writing the boxes down (`assemble`); which bit of which
field a position holds depends on the diagram alone (`locate`), so what a reader
of the word does to it is decided without looking at the fields.
-/

namespace HereEmu.Lib

variable {κ : Type} {m : Nat}

/-- The bits `hi` to `lo` of a field. -/
structure Box (κ : Type) where
  name : κ
  hi : Nat
  lo : Nat

def Box.width (b : Box κ) : Nat := b.hi + 1 - b.lo

/-- The width of a row, which is written from its high end. -/
def rowWidth : List (Box κ) → Nat
  | [] => 0
  | b :: bs => b.width + rowWidth bs

def assemble (v : κ → BitVec m) : (bs : List (Box κ)) → BitVec (rowWidth bs)
  | [] => 0#0
  | b :: bs => (v b.name).extractLsb' b.lo b.width ++ assemble v bs

/-- The field and the bit of it that a position holds. -/
def locate : List (Box κ) → Nat → Option (κ × Nat)
  | [], _ => none
  | b :: bs, k =>
    if k < rowWidth bs then locate bs k
    else if k < rowWidth bs + b.width then some (b.name, b.lo + (k - rowWidth bs))
    else none

theorem getLsbD_assemble (v : κ → BitVec m) {bs : List (Box κ)} {k j : Nat} {name : κ}
    (h : locate bs k = some (name, j)) : (assemble v bs).getLsbD k = (v name).getLsbD j := by
  induction bs with
  | nil => cases h
  | cons b bs ih =>
    have hbit : (assemble v (b :: bs)).getLsbD k =
        if k < rowWidth bs then (assemble v bs).getLsbD k
        else ((v b.name).extractLsb' b.lo b.width).getLsbD (k - rowWidth bs) :=
      BitVec.getLsbD_append
    rw [hbit]
    unfold locate at h
    split at h
    · rename_i hlt
      rw [if_pos hlt]
      exact ih h
    · rename_i hge
      rw [if_neg hge]
      split at h
      · rename_i hlt
        cases h
        simp [show k - rowWidth bs < b.width by omega]
      · cases h

end HereEmu.Lib
