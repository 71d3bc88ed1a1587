import Mathlib.Tactic.Common

/-!
# Sticky flags

A register of flags that accrue: an operation raises flags, which are added to
those already there, and only a write can clear one. What the register holds
after a sequence of both is `accrue`.

A flag that is set stays set unless a write clears it (`getLsbD_accrue_of_set`),
and a flag that is set at the end was there at the start or has been raised or
written since (`of_getLsbD_accrue`).
-/

namespace HereEmu.Lib

inductive FlagEvent (n : Nat) where
  | raise (flags : BitVec n)
  | write (flags : BitVec n)
  deriving DecidableEq, Repr

namespace FlagEvent

variable {n i : Nat} {v : BitVec n} {es : List (FlagEvent n)}

def apply (v : BitVec n) : FlagEvent n → BitVec n
  | raise raised => v ||| raised
  | write value => value

/-- The flags of the event. -/
def flags : FlagEvent n → BitVec n
  | raise flags | write flags => flags

/-- The event leaves a flag that is set. -/
def Keeps (i : Nat) : FlagEvent n → Prop
  | raise _ => True
  | write value => value.getLsbD i

def accrue (v : BitVec n) (es : List (FlagEvent n)) : BitVec n := es.foldl apply v

theorem accrue_snoc (v : BitVec n) (es : List (FlagEvent n)) (e : FlagEvent n) :
    accrue v (es ++ [e]) = e.apply (accrue v es) := by
  simp [accrue]

theorem getLsbD_accrue_of_set (h : v.getLsbD i) (hkeeps : ∀ e ∈ es, e.Keeps i) :
    (accrue v es).getLsbD i := by
  induction es generalizing v with
  | nil => exact h
  | cons e es ih =>
    obtain ⟨he, hes⟩ := List.forall_mem_cons.mp hkeeps
    refine ih ?_ hes
    cases e with
    | raise raised => simp [apply, h]
    | write value => exact he

theorem of_getLsbD_accrue (h : (accrue v es).getLsbD i) :
    v.getLsbD i ∨ ∃ e ∈ es, e.flags.getLsbD i := by
  induction es generalizing v with
  | nil => exact .inl h
  | cons e es ih =>
    rcases ih h with hfirst | ⟨e', hmem, he'⟩
    · cases e with
      | raise raised =>
        simp only [apply, BitVec.getLsbD_or, Bool.or_eq_true] at hfirst
        rcases hfirst with hold | hraised
        · exact .inl hold
        · exact .inr ⟨_, List.mem_cons_self, hraised⟩
      | write value => exact .inr ⟨_, List.mem_cons_self, hfirst⟩
    · exact .inr ⟨e', List.mem_cons_of_mem _ hmem, he'⟩

end FlagEvent

end HereEmu.Lib
