import Mathlib.Data.List.Induction
import Mathlib.Logic.Function.Basic

/-!
# Sections laid over a memory

A section is a run of values with the offset it starts at. `overlay` says what
a memory holds once several of them have been laid over it, without saying how
they got there: the last section that reaches an offset decides what is there,
and the old contents show where none does. A loader that writes value by value
and section by section ends with just that.
-/

namespace HereEmu.Lib

open List

variable {α : Type}

/-- A run of values and where it starts. -/
structure Section (α : Type) where
  start : Nat
  data : List α

namespace Section

variable {s : Section α} {m : Nat → α} {a : Nat}

/-- What the section has at an offset. -/
def get (s : Section α) (a : Nat) : Option α := if s.start ≤ a then s.data[a - s.start]? else none

/-- The last section that reaches the offset decides. -/
def overlay (m : Nat → α) (sections : List (Section α)) (a : Nat) : α :=
  (sections.reverse.findSome? (·.get a)).getD (m a)

/-- The loop that stores a run of values from an offset on. -/
def write (m : Nat → α) (start : Nat) (data : List α) : Nat → α :=
  data.zipIdx.foldl (fun m e => Function.update m (start + e.2) e.1) m

theorem overlay_append (m : Nat → α) (first second : List (Section α)) :
    overlay m (first ++ second) = overlay (overlay m first) second := by
  funext a
  unfold overlay
  rw [reverse_append, findSome?_append]
  cases second.reverse.findSome? (·.get a) <;> rfl

theorem overlay_singleton : overlay m [s] a = (s.get a).getD (m a) := by
  unfold overlay
  rw [reverse_singleton, findSome?_singleton]

/-- One value more at the end of the run. -/
theorem write_concat (m : Nat → α) (start : Nat) (data : List α) (v : α) :
    write m start (data ++ [v]) = Function.update (write m start data) (start + data.length) v := by
  unfold write
  rw [zipIdx_append, foldl_append, Nat.zero_add]
  rfl

theorem get_concat (start : Nat) (data : List α) (v : α) : get ⟨start, data ++ [v]⟩ a =
    if a = start + data.length then some v else get ⟨start, data⟩ a := by
  unfold get
  by_cases hle : start ≤ a
  · rw [if_pos hle, if_pos hle]
    rw [getElem?_append, getElem?_singleton]
    split <;> split <;> grind
  · rw [if_neg hle, if_neg hle, if_neg (by omega)]

/-- The values are all over the memory when the loop ends. -/
theorem write_eq (m : Nat → α) (start : Nat) (data : List α) :
    write m start data = overlay m [⟨start, data⟩] := by
  funext a
  rw [overlay_singleton]
  -- the loop goes forward, so the last value is the last one written
  induction data using reverseRecOn with
  | nil => simp [write, get]
  | append_singleton data v ih =>
    rw [write_concat, get_concat, Function.update_apply]
    split
    · rfl
    · exact ih

end Section

end HereEmu.Lib
