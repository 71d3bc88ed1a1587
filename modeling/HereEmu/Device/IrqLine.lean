import HereEmu.Trap.Types
import Mathlib.Data.List.Basic

/-!
# Interrupt lines

A device drives the hart through lines that the board gives it. All of them end
in `handle_irq` of the one hart, so a line is the interrupt it stands for. What
a device does with its lines is recorded as the calls it makes, under the number
the line was given under.
-/

namespace HereEmu

structure IRQLine where
  interruptNr : Interrupt
  deriving DecidableEq, Repr

/-- A call of `handle_irq` through line `id`. -/
structure IrqCall where
  id : Nat
  interrupt : Interrupt
  level : Bool
  deriving DecidableEq, Repr

def IRQLine.setIrq (line : IRQLine) (id : Nat) (level : Bool) : IrqCall :=
  ⟨id, line.interruptNr, level⟩

/-- The level that was sent last through a line. -/
def lastLevel (id : Nat) : List IrqCall → Option Bool
  | [] => none
  | call :: calls => (lastLevel id calls).or (if call.id = id then some call.level else none)

theorem lastLevel_append (id : Nat) (calls calls' : List IrqCall) :
    lastLevel id (calls ++ calls') = (lastLevel id calls').or (lastLevel id calls) := by
  induction calls with
  | nil => simp [lastLevel]
  | cons call calls ih => rw [List.cons_append, lastLevel, ih, lastLevel, Option.or_assoc]

end HereEmu
