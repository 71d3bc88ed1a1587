import HereEmu.Executor

/-!
# Batches of cycles

The CPU runs in batches. A batch asks for an interrupt once, at its start, and
a hook may look on before and after each cycle and end the batch.
-/

namespace HereEmu

/-- `ExecutionHook`, with its own state `η` and what it carries through a cycle. -/
structure ExecutionHook (P : Platform) (η κ : Type) where
  beforeStep : η → RVCPU P → Rust (κ × η × RVCPU P)
  onInterruptTaken : η → WordType → Rust (κ × η)
  afterStep : η → κ → RVCPU P → Rust (Bool × η × RVCPU P)

structure BatchResult where
  cycles : Nat
  hookStopped : Bool
  deriving DecidableEq, Repr

namespace RVCPU

variable {P : Platform} {η κ : Type}

/-- The loop of `step_batch_with_hook`, after `executed` cycles. -/
def batchLoop (hook : ExecutionHook P η κ) (executed : Nat) :
    Nat → η → RVCPU P → Rust (BatchResult × η × RVCPU P)
  | 0, h, cpu => .ok (⟨executed, false⟩, h, cpu)
  | left + 1, h, cpu => do
    let (context, h, cpu) ← hook.beforeStep h cpu
    let cpu ← cpu.stepOnce
    let (stop, h, cpu) ← hook.afterStep h context cpu
    if stop then return (⟨executed + 1, true⟩, h, cpu)
    else batchLoop hook (executed + 1) left h cpu

def stepBatchNoInterrupt (cpu : RVCPU P) : Nat → Rust (RVCPU P)
  | 0 => .ok cpu
  | cycles + 1 => do (← cpu.stepOnce).stepBatchNoInterrupt cycles

end RVCPU

end HereEmu
