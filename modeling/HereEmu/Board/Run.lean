import HereEmu.Batch
import HereEmu.Clock

/-!
# Running the board

The board runs its CPU in batches. Before a batch the timer ticks and the PLIC
brings the lines of the CPU up to date; after it the cycles are added up, and
the board halts if the power has been turned off meanwhile.
-/

namespace HereEmu

inductive BoardStatus where
  | running
  | halt
  deriving DecidableEq, Repr

/-- What the board asks of its devices, in a process whose other parts are `ω`. -/
structure BoardDevices (P : Platform) (ω : Type) where
  /-- `Timer::tick`, at the time of the clock. -/
  tick : WordType → ω × RVCPU P → Rust (ω × RVCPU P)
  updateContextIrqLines : List Nat → ω × RVCPU P → Rust (ω × RVCPU P)
  /-- `POWER_STATUS`, which the power manager and other threads store to. -/
  powerStatus : ω × RVCPU P → BitVec 16
  powerOff : ω × RVCPU P → Rust (ω × RVCPU P)

/-- The part of `VirtBoard` that changes as it runs. -/
structure BoardState (P : Platform) (ω : Type) where
  machine : ω × RVCPU P
  cycles : WordType
  status : BoardStatus

def STEP_BATCH_CYCLES : Nat := 1024

def POWER_OFF_CODE : BitVec 16 := 0x5555

namespace BoardState

variable {P : Platform} {ω η κ : Type} (D : BoardDevices P ω)

def prepareCpuBatch (b : BoardState P ω) : Rust (BoardState P ω) := do
  let machine ← D.tick (VirtualClock.now b.cycles) b.machine
  -- Its contexts are those of the machine and the supervisor mode.
  let machine ← D.updateContextIrqLines [0, 1] machine
  return { b with machine }

def finishCpuBatch (cycles : Nat) (b : BoardState P ω) : Rust (BoardState P ω) := do
  let b := { b with cycles := b.cycles + BitVec.ofNat 64 cycles }
  if D.powerStatus b.machine = POWER_OFF_CODE then
    return { b with machine := ← D.powerOff b.machine, status := .halt }
  else return b

end BoardState

end HereEmu
