import HereEmu.Basic

/-!
# Interrupts, exceptions and their numbers
-/

namespace HereEmu

inductive Interrupt where
  | userSoft | supervisorSoft | machineSoft
  | userTimer | supervisorTimer | machineTimer
  | userExternal | supervisorExternal | machineExternal
  | unknown
  deriving DecidableEq, Repr

inductive Exception where
  | instructionMisaligned | instructionFault | illegalInstruction | breakpoint
  | loadMisaligned | loadFault | storeMisaligned | storeFault
  | userEnvCall | supervisorEnvCall | hypervisionEnvCall | machineEnvCall
  | instructionPageFault | loadPageFault | unknown | storePageFault
  deriving DecidableEq, Repr

inductive Trap where
  | interrupt (i : Interrupt)
  | exception (e : Exception)
  deriving DecidableEq, Repr

namespace Interrupt

/-- `Interrupt::from`. -/
def fromNr : Nat → Interrupt
  | 0 => userSoft
  | 1 => supervisorSoft
  | 3 => machineSoft
  | 4 => userTimer
  | 5 => supervisorTimer
  | 7 => machineTimer
  | 8 => userExternal
  | 9 => supervisorExternal
  | 11 => machineExternal
  | _ => unknown

def intoWord : Interrupt → Rust WordType
  | userSoft => .ok 0
  | supervisorSoft => .ok 1
  | machineSoft => .ok 3
  | userTimer => .ok 4
  | supervisorTimer => .ok 5
  | machineTimer => .ok 7
  | userExternal => .ok 8
  | supervisorExternal => .ok 9
  | machineExternal => .ok 11
  | unknown => .error .trapNumber

end Interrupt

namespace Exception

/-- The discriminant, as `exception as u8` gives it. -/
def discriminant : Exception → Nat
  | instructionMisaligned => 0
  | instructionFault => 1
  | illegalInstruction => 2
  | breakpoint => 3
  | loadMisaligned => 4
  | loadFault => 5
  | storeMisaligned => 6
  | storeFault => 7
  | userEnvCall => 8
  | supervisorEnvCall => 9
  | hypervisionEnvCall => 10
  | machineEnvCall => 11
  | instructionPageFault => 12
  | loadPageFault => 13
  | unknown => 14
  | storePageFault => 15

def intoWord : Exception → Rust WordType
  | unknown => .error .trapNumber
  | e => .ok (BitVec.ofNat 64 e.discriminant)

def fromMemoryErr : MemError → Exception
  | .loadMisaligned => loadMisaligned
  | .loadFault => loadFault
  | .storeMisaligned => storeMisaligned
  | .storeFault => storeFault
  | .loadPageFault => loadPageFault
  | .storePageFault => storePageFault

def fromInstrFetchErr : MemError → Rust Exception
  | .loadMisaligned => .ok instructionMisaligned
  | .loadFault => .ok instructionFault
  | .loadPageFault => .ok instructionPageFault
  | _ => .error .instrFetchErr

end Exception

/-- The cause register's value. -/
def Trap.intoWord : Trap → Rust WordType
  | .interrupt i => do return (← i.intoWord) ||| (1#64 <<< 63)
  | .exception e => e.intoWord

end HereEmu
