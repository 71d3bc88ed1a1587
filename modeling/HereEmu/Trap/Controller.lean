import HereEmu.Csr.RegFile
import HereEmu.Trap.Types

/-!
# Trap entry and return

`TrapController` reads and writes the CSR file and the program counter and
nothing else of the CPU, so those two are what its functions take and give
back.
-/

namespace HereEmu

open Mstatus

namespace TrapController

variable (csr : CsrRegFile)

/-- The CSR file and the program counter. -/
abbrev Context := CsrRegFile × WordType

/-! ## Delegation -/

def isExceptionDelegatedMMode (e : Exception) : Bool :=
  csr.value .medeleg &&& (1#64 <<< e.discriminant) != 0

def isInterruptDelegatedMMode : Interrupt → Rust Bool
  | .machineExternal | .machineSoft | .machineTimer => .ok false
  | .supervisorExternal | .userExternal => .ok (csr.get .mideleg Mideleg.seip != 0)
  | .supervisorSoft | .userSoft => .ok (csr.get .mideleg Mideleg.ssip != 0)
  | .supervisorTimer | .userTimer => .ok (csr.get .mideleg Mideleg.stip != 0)
  | .unknown => .error .isInterruptDelegated

def isDelegatedMMode : Trap → Rust Bool
  | .interrupt i => isInterruptDelegatedMMode csr i
  | .exception e => .ok (isExceptionDelegatedMMode csr e)

/-! ## Entry -/

def nextPcByTvec (cause : Trap) (mode base : WordType) : Rust WordType :=
  if mode = 0 then .ok (base <<< 2)
  else if mode = 1 then
    match cause with
    | .exception _ => .ok (base <<< 2)
    | .interrupt i => do
      let offset ← i.intoWord
      -- the sum is checked for overflow
      if (base <<< 2).toNat + (offset * 4).toNat < 2 ^ 64 then .ok ((base <<< 2) + offset * 4)
      else .error .nextPcByTvec
  else .error .nextPcByTvec

def sendTrapSignalMMode (pc : WordType) (cause : Trap) (trapValue : WordType) : Rust Context := do
  let csr ← csr.set .mstatus mpp csr.cpl.toWord
  let csr := { csr with cpl := .M }
  let csr := csr.writeUncheckPrivilege Csr.mcause.addr (← cause.intoWord)
  let csr := csr.writeUncheckPrivilege Csr.mepc.addr pc
  let csr := csr.writeUncheckPrivilege Csr.mtval.addr trapValue
  let csr ← csr.set .mstatus mpie (csr.get .mstatus mie)
  let csr ← csr.set .mstatus mie 0
  let pc ← nextPcByTvec cause (csr.get .mtvec Xtvec.mode) (csr.get .mtvec Xtvec.base)
  return (csr, pc)

/-- `assert!(write_directly(..))`. -/
def assertWriteDirectly (r : Csr) (data : WordType) : Rust CsrRegFile :=
  match csr.writeDirectly r.addr data with
  | (true, csr) => .ok csr
  | (false, _) => .error .missingCsr

def sendTrapSignalSMode (pc : WordType) (cause : Trap) (trapValue : WordType) : Rust Context := do
  let csr ← csr.set .sstatus spp csr.cpl.toWord
  let csr := { csr with cpl := .S }
  let csr ← assertWriteDirectly csr .scause (← cause.intoWord)
  let csr ← assertWriteDirectly csr .sepc pc
  let csr ← assertWriteDirectly csr .stval trapValue
  let csr ← csr.set .sstatus spie (csr.get .sstatus sie)
  let csr ← csr.set .sstatus sie 0
  let pc ← nextPcByTvec cause (csr.get .stvec Xtvec.mode) (csr.get .stvec Xtvec.base)
  return (csr, pc)

/-! ## Return -/

/-- `PrivilegeLevel::try_from(..).expect(..)`. -/
def expectPrivilege (v : WordType) : Rust PrivilegeLevel :=
  match PrivilegeLevel.tryFrom v with
  | some l => .ok l
  | none => .error .xret

def mret : Rust Context := do
  let csr ← csr.set .mstatus mie (csr.get .mstatus mpie)
  let csr ← csr.set .mstatus mpie 1
  let pc := csr.value .mepc
  let newPriv := csr.get .mstatus mpp
  let csr ← if newPriv = PrivilegeLevel.M.toWord then .ok csr else csr.set .mstatus mprv 0
  let csr := { csr with cpl := ← expectPrivilege newPriv }
  let csr ← csr.set .mstatus mpp 0
  return (csr, pc)

def sret : Rust Context := do
  let csr ← csr.set .sstatus sie (csr.get .sstatus spie)
  let csr ← csr.set .sstatus spie 1
  let pc := csr.value .sepc
  let newPriv := csr.get .sstatus spp
  let csr ← csr.set .mstatus mprv 0
  let csr := { csr with cpl := ← expectPrivilege newPriv }
  let csr ← csr.set .sstatus spp PrivilegeLevel.U.toWord
  return (csr, pc)

/-! ## Which trap is taken -/

/-- Whether the trap goes to machine mode. In machine mode delegation is not
looked at. -/
def toMachine (cause : Trap) : Rust Bool :=
  if csr.cpl = .M then .ok true
  else do return !(← isDelegatedMMode csr cause)

def trySendTrapSignal (pc : WordType) (cause : Trap) (trapValue : WordType) :
    Rust (Bool × Context) := do
  let level := csr.cpl
  if ← toMachine csr cause then
    match cause with
    | .exception _ => return (true, ← sendTrapSignalMMode csr pc cause trapValue)
    | .interrupt _ =>
      if level < .M ∨ csr.get .mstatus mie = 1 then
        return (true, ← sendTrapSignalMMode csr pc cause trapValue)
      else return (false, csr, pc)
  else
    match cause with
    | .exception _ => return (true, ← sendTrapSignalSMode csr pc cause trapValue)
    | .interrupt _ =>
      if level < .S ∨ csr.get .mstatus sie = 1 then
        return (true, ← sendTrapSignalSMode csr pc cause trapValue)
      else return (false, csr, pc)

def takeException (pc : WordType) (e : Exception) (trapValue : WordType) : Rust Context := do
  let (_, ctx) ← trySendTrapSignal csr pc (.exception e) trapValue
  return ctx

/-- The pending and enabled interrupts. -/
def pendingInterrupts : WordType := csr.value .mip &&& csr.value .mie

/-- The scan goes up from bit 0. -/
def hasInterrupt (csr : CsrRegFile) : Rust (Option Interrupt) :=
  let pending := pendingInterrupts csr
  if pending = 0 then .ok none
  else match (List.range 16).find? fun i => pending &&& (1#64 <<< i) != 0 with
    | some i => .ok (some (.fromNr i))
    | none => .error .hasInterrupt

def tryTakeInterrupt (pc : WordType) : Rust (Option Interrupt × Context) := do
  match ← hasInterrupt csr with
  | none => return (none, csr, pc)
  | some i =>
    let (taken, ctx) ← trySendTrapSignal csr pc (.interrupt i) 0
    return (if taken then some i else none, ctx)

end TrapController

end HereEmu
