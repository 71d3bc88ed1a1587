import HereEmu.Csr.RegFile
import HereEmu.Device.Mmio
import HereEmu.Mmu.PageTable
import HereEmu.Trap.Types

/-!
# Access policies and the memory front end

What an access is allowed to do follows from the CSR file (`resolveDataPolicy`,
`resolveIfetchPolicy`); `VirtAddrManager` then translates the address under
that policy and sends the access on to RAM or a device.
-/

namespace HereEmu

open Lib (Exec)

/-! ## Policies -/

inductive AccessPrivilege where
  | userOnly | supervisorOnly | supervisorAndUser | machineOnly
  deriving DecidableEq, Repr

inductive AccessType where
  | read | write | readWrite
  deriving DecidableEq, Repr

inductive AccessPolicy where
  | direct
  | translated (check : PermissionCheck) (effect : AccessEffect) (fault : MemError)

/-- Supervisor accesses reach user pages when SUM is set. -/
def supervisorPrivilege (sum : WordType) : AccessPrivilege :=
  if sum = 0 then .supervisorOnly else .supervisorAndUser

def determineDataAccessPrivilege (csr : CsrRegFile) : Rust AccessPrivilege :=
  match csr.cpl with
  | .M =>
    if csr.get .mstatus Mstatus.mprv = 0 then .ok .machineOnly
    else match PrivilegeLevel.tryFrom (csr.get .mstatus Mstatus.mpp) with
      | some .M => .ok .machineOnly
      | some .S => .ok (supervisorPrivilege (csr.get .mstatus Mstatus.sum))
      | some .U => .ok .userOnly
      | some .V => .error .dataAccessPrivilege
      | none => .error .dataAccessPrivilege
  | .S => .ok (supervisorPrivilege (csr.get .sstatus Mstatus.sum))
  | .U => .ok .userOnly
  | .V => .error .dataAccessPrivilege

def AccessType.fault : AccessType → MemError
  | .read => .loadPageFault
  | .write => .storePageFault
  | .readWrite => .storePageFault

def AccessType.effect (access : AccessType) (sideEffect : Bool) : AccessEffect :=
  match sideEffect, access with
  | false, _ => .none
  | true, .read => .accessed
  | true, .write => .accessedDirty
  | true, .readWrite => .accessedDirty

/-- The permission bits the access itself needs. -/
def AccessType.rwxBase : AccessType → PTEFlags
  | .read => .R
  | .write => .W
  | .readWrite => .R ||| .W

/-- The user bit: which pages the privilege may reach, as mask and value. -/
def AccessPrivilege.userFlags : AccessPrivilege → Option (PTEFlags × PTEFlags)
  | .machineOnly => none
  | .supervisorAndUser => some (0, 0)
  | .supervisorOnly => some (.U, 0)
  | .userOnly => some (.U, .U)

def resolveDataPolicy (csr : CsrRegFile) (access : AccessType) (sideEffect : Bool) :
    Rust AccessPolicy := do
  match (← determineDataAccessPrivilege csr).userFlags with
  | none => return .direct
  | some (masks, flags) =>
    if csr.get .mstatus Mstatus.mxr = 1 ∧ access = .read then
      return .translated { anyOf := .R ||| .X, exactMask := masks, exactFlags := flags }
        (access.effect sideEffect) access.fault
    else
      return .translated
        { anyOf := 0, exactMask := masks ||| access.rwxBase, exactFlags := flags ||| access.rwxBase }
        (access.effect sideEffect) access.fault

/-- The flags a page must have to be fetched from at a privilege. -/
def ifetchCheck (flags : PTEFlags) : PermissionCheck :=
  { anyOf := 0, exactMask := .X ||| .U, exactFlags := flags }

def resolveIfetchPolicy (csr : CsrRegFile) (sideEffect : Bool) : Rust AccessPolicy :=
  let effect := if sideEffect then .accessed else .none
  match csr.cpl with
  | .M => .ok .direct
  | .S => .ok (.translated (ifetchCheck .X) effect .loadPageFault)
  | .U => .ok (.translated (ifetchCheck (.X ||| .U)) effect .loadPageFault)
  | .V => .error .ifetchPolicy

/-! ## The memory front end -/

structure VirtAddrManager (B : DeviceBus) where
  mmio : MemoryMapIo B
  pageTable : PageTableWalker

namespace VirtAddrManager

variable {B : DeviceBus} (w : Width)

/-- Computations on memory. -/
abbrev MemM (B : DeviceBus) := Exec PanicSite MemError (VirtAddrManager B)

def fromRamAndMmio (mmio : MemoryMapIo B) : VirtAddrManager B :=
  { mmio, pageTable := .new 0 .none }

def translateVaddr (vaddr : WordType) (check : PermissionCheck) (effect : AccessEffect) :
    Exec PanicSite PageTableError (VirtAddrManager B) WordType :=
  .ofFun fun m => do
    let (r, pageTable, ram) ← m.pageTable.translateVaddr m.mmio.ram vaddr check effect
    return (r, { mmio := { m.mmio with ram }, pageTable })

def translateWithPolicy (vaddr : WordType) : AccessPolicy → MemM B WordType
  | .direct => return vaddr
  | .translated check effect fault =>
    (translateVaddr vaddr check effect).mapError fun _ m => (fault, m)

/-- An operation of the physical address space. -/
def onMmio {α : Type} (f : MemoryMapIo B → Rust (Except MemError α × MemoryMapIo B)) : MemM B α :=
  .ofFun fun m => do
    let (r, mmio) ← f m.mmio
    return (r, { m with mmio })

def readByPaddr (paddr : WordType) : MemM B WordType :=
  onMmio fun io => io.readByType w paddr

def writeByPaddr (paddr data : WordType) : MemM B Unit :=
  onMmio fun io => io.writeByType w paddr data

def readWithPolicy (addr : WordType) (policy : AccessPolicy) : MemM B WordType := do
  let paddr ← translateWithPolicy addr policy
  readByPaddr w paddr

def writeWithPolicy (addr data : WordType) (policy : AccessPolicy) : MemM B Unit := do
  let paddr ← translateWithPolicy addr policy
  writeByPaddr w paddr data

def loadReservedByPaddr (paddr : WordType) : MemM B WordType :=
  onMmio fun io => .ok (io.loadReserved w paddr)

def loadReservedWithPolicy (addr : WordType) (policy : AccessPolicy) : MemM B WordType := do
  if !checkAlign w addr then throw .loadMisaligned
  let paddr ← translateWithPolicy addr policy
  loadReservedByPaddr w paddr

def clearReservation : MemM B Unit := modify fun m => { m with mmio := m.mmio.clearReservation }

/-- The attempt itself, which uses up the reservation. -/
def storeConditionalByPaddr (paddr data : WordType) : MemM B Bool :=
  onMmio fun io =>
    let (r, io) := io.storeConditional w paddr data
    .ok (r, io.clearReservation)

def storeConditionalWithPolicy (addr data : WordType) (policy : AccessPolicy) : MemM B Bool := do
  if !checkAlign w addr then
    clearReservation
    throw .storeMisaligned
  -- an address that does not translate returns here and keeps the reservation
  let paddr ← translateWithPolicy addr policy
  storeConditionalByPaddr w paddr data

/-- The read-modify-write of an AMO on RAM, at an offset already checked. -/
def amoOnRam (f : WordType → WordType) (ram : Ram) (offset : WordType) : WordType × Ram :=
  let old : WordType := Lib.loadLE ram.data offset.toNat w.bytes
  let ram := { ram with data := Lib.storeLE ram.data offset.toNat w.bytes (f old) }
  (old, ram.tryInvalidateReservation offset)

/-- Atomics work on RAM only, and report every refusal as an exception. -/
def fetchAndOpAmoByPaddr (paddr : WordType) (f : WordType → WordType) :
    Exec PanicSite Exception (VirtAddrManager B) WordType := do
  if !checkAlign w paddr then throw .storeMisaligned
  if !MemoryMapIo.inRam paddr then throw .storeFault
  .ofFun fun m =>
    let (old, ram) := amoOnRam w f m.mmio.ram (paddr - BASE_ADDR)
    .ok (.ok old, { m with mmio := { m.mmio with ram } })

def fetchAndOpAmoWithPolicy (addr : WordType) (policy : AccessPolicy)
    (f : WordType → WordType) : Exec PanicSite Exception (VirtAddrManager B) WordType := do
  let paddr ← (translateWithPolicy addr policy).mapError fun _ m => (.storePageFault, m)
  fetchAndOpAmoByPaddr w paddr f

def setMode (mode : WordType) (m : VirtAddrManager B) : Rust (VirtAddrManager B) := do
  return { m with pageTable := ← m.pageTable.setMode mode }

def setRootPpn (ppn : WordType) (m : VirtAddrManager B) : VirtAddrManager B :=
  { m with pageTable := m.pageTable.setRootAddr (ppn <<< PAGE_SIZE_XLEN) }

def flushTlb (m : VirtAddrManager B) : VirtAddrManager B :=
  { m with pageTable := m.pageTable.flushTlb }

end VirtAddrManager

end HereEmu
