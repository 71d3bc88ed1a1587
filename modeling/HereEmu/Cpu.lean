import HereEmu.Instr.Dispatch
import HereEmu.Mmu.Access
import HereEmu.Vector.Unit

/-!
# The CPU

The state of `RVCPU` and the accesses instructions make through it: memory
under the policy of the current privilege, and CSRs with their effects on the
rest of the machine.

What the emulator is built with is a `Platform`: the devices, the decoder for
the selected ISA, and the arithmetic of the float and vector units, which
reaches no state but the units' own, the integer registers and their CSRs.
-/

namespace HereEmu

open Lib (Exec)
open VirtAddrManager CsrRegFile

structure DecodeInstr (F V : Type) where
  instr : RiscvInstr F V
  info : RVInstrInfo

structure Platform where
  bus : DeviceBus
  FloatOp : Type
  VectorOp : Type
  /-- `Decoder::decode`, on the 16 or 32 bits that were fetched. -/
  decode : BitVec 32 → Option (DecodeInstr FloatOp VectorOp)
  extensionBits : WordType
  /-- What a slot of the instruction cache holds before anything is put there. -/
  zeroed : Option (DecodeInstr FloatOp VectorOp)
  Fpu : Type
  fpuNew : Fpu
  fpuLoadRaw : Fpu → RegIdx → WordType
  fpuStoreRaw : FloatFmt → RegIdx → WordType → Fpu → Fpu
  /-- The flags of the last operation, in the order of `fflags`. -/
  fpuLastStatus : Fpu → BitVec 5
  /-- A float instruction on the integer registers and `fcsr`. No answer is a panic. -/
  floatExec : FloatOp → RVInstrInfo → (RegIdx → WordType) → WordType → Fpu →
    Option (Fpu × (RegIdx → WordType))
  /-- A vector instruction on `vstart`, the integer registers and `vcsr`. It is
  refused as illegal, possibly halfway, or completes. -/
  vectorExec : VectorOp → RVInstrInfo → Nat → (RegIdx → WordType) → WordType → Vector →
    Option (Bool × (RegIdx → WordType) × WordType × Vector)

/-- A machine with RAM, no devices, and no float or vector arithmetic. -/
def Platform.ramOnly (decode : BitVec 32 → Option (DecodeInstr Empty Empty)) : Platform where
  bus := { Dev := Unit, map := [], read := fun _ _ _ _ => none, write := fun _ _ _ _ _ _ => none }
  FloatOp := Empty
  VectorOp := Empty
  decode
  extensionBits := 0b101
  zeroed := none
  Fpu := Unit
  fpuNew := ()
  fpuLoadRaw := fun _ _ => 0
  fpuStoreRaw := fun _ _ _ fpu => fpu
  fpuLastStatus := fun _ => 0
  floatExec := fun op => nomatch op
  vectorExec := fun op => nomatch op

abbrev Platform.Decoded (P : Platform) := DecodeInstr P.FloatOp P.VectorOp

structure RVCPU (P : Platform) where
  regFile : RegIdx → WordType
  pc : WordType
  memory : VirtAddrManager P.bus
  csr : CsrRegFile
  icache : DirectCache 1 8192 P.Decoded
  icacheEpoch : WordType
  fpu : P.Fpu
  vector : Vector
  /-- The address of the memory-mapped `mtime`. -/
  timeAddr : Option WordType
  /-- The value a memory error leaves for `mtval` or `stval`. -/
  pendingTval : Option WordType

namespace RVCPU

variable {P : Platform} {α : Type}

abbrev CpuM (P : Platform) := Exec PanicSite Exception (RVCPU P)

/-! ## Memory -/

/-- `finish_memory_access`: an error leaves its address for the trap. -/
def finishMemoryAccess {ε : Type} (addr : WordType) (toException : ε → Exception)
    (m : Exec PanicSite ε (VirtAddrManager P.bus) α) : CpuM P α :=
  .ofFun fun cpu => do
    match ← m.run cpu.memory with
    | (.ok a, memory) => return (.ok a, { cpu with memory })
    | (.error e, memory) =>
      return (.error (toException e), { cpu with memory, pendingTval := some addr })

variable {ε : Type} {m : Exec PanicSite ε (VirtAddrManager P.bus) α} (cpu : RVCPU P)

theorem finishMemoryAccess_panic {p : PanicSite} (h : m.run cpu.memory = .error p)
    (addr : WordType) (toException : ε → Exception) :
    (finishMemoryAccess addr toException m).run cpu = .error p := by
  unfold finishMemoryAccess
  rw [Exec.run_ofFun, h]
  rfl

theorem finishMemoryAccess_ok {a : α} {memory : VirtAddrManager P.bus}
    (h : m.run cpu.memory = .ok (.ok a, memory)) (addr : WordType) (toException : ε → Exception) :
    (finishMemoryAccess addr toException m).run cpu = .ok (.ok a, { cpu with memory }) := by
  unfold finishMemoryAccess
  rw [Exec.run_ofFun, h]
  rfl

theorem finishMemoryAccess_error {e : ε} {memory : VirtAddrManager P.bus}
    (h : m.run cpu.memory = .ok (.error e, memory)) (addr : WordType) (toException : ε → Exception)
    : (finishMemoryAccess addr toException m).run cpu =
      .ok (.error (toException e), { cpu with memory, pendingTval := some addr }) := by
  unfold finishMemoryAccess
  rw [Exec.run_ofFun, h]
  rfl

/-- What is known of an access to memory carries over to the CPU that makes it: an
access that fails leaves its address behind. -/
theorem finishMemoryAccess_spec {cpu : RVCPU P} {S : PanicSite → Prop} {addr : WordType}
    {toException : ε → Exception} {Q : Except ε α → VirtAddrManager P.bus → Prop}
    {R : Except Exception α → RVCPU P → Prop} (hm : Exec.Spec S m cpu.memory Q)
    (hok : ∀ a memory, Q (.ok a) memory → R (.ok a) { cpu with memory })
    (herr : ∀ e memory, Q (.error e) memory →
      R (.error (toException e)) { cpu with memory, pendingTval := some addr }) :
    Exec.Spec S (finishMemoryAccess addr toException m) cpu R := by
  unfold Exec.Spec finishMemoryAccess at *
  rw [Exec.run_ofFun]
  generalize m.run cpu.memory = out at hm ⊢
  rcases out with p | ⟨e | a, memory⟩
  · exact hm
  · exact herr e memory hm
  · exact hok a memory hm

def dataPolicy (access : AccessType) : CpuM P AccessPolicy := do
  Exec.lift (resolveDataPolicy (← get).csr access true)

def read (w : Width) (addr : WordType) : CpuM P WordType := do
  let policy ← dataPolicy .read
  finishMemoryAccess addr .fromMemoryErr (readWithPolicy w addr policy)

def write (w : Width) (addr data : WordType) : CpuM P Unit := do
  let policy ← dataPolicy .write
  finishMemoryAccess addr .fromMemoryErr (writeWithPolicy w addr data policy)

def loadReserved (w : Width) (addr : WordType) : CpuM P WordType := do
  let policy ← dataPolicy .read
  finishMemoryAccess addr .fromMemoryErr (loadReservedWithPolicy w addr policy)

def storeConditional (w : Width) (addr data : WordType) : CpuM P Bool := do
  let policy ← dataPolicy .write
  finishMemoryAccess addr .fromMemoryErr (storeConditionalWithPolicy w addr data policy)

def fetchAndOpAmo (w : Width) (addr : WordType) (f : WordType → WordType) : CpuM P WordType := do
  let policy ← dataPolicy .readWrite
  finishMemoryAccess addr id (fetchAndOpAmoWithPolicy w addr policy f)

def readForIfetch (w : Width) (addr : WordType) : Exec PanicSite MemError (RVCPU P) WordType := do
  let policy ← Exec.lift (resolveIfetchPolicy (← get).csr true)
  .zoom (·.memory) (fun cpu memory => { cpu with memory })
    (readWithPolicy w addr policy)

/-- An exception with its trap value. -/
structure ExceptionInfo where
  cause : Exception
  tval : WordType
  deriving DecidableEq, Repr

/-- One half of an instruction. Fetches report their own trap value, so nothing
is left pending. -/
def ifetchHalf (addr : WordType) : Exec PanicSite ExceptionInfo (RVCPU P) WordType :=
  .ofFun fun cpu => do
    match ← (readForIfetch .u16 addr).run cpu with
    | (.ok v, cpu) => return (.ok v, cpu)
    | (.error e, cpu) => return (.error ⟨← Exception.fromInstrFetchErr e, addr⟩, cpu)

def flushIcache : RVCPU P :=
  { cpu with icache := cpu.icache.clear, icacheEpoch := cpu.icacheEpoch + 1 }

def flushTlb (cpu : RVCPU P) : RVCPU P := { cpu with memory := cpu.memory.flushTlb }

/-! ## CSRs -/

/-- The address of the `time` CSR, which is read from the timer. -/
def TIME : WordType := 0xc01

def readCsr (addr : WordType) : CpuM P WordType := do
  let cpu ← get
  if addr = TIME then
    match cpu.timeAddr with
    | some timeAddr =>
      (Exec.zoom (·.memory) (fun cpu memory => { cpu with memory })
        (readByPaddr .u64 timeAddr)).mapError fun _ cpu => (.illegalInstruction, cpu)
    | none => throw .illegalInstruction
  else match cpu.csr.readChecked addr with
    | some data => return data
    | none => throw .illegalInstruction

/-- What a write to `satp` does to the rest of the machine. -/
def applySatp : Rust (RVCPU P) := do
  let memory ← cpu.memory.setMode (cpu.csr.get .satp Satp.mode)
  let memory := memory.setRootPpn (cpu.csr.get .satp Satp.ppn)
  return ({ cpu with memory := memory.flushTlb } : RVCPU P).flushIcache

def writeCsr (addr data : WordType) : CpuM P Unit := do
  let cpu ← get
  match cpu.csr.writeChecked addr data with
  | none => throw .illegalInstruction
  | some csr =>
    let cpu := { cpu with csr }
    if addr = Csr.satp.addr then set (← Exec.lift cpu.applySatp)
    else set cpu

/-! ## Reset -/

def resetCsr (P : Platform) : CsrRegFile :=
  let misa := (BitField.mk 62 2).put ((BitField.mk 0 25).put 0 P.extensionBits) 2
  let mstatus := (BitField.mk 32 2).put ((BitField.mk 34 2).put 0 2) 2
  (new.setValue .misa misa).setValue .mstatus mstatus

/-- Every register but these two starts at zero. -/
theorem value_resetCsr {r : Csr} (h : r ∉ [Csr.misa, .mstatus]) : (resetCsr P).value r = 0 := by
  simp only [List.mem_cons, List.not_mem_nil, or_false, not_or] at h
  unfold resetCsr
  rw [setValue_ne h.2, setValue_ne h.1]
  rfl

theorem mstatus_resetCsr : (resetCsr P).value .mstatus = 0xa00000000 := by
  unfold resetCsr
  rw [setValue_same]
  decide

/-- `from_decoder`, with the timer a board connects and the registers it presets. -/
def reset (P : Platform) (mmio : MemoryMapIo P.bus) (timeAddr : Option WordType)
    (regFile : RegIdx → WordType) : RVCPU P :=
  { regFile
    pc := DEFAULT_PC_VALUE
    memory := .fromRamAndMmio mmio
    csr := resetCsr P
    icache := .new P.zeroed
    icacheEpoch := 0
    fpu := P.fpuNew
    vector := .new
    timeAddr
    pendingTval := none }

end RVCPU

end HereEmu
