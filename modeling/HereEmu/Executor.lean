import HereEmu.Instr.ExecVector

/-!
# The executor

Fetching through the instruction cache, executing, and turning exceptions into
traps. An `Event` is one thing that can happen to the CPU between two
looks at it: an instruction, the check for interrupts at the start of a batch,
a change of an interrupt line, or whatever the board's devices do on their own.
The hooks of a batch observe only, and the just-in-time compiler is a second
executor that is not modelled.
-/

namespace HereEmu

open Lib (Exec)

namespace RVCPU

variable {P : Platform} (cpu : RVCPU P)

/-! ## Dispatch -/

def exec : ExecFunc P.FloatOp P.VectorOp → RVInstrInfo → CpuM P Unit
  | .arith op, info => execArith op info
  | .branch op, info => execBranch op info
  | .load w extend, info => execLoad w extend info
  | .store w, info => execStore w info
  | .jal, info => execJal info
  | .jalr, info => execJalr info
  | .auipc, info => execAuipc info
  | .lui, info => execLui info
  | .ebreak, _ => throw .breakpoint
  | .ecall, _ => execEcall
  | .nop, _ => normalExec (return ())
  | .fenceI, _ => execFenceI
  | .csrw uimm, info => execCsrw uimm info
  | .csrBit set uimm, info => execCsrBit set uimm info
  | .mret, _ => execMret
  | .sret, _ => execSret
  | .sfenceVma, _ => execSfenceVma
  | .floatLoad f, info => execFloatLoad f info
  | .floatStore f, info => execFloatStore f info
  | .float op, info => execFloat op info
  | .amo op w, info => execAtomicMemoryOperation op w info
  | .lr w extend, info => execLr w extend info
  | .sc w, info => execSc w info
  | .compressArith op, info => execCompressArith op info
  | .addi4spn, info => execAddi4spn info
  | .compressMv, info => execCompressMv info
  | .compressLi, info => execCompressLi info
  | .compressNop, _ => normalCompressExec (return ())
  | .compressLoad w extend, info => execCompressLoad w extend info
  | .compressLoadSp w extend, info => execCompressLoadSp w extend info
  | .compressStore w, info => execCompressStore w info
  | .compressStoreSp w, info => execCompressStoreSp w info
  | .compressFloatLoad f, info => execCompressFloatLoad f info
  | .compressFloatLoadSp f, info => execCompressFloatLoadSp f info
  | .compressFloatStore f, info => execCompressFloatStore f info
  | .compressFloatStoreSp f, info => execCompressFloatStoreSp f info
  | .compressBranch op, info => execCompressBranch op info
  | .compressJump link, info => execCompressJump link info
  | .compressJumpReg link, info => execCompressJumpReg link info
  | .illegal, _ => throw .illegalInstruction
  | .vectorConfig op, info => execVectorConfig op info
  | .vectorMem op, info => execVectorMem op info
  | .vector op, info => execVector op info

/-- However the instruction ends, `x0` is zero after it. -/
def clearX0 : RVCPU P :=
  { cpu with regFile := Function.update cpu.regFile 0 0 }

def execute (d : P.Decoded) : CpuM P Unit :=
  .ofFun fun cpu => do
    let (r, cpu) ← (exec (getExecFunc d.instr) d.info).run cpu
    return (r, cpu.clearX0)

/-! ## Fetch and decode -/

/-- Computations that fail with an exception and its trap value. -/
abbrev FetchM (P : Platform) := Exec PanicSite ExceptionInfo (RVCPU P)

/-- The two low bits of an instruction of 32 bits are set. -/
def isLong (half : WordType) : Bool := half &&& 0b11 == 0b11

def ifetchAt (addr : WordType) : FetchM P (BitVec 32) := do
  let lo ← ifetchHalf addr
  if isLong lo then
    let hi ← ifetchHalf (← Exec.lift (checkedAdd addr 2))
    return (lo ||| (hi <<< 16)).setWidth 32
  else return lo.setWidth 32

/-- `Decoder::decode`, with what the decoder refuses as an exception. -/
def decodeRaw (P : Platform) (raw : BitVec 32) : Except ExceptionInfo P.Decoded :=
  match P.decode raw with
  | some d => .ok d
  | none => .error ⟨.illegalInstruction, raw.setWidth 64⟩

def decodeAtChecked (addr : WordType) : FetchM P P.Decoded := do
  match (← get).icache.get addr with
  | some d => return d
  | none =>
    let raw ← ifetchAt addr
    let d ← Exec.check (decodeRaw P raw)
    modify fun cpu => { cpu with icache := cpu.icache.put addr d }
    return d

/-! ## Traps -/

/-- The trap controller on the CPU. -/
def takeException (cpu : RVCPU P) (cause : Exception) (tval : WordType) : Rust (RVCPU P) := do
  let (csr, pc) ← TrapController.takeException cpu.csr cpu.pc cause tval
  return { cpu with csr, pc }

/-- `ifetch().expect(..)`: the instruction that turned out to be illegal is
fetched once more. Whatever stops that counts as this branch failing. -/
def refetch : Rust (BitVec 32 × RVCPU P) :=
  match (ifetchAt cpu.pc).run cpu with
  | .ok (.ok raw, cpu) => .ok (raw, cpu)
  | .ok (.error _, _) => .error .illegalRefetch
  | .error _ => .error .illegalRefetch

theorem ifetchAt_of_refetch {cpu cpu' : RVCPU P} {raw : BitVec 32}
    (h : cpu.refetch = .ok (raw, cpu')) : (ifetchAt cpu.pc).run cpu = .ok (.ok raw, cpu') := by
  unfold refetch at h
  split at h <;> cases h
  assumption

/-- What becomes of the outcome of an instruction. -/
def finishStep : Except Exception Unit × RVCPU P → Rust (RVCPU P)
  | (.ok (), cpu) => .ok cpu
  | (.error .illegalInstruction, cpu) => do
    let (raw, cpu) ← cpu.refetch
    cpu.takeException .illegalInstruction (raw.setWidth 64)
  | (.error nr, cpu) =>
    { cpu with pendingTval := none }.takeException nr (cpu.pendingTval.getD 0)

theorem finishStep_of_ne {e : Exception} (he : e ≠ .illegalInstruction) (cpu : RVCPU P) :
    finishStep (.error e, cpu) =
      { cpu with pendingTval := none }.takeException e (cpu.pendingTval.getD 0) := by
  cases e <;> first | rfl | exact absurd rfl he

def stepImpl : Rust (RVCPU P) := do
  match ← (decodeAtChecked cpu.pc).run cpu with
  | (.error e, cpu) => cpu.takeException e.cause e.tval
  | (.ok d, cpu) => finishStep (← (execute d).run cpu)

/-! ## Events -/

def incrementMcycle : RVCPU P :=
  { cpu with csr := cpu.csr.setValue .mcycle (cpu.csr.value .mcycle + 1) }

/-- One turn of the loop of `step_batch_with_hook`. -/
def stepOnce : Rust (RVCPU P) := do
  let cpu := (← cpu.stepImpl).incrementMcycle
  if cpu.pendingTval = none then return cpu else .error .pendingTval

theorem stepOnce_cases {cpu cpu' : RVCPU P} (h : cpu.stepOnce = .ok cpu') :
    ∃ cpu₁, cpu.stepImpl = .ok cpu₁ ∧ cpu' = cpu₁.incrementMcycle := by
  obtain ⟨cpu₁, hs, h⟩ := Lib.exists_of_bind_ok h
  dsimp only at h
  split at h
  · cases h
    exact ⟨cpu₁, hs, rfl⟩
  · cases h

def tryTakePendingInterrupt : Rust (RVCPU P) := do
  let (taken, csr, pc) ← TrapController.tryTakeInterrupt cpu.csr cpu.pc
  let cpu := { cpu with csr, pc }
  return if taken.isSome then cpu.incrementMcycle else cpu

/-- The check changes no more than a trap does, and counts a cycle for one. -/
theorem tryTakePendingInterrupt_cases {cpu cpu' : RVCPU P}
    (h : cpu.tryTakePendingInterrupt = .ok cpu') :
    ∃ taken csr pc, TrapController.tryTakeInterrupt cpu.csr cpu.pc = .ok (taken, csr, pc) ∧
      (cpu' = { cpu with csr, pc } ∨ cpu' = incrementMcycle { cpu with csr, pc }) := by
  obtain ⟨⟨taken, csr, pc⟩, htake, h⟩ := Lib.exists_of_bind_ok h
  cases h
  refine ⟨taken, csr, pc, htake, ?_⟩
  split
  · exact .inr rfl
  · exact .inl rfl

def irqField : Interrupt → Option BitField
  | .machineTimer => some Mip.mtip
  | .machineExternal => some Mip.meip
  | .supervisorExternal => some Mip.seip
  | .machineSoft => some Mip.msip
  | _ => none

def handleIrq (cpu : RVCPU P) (interrupt : Interrupt) (level : Bool) : Rust (RVCPU P) :=
  match irqField interrupt with
  | some f => do return { cpu with csr := ← cpu.csr.set .mip f (if level then 1 else 0) }
  | none => .error .handleIrq

theorem handleIrq_cases {cpu cpu' : RVCPU P} {interrupt : Interrupt} {level : Bool}
    (h : cpu.handleIrq interrupt level = .ok cpu') :
    ∃ f csr, irqField interrupt = some f ∧
      cpu.csr.set .mip f (if level then 1 else 0) = .ok csr ∧ cpu' = { cpu with csr } := by
  unfold handleIrq at h
  split at h
  · next f hf =>
      obtain ⟨csr, hset, h⟩ := Lib.exists_of_bind_ok h
      cases h
      exact ⟨f, csr, hf, hset, rfl⟩
  · cases h

inductive Event (P : Platform) where
  | instr
  | checkInterrupt
  | irq (interrupt : Interrupt) (level : Bool)
  /-- The devices move on by themselves and may write to RAM. -/
  | devices (dev : P.bus.Dev) (data : Nat → BitVec 8)

def step : Event P → Rust (RVCPU P)
  | .instr => cpu.stepOnce
  | .checkInterrupt => cpu.tryTakePendingInterrupt
  | .irq interrupt level => cpu.handleIrq interrupt level
  | .devices dev data => .ok { cpu with
      memory.mmio := ⟨{ cpu.memory.mmio.ram with data }, dev⟩ }

end RVCPU

end HereEmu
