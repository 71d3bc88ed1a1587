import HereEmu.Cpu
import HereEmu.Trap.Controller

/-!
# Executing instructions

The functions of the dispatch table. Each takes the operands the decoder found
and works on the CPU; an `Exception` it raises is turned into a trap by the
executor. Operands of the wrong format are a branch the source declares
unreachable.
-/

namespace HereEmu

namespace RVCPU

open Lib (Exec)

variable {P : Platform} {α : Type}

/-! ## Common parts -/

def readReg (r : RegIdx) : CpuM P WordType := do return (← get).regFile r

/-- `RegFile::write`, which ignores `x0`. -/
def writeReg (rd : RegIdx) (v : WordType) : CpuM P Unit :=
  if rd = 0 then return ()
  else modify fun cpu => { cpu with regFile := Function.update cpu.regFile rd v }

def wrongInfo : CpuM P α := Exec.panic .instrInfo

/-- A debug assertion on the fields of an instruction. -/
def assertInfo (b : Bool) : CpuM P Unit := if b then return () else wrongInfo

def writePc (pc : WordType) : CpuM P Unit := modify fun cpu => { cpu with pc }

def advancePc (n : WordType) : CpuM P Unit := modify fun cpu => { cpu with pc := cpu.pc + n }

/-- `Minstret::wrapping_add(1)`, whose sum is checked in spite of its name. -/
def retire : CpuM P Unit := do
  let cpu ← get
  let v ← Exec.lift (checkedAdd (cpu.csr.get .minstret wholeField) 1)
  let csr ← Exec.lift (cpu.csr.set .minstret wholeField v)
  set { cpu with csr }

def cEnabled (csr : CsrRegFile) : Bool := csr.get .misa ⟨0, 25⟩ &&& 0b100 != 0

def checkJumpAlignment (target : WordType) : CpuM P Unit := do
  let cpu ← get
  if !cEnabled cpu.csr && target &&& 3 != 0 then
    set { cpu with pendingTval := some target }
    throw .instructionMisaligned

/-- The end of an instruction of `n` bytes that goes on to the next one. -/
def finish (n : WordType) : CpuM P Unit := do
  advancePc n
  retire

def normalExec (m : CpuM P Unit) : CpuM P Unit := do
  m
  finish 4

def normalCompressExec (m : CpuM P Unit) : CpuM P Unit := do
  m
  finish 2

def saveFflags : CpuM P Unit := do
  let cpu ← get
  let csr ← Exec.lift (cpu.csr.set .fcsr ⟨0, 5⟩ ((P.fpuLastStatus cpu.fpu).setWidth 64))
  set { cpu with csr }

/-- The float unit is off when `mstatus.FS` is zero. -/
def requireFloat : CpuM P Unit := do
  if (← get).csr.get .mstatus Mstatus.fs = 0 then throw .illegalInstruction

def normalFloatExec (m : CpuM P Unit) : CpuM P Unit := do
  requireFloat
  normalExec m
  saveFflags

def normalCompressFloatExec (m : CpuM P Unit) : CpuM P Unit := do
  requireFloat
  normalCompressExec m
  saveFflags

/-! ## Integer instructions -/

def execArith (op : ArithOp) (info : RVInstrInfo) : CpuM P Unit :=
  normalExec <| match info with
    | .R rs1 rs2 rd => do writeReg rd (op.exec (← readReg rs1) (← readReg rs2))
    | .I rs1 rd imm => do writeReg rd (op.exec (← readReg rs1) imm)
    | _ => wrongInfo

def execBranch (op : BranchOp) : RVInstrInfo → CpuM P Unit
  | .B rs1 rs2 imm => do
    if op.exec (← readReg rs1) (← readReg rs2) then
      let target := (← get).pc + imm
      checkJumpAlignment target
      writePc target
      retire
    else finish 4
  | _ => wrongInfo

def handleLoad (w : Width) (extend : Bool) (rd : RegIdx) (addr : WordType) : CpuM P Unit := do
  let data ← read w addr
  writeReg rd (if extend then signExtend data w.bits else data)

def handleStore (w : Width) (addr data : WordType) : CpuM P Unit := write w addr (w.truncate data)

def execLoad (w : Width) (extend : Bool) (info : RVInstrInfo) : CpuM P Unit :=
  normalExec <| match info with
    | .I rs1 rd imm => do handleLoad w extend rd ((← readReg rs1) + imm)
    | _ => wrongInfo

def execStore (w : Width) (info : RVInstrInfo) : CpuM P Unit :=
  normalExec <| match info with
    | .S rs1 rs2 imm => do handleStore w ((← readReg rs1) + imm) (← readReg rs2)
    | _ => wrongInfo

def execJal : RVInstrInfo → CpuM P Unit
  | .J rd imm => do
    let pc := (← get).pc
    checkJumpAlignment (pc + imm)
    writeReg rd (pc + 4)
    writePc (pc + imm)
    retire
  | _ => wrongInfo

def execJalr : RVInstrInfo → CpuM P Unit
  | .I rs1 rd imm => do
    let link ← Exec.lift (checkedAdd (← get).pc 4)
    let target := ((← readReg rs1) + imm) &&& ~~~1#64
    checkJumpAlignment target
    writePc target
    writeReg rd link
    retire
  | _ => wrongInfo

def execAuipc : RVInstrInfo → CpuM P Unit
  | .U rd imm => do
    writeReg rd ((← get).pc + imm)
    finish 4
  | _ => wrongInfo

def execLui : RVInstrInfo → CpuM P Unit
  | .U rd imm => do
    writeReg rd imm
    finish 4
  | _ => wrongInfo

def execEcall : CpuM P Unit := do
  match (← get).csr.cpl with
  | .U => throw .userEnvCall
  | .S => throw .supervisorEnvCall
  | .M => throw .machineEnvCall
  | .V => Exec.panic .ecall

/-! ## CSR and system instructions -/

/-- The immediate form takes the register number itself. -/
def csrOperand (uimm : Bool) (rs1 : RegIdx) : CpuM P WordType :=
  if uimm then return rs1.setWidth 64 else readReg rs1

def requireWritable (addr : WordType) : CpuM P Unit := do
  if !(← get).csr.isWritePrivLegal addr then throw .illegalInstruction

/-- A write to `minstret` is not counted. -/
def retireCsr (addr : WordType) : CpuM P Unit :=
  if addr = Csr.minstret.addr then return () else retire

def execCsrw (uimm : Bool) : RVInstrInfo → CpuM P Unit
  | .I rs1 rd imm => do
    let addr := imm &&& 0xfff
    requireWritable addr
    let newVal ← csrOperand uimm rs1
    if rd ≠ 0 then
      let value ← readCsr addr
      writeReg rd value
    writeCsr addr newVal
    retireCsr addr
    advancePc 4
  -- anything else is stepped over
  | _ => advancePc 4

def execCsrBit (set uimm : Bool) : RVInstrInfo → CpuM P Unit
  | .I rs1 rd imm => do
    let addr := imm &&& 0xfff
    let rhs ← csrOperand uimm rs1
    if rhs = 0 then
      let value ← readCsr addr
      writeReg rd value
      advancePc 4
    else
      requireWritable addr
      let value ← readCsr addr
      writeReg rd value
      writeCsr addr (if set then value ||| rhs else value &&& ~~~rhs)
      retireCsr addr
      advancePc 4
  | _ => wrongInfo

def execFenceI : CpuM P Unit := do
  modify fun cpu => cpu.flushIcache.flushTlb
  finish 4

def execMret : CpuM P Unit := do
  let cpu ← get
  if cpu.csr.cpl ≠ .M then throw .illegalInstruction
  let (csr, pc) ← Exec.lift (TrapController.mret cpu.csr)
  set { cpu with csr, pc }
  retire

/-- Below S, and in S when the trap bit for the instruction is set, it is illegal. -/
def requireSupervisor (trapBit : BitField) : CpuM P Unit := do
  let csr := (← get).csr
  if csr.cpl < .S ∨ csr.cpl = .S ∧ csr.get .mstatus trapBit = 1 then throw .illegalInstruction

def execSret : CpuM P Unit := do
  requireSupervisor Mstatus.tsr
  let cpu ← get
  let (csr, pc) ← Exec.lift (TrapController.sret cpu.csr)
  set { cpu with csr, pc }
  retire

def execSfenceVma : CpuM P Unit := do
  requireSupervisor Mstatus.tvm
  modify fun cpu => cpu.flushTlb.flushIcache
  finish 4

/-! ## Atomics -/

/-- The read-modify-write at the width of the access. -/
def amoUpdate (op : AmoOp) (w : Width) (rhs old : WordType) : WordType :=
  (op.exec (old.setWidth w.bits) (rhs.setWidth w.bits)).setWidth 64

def execAtomicMemoryOperation (op : AmoOp) (w : Width) : RVInstrInfo → CpuM P Unit
  | .A rs1 rs2 rd _ _ => do
    let rhs ← readReg rs2
    let res ← fetchAndOpAmo w (← readReg rs1) (amoUpdate op w rhs)
    writeReg rd (signExtend res w.bits)
    finish 4
  | _ => wrongInfo

def execLr (w : Width) (extend : Bool) : RVInstrInfo → CpuM P Unit
  | .A rs1 _ rd _ _ => do
    let res ← loadReserved w (← readReg rs1)
    writeReg rd (if extend then signExtend res w.bits else res)
    finish 4
  | _ => wrongInfo

def execSc (w : Width) : RVInstrInfo → CpuM P Unit
  | .A rs1 rs2 rd _ _ => do
    let val ← readReg rs2
    let success ← storeConditional w (← readReg rs1) (w.truncate val)
    writeReg rd (if success then 0 else 1)
    finish 4
  | _ => wrongInfo

/-! ## Compressed instructions -/

/-- `sp`. -/
def SP : RegIdx := 2

/-- `ra`, the link register of the compressed jumps. -/
def RA : RegIdx := 1

def execCompressArith (op : ArithOp) (info : RVInstrInfo) : CpuM P Unit :=
  normalCompressExec <| match info with
    | .CR rd rs2 | .CA rd rs2 => do writeReg rd (op.exec (← readReg rd) (← readReg rs2))
    | .CI rd imm | .CB rd imm => do writeReg rd (op.exec (← readReg rd) imm)
    | _ => wrongInfo

/-- The compressed jumps do not check the alignment of their target. -/
def execCompressBranch (op : BranchOp) : RVInstrInfo → CpuM P Unit
  | .CB rs1 imm => do
    if op.exec (← readReg rs1) 0 then
      advancePc imm
      retire
    else finish 2
  | _ => wrongInfo

def execCompressJump (link : Bool) : RVInstrInfo → CpuM P Unit
  | .CJ target => do
    let pc := (← get).pc
    if link then writeReg RA (pc + 2)
    writePc (pc + target)
    retire
  | _ => wrongInfo

def execCompressJumpReg (link : Bool) : RVInstrInfo → CpuM P Unit
  | .CR rs1 _ => do
    let t ← Exec.lift (checkedAdd (← get).pc 2)
    let val ← readReg rs1
    writePc (val &&& ~~~1#64)
    if link then writeReg RA t
    retire
  | _ => wrongInfo

def execCompressLoad (w : Width) (extend : Bool) (info : RVInstrInfo) : CpuM P Unit :=
  normalCompressExec <| match info with
    | .CL rd rs1 imm => do handleLoad w extend rd ((← readReg rs1) + imm)
    | _ => wrongInfo

def execCompressLoadSp (w : Width) (extend : Bool) (info : RVInstrInfo) : CpuM P Unit :=
  normalCompressExec <| match info with
    | .CI rd imm => do handleLoad w extend rd ((← readReg SP) + imm)
    | _ => wrongInfo

def execCompressStore (w : Width) (info : RVInstrInfo) : CpuM P Unit :=
  normalCompressExec <| match info with
    | .CS rs1 rs2 imm => do handleStore w ((← readReg rs1) + imm) (← readReg rs2)
    | _ => wrongInfo

def execCompressStoreSp (w : Width) (info : RVInstrInfo) : CpuM P Unit :=
  normalCompressExec <| match info with
    | .CSS rs2 imm => do handleStore w ((← readReg SP) + imm) (← readReg rs2)
    | _ => wrongInfo

def execCompressMv : RVInstrInfo → CpuM P Unit
  | .CR rd rs2 => normalCompressExec do writeReg rd (← readReg rs2)
  | _ => wrongInfo

def execCompressLi : RVInstrInfo → CpuM P Unit
  | .CI rd imm => normalCompressExec (writeReg rd imm)
  | _ => wrongInfo

def execAddi4spn : RVInstrInfo → CpuM P Unit
  | .CIW rd imm => normalCompressExec do writeReg rd ((← readReg SP) + imm)
  | _ => wrongInfo

/-! ## Float instructions -/

def handleFloatLoad (f : FloatFmt) (addr : WordType) (rd : RegIdx) : CpuM P Unit := do
  let data ← read f.width addr
  modify fun cpu => { cpu with fpu := P.fpuStoreRaw f rd data cpu.fpu }

def handleFloatStore (f : FloatFmt) (addr : WordType) (rs2 : RegIdx) : CpuM P Unit := do
  write f.width addr (f.width.truncate (P.fpuLoadRaw (← get).fpu rs2))

def execFloatLoad (f : FloatFmt) (info : RVInstrInfo) : CpuM P Unit :=
  normalFloatExec <| match info with
    | .I rs1 rd imm => do handleFloatLoad f ((← readReg rs1) + imm) rd
    | _ => wrongInfo

def execFloatStore (f : FloatFmt) (info : RVInstrInfo) : CpuM P Unit :=
  normalFloatExec <| match info with
    | .S rs1 rs2 imm => do handleFloatStore f ((← readReg rs1) + imm) rs2
    | _ => wrongInfo

def execCompressFloatLoad (f : FloatFmt) (info : RVInstrInfo) : CpuM P Unit :=
  normalCompressFloatExec <| match info with
    | .CL rd rs1 imm => do handleFloatLoad f ((← readReg rs1) + imm) rd
    | _ => wrongInfo

def execCompressFloatLoadSp (f : FloatFmt) (info : RVInstrInfo) : CpuM P Unit :=
  normalCompressFloatExec <| match info with
    | .CI rd imm => do handleFloatLoad f ((← readReg SP) + imm) rd
    | _ => wrongInfo

/-- The compressed float stores do not ask whether the float unit is on. -/
def execCompressFloatStore (f : FloatFmt) (info : RVInstrInfo) : CpuM P Unit :=
  normalCompressExec <| match info with
    | .CS rs1 rs2 imm => do handleFloatStore f ((← readReg rs1) + imm) rs2
    | _ => wrongInfo

def execCompressFloatStoreSp (f : FloatFmt) (info : RVInstrInfo) : CpuM P Unit :=
  normalCompressExec <| match info with
    | .CSS rs2 imm => do handleFloatStore f ((← readReg SP) + imm) rs2
    | _ => wrongInfo

/-- The arithmetic of the platform's float unit. -/
def execFloat (op : P.FloatOp) (info : RVInstrInfo) : CpuM P Unit :=
  normalFloatExec do
    let cpu ← get
    match P.floatExec op info cpu.regFile (cpu.csr.value .fcsr) cpu.fpu with
    | none => wrongInfo
    | some (fpu, regFile) => set { cpu with fpu, regFile }

end RVCPU

end HereEmu
