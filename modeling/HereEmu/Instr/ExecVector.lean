import HereEmu.Instr.Exec

/-!
# Executing vector instructions

The configuration instructions and the loads and stores. The unit is handed the
physical address space of the CPU and its own registers, nothing else.
-/

namespace HereEmu

open Lib (Exec)
open HereEmu.Vector

/-! ## Configuration -/

namespace Vtype

def vlmulOf (vtype : WordType) : Option Vlmul :=
  match (vtype &&& 0b111).toNat with
  | 0 => some .M1
  | 1 => some .M2
  | 2 => some .M4
  | 3 => some .M8
  | 5 => some .Mf8
  | 6 => some .Mf4
  | 7 => some .Mf2
  | _ => none

def vsewOf (vtype : WordType) : Option Vsew :=
  match ((vtype >>> 3) &&& 0b111).toNat with
  | 0 => some .E8
  | 1 => some .E16
  | 2 => some .E32
  | 3 => some .E64
  | _ => none

/-- The elements of one register, scaled by the group. An eighth is shifted by
four, as the source has it. -/
def maxVl (lmul : Vlmul) (sew : Vsew) : Nat :=
  let partVl := VLEN_BYTE / sew.intoByteWidth
  match lmul with
  | .M1 => partVl
  | .M2 => partVl <<< 1
  | .M4 => partVl <<< 2
  | .M8 => partVl <<< 3
  | .Mf2 => partVl >>> 1
  | .Mf4 => partVl >>> 2
  | .Mf8 => partVl >>> 4

theorem maxVl_le (lmul : Vlmul) (sew : Vsew) : maxVl lmul sew ≤ VL_MAX := by
  cases lmul <;> cases sew <;> decide

/-- The configuration a legal `vtype` and a requested length ask for. -/
def config (vtype len : WordType) : Option VectorConfig :=
  match vlmulOf vtype, vsewOf vtype with
  | some vlmul, some vsew => some
    { vlmul
      vsew
      tailAgnostic := vtype.getLsbD 6
      maskAgnostic := vtype.getLsbD 7
      vl := min len.toNat (maxVl vlmul vsew)
      vl_le := Nat.le_trans (Nat.min_le_right ..) (maxVl_le ..) }
  | _, _ => none

end Vtype

namespace RVCPU

variable {P : Platform}

/-- The vector unit is off when `mstatus.VS` is zero. An instruction that
completes leaves nothing to resume. -/
def normalVectorExec (f : Nat → CpuM P Unit) : CpuM P Unit := do
  let csr := (← get).csr
  if csr.get .mstatus Mstatus.vs = 0 then throw .illegalInstruction
  normalExec (f (csr.value .vstart).toNat)
  modify fun cpu => { cpu with csr := cpu.csr.setValue .vstart 0 }

/-- `vtype` and the requested length, from the operands of the three forms. -/
def vectorConfigField (op : VectorConfigOp) (imm : WordType) (rs1 rs2 : RegIdx) :
    CpuM P (WordType × WordType) :=
  match op with
  | .vsetivli => do
    assertInfo (imm &&& 0xC00 == 0xC00)
    return (imm &&& ~~~0xC00#64, rs1.setWidth 64)
  | .vsetvli => do
    assertInfo (imm &&& 0x800 == 0)
    return (imm &&& ~~~0x800#64, ← readReg rs1)
  | .vsetvl => do
    assertInfo (imm &&& 0xFE0 == 0x800)
    return (← readReg rs2, ← readReg rs1)

/-- `vtype` is written also when it is refused, with its top bit set. -/
def execVectorConfig (op : VectorConfigOp) (info : RVInstrInfo) : CpuM P Unit :=
  normalVectorExec fun _ => match info with
    | .V rs1 rs2 rd vm func6 => do
      let imm : WordType := (func6.setWidth 64 <<< 6) ||| (if vm then 0x20 else 0) ||| rs2.setWidth 64
      let (vtype, len) ← vectorConfigField op imm rs1 rs2
      match Vtype.config vtype len with
      | some config =>
        modify fun cpu => { cpu with
          csr := (cpu.csr.setValue .vtype vtype).setValue .vl (BitVec.ofNat 64 config.vl)
          vector := { cpu.vector with config } }
        writeReg rd (BitVec.ofNat 64 config.vl)
      | none =>
        modify fun cpu => { cpu with csr := cpu.csr.setValue .vtype (vtype ||| (1#64 <<< 63)) }
        writeReg rd 0
        throw .illegalInstruction
    | _ => wrongInfo

/-! ## Loads and stores -/

/-- The physical address space, as the vector unit uses it. -/
def physMem (B : DeviceBus) : VecMem (MemoryMapIo B) where
  read w addr io := io.readByType w addr
  write w addr data io := io.writeByType w addr data

/-- A fault on an element leaves its index in `vstart`. -/
def finishVectorMemoryAccess (cpu : RVCPU P) : VectorMemException → Exception × RVCPU P
  | .memory index exception =>
    (exception, { cpu with csr := cpu.csr.setValue .vstart (BitVec.ofNat 64 index) })
  | .other exception => (exception, cpu)

/-- Runs the vector unit on the CPU's physical memory. -/
def onVector (m : VecM (MemoryMapIo P.bus) Unit) : CpuM P Unit :=
  .ofFun fun cpu => do
    let (r, s) ← m.run ⟨cpu.vector, cpu.memory.mmio⟩
    let cpu := { cpu with vector := s.vector, memory := { cpu.memory with mmio := s.mem } }
    match r with
    | .ok () => return (.ok (), cpu)
    | .error e =>
      let (exception, cpu) := finishVectorMemoryAccess cpu e
      return (.error exception, cpu)

/-- The fields of a vector load or store. -/
structure VectorMemFields where
  base : WordType
  /-- The stride, or the base of the index array. -/
  second : WordType
  reg : RegIdx
  nf : Nat
  enableMask : Bool
  vstart : Nat

/-- What each of the implemented loads and stores asks of the vector unit. -/
def vectorMemAccess {μ : Type} (M : VecMem μ) (f : VectorMemFields) : VectorMemOp → VecM μ Unit
  | .unitStrideLoad eew => strideLoad M f.reg eew (f.nf + 1) none f.enableMask f.vstart f.base
  | .constantStrideLoad eew =>
    strideLoad M f.reg eew (f.nf + 1) (some f.second) f.enableMask f.vstart f.base
  | .indexedOrderedLoad eew =>
    indexedOrderedLoad M f.reg eew (f.nf + 1) f.second f.enableMask f.vstart f.base
  | .wholeRegisterLoad => loadWholeRegister M f.reg f.nf f.vstart f.base
  | .maskLoad => maskLoad M f.reg f.vstart f.base
  | .unitStrideStore eew =>
    strideStore M f.reg eew (f.nf + 1) none f.enableMask f.vstart f.base
  | .constantStrideStore eew =>
    strideStore M f.reg eew (f.nf + 1) (some f.second) f.enableMask f.vstart f.base
  | .indexedOrderedStore eew =>
    indexedOrderedStore M f.reg eew (f.nf + 1) f.second f.enableMask f.vstart f.base
  | .wholeRegisterStore => storeWholeRegister M f.reg f.nf f.vstart f.base
  | .maskStore => maskStore M f.reg f.vstart f.base
  | .unimplemented => Exec.panic .unimplemented

/-- The debug assertions on `mop`, `mew`, `nf`, `lumop` or `sumop`, and `vm`. -/
def vectorMemInfoOk (op : VectorMemOp) (rs2 : RegIdx) (vm : Bool) (func6 : BitVec 6) : Bool :=
  let mop := func6 &&& 0b11
  let mew := (func6 >>> 2) &&& 0b1
  let nf := (func6 >>> 3) &&& 0b111
  match op with
  | .unitStrideLoad _ | .unitStrideStore _ => mop == 0 && rs2 == 0
  | .constantStrideLoad _ | .constantStrideStore _ => mop == 0b10
  | .indexedOrderedLoad _ | .indexedOrderedStore _ => mop == 0b11
  | .wholeRegisterLoad => mop == 0 && rs2 == 0b01000 && vm
  | .wholeRegisterStore => mew == 0 && mop == 0 && rs2 == 0b01000 && vm
  | .maskLoad | .maskStore => nf == 0 && mew == 0 && mop == 0 && rs2 == 0b01011 && vm
  | .unimplemented => true

def vectorMemFields (regFile : RegIdx → WordType) (rs1 rs2 rd : RegIdx) (vm : Bool)
    (func6 : BitVec 6) (vstart : Nat) : VectorMemFields :=
  { base := regFile rs1
    second := regFile rs2
    reg := rd
    nf := ((func6 >>> 3) &&& 0b111).toNat
    enableMask := !vm
    vstart }

def execVectorMem (op : VectorMemOp) (info : RVInstrInfo) : CpuM P Unit :=
  normalVectorExec fun vstart => match info with
    | .V rs1 rs2 rd vm func6 => do
      assertInfo (vectorMemInfoOk op rs2 vm func6)
      let regFile := (← get).regFile
      onVector (vectorMemAccess (physMem P.bus)
        (vectorMemFields regFile rs1 rs2 rd vm func6 vstart) op)
    | _ => wrongInfo

/-- The arithmetic of the platform's vector unit. -/
def execVector (op : P.VectorOp) (info : RVInstrInfo) : CpuM P Unit :=
  normalVectorExec fun vstart => do
    let cpu ← get
    match P.vectorExec op info vstart cpu.regFile (cpu.csr.value .vcsr) cpu.vector with
    | none => Exec.panic .unimplemented
    | some (done, regFile, vcsr, vector) =>
      set { cpu with regFile, vector, csr := cpu.csr.setValue .vcsr vcsr }
      if !done then throw .illegalInstruction

end RVCPU

end HereEmu
