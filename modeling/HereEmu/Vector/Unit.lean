import HereEmu.Instr.Types
import HereEmu.Lib.ByteMemory
import HereEmu.Trap.Types

/-!
# The vector unit: registers, configuration, loads and stores

The loads and stores take the memory they work on as an argument. In the
source that is the physical address space; here it is any state with a read
and a write, so that a second instance can record the accesses of the first.

The fixed-point fields of the configuration belong to the vector arithmetic and
are left out. A group of registers is a run of bytes in the flat register file.
-/

namespace HereEmu

open Lib (Exec)

def VLEN_BYTE : Nat := 16

inductive Vlmul where
  | M1 | M2 | M4 | M8 | Mf8 | Mf4 | Mf2
  deriving DecidableEq, Repr

def Vlmul.getLmul : Vlmul → Nat
  | M1 => 1
  | M2 => 2
  | M4 => 4
  | M8 => 8
  | Mf8 => 1
  | Mf4 => 1
  | Mf2 => 1

/-- The longest vector: eight registers of byte elements. -/
def VL_MAX : Nat := 128

structure VectorConfig where
  vlmul : Vlmul
  vsew : Vsew
  tailAgnostic : Bool
  maskAgnostic : Bool
  vl : Nat
  vl_le : vl ≤ VL_MAX

namespace VectorConfig

def new : VectorConfig :=
  { vlmul := .M1, vsew := .E8, tailAgnostic := false, maskAgnostic := false, vl := 0
    vl_le := Nat.zero_le _ }

/-- The view `vlm.v` and `vsm.v` run under: one register of `ceil(vl / 8)` bytes. -/
def forMask (c : VectorConfig) : VectorConfig :=
  { c with
    vlmul := .M1, vsew := .E8, vl := (c.vl + 7) / 8
    vl_le := by have := c.vl_le; unfold VL_MAX at *; omega }

end VectorConfig

structure Vector where
  config : VectorConfig
  /-- The register file, register `r` from byte `r * VLEN_BYTE` on. -/
  vectorRegfile : Nat → BitVec 8

inductive VectorMemException where
  | memory (faultIndex : Nat) (exception : Exception)
  | other (exception : Exception)
  deriving DecidableEq, Repr

def VectorMemException.ofMemError (index : Nat) (err : MemError) : VectorMemException :=
  .memory index (.fromMemoryErr err)

namespace Vector

def new : Vector := { config := .new, vectorRegfile := fun _ => 0 }

/-- A group of registers starts at a multiple of its size. -/
def groupLegal (group : Nat) (idx : RegIdx) : Bool :=
  (group == 1 || group == 2 || group == 4 || group == 8) && idx.toNat % group == 0

/-- The byte of the register file at which an element of a segmented group
starts: the iteration goes through the segments first. -/
def elementByte (idx : RegIdx) (sew lmul seg index : Nat) : Nat :=
  idx.toNat * VLEN_BYTE + index / seg * sew + index % seg * (lmul * VLEN_BYTE)

/-- How many elements the iteration over a group has. -/
def elementCount (sew lmul seg : Nat) : Nat := lmul * VLEN_BYTE / sew * seg

def getElement (v : Vector) (byte : Nat) (w : Width) : WordType :=
  Lib.loadLE v.vectorRegfile byte w.bytes

def setElement (v : Vector) (byte : Nat) (w : Width) (value : WordType) : Vector :=
  { v with vectorRegfile := Lib.storeLE v.vectorRegfile byte w.bytes value }

end Vector

/-! ## Masks -/

structure VecOpMask where
  maskBit : Option (Nat → BitVec 8)
  length : Nat
  maskAgnostic : Bool
  tailAgnostic : Bool

namespace VecOpMask

/-- The mask of a load or store, from the configuration and register 0. -/
def new (v : Vector) (seg : Nat) (enableMask : Bool) : VecOpMask :=
  { maskBit := if enableMask then some v.vectorRegfile else none
    length := v.config.vl * seg
    maskAgnostic := v.config.maskAgnostic
    tailAgnostic := v.config.tailAgnostic }

def bit (m : VecOpMask) (index : Nat) : Bool :=
  match m.maskBit with
  | none => true
  -- a probe past the one mask register reads as unset
  | some bytes => decide (index / 8 < VLEN_BYTE) && (bytes (index / 8)).getLsbD (index % 8)

def shouldAccess (m : VecOpMask) (index : Nat) : Bool := m.bit index && decide (index < m.length)

/-- `none` keeps the destination; the agnostic value is zero. -/
def maskValue (m : VecOpMask) (value : WordType) (index : Nat) : Option WordType :=
  if m.length ≤ index then if m.tailAgnostic then some 0 else none
  else if m.bit index then some value
  else if m.maskAgnostic then some 0
  else none

end VecOpMask

/-! ## Loads and stores -/

/-- A memory the vector unit can use. -/
structure VecMem (μ : Type) where
  read : Width → WordType → μ → Rust (Except MemError WordType × μ)
  write : Width → WordType → WordType → μ → Rust (Except MemError Unit × μ)

structure VecState (μ : Type) where
  vector : Vector
  mem : μ

namespace Vector

variable {μ : Type} (M : VecMem μ)

abbrev VecM (μ : Type) := Exec PanicSite VectorMemException (VecState μ)

/-- A memory access for one element. A failure names the element. -/
def onMem {α : Type} (index : Nat) (f : μ → Rust (Except MemError α × μ)) : VecM μ α :=
  .ofFun fun s => do
    match ← f s.mem with
    | (.ok a, mem) => return (.ok a, { s with mem })
    | (.error e, mem) => return (.error (.ofMemError index e), { s with mem })

/-- `element_load`: the value goes through the mask into the register. -/
def elementLoad (mask : VecOpMask) (byte : Nat) (w : Width) (value : WordType) (index : Nat) :
    VecM μ Unit :=
  match mask.maskValue value index with
  | some v => modify fun s => { s with vector := s.vector.setElement byte w v }
  | none => return ()

/-- The address of an element: a fixed stride, or an offset read from memory. -/
inductive AddrCal where
  | strided (base stride : WordType)
  | indexed (base indexArrBase : WordType) (indexWidth : Width)

def AddrCal.exec : AddrCal → Nat → VecM μ WordType
  | .strided base step, index => return base + BitVec.ofNat 64 index * step
  | .indexed base indexArrBase indexWidth, index => do
    let offset ← onMem index
      (M.read indexWidth (indexArrBase + BitVec.ofNat 64 indexWidth.bytes * BitVec.ofNat 64 index))
    return base + offset

/-- The elements of a group that are still to be done. -/
def pending (count vstart : Nat) : List Nat := (List.range count).drop vstart

def loadElement (f : AddrCal) (mask : VecOpMask) (w : Width) (byte index : Nat) : VecM μ Unit := do
  if !mask.shouldAccess index then elementLoad mask byte w 0 index
  else
    let addr ← f.exec M index
    let value ← onMem index (M.read w addr)
    elementLoad mask byte w value index

def storeElement (f : AddrCal) (mask : VecOpMask) (w : Width) (byte index : Nat) : VecM μ Unit := do
  -- past the active length the source leaves the loop; those elements do nothing
  if mask.shouldAccess index then
    let addr ← f.exec M index
    let s ← get
    onMem index (M.write w addr (s.vector.getElement byte w))

/-- The common body of `stride_load` and `indexed_ordered_load`. -/
def loadGroup (f : AddrCal) (vd : RegIdx) (w : Width) (seg : Nat)
    (enableMask : Bool) (vstart : Nat) : VecM μ Unit := do
  let v := (← get).vector
  let lmul := v.config.vlmul.getLmul
  let mask := VecOpMask.new v seg enableMask
  if !groupLegal (lmul * seg) vd then throw (.other .illegalInstruction)
  (pending (elementCount w.bytes lmul seg) vstart).forM fun index =>
    loadElement M f mask w (elementByte vd w.bytes lmul seg index) index

/-- The common body of `stride_store` and `indexed_ordered_store`. -/
def storeGroup (f : AddrCal) (vs : RegIdx) (w : Width) (seg : Nat)
    (enableMask : Bool) (vstart : Nat) : VecM μ Unit := do
  let v := (← get).vector
  let lmul := v.config.vlmul.getLmul
  let mask := VecOpMask.new v seg enableMask
  if !groupLegal (lmul * seg) vs then throw (.other .illegalInstruction)
  (pending (elementCount w.bytes lmul seg) vstart).forM fun index =>
    storeElement M f mask w (elementByte vs w.bytes lmul seg index) index

def strideLoad (vd : RegIdx) (eew : Vsew) (seg : Nat) (stride : Option WordType)
    (enableMask : Bool) (vstart : Nat) (base : WordType) : VecM μ Unit :=
  loadGroup M (.strided base (stride.getD (BitVec.ofNat 64 eew.intoByteWidth))) vd eew.width seg
    enableMask vstart

def strideStore (vs : RegIdx) (eew : Vsew) (seg : Nat) (stride : Option WordType)
    (enableMask : Bool) (vstart : Nat) (base : WordType) : VecM μ Unit :=
  storeGroup M (.strided base (stride.getD (BitVec.ofNat 64 eew.intoByteWidth))) vs eew.width seg
    enableMask vstart

/-- Elements are as wide as SEW; `eew` is the width of the entries of the index
array, which is read from memory. -/
def indexedOrderedLoad (vd : RegIdx) (eew : Vsew) (seg : Nat)
    (indexArrBase : WordType) (enableMask : Bool) (vstart : Nat) (base : WordType) :
    VecM μ Unit := do
  let w := (← get).vector.config.vsew.width
  loadGroup M (.indexed base indexArrBase eew.width) vd w seg enableMask vstart

def indexedOrderedStore (vs : RegIdx) (eew : Vsew) (seg : Nat)
    (indexArrBase : WordType) (enableMask : Bool) (vstart : Nat) (base : WordType) :
    VecM μ Unit := do
  let w := (← get).vector.config.vsew.width
  storeGroup M (.indexed base indexArrBase eew.width) vs w seg enableMask vstart

/-- Runs a transfer under another configuration and puts the old one back,
whether it succeeds or fails. -/
def withConfig (c : VectorConfig → VectorConfig) (m : VecM μ Unit) : VecM μ Unit :=
  .ofFun fun s => do
    let saved := s.vector.config
    let (r, s) ← m.run { s with vector := { s.vector with config := c saved } }
    return (r, { s with vector := { s.vector with config := saved } })

def maskLoad (vd : RegIdx) (vstart : Nat) (base : WordType) : VecM μ Unit :=
  withConfig .forMask (strideLoad M vd .E8 1 none false vstart base)

def maskStore (vs : RegIdx) (vstart : Nat) (base : WordType) : VecM μ Unit :=
  withConfig .forMask (strideStore M vs .E8 1 none false vstart base)

def decodeWholeRegisterCount (nf : Nat) : Option Nat :=
  match nf with
  | 0 => some 1
  | 1 => some 2
  | 3 => some 4
  | 7 => some 8
  | _ => none

/-- Whole registers are moved as doublewords, whatever the configuration. -/
def wholeAddr (base : WordType) (index : Nat) : WordType := base + BitVec.ofNat 64 index * 8

def loadWholeRegister (vd : RegIdx) (nf vstart : Nat) (base : WordType) : VecM μ Unit := do
  let some lmul := decodeWholeRegisterCount nf | throw (.other .illegalInstruction)
  if !groupLegal lmul vd then throw (.other .illegalInstruction)
  (pending (elementCount 8 lmul 1) vstart).forM fun index => do
    let value ← onMem index (M.read .u64 (wholeAddr base index))
    modify fun s =>
      { s with vector := s.vector.setElement (elementByte vd 8 lmul 1 index) .u64 value }

def storeWholeRegister (vs : RegIdx) (nf vstart : Nat) (base : WordType) : VecM μ Unit := do
  let some lmul := decodeWholeRegisterCount nf | throw (.other .illegalInstruction)
  if !groupLegal lmul vs then throw (.other .illegalInstruction)
  (pending (elementCount 8 lmul 1) vstart).forM fun index => do
    let s ← get
    onMem index (M.write .u64 (wholeAddr base index)
      (s.vector.getElement (elementByte vs 8 lmul 1 index) .u64))

end Vector

end HereEmu
