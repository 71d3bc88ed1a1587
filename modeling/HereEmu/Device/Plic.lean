import HereEmu.Device.IrqLine
import HereEmu.Device.Mmio
import HereEmu.Lib.Scan
import Mathlib.Data.Finset.Basic
import Mathlib.Data.List.Sort
import Mathlib.Logic.Function.Basic

/-!
# The platform-level interrupt controller

`PLICLayout` has the registers and the gateways. A gateway turns the level of a
source into a request: the source is pending until a context claims it and busy
from then on until a context completes it. `PLIC` has the lines to the hart, one
per context, with the level each was left at.

Indices are bounded by their types, so that no access to an array of the source
can fail here: a number that comes from outside is checked where the source
checks it (`validInterruptId`, `validContextId`) and is a `Source` or a
`ContextId` afterwards.

The levels of the devices are read when the controller looks at them. They come
with the event that makes it do so.
-/

namespace HereEmu

open Lib Function

def VIRT_MAX_INTERRUPTS : Nat := 64
def VIRT_MAX_CONTEXTS : Nat := 16
def REGISTER_BYTES : Nat := 4
def INTERRUPTS_PER_REGISTER : Nat := 32
def PLIC_INTERRUPT_WORDS : Nat := VIRT_MAX_INTERRUPTS / INTERRUPTS_PER_REGISTER
def CLAIM_COMPLETE_REGISTER_INDEX : Nat := 1

def PENDING_BIT_OFFSET : Nat := 0x001000
def CONTEXT_ENABLE_BIT_OFFSET : Nat := 0x002000
def CONTEXT_ENABLE_BIT_SIZE : Nat := 0x80
def CONTEXT_CONFIG_OFFSET : Nat := 0x200000
def CONTEXT_CONFIG_SIZE : Nat := 0x1000
def PLIC_SIZE : Nat := 0x4000000

abbrev Source := Fin VIRT_MAX_INTERRUPTS
abbrev ContextId := Fin VIRT_MAX_CONTEXTS

def INTERRUPT_SOURCE_ZERO : Source := ⟨0, by decide⟩

/-- An id that `is_valid_interrupt_id` accepts. -/
def validInterruptId (id : Nat) : Option Source :=
  if h : id ≠ INTERRUPT_SOURCE_ZERO.val ∧ id < VIRT_MAX_INTERRUPTS then some ⟨id, h.2⟩ else none

/-- An id that `is_valid_context_id` accepts. -/
def validContextId (id : Nat) : Option ContextId :=
  if h : id < VIRT_MAX_CONTEXTS then some ⟨id, h⟩ else none

/-! ## Bit registers -/

structure PLICBitReg where
  bits : Fin PLIC_INTERRUPT_WORDS → BitVec 32

/-- The index of `interrupt_word_and_mask`. -/
def interruptWord (id : Source) : Fin PLIC_INTERRUPT_WORDS :=
  ⟨id.val / INTERRUPTS_PER_REGISTER, Nat.div_lt_of_lt_mul id.isLt⟩

/-- The mask of `interrupt_word_and_mask`. -/
def interruptMask (id : Source) : BitVec 32 := 1#32 <<< (id.val % INTERRUPTS_PER_REGISTER)

namespace PLICBitReg

variable (r : PLICBitReg)

def new : PLICBitReg := ⟨fun _ => 0⟩

def setBit (id : Source) : PLICBitReg :=
  ⟨update r.bits (interruptWord id) (r.bits (interruptWord id) ||| interruptMask id)⟩

def clearBit (id : Source) : PLICBitReg :=
  ⟨update r.bits (interruptWord id) (r.bits (interruptWord id) &&& ~~~(interruptMask id))⟩

def getBit (id : Source) : Bool :=
  r.bits (interruptWord id) &&& interruptMask id != 0

def readWord (index : Fin PLIC_INTERRUPT_WORDS) : BitVec 32 := r.bits index

def writeWord (index : Fin PLIC_INTERRUPT_WORDS) (value : BitVec 32) : PLICBitReg :=
  ⟨update r.bits index value⟩

end PLICBitReg

/-! ## Registers and gateways -/

structure PLICContext where
  enable : PLICBitReg
  priorityThreshold : BitVec 32

def PLICContext.new : PLICContext := ⟨.new, 0⟩

inductive PlicRegister where
  | priority (id : Source)
  | pending (wordIndex : Fin PLIC_INTERRUPT_WORDS)
  | enable (contextId : ContextId) (wordIndex : Fin PLIC_INTERRUPT_WORDS)
  | threshold (contextId : ContextId)
  | claimComplete (contextId : ContextId)
  deriving DecidableEq, Repr

structure PLICLayout where
  priority : Source → BitVec 32
  pending : PLICBitReg
  sourceLevel : PLICBitReg
  contexts : ContextId → PLICContext
  priorityOrder : List Source
  interruptSourcesBusy : Finset Source

/-- The key of `sort_by_key`, compared: a higher priority first, then a lower id. -/
def priorityLe (priority : Source → BitVec 32) (i j : Source) : Prop :=
  priority j < priority i ∨ priority i = priority j ∧ i ≤ j

instance (p : Source → BitVec 32) : DecidableRel (priorityLe p) :=
  fun _ _ => inferInstanceAs (Decidable (_ ∨ _))

namespace PLICLayout

variable (l : PLICLayout) (contextId : ContextId)

def new : PLICLayout where
  priority _ := 0
  pending := .new
  sourceLevel := .new
  contexts _ := .new
  priorityOrder := List.finRange VIRT_MAX_INTERRUPTS
  interruptSourcesBusy := ∅

def sortPriorityOrder : PLICLayout :=
  { l with priorityOrder := l.priorityOrder.insertionSort (priorityLe l.priority) }

def writePriority (id : Source) (value : BitVec 32) : PLICLayout :=
  if value ≠ l.priority id then
    sortPriorityOrder { l with priority := update l.priority id value }
  else l

def setSourceLevel (id : Source) (level : Bool) : PLICLayout :=
  if level then
    let l := { l with sourceLevel := l.sourceLevel.setBit id }
    if !l.pending.getBit id && decide (id ∉ l.interruptSourcesBusy) then
      { l with pending := l.pending.setBit id }
    else l
  else { l with sourceLevel := l.sourceLevel.clearBit id }

/-- The bit of source 0 cannot be set. -/
def writeEnableWord (wordIndex : Fin PLIC_INTERRUPT_WORDS)
    (value : BitVec 32) : PLICLayout :=
  let value := if wordIndex = interruptWord INTERRUPT_SOURCE_ZERO
    then value &&& ~~~(interruptMask INTERRUPT_SOURCE_ZERO) else value
  let context := l.contexts contextId
  let context := { context with enable := context.enable.writeWord wordIndex value }
  { l with contexts := update l.contexts contextId context }

def isEnabled (id : Source) : Bool :=
  (l.contexts contextId).enable.getBit id

def writePriorityThreshold (value : BitVec 32) : PLICLayout :=
  let context := { l.contexts contextId with priorityThreshold := value }
  { l with contexts := update l.contexts contextId context }

/-- The body of the loop of `find_pending_interrupt`. -/
def examine (applyThreshold : Bool) (id : Source) : Verdict :=
  if id = INTERRUPT_SOURCE_ZERO then .skip
  else if l.priority id = 0 then .stop
  else if applyThreshold && decide (l.priority id ≤ (l.contexts contextId).priorityThreshold) then
    .skip
  else if id ∈ l.interruptSourcesBusy then .skip
  else if l.isEnabled contextId id && l.pending.getBit id then .take
  else .skip

def findPendingInterrupt (applyThreshold : Bool) : Option Source :=
  scan (l.examine contextId applyThreshold) l.priorityOrder

/-- The answer is 0, `NO_PENDING_INTERRUPT`, when there is nothing to claim. -/
def readClaim : BitVec 32 × PLICLayout :=
  match l.findPendingInterrupt contextId false with
  | none => (0, l)
  | some id =>
    (BitVec.ofNat 32 id.val, { l with
      pending := l.pending.clearBit id, interruptSourcesBusy := insert id l.interruptSourcesBusy })

def writeComplete (value : BitVec 32) : PLICLayout :=
  match validInterruptId value.toNat with
  | none => l
  | some id =>
    if !l.isEnabled contextId id then l
    else
      let completed := { l with interruptSourcesBusy := l.interruptSourcesBusy.erase id }
      if id ∈ l.interruptSourcesBusy ∧ l.sourceLevel.getBit id then
        { completed with pending := l.pending.setBit id }
      else completed

def pendingInterruptToNotify : Option Source :=
  l.findPendingInterrupt contextId true

def decodeRegister (innerAddr : WordType) : Option PlicRegister :=
  let addr := innerAddr.toNat
  if addr % REGISTER_BYTES ≠ 0 then none
  else if addr < PENDING_BIT_OFFSET then (validInterruptId (addr / REGISTER_BYTES)).map .priority
  else if addr < CONTEXT_ENABLE_BIT_OFFSET then
    let wordIndex := (addr - PENDING_BIT_OFFSET) / REGISTER_BYTES
    if h : wordIndex < PLIC_INTERRUPT_WORDS then some (.pending ⟨wordIndex, h⟩) else none
  else if addr < CONTEXT_CONFIG_OFFSET then
    let contextId := (addr - CONTEXT_ENABLE_BIT_OFFSET) / CONTEXT_ENABLE_BIT_SIZE
    let offset := (addr - CONTEXT_ENABLE_BIT_OFFSET) % CONTEXT_ENABLE_BIT_SIZE
    let wordIndex := offset / REGISTER_BYTES
    if h : contextId < VIRT_MAX_CONTEXTS ∧ wordIndex < PLIC_INTERRUPT_WORDS then
      some (.enable ⟨contextId, h.1⟩ ⟨wordIndex, h.2⟩)
    else none
  else if addr < PLIC_SIZE then
    let contextId := (addr - CONTEXT_CONFIG_OFFSET) / CONTEXT_CONFIG_SIZE
    let offset := (addr - CONTEXT_CONFIG_OFFSET) % CONTEXT_CONFIG_SIZE
    let registerIndex := offset / REGISTER_BYTES
    (validContextId contextId).bind fun contextId =>
      if registerIndex = 0 then some (.threshold contextId)
      else if registerIndex = CLAIM_COMPLETE_REGISTER_INDEX then some (.claimComplete contextId)
      else none
  else none

def readRegister : PlicRegister → BitVec 32 × PLICLayout
  | .priority id => (l.priority id, l)
  | .pending wordIndex => (l.pending.readWord wordIndex, l)
  | .enable contextId wordIndex => ((l.contexts contextId).enable.readWord wordIndex, l)
  | .threshold contextId => ((l.contexts contextId).priorityThreshold, l)
  | .claimComplete contextId => l.readClaim contextId

def writeRegister (register : PlicRegister) (value : BitVec 32) : PLICLayout :=
  match register with
  | .priority id => l.writePriority id value
  | .enable contextId wordIndex => l.writeEnableWord contextId wordIndex value
  | .threshold contextId => l.writePriorityThreshold contextId value
  | .claimComplete contextId => l.writeComplete contextId value
  | .pending _ => l

end PLICLayout

/-! ## The controller -/

structure PLIC where
  layout : PLICLayout
  riscvIrqLine : ContextId → Option IRQLine
  riscvIrqLevel : ContextId → Option Bool
  /-- The sources a device is registered at. -/
  peripheralIrqDevices : Source → Bool

inductive PlicEvent where
  | read (w : Width) (innerAddr : WordType) (levels : Source → Bool)
  | write (w : Width) (innerAddr data : WordType) (levels : Source → Bool)
  | setInterruptLevel (id : BitVec 32) (level : Bool)
  | registerDevice (id : BitVec 32)
  | updateContextIrqLine (contextId : Nat) (levels : Source → Bool)
  | updateContextIrqLines (contextIds : List Nat) (levels : Source → Bool)
  | setIrqLine (line : IRQLine) (id : Nat)

/-- What an event was answered with, or the calls it made. -/
inductive PlicAction where
  | answer (r : Except DeviceError WordType)
  | calls (calls : List IrqCall)
  deriving DecidableEq, Repr

namespace PLIC

variable (p : PLIC)

def new : PLIC := ⟨.new, fun _ => none, fun _ => none, fun _ => false⟩

def syncPeripheralIrqLevels (levels : Source → Bool) : PLIC :=
  { p with layout := (List.finRange VIRT_MAX_INTERRUPTS).foldl (fun l id =>
      if p.peripheralIrqDevices id then l.setSourceLevel id (levels id) else l) p.layout }

/-- Whether an access to the register looks at the devices first. -/
def samples : PlicRegister → Bool
  | .claimComplete _ => true
  | _ => false

def read (w : Width) (innerAddr : WordType) (levels : Source → Bool) :
    Except DeviceError WordType × PLIC :=
  if w.bytes ≠ REGISTER_BYTES then (.error .fault, p)
  else
    match PLICLayout.decodeRegister innerAddr with
    | none => (.error .fault, p)
    | some register =>
      let p := if samples register then p.syncPeripheralIrqLevels levels else p
      let (data, layout) := p.layout.readRegister register
      (.ok (data.setWidth 64), { p with layout })

def write (w : Width) (innerAddr data : WordType) (levels : Source → Bool) :
    Except DeviceError WordType × PLIC :=
  if w.bytes ≠ REGISTER_BYTES then (.error .fault, p)
  else
    match PLICLayout.decodeRegister innerAddr with
    | none => (.error .fault, p)
    | some (.pending _) => (.error .fault, p)
    | some register =>
      let p := if samples register then p.syncPeripheralIrqLevels levels else p
      (.ok 0, { p with layout := p.layout.writeRegister register (data.setWidth 32) })

def setInterruptLevel (id : BitVec 32) (level : Bool) : PLIC :=
  match validInterruptId id.toNat with
  | none => p
  | some id => { p with layout := p.layout.setSourceLevel id level }

def registerDevice (id : BitVec 32) : Rust PLIC :=
  match validInterruptId id.toNat with
  | none => .error .device
  | some id =>
    .ok { p with peripheralIrqDevices := update p.peripheralIrqDevices id true }

/-- A level the line already has is not sent again. -/
def setContextIrqLine (contextId : ContextId) (level : Bool) : List IrqCall × PLIC :=
  if p.riscvIrqLevel contextId = some level then ([], p)
  else
    (((p.riscvIrqLine contextId).map fun line => line.setIrq contextId.val level).toList,
      { p with riscvIrqLevel := update p.riscvIrqLevel contextId (some level) })

def refreshContextIrqLine (contextId : ContextId) : Option Source × List IrqCall × PLIC :=
  let pendingInterrupt := p.layout.pendingInterruptToNotify contextId
  (pendingInterrupt, p.setContextIrqLine contextId pendingInterrupt.isSome)

def updateContextIrqLine (contextId : Nat) (levels : Source → Bool) :
    Option Source × List IrqCall × PLIC :=
  match validContextId contextId with
  | none => (none, [], p)
  | some contextId => (p.syncPeripheralIrqLevels levels).refreshContextIrqLine contextId

/-- The loop of `update_context_irq_lines`. -/
def refreshContextIrqLines (p : PLIC) : List Nat → List IrqCall × PLIC
  | [] => ([], p)
  | contextId :: contextIds =>
    match validContextId contextId with
    | none => p.refreshContextIrqLines contextIds
    | some contextId =>
      let (_, calls, p) := p.refreshContextIrqLine contextId
      let (calls', p) := p.refreshContextIrqLines contextIds
      (calls ++ calls', p)

def updateContextIrqLines (contextIds : List Nat) (levels : Source → Bool) : List IrqCall × PLIC :=
  (p.syncPeripheralIrqLevels levels).refreshContextIrqLines contextIds

def setIrqLine (line : IRQLine) (id : Nat) : Rust (List IrqCall × PLIC) :=
  match validContextId id with
  | none => .error .device
  | some id =>
    let p := { p with
      riscvIrqLine := update p.riscvIrqLine id (some line)
      riscvIrqLevel := update p.riscvIrqLevel id none }
    .ok (p.refreshContextIrqLine id).2

def step : PlicEvent → Rust (PlicAction × PLIC)
  | .read w innerAddr levels =>
    let (r, p) := p.read w innerAddr levels
    .ok (.answer r, p)
  | .write w innerAddr data levels =>
    let (r, p) := p.write w innerAddr data levels
    .ok (.answer r, p)
  | .setInterruptLevel id level => .ok (.calls [], p.setInterruptLevel id level)
  | .registerDevice id => do return (.calls [], ← p.registerDevice id)
  | .updateContextIrqLine contextId levels =>
    let (_, calls, p) := p.updateContextIrqLine contextId levels
    .ok (.calls calls, p)
  | .updateContextIrqLines contextIds levels =>
    let (calls, p) := p.updateContextIrqLines contextIds levels
    .ok (.calls calls, p)
  | .setIrqLine line id => do
    let (calls, p) ← p.setIrqLine line id
    return (.calls calls, p)

end PLIC

end HereEmu
