import HereEmu.Clock
import HereEmu.Device.IrqLine
import HereEmu.Device.Mmio

/-!
# The core-local interruptor

`mtime` is the clock of the board and an offset; a write to it changes the
offset. `mtimecmp` is compared with it at every write to either: the line is
driven at once, and if the time has not come a task of the timer is set to drive
it later.

The cycle counter and the timer belong to the board and are shared with the
device, so all three are in `ClintSystem`. Its events are the accesses of the
guest and the two ends of a batch: the timer ticks before it and the cycles are
counted after it.
-/

namespace HereEmu

def MTIME_OFFSET : Nat := 0xbff8
def MTIMECMP_OFFSET : Nat := 0x4000

/-- `concat_to_u64`. -/
def concatToU64 (high low : BitVec 32) : WordType := high.setWidth 64 <<< 32 ||| low.setWidth 64

/-- `negative_of`. -/
def negativeOf (value : WordType) : WordType := ~~~value + 1

structure Clint where
  hartNum : Nat
  msipBase : Nat
  timeBase : Nat
  timecmpBase : Nat
  timeOffset : WordType
  msip : List (BitVec 32)
  timeCmp : List WordType
  timerIrqLine : Option IRQLine
  softwareIrqLine : Option IRQLine
  timerCbId : Nat
  deriving DecidableEq, Repr

def Clint.new (hartNum msipBase mtimeBase mtimecmpBase : Nat) (now : WordType) : Clint where
  hartNum := hartNum
  msipBase := msipBase
  timeBase := mtimeBase
  timecmpBase := mtimecmpBase
  timeOffset := negativeOf now
  msip := List.replicate hartNum 0
  timeCmp := List.replicate hartNum 0
  timerIrqLine := none
  softwareIrqLine := none
  timerCbId := U64_MAX.toNat

/-- The device with the clock and the timer it uses. -/
structure ClintSystem where
  cycles : WordType
  timer : Timer IRQLine
  clint : Clint
  deriving DecidableEq, Repr

inductive ClintEvent where
  | read (w : Width) (addr : WordType)
  | write (w : Width) (addr data : WordType)
  /-- The start of a batch. -/
  | prepareCpuBatch
  /-- The end of a batch of so many cycles. -/
  | finishCpuBatch (cycles : WordType)
  deriving DecidableEq, Repr

/-- What an access was answered with, and the calls that were made. -/
structure ClintAction where
  answer : Option (Except DeviceError WordType)
  calls : List IrqCall
  deriving DecidableEq, Repr

namespace ClintSystem

variable (s : ClintSystem)

def now (s : ClintSystem) : WordType := VirtualClock.now s.cycles

def getTime : WordType := s.now + s.clint.timeOffset

/-- The line with number 0 is the timer line, the one with number 1 the software line. -/
def setIrqLine (line : IRQLine) (id : Nat) : ClintSystem :=
  if id = 0 then
    let (cbId, timer) := s.timer.register line
    { s with timer, clint.timerIrqLine := some line, clint.timerCbId := cbId }
  else if id = 1 then { s with clint.softwareIrqLine := some line }
  else s

/-- The board of one hart. -/
def new : ClintSystem :=
  let s : ClintSystem :=
    ⟨0, .new, .new 1 0 MTIME_OFFSET MTIMECMP_OFFSET (VirtualClock.now 0)⟩
  (s.setIrqLine ⟨.machineTimer⟩ 0).setIrqLine ⟨.machineSoft⟩ 1

def updateTimer (hartid : Nat) : Rust (List IrqCall × ClintSystem) :=
  match s.clint.timeCmp[hartid]?, s.clint.timerIrqLine with
  | some timeCmp, some line =>
    if timeCmp ≤ s.getTime then .ok ([line.setIrq 0 true], s)
    else
      .ok ([line.setIrq 0 false], { s with
        timer := s.timer.setDue s.clint.timerCbId (timeCmp - s.clint.timeOffset) })
  | _, _ => .error .device

/-- The loop over the harts after a write to `mtime`. -/
def updateTimers (s : ClintSystem) : List Nat → Rust (List IrqCall × ClintSystem)
  | [] => .ok ([], s)
  | hartid :: hartids => do
    let (calls, s) ← s.updateTimer hartid
    let (calls', s) ← s.updateTimers hartids
    return (calls ++ calls', s)

def read (w : Width) (addr : WordType) : Except DeviceError WordType :=
  let c := s.clint
  let addr := addr.toNat
  if c.msipBase ≤ addr ∧ addr < c.msipBase + c.hartNum * 4 then
    match c.msip[(addr - c.msipBase) / 4]? with
    | none => .error .fault
    | some msip => .ok (w.truncate (msip.setWidth 64))
  else if c.timecmpBase ≤ addr ∧ addr < c.timecmpBase + c.hartNum * 8 then
    match c.timeCmp[(addr - c.timecmpBase) / 8]? with
    | none => .error .fault
    | some timeCmp =>
      if addr % 8 = 0 then .ok (w.truncate timeCmp)
      else if addr % 8 = 4 then .ok (w.truncate (timeCmp >>> 32))
      else .error .fault
  else if addr = c.timeBase then .ok (w.truncate s.getTime)
  else if addr = c.timeBase + 4 then .ok (w.truncate (s.getTime >>> 32))
  else .error .fault

def writeMsip (hartid : Nat) (data : WordType) : ClintAction × ClintSystem :=
  let val : BitVec 32 := data.setWidth 32
  let calls := (s.clint.softwareIrqLine.map fun line => line.setIrq 1 (val &&& 1 != 0)).toList
  (⟨some (.ok 0), calls⟩, { s with clint.msip := s.clint.msip.set hartid val })

def writeTimeCmp (hartid : Nat) (value : WordType) : Rust (ClintAction × ClintSystem) := do
  let s := { s with clint.timeCmp := s.clint.timeCmp.set hartid value }
  let (calls, s) ← s.updateTimer hartid
  return (⟨some (.ok 0), calls⟩, s)

def writeTime (value : WordType) : Rust (ClintAction × ClintSystem) := do
  let s := { s with clint.timeOffset := value - s.now }
  let (calls, s) ← s.updateTimers (List.range s.clint.hartNum)
  return (⟨some (.ok 0), calls⟩, s)

/-- A write to the low half of `mtimecmp` at any type replaces all of it; a write
to the low half of `mtime` at the type of the half does not. -/
def write (w : Width) (addr data : WordType) : Rust (ClintAction × ClintSystem) :=
  let c := s.clint
  let addr := addr.toNat
  let data := w.truncate data
  if c.msipBase ≤ addr ∧ addr < c.msipBase + c.hartNum * 4 then
    let hartid := (addr - c.msipBase) / 4
    if c.msip.length ≤ hartid then .ok (⟨some (.error .fault), []⟩, s)
    else .ok (s.writeMsip hartid data)
  else if c.timecmpBase ≤ addr ∧ addr < c.timecmpBase + c.hartNum * 8 then
    let hartid := (addr - c.timecmpBase) / 8
    match c.timeCmp[hartid]? with
    | none => .ok (⟨some (.error .fault), []⟩, s)
    | some timeCmp =>
      if addr % 8 = 0 then s.writeTimeCmp hartid data
      else if addr % 8 = 4 then
        s.writeTimeCmp hartid (concatToU64 (data.setWidth 32) (timeCmp.setWidth 32))
      else .ok (⟨some (.ok 0), []⟩, s)
  else if addr = c.timeBase then
    s.writeTime (if w.bits = 32
      then concatToU64 ((s.getTime >>> 32).setWidth 32) (data.setWidth 32) else data)
  else if addr = c.timeBase + 4 then
    s.writeTime (concatToU64 (data.setWidth 32) (s.getTime.setWidth 32))
  else .ok (⟨some (.error .fault), []⟩, s)

def prepareCpuBatch : List IrqCall × ClintSystem :=
  let (callbacks, timer) := s.timer.tick s.now
  (callbacks.map fun line => line.setIrq 0 true, { s with timer })

def finishCpuBatch (cycles : WordType) : ClintSystem :=
  { s with cycles := s.cycles + cycles }

def step : ClintEvent → Rust (ClintAction × ClintSystem)
  | .read w addr => .ok (⟨some (s.read w addr), []⟩, s)
  | .write w addr data => s.write w addr data
  | .prepareCpuBatch =>
    let (calls, s) := s.prepareCpuBatch
    .ok (⟨none, calls⟩, s)
  | .finishCpuBatch cycles => .ok (⟨none, []⟩, s.finishCpuBatch cycles)

end ClintSystem

end HereEmu
