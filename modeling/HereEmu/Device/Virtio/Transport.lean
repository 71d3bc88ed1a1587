import HereEmu.Device.Mmio
import HereEmu.Device.Virtio.Block
import Mathlib.Logic.Function.Basic

/-!
# The virtio register file

The memory-mapped transport in front of a block device. It keeps its own copy
of the size and the addresses of each queue and hands them to the device when
the driver sets `QueueReady`; the size it also hands over at once.

A register write ends at once except for two. Ringing the doorbell makes the
device thread serve the queue, and a status of zero makes it wait for the
worker. `Call` is what such a write leaves to be done.
-/

namespace HereEmu

open Lib VirtIOBlkDevice

def VIRT_MAGIC : BitVec 32 := 0x74726976#32
def VIRT_VERSION : BitVec 32 := 2#32
def VIRT_VENDOR : BitVec 32 := 0x4A444E42#32
def VIRTIO_DEVICE_ID_BLOCK : BitVec 32 := 2#32
def VIRTIO_MMIO_CONFIG_OFFSET : Nat := 0x100
def VIRTIO_MMIO_MAX_QUEUES : Nat := 8
def FEATURE_WORD_COUNT : Nat := 4

inductive VirtIOMMIOOffset where
  | magicValue | version | deviceId | vendorId | deviceFeatures | deviceFeaturesSelect
  | driverFeatures | driverFeaturesSelect | queueSelect | queueNumMax | queueNum | queueReady
  | queueNotify | interruptStatus | interruptAck | status | queueDescLow | queueDescHigh
  | queueAvailLow | queueAvailHigh | queueUsedLow | queueUsedHigh | sharedMemSelect
  | sharedMemLenLow | sharedMemLenHigh | sharedMemBaseLow | sharedMemBaseHigh
  | configGeneration | config
  deriving DecidableEq, Repr

def VirtIOMMIOOffset.tryFrom (offset : Nat) : Option VirtIOMMIOOffset :=
  match offset with
  | 0x000 => some .magicValue
  | 0x004 => some .version
  | 0x008 => some .deviceId
  | 0x00C => some .vendorId
  | 0x010 => some .deviceFeatures
  | 0x014 => some .deviceFeaturesSelect
  | 0x020 => some .driverFeatures
  | 0x024 => some .driverFeaturesSelect
  | 0x030 => some .queueSelect
  | 0x034 => some .queueNumMax
  | 0x038 => some .queueNum
  | 0x044 => some .queueReady
  | 0x050 => some .queueNotify
  | 0x060 => some .interruptStatus
  | 0x064 => some .interruptAck
  | 0x070 => some .status
  | 0x080 => some .queueDescLow
  | 0x084 => some .queueDescHigh
  | 0x090 => some .queueAvailLow
  | 0x094 => some .queueAvailHigh
  | 0x0A0 => some .queueUsedLow
  | 0x0A4 => some .queueUsedHigh
  | 0x0AC => some .sharedMemSelect
  | 0x0B0 => some .sharedMemLenLow
  | 0x0B4 => some .sharedMemLenHigh
  | 0x0B8 => some .sharedMemBaseLow
  | 0x0BC => some .sharedMemBaseHigh
  | 0x0FC => some .configGeneration
  | 0x100 => some .config
  | _ => none

/-- The status bits that are defined. -/
def VirtIODeviceStatus.all : BitVec 8 := 0b11001111#8

structure VirtIOMMIOQueueStatus where
  num : BitVec 32
  desc : WordType
  avail : WordType
  used : WordType
  enable : Bool
  deriving DecidableEq, Repr

namespace VirtIOMMIOQueueStatus

def default : VirtIOMMIOQueueStatus := ⟨0, 0, 0, 0, false⟩

def setLow (value : WordType) (low : BitVec 32) : WordType :=
  (value &&& ~~~0xFFFFFFFF#64) ||| low.setWidth 64

def setHigh (value : WordType) (high : BitVec 32) : WordType :=
  (value &&& 0xFFFFFFFF#64) ||| (high.setWidth 64 <<< 32)

end VirtIOMMIOQueueStatus

structure VirtIOMMIO where
  device : VirtIOBlkDevice
  hostFeaturesSel : BitVec 32
  guestFeaturesSel : BitVec 32
  guestFeatures : VirtIOFeatureSet
  queues : Fin VIRTIO_MMIO_MAX_QUEUES → VirtIOMMIOQueueStatus
  queueSelect : Nat

namespace VirtIOMMIO

variable (m : VirtIOMMIO)

def new (device : VirtIOBlkDevice) : VirtIOMMIO := ⟨device, 0, 0, 0, fun _ => .default, 0⟩

/-- `self.queues.get(i)`. -/
def queue? (i : Nat) : Option VirtIOMMIOQueueStatus :=
  if h : i < VIRTIO_MMIO_MAX_QUEUES then some (m.queues ⟨i, h⟩) else none

def selectedQueue : Option VirtIOMMIOQueueStatus := m.queue? m.queueSelect

/-- A change through `selected_queue_mut`, which does nothing when no queue is selected. -/
def updateSelected (f : VirtIOMMIOQueueStatus → VirtIOMMIOQueueStatus) : VirtIOMMIO :=
  if h : m.queueSelect < VIRTIO_MMIO_MAX_QUEUES then
    { m with queues := Function.update m.queues ⟨m.queueSelect, h⟩ (f (m.queues ⟨m.queueSelect, h⟩)) }
  else m

/-- The part of `reset` before the device is reset. -/
def resetRegisters : VirtIOMMIO := .new m.device

def featureWord (features : VirtIOFeatureSet) (select : BitVec 32) : BitVec 32 :=
  if FEATURE_WORD_COUNT ≤ select.toNat then 0 else (features >>> (select.toNat * 32)).setWidth 32

def setFeatureWord (features : VirtIOFeatureSet) (select value : BitVec 32) : VirtIOFeatureSet :=
  if FEATURE_WORD_COUNT ≤ select.toNat then features
  else
    let shift := select.toNat * 32
    (features &&& ~~~(0xFFFFFFFF#128 <<< shift)) ||| (value.setWidth 128 <<< shift)

/-! ## Reads -/

/-- A read of a register the driver may only write does not return. -/
def readU32Impl (isr : BitVec 8) (offset : Nat) : Rust (BitVec 32) :=
  if offset % 4 ≠ 0 then .error .device
  else if VIRTIO_MMIO_CONFIG_OFFSET ≤ offset then
    .ok ((m.device.readConfig (offset - VIRTIO_MMIO_CONFIG_OFFSET) 4).setWidth 32)
  else
    match VirtIOMMIOOffset.tryFrom offset with
    | none => .ok 0
    | some reg =>
      match reg with
      | .magicValue => .ok VIRT_MAGIC
      | .version => .ok VIRT_VERSION
      | .deviceId => .ok VIRTIO_DEVICE_ID_BLOCK
      | .vendorId => .ok VIRT_VENDOR
      | .deviceFeatures => .ok (featureWord m.device.hostFeature m.hostFeaturesSel)
      | .queueNumMax =>
        .ok (if m.queueSelect < getNumOfQueue then BitVec.ofNat 32 VIRTQUEUE_MAX_SIZE
          else 0)
      | .queueReady => .ok (if m.selectedQueue.any (·.enable) then 1 else 0)
      | .interruptStatus => .ok (isr.setWidth 32)
      | .status => .ok (m.device.status.setWidth 32)
      | .configGeneration => .ok m.device.generation
      | .sharedMemLenLow | .sharedMemLenHigh => .ok 0xFFFFFFFF#32
      | .sharedMemBaseHigh | .sharedMemBaseLow | .sharedMemSelect => .ok 0
      | .config | .deviceFeaturesSelect | .driverFeatures | .driverFeaturesSelect | .queueSelect
      | .queueNum | .queueNotify | .interruptAck | .queueDescLow | .queueDescHigh
      | .queueAvailLow | .queueAvailHigh | .queueUsedLow | .queueUsedHigh => .error .device

/-- `read_impl` at the type of `w`. -/
def read (isr : BitVec 8) (w : Width) (addr : WordType) : Rust (Except DeviceError WordType) :=
  if VIRTIO_MMIO_CONFIG_OFFSET ≤ addr.toNat then
    if !checkAlign w addr then .ok (.error .misaligned)
    else .ok (.ok (w.truncate
      (m.device.readConfig (addr.toNat - VIRTIO_MMIO_CONFIG_OFFSET) w.bytes)))
  else if w.bytes ≠ 4 ∨ addr.toNat % 4 ≠ 0 then .ok (.error .misaligned)
  else do return .ok ((← m.readU32Impl isr addr.toNat).setWidth 64)

/-! ## Writes -/

open VirtIOMMIOQueueStatus (setLow setHigh)

variable (m : VirtIOMMIO)

/-- What a write leaves the device thread to do. -/
inductive Call where
  | none | notify | reset
  deriving DecidableEq, Repr

/-- The registers, the interrupt status and the call after a write. -/
structure Written where
  mmio : VirtIOMMIO
  isr : BitVec 8
  call : Call

/-- The write to `QueueNum`. The device learns the new size without looking at
its pointers again. -/
def writeQueueNum (value : BitVec 32) : VirtIOMMIO :=
  if value = 0 ∨ VIRTQUEUE_MAX_SIZE < value.toNat then m
  else
    let selected := m.updateSelected fun q => { q with num := value }
    if m.queueSelect < getNumOfQueue then
      { selected with device.queue := selected.device.queue.setQueueNum value }
    else selected

/-- The size and the addresses as they go to the device. -/
def configure (queue : VirtQueue) (q : VirtIOMMIOQueueStatus) : VirtQueue :=
  (((queue.setQueueNum q.num).setDesc q.desc).setAvail q.avail).setUsed q.used

/-- The write to `QueueReady`. -/
def writeQueueReady (value : BitVec 32) : VirtIOMMIO :=
  if 1 < value.toNat then m
  else
    match m.selectedQueue with
    | none => m
    | some q =>
      if value = 1 ∧ q.num = 0 then m
      else
        let enabled := m.updateSelected fun q => { q with enable := value ≠ 0 }
        if value ≠ 0 ∧ m.queueSelect < getNumOfQueue then
          let configured :=
            { enabled with device.queue := configure enabled.device.queue q }
          if configured.device.queue.ready then configured
          else configured.updateSelected fun q => { q with enable := false }
        else enabled

/-- A write to `Status` other than zero. -/
def writeStatus (value : BitVec 32) : VirtIOMMIO :=
  let new := value.setWidth 8
  if new &&& ~~~VirtIODeviceStatus.all ≠ 0 then m
  else
    let device := { m.device with status := m.device.status ||| new }
    { m with device := if new &&& featuresOk ≠ 0
        then device.setFeature m.guestFeatures else device }

def writeU32Impl (isr : BitVec 8) (offset : Nat) (value : BitVec 32) : Rust Written :=
  let done (m : VirtIOMMIO) : Rust Written := .ok ⟨m, isr, .none⟩
  if offset % 4 ≠ 0 then .error .device
  else if VIRTIO_MMIO_CONFIG_OFFSET ≤ offset then
    done { m with device :=
      m.device.writeConfig (offset - VIRTIO_MMIO_CONFIG_OFFSET) 4 (value.setWidth 64) }
  else
    match VirtIOMMIOOffset.tryFrom offset with
    | none => done m
    | some reg =>
      match reg with
      | .deviceFeaturesSelect => done { m with hostFeaturesSel := value }
      | .driverFeatures =>
        done { m with guestFeatures := setFeatureWord m.guestFeatures m.guestFeaturesSel value }
      | .driverFeaturesSelect => done { m with guestFeaturesSel := value }
      | .queueSelect => done { m with queueSelect := value.toNat }
      | .queueNum => done (m.writeQueueNum value)
      | .queueReady => done (m.writeQueueReady value)
      | .queueNotify =>
        if value.toNat < getNumOfQueue ∧ (m.queue? value.toNat).any (·.enable) then
          .ok ⟨m, isr, .notify⟩
        else done m
      | .interruptAck => .ok ⟨m, isr &&& ~~~(value.setWidth 8), .none⟩
      | .status =>
        if value = 0 then .ok ⟨m.resetRegisters, isr, .reset⟩ else done (m.writeStatus value)
      | .queueDescLow => done (m.updateSelected fun q => { q with desc := setLow q.desc value })
      | .queueDescHigh => done (m.updateSelected fun q => { q with desc := setHigh q.desc value })
      | .queueAvailLow => done (m.updateSelected fun q => { q with avail := setLow q.avail value })
      | .queueAvailHigh => done (m.updateSelected fun q => { q with avail := setHigh q.avail value })
      | .queueUsedLow => done (m.updateSelected fun q => { q with used := setLow q.used value })
      | .queueUsedHigh => done (m.updateSelected fun q => { q with used := setHigh q.used value })
      | .magicValue | .version | .deviceId | .vendorId | .deviceFeatures | .queueNumMax
      | .interruptStatus | .configGeneration | .sharedMemBaseHigh | .sharedMemBaseLow
      | .sharedMemLenHigh | .sharedMemLenLow | .sharedMemSelect => done m
      | .config => .error .device

/-- `write_impl` at the type of `w`. -/
def write (isr : BitVec 8) (w : Width) (addr data : WordType) : Rust (Except DeviceError Written) :=
  if VIRTIO_MMIO_CONFIG_OFFSET ≤ addr.toNat then
    if !checkAlign w addr then .ok (.error .misaligned)
    else
      let device := m.device.writeConfig (addr.toNat - VIRTIO_MMIO_CONFIG_OFFSET) w.bytes
        (w.truncate data)
      .ok (.ok ⟨{ m with device }, isr, .none⟩)
  else if w.bytes ≠ 4 ∨ addr.toNat % 4 ≠ 0 then .ok (.error .misaligned)
  else do return .ok (← m.writeU32Impl isr addr.toNat (data.setWidth 32))

end VirtIOMMIO

end HereEmu
