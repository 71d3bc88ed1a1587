import HereEmu.Board
import HereEmu.Device.Plic
import HereEmu.Device.Virtio.Block

/-!
# Putting the devices on the board

`RVBoardBuilder` gives every device a place in the arena and a region. A device
that can interrupt also gets a source of the interrupt controller. The first
device of a type brings the base address and the first source for all of its
type; later ones take what the allocator of the type has next.

The board has a power manager, a UART and the virtio devices of its
configuration, then the two interrupt controllers. The sample timer of the test
builds is left out. The host's files are a parameter: whether a path can be
opened, and how long the file is.
-/

namespace HereEmu

def UART_BASE : WordType := 0x10000000
def UART_SIZE : WordType := 8
def UART_IRQ : BitVec 32 := 10

def VIRTIO_MMIO_BASE : WordType := 0x10001000
def VIRTIO_MMIO_SIZE : WordType := 0x1000
def VIRTIO_IRQ_BASE : BitVec 32 := 1

def POWER_MANAGER_BASE : WordType := 0x100000
def POWER_MANAGER_SIZE : WordType := 0x1000
def CLINT_SIZE : WordType := 0x10000
def PLIC_BASE : WordType := 0xc000000

/-- The types of the devices, which the allocators are kept under. -/
inductive DeviceType where
  | powerManager | uart16550A | virtioMmio | clint | plic
  deriving DecidableEq, Repr

/-! ## Allocators -/

structure MemMapInfo where
  base : WordType
  size : WordType
  irq : Option (BitVec 32)
  deriving DecidableEq, Repr

/-- The names the allocator makes up are left out. -/
structure IdAllocator where
  id : WordType
  memBase : WordType
  memSize : WordType
  irqBase : Option (BitVec 32)
  deriving DecidableEq, Repr

def checkedMul (a b : WordType) : Rust WordType :=
  if a.toNat * b.toNat < 2 ^ 64 then .ok (a * b) else .error .overflow

def checkedAddIrq (a b : BitVec 32) : Rust (BitVec 32) :=
  if a.toNat + b.toNat < 2 ^ 32 then .ok (a + b) else .error .overflow

def IdAllocator.get (a : IdAllocator) : Rust (MemMapInfo × IdAllocator) := do
  let base ← checkedAdd a.memBase (← checkedMul a.id a.memSize)
  let irq ← a.irqBase.mapM fun baseIrq => checkedAddIrq baseIrq (a.id.setWidth 32)
  let id ← checkedAdd a.id 1
  return (⟨base, a.memSize, irq⟩, { a with id })

/-! ## The builder -/

structure RVBoardBuilder where
  arena : List DeviceType
  idAllocators : DeviceType → Option IdAllocator
  mmioItems : List MemoryMapItem
  /-- The table of the interrupt controller: the device whose level is that of a source. -/
  peripheralIrqDevices : Source → Option Nat
  /-- The calls of `register_device` so far, which the source does not keep. -/
  registered : List (Nat × Source)
  clintMmio : Option (WordType × WordType)
  plicMmio : Option (WordType × WordType)

namespace RVBoardBuilder

variable (b : RVBoardBuilder)

def new : RVBoardBuilder where
  arena := []
  idAllocators _ := none
  mmioItems := []
  peripheralIrqDevices _ := none
  registered := []
  clintMmio := none
  plicMmio := none

/-- The place a device gets in the arena. -/
def handle : Nat := b.arena.length

def addPlainMmioDevice (device : DeviceType) (base size : WordType) : RVBoardBuilder :=
  { b with arena := b.arena ++ [device], mmioItems := b.mmioItems ++ [⟨base, size, b.handle⟩] }

/-- `PLIC::register_device`. A device that was there before is forgotten. -/
def registerDevice (device : Nat) (irq : BitVec 32) : Rust RVBoardBuilder :=
  match validInterruptId irq.toNat with
  | none => .error .device
  | some id => .ok { b with
      peripheralIrqDevices := Function.update b.peripheralIrqDevices id (some device)
      registered := b.registered ++ [(device, id)] }

def addPlicDevice (device : DeviceType) (base size : WordType)
    (interruptId : BitVec 32) : Rust RVBoardBuilder := do
  let allocator := (b.idAllocators device).getD ⟨0, base, size, some interruptId⟩
  let (info, allocator) ← allocator.get
  let b := { b with idAllocators := Function.update b.idAllocators device (some allocator) }
  let b ← b.registerDevice b.handle (info.irq.getD interruptId)
  return b.addPlainMmioDevice device info.base info.size

def addPowerManager (base size : WordType) : RVBoardBuilder :=
  b.addPlainMmioDevice .powerManager base size

def addClint (base size : WordType) : RVBoardBuilder :=
  { b with clintMmio := some (base, size) }

def addPlic (base size : WordType) : RVBoardBuilder :=
  { b with plicMmio := some (base, size) }

def addUart (base size : WordType) (irq : BitVec 32) : Rust RVBoardBuilder :=
  b.addPlicDevice .uart16550A base size irq

end RVBoardBuilder

/-! ## Virtio devices -/

inductive VirtIODeviceEnum where
  | reserved | net | block | console | rng | balloonTraditional | iomem | rpmsg | scsi | p9
  | mac80211Wlan | rprocSerial | caif | balloon | gpu | clock | input | vsock | crypto
  | signalDistribution | pstore | iommu | mem | sound | fs | pmem | rpmb | mac80211Hwsim
  | videoEncoder | videoDecoder | scmi | nitroSecureModule | i2cAdapter | watchdog | can
  | parameterServer | audioPolicy | bluetooth | gpio | rdma | camera | ism | spiMaster
  deriving DecidableEq, Repr

structure DeviceConfig where
  devType : VirtIODeviceEnum
  /-- The path, if it is a string. -/
  path : Option String
  deriving DecidableEq, Repr

/-- The files of the host: the length of one that can be opened. -/
abbrev HostFiles := String → Option Nat

/-- Whether the block device of a configuration can be made: the file is there
and is a number of whole sectors long. -/
def DeviceConfig.opens (config : DeviceConfig) (files : HostFiles) : Bool :=
  config.devType == .block && match config.path.bind files with
    | some size => size % SECTOR_SIZE == 0
    | none => false

def RVBoardBuilder.addVirtioDevice (b : RVBoardBuilder) (files : HostFiles)
    (base size : WordType) (irq : BitVec 32) (config : DeviceConfig) : Rust RVBoardBuilder :=
  if config.opens files then b.addPlicDevice .virtioMmio base size irq
  else .error .device

/-! ## The board -/

/-- What the devices of a finished board are connected to. -/
structure BoardWiring where
  arena : List DeviceType
  mmioItems : List MemoryMapItem
  peripheralIrqDevices : Source → Option Nat
  registered : List (Nat × Source)

/-- The part of `build` that is about the devices. -/
def RVBoardBuilder.wire (b : RVBoardBuilder) : Rust BoardWiring :=
  match b.clintMmio, b.plicMmio with
  | some (clintBase, clintSize), some (plicBase, plicSize) =>
    .ok {
      arena := b.arena ++ [.clint, .plic]
      mmioItems := b.mmioItems ++
        [⟨clintBase, clintSize, b.arena.length⟩, ⟨plicBase, plicSize, b.arena.length + 1⟩]
      peripheralIrqDevices := b.peripheralIrqDevices
      registered := b.registered }
  | _, _ => .error .device

namespace BoardWiring

/-- The controller as it is when the board starts. -/
def plic (w : BoardWiring) : PLIC :=
  { PLIC.new with peripheralIrqDevices := fun id => (w.peripheralIrqDevices id).isSome }

/-- The levels the controller sees when the device in place `d` of the arena has
the level `irqLevel d`. -/
def levels (w : BoardWiring) (irqLevel : Nat → Bool) (id : Source) : Bool :=
  ((w.peripheralIrqDevices id).map irqLevel).getD false

end BoardWiring

/-- `VirtBoard::from_ram_with`, as far as the devices go. -/
def VirtBoard.wire (files : HostFiles) (virtioDevices : List DeviceConfig) : Rust BoardWiring := do
  let builder := RVBoardBuilder.new
    |>.addPowerManager POWER_MANAGER_BASE POWER_MANAGER_SIZE
    |>.addClint CLINT_BASE CLINT_SIZE
    |>.addPlic PLIC_BASE (BitVec.ofNat 64 PLIC_SIZE)
  let builder ← builder.addUart UART_BASE UART_SIZE UART_IRQ
  let builder ← virtioDevices.foldlM (fun builder config =>
    builder.addVirtioDevice files VIRTIO_MMIO_BASE VIRTIO_MMIO_SIZE VIRTIO_IRQ_BASE config) builder
  builder.wire

end HereEmu
