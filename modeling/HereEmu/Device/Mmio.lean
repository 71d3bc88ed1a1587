import HereEmu.Ram

/-!
# Memory-mapped devices

`MemoryMapIo` sends a physical access to RAM or to the device whose region it
falls in. The devices themselves are a parameter: a `DeviceBus` gives the
state of all of them together and what a register access does to it. A write
can make a device serve a queue in RAM, so it takes the bytes of RAM along; a
read never does. Either may panic, which is the missing answer.

The interrupt lines a device raises are not part of the access. The board
forwards them to `handle_irq`, and nothing between the access and the end of
the instruction looks at the bits that sets, so they are steps of their own
in the runs.
-/

namespace HereEmu

/-- The region of one device. -/
structure MemoryMapItem where
  start : WordType
  size : WordType
  device : Nat
  deriving DecidableEq, Repr

/-- What a device answers when it refuses an access. Reads and writes report
it as a load and as a store error. -/
inductive DeviceError where
  | fault | misaligned
  deriving DecidableEq, Repr

structure DeviceBus where
  Dev : Type
  /-- The regions, in the order of their start addresses. -/
  map : List MemoryMapItem
  /-- The device, the offset in its region, the number of bytes. -/
  read : Nat → WordType → Nat → Dev → Option (Except DeviceError WordType × Dev)
  write : Nat → WordType → Nat → WordType → Dev → (Nat → BitVec 8) →
    Option (Except DeviceError Unit × Dev × (Nat → BitVec 8))

namespace DeviceBus

/-- The binary search in the sorted map: the last region that starts at or
below the address. -/
def deviceAt (B : DeviceBus) (pAddr : WordType) : Option MemoryMapItem :=
  B.map.reverse.find? fun item => item.start ≤ pAddr

end DeviceBus

namespace DeviceError

def toLoad : DeviceError → MemError
  | fault => .loadFault
  | misaligned => .loadMisaligned

def toStore : DeviceError → MemError
  | fault => .storeFault
  | misaligned => .storeMisaligned

end DeviceError

/-- Whether the access ends inside the region. -/
def MemoryMapItem.canAccess (item : MemoryMapItem) (w : Width) (pAddr : WordType) : Bool :=
  item.start ≤ pAddr && decide ((pAddr - item.start).toNat + w.bytes ≤ item.size.toNat)

structure MemoryMapIo (B : DeviceBus) where
  ram : Ram
  devices : B.Dev

namespace MemoryMapIo

variable {B : DeviceBus} (m : MemoryMapIo B)

def readFromDevice (item : MemoryMapItem) (w : Width) (pAddr : WordType) :
    Rust (Except MemError WordType × MemoryMapIo B) :=
  if !checkAlign w pAddr then .ok (.error .loadMisaligned, m)
  else if !item.canAccess w pAddr then .ok (.error .loadFault, m)
  else match B.read item.device (pAddr - item.start) w.bytes m.devices with
    | none => .error .device
    | some (.ok v, devices) => .ok (.ok (w.truncate v), { m with devices })
    | some (.error e, devices) => .ok (.error e.toLoad, { m with devices })

def writeToDevice (item : MemoryMapItem) (w : Width) (pAddr data : WordType) :
    Rust (Except MemError Unit × MemoryMapIo B) :=
  if !checkAlign w pAddr then .ok (.error .storeMisaligned, m)
  else if !item.canAccess w pAddr then .ok (.error .storeFault, m)
  else match B.write item.device (pAddr - item.start) w.bytes (w.truncate data) m.devices
      m.ram.data with
    | none => .error .device
    | some (.ok (), devices, data) => .ok (.ok (), ⟨{ m.ram with data }, devices⟩)
    | some (.error e, devices, data) => .ok (.error e.toStore, ⟨{ m.ram with data }, devices⟩)

def readByType (w : Width) (pAddr : WordType) : Rust (Except MemError WordType × MemoryMapIo B) :=
  if BASE_ADDR ≤ pAddr then .ok (m.ram.read w (pAddr - BASE_ADDR), m)
  else match B.deviceAt pAddr with
    | none => .ok (.error .loadFault, m)
    | some item => m.readFromDevice item w pAddr

def writeByType (w : Width) (pAddr data : WordType) : Rust (Except MemError Unit × MemoryMapIo B) :=
  if BASE_ADDR ≤ pAddr then
    let (r, ram) := m.ram.write w (pAddr - BASE_ADDR) data
    .ok (r, { m with ram })
  else match B.deviceAt pAddr with
    | none => .ok (.error .storeFault, m)
    | some item => m.writeToDevice item w pAddr data

/-- Whether an address is one of RAM's. -/
def inRam (pAddr : WordType) : Bool :=
  BASE_ADDR ≤ pAddr && decide (pAddr.toNat < BASE_ADDR.toNat + SIZE)

/-- Only RAM can be reserved. -/
def loadReserved (m : MemoryMapIo B) (w : Width) (pAddr : WordType) :
    Except MemError WordType × MemoryMapIo B :=
  if inRam pAddr then
    let (r, ram) := m.ram.loadReserved w (pAddr - BASE_ADDR)
    (r, { m with ram })
  else (.error .loadFault, m)

def storeConditional (m : MemoryMapIo B) (w : Width) (pAddr data : WordType) :
    Except MemError Bool × MemoryMapIo B :=
  if inRam pAddr then
    let (r, ram) := m.ram.storeConditional w (pAddr - BASE_ADDR) data
    (r, { m with ram })
  else (.error .storeFault, m)

def clearReservation (m : MemoryMapIo B) : MemoryMapIo B :=
  { m with ram := m.ram.clearReservation }

end MemoryMapIo

end HereEmu
