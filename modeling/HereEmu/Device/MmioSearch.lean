import HereEmu.Device.Mmio
import HereEmu.Lib.BinarySearch

/-!
# The search for a device

`MemoryMapIo` keeps its regions sorted and finds the one an address falls in by
a binary search for a region that starts at the address. When there is none, the
region before the place at which one could be inserted is taken. The accesses of
the CPU use `deviceAt`, which says only what is found; here the search is
written out.
-/

namespace HereEmu

open Lib (binarySearchBy)

/-- The comparison the search makes with a region. -/
def MemoryMapItem.compareTo (item : MemoryMapItem) (pAddr : WordType) : Ordering :=
  if pAddr < item.start then .gt
  else if item.start < pAddr then .lt
  else .eq

/-- `from_mmio_items`: the regions may be given in any order. -/
def DeviceBus.fromMmioItems (B : DeviceBus) (items : List MemoryMapItem) : DeviceBus :=
  { B with map := items.mergeSort fun a b => a.start ≤ b.start }

namespace MemoryMapIo

variable {B : DeviceBus} (m : MemoryMapIo B)

def readFromDeviceIndex (deviceIndex : Nat) (w : Width) (pAddr : WordType) :
    Rust (Except MemError WordType × MemoryMapIo B) :=
  match B.map[deviceIndex]? with
  | some item => m.readFromDevice item w pAddr
  | none => .error .outOfBounds

def writeToDeviceIndex (deviceIndex : Nat) (w : Width)
    (pAddr data : WordType) : Rust (Except MemError Unit × MemoryMapIo B) :=
  match B.map[deviceIndex]? with
  | some item => m.writeToDevice item w pAddr data
  | none => .error .outOfBounds

/-- `read_by_type`, with its search. -/
def readBySearch (w : Width) (pAddr : WordType) : Rust (Except MemError WordType × MemoryMapIo B) :=
  if BASE_ADDR ≤ pAddr then .ok (m.ram.read w (pAddr - BASE_ADDR), m)
  else match binarySearchBy (·.compareTo pAddr) B.map with
    | .ok i => m.readFromDeviceIndex i w pAddr
    | .error 0 => .ok (.error .loadFault, m)
    | .error (i + 1) => m.readFromDeviceIndex i w pAddr

/-- `write_by_type`, with its search. -/
def writeBySearch (w : Width) (pAddr data : WordType) :
    Rust (Except MemError Unit × MemoryMapIo B) :=
  if BASE_ADDR ≤ pAddr then
    let (r, ram) := m.ram.write w (pAddr - BASE_ADDR) data
    .ok (r, { m with ram })
  else match binarySearchBy (·.compareTo pAddr) B.map with
    | .ok i => m.writeToDeviceIndex i w pAddr data
    | .error 0 => .ok (.error .storeFault, m)
    | .error (i + 1) => m.writeToDeviceIndex i w pAddr data

end MemoryMapIo

end HereEmu
