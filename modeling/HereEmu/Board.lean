import HereEmu.Cpu
import HereEmu.Device.Clint
import HereEmu.Load

/-!
# The board

`VirtBoard` puts a machine together from an image. Further images may follow the
first one into RAM, and registers may be preset. The devices, the decoder and the
float unit are those of the platform; no virtio devices are configured.
-/

namespace HereEmu

structure MemoryImage where
  address : WordType
  data : ByteVec

structure VirtBoardConfig where
  memoryImages : List MemoryImage
  initialRegisters : List (BitVec 8 × WordType)

structure VirtBoard (P : Platform) where
  loader : Option ELFLoader
  cpu : RVCPU P

def CLINT_BASE : WordType := 0x2000000

/-- `RegFile::write`, with a number that need not be one of a register. -/
def writeRegister (regFile : RegIdx → WordType) (r : BitVec 8 × WordType) :
    Except LoadPanic (RegIdx → WordType) :=
  if r.1 = 0 then .ok regFile
  else if r.1.toNat < 32 then .ok (Function.update regFile (r.1.setWidth 5) r.2)
  else .error .registerIndex

/-- A further image, whose errors the caller gets to see. -/
def loadImage (ram : Ram) (image : MemoryImage) : Except String Ram :=
  if image.address < BASE_ADDR then
    .error ("memory image address 0x" ++ lowerHex image.address.toNat ++ " is below RAM base 0x" ++
      lowerHex BASE_ADDR.toNat)
  else
    (ram.tryInsertSection image.data.data (image.address - BASE_ADDR)).mapError fun error =>
      "failed to load memory image at 0x" ++ lowerHex image.address.toNat ++ ": " ++ error.message

namespace VirtBoard

variable {P : Platform}

def ram (board : VirtBoard P) : Ram := board.cpu.memory.mmio.ram

/-- `RVBoardBuilder::build`. -/
def build (devices : P.bus.Dev) (ram : Ram) (initialRegisters : List (BitVec 8 × WordType)) :
    Except LoadPanic (VirtBoard P) := do
  let regFile ← initialRegisters.foldlM writeRegister fun _ => 0
  return {
    loader := none
    cpu := .reset P ⟨ram, devices⟩ (some (CLINT_BASE + BitVec.ofNat 64 MTIME_OFFSET)) regFile }

variable (devices : P.bus.Dev)

def fromRamWith (ram : Ram) (config : VirtBoardConfig) :
    Except LoadPanic (Except String (VirtBoard P)) :=
  match config.memoryImages.foldlM loadImage ram with
  | .error message => .ok (.error message)
  | .ok ram => (build devices ram config.initialRegisters).map .ok

def fromBinaryWith (bytes : ByteVec) (config : VirtBoardConfig) :
    Except LoadPanic (Except String (VirtBoard P)) := do
  fromRamWith devices (← loadBin .new bytes.data) config

def fromElfWith (parse : ElfParser) (bytes : ByteVec) (config : VirtBoardConfig) :
    Except LoadPanic (Except String (VirtBoard P)) :=
  match ELFLoader.tryNew parse bytes with
  | none => .ok (.error "Invalid ELF file")
  | some loader => do
    let board ← fromRamWith devices (← loader.loadToRam parse .new) config
    return board.map fun board => { board with loader := some loader }

end VirtBoard

end HereEmu
