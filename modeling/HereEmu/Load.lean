import HereEmu.Ram
import HereEmu.Lib.Overlay

/-!
# Loading images into RAM

An image goes into RAM before the machine starts. `try_insert_section` checks
where it would end up and reports an error; the loaders of binaries and of ELF
files call `insert_section`, which panics instead.

The parser of ELF files is a parameter. All that is asked of it is the program
headers of a file it accepts, and these may hold anything.
-/

namespace HereEmu

open Lib

/-- A vector of bytes of the host. No allocation is longer than `isize::MAX`. -/
structure ByteVec where
  data : List (BitVec 8)
  length_lt : data.length < 2 ^ 63

/-- A number as `{:x}` prints it. -/
def lowerHex (n : Nat) : String := String.ofList (Nat.toDigits 16 n)

inductive RamImageError where
  | addressOverflow (start : WordType) (size : Nat)
  | outOfRange (start : WordType) (size ramSize : Nat)
  deriving DecidableEq, Repr

def RamImageError.message : RamImageError → String
  | addressOverflow start size =>
    "RAM image address overflow: start=0x" ++ lowerHex start.toNat ++ ", size=0x" ++ lowerHex size
  | outOfRange start size ramSize =>
    "RAM image is out of range: start=0x" ++ lowerHex start.toNat ++ ", size=0x" ++
      lowerHex size ++ ", RAM size=0x" ++ lowerHex ramSize

/-- Why setting up a machine panics. -/
inductive LoadPanic where
  /-- A file that was parsed before was refused. -/
  | invalidElf
  /-- The parser does not know the type of a program header. -/
  | segmentType (message : String)
  /-- The end of a segment in the file overflows. -/
  | fileEndOverflow
  /-- A segment is not in the file. -/
  | sliceRange
  /-- The address of a segment is below RAM. -/
  | addressUnderflow
  /-- `insert_section` was given an image that does not fit. -/
  | insertSection (error : RamImageError)
  /-- A preset register has no place in the register file. -/
  | registerIndex
  deriving DecidableEq, Repr

namespace Ram

def tryInsertSection (ram : Ram) (sectionData : List (BitVec 8)) (startAddr : WordType) :
    Except RamImageError Ram :=
  let endAddr := startAddr.toNat + sectionData.length
  if 2 ^ 64 ≤ endAddr then .error (.addressOverflow startAddr sectionData.length)
  else if SIZE < endAddr then .error (.outOfRange startAddr sectionData.length SIZE)
  else .ok { ram with data := Section.write ram.data startAddr.toNat sectionData }

def insertSection (ram : Ram) (sectionData : List (BitVec 8)) (startAddr : WordType) :
    Except LoadPanic Ram :=
  (ram.tryInsertSection sectionData startAddr).mapError .insertSection

end Ram

/-! ## ELF files -/

/-- The types of segments that the parser knows. -/
inductive ProgramType where
  | null | load | dynamic | interp | note | shLib | phdr | tls | gnuRelro
  | osSpecific (type : BitVec 32)
  | processorSpecific (type : BitVec 32)
  deriving DecidableEq, Repr

structure ProgramHeader where
  getType : Except String ProgramType
  virtualAddr : BitVec 64
  offset : BitVec 64
  fileSize : BitVec 64

/-- `ElfFile::new` with `program_iter`: the program headers, unless the file is
refused. -/
abbrev ElfParser := List (BitVec 8) → Option (List ProgramHeader)

/-- The bytes of `input[first..last]`. -/
def sliceOf (input : List (BitVec 8)) (first last : Nat) : Except LoadPanic (List (BitVec 8)) :=
  if first ≤ last ∧ last ≤ input.length then .ok ((input.take last).drop first)
  else .error .sliceRange

/-- The end of the segment in the file. -/
def ProgramHeader.fileEnd (ph : ProgramHeader) : Except LoadPanic Nat :=
  if ph.offset.toNat + ph.fileSize.toNat < 2 ^ 64 then .ok (ph.offset.toNat + ph.fileSize.toNat)
  else .error .fileEndOverflow

/-- The address of the segment in RAM. -/
def ProgramHeader.ramAddr (ph : ProgramHeader) : Except LoadPanic WordType :=
  if BASE_ADDR ≤ ph.virtualAddr then .ok (ph.virtualAddr - BASE_ADDR)
  else .error .addressUnderflow

structure ELFLoader where
  elfData : ByteVec

namespace ELFLoader

variable (parse : ElfParser)

def tryNew (elfData : ByteVec) : Option ELFLoader :=
  if (parse elfData.data).isNone then none else some ⟨elfData⟩

def elf (loader : ELFLoader) : Except LoadPanic (List ProgramHeader) :=
  match parse loader.elfData.data with
  | some headers => .ok headers
  | none => .error .invalidElf

/-- One round of the loop of `load_to_ram`. -/
def loadSegment (input : List (BitVec 8)) (ram : Ram) (ph : ProgramHeader) :
    Except LoadPanic Ram := do
  let type ← ph.getType.mapError .segmentType
  if type = .load then
    let sectionData ← sliceOf input ph.offset.toNat (← ph.fileEnd)
    ram.insertSection sectionData (← ph.ramAddr)
  else return ram

def loadToRam (loader : ELFLoader) (ram : Ram) : Except LoadPanic Ram := do
  (← loader.elf parse).foldlM (loadSegment loader.elfData.data) ram

end ELFLoader

def loadBin (ram : Ram) (rawData : List (BitVec 8)) : Except LoadPanic Ram :=
  ram.insertSection rawData 0

end HereEmu
