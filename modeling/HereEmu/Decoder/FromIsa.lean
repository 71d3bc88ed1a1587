import HereEmu.Decoder.Compressed
import HereEmu.Lib.Submask

/-!
# Building the decoders of an instruction set

`Decoder::from_isa` takes a list of descriptors apart. Those of 16 bits are tried
in turn, the ones with the longest mask first. Of those of 32 bits, the ones that
are told by opcode, `funct3` and `funct7` alone go into a table with a slot for
every opcode and `funct3`; what the table does not take is tried in turn as well.

A slot starts as a list of the `funct7` it knows and becomes an array when the
list has grown long.
-/

namespace HereEmu

variable {F V : Type}

/-- Why building a decoder panics. -/
inductive BuildPanic where
  /-- A mask of function codes does not hold the whole opcode. -/
  | opcodeMask
  /-- A `funct7` was inserted where one descriptor takes all of them. -/
  | alreadyComplete
  deriving DecidableEq, Repr

def countOnes (v : BitVec 32) : Nat := v.cpop.toNat

def countZeros (v : BitVec 32) : Nat := 32 - countOnes v

/-! ## The table by function codes -/

/-- What a slot of the table knows of an instruction. -/
abbrev PartialResult (F V : Type) := RiscvInstr F V × InstrFormat

inductive PartialDecode (F V : Type) where
  | unknown
  | complete (result : PartialResult F V)
  | sparseF7 (table : List (BitVec 7 × PartialResult F V))
  | denseF7 (table : BitVec 7 → Option (PartialResult F V))

namespace PartialDecode

def MAP_LENGTH : Nat := 8

/-- `SmallMap::get`: the first entry of the key. -/
def smallGet (table : List (BitVec 7 × PartialResult F V)) (key : BitVec 7) :
    Option (PartialResult F V) :=
  (table.find? (·.1 == key)).map (·.2)

/-- `SmallMap::insert`, which does not look for the key. -/
def smallInsert (table : List (BitVec 7 × PartialResult F V)) (key : BitVec 7)
    (value : PartialResult F V) : List (BitVec 7 × PartialResult F V) :=
  table ++ [(key, value)]

def tryMakeDense : PartialDecode F V → PartialDecode F V
  | sparseF7 sparse =>
    if sparse.length < MAP_LENGTH then sparseF7 sparse
    else denseF7 (sparse.foldl (fun dense e => Function.update dense e.1 (some e.2)) fun _ => none)
  | slot => slot

/-- What the slot has for a `funct7`. -/
def lookup : PartialDecode F V → BitVec 7 → Option (PartialResult F V)
  | unknown, _ => none
  | complete result, _ => some result
  | sparseF7 table, f7 => smallGet table f7
  | denseF7 table, f7 => table f7

/-- The part of `insert_f3_f7` that is about one slot. -/
def insertF7 (slot : PartialDecode F V) (f7 : BitVec 7) (result : PartialResult F V) :
    Except BuildPanic (PartialDecode F V) :=
  match slot with
  | unknown => .ok (sparseF7 (smallInsert [] f7 result))
  | complete _ => .error .alreadyComplete
  | sparseF7 table => .ok (sparseF7 (smallInsert table f7 result)).tryMakeDense
  | denseF7 table => .ok (denseF7 (Function.update table f7 (some result)))

end PartialDecode

def OPCODE_BITS : BitVec 32 := 0b1111111
def F3_BITS : BitVec 32 := 0b111 <<< 12
def F7_BITS : BitVec 32 := 0b1111111 <<< 25

/-- The opcode, `funct3` and `funct7` of a word. -/
@[ext] structure FunctCodes where
  opcode : BitVec 7
  f3 : BitVec 3
  f7 : BitVec 7
  deriving DecidableEq, Repr

def getOpcodeF3F7 (instr : BitVec 32) : FunctCodes where
  opcode := instr.setWidth 7
  f3 := (instr >>> 12).setWidth 3
  f7 := (instr >>> 25).setWidth 7

/-- The slots by opcode and `funct3`. -/
structure FunctDecoder (F V : Type) where
  decodeTable : BitVec 7 → BitVec 3 → PartialDecode F V

namespace FunctDecoder

variable (t : FunctDecoder F V)

def new : FunctDecoder F V := ⟨fun _ _ => .unknown⟩

def setSlot (opcode : BitVec 7) (f3 : BitVec 3) (slot : PartialDecode F V) : FunctDecoder F V :=
  ⟨fun opcode' f3' => if opcode' = opcode ∧ f3' = f3 then slot else t.decodeTable opcode' f3'⟩

def setOpcode (opcode : BitVec 7) (slot : PartialDecode F V) : FunctDecoder F V :=
  ⟨fun opcode' f3 => if opcode' = opcode then slot else t.decodeTable opcode' f3⟩

def insertF3F7 (c : FunctCodes) (result : PartialResult F V) :
    Except BuildPanic (FunctDecoder F V) := do
  let slot ← (t.decodeTable c.opcode c.f3).insertF7 c.f7 result
  return t.setSlot c.opcode c.f3 slot

/-- A loop that inserts one result for several codes. -/
def insertAll (cs : List FunctCodes) (result : PartialResult F V) :
    Except BuildPanic (FunctDecoder F V) :=
  cs.foldlM (fun t c => t.insertF3F7 c result) t

/-- Whether the descriptor was taken, with the table. -/
def tryInsert (desc : RVInstrDesc F V) : Except BuildPanic (FunctDecoder F V × Bool) :=
  let mask := desc.mask
  let c := getOpcodeF3F7 desc.key
  let result := (desc.instr, desc.format)
  if mask &&& ~~~(OPCODE_BITS ||| F3_BITS ||| F7_BITS) ≠ 0 then .ok (t, false)
  else if mask &&& OPCODE_BITS ≠ OPCODE_BITS then .error .opcodeMask
  else if mask = OPCODE_BITS then
    .ok (t.setOpcode c.opcode (.complete result), true)
  else if mask = OPCODE_BITS ||| F3_BITS then
    .ok (t.setSlot c.opcode c.f3 (.complete result), true)
  else if mask = OPCODE_BITS ||| F3_BITS ||| F7_BITS then
    return (← t.insertF3F7 c result, true)
  else if mask = OPCODE_BITS ||| F7_BITS then
    return (← t.insertAll ([0, 1, 2, 3, 4, 5, 6, 7].map fun f3 => { c with f3 }) result, true)
  else if mask &&& F3_BITS = F3_BITS ∧ 5 ≤ countOnes (mask &&& F7_BITS) then
    -- the bits of `funct7` outside the mask take all values
    let revMask : BitVec 7 := ((~~~(mask &&& F7_BITS) &&& F7_BITS) >>> 25).setWidth 7
    let f7Match : BitVec 7 := ((desc.key &&& F7_BITS) >>> 25).setWidth 7
    return (← t.insertAll
      ((Lib.submasksFrom revMask revMask).map fun curr => { c with f7 := curr ||| f7Match }) result, true)
  else .ok (t, false)

def recognizeInstr (instr : BitVec 32) : Option (PartialResult F V) :=
  let c := getOpcodeF3F7 instr
  (t.decodeTable c.opcode c.f3).lookup c.f7

end FunctDecoder

/-! ## All decoders -/

/-- Longer masks come first, and otherwise the order is kept. -/
def sortByMask {α : Type} (mask : α → BitVec 32) (descs : List α) : List α :=
  descs.mergeSort fun a b => countZeros (mask a) ≤ countZeros (mask b)

/-- A descriptor of the instruction set. The low bits of its key tell how long the
instruction is (`is_compressed`), and its format is one of that length. -/
inductive IsaDesc (F V : Type) where
  | long (desc : RVInstrDesc F V) (length : desc.key &&& 0b11 = 0b11)
  | short (desc : CompressedDesc F V) (length : desc.key &&& 0b11 ≠ 0b11)

def IsaDesc.getLong : IsaDesc F V → Option (RVInstrDesc F V)
  | long desc _ => some desc
  | short _ _ => none

def IsaDesc.getShort : IsaDesc F V → Option (CompressedDesc F V)
  | long _ _ => none
  | short desc _ => some desc

namespace Decoder

/-- One round of the loop of `from_isa`: the table, and what is left to be tried in
turn. -/
def insertDesc (s : FunctDecoder F V × List (RVInstrDesc F V)) (desc : RVInstrDesc F V) :
    Except BuildPanic (FunctDecoder F V × List (RVInstrDesc F V)) := do
  let (funct, done) ← s.1.tryInsert desc
  return (funct, if done then s.2 else s.2 ++ [desc])

def fromIsa (instrs : List (IsaDesc F V)) : Except BuildPanic (Decoder F V) := do
  let (funct, remain) ← (instrs.filterMap IsaDesc.getLong).foldlM insertDesc (.new, [])
  return {
    compressDecoder := sortByMask (·.mask) (instrs.filterMap IsaDesc.getShort)
    recognizeInstr := funct.recognizeInstr
    maskDecoder := sortByMask (·.mask) remain }

end Decoder

end HereEmu
