import HereEmu.Decoder.Compressed
import HereEmu.Lib.BitLayout

/-!
# Operands and their encodings

The manual draws every format as a row of boxes, with the immediates of many
instructions cut up and shuffled. `Layout.boxes` are these drawings. Decoding
the word that is put together by one gives back the operands it was put together
from: the register numbers, and the immediate as the 64-bit number it stands
for. The amount of a shift comes out as far as the shift looks at it.

The decoder gathers an immediate range by range. For each of its bits the ranges
name the position it is taken from, and the drawing names the bit that stands
there. That the two agree is a matter of counting, settled by evaluation for each
layout; the values play no part.
-/

namespace HereEmu

open Lib (Box rowWidth assemble locate getLsbD_assemble)
open Decode BitVec List

/-! ## The drawings -/

/-- What may stand in a box. The opcode and the function codes are the `rest`, and
`upper` is what follows an instruction of 16 bits. -/
inductive Field where
  | rd | rs1 | rs2 | rs3 | rm | aq | rl | vm | funct6 | imm | rest | upper
  deriving DecidableEq, Repr

/-- The formats, with one layout for every shuffle of an immediate. -/
inductive Layout where
  | R | R_rm | R4_rm | A | V | I | csr | shift | shiftW | S | B | U | J
  | CR | CI | cshift | lui | addi16sp | lwsp | ldsp | swsp | sdsp | CIW | lw | ld | sw | sd | CA
  | cbImm | cbShift | branch | CJ
  deriving DecidableEq, Repr

namespace Layout

/-- The boxes from the high end. A register field of three bits holds the low bits
of the register number. -/
def boxes : Layout → List (Box Field)
  | R => [⟨.rest, 6, 0⟩, ⟨.rs2, 4, 0⟩, ⟨.rs1, 4, 0⟩, ⟨.rest, 9, 7⟩, ⟨.rd, 4, 0⟩, ⟨.rest, 16, 10⟩]
  | R_rm => [⟨.rest, 6, 0⟩, ⟨.rs2, 4, 0⟩, ⟨.rs1, 4, 0⟩, ⟨.rm, 2, 0⟩, ⟨.rd, 4, 0⟩, ⟨.rest, 13, 7⟩]
  | R4_rm => [⟨.rs3, 4, 0⟩, ⟨.rest, 1, 0⟩, ⟨.rs2, 4, 0⟩, ⟨.rs1, 4, 0⟩, ⟨.rm, 2, 0⟩, ⟨.rd, 4, 0⟩,
      ⟨.rest, 8, 2⟩]
  | A => [⟨.rest, 4, 0⟩, ⟨.aq, 0, 0⟩, ⟨.rl, 0, 0⟩, ⟨.rs2, 4, 0⟩, ⟨.rs1, 4, 0⟩, ⟨.rest, 7, 5⟩,
      ⟨.rd, 4, 0⟩, ⟨.rest, 14, 8⟩]
  | V => [⟨.funct6, 5, 0⟩, ⟨.vm, 0, 0⟩, ⟨.rs2, 4, 0⟩, ⟨.rs1, 4, 0⟩, ⟨.rest, 2, 0⟩, ⟨.rd, 4, 0⟩,
      ⟨.rest, 9, 3⟩]
  | I | csr => [⟨.imm, 11, 0⟩, ⟨.rs1, 4, 0⟩, ⟨.rest, 2, 0⟩, ⟨.rd, 4, 0⟩, ⟨.rest, 9, 3⟩]
  | shift => [⟨.rest, 5, 0⟩, ⟨.imm, 5, 0⟩, ⟨.rs1, 4, 0⟩, ⟨.rest, 8, 6⟩, ⟨.rd, 4, 0⟩, ⟨.rest, 15, 9⟩]
  | shiftW => [⟨.rest, 6, 0⟩, ⟨.imm, 4, 0⟩, ⟨.rs1, 4, 0⟩, ⟨.rest, 9, 7⟩, ⟨.rd, 4, 0⟩, ⟨.rest, 16, 10⟩]
  | S => [⟨.imm, 11, 5⟩, ⟨.rs2, 4, 0⟩, ⟨.rs1, 4, 0⟩, ⟨.rest, 2, 0⟩, ⟨.imm, 4, 0⟩, ⟨.rest, 9, 3⟩]
  | B => [⟨.imm, 12, 12⟩, ⟨.imm, 10, 5⟩, ⟨.rs2, 4, 0⟩, ⟨.rs1, 4, 0⟩, ⟨.rest, 2, 0⟩, ⟨.imm, 4, 1⟩,
      ⟨.imm, 11, 11⟩, ⟨.rest, 9, 3⟩]
  | U => [⟨.imm, 31, 12⟩, ⟨.rd, 4, 0⟩, ⟨.rest, 6, 0⟩]
  | J => [⟨.imm, 20, 20⟩, ⟨.imm, 10, 1⟩, ⟨.imm, 11, 11⟩, ⟨.imm, 19, 12⟩, ⟨.rd, 4, 0⟩, ⟨.rest, 6, 0⟩]
  | CR => [⟨.rest, 3, 0⟩, ⟨.rd, 4, 0⟩, ⟨.rs2, 4, 0⟩, ⟨.rest, 5, 4⟩]
  | CI | cshift => [⟨.rest, 2, 0⟩, ⟨.imm, 5, 5⟩, ⟨.rd, 4, 0⟩, ⟨.imm, 4, 0⟩, ⟨.rest, 4, 3⟩]
  | lui => [⟨.rest, 2, 0⟩, ⟨.imm, 17, 17⟩, ⟨.rd, 4, 0⟩, ⟨.imm, 16, 12⟩, ⟨.rest, 4, 3⟩]
  | addi16sp => [⟨.rest, 2, 0⟩, ⟨.imm, 9, 9⟩, ⟨.rd, 4, 0⟩, ⟨.imm, 4, 4⟩, ⟨.imm, 6, 6⟩, ⟨.imm, 8, 7⟩,
      ⟨.imm, 5, 5⟩, ⟨.rest, 4, 3⟩]
  | lwsp => [⟨.rest, 2, 0⟩, ⟨.imm, 5, 5⟩, ⟨.rd, 4, 0⟩, ⟨.imm, 4, 2⟩, ⟨.imm, 7, 6⟩, ⟨.rest, 4, 3⟩]
  | ldsp => [⟨.rest, 2, 0⟩, ⟨.imm, 5, 5⟩, ⟨.rd, 4, 0⟩, ⟨.imm, 4, 3⟩, ⟨.imm, 8, 6⟩, ⟨.rest, 4, 3⟩]
  | swsp => [⟨.rest, 2, 0⟩, ⟨.imm, 5, 2⟩, ⟨.imm, 7, 6⟩, ⟨.rs2, 4, 0⟩, ⟨.rest, 4, 3⟩]
  | sdsp => [⟨.rest, 2, 0⟩, ⟨.imm, 5, 3⟩, ⟨.imm, 8, 6⟩, ⟨.rs2, 4, 0⟩, ⟨.rest, 4, 3⟩]
  | CIW => [⟨.rest, 2, 0⟩, ⟨.imm, 5, 4⟩, ⟨.imm, 9, 6⟩, ⟨.imm, 2, 2⟩, ⟨.imm, 3, 3⟩, ⟨.rd, 2, 0⟩,
      ⟨.rest, 4, 3⟩]
  | lw => [⟨.rest, 2, 0⟩, ⟨.imm, 5, 3⟩, ⟨.rs1, 2, 0⟩, ⟨.imm, 2, 2⟩, ⟨.imm, 6, 6⟩, ⟨.rd, 2, 0⟩,
      ⟨.rest, 4, 3⟩]
  | ld => [⟨.rest, 2, 0⟩, ⟨.imm, 5, 3⟩, ⟨.rs1, 2, 0⟩, ⟨.imm, 7, 6⟩, ⟨.rd, 2, 0⟩, ⟨.rest, 4, 3⟩]
  | sw => [⟨.rest, 2, 0⟩, ⟨.imm, 5, 3⟩, ⟨.rs1, 2, 0⟩, ⟨.imm, 2, 2⟩, ⟨.imm, 6, 6⟩, ⟨.rs2, 2, 0⟩,
      ⟨.rest, 4, 3⟩]
  | sd => [⟨.rest, 2, 0⟩, ⟨.imm, 5, 3⟩, ⟨.rs1, 2, 0⟩, ⟨.imm, 7, 6⟩, ⟨.rs2, 2, 0⟩, ⟨.rest, 4, 3⟩]
  | CA => [⟨.rest, 5, 0⟩, ⟨.rd, 2, 0⟩, ⟨.rest, 7, 6⟩, ⟨.rs2, 2, 0⟩, ⟨.rest, 9, 8⟩]
  | cbImm | cbShift => [⟨.rest, 2, 0⟩, ⟨.imm, 5, 5⟩, ⟨.rest, 4, 3⟩, ⟨.rd, 2, 0⟩, ⟨.imm, 4, 0⟩, ⟨.rest, 6, 5⟩]
  | branch => [⟨.rest, 2, 0⟩, ⟨.imm, 8, 8⟩, ⟨.imm, 4, 3⟩, ⟨.rs1, 2, 0⟩, ⟨.imm, 7, 6⟩, ⟨.imm, 2, 1⟩,
      ⟨.imm, 5, 5⟩, ⟨.rest, 4, 3⟩]
  | CJ => [⟨.rest, 2, 0⟩, ⟨.imm, 11, 11⟩, ⟨.imm, 4, 4⟩, ⟨.imm, 9, 8⟩, ⟨.imm, 10, 10⟩, ⟨.imm, 6, 6⟩,
      ⟨.imm, 7, 7⟩, ⟨.imm, 3, 1⟩, ⟨.imm, 5, 5⟩, ⟨.rest, 4, 3⟩]

def compressed : Layout → Bool
  | R | R_rm | R4_rm | A | V | I | csr | shift | shiftW | S | B | U | J => false
  | _ => true

/-- The 32 bits that are fetched. -/
def row (l : Layout) : List (Box Field) :=
  if l.compressed then ⟨.upper, 15, 0⟩ :: l.boxes else l.boxes

theorem rowWidth_row (l : Layout) : rowWidth l.row = 32 := by
  cases l <;> rfl

end Layout

/-- What is put into the boxes. A register is named by its number, also where only
three bits of it are written down. -/
structure Operands where
  rd : RegIdx
  rs1 : RegIdx
  rs2 : RegIdx
  rs3 : RegIdx
  rm : BitVec 3
  aq : Bool
  rl : Bool
  vm : Bool
  funct6 : BitVec 6
  imm : WordType
  rest : BitVec 64
  upper : BitVec 16
  deriving Inhabited

def Operands.get (o : Operands) : Field → BitVec 64
  | .rd => o.rd.setWidth 64
  | .rs1 => o.rs1.setWidth 64
  | .rs2 => o.rs2.setWidth 64
  | .rs3 => o.rs3.setWidth 64
  | .rm => o.rm.setWidth 64
  | .aq => (ofBool o.aq).setWidth 64
  | .rl => (ofBool o.rl).setWidth 64
  | .vm => (ofBool o.vm).setWidth 64
  | .funct6 => o.funct6.setWidth 64
  | .imm => o.imm
  | .rest => o.rest
  | .upper => o.upper.setWidth 64

/-- How an immediate stands for a number of 64 bits: as the extension of its low
`width` bits, of which the lowest `zeros` are not written down. -/
structure ImmForm where
  signed : Bool
  width : Nat
  zeros : Nat

structure ImmForm.Encodable (f : ImmForm) (imm : WordType) : Prop where
  extended : imm = if f.signed then (imm.setWidth f.width).signExtend 64
    else (imm.setWidth f.width).setWidth 64
  low : imm.setWidth f.zeros = 0

namespace Layout

/-- A layout without an immediate asks nothing of it. -/
def immForm : Layout → ImmForm
  | I | S => ⟨true, 12, 0⟩
  | csr => ⟨false, 12, 0⟩
  | shift | cshift | cbShift => ⟨false, 6, 0⟩
  | shiftW => ⟨false, 5, 0⟩
  | B => ⟨true, 13, 1⟩
  | U => ⟨true, 32, 12⟩
  | J => ⟨true, 21, 1⟩
  | CI | cbImm => ⟨true, 6, 0⟩
  | lui => ⟨true, 18, 12⟩
  | addi16sp => ⟨true, 10, 4⟩
  | lwsp | swsp => ⟨false, 8, 2⟩
  | ldsp | sdsp => ⟨false, 9, 3⟩
  | CIW => ⟨false, 10, 2⟩
  | lw | sw => ⟨false, 7, 2⟩
  | ld | sd => ⟨false, 8, 3⟩
  | branch => ⟨true, 9, 1⟩
  | CJ => ⟨true, 12, 1⟩
  | R | R_rm | R4_rm | A | V | CR | CA => ⟨false, 64, 0⟩

/-- The registers that have three bits. -/
def shortRegs : Layout → List Field
  | CIW => [.rd]
  | lw | ld => [.rd, .rs1]
  | sw | sd => [.rs1, .rs2]
  | CA => [.rd, .rs2]
  | cbImm | cbShift => [.rd]
  | branch => [.rs1]
  | _ => []

structure Encodable (l : Layout) (o : Operands) : Prop where
  imm : l.immForm.Encodable o.imm
  short : ∀ name ∈ l.shortRegs, 8 ≤ (o.get name).toNat ∧ (o.get name).toNat < 16

/-- The word, put together as drawn. -/
def word (l : Layout) (o : Operands) : BitVec 32 := (assemble o.get l.row).cast l.rowWidth_row

/-- How many low bits of the immediate count: the amount of a shift, or the number
of a register that has no sign. -/
def immBits : Layout → Nat
  | shift | cshift | cbShift => 6
  | shiftW => 5
  | csr => 12
  | _ => 64

/-- What the decoder is to return, with an immediate. -/
def info (l : Layout) (o : Operands) (imm : WordType) : RVInstrInfo :=
  match l with
  | R => .R o.rs1 o.rs2 o.rd
  | R_rm => .R_rm o.rs1 o.rs2 o.rd o.rm
  | R4_rm => .R4_rm o.rs1 o.rs2 o.rs3 o.rd o.rm
  | A => .A o.rs1 o.rs2 o.rd o.rl o.aq
  | V => .V o.rs1 o.rs2 o.rd o.vm o.funct6
  | I | csr | shift | shiftW => .I o.rs1 o.rd imm
  | S => .S o.rs1 o.rs2 imm
  | B => .B o.rs1 o.rs2 imm
  | U => .U o.rd imm
  | J => .J o.rd imm
  | CR => .CR o.rd o.rs2
  | CI | cshift | lui | addi16sp | lwsp | ldsp => .CI o.rd imm
  | swsp | sdsp => .CSS o.rs2 imm
  | CIW => .CIW o.rd imm
  | lw | ld => .CL o.rd o.rs1 imm
  | sw | sd => .CS o.rs1 o.rs2 imm
  | CA => .CA o.rd o.rs2
  | cbImm | cbShift => .CB o.rd imm
  | branch => .CB o.rs1 imm
  | CJ => .CJ imm

variable {F V : Type}

/-- The layout of an instruction of the I format. -/
def ofI : RiscvInstr F V → Layout
  | .SLLI | .SRLI | .SRAI => shift
  | .SLLIW | .SRLIW | .SRAIW => shiftW
  | .CSRRW | .CSRRC | .CSRRS | .CSRRWI | .CSRRCI | .CSRRSI => csr
  | _ => I

/-- The layout of an instruction of 32 bits. -/
def ofFormat (instr : RiscvInstr F V) : InstrFormat → Option Layout
  | .none => none
  | .R => some R
  | .R_rm => some R_rm
  | .R4_rm => some R4_rm
  | .A => some A
  | .V => some .V
  | .I => some (ofI instr)
  | .S => some S
  | .B => some B
  | .U => some U
  | .J => some J

def ofCI : RiscvInstr F V → Option Layout
  | .C_ADDI | .C_ADDIW | .C_LI => some CI
  | .C_SLLI => some cshift
  | .C_LUI => some lui
  | .C_ADDI16SP => some addi16sp
  | .C_LWSP | .C_FLWSP => some lwsp
  | .C_LDSP | .C_FLDSP => some ldsp
  | _ => none

def ofCSS : RiscvInstr F V → Option Layout
  | .C_SWSP | .C_FSWSP => some swsp
  | .C_SDSP | .C_FSDSP => some sdsp
  | _ => none

def ofCL : RiscvInstr F V → Option Layout
  | .C_LW | .C_FLW => some lw
  | .C_LD | .C_FLD => some ld
  | _ => none

def ofCS : RiscvInstr F V → Option Layout
  | .C_SW | .C_FSW => some sw
  | .C_SD | .C_FSD => some sd
  | _ => none

def ofCB : RiscvInstr F V → Option Layout
  | .C_ANDI => some cbImm
  | .C_SRLI | .C_SRAI => some cbShift
  | .C_BEQZ | .C_BNEZ => some branch
  | _ => none

/-- The layout of an instruction of 16 bits. -/
def ofCompressed (instr : RiscvInstr F V) : CompressedFormat → Option Layout
  | .none => none
  | .CR => some CR
  | .CI => ofCI instr
  | .CSS => ofCSS instr
  | .CIW => some CIW
  | .CL => ofCL instr
  | .CS => ofCS instr
  | .CA => some CA
  | .CB => ofCB instr
  | .CJ => some CJ

end Layout

/-! ## What the decoder gathers -/

namespace Decode

/-- The positions of the word that bit `i` of a gathered field is taken from. -/
def sources (fields : List FieldRange) (i : Nat) : List Nat :=
  fields.filterMap fun f =>
    if f.dstLow ≤ i ∧ i ≤ f.dstHigh then some (f.srcLow + (i - f.dstLow)) else none

/-- A range of less than 32 bits, written from low to high. -/
def FieldRange.fits (f : FieldRange) : Bool := f.dstLow ≤ f.dstHigh && f.dstHigh - f.dstLow < 31

variable {i : Nat}

theorem getLsbD_mask {k : Nat} (hk : k < 32) :
    (((1 <<< k) - 1 : BitVec 32)).getLsbD i = decide (i < k) := by
  have hlt : 2 ^ k < 2 ^ 32 := Nat.pow_lt_pow_right (by decide) hk
  have hone : ((1 <<< k : Nat) : BitVec 32).toNat = 2 ^ k := by
    rw [natCast_eq_ofNat, toNat_ofNat, Nat.one_shiftLeft, Nat.mod_eq_of_lt hlt]
  have hnat : ((1 <<< k) - 1 : BitVec 32).toNat = 2 ^ k - 1 := by
    rw [toNat_sub_of_le (le_def.mpr (hone ▸ Nat.two_pow_pos k)), hone]
    rfl
  rw [getLsbD, hnat, Nat.testBit_two_pow_sub_one]

theorem getLsbD_extractRange (raw : BitVec 32) {l r : Nat} (h : r - l + 1 < 32) :
    (extractRange raw l r).getLsbD i = (decide (i < r - l + 1) && raw.getLsbD (l + i)) := by
  rw [extractRange, getLsbD_and, getLsbD_ushiftRight, getLsbD_mask h, Bool.and_comm]

theorem FieldRange.getLsbD_get (raw : BitVec 32) {f : FieldRange} (hf : f.fits)
    (hi : i < 32) :
    (f.get raw).getLsbD i =
      (decide (f.dstLow ≤ i ∧ i ≤ f.dstHigh) && raw.getLsbD (f.srcLow + (i - f.dstLow))) := by
  simp only [fits, Bool.and_eq_true, decide_eq_true_eq] at hf
  have hw : f.srcLow + f.dstHigh - f.dstLow - f.srcLow + 1 < 32 := by omega
  rw [FieldRange.get, getLsbD_shiftLeft, getLsbD_extractRange raw hw]
  by_cases hlow : f.dstLow ≤ i
  · have hcount : (i - f.dstLow < f.srcLow + f.dstHigh - f.dstLow - f.srcLow + 1) ↔
        i ≤ f.dstHigh := by omega
    simp [hi, hlow, hcount, Nat.not_lt.mpr hlow]
  · simp [hlow, Nat.lt_of_not_le hlow]

theorem getLsbD_extractField (raw : BitVec 32) {fields : List FieldRange}
    (hf : ∀ f ∈ fields, f.fits) (hi : i < 32) :
    (extractField raw fields).getLsbD i = (sources fields i).any raw.getLsbD := by
  suffices ∀ field : BitVec 32,
      (fields.foldl (fun field f => field ||| f.get raw) field).getLsbD i =
        (field.getLsbD i || (sources fields i).any raw.getLsbD) by
    simpa [extractField] using this 0
  induction fields with
  | nil => simp [sources]
  | cons f fields ih =>
    intro field
    have hget := FieldRange.getLsbD_get raw (hf f mem_cons_self) hi
    rw [foldl_cons, ih fun g hg => hf g (mem_cons_of_mem _ hg), getLsbD_or, hget, Bool.or_assoc]
    congr 1
    by_cases hin : f.dstLow ≤ i ∧ i ≤ f.dstHigh <;> simp [sources, hin]

end Decode

/-! ## The pieces of an assembled word -/

namespace Layout

variable {l : Layout} {o : Operands}

variable {name : Field}

theorem getLsbD_word {k j : Nat} (h : locate l.row k = some (name, j)) :
    (l.word o).getLsbD k = (o.get name).getLsbD j := by
  rw [word, getLsbD_cast, getLsbD_assemble o.get h]

/-- From bit `lo` on there are the low `n` bits of a field. -/
def holds (l : Layout) (name : Field) (lo n : Nat) : Bool :=
  (range n).all fun i => locate l.row (lo + i) == some (name, i)

variable {lo n i : Nat}

theorem getLsbD_of_holds (h : l.holds name lo n) (hi : i < n) :
    (l.word o).getLsbD (lo + i) = (o.get name).getLsbD i :=
  getLsbD_word (by simpa using all_eq_true.mp h i (mem_range.mpr hi))

theorem setWidth_of_holds (h : l.holds name lo n) :
    (l.word o >>> lo).setWidth n = (o.get name).setWidth n := by
  refine eq_of_getLsbD_eq fun i hi => ?_
  simp only [getLsbD_setWidth, getLsbD_ushiftRight, getLsbD_of_holds h hi]

theorem field_word {x : BitVec n} (hn : n ≤ 64) (hx : o.get name = x.setWidth 64)
    (h : l.holds name lo n) : (l.word o >>> lo).setWidth n = x := by
  rw [setWidth_of_holds h, hx, setWidth_setWidth_of_le _ hn, setWidth_eq]

theorem extractRange_word {r : RegIdx} {top : Nat} (hw : top - lo + 1 = 5)
    (hr : o.get name = r.setWidth 64) (h : l.holds name lo 5) :
    (Decode.extractRange (l.word o) lo top).setWidth 5 = r := by
  rw [← field_word (by decide) hr h]
  refine eq_of_getLsbD_eq fun i hi => ?_
  rw [getLsbD_setWidth, getLsbD_extractRange _ (by omega), getLsbD_setWidth,
    getLsbD_ushiftRight, hw]
  simp [hi]

/-- Three bits name the registers from `x8` to `x15`. -/
theorem shortReg_word {r : RegIdx} {top : Nat} (hw : top - lo + 1 = 3)
    (hr : o.get name = r.setWidth 64) (h : l.holds name lo 3)
    (hs : 8 ≤ (o.get name).toNat ∧ (o.get name).toNat < 16) :
    cvtShortReg ((Decode.extractRange (l.word o) lo top).setWidth 5) = r := by
  have hlow : (Decode.extractRange (l.word o) lo top).setWidth 5 = (r.setWidth 3).setWidth 5 := by
    refine eq_of_getLsbD_eq fun i hi => ?_
    rw [getLsbD_setWidth, getLsbD_extractRange _ (by omega), hw]
    by_cases hi3 : i < 3
    · rw [getLsbD_of_holds h hi3, hr]
      simp [hi, hi3, show i < 64 by omega]
    · simp [hi3]
  rw [hlow, cvtShortReg]
  rw [hr] at hs
  refine eq_of_toNat_eq ?_
  simp at hs ⊢
  omega

theorem flag_word {k : Nat} {b : Bool} (hb : o.get name = (ofBool b).setWidth 64)
    (h : l.holds name k 1) : (l.word o).getLsbD k = b := by
  have hbit := getLsbD_of_holds (o := o) h (i := 0) (by decide)
  rw [Nat.add_zero] at hbit
  rw [hbit, hb]
  cases b <;> rfl

/-- For every bit `i` of a field below `m`, the positions it is taken from hold
that bit of the immediate moved up by `s`, or there are none because the bit is
not written down. -/
def gathers (l : Layout) (fields : List FieldRange) (m s : Nat) : Bool :=
  (range m).all fun i =>
    (sources fields i).map (locate l.row) ==
      if l.immForm.zeros ≤ i + s ∧ i + s < l.immForm.width then [some (.imm, i + s)] else []

variable {fields : List FieldRange} {m s : Nat}

theorem getLsbD_gathered (h : l.gathers fields m s) (hf : fields.all FieldRange.fits)
    (hm : m ≤ 32) (hi : i < m) : (extractField (l.word o) fields).getLsbD i =
      (decide (l.immForm.zeros ≤ i + s ∧ i + s < l.immForm.width) && o.imm.getLsbD (i + s)) := by
  have hsrc := all_eq_true.mp h i (mem_range.mpr hi)
  rw [beq_iff_eq] at hsrc
  rw [getLsbD_extractField _ (all_eq_true.mp hf) (by omega)]
  split at hsrc
  · next hin =>
      obtain ⟨k, hk, hloc⟩ := map_eq_singleton_iff.mp hsrc
      rw [hk]
      simp [hin, getLsbD_word (o := o) hloc, Operands.get]
  · next hout =>
      rw [map_eq_nil_iff.mp hsrc]
      simp [hout]

/-! ## The immediates -/

variable (he : l.immForm.Encodable o.imm) (hf : fields.all FieldRange.fits)

include he

theorem getLsbD_of_low (hi : i < l.immForm.zeros) : o.imm.getLsbD i = false := by
  have hbit := congrArg (·.getLsbD i) he.low
  simpa [hi] using hbit

include hf

/-- The bits that are not written down are zero, so a gathered bit is that of the
immediate. -/
theorem getLsbD_imm (h : l.gathers fields m s) (hm : m ≤ 32) (hi : i < m) :
    (extractField (l.word o) fields).getLsbD i =
      (decide (i + s < l.immForm.width) && o.imm.getLsbD (i + s)) := by
  rw [getLsbD_gathered h hf hm hi]
  by_cases hz : l.immForm.zeros ≤ i + s
  · simp [hz]
  · simp [getLsbD_of_low he (Nat.lt_of_not_le hz)]

theorem zeroExt_word (hu : l.immForm.signed = false) (h : l.gathers fields 32 0)
    (hw : l.immForm.width ≤ 32) : zeroExtExtract (l.word o) fields = o.imm := by
  have himm := he.extended
  rw [hu, if_neg Bool.false_ne_true] at himm
  rw [zeroExtExtract, himm]
  refine eq_of_getLsbD_eq fun i hi => ?_
  rw [getLsbD_setWidth, getLsbD_setWidth, getLsbD_setWidth]
  by_cases hlt : i < 32
  · rw [getLsbD_imm he hf h (Nat.le_refl 32) hlt]
    rfl
  · rw [getLsbD_of_ge _ _ (Nat.le_of_not_lt hlt)]
    simp [show ¬ i < l.immForm.width by omega]

/-- A field whose `n` bits are the high ones of the immediate, moved back by `s`. -/
theorem signExt_shifted_word (hs : l.immForm.signed) (h : l.gathers fields n s)
    (hn : 0 < n) (hn32 : n ≤ 32) (hw : l.immForm.width = n + s) (hz : s ≤ l.immForm.zeros) :
    signExtend ((extractField (l.word o) fields).setWidth 64) n <<< s = o.imm := by
  have himm := he.extended
  rw [hs, if_pos rfl] at himm
  have hbit : ∀ i < n, (extractField (l.word o) fields).getLsbD i = o.imm.getLsbD (i + s) := by
    intro i hi
    rw [getLsbD_imm he hf h hn32 hi]
    simp [hw, hi]
  rw [signExtend_eq hn (by omega)]
  refine eq_of_getLsbD_eq fun j hj => ?_
  rw [getLsbD_shiftLeft]
  by_cases hjs : j < s
  · simp [hjs, getLsbD_of_low he (Nat.lt_of_lt_of_le hjs hz)]
  · rw [himm]
    simp only [getLsbD_signExtend, getLsbD_setWidth, msb_eq_getLsbD_last, hw]
    by_cases hjn : j - s < n
    · have hsum : j - s + s = j := by omega
      simp [hj, hjs, hjn, hbit _ hjn, hsum, show j < n + s by omega, show j - s < 64 by omega]
    · have hlast : n - 1 + s = n + s - 1 := by omega
      simp [hj, hjs, hjn, hbit (n - 1) (by omega), hlast, show ¬ j < n + s by omega,
        show j - s < 64 by omega, show n - 1 < 64 by omega, show n - 1 < n by omega,
        show n + s - 1 < n + s by omega]

theorem signExt_word (hs : l.immForm.signed)
    (h : l.gathers fields l.immForm.width 0)
    (hw : 0 < l.immForm.width ∧ l.immForm.width ≤ 32) :
    signExtend ((extractField (l.word o) fields).setWidth 64) l.immForm.width = o.imm := by
  rw [← shiftLeft_zero (signExtend _ _)]
  exact signExt_shifted_word he hf hs h hw.1 hw.2 rfl (Nat.zero_le _)

/-- The low bits, which is all of the immediate that a shift uses. -/
theorem setWidth_word (h : l.gathers fields m 0) (hm : m ≤ 32) (hw : m ≤ l.immForm.width) :
    ((extractField (l.word o) fields).setWidth 64).setWidth m = o.imm.setWidth m := by
  refine eq_of_getLsbD_eq fun i hi => ?_
  rw [getLsbD_setWidth, getLsbD_setWidth, getLsbD_setWidth, getLsbD_imm he hf h hm hi]
  simp [hi, show i < 64 by omega, show i < l.immForm.width by omega]

omit he hf

theorem setWidth_signExtend {v : WordType} {b : Nat} (h0 : 0 < b) (hb : b ≤ 64) (hm : m ≤ b) :
    (signExtend v b).setWidth m = v.setWidth m := by
  rw [signExtend_eq h0 hb]
  refine eq_of_getLsbD_eq fun i hi => ?_
  simp only [getLsbD_setWidth, getLsbD_signExtend]
  simp [hi, show i < b by omega, show i < 64 by omega]

end Layout

namespace Decode

/-! The immediates of 32-bit instructions are gathered in other words. -/

variable (raw : BitVec 32)

theorem bits_twelve : bits raw 20 0xfff = extractField raw [⟨11, 0, 20⟩] := by
  simp [extractField, FieldRange.get, extractRange, bits]

theorem immS_eq :
    immS raw = signExtend ((extractField raw [⟨12, 5, 25⟩, ⟨4, 0, 7⟩]).setWidth 64) 12 := by
  simp [immS, extractField, FieldRange.get, extractRange, bits]

theorem immB_eq : immB raw =
    signExtend ((extractField raw [⟨12, 12, 31⟩, ⟨11, 11, 7⟩, ⟨10, 5, 25⟩, ⟨4, 1, 8⟩]).setWidth 64)
      13 := by
  simp [immB, extractField, FieldRange.get, extractRange, bits]

theorem immJ_eq : immJ raw =
    signExtend
      ((extractField raw [⟨20, 20, 31⟩, ⟨19, 12, 12⟩, ⟨11, 11, 20⟩, ⟨10, 1, 21⟩]).setWidth 64) 21 := by
  simp [immJ, extractField, FieldRange.get, extractRange, bits]

theorem immU_eq : immU raw = signExtend ((extractField raw [⟨31, 12, 12⟩]).setWidth 64) 32 := by
  have hfield : (raw >>> 12) <<< 12 = extractField raw [⟨31, 12, 12⟩] := by
    refine eq_of_getLsbD_eq fun i hi => ?_
    rw [getLsbD_extractField raw (by decide) hi]
    simp only [getLsbD_shiftLeft, getLsbD_ushiftRight, sources]
    by_cases hlow : 12 ≤ i
    · simp [hi, hlow, show i ≤ 31 by omega]
    · simp [hlow, Nat.lt_of_not_le hlow]
  rw [immU, hfield]

/-- A mask that keeps the low `n` bits does not change them. -/
theorem setWidth_and_mask {v mask : WordType} {n : Nat} (h : mask.setWidth n = allOnes n) :
    (v &&& mask).setWidth n = v.setWidth n := by
  rw [setWidth_and, h, and_allOnes]

end Decode

/-! ## Formats -/

namespace Layout

variable {l : Layout} {o : Operands}

theorem rs1_word (h : l.holds .rs1 15 5) : reg (l.word o) 15 = o.rs1 :=
  field_word (by decide) rfl h

theorem rs2_word (h : l.holds .rs2 20 5) : reg (l.word o) 20 = o.rs2 :=
  field_word (by decide) rfl h

theorem rs3_word (h : l.holds .rs3 27 5) : reg (l.word o) 27 = o.rs3 :=
  field_word (by decide) rfl h

theorem rd_word (h : l.holds .rd 7 5) : reg (l.word o) 7 = o.rd :=
  field_word (by decide) rfl h

theorem rm_word (h : l.holds .rm 12 3) : (l.word o >>> 12).setWidth 3 = o.rm :=
  field_word (by decide) rfl h

theorem funct6_word (h : l.holds .funct6 26 6) : (l.word o >>> 26).setWidth 6 = o.funct6 :=
  field_word (by decide) rfl h

theorem bits_one (raw : BitVec 32) (k : Nat) : (bits raw k 1 != 0) = raw.getLsbD k := by
  have hbit := bit_ne_zero (raw >>> k) (k := 0) (by decide)
  rwa [getLsbD_ushiftRight] at hbit

theorem and_bit (raw : BitVec 32) : (raw &&& (1 <<< 25) != 0) = raw.getLsbD 25 :=
  bit_ne_zero raw (by decide)

theorem aq_word (h : l.holds .aq 26 1) : (l.word o).getLsbD 26 = o.aq := flag_word rfl h

theorem rl_word (h : l.holds .rl 25 1) : (l.word o).getLsbD 25 = o.rl := flag_word rfl h

theorem vm_word (h : l.holds .vm 25 1) : (l.word o).getLsbD 25 = o.vm := flag_word rfl h

variable {F V : Type}

/-- What the I format keeps of its twelve bits. -/
def immMask : RiscvInstr F V → WordType
  | .SRLI | .SRAI => 0x3f
  | .SRLIW | .SRAIW => 0x1f
  | _ => allOnes 64

theorem immI_eq (raw : BitVec 32) (instr : RiscvInstr F V) : immI raw instr =
    signExtend ((extractField raw [⟨11, 0, 20⟩]).setWidth 64 &&& immMask instr) 12 := by
  unfold immI
  rw [bits_twelve]
  split
  · rfl
  · rfl
  · rfl
  · rfl
  · have hmask : immMask instr = allOnes 64 := by
      unfold immMask
      split <;> first | contradiction | rfl
    rw [hmask, and_allOnes]

variable {instr : RiscvInstr F V}

theorem immI_low (he : l.immForm.Encodable o.imm) {m : Nat}
    (hg : l.gathers [⟨11, 0, 20⟩] m 0) (hw : m ≤ l.immForm.width) (hm : m ≤ 12)
    (hmask : (immMask instr).setWidth m = allOnes m) :
    (immI (l.word o) instr).setWidth m = o.imm.setWidth m := by
  rw [immI_eq, setWidth_signExtend (by decide) (by decide) hm, setWidth_and_mask hmask,
    setWidth_word he rfl hg (by omega) hw]

theorem immI_word (he : I.immForm.Encodable o.imm) (hmask : immMask instr = allOnes 64) :
    immI (I.word o) instr = o.imm := by
  rw [immI_eq, hmask, and_allOnes]
  exact signExt_word he rfl rfl rfl (by decide)

theorem immS_word (he : S.immForm.Encodable o.imm) : immS (S.word o) = o.imm := by
  rw [immS_eq]
  exact signExt_word he rfl rfl rfl (by decide)

theorem immB_word (he : B.immForm.Encodable o.imm) : immB (B.word o) = o.imm := by
  rw [immB_eq]
  exact signExt_word he rfl rfl rfl (by decide)

theorem immU_word (he : U.immForm.Encodable o.imm) : immU (U.word o) = o.imm := by
  rw [immU_eq]
  exact signExt_word he rfl rfl rfl (by decide)

theorem immJ_word (he : J.immForm.Encodable o.imm) : immJ (J.word o) = o.imm := by
  rw [immJ_eq]
  exact signExt_word he rfl rfl rfl (by decide)

/-- The amount of a shift, the number of a register of the file, or a number: the
three ways an instruction of the I format uses its immediate. -/
theorem immI_cases (h : ofI instr = l) : (l = I ∧ immMask instr = allOnes 64) ∨
      ((l = shift ∨ l = shiftW ∨ l = csr) ∧
        (immMask instr).setWidth l.immBits = allOnes l.immBits) := by
  unfold ofI at h
  split at h <;> cases h
  case h_13 =>
      refine .inl ⟨rfl, ?_⟩
      unfold immMask
      split <;> first | contradiction | rfl
  all_goals exact .inr ⟨by simp, by simp [immMask, immBits]⟩

theorem decodeInfo_word {format : InstrFormat} (h : ofFormat instr format = some l)
    (he : l.Encodable o) : ∃ imm, imm.setWidth l.immBits = o.imm.setWidth l.immBits ∧
      decodeInfo (l.word o) instr format = l.info o imm := by
  cases format with
  | none => cases h
  | R | R_rm | R4_rm | A | V | S | B | U | J =>
    cases h
    exact ⟨o.imm, rfl, by
      simp (disch := first | decide | exact he.imm) only [decodeInfo, info, rs1_word, rs2_word,
        rs3_word, rd_word, rm_word, bits_one, aq_word, rl_word, and_bit, vm_word, funct6_word,
        immS_word, immB_word, immU_word, immJ_word]⟩
  | I =>
    refine ⟨immI (l.word o) instr, ?_, ?_⟩
    · obtain ⟨rfl, hmask⟩ | ⟨rfl | rfl | rfl, hmask⟩ := immI_cases (Option.some.inj h)
      · rw [immI_word he.imm hmask]
      all_goals exact immI_low he.imm rfl (by decide) (by decide) hmask
    · obtain ⟨rfl, -⟩ | ⟨rfl | rfl | rfl, -⟩ := immI_cases (Option.some.inj h)
      all_goals simp (disch := decide) only [decodeInfo, info, rs1_word, rd_word]

/-! ## Compressed formats -/

theorem crRd_word (h : l.holds .rd 7 5) :
    decodeCompressedInfo.rdRs1 (l.word o) = o.rd := extractRange_word rfl rfl h

theorem crRs2_word (h : l.holds .rs2 2 5) :
    decodeCompressedInfo.rs2 (l.word o) = o.rs2 := extractRange_word rfl rfl h

/-- The short register a layout has in its low field or in its high one. -/
theorem lowShort_word (name : Field) {r : RegIdx} (he : l.Encodable o)
    (hr : o.get name = r.setWidth 64) (hm : name ∈ l.shortRegs) (h : l.holds name 2 3) :
    decodeCompressedInfo.rdRs2Short (l.word o) = r :=
  shortReg_word rfl hr h (he.short name hm)

theorem highShort_word (name : Field) {r : RegIdx} (he : l.Encodable o)
    (hr : o.get name = r.setWidth 64) (hm : name ∈ l.shortRegs) (h : l.holds name 7 3) :
    decodeCompressedInfo.rdRs1Short (l.word o) = r :=
  shortReg_word rfl hr h (he.short name hm)

theorem immCI_word (h : ofCI instr = some l) (he : l.immForm.Encodable o.imm) :
    (immCI (l.word o) instr).setWidth l.immBits = o.imm.setWidth l.immBits := by
  unfold ofCI at h
  split at h <;> cases h
  case h_4 =>
      exact (setWidth_signExtend (by decide) (by decide) (by decide)).trans
        (setWidth_word he rfl rfl (by decide) (by decide))
  case h_5 =>
      exact congrArg (setWidth 64)
        (signExt_shifted_word he rfl rfl rfl (by decide) (by decide) rfl (by decide))
  case h_1 | h_2 | h_3 | h_6 =>
      exact congrArg (setWidth 64)
        (signExt_word he rfl rfl rfl (by decide))
  all_goals exact congrArg (setWidth 64) (zeroExt_word he rfl rfl rfl (by decide))

theorem immCIW_word (he : CIW.immForm.Encodable o.imm) : immCIW (CIW.word o) = o.imm :=
  zeroExt_word he rfl rfl rfl (by decide)

theorem targetCJ_word (he : CJ.immForm.Encodable o.imm) : targetCJ (CJ.word o) = o.imm :=
  signExt_word he rfl rfl rfl (by decide)

theorem immCB_word (h : ofCB instr = some l) (he : l.immForm.Encodable o.imm) :
    ∃ imm, imm.setWidth l.immBits = o.imm.setWidth l.immBits ∧
      immCB (l.word o) instr = .ok imm := by
  unfold ofCB at h
  split at h <;> cases h
  case h_2 | h_3 =>
      exact ⟨_, (setWidth_signExtend (by decide) (by decide) (by decide)).trans
        (setWidth_word he rfl rfl (by decide) (by decide)), rfl⟩
  all_goals
    exact ⟨o.imm, rfl, congrArg Except.ok (signExt_word he rfl rfl rfl (by decide))⟩

theorem decodeCompressedInfo_word {format : CompressedFormat}
    (h : ofCompressed instr format = some l) (he : l.Encodable o) :
    ∃ imm, imm.setWidth l.immBits = o.imm.setWidth l.immBits ∧
      decodeCompressedInfo (l.word o) instr format = .ok (l.info o imm) := by
  cases format with
  | none => cases h
  | CR =>
    cases h
    exact ⟨o.imm, rfl, by
      simp (disch := decide) only [decodeCompressedInfo, info, crRd_word, crRs2_word]⟩
  | CA =>
    cases h
    refine ⟨o.imm, rfl, ?_⟩
    rw [decodeCompressedInfo, highShort_word .rd he rfl (by decide) rfl,
      lowShort_word .rs2 he rfl (by decide) rfl, info]
  | CIW =>
    cases h
    refine ⟨o.imm, rfl, ?_⟩
    rw [decodeCompressedInfo, lowShort_word .rd he rfl (by decide) rfl, immCIW_word he.imm, info]
  | CJ =>
    cases h
    refine ⟨o.imm, rfl, ?_⟩
    rw [decodeCompressedInfo, targetCJ_word he.imm, info]
  | CI =>
    refine ⟨immCI (l.word o) instr, immCI_word h he.imm, ?_⟩
    simp only [ofCompressed, ofCI] at h
    split at h <;> cases h
    all_goals rw [decodeCompressedInfo, crRd_word rfl, info]
  | CSS =>
    refine ⟨o.imm, rfl, ?_⟩
    simp only [ofCompressed, ofCSS] at h
    split at h <;> cases h
    all_goals
      rw [decodeCompressedInfo, crRs2_word rfl, immCSS, zeroExt_word he.imm rfl rfl rfl (by decide)]
      rfl
  | CL =>
    refine ⟨o.imm, rfl, ?_⟩
    simp only [ofCompressed, ofCL] at h
    split at h <;> cases h
    all_goals
      rw [decodeCompressedInfo, lowShort_word .rd he rfl (by decide) rfl,
        highShort_word .rs1 he rfl (by decide) rfl, immCL, zeroExt_word he.imm rfl rfl rfl (by decide)]
      rfl
  | CS =>
    refine ⟨o.imm, rfl, ?_⟩
    simp only [ofCompressed, ofCS] at h
    split at h <;> cases h
    all_goals
      rw [decodeCompressedInfo, lowShort_word .rs2 he rfl (by decide) rfl,
        highShort_word .rs1 he rfl (by decide) rfl, immCL, zeroExt_word he.imm rfl rfl rfl (by decide)]
      rfl
  | CB =>
    obtain ⟨imm, hlow, himm⟩ := immCB_word h he.imm
    refine ⟨imm, hlow, ?_⟩
    rw [decodeCompressedInfo, himm]
    simp only [ofCompressed, ofCB] at h
    split at h <;> cases h
    -- a branch has a source where the others have a destination
    case h_4 | h_5 => rw [highShort_word .rs1 he rfl mem_cons_self rfl]; rfl
    all_goals rw [highShort_word .rd he rfl mem_cons_self rfl]; rfl

/-- Decoding a word that was put together from operands gives the operands back. -/
theorem decode_inverts_encoding (instr : RiscvInstr F V) (l : Layout) (o : Operands)
    (he : l.Encodable o) :
    (∀ format, ofFormat instr format = some l →
      ∃ imm, imm.setWidth l.immBits = o.imm.setWidth l.immBits ∧
        decodeInfo (l.word o) instr format = l.info o imm) ∧
    ∀ format, ofCompressed instr format = some l →
      ∃ imm, imm.setWidth l.immBits = o.imm.setWidth l.immBits ∧
        decodeCompressedInfo (l.word o) instr format = .ok (l.info o imm) :=
  ⟨fun _ h => decodeInfo_word h he, fun _ h => decodeCompressedInfo_word h he⟩

/-- `beq x1, x2, -8`. -/
def beqOperands : Operands := { (default : Operands) with rs1 := 1, rs2 := 2, imm := -8, rest := 0x318 }

/-- `c.ld x10, 8(x11)`, with another instruction after it. -/
def ldOperands : Operands :=
  { (default : Operands) with rd := 10, rs1 := 11, imm := 8, rest := 0b00011, upper := 0x6588 }

example : B.word beqOperands = 0xfe208ce3 ∧ ld.word ldOperands = 0x65886588 := by decide

theorem decode_inverts_encoding_beq_ld :
    B.Encodable beqOperands ∧ ld.Encodable ldOperands ∧
    (∃ imm, imm.setWidth 64 = (-8 : WordType).setWidth 64 ∧
      decodeInfo 0xfe208ce3 (.BEQ : RiscvInstr Unit Unit) .B = .B 1 2 imm) ∧
    ∃ imm, imm.setWidth 64 = (8 : WordType).setWidth 64 ∧
      decodeCompressedInfo 0x65886588 (.C_LD : RiscvInstr Unit Unit) .CL = .ok (.CL 10 11 imm) :=
  have hbeq : B.Encodable beqOperands := ⟨⟨by decide, by decide⟩, by decide⟩
  have hld : ld.Encodable ldOperands := ⟨⟨by decide, by decide⟩, by decide⟩
  ⟨hbeq, hld, (decode_inverts_encoding .BEQ B beqOperands hbeq).1 .B rfl,
    (decode_inverts_encoding .C_LD ld ldOperands hld).2 .CL rfl⟩

end Layout

end HereEmu
