import HereEmu.Proofs.FloatRounding

/-!
# Words turned into floats

`fcvt.s.w`, `fcvt.d.w` and their unsigned forms convert the low half of an integer
register. The unsigned forms cut the register down to it. The signed forms do
not, and convert the whole register: they are right for registers that hold a
word as the integer instructions leave it, sign-extended.
-/

namespace HereEmu

open Lib (Exec)

/-- The format and the signedness of the conversions from words. -/
def wordConversion : FloatInstr → Option (FloatFmt × Bool)
  | .FCVT_S_W => some (.f32, true)
  | .FCVT_D_W => some (.f64, true)
  | .FCVT_S_WU => some (.f32, false)
  | .FCVT_D_WU => some (.f64, false)
  | _ => none

/-- The number a word stands for. -/
def wordValue (signed : Bool) (word : BitVec 32) : Int :=
  if signed then word.toInt else word.toNat

/-- The low half of a register. -/
def lowWord (x : WordType) : BitVec 32 := x.setWidth 32

theorem toInt_signExtend_double (x : WordType) : (x.signExtend 128).toInt = x.toInt :=
  BitVec.toInt_signExtend_of_le (by decide)

theorem toNat_truncateToBits (x : WordType) :
    ((truncateToBits x 32).setWidth 128).toNat = (lowWord x).toNat := by
  have hlow : (x &&& 0xffffffff#64).toNat = x.toNat % 2 ^ 32 := by
    exact Nat.and_two_pow_sub_one_eq_mod x.toNat 32
  have hcut : truncateToBits x 32 = x &&& 0xffffffff#64 := rfl
  rw [hcut, BitVec.toNat_setWidth, hlow, lowWord, BitVec.toNat_setWidth]
  omega

section Convert

variable {L : FloatLib} {ofInt : (f : FloatFmt) → Int → Round → StatusAnd (L.Float f)}
  {op : FloatInstr} {f : FloatFmt} {signed : Bool} {stack : Nat} {rs1 rs2 rd : RegIdx} {rm : BitVec 3}
  {regFile : RegIdx → WordType} {fcsr : WordType} {fpu : SoftFPU L}

/-- The float unit after a conversion. -/
def SoftFPU.storeConverted (fpu : SoftFPU L) (f : FloatFmt) (rd : RegIdx)
    (rst : StatusAnd (L.Float f)) : SoftFPU L :=
  (fpu.saveStatus rst.status).store f rd rst.value

/-- The number that is converted. -/
def convertedInt (signed : Bool) (x : WordType) : Int :=
  if signed then x.toInt else (lowWord x).toNat

theorem exec_word (hI : ∀ f v round, (L.ops f).fromI128R v round = ofInt f v.toInt round)
    (hU : ∀ f v round, (L.ops f).fromU128R v round = ofInt f v.toNat round)
    (hop : wordConversion op = some (f, signed)) :
    (getFloatFunc op).exec stack (.R_rm rs1 rs2 rd rm) regFile fcsr fpu =
      (rmToRound fcsr stack rm).map fun round =>
        (fpu.storeConverted f rd (ofInt f (convertedInt signed (regFile rs1)) round), regFile) := by
  have hsigned : ∀ f bits, (FloatFunc.cvtFFromI f bits).exec stack (.R_rm rs1 rs2 rd rm) regFile fcsr
      fpu = (rmToRound fcsr stack rm).map fun round =>
        (fpu.storeConverted f rd (ofInt f (convertedInt true (regFile rs1)) round), regFile) := by
    intro f bits
    simp only [FloatFunc.exec, SoftFPU.cvtSignedAndStore, hI, toInt_signExtend_double]
    rfl
  have hunsigned : ∀ f, (FloatFunc.cvtFFromU f 32).exec stack (.R_rm rs1 rs2 rd rm) regFile fcsr
      fpu = (rmToRound fcsr stack rm).map fun round =>
        (fpu.storeConverted f rd (ofInt f (convertedInt false (regFile rs1)) round), regFile) := by
    intro f
    simp only [FloatFunc.exec, SoftFPU.cvtUnsignedAndStore, hU, toNat_truncateToBits]
    rfl
  cases op with
  | FCVT_S_W | FCVT_D_W =>
    cases hop
    exact hsigned _ _
  | FCVT_S_WU | FCVT_D_WU =>
    cases hop
    exact hunsigned _
  | _ => cases hop

/-- The register holds its low half sign-extended, or it is read as unsigned. -/
def HoldsWord (signed : Bool) (x : WordType) : Prop :=
  signed → x = (lowWord x).signExtend 64

instance (signed : Bool) (x : WordType) : Decidable (HoldsWord signed x) := by
  unfold HoldsWord
  infer_instance

theorem convertedInt_eq_iff {x : WordType} :
    convertedInt signed x = wordValue signed (lowWord x) ↔ HoldsWord signed x := by
  unfold convertedInt wordValue HoldsWord
  cases signed with
  | false => simp
  | true =>
    have hext : ((lowWord x).signExtend 64).toInt = (lowWord x).toInt :=
      BitVec.toInt_signExtend_of_le (by decide)
    rw [if_pos rfl, if_pos rfl, ← hext, BitVec.toInt_inj, forall_prop_of_true rfl]

theorem storeConverted_value {a b : StatusAnd (L.Float f)}
    (h : fpu.storeConverted f rd a = fpu.storeConverted f rd b) : a.value = b.value := by
  have hreg := congrArg (fun fpu => fpu.regFile rd) h
  simp only [SoftFPU.storeConverted, SoftFPU.store, Function.update_self] at hreg
  cases f <;> exact (by injection hreg)

/-- Two registers with one low half, of which the first holds a word. -/
theorem exists_registers (word : BitVec 32) : ∃ x y, lowWord x = word ∧ lowWord y = word ∧
    x.toInt = word.toInt ∧ y.toInt = word.toInt + 2 ^ 32 := by
  have hlow : (word.signExtend 64).setWidth 32 = word := by
    refine BitVec.eq_of_getLsbD_eq fun i hi => ?_
    rw [BitVec.getLsbD_setWidth, BitVec.getLsbD_signExtend, if_pos hi]
    simp [hi, show i < 64 by omega]
  have hext : (word.signExtend 64).toInt = word.toInt := BitVec.toInt_signExtend_of_le (by decide)
  refine ⟨word.signExtend 64, word.signExtend 64 + 0x100000000#64, hlow, ?_, hext, ?_⟩
  · rw [lowWord, BitVec.setWidth_add _ _ (by decide), hlow]
    exact BitVec.add_zero word
  · have hle := word.le_toInt
    have hlt := word.toInt_lt
    rw [BitVec.toInt_add, hext, show (0x100000000#64).toInt = 2 ^ 32 from rfl]
    exact Int.bmod_eq_of_le (by omega) (by omega)

/-- A register is converted as its low half if and only if it holds a word, or is
read as unsigned. So the upper half plays no part in the unsigned conversions,
and it does in the signed ones: a library that tells the integers apart gives
other floats. -/
theorem word_conversion_exact {round : Round}
    (hI : ∀ f v round, (L.ops f).fromI128R v round = ofInt f v.toInt round)
    (hU : ∀ f v round, (L.ops f).fromU128R v round = ofInt f v.toNat round)
    (hop : wordConversion op = some (f, signed)) (hround : rmToRound fcsr stack rm = some round)
    (hapart : ∀ n ∈ [(regFile rs1).toInt, (lowWord (regFile rs1)).toInt + 2 ^ 32],
      (ofInt f n round).value = (ofInt f (lowWord (regFile rs1)).toInt round).value →
        n = (lowWord (regFile rs1)).toInt) :
    ((getFloatFunc op).exec stack (.R_rm rs1 rs2 rd rm) regFile fcsr fpu =
        some (fpu.storeConverted f rd (ofInt f (wordValue signed (lowWord (regFile rs1))) round),
          regFile) ↔
      HoldsWord signed (regFile rs1)) ∧
    ((∀ regFile', lowWord (regFile' rs1) = lowWord (regFile rs1) →
        ((getFloatFunc op).exec stack (.R_rm rs1 rs2 rd rm) regFile' fcsr fpu).map Prod.fst =
          ((getFloatFunc op).exec stack (.R_rm rs1 rs2 rd rm) regFile fcsr fpu).map Prod.fst) ↔
      signed = false) := by
  simp only [exec_word hI hU hop, hround, Option.map_some, Option.some.injEq, Prod.mk.injEq, and_true]
  cases signed with
  | false =>
    refine ⟨⟨fun _ => nofun, fun _ => by simp [convertedInt, wordValue]⟩, fun _ => rfl,
      fun _ regFile' hlow => ?_⟩
    simp only [convertedInt, Bool.false_eq_true, if_false, hlow]
  | true =>
    simp only [convertedInt, wordValue, if_true]
    refine ⟨⟨fun h => ?_, fun h => ?_⟩, fun hall => ?_, nofun⟩
    · exact convertedInt_eq_iff.1 (hapart (regFile rs1).toInt (by simp) (storeConverted_value h))
    · rw [show (regFile rs1).toInt = _ from convertedInt_eq_iff.2 h]
      rfl
    · obtain ⟨x, y, hx, hy, hword, hupper⟩ := exists_registers (lowWord (regFile rs1))
      have hsame := (hall (fun _ => y) hy).trans (hall (fun _ => x) hx).symm
      rw [hword, hupper] at hsame
      have := hapart _ (by simp) (storeConverted_value hsame)
      omega

end Convert

/-- Minus one, converted to a double. -/
theorem word_conversion_exact_minus_one :
    (getFloatFunc .FCVT_D_W).exec 2 (.R_rm 1 0 2 0) (roundCpu 0 (-1)).regFile 0 (roundCpu 0 (-1)).fpu =
      some ((roundCpu 0 (-1)).fpu.storeConverted .f64 2 (ofIntR .f64 (-1) .nearestTiesToEven),
        (roundCpu 0 (-1)).regFile) :=
  have hapart : ∀ n ∈ [(-1 : Int), -1 + 2 ^ 32], (ofIntR .f64 n .nearestTiesToEven).value =
      (ofIntR .f64 (-1) .nearestTiesToEven).value → n = -1 := by decide +kernel
  (@word_conversion_exact roundPlatform.floats ofIntR .FCVT_D_W .f64 true 2 1 0 2 0
    (roundCpu 0 (-1)).regFile 0 (roundCpu 0 (-1)).fpu .nearestTiesToEven (fun _ _ _ => rfl)
    (fun _ _ _ => rfl) rfl rfl hapart).1.2 (by decide +kernel)

/-- Two registers whose low halves are zero, and what they are converted to. -/
theorem word_conversion_upper_half :
    lowWord 0x100000000 = lowWord 0 ∧
      roundRun .FCVT_S_W 0 0 0x100000000 = .ok (.ok (), 0xffffffff4f800000) ∧
      roundRun .FCVT_S_W 0 0 0 = .ok (.ok (), 0xffffffff00000000) ∧
      roundRun .FCVT_D_W 0 0 0x100000000 = .ok (.ok (), 0x41f0000000000000) ∧
      roundRun .FCVT_D_W 0 0 0 = .ok (.ok (), 0) := by
  decide +kernel

end HereEmu
