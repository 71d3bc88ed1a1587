import HereEmu.Instr.ExecTrait

/-!
# Multiplication, division and the word forms are exact

The source multiplies and divides in 128 bits, where no product of two words
overflows and no quotient of two words does. So nothing panics, and the results
are those of the integers: the two halves of a product make it up, a quotient
and its remainder make up the dividend, and the word forms do so with the low
halves of their operands and extend the sign of what comes out.
-/

namespace HereEmu

open ArithOp (low signExtendU32)
open BitVec

/-! ## Words as integers -/

section Integers

variable {n m : Nat}

/-- Cutting off the upper bits is reducing modulo a power of two. -/
theorem setWidth_eq_ofInt (h : n ≤ m) (x : BitVec m) : x.setWidth n = BitVec.ofInt n x.toInt := by
  refine eq_of_toInt_eq ?_
  rw [← signExtend_eq_setWidth_of_le x h, toInt_ofInt, toInt_signExtend_eq_toInt_bmod_of_le x h]

theorem ofInt_bmod (h : n ≤ m) (i : Int) : BitVec.ofInt n (i.bmod (2 ^ m)) = BitVec.ofInt n i := by
  refine eq_of_toInt_eq ?_
  rw [toInt_ofInt, toInt_ofInt]
  exact Int.bmod_bmod_of_dvd (Nat.pow_dvd_pow 2 h)

theorem signExtendU32_eq (v : BitVec 32) : signExtendU32 v = v.signExtend 64 := by
  unfold signExtendU32
  rw [signExtend_eq (by decide) (by decide)]
  simp

end Integers

/-! ## The steps of the source -/

namespace ExecTrait

variable {w : Nat}

/-- A word is not negative in 128 bits. -/
theorem toInt_setWidth_double (hle : w ≤ 64) (v : BitVec w) : (v.setWidth 128).toInt = v.toNat := by
  have hpow : 2 ^ w ≤ 2 ^ 64 := Nat.pow_le_pow_right (by decide) hle
  have hnat : (v.setWidth 128).toNat = v.toNat := by
    rw [BitVec.toNat_setWidth, Nat.mod_eq_of_lt (by omega)]
  rw [toInt_eq_toNat_of_lt (by omega), hnat]

theorem toInt_twoPow_double (hle : w ≤ 64) : (1#128 <<< w).toInt = 2 ^ w := by
  have hpow : 2 ^ w ≤ 2 ^ 64 := Nat.pow_le_pow_right (by decide) hle
  have hnat : (1#128 <<< w).toNat = 2 ^ w := by
    rw [← twoPow_eq, toNat_twoPow_of_lt (by omega)]
  rw [toInt_eq_toNat_of_lt (by omega), hnat]
  exact Int.natCast_pow 2 w

theorem toInt_word_bounds (hle : w ≤ 64) (b : BitVec w) : -2 ^ 63 ≤ b.toInt ∧ b.toInt < 2 ^ 63 := by
  have h1 := le_two_mul_toInt (w := w) (x := b)
  have h2 := two_mul_toInt_lt (w := w) (x := b)
  have hpow : (2 : Int) ^ w ≤ 2 ^ 64 := by
    exact_mod_cast Nat.pow_le_pow_right (by decide : 0 < 2) hle
  omega

theorem asSignedI128_eq (hw : 0 < w) (hle : w ≤ 64) (v : BitVec w) :
    asSignedI128 v = .ok (v.signExtend 128) := by
  have hsign : (v.setWidth 128 &&& 1#128 <<< (w - 1) != 0) = v.msb := by
    rw [bit_ne_zero _ (by omega), getLsbD_setWidth, msb_eq_getLsbD_last]
    simp [show w - 1 < 128 by omega]
  unfold asSignedI128
  cases hmsb : v.msb with
  | false =>
    have hzero := bne_eq_false_iff_eq.mp (hsign.trans hmsb)
    rw [if_pos hzero, signExtend_eq_setWidth_of_msb_false hmsb]
  | true =>
    have hne := bne_iff_ne.mp (hsign.trans hmsb)
    have hdiff : (v.setWidth 128).toInt - (1#128 <<< w).toInt = v.toInt := by
      rw [toInt_setWidth_double hle, toInt_twoPow_double hle, toInt_eq_msb_cond, hmsb, if_pos rfl]
      rfl
    have hbounds := toInt_word_bounds hle v
    have hfits : (v.setWidth 128).ssubOverflow (1#128 <<< w) = false := by
      unfold ssubOverflow
      simp only [Bool.or_eq_false_iff, decide_eq_false_iff_not]
      omega
    rw [if_neg hne]
    unfold checkedSubI128
    rw [hfits, if_neg (by decide)]
    refine congrArg Except.ok (eq_of_toInt_eq ?_)
    rw [toInt_sub_of_not_ssubOverflow (by rw [hfits]; decide), hdiff,
      toInt_signExtend_of_le (by omega)]

theorem checkedMulI128_eq {a b : BitVec 128} (hlo : -2 ^ 127 ≤ a.toInt * b.toInt)
    (hhi : a.toInt * b.toInt < 2 ^ 127) :
    ∃ p, checkedMulI128 a b = .ok p ∧ p.toInt = a.toInt * b.toInt := by
  have hfits : a.smulOverflow b = false := by
    unfold smulOverflow
    simp only [Bool.or_eq_false_iff, decide_eq_false_iff_not]
    omega
  refine ⟨a * b, ?_, toInt_mul_of_not_smulOverflow (by rw [hfits]; decide)⟩
  unfold checkedMulI128
  rw [hfits, if_neg (by decide)]

/-- A product in 128 bits, and its upper half. -/
theorem fromSignedI128_sar (hle : w ≤ 64) (p : BitVec 128) (n : Nat) :
    (fromSignedI128 (p.sshiftRight n) : BitVec w) = BitVec.ofInt w (p.toInt / 2 ^ n) := by
  unfold fromSignedI128
  rw [setWidth_eq_ofInt (by omega), toInt_sshiftRight, Int.shiftRight_eq_div_pow]
  rfl

/-- The factors of a product, as integers, are small enough for 128 bits. -/
theorem product_bounds (hle : w ≤ 64) (a : BitVec w) {y : Int} (hlo : -2 ^ 63 ≤ y) (hhi : y < 2 ^ 64) :
    -2 ^ 127 ≤ a.toInt * y ∧ a.toInt * y < 2 ^ 127 := by
  have ha := toInt_word_bounds hle a
  have hprod : a.toInt.natAbs * y.natAbs ≤ 2 ^ 63 * (2 ^ 64 - 1) :=
    Nat.mul_le_mul (by omega) (by omega)
  rw [← Int.natAbs_mul] at hprod
  omega

theorem toNat_word_lt (hle : w ≤ 64) (b : BitVec w) : b.toNat < 2 ^ 64 :=
  Nat.lt_of_lt_of_le b.isLt (Nat.pow_le_pow_right (by decide) hle)

/-- The upper half of a product that is made in 128 bits. -/
theorem sar_product (hle : w ≤ 64) {a b : BitVec 128} {x y : Int} (ha : a.toInt = x) (hb : b.toInt = y)
    (hlo : -2 ^ 127 ≤ x * y) (hhi : x * y < 2 ^ 127) :
    (do return fromSignedI128 (← checkedSar (← checkedMulI128 a b) w) : Rust (BitVec w)) =
      .ok (BitVec.ofInt w (x * y / 2 ^ w)) := by
  subst ha hb
  obtain ⟨p, hp, hint⟩ := checkedMulI128_eq hlo hhi
  rw [hp]
  show (checkedSar p w >>= _) = _
  unfold checkedSar
  rw [if_pos (by omega), ← hint]
  exact congrArg Except.ok (fromSignedI128_sar hle p w)

theorem mulHighSigned_eq (hw : 0 < w) (hle : w ≤ 64) (a b : BitVec w) :
    mulHighSigned a b = .ok (BitVec.ofInt w (a.toInt * b.toInt / 2 ^ w)) := by
  have hb := toInt_word_bounds hle b
  have hbound := product_bounds hle a hb.1 (by omega)
  unfold mulHighSigned
  rw [asSignedI128_eq hw hle, asSignedI128_eq hw hle]
  exact sar_product hle (toInt_signExtend_of_le (by omega))
    (toInt_signExtend_of_le (by omega)) hbound.1 hbound.2

theorem mixed_product_bounds (hle : w ≤ 64) (a b : BitVec w) :
    -2 ^ 127 ≤ a.toInt * b.toNat ∧ a.toInt * b.toNat < 2 ^ 127 := by
  have hb := toNat_word_lt hle b
  exact product_bounds hle a (by omega) (by omega)

theorem mulHighSignedUnsigned_eq (hw : 0 < w) (hle : w ≤ 64) (a b : BitVec w) :
    mulHighSignedUnsigned a b = .ok (BitVec.ofInt w (a.toInt * b.toNat / 2 ^ w)) := by
  have hbound := mixed_product_bounds hle a b
  unfold mulHighSignedUnsigned
  rw [asSignedI128_eq hw hle]
  exact sar_product hle (toInt_signExtend_of_le (by omega)) (toInt_setWidth_double hle b)
    hbound.1 hbound.2

theorem mulHighUnsigned_eq (hle : w ≤ 64) (a b : BitVec w) :
    mulHighUnsigned a b = .ok (BitVec.ofNat w (a.toNat * b.toNat / 2 ^ w)) := by
  have ha := toNat_word_lt hle a
  have hb := toNat_word_lt hle b
  have hprod : a.toNat * b.toNat < 2 ^ 64 * 2 ^ 64 := Nat.mul_lt_mul'' ha hb
  have hnat : (a.setWidth 128).toNat * (b.setWidth 128).toNat = a.toNat * b.toNat := by
    rw [BitVec.toNat_setWidth, BitVec.toNat_setWidth, Nat.mod_eq_of_lt (by omega),
      Nat.mod_eq_of_lt (by omega)]
  have hfits : (a.setWidth 128).umulOverflow (b.setWidth 128) = false := by
    unfold umulOverflow
    rw [hnat]
    simpa using hprod
  unfold mulHighUnsigned checkedMulU128
  rw [hfits]
  show (checkedShr _ w >>= _) = _
  unfold checkedShr
  rw [if_pos (by omega)]
  refine congrArg Except.ok (eq_of_toNat_eq ?_)
  have hsmall : a.toNat * b.toNat % 2 ^ 128 = a.toNat * b.toNat := Nat.mod_eq_of_lt (by omega)
  rw [BitVec.toNat_setWidth, toNat_ushiftRight, toNat_mul, hnat, hsmall,
    Nat.shiftRight_eq_div_pow, toNat_ofNat]

theorem toInt_signExtend_word (hle : w ≤ 64) (v : BitVec w) : (v.signExtend 128).toInt = v.toInt :=
  toInt_signExtend_of_le (by omega)

theorem signExtend_ne_zero {v : BitVec w} (hle : w ≤ 64) (h : v ≠ 0) : v.signExtend 128 ≠ 0 := by
  intro h0
  have hint := toInt_signExtend_word hle v
  rw [h0] at hint
  exact h (eq_of_toInt_eq (by simpa using hint.symm))

/-- Division is asked for only when there is something to divide by. -/
theorem guarded {α : Type} {b : BitVec w} {d r : α} {x : Rust α} (h : b ≠ 0 → x = .ok r) :
    (if b = 0 then .ok d else x) = .ok (if b = 0 then d else r) := by
  by_cases h0 : b = 0
  · rw [if_pos h0, if_pos h0]
  · rw [if_neg h0, if_neg h0, h h0]

theorem divSigned_eq (hw : 0 < w) (hle : w ≤ 64) (a b : BitVec w) : divSigned a b =
    .ok (if b = 0 then BitVec.allOnes w else BitVec.ofInt w (a.toInt.tdiv b.toInt)) := by
  refine guarded fun h0 => ?_
  rw [asSignedI128_eq hw hle, asSignedI128_eq hw hle]
  show (wrappingDiv _ _ >>= _) = _
  unfold wrappingDiv
  rw [if_neg (signExtend_ne_zero hle h0)]
  refine congrArg Except.ok ?_
  show ((a.signExtend 128).sdiv (b.signExtend 128)).setWidth w = _
  rw [setWidth_eq_ofInt (by omega), toInt_sdiv, toInt_signExtend_word hle,
    toInt_signExtend_word hle, ofInt_bmod (by omega)]

theorem remSigned_eq (hw : 0 < w) (hle : w ≤ 64) (a b : BitVec w) : remSigned a b =
    .ok (if b = 0 then a else BitVec.ofInt w (a.toInt.tmod b.toInt)) := by
  refine guarded fun h0 => ?_
  rw [asSignedI128_eq hw hle, asSignedI128_eq hw hle]
  show (wrappingRem _ _ >>= _) = _
  unfold wrappingRem
  rw [if_neg (signExtend_ne_zero hle h0)]
  refine congrArg Except.ok ?_
  show ((a.signExtend 128).srem (b.signExtend 128)).setWidth w = _
  rw [setWidth_eq_ofInt (by omega), toInt_srem, toInt_signExtend_word hle,
    toInt_signExtend_word hle]

theorem sdiv_eq_ofInt (a b : BitVec w) : a.sdiv b = BitVec.ofInt w (a.toInt.tdiv b.toInt) := by
  refine eq_of_toInt_eq ?_
  rw [toInt_sdiv, toInt_ofInt]

theorem srem_eq_ofInt (a b : BitVec w) : a.srem b = BitVec.ofInt w (a.toInt.tmod b.toInt) := by
  rw [← toInt_srem, ofInt_toInt]

/-! Shifts. -/

theorem toNat_and_mask (b : BitVec w) {k : Nat} (hk : k < w) :
    (b &&& BitVec.ofNat w (2 ^ k - 1)).toNat = b.toNat % 2 ^ k := by
  have hpow : 2 ^ k < 2 ^ w := Nat.pow_lt_pow_right (by decide) hk
  have hmask : 2 ^ k - 1 < 2 ^ w := Nat.lt_of_le_of_lt (Nat.sub_le _ _) hpow
  rw [toNat_and, toNat_ofNat, Nat.mod_eq_of_lt hmask]
  exact Nat.and_two_pow_sub_one_eq_mod b.toNat k

theorem toNat_and_63 (b : WordType) : (b &&& 63).toNat = b.toNat % 64 :=
  toNat_and_mask (k := 6) b (by decide)

theorem toNat_and_31 (b : WordType) : (b &&& 31).toNat = b.toNat % 32 :=
  toNat_and_mask (k := 5) b (by decide)

/-- The widths are powers of two, so masking the amount is reducing it. -/
theorem shiftAmount_eq {k : Nat} (hw : w = 2 ^ k) (hk : k ≤ 6) (b : BitVec w) :
    shiftAmount b = b.toNat % w := by
  subst hw
  have hpow : 2 ^ k ≤ 2 ^ 6 := Nat.pow_le_pow_right (by decide) hk
  have hb := toNat_word_lt (by omega) b
  unfold shiftAmount
  rw [toNat_and_mask _ (by omega), BitVec.toNat_setWidth, BitVec.toNat_setWidth, Nat.mod_eq_of_lt hb,
    Nat.mod_mod_of_dvd _ (Nat.pow_dvd_pow 2 (by omega))]

theorem shiftAmount_lt {k : Nat} (hw : w = 2 ^ k) (hk : k ≤ 6) (b : BitVec w) : shiftAmount b < w := by
  rw [shiftAmount_eq hw hk]
  exact Nat.mod_lt _ (hw ▸ Nat.two_pow_pos k)

theorem sll_eq {k : Nat} (hw : w = 2 ^ k) (hk : k ≤ 6) (a b : BitVec w) :
    sll a b = .ok (a <<< (b.toNat % w)) := by
  unfold sll checkedShl
  rw [if_pos (shiftAmount_lt hw hk b), shiftAmount_eq hw hk]

theorem srl_eq {k : Nat} (hw : w = 2 ^ k) (hk : k ≤ 6) (a b : BitVec w) :
    srl a b = .ok (a >>> (b.toNat % w)) := by
  unfold srl checkedShr
  rw [if_pos (shiftAmount_lt hw hk b), shiftAmount_eq hw hk]

theorem wordShift_eq (b : WordType) : wordShift b = (b &&& 31).toNat := by
  have hword : (b.setWidth 32 &&& BitVec.ofNat 32 (2 ^ 5 - 1)).toNat = b.toNat % 32 := by
    rw [toNat_and_mask _ (by decide), BitVec.toNat_setWidth]
    omega
  exact hword.trans (toNat_and_31 b).symm

theorem wordShift_lt (b : WordType) : wordShift b < 32 := by
  rw [wordShift_eq, toNat_and_31]
  exact Nat.mod_lt _ (by decide)

/-- Shifting in 128 bits is shifting. -/
theorem sar_double (hle : w ≤ 64) (v : BitVec w) (n : Nat) :
    ((v.signExtend 128).sshiftRight n).setWidth w = v.sshiftRight n := by
  rw [setWidth_eq_ofInt (by omega), toInt_sshiftRight, toInt_signExtend_of_le (by omega),
    ← toInt_sshiftRight, ofInt_toInt]

theorem sra_eq {k : Nat} (hw : w = 2 ^ k) (hk : k ≤ 6) (a b : BitVec w) :
    sra a b = .ok (a.sshiftRight (b.toNat % w)) := by
  have hlt := shiftAmount_lt hw hk b
  have hpow : 2 ^ k ≤ 2 ^ 6 := Nat.pow_le_pow_right (by decide) hk
  unfold sra
  rw [asSignedI128_eq (by omega) (by omega)]
  show (checkedSar _ _ >>= _) = _
  unfold checkedSar
  rw [if_pos (by omega), shiftAmount_eq hw hk]
  exact congrArg Except.ok (sar_double (by omega) a _)

theorem sraw_eq (a b : WordType) :
    sraw a b = .ok (signExtendU32 ((low a).sshiftRight (b &&& 31).toNat)) := by
  have hlt := wordShift_lt b
  unfold sraw
  rw [asSignedI128_eq (by decide) (by decide)]
  show (checkedSar _ _ >>= _) = _
  unfold checkedSar
  rw [if_pos (by omega), wordShift_eq]
  exact congrArg (fun v => Except.ok (signExtendU32 v)) (sar_double (by decide) (low a) _)

theorem signedLess_eq (hw : 0 < w) (hle : w ≤ 64) (a b : BitVec w) : signedLess a b = .ok (a.slt b) := by
  have ha : (a.signExtend 128).toInt = a.toInt := toInt_signExtend_of_le (by omega)
  have hb : (b.signExtend 128).toInt = b.toInt := toInt_signExtend_of_le (by omega)
  unfold signedLess
  rw [asSignedI128_eq hw hle, asSignedI128_eq hw hle]
  show Except.ok (decide _) = Except.ok (decide _)
  rw [ha, hb]

/-- Nothing panics, and what comes out is the operation of the model. -/
theorem exec_eq (op : ArithOp) (a b : WordType) : exec op a b = .ok (op.exec a b) := by
  cases op with
  | mulHighSigned => exact mulHighSigned_eq (by decide) (by decide) a b
  | mulHighUnsigned => exact mulHighUnsigned_eq (by decide) a b
  | mulHighSignedUnsigned => exact mulHighSignedUnsigned_eq (by decide) (by decide) a b
  | divSigned => exact divSigned_eq (by decide) (by decide) a b
  | divUnsigned | remUnsigned => exact guarded fun h0 => if_neg h0
  | remSigned => exact remSigned_eq (by decide) (by decide) a b
  | divw =>
    refine guarded fun h0 => ?_
    unfold wrappingDiv
    rw [if_neg h0, sdiv_eq_ofInt]
    rfl
  | divuw =>
    refine guarded fun h0 => ?_
    unfold checkedDiv
    rw [if_neg h0]
    rfl
  | remw =>
    refine guarded fun h0 => ?_
    unfold wrappingRem
    rw [if_neg h0, srem_eq_ofInt]
    rfl
  | remuw =>
    refine guarded fun h0 => ?_
    unfold checkedRem
    rw [if_neg h0]
    rfl
  | sll =>
    show sll a b = .ok (a <<< (b &&& 63).toNat)
    rw [toNat_and_63]
    exact sll_eq (k := 6) rfl (by decide) a b
  | srl =>
    show srl a b = .ok (a >>> (b &&& 63).toNat)
    rw [toNat_and_63]
    exact srl_eq (k := 6) rfl (by decide) a b
  | sra =>
    show sra a b = .ok (a.sshiftRight (b &&& 63).toNat)
    rw [toNat_and_63]
    exact sra_eq (k := 6) rfl (by decide) a b
  | sllw =>
    show Except.ok (signExtendU32 (low a <<< (wordShift b % 32))) = _
    rw [Nat.mod_eq_of_lt (wordShift_lt b), wordShift_eq]
    rfl
  | srlw =>
    show Except.ok (signExtendU32 (low a >>> (wordShift b % 32))) = _
    rw [Nat.mod_eq_of_lt (wordShift_lt b), wordShift_eq]
    rfl
  | sraw => exact sraw_eq a b
  | signedLess =>
    show (signedLess a b >>= _) = _
    rw [signedLess_eq (by decide) (by decide)]
    rfl
  | _ => rfl

end ExecTrait

/-! ## The definition over the integers -/

section Definition

variable {w : Nat} {a b : BitVec w}

/-- The four products: the low half, and the high half of the signed, the
unsigned and the mixed product. -/
structure Product (a b lo hi hiu hisu : BitVec w) : Prop where
  signed : a.toInt * b.toInt = hi.toInt * 2 ^ w + lo.toNat
  unsigned : a.toNat * b.toNat = hiu.toNat * 2 ^ w + lo.toNat
  mixed : a.toInt * b.toNat = hisu.toInt * 2 ^ w + lo.toNat

/-- Division that truncates, with its two special cases. -/
structure SignedDivision (a b q r : BitVec w) : Prop where
  zero : b = 0 → q = BitVec.allOnes w ∧ r = a
  overflow : a = intMin w → b = -1#w → q = a ∧ r = 0
  otherwise : b ≠ 0 → ¬(a = intMin w ∧ b = -1#w) →
    a.toInt = q.toInt * b.toInt + r.toInt ∧ r.toInt.natAbs < b.toInt.natAbs ∧
      (0 ≤ a.toInt → 0 ≤ r.toInt) ∧ (a.toInt ≤ 0 → r.toInt ≤ 0)

structure UnsignedDivision (a b q r : BitVec w) : Prop where
  zero : b = 0 → q = BitVec.allOnes w ∧ r = a
  otherwise : b ≠ 0 → a.toNat = q.toNat * b.toNat + r.toNat ∧ r.toNat < b.toNat

/-- The word forms use the low halves of their operands, and are 32-bit results
with their sign extended. -/
structure WordForms (a b addw subw mulw divw divuw remw remuw sllw srlw sraw : WordType) : Prop where
  addw : addw.toInt = ((low a).toInt + (low b).toInt).bmod (2 ^ 32)
  subw : subw.toInt = ((low a).toInt - (low b).toInt).bmod (2 ^ 32)
  mulw : mulw.toInt = ((low a).toInt * (low b).toInt).bmod (2 ^ 32)
  division : ∃ q r, SignedDivision (low a) (low b) q r ∧ divw = q.signExtend 64 ∧
    remw = r.signExtend 64
  divisionUnsigned : ∃ q r, UnsignedDivision (low a) (low b) q r ∧ divuw = q.signExtend 64 ∧
    remuw = r.signExtend 64
  sllw : sllw.toInt = ((low a).toNat * 2 ^ (b.toNat % 32) : Int).bmod (2 ^ 32)
  srlw : srlw.toInt = ((low a).toNat / 2 ^ (b.toNat % 32) : Int).bmod (2 ^ 32)
  sraw : sraw.toInt = (low a).toInt / 2 ^ (b.toNat % 32)

theorem signedDivision (hw : 0 < w) (a b : BitVec w) :
    SignedDivision a b (if b = 0 then BitVec.allOnes w else a.sdiv b) (if b = 0 then a else a.srem b) where
  zero h0 := by rw [if_pos h0, if_pos h0]; exact ⟨rfl, rfl⟩
  overflow ha hb := by
    have hone : b.toInt = -1 := by
      rw [hb, neg_one_eq_allOnes, toInt_allOnes, if_pos hw]
    have h0 : b ≠ 0 := by
      rintro rfl
      simp at hone
    have hrem : (a.srem b).toInt = 0 := by
      rw [toInt_srem, hone, Int.tmod_neg, Int.tmod_one]
    rw [if_neg h0, if_neg h0]
    refine ⟨?_, eq_of_toInt_eq (by simpa using hrem)⟩
    rw [ha, hb, intMin_sdiv_neg_one]
  otherwise h0 hne := by
    have hb : b.toInt ≠ 0 := fun h => h0 (eq_of_toInt_eq (by simpa using h))
    have hor : a ≠ intMin w ∨ b ≠ -1#w := by
      by_cases ha : a = intMin w
      · exact .inr fun h => hne ⟨ha, h⟩
      · exact .inl ha
    rw [if_neg h0, if_neg h0, toInt_sdiv_of_ne_or_ne a b hor, toInt_srem]
    refine ⟨(Int.tdiv_mul_add_tmod _ _).symm, ?_, Int.tmod_nonneg _, fun hle => ?_⟩
    · rw [Int.natAbs_tmod]
      exact Nat.mod_lt _ (Int.natAbs_pos.mpr hb)
    · have hneg := Int.tmod_nonneg b.toInt (Int.neg_nonneg_of_nonpos hle)
      rw [Int.neg_tmod] at hneg
      omega

theorem unsignedDivision (a b : BitVec w) :
    UnsignedDivision a b (if b = 0 then BitVec.allOnes w else a / b) (if b = 0 then a else a % b) where
  zero h0 := by rw [if_pos h0, if_pos h0]; exact ⟨rfl, rfl⟩
  otherwise h0 := by
    have hpos : 0 < b.toNat := Nat.pos_of_ne_zero fun h => h0 (eq_of_toNat_eq (by simpa using h))
    rw [if_neg h0, if_neg h0, toNat_udiv, toNat_umod]
    refine ⟨?_, Nat.mod_lt _ hpos⟩
    rw [Nat.mul_comm]
    exact (Nat.div_add_mod _ _).symm

end Definition

section Exact

variable (a b : WordType)

/-- A number is made up of its low bits and what is above them. -/
theorem product_split {p : Int} (hlo : -2 ^ 127 ≤ p) (hhi : p < 2 ^ 127) :
    p = (BitVec.ofInt 64 (p / 2 ^ 64)).toInt * 2 ^ 64 + (BitVec.ofInt 64 p).toNat := by
  have hhigh : (BitVec.ofInt 64 (p / 2 ^ 64)).toInt = p / 2 ^ 64 :=
    BitVec.toInt_ofInt_eq_self (by decide) (by omega) (by omega)
  have hlow : ((BitVec.ofInt 64 p).toNat : Int) = p % 2 ^ 64 := by
    rw [toNat_ofInt]
    omega
  omega

theorem product_exact : Product a b (ArithOp.exec .mulLow a b) (ArithOp.exec .mulHighSigned a b)
    (ArithOp.exec .mulHighUnsigned a b) (ArithOp.exec .mulHighSignedUnsigned a b) where
  signed := by
    have hlo := le_toInt_mul_toInt (x := a) (y := b)
    have hhi := toInt_mul_toInt_le (x := a) (y := b)
    have hmul : a * b = BitVec.ofInt 64 (a.toInt * b.toInt) := by
      rw [ofInt_mul, ofInt_toInt, ofInt_toInt]
    have hsplit := product_split (p := a.toInt * b.toInt) (by omega) (by omega)
    rw [← hmul] at hsplit
    exact hsplit
  unsigned := by
    have hprod : a.toNat * b.toNat < 2 ^ 64 * 2 ^ 64 := Nat.mul_lt_mul'' a.isLt b.isLt
    show a.toNat * b.toNat = (BitVec.ofNat 64 (a.toNat * b.toNat / 2 ^ 64)).toNat * 2 ^ 64 + (a * b).toNat
    rw [toNat_ofNat, toNat_mul]
    omega
  mixed := by
    have hbound := ExecTrait.mixed_product_bounds (by decide) a b
    have hmul : a * b = BitVec.ofInt 64 (a.toInt * b.toNat) := by
      rw [ofInt_mul, ofInt_toInt, ofInt_natCast, ofNat_toNat, setWidth_eq]
    have hsplit := product_split hbound.1 hbound.2
    rw [← hmul] at hsplit
    exact hsplit

theorem toInt_signExtendU32 (v : BitVec 32) : (signExtendU32 v).toInt = v.toInt := by
  rw [signExtendU32_eq]
  exact toInt_signExtend_of_le (by decide)

/-- A special case of a word form is one of 32 bits with its sign extended. -/
theorem ite_signExtend {c : Prop} [Decidable c] (x y : BitVec 32) :
    (if c then signExtendU32 x else signExtendU32 y) = (if c then x else y).signExtend 64 := by
  rw [← signExtendU32_eq]
  split <;> rfl

theorem words_exact : WordForms a b (ArithOp.exec .addw a b) (ArithOp.exec .subw a b)
    (ArithOp.exec .mulw a b) (ArithOp.exec .divw a b) (ArithOp.exec .divuw a b)
    (ArithOp.exec .remw a b) (ArithOp.exec .remuw a b) (ArithOp.exec .sllw a b)
    (ArithOp.exec .srlw a b) (ArithOp.exec .sraw a b) where
  addw := (toInt_signExtendU32 _).trans (toInt_add _ _)
  subw := (toInt_signExtendU32 _).trans toInt_sub
  mulw := (toInt_signExtendU32 _).trans (toInt_mul _ _)
  division := by
    have hones : BitVec.allOnes 64 = signExtendU32 (BitVec.allOnes 32) := by decide
    refine ⟨_, _, signedDivision (by decide) (low a) (low b), ?_, ?_⟩
    · show (if low b = 0 then BitVec.allOnes 64 else signExtendU32 (BitVec.ofInt 32 _)) = _
      rw [hones, ite_signExtend, ExecTrait.sdiv_eq_ofInt]
    · show (if low b = 0 then signExtendU32 (low a) else signExtendU32 (BitVec.ofInt 32 _)) = _
      rw [ite_signExtend, ExecTrait.srem_eq_ofInt]
  divisionUnsigned := by
    have hones : BitVec.allOnes 64 = signExtendU32 (BitVec.allOnes 32) := by decide
    refine ⟨_, _, unsignedDivision (low a) (low b), ?_, ?_⟩
    · show (if low b = 0 then BitVec.allOnes 64 else signExtendU32 _) = _
      rw [hones, ite_signExtend]
    · exact ite_signExtend _ _
  sllw := by
    refine (toInt_signExtendU32 _).trans ?_
    rw [toInt_shiftLeft, ExecTrait.toNat_and_31, Nat.shiftLeft_eq]
    push_cast
    rfl
  srlw := by
    refine (toInt_signExtendU32 _).trans ?_
    rw [toInt_eq_toNat_bmod, toNat_ushiftRight, ExecTrait.toNat_and_31, Nat.shiftRight_eq_div_pow]
    push_cast
    rfl
  sraw := by
    refine (toInt_signExtendU32 _).trans ?_
    rw [toInt_sshiftRight, ExecTrait.toNat_and_31, Int.shiftRight_eq_div_pow]
    rfl

/-- The operations of the source come to an end without a panic, and are those of
the integers. -/
theorem integer_ops_exact :
    (∀ op, ExecTrait.exec op a b = .ok (op.exec a b)) ∧
      Product a b (ArithOp.exec .mulLow a b) (ArithOp.exec .mulHighSigned a b)
        (ArithOp.exec .mulHighUnsigned a b) (ArithOp.exec .mulHighSignedUnsigned a b) ∧
      SignedDivision a b (ArithOp.exec .divSigned a b) (ArithOp.exec .remSigned a b) ∧
      UnsignedDivision a b (ArithOp.exec .divUnsigned a b) (ArithOp.exec .remUnsigned a b) ∧
      WordForms a b (ArithOp.exec .addw a b) (ArithOp.exec .subw a b) (ArithOp.exec .mulw a b)
        (ArithOp.exec .divw a b) (ArithOp.exec .divuw a b) (ArithOp.exec .remw a b)
        (ArithOp.exec .remuw a b) (ArithOp.exec .sllw a b) (ArithOp.exec .srlw a b)
        (ArithOp.exec .sraw a b) := by
  refine ⟨fun op => ExecTrait.exec_eq op a b, product_exact a b, ?_, unsignedDivision a b,
    words_exact a b⟩
  have hdiv := signedDivision (by decide) a b
  rw [ExecTrait.sdiv_eq_ofInt, ExecTrait.srem_eq_ofInt] at hdiv
  exact hdiv

end Exact

end HereEmu
