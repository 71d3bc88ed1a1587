import HereEmu.Proofs.IntegerOps
import HereEmu.Proofs.VectorWalk

/-!
# Element-wise operations of one width

The operations on the elements are those of the integers modulo the width, at
every width: the intermediate 128 bits hold every product and quotient, and the
amounts of the shifts are reduced before they are used. Around them is the walk
over the destination, whose sources are copies: an overlap does not show.

The moves are walks too, but over doublewords, whatever the width of an element.
-/

namespace HereEmu

open ExecTrait

namespace IntegerOp

variable {n : Nat}

/-- The operation in `n`-bit arithmetic, `vs2` first. -/
def value : IntegerOp → (a b : BitVec n) → BitVec n
  | add, a, b => a + b
  | sub, a, b => a - b
  | revSub, a, b => b - a
  | and, a, b => a &&& b
  | or, a, b => a ||| b
  | xor, a, b => a ^^^ b
  | sll, a, b => a <<< (b.toNat % n)
  | srl, a, b => a >>> (b.toNat % n)
  | sra, a, b => a.sshiftRight (b.toNat % n)
  | max, a, b => if b.toInt < a.toInt then a else b
  | maxu, a, b => if b.toNat < a.toNat then a else b
  | min, a, b => if a.toInt < b.toInt then a else b
  | minu, a, b => if a.toNat < b.toNat then a else b
  | mul, a, b => a * b
  | mulh, a, b => BitVec.ofInt n (a.toInt * b.toInt / 2 ^ n)
  | mulhu, a, b => BitVec.ofNat n (a.toNat * b.toNat / 2 ^ n)
  | mulhsu, a, b => BitVec.ofInt n (a.toInt * b.toNat / 2 ^ n)
  | div, a, b => if b = 0 then BitVec.allOnes n else BitVec.ofInt n (a.toInt.tdiv b.toInt)
  | divu, a, b => if b = 0 then BitVec.allOnes n else BitVec.ofNat n (a.toNat / b.toNat)
  | rem, a, b => if b = 0 then a else BitVec.ofInt n (a.toInt.tmod b.toInt)
  | remu, a, b => if b = 0 then a else BitVec.ofNat n (a.toNat % b.toNat)

/-- A choice by a comparison, with the comparison the other way round. -/
theorem ite_less_swap {a b x y : BitVec n} (h : a = b → x = y) :
    (if decide (a.toNat < b.toNat) then x else y) = if b.toNat < a.toNat then y else x := by
  simp only [decide_eq_true_eq]
  rcases Nat.lt_trichotomy a.toNat b.toNat with hlt | heq | hlt
  · rw [if_pos hlt, if_neg (by omega)]
  · rw [if_neg (by omega), if_neg (by omega), h (BitVec.eq_of_toNat_eq heq)]
  · rw [if_neg (by omega), if_pos hlt]

/-- Nothing panics at any of the widths. -/
theorem exec_eq {k : Nat} (hn : n = 2 ^ k) (hk : k ≤ 6) (op : IntegerOp) (a b : BitVec n) :
    op.exec a b = .ok (op.value a b) := by
  have hpow : 2 ^ k ≤ 2 ^ 6 := Nat.pow_le_pow_right (by decide) hk
  have hpos := Nat.two_pow_pos k
  have h0 : 0 < n := by omega
  have hle : n ≤ 64 := by omega
  cases op with
  | sll => exact sll_eq hn hk a b
  | srl => exact srl_eq hn hk a b
  | sra => exact sra_eq hn hk a b
  | max =>
    show (signedLess b a >>= _) = _
    rw [signedLess_eq h0 hle]
    show Except.ok (if decide _ then a else b) = _
    simp only [decide_eq_true_eq]
    rfl
  | min =>
    show (signedLess a b >>= _) = _
    rw [signedLess_eq h0 hle]
    show Except.ok (if decide _ then a else b) = _
    simp only [decide_eq_true_eq]
    rfl
  | maxu => exact congrArg Except.ok (ite_less_swap Eq.symm)
  | minu => exact congrArg Except.ok (ite_less_swap id)
  | mulh => exact mulHighSigned_eq h0 hle a b
  | mulhu => exact mulHighUnsigned_eq hle a b
  | mulhsu => exact mulHighSignedUnsigned_eq h0 hle a b
  | div => exact divSigned_eq h0 hle a b
  | rem => exact remSigned_eq h0 hle a b
  | divu =>
    refine guarded fun hb => (if_neg hb).trans (congrArg Except.ok (BitVec.eq_of_toNat_eq ?_))
    rw [BitVec.toNat_udiv, BitVec.toNat_ofNat,
      Nat.mod_eq_of_lt (Nat.lt_of_le_of_lt (Nat.div_le_self _ _) a.isLt)]
  | remu =>
    refine guarded fun hb => (if_neg hb).trans (congrArg Except.ok (BitVec.eq_of_toNat_eq ?_))
    rw [BitVec.toNat_umod, BitVec.toNat_ofNat,
      Nat.mod_eq_of_lt (Nat.lt_of_le_of_lt (Nat.mod_le _ _) a.isLt)]
  | _ => rfl

end IntegerOp

theorem Width.bits_eq_two_pow (w : Width) : ∃ k, w.bits = 2 ^ k ∧ k ≤ 6 := by
  cases w with
  | u8 => exact ⟨3, rfl, by decide⟩
  | u16 => exact ⟨4, rfl, by decide⟩
  | u32 => exact ⟨5, rfl, by decide⟩
  | u64 => exact ⟨6, rfl, by decide⟩

/-- The operations of one width. -/
inductive SingleWidthOp where
  | integer (op : IntegerOp)
  | multiplyAdd (op : MultiplyAddOp)

namespace SingleWidthOp

def instr (form : OperandForm) : SingleWidthOp → VectorDestInstr
  | integer op => .integer op form
  | multiplyAdd op => .multiplyAdd op form

/-- The new element, from those of `vs2`, of the other operand and of `vd`. -/
def value {n : Nat} : SingleWidthOp → (vs2 vs1 vd : BitVec n) → BitVec n
  | integer op, a, b, _ => op.value a b
  | multiplyAdd .macc, a, b, d => b * a + d
  | multiplyAdd .nmsac, a, b, d => d - b * a
  | multiplyAdd .madd, a, b, d => b * d + a
  | multiplyAdd .nmsub, a, b, d => a - b * d

variable {s : VectorView} {rs1 rs2 rd : RegIdx} {vm : Bool} {vstart : Nat} {form : OperandForm}

theorem multiplyAdd_value {n : Nat} (op : MultiplyAddOp) (a b d : BitVec n) :
    op.exec a b d = (multiplyAdd op).value a b d := by
  cases op with
  | macc | madd => rfl
  | nmsac | nmsub => exact (BitVec.add_comm _ _).trans (BitVec.sub_eq_add_neg _ _).symm

theorem exec_eq (op : SingleWidthOp) : (op.instr form).exec s.regFile s.vector rs1 rs2 rd vm vstart =
    checkOperands s.vector.lmul s.vector.lmul s.vector.lmul (form.src s.regFile rs1) rs2 rd >>= fun _ =>
      .ok (VectorDestInstr.filled s s.vector.sew rd vm vstart
        (Vector.sliceLen s.vector.lmul s.vector.sew) fun i =>
          op.value (s.vector.element s.vector.sew rs2 i)
            ((form.src s.regFile rs1).value s.vector s.vector.sew i)
            (s.vector.element s.vector.sew rd i)) := by
  obtain ⟨k, hk, hk6⟩ := Width.bits_eq_two_pow s.vector.sew
  unfold checkOperands
  simp only [bind_assoc]
  cases op with
  | integer op =>
    show s.vector.execInteger (form.src s.regFile rs1) rs2 rd (!vm) vstart op = _
    unfold Vector.execInteger
    rw [Vector.loadGroupWith_eq fun i hi => ?_]
    rw [Vector.get_slice hi, ArithSrc.get_eq hi]
    exact congrArg (Except.mapError VectorFault.panic) (IntegerOp.exec_eq hk hk6 op _ _)
  | multiplyAdd op =>
    show s.vector.execMultiplyAdd (form.src s.regFile rs1) rs2 rd (!vm) vstart op = _
    unfold Vector.execMultiplyAdd
    rw [Vector.loadGroupWith_eq fun i hi => ?_]
    rw [Vector.get_slice hi, ArithSrc.get_eq hi, Vector.get_slice hi]
    exact congrArg Except.ok (multiplyAdd_value op _ _ _)

end SingleWidthOp

/-- The active elements from `vstart` on get the result of the operation on the
old elements; masked-off and tail elements follow the policies, and everything
else is as it was. -/
theorem single_width_elementwise (op : SingleWidthOp) (form : OperandForm) (s : VectorView)
    (rs1 rs2 rd : RegIdx) (vm : Bool) (func6 : BitVec 6) (vstart : Nat)
    (hvl : s.vector.config.vl ≤ vlmax s.vector.config.vlmul s.vector.config.vsew)
    (hs1 : (form.src s.regFile rs1).legal s.vector.lmul)
    (hs2 : Vector.groupLegal s.vector.lmul rs2)
    (hd : Vector.groupLegal s.vector.lmul rd) :
    (op.instr form).Writes (.V rs1 rs2 rd vm func6) vstart s s.vector.sew s.vector.lmul rd
      (s.vector.enabled (!vm)) fun i => op.value (s.vector.element s.vector.sew rs2 i)
        ((form.src s.regFile rs1).value s.vector s.vector.sew i) (s.vector.element s.vector.sew rd i) :=
  (VectorDestInstr.writes_iff (Nat.le_trans hvl s.vector.vlmax_le_sliceLen) op.exec_eq
    checkOperands_eq_ok).2 ⟨⟨hs1, hs2, hd⟩, fun _ _ => rfl⟩

/-- Two bytes in every register, the first one of `v0` odd. -/
def Vector.sample : Vector :=
  { config := { vlmul := .M1, vsew := .E8, tailAgnostic := true, maskAgnostic := false, vl := 2
                vl_le := by decide }
    vectorRegfile := fun b => BitVec.ofNat 8 (b + 1) }

theorem single_width_masked_add : ∃ v', (VectorInstr.dest (.integer .add .vector)).exec
      (.V 1 2 3 false 0) 0 ⟨fun _ => 0, 0, Vector.sample⟩ = .ok ⟨fun _ => 0, 0, v'⟩ ∧
    v'.element .u8 3 0 = 50 ∧ v'.element .u8 3 1 = 50 ∧ v'.element .u8 3 2 = 0 := by
  obtain ⟨v', hrun, hw, -⟩ := single_width_elementwise (.integer .add) .vector
    ⟨fun _ => 0, 0, Vector.sample⟩ 1 2 3 false 0 0 (by decide) (by decide) (by decide) (by decide)
  refine ⟨v', hrun, ?_, ?_, ?_⟩
  · exact (hw.body 0 (by decide) (by decide) (by decide)).trans rfl
  · exact (hw.masked 1 (by decide) (by decide) (by decide)).trans rfl
  · exact (hw.tail 2 (by decide) (by decide) (by decide)).trans rfl

/-! ## Moves -/

section Moves

variable {s : VectorView} {rs1 rd : RegIdx} {vstart b lmul : Nat} {form : OperandForm} {w : Width}

/-- The element a byte of a group belongs to. -/
theorem Vector.place_div (rd : RegIdx) (w : Width) (hb : b < lmul * VLEN_BYTE) :
    rd.toNat * VLEN_BYTE + b = place rd w (b / w.bytes) + b % w.bytes ∧
      b % w.bytes < w.bytes ∧ b / w.bytes < sliceLen lmul w := by
  refine ⟨by rw [place, Nat.add_assoc, Nat.div_add_mod'], Nat.mod_lt _ w.bytes_pos, ?_⟩
  unfold sliceLen
  cases w <;> simp only [Width.bytes, VLEN_BYTE] at hb ⊢ <;> omega

/-- The elements of a group, of any width, are its bytes. -/
theorem Vector.elements_eq_iff {v v' : Vector} :
    (∀ i, i < sliceLen lmul w → v.element w rd i = v'.element w rd i) ↔
      ∀ b < lmul * VLEN_BYTE,
        v.vectorRegfile (rd.toNat * VLEN_BYTE + b) = v'.vectorRegfile (rd.toNat * VLEN_BYTE + b) := by
  constructor
  · intro h b hb
    obtain ⟨hplace, hmod, hslot⟩ := place_div rd w hb
    have hbyte : ∀ u : Vector, u.vectorRegfile (rd.toNat * VLEN_BYTE + b) =
        (u.element w rd (b / w.bytes) >>> (8 * (_ - _))).setWidth 8 := fun u =>
      Lib.byte_eq_of_loadLE (Nat.le_refl w.bits) (by omega) (by omega)
    rw [hbyte, hbyte, h _ hslot]
  · refine fun h i hi => Lib.loadLE_congr fun j h1 h2 => ?_
    have hend : place rd w i + w.bytes ≤ _ := place_lt hi
    obtain ⟨b, rfl⟩ := Nat.exists_eq_add_of_le (Nat.le_trans (Nat.le_add_right _ _) h1)
    exact h b (by rw [Nat.add_mul] at hend; omega)

/-- A byte of the destination after a move by elements of a width: in the body it
is one of the operand, in the prestart and in an undisturbed tail what it was. -/
def VectorView.movedByte (s : VectorView) (form : OperandForm) (rs1 rd : RegIdx) (vstart : Nat)
    (w : Width) (b : Nat) : BitVec 8 :=
  let i := b / w.bytes
  let old := s.vector.vectorRegfile (rd.toNat * VLEN_BYTE + b)
  if i < vstart then old
  else if i < s.vector.config.vl then
    ((form.src s.regFile rs1).value s.vector w i >>> (8 * (b % w.bytes))).setWidth 8
  else if s.vector.config.tailAgnostic then 0 else old

theorem byte_filled (hb : b < lmul * VLEN_BYTE) :
    (VectorDestInstr.filled s w rd true vstart (Vector.sliceLen lmul w)
      ((form.src s.regFile rs1).value s.vector w)).vectorRegfile (rd.toNat * VLEN_BYTE + b) =
        s.movedByte form rs1 rd vstart w b := by
  obtain ⟨hplace, hmod, hslot⟩ := Vector.place_div rd w hb
  have hzero : (default : BitVec w.bits) = 0 := rfl
  refine (Lib.fill_inside (Vector.apart_of_sorted List.pairwise_lt_range) (List.mem_range.2 hslot)
    (by omega) (by omega)).trans ?_
  rw [hplace, Nat.add_sub_cancel_left, ArithMask.maskValue_newWithStart, ← hplace]
  unfold VectorView.movedByte
  grind [Vector.enabled]

/-- A move goes by doublewords. So it does as it should exactly when its registers
are legal and every byte of the group is the same for elements of the width in
force. -/
theorem move_iff (form : OperandForm) (s : VectorView) (rs1 rd : RegIdx) (vm : Bool)
    (func6 : BitVec 6) (vstart : Nat)
    (hvl : s.vector.config.vl ≤ vlmax s.vector.config.vlmul s.vector.config.vsew) :
    (VectorDestInstr.move form).Writes (.V rs1 0 rd vm func6) vstart s s.vector.sew s.vector.lmul rd
        (fun _ => true) (s.operand form rs1) ↔
      ((form.src s.regFile rs1).legal s.vector.lmul ∧ Vector.groupLegal s.vector.lmul rd) ∧
      ∀ b < s.vector.lmul * VLEN_BYTE, s.movedByte form rs1 rd vstart .u64 b =
        s.movedByte form rs1 rd vstart s.vector.sew b := by
  have hexec : (VectorDestInstr.move form).exec s.regFile s.vector rs1 0 rd vm vstart =
      ((form.src s.regFile rs1).check s.vector.lmul >>= fun _ =>
        Vector.checkGroup s.vector.lmul rd) >>= fun _ => .ok
          (VectorDestInstr.filled s .u64 rd true vstart (Vector.sliceLen s.vector.lmul .u64)
            ((form.src s.regFile rs1).value s.vector .u64)) := by
    rw [bind_assoc]
    show (_ >>= fun _ => s.vector.loadGroupWith rd false vstart s.vector.lmul _) = _
    rw [Vector.loadGroupWith_eq fun i hi => ArithSrc.get_eq hi]
    rfl
  refine (VectorDestInstr.writes_iff (Nat.le_trans hvl s.vector.vlmax_le_sliceLen) hexec
    (Lib.except_seq_eq_ok.trans (and_congr ArithSrc.check_eq_ok Vector.checkGroup_eq_ok))).trans
    (and_congr_right fun _ => Vector.elements_eq_iff.trans (forall₂_congr fun b hb => ?_))
  rw [byte_filled hb, byte_filled hb]

/-- With elements of 64 bits nothing is wrong. -/
theorem move_doublewords : (VectorDestInstr.move (.scalar .x)).Writes (.V 1 0 3 true 0) 0
    ⟨fun _ => 0x0102, 0, { Vector.sample with config.vsew := .E64 }⟩ .u64 1 3 (fun _ => true)
    fun _ => 0x0102 :=
  (move_iff (.scalar .x) ⟨fun _ => 0x0102, 0, { Vector.sample with config.vsew := .E64 }⟩ 1 3 true 0 0
    (by decide)).2 ⟨by decide, fun _ _ => rfl⟩

/-- A move of `0x0102` to two bytes writes it once. -/
theorem move_bytes_wrong : ¬ (VectorDestInstr.move (.scalar .x)).Writes (.V 1 0 3 true 0) 0
    ⟨fun _ => 0x0102, 0, Vector.sample⟩ .u8 1 3 (fun _ => true) fun _ => 2 := by
  rintro ⟨v', hrun, hw, -⟩
  have hbody := hw.body 1 (by decide) (by decide) rfl
  cases hrun
  exact absurd hbody (by decide)

end Moves

end HereEmu
