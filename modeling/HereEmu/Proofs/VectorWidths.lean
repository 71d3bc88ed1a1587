import HereEmu.Proofs.VectorElementwise
import Mathlib.Tactic.Ring

/-!
# Operations between two widths

The widening multiply-adds and the narrowing shifts work between the width of
the configuration and the double of it. The multiply-adds of mixed sign take
their signs the wrong way round, and the narrowing shifts reduce their amount by
the width of the result. Both are told from what is asked for by the contents of
the active elements.
-/

namespace HereEmu

open ExecTrait VectorDestInstr HereEmu.Vector Nat Int

theorem Width.bits_of_double {w wide : Width} (h : Width.fromByteWidth (w.bytes * 2) = some wide) :
    wide.bits = 2 * w.bits ∧ w.bits ≤ 32 := by
  cases w <;> cases h <;> decide

/-! ## Products of mixed sign -/

section Products

variable {n m : Nat}

/-- The number an element stands for. -/
def number (signed : Bool) (x : BitVec n) : Int := if signed then x.toInt else x.toNat

theorem widen_eq (signed : Bool) (x : BitVec n) :
    widen signed m x = BitVec.ofInt m (number signed x) := by
  cases signed with
  | true => rfl
  | false => exact BitVec.eq_of_toNat_eq (by simp [widen, number])

theorem ofInt_eq_ofInt_iff (x y : Int) :
    BitVec.ofInt m x = BitVec.ofInt m y ↔ (x - y) % 2 ^ m = 0 := by
  rw [← BitVec.toNat_inj, BitVec.toNat_ofInt, BitVec.toNat_ofInt, natCast_pow, cast_ofNat_Int,
    ← Int.emod_eq_emod_iff_emod_sub_eq_zero]
  omega

theorem toInt_eq_sub (x : BitVec n) : x.toInt = x.toNat - 2 ^ n * (x.msb.toNat : Int) := by
  rw [BitVec.toInt_eq_msb_cond]
  cases x.msb <;> simp

/-- The products with the signs the one way and the other differ by what the sign
of each factor makes of the other factor. -/
theorem crossed_product_iff (a b : BitVec n) :
    BitVec.ofInt (2 * n) (number false a * number true b) =
      BitVec.ofInt (2 * n) (number true a * number false b) ↔
    (if a.msb then b else 0#n) = if b.msb then a else 0#n := by
  have hdiff : number false a * number true b - number true a * number false b =
      2 ^ n * (a.msb.toNat * b.toNat - b.msb.toNat * a.toNat : Int) := by
    show (a.toNat : Int) * b.toInt - a.toInt * b.toNat = _
    rw [toInt_eq_sub, toInt_eq_sub]
    ring
  have hpart : ∀ (c : Bool) (x : BitVec n), (c.toNat * x.toNat : Int) = (if c then x else 0#n).toNat := by
    intro c x
    cases c <;> simp
  have hlt : ∀ x : BitVec n, (x.toNat : Int) < 2 ^ n := fun x => by exact_mod_cast x.isLt
  have hpos : (0 : Int) < 2 ^ n := Int.pow_pos (by decide)
  rw [ofInt_eq_ofInt_iff, hdiff, two_mul, pow_add, mul_emod_mul_of_pos _ _ hpos, hpart, hpart,
    Int.mul_eq_zero, or_iff_right (Int.ne_of_gt hpos), ← Int.emod_eq_emod_iff_emod_sub_eq_zero,
    emod_eq_of_lt (natCast_nonneg _) (hlt _), emod_eq_of_lt (natCast_nonneg _) (hlt _),
    natCast_inj, BitVec.toNat_inj]

end Products

/-! ## Widening multiply-adds -/

inductive WideningMacc where
  | maccu | macc | maccsu | maccus
  deriving DecidableEq

namespace WideningMacc

/-- The types they are registered with. -/
def types : WideningMacc → WideningTypes
  | maccu => .unsigned
  | macc => .signed
  | maccsu => .signedUnsigned
  | maccus => .unsignedSigned

/-- Whether the operand and `vs2` are signed, by the names. -/
def signs : WideningMacc → Bool × Bool
  | maccu => (false, false)
  | macc => (true, true)
  | maccsu => (true, false)
  | maccus => (false, true)

def mixed (op : WideningMacc) : Bool := op.signs.1 != op.signs.2

theorem product_iff {n m : Nat} (hm : m = 2 * n) (op : WideningMacc) (a b : BitVec n) (d : BitVec m) :
    widen op.types.src1 m a * widen op.types.src2 m b + d =
      BitVec.ofInt m (number op.signs.1 a * number op.signs.2 b) + d ↔
    (op.mixed → (if a.msb then b else 0#n) = if b.msb then a else 0#n) := by
  subst hm
  rw [BitVec.add_left_inj, widen_eq, widen_eq, ← BitVec.ofInt_mul]
  cases op with
  | maccu | macc => exact ⟨fun _ h => absurd h (by decide), fun _ => rfl⟩
  | maccsu => exact (crossed_product_iff a b).trans ⟨fun h _ => h, fun h => h rfl⟩
  | maccus => exact (Eq.comm.trans (crossed_product_iff a b)).trans ⟨fun h _ => h, fun h => h rfl⟩

end WideningMacc

section Widening

variable {s : VectorView} {rs1 rs2 rd : RegIdx} {vm : Bool} {vstart : Nat} {wide : Width}
  {form : OperandForm}

theorem sliceLen_double {lmul : Nat} {w : Width}
    (h : Width.fromByteWidth (w.bytes * 2) = some wide) :
    sliceLen (lmul * 2) wide = sliceLen lmul w := by
  have hbytes : wide.bytes = w.bytes * 2 := by cases w <;> cases h <;> rfl
  unfold sliceLen
  rw [hbytes, Nat.mul_right_comm, Nat.mul_div_mul_right _ _ (by decide)]

theorem wideningMultiplyAdd_exec_eq (ty : WideningTypes)
    (hw : Width.fromByteWidth (s.vector.sew.bytes * 2) = some wide) (hl : s.vector.lmul ≤ 4) :
    (wideningMultiplyAdd ty form).exec s.regFile s.vector rs1 rs2 rd vm vstart =
      checkOperands s.vector.lmul s.vector.lmul (s.vector.lmul * 2) (form.src s.regFile rs1) rs2 rd >>=
        fun _ => .ok (filled s wide rd vm vstart
          (sliceLen (s.vector.lmul * 2) wide) fun i =>
            widen ty.src1 wide.bits ((form.src s.regFile rs1).value s.vector s.vector.sew i) *
              widen ty.src2 wide.bits (s.vector.element s.vector.sew rs2 i) +
              s.vector.element wide rd i) := by
  have hdest : s.vector.wideDest = .ok (wide, s.vector.lmul * 2) := by
    unfold wideDest
    rw [hw]
    exact if_neg (by omega)
  show s.vector.execWideningMultiplyAdd (form.src s.regFile rs1) rs2 rd (!vm) vstart ty = _
  unfold execWideningMultiplyAdd checkOperands
  simp only [bind_assoc]
  rw [hdest]
  show (_ >>= fun _ => _ >>= fun _ => loadGroupWith _ _ _ _ _ _) = _
  rw [loadGroupWith_eq fun i hi => ?_]
  rw [ArithSrc.get_eq (sliceLen_double hw ▸ hi), get_slice (sliceLen_double hw ▸ hi), get_slice hi]
  rfl

end Widening

/-- The multiply-adds of mixed sign multiply with the signs the wrong way round,
which shows unless the sign of neither factor makes a difference. -/
theorem widening_multiply_add_iff (op : WideningMacc) (form : OperandForm) (s : VectorView)
    (rs1 rs2 rd : RegIdx) (vm : Bool) (func6 : BitVec 6) (vstart : Nat) (wide : Width)
    (hw : Width.fromByteWidth (s.vector.sew.bytes * 2) = some wide) (hl : s.vector.lmul ≤ 4)
    (hvl : s.vector.config.vl ≤ vlmax s.vector.config.vlmul s.vector.config.vsew) :
    (wideningMultiplyAdd op.types form).SetsBody rs1 rs2 rd vm func6 vstart s wide
      (fun i => BitVec.ofInt wide.bits
          (number op.signs.1 ((form.src s.regFile rs1).value s.vector s.vector.sew i) *
            number op.signs.2 (s.vector.element s.vector.sew rs2 i)) + s.vector.element wide rd i) ↔
      OperandsLegal s.vector.lmul s.vector.lmul (s.vector.lmul * 2) (form.src s.regFile rs1) rs2 rd ∧
      EachActive s vm vstart fun i => op.mixed →
        (if ((form.src s.regFile rs1).value s.vector s.vector.sew i).msb
          then s.vector.element s.vector.sew rs2 i else 0) =
        if (s.vector.element s.vector.sew rs2 i).msb
          then (form.src s.regFile rs1).value s.vector s.vector.sew i else 0 := by
  have hlen : s.vector.config.vl ≤ sliceLen (s.vector.lmul * 2) wide := by
    rw [sliceLen_double hw]
    exact le_trans hvl s.vector.vlmax_le_sliceLen
  rw [setsBody_iff hlen (wideningMultiplyAdd_exec_eq op.types hw hl) checkOperands_eq_ok]
  refine and_congr_right fun _ => forall₄_congr fun i _ _ _ => ?_
  exact op.product_iff (Width.bits_of_double hw).1 _ _ _

theorem widening_multiply_add_unsigned : (wideningMultiplyAdd .unsigned .vector).SetsBody
    8 1 2 true 0 0 ⟨fun _ => 0, 0, .sample⟩ .u16 fun i => BitVec.ofInt Width.u16.bits
      (number false (sample.element .u8 8 i) * number false (sample.element .u8 1 i)) +
      sample.element .u16 2 i :=
  (widening_multiply_add_iff .maccu .vector ⟨fun _ => 0, 0, .sample⟩ 8 1 2 true 0 0 .u16 rfl
    (by decide) (by decide)).2 ⟨⟨rfl, rfl, rfl⟩, fun _ _ _ _ h => absurd h (by decide)⟩

/-- `vwmaccsu.vv` with 129, which is negative, and 17. -/
theorem widening_multiply_add_swaps : ¬(wideningMultiplyAdd
    WideningMacc.maccsu.types .vector).SetsBody 8 1 2 true 0 0 ⟨fun _ => 0, 0, .sample⟩ .u16
      fun i => BitVec.ofInt Width.u16.bits
        (number true (sample.element .u8 8 i) * number false (sample.element .u8 1 i)) +
        sample.element .u16 2 i := by
  rintro ⟨v', h, hall⟩
  have h0 := hall 0 (by decide) (by decide) rfl
  obtain rfl := congrArg VectorView.vector (Except.ok.inj h)
  exact absurd h0 (by decide)

/-! ## Narrowing shifts -/

namespace NarrowingShiftOp

variable {n m : Nat}

/-- The low bits of the shifted source. -/
def value (n : Nat) (x : BitVec m) (k : Nat) : NarrowingShiftOp → BitVec n
  | nsrl => (x >>> k).setWidth n
  | nsra => (x.sshiftRight k).setWidth n

/-- A bit of the source; past its end come zeros or copies of the sign. -/
def bit (op : NarrowingShiftOp) (x : BitVec m) (j : Nat) : Bool :=
  if j < m then x.getLsbD j else decide (op = nsra) && x.msb

theorem getLsbD_value (h : n ≤ m) (op : NarrowingShiftOp) (x : BitVec m) (k : Nat) {j : Nat} (hj : j < n) :
    (op.value n x k).getLsbD j = op.bit x (k + j) := by
  have hjm : ¬ m ≤ j := by omega
  cases op with
  | nsrl =>
    simp only [value, bit, BitVec.getLsbD_setWidth, BitVec.getLsbD_ushiftRight, hj, decide_true,
      Bool.true_and]
    split
    · rfl
    · exact BitVec.getLsbD_of_ge _ _ (by omega)
  | nsra =>
    simp only [value, bit, BitVec.getLsbD_setWidth, BitVec.getLsbD_sshiftRight, hj, hjm, decide_true,
      decide_false, Bool.not_false, Bool.true_and]

theorem exec_eq {k : Nat} (hn : n = 2 ^ k) (hk : k ≤ 6) (hnm : n ≤ m) (hm : m ≤ 64) (op : NarrowingShiftOp)
    (x : BitVec m) (b : BitVec n) : op.exec x b = .ok (op.value n x (b.toNat % n)) := by
  have hlt := shiftAmount_lt hn hk b
  cases op with
  | nsrl =>
    show (checkedShr x (shiftAmount b) >>= _) = _
    unfold checkedShr
    rw [if_pos (by omega), shiftAmount_eq hn hk]
    rfl
  | nsra =>
    show (asSignedI128 x >>= fun y => checkedSar y (shiftAmount b) >>= _) = _
    rw [asSignedI128_eq (by omega) hm]
    show (checkedSar (x.signExtend 128) (shiftAmount b) >>= _) = _
    unfold checkedSar
    rw [if_pos (by omega), shiftAmount_eq hn hk]
    refine congrArg Except.ok ?_
    show BitVec.setWidth n _ = BitVec.setWidth n _
    rw [← sar_double hm x]
    exact (BitVec.setWidth_setWidth_of_le _ hnm).symm

/-- Reducing the amount by the width of the result shows unless the amount is less
than it, or the bits a whole width further on are the same. -/
theorem reduced_iff (op : NarrowingShiftOp) (h0 : 0 < n) (hm : m = 2 * n) (x : BitVec m) (a : Nat) :
    op.value n x (a % n) = op.value n x (a % m) ↔
      (n ≤ a % m → ∀ j < n, op.bit x (a % n + j) = op.bit x (a % n + n + j)) := by
  have hmod : a % m % n = a % n := mod_mod_of_dvd a (hm ▸ dvd_mul_left n 2)
  have hlt : a % m < 2 * n := hm ▸ mod_lt a (by omega)
  by_cases h : n ≤ a % m
  · have hsum : a % m = a % n + n := by
      rw [mod_eq_sub_mod h, mod_eq_of_lt (by omega)] at hmod
      omega
    have hvalue := op.getLsbD_value (n := n) (by omega) x
    rw [hsum]
    constructor
    · intro heq _ j hj
      rw [← hvalue (a % n) hj, ← hvalue (a % n + n) hj, heq]
    · intro hall
      refine BitVec.eq_of_getLsbD_eq fun j hj => ?_
      rw [hvalue (a % n) hj, hvalue (a % n + n) hj]
      exact hall (by omega) j hj
  · rw [← hmod, mod_eq_of_lt (by omega)]
    exact ⟨fun _ hle => absurd hle h, fun _ => rfl⟩

end NarrowingShiftOp

inductive NarrowingForm where
  | wv | wx | wi
  deriving DecidableEq

namespace NarrowingForm

/-- The immediate of `vnsra.wi` is taken with its sign. -/
def form (op : NarrowingShiftOp) : NarrowingForm → OperandForm
  | wv => .vector
  | wx => .scalar .x
  | wi => .scalar (if op = .nsra then .simm else .uimm)

/-- The shift operand, by the names. -/
def amount (s : VectorView) (rs1 : RegIdx) (i : Nat) : NarrowingForm → Nat
  | wv => (s.elem rs1 i).toNat
  | wx => (s.regFile rs1).toNat
  | wi => rs1.toNat

theorem amount_mod {s : VectorView} (hle : s.vector.sew.bits ≤ 32) (rs1 : RegIdx) (i : Nat)
    (op : NarrowingShiftOp) (f : NarrowingForm) :
    (s.operand (f.form op) rs1 i).toNat % s.vector.sew.bits = f.amount s rs1 i % s.vector.sew.bits := by
  cases f with
  | wv => rfl
  | wx =>
    show ((s.regFile rs1).setWidth s.vector.sew.bits).toNat % _ = _
    rw [BitVec.toNat_setWidth]
    exact mod_mod_of_dvd _ (by cases s.vector.sew <;> decide)
  | wi =>
    cases op with
    | nsrl =>
      show ((rs1.setWidth 64).setWidth s.vector.sew.bits).toNat % _ = rs1.toNat % _
      generalize s.vector.sew = w at hle
      revert rs1
      cases w <;> decide
    | nsra =>
      show ((signExtend (rs1.setWidth 64) 5).setWidth s.vector.sew.bits).toNat % _ = rs1.toNat % _
      generalize s.vector.sew = w at hle
      revert rs1
      cases w with
      | u64 => exact absurd hle (by decide)
      | _ => decide

end NarrowingForm

/-- The registers that a source of double width takes. -/
def Vlmul.sourceLmul : Vlmul → Nat
  | M1 => 2
  | M2 => 4
  | M4 => 8
  | M8 => 16
  | _ => 1

section Narrowing

variable {s : VectorView} {rs1 rs2 rd : RegIdx} {vm : Bool} {vstart : Nat} {wide : Width}
  {form : OperandForm}

/-- There is such a source, apart from the destination, and the registers start
groups. -/
structure NarrowingLegal (v : Vector) (src : ArithSrc) (rs2 rd : RegIdx) : Prop where
  vlmul : v.config.vlmul ≠ .M8
  apart : vectorRegisterGroupOverlaps rd v.lmul rs2 v.config.vlmul.sourceLmul = false
  operands : OperandsLegal v.lmul v.config.vlmul.sourceLmul v.lmul src rs2 rd

/-- The checks before the shift. -/
def checkNarrowing (v : Vector) (src : ArithSrc) (rs2 rd : RegIdx) : VArith Unit :=
  illegalIf (v.config.vlmul = .M8) >>= fun _ =>
    illegalIf (vectorRegisterGroupOverlaps rd v.lmul rs2 v.config.vlmul.sourceLmul) >>= fun _ =>
      checkOperands v.lmul v.config.vlmul.sourceLmul v.lmul src rs2 rd

theorem checkNarrowing_eq_ok {v : Vector} {src : ArithSrc} :
    checkNarrowing v src rs2 rd = .ok () ↔ NarrowingLegal v src rs2 rd := by
  unfold checkNarrowing
  rw [Lib.except_seq_eq_ok, Lib.except_seq_eq_ok, illegalIf_eq_ok, illegalIf_eq_ok, checkOperands_eq_ok,
    Bool.not_eq_true]
  exact ⟨fun ⟨h₁, h₂, h₃⟩ => ⟨h₁, h₂, h₃⟩, fun ⟨h₁, h₂, h₃⟩ => ⟨h₁, h₂, h₃⟩⟩

theorem wideSource_eq (hw : Width.fromByteWidth (s.vector.sew.bytes * 2) = some wide) :
    s.vector.wideSource rs2 rd = illegalIf (s.vector.config.vlmul = .M8) >>= fun _ =>
      illegalIf (vectorRegisterGroupOverlaps rd s.vector.lmul rs2
        s.vector.config.vlmul.sourceLmul) >>= fun _ =>
          .ok (wide, s.vector.config.vlmul.sourceLmul) := by
  have hlmul : s.vector.config.vlmul.narrowingSourceLmul =
      illegalIf (s.vector.config.vlmul = .M8) >>= fun _ => .ok s.vector.config.vlmul.sourceLmul := by
    cases s.vector.config.vlmul <;> rfl
  unfold wideSource
  rw [hw, hlmul]
  refine (bind_assoc _ _ _).trans (congrArg _ (funext fun _ => ?_))
  show (if vectorRegisterGroupOverlaps rd s.vector.lmul rs2 s.vector.config.vlmul.sourceLmul
    then _ else _) = _
  unfold illegalIf
  split <;> rfl

theorem narrowingShift_exec_eq (op : NarrowingShiftOp)
    (hw : Width.fromByteWidth (s.vector.sew.bytes * 2) = some wide) :
    (narrowingShift op form).exec s.regFile s.vector rs1 rs2 rd vm vstart =
      checkNarrowing s.vector (form.src s.regFile rs1) rs2 rd >>= fun _ =>
        .ok (filled s s.vector.sew rd vm vstart
          (min (sliceLen s.vector.lmul s.vector.sew)
            (sliceLen s.vector.config.vlmul.sourceLmul wide)) fun i =>
              op.value _ (s.vector.element wide rs2 i)
                ((s.operand form rs1 i).toNat % s.vector.sew.bits)) := by
  obtain ⟨k, hk, hk6⟩ := Width.bits_eq_two_pow s.vector.sew
  obtain ⟨hbits, hle⟩ := Width.bits_of_double hw
  show s.vector.execNarrowingShift (form.src s.regFile rs1) rs2 rd (!vm) vstart op = _
  unfold execNarrowingShift checkNarrowing checkOperands
  rw [wideSource_eq hw]
  simp only [bind_assoc]
  show (_ >>= fun _ => _ >>= fun _ => _ >>= fun _ => _ >>= fun _ => _ >>= fun _ =>
    ArithMask.loadElements _ _ _ _ _) = _
  rw [ArithMask.loadElements_ok fun i hi => ?_]
  have hi : i < sliceLen s.vector.lmul s.vector.sew ∧
      i < sliceLen s.vector.config.vlmul.sourceLmul wide := Nat.lt_min.1 (List.mem_range.1 hi)
  rw [get_slice hi.2, ArithSrc.get_eq hi.1]
  exact congrArg (Except.mapError VectorFault.panic)
    (op.exec_eq hk hk6 (by omega) (by omega) (s.vector.element wide rs2 i) _)

end Narrowing

/-- The narrowing shifts shift by the amount modulo the width of the result. That
is what they are asked for where every active element has an amount less than that
width, or a source whose bits come again a width further on. -/
theorem narrowing_shift_iff (op : NarrowingShiftOp) (form : NarrowingForm) (s : VectorView)
    (rs1 rs2 rd : RegIdx) (vm : Bool) (func6 : BitVec 6) (vstart : Nat) (wide : Width)
    (hw : Width.fromByteWidth (s.vector.sew.bytes * 2) = some wide)
    (hvl : s.vector.config.vl ≤ vlmax s.vector.config.vlmul s.vector.config.vsew) :
    (narrowingShift op (form.form op)).SetsBody rs1 rs2 rd vm func6 vstart s s.vector.sew
      (fun i => op.value _ (s.vector.element wide rs2 i) (form.amount s rs1 i % wide.bits)) ↔
      NarrowingLegal s.vector ((form.form op).src s.regFile rs1) rs2 rd ∧
      EachActive s vm vstart fun i =>
        s.vector.sew.bits ≤ form.amount s rs1 i % wide.bits → ∀ j < s.vector.sew.bits,
          op.bit (s.vector.element wide rs2 i) (form.amount s rs1 i % s.vector.sew.bits + j) =
            op.bit (s.vector.element wide rs2 i)
              (form.amount s rs1 i % s.vector.sew.bits + s.vector.sew.bits + j) := by
  obtain ⟨hbits, hle⟩ := Width.bits_of_double hw
  have hlen : vlmax s.vector.config.vlmul s.vector.config.vsew ≤
      min (sliceLen s.vector.lmul s.vector.sew)
        (sliceLen s.vector.config.vlmul.sourceLmul wide) := by
    revert hw
    unfold Vector.lmul sew
    cases s.vector.config.vlmul <;> cases s.vector.config.vsew <;> rintro ⟨⟩ <;> decide
  rw [setsBody_iff (le_trans hvl hlen) (narrowingShift_exec_eq op hw) checkNarrowing_eq_ok]
  refine and_congr_right fun _ => forall₄_congr fun i _ _ _ => ?_
  dsimp only
  rw [form.amount_mod hle rs1 i op]
  exact op.reduced_iff (by cases s.vector.sew <;> decide) hbits _ _

theorem narrowing_shift_small : (narrowingShift .nsrl (.scalar .uimm)).SetsBody
    3 2 1 true 0 0 ⟨fun _ => 0, 0, .sample⟩ .u8
    fun i => NarrowingShiftOp.nsrl.value Width.u8.bits (sample.element .u16 2 i) (3 % 16) :=
  (narrowing_shift_iff .nsrl .wi ⟨fun _ => 0, 0, .sample⟩ 3 2 1 true 0 0 .u16 rfl (by decide)).2
    ⟨⟨by decide, by decide, ⟨rfl, rfl, rfl⟩⟩, fun _ _ _ _ h => absurd h (show ¬ 8 ≤ 3 % 16 by decide)⟩

/-- `vnsrl.wi` by 8 shifts by 0. -/
theorem narrowing_shift_forgets : ¬(narrowingShift .nsrl (.scalar .uimm)).SetsBody
    8 2 1 true 0 0 ⟨fun _ => 0, 0, .sample⟩ .u8
    fun i => NarrowingShiftOp.nsrl.value Width.u8.bits (sample.element .u16 2 i) (8 % 16) := by
  rintro ⟨v', h, hall⟩
  have h0 := hall 0 (by decide) (by decide) rfl
  obtain rfl := congrArg VectorView.vector (Except.ok.inj h)
  exact absurd h0 (by decide)

end HereEmu
