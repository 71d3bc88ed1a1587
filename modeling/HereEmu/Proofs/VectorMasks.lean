import HereEmu.Proofs.VectorElementwise

/-!
# Compares, and counts over a mask

A compare puts one bit for each element into its destination. Its greater-than
forms have the operands the wrong way round. `viota` counts the bits of a mask
as it goes; it counts those of elements that are masked off too. The scans for
the number of set bits and for the first one leave these out.
-/

namespace HereEmu

open ExecTrait ArithMask VectorDestInstr VectorInstr List

section

variable {s : VectorView} {rs1 rs2 rd : RegIdx} {vm : Bool} {vstart : Nat} {form : OperandForm}

/-! ## Compares -/

inductive CompareOp where
  | eq | ne | ltu | lt | leu | le | gtu | gt
  deriving DecidableEq

namespace CompareOp

/-- The types they are registered with. -/
def op : CompareOp → MaskOp
  | eq => .mseq
  | ne => .msne
  | ltu => .msltu
  | lt => .mslt
  | leu => .msleu
  | le => .msle
  | gtu => .msgtu
  | gt => .msgt

def greater : CompareOp → Bool
  | gtu | gt => true
  | _ => false

/-- The relation in the name, with the element of `vs2` on the left. -/
def value {n : Nat} (a b : BitVec n) : CompareOp → Bool
  | eq => decide (a = b)
  | ne => decide (a ≠ b)
  | ltu => decide (a.toNat < b.toNat)
  | lt => decide (a.toInt < b.toInt)
  | leu => decide (a.toNat ≤ b.toNat)
  | le => decide (a.toInt ≤ b.toInt)
  | gtu => decide (b.toNat < a.toNat)
  | gt => decide (b.toInt < a.toInt)

variable {n : Nat} (a b : BitVec n)

theorem exec_eq (h0 : 0 < n) (hle : n ≤ 64) (op : CompareOp) :
    op.op.exec a b = .ok (if op.greater then op.value b a else op.value a b) := by
  cases op with
  | eq => exact congrArg Except.ok (Bool.beq_eq_decide_eq a b)
  | ne => exact congrArg Except.ok (by simp [value, greater, bne, Bool.beq_eq_decide_eq a b])
  | lt | gt => exact signedLess_eq h0 hle a b
  | le =>
    have hext : ∀ x : BitVec n, (x.signExtend 128).toInt = x.toInt := fun x =>
      BitVec.toInt_signExtend_of_le (by omega)
    show (asSignedI128 a >>= fun x => asSignedI128 b >>= fun y => pure (x.sle y)) = _
    rw [asSignedI128_eq h0 hle, asSignedI128_eq h0 hle]
    show Except.ok (decide (_ ≤ _)) = Except.ok (decide (_ ≤ _))
    rw [hext, hext]
  | _ => rfl

/-- Swapping the operands of a greater-than shows unless they are equal. -/
theorem swapped_iff (op : CompareOp) :
    (if op.greater then op.value b a else op.value a b) = op.value a b ↔ (op.greater → a = b) := by
  cases op with
  | gtu =>
    show decide (a.toNat < b.toNat) = decide (b.toNat < a.toNat) ↔ _
    rw [decide_eq_decide, ← BitVec.toNat_inj]
    exact ⟨fun h _ => by omega, fun h => by have := h rfl; omega⟩
  | gt =>
    show decide (a.toInt < b.toInt) = decide (b.toInt < a.toInt) ↔ _
    rw [decide_eq_decide, ← BitVec.toInt_inj]
    exact ⟨fun h _ => by omega, fun h => by have := h rfl; omega⟩
  | _ => exact ⟨fun _ h => absurd h (by decide), fun _ => rfl⟩

end CompareOp

theorem integerMask_exec_eq (op : CompareOp) :
    (integerMask op.op form).exec s.regFile s.vector rs1 rs2 rd vm vstart =
      ((form.src s.regFile rs1).check s.vector.lmul >>= fun _ =>
        Vector.checkGroup s.vector.lmul rs2) >>= fun _ => .ok (s.vector.fillBits rd
          (fun i => (newWithStart s.vector (!vm) vstart).maskValue
            (if op.greater then op.value (s.operand form rs1 i) (s.elem rs2 i)
              else op.value (s.elem rs2 i) (s.operand form rs1 i)) i)
          (range (Vector.sliceLen s.vector.lmul s.vector.sew))) := by
  have hwidth : 0 < s.vector.sew.bits ∧ s.vector.sew.bits ≤ 64 := by
    cases s.vector.sew <;> decide
  show s.vector.execIntegerMask (form.src s.regFile rs1) rs2 rd (!vm) vstart op.op = _
  unfold Vector.execIntegerMask
  simp only [bind_assoc]
  rw [loadMaskBits_ok
    (fun i hi => Nat.lt_of_lt_of_le (mem_range.1 hi) s.vector.sliceLen_le) fun i hi => ?_]
  rw [Vector.get_slice (mem_range.1 hi), ArithSrc.get_eq (mem_range.1 hi)]
  exact congrArg (Except.mapError VectorFault.panic) (CompareOp.exec_eq _ _ hwidth.1 hwidth.2 op)

end

/-- The compares set the bits of the relation they are named for; the
greater-than forms do only where no active element differs from the operand. -/
theorem compare_iff (op : CompareOp) (form : OperandForm) (s : VectorView) (rs1 rs2 rd : RegIdx)
    (vm : Bool) (func6 : BitVec 6) (vstart : Nat)
    (hvl : s.vector.config.vl ≤ vlmax s.vector.config.vlmul s.vector.config.vsew) :
    (integerMask op.op form).SetsBits rs1 rs2 rd vm func6 vstart s
        (fun i => op.value (s.elem rs2 i) (s.operand form rs1 i)) ↔
      ((form.src s.regFile rs1).legal s.vector.lmul ∧
        Vector.groupLegal s.vector.lmul rs2) ∧
      EachActive s vm vstart fun i => op.greater → s.elem rs2 i = s.operand form rs1 i := by
  rw [setsBits_iff (Nat.le_trans hvl s.vector.vlmax_le_sliceLen) (integerMask_exec_eq op)
    (by rw [Lib.except_seq_eq_ok, ArithSrc.check_eq_ok, Vector.checkGroup_eq_ok])]
  exact and_congr_right fun _ => forall₄_congr fun i _ _ _ => op.swapped_iff _ _

theorem compare_less : (integerMask .msltu .vector).SetsBits 1 2 3 true 0 0
    ⟨fun _ => 0, 0, .sample⟩ fun i => CompareOp.ltu.value
      (Vector.sample.element .u8 2 i) (Vector.sample.element .u8 1 i) :=
  (compare_iff .ltu .vector ⟨fun _ => 0, 0, .sample⟩ 1 2 3 true 0 0 (by decide)).2
    ⟨⟨rfl, rfl⟩, fun _ _ _ _ h => absurd h (by decide)⟩

/-- `vmsgtu.vx` with 33 and 0. -/
theorem compare_greater_swaps : ¬(integerMask .msgtu (.scalar .x)).SetsBits 1 2 3 true 0 0
    ⟨fun _ => 0, 0, .sample⟩ fun i => CompareOp.gtu.value (Vector.sample.element .u8 2 i) 0 := by
  rintro ⟨v', h, hall⟩
  have h0 := hall 0 (by decide) (by decide) rfl
  obtain rfl := congrArg VectorView.vector (Except.ok.inj h)
  exact absurd h0 (by decide)

/-! ## Counting -/

/-- Leaving out what is not selected leaves out nothing that counts. -/
theorem countP_and_eq_iff {selected bit : Nat → Bool} {n : Nat} :
    (range n).countP bit = (range n).countP (fun j => selected j && bit j) ↔
      ∀ j, j < n → selected j = false → bit j = false := by
  induction n with
  | zero => exact ⟨fun _ j hj => absurd hj (Nat.not_lt_zero j), fun _ => rfl⟩
  | succ n ih =>
    have hle : (range n).countP (fun j => selected j && bit j) ≤ (range n).countP bit :=
      countP_mono_left fun j _ h => ((Bool.and_eq_true _ _).mp h).2
    simp only [range_succ, countP_append, countP_singleton, Nat.forall_lt_succ_right, ← ih]
    cases selected n <;> cases bit n <;> simp; omega

/-- The bits of the body below an element. -/
def Vector.onesBelow (v : Vector) (reg : RegIdx) (i : Nat) : Nat :=
  (range i).countP fun j => decide (j < v.config.vl) && v.maskBit reg j

theorem iota_exec_eq {s : VectorView} {rs1 rs2 rd : RegIdx} {vm : Bool} {vstart : Nat}
    (hover : vectorRegisterGroupOverlaps rd s.vector.lmul rs2 1 = false) :
    iota.exec s.regFile s.vector rs1 rs2 rd vm vstart =
      Vector.checkGroup s.vector.lmul rd >>= fun _ => .ok (filled s s.vector.sew rd vm
        vstart (Vector.sliceLen s.vector.lmul s.vector.sew) fun i =>
          BitVec.ofNat _ (s.vector.onesBelow rs2 i)) := by
  have hlen : (newWithStart s.vector (!vm) vstart).length = s.vector.config.vl := Nat.mul_one _
  show s.vector.execIota rs2 rd (!vm) vstart = _
  unfold Vector.execIota
  rw [hover]
  refine congrArg (Vector.checkGroup s.vector.lmul rd >>= ·) (funext fun _ => ?_)
  refine (congrArg (Except.map Prod.fst) (Lib.foldlM_range_eq_ok (s.vector.onesBelow rs2)
    (fun i hi v => ?_) s.vector)).trans (congrArg Except.ok (foldl_elementLoad _))
  have hbyte : i / 8 < VLEN_BYTE := by
    have : i < 128 := Nat.lt_of_lt_of_le hi s.vector.sliceLen_le
    unfold VLEN_BYTE
    omega
  unfold Vector.iotaStep isBodyIndex Vector.readMaskBit Vector.onesBelow
  simp only [hlen, range_succ, countP_append, countP_singleton, if_pos hbyte]
  cases decide (i < s.vector.config.vl) <;> cases s.vector.maskBit rs2 i <;> rfl

/-- `viota.m` counts right where nothing that is masked off comes to count. -/
theorem iota_iff (s : VectorView) (rs1 rs2 rd : RegIdx) (vm : Bool) (func6 : BitVec 6)
    (hvl : s.vector.config.vl ≤ vlmax s.vector.config.vlmul s.vector.config.vsew)
    (hover : vectorRegisterGroupOverlaps rd s.vector.lmul rs2 1 = false) :
    iota.SetsBody rs1 rs2 rd vm func6 0 s s.vector.sew (fun i =>
        BitVec.ofNat _ ((range i).countP fun j => s.vector.enabled (!vm) j && s.vector.maskBit rs2 j)) ↔
      Vector.groupLegal s.vector.lmul rd ∧ EachActive s vm 0 fun i => ∀ j, j < i →
        s.vector.enabled (!vm) j = false → s.vector.maskBit rs2 j = false := by
  rw [setsBody_iff (Nat.le_trans hvl s.vector.vlmax_le_sliceLen) (iota_exec_eq hover)
    Vector.checkGroup_eq_ok]
  refine and_congr_right fun _ => forall₄_congr fun i _ hi _ => Iff.trans ?_ countP_and_eq_iff
  have hsmall : ∀ p : Nat → Bool, (range i).countP p < 2 ^ s.vector.sew.bits := fun p =>
    calc (range i).countP p ≤ i := Nat.le_trans countP_le_length (Nat.le_of_eq length_range)
      _ < 2 ^ 8 := Nat.lt_of_lt_of_le hi (Nat.le_trans s.vector.config.vl_le (by decide))
      _ ≤ 2 ^ s.vector.sew.bits := Nat.pow_le_pow_right (by decide) (by cases s.vector.sew <;> decide)
  have hbody : s.vector.onesBelow rs2 i = (range i).countP (s.vector.maskBit rs2) := by
    refine countP_congr fun j hj => ?_
    have : j < s.vector.config.vl := Nat.lt_trans (mem_range.1 hj) hi
    simp [this]
  show BitVec.ofNat _ _ = BitVec.ofNat _ _ ↔ _
  rw [hbody, ← BitVec.toNat_inj, BitVec.toNat_ofNat, BitVec.toNat_ofNat, Nat.mod_eq_of_lt (hsmall _),
    Nat.mod_eq_of_lt (hsmall _)]

theorem iota_unmasked : iota.SetsBody 0 2 3 true 0 0 ⟨fun _ => 0, 0, .sample⟩ .u8 fun i =>
    BitVec.ofNat Width.u8.bits ((range i).countP fun j => true && Vector.sample.maskBit 2 j) :=
  (iota_iff ⟨fun _ => 0, 0, .sample⟩ 0 2 3 true 0 (by decide) rfl).2 ⟨rfl, fun _ _ _ _ _ _ h => (by cases h)⟩

/-- Two bytes, of which `v0` masks off the first; the other registers start with ones. -/
def Vector.masked : Vector := { Vector.sample with vectorRegfile := fun b => if b = 0 then 2 else 1 }

theorem iota_counts_masked_off : ¬iota.SetsBody 0 2 3 false 0 0
    ⟨fun _ => 0, 0, .masked⟩ .u8 fun i => BitVec.ofNat Width.u8.bits
      ((range i).countP fun j => Vector.masked.enabled true j && Vector.masked.maskBit 2 j) := by
  rintro ⟨v', h, hall⟩
  have h1 := hall 1 (by decide) (by decide) rfl
  obtain rfl := congrArg VectorView.vector (Except.ok.inj h)
  exact absurd h1 (by decide)

/-! ## Scans -/

theorem filter_range_lt {n m : Nat} (h : n ≤ m) :
    (range m).filter (fun i => decide (i < n)) = range n := by
  obtain ⟨k, rfl⟩ := Nat.exists_eq_add_of_le h
  rw [range_add, filter_append, filter_eq_self.2 (by simp),
    filter_eq_nil_iff.2 (by simp), append_nil]

/-- The first index found is at least `i` if none below `i` is found. -/
theorem all_find?_range {p : Nat → Bool} {n i : Nat} :
    ((range n).find? p).all (fun k => decide (i ≤ k)) =
      !(range i).any fun j => decide (j < n) && p j := by
  rw [Bool.eq_iff_iff]
  cases h : (range n).find? p with
  | none => simpa using fun j _ hj => by simpa using find?_eq_none.1 h j (mem_range.2 hj)
  | some k =>
    obtain ⟨hk, hmem, hfirst⟩ := find?_range_eq_some.1 h
    have hmem := mem_range.1 hmem
    simp only [Option.all_some, decide_eq_true_eq, Bool.not_eq_true', any_eq_false, mem_range]
    constructor
    · intro hle j hj
      simpa using fun _ => hfirst j (by omega)
    · intro hall
      by_contra hlt
      exact hall k (by omega) (by simp [hmem, hk])

namespace Vector

/-- Whether an element is active and its bit is set. -/
def activeSet (v : Vector) (vs2 : RegIdx) (enableMask : Bool) (i : Nat) : Bool :=
  v.enabled enableMask i && v.maskBit vs2 i

/-- The first such element of the body. -/
def firstSet (v : Vector) (vs2 : RegIdx) (enableMask : Bool) : Option Nat :=
  (range v.config.vl).find? (v.activeSet vs2 enableMask)

/-- A bit of the result, from the first set one. -/
def MaskBeforeFirstMode.result (first : Option Nat) (i : Nat) : MaskBeforeFirstMode → Bool
  | before => first.all fun k => decide (i < k)
  | including => first.all fun k => decide (i ≤ k)
  | only => decide (first = some i)

section

variable {v : Vector} {vs2 vd : RegIdx} {enableMask : Bool} {i : Nat}

theorem shouldAccess_eq : ((newWithStart v enableMask 0).shouldAccess i && v.maskBit vs2 i) =
    (decide (i < v.config.vl) && v.activeSet vs2 enableMask i) := by
  have hlen : (newWithStart v enableMask 0).length = v.config.vl := Nat.mul_one _
  unfold VecOpMask.shouldAccess activeSet
  rw [hlen]
  by_cases h : i < v.config.vl
  · rw [bit_newWithStart h]
    simp [h]
  · simp [h]

theorem activeBit_eq : v.activeBit vs2 enableMask 0 =
    fun i => decide (i < v.config.vl) && v.activeSet vs2 enableMask i := by
  funext i
  rw [← shouldAccess_eq]
  simp [activeBit, isActiveBody, newWithStart]

theorem maskPopcount_eq : v.maskPopcount vs2 enableMask 0 =
    BitVec.ofNat 64 ((range v.config.vl).countP (v.activeSet vs2 enableMask)) := by
  unfold maskPopcount
  rw [activeBit_eq, ← filter_range_lt (show v.config.vl ≤ bitCapacity from v.config.vl_le),
    countP_filter]
  simp only [Bool.and_comm]

theorem maskFirst_eq : v.maskFirst vs2 enableMask 0 =
    (v.firstSet vs2 enableMask).elim (BitVec.allOnes 64) (BitVec.ofNat 64) := by
  unfold maskFirst firstSet
  rw [activeBit_eq, ← filter_range_lt (show v.config.vl ≤ bitCapacity from v.config.vl_le),
    find?_filter]
  simp only [Bool.decide_and, Bool.decide_eq_true]
  cases find? _ _ <;> rfl

/-- The loop's flag before an element, and with it the bit it makes there. -/
theorem value_eq (mode : MaskBeforeFirstMode) :
    mode.value ((range i).any fun j => decide (j < v.config.vl) && v.activeSet vs2 enableMask j)
      (decide (i < v.config.vl) && v.activeSet vs2 enableMask i) =
    mode.result (v.firstSet vs2 enableMask) i := by
  cases mode with
  | including => exact all_find?_range.symm
  | before =>
    refine Eq.trans ?_ (all_find?_range (i := i + 1)).symm
    rw [range_succ, any_append, Bool.not_or, any_cons, any_nil, Bool.or_false]
    rfl
  | only =>
    rw [Bool.eq_iff_iff]
    simp only [MaskBeforeFirstMode.value, MaskBeforeFirstMode.result, decide_eq_true_eq, firstSet,
      find?_range_eq_some, mem_range, Bool.and_eq_true, Bool.not_eq_true', any_eq_false]
    constructor
    · rintro ⟨hseen, hi, hset⟩
      exact ⟨hset, hi, fun j hj => by simpa [Nat.lt_trans hj hi] using hseen j hj⟩
    · rintro ⟨hset, hi, hfirst⟩
      exact ⟨fun j hj => by simpa [Nat.lt_trans hj hi] using hfirst j hj, hi, hset⟩

theorem lt_bitCapacity {m : ArithMask} (hi : i ∈ range (m.writeEnd bitCapacity)) : i < bitCapacity := by
  refine Nat.lt_of_lt_of_le (mem_range.1 hi) ?_
  unfold writeEnd
  split
  · exact Nat.le_refl _
  · exact Nat.min_le_right _ _

theorem execBeforeFirst_eq (hne : vd ≠ vs2) (mode : MaskBeforeFirstMode) :
    v.execBeforeFirst vs2 vd enableMask 0 mode = .ok (v.fillBits vd
      (fun i => (newWithStart v enableMask 0).maskValue
        (mode.result (v.firstSet vs2 enableMask) i) i)
      (range ((newWithStart v enableMask 0).writeEnd bitCapacity))) := by
  unfold execBeforeFirst
  rw [if_neg hne]
  refine congrArg (Except.map Prod.fst) (Lib.foldlM_range_eq_ok (fun i => (range i).any fun j =>
    decide (j < v.config.vl) && v.activeSet vs2 enableMask j) (fun i hi u => ?_) v)
  unfold beforeFirstStep
  dsimp only
  rw [shouldAccess_eq, value_eq, maskBitLoad_ok (lt_bitCapacity (mem_range.2 hi)),
    range_succ, any_append, any_cons, any_nil, Bool.or_false]
  rfl

/-- The walk stops at the end of the body only if the tail is to stay. -/
theorem mem_range_writeEnd (hi : i < bitCapacity) :
    i ∈ range ((newWithStart v enableMask 0).writeEnd bitCapacity) ↔
      i < v.config.vl ∨ v.config.tailAgnostic := by
  have hend : (newWithStart v enableMask 0).writeEnd bitCapacity =
      if v.config.tailAgnostic then bitCapacity else min v.config.vl bitCapacity := by
    rw [← Nat.mul_one v.config.vl]
    rfl
  rw [hend, mem_range]
  cases v.config.tailAgnostic with
  | true => exact ⟨fun _ => .inr rfl, fun _ => hi⟩
  | false => exact ⟨fun h => .inl (Nat.lt_min.1 h).1, fun h => Nat.lt_min.2 ⟨h.resolve_right nofun, hi⟩⟩

theorem maskBit_fillBits_writeEnd {x : Nat → Bool} (hi : i < bitCapacity) : (v.fillBits vd
      (fun i => (newWithStart v enableMask 0).maskValue (x i) i)
      (range ((newWithStart v enableMask 0).writeEnd bitCapacity))).maskBit vd i =
    ((newWithStart v enableMask 0).maskValue (x i) i).getD (v.maskBit vd i) := by
  simp only [maskBit_fillBits, mem_range_writeEnd hi]
  split
  · rfl
  · next h =>
      rw [not_or, Bool.not_eq_true] at h
      rw [maskValue_newWithStart, if_neg (Nat.not_lt_zero i), if_pos (Nat.not_lt.1 h.1), h.2]
      rfl

end

end Vector

theorem beforeFirst_writes (s : VectorView) (rs1 : RegIdx) {rs2 rd : RegIdx} (vm : Bool) (func6 : BitVec 6)
    (hne : rd ≠ rs2) (mode : Vector.MaskBeforeFirstMode) :
    ∃ v', (dest (.beforeFirst mode)).exec (.V rs1 rs2 rd vm func6) 0 s =
        .ok { s with vector := v' } ∧
      Written s.vector.config 0 Vector.bitCapacity (s.vector.enabled !vm)
        (fun i => mode.result (s.vector.firstSet rs2 !vm) i) (s.vector.maskBit rd) (v'.maskBit rd) ∧
      Vector.OnlyGroup rd 1 s.vector v' := by
  refine ⟨_, ?_, (written_iff (show _ ≤ Vector.bitCapacity from s.vector.config.vl_le)).2 fun i hi =>
    Vector.maskBit_fillBits_writeEnd hi, Vector.onlyGroup_fillBits fun i => Vector.lt_bitCapacity⟩
  exact congrArg (Except.map _) (Vector.execBeforeFirst_eq hne mode)

/-- `vcpop.m`, `vfirst.m`, `vmsbf.m`, `vmsif.m` and `vmsof.m` from the first
element on. What they return or set goes by the active set bits of the body and
the first of these. The last three refuse to read and write one register. -/
theorem mask_scans (s : VectorView) (rs1 rs2 rd : RegIdx) (vm : Bool) (func6 : BitVec 6) :
    cpop.exec (.V rs1 rs2 rd vm func6) 0 s = .ok { s with
      regFile := writeX s.regFile rd (BitVec.ofNat 64
        ((range s.vector.config.vl).countP (s.vector.activeSet rs2 !vm))) } ∧
    VectorInstr.first.exec (.V rs1 rs2 rd vm func6) 0 s = .ok { s with
      regFile := writeX s.regFile rd
        ((s.vector.firstSet rs2 !vm).elim (BitVec.allOnes 64) (BitVec.ofNat 64)) } ∧
    if rd = rs2 then ∀ mode, (dest (.beforeFirst mode)).exec (.V rs1 rs2 rd vm func6) 0 s =
      .error .illegalInstruction
    else ∃ v' : Vector.MaskBeforeFirstMode → Vector,
      (∀ mode, (dest (.beforeFirst mode)).exec (.V rs1 rs2 rd vm func6) 0 s =
          .ok { s with vector := v' mode } ∧
        Written s.vector.config 0 Vector.bitCapacity (s.vector.enabled !vm)
          (fun i => mode.result (s.vector.firstSet rs2 !vm) i) (s.vector.maskBit rd)
          ((v' mode).maskBit rd) ∧
        Vector.OnlyGroup rd 1 s.vector (v' mode)) ∧
      EachActive s vm 0 fun i =>
        (v' .including).maskBit rd i = ((v' .before).maskBit rd i || (v' .only).maskBit rd i) ∧
        ((v' .before).maskBit rd i && (v' .only).maskBit rd i) = false := by
  refine ⟨?_, ?_, ?_⟩
  · rw [← Vector.maskPopcount_eq]
    rfl
  · rw [← Vector.maskFirst_eq]
    rfl
  by_cases h : rd = rs2
  · rw [if_pos h]
    intro mode
    exact congrArg (Except.map _) (if_pos h)
  · rw [if_neg h]
    choose v' hv' using beforeFirst_writes s rs1 vm func6 h
    refine ⟨v', hv', fun i h1 h2 h3 => ?_⟩
    have hbit := fun mode => (hv' mode).2.1.body i h1 h2 h3
    simp only [hbit]
    cases s.vector.firstSet rs2 !vm with
    | none => exact ⟨rfl, rfl⟩
    | some k =>
      simp only [Vector.MaskBeforeFirstMode.result, Option.all_some, Option.some.injEq, ← Bool.decide_or,
        ← Bool.decide_and]
      exact ⟨decide_eq_decide.2 (by omega), decide_eq_false (by omega)⟩

end HereEmu
