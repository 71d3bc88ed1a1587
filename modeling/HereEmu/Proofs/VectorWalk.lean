import HereEmu.Instr.ExecVectorArith
import HereEmu.Lib.Slots
import HereEmu.Proofs.VectorSetvl

/-!
# What a walk over a destination leaves

The elements of a group are slots that do not meet, and so are the bits of a
mask register. So after a walk each of them holds what the mask makes of the
value for it and of what it held, and nothing else has changed. `Written` says
the same in the words of the manual: body, masked-off, tail and prestart.
-/

namespace HereEmu

open Lib (except_seq_eq_ok)
open VectorInstr List

/-! ## Elements -/

namespace Vector

variable {v : Vector} {w : Width} {vd : RegIdx} {put : Nat → Option (BitVec w.bits)} {is : List Nat}
  {i b : Nat}

/-- The walk in closed form. -/
def fill (v : Vector) (w : Width) (vd : RegIdx) (put : Nat → Option (BitVec w.bits)) (is : List Nat) :
    Vector :=
  { v with vectorRegfile := Lib.fill w.bytes (place vd w) put v.vectorRegfile is }

theorem place_apart {i j : Nat} (h : i < j) : place vd w i + w.bytes ≤ place vd w j := by
  have hmul : (i + 1) * w.bytes ≤ j * w.bytes := Nat.mul_le_mul_right _ h
  rw [Nat.add_mul] at hmul
  unfold place
  omega

theorem apart_of_sorted (hs : is.Pairwise (· < ·)) : Lib.Apart w.bytes (place vd w) is :=
  hs.imp fun h => .inl (place_apart h)

theorem element_fill (hs : is.Pairwise (· < ·)) (hi : i ∈ is) :
    (v.fill w vd put is).element w vd i = (put i).getD (v.element w vd i) := by
  refine (Lib.loadLE_fill (apart_of_sorted hs) hi).trans ?_
  cases put i with
  | none => rfl
  | some x =>
    have hlt : 2 ^ (8 * w.bytes) - 1 < 2 ^ w.bits := Nat.sub_lt (Nat.two_pow_pos _) Nat.one_pos
    refine BitVec.eq_of_toNat_eq ?_
    rw [BitVec.toNat_and, BitVec.toNat_ofNat, Nat.mod_eq_of_lt hlt, Nat.and_two_pow_sub_one_eq_mod]
    exact Nat.mod_eq_of_lt x.isLt

theorem element_fill_of_notMem (hi : i ∉ is) :
    (v.fill w vd put is).element w vd i = v.element w vd i := by
  refine Lib.loadLE_congr fun b h1 h2 => Lib.fill_outside fun j hj hb => ?_
  rcases Nat.lt_trichotomy i j with h | rfl | h
  · have hij : place vd w i + w.bytes ≤ place vd w j := place_apart h
    omega
  · exact hi hj
  · have hji : place vd w j + w.bytes ≤ place vd w i := place_apart h
    omega

/-- Nothing but the group has changed. -/
structure OnlyGroup (vd : RegIdx) (lmul : Nat) (old new : Vector) : Prop where
  config : new.config = old.config
  frame : ∀ b, ¬(vd.toNat * VLEN_BYTE ≤ b ∧ b < (vd.toNat + lmul) * VLEN_BYTE) →
    new.vectorRegfile b = old.vectorRegfile b

theorem OnlyGroup.refl (vd : RegIdx) (lmul : Nat) (v : Vector) : OnlyGroup vd lmul v v :=
  ⟨rfl, fun _ _ => rfl⟩

theorem OnlyGroup.trans {lmul : Nat} {v₁ v₂ v₃ : Vector} (h₁ : OnlyGroup vd lmul v₁ v₂)
    (h₂ : OnlyGroup vd lmul v₂ v₃) : OnlyGroup vd lmul v₁ v₃ :=
  ⟨h₂.config.trans h₁.config, fun b hb => (h₂.frame b hb).trans (h₁.frame b hb)⟩

theorem place_lt {lmul : Nat} (h : i < sliceLen lmul w) :
    place vd w i + w.bytes ≤ (vd.toNat + lmul) * VLEN_BYTE := by
  have hmul : (i + 1) * w.bytes ≤ lmul * VLEN_BYTE :=
    Nat.le_trans (Nat.mul_le_mul_right _ h) (Nat.div_mul_le_self _ _)
  unfold place
  rw [Nat.add_mul]
  rw [Nat.add_mul] at hmul
  omega

theorem onlyGroup_fill {lmul : Nat} (h : ∀ i ∈ is, i < sliceLen lmul w) :
    OnlyGroup vd lmul v (v.fill w vd put is) :=
  ⟨rfl, fun _ hb => Lib.fill_outside fun i hi hin => hb
    ⟨Nat.le_trans (Nat.le_add_right _ _) hin.1, Nat.lt_of_lt_of_le hin.2 (place_lt (h i hi))⟩⟩

/-! ## Bits -/

variable {putBits : Nat → Option Bool}

/-- One bit, or nothing. -/
def putBit (v : Vector) (vd : RegIdx) (i : Nat) : Option Bool → Vector
  | some x => v.putMaskBit vd i x
  | none => v

def fillBits (v : Vector) (vd : RegIdx) (putBits : Nat → Option Bool) (is : List Nat) : Vector :=
  is.foldl (fun v i => v.putBit vd i (putBits i)) v

theorem maskBit_putBit (x : Option Bool) {j : Nat} :
    (v.putBit vd i x).maskBit vd j = if j = i then x.getD (v.maskBit vd j) else v.maskBit vd j := by
  cases x with
  | none => exact (ite_self _).symm
  | some x =>
    unfold putBit putMaskBit maskBit
    dsimp only
    by_cases hbyte : j / 8 = i / 8
    · have hj : j % 8 < 8 := Nat.mod_lt _ (by decide)
      have hbit : (1#8 <<< (i % 8)).getLsbD (j % 8) = decide (i % 8 = j % 8) := by
        rw [← BitVec.twoPow_eq, BitVec.getLsbD_twoPow]
        simp only [Nat.mod_lt i (by decide : 8 > 0), decide_true, Bool.true_and]
      have hiff : j = i ↔ i % 8 = j % 8 := by omega
      rw [hbyte, Function.update_self]
      cases x with
      | true =>
        rw [if_pos rfl, BitVec.getLsbD_or, hbit]
        by_cases h : i % 8 = j % 8 <;> simp [hiff, h]
      | false =>
        rw [if_neg (by decide), BitVec.getLsbD_and, BitVec.getLsbD_not, hbit]
        by_cases h : i % 8 = j % 8 <;> simp [hiff, h, hj]
    · rw [Function.update_of_ne (by omega), if_neg (by rintro rfl; exact hbyte rfl)]

theorem maskBit_fillBits : (v.fillBits vd putBits is).maskBit vd i =
    if i ∈ is then (putBits i).getD (v.maskBit vd i) else v.maskBit vd i := by
  induction is generalizing v with
  | nil => rfl
  | cons j is ih =>
    show (fillBits (v.putBit vd j (putBits j)) vd putBits is).maskBit vd i = _
    rw [ih, maskBit_putBit]
    by_cases h : i = j
    · subst h
      cases putBits i <;> simp
    · simp [h]

theorem onlyGroup_putBit (hi : i < bitCapacity) (x : Option Bool) : OnlyGroup vd 1 v (v.putBit vd i x) := by
  cases x with
  | none => exact OnlyGroup.refl vd 1 v
  | some x =>
    have hi : i < 128 := hi
    refine ⟨rfl, fun b hb => Function.update_of_ne ?_ _ _⟩
    unfold VLEN_BYTE at *
    omega

theorem onlyGroup_fillBits (h : ∀ i ∈ is, i < bitCapacity) :
    OnlyGroup vd 1 v (v.fillBits vd putBits is) := by
  induction is generalizing v with
  | nil => exact OnlyGroup.refl vd 1 v
  | cons j is ih =>
    exact OnlyGroup.trans (onlyGroup_putBit (h j mem_cons_self) _)
      (ih fun i hi => h i (mem_cons_of_mem _ hi))

end Vector

/-! ## The loops -/

namespace ArithMask

variable {m : ArithMask} {w : Width} {vd : RegIdx} {v v' : Vector} {is : List Nat} {i : Nat}

theorem foldl_elementLoad (x : Nat → BitVec w.bits) :
    is.foldl (fun v i => m.elementLoad vd i (x i) v) v =
      v.fill w vd (fun i => m.maskValue (x i) i) is := by
  induction is generalizing v with
  | nil => rfl
  | cons j is ih =>
    rw [foldl_cons, ih]
    unfold Vector.fill
    rw [Lib.fill_cons]
    unfold elementLoad
    cases m.maskValue (x j) j <;> rfl

theorem loadElements_ok {value : Nat → VArith (BitVec w.bits)} {x : Nat → BitVec w.bits}
    (h : ∀ i ∈ is, value i = .ok (x i)) :
    m.loadElements vd is value v = .ok (v.fill w vd (fun i => m.maskValue (x i) i) is) := by
  rw [← foldl_elementLoad]
  refine Lib.foldlM_eq_ok (fun i hi v => ?_) v
  rw [h i hi]
  rfl

theorem maskBitLoad_ok (hi : i < Vector.bitCapacity) (x : Bool) (v : Vector) :
    m.maskBitLoad vd i x v = .ok (v.putBit vd i (m.maskValue x i)) := by
  have hbyte : i / 8 < VLEN_BYTE := by
    have : i < 128 := hi
    unfold VLEN_BYTE
    omega
  unfold maskBitLoad
  cases m.maskValue x i with
  | none => rfl
  | some b => exact if_pos hbyte

theorem loadMaskBits_ok {value : Nat → VArith Bool} {x : Nat → Bool} (hi : ∀ i ∈ is, i < Vector.bitCapacity)
    (h : ∀ i ∈ is, value i = .ok (x i)) :
    m.loadMaskBits vd is value v = .ok (v.fillBits vd (fun i => m.maskValue (x i) i) is) := by
  refine Lib.foldlM_eq_ok (fun i him v => ?_) v
  rw [h i him]
  exact maskBitLoad_ok (hi i him) (x i) v

end ArithMask

/-! ## In the words of the manual -/

/-- Whether an element is not masked off. -/
def Vector.enabled (v : Vector) (enableMask : Bool) (i : Nat) : Bool := !enableMask || v.maskBit 0 i

/-- The cells of a destination after an instruction: the values in the active
part of the body, and the policies elsewhere. -/
structure Written {α : Type} [Inhabited α] (c : VectorConfig) (start count : Nat) (enabled : Nat → Bool)
    (value old new : Nat → α) : Prop where
  body : ∀ i, start ≤ i → i < c.vl → enabled i → new i = value i
  masked : ∀ i, start ≤ i → i < c.vl → enabled i = false →
    new i = if c.maskAgnostic then default else old i
  tail : ∀ i, start ≤ i → c.vl ≤ i → i < count → new i = if c.tailAgnostic then default else old i
  prestart : ∀ i, i < start → i < count → new i = old i

namespace ArithMask

variable {v : Vector} {enableMask : Bool} {start count i : Nat}

theorem bit_newWithStart (hi : i < v.config.vl) :
    (newWithStart v enableMask start).bit i = v.enabled enableMask i := by
  have hlt : i / 8 < VLEN_BYTE := by
    have := v.config.vl_le
    unfold VL_MAX at this
    unfold VLEN_BYTE
    omega
  cases enableMask with
  | false => rfl
  | true =>
    show (decide (i / 8 < VLEN_BYTE) && (v.vectorRegfile (i / 8)).getLsbD (i % 8)) = v.maskBit 0 i
    simp [hlt, Vector.maskBit]

section

variable {α : Type} [Inhabited α] {x : α}

/-- The mask of an instruction, from the configuration and `v0`. -/
theorem maskValue_newWithStart (x : α) : (newWithStart v enableMask start).maskValue x i =
    if i < start then none
    else if v.config.vl ≤ i then if v.config.tailAgnostic then some default else none
    else if v.enabled enableMask i then some x
    else if v.config.maskAgnostic then some default
    else none := by
  have hlen : (newWithStart v enableMask start).length = v.config.vl := Nat.mul_one _
  unfold maskValue
  rw [hlen]
  by_cases hvl : v.config.vl ≤ i
  · rw [if_pos hvl, if_pos hvl]
    rfl
  · rw [if_neg hvl, if_neg hvl, bit_newWithStart (by omega)]
    rfl

theorem maskValue_active (h1 : start ≤ i) (h2 : i < v.config.vl) (h3 : v.enabled enableMask i) :
    (newWithStart v enableMask start).maskValue x i = some x := by
  rw [maskValue_newWithStart, if_neg (by omega), if_neg (by omega), if_pos h3]

/-- There is one way to fill a destination. -/
theorem written_iff (hvl : v.config.vl ≤ count) {value old new : Nat → α} :
    Written v.config start count (v.enabled enableMask) value old new ↔ ∀ i, i < count →
      new i = ((newWithStart v enableMask start).maskValue (value i) i).getD (old i) := by
  simp only [maskValue_newWithStart]
  constructor
  · rintro ⟨hbody, hmasked, htail, hprestart⟩ i hi
    grind
  · intro h
    constructor <;> grind

end

end ArithMask

/-! ## Sources and groups -/

namespace Vector

variable {v v' : Vector} {w : Width} {lmul i : Nat} {reg vd : RegIdx} {src : ArithSrc}

theorem vlmax_le_sliceLen (v : Vector) :
    vlmax v.config.vlmul v.config.vsew ≤ sliceLen v.lmul v.sew := by
  unfold Vector.lmul Vector.sew
  cases v.config.vlmul <;> cases v.config.vsew <;> decide

theorem sliceLen_le (v : Vector) : sliceLen v.lmul w ≤ bitCapacity := by
  unfold Vector.lmul
  cases v.config.vlmul <;> cases w <;> decide

theorem get_slice (h : i < sliceLen lmul w) : (v.slice w lmul reg).get i = .ok (v.element w reg i) := by
  unfold Slice.get slice
  rw [if_pos h]
  rfl

theorem checkGroup_eq_ok : checkGroup lmul reg = .ok () ↔ groupLegal lmul reg := by
  unfold checkGroup
  cases groupLegal lmul reg with
  | true => exact ⟨fun _ => rfl, fun _ => rfl⟩
  | false => exact ⟨nofun, nofun⟩

/-- The destination is checked, and then the walk does not stop. -/
theorem loadGroupWith_eq {enableMask : Bool} {start : Nat} {value : Nat → VArith (BitVec w.bits)}
    {x : Nat → BitVec w.bits} (h : ∀ i, i < sliceLen lmul w → value i = .ok (x i)) :
    v.loadGroupWith vd enableMask start lmul value = checkGroup lmul vd >>= fun _ => .ok (v.fill w vd
      (fun i => (ArithMask.newWithStart v enableMask start).maskValue (x i) i)
      (range (sliceLen lmul w))) := by
  unfold loadGroupWith
  rw [ArithMask.loadElements_ok fun i hi => h i (mem_range.1 hi)]

end Vector

namespace ArithSrc

variable {v : Vector} {w : Width} {lmul i : Nat}

def legal (lmul : Nat) : ArithSrc → Bool
  | reg vs1 => Vector.groupLegal lmul vs1
  | scalar _ => true

/-- The operand for an element. -/
def value (v : Vector) (w : Width) : ArithSrc → Nat → BitVec w.bits
  | reg vs1, i => v.element w vs1 i
  | scalar x1, _ => x1.setWidth w.bits

theorem check_eq_ok {src : ArithSrc} : src.check lmul = .ok () ↔ src.legal lmul := by
  cases src with
  | reg vs1 => exact Vector.checkGroup_eq_ok
  | scalar x1 => exact ⟨fun _ => rfl, fun _ => rfl⟩

theorem get_eq {src : ArithSrc} (h : i < Vector.sliceLen lmul w) :
    src.get v w lmul i = .ok (src.value v w i) := by
  cases src with
  | reg vs1 => exact Vector.get_slice h
  | scalar x1 => rfl

end ArithSrc

section Operands

variable {l₁ l₂ l₃ : Nat} {src : ArithSrc} {vs2 vd : RegIdx}

theorem illegalIf_eq_ok {c : Prop} [Decidable c] : illegalIf c = .ok () ↔ ¬c := by
  unfold illegalIf
  by_cases h : c
  · rw [if_pos h]
    exact ⟨nofun, absurd h⟩
  · rw [if_neg h]
    exact ⟨fun _ => h, fun _ => rfl⟩

/-- The checks on the operand, on `vs2` and on the destination. -/
def checkOperands (l₁ l₂ l₃ : Nat) (src : ArithSrc) (vs2 vd : RegIdx) : VArith Unit :=
  src.check l₁ >>= fun _ => Vector.checkGroup l₂ vs2 >>= fun _ => Vector.checkGroup l₃ vd

/-- The registers start groups of these sizes. -/
structure OperandsLegal (l₁ l₂ l₃ : Nat) (src : ArithSrc) (vs2 vd : RegIdx) : Prop where
  src : src.legal l₁
  vs2 : Vector.groupLegal l₂ vs2
  vd : Vector.groupLegal l₃ vd

theorem checkOperands_eq_ok :
    checkOperands l₁ l₂ l₃ src vs2 vd = .ok () ↔ OperandsLegal l₁ l₂ l₃ src vs2 vd := by
  unfold checkOperands
  rw [except_seq_eq_ok, except_seq_eq_ok, ArithSrc.check_eq_ok, Vector.checkGroup_eq_ok,
    Vector.checkGroup_eq_ok]
  exact ⟨fun ⟨h₁, h₂, h₃⟩ => ⟨h₁, h₂, h₃⟩, fun ⟨h₁, h₂, h₃⟩ => ⟨h₁, h₂, h₃⟩⟩

end Operands

/-! ## Instructions -/

/-- An element of the width in force. -/
abbrev VectorView.elem (s : VectorView) (reg : RegIdx) (i : Nat) : BitVec s.vector.sew.bits :=
  s.vector.element s.vector.sew reg i

/-- The operand beside `vs2` for an element. -/
abbrev VectorView.operand (s : VectorView) (form : OperandForm) (rs1 : RegIdx) (i : Nat) :
    BitVec s.vector.sew.bits :=
  (form.src s.regFile rs1).value s.vector s.vector.sew i

namespace VectorDestInstr

variable {instr : VectorDestInstr} {s : VectorView} {rs1 rs2 rd : RegIdx} {vm : Bool} {func6 : BitVec 6}
  {vstart count : Nat} {w : Width} {x value : Nat → BitVec w.bits}

theorem exec_dest : (dest instr).exec (.V rs1 rs2 rd vm func6) vstart s =
    (instr.exec s.regFile s.vector rs1 rs2 rd vm vstart).map fun v => { s with vector := v } := by
  show (instr.exec s.regFile s.vector rs1 rs2 rd vm vstart >>= _) = _
  cases instr.exec s.regFile s.vector rs1 rs2 rd vm vstart <;> rfl

/-- What a walk over `count` elements with the mask of the instruction comes to. -/
abbrev filled (s : VectorView) (w : Width) (rd : RegIdx) (vm : Bool) (vstart count : Nat)
    (x : Nat → BitVec w.bits) : Vector :=
  s.vector.fill w rd (fun i => (ArithMask.newWithStart s.vector (!vm) vstart).maskValue (x i) i)
    (range count)

theorem element_filled {i : Nat} (hi : i < count) : (filled s w rd vm vstart count x).element w rd i =
    ((ArithMask.newWithStart s.vector (!vm) vstart).maskValue (x i) i).getD (s.vector.element w rd i) :=
  Vector.element_fill pairwise_lt_range (mem_range.2 hi)

/-- The instruction completes; the active part of the body holds the values, the
rest of the group is as the policies say, and nothing else has changed. -/
def Writes (instr : VectorDestInstr) (info : RVInstrInfo) (vstart : Nat) (s : VectorView) (w : Width)
    (lmul : Nat) (rd : RegIdx) (enabled : Nat → Bool) (value : Nat → BitVec w.bits) : Prop :=
  ∃ v', (dest instr).exec info vstart s = .ok { s with vector := v' } ∧
    Written s.vector.config vstart (Vector.sliceLen lmul w) enabled value (s.vector.element w rd)
      (v'.element w rd) ∧ Vector.OnlyGroup rd lmul s.vector v'

/-- An instruction that checks its registers and walks over elements of a width
`u`, and what is asked of it for elements of a width `w`. -/
theorem writes_iff {lmul : Nat} {u : Width} {b : Bool} {y : Nat → BitVec u.bits} {check : VArith Unit}
    {legal : Prop} (hvl : s.vector.config.vl ≤ Vector.sliceLen lmul w)
    (hexec : instr.exec s.regFile s.vector rs1 rs2 rd vm vstart =
      check >>= fun _ => .ok (filled s u rd b vstart (Vector.sliceLen lmul u) y))
    (hcheck : check = .ok () ↔ legal) :
    instr.Writes (.V rs1 rs2 rd vm func6) vstart s w lmul rd (s.vector.enabled (!b)) x ↔
      legal ∧ ∀ i, i < Vector.sliceLen lmul w →
        (filled s u rd b vstart (Vector.sliceLen lmul u) y).element w rd i =
          (filled s w rd b vstart (Vector.sliceLen lmul w) x).element w rd i := by
  rw [Writes, exec_dest, hexec, ← hcheck,
    forall₂_congr fun i hi => by rw [element_filled (x := x) hi], ← ArithMask.written_iff hvl]
  constructor
  · rintro ⟨v', hrun, hw, -⟩
    cases check with
    | error e => cases hrun
    | ok _ =>
      cases hrun
      exact ⟨rfl, hw⟩
  · rintro ⟨rfl, hw⟩
    exact ⟨_, rfl, hw, Vector.onlyGroup_fill fun i hi => mem_range.1 hi⟩

/-- Something holds of every active element of the body. -/
def EachActive (s : VectorView) (vm : Bool) (vstart : Nat) (P : Nat → Prop) : Prop :=
  ∀ i, vstart ≤ i → i < s.vector.config.vl → s.vector.enabled (!vm) i → P i

/-- The instruction completes, and the active part of the body holds the values. -/
def SetsBody (instr : VectorDestInstr) (rs1 rs2 rd : RegIdx) (vm : Bool) (func6 : BitVec 6)
    (vstart : Nat) (s : VectorView) (w : Width) (value : Nat → BitVec w.bits) : Prop :=
  ∃ v', (dest instr).exec (.V rs1 rs2 rd vm func6) vstart s = .ok { s with vector := v' } ∧
    EachActive s vm vstart fun i => v'.element w rd i = value i

/-- The same for a destination of bits. -/
def SetsBits (instr : VectorDestInstr) (rs1 rs2 rd : RegIdx) (vm : Bool) (func6 : BitVec 6)
    (vstart : Nat) (s : VectorView) (value : Nat → Bool) : Prop :=
  ∃ v', (dest instr).exec (.V rs1 rs2 rd vm func6) vstart s = .ok { s with vector := v' } ∧
    EachActive s vm vstart fun i => v'.maskBit rd i = value i

/-- An instruction that checks its registers and then walks: it does what it is
asked for if the registers pass and every active cell comes out right. -/
theorem completes_iff {α : Type} {cell : Vector → Nat → α} {x value : Nat → α} {u : Vector}
    {check : VArith Unit} {legal : Prop}
    (hexec : instr.exec s.regFile s.vector rs1 rs2 rd vm vstart = check >>= fun _ => .ok u)
    (hcheck : check = .ok () ↔ legal) (hcell : EachActive s vm vstart fun i => cell u i = x i) :
    (∃ v', (dest instr).exec (.V rs1 rs2 rd vm func6) vstart s =
        .ok { s with vector := v' } ∧ EachActive s vm vstart fun i => cell v' i = value i) ↔
      legal ∧ EachActive s vm vstart fun i => x i = value i := by
  have hrun : (dest instr).exec (.V rs1 rs2 rd vm func6) vstart s =
      (check >>= fun _ => .ok u).map fun v => { s with vector := v } := by
    rw [exec_dest, hexec]
  rw [← hcheck]
  cases check with
  | error e => exact ⟨fun ⟨_, h, _⟩ => (by cases hrun.symm.trans h), fun ⟨h, _⟩ => (by cases h)⟩
  | ok _ =>
    constructor
    · rintro ⟨v', hv', hall⟩
      have heq : u = v' := congrArg VectorView.vector (Except.ok.inj (hrun.symm.trans hv'))
      subst heq
      exact ⟨rfl, fun i h1 h2 h3 => (hcell i h1 h2 h3).symm.trans (hall i h1 h2 h3)⟩
    · rintro ⟨-, hall⟩
      exact ⟨_, hrun, fun i h1 h2 h3 => (hcell i h1 h2 h3).trans (hall i h1 h2 h3)⟩

section

variable {check : VArith Unit} {legal : Prop} (hvl : s.vector.config.vl ≤ count)

include hvl

theorem setsBody_iff (hexec : instr.exec s.regFile s.vector rs1 rs2 rd vm vstart =
      check >>= fun _ => .ok (filled s w rd vm vstart count x))
    (hcheck : check = .ok () ↔ legal) :
    instr.SetsBody rs1 rs2 rd vm func6 vstart s w value ↔
      legal ∧ EachActive s vm vstart fun i => x i = value i := by
  refine completes_iff hexec hcheck fun i h1 h2 h3 => ?_
  refine (element_filled (Nat.lt_of_lt_of_le h2 hvl)).trans ?_
  rw [ArithMask.maskValue_active h1 h2 h3]
  rfl

theorem setsBits_iff {x value : Nat → Bool} (hexec : instr.exec s.regFile s.vector rs1 rs2 rd vm vstart =
      check >>= fun _ => .ok (s.vector.fillBits rd
        (fun i => (ArithMask.newWithStart s.vector (!vm) vstart).maskValue (x i) i) (range count)))
    (hcheck : check = .ok () ↔ legal) :
    instr.SetsBits rs1 rs2 rd vm func6 vstart s value ↔
      legal ∧ EachActive s vm vstart fun i => x i = value i := by
  refine completes_iff hexec hcheck fun i h1 h2 h3 => ?_
  refine (Vector.maskBit_fillBits.trans (if_pos (mem_range.2 (Nat.lt_of_lt_of_le h2 hvl)))).trans ?_
  rw [ArithMask.maskValue_active h1 h2 h3]
  rfl

end

end VectorDestInstr

end HereEmu
