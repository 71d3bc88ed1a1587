import HereEmu.Csr.Table
import Mathlib.Data.List.Basic

/-!
# The CSR file

Reads and writes of control and status registers: with the checks of the
privileged architecture, without them, and by named field.

The entries of the table are fixed, so the state is a value for each of them
and the current privilege level. Addresses reaching the file have twelve bits,
so an address the table has no entry for reads as absent.
-/

namespace HereEmu

open BitVec (eq_of_getLsbD_eq getLsbD getLsbD_and)

/-- A field of a register under its name. -/
structure BitField where
  bit : Nat
  len : Nat

namespace BitField

def ones (f : BitField) : WordType := BitVec.ofNat 64 (2 ^ f.len - 1)

def get (f : BitField) (v : WordType) : WordType := (v &&& (f.ones <<< f.bit)) >>> f.bit

end BitField

/-- `CsrWriteOp::get_new_value`: the bits of `mask` from `value`, the others kept. -/
def getNewValue (mask old value : WordType) : WordType := (old &&& ~~~mask) ||| (value &&& mask)

def BitField.put (f : BitField) (v val : WordType) : WordType :=
  getNewValue (f.ones <<< f.bit) v (val <<< f.bit)

namespace Mstatus

def sie : BitField := ⟨1, 1⟩
def mie : BitField := ⟨3, 1⟩
def spie : BitField := ⟨5, 1⟩
def mpie : BitField := ⟨7, 1⟩
def spp : BitField := ⟨8, 1⟩
def vs : BitField := ⟨9, 2⟩
def mpp : BitField := ⟨11, 2⟩
def fs : BitField := ⟨13, 2⟩
def xs : BitField := ⟨15, 2⟩
def mprv : BitField := ⟨17, 1⟩
def sum : BitField := ⟨18, 1⟩
def mxr : BitField := ⟨19, 1⟩
def tvm : BitField := ⟨20, 1⟩
def tsr : BitField := ⟨22, 1⟩
def sd : BitField := ⟨63, 1⟩

end Mstatus

namespace Satp

def ppn : BitField := ⟨0, 44⟩
def mode : BitField := ⟨60, 4⟩

end Satp

namespace Xtvec

def mode : BitField := ⟨0, 2⟩
def base : BitField := ⟨2, 62⟩

end Xtvec

namespace Mideleg

def ssip : BitField := ⟨1, 1⟩
def stip : BitField := ⟨5, 1⟩
def seip : BitField := ⟨9, 1⟩

end Mideleg

namespace Mip

def msip : BitField := ⟨3, 1⟩
def mtip : BitField := ⟨7, 1⟩
def seip : BitField := ⟨9, 1⟩
def meip : BitField := ⟨11, 1⟩

end Mip

/-- A register that is a single field. -/
def wholeField : BitField := ⟨0, 64⟩

/-- The register that holds the value: a shadow register resolves to its base. -/
def Csr.base (r : Csr) : Csr := r.shadowOf.getD r

structure CsrRegFile where
  value : Csr → WordType
  cpl : PrivilegeLevel

namespace CsrRegFile

variable (c : CsrRegFile)

/-- Addresses that name a part of another register. -/
def FFLAGS : WordType := 0x001
def FRM : WordType := 0x002
def FCSR : WordType := 0x003
def VXSAT : WordType := 0x009
def VXRM : WordType := 0x00a

def new : CsrRegFile := { value := fun _ => 0, cpl := .M }

def setValue (r : Csr) (v : WordType) : CsrRegFile :=
  { c with value := Function.update c.value r v }

/-- `CsrReg::write`. -/
def writeReg (r : Csr) (v : WordType) : CsrRegFile :=
  c.setValue r (getNewValue (r.validate v) (c.value r) v)

/-- `CsrReg::write_with_mask`. -/
def writeWithMask (r : Csr) (v mask : WordType) : CsrRegFile :=
  c.setValue r (getNewValue (r.validate v &&& mask) (c.value r) v)

/-- The named getters `get_<field>`. -/
def get (c : CsrRegFile) (r : Csr) (f : BitField) : WordType := f.get (c.value r.base)

/-- The named setters `set_<field>`, with their assertion that the value fits. -/
def set (r : Csr) (f : BitField) (val : WordType) : Rust CsrRegFile :=
  if val ≤ f.ones then .ok (c.writeReg r.base (f.put (c.value r.base) val))
  else .error .fieldSetter

def writeDirectly (addr data : WordType) : Bool × CsrRegFile :=
  match Csr.ofAddr addr with
  | some r => (true, c.setValue r data)
  | none => (false, c)

def isReadPrivLegal (addr : WordType) : Bool :=
  if addr = Csr.satp.addr ∧ c.cpl = .S ∧ c.get .mstatus Mstatus.tvm = 1 then false
  else decide (csrPrivilege addr ≤ c.cpl)

def isWritePrivLegal (addr : WordType) : Bool :=
  if 0xC00 ≤ addr then false else c.isReadPrivLegal addr

def writeUncheckPrivilege (addr data : WordType) : CsrRegFile :=
  if addr = FFLAGS then
    c.setValue .fcsr ((c.value .fcsr &&& ~~~0b11111#64) ||| (data &&& 0b11111))
  else if addr = FRM then
    c.setValue .fcsr ((c.value .fcsr &&& ~~~0b11100000#64) ||| ((data &&& 0b111) <<< 5))
  else if addr = FCSR then
    c.setValue .fcsr (data &&& 0xFF)
  else if addr = VXSAT then
    c.setValue .vcsr ((c.value .vcsr &&& ~~~0b1#64) ||| (data &&& 0b1))
  else if addr = VXRM then
    c.setValue .vcsr ((c.value .vcsr &&& ~~~0b110#64) ||| ((data &&& 0b11) <<< 1))
  else
    match Csr.ofAddr addr with
    | some r =>
      match r.shadowOf with
      -- the shadow's validator selects bits, the base's validates them again
      | some b => c.writeWithMask b data (r.validate data)
      | none => c.writeReg r data
    | none => c

def readUncheckPrivilege (addr : WordType) : Option WordType :=
  if addr = FFLAGS then some (c.value .fcsr &&& 0b11111)
  else if addr = FRM then some ((c.value .fcsr >>> 5) &&& 0b111)
  else if addr = VXSAT then some (c.value .vcsr &&& 0b1)
  else if addr = VXRM then some ((c.value .vcsr >>> 1) &&& 0b11)
  else
    match Csr.ofAddr addr with
    | some r =>
      match r.shadowOf with
      | some b => some (c.value b &&& r.viewMask)
      | none => some (c.value r)
    | none => none

def readChecked (addr : WordType) : Option WordType :=
  if c.isReadPrivLegal addr then c.readUncheckPrivilege addr else none

/-- `write_checked`: `none` when the write is refused. -/
def writeChecked (addr data : WordType) : Option CsrRegFile :=
  if c.isWritePrivLegal addr then some (c.writeUncheckPrivilege addr data) else none

end CsrRegFile

/-! ## Fields bit by bit -/

theorem getLsbD_getNewValue (mask old v : WordType) (i : Nat) :
    (getNewValue mask old v).getLsbD i =
      if mask.getLsbD i then v.getLsbD i else old.getLsbD i := by
  unfold getNewValue
  rcases Nat.lt_or_ge i 64 with hi | hi
  · simp only [BitVec.getLsbD_or, getLsbD_and, BitVec.getLsbD_not, hi, decide_true,
      Bool.true_and]
    cases mask.getLsbD i <;> simp
  · simp [BitVec.getLsbD_of_ge _ _ hi]

namespace BitField

variable {f : BitField} {v val : WordType} {i : Nat}

theorem getLsbD_ones (f : BitField) (i : Nat) :
    f.ones.getLsbD i = (decide (i < 64) && decide (i < f.len)) := by
  unfold ones
  rw [BitVec.getLsbD_ofNat, Nat.testBit_two_pow_sub_one]

theorem getLsbD_get (h : f.bit + f.len ≤ 64) :
    (f.get v).getLsbD i = (decide (i < f.len) && v.getLsbD (f.bit + i)) := by
  unfold get
  rw [BitVec.getLsbD_ushiftRight, getLsbD_and, BitVec.getLsbD_shiftLeft, getLsbD_ones]
  by_cases hi : i < f.len
  · have h1 : f.bit + i < 64 := by omega
    have h2 : i < 64 := by omega
    simp [hi, h1, h2]
  · simp [hi]

theorem get_le_ones (h : f.bit + f.len ≤ 64) : f.get v ≤ f.ones := by
  have hand : f.get v = f.get v &&& f.ones := by
    refine eq_of_getLsbD_eq fun i hi => ?_
    rw [getLsbD_and, getLsbD_get h, getLsbD_ones]
    by_cases hlt : i < f.len <;> simp [hlt, hi]
  rw [hand]
  exact Nat.and_le_right

/-- The mask of a field selects its bits. -/
theorem getLsbD_mask (h : f.bit + f.len ≤ 64) :
    (f.ones <<< f.bit).getLsbD i = (decide (f.bit ≤ i) && decide (i < f.bit + f.len)) := by
  rw [BitVec.getLsbD_shiftLeft, getLsbD_ones]
  by_cases h1 : f.bit ≤ i
  · by_cases h2 : i < f.bit + f.len
    · have : i < 64 := by omega
      simp [h1, h2, this, show ¬ i < f.bit from by omega, show i - f.bit < 64 from by omega,
        show i - f.bit < f.len from by omega]
    · simp [h1, h2, show ¬ i - f.bit < f.len from by omega]
  · simp [h1, show i < f.bit from by omega]

/-- A field of one bit is that bit. -/
theorem get_one {b : Nat} (hb : b < 64) :
    (BitField.mk b 1).get v = if v.getLsbD b then 1 else 0 := by
  refine eq_of_getLsbD_eq fun i hi => ?_
  rw [getLsbD_get (show b + 1 ≤ 64 from hb)]
  cases i with
  | zero => cases v.getLsbD b <;> simp
  | succ i => split <;> simp [BitVec.getLsbD_one]

theorem getLsbD_put (h : f.bit + f.len ≤ 64) :
    (f.put v val).getLsbD i =
      if f.bit ≤ i ∧ i < f.bit + f.len then val.getLsbD (i - f.bit) else v.getLsbD i := by
  unfold put
  rw [getLsbD_getNewValue, getLsbD_mask h, BitVec.getLsbD_shiftLeft]
  by_cases hin : f.bit ≤ i ∧ i < f.bit + f.len
  · have hi : i < 64 := by omega
    simp [hin, hi, show ¬ i < f.bit from by omega]
  · rw [if_neg (by simpa using hin), if_neg hin]

/-- Putting one field leaves a disjoint one as it was. -/
theorem get_put_disjoint {g : BitField} (hf : f.bit + f.len ≤ 64) (hg : g.bit + g.len ≤ 64)
    (hd : g.bit + g.len ≤ f.bit ∨ f.bit + f.len ≤ g.bit) : g.get (f.put v val) = g.get v := by
  refine eq_of_getLsbD_eq fun i hi => ?_
  rw [getLsbD_get hg, getLsbD_get hg]
  by_cases hlt : i < g.len
  · rw [getLsbD_put hf, if_neg (by omega)]
  · simp [hlt]

/-- What was put is what is read back, if it fits. -/
theorem get_put_same (hf : f.bit + f.len ≤ 64) (hval : val ≤ f.ones) :
    f.get (f.put v val) = val := by
  refine eq_of_getLsbD_eq fun i hi => ?_
  rw [getLsbD_get hf]
  by_cases hlt : i < f.len
  · rw [getLsbD_put hf, if_pos (by omega)]
    simp [hlt]
  · have hsmall : val.toNat < 2 ^ i := by
      have h1 : val.toNat ≤ f.ones.toNat := hval
      have h2 : 2 ^ f.len ≤ 2 ^ i := Nat.pow_le_pow_right (by decide) (by omega)
      have h3 : f.ones.toNat ≤ 2 ^ f.len - 1 := by
        unfold ones
        exact Nat.mod_le ..
      have h4 : 0 < 2 ^ f.len := Nat.two_pow_pos _
      omega
    simp [hlt, getLsbD, Nat.testBit_lt_two_pow hsmall]

/-- Of two values put into one field the later stays. -/
theorem put_put_same {val' : WordType} (h : f.bit + f.len ≤ 64) :
    f.put (f.put v val) val' = f.put v val' := by
  refine eq_of_getLsbD_eq fun i hi => ?_
  simp only [getLsbD_put h]
  split <;> rfl

/-- Disjoint fields can be put in either order. -/
theorem put_comm {g : BitField} {val' : WordType} (hf : f.bit + f.len ≤ 64)
    (hg : g.bit + g.len ≤ 64) (hd : g.bit + g.len ≤ f.bit ∨ f.bit + f.len ≤ g.bit) :
    f.put (g.put v val) val' = g.put (f.put v val') val := by
  refine eq_of_getLsbD_eq fun i hi => ?_
  simp only [getLsbD_put hf, getLsbD_put hg]
  by_cases h : f.bit ≤ i ∧ i < f.bit + f.len
  · rw [if_pos h, if_neg (by omega), if_pos h]
  · rw [if_neg h, if_neg h]

theorem put_get (h : f.bit + f.len ≤ 64) : f.put v (f.get v) = v := by
  refine eq_of_getLsbD_eq fun i hi => ?_
  rw [getLsbD_put h]
  split
  · next hin =>
      rw [getLsbD_get h, show f.bit + (i - f.bit) = i by omega]
      simp [show i - f.bit < f.len by omega]
  · rfl

/-- What a mask has of a field it has bit by bit. -/
theorem getLsbD_of_and_ones {mask part : WordType} {i : Nat} (h : f.bit + f.len ≤ 64)
    (hm : mask &&& (f.ones <<< f.bit) = part) (hlt : i < f.len) :
    mask.getLsbD (f.bit + i) = part.getLsbD (f.bit + i) := by
  rw [← hm]
  simp [getLsbD_mask h, hlt]

/-- A field inside the mask is written. -/
theorem get_getNewValue_of_subset {mask old : WordType} (h : f.bit + f.len ≤ 64)
    (hm : mask &&& (f.ones <<< f.bit) = f.ones <<< f.bit) :
    f.get (getNewValue mask old v) = f.get v := by
  refine eq_of_getLsbD_eq fun i hi => ?_
  rw [getLsbD_get h, getLsbD_get h]
  by_cases hlt : i < f.len
  · rw [getLsbD_getNewValue, getLsbD_of_and_ones h hm hlt, getLsbD_mask h]
    simp [hlt]
  · simp [hlt]

/-- A field outside the mask is kept. -/
theorem get_getNewValue_of_disjoint {mask old : WordType} (h : f.bit + f.len ≤ 64)
    (hm : mask &&& (f.ones <<< f.bit) = 0) : f.get (getNewValue mask old v) = f.get old := by
  refine eq_of_getLsbD_eq fun i hi => ?_
  rw [getLsbD_get h, getLsbD_get h]
  by_cases hlt : i < f.len
  · rw [getLsbD_getNewValue, getLsbD_of_and_ones h hm hlt]
    simp
  · simp [hlt]

end BitField

/-! ## Which bits a register keeps -/

namespace Csr

theorem ofAddr_addr (r : Csr) : ofAddr r.addr = some r := by cases r <;> rfl

variable {r : Csr}

theorem addr_of_ofAddr {a : WordType} (h : ofAddr a = some r) : r.addr = a := by
  simpa using List.find?_some h

/-- Only the validator of `mtvec` looks at the value it is given. -/
theorem validate_const (h : r ≠ .mtvec) (v : WordType) : r.validate v = r.validate 0 := by
  have hall : ∀ f ∈ r.fields, f.validator = .writeAny ∨ f.validator = .readonly := by
    revert h
    cases r <;> decide +kernel
  refine List.foldl_ext _ _ _ fun m f hf => ?_
  unfold CsrField.writeMask
  rcases hall f hf with hv | hv <;> rw [hv]

/-- The validator of `mtvec.MODE` looks at one bit of the base too: either all
bits are written or all but the mode. -/
theorem validate_mtvec (v : WordType) :
    mtvec.validate v = if extractRange v 0 2 ≤ 1 then BitVec.allOnes 64 else ~~~3#64 := by
  have hfold : mtvec.validate v =
      (0 ||| if 0 ≤ extractRange v 0 2 ∧ extractRange v 0 2 ≤ 1 then makeMask 0 2 else 0) |||
        makeMask 2 63 := rfl
  rw [hfold]
  by_cases h : extractRange v 0 2 ≤ 1
  · rw [if_pos ⟨Nat.zero_le _, h⟩, if_pos h]
    decide
  · rw [if_neg fun h' => h h'.2, if_neg h]
    decide

/-- The three bits the validator of `mtvec.MODE` looks at are the mode and a bit
of the base. -/
theorem extractRange_mode_le (v : WordType) :
    extractRange v 0 2 ≤ 1 ↔ v.getLsbD 2 = false ∧ Xtvec.mode.get v ≤ 1 := by
  have hrange : (extractRange v 0 2).toNat = v.toNat % 2 ^ 3 := by
    unfold extractRange
    exact Nat.and_two_pow_sub_one_eq_mod _ 3
  have hmode : (Xtvec.mode.get v).toNat = v.toNat % 2 ^ 2 := by
    show ((v &&& 3#64) >>> 0).toNat = _
    exact Nat.and_two_pow_sub_one_eq_mod _ 2
  have hbit : v.getLsbD 2 = false ↔ v.toNat / 2 ^ 2 % 2 = 0 := by
    rw [getLsbD, Nat.testBit_eq_decide_div_mod_eq]
    simp only [decide_eq_false_iff_not]
    omega
  rw [hbit]
  show (extractRange v 0 2).toNat ≤ 1 ↔ _ ∧ (Xtvec.mode.get v).toNat ≤ 1
  omega

/-- Every bit of the field is written when the register is. -/
def Keeps (r : Csr) (f : BitField) : Prop :=
  f.bit + f.len ≤ 64 ∧ ∀ v i, f.bit ≤ i → i < f.bit + f.len → (r.validate v).getLsbD i

theorem Keeps.of_mask {f : BitField} (hr : r ≠ .mtvec) (hf : f.bit + f.len ≤ 64)
    (hm : r.validate 0 &&& (f.ones <<< f.bit) = f.ones <<< f.bit) : r.Keeps f := by
  refine ⟨hf, fun v i h1 h2 => ?_⟩
  have hbit := congrArg (·.getLsbD i) hm
  simp only [getLsbD_and, BitField.getLsbD_mask hf, h1, h2, decide_true, Bool.and_self,
    Bool.and_true] at hbit
  rw [validate_const hr, hbit]

end Csr

namespace CsrRegFile

variable {c : CsrRegFile} {r : Csr} {f : BitField} {v val : WordType}

@[simp] theorem setValue_same : (c.setValue r v).value r = v := by simp [setValue]

variable {r' : Csr}

@[simp] theorem setValue_ne (h : r' ≠ r) : (c.setValue r v).value r' = c.value r' := by
  simp [setValue, h]

/-- Writing a field the register keeps puts the field and changes nothing else. -/
theorem set_of_keeps (hk : r.base.Keeps f) (hval : val ≤ f.ones) :
    c.set r f val = .ok (c.setValue r.base (f.put (c.value r.base) val)) := by
  unfold set writeReg
  rw [if_pos hval]
  congr 2
  refine eq_of_getLsbD_eq fun i hi => ?_
  rw [getLsbD_getNewValue]
  by_cases hin : f.bit ≤ i ∧ i < f.bit + f.len
  · rw [hk.2 _ i hin.1 hin.2, if_pos rfl]
  · split
    · rfl
    · rw [BitField.getLsbD_put hk.1, if_neg hin]

/-- A register all of whose bits are kept takes the value it is given. -/
theorem writeReg_of_keeps (hk : r.Keeps wholeField) : c.writeReg r v = c.setValue r v := by
  unfold writeReg
  congr 1
  refine eq_of_getLsbD_eq fun i hi => ?_
  rw [getLsbD_getNewValue, hk.2 v i (Nat.zero_le i) (by simpa [wholeField] using hi), if_pos rfl]

variable {addr : WordType}

theorem isReadPrivLegal_of_ne (h : addr ≠ Csr.satp.addr) :
    c.isReadPrivLegal addr = decide (csrPrivilege addr ≤ c.cpl) := if_neg fun h' => h h'.1

/-- The addresses that name a part of a register are not those of the table,
`fcsr` apart. -/
theorem addr_ne_part (hf : r ≠ .fcsr) :
    r.addr ≠ FFLAGS ∧ r.addr ≠ FRM ∧ r.addr ≠ FCSR ∧ r.addr ≠ VXSAT ∧ r.addr ≠ VXRM := by
  revert hf
  cases r <;> decide +kernel

theorem writeUncheckPrivilege_addr (hf : r ≠ .fcsr) (hs : r.shadowOf = none) :
    c.writeUncheckPrivilege r.addr v = c.writeReg r v := by
  unfold writeUncheckPrivilege
  have h := addr_ne_part hf
  rw [if_neg h.1, if_neg h.2.1, if_neg h.2.2.1, if_neg h.2.2.2.1, if_neg h.2.2.2.2, Csr.ofAddr_addr]
  simp only [hs]

theorem writeUncheckPrivilege_shadow {b : Csr} (hs : r.shadowOf = some b) :
    c.writeUncheckPrivilege r.addr v = c.writeWithMask b v (r.validate v) := by
  unfold writeUncheckPrivilege
  have h := addr_ne_part (show r ≠ .fcsr by rintro rfl; cases hs)
  rw [if_neg h.1, if_neg h.2.1, if_neg h.2.2.1, if_neg h.2.2.2.1, if_neg h.2.2.2.2, Csr.ofAddr_addr]
  simp only [hs]

/-- The value of a register after a write to its own address. -/
theorem value_write (hf : r ≠ .fcsr) (hs : r.shadowOf = none) :
    (c.writeUncheckPrivilege r.addr v).value r = getNewValue (r.validate v) (c.value r) v := by
  rw [writeUncheckPrivilege_addr hf hs]
  exact setValue_same

/-- The value of a register after a write to one of its shadows. -/
theorem value_write_shadow {b : Csr} (hs : r.shadowOf = some b) :
    (c.writeUncheckPrivilege r.addr v).value b =
      getNewValue (b.validate v &&& r.validate v) (c.value b) v := by
  rw [writeUncheckPrivilege_shadow hs]
  exact setValue_same

theorem base_mtvec_write (old v : WordType) :
    Xtvec.base.get (getNewValue (Csr.mtvec.validate v) old v) = Xtvec.base.get v := by
  rw [Csr.validate_mtvec]
  split
  · exact BitField.get_getNewValue_of_subset (by decide) (by decide)
  · exact BitField.get_getNewValue_of_subset (by decide) (by decide)

/-- A mode is taken when it is a defined one and bit 2 is clear. -/
theorem mode_mtvec_write (old v : WordType) :
    Xtvec.mode.get (getNewValue (Csr.mtvec.validate v) old v) =
      if v.getLsbD 2 = false ∧ Xtvec.mode.get v ≤ 1 then Xtvec.mode.get v
      else Xtvec.mode.get old := by
  rw [Csr.validate_mtvec]
  simp only [Csr.extractRange_mode_le]
  split
  · exact BitField.get_getNewValue_of_subset (by decide) (by decide)
  · exact BitField.get_getNewValue_of_disjoint (by decide) (by decide)

/-- The register that a write to an address ends up in. -/
def written (addr : WordType) : Option Csr :=
  if addr = FFLAGS ∨ addr = FRM ∨ addr = FCSR then some .fcsr
  else if addr = VXSAT ∨ addr = VXRM then some .vcsr
  else (Csr.ofAddr addr).map Csr.base

/-- A write sets one register, to a value that depends on no other, or none. -/
theorem writeUncheckPrivilege_uniform (addr v : WordType) :
    (written addr = none ∧ ∀ c : CsrRegFile, c.writeUncheckPrivilege addr v = c) ∨
    ∃ (r : Csr) (g : WordType → WordType), written addr = some r ∧
      ∀ c : CsrRegFile, c.writeUncheckPrivilege addr v = c.setValue r (g (c.value r)) := by
  unfold written writeUncheckPrivilege
  by_cases h1 : addr = FFLAGS
  · exact .inr ⟨_, fun old => (old &&& ~~~0b11111#64) ||| (v &&& 0b11111), if_pos (.inl h1),
      fun c => if_pos h1⟩
  by_cases h2 : addr = FRM
  · exact .inr ⟨_, fun old => (old &&& ~~~0b11100000#64) ||| ((v &&& 0b111) <<< 5),
      if_pos (.inr (.inl h2)), fun c => by rw [if_neg h1, if_pos h2]⟩
  by_cases h3 : addr = FCSR
  · exact .inr ⟨_, fun _ => v &&& 0xFF, if_pos (.inr (.inr h3)),
      fun c => by rw [if_neg h1, if_neg h2, if_pos h3]⟩
  simp only [h1, h2, h3, if_false, or_self]
  by_cases h4 : addr = VXSAT
  · exact .inr ⟨_, fun old => (old &&& ~~~0b1#64) ||| (v &&& 0b1), if_pos (.inl h4),
      fun c => if_pos h4⟩
  by_cases h5 : addr = VXRM
  · exact .inr ⟨_, fun old => (old &&& ~~~0b110#64) ||| ((v &&& 0b11) <<< 1), if_pos (.inr h5),
      fun c => by rw [if_neg h4, if_pos h5]⟩
  simp only [h4, h5, if_false, or_self]
  cases hr : Csr.ofAddr addr with
  | none => exact .inl ⟨rfl, fun _ => rfl⟩
  | some r =>
    refine .inr ?_
    cases hb : r.shadowOf with
    | none => exact ⟨r, fun old => getNewValue (r.validate v) old v, by simp [Csr.base, hb],
        fun c => by simp only [hb]; rfl⟩
    | some b => exact ⟨b, fun old => getNewValue (b.validate v &&& r.validate v) old v,
        by simp [Csr.base, hb], fun c => by simp only [hb]; rfl⟩

theorem writeUncheckPrivilege_cases (c : CsrRegFile) (addr v : WordType) :
    (written addr = none ∧ c.writeUncheckPrivilege addr v = c) ∨
    ∃ r x, written addr = some r ∧ c.writeUncheckPrivilege addr v = c.setValue r x := by
  rcases writeUncheckPrivilege_uniform addr v with ⟨hn, h⟩ | ⟨r, g, hr, h⟩
  · exact .inl ⟨hn, h c⟩
  · exact .inr ⟨r, _, hr, h c⟩

theorem writeUncheckPrivilege_cpl (addr : WordType) :
    (c.writeUncheckPrivilege addr v).cpl = c.cpl := by
  rcases writeUncheckPrivilege_cases c addr v with ⟨-, h⟩ | ⟨r, x, -, h⟩ <;> rw [h]
  rfl

theorem writeUncheckPrivilege_frame (h : written addr ≠ some r) :
    (c.writeUncheckPrivilege addr v).value r = c.value r := by
  rcases writeUncheckPrivilege_cases c addr v with ⟨-, hw⟩ | ⟨r', x, hr', hw⟩
  · rw [hw]
  · rw [hw, setValue_ne]
    rintro rfl
    exact h hr'

/-- The addresses a register is written through. -/
theorem addr_of_written (h : written addr = some r) :
    r = .fcsr ∨ r = .vcsr ∨ ∃ r' : Csr, r'.base = r ∧ addr = r'.addr := by
  unfold written at h
  split at h
  · exact .inl (Option.some.inj h).symm
  · split at h
    · exact .inr (.inl (Option.some.inj h).symm)
    · obtain ⟨r', hr', hb⟩ := Option.map_eq_some_iff.mp h
      exact .inr (.inr ⟨r', hb, (Csr.addr_of_ofAddr hr').symm⟩)

/-- The registers that are seen through another. -/
theorem shadowOf_mem {view : Csr} (h : view.shadowOf = some r) :
    (view, r) ∈ [(Csr.cycle, Csr.mcycle), (.instret, .minstret), (.sstatus, .mstatus), (.sie, .mie),
      (.sip, .mip)] := by
  cases view <;> cases h <;> decide

/-- What a write does to a register of which no part has a name of its own: it
is one to the register, one to its view, or leaves it alone. -/
theorem value_write_cases (c : CsrRegFile) (hr : r ∉ [Csr.fcsr, .vcsr]) (hs : r.shadowOf = none)
    (addr v : WordType) :
    (addr = r.addr ∧ (c.writeUncheckPrivilege addr v).value r =
      getNewValue (r.validate v) (c.value r) v) ∨
    (∃ view : Csr, view.shadowOf = some r ∧ addr = view.addr ∧
      (c.writeUncheckPrivilege addr v).value r =
        getNewValue (r.validate v &&& view.validate v) (c.value r) v) ∨
    (c.writeUncheckPrivilege addr v).value r = c.value r := by
  simp only [List.mem_cons, List.not_mem_nil, or_false, not_or] at hr
  by_cases hw : written addr = some r
  · rcases addr_of_written hw with h | h | ⟨r', hbase, rfl⟩
    · exact absurd h hr.1
    · exact absurd h hr.2
    · unfold Csr.base at hbase
      cases hview : r'.shadowOf with
      | none =>
        rw [hview] at hbase
        cases hbase
        exact .inl ⟨rfl, value_write hr.1 hs⟩
      | some b =>
        rw [hview] at hbase
        cases hbase
        exact .inr (.inl ⟨r', hview, rfl, value_write_shadow hview⟩)
  · exact .inr (.inr (writeUncheckPrivilege_frame hw))

/-- A register without a view changes by a write to its own address only. -/
theorem value_write_of_ne (hr : r ∉ [Csr.fcsr, .vcsr])
    (hview : r ∉ [Csr.mcycle, .minstret, .mstatus, .mie, .mip]) (hs : r.shadowOf = none)
    (ha : addr ≠ r.addr) : (c.writeUncheckPrivilege addr v).value r = c.value r := by
  rcases value_write_cases c hr hs addr v with ⟨h, -⟩ | ⟨view, h, -⟩ | h
  · exact absurd h ha
  · exact absurd (List.mem_map_of_mem (f := Prod.snd) (shadowOf_mem h)) hview
  · exact h

/-! ## Operations on different registers commute -/

theorem setValue_comm {v' : WordType} (h : r ≠ r') :
    (c.setValue r v).setValue r' v' = (c.setValue r' v').setValue r v := by
  unfold setValue
  rw [Function.update_comm h]

theorem get_setValue (h : r.base ≠ r') : (c.setValue r' v).get r f = c.get r f := by
  unfold get
  rw [setValue_ne h]

theorem set_setValue (h : r.base ≠ r') :
    (c.setValue r' v).set r f val = (c.set r f val).map (·.setValue r' v) := by
  unfold set writeReg
  rw [setValue_ne h]
  split
  · rw [setValue_comm h.symm]
    rfl
  · rfl

theorem writeUncheckPrivilege_setValue (h : written addr ≠ some r') :
    (c.setValue r' v).writeUncheckPrivilege addr val =
      (c.writeUncheckPrivilege addr val).setValue r' v := by
  rcases writeUncheckPrivilege_uniform addr val with ⟨-, hw⟩ | ⟨r, g, hr, hw⟩
  · rw [hw, hw]
  · have hne : r ≠ r' := by
      rintro rfl
      exact h hr
    rw [hw, hw, setValue_ne hne, setValue_comm hne.symm]

theorem writeDirectly_addr : c.writeDirectly r.addr v = (true, c.setValue r v) := by
  unfold writeDirectly
  rw [Csr.ofAddr_addr]

end CsrRegFile

end HereEmu
