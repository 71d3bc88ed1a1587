import HereEmu.Basic

/-!
# The table of control and status registers

The registers of `gen_csr_regfile!`, each with its address, its fields and the
validator of every field. A write to a register keeps the bits its validators
select from the new value and leaves the others; a field that is not listed is
read-only. Every register starts at zero, so the default column is left out,
and the context the validators are passed is not looked at by any of those in
the table.

A shadow register has no storage: it is a view of another register through the
bits of its own fields.
-/

namespace HereEmu

/-- The registers that have an entry in the table. -/
inductive Csr where
  | fcsr | vstart | vcsr | cycle | instret | vl | vtype | vlenb
  | sstatus | sie | stvec | sscratch | sepc | scause | stval | sip | satp
  | mstatus | misa | medeleg | mideleg | mie | mtvec | mcountinhibit | mscratch | mepc | mcause
  | mtval | mip | mcycle | minstret | mvendorid | marchid | mimpid | mhartid
  deriving DecidableEq, Repr

/-- What a field does with a write. -/
inductive Validator where
  /-- The bits of the field are written. -/
  | writeAny
  /-- Nothing is written. -/
  | readonly
  /-- Bits `l` to `r` are written when their value lies between the bounds. The
  bounds of the slice are the validator's own, not the field's. -/
  | range (l r : Nat) (min max : WordType)
  deriving DecidableEq, Repr

structure CsrField where
  bit : Nat
  len : Nat
  validator : Validator := .writeAny
  deriving DecidableEq, Repr

/-- Bits `l` to `r`, both included. -/
def makeMask (l r : Nat) : WordType := BitVec.ofNat 64 (2 ^ (r - l + 1) - 1) <<< l

def extractRange (v : WordType) (l r : Nat) : WordType :=
  (v >>> l) &&& BitVec.ofNat 64 (2 ^ (r - l + 1) - 1)

namespace CsrField

def mask (f : CsrField) : WordType := makeMask f.bit (f.bit + f.len - 1)

/-- The bits a write of `value` reaches through this field. -/
def writeMask (f : CsrField) (value : WordType) : WordType :=
  match f.validator with
  | .writeAny => f.mask
  | .readonly => 0
  | .range l r min max =>
    if min ≤ extractRange value l r ∧ extractRange value l r ≤ max then makeMask l r else 0

end CsrField

namespace Csr

/-- Consecutive one-bit fields. -/
def flags (bits : List Nat) : List CsrField := bits.map fun b => { bit := b, len := 1 }

/-- One field over the whole register. -/
def whole (v : Validator := .writeAny) : List CsrField := [{ bit := 0, len := 64, validator := v }]

def addr : Csr → WordType
  | fcsr => 0x003 | vstart => 0x008 | vcsr => 0x00f
  | cycle => 0xC00 | instret => 0xC02 | vl => 0xC20 | vtype => 0xC21 | vlenb => 0xC22
  | sstatus => 0x100 | sie => 0x104 | stvec => 0x105 | sscratch => 0x140 | sepc => 0x141
  | scause => 0x142 | stval => 0x143 | sip => 0x144 | satp => 0x180
  | mstatus => 0x300 | misa => 0x301 | medeleg => 0x302 | mideleg => 0x303 | mie => 0x304
  | mtvec => 0x305 | mcountinhibit => 0x320 | mscratch => 0x340 | mepc => 0x341
  | mcause => 0x342 | mtval => 0x343 | mip => 0x344
  | mcycle => 0xB00 | minstret => 0xB02
  | mvendorid => 0xF11 | marchid => 0xF12 | mimpid => 0xF13 | mhartid => 0xF14

def all : List Csr :=
  [fcsr, vstart, vcsr, cycle, instret, vl, vtype, vlenb, sstatus, sie, stvec, sscratch, sepc, scause,
    stval, sip, satp, mstatus, misa, medeleg, mideleg, mie, mtvec, mcountinhibit, mscratch, mepc,
    mcause, mtval, mip, mcycle, minstret, mvendorid, marchid, mimpid, mhartid]

/-- The register stored at an address of the table. -/
def ofAddr (a : WordType) : Option Csr := all.find? fun r => r.addr == a

def fields : Csr → List CsrField
  -- fflags and its five bits, then rm
  | fcsr => [{ bit := 0, len := 5 }] ++ flags [0, 1, 2, 3, 4] ++ [{ bit := 5, len := 3 }]
  | vstart => whole
  -- vxsat, vxrm
  | vcsr => [{ bit := 0, len := 1 }, { bit := 1, len := 2 }]
  | cycle => whole .readonly
  | instret => whole .readonly
  | vl => whole
  -- vlmul, vsew, vta, vma, vill
  | vtype =>
    [{ bit := 0, len := 3, validator := .readonly }, { bit := 3, len := 3, validator := .readonly },
      { bit := 6, len := 1, validator := .readonly }, { bit := 7, len := 1, validator := .readonly },
      { bit := 63, len := 1, validator := .readonly }]
  | vlenb => whole
  -- sie, spie, ube, spp, vs, fs, xs, sum, mxr, spelp, sdt, uxl, sd
  | sstatus =>
    flags [1, 5, 6, 8] ++
      [{ bit := 9, len := 2 }, { bit := 13, len := 2 }, { bit := 15, len := 2 }] ++
      flags [18, 19, 23, 24] ++ [{ bit := 32, len := 2, validator := .readonly }] ++ flags [63]
  | sie => flags [0, 1, 4, 5, 8, 9]
  -- mode, base
  | stvec => [{ bit := 0, len := 2 }, { bit := 2, len := 62 }]
  | sscratch => whole
  | sepc => whole
  -- cause, interrupt
  | scause => [{ bit := 0, len := 63 }, { bit := 63, len := 1 }]
  | stval => whole
  | sip => flags [0, 1, 4, 5, 8, 9]
  -- ppn, asid, mode
  | satp => [{ bit := 0, len := 44 }, { bit := 44, len := 16 }, { bit := 60, len := 4 }]
  -- sie, mie, spie, ube, mpie, spp, vs, mpp, fs, xs, mprv to sdt, uxl, sxl, sbe to mdt, sd
  | mstatus =>
    flags [1, 3, 5, 6, 7, 8] ++
      [{ bit := 9, len := 2 }, { bit := 11, len := 2 }, { bit := 13, len := 2 },
        { bit := 15, len := 2, validator := .readonly }] ++
      flags [17, 18, 19, 20, 21, 22, 23, 24] ++
      [{ bit := 32, len := 2, validator := .readonly },
        { bit := 34, len := 2, validator := .readonly }] ++
      flags [36, 37, 38, 39, 40, 41, 42, 63]
  -- extension, mxl
  | misa =>
    [{ bit := 0, len := 25, validator := .readonly },
      { bit := 62, len := 2, validator := .readonly }]
  | medeleg => flags [0, 1, 2, 3, 4, 5, 6, 7, 8, 9, 11, 12, 13, 15]
  -- ssip, stip, seip
  | mideleg => flags [1, 5, 9]
  | mie => flags [0, 1, 2, 3, 4, 5, 6, 7, 8, 9, 10, 11, 12, 13]
  -- mode, whose validator looks at three bits, and base
  | mtvec => [{ bit := 0, len := 2, validator := .range 0 2 0 1 }, { bit := 2, len := 62 }]
  | mcountinhibit => whole .readonly
  | mscratch => whole
  | mepc => whole
  -- cause, interrupt_flag
  | mcause => [{ bit := 0, len := 63 }, { bit := 63, len := 1 }]
  | mtval => whole
  | mip => flags [0, 1, 2, 3, 4, 5, 6, 7, 8, 9, 10, 11, 12, 13]
  | mcycle => whole
  | minstret => whole
  | mvendorid => whole .readonly
  | marchid => whole .readonly
  | mimpid => whole .readonly
  | mhartid => whole .readonly

/-- The register a shadow register is a view of. -/
def shadowOf : Csr → Option Csr
  | cycle => some mcycle
  | instret => some minstret
  | sstatus => some mstatus
  | sie => some mie
  | sip => some mip
  | _ => none

/-- The bits a write of `value` reaches, over all fields. -/
def validate (r : Csr) (value : WordType) : WordType :=
  r.fields.foldl (fun m f => m ||| f.writeMask value) 0

/-- The bits a shadow register shows. -/
def viewMask (r : Csr) : WordType := r.fields.foldl (fun m f => m ||| f.mask) 0

end Csr

/-! ## Privilege levels -/

inductive PrivilegeLevel where
  | U | S | V | M
  deriving DecidableEq, Repr

namespace PrivilegeLevel

def toNat : PrivilegeLevel → Nat
  | U => 0
  | S => 1
  | V => 2
  | M => 3

/-- The level as the number stored in a field. -/
def toWord (l : PrivilegeLevel) : WordType := BitVec.ofNat 64 l.toNat

instance : LE PrivilegeLevel := ⟨fun a b => a.toNat ≤ b.toNat⟩
instance : LT PrivilegeLevel := ⟨fun a b => a.toNat < b.toNat⟩
instance (a b : PrivilegeLevel) : Decidable (a ≤ b) := Nat.decLe a.toNat b.toNat
instance (a b : PrivilegeLevel) : Decidable (a < b) := Nat.decLt a.toNat b.toNat

def tryFrom (v : WordType) : Option PrivilegeLevel :=
  if v = 0 then some U
  else if v = 1 then some S
  else if v = 2 then some V
  else if v = 3 then some M
  else none

end PrivilegeLevel

open PrivilegeLevel in
/-- The first address of each range, and the level the range needs. -/
def CSR_PRIVILEGE_TABLE : List (WordType × PrivilegeLevel) :=
  [(0x000, U), (0x100, S), (0x200, V), (0x300, M),
    (0x400, U), (0x500, S), (0x580, S), (0x5C0, S), (0x600, V), (0x680, V), (0x6C0, V),
    (0x700, M), (0x780, M), (0x7A0, M), (0x7B0, M), (0x7C0, M),
    (0x800, U), (0x900, S), (0x980, S), (0x9C0, S), (0xA00, V), (0xA80, V), (0xAC0, V),
    (0xB00, M), (0xB80, M), (0xBC0, M),
    (0xC00, U), (0xC80, U), (0xCC0, U), (0xD00, S), (0xD80, S), (0xDC0, S),
    (0xE00, V), (0xE80, V), (0xEC0, V), (0xF00, M), (0xF80, M), (0xFC0, M)]

/-- The binary search: the level of the last range that starts at or below the
address. The first range starts at zero, so there is always one. -/
def csrPrivilege (addr : WordType) : PrivilegeLevel :=
  match CSR_PRIVILEGE_TABLE.reverse.find? fun e => e.1 ≤ addr with
  | some e => e.2
  | none => .U

end HereEmu
