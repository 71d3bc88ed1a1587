import HereEmu.Lib.Exec
import Mathlib.Algebra.Group.Int.Defs
import Mathlib.Algebra.Group.Nat.Defs
import Mathlib.Tactic.Common

/-!
# Words, widths and panics

The emulator is modelled for its 64-bit configuration: `WordType` is a 64-bit
word, and guest RAM is `SIZE` bytes mapped at `BASE_ADDR`.

A Rust function that can panic is modelled in `Rust`, where an error is the
place the panic comes from. Panics are outcomes and not values the guest can
see: nothing in the model catches one. The development profile is assumed, so
integer overflow is a panic as well. Everything a guest can observe (a
`MemError`, an `Exception`) is an ordinary result inside `Rust`.
-/

namespace HereEmu

open BitVec

abbrev WordType := BitVec 64

/-- The physical address of the first byte of RAM. -/
def BASE_ADDR : WordType := 0x80000000#64

/-- The size of RAM in bytes. -/
def SIZE : Nat := 0x20000000

/-- The reset value of the program counter. -/
def DEFAULT_PC_VALUE : WordType := BASE_ADDR

/-- The unsigned types a memory access can be made at. Values of every one of
them are held zero-extended in a `WordType`. -/
inductive Width where
  | u8 | u16 | u32 | u64
  deriving DecidableEq, Repr

namespace Width

/-- The size of the type in bytes. -/
def bytes : Width → Nat
  | u8 => 1
  | u16 => 2
  | u32 => 4
  | u64 => 8

def bits (w : Width) : Nat := 8 * w.bytes

theorem bytes_pos (w : Width) : 0 < w.bytes := by cases w <;> decide

/-- The conversion to the type from a 64-bit word. -/
def truncate (w : Width) (v : WordType) : WordType := v &&& BitVec.ofNat 64 (2 ^ w.bits - 1)

end Width

/-- Whether an address is a multiple of the size of the type. -/
def checkAlign (w : Width) (addr : WordType) : Bool := addr.toNat % w.bytes == 0

/-- Sign extension of the low `fromBits` bits. -/
def signExtend (v : WordType) (fromBits : Nat) : WordType :=
  (v <<< (64 - fromBits)).sshiftRight (64 - fromBits)

theorem signExtend_eq {v : WordType} {b : Nat} (h0 : 0 < b) (hb : b ≤ 64) :
    signExtend v b = (v.setWidth b).signExtend 64 := by
  refine eq_of_getLsbD_eq fun i hi => ?_
  simp only [signExtend, getLsbD_sshiftRight, getLsbD_signExtend,
    getLsbD_shiftLeft, getLsbD_setWidth, msb_eq_getLsbD_last]
  by_cases hlt : i < b
  · have h1 : 64 - b + i < 64 := by omega
    have h2 : ¬ (64 - b + i < 64 - b) := by omega
    have h3 : 64 - b + i - (64 - b) = i := by omega
    simp [hi, hlt, h1, h2, h3]
  · have h1 : ¬ (64 - b + i < 64) := by omega
    have h2 : ¬ ((64 : Nat) - 1 < 64 - b) := by omega
    have h3 : 64 - 1 - (64 - b) = b - 1 := by omega
    have h4 : b - 1 < b := by omega
    simp [hi, hlt, h1, h2, h3, h4]

/-- Testing one bit by a mask. -/
theorem bit_ne_zero {w k : Nat} (x : BitVec w) (hk : k < w) :
    (x &&& 1#w <<< k != 0) = x.getLsbD k := by
  rw [← twoPow_eq, and_twoPow]
  cases x.getLsbD k with
  | false => rfl
  | true =>
    refine bne_iff_ne.2 fun hzero => ?_
    have hbit := congrArg (getLsbD · k) hzero
    simp [hk] at hbit

def isSignExtended (v : WordType) (bits : Nat) : Bool := v == signExtend v bits

/-- Where a panic comes from. -/
inductive PanicSite where
  /-- The delegation test met an interrupt it has no branch for. -/
  | isInterruptDelegated
  /-- The scan for a pending interrupt ended without one. -/
  | hasInterrupt
  /-- An unknown interrupt or exception was turned into its number. -/
  | trapNumber
  /-- The trap vector has a reserved mode, or its sum overflows. -/
  | nextPcByTvec
  /-- `mret` or `sret` met a field that is no privilege level. -/
  | xret
  /-- A field setter was given a value too large for its field. -/
  | fieldSetter
  /-- A register the trap machinery needs is missing from the table. -/
  | missingCsr
  /-- The data-access privilege of the current state is undefined. -/
  | dataAccessPrivilege
  /-- The fetch policy of the current state is undefined. -/
  | ifetchPolicy
  /-- Fetching an instruction once more, to report it as illegal, failed. -/
  | illegalRefetch
  /-- A store error was reported for an instruction fetch. -/
  | instrFetchErr
  /-- `satp.MODE` is not a mode the walker knows. -/
  | setMode
  /-- A walk was started in a mode that has no page table. -/
  | walkMode
  /-- Checked arithmetic overflowed. -/
  | overflow
  /-- An index is out of bounds. -/
  | outOfBounds
  /-- An instruction was decoded with operands of another format. -/
  | instrInfo
  /-- `ecall` in a mode that has no environment call. -/
  | ecall
  /-- An instruction ended with a trap value nobody took. -/
  | pendingTval
  /-- An interrupt line has no register bit behind it. -/
  | handleIrq
  /-- A branch of the source that is still to be written. -/
  | unimplemented
  /-- A device model panicked. -/
  | device
  deriving DecidableEq, Repr

/-- A computation of the host that may panic. -/
abbrev Rust (α : Type) : Type := Except PanicSite α

/-- What a physical or translated access can report. -/
inductive MemError where
  | loadPageFault
  | loadMisaligned
  | loadFault
  | storePageFault
  | storeMisaligned
  | storeFault
  deriving DecidableEq, Repr

end HereEmu
