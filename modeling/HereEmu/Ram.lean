import HereEmu.Basic
import HereEmu.Lib.ByteMemory

/-!
# RAM

Guest RAM, addressed by offset from `BASE_ADDR`, with the one reservation that
LR and SC share. Host memory is assumed to start on an eight-byte boundary, so
the alignment test the source makes on the host pointer is a test on the
offset.
-/

namespace HereEmu

open Lib

/-- The doubleword an LR reserved. -/
structure Reservation where
  reservationSetId : WordType
  deriving DecidableEq, Repr

namespace Reservation

def new (addr : WordType) : Reservation := ⟨addr >>> 3⟩

def inTheSameReservationSet (r : Reservation) (addr : WordType) : Bool :=
  r.reservationSetId == addr >>> 3

end Reservation

structure Ram where
  data : Nat → BitVec 8
  reserved : Option Reservation

namespace Ram

variable (ram : Ram)

def new : Ram := ⟨fun _ => 0, none⟩

def containsAccess (w : Width) (addr : WordType) : Bool := addr.toNat + w.bytes ≤ SIZE

def read (w : Width) (addr : WordType) : Except MemError WordType :=
  if !containsAccess w addr then .error .loadFault
  else if checkAlign w addr then .ok (loadLE ram.data addr.toNat w.bytes)
  else .error .loadMisaligned

def loadReserved (w : Width) (addr : WordType) : Except MemError WordType × Ram :=
  match ram.read w addr with
  | .error e => (.error e, ram)
  | .ok data => (.ok data, { ram with reserved := some (.new addr) })

def clearReservation : Ram := { ram with reserved := none }

/-- Drops the reservation when `addr` lies in the reserved doubleword. -/
def tryInvalidateReservation (addr : WordType) : Ram :=
  if ram.reserved.any (·.inTheSameReservationSet addr) then ram.clearReservation else ram

def write (w : Width) (addr data : WordType) : Except MemError Unit × Ram :=
  if !containsAccess w addr then (.error .storeFault, ram)
  else
    -- The reservation goes first: a misaligned store drops it and then fails.
    let ram := ram.tryInvalidateReservation addr
    if checkAlign w addr then
      (.ok (), { ram with data := storeLE ram.data addr.toNat w.bytes data })
    else (.error .storeMisaligned, ram)

def storeConditional (w : Width) (addr data : WordType) : Except MemError Bool × Ram :=
  if addr.toNat ≥ SIZE then (.error .storeFault, ram.clearReservation)
  else if ram.reserved.any (·.inTheSameReservationSet addr) then
    match ram.write w addr data with
    | (.error e, ram) => (.error e, ram)
    | (.ok (), ram) => (.ok true, ram)
  else (.ok false, ram.clearReservation)

/-! ## What the operations leave alone -/

variable {ram ram' : Ram} {w : Width} {addr data : WordType}

/-- A read depends on the bytes it covers. -/
theorem read_congr (h : ∀ j, addr.toNat ≤ j → j < addr.toNat + w.bytes →
    ram.data j = ram'.data j) : ram.read w addr = ram'.read w addr := by
  unfold read
  rw [loadLE_congr h]

theorem read_eq_ok {v : WordType} (h : ram.read w addr = .ok v) :
    addr.toNat + w.bytes ≤ SIZE ∧ addr.toNat % w.bytes = 0 ∧
      v = loadLE ram.data addr.toNat w.bytes := by
  unfold read containsAccess checkAlign at h
  split at h
  · cases h
  · next hc =>
      split at h
      · next ha =>
          cases h
          exact ⟨by simpa using hc, by simpa using ha, rfl⟩
      · cases h

theorem read_of_mem (ram : Ram) (w : Width) (addr : WordType) (hc : addr.toNat + w.bytes ≤ SIZE)
    (ha : addr.toNat % w.bytes = 0) :
    ram.read w addr = .ok (loadLE ram.data addr.toNat w.bytes) := by
  simp [read, containsAccess, checkAlign, hc, ha]

/-- Whether a read succeeds does not depend on the contents of RAM. -/
theorem read_error_iff (ram' : Ram) {e : MemError} : ram.read w addr = .error e ↔
    ram'.read w addr = .error e := by
  unfold read
  split <;> [skip; split] <;> simp

@[simp] theorem tryInvalidateReservation_data :
    (ram.tryInvalidateReservation addr).data = ram.data := by
  unfold tryInvalidateReservation
  split <;> rfl

@[simp] theorem loadReserved_data : (ram.loadReserved w addr).2.data = ram.data := by
  unfold loadReserved
  split <;> rfl

end Ram

end HereEmu
