import HereEmu.Ram
import Mathlib.Data.Option.Basic

/-!
# Virtqueues

The split virtqueue of the virtio devices: descriptor chains with indirect
tables, the available ring the driver fills and the used ring the device
fills.

The device reaches guest RAM through host pointers and not through `Ram`. A
pointer is given here by its offset from the start of the allocation, so the
memory is a function from offsets to bytes whose first `SIZE` bytes are guest
RAM, and the null pointer is the missing offset. The descriptors a slice
refers to are read from that memory each time they are looked at.

A walk along a chain has no bound of its own in the source. `takeOneRequest`
takes fuel for the turns of its loop, and answers nothing when the fuel does
not cover them.
-/

namespace HereEmu

open Lib Option

/-- The result of a loop run on fuel: missing when the fuel was too little. -/
abbrev Fuelled (α : Type) : Type := Option (Rust α)

/-- `u64::checked_sub`. -/
def subChecked (a b : WordType) : Option WordType := if b ≤ a then some (a - b) else none

/-- `u64::checked_add`. -/
def addChecked (a b : WordType) : Option WordType :=
  if a.toNat + b.toNat < 2 ^ 64 then some (a + b) else none

/-- The remainder of two host integers. Dividing by zero panics. -/
def remChecked (a b : Nat) : Rust Nat := if b = 0 then .error .overflow else .ok (a % b)

/-! ## Descriptors -/

namespace VirtQueueDescFlag

def next : BitVec 16 := 1#16
def write : BitVec 16 := 2#16
def indirect : BitVec 16 := 4#16

end VirtQueueDescFlag

structure VirtQueueDesc where
  paddr : WordType
  len : BitVec 32
  flags : BitVec 16
  next : BitVec 16
  deriving DecidableEq, Repr

/-- A slice of descriptors: where it starts and how many it has. -/
structure DescTable where
  base : Nat
  len : Nat
  deriving DecidableEq, Repr

namespace VirtQueueDesc

variable (d : VirtQueueDesc)

/-- `size_of::<VirtQueueDesc>()`. -/
def bytes : Nat := 16

/-- `align_of::<VirtQueueDesc>()`. -/
def align : Nat := 8

/-- The descriptor that lies at an offset of the memory. -/
def load (mem : Nat → BitVec 8) (a : Nat) : VirtQueueDesc where
  paddr := loadLE mem a 8
  len := loadLE mem (a + 8) 4
  flags := loadLE mem (a + 12) 2
  next := loadLE mem (a + 14) 2

def contains (flag : BitVec 16) : Bool := d.flags &&& flag == flag

/-- Where the buffer starts. The source subtracts without a check of its own. -/
def getRequestPackage : Rust Nat :=
  if d.paddr < BASE_ADDR then .error .overflow else .ok (d.paddr - BASE_ADDR).toNat

def hasNext : Bool := d.contains VirtQueueDescFlag.next

def bufferInRam : Bool :=
  match subChecked d.paddr BASE_ADDR with
  | none => false
  | some offset => (addChecked offset (d.len.setWidth 64)).any fun e => e.toNat ≤ SIZE

/-- The table an indirect descriptor refers to, when `get_indirect` accepts it. -/
def indirectTable : Option DescTable := do
  let tableLen := d.len.toNat / bytes
  guard (d.len.toNat % bytes = 0 ∧ tableLen ≠ 0)
  let offset ← subChecked d.paddr BASE_ADDR
  guard (d.paddr.toNat % align = 0)
  let e ← addChecked offset (d.len.setWidth 64)
  guard (e.toNat ≤ SIZE)
  return ⟨offset.toNat, tableLen⟩

end VirtQueueDesc

/-- The bounds-checked index into a slice. -/
def DescTable.get (t : DescTable) (mem : Nat → BitVec 8) (i : Nat) : Rust VirtQueueDesc :=
  if i < t.len then .ok (.load mem (t.base + VirtQueueDesc.bytes * i)) else .error .outOfBounds

structure VirtQueueDescHandle where
  table : DescTable
  idx : Nat
  remaining : Nat
  deriving DecidableEq, Repr

namespace VirtQueueDescHandle

def new (table queueNum idx : Nat) : VirtQueueDescHandle := ⟨⟨table, queueNum⟩, idx, queueNum⟩

/-- Switches to the table of the current descriptor; missing when it is refused. -/
def getIndirect (mem : Nat → BitVec 8) (h : VirtQueueDescHandle) :
    Rust (Option VirtQueueDescHandle) := do
  let desc ← h.table.get mem h.idx
  return desc.indirectTable.map fun table => ⟨table, 0, table.len⟩

def getEntryIdx (h : VirtQueueDescHandle) : BitVec 32 := BitVec.ofNat 32 h.idx

/-- The second half of `try_get`: the current descriptor, and the step to the
next one. -/
def advance (mem : Nat → BitVec 8) (h : VirtQueueDescHandle) :
    Rust (Option VirtQueueDesc × VirtQueueDescHandle) := do
  let cur ← h.table.get mem h.idx
  if h.remaining = 0 then .error .overflow
  let idx := if cur.hasNext then cur.next.toNat else h.table.len
  if cur.bufferInRam then return (some cur, ⟨h.table, idx, h.remaining - 1⟩)
  else return (none, ⟨h.table, idx, 0⟩)

def tryGet (mem : Nat → BitVec 8) (h : VirtQueueDescHandle) :
    Rust (Option VirtQueueDesc × VirtQueueDescHandle) := do
  if h.idx < h.table.len ∧ h.remaining ≠ 0 then
    let cur ← h.table.get mem h.idx
    if cur.contains VirtQueueDescFlag.indirect then
      match ← h.getIndirect mem with
      | none => return (none, { h with remaining := 0 })
      | some h => h.advance mem
    else h.advance mem
  else return (none, h)

end VirtQueueDescHandle

/-! ## The rings -/

/-! The available ring: flags, index, then an entry of two bytes for each slot. -/

namespace VirtQueueAvail

variable (mem : Nat → BitVec 8)

def idx (avail : Nat) : BitVec 16 := loadLE mem (avail + 2) 2

def ring (avail queueNum i : Nat) : Rust (BitVec 16) :=
  if i < queueNum then .ok (loadLE mem (avail + 4 + 2 * i) 2) else .error .outOfBounds

/-- The next head the driver made available, and the index after it. -/
def tryGetDescIdx (avail queueNum : Nat) (lastAvailIdx : BitVec 16) :
    Rust (Option (BitVec 16) × BitVec 16) := do
  if lastAvailIdx = idx mem avail then return (none, lastAvailIdx)
  let ringIdx ← remChecked lastAvailIdx.toNat queueNum
  return (some (← ring mem avail queueNum ringIdx), lastAvailIdx + 1)

end VirtQueueAvail

structure VirtQueueUsedElem where
  id : BitVec 32
  len : BitVec 32
  deriving DecidableEq, Repr

/-! The used ring: flags, index, then an element of eight bytes for each slot. -/

namespace VirtQueueUsed

def idx (mem : Nat → BitVec 8) (used : Nat) : BitVec 16 := loadLE mem (used + 2) 2

def setElem (mem : Nat → BitVec 8) (used i : Nat) (elem : VirtQueueUsedElem) : Nat → BitVec 8 :=
  storeLE (storeLE mem (used + 4 + 8 * i) 4 elem.id) (used + 4 + 8 * i + 4) 4 elem.len

/-- The element goes in first, then the index is published. -/
def insertUsed (mem : Nat → BitVec 8) (used queueNum : Nat) (elem : VirtQueueUsedElem) :
    Rust (Nat → BitVec 8) := do
  let oldIdx := idx mem used
  let ringIdx ← remChecked oldIdx.toNat queueNum
  if queueNum ≤ ringIdx then .error .outOfBounds
  return storeLE (setElem mem used ringIdx elem) (used + 2) 2 (oldIdx + 1)

end VirtQueueUsed

/-- A used-ring update that is made once the request is done. -/
structure VirtQueueCompletion where
  usedRing : Nat
  queueNum : BitVec 32
  entryIdx : BitVec 32
  deriving DecidableEq, Repr

def VirtQueueCompletion.complete (c : VirtQueueCompletion) (mem : Nat → BitVec 8)
    (len : BitVec 32) : Rust (Nat → BitVec 8) :=
  VirtQueueUsed.insertUsed mem c.usedRing c.queueNum.toNat ⟨c.entryIdx, len⟩

/-! ## The queue -/

structure VirtQueue where
  queueNum : BitVec 32
  lastAvailIdx : BitVec 16
  descPaddr : WordType
  desc : Option Nat
  availPaddr : WordType
  avail : Option Nat
  usedPaddr : WordType
  used : Option Nat
  deriving DecidableEq, Repr

namespace VirtQueue

variable (q : VirtQueue) (queueNum : BitVec 32)

def new : VirtQueue := ⟨queueNum, 0, 0, none, 0, none, 0, none⟩

def reset (_ : VirtQueue) : VirtQueue := new 0

/-- The pointer to `len` bytes at a guest address, when they are aligned and in RAM. -/
def guestRamPtr (paddr : WordType) (len align : Nat) : Option Nat := do
  let offset ← subChecked paddr BASE_ADDR
  guard (paddr.toNat % align = 0)
  let e ← addChecked offset (BitVec.ofNat 64 len)
  guard (e.toNat ≤ SIZE)
  return offset.toNat

/-- The bytes the descriptor table takes up. -/
def descBytes : Nat := queueNum.toNat * VirtQueueDesc.bytes

/-- The bytes the available ring takes up. -/
def availBytes : Nat := 4 + queueNum.toNat * 2

/-- The bytes the used ring takes up. -/
def usedBytes : Nat := 4 + queueNum.toNat * 8

def setDesc (addr : WordType) : VirtQueue :=
  { q with descPaddr := addr, desc := guestRamPtr addr (descBytes q.queueNum) VirtQueueDesc.align }

def setAvail (addr : WordType) : VirtQueue :=
  { q with availPaddr := addr, avail := guestRamPtr addr (availBytes q.queueNum) 2 }

def setUsed (addr : WordType) : VirtQueue :=
  { q with usedPaddr := addr, used := guestRamPtr addr (usedBytes q.queueNum) 4 }

/-- Only the size: the pointers stay as they were. -/
def setQueueNum (num : BitVec 32) : VirtQueue := { q with queueNum := num }

def ready : Bool :=
  q.queueNum != 0 && q.desc.isSome && q.avail.isSome && q.used.isSome

/-- What `take_one_request` has in hand once it has consumed an entry. -/
structure Taken where
  handle : VirtQueueDescHandle
  completion : VirtQueueCompletion
  deriving DecidableEq, Repr

/-- The first half of `take_one_request` with `try_get_desc`: a queue that is
not ready and an empty ring give nothing, otherwise the next entry is
consumed. The test for null pointers makes the `unwrap` of the source total. -/
def takeEntry (mem : Nat → BitVec 8) : Rust (Option Taken × VirtQueue) :=
  match q.desc, q.avail, q.used with
  | some desc, some avail, some used =>
    if q.queueNum = 0 then .ok (none, q)
    else do
      let (head, lastAvailIdx) ←
        VirtQueueAvail.tryGetDescIdx mem avail q.queueNum.toNat q.lastAvailIdx
      let q := { q with lastAvailIdx }
      return (head.map fun head =>
        let handle := .new desc q.queueNum.toNat head.toNat
        ⟨handle, ⟨used, q.queueNum, handle.getEntryIdx⟩⟩, q)
  | _, _, _ => .ok (none, q)

/-- The loop of `take_one_request`: `func` is called with each descriptor of the
chain and its number. -/
def walk {σ : Type} (mem : Nat → BitVec 8) (func : σ → VirtQueueDesc → Nat → Rust σ) :
    Nat → VirtQueueDescHandle → Nat → σ → Fuelled σ
  | 0, _, _, _ => none
  | fuel + 1, handle, idx, s =>
    match handle.tryGet mem with
    | .error p => some (.error p)
    | .ok (none, _) => some (.ok s)
    | .ok (some desc, handle) =>
      match func s desc idx with
      | .error p => some (.error p)
      | .ok s => walk mem func fuel handle (idx + 1) s

def takeOneRequest {σ : Type} (q : VirtQueue) (mem : Nat → BitVec 8)
    (func : σ → VirtQueueDesc → Nat → Rust σ) (s : σ) (fuel : Nat) :
    Fuelled (Option VirtQueueCompletion × VirtQueue × σ) :=
  match q.takeEntry mem with
  | .error p => some (.error p)
  | .ok (none, q) => some (.ok (none, q, s))
  | .ok (some taken, q) =>
    (walk mem func fuel taken.handle 0 s).map
      (Except.map fun s => (some taken.completion, q, s))

end VirtQueue

/-! ## What is checked -/

theorem subChecked_eq_some {a b c : WordType} : subChecked a b = some c ↔
    b.toNat ≤ a.toNat ∧ c.toNat = a.toNat - b.toNat := by
  refine ite_none_right_eq_some.trans (and_congr_right fun hle => ?_)
  rw [Option.some.injEq, ← BitVec.toNat_inj, BitVec.toNat_sub_of_le hle, eq_comm]

theorem addChecked_eq_some {a b c : WordType} :
    addChecked a b = some c ↔ c.toNat = a.toNat + b.toNat := by
  refine ite_none_right_eq_some.trans ?_
  rw [Option.some.injEq, ← BitVec.toNat_inj, BitVec.toNat_add]
  omega

theorem base_aligned : BASE_ADDR.toNat % VirtQueueDesc.align = 0 := by decide

/-- A descriptor whose buffer passes the check: all of it lies in RAM. -/
theorem VirtQueueDesc.bufferInRam_iff {d : VirtQueueDesc} : d.bufferInRam ↔
    BASE_ADDR.toNat ≤ d.paddr.toNat ∧ d.paddr.toNat - BASE_ADDR.toNat + d.len.toNat ≤ SIZE := by
  have hlen : (d.len.setWidth 64).toNat = d.len.toNat := by
    rw [BitVec.toNat_setWidth, Nat.mod_eq_of_lt (by omega)]
  unfold bufferInRam
  constructor
  · intro h
    split at h
    · cases h
    · next offset hsub =>
        obtain ⟨hle, hoff⟩ := subChecked_eq_some.1 hsub
        obtain ⟨e, hadd, he⟩ := (any_eq_true _ _).1 h
        have hsum := addChecked_eq_some.1 hadd
        rw [hlen, hoff] at hsum
        exact ⟨hle, by simpa [hsum] using he⟩
  · rintro ⟨hle, hend⟩
    have hoff : (d.paddr - BASE_ADDR).toNat = d.paddr.toNat - BASE_ADDR.toNat :=
      BitVec.toNat_sub_of_le hle
    have hsub : subChecked d.paddr BASE_ADDR = some (d.paddr - BASE_ADDR) := if_pos hle
    have hlt : d.paddr.toNat - BASE_ADDR.toNat + d.len.toNat < 2 ^ 64 :=
      Nat.lt_of_le_of_lt hend (by decide)
    simp only [hsub, addChecked, hoff, hlen, if_pos hlt, any_some, BitVec.toNat_add,
      Nat.mod_eq_of_lt hlt, hend, decide_true]

/-- A table that is all in RAM and starts on a multiple of eight. -/
structure DescTable.InRam (t : DescTable) : Prop where
  fits : t.base + VirtQueueDesc.bytes * t.len ≤ SIZE
  aligned : t.base % VirtQueueDesc.align = 0

theorem VirtQueueDesc.indirectTable_inRam {d : VirtQueueDesc} {t : DescTable}
    (h : d.indirectTable = some t) : t.InRam ∧ t.len ≠ 0 := by
  have hlen : (d.len.setWidth 64).toNat = d.len.toNat := by
    rw [BitVec.toNat_setWidth, Nat.mod_eq_of_lt (by omega)]
  simp only [indirectTable, bind_eq_bind, bind_eq_some_iff, guard_eq_some',
    pure_def, Option.some.injEq] at h
  obtain ⟨_, ⟨hmod, hne⟩, offset, hsub, _, halign, e, hadd, _, hend, rfl⟩ := h
  obtain ⟨hle, hoff⟩ := subChecked_eq_some.1 hsub
  have hsum := addChecked_eq_some.1 hadd
  rw [hlen] at hsum
  have hbase := base_aligned
  refine ⟨⟨?_, ?_⟩, hne⟩
  · have := Nat.div_mul_le_self d.len.toNat bytes
    show offset.toNat + bytes * (d.len.toNat / bytes) ≤ SIZE
    rw [Nat.mul_comm]
    omega
  · show offset.toNat % align = 0
    rw [hoff]
    exact Nat.sub_mod_eq_zero_of_mod_eq (by rw [halign, hbase])

theorem toNat_pos_of_ne_zero {num : BitVec 32} (h : num ≠ 0) : 0 < num.toNat :=
  Nat.pos_of_ne_zero fun hzero => h (BitVec.eq_of_toNat_eq hzero)

/-- A free-running index in a ring that has a slot. -/
theorem remChecked_ok {num : BitVec 32} (h : num ≠ 0) (a : Nat) :
    remChecked a num.toNat = .ok (a % num.toNat) := if_neg (Nat.ne_of_gt (toNat_pos_of_ne_zero h))

/-- The entry the driver made available next, in a ring that has a slot. -/
theorem VirtQueueAvail.tryGetDescIdx_eq {num : BitVec 32} (hnum : num ≠ 0) (mem : Nat → BitVec 8)
    (avail : Nat) (last : BitVec 16) :
    tryGetDescIdx mem avail num.toNat last = .ok (if last = idx mem avail then (none, last)
      else (some (loadLE mem (avail + 4 + 2 * (last.toNat % num.toNat)) 2), last + 1)) := by
  have hlt := Nat.mod_lt last.toNat (toNat_pos_of_ne_zero hnum)
  unfold tryGetDescIdx
  split
  · rfl
  · simp only [remChecked_ok hnum, ring, if_pos hlt, bind, Except.bind, pure, Except.pure]

/-- The byte lies in a used ring. -/
def VirtQueueCompletion.InRing (c : VirtQueueCompletion) (j : Nat) : Prop :=
  c.usedRing ≤ j ∧ j < c.usedRing + VirtQueue.usedBytes c.queueNum

/-- An insertion into a ring that has a slot, and what it writes: the element
at the slot of the index, then the index. -/
theorem VirtQueueCompletion.complete_eq {c : VirtQueueCompletion} (hnum : c.queueNum ≠ 0)
    (mem : Nat → BitVec 8) (len : BitVec 32) :
    c.complete mem len = .ok (storeLE
      (VirtQueueUsed.setElem mem c.usedRing
        ((VirtQueueUsed.idx mem c.usedRing).toNat % c.queueNum.toNat) ⟨c.entryIdx, len⟩)
      (c.usedRing + 2) 2 (VirtQueueUsed.idx mem c.usedRing + 1)) := by
  have hlt := Nat.mod_lt (VirtQueueUsed.idx mem c.usedRing).toNat (toNat_pos_of_ne_zero hnum)
  simp only [complete, VirtQueueUsed.insertUsed, remChecked_ok hnum, bind, Except.bind,
    if_neg (Nat.not_le.2 hlt), pure, Except.pure]

theorem VirtQueueCompletion.complete_frame {c : VirtQueueCompletion} {mem mem' : Nat → BitVec 8}
    {len : BitVec 32} {j : Nat} (h : c.complete mem len = .ok mem') (hj : ¬ c.InRing j) :
    mem' j = mem j := by
  by_cases hnum : c.queueNum = 0
  · simp [complete, VirtQueueUsed.insertUsed, remChecked, hnum, bind, Except.bind] at h
  · rw [complete_eq hnum] at h
    cases h
    have hlt := Nat.mod_lt (VirtQueueUsed.idx mem c.usedRing).toNat (toNat_pos_of_ne_zero hnum)
    unfold InRing VirtQueue.usedBytes at hj
    unfold VirtQueueUsed.setElem
    rw [storeLE_outside (by omega), storeLE_outside (by omega), storeLE_outside (by omega)]

theorem VirtQueue.guestRamPtr_eq_some {paddr : WordType} {len align offset : Nat}
    (hlen : len < 2 ^ 64) (h : guestRamPtr paddr len align = some offset) :
    BASE_ADDR.toNat ≤ paddr.toNat ∧ offset = paddr.toNat - BASE_ADDR.toNat ∧
      paddr.toNat % align = 0 ∧ offset + len ≤ SIZE := by
  simp only [guestRamPtr, bind_eq_bind, bind_eq_some_iff, guard_eq_some',
    pure_def, Option.some.injEq] at h
  obtain ⟨o, hsub, _, halign, e, hadd, _, hend, rfl⟩ := h
  obtain ⟨hle, hoff⟩ := subChecked_eq_some.1 hsub
  have hsum := addChecked_eq_some.1 hadd
  rw [BitVec.toNat_ofNat, Nat.mod_eq_of_lt hlen] at hsum
  exact ⟨hle, hoff, halign, hsum ▸ hend⟩

end HereEmu
