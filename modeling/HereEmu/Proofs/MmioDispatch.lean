import Mathlib.Data.List.Pairwise
import Mathlib.Order.CompletePartialOrder
import Mathlib.Order.Interval.Set.Disjoint
import HereEmu.Device.MmioSearch

/-!
# Where a physical access goes

The regions of the devices are disjoint, but they are found by their start
addresses alone: the search takes the last region that starts at or below the
address and looks at its end only afterwards. That is right because no other
region can reach the address from below. An empty region would break it. It has
no address of its own, yet it can be the last one to start.

As the bus is any, an equation with one call of a device on its right says that
this call is made and no other.
-/

namespace HereEmu

open Lib BitVec

/-! ## The search finds the last region that starts at or below the address -/

theorem MemoryMapItem.compareTo_ne_gt (item : MemoryMapItem) (p : WordType) :
    (item.compareTo p != .gt) = decide (item.start ≤ p) := by
  unfold compareTo
  split
  · next hlt => rw [decide_eq_false (BitVec.not_le.2 hlt)]; rfl
  · next hle =>
      rw [decide_eq_true (BitVec.not_lt.1 hle)]
      split <;> rfl

/-- The order `from_mmio_items` gives the regions. -/
def DeviceBus.Sorted (B : DeviceBus) : Prop := B.map.Pairwise fun a b => a.start ≤ b.start

namespace DeviceBus

variable {B : DeviceBus} {p : WordType}

theorem sorted_fromMmioItems (B : DeviceBus) (items : List MemoryMapItem) :
    (B.fromMmioItems items).Sorted := by
  have htrans : ∀ a b c : MemoryMapItem, decide (a.start ≤ b.start) →
      decide (b.start ≤ c.start) → decide (a.start ≤ c.start) := by
    intro a b c
    simp only [decide_eq_true_eq]
    exact BitVec.le_trans
  have htotal : ∀ a b : MemoryMapItem,
      (decide (a.start ≤ b.start) || decide (b.start ≤ a.start)) := by
    intro a b
    simp only [Bool.or_eq_true, decide_eq_true_eq]
    exact BitVec.le_total _ _
  exact (List.pairwise_mergeSort htrans htotal items).imp of_decide_eq_true

theorem mem_fromMmioItems {items : List MemoryMapItem} {item : MemoryMapItem} :
    item ∈ (B.fromMmioItems items).map ↔ item ∈ items :=
  (List.mergeSort_perm items _).mem_iff

theorem search_cases (hsorted : B.Sorted) (p : WordType) :
    (binarySearchBy (·.compareTo p) B.map = .error 0 ∧ B.deviceAt p = none) ∨
    ∃ i, ∃ h : i < B.map.length,
      (binarySearchBy (·.compareTo p) B.map = .ok i ∨
        binarySearchBy (·.compareTo p) B.map = .error (i + 1)) ∧
      B.deviceAt p = some B.map[i] := by
  have hle : ∀ item : MemoryMapItem, item.compareTo p = .gt ↔ ¬item.start ≤ p := by
    intro item
    have h := item.compareTo_ne_gt p
    rw [← decide_eq_false_iff_not, ← h, bne_eq_false_iff_eq]
  have hmono : B.map.Pairwise fun a b => a.compareTo p = .gt → b.compareTo p = .gt := by
    refine hsorted.imp fun hab ha => ?_
    rw [hle] at ha ⊢
    exact fun hb => ha (BitVec.le_trans hab hb)
  have hfind := find?_reverse_of_binarySearchBy hmono
  simp only [MemoryMapItem.compareTo_ne_gt, predecessor_eq_none, predecessor_eq_some] at hfind
  exact hfind

end DeviceBus

namespace MemoryMapIo

variable {B : DeviceBus}

/-- The accesses of the CPU are those of the search. -/
theorem readBySearch_eq (hsorted : B.Sorted) (m : MemoryMapIo B) (w : Width) (p : WordType) :
    m.readBySearch w p = m.readByType w p := by
  rw [readBySearch, readByType]
  split
  · rfl
  · rcases DeviceBus.search_cases hsorted p with ⟨hnone, hat⟩ | ⟨i, hi, hsome, hat⟩
    · rw [hnone, hat]
    · have hread : m.readFromDeviceIndex i w p = m.readFromDevice B.map[i] w p := by
        rw [readFromDeviceIndex, List.getElem?_eq_getElem hi]
      rcases hsome with hsome | hsome <;> rw [hsome, hat] <;> exact hread

theorem writeBySearch_eq (hsorted : B.Sorted) (m : MemoryMapIo B) (w : Width)
    (p data : WordType) : m.writeBySearch w p data = m.writeByType w p data := by
  rw [writeBySearch, writeByType]
  split
  · rfl
  · rcases DeviceBus.search_cases hsorted p with ⟨hnone, hat⟩ | ⟨i, hi, hsome, hat⟩
    · rw [hnone, hat]
    · have hwrite : m.writeToDeviceIndex i w p data = m.writeToDevice B.map[i] w p data := by
        rw [writeToDeviceIndex, List.getElem?_eq_getElem hi]
      rcases hsome with hsome | hsome <;> rw [hsome, hat] <;> exact hwrite

end MemoryMapIo

/-! ## Regions -/

namespace MemoryMapItem

/-- The addresses of a region. -/
def range (item : MemoryMapItem) : Set Nat :=
  Set.Ico item.start.toNat (item.start.toNat + item.size.toNat)

/-- Every byte of an access lies in the region. -/
def Covers (item : MemoryMapItem) (w : Width) (p : WordType) : Prop :=
  item.start.toNat ≤ p.toNat ∧ p.toNat + w.bytes ≤ item.start.toNat + item.size.toNat

variable {item : MemoryMapItem}

theorem canAccess_iff {w : Width} {p : WordType} : item.canAccess w p ↔ item.Covers w p := by
  rw [canAccess, Bool.and_eq_true, decide_eq_true_eq, decide_eq_true_eq, Covers, le_def]
  refine and_congr_right fun hle => ?_
  rw [toNat_sub_of_le (le_def.2 hle)]
  omega

theorem Covers.mem_range {w : Width} {p : WordType} (h : item.Covers w p) : p.toNat ∈ item.range :=
  ⟨h.1, by have := w.bytes_pos; have := h.2; omega⟩

theorem start_mem_range (h : item.size ≠ 0) : item.start.toNat ∈ item.range := by
  have hpos : item.size.toNat ≠ 0 := fun h0 => h (eq_of_toNat_eq h0)
  exact ⟨Nat.le_refl _, by omega⟩

/-- One region ends before the other starts. -/
def Apart (a b : MemoryMapItem) : Prop :=
  a.start.toNat + a.size.toNat ≤ b.start.toNat ∨ b.start.toNat + b.size.toNat ≤ a.start.toNat
  deriving Decidable

theorem Apart.symm {a b : MemoryMapItem} (h : a.Apart b) : b.Apart a := Or.symm h

theorem Apart.disjoint {a b : MemoryMapItem} (h : a.Apart b) : Disjoint a.range b.range := by
  refine Set.disjoint_left.2 fun n ha hb => ?_
  have hlt := ha.2
  have hle := ha.1
  have hlt' := hb.2
  have hle' := hb.1
  rcases h with h | h <;> omega

end MemoryMapItem

/-- A list of regions as the devices of a board have them: nonempty, disjoint
and below RAM. -/
structure WellPlaced (items : List MemoryMapItem) : Prop where
  disjoint : items.Pairwise fun a b => Disjoint a.range b.range
  nonempty : ∀ item ∈ items, item.size ≠ 0
  below : ∀ item ∈ items, item.start.toNat + item.size.toNat ≤ BASE_ADDR.toNat

namespace WellPlaced

variable {items : List MemoryMapItem} {item other : MemoryMapItem} {w : Width} {p : WordType}

theorem eq_of_mem_range (h : WellPlaced items) (hitem : item ∈ items) (hother : other ∈ items)
    {n : Nat} (hn : n ∈ item.range) (hn' : n ∈ other.range) : item = other := by
  by_contra hne
  have : Std.Symm fun a b : MemoryMapItem => Disjoint a.range b.range := ⟨fun _ _ h => h.symm⟩
  have hdisj := h.disjoint.forall hitem hother hne
  exact Set.disjoint_left.1 hdisj hn hn'

/-- The region that holds the first byte of an access is the last to start at or
below it: one that starts later would start inside it. -/
theorem deviceAt_eq (h : WellPlaced items) (B : DeviceBus) (hitem : item ∈ items)
    (hp : p.toNat ∈ item.range) : (B.fromMmioItems items).deviceAt p = some item := by
  have hle : item.start ≤ p := le_def.2 hp.1
  have hmap : item ∈ (B.fromMmioItems items).map := DeviceBus.mem_fromMmioItems.2 hitem
  cases hfind : (B.fromMmioItems items).deviceAt p with
  | none =>
    have := List.find?_eq_none.1 hfind item (List.mem_reverse.2 hmap)
    exact absurd (decide_eq_true hle) this
  | some other =>
    have hother : other ∈ items :=
      DeviceBus.mem_fromMmioItems.1 (List.mem_reverse.1 (List.mem_of_find?_eq_some hfind))
    have hstart : other.start ≤ p := by
      have := List.find?_some (p := fun item : MemoryMapItem => decide (item.start ≤ p)) hfind
      exact of_decide_eq_true this
    rcases of_find?_reverse_eq_some (B.sorted_fromMmioItems items) hfind hmap
      (decide_eq_true hle) with rfl | hlater
    · rfl
    · have hmem : other.start.toNat ∈ item.range :=
        ⟨le_def.1 hlater, Nat.lt_of_le_of_lt (le_def.1 hstart) hp.2⟩
      rw [h.eq_of_mem_range hitem hother hmem
        (MemoryMapItem.start_mem_range (h.nonempty other hother))]

/-- An access that no region covers does not fit into the region that is found. -/
theorem not_canAccess (B : DeviceBus) (hnone : ∀ item ∈ items, ¬item.Covers w p)
    (hat : (B.fromMmioItems items).deviceAt p = some item) : item.canAccess w p = false := by
  have hitem : item ∈ items :=
    DeviceBus.mem_fromMmioItems.1 (List.mem_reverse.1 (List.mem_of_find?_eq_some hat))
  exact Bool.eq_false_iff.2 fun hcan => hnone item hitem (MemoryMapItem.canAccess_iff.1 hcan)

end WellPlaced

/-! ## The law -/

namespace MemoryMapIo

variable {B : DeviceBus} (m : MemoryMapIo B) (w : Width)

/-- The one call of a device that a read makes, and what becomes of its answer. -/
def callRead (item : MemoryMapItem) (offset : WordType) :
    Rust (Except MemError WordType × MemoryMapIo B) :=
  match B.read item.device offset w.bytes m.devices with
  | none => .error .device
  | some (.ok v, devices) => .ok (.ok (w.truncate v), { m with devices })
  | some (.error e, devices) => .ok (.error e.toLoad, { m with devices })

def callWrite (data : WordType) (item : MemoryMapItem)
    (offset : WordType) : Rust (Except MemError Unit × MemoryMapIo B) :=
  match B.write item.device offset w.bytes (w.truncate data) m.devices m.ram.data with
  | none => .error .device
  | some (.ok (), devices, data) => .ok (.ok (), ⟨{ m.ram with data }, devices⟩)
  | some (.error e, devices, data) => .ok (.error e.toStore, ⟨{ m.ram with data }, devices⟩)

def ramRead (offset : WordType) : Except MemError WordType × MemoryMapIo B :=
  (m.ram.read w offset, m)

def ramWrite (data offset : WordType) : Except MemError Unit × MemoryMapIo B :=
  ((m.ram.write w offset data).1, { m with ram := (m.ram.write w offset data).2 })

end MemoryMapIo

/-- The bytes of the access are bytes of RAM. -/
def InsideRam (w : Width) (p : WordType) : Prop :=
  p.toNat + w.bytes ≤ BASE_ADDR.toNat + SIZE

/-- What must become of an access to `p`: `access` is the whole of it, `onRam`
what RAM does with an offset, `call` one call of a device. -/
structure DispatchLaw {B : DeviceBus} {α : Type} (items : List MemoryMapItem) (m : MemoryMapIo B)
    (w : Width) (p : WordType) (access : Rust (Except MemError α × MemoryMapIo B))
    (onRam : WordType → Except MemError α × MemoryMapIo B)
    (call : MemoryMapItem → WordType → Rust (Except MemError α × MemoryMapIo B)) : Prop where
  ram : BASE_ADDR ≤ p → access = .ok (onRam (p - BASE_ADDR))
  ram_ok : BASE_ADDR ≤ p →
    ((∃ a, (onRam (p - BASE_ADDR)).1 = .ok a) ↔ InsideRam w p ∧ p.toNat % w.bytes = 0)
  device : p < BASE_ADDR → p.toNat % w.bytes = 0 →
    ∀ item ∈ items, item.Covers w p → access = call item (p - item.start)
  none : p < BASE_ADDR → (p.toNat % w.bytes ≠ 0 ∨ ∀ item ∈ items, ¬item.Covers w p) →
    ∃ e, access = .ok (.error e, m)

section Offset

variable {w : Width} {p : WordType}

theorem containsAccess_offset (h : BASE_ADDR ≤ p) :
    Ram.containsAccess w (p - BASE_ADDR) ↔ InsideRam w p := by
  have := le_def.1 h
  rw [Ram.containsAccess, decide_eq_true_eq, toNat_sub_of_le h, InsideRam]
  omega

theorem checkAlign_offset (h : BASE_ADDR ≤ p) :
    checkAlign w (p - BASE_ADDR) ↔ p.toNat % w.bytes = 0 := by
  have := le_def.1 h
  have hbase : BASE_ADDR.toNat = 2147483648 := rfl
  rw [checkAlign, beq_iff_eq, toNat_sub_of_le h]
  cases w <;> simp only [Width.bytes] <;> omega

end Offset

variable {w : Width} {p : WordType}

theorem Ram.read_ok_iff (ram : Ram) (h : BASE_ADDR ≤ p) :
    (∃ v, ram.read w (p - BASE_ADDR) = .ok v) ↔ InsideRam w p ∧ p.toNat % w.bytes = 0 := by
  rw [← containsAccess_offset h, ← checkAlign_offset h, Ram.read]
  cases Ram.containsAccess w (p - BASE_ADDR) <;> cases checkAlign w (p - BASE_ADDR) <;> simp

theorem Ram.write_ok_iff (ram : Ram) {data : WordType} (h : BASE_ADDR ≤ p) :
    (∃ u, (ram.write w (p - BASE_ADDR) data).1 = .ok u) ↔
      InsideRam w p ∧ p.toNat % w.bytes = 0 := by
  rw [← containsAccess_offset h, ← checkAlign_offset h, Ram.write]
  cases Ram.containsAccess w (p - BASE_ADDR) <;> cases checkAlign w (p - BASE_ADDR) <;> simp

/-- A region that is found is asked for the access when it covers it, and
otherwise nothing is asked. -/
theorem deviceAccess_law {B : DeviceBus} {α : Type} {items : List MemoryMapItem}
    (h : WellPlaced items) {m : MemoryMapIo (B.fromMmioItems items)}
    (access : Rust (Except MemError α × MemoryMapIo (B.fromMmioItems items)))
    (call : MemoryMapItem → WordType →
      Rust (Except MemError α × MemoryMapIo (B.fromMmioItems items))) {misaligned fault : MemError}
    (haccess : access = match (B.fromMmioItems items).deviceAt p with
      | none => .ok (.error fault, m)
      | some item =>
        if !checkAlign w p then .ok (.error misaligned, m)
        else if !item.canAccess w p then .ok (.error fault, m)
        else call item (p - item.start)) : (p.toNat % w.bytes = 0 →
      ∀ item ∈ items, item.Covers w p → access = call item (p - item.start)) ∧
    ((p.toNat % w.bytes ≠ 0 ∨ ∀ item ∈ items, ¬item.Covers w p) →
      ∃ e, access = .ok (.error e, m)) := by
  have halign : checkAlign w p ↔ p.toNat % w.bytes = 0 := beq_iff_eq
  constructor
  · intro hal item hitem hcov
    rw [haccess, h.deviceAt_eq B hitem hcov.mem_range]
    simp only [halign.2 hal, MemoryMapItem.canAccess_iff.2 hcov, Bool.not_true,
      Bool.false_eq_true, if_false]
  · intro hno
    rw [haccess]
    cases hat : (B.fromMmioItems items).deviceAt p with
    | none => exact ⟨fault, rfl⟩
    | some item =>
      rcases hno with hmis | hcov
      · refine ⟨misaligned, if_pos ?_⟩
        rw [Bool.eq_false_iff.2 fun hal => hmis (halign.1 hal)]
        rfl
      · simp only [WellPlaced.not_canAccess B hcov hat, Bool.not_false, if_true]
        split
        · exact ⟨misaligned, rfl⟩
        · exact ⟨fault, rfl⟩

/-- An access goes to RAM, to the one device that covers it, or nowhere. -/
theorem mmio_dispatch (B : DeviceBus) (items : List MemoryMapItem) (h : WellPlaced items)
    (m : MemoryMapIo (B.fromMmioItems items)) (w : Width) (p data : WordType) :
    DispatchLaw items m w p (m.readBySearch w p) (m.ramRead w) (m.callRead w) ∧
    DispatchLaw items m w p (m.writeBySearch w p data) (m.ramWrite w data) (m.callWrite w data) := by
  rw [MemoryMapIo.readBySearch_eq (B.sorted_fromMmioItems items),
    MemoryMapIo.writeBySearch_eq (B.sorted_fromMmioItems items)]
  constructor
  · have hdev : p < BASE_ADDR → _ := fun hlt =>
      deviceAccess_law h (m.readByType w p) (m.callRead w) (by
        rw [MemoryMapIo.readByType, if_neg (BitVec.not_le.2 hlt)]
        rfl)
    exact ⟨fun hle => by rw [MemoryMapIo.readByType, if_pos hle]; rfl, m.ram.read_ok_iff,
      fun hlt => (hdev hlt).1, fun hlt => (hdev hlt).2⟩
  · have hdev : p < BASE_ADDR → _ := fun hlt =>
      deviceAccess_law h (m.writeByType w p data) (m.callWrite w data) (by
        rw [MemoryMapIo.writeByType, if_neg (BitVec.not_le.2 hlt)]
        rfl)
    exact ⟨fun hle => by rw [MemoryMapIo.writeByType, if_pos hle]; rfl, m.ram.write_ok_iff,
      fun hlt => (hdev hlt).1, fun hlt => (hdev hlt).2⟩

/-- A bus on which every device answers seven and takes every write. -/
def sevenBus : DeviceBus where
  Dev := Unit
  map := []
  read _ _ _ s := some (.ok 7, s)
  write _ _ _ _ s data := some (.ok (), s, data)

def sevenIo (items : List MemoryMapItem) : MemoryMapIo (sevenBus.fromMmioItems items) :=
  ⟨.new, ()⟩

theorem sevenItems_wellPlaced : WellPlaced [⟨0x10000000, 8, 0⟩, ⟨0x100000, 0x1000, 1⟩] where
  disjoint := List.pairwise_pair.2 (MemoryMapItem.Apart.disjoint (by decide))
  nonempty := by decide
  below := by decide

/-- The regions are given out of order, and the second one is read. -/
theorem mmio_dispatch_seven :
    (sevenIo [⟨0x10000000, 8, 0⟩, ⟨0x100000, 0x1000, 1⟩]).readBySearch .u32 0x100004 =
      .ok (.ok 7, sevenIo [⟨0x10000000, 8, 0⟩, ⟨0x100000, 0x1000, 1⟩]) := by
  have h := mmio_dispatch sevenBus _ sevenItems_wellPlaced (sevenIo _) .u32 0x100004 0
  exact h.1.device (by decide) (by decide) ⟨0x100000, 0x1000, 1⟩ (by decide)
    (by unfold MemoryMapItem.Covers; decide)

/-- An empty region hides the one that starts at the same address. The ranges are
disjoint all the same. -/
theorem mmio_dispatch_empty_region :
    [(⟨0x1000, 0x1000, 0⟩ : MemoryMapItem), ⟨0x1000, 0, 1⟩].Pairwise
      (fun a b => Disjoint a.range b.range) ∧
    (∀ item ∈ [(⟨0x1000, 0x1000, 0⟩ : MemoryMapItem), ⟨0x1000, 0, 1⟩],
      item.start.toNat + item.size.toNat ≤ BASE_ADDR.toNat) ∧
    (⟨0x1000, 0x1000, 0⟩ : MemoryMapItem).Covers .u32 0x1000 ∧
    (sevenIo [⟨0x1000, 0x1000, 0⟩, ⟨0x1000, 0, 1⟩]).readBySearch .u32 0x1000 =
      .ok (.error .loadFault, sevenIo [⟨0x1000, 0x1000, 0⟩, ⟨0x1000, 0, 1⟩]) := by
  refine ⟨List.pairwise_pair.2 (MemoryMapItem.Apart.disjoint (by decide)), by decide,
    by unfold MemoryMapItem.Covers; decide, ?_⟩
  have hmap : (sevenBus.fromMmioItems [⟨0x1000, 0x1000, 0⟩, ⟨0x1000, 0, 1⟩]).map =
      [⟨0x1000, 0x1000, 0⟩, ⟨0x1000, 0, 1⟩] := List.mergeSort_of_pairwise (by decide)
  rw [MemoryMapIo.readBySearch_eq (sevenBus.sorted_fromMmioItems _), MemoryMapIo.readByType,
    DeviceBus.deviceAt, hmap]
  rfl

end HereEmu
