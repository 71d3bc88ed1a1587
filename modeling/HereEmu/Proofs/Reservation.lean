import HereEmu.Instr.ExecVector
import HereEmu.Proofs.MemEffect
import Mathlib.Data.List.Induction

/-!
# LR and SC on RAM

RAM has one slot for a reservation. What it holds is a function of the history
of operations (`held`), and that function says what the architecture asks for:
an SC succeeds if the last LR was to its block and nothing came in between that
loses the reservation (`held_eq_some_iff`). The operations on RAM refine it
(`step_refines`).
-/

namespace HereEmu

open Lib (Exec)
open RVCPU VirtAddrManager List

/-! ## Histories -/

/-- An operation of the hart on memory, with its address and width. -/
inductive HartOp where
  | loadReserved (w : Width) (addr : WordType)
  | storeConditional (w : Width) (addr data : WordType)
  | write (w : Width) (addr data : WordType)
  /-- One element of a vector store. -/
  | vectorWrite (w : Width) (addr data : WordType)
  | amo (w : Width) (addr : WordType) (f : WordType → WordType)

namespace HartOp

def width : HartOp → Width
  | loadReserved w _ | storeConditional w _ _ | write w _ _ | vectorWrite w _ _ | amo w _ _ => w

def addr : HartOp → WordType
  | loadReserved _ a | storeConditional _ a _ | write _ a _ | vectorWrite _ a _ | amo _ a _ => a

/-- The eight-byte block the address lies in. -/
def block (op : HartOp) : Nat := op.addr.toNat / 8

def isLr : HartOp → Bool
  | loadReserved _ _ => true
  | _ => false

def isSc : HartOp → Bool
  | storeConditional _ _ _ => true
  | _ => false

/-- A store or an AMO. -/
def isStore : HartOp → Bool
  | write _ _ _ | vectorWrite _ _ _ | amo _ _ _ => true
  | _ => false

/-- Naturally aligned, and inside RAM. -/
structure InRam (op : HartOp) : Prop where
  align : op.addr.toNat % op.width.bytes = 0
  low : BASE_ADDR.toNat ≤ op.addr.toNat
  high : op.addr.toNat + op.width.bytes ≤ BASE_ADDR.toNat + SIZE

/-- The block that is reserved after the operation. -/
def next (slot : Option Nat) (op : HartOp) : Option Nat :=
  if op.isLr then some op.block
  else if op.isSc then none
  else if slot = some op.block then none else slot

end HartOp

/-- The block that is reserved after a history, none being reserved before it. -/
def held (history : List HartOp) : Option Nat := history.foldl HartOp.next none

/-- The last LR was to the block, and after it came neither an SC nor a store or
AMO to the block. -/
def Reserves (history : List HartOp) (b : Nat) : Prop :=
  ∃ before lr after, history = before ++ lr :: after ∧ lr.isLr ∧ lr.block = b ∧
    ∀ op ∈ after, op.isLr = false ∧ op.isSc = false ∧ (op.isStore → op.block ≠ b)

section History

variable {history : List HartOp} {op : HartOp} {b : Nat}

theorem held_snoc : held (history ++ [op]) = op.next (held history) := by
  unfold held
  rw [foldl_append]
  rfl

theorem next_eq_some_iff : op.next (held history) = some b ↔
    (op.isLr ∧ op.block = b) ∨
    (op.isLr = false ∧ op.isSc = false ∧ (op.isStore → op.block ≠ b) ∧
      held history = some b) := by
  cases op <;> simp [HartOp.next, HartOp.isLr, HartOp.isSc, HartOp.isStore] <;> grind

/-- A history ends in its last operation or reserves because of an earlier one. -/
theorem reserves_snoc_iff : Reserves (history ++ [op]) b ↔
    (op.isLr ∧ op.block = b) ∨
    (op.isLr = false ∧ op.isSc = false ∧ (op.isStore → op.block ≠ b) ∧
      Reserves history b) := by
  constructor
  · rintro ⟨before, lr, after, hsplit, hlr, hb, hafter⟩
    rcases eq_nil_or_concat after with rfl | ⟨after', last, rfl⟩
    · obtain ⟨-, hlast⟩ := append_inj' hsplit rfl
      cases hlast
      exact .inl ⟨hlr, hb⟩
    · have hsplit' : history ++ [op] = (before ++ lr :: after') ++ [last] := by
        rw [hsplit]
        simp
      obtain ⟨rfl, hlast⟩ := append_inj' hsplit' rfl
      cases hlast
      obtain ⟨h1, h2, h3⟩ := hafter op (by simp)
      exact .inr ⟨h1, h2, h3, before, lr, after', rfl, hlr, hb, fun o ho => hafter o (by simp [ho])⟩
  · rintro (⟨hlr, hb⟩ | ⟨h1, h2, h3, before, lr, after, rfl, hlr, hb, hafter⟩)
    · exact ⟨history, op, [], rfl, hlr, hb, by simp⟩
    · refine ⟨before, lr, after ++ [op], by simp, hlr, hb, fun o ho => ?_⟩
      rcases mem_append.mp ho with ho | ho
      · exact hafter o ho
      · obtain rfl := mem_singleton.mp ho
        exact ⟨h1, h2, h3⟩

/-- What is held is what the history reserves. -/
theorem held_eq_some_iff : held history = some b ↔ Reserves history b := by
  induction history using reverseRecOn with
  | nil =>
    refine iff_of_false nofun ?_
    rintro ⟨before, lr, after, h, -⟩
    simp at h
  | append_singleton history op ih => rw [held_snoc, next_eq_some_iff, reserves_snoc_iff, ih]

end History

/-! ## The slot in RAM -/

/-- The block the slot stands for. -/
def Ram.heldBlock (ram : Ram) : Option Nat :=
  ram.reserved.map fun r => r.reservationSetId.toNat + BASE_ADDR.toNat / 8

/-- The block at an offset of RAM. -/
def blockAt (offset : WordType) : Nat := (offset >>> 3).toNat + BASE_ADDR.toNat / 8

section Ram

variable {ram : Ram} {offset : WordType} {w : Width}

theorem heldBlock_eq_some_iff : ram.heldBlock = some (blockAt offset) ↔
    ram.reserved.any (·.inTheSameReservationSet offset) := by
  unfold Ram.heldBlock blockAt Reservation.inTheSameReservationSet
  cases ram.reserved with
  | none => simp
  | some r => simp [← BitVec.toNat_inj]

/-- A store loses the reservation of its block and no other. -/
theorem heldBlock_tryInvalidate (ram : Ram) (offset : WordType) :
    (ram.tryInvalidateReservation offset).heldBlock =
      if ram.heldBlock = some (blockAt offset) then none else ram.heldBlock := by
  unfold Ram.tryInvalidateReservation
  by_cases h : ram.reserved.any (·.inTheSameReservationSet offset)
  · rw [if_pos h, if_pos (heldBlock_eq_some_iff.mpr h)]
    rfl
  · rw [if_neg h, if_neg fun hb => h (heldBlock_eq_some_iff.mp hb)]

theorem run_write (hin : offset.toNat + w.bytes ≤ SIZE) (halign : offset.toNat % w.bytes = 0)
    (ram : Ram) (data : WordType) : ram.write w offset data =
      (.ok (), { ram.tryInvalidateReservation offset with
        data := Lib.storeLE ram.data offset.toNat w.bytes data }) := by
  simp [Ram.write, Ram.containsAccess, checkAlign, hin, halign]

/-- An SC succeeds if its block is held, and then writes. -/
theorem run_storeConditional (hin : offset.toNat + w.bytes ≤ SIZE)
    (halign : offset.toNat % w.bytes = 0) (ram : Ram) (data : WordType) :
    (ram.storeConditional w offset data).1 = .ok (decide (ram.heldBlock = some (blockAt offset))) ∧
    (ram.storeConditional w offset data).2.data =
      if ram.heldBlock = some (blockAt offset) then Lib.storeLE ram.data offset.toNat w.bytes data
      else ram.data := by
  have hw : 0 < w.bytes := by cases w <;> decide
  unfold Ram.storeConditional
  rw [if_neg (by omega)]
  by_cases h : ram.reserved.any (·.inTheSameReservationSet offset)
  · have hb := heldBlock_eq_some_iff.mpr h
    rw [if_pos h, run_write hin halign, if_pos hb, decide_eq_true hb]
    exact ⟨rfl, rfl⟩
  · have hb : ram.heldBlock ≠ some (blockAt offset) := fun hb => h (heldBlock_eq_some_iff.mp hb)
    rw [if_neg h, if_neg hb, decide_eq_false hb]
    exact ⟨rfl, rfl⟩

end Ram

namespace HartOp

variable {B : DeviceBus}

/-- The operation, without translation, and for an SC whether it succeeded. -/
def step (m : VirtAddrManager B) : HartOp → Rust (Option Bool × VirtAddrManager B)
  | loadReserved w a =>
    ((loadReservedWithPolicy w a .direct).run m).map fun out => (none, out.2)
  | storeConditional w a data =>
    ((storeConditionalWithPolicy w a data .direct).run m).map fun out =>
      (out.1.toOption, out.2)
  | write w a data =>
    ((writeWithPolicy w a data .direct).run m).map fun out => (none, out.2)
  | vectorWrite w a data =>
    ((physMem B).write w a data m.mmio).map fun out => (none, { m with mmio := out.2 })
  | amo w a f =>
    ((fetchAndOpAmoWithPolicy w a .direct f).run m).map fun out => (none, out.2)

/-! ### The operations one by one -/

section Operations

variable {op : HartOp}

theorem InRam.offset (h : op.InRam) :
    (op.addr - BASE_ADDR).toNat = op.addr.toNat - BASE_ADDR.toNat := BitVec.toNat_sub_of_le h.low

theorem InRam.contains (h : op.InRam) : (op.addr - BASE_ADDR).toNat + op.width.bytes ≤ SIZE := by
  have := h.low
  have := h.high
  rw [h.offset]
  omega

theorem InRam.offset_align (h : op.InRam) : (op.addr - BASE_ADDR).toNat % op.width.bytes = 0 := by
  have hbase : BASE_ADDR.toNat % op.width.bytes = 0 := by cases op.width <;> decide
  rw [h.offset]
  exact Nat.mod_eq_zero_of_dvd
    (Nat.dvd_sub (Nat.dvd_of_mod_eq_zero h.align) (Nat.dvd_of_mod_eq_zero hbase))

theorem InRam.block (h : op.InRam) : blockAt (op.addr - BASE_ADDR) = op.block := by
  have hlow := h.low
  have hbase : BASE_ADDR.toNat = 8 * (BASE_ADDR.toNat / 8) := by decide
  unfold blockAt HartOp.block
  rw [BitVec.toNat_ushiftRight, h.offset, Nat.shiftRight_eq_div_pow]
  omega

theorem InRam.checkAlign (h : op.InRam) : HereEmu.checkAlign op.width op.addr := by
  simp [HereEmu.checkAlign, h.align]

theorem InRam.inRam (h : op.InRam) : MemoryMapIo.inRam op.addr := by
  have hlow := h.low
  have hhigh := h.high
  have hw : 0 < op.width.bytes := by cases op.width <;> decide
  simp only [MemoryMapIo.inRam, Bool.and_eq_true, decide_eq_true_eq]
  exact ⟨hlow, by omega⟩

/-- What an operation does: it leaves the block that `next` says, and an SC
tells whether its block was held and writes if it was. -/
structure Done (m : VirtAddrManager B) (op : HartOp) (out : Option Bool) (m' : VirtAddrManager B) :
    Prop where
  slot : m'.mmio.ram.heldBlock = op.next m.mmio.ram.heldBlock
  sc : ∀ w a data, op = .storeConditional w a data →
    out = some (decide (m.mmio.ram.heldBlock = some op.block)) ∧
    m'.mmio.ram.data = if m.mmio.ram.heldBlock = some op.block
      then Lib.storeLE m.mmio.ram.data (a - BASE_ADDR).toNat w.bytes data else m.mmio.ram.data

variable {w : Width} {a : WordType}

theorem step_loadReserved (h : (loadReserved w a).InRam) (m : VirtAddrManager B) :
    ∃ out m', (loadReserved w a).step m = .ok (out, m') ∧ Done m (loadReserved w a) out m' := by
  have hread := Ram.read_of_mem m.mmio.ram w (a - BASE_ADDR) h.contains h.offset_align
  have hcheck : HereEmu.checkAlign w a := h.checkAlign
  have hin : MemoryMapIo.inRam a := h.inRam
  have hio : m.mmio.loadReserved w a = (.ok (Lib.loadLE m.mmio.ram.data (a - BASE_ADDR).toNat w.bytes),
      { m.mmio with ram := { m.mmio.ram with reserved := some (.new (a - BASE_ADDR)) } }) := by
    unfold MemoryMapIo.loadReserved Ram.loadReserved
    rw [if_pos hin, hread]
  have hrun : (loadReservedWithPolicy w a .direct).run m =
      .ok ((m.mmio.loadReserved w a).1, { m with mmio := (m.mmio.loadReserved w a).2 }) := by
    unfold loadReservedWithPolicy
    rw [hcheck]
    rfl
  rw [hio] at hrun
  refine ⟨none, { m with mmio := { m.mmio with
    ram := { m.mmio.ram with reserved := some (.new (a - BASE_ADDR)) } } }, ?_, ?_, nofun⟩
  · exact congrArg (Except.map fun out => (none, out.2)) hrun
  · exact congrArg some h.block

variable {data : WordType}

theorem step_storeConditional (h : (storeConditional w a data).InRam) (m : VirtAddrManager B) :
    ∃ out m', (storeConditional w a data).step m = .ok (out, m') ∧
      Done m (storeConditional w a data) out m' := by
  have hcheck : HereEmu.checkAlign w a := h.checkAlign
  have hin : MemoryMapIo.inRam a := h.inRam
  have hblock : blockAt (a - BASE_ADDR) = (storeConditional w a data).block := h.block
  obtain ⟨hout, hdata⟩ := run_storeConditional h.contains h.offset_align m.mmio.ram data
  have hio : m.mmio.storeConditional w a data = ((m.mmio.ram.storeConditional w (a - BASE_ADDR) data).1,
      { m.mmio with ram := (m.mmio.ram.storeConditional w (a - BASE_ADDR) data).2 }) := by
    unfold MemoryMapIo.storeConditional
    rw [if_pos hin]
  have hrun : (storeConditionalWithPolicy w a data .direct).run m =
      .ok ((m.mmio.storeConditional w a data).1,
        { m with mmio := (m.mmio.storeConditional w a data).2.clearReservation }) := by
    unfold storeConditionalWithPolicy
    rw [hcheck]
    rfl
  have hfst : (m.mmio.storeConditional w a data).1 =
      .ok (decide (m.mmio.ram.heldBlock = some (storeConditional w a data).block)) := by
    rw [hio, ← hblock]
    exact hout
  refine ⟨some (decide (m.mmio.ram.heldBlock = some (storeConditional w a data).block)),
    { m with mmio := (m.mmio.storeConditional w a data).2.clearReservation }, ?_, rfl, ?_⟩
  · rw [hfst] at hrun
    exact congrArg (Except.map fun out => (out.1.toOption, out.2)) hrun
  · rintro w' a' data' heq
    cases heq
    refine ⟨rfl, ?_⟩
    rw [hio, ← hblock]
    exact hdata

/-- Memory after a store of the hart. -/
def stored (op : HartOp) (data : WordType) (io : MemoryMapIo B) : MemoryMapIo B :=
  { io with ram := { io.ram.tryInvalidateReservation (op.addr - BASE_ADDR) with
      data := Lib.storeLE io.ram.data (op.addr - BASE_ADDR).toNat op.width.bytes data } }

theorem writeByType_inRam (h : op.InRam) (io : MemoryMapIo B) (data : WordType) :
    io.writeByType op.width op.addr data = .ok (.ok (), op.stored data io) := by
  unfold MemoryMapIo.writeByType
  rw [if_pos (show BASE_ADDR ≤ op.addr from h.low), run_write h.contains h.offset_align]
  rfl

/-- The reservation after a store or AMO. -/
theorem heldBlock_store (h : op.InRam) (hstore : op.isStore) (ram : Ram) :
    (ram.tryInvalidateReservation (op.addr - BASE_ADDR)).heldBlock = op.next ram.heldBlock := by
  rw [heldBlock_tryInvalidate, h.block]
  cases op <;> first | rfl | cases hstore

theorem step_write (h : (write w a data).InRam) (m : VirtAddrManager B) :
    ∃ out m', (write w a data).step m = .ok (out, m') ∧ Done m (write w a data) out m' := by
  have hio : m.mmio.writeByType w a data = _ := writeByType_inRam h m.mmio data
  have hrun : (writeWithPolicy w a data .direct).run m =
      .ok (.ok (), { m with mmio := (write w a data).stored data m.mmio }) :=
    run_onMmio_ok (f := fun io => io.writeByType w a data) hio
  refine ⟨none, { m with mmio := (write w a data).stored data m.mmio }, ?_,
    heldBlock_store h rfl m.mmio.ram, nofun⟩
  exact congrArg (Except.map fun out => (none, out.2)) hrun

theorem step_vectorWrite (h : (vectorWrite w a data).InRam) (m : VirtAddrManager B) :
    ∃ out m', (vectorWrite w a data).step m = .ok (out, m') ∧
      Done m (vectorWrite w a data) out m' := by
  have hio : (physMem B).write w a data m.mmio = _ := writeByType_inRam h m.mmio data
  refine ⟨none, { m with mmio := (vectorWrite w a data).stored data m.mmio }, ?_,
    heldBlock_store h rfl m.mmio.ram, nofun⟩
  show ((physMem B).write w a data m.mmio).map _ = _
  rw [hio]
  rfl

theorem step_amo {f : WordType → WordType} (h : (amo w a f).InRam) (m : VirtAddrManager B) :
    ∃ out m', (amo w a f).step m = .ok (out, m') ∧ Done m (amo w a f) out m' := by
  have hcheck : HereEmu.checkAlign w a := h.checkAlign
  have hin : MemoryMapIo.inRam a := h.inRam
  have hrun : (fetchAndOpAmoWithPolicy w a .direct f).run m =
      .ok (.ok (amoOnRam w f m.mmio.ram (a - BASE_ADDR)).1, { m with mmio :=
        { m.mmio with ram := (amoOnRam w f m.mmio.ram (a - BASE_ADDR)).2 } }) := by
    show (fetchAndOpAmoByPaddr w a f).run m = _
    unfold fetchAndOpAmoByPaddr
    rw [hcheck, hin]
    rfl
  refine ⟨none, { m with mmio := { m.mmio with
    ram := (amoOnRam w f m.mmio.ram (a - BASE_ADDR)).2 } }, ?_,
    heldBlock_store h rfl { m.mmio.ram with data := _ }, nofun⟩
  exact congrArg (Except.map fun out => (none, out.2)) hrun

/-- Every operation at an aligned address of RAM does what `next` says. -/
theorem step_refines (h : op.InRam) (m : VirtAddrManager B) :
    ∃ out m', op.step m = .ok (out, m') ∧ Done m op out m' := by
  cases op with
  | loadReserved w a => exact step_loadReserved h m
  | storeConditional w a data => exact step_storeConditional h m
  | write w a data => exact step_write h m
  | vectorWrite w a data => exact step_vectorWrite h m
  | amo w a f => exact step_amo h m

end Operations

end HartOp

/-! ### Whole histories -/

section Histories

variable {B : DeviceBus} {history : List HartOp}

/-- The memory after a history. -/
def runOps (m : VirtAddrManager B) (ops : List HartOp) : Rust (VirtAddrManager B) :=
  ops.foldlM (fun m op => (op.step m).map (·.2)) m

theorem runOps_heldBlock (m : VirtAddrManager B) (hops : ∀ op ∈ history, op.InRam) :
    ∃ m', runOps m history = .ok m' ∧
      m'.mmio.ram.heldBlock = history.foldl HartOp.next m.mmio.ram.heldBlock := by
  induction history generalizing m with
  | nil => exact ⟨m, rfl, rfl⟩
  | cons op history ih =>
    obtain ⟨out, m₁, hstep, hdone⟩ := HartOp.step_refines (hops op mem_cons_self) m
    obtain ⟨m', hrun, hslot⟩ := ih m₁ fun o ho => hops o (mem_cons_of_mem _ ho)
    refine ⟨m', ?_, ?_⟩
    · unfold runOps at hrun ⊢
      rw [foldlM_cons, hstep]
      exact hrun
    · rw [hslot, hdone.slot]
      rfl

/-- After any history of operations at aligned addresses of RAM, from a memory
without a reservation, an SC succeeds and writes its data exactly if the last LR
was to its block and neither an SC nor a store or AMO to the block came after
it. If it fails RAM stays as it was. -/
theorem sc_succeeds_iff_reserves (m : VirtAddrManager B) (hm : m.mmio.ram.reserved = none)
    (hops : ∀ op ∈ history, op.InRam) {w : Width} {a data : WordType}
    (hsc : (HartOp.storeConditional w a data).InRam) :
    ∃ m₁ success m₂, runOps m history = .ok m₁ ∧
      (HartOp.storeConditional w a data).step m₁ = .ok (some success, m₂) ∧
      (success ↔ Reserves history (a.toNat / 8)) ∧
      m₂.mmio.ram.data = if success
        then Lib.storeLE m₁.mmio.ram.data (a - BASE_ADDR).toNat w.bytes data
        else m₁.mmio.ram.data := by
  obtain ⟨m₁, hrun, hslot⟩ := runOps_heldBlock m hops
  obtain ⟨out, m₂, hstep, hdone⟩ := HartOp.step_refines hsc m₁
  obtain ⟨rfl, hdata⟩ := hdone.sc w a data rfl
  have hnone : m.mmio.ram.heldBlock = none := by
    unfold Ram.heldBlock
    rw [hm]
    rfl
  rw [hnone] at hslot
  refine ⟨m₁, _, m₂, hrun, hstep, ?_, ?_⟩
  · rw [decide_eq_true_iff, hslot]
    exact held_eq_some_iff
  · simpa only [decide_eq_true_iff] using hdata

/-- Zeroed RAM without devices and without a reservation. -/
def freshMemory : VirtAddrManager (Platform.ramOnly fun _ => none).bus :=
  .fromRamAndMmio { ram := .new, devices := () }

/-- An LR of the upper half of a doubleword, and a store to the next. -/
def upperHalfHistory : List HartOp :=
  [.loadReserved .u32 (BASE_ADDR + 4), .write .u64 (BASE_ADDR + 8) 7]

theorem sc_succeeds_iff_reserves_halves :
    ∃ m₁ m₂, runOps freshMemory upperHalfHistory = .ok m₁ ∧
      (HartOp.storeConditional .u32 BASE_ADDR 9).step m₁ = .ok (some true, m₂) ∧
      m₂.mmio.ram.data = Lib.storeLE m₁.mmio.ram.data 0 4 (9 : WordType) := by
  have hops : ∀ op ∈ upperHalfHistory, op.InRam := by
    intro op hop
    simp only [upperHalfHistory, mem_cons, not_mem_nil, or_false] at hop
    rcases hop with rfl | rfl <;> exact ⟨by decide, by decide, by decide⟩
  have hsc : (HartOp.storeConditional .u32 BASE_ADDR 9).InRam := ⟨by decide, by decide, by decide⟩
  obtain ⟨m₁, success, m₂, hrun, hstep, hiff, hdata⟩ :=
    sc_succeeds_iff_reserves freshMemory rfl hops hsc
  have hreserves : Reserves upperHalfHistory (BASE_ADDR.toNat / 8) := by
    refine ⟨[], _, _, rfl, rfl, by decide, fun op hop => ?_⟩
    obtain rfl := mem_singleton.mp hop
    exact ⟨rfl, rfl, fun _ => by decide⟩
  obtain rfl := hiff.mpr hreserves
  exact ⟨m₁, m₂, hrun, hstep, hdata⟩

end Histories

end HereEmu
