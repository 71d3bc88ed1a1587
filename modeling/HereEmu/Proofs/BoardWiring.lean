import Mathlib.Tactic.FinCases
import HereEmu.Board.Builder
import HereEmu.Proofs.MmioDispatch
import HereEmu.Proofs.PlicGateway

/-!
# Conflicts on the board

Addresses and interrupt sources are handed out as the virtio devices come, from
bases that were chosen by hand next to those of the other devices. The regions
have room: the devices that the controller has sources for all end below RAM.
The sources do not. The virtio devices count up from one, the UART is at ten,
and the tenth virtio device takes its place in the table without a word.
-/

namespace HereEmu

open RVBoardBuilder MemoryMapItem Function Nat

/-! ## What a board must be like -/

def DeviceType.canInterrupt : DeviceType → Bool
  | uart16550A | virtioMmio => true
  | powerManager | clint | plic => false

/-- No two devices share an address or a source, and the controller sees the
level of every device at its own source. -/
structure BoardWiring.ConflictFree (w : BoardWiring) : Prop where
  /-- Every device has one region. -/
  mapped : w.mmioItems.map (·.device) = List.range w.arena.length
  disjoint : w.mmioItems.Pairwise fun a b => Disjoint a.range b.range
  below : ∀ item ∈ w.mmioItems, item.start.toNat + item.size.toNat ≤ BASE_ADDR.toNat
  /-- Every device that can interrupt has a source. -/
  capable : ∀ d type, w.arena[d]? = some type → type.canInterrupt → ∃ id, (d, id) ∈ w.registered
  driven : w.registered.Pairwise fun a b => a.2 ≠ b.2
  sampled : ∀ irqLevel : Nat → Bool, ∀ r ∈ w.registered,
    (w.plic.syncPeripheralIrqLevels (w.levels irqLevel)).layout.sourceLevel.getBit r.2 =
      irqLevel r.1

/-! ## The builder after some virtio devices -/

/-- The region of the virtio device with this number. -/
def virtioItem (i : Nat) : MemoryMapItem :=
  ⟨VIRTIO_MMIO_BASE + BitVec.ofNat 64 i * VIRTIO_MMIO_SIZE, VIRTIO_MMIO_SIZE, i + 2⟩

def sourceOf (n : Nat) : Source := ⟨n % VIRT_MAX_INTERRUPTS, mod_lt _ (by decide)⟩

/-- How many virtio devices there are sources for. -/
def VIRTIO_MAX : Nat := 63

/-- The builder after `k` virtio devices. -/
def stage (k : Nat) : RVBoardBuilder where
  arena := [.powerManager, .uart16550A] ++ List.replicate k .virtioMmio
  idAllocators
    | .uart16550A => some ⟨1, UART_BASE, UART_SIZE, some UART_IRQ⟩
    | .virtioMmio =>
      if k = 0 then none
      else some ⟨BitVec.ofNat 64 k, VIRTIO_MMIO_BASE, VIRTIO_MMIO_SIZE, some VIRTIO_IRQ_BASE⟩
    | _ => none
  mmioItems := [⟨POWER_MANAGER_BASE, POWER_MANAGER_SIZE, 0⟩, ⟨UART_BASE, UART_SIZE, 1⟩] ++
    (List.range k).map virtioItem
  peripheralIrqDevices id :=
    if 1 ≤ id.val ∧ id.val ≤ k then some (id.val + 1)
    else if id.val = 10 then some 1
    else none
  registered := (1, sourceOf 10) :: (List.range k).map fun i => (i + 2, sourceOf (i + 1))
  clintMmio := some (CLINT_BASE, CLINT_SIZE)
  plicMmio := some (PLIC_BASE, BitVec.ofNat 64 PLIC_SIZE)

section Stage

variable {files : HostFiles} {config : DeviceConfig} {k : Nat}

/-- What the allocator of the virtio devices gives to the one with number `k`. -/
theorem virtio_get (hk : k ≤ VIRTIO_MAX) :
    IdAllocator.get ⟨BitVec.ofNat 64 k, VIRTIO_MMIO_BASE, VIRTIO_MMIO_SIZE, some VIRTIO_IRQ_BASE⟩ =
      .ok (⟨(virtioItem k).start, VIRTIO_MMIO_SIZE, some (BitVec.ofNat 32 (k + 1))⟩,
        ⟨BitVec.ofNat 64 (k + 1), VIRTIO_MMIO_BASE, VIRTIO_MMIO_SIZE, some VIRTIO_IRQ_BASE⟩) := by
  unfold VIRTIO_MAX at hk
  have h : ∀ k < 64, IdAllocator.get
      ⟨BitVec.ofNat 64 k, VIRTIO_MMIO_BASE, VIRTIO_MMIO_SIZE, some VIRTIO_IRQ_BASE⟩ =
      .ok (⟨(virtioItem k).start, VIRTIO_MMIO_SIZE, some (BitVec.ofNat 32 (k + 1))⟩,
        ⟨BitVec.ofNat 64 (k + 1), VIRTIO_MMIO_BASE, VIRTIO_MMIO_SIZE, some VIRTIO_IRQ_BASE⟩) := by
    decide +kernel
  exact h k (by omega)

theorem stage_handle : (stage k).handle = k + 2 := by
  simp [stage, handle]

/-- The first virtio device brings the allocator, the others find it. -/
theorem stage_allocator : ((stage k).idAllocators .virtioMmio).getD
      ⟨0, VIRTIO_MMIO_BASE, VIRTIO_MMIO_SIZE, some VIRTIO_IRQ_BASE⟩ =
    ⟨BitVec.ofNat 64 k, VIRTIO_MMIO_BASE, VIRTIO_MMIO_SIZE, some VIRTIO_IRQ_BASE⟩ := by
  simp only [stage]
  split
  · next hk => rw [hk]; rfl
  · rfl

theorem validInterruptId_virtio (hk : k < VIRTIO_MAX) :
    validInterruptId (BitVec.ofNat 32 (k + 1)).toNat = some (sourceOf (k + 1)) := by
  unfold VIRTIO_MAX at hk
  have hmod : (BitVec.ofNat 32 (k + 1)).toNat = k + 1 := by
    rw [BitVec.toNat_ofNat]
    omega
  have hvalid : k + 1 ≠ INTERRUPT_SOURCE_ZERO.val ∧ k + 1 < VIRT_MAX_INTERRUPTS :=
    ⟨by simp [INTERRUPT_SOURCE_ZERO], by unfold VIRT_MAX_INTERRUPTS; omega⟩
  rw [hmod, validInterruptId, dif_pos hvalid]
  congr 1
  exact Fin.ext (mod_eq_of_lt hvalid.2).symm

/-- The device that comes next in the table of the controller. -/
theorem update_peripheralIrqDevices (hk : k < VIRTIO_MAX) :
    update (stage k).peripheralIrqDevices (sourceOf (k + 1)) (some (k + 2)) =
      (stage (k + 1)).peripheralIrqDevices := by
  unfold VIRTIO_MAX at hk
  have hval : (sourceOf (k + 1)).val = k + 1 :=
    mod_eq_of_lt (by unfold VIRT_MAX_INTERRUPTS; omega)
  funext id
  by_cases hid : id = sourceOf (k + 1)
  · subst hid
    rw [update_self]
    simp only [stage, hval]
    rw [if_pos (by omega)]
  · rw [update_of_ne hid]
    have hne : id.val ≠ k + 1 := fun h => hid (Fin.ext (h.trans hval.symm))
    simp only [stage]
    by_cases hold : 1 ≤ id.val ∧ id.val ≤ k
    · rw [if_pos hold, if_pos (by omega)]
    · rw [if_neg hold, if_neg (show ¬(1 ≤ id.val ∧ id.val ≤ k + 1) by omega)]

theorem addVirtioDevice_stage (hopens : config.opens files) (hk : k < VIRTIO_MAX) :
    (stage k).addVirtioDevice files VIRTIO_MMIO_BASE VIRTIO_MMIO_SIZE VIRTIO_IRQ_BASE config =
      .ok (stage (k + 1)) := by
  have harena : (stage k).arena ++ [.virtioMmio] = (stage (k + 1)).arena := by
    simp only [stage, List.replicate_succ', List.append_assoc]
  have halloc : update (stage k).idAllocators .virtioMmio
      (some ⟨BitVec.ofNat 64 (k + 1), VIRTIO_MMIO_BASE, VIRTIO_MMIO_SIZE, some VIRTIO_IRQ_BASE⟩) =
      (stage (k + 1)).idAllocators := by
    funext d
    cases d <;> rfl
  have hitems : (stage k).mmioItems ++ [⟨(virtioItem k).start, VIRTIO_MMIO_SIZE, k + 2⟩] =
      (stage (k + 1)).mmioItems := by
    simp only [stage, List.range_succ, List.map_append, List.append_assoc]
    rfl
  have hregistered : (stage k).registered ++ [(k + 2, sourceOf (k + 1))] =
      (stage (k + 1)).registered := by
    simp only [stage, List.range_succ, List.map_append, List.cons_append]
    rfl
  have hget := virtio_get (k := k) (by omega)
  rw [addVirtioDevice, if_pos hopens, addPlicDevice, stage_allocator, hget]
  change (registerDevice _ (stage k).handle (BitVec.ofNat 32 (k + 1)) >>= _) = _
  rw [registerDevice, validInterruptId_virtio hk, stage_handle]
  change Except.ok (addPlainMmioDevice _ _ _ _) = _
  simp only [addPlainMmioDevice, handle, update_peripheralIrqDevices hk,
    harena, halloc, hregistered]
  rw [show (stage k).arena.length = k + 2 from stage_handle, hitems]
  rfl

/-- There is no source for another one. -/
theorem addVirtioDevice_full :
    (stage VIRTIO_MAX).addVirtioDevice files VIRTIO_MMIO_BASE VIRTIO_MMIO_SIZE VIRTIO_IRQ_BASE
      config = .error .device := by
  rw [addVirtioDevice]
  split
  · rw [addPlicDevice, stage_allocator, virtio_get (le_refl _)]
    rfl
  · rfl

end Stage

/-! ## The finished board -/

/-- The wiring with `n` virtio devices. -/
def wired (n : Nat) : BoardWiring where
  arena := (stage n).arena ++ [.clint, .plic]
  mmioItems := (stage n).mmioItems ++
    [⟨CLINT_BASE, CLINT_SIZE, n + 2⟩, ⟨PLIC_BASE, BitVec.ofNat 64 PLIC_SIZE, n + 3⟩]
  peripheralIrqDevices := (stage n).peripheralIrqDevices
  registered := (stage n).registered

section Wired

variable {files : HostFiles} {virtioDevices : List DeviceConfig}

theorem addUart_eq :
    addUart (new
      |>.addPowerManager POWER_MANAGER_BASE POWER_MANAGER_SIZE
      |>.addClint CLINT_BASE CLINT_SIZE
      |>.addPlic PLIC_BASE (BitVec.ofNat 64 PLIC_SIZE)) UART_BASE UART_SIZE UART_IRQ =
      .ok (stage 0) := by
  have halloc : update (fun _ => none) .uart16550A
      (some ⟨1, UART_BASE, UART_SIZE, some UART_IRQ⟩) = (stage 0).idAllocators := by
    funext d
    cases d <;> rfl
  have hslots : update (fun _ => none) (sourceOf 10) (some 1) = (stage 0).peripheralIrqDevices := by
    funext id
    revert id
    decide
  have hadd : addUart (new
      |>.addPowerManager POWER_MANAGER_BASE POWER_MANAGER_SIZE
      |>.addClint CLINT_BASE CLINT_SIZE
      |>.addPlic PLIC_BASE (BitVec.ofNat 64 PLIC_SIZE)) UART_BASE UART_SIZE UART_IRQ =
      .ok { stage 0 with
        idAllocators := update (fun _ => none) .uart16550A
          (some ⟨1, UART_BASE, UART_SIZE, some UART_IRQ⟩)
        peripheralIrqDevices := update (fun _ => none) (sourceOf 10) (some 1) } := rfl
  rw [hadd, halloc, hslots]

theorem wire_eq : VirtBoard.wire files virtioDevices =
    virtioDevices.foldlM (fun builder config => builder.addVirtioDevice files VIRTIO_MMIO_BASE
      VIRTIO_MMIO_SIZE VIRTIO_IRQ_BASE config) (stage 0) >>= wire := by
  rw [VirtBoard.wire]
  simp only [addUart_eq]
  rfl

theorem foldlM_stage {k : Nat} {b : RVBoardBuilder} (hk : k ≤ VIRTIO_MAX)
    (h : virtioDevices.foldlM (fun builder config => builder.addVirtioDevice files VIRTIO_MMIO_BASE
      VIRTIO_MMIO_SIZE VIRTIO_IRQ_BASE config) (stage k) = .ok b) :
    b = stage (k + virtioDevices.length) ∧ k + virtioDevices.length ≤ VIRTIO_MAX := by
  induction virtioDevices generalizing k with
  | nil => cases h; exact ⟨rfl, hk⟩
  | cons config rest ih =>
    rw [List.foldlM_cons] at h
    obtain ⟨b', hstep, hrest⟩ := Lib.exists_of_bind_ok h
    have hlt : k < VIRTIO_MAX := by
      refine lt_of_le_of_ne hk ?_
      rintro rfl
      rw [addVirtioDevice_full] at hstep
      cases hstep
    have hopens : config.opens files := by
      by_contra hno
      rw [addVirtioDevice, if_neg hno] at hstep
      cases hstep
    rw [addVirtioDevice_stage hopens hlt] at hstep
    cases hstep
    obtain ⟨rfl, hle⟩ := ih hlt hrest
    rw [List.length_cons]
    exact ⟨by rw [show k + (rest.length + 1) = k + 1 + rest.length by omega], by omega⟩

/-- Every list that can be opened and has sources is accepted. -/
theorem foldlM_stage_of_le {k : Nat} (hopens : ∀ config ∈ virtioDevices, config.opens files)
    (hle : k + virtioDevices.length ≤ VIRTIO_MAX) :
    virtioDevices.foldlM (fun builder config => builder.addVirtioDevice files VIRTIO_MMIO_BASE
      VIRTIO_MMIO_SIZE VIRTIO_IRQ_BASE config) (stage k) =
      .ok (stage (k + virtioDevices.length)) := by
  induction virtioDevices generalizing k with
  | nil => rfl
  | cons config rest ih =>
    rw [List.length_cons] at hle ⊢
    rw [List.foldlM_cons, addVirtioDevice_stage (hopens _ List.mem_cons_self) (by omega),
      show k + (rest.length + 1) = k + 1 + rest.length by omega]
    exact ih (fun c hc => hopens c (List.mem_cons_of_mem _ hc)) (by omega)

theorem wire_stage (n : Nat) : (stage n).wire = .ok (wired n) := by
  have hlen : (stage n).arena.length = n + 2 := stage_handle
  have hwire : (stage n).wire = .ok { wired n with
      mmioItems := (stage n).mmioItems ++ [⟨CLINT_BASE, CLINT_SIZE, (stage n).arena.length⟩,
        ⟨PLIC_BASE, BitVec.ofNat 64 PLIC_SIZE, (stage n).arena.length + 1⟩] } := rfl
  rw [hwire, hlen]
  rfl

theorem wire_of_ok {w : BoardWiring} (h : VirtBoard.wire files virtioDevices = .ok w) :
    w = wired virtioDevices.length ∧ virtioDevices.length ≤ VIRTIO_MAX := by
  rw [wire_eq] at h
  obtain ⟨b, hfold, hwire⟩ := Lib.exists_of_bind_ok h
  obtain ⟨rfl, hle⟩ := foldlM_stage (zero_le _) hfold
  rw [zero_add] at hwire hle
  rw [wire_stage] at hwire
  cases hwire
  exact ⟨rfl, hle⟩

theorem wire_of_le (hopens : ∀ config ∈ virtioDevices, config.opens files)
    (hle : virtioDevices.length ≤ VIRTIO_MAX) :
    VirtBoard.wire files virtioDevices = .ok (wired virtioDevices.length) := by
  rw [wire_eq, foldlM_stage_of_le hopens (by omega), zero_add]
  exact wire_stage _

end Wired

/-! ## Addresses -/

section Regions

variable {n : Nat}

theorem virtioItem_start {i : Nat} (hi : i < VIRTIO_MAX) :
    (virtioItem i).start.toNat = 0x10001000 + i * 0x1000 := by
  have h : ∀ i < 63, (virtioItem i).start.toNat = 0x10001000 + i * 0x1000 := by decide
  exact h i hi

theorem virtioItem_apart {i : Nat} {item : MemoryMapItem} (hi : i < VIRTIO_MAX)
    (h : item.start.toNat + item.size.toNat ≤ 0x10001000) : (virtioItem i).Apart item := by
  refine .inr ?_
  rw [virtioItem_start hi]
  omega

theorem virtioItems_apart (hn : n ≤ VIRTIO_MAX) :
    ((List.range n).map virtioItem).Pairwise Apart := by
  refine List.pairwise_map.2 (List.pairwise_lt_range.imp_of_mem fun hi hj hij => .inl ?_)
  rw [virtioItem_start (lt_of_lt_of_le (List.mem_range.1 hi) hn),
    virtioItem_start (lt_of_lt_of_le (List.mem_range.1 hj) hn)]
  change _ + 0x1000 ≤ _
  omega

/-- The regions of the other devices all end below the first virtio device. -/
theorem wired_apart (hn : n ≤ VIRTIO_MAX) : (wired n).mmioItems.Pairwise Apart := by
  have hcross : ∀ item : MemoryMapItem, item.start.toNat + item.size.toNat ≤ 0x10001000 →
      ∀ b ∈ (List.range n).map virtioItem, b.Apart item := by
    intro item hitem b hb
    obtain ⟨i, hi, rfl⟩ := List.mem_map.1 hb
    exact virtioItem_apart (lt_of_lt_of_le (List.mem_range.1 hi) hn) hitem
  refine List.pairwise_append.2 ⟨List.pairwise_append.2 ⟨?_, virtioItems_apart hn, ?_⟩, ?_, ?_⟩
  · exact List.pairwise_pair.2 (by decide)
  · intro a ha b hb
    exact (hcross a (by fin_cases ha <;> decide) b hb).symm
  · exact List.pairwise_pair.2 (by simp only [Apart]; decide)
  · intro a ha b hb
    rcases List.mem_append.1 ha with ha | ha
    · fin_cases ha <;> fin_cases hb <;> (simp only [Apart]; decide)
    · exact hcross b (by fin_cases hb <;> (dsimp only; decide)) a ha

theorem wired_below (hn : n ≤ VIRTIO_MAX) :
    ∀ item ∈ (wired n).mmioItems,
      item.start.toNat + item.size.toNat ≤ BASE_ADDR.toNat := by
  intro item hitem
  rcases List.mem_append.1 hitem with hitem | hitem
  · rcases List.mem_append.1 hitem with hitem | hitem
    · fin_cases hitem <;> decide
    · obtain ⟨i, hi, rfl⟩ := List.mem_map.1 hitem
      have hlt : i < VIRTIO_MAX := lt_of_lt_of_le (List.mem_range.1 hi) hn
      rw [virtioItem_start hlt]
      unfold VIRTIO_MAX at hlt
      change _ + 0x1000 ≤ 0x80000000
      omega
  · fin_cases hitem <;> (dsimp only; decide)

theorem wired_mapped : (wired n).mmioItems.map (·.device) = List.range (wired n).arena.length := by
  have hlen : (wired n).arena.length = 2 + n + 2 := by
    simp [wired, stage]
    omega
  have hvirtio : ((List.range n).map virtioItem).map (·.device) = (List.range n).map (2 + ·) := by
    rw [List.map_map]
    exact List.map_congr_left fun i _ => add_comm i 2
  rw [hlen, List.range_add, List.range_add]
  simp only [wired, stage, List.map_append, hvirtio]
  congr 1
  simp [List.range_succ]
  omega

/-- The regions of every board are such that an access finds its device. -/
theorem wired_wellPlaced (hn : n ≤ VIRTIO_MAX) : WellPlaced (wired n).mmioItems where
  disjoint := (wired_apart hn).imp Apart.disjoint
  below := wired_below hn
  nonempty := by
    intro item hitem
    rcases List.mem_append.1 hitem with hitem | hitem
    · rcases List.mem_append.1 hitem with hitem | hitem
      · fin_cases hitem <;> decide
      · obtain ⟨i, -, rfl⟩ := List.mem_map.1 hitem
        simp only [virtioItem]
        decide
    · fin_cases hitem <;> (dsimp only; decide)

end Regions

/-! ## Sources -/

section Sources

variable {n : Nat}

theorem sourceOf_val {i : Nat} (hi : i < VIRT_MAX_INTERRUPTS) : (sourceOf i).val = i :=
  mod_eq_of_lt hi

theorem mem_registered {r : Nat × Source} : r ∈ (wired n).registered ↔
    r = (1, sourceOf 10) ∨ ∃ i < n, r = (i + 2, sourceOf (i + 1)) := by
  simp only [wired, stage, List.mem_cons, List.mem_map, List.mem_range]
  exact or_congr_right ⟨fun ⟨i, hi, h⟩ => ⟨i, hi, h.symm⟩, fun ⟨i, hi, h⟩ => ⟨i, hi, h.symm⟩⟩

theorem wired_capable (d : Nat) (type : DeviceType) (hd : (wired n).arena[d]? = some type)
    (hcan : type.canInterrupt) : ∃ id, (d, id) ∈ (wired n).registered := by
  match d with
  | 0 => cases hd; cases hcan
  | 1 => exact ⟨_, mem_registered.2 (.inl rfl)⟩
  | d + 2 =>
    refine ⟨sourceOf (d + 1), mem_registered.2 (.inr ⟨d, ?_, rfl⟩)⟩
    -- behind the virtio devices there are only the controllers
    by_contra hge
    have hlast : ([DeviceType.clint, .plic])[d - n]? = some type := by
      simp only [wired, stage, List.cons_append, List.nil_append, List.getElem?_cons_succ] at hd
      rwa [List.getElem?_append_right (by simp; omega), List.length_replicate] at hd
    match d - n, hlast with
    | 0, h | 1, h => cases h; cases hcan

/-- As long as the virtio devices do not reach the source of the UART, every
device is in the table where it was registered. -/
theorem peripheralIrqDevices_of_registered (hn : n ≤ 9) {r : Nat × Source}
    (hr : r ∈ (wired n).registered) : (wired n).peripheralIrqDevices r.2 = some r.1 := by
  rcases mem_registered.1 hr with rfl | ⟨i, hi, rfl⟩
  · simp only [wired, stage]
    rw [sourceOf_val (by decide), if_neg (by omega), if_pos rfl]
  · simp only [wired, stage]
    rw [sourceOf_val (by unfold VIRT_MAX_INTERRUPTS; omega), if_pos (by omega)]

theorem wired_driven (hn : n ≤ 9) : (wired n).registered.Pairwise fun a b => a.2 ≠ b.2 := by
  have hne : ∀ i j, i < j → j < VIRT_MAX_INTERRUPTS → sourceOf i ≠ sourceOf j := by
    intro i j hij hj heq
    have := congrArg Fin.val heq
    rw [sourceOf_val (lt_trans hij hj), sourceOf_val hj] at this
    omega
  refine List.pairwise_cons.2 ⟨fun r hr => ?_, List.pairwise_map.2 ?_⟩
  · obtain ⟨i, hi, rfl⟩ := List.mem_map.1 hr
    have hlt := List.mem_range.1 hi
    exact (hne (i + 1) 10 (by omega) (by decide)).symm
  · refine List.pairwise_lt_range.imp_of_mem fun hi hj hij => ?_
    have hlt := List.mem_range.1 hj
    exact hne _ _ (by omega) (by unfold VIRT_MAX_INTERRUPTS; omega)

theorem wired_sampled (hn : n ≤ 9) (irqLevel : Nat → Bool) {r : Nat × Source}
    (hr : r ∈ (wired n).registered) :
    ((wired n).plic.syncPeripheralIrqLevels ((wired n).levels irqLevel)).layout.sourceLevel.getBit
      r.2 = irqLevel r.1 := by
  have hslot := peripheralIrqDevices_of_registered hn hr
  rw [PLIC.sync_sourceLevel]
  simp only [BoardWiring.plic, BoardWiring.levels, hslot, Option.isSome_some, if_true,
    Option.map_some, Option.getD_some]

/-- The tenth virtio device has the source of the UART. -/
theorem not_driven (hn : 10 ≤ n) : ¬(wired n).registered.Pairwise fun a b => a.2 ≠ b.2 := by
  intro h
  have hten : (11, sourceOf 10) ∈ (List.range n).map fun i => (i + 2, sourceOf (i + 1)) :=
    List.mem_map.2 ⟨9, List.mem_range.2 (by omega), rfl⟩
  exact (List.pairwise_cons.1 h).1 _ hten rfl

end Sources

/-- A board has no conflicts as long as it has at most nine virtio devices. -/
theorem board_wiring_iff (files : HostFiles) (virtioDevices : List DeviceConfig) (w : BoardWiring)
    (h : VirtBoard.wire files virtioDevices = .ok w) :
    w.ConflictFree ↔ virtioDevices.length ≤ 9 := by
  obtain ⟨rfl, hmax⟩ := wire_of_ok h
  constructor
  · intro hfree
    by_contra hgt
    exact not_driven (by omega) hfree.driven
  · intro hle
    exact {
      mapped := wired_mapped
      disjoint := (wired_wellPlaced hmax).disjoint
      below := (wired_wellPlaced hmax).below
      capable := wired_capable
      driven := wired_driven hle
      sampled := fun irqLevel r hr => wired_sampled hle irqLevel hr }

/-- A board with one disk. -/
theorem board_wiring_one_disk :
    ∃ w, VirtBoard.wire (fun _ => some 512) [⟨.block, some "disk.img"⟩] = .ok w ∧
      w.ConflictFree := by
  have hwire : VirtBoard.wire (fun _ => some 512) [⟨.block, some "disk.img"⟩] = .ok (wired 1) :=
    wire_of_le (by decide) (by decide)
  exact ⟨_, hwire, (board_wiring_iff _ _ _ hwire).2 (by decide)⟩

/-- A board with ten disks is accepted. The level of the UART is lost: the
controller sees that of the last disk in its place. -/
theorem board_wiring_ten_disks :
    ∃ w, VirtBoard.wire (fun _ => some 512) (List.replicate 10 ⟨.block, some "disk.img"⟩) = .ok w ∧
      (1, sourceOf 10) ∈ w.registered ∧ (11, sourceOf 10) ∈ w.registered ∧
      (w.plic.syncPeripheralIrqLevels (w.levels fun d => decide (d = 1))).layout.sourceLevel.getBit
        (sourceOf 10) = false := by
  have hwire : VirtBoard.wire (fun _ => some 512)
      (List.replicate 10 ⟨.block, some "disk.img"⟩) = .ok (wired 10) :=
    wire_of_le (by decide) (by decide)
  refine ⟨_, hwire, mem_registered.2 (.inl rfl), mem_registered.2 (.inr ⟨9, by decide, rfl⟩), ?_⟩
  rfl

end HereEmu
