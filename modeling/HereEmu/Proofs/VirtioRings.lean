import HereEmu.Proofs.BlockTurn

/-!
# The rings of a queue that is served

`QueueReady` computes the pointers of the device from the size and the
addresses the driver gave, and enables the queue only when all three lie in
RAM. Nothing else sets a pointer, but `QueueNum` sets the size the device uses
without a look at them. So the rings stay in RAM as long as no write to
`QueueNum` asks an enabled queue for a size `QueueReady` would have refused.

The invariant ties the device's queue to the transport's copy: an enabled queue
is `Checked`, a thread that serves works on an enabled queue, and during a
reset no queue is enabled.
-/

namespace HereEmu

open Lib VirtIOBlkDevice

namespace VirtQueue

open VirtIOMMIO (configure)

variable {q : VirtQueue}

/-- The pointers are what the check gives for the size and the addresses. -/
structure Checked (q : VirtQueue) : Prop where
  ready : q.ready
  desc : q.desc = guestRamPtr q.descPaddr (descBytes q.queueNum) VirtQueueDesc.align
  avail : q.avail = guestRamPtr q.availPaddr (availBytes q.queueNum) 2
  used : q.used = guestRamPtr q.usedPaddr (usedBytes q.queueNum) 4

theorem Checked.ringsInRam (h : q.Checked) : q.RingsInRam := by
  obtain ⟨hready, hdesc, havail, hused⟩ := h
  obtain ⟨_, hd, ha, hu⟩ := ready_iff.1 hready
  obtain ⟨desc, hd⟩ := Option.isSome_iff_exists.1 hd
  obtain ⟨avail, ha⟩ := Option.isSome_iff_exists.1 ha
  obtain ⟨used, hu⟩ := Option.isSome_iff_exists.1 hu
  have hfit {paddr : WordType} {len align offset : Nat} (hlen : len < 2 ^ 64)
      (hptr : guestRamPtr paddr len align = some offset) : offset + len ≤ SIZE :=
    (guestRamPtr_eq_some hlen hptr).2.2.2
  refine ⟨desc, avail, used, hd, ha, hu, ?_, ?_, ?_⟩
  · exact hfit (by unfold descBytes VirtQueueDesc.bytes; omega) (hdesc ▸ hd)
  · exact hfit (by unfold availBytes; omega) (havail ▸ ha)
  · exact hfit (by unfold usedBytes; omega) (hused ▸ hu)

/-- The queue as `QueueReady` would set it up at its addresses with another size. -/
def resized (q : VirtQueue) (num : BitVec 32) : VirtQueue :=
  configure q ⟨num, q.descPaddr, q.availPaddr, q.usedPaddr, true⟩

theorem configure_checked {s : VirtIOMMIOQueueStatus}
    (h : (configure q s).ready) : (configure q s).Checked :=
  ⟨h, rfl, rfl, rfl⟩

/-- A pointer does not depend on the length it was checked for. -/
theorem guestRamPtr_unique {paddr : WordType} {len len' align : Nat} {x : Option Nat}
    (hlen : len < 2 ^ 64) (hlen' : len' < 2 ^ 64) (h : x = guestRamPtr paddr len align)
    (hx : x.isSome) (h' : (guestRamPtr paddr len' align).isSome) :
    x = guestRamPtr paddr len' align := by
  obtain ⟨o, rfl⟩ := Option.isSome_iff_exists.1 hx
  obtain ⟨o', ho'⟩ := Option.isSome_iff_exists.1 h'
  rw [ho', (guestRamPtr_eq_some hlen h.symm).2.1, (guestRamPtr_eq_some hlen' ho').2.1]

/-- A size that would pass the check can be taken over without it. -/
theorem Checked.setQueueNum (h : q.Checked) {num : BitVec 32} (hnum : (q.resized num).ready) :
    (q.setQueueNum num).Checked := by
  obtain ⟨hne, hd', ha', hu'⟩ := ready_iff.1 hnum
  obtain ⟨_, hd, ha, hu⟩ := ready_iff.1 h.ready
  refine ⟨ready_iff.2 ⟨hne, hd, ha, hu⟩, ?_, ?_, ?_⟩
  · exact guestRamPtr_unique (by unfold descBytes VirtQueueDesc.bytes; omega)
      (by unfold descBytes VirtQueueDesc.bytes; exact (by omega : num.toNat * 16 < 2 ^ 64)) h.desc hd hd'
  · exact guestRamPtr_unique (by unfold availBytes; omega)
      (by unfold availBytes; exact (by omega : 4 + num.toNat * 2 < 2 ^ 64)) h.avail ha ha'
  · exact guestRamPtr_unique (by unfold usedBytes; omega)
      (by unfold usedBytes; exact (by omega : 4 + num.toNat * 8 < 2 ^ 64)) h.used hu hu'

theorem Checked.takeEntry {mem : Nat → BitVec 8} {taken : Option Taken} {q' : VirtQueue}
    (h : q.Checked) (ht : q.takeEntry mem = .ok (taken, q')) : q'.Checked := by
  rcases q.takeEntry_cases mem with ⟨h', _⟩ | ⟨_, h', _⟩ <;> cases h'.symm.trans ht
  · exact h
  · exact ⟨h.ready, h.desc, h.avail, h.used⟩

end VirtQueue

namespace VirtIOMMIO

variable {m : VirtIOMMIO} {value : BitVec 32}

def firstQueue : Fin VIRTIO_MMIO_MAX_QUEUES := ⟨0, by decide⟩

/-- Whether the one queue of the device is enabled. -/
def enabled (m : VirtIOMMIO) : Bool := (m.queues firstQueue).enable

/-- `QueueReady` sets the pointers anew, or leaves the device alone and enables
nothing that was not. -/
theorem writeQueueReady_cases (m : VirtIOMMIO) (value : BitVec 32) :
    ((m.writeQueueReady value).device.queue = m.device.queue ∧
        ((m.writeQueueReady value).enabled → m.enabled)) ∨
      ((m.writeQueueReady value).enabled →
        (m.writeQueueReady value).device.queue.Checked) := by
  unfold writeQueueReady
  split
  · exact .inl ⟨rfl, id⟩
  split
  · exact .inl ⟨rfl, id⟩
  · next q hq =>
      split
      · exact .inl ⟨rfl, id⟩
      dsimp only
      split
      · next hon =>
          -- the queue of the device is being enabled
          right
          have hsel : m.queueSelect = 0 := Nat.lt_one_iff.1 hon.2
          split
          · next hready => exact fun _ => VirtQueue.configure_checked hready
          · intro hen
            rw [enabled, updateSelected_queues, if_pos (by simp [hsel, firstQueue])] at hen
            cases hen
      · next hoff =>
          refine .inl ⟨by simp, fun hen => ?_⟩
          rw [enabled, updateSelected_queues] at hen
          split at hen
          · next hzero =>
              have hsel : m.queueSelect < getNumOfQueue := by
                rw [← hzero]
                exact Nat.one_pos
              exact absurd ⟨by simpa using hen, hsel⟩ hoff
          · exact hen

/-- `QueueNum` changes the size the device uses, when its queue is selected. -/
theorem writeQueueNum_cases (m : VirtIOMMIO) (value : BitVec 32) :
    (m.writeQueueNum value).enabled = m.enabled ∧
      ((m.writeQueueNum value).device.queue = m.device.queue ∨
        value ≠ 0 ∧ value.toNat ≤ VIRTQUEUE_MAX_SIZE ∧ m.queueSelect = 0 ∧
          (m.writeQueueNum value).device.queue = m.device.queue.setQueueNum value) := by
  have hkeep : KeepsQueue m (m.updateSelected fun q => { q with num := value }) :=
    .updateSelected fun _ => rfl
  have hsel : (m.updateSelected fun q => { q with num := value }).enabled = m.enabled :=
    hkeep.enable firstQueue
  unfold writeQueueNum
  split
  · exact ⟨rfl, .inl rfl⟩
  · next hval =>
      split
      · next hzero =>
          refine ⟨hsel, .inr ⟨fun h => hval (.inl h), Nat.not_lt.1 fun h => hval (.inr h),
            Nat.lt_one_iff.1 hzero, ?_⟩⟩
          simp
      · exact ⟨hsel, .inl (by simp)⟩

end VirtIOMMIO

namespace BlockSystem

variable {s s' : BlockSystem} {e : BlockEvent} {a : BlockAction}

/-- A write to `QueueNum` that reaches a device whose queue is enabled asks for
a size that `QueueReady` would accept at the addresses in use. -/
def SizesChecked (s : BlockSystem) : BlockEvent → Prop
  | .write .u32 addr data =>
    addr = 0x38 → s.thread = .idle → s.mmio.queueSelect = 0 → s.mmio.enabled →
      data.setWidth 32 ≠ 0#32 → (data.setWidth 32).toNat ≤ VIRTQUEUE_MAX_SIZE →
        (s.mmio.device.queue.resized (data.setWidth 32)).ready
  | _ => True

instance (s : BlockSystem) (e : BlockEvent) : Decidable (s.SizesChecked e) := by
  unfold SizesChecked
  split <;> infer_instance

/-- The device thread is inside `notify`. -/
def Serving (s : BlockSystem) : Prop :=
  s.thread = .notify ∨ (∃ used h i r, s.thread = .walking used h i r) ∨
    ∃ used r, s.thread = .walked used r

/-- The device thread is inside `reset`. -/
def Resetting (s : BlockSystem) : Prop :=
  s.thread = .sendBarrier ∨ s.thread = .awaitAck ∨ s.thread = .drained

structure RingInv (s : BlockSystem) : Prop where
  checked : s.mmio.enabled → s.mmio.device.queue.Checked
  serving : s.Serving → s.mmio.enabled
  resetting : s.Resetting → s.mmio.enabled = false

theorem RingInv.new (hostFeature : VirtIOFeatureSet) (generation : BitVec 32) (sectors : WordType)
    (file : BackingFile) (mem : Nat → BitVec 8) :
    (new hostFeature generation sectors file mem).RingInv where
  checked := fun h => by cases h
  serving := fun h => by rcases h with h | ⟨_, _, _, _, h⟩ | ⟨_, _, h⟩ <;> cases h
  resetting := fun _ => rfl

/-- A thread that is idle neither serves nor resets. -/
theorem RingInv.of_idle (hidle : s.thread = .idle)
    (h : s.mmio.enabled → s.mmio.device.queue.Checked) : s.RingInv where
  checked := h
  serving := fun hs => by
    rcases hs with hs | ⟨_, _, _, _, hs⟩ | ⟨_, _, hs⟩ <;> rw [hidle] at hs <;> cases hs
  resetting := fun hr => by rcases hr with hr | hr | hr <;> rw [hidle] at hr <;> cases hr

/-- A serving thread on an enabled queue does not reset. -/
theorem RingInv.of_serving (hserving : s.Serving) (hen : s.mmio.enabled)
    (h : s.mmio.device.queue.Checked) : s.RingInv where
  checked := fun _ => h
  serving := fun _ => hen
  resetting := fun hr => by
    rcases hserving with hs | ⟨_, _, _, _, hs⟩ | ⟨_, _, hs⟩ <;> rcases hr with hr | hr | hr <;>
      rw [hs] at hr <;> cases hr

/-- A resetting thread with no queue enabled does not serve. -/
theorem RingInv.of_resetting (hreset : s.Resetting) (hoff : s.mmio.enabled = false) : s.RingInv where
  checked := fun hen => by rw [hoff] at hen; cases hen
  serving := fun hs => by
    rcases hs with hs | ⟨_, _, _, _, hs⟩ | ⟨_, _, hs⟩ <;> rcases hreset with hr | hr | hr <;>
      rw [hs] at hr <;> cases hr
  resetting := fun _ => hoff

theorem RingInv.written {w : Width} {addr data : WordType} {out : VirtIOMMIO.Written}
    (hs : s.RingInv) (hidle : s.thread = .idle) (hsize : s.SizesChecked (.write w addr data))
    (hout : VirtIOMMIO.Effect s.mmio s.shared.isr w addr data out) :
    RingInv { s with mmio := out.mmio, thread := threadOf out.call, shared.isr := out.isr } := by
  cases hout with
  | config haddr =>
    refine .of_idle rfl fun hen => ?_
    have hqueue : (s.mmio.device.writeConfig (addr.toNat - VIRTIO_MMIO_CONFIG_OFFSET) w.bytes
        (w.truncate data)).queue = s.mmio.device.queue := by
      unfold writeConfig
      split <;> rfl
    rw [hqueue]
    exact hs.checked hen
  | queueNum hw haddr =>
    refine .of_idle rfl fun hen => ?_
    subst hw
    obtain ⟨henabled, hkeep | ⟨hne, hle, hsel, hset⟩⟩ :=
      s.mmio.writeQueueNum_cases (data.setWidth 32)
    · rw [henabled] at hen
      rw [hkeep]
      exact hs.checked hen
    · rw [henabled] at hen
      rw [hset]
      exact (hs.checked hen).setQueueNum
        (hsize (BitVec.eq_of_toNat_eq haddr) hidle hsel hen hne hle)
  | queueReady hw haddr =>
    refine .of_idle rfl fun hen => ?_
    rcases s.mmio.writeQueueReady_cases (data.setWidth 32) with ⟨hkeep, hwas⟩ | hchecked
    · rw [hkeep]
      exact hs.checked (hwas hen)
    · exact hchecked hen
  | notify henable => exact .of_serving (.inl rfl) henable (hs.checked henable)
  | reset => exact .of_resetting (.inl rfl) rfl
  | other hkeep =>
    refine .of_idle rfl fun hen => ?_
    have hen' : s.mmio.enabled := (hkeep.enable VirtIOMMIO.firstQueue).symm.trans hen
    rw [hkeep.queue]
    exact hs.checked hen'

/-- What a turn of the thread that serves leaves: the same registers, and a
thread that still serves or is idle. -/
theorem RingInv.served (hs : s.RingInv) (hserving : s.Serving)
    (hqueue : s.mmio.device.queue.Checked → s'.mmio.device.queue.Checked)
    (hen : s'.mmio.enabled = s.mmio.enabled)
    (hthread : s'.Serving ∨ s'.thread = .idle) : s'.RingInv := by
  have hwas := hs.serving hserving
  rcases hthread with h | h
  · exact .of_serving h (hen.trans hwas) (hqueue (hs.checked hwas))
  · exact .of_idle h fun _ => hqueue (hs.checked hwas)

theorem RingInv.step (hs : s.RingInv) (hsize : s.SizesChecked e) (h : s.step e = .ok (a, s')) :
    s'.RingInv := by
  cases step_turn h with
  | wait | read | refused => exact hs
  | written hidle hout => exact hs.written hidle hsize hout
  | guest mem | receive => exact ⟨hs.checked, hs.serving, hs.resetting⟩
  | full hthread => exact hs.served (.inl hthread) id rfl (.inr rfl)
  | empty hthread htake => exact hs.served (.inl hthread) (·.takeEntry htake) rfl (.inr rfl)
  | consume hthread htake =>
    exact hs.served (.inl hthread) (·.takeEntry htake) rfl (.inl (.inr (.inl ⟨_, _, _, _, rfl⟩)))
  | visit hthread htry hadd =>
    exact hs.served (.inr (.inl ⟨_, _, _, _, hthread⟩)) id rfl
      (.inl (.inr (.inl ⟨_, _, _, _, rfl⟩)))
  | chainEnd hthread htry =>
    exact hs.served (.inr (.inl ⟨_, _, _, _, hthread⟩)) id rfl (.inl (.inr (.inr ⟨_, _, rfl⟩)))
  | insert hthread | submit hthread =>
    exact hs.served (.inr (.inr ⟨_, _, hthread⟩)) id rfl (.inl (.inl rfl))
  | barrier hthread => exact .of_resetting (.inr (.inl rfl)) (hs.resetting (.inl hthread))
  | finishReset hthread =>
    have hoff : s.mmio.enabled = false := hs.resetting (.inr (.inr hthread))
    exact .of_idle rfl fun hen => absurd (hoff.symm.trans hen) (by decide)
  | @work io op todo shared htodo hrun =>
    -- an acknowledgement ends the wait of a thread in `reset`, nothing else
    by_cases hack : s.thread = .awaitAck ∧ op = .ack
    · obtain ⟨hthread, rfl⟩ := hack
      refine .of_resetting (.inr (.inr ?_)) (hs.resetting (.inr (.inl hthread)))
      rw [hthread]
      rfl
    · have hthread : wake s.thread op = s.thread := wake_eq_self hack
      refine ⟨hs.checked, fun h => hs.serving ?_, fun h => hs.resetting ?_⟩
      · simpa only [Serving, hthread] using h
      · simpa only [Resetting, hthread] using h

/-- Whatever the driver writes in whatever order: as long as no write to
`QueueNum` gives an enabled queue a size that would not pass the check of
`QueueReady`, the three rings are in RAM, for the size then in use, each time
the device thread goes to the queue. -/
theorem rings_inRam_when_served (hostFeature : VirtIOFeatureSet) (generation : BitVec 32)
    (sectors : WordType) (file : BackingFile) (mem : Nat → BitVec 8) (es : List BlockEvent)
    (hsizes : Always step SizesChecked (new hostFeature generation sectors file mem) es) :
    Always step (fun s e => e = .device → s.thread = .notify → s.mmio.device.queue.RingsInRam)
      (new hostFeature generation sectors file mem) es := by
  have hkeep : ∀ s e a s', RingInv s → SizesChecked s e → s.step e = .ok (a, s') → RingInv s' :=
    fun _ _ _ _ hs hsize h => hs.step hsize h
  refine Always.of_inv hkeep (fun s e hs _ _ hthread => ?_) (RingInv.new ..) hsizes
  exact (hs.checked (hs.serving (.inl hthread))).ringsInRam

/-- A board with a file of one sector and empty RAM. -/
def oneSector : BlockSystem := new VERSION_1 0 1 ⟨fun _ => 0, 512⟩ fun _ => 0

/-- The driver sets up a queue of eight entries, the descriptors in the last
128 bytes of RAM. -/
def setUpQueue : List BlockEvent :=
  [.write .u32 0x38 8, .write .u32 0x80 0x9fffff80, .write .u32 0x90 0x80000000,
    .write .u32 0xa0 0x80000100, .write .u32 0x44 1]

theorem rings_inRam_when_served_setup :
    Always step SizesChecked oneSector (setUpQueue ++ [.write .u32 0x50 0, .device]) ∧
      Always step (fun s e => e = .device → s.thread = .notify →
        s.mmio.device.queue.RingsInRam) oneSector
        (setUpQueue ++ [.write .u32 0x50 0, .device]) := by
  have h : Always step SizesChecked oneSector
      (setUpQueue ++ [.write .u32 0x50 0, .device]) := by decide +kernel
  exact ⟨h, rings_inRam_when_served _ _ _ _ _ _ h⟩

/-- A larger size after the queue has been enabled: the doorbell makes the
device thread go to a descriptor table that ends far behind RAM. -/
theorem rings_outside_ram_after_queueNum :
    ¬ Always step (fun s e => e = .device → s.thread = .notify →
        s.mmio.device.queue.RingsInRam) oneSector
      (setUpQueue ++ [.write .u32 0x38 1024, .write .u32 0x50 0] ++ [.device]) := by
  intro h
  obtain ⟨out, hout, hthread, hnum, hdesc⟩ : ∃ out, runAll step oneSector
      (setUpQueue ++ [.write .u32 0x38 1024, .write .u32 0x50 0]) = .ok out ∧
        out.2.thread = .notify ∧ out.2.mmio.device.queue.queueNum = 1024 ∧
        out.2.mmio.device.queue.desc = some 0x1fffff80 := by decide +kernel
  obtain ⟨desc, _, _, hdesc', _, _, hfits, _⟩ := (h.drop hout).1 rfl hthread
  rw [hdesc] at hdesc'
  cases hdesc'
  rw [hnum] at hfits
  exact absurd hfits (by decide)

end BlockSystem

end HereEmu
