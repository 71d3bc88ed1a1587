import HereEmu.Device.Virtio.System
import HereEmu.Proofs.BlockWorker

/-!
# The turns of the block system

`Turn` lists everything one event can do to the system, with the conditions it
is done under; `step_turn` says that a step is one of these. Invariants of runs
are proved by cases on it.

For a register write that ends at once `write_effect` does the same on the side
of the transport. Most registers have nothing to do with the queue the device
uses, the configuration space, or which queues are enabled, and they are one
case.
-/

namespace HereEmu

open Lib VirtIOMMIOOffset

namespace VirtIOMMIO

variable {m : VirtIOMMIO} {isr : BitVec 8} {w : Width} {addr data : WordType} {out : Written}
  {f : VirtIOMMIOQueueStatus → VirtIOMMIOQueueStatus}

@[simp] theorem updateSelected_device : (m.updateSelected f).device = m.device := by
  unfold updateSelected
  split <;> rfl

@[simp] theorem updateSelected_queueSelect : (m.updateSelected f).queueSelect = m.queueSelect := by
  unfold updateSelected
  split <;> rfl

theorem updateSelected_queues (i : Fin VIRTIO_MMIO_MAX_QUEUES) :
    (m.updateSelected f).queues i = if i.val = m.queueSelect then f (m.queues i) else m.queues i := by
  unfold updateSelected
  by_cases hi : i.val = m.queueSelect
  · have hlt : m.queueSelect < VIRTIO_MMIO_MAX_QUEUES := hi ▸ i.isLt
    have hidx : (⟨m.queueSelect, hlt⟩ : Fin VIRTIO_MMIO_MAX_QUEUES) = i := Fin.ext hi.symm
    rw [dif_pos hlt, if_pos hi, hidx]
    exact Function.update_self ..
  · rw [if_neg hi]
    split
    · next hlt => exact Function.update_of_ne (fun h => hi (by rw [h])) ..
    · rfl

/-- Neither the queue of the device, nor the configuration space, nor which
queues are enabled has changed. -/
structure KeepsQueue (m m' : VirtIOMMIO) : Prop where
  queue : m'.device.queue = m.device.queue
  config : m'.device.configRegion = m.device.configRegion
  enable : ∀ i, (m'.queues i).enable = (m.queues i).enable

theorem KeepsQueue.refl : KeepsQueue m m := ⟨rfl, rfl, fun _ => rfl⟩

theorem KeepsQueue.updateSelected (hf : ∀ q, (f q).enable = q.enable) :
    KeepsQueue m (m.updateSelected f) := by
  refine ⟨by simp, by simp, fun i => ?_⟩
  rw [updateSelected_queues]
  split
  · exact hf _
  · rfl

theorem KeepsQueue.writeStatus (value : BitVec 32) : KeepsQueue m (m.writeStatus value) := by
  unfold VirtIOMMIO.writeStatus VirtIOBlkDevice.setFeature
  dsimp only
  split
  · exact .refl
  · split
    · split <;> exact ⟨rfl, rfl, fun _ => rfl⟩
    · exact ⟨rfl, rfl, fun _ => rfl⟩

/-- What an accepted register write does. -/
inductive Effect (m : VirtIOMMIO) (isr : BitVec 8) (w : Width) (addr data : WordType) :
    Written → Prop
  | config (haddr : VIRTIO_MMIO_CONFIG_OFFSET ≤ addr.toNat) :
      Effect m isr w addr data ⟨{ m with
          device := m.device.writeConfig (addr.toNat - VIRTIO_MMIO_CONFIG_OFFSET) w.bytes
            (w.truncate data) }, isr, .none⟩
  | queueNum (hw : w = .u32) (haddr : addr.toNat = 0x38) :
      Effect m isr w addr data ⟨m.writeQueueNum (data.setWidth 32), isr, .none⟩
  | queueReady (hw : w = .u32) (haddr : addr.toNat = 0x44) :
      Effect m isr w addr data ⟨m.writeQueueReady (data.setWidth 32), isr, .none⟩
  | notify (henable : (m.queue? 0).any (·.enable)) :
      Effect m isr w addr data ⟨m, isr, .notify⟩
  | reset : Effect m isr w addr data ⟨m.resetRegisters, isr, .reset⟩
  | other {m' : VirtIOMMIO} {isr' : BitVec 8} (h : KeepsQueue m m') :
      Effect m isr w addr data ⟨m', isr', .none⟩

theorem tryFrom_eq_some {offset : Nat} :
    (tryFrom offset = some .queueNum → offset = 0x38) ∧
      (tryFrom offset = some .queueReady → offset = 0x44) := by
  unfold tryFrom
  constructor <;> split <;> simp

theorem writeU32Impl_effect (hw : w = .u32)
    (h : m.writeU32Impl isr addr.toNat (data.setWidth 32) = .ok out)
    (haddr : addr.toNat < VIRTIO_MMIO_CONFIG_OFFSET) : Effect m isr w addr data out := by
  unfold writeU32Impl at h
  split at h
  · cases h
  rw [if_neg (Nat.not_le.2 haddr)] at h
  split at h
  · cases h
    exact .other .refl
  · next reg hreg =>
      split at h
      case h_5 =>
        cases h
        exact .queueNum hw (tryFrom_eq_some.1 hreg)
      case h_6 =>
        cases h
        exact .queueReady hw (tryFrom_eq_some.2 hreg)
      case h_7 =>
        split at h
        · next hok =>
            cases h
            have hzero : (data.setWidth 32).toNat = 0 := Nat.lt_one_iff.1 hok.1
            exact .notify (hzero ▸ hok.2)
        · cases h
          exact .other .refl
      case h_9 =>
        split at h
        · cases h
          exact .reset
        · cases h
          exact .other (.writeStatus _)
      all_goals first
        | (cases h; exact .other .refl)
        | (cases h; exact .other ⟨rfl, rfl, fun _ => rfl⟩)
        | (cases h; exact .other (.updateSelected fun _ => rfl))
        | cases h

/-- An accepted write is to the configuration space, or is one of 32 bits to a register. -/
theorem write_cases (h : m.write isr w addr data = .ok (.ok out)) :
    (VIRTIO_MMIO_CONFIG_OFFSET ≤ addr.toNat ∧ out = ⟨{ m with
        device := m.device.writeConfig (addr.toNat - VIRTIO_MMIO_CONFIG_OFFSET) w.bytes
          (w.truncate data) }, isr, .none⟩) ∨
      addr.toNat < VIRTIO_MMIO_CONFIG_OFFSET ∧ w = .u32 ∧
        m.writeU32Impl isr addr.toNat (data.setWidth 32) = .ok out := by
  unfold write at h
  split at h
  · next haddr =>
      split at h
      · cases h
      · cases h
        exact .inl ⟨haddr, rfl⟩
  · next haddr =>
      split at h
      · cases h
      · next hw =>
          obtain ⟨out', hr, ⟨⟩⟩ := exists_of_bind_ok h
          have hu32 : w = .u32 := by cases w <;> simp [Width.bytes] at hw ⊢
          exact .inr ⟨Nat.not_le.1 haddr, hu32, hr⟩

theorem write_effect (h : m.write isr w addr data = .ok (.ok out)) :
    Effect m isr w addr data out := by
  rcases write_cases h with ⟨haddr, rfl⟩ | ⟨haddr, hw, hr⟩
  · exact .config haddr
  · exact writeU32Impl_effect hw hr haddr

theorem writeU32Impl_isr {offset : Nat} {value : BitVec 32}
    (h : m.writeU32Impl isr offset value = .ok out) :
    out.isr = isr ∨ ∃ mask, out.isr = isr &&& mask := by
  unfold writeU32Impl at h
  split at h
  · cases h
  split at h
  · rw [← Except.ok.inj h]
    exact .inl rfl
  split at h
  · cases h
    exact .inl rfl
  split at h
  case h_8 =>
    cases h
    exact .inr ⟨_, rfl⟩
  all_goals first
    | (cases h; exact .inl rfl)
    | (split at h <;> cases h <;> exact .inl rfl)
    | cases h

/-- No register write raises an interrupt. -/
theorem write_isr (h : m.write isr w addr data = .ok (.ok out)) (hisr : isr = 0) : out.isr = 0 := by
  rcases write_cases h with ⟨_, rfl⟩ | ⟨_, _, hr⟩
  · exact hisr
  · rcases writeU32Impl_isr hr with hsame | ⟨mask, hmask⟩
    · exact hsame.trans hisr
    · rw [hmask, hisr]
      exact BitVec.zero_and

end VirtIOMMIO

namespace BlockSystem

/-- What one event can do. -/
inductive Turn (s : BlockSystem) : BlockEvent → BlockAction → BlockSystem → Prop
  | wait (e : BlockEvent) : Turn s e .wait s
  | read (w : Width) (addr : WordType) (r : Except DeviceError WordType) :
      Turn s (.read w addr) (.answer r) s
  | refused (w : Width) (addr data : WordType) (e : DeviceError) :
      Turn s (.write w addr data) (.answer (.error e)) s
  | written {w : Width} {addr data : WordType} {out : VirtIOMMIO.Written} (hidle : s.thread = .idle)
      (hout : VirtIOMMIO.Effect s.mmio s.shared.isr w addr data out) :
      Turn s (.write w addr data) (.answer (.ok 0)) { s with
        mmio := out.mmio, thread := threadOf out.call, shared.isr := out.isr }
  | guest (mem : Nat → BitVec 8) : Turn s (.guest mem) .guest { s with shared.mem := mem }
  | full (hthread : s.thread = .notify) : Turn s .device .device { s with thread := .idle }
  | empty {queue : VirtQueue} (hthread : s.thread = .notify)
      (htake : s.mmio.device.queue.takeEntry s.shared.mem = .ok (none, queue)) :
      Turn s .device .device { s with mmio.device.queue := queue, thread := .idle }
  | consume {taken : VirtQueue.Taken} {queue : VirtQueue} (hthread : s.thread = .notify)
      (htake : s.mmio.device.queue.takeEntry s.shared.mem = .ok (some taken, queue)) :
      Turn s .device (.consume taken.completion) { s with
        mmio.device.queue := queue, thread := .walking taken.completion taken.handle 0 .new }
  | visit {used : VirtQueueCompletion} {handle handle' : VirtQueueDescHandle} {idx : Nat}
      {request request' : BlkRequest} {desc : VirtQueueDesc}
      (hthread : s.thread = .walking used handle idx request)
      (htry : handle.tryGet s.shared.mem = .ok (some desc, handle'))
      (hadd : request.add s.shared.mem desc idx = .ok request') :
      Turn s .device .device { s with thread := .walking used handle' (idx + 1) request' }
  | chainEnd {used : VirtQueueCompletion} {handle handle' : VirtQueueDescHandle} {idx : Nat}
      {request : BlkRequest} (hthread : s.thread = .walking used handle idx request)
      (htry : handle.tryGet s.shared.mem = .ok (none, handle')) :
      Turn s .device .device { s with thread := .walked used request }
  | insert {used : VirtQueueCompletion} {request : BlkRequest} {mem : Nat → BitVec 8}
      (hthread : s.thread = .walked used request) (hstatus : request.statusAddr = none)
      (hused : used.complete s.shared.mem 0 = .ok mem) :
      Turn s .device (.insert used) { s with thread := .notify, shared.mem := mem }
  | submit {used : VirtQueueCompletion} {request : BlkRequest} {a : Nat}
      (hthread : s.thread = .walked used request) (hstatus : request.statusAddr = some a) :
      Turn s .device (.submit (s.mmio.device.requestTask request ⟨a, used⟩)) { s with
        thread := .notify, channel := s.channel ++ [s.mmio.device.requestTask request ⟨a, used⟩] }
  | barrier (hthread : s.thread = .sendBarrier) :
      Turn s .device (.submit .drainBarrier) { s with
        thread := .awaitAck, channel := s.channel ++ [.drainBarrier] }
  | finishReset (hthread : s.thread = .drained) :
      Turn s .device .device { s with
        mmio.device := s.mmio.device.reset, thread := .idle, shared.isr := 0 }
  | receive (io : Nat → HostIo) {task : VirtIOBlockAsyncTask} {channel : List VirtIOBlockAsyncTask}
      (htodo : s.worker.todo = []) (hchannel : s.channel = task :: channel) :
      Turn s (.worker io) (.receive task) { s with
        channel,
        worker := ⟨some task, [], VirtIOBlockAsyncWorker.runTask s.shared.file.len io task⟩ }
  | work (io : Nat → HostIo) {op : WorkerOp} {todo : List WorkerOp} {shared : BlockShared}
      (htodo : s.worker.todo = op :: todo) (hrun : op.run s.shared = .ok shared) :
      Turn s (.worker io) (.work op) { s with
        thread := wake s.thread op, worker := ⟨s.worker.task, s.worker.done ++ [op], todo⟩, shared }

variable {s s' : BlockSystem} {e : BlockEvent} {a : BlockAction}

theorem deviceStep_turn (h : s.deviceStep = .ok (a, s')) : Turn s .device a s' := by
  unfold deviceStep at h
  split at h
  · cases h
    exact .wait _
  · next hthread =>
      unfold takeEntry at h
      split at h
      · cases h
        exact .full hthread
      · obtain ⟨⟨taken, queue⟩, hq, h⟩ := exists_of_bind_ok h
        cases taken with
        | none =>
          cases h
          exact .empty hthread hq
        | some taken =>
          cases h
          exact .consume hthread hq
  · next used handle idx request hthread =>
      obtain ⟨⟨desc, handle'⟩, htry, h⟩ := exists_of_bind_ok h
      cases desc with
      | none =>
        cases h
        exact .chainEnd hthread htry
      | some desc =>
        obtain ⟨request', hadd, ⟨⟩⟩ := exists_of_bind_ok h
        exact .visit hthread htry hadd
  · next used request hthread =>
      obtain ⟨out, hfin, h⟩ := exists_of_bind_ok h
      rcases VirtIOBlkDevice.finishRequest_cases hfin with
        ⟨hstatus, htask, hused⟩ | ⟨a, hstatus, _, htask⟩
      · rw [htask] at h
        cases h
        exact .insert hthread hstatus hused
      · rw [htask] at h
        cases h
        exact .submit hthread hstatus
  · next hthread =>
      split at h
      · cases h
        exact .barrier hthread
      · cases h
        exact .wait _
  · cases h
    exact .wait _
  · next hthread =>
      cases h
      exact .finishReset hthread

theorem workerStep_turn {io : Nat → HostIo} (h : s.workerStep io = .ok (a, s')) :
    Turn s (.worker io) a s' := by
  unfold workerStep at h
  split at h
  · next op todo htodo =>
      obtain ⟨shared, hrun, ⟨⟩⟩ := exists_of_bind_ok h
      exact .work io htodo hrun
  · next htodo =>
      split at h
      · cases h
        exact .wait _
      · next task channel hchannel =>
          cases h
          exact .receive io htodo hchannel

/-- A register write waits, is refused, or is made by a thread that is idle. -/
theorem step_write {w : Width} {addr data : WordType}
    (h : s.step (.write w addr data) = .ok (a, s')) :
    (a = .wait ∧ s' = s ∧ s.thread ≠ .idle) ∨
      (∃ e, a = .answer (.error e) ∧ s' = s ∧
        s.mmio.write s.shared.isr w addr data = .ok (.error e)) ∨
      ∃ out, a = .answer (.ok 0) ∧ s.thread = .idle ∧
        s.mmio.write s.shared.isr w addr data = .ok (.ok out) ∧
        s' = { s with mmio := out.mmio, thread := threadOf out.call, shared.isr := out.isr } := by
  simp only [step, guestWrite] at h
  split at h
  · next hidle =>
      obtain ⟨r, hr, h⟩ := exists_of_bind_ok h
      cases r with
      | error e =>
        cases h
        exact .inr (.inl ⟨e, rfl, rfl, hr⟩)
      | ok out =>
        cases h
        exact .inr (.inr ⟨out, rfl, hidle, hr, rfl⟩)
  · next hidle =>
      cases h
      exact .inl ⟨rfl, rfl, hidle⟩

/-- A step is one of the turns. -/
theorem step_turn (h : s.step e = .ok (a, s')) : Turn s e a s' := by
  cases e with
  | read w addr =>
    simp only [step, guestRead] at h
    split at h
    · obtain ⟨r, _, ⟨⟩⟩ := exists_of_bind_ok h
      exact .read w addr r
    · cases h
      exact .wait _
  | write w addr data =>
    rcases step_write h with ⟨rfl, rfl, _⟩ | ⟨e, rfl, rfl, _⟩ | ⟨out, rfl, hidle, hwrite, rfl⟩
    · exact .wait _
    · exact .refused w addr data e
    · have heffect := VirtIOMMIO.write_effect hwrite
      exact .written hidle heffect
  | guest mem =>
    cases h
    exact .guest mem
  | device => exact deviceStep_turn h
  | worker io => exact workerStep_turn h

end BlockSystem

end HereEmu
