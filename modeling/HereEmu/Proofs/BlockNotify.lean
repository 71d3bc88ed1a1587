import HereEmu.Proofs.BlockReset

/-!
# No entry is left behind

`notify` gives up when the channel is full. The driver's side of the bargain is
a credit: it never has more chains available and not returned than the queue has
entries. A chain that is not returned is waiting in the available ring, in the
hands of the device thread, in the channel, or with the worker, so as long as
one is waiting the channel holds fewer tasks than the queue has entries, and
those are no more than its capacity. So `notify` goes on until nothing waits.

What waits is a difference of two free-running 16-bit indices; that is the only
place where they wrap.

`notifyRank` is the number of turns of the device thread a call needs when no
chain has more than `k` descriptors.
-/

namespace HereEmu

open Lib VirtQueueAvail VirtQueue VirtIOMMIO List

namespace VirtQueue

variable {q q' : VirtQueue} {mem : Nat → BitVec 8}

theorem takeEntry_eq_none (h : q.takeEntry mem = .ok (none, q')) : q = q' := by
  rcases q.takeEntry_cases mem with ⟨h', _⟩ | ⟨_, h', _⟩ <;> cases h'.symm.trans h
  rfl

end VirtQueue

namespace BlockSystem

open BlockAction

variable {s s' t : BlockSystem} {e : BlockEvent} {a : BlockAction} {es : List BlockEvent}
  {os : List BlockAction} {avail k : Nat}

/-! ## The credit of the driver -/

/-- Chains the driver has made available and the device has not consumed. -/
def waiting (s : BlockSystem) (avail : Nat) : Nat :=
  (idx s.shared.mem avail - s.mmio.device.queue.lastAvailIdx).toNat

/-- Chains made available and not yet returned in the used ring. -/
def outstanding (s : BlockSystem) (avail : Nat) : Nat := s.waiting avail + s.inFlight.length

/-- Chains made available during a run: what is added to the index of the ring. -/
def published (avail : Nat) : BlockSystem → List BlockEvent → Nat
  | _, [] => 0
  | s, e :: es =>
    match s.step e with
    | .error _ => 0
    | .ok (_, s') =>
      (idx s'.shared.mem avail - idx s.shared.mem avail).toNat + published avail s' es

/-- The queue has no available ring but the one at `avail`, and there is no reset
going on. -/
def Configured (avail : Nat) (s : BlockSystem) (_ : BlockEvent) : Prop :=
  (∀ base, s.mmio.device.queue.avail = some base → base = avail) ∧ ¬ s.Resetting

theorem effect_lastAvailIdx {m : VirtIOMMIO} {isr : BitVec 8} {w : Width} {addr data : WordType}
    {out : Written} (h : Effect m isr w addr data out) :
    out.mmio.device.queue.lastAvailIdx = m.device.queue.lastAvailIdx := by
  cases h with
  | config =>
    unfold VirtIOBlkDevice.writeConfig
    split <;> rfl
  | queueNum =>
    rcases (m.writeQueueNum_cases (data.setWidth 32)).2 with hkeep | ⟨_, _, _, hset⟩
    · exact congrArg VirtQueue.lastAvailIdx hkeep
    · rw [hset]
      rfl
  | queueReady =>
    unfold writeQueueReady
    split
    · rfl
    split
    · rfl
    split
    · rfl
    dsimp only
    split
    · split
      · simp [ configure, setUsed, setAvail, setDesc, setQueueNum]
      · simp [ configure, setUsed, setAvail, setDesc, setQueueNum]
    · simp
  | notify => rfl
  | reset => rfl
  | other hkeep => exact congrArg VirtQueue.lastAvailIdx hkeep.queue

/-- The device goes on by one with each entry it consumes. -/
theorem lastAvailIdx_step (hconf : s.Configured avail e) (h : s.step e = .ok (a, s')) :
    consumed? a = none ∧ s'.mmio.device.queue.lastAvailIdx = s.mmio.device.queue.lastAvailIdx ∨
      (consumed? a).isSome ∧ s'.shared.mem = s.shared.mem ∧
        s.mmio.device.queue.lastAvailIdx ≠ idx s.shared.mem avail ∧
        s'.mmio.device.queue.lastAvailIdx = s.mmio.device.queue.lastAvailIdx + 1 := by
  cases step_turn h with
  | written _ hout => exact .inl ⟨rfl, effect_lastAvailIdx hout⟩
  | empty _ htake =>
    obtain rfl := VirtQueue.takeEntry_eq_none htake
    exact .inl ⟨rfl, rfl⟩
  | consume _ htake =>
    obtain ⟨⟨_, base, _, _, hbase, _, _, _, _, hne⟩, hq'⟩ := takeEntry_eq_some htake
    obtain rfl := hconf.1 base hbase
    exact .inr ⟨rfl, rfl, hne, by rw [hq']⟩
  | finishReset hthread => exact absurd (.inr (.inr hthread)) hconf.2
  | _ => exact .inl ⟨rfl, rfl⟩

/-- What the index moves by is made available; nothing else adds to what waits. -/
theorem waiting_step (hconf : s.Configured avail e) (h : s.step e = .ok (a, s')) :
    s'.waiting avail + (consumed? a).toList.length ≤ s.waiting avail +
      (idx s'.shared.mem avail - idx s.shared.mem avail).toNat := by
  unfold waiting
  rcases lastAvailIdx_step hconf h with ⟨hnone, hlast⟩ | ⟨hsome, hmem, hne, hlast⟩
  · rw [hnone, hlast]
    generalize idx s'.shared.mem avail = i'
    generalize idx s.shared.mem avail = i
    generalize s.mmio.device.queue.lastAvailIdx = l
    show (i' - l).toNat ≤ (i - l).toNat + (i' - i).toNat
    bv_omega
  · obtain ⟨c, hc⟩ := Option.isSome_iff_exists.1 hsome
    rw [hc, hlast, hmem]
    generalize idx s.shared.mem avail = i at hne ⊢
    generalize s.mmio.device.queue.lastAvailIdx = l at hne ⊢
    show (i - (l + 1)).toNat + 1 ≤ (i - l).toNat + (i - i).toNat
    bv_omega

theorem waiting_run (hconf : Always step (Configured avail) s es)
    (h : runAll step s es = .ok (os, t)) :
    t.waiting avail + (os.filterMap consumed?).length ≤ s.waiting avail + published avail s es := by
  induction es generalizing s os with
  | nil =>
    cases h
    exact Nat.le_refl _
  | cons e es ih =>
    obtain ⟨a, s', os', hs, hrest, rfl⟩ := runAll_cons h
    have hstep := waiting_step hconf.1 hs
    have := ih (hconf.2 a s' hs) hrest
    rw [filterMap_cons_toList, length_append, published, hs]
    dsimp only
    omega

/-- What is outstanding is what has been made available and not returned. -/
theorem outstanding_run (hconf : Always step (Configured avail) s es)
    (h : runAll step s es = .ok (os, t)) :
    t.outstanding avail + (os.filterMap inserted?).length ≤
      s.outstanding avail + published avail s es := by
  have hflight := (inFlight_run h).length_eq
  have hwaiting := waiting_run hconf h
  simp only [length_append] at hflight
  unfold outstanding
  omega

/-- Every task in the channel that is not a barrier is a request in flight. -/
theorem channel_length_le (h : .drainBarrier ∉ s.channel) :
    s.channel.length ≤ s.inFlight.length := by
  have hall : ∀ channel : List VirtIOBlockAsyncTask, .drainBarrier ∉ channel →
      (channel.filterMap VirtIOBlockAsyncTask.used?).length = channel.length := by
    intro channel hnot
    induction channel with
    | nil => rfl
    | cons task channel ih =>
      rw [mem_cons, not_or] at hnot
      rw [filterMap_cons_toList, length_append, ih hnot.2, length_cons]
      cases task with
      | drainBarrier => exact absurd rfl hnot.1
      | _ => exact Nat.add_comm ..
  rw [inFlight, fifo, length_append, length_append, hall _ h]
  omega

/-! ## One call of `notify` -/

theorem Serving.not_resetting (h : s.Serving) : ¬ s.Resetting := by
  intro hreset
  rcases h with h | ⟨_, _, _, _, h⟩ | ⟨_, _, h⟩ <;> rcases hreset with hr | hr | hr <;>
    rw [h] at hr <;> cases hr

theorem Serving.not_idle (h : s.Serving) : s.thread ≠ .idle := by
  intro hidle
  rcases h with h | ⟨_, _, _, _, h⟩ | ⟨_, _, h⟩ <;> rw [hidle] at h <;> cases h

/-- The call leaves the queue alone, but for the entries it consumes. It returns
when there is no room or no entry. -/
theorem Serving.step (hs : s.Serving) (h : s.step e = .ok (a, s')) :
    s'.Serving ∧ s'.mmio.device.queue =
        { s.mmio.device.queue with lastAvailIdx := s'.mmio.device.queue.lastAvailIdx } ∨
      s'.thread = .idle ∧ s'.shared = s.shared ∧ s'.mmio.device.queue = s.mmio.device.queue ∧
        (s.hasRoom = false ∨
          s.mmio.device.queue.takeEntry s.shared.mem = .ok (none, s.mmio.device.queue)) := by
  have hnotReset := hs.not_resetting
  cases step_turn h with
  | wait | read | refused | guest | receive => exact .inl ⟨hs, rfl⟩
  | written hidle => exact absurd hidle hs.not_idle
  | full hthread =>
    refine .inr ⟨rfl, rfl, rfl, ?_⟩
    -- with room the thread looks for an entry, and it has not found one
    cases hroom : s.hasRoom with
    | false => exact .inl rfl
    | true =>
      simp only [step, deviceStep, hthread, takeEntry, hroom, Bool.not_true,
        Bool.false_eq_true, if_false, bind, Except.bind, pure, Except.pure] at h
      split at h
      · cases h
      · next out hout =>
          obtain ⟨_ | taken, q⟩ := out
          · obtain rfl := VirtQueue.takeEntry_eq_none hout
            exact .inr hout
          · cases h
  | empty hthread htake =>
    obtain rfl := VirtQueue.takeEntry_eq_none htake
    exact .inr ⟨rfl, rfl, rfl, .inr htake⟩
  | consume _ htake =>
    refine .inl ⟨.inr (.inl ⟨_, _, _, _, rfl⟩), ?_⟩
    rw [(takeEntry_eq_some htake).2]
  | visit => exact .inl ⟨.inr (.inl ⟨_, _, _, _, rfl⟩), rfl⟩
  | chainEnd => exact .inl ⟨.inr (.inr ⟨_, _, rfl⟩), rfl⟩
  | insert | submit => exact .inl ⟨.inl rfl, rfl⟩
  | barrier hthread => exact absurd (.inl hthread) hnotReset
  | finishReset hthread => exact absurd (.inr (.inr hthread)) hnotReset
  | @work io op todo shared htodo hrun =>
    have hwake : wake s.thread op = s.thread :=
      wake_eq_self fun hack => hnotReset (.inr (.inl hack.1))
    refine .inl ⟨?_, rfl⟩
    simpa only [Serving, hwake] using hs

/-- Nothing changes the index of the ring: the driver waits for its write to
return, and what it lent to the device is not the ring. -/
def KeepsIndex (avail : Nat) (s : BlockSystem) (e : BlockEvent) : Prop :=
  ∀ a s', s.step e = .ok (a, s') → idx s'.shared.mem avail = idx s.shared.mem avail
  deriving Decidable

theorem outstanding_step (hconf : s.Configured avail e) (hkeep : s.KeepsIndex avail e)
    (h : s.step e = .ok (a, s')) : s'.outstanding avail ≤ s.outstanding avail := by
  have hle := outstanding_run (show Always step (Configured avail) s [e] from
    ⟨hconf, fun _ _ _ => trivial⟩) (runAll_singleton h)
  have hzero : published avail s [e] = 0 := by
    rw [published, h]
    dsimp only
    rw [hkeep a s' h, BitVec.sub_self]
    rfl
  omega

/-- A device thread in `notify`, with a driver that kept to its credit. -/
structure Notifying (avail : Nat) (s : BlockSystem) : Prop where
  serving : s.Serving
  barriers : s.Barriers
  ready : s.mmio.device.queue.ready
  ring : s.mmio.device.queue.avail = some avail
  credit : s.outstanding avail ≤ VIRTIO_BLOCK_TASK_CAPACITY

/-- As long as an entry waits there is room for its task. -/
theorem Notifying.hasRoom (hs : s.Notifying avail)
    (hwaits : s.mmio.device.queue.lastAvailIdx ≠ idx s.shared.mem avail) : s.hasRoom := by
  have hplain : s.thread.barred = false := by
    rcases hs.serving with h | ⟨_, _, _, _, h⟩ | ⟨_, _, h⟩ <;> rw [h] <;> rfl
  have hchannel := channel_length_le ((barriers_iff hplain).1 hs.barriers).1
  have hwaiting : 1 ≤ s.waiting avail := by
    unfold waiting
    generalize idx s.shared.mem avail = i at hwaits ⊢
    generalize s.mmio.device.queue.lastAvailIdx = l at hwaits ⊢
    bv_omega
  have hcredit := hs.credit
  unfold outstanding at hcredit
  exact decide_eq_true (by omega)

/-- A turn leaves the call under way, or it returns with nothing left to consume. -/
theorem Notifying.step (hs : s.Notifying avail) (hkeep : s.KeepsIndex avail e)
    (h : s.step e = .ok (a, s')) :
    s'.Notifying avail ∨ s'.thread = .idle ∧
      s'.mmio.device.queue.lastAvailIdx = idx s'.shared.mem avail := by
  rcases hs.serving.step h with ⟨hserving, hqueue⟩ | ⟨hidle, hshared, hqueue, hwhy⟩
  · have hconf : s.Configured avail e := by
      refine ⟨fun base hbase => ?_, hs.serving.not_resetting⟩
      rw [hs.ring] at hbase
      exact (Option.some.inj hbase).symm
    have hcredit := Nat.le_trans (outstanding_step hconf hkeep h) hs.credit
    refine .inl ⟨hserving, hs.barriers.step h, ?_, ?_, hcredit⟩
    · rw [hqueue]
      exact hs.ready
    · rw [hqueue]
      exact hs.ring
  · refine .inr ⟨hidle, ?_⟩
    rw [hqueue, hshared]
    by_contra hwaits
    rcases hwhy with hfull | hnone
    · rw [hs.hasRoom hwaits] at hfull
      cases hfull
    · rcases s.mmio.device.queue.takeEntry_cases s.shared.mem with ⟨_, hempty⟩ | ⟨_, hsome, _⟩
      · exact hwaits (hempty avail hs.ready hs.ring)
      · rw [hnone] at hsome
        cases hsome

/-- The call returns with everything consumed that was available when it began. -/
theorem Notifying.returned (hs : s.Notifying avail)
    (hkeep : Always BlockSystem.step (KeepsIndex avail) s es) (h : s.Returns es os t) :
    t.mmio.device.queue.lastAvailIdx = idx s.shared.mem avail := by
  obtain ⟨hrun, hbusy, hidle⟩ := h
  induction es generalizing s os with
  | nil =>
    cases hrun
    exact absurd hidle hs.serving.not_idle
  | cons e es ih =>
    obtain ⟨a, s', os', hstep, hrest, rfl⟩ := runAll_cons hrun
    have hbusy' := hbusy.2 a s' hstep
    rw [← hkeep.1 a s' hstep]
    rcases hs.step hkeep.1 hstep with hs' | ⟨hidle', hlast⟩
    · exact ih hs' (hkeep.2 a s' hstep) hrest hbusy'
    · -- the thread is idle, so this was the last turn
      cases es with
      | nil =>
        cases hrest
        exact hlast
      | cons e' es => exact absurd hidle' hbusy'.1

/-! ## The call returns -/

/-- The walk along a chain is not past its `k`-th descriptor. -/
def WalksWithin (k : Nat) (s : BlockSystem) (_ : BlockEvent) : Prop :=
  ∀ used handle i r, s.thread = .walking used handle i r → i ≤ k

/-- The turns until the device thread is done with the entry in hand. -/
def threadRank (k : Nat) : DeviceThread → Nat
  | .notify => 1
  | .walking _ _ i _ => k + 1 - i + 3
  | .walked _ _ => 2
  | _ => 0

def notifyRank (k avail : Nat) (s : BlockSystem) : Nat :=
  threadRank k s.thread + s.waiting avail * (k + 4)

/-- Every turn of the device thread pays, and no other turn adds to the bill. -/
theorem notifyRank_step (hs : s.Serving) (hconf : s.Configured avail e)
    (hkeep : s.KeepsIndex avail e) (hwalk : s.WalksWithin k e) (h : s.step e = .ok (a, s')) :
    s'.notifyRank k avail ≤ s.notifyRank k avail ∧
      (e.isDevice → s'.notifyRank k avail < s.notifyRank k avail) := by
  have hwaiting := waiting_step hconf h
  rw [hkeep a s' h, BitVec.sub_self, BitVec.toNat_zero, Nat.add_zero] at hwaiting
  have hmul := Nat.mul_le_mul_right (k + 4) hwaiting
  have hle : s'.waiting avail * (k + 4) ≤ s.waiting avail * (k + 4) :=
    Nat.mul_le_mul_right _ (Nat.le_of_add_right_le hwaiting)
  have hlt : threadRank k s'.thread < threadRank k s.thread →
      s'.notifyRank k avail < s.notifyRank k avail :=
    fun h => Nat.add_lt_add_of_lt_of_le h hle
  have hdevice : s'.notifyRank k avail < s.notifyRank k avail →
      s'.notifyRank k avail ≤ s.notifyRank k avail ∧
        (e.isDevice → s'.notifyRank k avail < s.notifyRank k avail) :=
    fun h => ⟨Nat.le_of_lt h, fun _ => h⟩
  have hnotReset := hs.not_resetting
  cases step_turn h with
  | wait =>
    refine ⟨Nat.le_refl _, fun he => ?_⟩
    cases e with
    | device =>
      rcases device_waits h with hidle | ⟨hsend, _⟩ | hawait
      · exact absurd hidle hs.not_idle
      · exact absurd (.inl hsend) hnotReset
      · exact absurd (.inr (.inl hawait)) hnotReset
    | _ => cases he
  | read | refused | guest | receive => exact ⟨Nat.add_le_add_left hle _, fun he => (by cases he)⟩
  | written hidle => exact absurd hidle hs.not_idle
  | full hthread | empty hthread =>
    refine hdevice (hlt ?_)
    rw [hthread]
    exact Nat.one_pos
  | consume hthread =>
    refine hdevice ?_
    unfold notifyRank
    rw [hthread]
    simp only [threadRank, consumed?, Option.toList_some, length_singleton, Nat.add_mul] at hmul ⊢
    omega
  | visit hthread =>
    refine hdevice (hlt ?_)
    have hi := hwalk _ _ _ _ hthread
    rw [hthread]
    simp only [threadRank]
    omega
  | chainEnd hthread | insert hthread | submit hthread =>
    refine hdevice (hlt ?_)
    rw [hthread]
    simp only [threadRank]
    omega
  | barrier hthread => exact absurd (.inl hthread) hnotReset
  | finishReset hthread => exact absurd (.inr (.inr hthread)) hnotReset
  | @work io op todo shared htodo hrun =>
    refine ⟨Nat.add_le_add ?_ hle, fun he => (by cases he)⟩
    rw [wake_eq_self fun hack => hnotReset (.inr (.inl hack.1))]

/-- A device thread in a call of `notify` that is under way or has returned. -/
structure Serves (avail : Nat) (s : BlockSystem) : Prop where
  thread : s.Serving ∨ s.thread = .idle
  ring : ∀ base, s.mmio.device.queue.avail = some base → base = avail

/-- The driver waits for the call to return, and chains have an end. -/
def CallAllowed (avail k : Nat) (s : BlockSystem) (e : BlockEvent) : Prop :=
  s.KeepsIndex avail e ∧ s.WalksWithin k e

theorem Serves.step (hs : s.Serves avail) (hc : s.Busy e ∧ s.CallAllowed avail k e)
    (h : s.step e = .ok (a, s')) :
    s'.Serves avail ∧ (s'.notifyRank k avail < s.notifyRank k avail ∨
      s'.notifyRank k avail = s.notifyRank k avail ∧ ¬ e.isDevice ∧
        ∀ e' : BlockEvent, e'.isDevice → e'.isDevice) := by
  obtain ⟨hbusy, hkeep, hwalk⟩ := hc
  have hserving := hs.thread.resolve_right hbusy
  obtain ⟨hle, hdevice⟩ := notifyRank_step hserving ⟨hs.ring, hserving.not_resetting⟩ hkeep hwalk h
  refine ⟨?_, (Nat.lt_or_eq_of_le hle).imp_right fun heq =>
    ⟨heq, fun he => Nat.ne_of_lt (hdevice he) heq, fun _ => id⟩⟩
  rcases hserving.step h with ⟨hserving', hqueue⟩ | ⟨hidle, _, hqueue, _⟩
  · exact ⟨.inl hserving', by rw [hqueue]; exact hs.ring⟩
  · exact ⟨.inr hidle, by rw [hqueue]; exact hs.ring⟩

/-- The call returns: it cannot last for more rounds than its rank. -/
theorem Serves.returns (hs : s.Serves avail) (k : Nat) :
    s.ReturnsWithin (CallAllowed avail k) (s.notifyRank k avail) := by
  intro blocks os t hrounds hrun hbusy hallowed
  exact blocks_le_rank (fun _ _ _ _ => Serves.step) hs (hbusy.and hallowed)
    (fun b hb _ => countP_pos_iff.1 (hrounds b hb).1) hrun

/-! ## Nothing is stranded -/

/-- The doorbell of an enabled queue. -/
theorem step_doorbell {data : WordType} (hidle : s.thread = .idle) (hen : s.mmio.enabled)
    (hzero : data.setWidth 32 = 0#32) :
    s.step (.write .u32 0x50 data) = .ok (.answer (.ok 0), { s with thread := .notify }) := by
  have himpl : s.mmio.writeU32Impl s.shared.isr 0x50 0#32 = .ok ⟨s.mmio, s.shared.isr, .notify⟩ :=
    if_pos ⟨by decide, hen⟩
  have hwrite : s.mmio.write s.shared.isr .u32 0x50 data =
      .ok (.ok ⟨s.mmio, s.shared.isr, .notify⟩) := by
    unfold write
    rw [hzero]
    exact congrArg (Except.map (Except.ok : _ → Except DeviceError _)) himpl
  simp only [step, guestWrite, hidle, hwrite]
  rfl

/-- Each doorbell of a driver that never has more chains outstanding than its
queue has entries leaves nothing behind: the call returns, no turn in it panics,
and all that was available before it is consumed, whatever the worker does
meanwhile. -/
theorem notify_strands_nothing (hostFeature : VirtIOFeatureSet) (generation : BitVec 32)
    (sectors : WordType) (file : BackingFile) (mem : Nat → BitVec 8) {s₀ : BlockSystem}
    {es₀ : List BlockEvent} {os₀ : List BlockAction}
    (hreach : runAll BlockSystem.step (BlockSystem.new hostFeature generation sectors file mem) es₀ =
      .ok (os₀, s₀))
    (hrun : runAll BlockSystem.step s₀ es = .ok (os, s))
    (hconf : Always BlockSystem.step (Configured avail) s₀ es)
    (hready : s.mmio.device.queue.ready) (hring : s.mmio.device.queue.avail = some avail)
    (hsize : s.mmio.device.queue.queueNum.toNat ≤ 1024)
    (hcredit : s₀.outstanding avail + published avail s₀ es ≤
      (os.filterMap inserted?).length + s.mmio.device.queue.queueNum.toNat)
    (hidle : s.thread = .idle) (hen : s.mmio.enabled) {data : WordType}
    (hzero : data.setWidth 32 = 0#32) (hbell : s.step (.write .u32 0x50 data) = .ok (a, s')) :
    (∀ es' os' t e, runAll BlockSystem.step s' es' = .ok (os', t) →
        e.isDevice ∨ e.isWorker → ∃ out, t.step e = .ok out) ∧
      (∀ k, s'.ReturnsWithin (CallAllowed avail k) (1 + s.waiting avail * (k + 4))) ∧
      ∀ es' os' t, s'.Returns es' os' t → Always BlockSystem.step (KeepsIndex avail) s' es' →
        t.mmio.device.queue.lastAvailIdx = idx s.shared.mem avail := by
  have hbarriers : s.Barriers := ((Barriers.new ..).run hreach).run hrun
  have hsized : s.Sized :=
    ((Quiet.sized (s := .new hostFeature generation sectors file mem) ⟨rfl, rfl, rfl⟩).run hreach).run
      hrun
  have hbarriers' := hbarriers.step hbell
  rw [step_doorbell hidle hen hzero] at hbell
  cases hbell
  have hserves : Serves avail { s with thread := .notify } := by
    refine ⟨.inl (.inl rfl), fun base hbase => ?_⟩
    exact Option.some.inj (hbase.symm.trans hring)
  have hcredit' : outstanding { s with thread := .notify } avail ≤ VIRTIO_BLOCK_TASK_CAPACITY := by
    have hle := outstanding_run hconf hrun
    have hflight : outstanding { s with thread := .notify } avail = s.outstanding avail := by
      unfold outstanding inFlight
      rw [hidle]
      rfl
    have hcap : VIRTIO_BLOCK_TASK_CAPACITY = 1024 := rfl
    omega
  have hnotifying : Notifying avail { s with thread := .notify } :=
    ⟨.inl rfl, hbarriers', hready, hring, hcredit'⟩
  have hsized' : Sized { s with thread := .notify } := by
    unfold Sized inFlight at hsized ⊢
    rw [hidle] at hsized
    exact hsized
  exact ⟨fun _ _ _ _ hrun' he => (hsized'.run hrun').turn_ok he, fun k => hserves.returns k,
    fun _ _ _ hret hindex => hnotifying.returned hindex hret⟩

/-- The driver has set up the queue of `doorbell` and not rung yet. -/
def beforeBell : List BlockEvent := (doorbell 4 (BASE_ADDR + 0x50) 0).dropLast

/-- One read is available when the doorbell rings, and it is consumed. -/
theorem notify_strands_nothing_read : ∃ os s s₁ os' t,
    runAll step (board (blkMem 0 2 2)) beforeBell = .ok (os, s) ∧
      s.mmio.device.queue.lastAvailIdx = 0 ∧ s.outstanding 0x40 = 1 ∧
      s.step (.write .u32 0x50 0) = .ok (.answer (.ok 0), s₁) ∧
      s₁.Returns (replicate 7 .device) os' t ∧
      t.mmio.device.queue.lastAvailIdx = idx s.shared.mem 0x40 ∧
      idx s.shared.mem 0x40 = 1 := by
  obtain ⟨⟨os, s⟩, h, hidle, hen, hout, hqueue, hidx, hbusy, hkeeps, ⟨os', t⟩, h', hidle'⟩ :
      ∃ out, runAll step (board (blkMem 0 2 2)) beforeBell = .ok out ∧
        out.2.thread = .idle ∧ out.2.mmio.enabled ∧ out.2.outstanding 0x40 = 1 ∧
        out.2.mmio.device.queue = ⟨4, 0, BASE_ADDR, some 0, BASE_ADDR + 0x40, some 0x40,
          BASE_ADDR + 0x50, some 0x50⟩ ∧ idx out.2.shared.mem 0x40 = 1 ∧
        Always step Busy { out.2 with thread := .notify } (replicate 7 .device) ∧
        Always step (KeepsIndex 0x40) { out.2 with thread := .notify }
          (replicate 7 .device) ∧
        ∃ out', runAll step { out.2 with thread := .notify }
            (replicate 7 .device) = .ok out' ∧ out'.2.thread = .idle := by
    decide +kernel
  have hzero : (0 : WordType).setWidth 32 = 0#32 := rfl
  have hbell := step_doorbell hidle hen hzero
  have hret := Returns.mk h' hbusy hidle'
  refine ⟨os, s, _, os', t, h, by rw [hqueue], hout, hbell, hret, ?_, hidx⟩
  have hself : runAll step s [] = .ok ([], s) := rfl
  refine (notify_strands_nothing _ _ _ _ _ h hself trivial (by rw [hqueue]; rfl) (by rw [hqueue])
    (by rw [hqueue]; decide) ?_ hidle hen hzero hbell).2.2 _ _ _ hret hkeeps
  rw [hqueue, hout]
  show 1 ≤ 4
  decide

end BlockSystem

end HereEmu
