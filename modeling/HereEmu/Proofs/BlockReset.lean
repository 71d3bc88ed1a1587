import HereEmu.Proofs.BlockOrder
import HereEmu.Proofs.VirtioFeatures

/-!
# Resetting the block device

A write of zero to `Status` clears the registers of the transport, sends a
barrier behind everything the worker has been given and waits until the worker
gets to it. Only then the device itself is cleared.

`Barriers` says where barriers are: in a reset that waits there is one, behind
everything else; otherwise there is none. So the acknowledgement the thread
waits for is that of its own barrier, and it finds channel and worker empty.
From there on everything the worker does is accounted for by what is submitted
after the reset.

That the wait ends is in turns: each round in which worker and device thread
have one lowers `drainRank`.
-/

namespace HereEmu

open Lib BlockAction List

theorem VirtIOBlkDevice.requestTask_ne_barrier {dev : VirtIOBlkDevice} {r : BlkRequest}
    {c : VirtIOBlockCompletion} : dev.requestTask r c ≠ .drainBarrier := by
  intro h
  have hc : (dev.requestTask r c).completion? = some c := requestTask_completion
  rw [h] at hc
  cases hc

/-- What goes into the channel. -/
def BlockAction.sent? : BlockAction → Option VirtIOBlockAsyncTask
  | .submit task => some task
  | _ => none

/-- What the worker takes from the channel. -/
def BlockAction.taken? : BlockAction → Option VirtIOBlockAsyncTask
  | .receive task => some task
  | _ => none

/-- Only one operation raises the interrupt. -/
theorem WorkerOp.run_isr {op : WorkerOp} {s s' : BlockShared} (h : op.run s = .ok s')
    (hop : op ≠ .isr) : s'.isr = s.isr := by
  cases op with
  | isr => exact absurd rfl hop
  | used c len =>
    obtain ⟨_, _, rfl⟩ := WorkerOp.run_used h
    rfl
  | _ =>
    cases h
    rfl

/-- A reset has sent its barrier. -/
def DeviceThread.barred : DeviceThread → Bool
  | .awaitAck | .drained => true
  | _ => false

namespace BlockSystem

open BlockAction (inserted?)
open VirtIOBlockAsyncWorker (runTask mem_runTask cost length_runTask)

variable {s s' t : BlockSystem} {e : BlockEvent} {a : BlockAction} {es : List BlockEvent}
  {os : List BlockAction}

/-! ## The barrier -/

theorem ack_notMem_runTask {fileLen : Nat} {io : Nat → HostIo} {task : VirtIOBlockAsyncTask}
    (h : task ≠ .drainBarrier) : .ack ∉ runTask fileLen io task :=
  fun hack => h (mem_runTask hack)

/-- A barrier behind everything the worker has still to do, and no other. -/
def Barred (s : BlockSystem) : Prop :=
  (∃ front, s.channel = front ++ [.drainBarrier] ∧ .drainBarrier ∉ front ∧ .ack ∉ s.worker.todo) ∨
    s.channel = [] ∧ s.worker.todo = [.ack]

/-- Where barriers are. -/
def Barriers (s : BlockSystem) : Prop :=
  match s.thread with
  | .awaitAck => s.Barred
  | .drained => s.channel = [] ∧ s.worker.todo = []
  | _ => .drainBarrier ∉ s.channel ∧ .ack ∉ s.worker.todo

theorem Barriers.new (hostFeature : VirtIOFeatureSet) (generation : BitVec 32) (sectors : WordType)
    (file : BackingFile) (mem : Nat → BitVec 8) :
    (new hostFeature generation sectors file mem).Barriers :=
  ⟨not_mem_nil, not_mem_nil⟩

/-- Nothing to do with threads: the worker and the channel decide. -/
theorem Barriers.congr (hs : s.Barriers) (hthread : s'.thread = s.thread)
    (hchannel : s'.channel = s.channel) (hworker : s'.worker = s.worker) : s'.Barriers := by
  unfold Barriers Barred at hs ⊢
  rw [hthread, hchannel, hworker]
  exact hs

/-- Outside of a wait there is no barrier. -/
theorem barriers_iff (h : s.thread.barred = false) :
    s.Barriers ↔ .drainBarrier ∉ s.channel ∧ .ack ∉ s.worker.todo := by
  unfold Barriers
  split
  · next hthread => rw [hthread] at h; cases h
  · next hthread => rw [hthread] at h; cases h
  · exact Iff.rfl

theorem not_barred (hawait : s.thread ≠ .awaitAck) (hdrained : s.thread ≠ .drained) :
    s.thread.barred = false := by
  cases h : s.thread with
  | awaitAck => exact absurd h hawait
  | drained => exact absurd h hdrained
  | _ => rfl

theorem Barriers.awaiting (hs : s.Barriers) (h : s.thread = .awaitAck) : s.Barred := by
  unfold Barriers at hs
  rwa [h] at hs

theorem Barriers.empty (hs : s.Barriers) (h : s.thread = .drained) :
    s.channel = [] ∧ s.worker.todo = [] := by
  unfold Barriers at hs
  rwa [h] at hs

theorem Barriers.receive {io : Nat → HostIo} {task : VirtIOBlockAsyncTask}
    {channel : List VirtIOBlockAsyncTask} (hs : s.Barriers)
    (hchannel : s.channel = task :: channel) :
    Barriers { s with channel, worker := ⟨some task, [], runTask s.shared.file.len io task⟩ } := by
  by_cases hawait : s.thread = .awaitAck
  · simp only [hawait]
    rcases hs.awaiting hawait with ⟨front, hfront, hnot, _⟩ | ⟨hempty, _⟩
    · rw [hchannel] at hfront
      cases front with
      | nil =>
        cases hfront
        exact .inr ⟨rfl, rfl⟩
      | cons first front =>
        cases hfront
        rw [mem_cons, not_or] at hnot
        exact .inl ⟨front, rfl, hnot.2, ack_notMem_runTask (Ne.symm hnot.1)⟩
    · rw [hchannel] at hempty
      cases hempty
  · have hdrained : s.thread ≠ .drained := by
      intro h
      rw [(hs.empty h).1] at hchannel
      cases hchannel
    have hplain := not_barred hawait hdrained
    obtain ⟨hnot, _⟩ := (barriers_iff hplain).1 hs
    rw [hchannel, mem_cons, not_or] at hnot
    refine (barriers_iff ?_).2 ⟨hnot.2, ack_notMem_runTask (Ne.symm hnot.1)⟩
    exact hplain

theorem Barriers.work {op : WorkerOp} {todo : List WorkerOp} {shared : BlockShared}
    (hs : s.Barriers) (htodo : s.worker.todo = op :: todo) :
    Barriers { s with
      thread := wake s.thread op, worker := ⟨s.worker.task, s.worker.done ++ [op], todo⟩, shared } := by
  by_cases hawait : s.thread = .awaitAck
  · rcases hs.awaiting hawait with ⟨front, hfront, hnot, hack⟩ | ⟨hempty, hlast⟩
    · rw [htodo, mem_cons, not_or] at hack
      have hwake : wake s.thread op = .awaitAck :=
        (wake_eq_self fun h => hack.1 h.2.symm).trans hawait
      simp only [hwake]
      exact .inl ⟨front, hfront, hnot, hack.2⟩
    · rw [hlast] at htodo
      cases htodo
      have hwake : wake s.thread .ack = .drained := by rw [hawait]; rfl
      rw [hwake]
      exact ⟨hempty, rfl⟩
  · have hdrained : s.thread ≠ .drained := by
      intro h
      rw [(hs.empty h).2] at htodo
      cases htodo
    have hwake : wake s.thread op = s.thread := wake_eq_self fun h => hawait h.1
    have hplain := not_barred hawait hdrained
    obtain ⟨hchannel, hnot⟩ := (barriers_iff hplain).1 hs
    rw [htodo, mem_cons, not_or] at hnot
    rw [barriers_iff (by rw [hwake]; exact hplain)]
    exact ⟨hchannel, hnot.2⟩

theorem Barriers.step (hs : s.Barriers) (h : s.step e = .ok (a, s')) : s'.Barriers := by
  cases step_turn h with
  | wait | read | refused => exact hs
  | guest => exact hs.congr rfl rfl rfl
  | @written w addr data out hidle hout =>
    have hplain : s.thread.barred = false := by rw [hidle]; rfl
    have hplain' : (threadOf out.call).barred = false := by cases out.call <;> rfl
    exact (barriers_iff hplain').2 ((barriers_iff hplain).1 hs)
  | full hthread | empty hthread | consume hthread | visit hthread | chainEnd hthread
  | insert hthread =>
    have hplain : s.thread.barred = false := by rw [hthread]; rfl
    exact (barriers_iff rfl).2 ((barriers_iff hplain).1 hs)
  | submit hthread =>
    have hplain : s.thread.barred = false := by rw [hthread]; rfl
    obtain ⟨hchannel, hack⟩ := (barriers_iff hplain).1 hs
    refine (barriers_iff rfl).2 ⟨?_, hack⟩
    rw [mem_append, mem_singleton, not_or]
    exact ⟨hchannel, Ne.symm VirtIOBlkDevice.requestTask_ne_barrier⟩
  | barrier hthread =>
    have hplain : s.thread.barred = false := by rw [hthread]; rfl
    obtain ⟨hchannel, hack⟩ := (barriers_iff hplain).1 hs
    exact .inl ⟨s.channel, rfl, hchannel, hack⟩
  | finishReset hthread =>
    obtain ⟨hchannel, htodo⟩ := hs.empty hthread
    rw [barriers_iff rfl, hchannel, htodo]
    exact ⟨not_mem_nil, not_mem_nil⟩
  | receive io _ hchannel => exact hs.receive hchannel
  | work io htodo => exact hs.work htodo

/-- However the turns fall, there are barriers for a reset only, one at a time and last. -/
theorem barriers_of_resets (hostFeature generation sectors file mem) :
    Always step (fun s _ => s.Barriers) (new hostFeature generation sectors file mem) es :=
  .of_inv (C := fun _ _ => True) (fun _ _ _ _ hs _ h => hs.step h) (fun _ _ hs _ => hs) (.new ..)
    (.intro (fun _ _ => trivial) _ _)

/-! ## The wait ends -/

theorem backlog_eq_zero : s.backlog = 0 ↔ s.worker.todo = [] ∧ s.channel = [] := by
  unfold backlog
  constructor
  · intro h
    have htodo : s.worker.todo = [] := length_eq_zero_iff.1 (by omega)
    refine ⟨htodo, ?_⟩
    cases hchannel : s.channel with
    | nil => rfl
    | cons task channel => simp [hchannel, cost] at h
  · rintro ⟨htodo, hchannel⟩
    rw [htodo, hchannel]
    rfl

/-- A task in hand is less than a task in the channel. -/
theorem backlog_receive {task : VirtIOBlockAsyncTask} (h : s.step e = .ok (.receive task, s')) :
    s'.backlog < s.backlog := by
  cases step_turn h with
  | receive io htodo hchannel =>
    have hlen := @length_runTask s.shared.file.len io task
    simp only [backlog, htodo, hchannel, map_cons, sum_cons, length_nil]
    omega

theorem backlog_work {op : WorkerOp} (h : s.step e = .ok (.work op, s')) :
    s'.backlog < s.backlog := by
  cases step_turn h with
  | work io htodo =>
    simp only [backlog, htodo, length_cons]
    omega

/-- The device thread waits when it is idle, for room, or for the worker. -/
theorem device_waits (h : s.step .device = .ok (.wait, s')) :
    s.thread = .idle ∨ s.thread = .sendBarrier ∧ s.channel ≠ [] ∨ s.thread = .awaitAck := by
  have hheld : s.thread.held = [] := by
    by_contra hheld
    exact device_ne_wait hheld h
  cases hthread : s.thread with
  | idle => exact .inl rfl
  | awaitAck => exact .inr (.inr rfl)
  | sendBarrier =>
    refine .inr (.inl ⟨rfl, fun hchannel => ?_⟩)
    have hroom : s.hasRoom := by rw [hasRoom, hchannel]; rfl
    simp only [step, deviceStep, hthread, hroom, if_true] at h
    cases h
  | drained =>
    simp only [step, deviceStep, hthread] at h
    cases h
  | notify =>
    cases step_turn h with
    | wait =>
      simp only [step, deviceStep, hthread, takeEntry] at h
      split at h
      · cases h
      · simp only [bind, Except.bind, pure, Except.pure] at h
        split at h
        · cases h
        · split at h <;> cases h
  | walking used handle i r | walked used r =>
    rw [hthread] at hheld
    cases hheld

/-- The turns a reset needs at most. -/
def drainRank (s : BlockSystem) : Nat :=
  match s.thread with
  | .sendBarrier => s.backlog + 6
  | .awaitAck => s.backlog + 1
  | .drained => 1
  | _ => 0

theorem drainRank_lt (hreset : s.Resetting) (hdrained : s.thread ≠ .drained)
    (hthread : s'.thread = s.thread) (hlt : s'.backlog < s.backlog) :
    s'.drainRank < s.drainRank := by
  unfold drainRank
  rw [hthread]
  rcases hreset with h | h | h
  · simp only [h]
    omega
  · simp only [h]
    omega
  · exact absurd h hdrained

/-- What the last turn of a reset leaves, from the registers it found. -/
structure Cleared (m : VirtIOMMIO) (s : BlockSystem) : Prop where
  idle : s.thread = .idle
  mmio : s.mmio = { m with device := m.device.reset }
  isr : s.shared.isr = 0
  channel : s.channel = []
  todo : s.worker.todo = []

/-- The turn of the one that can go on: of the worker while there is anything for
it to see to, then of the device thread. -/
def Due (s : BlockSystem) (e : BlockEvent) : Prop :=
  s.backlog ≠ 0 ∧ e.isWorker ∨ s.backlog = 0 ∧ e.isDevice

/-- A turn in a reset is the last one or leaves the registers alone. It lowers
the rank, or it changes nothing and was not due. -/
theorem drain_step (hs : s.Barriers) (hreset : s.Resetting) (h : s.step e = .ok (a, s')) :
    (s'.Resetting ∧ s'.mmio = s.mmio ∨ s'.Cleared s.mmio) ∧
      (s'.drainRank < s.drainRank ∨
        s'.drainRank = s.drainRank ∧ s'.backlog = s.backlog ∧ ¬ s.Due e) := by
  have hnot : s.thread.held ≠ [] ∨ s.thread = .idle ∨ s.thread = .notify → False := by
    rcases hreset with h | h | h <;> simp [h, DeviceThread.held]
  cases step_turn h with
  | wait =>
    refine ⟨.inl ⟨hreset, rfl⟩, .inr ⟨rfl, rfl, ?_⟩⟩
    rintro (⟨hne, he⟩ | ⟨hzero, he⟩)
    · cases e with
      | worker io => exact hne (backlog_eq_zero.2 (worker_waits h))
      | _ => cases he
    · cases e with
      | device =>
        obtain ⟨htodo, hchannel⟩ := backlog_eq_zero.1 hzero
        rcases device_waits h with hidle | ⟨_, hfull⟩ | hawait
        · exact hnot (.inr (.inl hidle))
        · exact hfull hchannel
        · rcases hs.awaiting hawait with ⟨front, hfront, _⟩ | ⟨_, hack⟩
          · rw [hchannel] at hfront
            exact absurd hfront.symm (append_ne_nil_of_right_ne_nil _ (cons_ne_nil _ _))
          · rw [htodo] at hack
            cases hack
      | _ => cases he
  | read | refused | guest =>
    refine ⟨.inl ⟨hreset, rfl⟩, .inr ⟨rfl, rfl, ?_⟩⟩
    rintro (⟨_, he⟩ | ⟨_, he⟩) <;> cases he
  | written hidle => exact (hnot (.inr (.inl hidle))).elim
  | full hthread | empty hthread | consume hthread => exact (hnot (.inr (.inr hthread))).elim
  | visit hthread | chainEnd hthread | insert hthread | submit hthread =>
    exact (hnot (.inl (by rw [hthread]; exact cons_ne_nil _ _))).elim
  | barrier hthread =>
    refine ⟨.inl ⟨.inr (.inl rfl), rfl⟩, .inl ?_⟩
    simp only [drainRank, hthread, backlog, cost, VirtIOBlockAsyncTask.buffers, map_append,
      map_cons, map_nil, sum_append, sum_cons, sum_nil, length_nil]
    omega
  | finishReset hthread =>
    obtain ⟨hchannel, htodo⟩ := hs.empty hthread
    refine ⟨.inr ⟨rfl, rfl, rfl, hchannel, htodo⟩, .inl ?_⟩
    simp only [drainRank, hthread]
    exact Nat.one_pos
  | receive io _ hchannel =>
    have hdrained : s.thread ≠ .drained := by
      intro hthread
      rw [(hs.empty hthread).1] at hchannel
      cases hchannel
    exact ⟨.inl ⟨hreset, rfl⟩, .inl (drainRank_lt hreset hdrained rfl (backlog_receive h))⟩
  | @work io op todo shared htodo hrun =>
    have hdrained : s.thread ≠ .drained := by
      intro hthread
      rw [(hs.empty hthread).2] at htodo
      cases htodo
    by_cases hack : s.thread = .awaitAck ∧ op = .ack
    · obtain ⟨hthread, rfl⟩ := hack
      have hwake : wake s.thread .ack = .drained := by rw [hthread]; rfl
      refine ⟨.inl ⟨.inr (.inr hwake), rfl⟩, .inl ?_⟩
      have hlt := backlog_work h
      simp only [drainRank, hthread, wake]
      omega
    · have hwake : wake s.thread op = s.thread := wake_eq_self hack
      refine ⟨.inl ⟨?_, rfl⟩, .inl (drainRank_lt hreset hdrained hwake (backlog_work h))⟩
      simpa only [Resetting, hwake] using hreset

/-- A device thread in a reset that is under way or has returned. -/
structure Draining (s : BlockSystem) : Prop where
  barriers : s.Barriers
  thread : s.Resetting ∨ s.thread = .idle

theorem Draining.step (hs : s.Draining) (hbusy : s.Busy e) (h : s.step e = .ok (a, s')) :
    s'.Draining ∧ (s'.drainRank < s.drainRank ∨
      s'.drainRank = s.drainRank ∧ ¬ s.Due e ∧ ∀ e', s.Due e' → s'.Due e') := by
  obtain ⟨hnext, hrank⟩ := drain_step hs.barriers (hs.thread.resolve_right hbusy) h
  refine ⟨⟨hs.barriers.step h, hnext.imp And.left Cleared.idle⟩, hrank.imp_right ?_⟩
  rintro ⟨heq, hbacklog, hdue⟩
  refine ⟨heq, hdue, fun e' => ?_⟩
  unfold Due
  rw [hbacklog]
  exact id

/-- A reset returns: it cannot last for more rounds than its rank. -/
theorem Draining.returns (hs : s.Draining) : s.ReturnsWithin (fun _ _ => True) s.drainRank := by
  intro blocks os t hrounds hrun hbusy _
  refine blocks_le_rank (fun _ _ _ _ => Draining.step) hs hbusy (fun b hb s => ?_) hrun
  obtain ⟨hdevice, hworker⟩ := hrounds b hb
  by_cases hzero : s.backlog = 0
  · obtain ⟨e, he, hturn⟩ := countP_pos_iff.1 hdevice
    exact ⟨e, he, .inr ⟨hzero, hturn⟩⟩
  · obtain ⟨e, he, hturn⟩ := countP_pos_iff.1 hworker
    exact ⟨e, he, .inl ⟨hzero, hturn⟩⟩

/-! ## What a reset leaves -/

/-- The write of zero: the transport is cleared at once, the device has to wait. -/
theorem step_reset {data : WordType} (hidle : s.thread = .idle) (hzero : data.setWidth 32 = 0#32) :
    s.step (.write .u32 0x70 data) = .ok (.answer (.ok 0),
      { s with mmio := .new s.mmio.device, thread := .sendBarrier }) := by
  have hwrite : s.mmio.write s.shared.isr .u32 0x70 data =
      .ok (.ok ⟨.new s.mmio.device, s.shared.isr, .reset⟩) := by
    unfold VirtIOMMIO.write
    rw [hzero]
    rfl
  simp only [step, guestWrite, hidle, hwrite]
  rfl

/-- A reset that returns has cleared everything. -/
theorem reset_run (hs : s.Barriers) (hreset : s.Resetting) (h : s.Returns es os t) :
    t.Cleared s.mmio := by
  obtain ⟨hrun, hbusy, hidle⟩ := h
  induction es generalizing s os with
  | nil =>
    cases hrun
    rcases hreset with h | h | h <;> rw [h] at hidle <;> cases hidle
  | cons e es ih =>
    obtain ⟨a, s', os', hstep, hrest, rfl⟩ := runAll_cons hrun
    have hbusy' := hbusy.2 a s' hstep
    rcases (drain_step hs hreset hstep).1 with ⟨hreset', hmmio⟩ | hclear
    · rw [← hmmio]
      exact ih (hs.step hstep) hreset' hrest hbusy'
    · -- the thread is idle, so this was the last turn
      cases es with
      | nil =>
        cases hrest
        exact hclear
      | cons e' es => exact absurd hclear.idle hbusy'.1

/-- A reset returns, however the turns of device thread and worker fall, and
leaves everything cleared. -/
theorem reset_clears (hs : s.Barriers) (hidle : s.thread = .idle) {data : WordType}
    (hzero : data.setWidth 32 = 0#32) (hreset : s.step (.write .u32 0x70 data) = .ok (a, s')) :
    s'.ReturnsWithin (fun _ _ => True) (s.backlog + 6) ∧
      ∀ es os t, s'.Returns es os t → t.Cleared (.new s.mmio.device) := by
  have hs' := hs.step hreset
  rw [step_reset hidle hzero] at hreset
  cases hreset
  refine ⟨Draining.returns ⟨hs', .inl (.inl rfl)⟩, fun es os t hret => ?_⟩
  exact reset_run hs' (.inl rfl) hret

theorem Barriers.run (hs : s.Barriers) (h : runAll BlockSystem.step s es = .ok (os, t)) :
    t.Barriers :=
  runAll_kept (fun _ _ _ _ hs h => hs.step h) hs h

/-- A write of zero to `Status` returns, and the device is then as one that has
just been built for the same file and with the same features, exactly when the
configuration space was as it was built. -/
theorem reset_restores_initial (hostFeature : VirtIOFeatureSet) (generation : BitVec 32)
    (sectors : WordType) (file : BackingFile) (mem : Nat → BitVec 8)
    (hrun : runAll BlockSystem.step (BlockSystem.new hostFeature generation sectors file mem) es =
      .ok (os, s))
    (hidle : s.thread = .idle) {data : WordType} (hzero : data.setWidth 32 = 0#32)
    (hreset : s.step (.write .u32 0x70 data) = .ok (a, s')) :
    s'.ReturnsWithin (fun _ _ => True) (s.backlog + 6) ∧
      ∀ es os t, s'.Returns es os t →
        (t.mmio = (BlockSystem.new hostFeature generation sectors file mem).mmio ∧
            t.shared.isr = (BlockSystem.new hostFeature generation sectors file mem).shared.isr ↔
          s.mmio.device.configRegion = VirtioBlkConfig.new sectors) := by
  obtain ⟨hreturns, hclears⟩ := reset_clears (.run (.new ..) hrun) hidle hzero hreset
  refine ⟨hreturns, fun es' os' t hret => ?_⟩
  obtain ⟨_, hmmio, hisr, _, _⟩ := hclears es' os' t hret
  have hkeep : ∀ s e a s', (s.mmio.device.hostFeature = hostFeature ∧
      s.mmio.device.generation = generation) → BlockSystem.step s e = .ok (a, s') →
      s'.mmio.device.hostFeature = hostFeature ∧ s'.mmio.device.generation = generation :=
    fun _ _ _ _ hs h => ⟨(step_host h).1.trans hs.1, (step_host h).2.trans hs.2⟩
  obtain ⟨hhost, hgen⟩ := runAll_kept hkeep ⟨rfl, rfl⟩ hrun
  rw [hmmio]
  refine ⟨fun h => congrArg (·.device.configRegion) h.1, fun hconfig => ⟨?_, hisr⟩⟩
  have hdev : s.mmio.device.reset = VirtIOBlkDevice.new hostFeature generation sectors := by
    rw [VirtIOBlkDevice.reset, hhost, hgen, hconfig]
    rfl
  exact congrArg VirtIOMMIO.new hdev

/-- The turns of a reset that finds nothing to wait for. -/
def drain : List BlockEvent :=
  [.device, .worker fun _ => .seekErr, .worker fun _ => .seekErr, .device]

/-- Features have been accepted and are gone after the reset. -/
theorem reset_restores_initial_negotiated : ∃ os s s₁ os' t,
    runAll step oneSector negotiate = .ok (os, s) ∧
      s.mmio.device.guestFeature = VERSION_1 ∧
      s.step (.write .u32 0x70 0) = .ok (.answer (.ok 0), s₁) ∧ s₁.Returns drain os' t ∧
      t.mmio = oneSector.mmio ∧ t.shared.isr = oneSector.shared.isr := by
  obtain ⟨os, s, hrun, hidle, hconfig, hguest, s₁, hreset, os', t, hret⟩ : ∃ os s,
      runAll step oneSector negotiate = .ok (os, s) ∧ s.thread = .idle ∧
        s.mmio.device.configRegion = VirtioBlkConfig.new 1 ∧
        s.mmio.device.guestFeature = VERSION_1 ∧
        ∃ s₁, s.step (.write .u32 0x70 0) = .ok (.answer (.ok 0), s₁) ∧
          ∃ os' t, s₁.Returns drain os' t :=
    ⟨_, _, rfl, rfl, rfl, rfl, _, rfl, _, _, ⟨rfl, by decide +kernel, rfl⟩⟩
  refine ⟨os, s, s₁, os', t, hrun, hguest, hreset, hret, ?_⟩
  exact ((reset_restores_initial _ _ _ _ _ hrun hidle rfl hreset).2 _ _ _ hret).mpr hconfig

/-- The capacity the driver wrote into the configuration space is still there. -/
theorem reset_keeps_config : ∃ os s₁ os' t,
    runAll step oneSector [.write .u32 0x100 7, .write .u32 0x70 0] = .ok (os, s₁) ∧
      s₁.Returns drain os' t ∧
      (t.step (.read .u32 0x100)).map (·.1) = .ok (.answer (.ok 7)) ∧
      (oneSector.step (.read .u32 0x100)).map (·.1) = .ok (.answer (.ok 1)) := by
  refine ⟨_, _, _, _, rfl, ⟨rfl, by decide +kernel, rfl⟩, ?_, ?_⟩
  · decide +kernel
  · decide +kernel

/-! ## Quiescence -/

/-- The channel is a queue: the worker takes what was submitted, in order. -/
theorem channel_run (h : runAll step s es = .ok (os, t)) :
    s.channel ++ os.filterMap sent? = os.filterMap taken? ++ t.channel := by
  have hstep : ∀ s e a s', step s e = .ok (a, s') →
      s.channel ++ (sent? a).toList = (taken? a).toList ++ s'.channel := by
    intro s e a s' h
    cases step_turn h with
    | receive io _ hchannel =>
      rw [hchannel]
      exact append_nil _
    | submit | barrier => rfl
    | _ => exact append_nil _
  exact runAll_account hstep h

/-- What the worker does belongs to the task it took last, and the interrupt
status is clear unless it has raised it. -/
structure Since (os : List BlockAction) (s : BlockSystem) : Prop where
  worker : s.worker.todo ≠ [] → ∃ task fileLen io,
    (os.filterMap taken?).getLast? = some task ∧
      s.worker.done ++ s.worker.todo = runTask fileLen io task
  isr : .work .isr ∉ os → s.shared.isr = 0

/-- A turn that is not the worker's and does not touch the interrupt status. -/
theorem Since.frame (hs : s.Since os) (hworker : s'.worker = s.worker)
    (hisr : s.shared.isr = 0 → s'.shared.isr = 0) (htaken : a.taken? = none) :
    s'.Since (os ++ [a]) := by
  refine ⟨fun htodo => ?_, fun hnot => hisr (hs.isr fun hmem => hnot (mem_append_left _ hmem))⟩
  rw [hworker] at htodo ⊢
  simpa [htaken] using hs.worker htodo

theorem Since.step (hs : s.Since os) (h : s.step e = .ok (a, s')) : s'.Since (os ++ [a]) := by
  cases e with
  | write w addr data =>
    rcases step_write h with ⟨rfl, rfl, _⟩ | ⟨_, rfl, rfl, _⟩ | ⟨out, rfl, _, hwrite, rfl⟩
    · exact hs.frame rfl id rfl
    · exact hs.frame rfl id rfl
    · refine hs.frame rfl (fun hisr => ?_) rfl
      have hclear : out.isr = 0 := VirtIOMMIO.write_isr hwrite hisr
      exact hclear
  | read w addr | guest mem => cases step_turn h <;> exact hs.frame rfl id rfl
  | device =>
    cases step_turn h with
    | finishReset => exact hs.frame rfl (fun _ => rfl) rfl
    | _ => exact hs.frame rfl id rfl
  | worker io =>
    cases step_turn h with
    | wait => exact hs.frame rfl id rfl
    | @receive _ task =>
      refine ⟨fun _ => ⟨task, s.shared.file.len, io, ?_, rfl⟩, fun hnot => hs.isr fun hmem => ?_⟩
      · simp [taken?]
      · exact hnot (mem_append_left _ hmem)
    | @work _ op todo shared htodo hrun =>
      refine ⟨fun _ => ?_, fun hnot => ?_⟩
      · obtain ⟨task, fileLen, io, hlast, hops⟩ := hs.worker (by rw [htodo]; exact cons_ne_nil _ _)
        refine ⟨task, fileLen, io, ?_, ?_⟩
        · simpa [taken?] using hlast
        · rw [← hops, htodo]
          simp
      · rw [mem_append, mem_singleton, not_or] at hnot
        have hne : op ≠ .isr := fun hop => hnot.2 (by rw [hop])
        exact (WorkerOp.run_isr hrun hne).trans (hs.isr hnot.1)

/-- Once a reset has returned, everything the worker does belongs to a task it
took after the reset; what it takes was submitted after the reset, in that
order; and the interrupt status stays clear until such a task raises it. -/
theorem reset_quiesces (hostFeature : VirtIOFeatureSet) (generation : BitVec 32)
    (sectors : WordType) (file : BackingFile) (mem : Nat → BitVec 8) {es' es'' : List BlockEvent}
    {os' os'' : List BlockAction} {u : BlockSystem}
    (hrun : runAll BlockSystem.step (BlockSystem.new hostFeature generation sectors file mem) es =
      .ok (os, s))
    (hidle : s.thread = .idle) {data : WordType} (hzero : data.setWidth 32 = 0#32)
    (hreset : s.step (.write .u32 0x70 data) = .ok (a, s')) (hret : s'.Returns es' os' t)
    (hafter : runAll BlockSystem.step t es'' = .ok (os'', u)) :
    os''.filterMap sent? = os''.filterMap taken? ++ u.channel ∧
      (∀ e op u', u.step e = .ok (.work op, u') → ∃ task fileLen io,
        (os''.filterMap taken?).getLast? = some task ∧ op ∈ runTask fileLen io task) ∧
      (.work .isr ∉ os'' → u.shared.isr = 0) := by
  obtain ⟨_, hclears⟩ := reset_clears (.run (.new ..) hrun) hidle hzero hreset
  obtain ⟨_, _, hisr, hchannel, htodo⟩ := hclears es' os' t hret
  have hstart : t.Since [] := ⟨fun h => absurd htodo h, fun _ => hisr⟩
  have hkeep : ∀ os s e a s', Since os s → True → BlockSystem.step s e = .ok (a, s') →
      Since (os ++ [a]) s' := fun _ _ _ _ _ hs _ h => hs.step h
  have hsince : u.Since os'' :=
    runAll_history hkeep hstart (Always.intro (fun _ _ => trivial) _ _) hafter
  refine ⟨?_, fun e op u' hwork => ?_, hsince.isr⟩
  · rw [← channel_run hafter, hchannel, nil_append]
  · cases step_turn hwork with
    | work io hop =>
      obtain ⟨task, fileLen, io', hlast, hops⟩ :=
        hsince.worker (by rw [hop]; exact cons_ne_nil _ _)
      refine ⟨task, fileLen, io', hlast, ?_⟩
      rw [← hops, hop]
      exact mem_append_right _ mem_cons_self

/-- The turns of a reset that has a read of one buffer to wait for. -/
def drainRead : List BlockEvent :=
  [.device] ++ serveRead ++ replicate 2 (.worker fun _ => .seekErr) ++ [.device]

/-- A read is waiting for the worker when the driver resets the device. It is
counted before the reset returns, and afterwards there is no interrupt. -/
theorem reset_quiesces_read : ∃ os s s₁ os' t,
    runAll step (board (blkMem 0 2 2)) (doorbell 4 (BASE_ADDR + 0x50) 7) = .ok (os, s) ∧
      s.backlog = 6 ∧ s.step (.write .u32 0x70 0) = .ok (.answer (.ok 0), s₁) ∧
      s₁.Returns drainRead os' t ∧ os'.filterMap inserted? = [⟨0x50, 4, 0⟩] ∧
      t.shared.isr = 0 := by
  obtain ⟨⟨os, s⟩, h, hidle, hbacklog, hbusy, ⟨os', t⟩, h', hidle', hinserted⟩ :
      ∃ out, runAll step (board (blkMem 0 2 2)) (doorbell 4 (BASE_ADDR + 0x50) 7) =
          .ok out ∧ out.2.thread = .idle ∧ out.2.backlog = 6 ∧
        Always step Busy
          { out.2 with mmio := .new out.2.mmio.device, thread := .sendBarrier } drainRead ∧
        ∃ out', runAll step
            { out.2 with mmio := .new out.2.mmio.device, thread := .sendBarrier } drainRead =
              .ok out' ∧ out'.2.thread = .idle ∧ out'.1.filterMap inserted? = [⟨0x50, 4, 0⟩] := by
    decide +kernel
  have hzero : (0 : WordType).setWidth 32 = 0#32 := rfl
  have hreset := step_reset hidle hzero
  have hret := Returns.mk h' hbusy hidle'
  refine ⟨os, s, _, os', t, h, hbacklog, hreset, hret, hinserted, ?_⟩
  have hafter : runAll step t [] = .ok ([], t) := rfl
  exact (reset_quiesces _ _ _ _ _ h hidle hzero hreset hret hafter).2.2 not_mem_nil

end BlockSystem

end HereEmu
