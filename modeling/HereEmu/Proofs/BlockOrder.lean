import HereEmu.Proofs.BlockFlow
import Mathlib.Data.List.Basic

/-!
# Completions in order

What the driver may rely on when the used index counts its request. The worker
makes the operations of a task in program order, so the status byte and the
data are written before; they are still there because nobody else writes to
them. That is a condition on the driver (`Owned`): the parts of RAM the device
fills for a request are apart from each other and from the used rings, and the
driver leaves them alone until the request has been counted.

`InOrder` carries it along a run: the operations done are the first of the
task, and what each of them wrote can be seen.
-/

namespace HereEmu

open Lib VirtQueue BlkRequest List

/-! ## Parts of RAM -/

namespace IOTaskRamBuffer

variable {b b' : IOTaskRamBuffer}

/-- No byte in common. -/
def Apart (b b' : IOTaskRamBuffer) : Prop := ∀ j, b.Has j → ¬ b'.Has j

theorem apart_iff : b.Apart b' ↔
    b.len = 0 ∨ b'.len = 0 ∨ b.addr + b.len ≤ b'.addr ∨ b'.addr + b'.len ≤ b.addr := by
  unfold Apart Has
  constructor
  · intro h
    by_contra hcon
    exact h (max b.addr b'.addr) (by omega) (by omega)
  · intro h j
    omega

instance (b b' : IOTaskRamBuffer) : Decidable (b.Apart b') := decidable_of_iff' _ apart_iff

end IOTaskRamBuffer

/-- The used ring of a completion, as a part of RAM. -/
def VirtQueueCompletion.ring (c : VirtQueueCompletion) : IOTaskRamBuffer :=
  ⟨c.usedRing, usedBytes c.queueNum⟩

namespace VirtIOBlockAsyncTask

/-- What a request fills is apart from each other and from its used ring. -/
def Apart (task : VirtIOBlockAsyncTask) : Prop :=
  (task.targets ++ (task.used?.map (·.ring)).toList).Pairwise IOTaskRamBuffer.Apart
  deriving Decidable

end VirtIOBlockAsyncTask

/-! ## The used ring -/

/-- The id in a slot of the used ring. -/
def VirtQueueUsed.id (mem : Nat → BitVec 8) (used i : Nat) : BitVec 32 :=
  loadLE mem (used + 4 + 8 * i) 4

namespace WorkerOp

variable {op op' : WorkerOp} {s s' : BlockShared}

/-- What the operation wrote to RAM is there. -/
def Visible (s : BlockShared) : WorkerOp → Prop
  | .read o addr _ n => ∀ k < n, s.mem (addr + k) = s.file.bytes (o + k)
  | .status addr st => s.mem addr = st.toByte
  | _ => True

theorem run_visible (h : op.run s = .ok s') : op.Visible s' := by
  cases op with
  | read o addr len n =>
    cases h
    intro k hk
    show s.file.readAt o n s.mem addr (addr + k) = s.file.bytes (o + k)
    rw [BackingFile.readAt, if_pos (by omega), Nat.add_sub_cancel_left]
  | status addr st =>
    cases h
    show storeLE s.mem addr VirtioBlkStatus.bytes st.toByte addr = st.toByte
    rw [storeLE_inside (Nat.le_refl _) (Nat.lt_succ_self _), Nat.sub_self]
    simp
  | _ => trivial

/-- It stays visible as long as its bytes stay, and the file it read. -/
theorem Visible.of_same (h : op.Visible s) (hmem : ∀ j, op.Writes j → s'.mem j = s.mem j)
    (hfile : ∀ o addr len n, op = .read o addr len n → s'.file.bytes = s.file.bytes) :
    op.Visible s' := by
  cases op with
  | read o addr len n =>
    intro k hk
    rw [hmem (addr + k) ⟨by omega, by omega⟩, hfile o addr len n rfl]
    exact h k hk
  | status addr st =>
    show s'.mem addr = st.toByte
    rw [hmem addr rfl]
    exact h
  | _ => trivial

/-- The two write no byte in common. -/
def Separate (op op' : WorkerOp) : Prop := ∀ j, op.Writes j → ¬ op'.Writes j

end WorkerOp

namespace VirtIOBlockAsyncWorker

variable {fileLen i offset total : Nat} {io : Nat → HostIo} {bs : List IOTaskRamBuffer}
  {op : WorkerOp} {task : VirtIOBlockAsyncTask}

theorem readLoop_separate (hbs : bs.Pairwise IOTaskRamBuffer.Apart) :
    (readLoop fileLen io i offset total bs).ops.Pairwise WorkerOp.Separate := by
  induction bs generalizing i offset total with
  | nil => exact Pairwise.nil
  | cons b bs ih =>
    obtain ⟨hb, hrest⟩ := pairwise_cons.1 hbs
    have hhead : ∀ n, [WorkerOp.seek offset, .read offset b.addr b.len n].Pairwise
        WorkerOp.Separate := fun n => pairwise_pair.2 fun _ h => h.elim
    unfold readLoop
    split
    · exact pairwise_singleton _ _
    · exact hhead 0
    · next n _ =>
        dsimp only
        split
        · exact hhead _
        · refine pairwise_append.2 ⟨hhead _, ih hrest, ?_⟩
          intro op hop op' hop' j hj hj'
          -- the later accesses are to later buffers
          simp only [mem_cons, not_mem_nil, or_false] at hop
          rcases hop with rfl | rfl
          · exact hj
          · rcases mem_readLoop hop' with ⟨o, rfl, _⟩ | ⟨b', hb', o, m, rfl, hm, _⟩
            · exact hj'
            · exact hb b' hb' j ⟨hj.1, by have := hj.2; omega⟩ ⟨hj'.1, by have := hj'.2; omega⟩

theorem writeLoop_writes {j : Nat} (h : op ∈ (writeLoop io i offset bs).ops) : ¬ op.Writes j := by
  rcases mem_writeLoop h with ⟨o, rfl, _⟩ | ⟨b, _, o, n, rfl, _⟩ <;> exact id

/-- Accesses that keep to the data buffers, and a completion after them. -/
theorem complete_separate {ops : List WorkerOp} {c : VirtIOBlockCompletion}
    {st : VirtIOBlkReqStatus} {n : Nat} (hc : task.completion? = some c) (hap : task.Apart)
    (hops : ops.Pairwise WorkerOp.Separate)
    (hfilled : ∀ op ∈ ops, ∀ j, op.Writes j → ∃ b ∈ task.filled, b.Has j) :
    (ops ++ c.complete st n).Pairwise WorkerOp.Separate := by
  simp only [VirtIOBlockAsyncTask.Apart, VirtIOBlockAsyncTask.targets, VirtIOBlockAsyncTask.used?,
    hc, Option.map_some, Option.toList_some, append_assoc, cons_append, nil_append]
    at hap
  obtain ⟨_, hlast, hcross⟩ := pairwise_append.1 hap
  have hring : c.statusByte.Apart c.queueCompletion.ring := pairwise_pair.1 hlast
  refine pairwise_append.2 ⟨hops, ?_, ?_⟩
  · refine pairwise_cons.2 ⟨?_, pairwise_pair.2 fun _ _ h => h⟩
    intro op hop j hj hj'
    cases hj
    rcases mem_cons.1 hop with rfl | hop
    · exact hring c.statusAddr ⟨Nat.le_refl _, Nat.lt_succ_self _⟩ hj'
    · rw [mem_singleton.1 hop] at hj'
      exact hj'
  · intro op hop op' hop' j hj hj'
    obtain ⟨b, hb, hbj⟩ := hfilled op hop j hj
    simp only [VirtIOBlockCompletion.complete, mem_cons, not_mem_nil, or_false] at hop'
    rcases hop' with rfl | rfl | rfl
    · cases hj'
      exact hcross b hb _ mem_cons_self _ hbj ⟨Nat.le_refl _, Nat.lt_succ_self _⟩
    · exact hcross b hb _ (mem_cons_of_mem _ mem_cons_self) j hbj hj'
    · exact hj'

/-- No two operations of a task write to the same byte. -/
theorem runTask_separate (hap : task.Apart) :
    (runTask fileLen io task).Pairwise WorkerOp.Separate := by
  cases task with
  | read t =>
    have hbs : t.buffers.Pairwise IOTaskRamBuffer.Apart :=
      (pairwise_append.1 (pairwise_append.1 hap).1).1
    refine complete_separate rfl hap (readLoop_separate hbs) fun op hop j hj => ?_
    rcases mem_readLoop hop with ⟨o, rfl, _⟩ | ⟨b, hb, o, n, rfl, hn, _⟩
    · exact hj.elim
    · exact ⟨b, hb, hj.1, Nat.lt_of_lt_of_le hj.2 (Nat.add_le_add_left hn _)⟩
  | write t =>
    refine complete_separate rfl hap ?_ fun op hop j hj => (writeLoop_writes hop hj).elim
    exact pairwise_of_forall_mem_list fun op hop _ _ j hj => (writeLoop_writes hop hj).elim
  | flush c | earlyErr c | unsupported c =>
    exact complete_separate rfl hap Pairwise.nil fun _ h => by cases h
  | drainBarrier => exact pairwise_singleton _ _

end VirtIOBlockAsyncWorker

/-! ## Along a run -/

/-- A store of the driver leaves some parts of RAM as they are. -/
def BlockEvent.Keeps (mem : Nat → BitVec 8) (bs : List IOTaskRamBuffer) : BlockEvent → Prop
  | .guest mem' => ∀ b ∈ bs, ∀ k < b.len, mem' (b.addr + k) = mem (b.addr + k)
  | _ => True

instance (mem : Nat → BitVec 8) (bs : List IOTaskRamBuffer) (e : BlockEvent) :
    Decidable (e.Keeps mem bs) := by
  unfold BlockEvent.Keeps
  split <;> infer_instance

namespace BlockSystem

open BlockAction VirtIOBlockAsyncWorker

variable {s s' t : BlockSystem} {e : BlockEvent} {a : BlockAction} {es : List BlockEvent}
  {os : List BlockAction}

/-- The worker has a request that it has not counted. -/
def Uncounted (s : BlockSystem) : Prop := s.worker.todo.filterMap WorkerOp.used? ≠ []

/-- As long as the worker has not counted its request, what it fills is apart,
from the used ring of the device thread's request too, and is left alone by the
driver. -/
def Owned (s : BlockSystem) (e : BlockEvent) : Prop :=
  s.Uncounted → ∀ task ∈ s.worker.task,
    task.Apart ∧ (∀ c ∈ s.thread.held, ∀ b ∈ task.targets, b.Apart c.ring) ∧
      e.Keeps s.shared.mem task.targets

instance (s : BlockSystem) (e : BlockEvent) : Decidable (s.Owned e) :=
  inferInstanceAs (Decidable (_ ≠ _ → ∀ task ∈ s.worker.task, _ ∧ _ ∧ _))

/-- What has been done for the request is a first part of its operations, and
can be seen. -/
def InOrder (s : BlockSystem) : Prop :=
  s.Uncounted → ∃ task fileLen io, s.worker.task = some task ∧
    s.worker.done ++ s.worker.todo = runTask fileLen io task ∧
    ∀ op ∈ s.worker.done, op.Visible s.shared

theorem InOrder.of_idle (h : s.worker.todo = []) : s.InOrder :=
  fun hu => absurd (by rw [h]; rfl) hu

/-- What was done before the last one was made is not a used-ring insertion. -/
theorem used_eq_none_of_done {fileLen : Nat} {io : Nat → HostIo} {task : VirtIOBlockAsyncTask}
    {done todo : List WorkerOp} {op : WorkerOp} (h : done ++ todo = runTask fileLen io task)
    (hu : todo.filterMap WorkerOp.used? ≠ []) (hop : op ∈ done) : op.used? = none := by
  have hcount := congrArg length (@runTask_used fileLen io task)
  rw [← h, filterMap_append, length_append] at hcount
  have hpos := length_pos_iff.2 hu
  have hle : task.used?.toList.length ≤ 1 := by cases task.used? <;> simp
  have hnil : done.filterMap WorkerOp.used? = [] := length_eq_zero_iff.1 (by omega)
  exact filterMap_eq_nil_iff.1 hnil op hop

/-- Turns that leave the worker, the file and the targets as they are. -/
theorem InOrder.frame (h : s.InOrder) (hw : s'.worker = s.worker)
    (hfile : s'.shared.file = s.shared.file)
    (hmem : s.Uncounted → ∀ task ∈ s.worker.task, ∀ b ∈ task.targets, ∀ j, b.Has j →
      s'.shared.mem j = s.shared.mem j) : s'.InOrder := by
  intro hu
  unfold Uncounted at hu
  rw [hw] at hu ⊢
  obtain ⟨task, fileLen, io, htask, hops, hvis⟩ := h hu
  refine ⟨task, fileLen, io, htask, hops, fun op hop => ?_⟩
  refine (hvis op hop).of_same (fun j hj => ?_) fun _ _ _ _ _ => by rw [hfile]
  have hof : OpOf task op := mem_runTask (hops ▸ mem_append_left _ hop)
  obtain ⟨b, hb, hbj⟩ := hof.target (used_eq_none_of_done hops hu hop) hj
  exact hmem hu task htask b hb j hbj

/-- One operation of the worker keeps all that was visible. -/
theorem visible_work {fileLen : Nat} {io : Nat → HostIo} {task : VirtIOBlockAsyncTask}
    {done todo : List WorkerOp} {op : WorkerOp} {sh sh' : BlockShared} (hap : task.Apart)
    (hops : done ++ op :: todo = runTask fileLen io task) (hvis : ∀ op' ∈ done, op'.Visible sh)
    (hrun : op.run sh = .ok sh') : ∀ op' ∈ done ++ [op], op'.Visible sh' := by
  intro op' hop'
  rcases mem_append.1 hop' with hop' | hop'
  · have hsep : op'.Separate op := by
      have := @runTask_separate fileLen io task hap
      rw [← hops] at this
      exact (pairwise_append.1 this).2.2 op' hop' op mem_cons_self
    have hof : OpOf task op' := mem_runTask (hops ▸ mem_append_left _ hop')
    have hof' : OpOf task op := mem_runTask (hops ▸ mem_append_right _ mem_cons_self)
    refine (hvis op' hop').of_same (fun j hj => WorkerOp.run_frame hrun (hsep j hj)) ?_
    -- a task that reads the file does not write it
    rintro o addr len n rfl
    obtain ⟨t, _, htask, _⟩ := hof
    refine congrArg BackingFile.bytes (WorkerOp.run_file hrun ?_)
    rintro o' addr' n' rfl
    obtain ⟨t', _, htask', _⟩ := hof'
    rw [htask] at htask'
    cases htask'
  · rw [mem_singleton.1 hop']
    exact WorkerOp.run_visible hrun

theorem InOrder.step (h : s.InOrder) (hown : s.Owned e) (hs : s.step e = .ok (a, s')) :
    s'.InOrder := by
  cases step_turn hs with
  | guest mem =>
    refine h.frame rfl rfl fun hu task htask b hb j hj => ?_
    have hk := (hown hu task htask).2.2 b hb (j - b.addr) (by have := hj.1; have := hj.2; omega)
    rwa [Nat.add_sub_cancel' hj.1] at hk
  | @insert used _ _ hthread _ hused =>
    refine h.frame rfl rfl fun hu task htask b hb j hj => ?_
    have hap := (hown hu task htask).2.1 used (by rw [hthread]; exact mem_singleton.2 rfl)
    exact VirtQueueCompletion.complete_frame hused (hap b hb j hj)
  | @receive io task channel htodo hchannel =>
    exact fun _ => ⟨task, s.shared.file.len, io, rfl, rfl, fun _ hop => by cases hop⟩
  | @work io op todo shared htodo hrun =>
    intro hu
    have hu' : s.Uncounted := by
      unfold Uncounted
      rw [htodo, filterMap_cons_toList]
      exact append_ne_nil_of_right_ne_nil _ hu
    obtain ⟨task, fileLen, io, htask, hops, hvis⟩ := h hu'
    rw [htodo] at hops
    refine ⟨task, fileLen, io, htask, ?_, visible_work (hown hu' task htask).1 hops hvis hrun⟩
    rw [← hops, append_assoc]
    rfl
  | _ => exact h.frame rfl rfl fun _ _ _ _ _ _ _ => rfl

/-- The request of a completion as it is when the used index has counted it: its
status was written last and is there, a read that went well has its data, and
the interrupt is to come. -/
def Counted (s : BlockSystem) (c : VirtQueueCompletion) : Prop :=
  ∃ task completion status len before, s.worker.task = some task ∧
    task.completion? = some completion ∧ completion.queueCompletion = c ∧
    s.worker.done = before ++ [.status completion.statusAddr status] ++ [.used c len] ∧
    .isr ∉ s.worker.done ∧ s.worker.todo = [.isr] ∧
    s.shared.mem completion.statusAddr = status.toByte ∧
    ∀ t, task = .read t → status = .ok → ∀ i b, t.buffers[i]? = some b → ∀ k < b.len,
      s.shared.mem (b.addr + k) =
        s.shared.file.bytes (t.offset.toNat + sumLen (t.buffers.take i) + k)

theorem InOrder.counted (h : s.InOrder) (hown : s.Owned e) {c : VirtQueueCompletion}
    {len : BitVec 32} (hs : s.step e = .ok (.work (.used c len), s')) : s'.Counted c := by
  cases step_turn hs with
  | @work io _ todo shared htodo hrun =>
    have hu : s.Uncounted := by
      unfold Uncounted
      rw [htodo]
      exact cons_ne_nil _ _
    obtain ⟨task, fileLen, io', htask, hops, hvis⟩ := h hu
    rw [htodo] at hops
    have hvis' := visible_work (hown hu task htask).1 hops hvis hrun
    obtain ⟨completion, hc, hqc⟩ : OpOf task (.used c len) :=
      mem_runTask (hops ▸ mem_append_right _ mem_cons_self)
    obtain ⟨ops, st, n, hshape, haccess, hread⟩ := @runTask_eq fileLen io' task completion hc
    have hnot : ∀ op : WorkerOp, op.isAccess = false → op ∉ ops := by
      intro op hop hmem
      rw [haccess op hmem] at hop
      cases hop
    -- the insertion occurs once among the operations, so it cuts them in one way
    have hcut : (ops ++ [.status completion.statusAddr st]) ++
        .used completion.queueCompletion (BitVec.ofNat 32 n) :: [.isr] =
          s.worker.done ++ .used c len :: todo := by
      rw [hops, hshape, VirtIOBlockCompletion.complete, append_assoc]
      rfl
    obtain ⟨hdone, _, hrest⟩ := (append_cons_inj_of_notMem
      (by simp [hnot (.used c len) rfl]) (by simp)).1 hcut
    refine ⟨task, completion, st, len, ops, htask, hc, hqc.symm, ?_, ?_, hrest.symm, ?_, ?_⟩
    · show s.worker.done ++ [_] = _
      rw [← hdone]
    · show .isr ∉ s.worker.done ++ [_]
      rw [← hdone]
      simp [hnot .isr rfl]
    · refine hvis' (.status completion.statusAddr st) (mem_append_left _ ?_)
      rw [← hdone]
      exact mem_append_right _ mem_cons_self
    · intro t htask' hok i b hb k hk
      refine hvis' (.read _ b.addr b.len b.len) (mem_append_left _ ?_) k hk
      rw [← hdone]
      exact mem_append_left _ (hread t htask' hok i b hb)

/-! ## Turns do not panic -/

theorem deviceStep_ok (h : ∀ c ∈ s.thread.held, c.queueNum ≠ 0) : ∃ out, s.deviceStep = .ok out := by
  unfold deviceStep
  split
  · exact ⟨_, rfl⟩
  · unfold takeEntry
    split
    · exact ⟨_, rfl⟩
    · obtain ⟨⟨taken, queue⟩, htake⟩ := s.mmio.device.queue.takeEntry_ok s.shared.mem
      rw [htake]
      cases taken <;> exact ⟨_, rfl⟩
  · next used handle idx request _ =>
      unfold walkOn
      rcases handle.tryGet_cases s.shared.mem with ⟨_, htry⟩ | ⟨d, _, htry, hvisits⟩
      · rw [htry]
        exact ⟨_, rfl⟩
      · have hadd : ∃ r, add s.shared.mem request d idx = .ok r :=
          add_ok hvisits.inRam request idx
        obtain ⟨request', hadd⟩ := hadd
        simp only [htry, hadd, bind, Except.bind, pure, Except.pure]
        exact ⟨_, rfl⟩
  · next used request hthread =>
      rw [hthread] at h
      have hnum : used.queueNum ≠ 0 := h used (mem_singleton.2 rfl)
      unfold submit VirtIOBlkDevice.finishRequest
      split
      · rw [VirtQueueCompletion.complete_eq hnum]
        exact ⟨_, rfl⟩
      · exact ⟨_, rfl⟩
  · split <;> exact ⟨_, rfl⟩
  · exact ⟨_, rfl⟩
  · exact ⟨_, rfl⟩

theorem workerStep_ok (h : ∀ c ∈ s.fifo, c.queueNum ≠ 0) (io : Nat → HostIo) :
    ∃ out, s.workerStep io = .ok out := by
  unfold workerStep
  split
  · next op todo htodo =>
      have hrun : ∃ sh, op.run s.shared = .ok sh := by
        cases op with
        | used c len =>
          have hnum : c.queueNum ≠ 0 := h c (by simp [fifo, htodo, WorkerOp.used?])
          exact ⟨_, by rw [WorkerOp.run, VirtQueueCompletion.complete_eq hnum]; rfl⟩
        | _ => exact ⟨_, rfl⟩
      obtain ⟨sh, hrun⟩ := hrun
      rw [hrun]
      exact ⟨_, rfl⟩
  · split <;> exact ⟨_, rfl⟩

/-- What is in flight was consumed from a queue with entries. -/
def Sized (s : BlockSystem) : Prop := ∀ c ∈ s.inFlight, c.queueNum ≠ 0

theorem consumed_queueNum (h : s.step e = .ok (a, s')) :
    ∀ c, consumed? a = some c → c.queueNum ≠ 0 := by
  cases step_turn h with
  | consume _ htake =>
    obtain ⟨_, _, _, _, _, _, hnum, _, hc, _⟩ := (takeEntry_eq_some htake).1
    rintro c ⟨⟩
    rw [hc]
    exact hnum
  | _ => exact fun _ h => (by cases h)

theorem Sized.run (hs : s.Sized) (h : runAll step s es = .ok (os, t)) : t.Sized := by
  intro c hc
  have hbalance := inFlight_run h
  rcases mem_append.1 (hbalance.symm.subset (mem_append_right _ hc)) with hold | hnew
  · exact hs c hold
  · obtain ⟨a, ha, hac⟩ := mem_filterMap.1 hnew
    have hstep : ∀ s e a s', step s e = .ok (a, s') →
        ∀ c, consumed? a = some c → c.queueNum ≠ 0 := fun _ _ _ _ => consumed_queueNum
    exact runAll_forall hstep h a ha c hac

/-- No turn of device thread or worker panics. -/
theorem Sized.turn_ok (hs : s.Sized) (he : e.isDevice ∨ e.isWorker) :
    ∃ out, s.step e = .ok out := by
  cases e with
  | device => exact deviceStep_ok fun c hc => hs c (mem_append_left _ hc)
  | worker io => exact workerStep_ok (fun c hc => hs c (mem_append_right _ hc)) io
  | read | write | guest => simp [BlockEvent.isDevice, BlockEvent.isWorker] at he

/-! ## Every request once -/

/-- Nothing is in flight. -/
def Quiet (s : BlockSystem) : Prop := s.thread = .idle ∧ s.channel = [] ∧ s.worker.todo = []
  deriving Decidable

theorem Quiet.inFlight (h : s.Quiet) : s.inFlight = [] := by
  simp [BlockSystem.inFlight, fifo, h.1, h.2.1, h.2.2, DeviceThread.held]

theorem Quiet.sized (h : s.Quiet) : s.Sized := by
  unfold Sized
  rw [h.inFlight]
  exact fun _ hc => absurd hc not_mem_nil

/-- A device on a file of one sector, all its bytes 0x55. -/
def board (mem : Nat → BitVec 8) : BlockSystem :=
  new VERSION_1 0 1 ⟨fun _ => 0x55, 512⟩ mem

/-- The driver sets up a queue with the descriptors at offset 0 and the
available ring at 0x40, and rings the doorbell; the device thread gets turns. -/
def doorbell (num used : WordType) (turns : Nat) : List BlockEvent :=
  [.write .u32 0x38 num, .write .u32 0x80 BASE_ADDR, .write .u32 0x90 (BASE_ADDR + 0x40),
    .write .u32 0xa0 used, .write .u32 0x44 1, .write .u32 0x50 0] ++ replicate turns .device

/-- The turns of the worker for a read into one buffer. -/
def serveRead : List BlockEvent := replicate 6 (.worker fun _ => .done 16)

/-- The device thread is in the table of `cyclicMem`, with nothing else to do. -/
structure Stuck (s : BlockSystem) : Prop where
  thread : ∃ used idx request, s.thread = .walking used ⟨⟨0x20, 2⟩, 1, 1⟩ idx request
  channel : s.channel = []
  todo : s.worker.todo = []
  mem : s.shared.mem = cyclicMem

theorem Stuck.step (h : s.Stuck) (he : e.isDevice ∨ e.isWorker) :
    ∃ a s', s.step e = .ok (a, s') ∧ inserted? a = none ∧ s'.Stuck := by
  obtain ⟨used, idx, request, hthread⟩ := h.thread
  cases e with
  | device =>
    have htry : VirtQueueDescHandle.tryGet cyclicMem ⟨⟨0x20, 2⟩, 1, 1⟩ =
        .ok (some ⟨BASE_ADDR, 16, VirtQueueDescFlag.next, 1⟩, ⟨⟨0x20, 2⟩, 1, 1⟩) := by
      decide +kernel
    have hadd : ∃ r, add cyclicMem request
        ⟨BASE_ADDR, 16, VirtQueueDescFlag.next, 1⟩ idx = .ok r :=
      add_ok (by decide) request idx
    obtain ⟨r, hadd⟩ := hadd
    refine ⟨.device, { s with thread := .walking used ⟨⟨0x20, 2⟩, 1, 1⟩ (idx + 1) r }, ?_, rfl,
      ⟨used, idx + 1, r, rfl⟩, h.channel, h.todo, h.mem⟩
    simp only [step, deviceStep, hthread, walkOn, h.mem, htry, hadd, bind, Except.bind,
      pure, Except.pure]
  | worker io =>
    refine ⟨.wait, s, ?_, rfl, h⟩
    simp only [step, workerStep, h.todo, h.channel]
  | read | write | guest => simp [BlockEvent.isDevice, BlockEvent.isWorker] at he

end BlockSystem

end HereEmu
