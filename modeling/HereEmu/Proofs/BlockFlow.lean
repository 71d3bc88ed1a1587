import HereEmu.Proofs.BlockTurn
import Mathlib.Data.List.Perm.Subperm

/-!
# Where a request is

A completion stands for its request from the moment its entry is consumed. The
device thread holds at most one, the rest are in the channel or in the hands of
the worker, in the order they were submitted, until they are inserted into the
used ring. Both queues are accounted for by `runAll_account`, and together they
give the balance: what was consumed has been inserted or is in flight, each as
often as it was consumed.

Progress is in numbers of turns. The operations the worker still has to make
bound the turns it needs, whatever the others do in between. The device thread
needs the turns of its walk, if the walk ends.
-/

namespace HereEmu

open Lib VirtIOBlockAsyncTask VirtIOBlockCompletion List VirtQueueDescHandle

/-! ## Books -/

def VirtIOBlockAsyncTask.used? (task : VirtIOBlockAsyncTask) : Option VirtQueueCompletion :=
  task.completion?.map (·.queueCompletion)

/-- What the device thread has consumed and not passed on. -/
def DeviceThread.held : DeviceThread → List VirtQueueCompletion
  | .walking used _ _ _ => [used]
  | .walked used _ => [used]
  | _ => []

namespace BlockEvent

def isWorker : BlockEvent → Bool
  | .worker _ => true
  | _ => false

def isDevice : BlockEvent → Bool
  | .device => true
  | _ => false

end BlockEvent

namespace BlockAction

def consumed? : BlockAction → Option VirtQueueCompletion
  | .consume c => some c
  | _ => none

/-- What leaves the device thread. -/
def departed? : BlockAction → Option VirtQueueCompletion
  | .insert c => some c
  | .submit task => task.used?
  | _ => none

def submitted? : BlockAction → Option VirtQueueCompletion
  | .submit task => task.used?
  | _ => none

/-- What the worker inserts into a used ring. -/
def published? : BlockAction → Option VirtQueueCompletion
  | .work op => op.used?
  | _ => none

/-- What is inserted into a used ring, by either side. -/
def inserted? : BlockAction → Option VirtQueueCompletion
  | .insert c => some c
  | .work op => op.used?
  | _ => none

end BlockAction

namespace VirtIOBlockAsyncWorker

variable {fileLen i offset total : Nat} {io : Nat → HostIo} {bs : List IOTaskRamBuffer}

/-- A buffer takes two operations at most. -/
theorem readLoop_length : (readLoop fileLen io i offset total bs).ops.length ≤ 2 * bs.length := by
  fun_induction readLoop <;> grind

theorem writeLoop_length : (writeLoop io i offset bs).ops.length ≤ 2 * bs.length := by
  fun_induction writeLoop <;> grind

/-- The turns a task costs the worker at most, taking it included. -/
def cost (task : VirtIOBlockAsyncTask) : Nat := 2 * task.buffers.length + 4

theorem length_runTask (task : VirtIOBlockAsyncTask) :
    (runTask fileLen io task).length < cost task := by
  cases task with
  | read t =>
    have := @readLoop_length fileLen 0 t.offset.toNat 0 io t.buffers
    simp only [runTask, read, cost, buffers, length_append, complete, length_cons, length_nil]
    omega
  | write t =>
    have := @writeLoop_length 0 t.offset.toNat io t.buffers
    simp only [runTask, write, cost, buffers, length_append, complete, length_cons, length_nil]
    omega
  | flush | earlyErr | unsupported | drainBarrier =>
    simp [runTask, cost, complete]

/-- A task inserts the completion it carries, once. -/
theorem runTask_used (task : VirtIOBlockAsyncTask) :
    (runTask fileLen io task).filterMap WorkerOp.used? = task.used?.toList := by
  cases hc : task.completion? with
  | none =>
    cases task with
    | drainBarrier => rfl
    | _ => cases hc
  | some c =>
    obtain ⟨ops, st, n, hrun, hops, _⟩ := @runTask_eq fileLen io task c hc
    have hnone : ops.filterMap WorkerOp.used? = [] := by
      refine filterMap_eq_nil_iff.2 fun op hop => ?_
      have := hops op hop
      cases op <;> first | rfl | cases this
    rw [hrun, filterMap_append, hnone, used?, hc]
    rfl

end VirtIOBlockAsyncWorker

namespace BlockSystem

open BlockAction

variable {s s' t : BlockSystem} {e : BlockEvent} {a : BlockAction} {es : List BlockEvent}
  {os : List BlockAction}

/-- The completions behind the device thread, in the order of their tasks. -/
def fifo (s : BlockSystem) : List VirtQueueCompletion :=
  s.worker.todo.filterMap WorkerOp.used? ++ s.channel.filterMap used?

def inFlight (s : BlockSystem) : List VirtQueueCompletion := s.thread.held ++ s.fifo

theorem threadOf_held (call : VirtIOMMIO.Call) : (threadOf call).held = [] := by
  cases call <;> rfl

theorem wake_held (thread : DeviceThread) (op : WorkerOp) : (wake thread op).held = thread.held := by
  unfold wake
  split <;> rfl

theorem requestTask_used {dev : VirtIOBlkDevice} {r : BlkRequest} {c : VirtIOBlockCompletion} :
    (dev.requestTask r c).used? = some c.queueCompletion := by
  rw [used?, VirtIOBlkDevice.requestTask_completion]
  rfl

/-- The device thread passes on what it consumed. -/
theorem held_step (h : s.step e = .ok (a, s')) :
    s.thread.held ++ (consumed? a).toList = (departed? a).toList ++ s'.thread.held := by
  cases step_turn h with
  | wait | read | refused | guest | receive => simp [consumed?, departed?]
  | written hidle =>
    rw [hidle]
    exact (threadOf_held _).symm
  | full hthread | empty hthread | consume hthread | visit hthread | chainEnd hthread
  | insert hthread | barrier hthread | finishReset hthread =>
    rw [hthread]
    rfl
  | submit hthread =>
    rw [hthread]
    simp [consumed?, departed?, requestTask_used, DeviceThread.held]
  | work => simp [consumed?, departed?, wake_held]

/-- The worker inserts what was submitted, in the same order. -/
theorem fifo_step (h : s.step e = .ok (a, s')) :
    s.fifo ++ (submitted? a).toList = (published? a).toList ++ s'.fifo := by
  cases step_turn h with
  | submit => simp [submitted?, published?, fifo, requestTask_used]
  | barrier => simp [submitted?, published?, fifo, used?, completion?]
  | receive io htodo hchannel =>
    simp [submitted?, published?, fifo, htodo, hchannel, VirtIOBlockAsyncWorker.runTask_used,
      filterMap_cons_toList]
  | work io htodo =>
    simp [submitted?, published?, fifo, htodo, filterMap_cons_toList]
  | _ => simp [submitted?, published?, fifo]

theorem held_run (h : runAll step s es = .ok (os, t)) :
    s.thread.held ++ os.filterMap consumed? = os.filterMap departed? ++ t.thread.held := by
  have hstep : ∀ s e a s', step s e = .ok (a, s') →
      s.thread.held ++ (consumed? a).toList = (departed? a).toList ++ s'.thread.held :=
    fun _ _ _ _ => held_step
  exact runAll_account hstep h

theorem fifo_run (h : runAll step s es = .ok (os, t)) :
    s.fifo ++ os.filterMap submitted? = os.filterMap published? ++ t.fifo :=
  runAll_account (fun _ _ _ _ => fifo_step) h

/-- Leaving the device thread is being inserted or being submitted. -/
theorem count_inserted (c : VirtQueueCompletion) (os : List BlockAction) :
    (os.filterMap inserted?).count c + (os.filterMap submitted?).count c =
      (os.filterMap departed?).count c + (os.filterMap published?).count c := by
  induction os with
  | nil => rfl
  | cons a os ih =>
    have ha : (inserted? a).toList.count c + (submitted? a).toList.count c =
        (departed? a).toList.count c + (published? a).toList.count c := by
      cases a <;> simp [inserted?, submitted?, departed?, published?]
    simp only [filterMap_cons_toList, count_append]
    omega

/-- The balance of a run: what was in flight or has been consumed has been
inserted or is in flight. -/
theorem inFlight_run (h : runAll step s es = .ok (os, t)) :
    (s.inFlight ++ os.filterMap consumed?).Perm (os.filterMap inserted? ++ t.inFlight) := by
  refine perm_iff_count.2 fun c => ?_
  have hheld := congrArg (count c) (held_run h)
  have hfifo := congrArg (count c) (fifo_run h)
  have hins := count_inserted c os
  simp only [inFlight, count_append] at hheld hfifo ⊢
  omega

/-! ## Progress -/

/-- The register access the device thread is busy with has not returned. -/
def Busy (s : BlockSystem) (_ : BlockEvent) : Prop := s.thread ≠ .idle
  deriving Decidable

/-- It returns with the last event of the run. -/
structure Returns (s : BlockSystem) (es : List BlockEvent) (os : List BlockAction)
    (t : BlockSystem) : Prop where
  run : runAll step s es = .ok (os, t)
  busy : Always step Busy s es
  idle : t.thread = .idle

/-- The turns that are the worker's. -/
def workerTurns (es : List BlockEvent) : Nat := es.countP (·.isWorker)

/-- The turns that are the device thread's. -/
def deviceTurns (es : List BlockEvent) : Nat := es.countP (·.isDevice)

/-- A block of turns in which device thread and worker both have one. -/
def Round (block : List BlockEvent) : Prop := 1 ≤ deviceTurns block ∧ 1 ≤ workerTurns block
  deriving Decidable

/-- Whatever happens that is allowed by `C`, the access the thread is busy with
has returned after `n` rounds. -/
def ReturnsWithin (s : BlockSystem) (C : BlockSystem → BlockEvent → Prop) (n : Nat) : Prop :=
  ∀ (blocks : List (List BlockEvent)) (os : List BlockAction) (t : BlockSystem),
    (∀ b ∈ blocks, Round b) → runAll step s blocks.flatten = .ok (os, t) →
    Always step Busy s blocks.flatten → Always step C s blocks.flatten →
    blocks.length ≤ n

/-- The turns after which the worker has seen to all it has been given. -/
def backlog (s : BlockSystem) : Nat :=
  s.worker.todo.length + (s.channel.map VirtIOBlockAsyncWorker.cost).sum

/-- The worker waits only when it has nothing to do. -/
theorem worker_waits {io : Nat → HostIo} (h : s.step (.worker io) = .ok (.wait, s')) :
    s.worker.todo = [] ∧ s.channel = [] := by
  simp only [step, workerStep] at h
  split at h
  · simp only [bind, Except.bind, pure, Except.pure] at h
    split at h <;> cases h
  · next htodo =>
      split at h
      · next hchannel => exact ⟨htodo, hchannel⟩
      · cases h

section InHand

variable {used : VirtQueueCompletion} {handle : VirtQueueDescHandle} {i : Nat} {r : BlkRequest}

/-- While the device thread holds a request, only its own turns move it. -/
theorem thread_step (h : s.step e = .ok (a, s')) (he : e.isDevice = false)
    (hheld : s.thread.held ≠ []) : s'.thread = s.thread ∧ departed? a = none := by
  cases step_turn h with
  | written hidle => exact absurd (by rw [hidle]; rfl) hheld
  | work => exact ⟨wake_eq_self fun hack => hheld (by rw [hack.1]; rfl), rfl⟩
  | wait | read | refused | guest | receive => exact ⟨rfl, rfl⟩
  | _ => cases he

/-- In the middle of a chain it looks at the next descriptor, or is at the end. -/
theorem walking_device (h : s.step .device = .ok (a, s'))
    (hthread : s.thread = .walking used handle i r) :
    a = .device ∧ ((∃ d handle' r', handle.tryGet s.shared.mem = .ok (some d, handle') ∧
        r.add s.shared.mem d i = .ok r' ∧ s'.thread = .walking used handle' (i + 1) r') ∨
      (∃ handle', handle.tryGet s.shared.mem = .ok (none, handle')) ∧ s'.thread = .walked used r) := by
  simp only [step, deviceStep, hthread] at h
  obtain ⟨⟨desc, handle'⟩, htry, h⟩ := exists_of_bind_ok h
  cases desc with
  | none =>
    cases h
    exact ⟨rfl, .inr ⟨⟨_, htry⟩, rfl⟩⟩
  | some desc =>
    obtain ⟨r', hadd, ⟨⟩⟩ := exists_of_bind_ok h
    exact ⟨rfl, .inl ⟨_, _, _, htry, hadd, rfl⟩⟩

/-- At the end it passes the request on, to the worker if there is a status byte. -/
theorem walked_device (h : s.step .device = .ok (a, s')) (hthread : s.thread = .walked used r) :
    departed? a = some used ∧ (a = .insert used ↔ r.statusAddr = none) := by
  simp only [step, deviceStep, hthread] at h
  obtain ⟨out, hfin, h⟩ := exists_of_bind_ok h
  rcases VirtIOBlkDevice.finishRequest_cases hfin with ⟨hstatus, htask, _⟩ | ⟨_, hstatus, _, htask⟩ <;>
    rw [htask] at h <;> cases h
  · exact ⟨rfl, fun _ => hstatus, fun _ => rfl⟩
  · exact ⟨requestTask_used, fun h => (by cases h), fun h => (by cases hstatus.symm.trans h)⟩

/-- It does not wait with a request in hand. -/
theorem device_ne_wait (hheld : s.thread.held ≠ []) : s.step .device ≠ .ok (.wait, s') := by
  intro h
  cases hthread : s.thread with
  | walking => cases (walking_device h hthread).1
  | walked => cases (walked_device h hthread).1
  | _ => exact hheld (by rw [hthread]; rfl)

/-! ## The chain in hand -/

/-- A walk finds the same descriptors in both memories. -/
def SameChain (mem mem' : Nat → BitVec 8) (handle : VirtQueueDescHandle) : Prop :=
  ∀ n h, turns (next mem) n handle = some h → h.tryGet mem' = h.tryGet mem

/-- A turn leaves what the walk in progress is going to look at. -/
def KeepsChain (s : BlockSystem) (e : BlockEvent) : Prop :=
  ∀ a s', s.step e = .ok (a, s') → ∀ used handle i r, s.thread = .walking used handle i r →
    SameChain s.shared.mem s'.shared.mem handle

/-- The chain in hand comes back to an indirect table. -/
def Reenters (s : BlockSystem) : Prop :=
  ∃ used handle i r, s.thread = .walking used handle i r ∧
    Lib.Reenters (next s.shared.mem) (entered s.shared.mem) handle

variable {mem mem' : Nat → BitVec 8} {handle' : VirtQueueDescHandle} {d : VirtQueueDesc}

theorem turns_tryGet (htry : handle.tryGet mem = .ok (some d, handle')) (n : Nat) :
    turns (next mem) (n + 1) handle = turns (next mem) n handle' := by
  simp [turns, VirtQueueDescHandle.next, htry]

theorem SameChain.tail (h : SameChain mem mem' handle)
    (htry : handle.tryGet mem = .ok (some d, handle')) : SameChain mem mem' handle' :=
  fun n u hu => h (n + 1) u ((turns_tryGet htry n).trans hu)

theorem SameChain.turns (h : SameChain mem mem' handle) (n : Nat) :
    turns (next mem') n handle = turns (next mem) n handle := by
  refine turns_congr (fun m u hu => ?_) n
  rw [VirtQueueDescHandle.next, VirtQueueDescHandle.next, h m u hu]

/-- A turn in the middle of a chain. -/
theorem walking_step (h : s.step e = .ok (a, s')) (hkeep : s.KeepsChain e)
    (hthread : s.thread = .walking used handle i r) :
    departed? a = none ∧
      (e.isDevice = false ∧ s'.thread = .walking used handle i r ∧
          SameChain s.shared.mem s'.shared.mem handle ∨
        (∃ d handle' r', handle.tryGet s.shared.mem = .ok (some d, handle') ∧
          r.add s.shared.mem d i = .ok r' ∧ s'.thread = .walking used handle' (i + 1) r' ∧
          SameChain s.shared.mem s'.shared.mem handle') ∨
        (∃ handle', handle.tryGet s.shared.mem = .ok (none, handle')) ∧
          s'.thread = .walked used r) := by
  have hsame := hkeep a s' h used handle i r hthread
  cases he : e.isDevice with
  | false =>
    obtain ⟨hkept, ha⟩ := thread_step h he (by simp [hthread, DeviceThread.held])
    exact ⟨ha, .inl ⟨rfl, hkept.trans hthread, hsame⟩⟩
  | true =>
    cases e with
    | device =>
      obtain ⟨rfl, ⟨d, handle', r', htry, hadd, hthread'⟩ | hend⟩ := walking_device h hthread
      · exact ⟨rfl, .inr (.inl ⟨d, handle', r', htry, hadd, hthread', hsame.tail htry⟩)⟩
      · exact ⟨rfl, .inr (.inr hend)⟩
    | _ => cases he

/-- A turn at the end of a chain. -/
theorem walked_step (h : s.step e = .ok (a, s')) (hthread : s.thread = .walked used r) :
    e.isDevice = false ∧ departed? a = none ∧ s'.thread = .walked used r ∨
      departed? a = some used ∧ (a = .insert used ↔ r.statusAddr = none) := by
  cases he : e.isDevice with
  | false =>
    obtain ⟨hkept, ha⟩ := thread_step h he (by simp [hthread, DeviceThread.held])
    exact .inl ⟨rfl, ha, hkept.trans hthread⟩
  | true =>
    cases e with
    | device => exact .inr (walked_device h hthread)
    | _ => cases he

/-- A walk that does not end. -/
def Endless (s : BlockSystem) : Prop :=
  ∃ used handle i r, s.thread = .walking used handle i r ∧
    ∀ n, turns (next s.shared.mem) n handle ≠ none

theorem Reenters.endless (h : s.Reenters) : s.Endless := by
  obtain ⟨used, handle, i, r, hthread, hre⟩ := h
  exact ⟨used, handle, i, r, hthread,
    hre.turns_ne_none fun _ _ _ => next_eq_of_entered⟩

/-- The request stays where it is. -/
theorem Endless.run (hs : s.Endless) (hkeep : Always step KeepsChain s es)
    (h : runAll step s es = .ok (os, t)) : t.Endless ∧ os.filterMap departed? = [] := by
  induction es generalizing s os with
  | nil =>
    cases h
    exact ⟨hs, rfl⟩
  | cons e es ih =>
    obtain ⟨a, s', os', hstep, hrest, rfl⟩ := runAll_cons h
    obtain ⟨used, handle, i, r, hthread, hne⟩ := hs
    obtain ⟨ha, hturn⟩ := walking_step hstep hkeep.1 hthread
    rw [filterMap_cons_none ha]
    refine ih ?_ (hkeep.2 a s' hstep) hrest
    rcases hturn with
      ⟨_, hthread', hsame⟩ | ⟨d, handle', r', htry, _, hthread', hsame⟩ | ⟨⟨_, htry⟩, _⟩
    · exact ⟨used, handle, i, r, hthread', fun n => by rw [hsame.turns]; exact hne n⟩
    · refine ⟨used, handle', i + 1, r', hthread', fun n => ?_⟩
      rw [hsame.turns, ← turns_tryGet htry]
      exact hne (n + 1)
    · exact absurd (by simp [turns, VirtQueueDescHandle.next, htry]) (hne 1)

end InHand

end BlockSystem

end HereEmu
