import HereEmu.Proofs.BlockRequest
import Mathlib.Algebra.GroupWithZero.Nat

/-!
# What the worker writes

`mem_runTask` says what the operations of a task are: the accesses of a read or
a write keep to the buffers and to the stretch of the file the task was made
for, and a completion writes its status byte and its used ring. With what a
single operation can change (`WorkerOp.run_frame`) this gives the footprint of
a request in RAM, whatever happens between its operations.
-/

namespace HereEmu

open Lib List

/-- The number of bytes a list of buffers holds. -/
def sumLen (buffers : List IOTaskRamBuffer) : Nat := (buffers.map (·.len)).sum

@[simp] theorem sumLen_cons (b : IOTaskRamBuffer) (bs : List IOTaskRamBuffer) :
    sumLen (b :: bs) = b.len + sumLen bs := rfl

/-- The byte lies in the buffer. -/
def IOTaskRamBuffer.Has (b : IOTaskRamBuffer) (j : Nat) : Prop := b.addr ≤ j ∧ j < b.addr + b.len

def VirtIOBlockCompletion.statusByte (c : VirtIOBlockCompletion) : IOTaskRamBuffer :=
  ⟨c.statusAddr, VirtioBlkStatus.bytes⟩

namespace VirtIOBlockAsyncTask

/-- The data buffers the device fills. -/
def filled : VirtIOBlockAsyncTask → List IOTaskRamBuffer
  | .read t => t.buffers
  | _ => []

/-- All that the device fills before it counts the request. -/
def targets (task : VirtIOBlockAsyncTask) : List IOTaskRamBuffer :=
  task.filled ++ (task.completion?.map (·.statusByte)).toList

end VirtIOBlockAsyncTask

def WorkerOp.used? : WorkerOp → Option VirtQueueCompletion
  | .used c _ => some c
  | _ => none

/-- An access to the file. -/
def WorkerOp.isAccess : WorkerOp → Bool
  | .seek _ => true
  | .read _ _ _ _ => true
  | .write _ _ _ => true
  | _ => false

/-- What a read of `len` bytes before the end of the file may come back with. -/
def HostIo.Arrives (len : Nat) (io : HostIo) : Prop :=
  ∃ n, io = .done n ∧ (0 < len → 1 ≤ n ∧ n ≤ len)

namespace VirtIOBlockAsyncWorker

variable {fileLen i offset total : Nat} {io : Nat → HostIo} {bs : List IOTaskRamBuffer}
  {op : WorkerOp} {task : VirtIOBlockAsyncTask}

/-- A seek to the stretch of the file that starts at `offset` and is as long as
the buffers, or a transfer between a buffer and its part of the stretch. -/
def AccessOf (transfer : Nat → IOTaskRamBuffer → Nat → WorkerOp) (offset : Nat)
    (bs : List IOTaskRamBuffer) (op : WorkerOp) : Prop :=
  (∃ o, op = .seek o ∧ o ≤ offset + sumLen bs) ∨
    ∃ b ∈ bs, ∃ o n, op = transfer o b n ∧ n ≤ b.len ∧ o + b.len ≤ offset + sumLen bs

section AccessOf

variable {transfer : Nat → IOTaskRamBuffer → Nat → WorkerOp} {b : IOTaskRamBuffer} {n : Nat}

theorem AccessOf.head (hn : n ≤ b.len) (h : op ∈ [.seek offset, transfer offset b n]) :
    AccessOf transfer offset (b :: bs) op := by
  unfold AccessOf
  rw [sumLen_cons]
  rcases mem_cons.1 h with rfl | h
  · exact .inl ⟨offset, rfl, by omega⟩
  · rw [mem_singleton.1 h]
    exact .inr ⟨b, mem_cons_self, offset, n, rfl, hn, by omega⟩

theorem AccessOf.tail (h : AccessOf transfer (offset + b.len) bs op) :
    AccessOf transfer offset (b :: bs) op := by
  unfold AccessOf
  rw [sumLen_cons]
  rcases h with ⟨o, rfl, ho⟩ | ⟨b', hb', o, n, rfl, hn, ho⟩
  · exact .inl ⟨o, rfl, by omega⟩
  · exact .inr ⟨b', mem_cons_of_mem _ hb', o, n, rfl, hn, by omega⟩

end AccessOf

theorem mem_readLoop (h : op ∈ (readLoop fileLen io i offset total bs).ops) :
    AccessOf (fun o b n => .read o b.addr b.len n) offset bs op := by
  induction bs generalizing i offset total with
  | nil => cases h
  | cons b bs ih =>
    unfold readLoop at h
    split at h
    · exact .head (Nat.zero_le _) (mem_cons.2 (.inl (mem_singleton.1 h)))
    · exact .head (Nat.zero_le _) h
    · next n _ =>
        have hle : min n (min b.len (fileLen - offset)) ≤ b.len := by omega
        dsimp only at h
        split at h
        · exact .head hle h
        · next heq =>
            rcases mem_append.1 h with h | h
            · exact .head hle h
            · -- the loop goes on only after a full read
              rw [show min n (min b.len (fileLen - offset)) = b.len by omega] at h
              exact .tail (ih h)

theorem mem_writeLoop (h : op ∈ (writeLoop io i offset bs).ops) :
    AccessOf (fun o b n => .write o b.addr n) offset bs op := by
  induction bs generalizing i offset with
  | nil => cases h
  | cons b bs ih =>
    unfold writeLoop at h
    split at h
    · exact .head (Nat.zero_le _) (mem_cons.2 (.inl (mem_singleton.1 h)))
    · exact .head (Nat.min_le_right _ _) h
    · rcases mem_append.1 h with h | h
      · exact .head (Nat.le_refl _) h
      · exact .tail (ih h)

/-- An operation that can belong to a task. -/
def OpOf (task : VirtIOBlockAsyncTask) : WorkerOp → Prop
  | .seek o => ∃ t, (task = .read t ∨ task = .write t) ∧ o ≤ t.offset.toNat + sumLen t.buffers
  | .read o addr len n => ∃ t b, task = .read t ∧ b ∈ t.buffers ∧ addr = b.addr ∧ len = b.len ∧
      n ≤ b.len ∧ o + b.len ≤ t.offset.toNat + sumLen t.buffers
  | .write o addr n => ∃ t b, task = .write t ∧ b ∈ t.buffers ∧ addr = b.addr ∧ n ≤ b.len ∧
      o + b.len ≤ t.offset.toNat + sumLen t.buffers
  | .status a _ => ∃ c, task.completion? = some c ∧ a = c.statusAddr
  | .used qc _ => ∃ c, task.completion? = some c ∧ qc = c.queueCompletion
  | .isr => True
  | .ack => task = .drainBarrier

theorem mem_complete {c : VirtIOBlockCompletion} {st : VirtIOBlkReqStatus} {len : Nat}
    (hc : task.completion? = some c) (h : op ∈ c.complete st len) : OpOf task op := by
  rcases mem_cons.1 h with rfl | h
  · exact ⟨c, hc, rfl⟩
  rcases mem_cons.1 h with rfl | h
  · exact ⟨c, hc, rfl⟩
  rw [mem_singleton.1 h]
  trivial

theorem mem_runTask (h : op ∈ runTask fileLen io task) : OpOf task op := by
  cases task with
  | read t =>
    rcases mem_append.1 h with h | h
    · rcases mem_readLoop h with ⟨o, rfl, ho⟩ | ⟨b, hb, o, n, rfl, hn, ho⟩
      · exact ⟨t, .inl rfl, ho⟩
      · exact ⟨t, b, rfl, hb, rfl, rfl, hn, ho⟩
    · exact mem_complete rfl h
  | write t =>
    rcases mem_append.1 h with h | h
    · rcases mem_writeLoop h with ⟨o, rfl, ho⟩ | ⟨b, hb, o, n, rfl, hn, ho⟩
      · exact ⟨t, .inr rfl, ho⟩
      · exact ⟨t, b, rfl, hb, rfl, hn, ho⟩
    · exact mem_complete rfl h
  | flush c | earlyErr c | unsupported c => exact mem_complete rfl h
  | drainBarrier =>
    rw [mem_singleton.1 h]
    rfl

/-- The loop gets through exactly when no answer is short. -/
theorem readLoop_ok_iff (total : Nat) (hfile : offset + sumLen bs ≤ fileLen)
    (hio : ∀ p ∈ bs.zipIdx i, (io p.2).Arrives p.1.len) :
    (readLoop fileLen io i offset total bs).status = .ok ↔
      ∀ p ∈ bs.zipIdx i, 0 < p.1.len → io p.2 = .done p.1.len := by
  induction bs generalizing i offset total with
  | nil => exact iff_of_true rfl fun _ h => (List.not_mem_nil h).elim
  | cons b bs ih =>
    rw [List.zipIdx_cons, List.forall_mem_cons] at hio ⊢
    rw [sumLen_cons] at hfile
    obtain ⟨⟨n, hn, hle⟩, hio⟩ := hio
    dsimp only at hn hle ⊢
    simp only [readLoop, hn, HostIo.done.injEq]
    by_cases hfull : min n (min b.len (fileLen - offset)) = b.len
    · rw [if_neg (not_not.2 hfull), hfull, ih _ (by omega) hio]
      exact (and_iff_right fun hpos => by omega).symm
    · rw [if_pos hfull]
      exact iff_of_false nofun fun h => hfull (by have := h.1; omega)

/-- The accesses of a read that fills every buffer. -/
def fullReads : Nat → List IOTaskRamBuffer → List WorkerOp
  | _, [] => []
  | offset, b :: bs =>
    .seek offset :: .read offset b.addr b.len b.len :: fullReads (offset + b.len) bs

theorem readLoop_eq (hok : (readLoop fileLen io i offset total bs).status = .ok) :
    readLoop fileLen io i offset total bs = ⟨fullReads offset bs, .ok, total + sumLen bs⟩ := by
  induction bs generalizing i offset total with
  | nil => rfl
  | cons b bs ih =>
    unfold readLoop at hok ⊢
    split at hok
    · cases hok
    · cases hok
    · next n _ =>
        dsimp only at hok ⊢
        split at hok
        · cases hok
        · next hfull =>
            rw [if_neg hfull, Decidable.not_not.1 hfull] at *
            rw [ih hok, sumLen_cons, ← Nat.add_assoc]
            rfl

theorem mem_fullReads {k : Nat} {b : IOTaskRamBuffer} (hb : bs[k]? = some b) :
    .read (offset + sumLen (bs.take k)) b.addr b.len b.len ∈ fullReads offset bs := by
  induction bs generalizing offset k with
  | nil => cases hb
  | cons first bs ih =>
    cases k with
    | zero =>
      cases hb
      exact .tail _ (.head _)
    | succ k =>
      rw [take_succ_cons, sumLen_cons, ← Nat.add_assoc]
      exact .tail _ (.tail _ (ih hb))

theorem AccessOf.isAccess {transfer : Nat → IOTaskRamBuffer → Nat → WorkerOp} {op : WorkerOp}
    (htransfer : ∀ o b n, (transfer o b n).isAccess) (h : AccessOf transfer offset bs op) :
    op.isAccess := by
  rcases h with ⟨o, rfl, _⟩ | ⟨b, _, o, n, rfl, _⟩
  · rfl
  · exact htransfer o b n

/-- The operations of a task with a completion: the accesses to the file, all of
them for a read that ends well, and then those of the completion. -/
theorem runTask_eq {task : VirtIOBlockAsyncTask} {c : VirtIOBlockCompletion}
    (hc : task.completion? = some c) : ∃ ops st n,
      runTask fileLen io task = ops ++ c.complete st n ∧ (∀ op ∈ ops, op.isAccess) ∧
        ∀ t, task = .read t → st = .ok → ∀ k b, t.buffers[k]? = some b →
          .read (t.offset.toNat + sumLen (t.buffers.take k)) b.addr b.len b.len ∈ ops := by
  cases task with
  | read t =>
    cases hc
    refine ⟨_, _, _, rfl, fun op hop => (mem_readLoop hop).isAccess fun _ _ _ => rfl, ?_⟩
    rintro _ ⟨⟩ hok k b hb
    rw [readLoop_eq hok]
    exact mem_fullReads hb
  | write t =>
    cases hc
    refine ⟨_, _, _, rfl, fun op hop => (mem_writeLoop hop).isAccess fun _ _ _ => rfl, ?_⟩
    rintro _ ⟨⟩
  | flush c' | earlyErr c' | unsupported c' =>
    cases hc
    exact ⟨[], _, _, rfl, fun _ h => (not_mem_nil h).elim, fun _ h => by cases h⟩
  | drainBarrier => cases hc

end VirtIOBlockAsyncWorker

namespace WorkerOp

variable {op : WorkerOp} {s s' : BlockShared} {j : Nat}

/-- The bytes of RAM an operation may write. -/
def Writes : WorkerOp → Nat → Prop
  | .read _ addr _ n, j => addr ≤ j ∧ j < addr + n
  | .status addr _, j => j = addr
  | .used c _, j => c.InRing j
  | _, _ => False

theorem run_used {c : VirtQueueCompletion} {len : BitVec 32}
    (h : (WorkerOp.used c len).run s = .ok s') :
    ∃ mem, c.complete s.mem len = .ok mem ∧ s' = { s with mem } := by
  simp only [run, bind, Except.bind] at h
  split at h
  · cases h
  · next mem hc =>
      cases h
      exact ⟨mem, hc, rfl⟩

theorem run_frame (h : op.run s = .ok s') (hj : ¬ op.Writes j) : s'.mem j = s.mem j := by
  cases op with
  | read offset addr len n =>
    cases h
    exact if_neg hj
  | status addr st =>
    cases h
    refine storeLE_outside fun hin => hj ?_
    simp only [VirtioBlkStatus.bytes] at hin
    show j = addr
    omega
  | used c len =>
    obtain ⟨mem', hc, rfl⟩ := run_used h
    exact VirtQueueCompletion.complete_frame hc hj
  | seek o | write offset addr n | isr | ack => cases h; rfl

/-- Only a write to the file changes the file. -/
theorem run_file (h : op.run s = .ok s') (hop : ∀ o addr n, op ≠ .write o addr n) :
    s'.file = s.file := by
  cases op with
  | write o addr n => exact absurd rfl (hop o addr n)
  | used c len =>
    obtain ⟨_, _, rfl⟩ := run_used h
    rfl
  | seek | read | status | isr | ack => cases h; rfl

end WorkerOp

namespace VirtIOBlockAsyncWorker

variable {op : WorkerOp} {task : VirtIOBlockAsyncTask} {j : Nat}

/-- Before the used ring, a task writes to its targets only. -/
theorem OpOf.target (h : OpOf task op) (hused : op.used? = none) (hj : op.Writes j) :
    ∃ b ∈ task.targets, b.Has j := by
  cases op with
  | read o addr len n =>
    obtain ⟨t, b, rfl, hb, rfl, _, hn, _⟩ := h
    exact ⟨b, mem_append_left _ hb, hj.1, Nat.lt_of_lt_of_le hj.2 (Nat.add_le_add_left hn _)⟩
  | status addr st =>
    obtain ⟨c, hc, rfl⟩ := h
    cases hj
    refine ⟨c.statusByte, mem_append_right _ ?_, Nat.le_refl _, Nat.lt_succ_self _⟩
    rw [hc]
    exact mem_singleton.2 rfl
  | used c len => cases hused
  | seek | write | isr | ack => exact hj.elim

end VirtIOBlockAsyncWorker

/-! ## Directions -/

namespace VirtIOBlkDevice

variable {dev : VirtIOBlkDevice} {mem : Nat → BitVec 8} {permit : Bool} {fuel : Nat} {m : Managed}

end VirtIOBlkDevice

end HereEmu
