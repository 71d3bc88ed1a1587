import HereEmu.Device.Virtio.Transport
import HereEmu.Lib.Run

/-!
# The block device at work

Device thread, worker and guest side by side. The guest's accesses to the
registers run on the device thread, so they wait while it serves a queue or
waits for a reset; everything else interleaves freely. One event is one turn of
one party:

* the guest makes a register access, or changes its RAM in any way;
* the device thread makes one step of `notify`: it reserves room and consumes
  an entry, looks at one descriptor, or submits what it has gathered; or one
  step of `reset`;
* the worker takes the next task from the channel, or makes one operation of
  the task it has.

A turn of a party that has nothing to do, or has to wait, changes nothing. The
worker is never cancelled.
-/

namespace HereEmu

open Lib

/-- Where the device thread is. -/
inductive DeviceThread where
  | idle
  /-- At the head of the loop in `notify`. -/
  | notify
  /-- In the loop of `take_one_request`. -/
  | walking (used : VirtQueueCompletion) (handle : VirtQueueDescHandle) (idx : Nat)
    (request : BlkRequest)
  /-- The chain is at its end. -/
  | walked (used : VirtQueueCompletion) (request : BlkRequest)
  /-- In `reset`: sending the barrier, waiting for the worker, done waiting. -/
  | sendBarrier | awaitAck | drained
  deriving DecidableEq, Repr

/-- The task taken last, and its operations that are done and still to do. -/
structure WorkerState where
  task : Option VirtIOBlockAsyncTask
  done : List WorkerOp
  todo : List WorkerOp
  deriving DecidableEq, Repr

structure BlockSystem where
  mmio : VirtIOMMIO
  thread : DeviceThread
  channel : List VirtIOBlockAsyncTask
  worker : WorkerState
  shared : BlockShared

inductive BlockEvent where
  | read (w : Width) (addr : WordType)
  | write (w : Width) (addr data : WordType)
  | guest (mem : Nat → BitVec 8)
  | device
  /-- The answers of the host are used when a task is taken. -/
  | worker (io : Nat → HostIo)

/-- What a turn was, for the record. -/
inductive BlockAction where
  | wait
  | answer (r : Except DeviceError WordType)
  | guest
  | device
  /-- An entry of the available ring has been consumed. -/
  | consume (used : VirtQueueCompletion)
  /-- A request without a status byte has been completed by the device thread. -/
  | insert (used : VirtQueueCompletion)
  | submit (task : VirtIOBlockAsyncTask)
  | receive (task : VirtIOBlockAsyncTask)
  | work (op : WorkerOp)
  deriving DecidableEq, Repr

namespace BlockSystem

variable (s : BlockSystem)

/-- A device built on a file of `sectors` sectors. -/
def new (hostFeature : VirtIOFeatureSet) (generation : BitVec 32) (sectors : WordType)
    (file : BackingFile) (mem : Nat → BitVec 8) : BlockSystem where
  mmio := .new (.new hostFeature generation sectors)
  thread := .idle
  channel := []
  worker := ⟨none, [], []⟩
  shared := ⟨mem, 0, file⟩

/-- Whether `try_reserve` and `blocking_send` find room. -/
def hasRoom : Bool := s.channel.length < VIRTIO_BLOCK_TASK_CAPACITY

def guestRead (w : Width) (addr : WordType) : Rust (BlockAction × BlockSystem) :=
  match s.thread with
  | .idle => do return (.answer (← s.mmio.read s.shared.isr w addr), s)
  | _ => .ok (.wait, s)

/-- The thread a register write leaves. -/
def threadOf : VirtIOMMIO.Call → DeviceThread
  | .none => .idle
  | .notify => .notify
  | .reset => .sendBarrier

def guestWrite (w : Width) (addr data : WordType) : Rust (BlockAction × BlockSystem) :=
  match s.thread with
  | .idle => do
    match ← s.mmio.write s.shared.isr w addr data with
    | .error e => return (.answer (.error e), s)
    | .ok out =>
      return (.answer (.ok 0), { s with
        mmio := out.mmio, thread := threadOf out.call, shared.isr := out.isr })
  | _ => .ok (.wait, s)

/-- The start of `manage_one_request`. -/
def takeEntry (s : BlockSystem) : Rust (BlockAction × BlockSystem) :=
  if !s.hasRoom then .ok (.device, { s with thread := .idle })
  else do
    let (taken, queue) ← s.mmio.device.queue.takeEntry s.shared.mem
    let s := { s with mmio.device.queue := queue }
    match taken with
    | none => return (.device, { s with thread := .idle })
    | some taken =>
      return (.consume taken.completion,
        { s with thread := .walking taken.completion taken.handle 0 .new })

/-- One turn of the loop of `take_one_request`. -/
def walkOn (used : VirtQueueCompletion) (handle : VirtQueueDescHandle)
    (idx : Nat) (request : BlkRequest) : Rust (BlockAction × BlockSystem) := do
  let (desc, handle) ← handle.tryGet s.shared.mem
  match desc with
  | none => return (.device, { s with thread := .walked used request })
  | some desc =>
    let request ← request.add s.shared.mem desc idx
    return (.device, { s with thread := .walking used handle (idx + 1) request })

/-- The end of `manage_one_request`, back to the loop of `notify`. -/
def submit (s : BlockSystem) (used : VirtQueueCompletion) (request : BlkRequest) :
    Rust (BlockAction × BlockSystem) := do
  let out ← s.mmio.device.finishRequest s.shared.mem used request
  match out.task with
  | none => return (.insert used, { s with thread := .notify, shared.mem := out.mem })
  | some task => return (.submit task, { s with thread := .notify, channel := s.channel ++ [task] })

def deviceStep : Rust (BlockAction × BlockSystem) :=
  match s.thread with
  | .idle => .ok (.wait, s)
  | .notify => s.takeEntry
  | .walking used handle idx request => s.walkOn used handle idx request
  | .walked used request => s.submit used request
  | .sendBarrier =>
    if s.hasRoom then
      .ok (.submit .drainBarrier, { s with
        thread := .awaitAck, channel := s.channel ++ [.drainBarrier] })
    else .ok (.wait, s)
  | .awaitAck => .ok (.wait, s)
  | .drained =>
    .ok (.device, { s with
      mmio.device := s.mmio.device.reset, thread := .idle, shared.isr := 0 })

/-- The acknowledgement is a rendezvous with the device thread that waits for it. -/
def wake : DeviceThread → WorkerOp → DeviceThread
  | .awaitAck, .ack => .drained
  | thread, _ => thread

theorem wake_eq_self {thread : DeviceThread} {op : WorkerOp}
    (h : ¬ (thread = .awaitAck ∧ op = .ack)) : wake thread op = thread := by
  unfold wake
  split
  · exact absurd ⟨rfl, rfl⟩ h
  · rfl

def workerStep (io : Nat → HostIo) : Rust (BlockAction × BlockSystem) :=
  match s.worker.todo with
  | op :: todo => do
    let shared ← op.run s.shared
    return (.work op, { s with
      thread := wake s.thread op, worker := ⟨s.worker.task, s.worker.done ++ [op], todo⟩, shared })
  | [] =>
    match s.channel with
    | [] => .ok (.wait, s)
    | task :: channel =>
      .ok (.receive task, { s with
        channel,
        worker := ⟨some task, [], VirtIOBlockAsyncWorker.runTask s.shared.file.len io task⟩ })

def step : BlockEvent → Rust (BlockAction × BlockSystem)
  | .read w addr => s.guestRead w addr
  | .write w addr data => s.guestWrite w addr data
  | .guest mem => .ok (.guest, { s with shared.mem := mem })
  | .device => s.deviceStep
  | .worker io => s.workerStep io

end BlockSystem

end HereEmu
