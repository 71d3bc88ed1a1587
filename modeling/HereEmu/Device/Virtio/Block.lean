import HereEmu.Device.Virtio.Queue

/-!
# The virtio block device

The device thread turns a descriptor chain into a task and sends it through a
channel of bounded capacity. The worker owns the backing file, takes the tasks
one after another and publishes their results.

What the worker does for a task is a straight list of `WorkerOp`s, in program
order, once it is known how the host answers each access to the file: nothing
the guest does in the meantime changes the list. Each operation is atomic, and
anything may happen between two of them. The interrupt status is shared between
device and worker, and so it belongs to `BlockShared` together with guest RAM
and the file.

The configuration space is the packed structure of the source as its bytes.
-/

namespace HereEmu

open Lib

def SECTOR_SIZE : Nat := 512

/-- The largest queue a driver may ask for. -/
def VIRTQUEUE_MAX_SIZE : Nat := 1024

def VIRTIO_BLOCK_TASK_CAPACITY : Nat := VIRTQUEUE_MAX_SIZE

abbrev VirtIOFeatureSet := BitVec 128

/-- The feature every driver of this device has to accept. -/
def VERSION_1 : VirtIOFeatureSet := 1#128 <<< 32

/-- `u64::checked_mul`. -/
def mulChecked (a b : WordType) : Option WordType :=
  if a.toNat * b.toNat < 2 ^ 64 then some (a * b) else none

/-! ## The configuration space -/

namespace VirtioBlkConfig

/-- `size_of::<VirtioBlkConfig>()`. -/
def bytes : Nat := 96

/-- The capacity in sectors at offset 0, the block size at offset 0x14. -/
def new (capacity : WordType) : Nat → BitVec 8 :=
  storeLE (storeLE (fun _ => 0) 0 8 capacity) 0x14 4 (BitVec.ofNat 32 SECTOR_SIZE)

def capacity (config : Nat → BitVec 8) : WordType := loadLE config 0 8

end VirtioBlkConfig

/-! ## Requests -/

inductive VirtioBlkReqType where
  | dataIn | dataOut | flush | getId | getLifetime | discard | writeZeroes | secureErase
  | unsupported
  deriving DecidableEq, Repr

def VirtioBlkReqType.tryFrom (v : BitVec 32) : Option VirtioBlkReqType :=
  match v.toNat with
  | 0 => some .dataIn
  | 1 => some .dataOut
  | 4 => some .flush
  | 8 => some .getId
  | 10 => some .getLifetime
  | 11 => some .discard
  | 13 => some .writeZeroes
  | 14 => some .secureErase
  | 0xFFFFFFFF => some .unsupported
  | _ => none

/-- `size_of::<VirtioBlkReq>()`. -/
def VirtioBlkReq.bytes : Nat := 16

/-- The statuses the device reports. -/
inductive VirtIOBlkReqStatus where
  | ok | ioErr | unsupported
  deriving DecidableEq, Repr

def VirtIOBlkReqStatus.toByte : VirtIOBlkReqStatus → BitVec 8
  | ok => 0
  | ioErr => 1
  | unsupported => 2

/-- `size_of::<VirtioBlkStatus>()`. -/
def VirtioBlkStatus.bytes : Nat := 1

structure IOTaskRamBuffer where
  addr : Nat
  len : Nat
  deriving DecidableEq, Repr

structure VirtIOBlockCompletion where
  statusAddr : Nat
  queueCompletion : VirtQueueCompletion
  deriving DecidableEq, Repr

structure VirtIOBlockIoTask where
  offset : WordType
  buffers : List IOTaskRamBuffer
  completion : VirtIOBlockCompletion
  deriving DecidableEq, Repr

inductive VirtIOBlockAsyncTask where
  | read (task : VirtIOBlockIoTask)
  | write (task : VirtIOBlockIoTask)
  | flush (completion : VirtIOBlockCompletion)
  | earlyErr (completion : VirtIOBlockCompletion)
  | unsupported (completion : VirtIOBlockCompletion)
  | drainBarrier
  deriving DecidableEq, Repr

/-! ## The device -/

structure VirtIOBlkDevice where
  status : BitVec 8
  hostFeature : VirtIOFeatureSet
  guestFeature : VirtIOFeatureSet
  generation : BitVec 32
  queue : VirtQueue
  configRegion : Nat → BitVec 8

/-- What the closure of `manage_one_request` has gathered from the chain. -/
structure BlkRequest where
  reqType : VirtioBlkReqType
  sector : WordType
  buffers : List IOTaskRamBuffer
  statusAddr : Option Nat
  deriving DecidableEq, Repr

namespace BlkRequest

def new : BlkRequest := ⟨.unsupported, 0, [], none⟩

def manageRequestHeader (mem : Nat → BitVec 8) (desc : VirtQueueDesc) :
    Rust (VirtioBlkReqType × WordType) :=
  if desc.len.toNat < VirtioBlkReq.bytes then .ok (.unsupported, 0)
  else do
    let req ← desc.getRequestPackage
    return match VirtioBlkReqType.tryFrom (loadLE mem req 4) with
      | some reqType => (reqType, loadLE mem (req + 8) 8)
      | none => (.unsupported, 0)

/-- The closure: the first descriptor is the header, one with a successor is
data, and the last is the status byte. The direction flag is not looked at. -/
def add (mem : Nat → BitVec 8) (r : BlkRequest) (desc : VirtQueueDesc) (idx : Nat) :
    Rust BlkRequest := do
  if idx = 0 then
    let header ← manageRequestHeader mem desc
    return { r with reqType := header.1, sector := header.2 }
  else if desc.hasNext then
    let addr ← desc.getRequestPackage
    return { r with buffers := r.buffers ++ [⟨addr, desc.len.toNat⟩] }
  else if desc.len.toNat < VirtioBlkStatus.bytes then return r
  else
    let addr ← desc.getRequestPackage
    return { r with statusAddr := some addr }

end BlkRequest

namespace VirtIOBlkDevice

variable (dev : VirtIOBlkDevice)

def new (hostFeature : VirtIOFeatureSet) (generation : BitVec 32) (capacity : WordType) :
    VirtIOBlkDevice :=
  ⟨0, hostFeature, 0, generation, .new 0, VirtioBlkConfig.new capacity⟩

/-- The capacity in sectors, as the configuration space has it. -/
def capacity (dev : VirtIOBlkDevice) : WordType := VirtioBlkConfig.capacity dev.configRegion

def requestOffsetInBounds (sector : WordType)
    (buffers : List IOTaskRamBuffer) : Option WordType := do
  let offset ← mulChecked sector (BitVec.ofNat 64 SECTOR_SIZE)
  let dataLen ← buffers.foldlM (fun total b => addChecked total (BitVec.ofNat 64 b.len)) 0
  let capacity ← mulChecked dev.capacity (BitVec.ofNat 64 SECTOR_SIZE)
  guard (dataLen.toNat ≤ 2 ^ 32 - 1 - VirtioBlkStatus.bytes)
  let e ← addChecked offset dataLen
  guard (e ≤ capacity)
  return offset

/-- The task a request with a status byte becomes. -/
def requestTask (r : BlkRequest) (completion : VirtIOBlockCompletion) : VirtIOBlockAsyncTask :=
  let dataOffset := dev.requestOffsetInBounds r.sector r.buffers
  match r.reqType, dataOffset with
  | .dataIn, some offset => .read ⟨offset, r.buffers, completion⟩
  | .dataOut, some offset => .write ⟨offset, r.buffers, completion⟩
  | .dataIn, none => .earlyErr completion
  | .dataOut, none => .earlyErr completion
  | .flush, _ => .flush completion
  | _, _ => .unsupported completion

/-- What one call of `manage_one_request` leaves: its answer, the device, the
memory and the task that was sent. -/
structure Managed where
  more : Bool
  device : VirtIOBlkDevice
  mem : Nat → BitVec 8
  task : Option VirtIOBlockAsyncTask

/-- The end of `manage_one_request`, after the chain has been taken. -/
def finishRequest (mem : Nat → BitVec 8) (used : VirtQueueCompletion)
    (r : BlkRequest) : Rust Managed :=
  match r.statusAddr with
  | none => do return ⟨true, dev, ← used.complete mem 0, none⟩
  | some statusAddr => .ok ⟨true, dev, mem, some (dev.requestTask r ⟨statusAddr, used⟩)⟩

/-- `permit` says whether the channel had room for one more task. -/
def manageOneRequest (mem : Nat → BitVec 8) (permit : Bool)
    (fuel : Nat) : Fuelled Managed :=
  if !permit then some (.ok ⟨false, dev, mem, none⟩)
  else
    match dev.queue.takeOneRequest mem (BlkRequest.add mem) .new fuel with
    | none => none
    | some (.error p) => some (.error p)
    | some (.ok (none, queue, _)) => some (.ok ⟨false, { dev with queue }, mem, none⟩)
    | some (.ok (some used, queue, r)) => some ({ dev with queue }.finishRequest mem used r)

/-- What `reset` does once the worker has been drained. -/
def reset (dev : VirtIOBlkDevice) : VirtIOBlkDevice :=
  { dev with status := 0, guestFeature := 0, queue := dev.queue.reset }

def featuresOk : BitVec 8 := 8#8

def setFeature (feature : VirtIOFeatureSet) : VirtIOBlkDevice :=
  if feature &&& VERSION_1 = 0 ∨ dev.hostFeature &&& feature ≠ feature then
    { dev with status := dev.status &&& ~~~featuresOk }
  else { dev with guestFeature := feature }

def getNumOfQueue : Nat := 1

def readConfig (offset len : Nat) : WordType :=
  if VirtioBlkConfig.bytes < offset + len then 0 else loadLE dev.configRegion offset len

def writeConfig (offset len : Nat) (data : WordType) : VirtIOBlkDevice :=
  if VirtioBlkConfig.bytes < offset + len then dev
  else { dev with configRegion := storeLE dev.configRegion offset len data }

end VirtIOBlkDevice

/-! ## The worker -/

structure BackingFile where
  bytes : Nat → BitVec 8
  len : Nat

/-- How the host answers one seek with the transfer after it. A read may be
short, and a write that fails may have written a part. -/
inductive HostIo where
  | seekErr
  | ioErr (n : Nat)
  | done (n : Nat)
  deriving DecidableEq, Repr

/-- One atomic action of the worker. -/
inductive WorkerOp where
  | seek (offset : Nat)
  /-- `file.read` into a buffer of `len` bytes, of which `n` arrive. -/
  | read (offset addr len n : Nat)
  /-- The bytes of RAM that `write_all` got into the file. -/
  | write (offset addr n : Nat)
  | status (addr : Nat) (status : VirtIOBlkReqStatus)
  | used (completion : VirtQueueCompletion) (len : BitVec 32)
  | isr
  | ack
  deriving DecidableEq, Repr

/-- What the device thread, the worker and the guest share. -/
structure BlockShared where
  mem : Nat → BitVec 8
  isr : BitVec 8
  file : BackingFile

/-- The file after `n` bytes of RAM have been written at `offset`. -/
def BackingFile.writeAt (file : BackingFile) (offset n : Nat) (mem : Nat → BitVec 8) (addr : Nat) :
    BackingFile where
  bytes := fun j => if offset ≤ j ∧ j < offset + n then mem (addr + (j - offset)) else file.bytes j
  len := if n = 0 then file.len else max file.len (offset + n)

/-- Memory after `n` bytes of the file have arrived at `addr`. -/
def BackingFile.readAt (file : BackingFile) (offset n : Nat) (mem : Nat → BitVec 8) (addr : Nat) :
    Nat → BitVec 8 :=
  fun j => if addr ≤ j ∧ j < addr + n then file.bytes (offset + (j - addr)) else mem j

def WorkerOp.run (s : BlockShared) : WorkerOp → Rust BlockShared
  | .seek _ => .ok s
  | .read offset addr _ n => .ok { s with mem := s.file.readAt offset n s.mem addr }
  | .write offset addr n => .ok { s with file := s.file.writeAt offset n s.mem addr }
  | .status addr st => .ok { s with mem := storeLE s.mem addr VirtioBlkStatus.bytes st.toByte }
  | .used c len => do return { s with mem := ← c.complete s.mem len }
  | .isr => .ok { s with isr := s.isr ||| 1 }
  | .ack => .ok s

/-- The status byte, then the used ring, then the interrupt. -/
def VirtIOBlockCompletion.complete (c : VirtIOBlockCompletion) (status : VirtIOBlkReqStatus)
    (usedLen : Nat) : List WorkerOp :=
  [.status c.statusAddr status, .used c.queueCompletion (BitVec.ofNat 32 usedLen), .isr]

namespace VirtIOBlockAsyncWorker

/-- The accesses of a loop over buffers, how it ended and what it transferred. -/
structure Transfer where
  ops : List WorkerOp
  status : VirtIOBlkReqStatus
  total : Nat

/-- The loop of `read`, from buffer number `i` on. -/
def readLoop (fileLen : Nat) (io : Nat → HostIo) : Nat → Nat → Nat → List IOTaskRamBuffer → Transfer
  | _, _, total, [] => ⟨[], .ok, total⟩
  | i, offset, total, b :: buffers =>
    match io i with
    | .seekErr => ⟨[.seek offset], .ioErr, total⟩
    | .ioErr _ => ⟨[.seek offset, .read offset b.addr b.len 0], .ioErr, total⟩
    | .done n =>
      let len := min n (min b.len (fileLen - offset))
      let ops := [.seek offset, .read offset b.addr b.len len]
      if len ≠ b.len then ⟨ops, .ioErr, total + len⟩
      else
        let rest := readLoop fileLen io (i + 1) (offset + len) (total + len) buffers
        { rest with ops := ops ++ rest.ops }

/-- The loop of `write`, from buffer number `i` on. -/
def writeLoop (io : Nat → HostIo) : Nat → Nat → List IOTaskRamBuffer → Transfer
  | _, _, [] => ⟨[], .ok, 0⟩
  | i, offset, b :: buffers =>
    match io i with
    | .seekErr => ⟨[.seek offset], .ioErr, 0⟩
    | .ioErr n => ⟨[.seek offset, .write offset b.addr (min n b.len)], .ioErr, 0⟩
    | .done _ =>
      let rest := writeLoop io (i + 1) (offset + b.len) buffers
      { rest with ops := [.seek offset, .write offset b.addr b.len] ++ rest.ops }

def read (fileLen : Nat) (io : Nat → HostIo) (task : VirtIOBlockIoTask) : List WorkerOp :=
  let t := readLoop fileLen io 0 task.offset.toNat 0 task.buffers
  t.ops ++ task.completion.complete t.status (t.total + VirtioBlkStatus.bytes)

def write (io : Nat → HostIo) (task : VirtIOBlockIoTask) : List WorkerOp :=
  let t := writeLoop io 0 task.offset.toNat task.buffers
  t.ops ++ task.completion.complete t.status VirtioBlkStatus.bytes

/-- `sync_data` succeeds or it does not. -/
def flushStatus : HostIo → VirtIOBlkReqStatus
  | .done _ => .ok
  | _ => .ioErr

def runTask (fileLen : Nat) (io : Nat → HostIo) : VirtIOBlockAsyncTask → List WorkerOp
  | .read task => read fileLen io task
  | .write task => write io task
  | .flush c => c.complete (flushStatus (io 0)) VirtioBlkStatus.bytes
  | .earlyErr c => c.complete .ioErr VirtioBlkStatus.bytes
  | .unsupported c => c.complete .unsupported VirtioBlkStatus.bytes
  | .drainBarrier => [.ack]

end VirtIOBlockAsyncWorker

end HereEmu
