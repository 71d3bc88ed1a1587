import HereEmu.Proofs.BlockFile
import HereEmu.Proofs.BlockFlow

/-!
# Reads that come back short

`read` asks the host for a buffer once and takes what arrives. A host may
answer with fewer bytes than it was asked for, and the loop then gives up with
an I/O error where it should have asked again. So a request inside the image is
served when, and only when, the host fills every buffer at the first attempt.
The check in front of the worker refuses some more requests: those the
configuration space has no room for, and those whose used length would not fit
into 32 bits.
-/

namespace HereEmu

open Lib VirtIOBlkDevice

/-- The byte of RAM at `a` belongs to the buffer. -/
def IOTaskRamBuffer.Holds (b : IOTaskRamBuffer) (a : Nat) : Prop := b.addr ≤ a ∧ a < b.addr + b.len

namespace VirtIOBlockAsyncWorker

variable {fileLen : Nat} {io : Nat → HostIo}

/-- The buffers hold the stretch of the file from `offset` on, one after
another. Of two buffers that share a byte it is the later one that counts. -/
def Filled (file : BackingFile) (mem : Nat → BitVec 8) : Nat → List IOTaskRamBuffer → Prop
  | _, [] => True
  | offset, b :: bs =>
    (∀ j < b.len, (∀ b' ∈ bs, ¬ b'.Holds (b.addr + j)) →
      mem (b.addr + j) = file.bytes (offset + j)) ∧ Filled file mem (offset + b.len) bs

/-- The worker moves the stretch from `offset` on into the buffers, reports
success and, as the used length, the data and the status byte. -/
def Served (fileLen : Nat) (io : Nat → HostIo) (task : VirtIOBlockAsyncTask) (offset : Nat)
    (bs : List IOTaskRamBuffer) (c : VirtIOBlockCompletion) : Prop :=
  ∃ ops, runTask fileLen io task = ops ++ c.complete .ok (sumLen bs + VirtioBlkStatus.bytes) ∧
    ∀ s : BlockShared, ∃ s', ops.foldlM WorkerOp.run s = .ok s' ∧ Filled s.file s'.mem offset bs

/-- Filling the buffers in order, the file as it was and RAM elsewhere too. -/
theorem run_fullReads (offset : Nat) (bs : List IOTaskRamBuffer) (s : BlockShared) :
    ∃ s', (fullReads offset bs).foldlM WorkerOp.run s = .ok s' ∧
    Filled s.file s'.mem offset bs ∧ ∀ a, (∀ b ∈ bs, ¬ b.Holds a) → s'.mem a = s.mem a := by
  induction bs generalizing offset s with
  | nil => exact ⟨s, rfl, trivial, fun _ _ => rfl⟩
  | cons b bs ih =>
    obtain ⟨s', hrun, hfilled, hframe⟩ :=
      ih (offset + b.len) { s with mem := s.file.readAt offset b.len s.mem b.addr }
    refine ⟨s', hrun, ⟨fun j hj hout => ?_, hfilled⟩, fun a ha => ?_⟩
    · rw [hframe _ hout]
      show (if _ then _ else _) = _
      rw [if_pos ⟨Nat.le_add_right _ _, Nat.add_lt_add_left hj _⟩, Nat.add_sub_cancel_left]
    · rw [List.forall_mem_cons] at ha
      rw [hframe a ha.2]
      exact if_neg ha.1

theorem complete_status_inj (ops : List WorkerOp) {ops' : List WorkerOp} {c : VirtIOBlockCompletion}
    {st st' : VirtIOBlkReqStatus} {n n' : Nat}
    (h : ops ++ c.complete st n = ops' ++ c.complete st' n') : st = st' := by
  have htail := (List.append_inj' h rfl).2
  injection htail with hstatus
  injection hstatus

/-- The worker serves a read inside the file exactly when no answer is short. -/
theorem served_read_iff {t : VirtIOBlockIoTask}
    (hfile : t.offset.toNat + sumLen t.buffers ≤ fileLen)
    (hio : ∀ p ∈ t.buffers.zipIdx, (io p.2).Arrives p.1.len) :
    Served fileLen io (.read t) t.offset.toNat t.buffers t.completion ↔
      ∀ p ∈ t.buffers.zipIdx, 0 < p.1.len → io p.2 = .done p.1.len := by
  rw [← readLoop_ok_iff 0 hfile hio]
  constructor
  · rintro ⟨ops, hrun, _⟩
    exact complete_status_inj _ hrun
  · intro hok
    refine ⟨fullReads t.offset.toNat t.buffers, ?_, fun s => ?_⟩
    · show read fileLen io t = _
      rw [read, readLoop_eq hok, Nat.zero_add]
    · obtain ⟨s', hrun, hfilled, _⟩ := run_fullReads t.offset.toNat t.buffers s
      exact ⟨s', hrun, hfilled⟩

end VirtIOBlockAsyncWorker

open VirtIOBlockAsyncWorker

/-- A request for a stretch of the backing file is served if and only if the
configuration space grants the stretch, the used length can be reported, and
the host fills every buffer at once. -/
theorem read_served_iff (dev : VirtIOBlkDevice) (r : BlkRequest) (c : VirtIOBlockCompletion)
    (fileLen : Nat) (io : Nat → HostIo) (htype : r.reqType = .dataIn)
    (hlen : ∀ b ∈ r.buffers, b.len < 2 ^ 32)
    (hfile : r.sector.toNat * SECTOR_SIZE + sumLen r.buffers ≤ fileLen)
    (hio : ∀ p ∈ r.buffers.zipIdx, (io p.2).Arrives p.1.len) :
    Served fileLen io (dev.requestTask r c) (r.sector.toNat * SECTOR_SIZE) r.buffers c ↔
      (r.sector.toNat * SECTOR_SIZE + sumLen r.buffers ≤ SECTOR_SIZE * dev.capacity.toNat ∧
        SECTOR_SIZE * dev.capacity.toNat < 2 ^ 64 ∧
        sumLen r.buffers ≤ 2 ^ 32 - 1 - VirtioBlkStatus.bytes) ∧
      ∀ p ∈ r.buffers.zipIdx, 0 < p.1.len → io p.2 = .done p.1.len := by
  unfold requestTask
  rw [htype]
  cases hoff : dev.requestOffsetInBounds r.sector r.buffers with
  | some offset =>
    obtain ⟨ho, hgranted⟩ := (requestOffsetInBounds_eq_some hlen).1 hoff
    rw [← ho] at hfile ⊢
    exact (served_read_iff (t := ⟨offset, r.buffers, c⟩) hfile hio).trans
      (and_iff_right hgranted).symm
  | none =>
    refine iff_of_false ?_ fun ⟨⟨hin, hcap, hused⟩, _⟩ => ?_
    · rintro ⟨ops, hrun, _⟩
      cases complete_status_inj [] hrun
    · have ho : (BitVec.ofNat 64 (r.sector.toNat * SECTOR_SIZE)).toNat =
          r.sector.toNat * SECTOR_SIZE := by
        rw [BitVec.toNat_ofNat, Nat.mod_eq_of_lt (by omega)]
      have := (requestOffsetInBounds_eq_some hlen).2
        ⟨ho, ho.symm ▸ hin, hcap, hused⟩
      rw [hoff] at this
      cases this

/-- One buffer of one sector, at the start of a device with two. -/
def readRequest : BlkRequest := ⟨.dataIn, 0, [⟨0, 512⟩], some 4096⟩

def readCompletion : VirtIOBlockCompletion := ⟨4096, ⟨8192, 4, 0⟩⟩

def readTask : VirtIOBlockAsyncTask :=
  (new 0 0 2).requestTask readRequest readCompletion

/-- A host that fills the buffer. -/
theorem read_served_full :
    Served 1024 (fun _ => .done 512) readTask 0 readRequest.buffers readCompletion :=
  (read_served_iff (.new 0 0 2) readRequest readCompletion 1024 (fun _ => .done 512) rfl (by decide)
    (by decide) fun p hp => ⟨512, rfl, by cases List.mem_singleton.1 hp; decide⟩).2
    ⟨by decide, fun p hp _ => by cases List.mem_singleton.1 hp; rfl⟩

/-- A host that leaves one byte for a second attempt. -/
theorem read_short_fails :
    ¬ Served 1024 (fun _ => .done 511) readTask 0 readRequest.buffers readCompletion := by
  rintro ⟨ops, hrun, _⟩
  cases complete_status_inj _ hrun

end HereEmu
