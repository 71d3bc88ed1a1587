import HereEmu.Proofs.BlockTurn

/-!
# The worker and its file

`request_offset_in_bounds` is sound: what it lets through ends at the capacity
of the configuration space, in exact arithmetic. The worker keeps to the
stretch it was given (`mem_runTask`), so every access lies in the image as long
as the capacity does not say more than the image has. That is the driver's
doing: the configuration space can be written, capacity and all.
-/

namespace HereEmu

open Lib VirtIOBlockAsyncWorker BitVec List Option

theorem mulChecked_eq_some {a b c : WordType} :
    mulChecked a b = some c ↔ c.toNat = a.toNat * b.toNat := by
  refine ite_none_right_eq_some.trans ?_
  rw [Option.some.injEq, ← toNat_inj, toNat_mul]
  omega

theorem sectorSize_toNat : (BitVec.ofNat 64 SECTOR_SIZE).toNat = SECTOR_SIZE := by decide

theorem foldlM_addChecked {bs : List IOTaskRamBuffer} {total d : WordType}
    (hlen : ∀ b ∈ bs, b.len < 2 ^ 32) :
    bs.foldlM (fun total b => addChecked total (BitVec.ofNat 64 b.len)) total = some d ↔
      d.toNat = total.toNat + sumLen bs := by
  induction bs generalizing total with
  | nil =>
    show some total = some d ↔ _
    rw [Option.some.injEq, ← toNat_inj, eq_comm]
    rfl
  | cons b bs ih =>
    rw [forall_mem_cons] at hlen
    have hb : (BitVec.ofNat 64 b.len).toNat = b.len := by
      rw [toNat_ofNat, Nat.mod_eq_of_lt (by omega)]
    simp only [foldlM_cons, bind_eq_bind, bind_eq_some_iff, addChecked_eq_some,
      hb, ih hlen.2, sumLen_cons]
    constructor
    · rintro ⟨t, ht, hsum⟩
      omega
    · intro hsum
      refine ⟨BitVec.ofNat 64 (total.toNat + b.len), ?_, ?_⟩ <;>
        rw [toNat_ofNat, Nat.mod_eq_of_lt (by omega)]
      omega

/-- The check lets through what lies within the capacity, as long as the used
length has room for it. -/
theorem VirtIOBlkDevice.requestOffsetInBounds_eq_some {dev : VirtIOBlkDevice}
    {sector offset : WordType} {bs : List IOTaskRamBuffer} (hlen : ∀ b ∈ bs, b.len < 2 ^ 32) :
    dev.requestOffsetInBounds sector bs = some offset ↔
      offset.toNat = sector.toNat * SECTOR_SIZE ∧
      offset.toNat + sumLen bs ≤ SECTOR_SIZE * dev.capacity.toNat ∧
      SECTOR_SIZE * dev.capacity.toNat < 2 ^ 64 ∧
      sumLen bs ≤ 2 ^ 32 - 1 - VirtioBlkStatus.bytes := by
  simp only [requestOffsetInBounds, bind_eq_bind, bind_eq_some_iff,
    Option.guard_eq_some', Option.pure_def, Option.some.injEq, mulChecked_eq_some,
    addChecked_eq_some, foldlM_addChecked hlen, sectorSize_toNat, Nat.mul_comm SECTOR_SIZE]
  constructor
  · rintro ⟨o, ho, d, hd, cap, hcap, _, hle, e, he, _, hend, rfl⟩
    have hend : e.toNat ≤ cap.toNat := hend
    have := cap.isLt
    omega
  · rintro ⟨ho, hend, hcap, hle⟩
    have hval : ∀ n, n ≤ dev.capacity.toNat * SECTOR_SIZE → (BitVec.ofNat 64 n).toNat = n := by
      intro n hn
      rw [toNat_ofNat, Nat.mod_eq_of_lt (by omega)]
    have hd := hval (sumLen bs) (by omega)
    have he := hval (offset.toNat + sumLen bs) hend
    have hc := hval _ (Nat.le_refl _)
    refine ⟨offset, ho, _, hd.trans (Nat.zero_add _).symm, _, hc, (), hd.le.trans hle, _,
      he.trans (by rw [hd]), (), ?_, rfl⟩
    rw [le_def, he, hc]
    exact hend

/-- An access to the file that keeps to its first `n` bytes. -/
def WorkerOp.Within (n : Nat) : WorkerOp → Prop
  | .seek o => o ≤ n
  | .read o _ len _ => o + len ≤ n
  | .write o _ len => o + len ≤ n
  | _ => True

/-- A task made for a stretch of the first `n` bytes. -/
def VirtIOBlockAsyncTask.Within (n : Nat) (task : VirtIOBlockAsyncTask) : Prop :=
  ∀ t, task = .read t ∨ task = .write t → t.offset.toNat + sumLen t.buffers ≤ n

theorem VirtIOBlockAsyncTask.Within.ops {n fileLen : Nat} {io : Nat → HostIo}
    {task : VirtIOBlockAsyncTask} (h : task.Within n) :
    ∀ op ∈ runTask fileLen io task, op.Within n := by
  intro op hop
  have hof := mem_runTask hop
  cases op with
  | seek o =>
    obtain ⟨t, ht, ho⟩ := hof
    exact ho.trans (h t ht)
  | read o addr len k =>
    obtain ⟨t, b, ht, _, _, rfl, _, ho⟩ := hof
    exact ho.trans (h t (.inl ht))
  | write o addr k =>
    obtain ⟨t, b, ht, _, _, hk, ho⟩ := hof
    exact (Nat.add_le_add_left hk o).trans (ho.trans (h t (.inr ht)))
  | status | used | isr | ack => trivial

theorem VirtIOBlkDevice.requestTask_within {dev : VirtIOBlkDevice} {r : BlkRequest}
    {c : VirtIOBlockCompletion} {sectors : WordType} (hlen : ∀ b ∈ r.buffers, b.len < 2 ^ 32)
    (hcap : dev.capacity ≤ sectors) :
    (dev.requestTask r c).Within (SECTOR_SIZE * sectors.toNat) := by
  intro t ht
  have hmono : SECTOR_SIZE * dev.capacity.toNat ≤ SECTOR_SIZE * sectors.toNat :=
    Nat.mul_le_mul_left _ hcap
  rcases dev.requestTask_cases r c with
    ⟨offset, hb, ⟨_, h⟩ | ⟨_, h⟩⟩ | ⟨_, _, h⟩ | ⟨_, h⟩ | h <;> rw [h] at ht <;>
    rcases ht with ht | ht <;> cases ht <;> exact ((requestOffsetInBounds_eq_some hlen).1 hb).2.1.trans hmono

/-- A data request that reaches past the capacity is refused. -/
theorem VirtIOBlkDevice.requestTask_earlyErr {dev : VirtIOBlkDevice} {r : BlkRequest}
    {c : VirtIOBlockCompletion} {sectors : WordType} (hlen : ∀ b ∈ r.buffers, b.len < 2 ^ 32)
    (hcap : dev.capacity ≤ sectors) (htype : r.reqType = .dataIn ∨ r.reqType = .dataOut)
    (hout : SECTOR_SIZE * sectors.toNat < r.sector.toNat * SECTOR_SIZE + sumLen r.buffers) :
    dev.requestTask r c = .earlyErr c := by
  have hmono : SECTOR_SIZE * dev.capacity.toNat ≤ SECTOR_SIZE * sectors.toNat :=
    Nat.mul_le_mul_left _ hcap
  have hnone : dev.requestOffsetInBounds r.sector r.buffers = none := by
    cases hb : dev.requestOffsetInBounds r.sector r.buffers with
    | none => rfl
    | some offset =>
      obtain ⟨hoff, hle, _⟩ := (requestOffsetInBounds_eq_some hlen).1 hb
      omega
  unfold requestTask
  rcases htype with ht | ht <;> simp [ht, hnone]

theorem BackingFile.writeAt_len {file : BackingFile} {offset n addr : Nat} {mem : Nat → BitVec 8}
    (h : offset + n ≤ file.len) : (file.writeAt offset n mem addr).len = file.len := by
  unfold writeAt
  dsimp only
  split
  · rfl
  · omega

/-- An access within the file leaves its length alone. -/
theorem WorkerOp.run_file_len {op : WorkerOp} {s s' : BlockShared} (h : op.run s = .ok s')
    (hin : op.Within s.file.len) : s'.file.len = s.file.len := by
  cases op with
  | write o addr n =>
    cases h
    exact BackingFile.writeAt_len hin
  | _ => rw [run_file h fun _ _ _ => nofun]

theorem BlkRequest.add_len {mem : Nat → BitVec 8} {r r' : BlkRequest} {d : VirtQueueDesc} {i : Nat}
    (hr : ∀ b ∈ r.buffers, b.len < 2 ^ 32) (h : r.add mem d i = .ok r') :
    ∀ b ∈ r'.buffers, b.len < 2 ^ 32 := by
  unfold add at h
  split at h
  · obtain ⟨out, _, ⟨⟩⟩ := Lib.exists_of_bind_ok h
    exact hr
  · split at h
    · obtain ⟨addr, _, ⟨⟩⟩ := Lib.exists_of_bind_ok h
      intro b hb
      rcases mem_append.1 hb with hb | hb
      · exact hr b hb
      · rw [mem_singleton.1 hb]
        exact d.len.isLt
    · split at h
      · cases h
        exact hr
      · obtain ⟨addr, _, ⟨⟩⟩ := Lib.exists_of_bind_ok h
        exact hr

/-- The request the device thread is gathering. -/
def DeviceThread.request : DeviceThread → BlkRequest
  | .walking _ _ _ r => r
  | .walked _ r => r
  | _ => .new

namespace BlockSystem

variable {s s' : BlockSystem} {e : BlockEvent} {a : BlockAction} {n : Nat}

/-- The file has `n` bytes, and nothing that waits reaches beyond them. -/
structure FileInv (n : Nat) (s : BlockSystem) : Prop where
  file : s.shared.file.len = n
  request : ∀ b ∈ s.thread.request.buffers, b.len < 2 ^ 32
  channel : ∀ task ∈ s.channel, task.Within n
  todo : ∀ op ∈ s.worker.todo, op.Within n

theorem FileInv.new (hostFeature : VirtIOFeatureSet) (generation : BitVec 32) (sectors : WordType)
    (file : BackingFile) (mem : Nat → BitVec 8) (hlen : file.len = n) :
    FileInv n (new hostFeature generation sectors file mem) where
  file := hlen
  request := fun b hb => by cases hb
  channel := fun task ht => by cases ht
  todo := fun op hop => by cases hop

/-- A turn that leaves the worker and its file alone, and gathers nothing. -/
theorem FileInv.of_new (h : FileInv n s) (hfile : s'.shared.file = s.shared.file)
    (hreq : s'.thread.request = .new) (hchan : ∀ task ∈ s'.channel, task.Within n)
    (hworker : s'.worker = s.worker) : FileInv n s' where
  file := by rw [hfile]; exact h.file
  request := fun b hb => by rw [hreq] at hb; cases hb
  channel := hchan
  todo := by rw [hworker]; exact h.todo

theorem wake_request (thread : DeviceThread) (op : WorkerOp) :
    (wake thread op).request = thread.request := by
  unfold wake
  split <;> rfl

theorem mem_snoc {P : VirtIOBlockAsyncTask → Prop} {l : List VirtIOBlockAsyncTask}
    {task : VirtIOBlockAsyncTask} (hl : ∀ t ∈ l, P t) (ht : P task) : ∀ t ∈ l ++ [task], P t := by
  intro t hmem
  rcases mem_append.1 hmem with h | h
  · exact hl t h
  · rw [mem_singleton.1 h]
    exact ht

theorem FileInv.step {sectors : WordType} (hs : FileInv (SECTOR_SIZE * sectors.toNat) s)
    (hcap : s.mmio.device.capacity ≤ sectors) (h : s.step e = .ok (a, s')) :
    FileInv (SECTOR_SIZE * sectors.toNat) s' := by
  have hgather {r : BlkRequest} (hr : s.thread.request = r) : ∀ b ∈ r.buffers, b.len < 2 ^ 32 :=
    hr ▸ hs.request
  cases step_turn h with
  | wait | read | refused => exact hs
  | @written w addr data out hidle hout =>
    refine hs.of_new rfl ?_ hs.channel rfl
    cases out.call <;> rfl
  | guest mem => exact ⟨hs.file, hs.request, hs.channel, hs.todo⟩
  | full | empty | finishReset | consume | insert => exact hs.of_new rfl rfl hs.channel rfl
  | visit hthread htry hadd =>
    refine ⟨hs.file, ?_, hs.channel, hs.todo⟩
    exact BlkRequest.add_len (hgather (by rw [hthread]; rfl)) hadd
  | chainEnd hthread htry =>
    exact ⟨hs.file, hgather (by rw [hthread]; rfl), hs.channel, hs.todo⟩
  | submit hthread hstatus =>
    refine hs.of_new rfl rfl (mem_snoc hs.channel ?_) rfl
    exact VirtIOBlkDevice.requestTask_within (hgather (by rw [hthread]; rfl)) hcap
  | barrier hthread =>
    refine hs.of_new rfl rfl (mem_snoc hs.channel ?_) rfl
    rintro t (ht | ht) <;> cases ht
  | receive io htodo hchannel =>
    have hall := hs.channel
    rw [hchannel] at hall
    exact ⟨hs.file, hs.request, fun t ht => hall t (mem_cons_of_mem _ ht),
      (hall _ mem_cons_self).ops⟩
  | work io htodo hrun =>
    have hall := hs.todo
    rw [htodo] at hall
    refine ⟨?_, ?_, hs.channel, fun op hop => hall op (mem_cons_of_mem _ hop)⟩
    · have hin := hall _ mem_cons_self
      rw [← hs.file] at hin
      exact (WorkerOp.run_file_len hrun hin).trans hs.file
    · show ∀ b ∈ (wake s.thread _).request.buffers, _
      rw [wake_request]
      exact hs.request

/-- As long as the driver leaves the configuration space no capacity above the
size of the image, every access of the worker lies in the image, the file keeps
its size, and a read or write that reaches past the image becomes an error. -/
theorem accesses_within_image (hostFeature : VirtIOFeatureSet) (generation : BitVec 32)
    (sectors : WordType) (file : BackingFile) (mem : Nat → BitVec 8) (es : List BlockEvent)
    (hlen : file.len = SECTOR_SIZE * sectors.toNat)
    (hcap : Always step (fun s _ => s.mmio.device.capacity ≤ sectors)
      (new hostFeature generation sectors file mem) es) :
    Always step (fun s e =>
        s.shared.file.len = SECTOR_SIZE * sectors.toNat ∧
        (∀ io op todo, e = .worker io → s.worker.todo = op :: todo →
          op.Within (SECTOR_SIZE * sectors.toNat)) ∧
        ∀ used r a, e = .device → s.thread = .walked used r → r.statusAddr = some a →
          r.reqType = .dataIn ∨ r.reqType = .dataOut →
          SECTOR_SIZE * sectors.toNat < r.sector.toNat * SECTOR_SIZE + sumLen r.buffers →
          s.step e = .ok (.submit (.earlyErr ⟨a, used⟩), { s with
              thread := .notify, channel := s.channel ++ [.earlyErr ⟨a, used⟩] }) ∧
            ∀ io, runTask s.shared.file.len io (.earlyErr ⟨a, used⟩) =
              VirtIOBlockCompletion.complete ⟨a, used⟩ .ioErr 1)
      (new hostFeature generation sectors file mem) es := by
  have hkeep : ∀ s e a s', FileInv (SECTOR_SIZE * sectors.toNat) s →
      s.mmio.device.capacity ≤ sectors → s.step e = .ok (a, s') →
        FileInv (SECTOR_SIZE * sectors.toNat) s' := fun _ _ _ _ hs hc h => hs.step hc h
  refine Always.of_inv hkeep (fun s e hs hc => ⟨hs.file, ?_, ?_⟩) (FileInv.new _ _ _ _ _ hlen) hcap
  · intro io op todo _ htodo
    exact hs.todo op (by rw [htodo]; exact mem_cons_self)
  · rintro used r a rfl hthread hstatus htype hout
    have hreq : ∀ b ∈ r.buffers, b.len < 2 ^ 32 := by
      have := hs.request
      rw [hthread] at this
      exact this
    have htask : s.mmio.device.requestTask r ⟨a, used⟩ = .earlyErr ⟨a, used⟩ :=
      VirtIOBlkDevice.requestTask_earlyErr hreq hc htype hout
    refine ⟨?_, fun _ => rfl⟩
    simp only [step, deviceStep, hthread, submit, VirtIOBlkDevice.finishRequest, hstatus,
      htask, bind, Except.bind, pure, Except.pure]

/-- A board whose file has one sector, with a write of sixteen bytes at sector
`sector` made available. -/
def writeBoard (sector : WordType) : BlockSystem :=
  new VERSION_1 0 1 ⟨fun _ => 0, 512⟩ (storeLE (blkMem 1 0 2) 0x88 8 sector)

/-- The driver sets up the queue of `blkMem` and rings the doorbell, the device
thread serves it, and the worker makes its first accesses. -/
def serveWrite (before : List BlockEvent) : List BlockEvent :=
  [.write .u32 0x38 4, .write .u32 0x80 0x80000000, .write .u32 0x90 0x80000040,
    .write .u32 0xa0 0x80000050, .write .u32 0x44 1] ++ before ++ [.write .u32 0x50 0] ++
    replicate 6 .device ++ replicate 3 (.worker fun _ => .done 16)

theorem accesses_within_image_write :
    Always step (fun s _ => s.mmio.device.capacity ≤ 1) (writeBoard 0) (serveWrite []) ∧
      Always step (fun s _ => s.shared.file.len = 512) (writeBoard 0) (serveWrite []) := by
  have hcap : Always step (fun s _ => s.mmio.device.capacity ≤ 1) (writeBoard 0)
      (serveWrite []) := by decide +kernel
  exact ⟨hcap, (accesses_within_image _ _ _ _ _ _ rfl hcap).mono fun _ _ h => h.1⟩

/-- A write to the configuration space doubles the capacity, and a write to the
second sector makes the file longer. -/
theorem capacity_write_grows_file :
    (runAll step (writeBoard 1) (serveWrite [.write .u64 0x100 2])).map
      (fun out => out.2.shared.file.len) = .ok 528 := by decide +kernel

end BlockSystem

end HereEmu
