import HereEmu.Device.Virtio.Block
import HereEmu.Proofs.Virtqueue

/-!
# From a chain to a task

The closure of `manage_one_request` sees the descriptors of a chain one by one.
`Gathered` says what it has after any number of them: every buffer and the
status byte come from a descriptor of the chain, past the header, and all of
them lie in RAM. What the worker then writes is said in the same terms, so
where a request can change RAM follows from its chain.

The direction flag of a descriptor is read nowhere. A request keeps to the
flags exactly as far as the driver set them for the places the device writes.
-/

namespace HereEmu

open Lib VirtQueueDesc VirtQueueDescHandle

/-! ## The walk with a callback -/

namespace VirtQueue

variable {σ : Type} {mem : Nat → BitVec 8} {func : σ → VirtQueueDesc → Nat → Rust σ}
  {fuel idx : Nat} {h : VirtQueueDescHandle} {q : VirtQueue}

/-- The callback that remembers the chain. -/
def remember : List VirtQueueDesc → VirtQueueDesc → Nat → Rust (List VirtQueueDesc) :=
  calling fun l d _ => l ++ [d]

/-- The invariant rule: what every callback keeps, knowing the descriptors
before it, holds of the result and the whole chain. -/
theorem walk_invariant {P : List VirtQueueDesc → σ → Prop}
    (hstep : ∀ pre s d s', P pre s → d.bufferInRam → func s d pre.length = .ok s' →
      P (pre ++ [d]) s')
    {pre : List VirtQueueDesc} {s s' : σ} (h0 : P pre s)
    (hw : walk mem func fuel h pre.length s = some (.ok s')) :
    ∃ l, walk mem remember fuel h pre.length pre = some (.ok l) ∧ P l s' := by
  induction fuel generalizing h pre s with
  | zero => cases hw
  | succ fuel ih =>
    rw [walk] at hw
    rcases h.tryGet_cases mem with ⟨h', htry⟩ | ⟨d, h', htry, hv⟩
    · rw [htry] at hw
      cases hw
      exact ⟨pre, by simp [walk, htry], h0⟩
    · rw [htry] at hw
      dsimp only at hw
      cases hf : func s d pre.length with
      | error p => rw [hf] at hw; cases hw
      | ok s₁ =>
        rw [hf] at hw
        have hlen : (pre ++ [d]).length = pre.length + 1 := by simp
        obtain ⟨l, hl, hP⟩ := ih (hstep pre s d s₁ h0 hv.inRam hf) (by rw [hlen]; exact hw)
        refine ⟨l, ?_, hP⟩
        rw [walk, htry]
        rw [hlen] at hl
        exact hl

theorem walk_ne_error (hf : ∀ s d i, d.bufferInRam → ∃ s', func s d i = .ok s')
    {s : σ} (p : PanicSite) : walk mem func fuel h idx s ≠ some (.error p) := by
  induction fuel generalizing h idx s with
  | zero => simp [walk]
  | succ fuel ih =>
    rcases h.tryGet_cases mem with ⟨h', htry⟩ | ⟨d, h', htry, hv⟩
    · simp [walk, htry]
    · obtain ⟨s', hs'⟩ := hf s d idx hv.inRam
      simpa [walk, htry, hs'] using ih

/-- The descriptors of the chain the next entry refers to. -/
def chain (q : VirtQueue) (mem : Nat → BitVec 8) (fuel : Nat) : List VirtQueueDesc :=
  match q.takeOneRequest mem remember [] fuel with
  | some (.ok (_, _, l)) => l
  | _ => []

end VirtQueue

/-- Where in RAM the buffer of a descriptor starts. -/
def VirtQueueDesc.offset (d : VirtQueueDesc) : Nat := (d.paddr - BASE_ADDR).toNat

namespace VirtQueueDesc

variable {d : VirtQueueDesc}

theorem offset_add_le (h : d.bufferInRam) : d.offset + d.len.toNat ≤ SIZE := by
  obtain ⟨hle, hend⟩ := bufferInRam_iff.1 h
  rw [offset, BitVec.toNat_sub_of_le hle]
  exact hend

theorem getRequestPackage_ok (h : d.bufferInRam) : d.getRequestPackage = .ok d.offset := by
  have hle : ¬ d.paddr < BASE_ADDR := BitVec.not_lt.2 (bufferInRam_iff.1 h).1
  simp [getRequestPackage, hle, offset]

/-- The byte lies in the buffer of the descriptor. -/
def Covers (d : VirtQueueDesc) (j : Nat) : Prop := d.offset ≤ j ∧ j < d.offset + d.len.toNat

end VirtQueueDesc

/-! ## What the closure gathers -/

namespace BlkRequest

variable {mem : Nat → BitVec 8} {l : List VirtQueueDesc} {r r' : BlkRequest} {d : VirtQueueDesc}

/-- The type of request the header of a chain asks for. -/
def headerType (mem : Nat → BitVec 8) : List VirtQueueDesc → VirtioBlkReqType
  | [] => .unsupported
  | d :: _ => match manageRequestHeader mem d with
    | .ok (reqType, _) => reqType
    | .error _ => .unsupported

/-- `r` has been gathered from the descriptors `l`. -/
structure Gathered (mem : Nat → BitVec 8) (l : List VirtQueueDesc) (r : BlkRequest) : Prop where
  inRam : ∀ d ∈ l, d.bufferInRam
  reqType : r.reqType = headerType mem l
  buffers : ∀ b ∈ r.buffers, ∃ i d, l[i]? = some d ∧ i ≠ 0 ∧ d.hasNext ∧
    b = ⟨d.offset, d.len.toNat⟩
  status : ∀ a ∈ r.statusAddr, ∃ i d, l[i]? = some d ∧ i ≠ 0 ∧ d.hasNext = false ∧
    a = d.offset ∧ 0 < d.len.toNat

theorem Gathered.new : Gathered mem [] .new := by
  constructor <;> simp [BlkRequest.new, headerType]

theorem getElem?_snoc {i : Nat} (h : l[i]? = some d) (x : VirtQueueDesc) :
    (l ++ [x])[i]? = some d := by
  rw [List.getElem?_append_left (List.getElem?_eq_some_iff.1 h).1, h]

theorem headerType_snoc (hl : l ≠ []) : headerType mem (l ++ [d]) = headerType mem l := by
  cases l with
  | nil => exact absurd rfl hl
  | cons x xs => rfl

theorem add_ok (hram : d.bufferInRam) (r : BlkRequest) (i : Nat) :
    ∃ r', add mem r d i = .ok r' := by
  have hget := VirtQueueDesc.getRequestPackage_ok hram
  have hheader : ∃ out, manageRequestHeader mem d = .ok out := by
    unfold manageRequestHeader
    split
    · exact ⟨_, rfl⟩
    · exact ⟨_, by rw [hget]; rfl⟩
  obtain ⟨out, hout⟩ := hheader
  unfold add
  split
  · exact ⟨_, by rw [hout]; rfl⟩
  · split
    · exact ⟨_, by rw [hget]; rfl⟩
    · split
      · exact ⟨_, rfl⟩
      · exact ⟨_, by rw [hget]; rfl⟩

/-- One call of the closure. -/
theorem Gathered.add (hr : Gathered mem l r) (hram : d.bufferInRam)
    (h : BlkRequest.add mem r d l.length = .ok r') : Gathered mem (l ++ [d]) r' := by
  have hlast : (l ++ [d])[l.length]? = some d := by simp
  have hinRam : ∀ x ∈ l ++ [d], x.bufferInRam := by
    intro x hx
    rcases List.mem_append.1 hx with hx | hx
    · exact hr.inRam x hx
    · rw [List.mem_singleton.1 hx]
      exact hram
  have hbuffers : ∀ b ∈ r.buffers, ∃ i x, (l ++ [d])[i]? = some x ∧ i ≠ 0 ∧ x.hasNext ∧
      b = ⟨x.offset, x.len.toNat⟩ := by
    intro b hb
    obtain ⟨i, x, hi, hrest⟩ := hr.buffers b hb
    exact ⟨i, x, getElem?_snoc hi d, hrest⟩
  have hstatus : ∀ a ∈ r.statusAddr, ∃ i x, (l ++ [d])[i]? = some x ∧ i ≠ 0 ∧ x.hasNext = false ∧
      a = x.offset ∧ 0 < x.len.toNat := by
    intro a ha
    obtain ⟨i, x, hi, hrest⟩ := hr.status a ha
    exact ⟨i, x, getElem?_snoc hi d, hrest⟩
  unfold BlkRequest.add at h
  split at h
  · next hzero =>
      -- the header: nothing but the type and the sector change
      have hnil : l = [] := List.length_eq_zero_iff.1 hzero
      subst hnil
      obtain ⟨out, hout, h⟩ := Lib.exists_of_bind_ok h
      cases h
      exact ⟨hinRam, by simp [headerType, hout], hbuffers, hstatus⟩
  · next hne =>
      have htype : r.reqType = headerType mem (l ++ [d]) := by
        rw [headerType_snoc fun hnil => hne (by rw [hnil]; rfl)]
        exact hr.reqType
      rw [VirtQueueDesc.getRequestPackage_ok hram] at h
      split at h
      · next hnext =>
          cases h
          refine ⟨hinRam, htype, fun b hb => ?_, hstatus⟩
          rcases List.mem_append.1 hb with hb | hb
          · exact hbuffers b hb
          · exact ⟨l.length, d, hlast, hne, hnext, List.mem_singleton.1 hb⟩
      · next hnext =>
          split at h
          · cases h
            exact ⟨hinRam, htype, hbuffers, hstatus⟩
          · next hlen =>
              cases h
              refine ⟨hinRam, htype, hbuffers, fun a ha => ?_⟩
              cases ha
              refine ⟨l.length, d, hlast, hne, by simpa using hnext, rfl, ?_⟩
              simp only [VirtioBlkStatus.bytes] at hlen
              omega

theorem Gathered.buffers_inRam (hr : Gathered mem l r) : ∀ b ∈ r.buffers, b.addr + b.len ≤ SIZE := by
  intro b hb
  obtain ⟨i, d, hi, _, _, rfl⟩ := hr.buffers b hb
  exact VirtQueueDesc.offset_add_le (hr.inRam d (List.mem_of_getElem? hi))

theorem Gathered.status_inRam (hr : Gathered mem l r) : ∀ a ∈ r.statusAddr, a < SIZE := by
  intro a ha
  obtain ⟨i, d, hi, _, _, rfl, hpos⟩ := hr.status a ha
  have := VirtQueueDesc.offset_add_le (hr.inRam d (List.mem_of_getElem? hi))
  omega

end BlkRequest

/-! ## What a call submits -/

namespace VirtIOBlockAsyncTask

def buffers : VirtIOBlockAsyncTask → List IOTaskRamBuffer
  | .read task => task.buffers
  | .write task => task.buffers
  | _ => []

def completion? : VirtIOBlockAsyncTask → Option VirtIOBlockCompletion
  | .read task => some task.completion
  | .write task => some task.completion
  | .flush c => some c
  | .earlyErr c => some c
  | .unsupported c => some c
  | .drainBarrier => none

end VirtIOBlockAsyncTask

namespace VirtIOBlkDevice

variable {dev : VirtIOBlkDevice} {mem : Nat → BitVec 8} {permit : Bool} {fuel : Nat} {m : Managed}
  {r : BlkRequest} {used : VirtQueueCompletion} {c : VirtIOBlockCompletion}

/-- Every task carries the completion of its request, and its buffers. -/
theorem requestTask_cases (dev : VirtIOBlkDevice) (r : BlkRequest) (c : VirtIOBlockCompletion) :
    (∃ offset, dev.requestOffsetInBounds r.sector r.buffers = some offset ∧
      (r.reqType = .dataIn ∧ dev.requestTask r c = .read ⟨offset, r.buffers, c⟩ ∨
        r.reqType = .dataOut ∧ dev.requestTask r c = .write ⟨offset, r.buffers, c⟩)) ∨
      dev.requestOffsetInBounds r.sector r.buffers = none ∧
        (r.reqType = .dataIn ∨ r.reqType = .dataOut) ∧ dev.requestTask r c = .earlyErr c ∨
      r.reqType = .flush ∧ dev.requestTask r c = .flush c ∨
      dev.requestTask r c = .unsupported c := by
  unfold requestTask
  cases hb : dev.requestOffsetInBounds r.sector r.buffers <;> cases ht : r.reqType <;> simp

theorem requestTask_completion : (dev.requestTask r c).completion? = some c := by
  rcases dev.requestTask_cases r c with ⟨_, _, ⟨_, h⟩ | ⟨_, h⟩⟩ | ⟨_, _, h⟩ | ⟨_, h⟩ | h <;>
    rw [h] <;> rfl

theorem requestTask_buffers : ∀ b ∈ (dev.requestTask r c).buffers, b ∈ r.buffers := by
  rcases dev.requestTask_cases r c with ⟨_, _, ⟨_, h⟩ | ⟨_, h⟩⟩ | ⟨_, _, h⟩ | ⟨_, h⟩ | h <;>
    rw [h] <;> simp [VirtIOBlockAsyncTask.buffers]

/-- The end of a call: the used ring is updated, or a task is sent. -/
theorem finishRequest_cases (h : dev.finishRequest mem used r = .ok m) :
    (r.statusAddr = none ∧ m.task = none ∧ used.complete mem 0 = .ok m.mem) ∨
      ∃ a, r.statusAddr = some a ∧ m.mem = mem ∧ m.task = some (dev.requestTask r ⟨a, used⟩) := by
  unfold finishRequest at h
  cases ha : r.statusAddr with
  | none =>
    rw [ha] at h
    obtain ⟨mem', hc, h⟩ := Lib.exists_of_bind_ok h
    cases h
    exact .inl ⟨rfl, rfl, hc⟩
  | some a =>
    rw [ha] at h
    cases h
    exact .inr ⟨a, rfl, rfl, rfl⟩

/-- A call takes a chain and finishes it, or leaves everything as it was. -/
theorem manageOneRequest_cases (h : dev.manageOneRequest mem permit fuel = some (.ok m)) :
    (m.task = none ∧ m.mem = mem) ∨
      ∃ taken queue r, dev.queue.takeEntry mem = .ok (some taken, queue) ∧
        r.Gathered mem (dev.queue.chain mem fuel) ∧
        { dev with queue }.finishRequest mem taken.completion r = .ok m := by
  unfold manageOneRequest VirtQueue.takeOneRequest at h
  split at h
  · cases h
    exact .inl ⟨rfl, rfl⟩
  · obtain ⟨⟨_ | taken, queue⟩, hq⟩ := dev.queue.takeEntry_ok mem <;> rw [hq] at h
    · cases h
      exact .inl ⟨rfl, rfl⟩
    · dsimp only at h
      rcases hw : VirtQueue.walk mem (BlkRequest.add mem) fuel taken.handle 0 .new with
        _ | p | r <;> rw [hw] at h
      · cases h
      · cases h
      · obtain ⟨l, hl, hr⟩ := VirtQueue.walk_invariant (P := BlkRequest.Gathered mem)
          (fun _ _ _ _ hP hram hadd => hP.add hram hadd) BlkRequest.Gathered.new hw
        have hchain : dev.queue.chain mem fuel = l := by
          unfold VirtQueue.chain VirtQueue.takeOneRequest
          rw [hq]
          dsimp only
          rw [show VirtQueue.walk mem VirtQueue.remember fuel taken.handle 0 [] =
            some (.ok l) from hl]
          rfl
        exact .inr ⟨taken, queue, r, hq, hchain ▸ hr, Option.some.inj h⟩

theorem manageOneRequest_ne_error (p : PanicSite) :
    dev.manageOneRequest mem permit fuel ≠ some (.error p) := by
  unfold manageOneRequest VirtQueue.takeOneRequest
  split
  · simp
  · obtain ⟨⟨taken, queue⟩, hq⟩ := dev.queue.takeEntry_ok mem
    rw [hq]
    cases taken with
    | none => simp
    | some taken =>
      dsimp only
      cases hw : VirtQueue.walk mem (BlkRequest.add mem) fuel taken.handle 0 .new with
      | none => simp
      | some out =>
        cases out with
        | error p => exact absurd hw (VirtQueue.walk_ne_error
            (fun s d i hram => BlkRequest.add_ok hram s i) p)
        | ok r =>
          obtain ⟨_, _, _, _, _, _, hnum, _, hcompletion, _⟩ := (VirtQueue.takeEntry_eq_some hq).1
          have hdone : taken.completion.complete mem 0 = .ok _ :=
            VirtQueueCompletion.complete_eq (by rw [hcompletion]; exact hnum) mem 0
          cases ha : r.statusAddr <;>
            simp only [Option.map_some, Except.map, finishRequest, ha, hdone, bind,
              Except.bind, pure, Except.pure, ne_eq, Option.some.injEq, reduceCtorEq,
              not_false_eq_true]

/-- A walk from a table in RAM stays in tables in RAM. -/
theorem walk_table_inRam {n : Nat} {h h' : VirtQueueDescHandle}
    (h0 : h.table.base + bytes * h.table.len ≤ SIZE)
    (hn : turns (VirtQueueDescHandle.next mem) n h = some h') :
    h'.table.base + bytes * h'.table.len ≤ SIZE := by
  induction n generalizing h' with
  | zero =>
    cases hn
    exact h0
  | succ n ih =>
    rw [turns_succ] at hn
    obtain ⟨h₁, hh₁, hnext⟩ := Option.bind_eq_some_iff.1 hn
    obtain ⟨d, _, hv⟩ := next_eq_some hnext
    rw [hv.handle]
    show (h₁.current mem).table.base + _ * (h₁.current mem).table.len ≤ SIZE
    unfold current
    cases hent : h₁.entered mem with
    | none => exact ih hh₁
    | some t => exact (entered_inRam hent).1.fits

/-- From rings in RAM, everything the device looks at and everything it hands
to the worker lies in RAM: along the walk no index leaves its table, and the
buffers and the status byte of the task are inside the allocation. -/
theorem manageOneRequest_inRam (dev : VirtIOBlkDevice) (mem : Nat → BitVec 8)
    (hq : dev.queue.RingsInRam) :
    (∀ taken queue n h, dev.queue.takeEntry mem = .ok (some taken, queue) →
      turns (VirtQueueDescHandle.next mem) n taken.handle = some h →
        h.table.base + bytes * h.table.len ≤ SIZE ∧
        (∃ out, h.tryGet mem = .ok out) ∧
        (∀ h', h.getIndirect mem = .ok (some h') → h'.table.InRam) ∧
        ∀ d h', h.tryGet mem = .ok (some d, h') → BASE_ADDR.toNat ≤ d.paddr.toNat ∧
          d.paddr.toNat + d.len.toNat ≤ BASE_ADDR.toNat + SIZE) ∧
      ∀ permit fuel, (∀ p, dev.manageOneRequest mem permit fuel ≠ some (.error p)) ∧
        ∀ m task, dev.manageOneRequest mem permit fuel = some (.ok m) → m.task = some task →
          (∀ b ∈ task.buffers, b.addr + b.len ≤ SIZE) ∧
          ∀ c, task.completion? = some c → c.statusAddr + VirtioBlkStatus.bytes ≤ SIZE := by
  constructor
  · intro taken queue n h htake hn
    have h0 : taken.handle.table.base + bytes * taken.handle.table.len ≤ SIZE := by
      obtain ⟨desc, _, _, hdesc, _, _, _, hhandle, _⟩ := (VirtQueue.takeEntry_eq_some htake).1
      obtain ⟨desc', _, _, hdesc', _, _, hfits, _⟩ := hq
      rw [hdesc] at hdesc'
      cases hdesc'
      rw [hhandle, Nat.mul_comm]
      exact hfits
    refine ⟨walk_table_inRam h0 hn, ?_, ?_, ?_⟩
    · rcases h.tryGet_cases mem with ⟨_, htry⟩ | ⟨_, _, htry, _⟩ <;> exact ⟨_, htry⟩
    · intro h' hind
      obtain ⟨d, _, hind⟩ := Lib.exists_of_bind_ok hind
      obtain ⟨t, ht, rfl⟩ := Option.map_eq_some_iff.1 (Except.ok.inj hind)
      exact (indirectTable_inRam ht).1
    · intro d h' htry
      rcases h.tryGet_cases mem with ⟨_, hnone⟩ | ⟨d', _, hsome, hv⟩
      · rw [hnone] at htry
        cases htry
      · rw [hsome] at htry
        cases htry
        have := VirtQueueDesc.bufferInRam_iff.1 hv.inRam
        omega
  · refine fun permit fuel => ⟨fun p => manageOneRequest_ne_error p, ?_⟩
    intro m task hm htask
    rcases manageOneRequest_cases hm with ⟨hnone, _⟩ | ⟨taken, queue, r, _, hr, hfin⟩
    · rw [hnone] at htask
      cases htask
    · rcases finishRequest_cases hfin with ⟨_, hnone, _⟩ | ⟨a, ha, _, hsent⟩
      · rw [hnone] at htask
        cases htask
      · rw [hsent] at htask
        cases htask
        refine ⟨fun b hb => hr.buffers_inRam b (requestTask_buffers b hb), fun c hc => ?_⟩
        rw [requestTask_completion] at hc
        cases hc
        exact hr.status_inRam a ha

end VirtIOBlkDevice

/-! ## A request -/

/-- A queue of four entries: descriptors at offset 0, available ring at 0x40,
used ring at 0x50. -/
def blkQueue : VirtQueue :=
  ⟨4, 0, BASE_ADDR, some 0, BASE_ADDR + 0x40, some 0x40, BASE_ADDR + 0x50, some 0x50⟩

def blkDevice (sectors : WordType) : VirtIOBlkDevice :=
  { VirtIOBlkDevice.new VERSION_1 0 sectors with queue := blkQueue }

/-- Memory with one request made available: header at 0x80, sixteen bytes of
data at 0x90, status byte at 0xa0. -/
def blkMem (reqType : BitVec 32) (dataFlags statusFlags : BitVec 16) : Nat → BitVec 8 :=
  place ⟨BASE_ADDR + 0x80, 16, VirtQueueDescFlag.next, 1⟩ 0
    (place ⟨BASE_ADDR + 0x90, 16, VirtQueueDescFlag.next ||| dataFlags, 2⟩ 16
      (place ⟨BASE_ADDR + 0xa0, 1, statusFlags, 0⟩ 32
        (storeLE (storeLE (fun _ => 0) 0x42 2 1#16) 0x80 4 reqType)))

theorem blkQueue_ringsInRam : blkQueue.RingsInRam :=
  ⟨0, 0x40, 0x50, rfl, rfl, rfl, by decide, by decide, by decide⟩

/-- What the request in `blkMem` becomes when it is a read. -/
def blkRead : VirtIOBlockIoTask := ⟨0, [⟨0x90, 16⟩], ⟨0xa0, 0x50, 4, 0⟩⟩

/-- A call that returns is one whose task is known. -/
theorem exists_managed {x : Fuelled VirtIOBlkDevice.Managed} {task : Option VirtIOBlockAsyncTask}
    (h : x.map (Except.map (·.task)) = some (.ok task)) : ∃ m, x = some (.ok m) ∧ m.task = task := by
  obtain ⟨out, rfl, hmap⟩ := Option.map_eq_some_iff.1 h
  cases out with
  | error p => cases hmap
  | ok m => exact ⟨m, rfl, Except.ok.inj hmap⟩

theorem blkDevice_read : ((blkDevice 1).manageOneRequest (blkMem 0 2 2) true 4).map
    (Except.map (·.task)) = some (.ok (some (.read blkRead))) := by decide +kernel

theorem manageOneRequest_inRam_read : blkQueue.RingsInRam ∧ ∃ m,
    (blkDevice 1).manageOneRequest (blkMem 0 2 2) true 4 = some (.ok m) ∧
      m.task = some (.read blkRead) ∧ ∀ b ∈ blkRead.buffers, b.addr + b.len ≤ SIZE := by
  obtain ⟨m, hout, hm⟩ := exists_managed blkDevice_read
  exact ⟨blkQueue_ringsInRam, m, hout, hm,
    (((blkDevice 1).manageOneRequest_inRam (blkMem 0 2 2) blkQueue_ringsInRam).2 true 4).2 m _
      hout hm |>.1⟩

end HereEmu
