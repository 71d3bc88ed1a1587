import HereEmu.Instr.ExecVector
import HereEmu.Proofs.MemEffect

/-!
# The accesses of a vector load or store

The vector unit is handed the physical address space. To name the accesses it
makes, the transfers run on a second memory that keeps a record
(`recordingMem`). Going through a transfer once, side by side on the two
memories (`Tracks`), tells all there is to know about it: the record is one of
the run on the physical memory, and what stops a transfer is an element that
memory refuses, or a group that is no group before the first element.
-/

namespace HereEmu

open Lib (Exec)
open Lib.Exec (Spec)
open RVCPU

/-! ## The record -/

/-- One access of the vector unit, with the memory it found. -/
structure ElementAccess (B : DeviceBus) where
  width : Width
  addr : WordType
  /-- What a store stores. -/
  store : Option WordType
  before : MemoryMapIo B

/-- The access at a physical address. -/
def ElementAccess.physical {B : DeviceBus} (a : ElementAccess B) (paddr : WordType) (io : MemoryMapIo B) :
    Rust (Except MemError Unit × MemoryMapIo B) :=
  match a.store with
  | none => (io.readByType a.width paddr).map fun (r, io) => (r.map fun _ => (), io)
  | some data => io.writeByType a.width paddr data

/-- Memory with the accesses made to it. -/
structure Recorded (B : DeviceBus) where
  mmio : MemoryMapIo B
  log : List (ElementAccess B)

def record {B : DeviceBus} {α : Type} (a : ElementAccess B) (log : List (ElementAccess B)) :
    Rust (Except MemError α × MemoryMapIo B) → Rust (Except MemError α × Recorded B)
  | .ok (r, mmio) => .ok (r, ⟨mmio, log ++ [a]⟩)
  -- a panic of a device ends the transfer, with the access on record
  | .error _ => .ok (.error .loadFault, ⟨a.before, log ++ [a]⟩)

def recordingMem (B : DeviceBus) : VecMem (Recorded B) where
  read w addr m := record ⟨w, addr, none, m.mmio⟩ m.log ((physMem B).read w addr m.mmio)
  write w addr data m :=
    record ⟨w, addr, some data, m.mmio⟩ m.log ((physMem B).write w addr data m.mmio)

/-- The accesses a vector load or store makes, in their order. -/
def RVCPU.vectorAccesses {P : Platform} (cpu : RVCPU P) (op : VectorMemOp) (info : RVInstrInfo) :
    List (ElementAccess P.bus) :=
  match info with
  | .V rs1 rs2 rd vm func6 =>
    if cpu.csr.get .mstatus Mstatus.vs = 0 ∨ vectorMemInfoOk op rs2 vm func6 = false then []
    else
      let fields := vectorMemFields cpu.regFile rs1 rs2 rd vm func6 (cpu.csr.value .vstart).toNat
      match (vectorMemAccess (recordingMem P.bus) fields op).run
          ⟨cpu.vector, ⟨cpu.memory.mmio, []⟩⟩ with
      | .ok (_, s) => s.mem.log
      | .error _ => []
  | _ => []

/-! ## Side by side -/

section Record

variable {B : DeviceBus} {α β : Type}

/-- Made one after the other, the accesses lead from one memory to the other. -/
def Replays : MemoryMapIo B → List (ElementAccess B) → MemoryMapIo B → Prop
  | io, [], io' => io' = io
  | io, a :: log, io' => a.before = io ∧
    ∃ r io₁, a.physical a.addr io = .ok (r, io₁) ∧ Replays io₁ log io'

theorem Replays.snoc {io io₁ io₂ : MemoryMapIo B} {log : List (ElementAccess B)}
    {a : ElementAccess B} {r : Except MemError Unit} (h : Replays io log io₁)
    (hbefore : a.before = io₁) (ha : a.physical a.addr io₁ = .ok (r, io₂)) :
    Replays io (log ++ [a]) io₂ := by
  induction log generalizing io with
  | nil =>
    cases h
    exact ⟨hbefore, r, io₂, ha, rfl⟩
  | cons b log ih =>
    obtain ⟨hb, r', io', hphys, hrest⟩ := h
    exact ⟨hb, r', io', hphys, ih hrest⟩

/-- The same unit and the same memory, to which the record leads. -/
structure SameMemory (start : MemoryMapIo B) (s : VecState (MemoryMapIo B))
    (t : VecState (Recorded B)) : Prop where
  vector : t.vector = s.vector
  mmio : t.mem.mmio = s.mem
  replays : Replays start t.mem.log s.mem

/-- A transfer under way stops at an element that memory refuses. -/
def Refused (_ : VecState (MemoryMapIo B)) (e : VectorMemException) (_ : VecState (MemoryMapIo B)) :
    Prop := ∃ i err, e = .ofMemError i err

/-- Before the first element a transfer may stop with memory untouched. -/
def Stops (s : VecState (MemoryMapIo B)) (e : VectorMemException) (s' : VecState (MemoryMapIo B)) :
    Prop := (e = .other .illegalInstruction ∧ s'.mem = s.mem) ∨ Refused s e s'

/-- The transfer that keeps a record does what the one on physical memory does,
and what stops them is an `E`. -/
def Tracks (start : MemoryMapIo B)
    (E : VecState (MemoryMapIo B) → VectorMemException → VecState (MemoryMapIo B) → Prop)
    (m : Vector.VecM (MemoryMapIo B) α) (m' : Vector.VecM (Recorded B) α) : Prop :=
  ∀ s t, SameMemory start s t → Spec PanicSite.Benign m s fun r s' =>
    (∃ t', m'.run t = .ok (r, t') ∧ SameMemory start s' t') ∧ ∀ e, r = .error e → E s e s'

namespace Tracks

variable {start : MemoryMapIo B} {m : Vector.VecM (MemoryMapIo B) α} {m' : Vector.VecM (Recorded B) α}
  {E : VecState (MemoryMapIo B) → VectorMemException → VecState (MemoryMapIo B) → Prop}

theorem pure (a : α) : Tracks start Refused (pure a) (pure a) :=
  fun _ t h => ⟨⟨t, rfl, h⟩, nofun⟩

theorem bind {f : α → Vector.VecM (MemoryMapIo B) β} {f' : α → Vector.VecM (Recorded B) β}
    (hm : Tracks start Refused m m') (hf : ∀ a, Tracks start Refused (f a) (f' a)) :
    Tracks start Refused (m >>= f) (m' >>= f') := by
  intro s t h
  refine (hm s t h).seq (fun a s₁ ⟨⟨t₁, hrun, h₁⟩, _⟩ => ?_) fun e s₁ ⟨⟨t₁, hrun, h₁⟩, he⟩ => ?_
  · rw [Exec.run_bind_ok hrun]
    exact hf a s₁ t₁ h₁
  · rw [Exec.run_bind_error hrun]
    refine ⟨⟨t₁, rfl, h₁⟩, fun e' he' => ?_⟩
    cases he'
    exact he e rfl

theorem get_bind {f : VecState (MemoryMapIo B) → Vector.VecM (MemoryMapIo B) α}
    {f' : VecState (Recorded B) → Vector.VecM (Recorded B) α}
    (h : ∀ s t, t.vector = s.vector → Tracks start E (f s) (f' t)) :
    Tracks start E (get >>= f) (get >>= f') := by
  intro s t hst
  exact Spec.get_bind (h s t hst.vector s t hst)

theorem setVector (g : Vector → Vector) : Tracks start Refused
    (modify fun s => { s with vector := g s.vector })
    (modify fun s => { s with vector := g s.vector }) :=
  fun _ _ h => ⟨⟨_, rfl, congrArg g h.vector, h.mmio, h.replays⟩, nofun⟩

theorem forM {l : List Nat} {f : Nat → Vector.VecM (MemoryMapIo B) PUnit}
    {f' : Nat → Vector.VecM (Recorded B) PUnit} (hf : ∀ i, Tracks start Refused (f i) (f' i)) :
    Tracks start Refused (l.forM f) (l.forM f') := by
  induction l with
  | nil => exact pure _
  | cons i l ih => exact (hf i).bind fun _ => ih

theorem stops (h : Tracks start Refused m m') : Tracks start Stops m m' :=
  fun s t hst => (h s t hst).mono fun _ _ hq => ⟨hq.1, fun e he => .inr (hq.2 e he)⟩

theorem illegal : Tracks start Stops (throw (.other .illegalInstruction) : Vector.VecM _ α)
    (throw (.other .illegalInstruction)) := by
  refine fun s t h => ⟨⟨t, rfl, h⟩, fun e he => ?_⟩
  cases he
  exact .inl ⟨rfl, rfl⟩

/-- One element, through a read or a write of the physical memory. -/
theorem onMem (index : Nat) {f : MemoryMapIo B → Rust (Except MemError α × MemoryMapIo B)}
    {f' : Recorded B → Rust (Except MemError α × Recorded B)}
    (hpanic : ∀ io p, f io = .error p → p.Benign)
    (h : ∀ m r io, f m.mmio = .ok (r, io) → ∃ a, f' m = .ok (r, ⟨io, m.log ++ [a]⟩) ∧
      a.before = m.mmio ∧ ∃ r', a.physical a.addr m.mmio = .ok (r', io)) :
    Tracks start Refused (Vector.onMem index f) (Vector.onMem index f') := by
  rintro s t ⟨hv, hmem, hreplay⟩
  show Exec.Outcome _ _ _
  unfold Vector.onMem
  simp only [Exec.run_ofFun]
  rcases hf : f s.mem with p | ⟨r, io⟩
  · exact hpanic _ p hf
  · obtain ⟨a, hf', hbefore, r', hphys⟩ := h t.mem r io (hmem ▸ hf)
    have hreplay' : Replays start (t.mem.log ++ [a]) io :=
      hreplay.snoc (hbefore.trans hmem) (hmem ▸ hphys)
    rw [hf']
    cases r with
    | ok a => exact ⟨⟨_, rfl, hv, rfl, hreplay'⟩, nofun⟩
    | error err => exact ⟨⟨_, rfl, hv, rfl, hreplay'⟩, fun e he => ⟨index, err, by cases he; rfl⟩⟩

theorem read (index : Nat) (w : Width) (addr : WordType) : Tracks start Refused
    (Vector.onMem index ((physMem B).read w addr))
    (Vector.onMem index ((recordingMem B).read w addr)) := by
  refine onMem index (fun io _ => (readByType_outcome io w addr).elim_panic) fun m r io h =>
    ⟨⟨w, addr, none, m.mmio⟩, ?_, rfl, r.map fun _ => (), ?_⟩
  · show record _ _ _ = _
    rw [h]
    rfl
  · show Except.map _ ((physMem B).read w addr m.mmio) = _
    rw [h]
    rfl

theorem write (index : Nat) (w : Width) (addr data : WordType) : Tracks start Refused
    (Vector.onMem index ((physMem B).write w addr data))
    (Vector.onMem index ((recordingMem B).write w addr data)) := by
  refine onMem index (fun io _ => (writeByType_outcome io w addr data).elim_panic) fun m r io h =>
    ⟨⟨w, addr, some data, m.mmio⟩, ?_, rfl, r, h⟩
  show record _ _ _ = _
  rw [h]
  rfl

variable {f : Vector.AddrCal} {mask : VecOpMask} {byte index vstart : Nat} {w : Width} {reg : RegIdx}
  {seg nf : Nat} {enableMask : Bool} {base : WordType}

theorem addrCal : Tracks start Refused (f.exec (physMem B) index) (f.exec (recordingMem B) index) := by
  cases f with
  | strided base step => exact pure _
  | indexed base indexArrBase indexWidth => exact (read index _ _).bind fun _ => pure _

theorem elementLoad {value : WordType} : Tracks start Refused
    (Vector.elementLoad mask byte w value index) (Vector.elementLoad mask byte w value index) := by
  unfold Vector.elementLoad
  split
  · exact setVector fun v => v.setElement byte w _
  · exact pure ()

theorem loadElement : Tracks start Refused (Vector.loadElement (physMem B) f mask w byte index)
    (Vector.loadElement (recordingMem B) f mask w byte index) := by
  unfold Vector.loadElement
  split
  · exact elementLoad
  · exact addrCal.bind fun _ => (read index w _).bind fun _ => elementLoad

theorem storeElement : Tracks start Refused (Vector.storeElement (physMem B) f mask w byte index)
    (Vector.storeElement (recordingMem B) f mask w byte index) := by
  unfold Vector.storeElement
  split
  · refine addrCal.bind fun _ => get_bind fun s t h => ?_
    rw [h]
    exact write index w _ _
  · exact pure ()

theorem loadGroup : Tracks start Stops (Vector.loadGroup (physMem B) f reg w seg enableMask vstart)
    (Vector.loadGroup (recordingMem B) f reg w seg enableMask vstart) := by
  refine get_bind fun s t h => ?_
  rw [h]
  dsimp only
  split
  · exact illegal
  · exact (forM fun index => loadElement).stops

theorem storeGroup : Tracks start Stops (Vector.storeGroup (physMem B) f reg w seg enableMask vstart)
    (Vector.storeGroup (recordingMem B) f reg w seg enableMask vstart) := by
  refine get_bind fun s t h => ?_
  rw [h]
  dsimp only
  split
  · exact illegal
  · exact (forM fun index => storeElement).stops

theorem withConfig (c : VectorConfig → VectorConfig) {m : Vector.VecM (MemoryMapIo B) Unit}
    {m' : Vector.VecM (Recorded B) Unit} (h : Tracks start Stops m m') :
    Tracks start Stops (Vector.withConfig c m) (Vector.withConfig c m') := by
  rintro s t ⟨hv, hmem, hreplay⟩
  have hm := h ⟨⟨c s.vector.config, s.vector.vectorRegfile⟩, s.mem⟩
    ⟨⟨c s.vector.config, s.vector.vectorRegfile⟩, t.mem⟩ ⟨rfl, hmem, hreplay⟩
  show Exec.Outcome _ _ _
  unfold Vector.withConfig
  simp only [Exec.run_ofFun, hv]
  rcases hr : m.run ⟨⟨c s.vector.config, s.vector.vectorRegfile⟩, s.mem⟩ with p | ⟨r, s₁⟩
  · exact hm.elim_panic hr
  · obtain ⟨⟨t₁, hrun, hv₁, hmem₁, hreplay₁⟩, hstops⟩ := hm.elim hr
    rw [hrun]
    exact ⟨⟨_, rfl, by rw [hv₁], hmem₁, hreplay₁⟩, hstops⟩

theorem loadWholeRegister : Tracks start Stops
    (Vector.loadWholeRegister (physMem B) reg nf vstart base)
    (Vector.loadWholeRegister (recordingMem B) reg nf vstart base) := by
  unfold Vector.loadWholeRegister
  split
  · split
    · exact illegal
    · exact (forM fun index => (read index _ _).bind fun _ =>
        setVector fun v => v.setElement _ _ _).stops
  · exact illegal

theorem storeWholeRegister : Tracks start Stops
    (Vector.storeWholeRegister (physMem B) reg nf vstart base)
    (Vector.storeWholeRegister (recordingMem B) reg nf vstart base) := by
  unfold Vector.storeWholeRegister
  split
  · split
    · exact illegal
    · refine (forM fun index => get_bind fun s t h => ?_).stops
      rw [h]
      exact write index _ _ _
  · exact illegal

theorem access (f : VectorMemFields) (op : VectorMemOp) : Tracks start Stops
    (vectorMemAccess (physMem B) f op) (vectorMemAccess (recordingMem B) f op) := by
  cases op with
  | unitStrideLoad eew | constantStrideLoad eew => exact loadGroup
  | indexedOrderedLoad eew =>
    refine get_bind fun s t h => ?_
    rw [h]
    exact loadGroup
  | wholeRegisterLoad => exact loadWholeRegister
  | maskLoad => exact withConfig _ loadGroup
  | unitStrideStore eew | constantStrideStore eew => exact storeGroup
  | indexedOrderedStore eew =>
    refine get_bind fun s t h => ?_
    rw [h]
    exact storeGroup
  | wholeRegisterStore => exact storeWholeRegister
  | maskStore => exact withConfig _ storeGroup
  | unimplemented => exact fun _ _ _ => (by decide : PanicSite.Benign .unimplemented)

end Tracks

end Record

end HereEmu
