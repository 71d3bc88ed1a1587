import HereEmu.Proofs.CsrEffect

/-!
# Vector accesses next to scalar ones

The vector unit is handed the physical address space and uses the addresses
the program gives it as they are. This module compares every access it makes
with the scalar access of the same width at the same address in the same state.

The accesses are those on record, and the comparison comes out one by one.
-/

namespace HereEmu

open Lib (Exec)
open Lib.Exec (Spec)
open RVCPU VirtAddrManager

section Instruction

variable {P : Platform} {cpu : RVCPU P}

/-- The accesses on record, made one after the other, are what a vector load or
store does to memory. -/
theorem execVectorMem_replays (op : VectorMemOp) (info : RVInstrInfo) :
    Spec (fun _ => True) (execVectorMem op info) cpu
      fun _ cpu' => Replays cpu.memory.mmio (cpu.vectorAccesses op info) cpu'.memory.mmio := by
  by_cases hoff : cpu.csr.get .mstatus Mstatus.vs = 0
  · have hnone : cpu.vectorAccesses op info = [] := by
      cases info with
      | V rs1 rs2 rd vm func6 => exact if_pos (.inl hoff)
      | _ => rfl
    refine Spec.of_run ((run_exec_vector (f := .vectorMem op) rfl info cpu).trans (if_pos hoff)) ?_
    rw [hnone]
    exact rfl
  have hreplays : ∀ e, vectorEnd cpu (.vectorMem op) info = .ok e →
      Replays cpu.memory.mmio (cpu.vectorAccesses op info) e.mmio := by
    intro e hend
    cases info with
    | V rs1 rs2 rd vm func6 =>
      cases hok : vectorMemInfoOk op rs2 vm func6 with
      | false => rw [vectorEnd, hok] at hend; cases hend
      | true =>
        rw [vectorEnd, hok, if_pos rfl] at hend
        obtain ⟨⟨r, s⟩, hrun, hend⟩ := Lib.exists_of_bind_ok hend
        cases hend
        obtain ⟨⟨t, hrec, hsame⟩, -⟩ := (Tracks.access _ op ⟨cpu.vector, cpu.memory.mmio⟩
          ⟨cpu.vector, ⟨cpu.memory.mmio, []⟩⟩ ⟨rfl, rfl, rfl⟩).elim hrun
        have hlog : cpu.vectorAccesses op (.V rs1 rs2 rd vm func6) = t.mem.log := by
          refine (if_neg fun h => h.elim hoff fun h => by cases hok.symm.trans h).trans ?_
          rw [hrec]
        rw [hlog]
        exact hsame.replays
    | _ => cases hend
  exact exec_vector_spec (f := .vectorMem op) rfl (fun _ _ => trivial) (fun h => absurd h hoff)
    (fun e _ hend _ => hreplays e hend) fun e hend _ => hreplays e hend

end Instruction

/-! ## The comparison -/

/-- The physical address a data access is translated to. -/
def RVCPU.dataPaddr {P : Platform} (cpu : RVCPU P) (access : AccessType) (addr : WordType) :
    Option WordType :=
  match resolveDataPolicy cpu.csr access true with
  | .error _ => none
  | .ok policy =>
    match (translateWithPolicy addr policy).run cpu.memory with
    | .ok (.ok paddr, _) => some paddr
    | _ => none

namespace ElementAccess

variable {P : Platform} (a : ElementAccess P.bus)

def access {B : DeviceBus} (a : ElementAccess B) : AccessType :=
  if a.store.isSome then .write else .read

/-- The CPU at the time of the access. -/
def found (cpu : RVCPU P) : RVCPU P :=
  { cpu with memory := { cpu.memory with mmio := a.before } }

/-- The access as the vector unit makes it for an element. -/
def perform (index : Nat) : CpuM P Unit :=
  onVector (Vector.onMem index (a.physical a.addr))

/-- `RVCPU::read` or `RVCPU::write` of the same width at the same address. -/
def scalar : CpuM P Unit :=
  match a.store with
  | none => do let _ ← read a.width a.addr
  | some data => write a.width a.addr data

/-- The physical address the scalar access goes to. -/
def scalarPaddr (cpu : RVCPU P) : Option WordType :=
  cpu.dataPaddr a.access a.addr

end ElementAccess

/-- The trap value `step_impl` delivers with an exception of an instruction. -/
def trapValue {P : Platform} (cpu : RVCPU P) : WordType := cpu.pendingTval.getD 0

/-- The access of the vector unit succeeds, reaches and fails as the scalar one. -/
structure Isolated {P : Platform} (cpu : RVCPU P) (a : ElementAccess P.bus) : Prop where
  succeeds : (∃ io, a.physical a.addr a.before = .ok (.ok (), io)) ↔
    ∃ cpu', a.scalar.run (a.found cpu) = .ok (.ok (), cpu')
  bytes : ∀ io, a.physical a.addr a.before = .ok (.ok (), io) →
    a.scalarPaddr (a.found cpu) = some a.addr
  traps : ∀ index e cpu', (a.perform index).run (a.found cpu) = .ok (.error e, cpu') →
    ∃ cpu'', a.scalar.run (a.found cpu) = .ok (.error e, cpu'') ∧ trapValue cpu'' = trapValue cpu'

/-- When it does: in terms of where the scalar access is translated to, and of
what the physical memory does with the address. -/
structure MapsToItself {P : Platform} (cpu : RVCPU P) (a : ElementAccess P.bus) : Prop where
  accepted : ∀ io, a.physical a.addr a.before = .ok (.ok (), io) →
    a.scalarPaddr (a.found cpu) = some a.addr
  /-- An address memory refuses has to be the trap value that is already there. -/
  refused : ∀ err io, a.physical a.addr a.before = .ok (.error err, io) →
    trapValue cpu = a.addr ∧ ∃ paddr io', a.scalarPaddr (a.found cpu) = some paddr ∧
      a.physical paddr a.before = .ok (.error err, io')
  /-- A device that panics leaves nothing to compare with. -/
  panics : ∀ p paddr io, a.physical a.addr a.before = .error p →
    a.scalarPaddr (a.found cpu) = some paddr → a.physical paddr a.before ≠ .ok (.ok (), io)

section Scalar

variable {P : Platform} {α : Type} {cpu : RVCPU P}

/-- The end of an access, by what memory said at the physical address. -/
def EndsAs (addr : WordType) : Rust (Except MemError α × MemoryMapIo P.bus) →
    Rust (Except Exception α × RVCPU P) → Prop
  | .ok (.ok a, _), out => ∃ cpu', out = .ok (.ok a, cpu')
  | .ok (.error e, _), out =>
    ∃ cpu', out = .ok (.error (.fromMemoryErr e), cpu') ∧ cpu'.pendingTval = some addr
  | .error p, out => out = .error p

/-- How a data access can end, given what it does at a physical address: with
the access there, with a page fault, or in a panic before it is translated. -/
inductive DataOutcome (cpu : RVCPU P) (access : AccessType) (addr : WordType)
    (phys : WordType → MemoryMapIo P.bus → Rust (Except MemError α × MemoryMapIo P.bus)) :
    Rust (Except Exception α × RVCPU P) → Prop
  | reached {paddr out} : cpu.dataPaddr access addr = some paddr →
    EndsAs addr (phys paddr cpu.memory.mmio) out → DataOutcome cpu access addr phys out
  | fault {cpu'} : cpu.dataPaddr access addr = none → cpu'.pendingTval = some addr →
    DataOutcome cpu access addr phys (.ok (.error (.fromMemoryErr access.fault), cpu'))
  | unresolved {p} : cpu.dataPaddr access addr = none → DataOutcome cpu access addr phys (.error p)

theorem resolveDataPolicy_fault {csr : CsrRegFile} {access : AccessType} {policy : AccessPolicy}
    (h : resolveDataPolicy csr access true = .ok policy) : policy.FaultIn (· = access.fault) := by
  unfold resolveDataPolicy at h
  obtain ⟨privilege, _, h⟩ := Lib.exists_of_bind_ok h
  split at h
  · cases h
    trivial
  · split at h <;> cases h <;> rfl

theorem dataAccess_outcome (hp : cpu.memory.pageTable.adUpdatePolicy = .faultOnClear)
    (access : AccessType) (addr : WordType)
    (phys : WordType → MemoryMapIo P.bus → Rust (Except MemError α × MemoryMapIo P.bus)) :
    DataOutcome cpu access addr phys ((dataPolicy access >>= fun policy =>
      finishMemoryAccess addr .fromMemoryErr (translateWithPolicy addr policy >>=
        fun paddr => onMmio (phys paddr))).run cpu) := by
  cases hpol : resolveDataPolicy cpu.csr access true with
  | error p =>
    have hrun : (dataPolicy access).run cpu = .error p := by
      unfold dataPolicy
      rw [Exec.run_bind_ok (Exec.run_get cpu), hpol]
      rfl
    rw [Exec.run_bind_panic hrun]
    exact .unresolved (by simp only [RVCPU.dataPaddr, hpol])
  | ok policy =>
    rw [Exec.run_bind_ok (run_dataPolicy hpol)]
    have hspec := translateWithPolicy_still addr hp (resolveDataPolicy_fault hpol)
    rcases ht : (translateWithPolicy addr policy).run cpu.memory with p | ⟨e | paddr, memory⟩
    · have hrun := finishMemoryAccess_panic cpu (Exec.run_bind_panic
        (f := fun paddr => onMmio (phys paddr)) ht) addr .fromMemoryErr
      rw [hrun]
      exact .unresolved (by simp only [RVCPU.dataPaddr, hpol, ht])
    · obtain rfl := (hspec.elim ht).2.2 e rfl
      rw [finishMemoryAccess_bind ht]
      exact .fault (by simp only [RVCPU.dataPaddr, hpol, ht]) rfl
    · have hpaddr : cpu.dataPaddr access addr = some paddr := by
        simp only [RVCPU.dataPaddr, hpol, ht]
      have hfound : phys paddr memory.mmio = phys paddr cpu.memory.mmio := by
        rw [(hspec.elim ht).2.1]
      rw [finishMemoryAccess_bind ht]
      refine .reached hpaddr ?_
      rcases hphys : phys paddr cpu.memory.mmio with p | ⟨e | a, io⟩
      · exact finishMemoryAccess_panic _ (run_onMmio_panic (hfound.trans hphys)) addr _
      · exact ⟨_, finishMemoryAccess_error _ (run_onMmio_ok (hfound.trans hphys)) addr _, rfl⟩
      · exact ⟨_, finishMemoryAccess_ok _ (run_onMmio_ok (hfound.trans hphys)) addr _⟩

/-- The same access, with its value forgotten. -/
theorem DataOutcome.forget {access : AccessType} {addr : WordType}
    {phys : WordType → MemoryMapIo P.bus → Rust (Except MemError α × MemoryMapIo P.bus)}
    {m : CpuM P α} (h : DataOutcome cpu access addr phys (m.run cpu)) :
    DataOutcome cpu access addr
      (fun paddr io => (phys paddr io).map fun (r, io) => (r.map fun _ => (), io))
      ((m >>= fun _ => pure ()).run cpu) := by
  generalize hrun : m.run cpu = out at h
  cases h with
  | reached hpaddr hends =>
    refine .reached hpaddr ?_
    revert hends
    cases phys _ cpu.memory.mmio with
    | error p =>
      rintro rfl
      exact Exec.run_bind_panic hrun
    | ok res =>
      obtain ⟨_ | _, io⟩ := res
      · rintro ⟨cpu', rfl, htval⟩
        exact ⟨cpu', Exec.run_bind_error hrun, htval⟩
      · rintro ⟨cpu', rfl⟩
        exact ⟨cpu', Exec.run_bind_ok hrun⟩
  | fault hpaddr htval =>
    rw [Exec.run_bind_error hrun]
    exact .fault hpaddr htval
  | unresolved hpaddr =>
    rw [Exec.run_bind_panic hrun]
    exact .unresolved hpaddr

namespace ElementAccess

variable (a : ElementAccess P.bus)

theorem scalar_outcome
    (hp : cpu.memory.pageTable.adUpdatePolicy = .faultOnClear) :
    DataOutcome cpu a.access a.addr a.physical (a.scalar.run cpu) := by
  obtain ⟨w, addr, store, before⟩ := a
  cases store with
  | none => exact (dataAccess_outcome hp .read addr fun paddr io => io.readByType w paddr).forget
  | some data => exact dataAccess_outcome hp .write addr fun paddr io => io.writeByType w paddr data

/-- Memory itself never answers with a page fault. -/
theorem physical_error {a : ElementAccess P.bus} {paddr : WordType} {io io' : MemoryMapIo P.bus}
    {e : MemError} (h : a.physical paddr io = .ok (.error e, io')) : e ≠ a.access.fault := by
  obtain ⟨w, addr, store, before⟩ := a
  cases store with
  | none =>
    rcases hread : io.readByType w paddr with p | ⟨e' | v, io₁⟩ <;>
      simp only [physical, hread, Except.map] at h <;> cases h
    rintro rfl
    exact absurd (((readByType_outcome io w paddr).elim hread).2 _ rfl)
      (show MemError.loadPageFault ∉ _ by decide)
  | some data =>
    rintro rfl
    exact absurd ((writeByType_outcome io w paddr data).elim h _ rfl).1
      (show MemError.storePageFault ∉ _ by decide)

/-- What becomes of an element whose access memory refuses. -/
theorem perform_error (cpu : RVCPU P) (index : Nat) {e : MemError}
    {io : MemoryMapIo P.bus} (h : a.physical a.addr cpu.memory.mmio = .ok (.error e, io)) :
    ∃ cpu', (a.perform index).run cpu = .ok (.error (.fromMemoryErr e), cpu') ∧
      cpu'.pendingTval = cpu.pendingTval := by
  unfold perform onVector Vector.onMem
  simp only [Exec.run_ofFun, h]
  exact ⟨_, rfl, rfl⟩

theorem error_of_perform {a : ElementAccess P.bus} {index : Nat} {e : Exception} {cpu' : RVCPU P}
    (h : (a.perform index).run cpu = .ok (.error e, cpu')) :
    ∃ err io, a.physical a.addr cpu.memory.mmio = .ok (.error err, io) ∧ e = .fromMemoryErr err ∧
      cpu'.pendingTval = cpu.pendingTval := by
  unfold perform onVector Vector.onMem at h
  simp only [Exec.run_ofFun] at h
  rcases hphys : a.physical a.addr cpu.memory.mmio with p | ⟨err | _, io⟩ <;> rw [hphys] at h <;>
    cases h
  exact ⟨err, io, rfl, rfl, rfl⟩

theorem scalar_of_paddr (cpu : RVCPU P) {paddr : WordType}
    (hp : cpu.memory.pageTable.adUpdatePolicy = .faultOnClear)
    (hpaddr : a.scalarPaddr cpu = some paddr) :
    EndsAs a.addr (a.physical paddr cpu.memory.mmio) (a.scalar.run cpu) := by
  have hout := a.scalar_outcome hp
  generalize a.scalar.run cpu = out at hout
  cases hout with
  | reached hpaddr' hends =>
    cases hpaddr.symm.trans hpaddr'
    exact hends
  | fault hnone _ | unresolved hnone => cases hpaddr.symm.trans hnone

/-- A scalar access that ends: it was refused a translation, or memory answered
at the physical address. -/
theorem scalar_cases {r : Except Exception Unit} {cpu' : RVCPU P}
    (hp : cpu.memory.pageTable.adUpdatePolicy = .faultOnClear) (hrun : a.scalar.run cpu = .ok (r, cpu')) :
    r = .error (.fromMemoryErr a.access.fault) ∨ ∃ paddr res io, a.scalarPaddr cpu = some paddr ∧
      a.physical paddr cpu.memory.mmio = .ok (res, io) ∧ r = res.mapError .fromMemoryErr ∧
      ∀ e, res = .error e → cpu'.pendingTval = some a.addr := by
  have hout := a.scalar_outcome hp
  rw [hrun] at hout
  cases hout with
  | fault _ _ => exact .inl rfl
  | @reached paddr _ hpaddr hends =>
    rcases hphys : a.physical paddr cpu.memory.mmio with p | ⟨e | v, io⟩ <;> rw [hphys] at hends
    · cases hends
    · obtain ⟨cpu₁, ⟨⟩, htval⟩ := hends
      exact .inr ⟨paddr, _, io, hpaddr, hphys, rfl, fun _ _ => htval⟩
    · obtain ⟨cpu₁, ⟨⟩⟩ := hends
      exact .inr ⟨paddr, _, io, hpaddr, hphys, rfl, nofun⟩

end ElementAccess

end Scalar

section Comparison

variable {P : Platform} {cpu : RVCPU P} {a : ElementAccess P.bus}

theorem fromMemoryErr_inj {e e' : MemError}
    (h : Exception.fromMemoryErr e = Exception.fromMemoryErr e') : e = e' := by
  revert h
  cases e <;> cases e' <;> decide

/-- If memory refuses the element and the scalar access raises the same
exception, the scalar access was refused by memory as well. -/
theorem refused_of_scalar_error (cpu : RVCPU P) {err : MemError} {cpu' : RVCPU P}
    (hp : cpu.memory.pageTable.adUpdatePolicy = .faultOnClear) (herr : err ≠ a.access.fault)
    (hrun : a.scalar.run cpu = .ok (.error (.fromMemoryErr err), cpu')) :
    cpu'.pendingTval = some a.addr ∧ ∃ paddr io, a.scalarPaddr cpu = some paddr ∧
      a.physical paddr cpu.memory.mmio = .ok (.error err, io) := by
  rcases a.scalar_cases hp hrun with h | ⟨paddr, res, io, hpaddr, hphys, hr, htval⟩
  · exact absurd (fromMemoryErr_inj (Except.error.inj h)) herr
  · cases res with
    | ok v => cases hr
    | error e =>
      rw [fromMemoryErr_inj (Except.error.inj hr)]
      exact ⟨htval e rfl, paddr, io, hpaddr, hphys⟩

theorem paddr_of_scalar_ok (cpu : RVCPU P) {cpu' : RVCPU P}
    (hp : cpu.memory.pageTable.adUpdatePolicy = .faultOnClear)
    (hrun : a.scalar.run cpu = .ok (.ok (), cpu')) :
    ∃ paddr io, a.scalarPaddr cpu = some paddr ∧
      a.physical paddr cpu.memory.mmio = .ok (.ok (), io) := by
  rcases a.scalar_cases hp hrun with h | ⟨paddr, res, io, hpaddr, hphys, hr, -⟩
  · cases h
  · cases res with
    | ok v => exact ⟨paddr, io, hpaddr, hphys⟩
    | error e => cases hr

theorem Isolated.mapsToItself (hp : cpu.memory.pageTable.adUpdatePolicy = .faultOnClear)
    (h : Isolated cpu a) : MapsToItself cpu a := by
  refine ⟨h.bytes, fun err io hphys => ?_, fun p paddr io hpanic hpaddr hok => ?_⟩
  · obtain ⟨cpu', hrun, htval⟩ := a.perform_error (a.found cpu) 0 hphys
    obtain ⟨cpu'', hscalar, htrap⟩ := h.traps 0 _ cpu' hrun
    obtain ⟨htval', hrefused⟩ := refused_of_scalar_error (a.found cpu) hp
      (ElementAccess.physical_error hphys) hscalar
    refine ⟨?_, hrefused⟩
    unfold trapValue at htrap ⊢
    rw [htval', htval] at htrap
    exact htrap.symm
  · have hends := a.scalar_of_paddr (a.found cpu) hp hpaddr
    rw [show a.physical paddr (a.found cpu).memory.mmio = _ from hok] at hends
    obtain ⟨io', hphys⟩ := h.succeeds.mpr hends
    cases hpanic.symm.trans hphys

theorem MapsToItself.isolated (hp : cpu.memory.pageTable.adUpdatePolicy = .faultOnClear)
    (h : MapsToItself cpu a) : Isolated cpu a := by
  refine ⟨⟨?_, ?_⟩, h.accepted, ?_⟩
  · rintro ⟨io, hphys⟩
    have hends := a.scalar_of_paddr (a.found cpu) hp (h.accepted io hphys)
    rw [show a.physical a.addr (a.found cpu).memory.mmio = _ from hphys] at hends
    exact hends
  · rintro ⟨cpu', hrun⟩
    obtain ⟨paddr, io, hpaddr, hok⟩ := paddr_of_scalar_ok (a.found cpu) hp hrun
    -- memory accepts what the scalar access reached, so it cannot refuse the element
    rcases hphys : a.physical a.addr a.before with p | ⟨err | v, io₁⟩
    · exact absurd hok (h.panics p paddr io hphys hpaddr)
    · obtain ⟨-, paddr', io', hpaddr', hphys'⟩ := h.refused err io₁ hphys
      cases hpaddr.symm.trans hpaddr'
      cases (show a.physical paddr a.before = _ from hok).symm.trans hphys'
    · exact ⟨io₁, rfl⟩
  · intro index e cpu' hrun
    obtain ⟨err, io, hphys, rfl, htval⟩ := ElementAccess.error_of_perform hrun
    obtain ⟨haddr, paddr, io', hpaddr, hphys'⟩ := h.refused err io hphys
    have hends := a.scalar_of_paddr (a.found cpu) hp hpaddr
    rw [show a.physical paddr (a.found cpu).memory.mmio = _ from hphys'] at hends
    obtain ⟨cpu'', hscalar, htval''⟩ := hends
    refine ⟨cpu'', hscalar, ?_⟩
    unfold trapValue at haddr ⊢
    rw [htval'', htval]
    exact haddr.symm

/-- A vector load or store acts as scalar accesses would, if and only if every
access it makes goes to an address that is translated to itself. -/
theorem vector_isolation_iff (cpu : RVCPU P) (op : VectorMemOp) (info : RVInstrInfo)
    (hp : cpu.memory.pageTable.adUpdatePolicy = .faultOnClear) :
    (∀ a ∈ cpu.vectorAccesses op info, Isolated cpu a) ↔
      ∀ a ∈ cpu.vectorAccesses op info, MapsToItself cpu a :=
  forall₂_congr fun _ _ => ⟨Isolated.mapsToItself hp, MapsToItself.isolated hp⟩

end Comparison

/-! ## Two machines -/

/-- A machine with zeroed RAM, its vector unit on and set to one byte element. -/
def vectorCpu (level : PrivilegeLevel) (mode : VirtualMemoryMode) : RVCPU (.ramOnly fun _ => none) :=
  let cpu : RVCPU (.ramOnly fun _ => none) :=
    .reset _ { ram := .new, devices := () } none fun _ => BASE_ADDR
  { cpu with
    csr := { cpu.csr.setValue .mstatus (1 <<< 9) with cpl := level }
    memory := { cpu.memory with pageTable := .new (BASE_ADDR + 0x1000) mode }
    vector := { cpu.vector with config :=
      { VectorConfig.new with vl := 1, vl_le := by decide } } }

/-- `vle8.v`, from the start of RAM. -/
def vle8 : RVInstrInfo := .V 1 0 2 true 0

def byteLoad : ElementAccess (Platform.ramOnly fun _ => none).bus :=
  { width := .u8, addr := BASE_ADDR, store := none, before := { ram := .new, devices := () } }

theorem vectorAccesses_machine :
    (vectorCpu .M .none).vectorAccesses (.unitStrideLoad .E8) vle8 = [byteLoad] := by
  with_unfolding_all rfl

theorem physical_byteLoad :
    byteLoad.physical BASE_ADDR byteLoad.before = .ok (.ok (), byteLoad.before) := by
  with_unfolding_all rfl

theorem vector_isolation_iff_machine :
    byteLoad ∈ (vectorCpu .M .none).vectorAccesses (.unitStrideLoad .E8) vle8 ∧
      Isolated (vectorCpu .M .none) byteLoad := by
  have hmem : byteLoad ∈ (vectorCpu .M .none).vectorAccesses (.unitStrideLoad .E8) vle8 := by
    exact List.mem_singleton_self _
  refine ⟨hmem, (vector_isolation_iff (vectorCpu .M .none) (.unitStrideLoad .E8) vle8 rfl).mpr
    (fun a ha => ?_) byteLoad hmem⟩
  rw [vectorAccesses_machine, List.mem_singleton] at ha
  subst ha
  refine ⟨fun _ _ => by decide +kernel, fun err io h => ?_, fun p paddr io h => ?_⟩
  · cases physical_byteLoad.symm.trans h
  · cases physical_byteLoad.symm.trans h

/-- In user mode under an empty page table the load still reads RAM. -/
theorem vector_load_ignores_pages :
    ¬ ∀ a ∈ (vectorCpu .U .page39bit).vectorAccesses (.unitStrideLoad .E8) vle8,
      Isolated (vectorCpu .U .page39bit) a := by
  intro h
  have hpaddr := (h byteLoad List.mem_cons_self).bytes _ physical_byteLoad
  exact absurd hpaddr (by decide +kernel)

end HereEmu
