import HereEmu.Proofs.Access

/-!
# Accesses with translation off

With `satp.MODE` Bare an access of S or U is not translated, and neither is
one of M. They are still not the same access: the translated path makes a
physical address of the virtual one, which keeps 56 bits of it, and the
direct path uses the address as it is. So they agree below `2 ^ 56`, and above
only where the truncated address is refused as the whole one is.
-/

namespace HereEmu

open Lib (Exec)
open Lib.Exec (run_bind_ok run_ofFun)
open VirtAddrManager MemoryMapIo AccessKind

namespace AccessKind

variable {P : Platform} {B : DeviceBus}

/-- What the access to `va` does to the physical address space, once it is
known to go to `paddr`. -/
def onBus (k : AccessKind) (w : Width) (va paddr data : WordType) (f : WordType → WordType)
    (io : MemoryMapIo B) : Rust (Except Exception WordType × MemoryMapIo B) :=
  match k with
  | load => do
    let (r, io) ← io.readByType w paddr
    return (r.mapError .fromMemoryErr, io)
  | lr =>
    if !checkAlign w va then return (.error .loadMisaligned, io)
    else
      let (r, io) := io.loadReserved w paddr
      return (r.mapError .fromMemoryErr, io)
  | store => do
    let (r, io) ← io.writeByType w paddr data
    return ((r.map fun _ => 0).mapError .fromMemoryErr, io)
  | sc =>
    if !checkAlign w va then return (.error .storeMisaligned, io.clearReservation)
    else
      let (r, io) := io.storeConditional w paddr data
      return ((r.map fun done => if done then 0 else 1).mapError .fromMemoryErr,
        io.clearReservation)
  | amo =>
    if !checkAlign w paddr then return (.error .storeMisaligned, io)
    else if !inRam paddr then return (.error .storeFault, io)
    else
      let (old, ram) := amoOnRam w f io.ram (paddr - BASE_ADDR)
      return (.ok old, { io with ram })
  | fetch => do
    match ← io.readByType .u16 paddr with
    | (.ok v, io) => return (.ok v, io)
    | (.error e, io) => return (.error (← Exception.fromInstrFetchErr e), io)

end AccessKind

/-- The outcome of an access: its value or exception, and what became of RAM
and the devices. -/
def busOutcome {P : Platform} (out : Rust (Except Exception WordType × RVCPU P)) :
    Rust (Except Exception WordType × MemoryMapIo P.bus) :=
  out.map fun (r, cpu) => (r, cpu.memory.mmio)

section Outcome

variable {P : Platform} {cpu : RVCPU P} {w : Width} {va paddr data : WordType}
  {f : WordType → WordType}

/-- The address goes to `paddr`, and finding that out changes nothing. -/
structure GoesTo (cpu : RVCPU P) (k : AccessKind) (va paddr : WordType) : Prop where
  data : k ≠ .fetch → ∃ policy, resolveDataPolicy cpu.csr k.access true = .ok policy ∧
    (translateWithPolicy va policy).run cpu.memory = .ok (.ok paddr, cpu.memory)
  fetch : k = .fetch → ∃ policy, resolveIfetchPolicy cpu.csr true = .ok policy ∧
    (translateWithPolicy va policy).run cpu.memory = .ok (.ok paddr, cpu.memory)

/-- What finishing an access leaves of its outcome. -/
theorem busOutcome_finish {α ε : Type} {toException : ε → Exception}
    {m : Exec PanicSite ε (VirtAddrManager P.bus) α} {g : α → WordType} :
    busOutcome ((RVCPU.finishMemoryAccess va toException m >>= fun a => pure (g a)).run cpu) =
      (m.run cpu.memory).map fun (r, memory) => ((r.map g).mapError toException, memory.mmio) := by
  unfold RVCPU.finishMemoryAccess
  rw [Exec.run_bind, Exec.run_ofFun]
  rcases m.run cpu.memory with p | ⟨e | a, memory⟩ <;> rfl

theorem busOutcome_finish_id {ε : Type} {toException : ε → Exception}
    {m : Exec PanicSite ε (VirtAddrManager P.bus) WordType} :
    busOutcome ((RVCPU.finishMemoryAccess va toException m).run cpu) =
      (m.run cpu.memory).map fun (r, memory) => (r.mapError toException, memory.mmio) := by
  have h : busOutcome ((RVCPU.finishMemoryAccess va toException m >>= pure).run cpu) = _ :=
    busOutcome_finish (g := id)
  rw [bind_pure] at h
  rw [h]
  cases m.run cpu.memory with
  | error p => rfl
  | ok out => obtain ⟨_ | _, memory⟩ := out <;> rfl

variable {k : AccessKind}

/-- An access acts on the bus at the address it goes to. -/
theorem busOutcome_perform (h : GoesTo cpu k va paddr) :
    busOutcome ((k.perform w va data f).run cpu) = k.onBus w va paddr data f cpu.memory.mmio := by
  cases k with
  | load =>
    obtain ⟨policy, hpol, ht⟩ := h.data (by decide)
    change resolveDataPolicy cpu.csr .read true = _ at hpol
    simp only [perform, RVCPU.read]
    rw [run_bind_ok (run_dataPolicy hpol), busOutcome_finish_id]
    simp only [readWithPolicy]
    rw [run_bind_ok ht]
    simp only [readByPaddr, onMmio, run_ofFun, AccessKind.onBus]
    cases cpu.memory.mmio.readByType w paddr <;> rfl
  | lr =>
    obtain ⟨policy, hpol, ht⟩ := h.data (by decide)
    change resolveDataPolicy cpu.csr .read true = _ at hpol
    simp only [perform, RVCPU.loadReserved]
    rw [run_bind_ok (run_dataPolicy hpol), busOutcome_finish_id]
    simp only [loadReservedWithPolicy, AccessKind.onBus]
    cases checkAlign w va with
    | false => rfl
    | true =>
      show ((translateWithPolicy va policy >>= _).run _).map _ = _
      rw [run_bind_ok ht]
      rfl
  | store =>
    obtain ⟨policy, hpol, ht⟩ := h.data (by decide)
    change resolveDataPolicy cpu.csr .write true = _ at hpol
    simp only [perform, RVCPU.write]
    rw [bind_assoc, run_bind_ok (run_dataPolicy hpol), busOutcome_finish]
    simp only [writeWithPolicy]
    rw [run_bind_ok ht]
    simp only [writeByPaddr, onMmio, run_ofFun, AccessKind.onBus]
    cases cpu.memory.mmio.writeByType w paddr data <;> rfl
  | sc =>
    obtain ⟨policy, hpol, ht⟩ := h.data (by decide)
    change resolveDataPolicy cpu.csr .write true = _ at hpol
    simp only [perform, RVCPU.storeConditional]
    rw [bind_assoc, run_bind_ok (run_dataPolicy hpol), busOutcome_finish]
    simp only [storeConditionalWithPolicy, AccessKind.onBus]
    cases checkAlign w va with
    | false => rfl
    | true =>
      show ((translateWithPolicy va policy >>= _).run _).map _ = _
      rw [run_bind_ok ht]
      rfl
  | amo =>
    obtain ⟨policy, hpol, ht⟩ := h.data (by decide)
    change resolveDataPolicy cpu.csr .readWrite true = _ at hpol
    simp only [perform, RVCPU.fetchAndOpAmo]
    rw [run_bind_ok (run_dataPolicy hpol), busOutcome_finish_id]
    simp only [fetchAndOpAmoWithPolicy]
    rw [run_bind_ok (Exec.run_mapError_ok ht)]
    simp only [fetchAndOpAmoByPaddr, AccessKind.onBus]
    cases checkAlign w paddr <;> cases inRam paddr <;> rfl
  | fetch =>
    obtain ⟨policy, hpol, ht⟩ := h.fetch rfl
    rw [ifetch_of_translation w data f hpol ht]
    simp only [physical, run_ofFun, readByPaddr, onMmio, AccessKind.onBus]
    rcases cpu.memory.mmio.readByType .u16 paddr with p | ⟨e | v, io⟩
    · rfl
    · cases e <;> rfl
    · rfl

/-- In M with MPRV clear, an access goes to the address it names. -/
theorem goesTo_machine (hcpl : cpu.csr.cpl = .M) (hmprv : cpu.csr.get .mstatus Mstatus.mprv = 0) :
    GoesTo cpu k va va where
  data := fun _ => ⟨.direct, by
    simp [resolveDataPolicy, determineDataAccessPrivilege, hcpl, hmprv, AccessPrivilege.userFlags,
      bind, Except.bind, pure, Except.pure], rfl⟩
  fetch := fun _ => ⟨.direct, by simp [resolveIfetchPolicy, hcpl], rfl⟩

theorem busOutcome_machine {csr : CsrRegFile} (hcpl : csr.cpl = .M)
    (hmprv : csr.get .mstatus Mstatus.mprv = 0) :
    busOutcome ((k.perform w va data f).run { cpu with csr }) =
      k.onBus w va va data f cpu.memory.mmio := by
  have hgoes : GoesTo { cpu with csr } k va va := goesTo_machine hcpl hmprv
  exact busOutcome_perform hgoes

/-- Below M every access asks for a translation. -/
theorem resolveDataPolicy_below {csr : CsrRegFile} (hcpl : csr.cpl = .S ∨ csr.cpl = .U)
    (access : AccessType) : ∃ check effect fault,
      resolveDataPolicy csr access true = .ok (.translated check effect fault) := by
  have hsup : ∀ sum, ∃ flags, (supervisorPrivilege sum).userFlags = some flags := by
    intro sum
    unfold supervisorPrivilege
    split <;> exact ⟨_, rfl⟩
  have hflags : ∃ priv flags, determineDataAccessPrivilege csr = .ok priv ∧
      priv.userFlags = some flags := by
    unfold determineDataAccessPrivilege
    rcases hcpl with hc | hc
    · rw [hc]
      exact ⟨_, _, rfl, (hsup _).choose_spec⟩
    · rw [hc]
      exact ⟨_, _, rfl, rfl⟩
  obtain ⟨priv, flags, hpriv, hf⟩ := hflags
  unfold resolveDataPolicy
  simp only [hpriv, hf, bind, Except.bind]
  split <;> exact ⟨_, _, _, rfl⟩

/-- With translation off, one of S or U goes to the physical address made of it. -/
theorem goesTo_bare (hcpl : cpu.csr.cpl = .S ∨ cpu.csr.cpl = .U)
    (hmode : cpu.memory.pageTable.mode = .none) : GoesTo cpu k va (physicalAddr va) := by
  have htr : ∀ check effect fault,
      (translateWithPolicy va (.translated check effect fault)).run cpu.memory =
        .ok (.ok (physicalAddr va), cpu.memory) := by
    intro check effect fault
    have hvaddr : (translateVaddr va check effect).run cpu.memory =
        .ok (.ok (physicalAddr va), cpu.memory) := by
      unfold translateVaddr
      rw [run_ofFun, PageTableWalker.translateVaddr_of_bare hmode]
      rfl
    simp only [translateWithPolicy]
    exact Exec.run_mapError_ok hvaddr
  constructor
  · intro _
    obtain ⟨check, effect, fault, hpol⟩ := resolveDataPolicy_below hcpl k.access
    exact ⟨_, hpol, htr check effect fault⟩
  · intro _
    have hne : cpu.csr.cpl ≠ .V ∧ cpu.csr.cpl ≠ .M := by
      rcases hcpl with hc | hc <;> rw [hc] <;> decide
    obtain ⟨check, hpol, -⟩ := resolveIfetchPolicy_eq hne.1 hne.2
    exact ⟨_, hpol, htr check _ _⟩

end Outcome

/-! ## Where the two addresses are answered alike -/

section Wide

variable {P : Platform} {B : DeviceBus} {io : MemoryMapIo B} {w : Width} {a data : WordType}

theorem toNat_physicalAddr (a : WordType) : (physicalAddr a).toNat = a.toNat % 2 ^ 56 := by
  unfold physicalAddr
  exact Nat.and_two_pow_sub_one_eq_mod a.toNat 56

theorem physicalAddr_of_lt (h : a.toNat < 2 ^ 56) : physicalAddr a = a :=
  BitVec.eq_of_toNat_eq (by rw [toNat_physicalAddr, Nat.mod_eq_of_lt h])

/-- Truncating keeps the alignment. -/
theorem checkAlign_physicalAddr : checkAlign w (physicalAddr a) = checkAlign w a := by
  unfold checkAlign
  rw [toNat_physicalAddr]
  cases w <;> simp only [Width.bytes] <;> congr 1 <;> omega

/-- Above the physical addresses there is only the address of RAM, and RAM has
ended. -/
theorem offset_of_wide (h : 2 ^ 56 ≤ a.toNat) : BASE_ADDR ≤ a ∧ SIZE ≤ (a - BASE_ADDR).toNat := by
  have hbase : BASE_ADDR.toNat = 0x80000000 := rfl
  have hle : BASE_ADDR ≤ a := BitVec.le_def.mpr (by omega)
  refine ⟨hle, ?_⟩
  rw [BitVec.toNat_sub_of_le hle, hbase]
  unfold SIZE
  omega

theorem inRam_of_wide (h : 2 ^ 56 ≤ a.toNat) : inRam a = false := by
  have hbase : BASE_ADDR.toNat = 0x80000000 := rfl
  unfold inRam SIZE
  rw [hbase, Bool.and_eq_false_iff]
  exact .inr (decide_eq_false (by omega))

/-- Nothing answers an access at `p`: RAM has ended, there is no device, or
the device there refuses it. -/
structure Unanswered (B : DeviceBus) (w : Width) (p : WordType) (refuses : MemoryMapItem → Prop) :
    Prop where
  ram : BASE_ADDR ≤ p → SIZE < (p - BASE_ADDR).toNat + w.bytes
  device : ¬ BASE_ADDR ≤ p → ∀ item, B.deviceAt p = some item →
    checkAlign w p ∧ (item.canAccess w p → refuses item)

/-- The device refuses the read, and is as before. -/
def RefusesRead (io : MemoryMapIo B) (w : Width) (p : WordType) (item : MemoryMapItem) : Prop :=
  B.read item.device (p - item.start) w.bytes io.devices = some (.error .fault, io.devices)

/-- The device refuses the write, and it and RAM are as before. -/
def RefusesWrite (io : MemoryMapIo B) (w : Width) (p data : WordType) (item : MemoryMapItem) :
    Prop :=
  B.write item.device (p - item.start) w.bytes (w.truncate data) io.devices io.ram.data =
    some (.error .fault, io.devices, io.ram.data)

variable {p : WordType}

theorem unanswered_iff {β : Type} {x y v : β} {z : MemoryMapItem → β}
    {refuses : MemoryMapItem → Prop} (hx : x = v ↔ SIZE < (p - BASE_ADDR).toNat + w.bytes)
    (hy : y = v)
    (hz : ∀ item, z item = v ↔ checkAlign w p ∧ (item.canAccess w p → refuses item)) :
    (if BASE_ADDR ≤ p then x
      else match B.deviceAt p with
        | none => y
        | some item => z item) = v ↔ Unanswered B w p refuses := by
  by_cases hle : BASE_ADDR ≤ p
  · rw [if_pos hle, hx]
    exact ⟨fun h => ⟨fun _ => h, fun hn => absurd hle hn⟩, fun h => h.ram hle⟩
  · rw [if_neg hle]
    cases hd : B.deviceAt p with
    | none =>
      refine ⟨fun _ => ⟨fun h => absurd h hle, fun _ item hitem => ?_⟩, fun _ => hy⟩
      rw [hd] at hitem
      cases hitem
    | some item =>
      refine (hz item).trans ⟨fun h => ⟨fun h' => absurd h' hle, fun _ item' hitem => ?_⟩,
        fun h => h.device hle item hd⟩
      rw [hd] at hitem
      cases hitem
      exact h

theorem Ram.read_fault_iff (ram : Ram) {addr : WordType} :
    ram.read w addr = .error .loadFault ↔ SIZE < addr.toNat + w.bytes := by
  unfold Ram.read Ram.containsAccess
  grind

theorem Ram.write_fault_iff (ram : Ram) (data : WordType) {addr : WordType} :
    ram.write w addr data = (.error .storeFault, ram) ↔ SIZE < addr.toNat + w.bytes := by
  unfold Ram.write Ram.containsAccess
  grind

theorem readByType_fault_iff :
    io.readByType w p = .ok (.error .loadFault, io) ↔ Unanswered B w p (RefusesRead io w p) := by
  refine unanswered_iff ?_ rfl fun item => ?_
  · rw [← Ram.read_fault_iff io.ram]
    exact ⟨fun h => congrArg Prod.fst (Except.ok.inj h), fun h => by rw [h]⟩
  · unfold readFromDevice RefusesRead
    cases checkAlign w p with
    | false => simp
    | true =>
      cases item.canAccess w p with
      | false => simp
      | true =>
        simp only [Bool.not_true, Bool.false_eq_true, if_false, true_and, true_imp_iff]
        rcases B.read item.device (p - item.start) w.bytes io.devices with
          _ | ⟨(_ | _) | _, devices⟩
        · simp
        · obtain ⟨ram, devices'⟩ := io
          exact ⟨fun h => by cases h; rfl, fun h => by cases h; rfl⟩
        · simp [DeviceError.toLoad]
        · simp

theorem writeByType_fault_iff : io.writeByType w p data = .ok (.error .storeFault, io) ↔
      Unanswered B w p (RefusesWrite io w p data) := by
  refine unanswered_iff ?_ rfl fun item => ?_
  · rw [← Ram.write_fault_iff io.ram data]
    constructor
    · intro h
      have h' : ((io.ram.write w (p - BASE_ADDR) data).1,
          { io with ram := (io.ram.write w (p - BASE_ADDR) data).2 }) =
            (Except.error MemError.storeFault, io) := Except.ok.inj h
      exact Prod.ext (Prod.mk.inj h').1 (congrArg MemoryMapIo.ram (Prod.mk.inj h').2)
    · intro h
      rw [h]
  · unfold writeToDevice RefusesWrite
    cases checkAlign w p with
    | false => simp
    | true =>
      cases item.canAccess w p with
      | false => simp
      | true =>
        simp only [Bool.not_true, Bool.false_eq_true, if_false, true_and, true_imp_iff]
        rcases B.write item.device (p - item.start) w.bytes (w.truncate data) io.devices
          io.ram.data with _ | ⟨(_ | _) | _, devices, bytes⟩
        · simp
        · obtain ⟨⟨bytes', reserved⟩, devices'⟩ := io
          exact ⟨fun h => by cases h; rfl, fun h => by cases h; rfl⟩
        · simp [DeviceError.toStore]
        · simp

/-- RAM answers every aligned access that begins in it. -/
theorem fits_of_inRam (hp : inRam p) (ha : checkAlign w p) :
    (p - BASE_ADDR).toNat + w.bytes ≤ SIZE ∧ (p - BASE_ADDR).toNat % w.bytes = 0 := by
  have hbase : BASE_ADDR.toNat = 0x80000000 := rfl
  unfold inRam SIZE at hp
  rw [Bool.and_eq_true, decide_eq_true_eq, decide_eq_true_eq, hbase] at hp
  unfold checkAlign at ha
  rw [beq_iff_eq] at ha
  rw [BitVec.toNat_sub_of_le hp.1, hbase]
  unfold SIZE
  cases w <;> simp only [Width.bytes] at ha ⊢ <;> omega

/-- An aligned SC in RAM is answered, whether it stores or not. -/
theorem storeConditional_ok (ram : Ram) (data : WordType) (hp : inRam p)
    (ha : checkAlign w p) : ∃ done, (ram.storeConditional w (p - BASE_ADDR) data).1 = .ok done := by
  obtain ⟨hfits, hmod⟩ := fits_of_inRam hp ha
  have hlt : ¬ (p - BASE_ADDR).toNat ≥ SIZE := by
    have := w.bytes_pos
    generalize (p - BASE_ADDR).toNat = n at *
    omega
  have hwrite : (ram.write w (p - BASE_ADDR) data).1 = .ok () := by
    generalize p - BASE_ADDR = offset at *
    simp [Ram.write, Ram.containsAccess, checkAlign, hfits, hmod]
  unfold Ram.storeConditional
  rw [if_neg hlt]
  split
  · rcases hw : ram.write w (p - BASE_ADDR) data with ⟨r, ram'⟩
    rw [hw] at hwrite
    cases hwrite
    exact ⟨true, rfl⟩
  · exact ⟨false, rfl⟩

/-- Nothing answers above the physical addresses. -/
theorem Unanswered.of_wide {refuses : MemoryMapItem → Prop} (h : 2 ^ 56 ≤ a.toNat) :
    Unanswered B w a refuses := by
  obtain ⟨hle, hsize⟩ := offset_of_wide h
  exact ⟨fun _ => Nat.lt_of_le_of_lt hsize (Nat.lt_add_of_pos_right w.bytes_pos), fun hn => absurd hle hn⟩

/-- Nothing backs the truncated address of `a` either. -/
def AccessKind.Unbacked (k : AccessKind) (w : Width) (a data : WordType) (io : MemoryMapIo B) :
    Prop :=
  match k with
  | .load => Unanswered B w (physicalAddr a) (RefusesRead io w (physicalAddr a))
  | .fetch => Unanswered B .u16 (physicalAddr a) (RefusesRead io .u16 (physicalAddr a))
  | .store => Unanswered B w (physicalAddr a) (RefusesWrite io w (physicalAddr a) data)
  | .lr | .sc | .amo => checkAlign w a → inRam (physicalAddr a) = false

variable {f : WordType → WordType}

/-- Two accesses end alike, one of them in a fault, just when the bus faults
for both. -/
theorem bind_eq_fault_iff {α : Type} {fault : MemError}
    {x : Rust (Except MemError α × MemoryMapIo B)}
    {g : Except MemError α × MemoryMapIo B → Rust (Except Exception WordType × MemoryMapIo B)}
    {out : Except Exception WordType × MemoryMapIo B} (hok : g (.error fault, io) = .ok out)
    (hg : ∀ r io', g (r, io') = g (.error fault, io) → r = .error fault ∧ io' = io) :
    x >>= g = g (.error fault, io) ↔ x = .ok (.error fault, io) := by
  rcases x with e | ⟨r, io'⟩
  · rw [hok]
    exact ⟨nofun, nofun⟩
  · constructor
    · intro h
      obtain ⟨rfl, rfl⟩ := hg r io' h
      rfl
    · intro h
      cases h
      rfl

/-- Above the physical addresses M gets a fault, so S and U have to as well. -/
theorem onBus_wide_iff {k : AccessKind} (h : 2 ^ 56 ≤ a.toNat) :
    k.onBus w a (physicalAddr a) data f io = k.onBus w a a data f io ↔ k.Unbacked w a data io := by
  have hinside := inRam_of_wide h
  cases k with
  | load | fetch =>
    simp only [AccessKind.onBus, readByType_fault_iff.mpr (Unanswered.of_wide h)]
    refine (bind_eq_fault_iff rfl fun r io' h' => ?_).trans readByType_fault_iff
    rcases r with e | v
    · cases e <;> cases h'
      exact ⟨rfl, rfl⟩
    · cases h'
  | store =>
    simp only [AccessKind.onBus, writeByType_fault_iff.mpr (Unanswered.of_wide h)]
    refine (bind_eq_fault_iff rfl fun r io' h' => ?_).trans writeByType_fault_iff
    rcases r with e | v
    · cases e <;> cases h'
      exact ⟨rfl, rfl⟩
    · cases h'
  | lr =>
    simp only [AccessKind.onBus, Unbacked, loadReserved, hinside]
    cases ha : checkAlign w a with
    | false => simp
    | true =>
      cases hp : inRam (physicalAddr a) with
      | false => simp
      | true =>
        obtain ⟨hfits, hmod⟩ := fits_of_inRam hp (checkAlign_physicalAddr.trans ha)
        simp only [Ram.loadReserved, Ram.read_of_mem _ _ _ hfits hmod]
        exact ⟨nofun, nofun⟩
  | sc =>
    simp only [AccessKind.onBus, Unbacked, storeConditional, hinside]
    cases ha : checkAlign w a with
    | false => simp
    | true =>
      cases hp : inRam (physicalAddr a) with
      | false => simp
      | true =>
        obtain ⟨done, hdone⟩ := storeConditional_ok io.ram data hp
          (checkAlign_physicalAddr.trans ha)
        refine ⟨fun h' => ?_, nofun⟩
        have hfst := congrArg Prod.fst (Except.ok.inj h')
        simp only [hdone] at hfst
        cases hfst
  | amo =>
    simp only [AccessKind.onBus, Unbacked, hinside, checkAlign_physicalAddr]
    cases checkAlign w a with
    | false => simp
    | true =>
      cases inRam (physicalAddr a) with
      | false => simp
      | true => exact ⟨nofun, nofun⟩

end Wide

/-- The access is the one M makes at the same address, with MPRV clear. -/
def SameAsMachine {P : Platform} (cpu : RVCPU P) (k : AccessKind) (w : Width) (a data : WordType)
    (f : WordType → WordType) : Prop :=
  ∀ csr : CsrRegFile, csr.cpl = .M → csr.get .mstatus Mstatus.mprv = 0 →
    busOutcome ((k.perform w a data f).run cpu) =
      busOutcome ((k.perform w a data f).run { cpu with csr })

/-- With translation off, an access of S or U is the one M makes just when the
address is a physical one, or nothing backs the one that is left of it. -/
theorem bare_access_same_iff {P : Platform} (cpu : RVCPU P) (k : AccessKind) (w : Width)
    (a data : WordType) (f : WordType → WordType) (hcpl : cpu.csr.cpl = .S ∨ cpu.csr.cpl = .U)
    (hsatp : cpu.csr.get .satp Satp.mode = 0)
    (hwalker : WalkerMatches cpu.csr cpu.memory.pageTable) :
    SameAsMachine cpu k w a data f ↔ a.toNat < 2 ^ 56 ∨ k.Unbacked w a data cpu.memory.mmio := by
  have hmode : cpu.memory.pageTable.mode = .none := by
    have hm := hwalker.1
    rw [hsatp] at hm
    exact (Option.some.inj hm).symm
  have hmachine : SameAsMachine cpu k w a data f ↔
      k.onBus w a (physicalAddr a) data f cpu.memory.mmio =
        k.onBus w a a data f cpu.memory.mmio := by
    unfold SameAsMachine
    rw [busOutcome_perform (goesTo_bare hcpl hmode)]
    constructor
    · intro h
      have hmprv : CsrRegFile.new.get .mstatus Mstatus.mprv = 0 := by decide +kernel
      exact (h .new rfl hmprv).trans (busOutcome_machine rfl hmprv)
    · intro h csr hM hmprv
      exact h.trans (busOutcome_machine hM hmprv).symm
  rw [hmachine]
  by_cases ha : a.toNat < 2 ^ 56
  · rw [physicalAddr_of_lt ha]
    exact ⟨fun _ => .inl ha, fun _ => rfl⟩
  · rw [onBus_wide_iff (Nat.not_lt.mp ha)]
    exact ⟨.inr, fun h => h.resolve_left ha⟩

/-- A hart in supervisor mode with translation off. -/
def bareSupervisorCpu : RVCPU (.ramOnly fun _ => none) :=
  let cpu := RVCPU.reset (.ramOnly fun _ => none) ⟨.new, ()⟩ none fun _ => 0
  { cpu with csr := { cpu.csr with cpl := .S } }

theorem bare_access_same_base : SameAsMachine bareSupervisorCpu .store .u64 0x80000000 7 id :=
  (bare_access_same_iff bareSupervisorCpu .store .u64 0x80000000 7 id (.inl rfl) (by decide +kernel)
    ⟨by decide +kernel, by decide +kernel⟩).mpr (.inl (by decide))

/-- Above `2 ^ 56` S reads RAM where M gets a fault. -/
theorem bare_access_wraps :
    bareSupervisorCpu.csr.get .satp Satp.mode = 0 ∧
    WalkerMatches bareSupervisorCpu.csr bareSupervisorCpu.memory.pageTable ∧
    ¬ SameAsMachine bareSupervisorCpu .load .u64 0x100000080000000 0 id := by
  refine ⟨by decide +kernel, ⟨by decide +kernel, by decide +kernel⟩, fun h => ?_⟩
  have hresult := congrArg (fun out => out.toOption.map Prod.fst)
    (h .new rfl (by decide +kernel))
  exact absurd hresult (by decide +kernel)

end HereEmu
