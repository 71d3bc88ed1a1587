import HereEmu.Cpu
import HereEmu.Proofs.RefWalk

/-!
# What the page tables let an access do

Five kinds of data access and the fetch go through the same three stages: a
policy is read off the CSR file, the address is translated under it, and the
flags of the leaf decide. `AccessKind.allowed` states the decision in the terms
of the privileged architecture, and the theorem of this file is that the three
stages together take it.
-/

namespace HereEmu

open Lib (Exec)
open Lib.Exec (run_bind_ok run_get run_ofFun)
open PageTableWalker (permits leafPaddr)
open VirtAddrManager RVCPU Mstatus

/-- The translation scheme a MODE field selects. -/
def satpMode (mode : WordType) : Option VirtualMemoryMode :=
  if mode = 0 then some .none
  else if mode = 8 then some .page39bit
  else if mode = 9 then some .page48bit
  else if mode = 10 then some .page57bit
  else none

/-- The walker is set up as `satp` says. -/
def WalkerMatches (csr : CsrRegFile) (w : PageTableWalker) : Prop :=
  satpMode (csr.get .satp Satp.mode) = some w.mode ∧
    w.rootAddress = csr.get .satp Satp.ppn <<< PAGE_SIZE_XLEN

inductive AccessKind where
  | load | lr | store | sc | amo | fetch
  deriving DecidableEq, Repr

/-- The user bit of a page against the privilege of a data access. -/
def userRule (e : PrivilegeLevel) (csr : CsrRegFile) (u : Bool) : Bool :=
  match e with
  | .U => u
  | .S => !u || csr.get .mstatus sum == 1
  | _ => true

namespace AccessKind

variable {P : Platform} (k : AccessKind)

/-- The privilege the access counts as. -/
def effectivePrivilege (csr : CsrRegFile) : PrivilegeLevel :=
  if k ≠ .fetch ∧ csr.cpl = .M ∧ csr.get .mstatus mprv = 1 then
    (PrivilegeLevel.tryFrom (csr.get .mstatus Mstatus.mpp)).getD .M
  else csr.cpl

/-- Whether a leaf with these flags lets the access pass. -/
def allowed (e : PrivilegeLevel) (csr : CsrRegFile) (flags : PTEFlags) : Bool :=
  let r := flags.getLsbD 1
  let w := flags.getLsbD 2
  let x := flags.getLsbD 3
  let u := flags.getLsbD 4
  match k with
  | load | lr => (r || x && csr.get .mstatus mxr == 1) && userRule e csr u
  | store | sc => w && userRule e csr u
  | amo => r && w && userRule e csr u
  | fetch => x && (if e = .U then u else !u)

/-- The data access the policy is asked for. -/
def access : AccessKind → AccessType
  | load | lr | fetch => .read
  | store | sc => .write
  | amo => .readWrite

def pageFault : AccessKind → Exception
  | load | lr => .loadPageFault
  | store | sc | amo => .storePageFault
  | fetch => .instructionPageFault

/-- The access as an instruction makes it. Stores write `data`, an AMO applies
`f`, and a fetch is of two bytes. -/
def perform (w : Width) (va data : WordType) (f : WordType → WordType) : CpuM P WordType :=
  match k with
  | load => read w va
  | lr => loadReserved w va
  | store => do write w va data; return 0
  | sc => do return if ← storeConditional w va data then 0 else 1
  | amo => fetchAndOpAmo w va f
  | fetch => (ifetchHalf va).mapError fun e cpu => (e.cause, cpu)

/-- What is left of the access to `va` once it is known to go to `paddr`. -/
def physical (w : Width) (va paddr data : WordType) (f : WordType → WordType) : CpuM P WordType :=
  match k with
  | load => finishMemoryAccess va .fromMemoryErr (readByPaddr w paddr)
  | lr => finishMemoryAccess va .fromMemoryErr (loadReservedByPaddr w paddr)
  | store => do
    finishMemoryAccess va .fromMemoryErr (writeByPaddr w paddr data)
    return 0
  | sc => do
    return if ← finishMemoryAccess va .fromMemoryErr
      (storeConditionalByPaddr w paddr data) then 0 else 1
  | amo => finishMemoryAccess va id (fetchAndOpAmoByPaddr w paddr f)
  | fetch => .ofFun fun cpu => do
    match ← (readByPaddr .u16 paddr).run cpu.memory with
    | (.ok v, memory) => return (.ok v, { cpu with memory })
    | (.error e, memory) => return (.error (← Exception.fromInstrFetchErr e), { cpu with memory })

end AccessKind

/-! ## Translating under a policy -/

/-- The walk for `va` ends at a leaf that needs nothing set, and the TLB does
not know the page yet. -/
structure ReachesLeaf (w : PageTableWalker) (mem : Ram) (va : WordType) (info : WalkInfo) : Prop where
  mode : w.mode ≠ .none
  canonical : w.isCanonicalVaddr va
  miss : w.tlb.get (vpn va) = none
  walk : w.walkPte mem (vpn va) = .ok (.ok info)
  accessed : info.leafFlags.getLsbD 6
  dirty : info.leafFlags.getLsbD 7

/-- The walker once it has cached the leaf. -/
def PageTableWalker.cache (w : PageTableWalker) (va : WordType) (info : WalkInfo) : PageTableWalker :=
  { w with tlb := w.tlb.put (vpn va) info }

/-- Memory once the walker has cached the leaf. -/
def VirtAddrManager.cache {B : DeviceBus} (m : VirtAddrManager B) (va : WordType) (info : WalkInfo) :
    VirtAddrManager B :=
  { m with pageTable := m.pageTable.cache va info }

section Translate

variable {B : DeviceBus} {m : VirtAddrManager B} {va : WordType} {info : WalkInfo}

theorem needAccessedDirty_of_set (ha : info.leafFlags.getLsbD 6)
    (hd : info.leafFlags.getLsbD 7) (effect : AccessEffect) :
    PageTableWalker.needAccessedDirty info effect = (false, false) := by
  have hcontains : ∀ flags : PTEFlags, flags.getLsbD 6 → flags.getLsbD 7 →
      flags.contains .A ∧ flags.contains .D := by decide +kernel
  obtain ⟨hA, hD⟩ := hcontains _ ha hd
  cases effect <;> simp [PageTableWalker.needAccessedDirty, hA, hD]

theorem translateWithPolicy_leaf (check : PermissionCheck) (effect : AccessEffect)
    (fault : MemError) (h : ReachesLeaf m.pageTable m.mmio.ram va info) :
    (translateWithPolicy va (.translated check effect fault)).run m =
      .ok (if permits check info.leafFlags then .ok (leafPaddr info va) else .error fault,
        m.cache va info) := by
  have htr : m.pageTable.translateVaddr m.mmio.ram va check effect =
      (m.pageTable.cache va info).translateLeaf m.mmio.ram va info check effect := by
    rw [PageTableWalker.translateVaddr_of_miss h.mode h.canonical h.miss, h.walk]
    rfl
  cases hp : permits check info.leafFlags with
  | false =>
    rw [PageTableWalker.translateLeaf_of_not_permits hp] at htr
    simp [translateWithPolicy, translateVaddr, Exec.mapError, htr]
    rfl
  | true =>
    rw [PageTableWalker.translateLeaf_of_no_need hp
      (needAccessedDirty_of_set h.accessed h.dirty effect)] at htr
    simp [translateWithPolicy, translateVaddr, Exec.mapError, htr]
    rfl

end Translate

/-! ## Reading the policy off the CSR file -/

/-- The states of the CSR file in which a data access has a privilege. -/
structure PrivilegeDefined (csr : CsrRegFile) : Prop where
  cpl : csr.cpl ≠ .V
  mpp : csr.get .mstatus Mstatus.mpp ∈ [0, 1, 3]

/-- What the effective privilege makes of SUM. -/
def accessPrivilege (e : PrivilegeLevel) (csr : CsrRegFile) : AccessPrivilege :=
  match e with
  | .U => .userOnly
  | .S => supervisorPrivilege (csr.get .mstatus sum)
  | _ => .machineOnly

section Policy

variable {csr : CsrRegFile} {k : AccessKind}

theorem flag_eq_zero_or_one (csr : CsrRegFile) (r : Csr) {b : Nat} (hb : b < 64) :
    csr.get r ⟨b, 1⟩ = 0 ∨ csr.get r ⟨b, 1⟩ = 1 := by
  unfold CsrRegFile.get
  rw [BitField.get_one hb]
  split
  · exact .inr rfl
  · exact .inl rfl

theorem effectivePrivilege_ne_V (h : PrivilegeDefined csr) : k.effectivePrivilege csr ≠ .V := by
  unfold AccessKind.effectivePrivilege
  split
  · have hmpp := h.mpp
    simp only [List.mem_cons, List.not_mem_nil, or_false] at hmpp
    rcases hmpp with hm | hm | hm <;> rw [hm] <;> decide
  · exact h.cpl

theorem determineDataAccessPrivilege_eq (h : PrivilegeDefined csr) (hk : k ≠ .fetch) :
    determineDataAccessPrivilege csr = .ok (accessPrivilege (k.effectivePrivilege csr) csr) := by
  unfold determineDataAccessPrivilege AccessKind.effectivePrivilege
  cases hc : csr.cpl with
  | U => simp [accessPrivilege]
  | S => simp [accessPrivilege, CsrRegFile.get, Csr.base, Csr.shadowOf]
  | V => exact absurd hc h.cpl
  | M =>
    rcases flag_eq_zero_or_one csr .mstatus (show 17 < 64 by decide) with hm | hm
    · have hz : csr.get .mstatus mprv = 0 := hm
      simp [hz, accessPrivilege]
    · have ho : csr.get .mstatus mprv = 1 := hm
      have hmpp := h.mpp
      simp only [List.mem_cons, List.not_mem_nil, or_false] at hmpp
      rcases hmpp with hp | hp | hp <;>
        simp [ho, hp, hk, PrivilegeLevel.tryFrom, accessPrivilege]

/-- Away from machine mode the policy translates, and its check is the rule. -/
theorem resolveDataPolicy_eq (h : PrivilegeDefined csr) (hk : k ≠ .fetch)
    (he : k.effectivePrivilege csr ≠ .M) :
    ∃ check, resolveDataPolicy csr k.access true =
        .ok (.translated check (k.access.effect true) k.access.fault) ∧
      ∀ flags, permits check flags = k.allowed (k.effectivePrivilege csr) csr flags := by
  have hpriv := determineDataAccessPrivilege_eq h hk
  have hV := effectivePrivilege_ne_V (k := k) h
  generalize k.effectivePrivilege csr = e at he hpriv hV
  have hmxr : csr.get .mstatus mxr = 0 ∨ csr.get .mstatus mxr = 1 :=
    flag_eq_zero_or_one csr .mstatus (show 19 < 64 by decide)
  have hsum : csr.get .mstatus sum = 0 ∨ csr.get .mstatus sum = 1 :=
    flag_eq_zero_or_one csr .mstatus (show 18 < 64 by decide)
  -- what is left depends on the flags only, once MXR, SUM and the privilege are known
  cases e with
  | V => exact absurd rfl hV
  | M => exact absurd rfl he
  | U =>
    unfold resolveDataPolicy
    rw [hpriv]
    rcases hmxr with hx | hx <;> cases k <;>
      simp only [hx, accessPrivilege, AccessPrivilege.userFlags, AccessKind.access, bind,
        Except.bind, AccessKind.allowed, userRule] <;>
      first
      | exact absurd rfl hk
      | (refine ⟨_, rfl, ?_⟩; decide +kernel)
  | S =>
    unfold resolveDataPolicy
    rw [hpriv]
    rcases hmxr with hx | hx <;> rcases hsum with hs | hs <;> cases k <;>
      simp only [hx, hs, accessPrivilege, supervisorPrivilege, AccessPrivilege.userFlags,
        AccessKind.access, bind, Except.bind, AccessKind.allowed, userRule] <;>
      first
      | exact absurd rfl hk
      | (refine ⟨_, rfl, ?_⟩; decide +kernel)

theorem resolveDataPolicy_machine (h : PrivilegeDefined csr) (hk : k ≠ .fetch)
    (he : k.effectivePrivilege csr = .M) : resolveDataPolicy csr k.access true = .ok .direct := by
  have hpriv := determineDataAccessPrivilege_eq h hk
  rw [he] at hpriv
  unfold resolveDataPolicy
  rw [hpriv]
  rfl

theorem resolveIfetchPolicy_eq (h : csr.cpl ≠ .V) (he : csr.cpl ≠ .M) :
    ∃ check, resolveIfetchPolicy csr true = .ok (.translated check .accessed .loadPageFault) ∧
      ∀ flags, permits check flags = AccessKind.fetch.allowed csr.cpl csr flags := by
  unfold resolveIfetchPolicy
  cases hc : csr.cpl with
  | V => exact absurd hc h
  | M => exact absurd hc he
  | U | S =>
    refine ⟨_, rfl, ?_⟩
    simp only [AccessKind.allowed]
    decide +kernel

end Policy

/-! ## The accesses -/

/-- The CPU after a translation cached the leaf of `va`. -/
def RVCPU.cache {P : Platform} (cpu : RVCPU P) (va : WordType) (info : WalkInfo) : RVCPU P :=
  { cpu with memory := cpu.memory.cache va info }

section Accesses

variable {P : Platform} {α ε : Type} {cpu : RVCPU P} {va : WordType} {info : WalkInfo}

variable {memory : VirtAddrManager P.bus}

/-- An access goes on with the address its translation gives, or ends with the
translation's error. -/
theorem finishMemoryAccess_bind {t : Exec PanicSite ε (VirtAddrManager P.bus) WordType}
    {kont : WordType → Exec PanicSite ε (VirtAddrManager P.bus) α} {toException : ε → Exception}
    {r : Except ε WordType} (ht : t.run cpu.memory = .ok (r, memory)) :
    (finishMemoryAccess va toException (t >>= kont)).run cpu =
      match r with
      | .ok pa => (finishMemoryAccess va toException (kont pa)).run { cpu with memory }
      | .error e => .ok (.error (toException e), { cpu with memory, pendingTval := some va }) := by
  unfold finishMemoryAccess
  cases r with
  | ok pa =>
    simp only [run_ofFun, run_bind_ok ht]
  | error e =>
    simp only [run_ofFun, Exec.run_bind_error ht]
    rfl

variable {policy : AccessPolicy}

theorem run_dataPolicy {access : AccessType}
    (h : resolveDataPolicy cpu.csr access true = .ok policy) :
    (dataPolicy access).run cpu = .ok (.ok policy, cpu) := by
  unfold dataPolicy
  rw [run_bind_ok (run_get cpu), h]
  rfl

variable {k : AccessKind}

/-- How an access ends that goes on as `kont` says: at its own address in
machine mode, else at the leaf's if the leaf allows it. -/
def AccessKind.gated (k : AccessKind) (cpu : RVCPU P) (va : WordType) (info : WalkInfo)
    (fault : Exception) (kont : WordType → CpuM P α) : Rust (Except Exception α × RVCPU P) :=
  if k.effectivePrivilege cpu.csr = .M then (kont va).run cpu
  else if k.allowed (k.effectivePrivilege cpu.csr) cpu.csr info.leafFlags then
    (kont (leafPaddr info va)).run (cpu.cache va info)
  else .ok (.error fault, { cpu.cache va info with pendingTval := some va })

section Data

variable {β : Type} (hk : k ≠ .fetch) (hpriv : PrivilegeDefined cpu.csr)
  (hleaf : ReachesLeaf cpu.memory.pageTable cpu.memory.mmio.ram va info)

include hk hpriv hleaf

/-- A data access, from its policy to the physical address it goes on with. -/
theorem dataAccess_eq (toError : MemError → ε) (toException : ε → Exception)
    (kont : WordType → Exec PanicSite ε (VirtAddrManager P.bus) α) (g : α → CpuM P β) :
    ((dataPolicy k.access >>= fun policy => finishMemoryAccess va toException
        ((translateWithPolicy va policy).mapError (fun e m => (toError e, m)) >>=
          kont)) >>= g).run cpu =
      k.gated cpu va info (toException (toError k.access.fault))
        fun paddr => finishMemoryAccess va toException (kont paddr) >>= g := by
  unfold AccessKind.gated
  rw [bind_assoc]
  by_cases he : k.effectivePrivilege cpu.csr = .M
  · have hpol := resolveDataPolicy_machine hpriv hk he
    have ht : ((translateWithPolicy va .direct).mapError
        (fun e m => (toError e, m))).run cpu.memory = .ok (.ok va, cpu.memory) := rfl
    rw [run_bind_ok (run_dataPolicy hpol), if_pos he]
    exact Exec.run_bind_congr g (finishMemoryAccess_bind ht)
  · obtain ⟨check, hpol, hcheck⟩ := resolveDataPolicy_eq hpriv hk he
    rw [run_bind_ok (run_dataPolicy hpol), if_neg he, ← hcheck]
    have ht := translateWithPolicy_leaf check (k.access.effect true) k.access.fault hleaf
    cases hp : permits check info.leafFlags with
    | true =>
      rw [hp] at ht
      exact Exec.run_bind_congr g (finishMemoryAccess_bind (Exec.run_mapError_ok ht))
    | false =>
      rw [hp] at ht
      exact Exec.run_bind_error (finishMemoryAccess_bind (Exec.run_mapError_error ht))

/-- `dataAccess_eq` where the translation's error is the access's own. -/
theorem memAccess_eq (kont : WordType → MemM P.bus α) (g : α → CpuM P β) :
    ((dataPolicy k.access >>= fun policy => finishMemoryAccess va .fromMemoryErr
        (translateWithPolicy va policy >>= kont)) >>= g).run cpu =
      k.gated cpu va info (.fromMemoryErr k.access.fault)
        fun paddr => finishMemoryAccess va .fromMemoryErr (kont paddr) >>= g := by
  have h := dataAccess_eq hk hpriv hleaf id .fromMemoryErr kont g
  simp only [id, Exec.mapError_id] at h
  exact h

end Data

theorem run_readForIfetch {w : Width} (h : resolveIfetchPolicy cpu.csr true = .ok policy) :
    (readForIfetch w va).run cpu =
      ((readWithPolicy w va policy).run cpu.memory).map
        fun out => (out.1, { cpu with memory := out.2 }) := by
  unfold readForIfetch
  rw [run_bind_ok (run_get cpu), h, run_bind_ok (Exec.run_lift_ok policy cpu)]
  rfl

theorem run_readForIfetch_panic {w : Width} {p : PanicSite}
    (h : resolveIfetchPolicy cpu.csr true = .error p) :
    (readForIfetch w va).run cpu = .error p := by
  unfold readForIfetch
  rw [run_bind_ok (run_get cpu), h]
  rfl

/-- The fetch of a half is a read of memory, and leaves the rest alone. -/
theorem ifetchHalf_cases {cpu' : RVCPU P} {r : Except ExceptionInfo WordType}
    (h : (ifetchHalf va).run cpu = .ok (r, cpu')) :
    ∃ policy r', (readWithPolicy .u16 va policy).run cpu.memory =
        .ok (r', cpu'.memory) ∧ cpu' = { cpu with memory := cpu'.memory } := by
  unfold ifetchHalf at h
  rw [run_ofFun] at h
  cases hpol : resolveIfetchPolicy cpu.csr true with
  | error p => rw [run_readForIfetch_panic hpol] at h; cases h
  | ok policy =>
    rw [run_readForIfetch hpol] at h
    obtain ⟨out, hread, h⟩ := Lib.exists_of_bind_ok h
    obtain ⟨⟨r', memory⟩, hr, rfl⟩ := Lib.exists_of_map_ok hread
    cases r' with
    | ok v =>
      cases h
      exact ⟨policy, _, hr, rfl⟩
    | error e =>
      obtain ⟨cause, -, h⟩ := Lib.exists_of_bind_ok h
      cases h
      exact ⟨policy, _, hr, rfl⟩

/-- A fetch whose address translates is the physical one at the address it
translates to. -/
theorem ifetch_of_translation {pa : WordType} (w : Width) (data : WordType)
    (f : WordType → WordType) (hpol : resolveIfetchPolicy cpu.csr true = .ok policy)
    (ht : (translateWithPolicy va policy).run cpu.memory = .ok (.ok pa, memory)) :
    (AccessKind.fetch.perform w va data f).run cpu =
      (AccessKind.fetch.physical w va pa data f).run { cpu with memory } := by
  have hread : (readWithPolicy .u16 va policy).run cpu.memory =
      (readByPaddr .u16 pa).run memory := run_bind_ok ht
  simp only [AccessKind.perform, AccessKind.physical, ifetchHalf, Exec.mapError,
    run_ofFun, run_readForIfetch hpol, hread]
  rcases (readByPaddr .u16 pa).run memory with p | ⟨e | v, m'⟩
  · rfl
  · cases e <;> rfl
  · rfl

theorem ifetch_eq (hcpl : cpu.csr.cpl ≠ .V)
    (hleaf : ReachesLeaf cpu.memory.pageTable cpu.memory.mmio.ram va info) (w : Width)
    (data : WordType) (f : WordType → WordType) :
    (AccessKind.fetch.perform w va data f).run cpu =
      if cpu.csr.cpl = .M then (AccessKind.fetch.physical w va va data f).run cpu
      else if AccessKind.fetch.allowed cpu.csr.cpl cpu.csr info.leafFlags then
        (AccessKind.fetch.physical w va (leafPaddr info va) data f).run (cpu.cache va info)
      else .ok (.error .instructionPageFault, cpu.cache va info) := by
  by_cases he : cpu.csr.cpl = .M
  · have hpol : resolveIfetchPolicy cpu.csr true = .ok .direct := by
      unfold resolveIfetchPolicy
      rw [he]
    rw [if_pos he, ifetch_of_translation w data f hpol rfl]
  · obtain ⟨check, hpol, hcheck⟩ := resolveIfetchPolicy_eq hcpl he
    rw [if_neg he, ← hcheck]
    have ht := translateWithPolicy_leaf check .accessed .loadPageFault hleaf
    cases hp : permits check info.leafFlags with
    | true =>
      rw [hp] at ht
      rw [ifetch_of_translation w data f hpol ht]
      rfl
    | false =>
      rw [hp] at ht
      have hread : (readWithPolicy .u16 va _).run cpu.memory = _ :=
        Exec.run_bind_error ht
      simp only [AccessKind.perform, ifetchHalf, Exec.mapError, run_ofFun,
        run_readForIfetch hpol, hread]
      rfl

end Accesses

/-- What a scalar access does at a page, for every kind of access and every
privilege. -/
theorem scalar_access_permission {P : Platform} (cpu : RVCPU P) (k : AccessKind) (w : Width)
    (va data : WordType) (f : WordType → WordType) (info : WalkInfo)
    (hpriv : PrivilegeDefined cpu.csr)
    (hsatp : cpu.csr.get .satp Satp.mode ∈ [8, 9, 10])
    (hwalker : WalkerMatches cpu.csr cpu.memory.pageTable)
    (htlb : ∀ a, cpu.memory.pageTable.tlb.get a = none)
    (halign : checkAlign w va)
    (hcanon : cpu.memory.pageTable.isCanonicalVaddr va)
    (hwalk : cpu.memory.pageTable.walkPte cpu.memory.mmio.ram (vpn va) = .ok (.ok info))
    (ha : info.leafFlags.getLsbD 6) (hd : info.leafFlags.getLsbD 7) :
    (k.perform w va data f).run cpu =
      if k.effectivePrivilege cpu.csr = .M then (k.physical w va va data f).run cpu
      else if k.allowed (k.effectivePrivilege cpu.csr) cpu.csr info.leafFlags then
        (k.physical w va (leafPaddr info va) data f).run (cpu.cache va info)
      else .ok (.error k.pageFault, { cpu.cache va info with
        pendingTval := if k = .fetch then cpu.pendingTval else some va }) := by
  have hmode : cpu.memory.pageTable.mode ≠ .none := by
    intro hnone
    have hm := hwalker.1
    rw [hnone] at hm
    simp only [List.mem_cons, List.not_mem_nil, or_false] at hsatp
    rcases hsatp with h | h | h <;> rw [h] at hm <;> exact absurd hm (by decide)
  have hleaf : ReachesLeaf cpu.memory.pageTable cpu.memory.mmio.ram va info :=
    ⟨hmode, hcanon, htlb _, hwalk, ha, hd⟩
  cases k with
  | load =>
    have h := memAccess_eq (k := .load) (by decide) hpriv hleaf (readByPaddr w) pure
    simp only [bind_pure] at h
    exact h
  | lr =>
    have h := memAccess_eq (k := .lr) (by decide) hpriv hleaf
      (loadReservedByPaddr w) pure
    simp only [bind_pure] at h
    simp only [AccessKind.perform, loadReserved, loadReservedWithPolicy, halign]
    exact h
  | store => exact memAccess_eq (k := .store) (by decide) hpriv hleaf _ _
  | sc =>
    simp only [AccessKind.perform, storeConditional, storeConditionalWithPolicy, halign]
    exact memAccess_eq (k := .sc) (by decide) hpriv hleaf _ _
  | amo =>
    have h := dataAccess_eq (k := .amo) (by decide) hpriv hleaf (fun _ => .storePageFault) id
      (fun paddr => fetchAndOpAmoByPaddr w paddr f) pure
    simp only [bind_pure] at h
    exact h
  | fetch => exact ifetch_eq hpriv.cpl hleaf w data f

/-- A hart in supervisor mode, translating through the table of `gigapageRam`. -/
def gigapageCpu : RVCPU (.ramOnly fun _ => none) :=
  let cpu := reset (.ramOnly fun _ => none) ⟨gigapageRam, ()⟩ none fun _ => 0
  { cpu with
    csr := { cpu.csr.setValue .satp 0x8000000000080001 with cpl := .S }
    memory := { cpu.memory with pageTable := .new 0x80001000 .page39bit } }

/-- The gigapage is readable and not the user's, so a supervisor load passes. -/
theorem scalar_access_permission_gigapage :
    AccessKind.load.allowed .S gigapageCpu.csr 0xcf ∧
    (AccessKind.load.perform .u64 0x80000120 0 id).run gigapageCpu =
      (AccessKind.load.physical .u64 0x80000120 0x80000120 0 id).run
        (gigapageCpu.cache 0x80000120 ⟨2, 0xcf, 0x80001010, 0x80000000⟩) := by
  refine ⟨by decide +kernel, ?_⟩
  have h := scalar_access_permission gigapageCpu .load .u64 0x80000120 0 id
    ⟨2, 0xcf, 0x80001010, 0x80000000⟩ ⟨by decide, by decide +kernel⟩ (by decide +kernel)
    ⟨by decide +kernel, by decide +kernel⟩ (fun _ => DirectCache.get_new_none) (by decide +kernel)
    (by decide +kernel) (by decide +kernel) rfl rfl
  have hpa : leafPaddr ⟨2, 0xcf, 0x80001010, 0x80000000⟩ 0x80000120 = 0x80000120 := by
    decide +kernel
  rw [if_neg (by decide +kernel), if_pos (by decide +kernel), hpa] at h
  exact h

end HereEmu
