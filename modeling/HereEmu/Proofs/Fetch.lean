import HereEmu.Executor
import HereEmu.Proofs.Access
import HereEmu.Proofs.MemEffect

/-!
# What a fetch depends on

`fetchWord` is a fetch as a function: of the privilege level, the mode and root
of the walker, and the bytes of RAM, with nothing cached anywhere. It depends on
the bytes the walks read and on those of the instruction, and on no others.

The emulator's fetch goes through the TLB. Where the cached pages are what a
walk finds now, and the instruction is not in a device's region, it gives what
`fetchWord` gives and changes nothing but the TLB.
-/

namespace HereEmu

open Lib (Exec)
open Lib.Exec (Spec)
open PageTableWalker RVCPU

/-! ## The fetch as a function -/

variable (csr : CsrRegFile) (w : PageTableWalker) (ram : Ram) (va : WordType)

/-- Where a fetch goes, with nothing cached. -/
def fetchPaddr : Rust (Except MemError WordType) :=
  match resolveIfetchPolicy csr true with
  | .error p => .error p
  | .ok .direct => .ok (.ok va)
  | .ok (.translated check effect fault) =>
    ((w.flushTlb.translateVaddr ram va check effect).map (·.1)).map (·.mapError fun _ => fault)

/-- Half an instruction from RAM. -/
def ramFetch (paddr : WordType) : Except MemError WordType :=
  if BASE_ADDR ≤ paddr then ram.read .u16 (paddr - BASE_ADDR) else .error .loadFault

/-- The exception for what stopped a fetch. -/
def fetchAnswer : Except MemError WordType → Rust (Except ExceptionInfo WordType)
  | .ok v => .ok (.ok v)
  | .error e => (Exception.fromInstrFetchErr e).map fun cause => .error ⟨cause, va⟩

def fetchHalf : Rust (Except ExceptionInfo WordType) := do
  fetchAnswer va ((← fetchPaddr csr w ram va).bind (ramFetch ram))

/-- One answer after another. -/
def andThen {ε α β : Type} (x : Rust (Except ε α)) (f : α → Rust (Except ε β)) :
    Rust (Except ε β) :=
  match x with
  | .error p => .error p
  | .ok (.error e) => .ok (.error e)
  | .ok (.ok a) => f a

/-- The rest of an instruction, given its first half. -/
def fetchRest (va lo : WordType) : Rust (Except ExceptionInfo (BitVec 32)) :=
  if isLong lo then do
    let va ← checkedAdd va 2
    andThen (fetchHalf csr w ram va) fun hi => .ok (.ok ((lo ||| (hi <<< 16)).setWidth 32))
  else .ok (.ok (lo.setWidth 32))

def fetchWord : Rust (Except ExceptionInfo (BitVec 32)) :=
  andThen (fetchHalf csr w ram va) (fetchRest csr w ram va)

/-! ## The bytes it depends on -/

/-- The offsets in RAM of `n` bytes from a physical address. -/
def bytesAt (addr : WordType) (n : Nat) : List Nat :=
  List.range' (addr.toNat - BASE_ADDR.toNat)
    (addr.toNat + n - BASE_ADDR.toNat - (addr.toNat - BASE_ADDR.toNat))

theorem mem_bytesAt {addr : WordType} {n j : Nat} : j ∈ bytesAt addr n ↔
    addr.toNat ≤ BASE_ADDR.toNat + j ∧ BASE_ADDR.toNat + j < addr.toNat + n := by
  rw [bytesAt, List.mem_range'_1]
  omega

/-- The physical address of half an instruction, if it has one. -/
def fetchTarget : Option WordType :=
  match fetchPaddr csr w ram va with
  | .ok (.ok paddr) => some paddr
  | _ => none

/-- An instruction that has a second half. -/
def longAt : Bool :=
  match fetchHalf csr w ram va with
  | .ok (.ok lo) => isLong lo
  | _ => false

/-- The bytes of the page-table entries that the walk for half an instruction
reads. Machine mode does not translate. -/
def halfEntryBytes : List Nat :=
  if csr.cpl = .M then [] else (w.visits ram (vpn va)).flatMap (bytesAt · 8)

/-- The bytes of RAM that are half an instruction. -/
def halfCodeBytes : List Nat :=
  (fetchTarget csr w ram va).elim [] (bytesAt · 2)

def entryBytes : List Nat :=
  halfEntryBytes csr w ram va ++
    if longAt csr w ram va then halfEntryBytes csr w ram (va + 2) else []

def codeBytes : List Nat :=
  halfCodeBytes csr w ram va ++
    if longAt csr w ram va then halfCodeBytes csr w ram (va + 2) else []

section Congruence

variable {csr csr' : CsrRegFile} {w w' : PageTableWalker} {ram ram' : Ram} {va : WordType}

theorem resolveIfetchPolicy_congr (h : csr'.cpl = csr.cpl) (sideEffect : Bool) :
    resolveIfetchPolicy csr' sideEffect = resolveIfetchPolicy csr sideEffect := by
  unfold resolveIfetchPolicy
  rw [h]

/-- The walker matters through its mode, its root and its policy. -/
theorem fetchPaddr_config (hcpl : csr'.cpl = csr.cpl) (h : w'.flushTlb = w.flushTlb) :
    fetchPaddr csr' w' ram va = fetchPaddr csr w ram va := by
  unfold fetchPaddr
  rw [resolveIfetchPolicy_congr hcpl, h]

theorem fetchTarget_config (hcpl : csr'.cpl = csr.cpl) (h : w'.flushTlb = w.flushTlb) :
    fetchTarget csr' w' ram va = fetchTarget csr w ram va := by
  unfold fetchTarget
  rw [fetchPaddr_config hcpl h]

theorem fetchHalf_config (hcpl : csr'.cpl = csr.cpl) (h : w'.flushTlb = w.flushTlb) :
    fetchHalf csr' w' ram = fetchHalf csr w ram := by
  funext va
  unfold fetchHalf
  rw [fetchPaddr_config hcpl h]

theorem fetchWord_config (hcpl : csr'.cpl = csr.cpl) (h : w'.flushTlb = w.flushTlb) :
    fetchWord csr' w' ram va = fetchWord csr w ram va := by
  have hrest : fetchRest csr' w' ram va = fetchRest csr w ram va := by
    funext lo
    unfold fetchRest
    rw [fetchHalf_config hcpl h]
  unfold fetchWord
  rw [fetchHalf_config hcpl h, hrest]

/-- With nothing cached, a translation depends on what the walk finds. -/
theorem translateVaddr_congr (check : PermissionCheck) (effect : AccessEffect)
    (hp : w.adUpdatePolicy = .faultOnClear)
    (hwalk : w.walkPte ram' (vpn va) = w.walkPte ram (vpn va)) :
    (w.flushTlb.translateVaddr ram' va check effect).map (·.1) =
      (w.flushTlb.translateVaddr ram va check effect).map (·.1) := by
  by_cases hm : w.flushTlb.mode = .none
  · rw [translateVaddr_of_bare hm, translateVaddr_of_bare hm]
    rfl
  cases hc : w.flushTlb.isCanonicalVaddr va with
  | false =>
    rw [translateVaddr_of_not_canonical hm hc, translateVaddr_of_not_canonical hm hc]
    rfl
  | true =>
    have hempty : w.flushTlb.tlb.get (vpn va) = none := DirectCache.get_clear (c := w.tlb)
    rw [translateVaddr_of_miss hm hc hempty, translateVaddr_of_miss hm hc hempty,
      show w.flushTlb.walkPte ram' (vpn va) = w.flushTlb.walkPte ram (vpn va) from hwalk]
    cases w.flushTlb.walkPte ram (vpn va) with
    | error p => rfl
    | ok leaf =>
      obtain ⟨r, hfound⟩ := translateFound_faultOnClear va leaf check effect
      have hp' : (w.flushTlb.filled va leaf).adUpdatePolicy = .faultOnClear :=
        (policy_filled leaf).trans hp
      simp only [bind, Except.bind, hfound _ ram hp', hfound _ ram' hp']
      rfl

theorem mem_halfEntryBytes {j : Nat} : j ∈ halfEntryBytes csr w ram va ↔
    csr.cpl ≠ .M ∧ ∃ a ∈ w.visits ram (vpn va), PteByte a j := by
  unfold halfEntryBytes
  split
  · next hM => exact ⟨fun h => (nomatch h), fun h => absurd hM h.1⟩
  · next hM =>
      rw [List.mem_flatMap]
      exact ⟨fun ⟨a, ha, hj⟩ => ⟨hM, a, ha, mem_bytesAt.1 hj⟩,
        fun ⟨_, a, ha, hj⟩ => ⟨a, ha, mem_bytesAt.2 hj⟩⟩

theorem fetchTarget_eq_some {paddr : WordType} :
    fetchTarget csr w ram va = some paddr ↔ fetchPaddr csr w ram va = .ok (.ok paddr) := by
  unfold fetchTarget
  split
  · next h =>
      rw [h]
      exact ⟨fun h => by cases h; rfl, fun h => by cases h; rfl⟩
  · next h => exact ⟨fun h' => (nomatch h'), fun h' => absurd h' (h paddr)⟩

theorem longAt_of_half {lo : WordType} (h : fetchHalf csr w ram va = .ok (.ok lo)) :
    longAt csr w ram va = isLong lo := by
  unfold longAt
  rw [h]

theorem fetchPaddr_congr (hp : w.adUpdatePolicy = .faultOnClear)
    (hentry : ∀ j ∈ halfEntryBytes csr w ram va, ram'.data j = ram.data j) :
    fetchPaddr csr w ram' va = fetchPaddr csr w ram va := by
  unfold fetchPaddr
  by_cases hM : csr.cpl = .M
  · have hdirect : resolveIfetchPolicy csr true = .ok .direct := by
      unfold resolveIfetchPolicy
      rw [hM]
    rw [hdirect]
  · have hwalk : w.walkPte ram' (vpn va) = w.walkPte ram (vpn va) :=
      walkPte_congr fun a ha j hj => (hentry j (mem_halfEntryBytes.2 ⟨hM, a, ha, hj⟩)).symm
    cases hpol : resolveIfetchPolicy csr true with
    | error p => rfl
    | ok policy =>
      cases policy with
      | direct => rfl
      | translated check effect fault =>
        dsimp only
        rw [translateVaddr_congr check effect hp hwalk]

theorem ramFetch_congr {paddr : WordType} (h : ∀ j ∈ bytesAt paddr 2, ram'.data j = ram.data j) :
    ramFetch ram' paddr = ramFetch ram paddr := by
  unfold ramFetch
  split
  · next hle =>
      have hoff : (paddr - BASE_ADDR).toNat = paddr.toNat - BASE_ADDR.toNat :=
        BitVec.toNat_sub_of_le hle
      have hle' : BASE_ADDR.toNat ≤ paddr.toNat := hle
      have hw : Width.u16.bytes = 2 := rfl
      exact Ram.read_congr fun j h1 h2 => h j (mem_bytesAt.2 ⟨by omega, by omega⟩)
  · rfl

/-- Half a fetch in two memories that agree on the bytes it reads in one of them. -/
theorem fetchHalf_congr (hp : w.adUpdatePolicy = .faultOnClear)
    (hentry : ∀ j ∈ halfEntryBytes csr w ram va, ram'.data j = ram.data j)
    (hcode : ∀ j ∈ halfCodeBytes csr w ram va, ram'.data j = ram.data j) :
    fetchHalf csr w ram' va = fetchHalf csr w ram va := by
  unfold fetchHalf
  rw [fetchPaddr_congr hp hentry]
  cases hpaddr : fetchPaddr csr w ram va with
  | error p => rfl
  | ok r =>
    cases r with
    | error e => rfl
    | ok paddr =>
      have hbytes : halfCodeBytes csr w ram va = bytesAt paddr 2 := by
        rw [halfCodeBytes, fetchTarget_eq_some.2 hpaddr, Option.elim_some]
      have hread := ramFetch_congr (hbytes ▸ hcode)
      show fetchAnswer va (ramFetch ram' paddr) = fetchAnswer va (ramFetch ram paddr)
      rw [hread]

theorem fetchWord_congr (hp : w.adUpdatePolicy = .faultOnClear)
    (hentry : ∀ j ∈ entryBytes csr w ram va, ram'.data j = ram.data j)
    (hcode : ∀ j ∈ codeBytes csr w ram va, ram'.data j = ram.data j) :
    fetchWord csr w ram' va = fetchWord csr w ram va := by
  unfold fetchWord
  rw [fetchHalf_congr hp (fun j h => hentry j (List.mem_append_left _ h))
    fun j h => hcode j (List.mem_append_left _ h)]
  cases hlo : fetchHalf csr w ram va with
  | error p => rfl
  | ok r =>
    cases r with
    | error e => rfl
    | ok lo =>
      show fetchRest csr w ram' va lo = fetchRest csr w ram va lo
      unfold fetchRest
      split
      · next hlong =>
          cases hadd : checkedAdd va 2 with
          | error p => rfl
          | ok va' =>
            obtain rfl := checkedAdd_eq hadd
            have hat : longAt csr w ram va := (longAt_of_half hlo).trans hlong
            rw [entryBytes, if_pos hat] at hentry
            rw [codeBytes, if_pos hat] at hcode
            simp only [bind, Except.bind]
            rw [fetchHalf_congr hp (fun j h => hentry j (List.mem_append_right _ h))
              fun j h => hcode j (List.mem_append_right _ h)]
      · rfl

end Congruence

/-! ## The fetch of the emulator -/

/-- The page cached for `k`, if any, is what a walk finds now. -/
def TlbOkAt {B : DeviceBus} (m : VirtAddrManager B) (k : WordType) : Prop :=
  ∀ info, m.pageTable.tlb.get k = some info → m.pageTable.walkPte m.mmio.ram k = .ok (.ok info)

/-- Half an instruction at `va` does not come from a device. -/
def OffDevices {B : DeviceBus} (csr : CsrRegFile) (m : VirtAddrManager B) (va : WordType) : Prop :=
  ∀ paddr ∈ fetchTarget csr m.pageTable m.mmio.ram va,
    BASE_ADDR ≤ paddr ∨ B.deviceAt paddr = none

instance {B : DeviceBus} (csr : CsrRegFile) (m : VirtAddrManager B) (va : WordType) :
    Decidable (OffDevices csr m va) :=
  -- not by trying every address
  match h : fetchTarget csr m.pageTable m.mmio.ram va with
  | none => .isTrue fun _ hmem => by
      rw [h] at hmem
      cases hmem
  | some paddr =>
    decidable_of_iff (BASE_ADDR ≤ paddr ∨ B.deviceAt paddr = none)
      ⟨fun hoff _ hmem => by
        rw [h] at hmem
        cases hmem
        exact hoff, fun hoff => hoff paddr h⟩

/-- What a fetch needs of the TLB and of the address to be a function of RAM. -/
structure HalfReady {B : DeviceBus} (csr : CsrRegFile) (m : VirtAddrManager B) (va : WordType) :
    Prop where
  tlb : csr.cpl ≠ .M → TlbOkAt m (vpn va)
  off : OffDevices csr m va

structure WordReady {B : DeviceBus} (csr : CsrRegFile) (m : VirtAddrManager B) (va : WordType) :
    Prop where
  first : HalfReady csr m va
  second : longAt csr m.pageTable m.mmio.ram va → HalfReady csr m (va + 2)

/-- The outcome is the answer `x`, and nothing but the TLB changed. -/
def Gives {P : Platform} {ε α : Type} (s : RVCPU P) (x : Rust (Except ε α))
    (out : Rust (Except ε α × RVCPU P)) : Prop :=
  match x with
  | .error p => out = .error p
  | .ok r => ∃ memory, out = .ok (r, { s with memory }) ∧ MemStill s.memory memory ∧
    memory.mmio = s.memory.mmio

section Fetch

variable {P : Platform} {B : DeviceBus} {m m' : VirtAddrManager B} {csr : CsrRegFile}
  {va k : WordType} {s : RVCPU P}

theorem MemStill.tlbOkAt (h : MemStill m m') (hk : TlbOkAt m k) : TlbOkAt m' k := by
  intro info hinfo
  rw [walkPte_of_flushTlb h.config, walkPte_of_data h.data]
  rcases h.fill k info hinfo with hold | hwalk
  · exact hk info hold
  · exact hwalk

theorem translate_gives {policy : AccessPolicy} (hp : m.pageTable.adUpdatePolicy = .faultOnClear)
    (hpol : resolveIfetchPolicy csr true = .ok policy) (htlb : csr.cpl ≠ .M → TlbOkAt m (vpn va)) :
    (∃ p, (VirtAddrManager.translateWithPolicy va policy).run m = .error p ∧
      fetchPaddr csr m.pageTable m.mmio.ram va = .error p) ∨
    ∃ r m', (VirtAddrManager.translateWithPolicy va policy).run m = .ok (r, m') ∧
      fetchPaddr csr m.pageTable m.mmio.ram va = .ok r ∧ MemStill m m' ∧ m'.mmio = m.mmio := by
  unfold fetchPaddr
  rw [hpol]
  have hspec := translateWithPolicy_still va hp policy.faultIn_true
  cases policy with
  | direct => exact .inr ⟨.ok va, m, rfl, rfl, .refl m, rfl⟩
  | translated check effect fault =>
    have hM : csr.cpl ≠ .M := by
      intro hM
      unfold resolveIfetchPolicy at hpol
      rw [hM] at hpol
      cases hpol
    have hok : ∀ info, m.pageTable.tlb.get (vpn va) = some info →
        CachedOk m.pageTable m.mmio.ram (vpn va) info := fun info hinfo =>
      ⟨info, htlb hM info hinfo, .refl info, fun _ => rfl⟩
    have hchk : IgnoresAd m.pageTable.adUpdatePolicy check := .inl hp
    rcases translateVaddr_agree effect hok hchk with
      ⟨p, h, hfresh⟩ | ⟨r, w', v', mem', h, hfresh, -⟩
    · refine .inl ⟨p, ?_, ?_⟩
      · unfold VirtAddrManager.translateWithPolicy VirtAddrManager.translateVaddr Exec.mapError
        rw [Exec.run_ofFun, Exec.run_ofFun, h]
        rfl
      · dsimp only
        rw [hfresh]
        rfl
    · have hrun : (VirtAddrManager.translateWithPolicy va (.translated check effect fault)).run m =
          .ok (r.mapError fun _ => fault, ⟨{ m.mmio with ram := mem' }, w'⟩) := by
        unfold VirtAddrManager.translateWithPolicy VirtAddrManager.translateVaddr Exec.mapError
        rw [Exec.run_ofFun, Exec.run_ofFun, h]
        cases r <;> rfl
      obtain ⟨hstill, hmmio, -⟩ := hspec.elim hrun
      refine .inr ⟨_, _, hrun, ?_, hstill, hmmio⟩
      dsimp only
      rw [hfresh]
      rfl

theorem readByType_off {io : MemoryMapIo B} {paddr : WordType}
    (h : BASE_ADDR ≤ paddr ∨ B.deviceAt paddr = none) :
    io.readByType .u16 paddr = .ok (ramFetch io.ram paddr, io) := by
  unfold MemoryMapIo.readByType ramFetch
  by_cases hram : BASE_ADDR ≤ paddr
  · rw [if_pos hram, if_pos hram]
  · rw [if_neg hram, if_neg hram, h.resolve_left hram]

theorem readForIfetch_gives (hp : s.memory.pageTable.adUpdatePolicy = .faultOnClear)
    (h : HalfReady s.csr s.memory va) :
    Gives s ((fetchPaddr s.csr s.memory.pageTable s.memory.mmio.ram va).map
      (·.bind (ramFetch s.memory.mmio.ram))) ((readForIfetch .u16 va).run s) := by
  cases hpol : resolveIfetchPolicy s.csr true with
  | error p =>
    have hpaddr : fetchPaddr s.csr s.memory.pageTable s.memory.mmio.ram va = .error p := by
      unfold fetchPaddr
      rw [hpol]
    rw [hpaddr, run_readForIfetch_panic hpol]
    rfl
  | ok policy =>
    rw [run_readForIfetch hpol]
    unfold VirtAddrManager.readWithPolicy
    rcases translate_gives hp hpol h.tlb with
      ⟨p, hrun, hpaddr⟩ | ⟨r, m', hrun, hpaddr, hstill, hmmio⟩
    · rw [hpaddr, Exec.run_bind_panic hrun]
      rfl
    · rw [hpaddr]
      cases r with
      | error e =>
        rw [Exec.run_bind_error hrun]
        exact ⟨m', rfl, hstill, hmmio⟩
      | ok paddr =>
        have hread : (VirtAddrManager.readByPaddr .u16 paddr).run m' =
            .ok (ramFetch s.memory.mmio.ram paddr, m') := by
          rw [← hmmio]
          exact run_onMmio_ok (readByType_off (h.off paddr (fetchTarget_eq_some.2 hpaddr)))
        rw [Exec.run_bind_ok hrun, hread]
        exact ⟨m', rfl, hstill, hmmio⟩

theorem ifetchHalf_gives (hp : s.memory.pageTable.adUpdatePolicy = .faultOnClear)
    (h : HalfReady s.csr s.memory va) :
    Gives s (fetchHalf s.csr s.memory.pageTable s.memory.mmio.ram va) ((ifetchHalf va).run s) := by
  have hread := readForIfetch_gives hp h
  unfold fetchHalf ifetchHalf
  rw [Exec.run_ofFun]
  cases hpaddr : fetchPaddr s.csr s.memory.pageTable s.memory.mmio.ram va with
  | error p =>
    rw [hpaddr] at hread
    rw [show (readForIfetch .u16 va).run s = .error p from hread]
    rfl
  | ok r =>
    rw [hpaddr] at hread
    obtain ⟨memory, hrun, hstill, hmmio⟩ := hread
    rw [hrun]
    show Gives s (fetchAnswer va (r.bind (ramFetch s.memory.mmio.ram))) _
    dsimp only
    generalize r.bind (ramFetch s.memory.mmio.ram) = ans
    cases ans with
    | ok v => exact ⟨memory, rfl, hstill, hmmio⟩
    | error e =>
      simp only [bind, Except.bind, fetchAnswer]
      cases Exception.fromInstrFetchErr e with
      | error p => rfl
      | ok cause => exact ⟨memory, rfl, hstill, hmmio⟩

section Still

variable {csr' : CsrRegFile} (hp : m.pageTable.adUpdatePolicy = .faultOnClear)
  (hcpl : csr'.cpl = csr.cpl) (hstill : MemStill m m')

include hp hcpl hstill

/-- Only the level and the bytes of RAM matter to where a fetch goes. -/
theorem fetchTarget_still :
    fetchTarget csr' m'.pageTable m'.mmio.ram va = fetchTarget csr m.pageTable m.mmio.ram va := by
  have hsame : fetchPaddr csr m.pageTable m'.mmio.ram va =
      fetchPaddr csr m.pageTable m.mmio.ram va :=
    fetchPaddr_congr hp fun j _ => by rw [hstill.data]
  rw [fetchTarget_config hcpl hstill.config]
  unfold fetchTarget
  rw [hsame]

theorem fetchHalf_still :
    fetchHalf csr' m'.pageTable m'.mmio.ram va = fetchHalf csr m.pageTable m.mmio.ram va := by
  rw [fetchHalf_config hcpl hstill.config]
  exact fetchHalf_congr hp (fun j _ => by rw [hstill.data]) fun j _ => by rw [hstill.data]

theorem fetchWord_still :
    fetchWord csr' m'.pageTable m'.mmio.ram va = fetchWord csr m.pageTable m.mmio.ram va := by
  rw [fetchWord_config hcpl hstill.config]
  exact fetchWord_congr hp (fun j _ => by rw [hstill.data]) fun j _ => by rw [hstill.data]

theorem HalfReady.still (h : HalfReady csr m va) : HalfReady csr' m' va := by
  refine ⟨fun hM => hstill.tlbOkAt (h.tlb (by rw [← hcpl]; exact hM)), fun paddr hpaddr => ?_⟩
  rw [fetchTarget_still hp hcpl hstill] at hpaddr
  exact h.off paddr hpaddr

/-- A fetch that is ready stays ready while RAM keeps its bytes. -/
theorem WordReady.still (h : WordReady csr m va) : WordReady csr' m' va := by
  refine ⟨h.first.still hp hcpl hstill, fun hlong => (h.second ?_).still hp hcpl hstill⟩
  rw [longAt, fetchHalf_still hp hcpl hstill] at hlong
  exact hlong

end Still

variable {ε α : Type}

/-- One fetch after another, the second in the state the first left. -/
theorem Gives.bind {β : Type} {x : Rust (Except ε α)} {f : α → Rust (Except ε β)}
    {c : Exec PanicSite ε (RVCPU P) α} {c' : α → Exec PanicSite ε (RVCPU P) β}
    (hc : Gives s x (c.run s))
    (hc' : ∀ a memory, x = .ok (.ok a) → MemStill s.memory memory →
      memory.mmio = s.memory.mmio → Gives { s with memory } (f a) ((c' a).run { s with memory })) :
    Gives s (andThen x f) ((c >>= c').run s) := by
  cases x with
  | error p => exact Exec.run_bind_panic hc
  | ok r =>
    obtain ⟨m₁, hrun₁, hstill₁, hmmio₁⟩ := hc
    cases r with
    | error e => exact ⟨m₁, Exec.run_bind_error hrun₁, hstill₁, hmmio₁⟩
    | ok a =>
      rw [Exec.run_bind_ok hrun₁]
      have h := hc' a m₁ rfl hstill₁ hmmio₁
      unfold andThen
      dsimp only
      cases hf : f a with
      | error p =>
        rw [hf] at h
        exact h
      | ok r =>
        rw [hf] at h
        obtain ⟨m₂, hrun₂, hstill₂, hmmio₂⟩ := h
        exact ⟨m₂, hrun₂, hstill₁.trans hstill₂, hmmio₂.trans hmmio₁⟩

theorem Gives.pure (a : α) :
    Gives s (.ok (.ok a) : Rust (Except ε α)) ((pure a : Exec PanicSite ε (RVCPU P) α).run s) :=
  ⟨s.memory, rfl, .refl _, rfl⟩

theorem Gives.check (r : Except ε α) :
    Gives s (.ok r) ((Exec.check r : Exec PanicSite ε (RVCPU P) α).run s) :=
  ⟨s.memory, rfl, .refl _, rfl⟩

theorem ifetchAt_gives (hp : s.memory.pageTable.adUpdatePolicy = .faultOnClear)
    (h : WordReady s.csr s.memory va) :
    Gives s (fetchWord s.csr s.memory.pageTable s.memory.mmio.ram va) ((ifetchAt va).run s) := by
  refine Gives.bind (ifetchHalf_gives hp h.first) fun lo m₁ hlo hstill hmmio => ?_
  unfold fetchRest
  cases hlong : isLong lo with
  | false => exact .pure _
  | true =>
    cases hadd : checkedAdd va 2 with
    | error p => rfl
    | ok va' =>
      obtain rfl := checkedAdd_eq hadd
      have hready := (h.second ((longAt_of_half hlo).trans hlong)).still hp rfl hstill
      have hsecond := ifetchHalf_gives (s := { s with memory := m₁ })
        ((policy_of_config hstill.config).trans hp) hready
      rw [show fetchHalf s.csr m₁.pageTable m₁.mmio.ram (va + 2) =
        fetchHalf s.csr s.memory.pageTable s.memory.mmio.ram (va + 2) from
          fetchHalf_still hp rfl hstill] at hsecond
      exact hsecond.bind fun _ _ _ _ _ => .pure _

end Fetch

end HereEmu
