import HereEmu.Decoder
import HereEmu.Proofs.StepEffect

/-!
# The instruction cache

A decoded instruction is cached under its virtual address and nothing else.
Whether a hit is what a fresh fetch would find therefore depends on what
happened since the caches were last emptied, and the runs below carry that
history along: every state a step was taken in since then.

The invariant is that everything cached was right at some point of the history:
each page in the TLB is what a walk found in one of its states, and each decoded
instruction is what a fetch found there at the level of that state. A fetch now
finds the same if the bytes it reads are still those, and if it is made at the
same level. The first is what a guest owes the machine between two fences. The
second nothing guarantees: no change of level empties the cache, so an
instruction one level fetched is executed by another that may not fetch it.
-/

namespace HereEmu

open Lib (Exec Always)
open Lib.Exec (Spec Ends)
open PageTableWalker RVCPU List

/-! ## Runs with their history -/

section History

variable {P : Platform}

abbrev RVCPU.ram (s : RVCPU P) : Ram := s.memory.mmio.ram

abbrev RVCPU.walker (s : RVCPU P) : PageTableWalker := s.memory.pageTable

/-- The states since the caches were last emptied, those of them in which an
instruction was fetched, and whether the caches ever were emptied. -/
structure FetchHistory (P : Platform) where
  past : List (RVCPU P)
  fetches : List (RVCPU P)
  flushed : Bool

def FetchHistory.start (P : Platform) : FetchHistory P := ⟨[], [], false⟩

def RVCPU.Event.isInstr : Event P → Bool
  | .instr => true
  | _ => false

/-- Every flush of the instruction cache counts up its epoch. -/
def FetchHistory.next (g : FetchHistory P) (s s' : RVCPU P) (e : Event P) : FetchHistory P :=
  if s'.icacheEpoch = s.icacheEpoch then
    ⟨s :: g.past, if e.isInstr then s :: g.fetches else g.fetches, g.flushed⟩
  else ⟨[], [], true⟩

def historyStep (sg : RVCPU P × FetchHistory P) (e : Event P) :
    Rust (Unit × RVCPU P × FetchHistory P) := do
  let s' ← sg.1.step e
  return ((), s', sg.2.next sg.1 s' e)

/-- Fetching and decoding with nothing cached, under the level and the page
tables of the moment. -/
def freshDecode (s : RVCPU P) : Rust (Except ExceptionInfo P.Decoded) :=
  ((do Exec.check (decodeRaw P (← ifetchAt s.pc)) : FetchM P P.Decoded).run s.flushTlb).map (·.1)

/-- The instruction about to be executed is what a fresh fetch would find. -/
def Transparent (sg : RVCPU P × FetchHistory P) (e : Event P) : Prop :=
  e.isInstr → ((decodeAtChecked sg.1.pc).run sg.1).map (·.1) = freshDecode sg.1

/-- Nothing the next fetch depends on was modified since the caches were last
emptied: the page-table entries of its walk are those of every state since, and
its code is what it was whenever this address was fetched. -/
def Unmodified (s : RVCPU P) (g : FetchHistory P) : Prop :=
  (∀ t ∈ g.past, ∀ j ∈ entryBytes s.csr s.walker s.ram s.pc, t.ram.data j = s.ram.data j) ∧
  ∀ t ∈ g.fetches, t.pc = s.pc →
    ∀ j ∈ codeBytes s.csr s.walker s.ram s.pc, t.ram.data j = s.ram.data j
  deriving Decidable

/-- What the next fetch needs on top: the address was not fetched at another
level since the caches were last emptied, it is not in a device's region, and
it is not the address that a cache fresh from zeroed memory may answer for. -/
@[mk_iff]
structure FetchedAlike (s : RVCPU P) (g : FetchHistory P) : Prop where
  level : ∀ t ∈ g.fetches, t.pc = s.pc → t.csr.cpl = s.csr.cpl
  off : OffDevices s.csr s.memory s.pc
  offNext : longAt s.csr s.walker s.ram s.pc → OffDevices s.csr s.memory (s.pc + 2)
  slot : s.pc ≠ 0 ∨ g.flushed ∨ P.zeroed.isNone

instance (s : RVCPU P) (g : FetchHistory P) : Decidable (FetchedAlike s g) :=
  decidable_of_iff' _ (fetchedAlike_iff ..)

/-- What the guest owes the machine. -/
def CodeUnmodified (sg : RVCPU P × FetchHistory P) (e : Event P) : Prop :=
  e.isInstr → Unmodified sg.1 sg.2
  deriving Decidable

def Disciplined (sg : RVCPU P × FetchHistory P) (e : Event P) : Prop :=
  e.isInstr → Unmodified sg.1 sg.2 ∧ FetchedAlike sg.1 sg.2
  deriving Decidable

end History

/-! ## The invariant -/

/-- A fetch in an earlier state found this instruction. -/
def FetchedIn {P : Platform} (g : FetchHistory P) (a : WordType) (d : P.Decoded) : Prop :=
  ∃ t raw, t ∈ g.past ∧ t ∈ g.fetches ∧ t.pc = a ∧
    fetchWord t.csr t.walker t.ram a = .ok (.ok raw) ∧ P.decode raw = some d

/-- Everything cached was right at some point of the history. -/
structure CacheInv {P : Platform} (s : RVCPU P) (g : FetchHistory P) : Prop where
  policy : s.walker.adUpdatePolicy = .faultOnClear
  tval : s.pendingTval = none
  config : ∀ t ∈ g.past, t.walker.flushTlb = s.walker.flushTlb
  tlb : ∀ k info, s.walker.tlb.get k = some info →
    ∃ t ∈ g.past, s.walker.walkPte t.ram k = .ok (.ok info)
  icache : ∀ a d, s.icache.get a = some d →
    FetchedIn g a d ∨ a = 0 ∧ g.flushed = false ∧ P.zeroed = some d

section Fetching

variable {P : Platform} {s : RVCPU P} {g : FetchHistory P}

theorem CacheInv.tlbOkAt {va : WordType} (h : CacheInv s g)
    (hentry : ∀ t ∈ g.past, ∀ a ∈ s.walker.visits s.ram (vpn va), ∀ j, PteByte a j →
      t.ram.data j = s.ram.data j) : TlbOkAt s.memory (vpn va) := by
  intro info hinfo
  obtain ⟨t, ht, hwalk⟩ := h.tlb (vpn va) info hinfo
  have hsame : s.walker.walkPte t.ram (vpn va) = s.walker.walkPte s.ram (vpn va) :=
    walkPte_congr fun a ha j hj => (hentry t ht a ha j hj).symm
  rw [hsame] at hwalk
  exact hwalk

/-- The TLB does not get in the way of the next fetch. -/
theorem CacheInv.wordReady (h : CacheInv s g) (hu : Unmodified s g) (hf : FetchedAlike s g) :
    WordReady s.csr s.memory s.pc := by
  refine ⟨⟨fun hM => h.tlbOkAt fun t ht a ha j hj => ?_, hf.off⟩,
    fun hlong => ⟨fun hM => h.tlbOkAt fun t ht a ha j hj => ?_, hf.offNext hlong⟩⟩
  · exact hu.1 t ht j (mem_append_left _ (mem_halfEntryBytes.2 ⟨hM, a, ha, hj⟩))
  · refine hu.1 t ht j (mem_append_right _ ?_)
    rw [if_pos hlong]
    exact mem_halfEntryBytes.2 ⟨hM, a, ha, hj⟩

/-- With an empty TLB there is nothing to ask of it. -/
theorem FetchedAlike.wordReady_flushTlb (hf : FetchedAlike s g) :
    WordReady s.csr s.memory.flushTlb s.pc := by
  have hempty : ∀ k, TlbOkAt s.memory.flushTlb k := by
    intro k info hinfo
    rw [show s.memory.flushTlb.pageTable.tlb.get k = none from
      DirectCache.get_clear (c := s.walker.tlb)] at hinfo
    cases hinfo
  have hoff : ∀ {va}, OffDevices s.csr s.memory va → OffDevices s.csr s.memory.flushTlb va := by
    intro va h paddr hpaddr
    exact h paddr hpaddr
  refine ⟨⟨fun _ => hempty _, hoff hf.off⟩, fun hlong => ⟨fun _ => hempty _, hoff (hf.offNext ?_)⟩⟩
  exact hlong

/-- Decoding what a fetch found. -/
def decodeWord (P : Platform) (x : Rust (Except ExceptionInfo (BitVec 32))) :
    Rust (Except ExceptionInfo P.Decoded) :=
  andThen x fun raw => .ok (decodeRaw P raw)

theorem Gives.map_fst {ε α : Type} {x : Rust (Except ε α)} {out : Rust (Except ε α × RVCPU P)}
    (h : Gives s x out) : out.map (·.1) = x := by
  cases x with
  | error p => rw [show out = .error p from h]; rfl
  | ok r =>
    obtain ⟨memory, rfl, -⟩ := h
    rfl

/-- A fresh fetch is a function of the level, the walker and RAM. -/
theorem freshDecode_eq (hp : s.walker.adUpdatePolicy = .faultOnClear) (hf : FetchedAlike s g) :
    freshDecode s = decodeWord P (fetchWord s.csr s.walker s.ram s.pc) := by
  have hgives := ifetchAt_gives (s := s.flushTlb) hp hf.wordReady_flushTlb
  rw [show fetchWord s.flushTlb.csr s.flushTlb.memory.pageTable s.flushTlb.memory.mmio.ram s.pc =
    fetchWord s.csr s.walker s.ram s.pc from fetchWord_config rfl rfl] at hgives
  exact Gives.map_fst (hgives.bind fun raw _ _ _ _ => .check (decodeRaw P raw))

/-- A miss fetches, through the TLB. -/
theorem decode_of_miss (hp : s.walker.adUpdatePolicy = .faultOnClear)
    (hready : WordReady s.csr s.memory s.pc) (hmiss : s.icache.get s.pc = none) :
    ((decodeAtChecked s.pc).run s).map (·.1) =
      decodeWord P (fetchWord s.csr s.walker s.ram s.pc) := by
  have hword := (ifetchAt_gives hp hready).map_fst
  unfold decodeAtChecked decodeWord
  rw [Exec.run_bind_ok (Exec.run_get s), hmiss, Exec.run_bind, ← hword]
  rcases (ifetchAt s.pc).run s with p | ⟨e | raw, s'⟩
  · rfl
  · rfl
  · show ((Exec.check (decodeRaw P raw) >>= _).run s').map _ = .ok (decodeRaw P raw)
    cases decodeRaw P raw <;> rfl

/-- A hit was found by a fetch that would find the same now. -/
theorem CacheInv.decodeWord_of_hit (h : CacheInv s g) (hu : Unmodified s g) (hf : FetchedAlike s g)
    {d : P.Decoded} (hhit : s.icache.get s.pc = some d) :
    decodeWord P (fetchWord s.csr s.walker s.ram s.pc) = .ok (.ok d) := by
  rcases h.icache s.pc d hhit with ⟨t, raw, ht, hfetch, hpc, hword, hdec⟩ | ⟨hpc, hflushed, hzeroed⟩
  · have hsame : fetchWord s.csr s.walker s.ram s.pc = .ok (.ok raw) := by
      calc fetchWord s.csr s.walker s.ram s.pc
          = fetchWord s.csr s.walker t.ram s.pc :=
            (fetchWord_congr h.policy (hu.1 t ht) (hu.2 t hfetch hpc)).symm
        _ = fetchWord t.csr t.walker t.ram s.pc :=
            (fetchWord_config (hf.level t hfetch hpc) (h.config t ht)).symm
        _ = .ok (.ok raw) := hword
    rw [hsame]
    show Except.ok (decodeRaw P raw) = _
    unfold decodeRaw
    rw [hdec]
  · rcases hf.slot with h0 | h0 | h0
    · exact absurd hpc h0
    · rw [h0] at hflushed
      cases hflushed
    · rw [hzeroed] at h0
      cases h0

theorem CacheInv.transparent (h : CacheInv s g) (hu : Unmodified s g) (hf : FetchedAlike s g) :
    ((decodeAtChecked s.pc).run s).map (·.1) = freshDecode s := by
  rw [freshDecode_eq h.policy hf]
  cases hhit : s.icache.get s.pc with
  | none => exact decode_of_miss h.policy (h.wordReady hu hf) hhit
  | some d =>
    rw [h.decodeWord_of_hit hu hf hhit]
    unfold decodeAtChecked
    rw [Exec.run_bind_ok (Exec.run_get s), hhit]
    rfl

end Fetching

/-! ## Runs -/

section Runs

variable {P : Platform} {s s' : RVCPU P} {g : FetchHistory P} {e : Event P}

theorem cacheInv_reset (mmio : MemoryMapIo P.bus) (timeAddr : Option WordType)
    (regFile : RegIdx → WordType) : CacheInv (reset P mmio timeAddr regFile) (.start P) := by
  refine ⟨rfl, rfl, fun _ ht => (nomatch ht), fun k info hget => ?_, fun a d hget => .inr ?_⟩
  · rw [show (reset P mmio timeAddr regFile).walker.tlb.get k = none from
      DirectCache.get_new_none] at hget
    cases hget
  · have hnew : (reset P mmio timeAddr regFile).icache.get a = if 0 = a then P.zeroed else none :=
      DirectCache.get_new
    rw [hnew] at hget
    split at hget
    · next h0 => exact ⟨h0.symm, rfl, hget⟩
    · cases hget

/-- A step that kept the caches joins the history. -/
theorem CacheInv.kept (h : CacheInv s g) (hmem : MemAfter s.memory s'.memory)
    (ht : s'.pendingTval = none) {fetches : List (RVCPU P)} (hfetches : g.fetches ⊆ fetches)
    (hicache : ∀ a d, s'.icache.get a = some d →
      s.icache.get a = some d ∨ FetchedIn ⟨s :: g.past, fetches, g.flushed⟩ a d) :
    CacheInv s' ⟨s :: g.past, fetches, g.flushed⟩ := by
  have hwalk : ∀ mem k, s'.walker.walkPte mem k = s.walker.walkPte mem k :=
    walkPte_of_flushTlb hmem.config
  refine ⟨(policy_of_config hmem.config).trans h.policy, ht, fun t ht => ?_, fun k info hget => ?_,
    fun a d hget => ?_⟩
  · rcases mem_cons.1 ht with rfl | ht
    · exact hmem.config.symm
    · exact (h.config t ht).trans hmem.config.symm
  · rcases hmem.fill k info hget with hold | hnew
    · obtain ⟨t, ht, hfound⟩ := h.tlb k info hold
      exact ⟨t, mem_cons_of_mem _ ht, (hwalk _ _).trans hfound⟩
    · exact ⟨s, mem_cons_self, (hwalk _ _).trans hnew⟩
  · rcases hicache a d hget with hold | hnew
    · refine (h.icache a d hold).imp_left ?_
      rintro ⟨t, raw, ht, hfetch, hfetched⟩
      exact ⟨t, raw, mem_cons_of_mem _ ht, hfetches hfetch, hfetched⟩
    · exact .inl hnew

theorem CacheInv.emptied (h : CacheInv s g) (he : Emptied s s') (ht : s'.pendingTval = none) :
    CacheInv s' ⟨[], [], true⟩ := by
  refine ⟨he.policy.trans h.policy, ht, fun _ ht => (nomatch ht), fun k info hget => ?_,
    fun a d hget => ?_⟩
  · rw [he.tlb] at hget
    cases hget
  · rw [he.icache] at hget
    cases hget

/-- What events other than instructions leave alone. -/
structure Idle (s s' : RVCPU P) : Prop where
  walker : s'.walker = s.walker
  icache : s'.icache = s.icache
  epoch : s'.icacheEpoch = s.icacheEpoch
  tval : s'.pendingTval = s.pendingTval

theorem step_idle (he : e.isInstr = false) (h : s.step e = .ok s') : Idle s s' := by
  cases e with
  | instr => cases he
  | checkInterrupt =>
    obtain ⟨_, _, _, -, rfl | rfl⟩ := tryTakePendingInterrupt_cases h <;>
      exact ⟨rfl, rfl, rfl, rfl⟩
  | irq interrupt level =>
    obtain ⟨_, _, -, -, rfl⟩ := handleIrq_cases h
    exact ⟨rfl, rfl, rfl, rfl⟩
  | devices dev data =>
    cases h
    exact ⟨rfl, rfl, rfl, rfl⟩

theorem CacheInv.idle (h : CacheInv s g) (he : e.isInstr = false) (hi : Idle s s') :
    CacheInv s' (g.next s s' e) := by
  rw [FetchHistory.next, if_pos hi.epoch, he]
  refine h.kept (.of_pageTable hi.walker) (hi.tval.trans h.tval) (Subset.refl _)
    fun a d hget => .inl ?_
  rw [hi.icache] at hget
  exact hget

/-- An instruction that was fetched joins the history together with its state. -/
theorem CacheInv.instr (h : CacheInv s g) (hu : Unmodified s g) (hf : FetchedAlike s g)
    (hs : s.stepOnce = .ok s') : CacheInv s' (g.next s s' .instr) := by
  -- every panic is allowed: the step did not panic
  have hready : StepReady (fun _ => True) s :=
    { benign := fun _ _ => trivial
      policy := h.policy
      level := .inr trivial
      modes := .inr ⟨trivial, trivial⟩
      setMode := trivial
      trap := fun c pc e tval _ _ => by
        cases TrapController.takeException c pc e tval <;> trivial
      refetch := fun _ _ _ _ _ => .inr trivial
      tval := h.tval }
  have heffect := (stepOnce_effect hready).elim hs
  unfold FetchHistory.next
  rcases heffect.caches with hk | he
  · rw [if_pos hk.epoch]
    refine h.kept hk.mem heffect.tval (subset_cons_self _ _)
      fun a d hget => (hk.icache a d hget).imp_right ?_
    rintro ⟨rfl, raw, s₁, hrun, hdec⟩
    refine ⟨s, raw, mem_cons_self, mem_cons_self, rfl, ?_, hdec⟩
    have hgives := (ifetchAt_gives h.policy (h.wordReady hu hf)).map_fst
    rw [hrun] at hgives
    exact hgives.symm
  · have hne : s'.icacheEpoch ≠ s.icacheEpoch := by
      rw [he.epoch]
      bv_omega
    rw [if_neg hne]
    exact h.emptied he heffect.tval

theorem CacheInv.step {o : Unit} {sg sg' : RVCPU P × FetchHistory P} (h : CacheInv sg.1 sg.2)
    (hd : Disciplined sg e) (hs : historyStep sg e = .ok (o, sg')) : CacheInv sg'.1 sg'.2 := by
  obtain ⟨s, g⟩ := sg
  obtain ⟨s', hstep, hs⟩ := Lib.exists_of_bind_ok hs
  cases hs
  cases he : e.isInstr with
  | false => exact h.idle he (step_idle he hstep)
  | true =>
    cases e with
    | instr => exact h.instr (hd rfl).1 (hd rfl).2 hstep
    | _ => cases he

/-- In every run in which no address is fetched at two levels between two
flushes, nor from a device, nor answered by a slot nobody filled, every
instruction executed is the one a fresh fetch finds, or the fault it meets, as
long as what the fetch depends on is not modified without a flush. -/
theorem icache_transparent_of_one_level (mmio : MemoryMapIo P.bus) (timeAddr : Option WordType)
    (regFile : RegIdx → WordType) (events : List (Event P))
    (h : Always historyStep Disciplined (reset P mmio timeAddr regFile, .start P) events) :
    Always historyStep Transparent (reset P mmio timeAddr regFile, .start P) events :=
  Always.of_inv (fun _ _ _ _ hinv hd hs => CacheInv.step hinv hd hs)
    (fun _ _ hinv hd he => hinv.transparent (hd he).1 (hd he).2) (cacheInv_reset ..) h

end Runs

/-! ## An instruction fetched by one level and executed by another -/

/-- Machine mode turns on a page table with no pages and returns to user mode,
at an instruction it executed itself after turning it on. -/
def levelProgram : List (BitVec 32) :=
  [0x00000097, -- auipc x1, 0
    0x0400b103, -- ld x2, 0x40(x1)
    0x01008093, -- addi x1, x1, 0x10
    0x18011073, -- csrrw x0, satp, x2
    0x34109073, -- csrrw x0, mepc, x1
    0x30200073, -- mret
    0, 0, 0, 0, 0, 0, 0, 0, 0, 0,
    0x00080001, 0x80000000] -- Sv39, with the root at the page after this one

theorem icache_transparent_of_one_level_boot :
    Always historyStep Transparent (programCpu levelProgram, .start _)
      [.instr, .instr, .instr, .instr, .instr, .instr] :=
  icache_transparent_of_one_level _ _ _ _ (by decide +kernel)

theorem icache_ignores_level :
    Always historyStep CodeUnmodified (programCpu levelProgram, .start _)
      (replicate 7 .instr) ∧
    ¬ Always historyStep Transparent (programCpu levelProgram, .start _)
      (replicate 7 .instr) := by
  refine ⟨by decide +kernel, fun h => ?_⟩
  -- user mode gets an instruction where a fetch of its own would fault
  have hkind := h.mono (Q := fun sg e => e.isInstr →
    ((decodeAtChecked sg.1.pc).run sg.1).map (·.1.isOk) = (freshDecode sg.1).map (·.isOk))
    fun sg e ht he => by
      rw [← ht he]
      cases (decodeAtChecked sg.1.pc).run sg.1 <;> rfl
  exact absurd hkind (by decide +kernel)

end HereEmu
