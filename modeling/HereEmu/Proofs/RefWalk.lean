import HereEmu.Proofs.Footprint

/-!
# The walk is the reference walk

The privileged specification describes a page-table walk in arithmetic: slices
of the address index the tables, a page number is a field of the entry, and
the physical address is a page number followed by an offset. `Sv.walk` says
that over natural numbers and an arbitrary memory of words, with none of the
masks and shifts the walker computes with.

The walker agrees with it level by level. The entries the reference walk
visits are assumed to lie in RAM, which is all that is needed for the
walker's checked subtraction and its RAM reads to go through.
-/

namespace HereEmu

open PageTableEntry PageTableWalker BitVec PTEFlags

/-! ## The reference -/

namespace Sv

/-- The 9-bit slice of the address that indexes the table at level `i`. -/
def vpnSlice (va i : Nat) : Nat := va / 2 ^ (12 + 9 * i) % 2 ^ 9

def entryPpn (e : Nat) : Nat := e / 2 ^ 10 % 2 ^ 44

/-- Valid, and not writable without being readable. -/
def wellFormed (e : Nat) : Bool := e.testBit 0 && !(e.testBit 2 && !e.testBit 1)

def isLeaf (e : Nat) : Bool := e.testBit 1 || e.testBit 2 || e.testBit 3

def pteAddr (va i table : Nat) : Nat := table + 8 * vpnSlice va i

/-- The page number above level `i` followed by the low bits of the address. -/
def leafAddr (va i e : Nat) : Nat :=
  entryPpn e / 2 ^ (9 * i) * 2 ^ (12 + 9 * i) + va % 2 ^ (12 + 9 * i)

def walk (word : Nat → Nat) (va i table : Nat) : Option Nat :=
  let e := word (pteAddr va i table)
  if wellFormed e then
    if isLeaf e then
      if entryPpn e % 2 ^ (9 * i) = 0 then some (leafAddr va i e) else none
    else match i with
      | 0 => none
      | i + 1 => walk word va i (entryPpn e * 2 ^ 12)
  else none

/-- The addresses of the entries the walk reads. -/
def visits (word : Nat → Nat) (va i table : Nat) : List Nat :=
  pteAddr va i table ::
    (let e := word (pteAddr va i table)
     if wellFormed e && !isLeaf e then
       match i with
       | 0 => []
       | i + 1 => visits word va i (entryPpn e * 2 ^ 12)
     else [])

def canonical (m : SvMode) (va : WordType) : Prop := (va.setWidth m.VA_BITS).signExtend 64 = va
  deriving Decidable

def translate (m : SvMode) (word : Nat → Nat) (root : Nat) (va : WordType) : Option Nat :=
  if canonical m va then walk word va.toNat (m.LEVELS - 1) root else none

end Sv

/-- The mode the walker is in for a paging mode. -/
def SvMode.toMode : SvMode → VirtualMemoryMode
  | sv39 => .page39bit
  | sv48 => .page48bit
  | sv57 => .page57bit

/-- The doubleword at a physical address of RAM. -/
def Ram.physWord (mem : Ram) (a : Nat) : Nat :=
  (Lib.loadLE mem.data (a - BASE_ADDR.toNat) 8 : WordType).toNat

/-- Eight bytes from a physical address on are RAM. -/
def InRam (a : Nat) : Prop := BASE_ADDR.toNat ≤ a ∧ a + 8 ≤ BASE_ADDR.toNat + SIZE
  deriving Decidable

/-! ## Bits and fields -/

theorem isCanonicalVaddr_iff {m : SvMode} {va : WordType} :
    m.isCanonicalVaddr va ↔ Sv.canonical m va := by
  have h0 : 0 < m.VA_BITS := by cases m <;> decide
  have h1 : m.VA_BITS ≤ 64 := by cases m <;> decide
  unfold SvMode.isCanonicalVaddr isSignExtended Sv.canonical
  rw [signExtend_eq h0 h1, beq_iff_eq]
  exact eq_comm

theorem toNat_shiftRight_and_mask (x : WordType) (k n : Nat) (hn : n ≤ 64) :
    ((x >>> k) &&& BitVec.ofNat 64 (2 ^ n - 1)).toNat = x.toNat / 2 ^ k % 2 ^ n := by
  have hlt : 2 ^ n - 1 < 2 ^ 64 := by
    have : 2 ^ n ≤ 2 ^ 64 := Nat.pow_le_pow_right (by decide) hn
    omega
  rw [toNat_and, toNat_ushiftRight, toNat_ofNat, Nat.mod_eq_of_lt hlt,
    Nat.and_two_pow_sub_one_eq_mod, Nat.shiftRight_eq_div_pow]

theorem vpn_shiftRight (va : WordType) {k : Nat} (hk : 12 ≤ k) : vpn va >>> k = va >>> k := by
  refine eq_of_getLsbD_eq fun i hi => ?_
  have hmask : (0xfff#64).getLsbD (k + i) = false := by
    rw [show (0xfff#64) = BitVec.ofNat 64 (2 ^ 12 - 1) from rfl, getLsbD_ofNat,
      Nat.testBit_two_pow_sub_one]
    simp
    omega
  by_cases h : k + i < 64
  · simp only [vpn, getLsbD_ushiftRight, getLsbD_and, getLsbD_not, hmask, h]
    simp
  · simp only [getLsbD_ushiftRight, getLsbD_of_ge _ (k + i) (Nat.le_of_not_lt h)]

theorem vpnIndex_toNat (va : WordType) (i : Nat) :
    (SvMode.vpnIndex (vpn va) i).toNat = Sv.vpnSlice va.toNat i := by
  have hk : 12 ≤ PAGE_SIZE_XLEN + i * SUB_VPN_XLEN := Nat.le_add_right _ _
  have hsh : PAGE_SIZE_XLEN + i * SUB_VPN_XLEN = 12 + 9 * i := by
    simp [PAGE_SIZE_XLEN, SUB_VPN_XLEN, Nat.mul_comm]
  unfold SvMode.vpnIndex Sv.vpnSlice
  rw [vpn_shiftRight va hk, hsh]
  exact toNat_shiftRight_and_mask va (12 + 9 * i) 9 (by decide)

section Entry

variable {e : PageTableEntry} {va entry : WordType} {i : Nat}

theorem PageTableEntry.flags_eq : e.flags = e.bits.setWidth 8 := by
  refine eq_of_getLsbD_eq fun k hk => ?_
  have hmask : (0x3ff#64).getLsbD k := by
    rw [show (0x3ff#64) = BitVec.ofNat 64 (2 ^ 10 - 1) from rfl, getLsbD_ofNat,
      Nat.testBit_two_pow_sub_one]
    simp
    omega
  simp only [flags, PTE_FLAG_MASK, getLsbD_setWidth, getLsbD_and, hmask, Bool.and_true]

theorem PageTableEntry.getLsbD_flags {k : Nat} (hk : k < 8) :
    e.flags.getLsbD k = e.bits.toNat.testBit k := by
  rw [flags_eq, getLsbD_setWidth, testBit_toNat]
  simp [hk]

/-- The three tests of the walk on an entry, as tests on its bits. -/
theorem wellFormed_eq : Sv.wellFormed e.bits.toNat = (e.isValid && !e.isInvalidEncoding) := by
  have hV : ∀ f : PTEFlags, (f &&& V != 0) = f.getLsbD 0 := by decide
  have hW : ∀ f : PTEFlags, (f &&& (R ||| W) == W) = (f.getLsbD 2 && !f.getLsbD 1) := by decide
  rw [isValid, isInvalidEncoding, hV, hW, Sv.wellFormed,
    getLsbD_flags (by decide), getLsbD_flags (by decide),
    getLsbD_flags (by decide)]

theorem isLeaf_eq : Sv.isLeaf e.bits.toNat = e.isLeaf := by
  have h : ∀ f : PTEFlags, (f &&& (R ||| W ||| X) != 0) =
      (f.getLsbD 1 || f.getLsbD 2 || f.getLsbD 3) := by decide
  rw [PageTableEntry.isLeaf, hasAnyFlag, h, Sv.isLeaf,
    getLsbD_flags (by decide), getLsbD_flags (by decide),
    getLsbD_flags (by decide)]

theorem entryPpn_lt (n : Nat) : Sv.entryPpn n < 2 ^ 44 := Nat.mod_lt _ (by decide)

theorem ppn_toNat : e.ppn.toNat = Sv.entryPpn e.bits.toNat * 2 ^ 12 := by
  have hfield : (e.bits &&& PTE_PPN_MASK) >>> PTE_FLAG_XLEN =
      (e.bits >>> 10) &&& BitVec.ofNat 64 (2 ^ 44 - 1) := by
    rw [ushiftRight_and_distrib]
    rfl
  have hnum : ((e.bits &&& PTE_PPN_MASK) >>> PTE_FLAG_XLEN).toNat = Sv.entryPpn e.bits.toNat := by
    rw [hfield, toNat_shiftRight_and_mask _ _ _ (by decide)]
    rfl
  have hlt := entryPpn_lt e.bits.toNat
  rw [ppn, fromPpn, toNat_shiftLeft, hnum, PAGE_SIZE_XLEN, Nat.shiftLeft_eq]
  exact Nat.mod_eq_of_lt (by omega)

/-- The superpage test looks at the page-number bits below level `i`. -/
theorem superpageMask_eq_zero_iff (hi : i ≤ 4) :
    e.bits &&& superpageMask i = 0 ↔ Sv.entryPpn e.bits.toNat % 2 ^ (9 * i) = 0 := by
  have hshift : e.bits &&& superpageMask i =
      ((e.bits >>> 10) &&& BitVec.ofNat 64 (2 ^ (9 * i) - 1)) <<< 10 := by
    refine eq_of_getLsbD_eq fun k hk => ?_
    simp only [superpageMask, PTE_FLAG_XLEN, SUB_VPN_XLEN, getLsbD_and,
      getLsbD_shiftLeft, getLsbD_ushiftRight, Nat.mul_comm i 9]
    by_cases h10 : k < 10
    · simp [h10]
    · rw [Nat.add_sub_cancel' (Nat.le_of_not_lt h10)]
      simp [h10, hk]
  have hle : 2 ^ (9 * i) ≤ 2 ^ 36 := Nat.pow_le_pow_right (by decide) (by omega)
  have hdvd : 2 ^ (9 * i) ∣ 2 ^ 44 := Nat.pow_dvd_pow 2 (by omega)
  have hval := toNat_shiftRight_and_mask e.bits 10 (9 * i) (by omega)
  have hlt : e.bits.toNat / 2 ^ 10 % 2 ^ (9 * i) < 2 ^ (9 * i) :=
    Nat.mod_lt _ (Nat.two_pow_pos _)
  rw [hshift, ← toNat_inj, toNat_shiftLeft, hval, Nat.shiftLeft_eq,
    Nat.mod_eq_of_lt (by omega), Sv.entryPpn, Nat.mod_mod_of_dvd _ hdvd]
  show _ * 2 ^ 10 = 0 ↔ _
  omega

theorem leafPaddr_toNat (va : WordType) (info : WalkInfo) (hlevel : info.leafLevel = i)
    (hppn : info.leafPpn = e.ppn) (hi : i ≤ 4) (halign : Sv.entryPpn e.bits.toNat % 2 ^ (9 * i) = 0) :
    (leafPaddr info va).toNat = Sv.leafAddr va.toNat i e.bits.toNat := by
  have hshift : PAGE_SIZE_XLEN + info.leafLevel * SUB_VPN_XLEN = 12 + 9 * i := by
    simp [PAGE_SIZE_XLEN, SUB_VPN_XLEN, hlevel, Nat.mul_comm]
  have hoff : (va &&& BitVec.ofNat 64 (2 ^ (12 + 9 * i) - 1)).toNat =
      va.toNat % 2 ^ (12 + 9 * i) := by
    simpa using toNat_shiftRight_and_mask va 0 (12 + 9 * i) (by omega)
  have hppn' : Sv.entryPpn e.bits.toNat * 2 ^ 12 =
      Sv.entryPpn e.bits.toNat / 2 ^ (9 * i) * 2 ^ (12 + 9 * i) := by
    have hdiv := Nat.div_add_mod (Sv.entryPpn e.bits.toNat) (2 ^ (9 * i))
    rw [halign, Nat.add_zero] at hdiv
    calc Sv.entryPpn e.bits.toNat * 2 ^ 12
        = 2 ^ (9 * i) * (Sv.entryPpn e.bits.toNat / 2 ^ (9 * i)) * 2 ^ 12 := by rw [hdiv]
      _ = _ := by rw [Nat.pow_add]; ac_rfl
  have hlow : va.toNat % 2 ^ (12 + 9 * i) < 2 ^ (12 + 9 * i) :=
    Nat.mod_lt _ (Nat.two_pow_pos _)
  have hor : (info.leafPpn ||| (va &&& BitVec.ofNat 64 (2 ^ (12 + 9 * i) - 1))).toNat =
      Sv.leafAddr va.toNat i e.bits.toNat := by
    rw [toNat_or, hoff, hppn, ppn_toNat, hppn', ← Nat.shiftLeft_eq,
      ← Nat.shiftLeft_add_eq_or_of_lt hlow, Nat.shiftLeft_eq]
    rfl
  have hlt : Sv.leafAddr va.toNat i e.bits.toNat < 2 ^ 56 := by
    have h1 : Sv.entryPpn e.bits.toNat / 2 ^ (9 * i) < 2 ^ (44 - 9 * i) := by
      rw [Nat.div_lt_iff_lt_mul (Nat.two_pow_pos _), ← Nat.pow_add]
      have : 44 - 9 * i + 9 * i = 44 := by omega
      rw [this]
      exact entryPpn_lt _
    have h2 : 2 ^ (44 - 9 * i) * 2 ^ (12 + 9 * i) = 2 ^ 56 := by
      rw [← Nat.pow_add]
      congr 1
      omega
    calc Sv.leafAddr va.toNat i e.bits.toNat
        < (Sv.entryPpn e.bits.toNat / 2 ^ (9 * i) + 1) * 2 ^ (12 + 9 * i) := by
          rw [Sv.leafAddr, Nat.add_mul, Nat.one_mul]
          omega
      _ ≤ 2 ^ (44 - 9 * i) * 2 ^ (12 + 9 * i) := Nat.mul_le_mul_right _ h1
      _ = 2 ^ 56 := h2
  have hmask := toNat_shiftRight_and_mask
    (info.leafPpn ||| (va &&& BitVec.ofNat 64 (2 ^ (12 + 9 * i) - 1))) 0 56 (by decide)
  unfold leafPaddr physicalAddr PHYSICAL_ADDR_WIDTH
  simp only [hshift]
  simp only [ushiftRight_zero, Nat.pow_zero, Nat.div_one] at hmask
  rw [hmask, hor, Nat.mod_eq_of_lt hlt]

end Entry

/-! ## Level by level -/

section Walk

variable {mem : Ram} {va entry : WordType} {i : Nat}

/-- Indexing a table never overflows, because tables start on a page. -/
theorem checkedAdd_vpnIndex (va : WordType) (i : Nat) (halign : entry.toNat % 2 ^ 12 = 0) :
    ∃ a, checkedAdd entry (SvMode.vpnIndex (vpn va) i * 8#64) = .ok a ∧
      a.toNat = Sv.pteAddr va.toNat i entry.toNat := by
  have hidx := vpnIndex_toNat va i
  have hlt : Sv.vpnSlice va.toNat i < 2 ^ 9 := Nat.mod_lt _ (by decide)
  have hmul : (SvMode.vpnIndex (vpn va) i * 8#64).toNat = 8 * Sv.vpnSlice va.toNat i := by
    rw [toNat_mul, hidx, toNat_ofNat]
    omega
  have hsum : entry.toNat + 8 * Sv.vpnSlice va.toNat i < 2 ^ 64 := by omega
  refine ⟨_, by rw [checkedAdd, hmul, if_pos hsum], ?_⟩
  rw [toNat_add, hmul, Nat.mod_eq_of_lt hsum]
  rfl

/-- An entry that lies in RAM is loaded, whatever it holds. -/
theorem loadPte_of_inRam (mem : Ram) {a : WordType} (ha : InRam a.toNat) (h8 : a.toNat % 8 = 0) :
    ∃ pte, loadPte mem a = .ok (.ok pte) ∧ pte.bits.toNat = mem.physWord a.toNat :=
  ⟨_, loadPte_of_aligned ha.1 ha.2 h8, rfl⟩

theorem pteAddr_mod_eight {table : Nat} (h : table % 2 ^ 12 = 0) :
    Sv.pteAddr va.toNat i table % 8 = 0 := by
  unfold Sv.pteAddr
  omega

/-- What an entry means to the walker is what it means to the reference. -/
theorem stepPte_cases (a : WordType) (pte : PageTableEntry) (hi : i ≤ 4) :
    (∃ err, stepPte i a pte = .fault err ∧ (Sv.wellFormed pte.bits.toNat = false ∨
        Sv.isLeaf pte.bits.toNat ∧ Sv.entryPpn pte.bits.toNat % 2 ^ (9 * i) ≠ 0)) ∨
      (stepPte i a pte = .leaf ⟨i, pte.flags, a, pte.ppn⟩ ∧ Sv.wellFormed pte.bits.toNat ∧
        Sv.isLeaf pte.bits.toNat ∧ Sv.entryPpn pte.bits.toNat % 2 ^ (9 * i) = 0) ∨
      (stepPte i a pte = .table pte.ppn ∧ Sv.wellFormed pte.bits.toNat ∧
        Sv.isLeaf pte.bits.toNat = false) := by
  unfold stepPte
  rw [wellFormed_eq, isLeaf_eq]
  cases hv : pte.isValid with
  | false => exact .inl ⟨_, rfl, .inl rfl⟩
  | true =>
    cases he : pte.isInvalidEncoding with
    | true => exact .inl ⟨_, rfl, .inl rfl⟩
    | false =>
      cases hl : pte.isLeaf with
      | false => exact .inr (.inr ⟨rfl, rfl, rfl⟩)
      | true =>
        by_cases hm : pte.bits &&& superpageMask i = 0
        · have hp := (superpageMask_eq_zero_iff hi).mp hm
          exact .inr (.inl ⟨by simp [hm], rfl, rfl, hp⟩)
        · have hp := mt (superpageMask_eq_zero_iff hi).mpr hm
          exact .inl ⟨.alignFault, by simpa using hm, .inr ⟨rfl, hp⟩⟩

/-- One level: either both walks end here, with the same answer, or both go on
to the same table. -/
theorem walkPteFrom_level (mem : Ram) (hi : i ≤ 4) (halign : entry.toNat % 2 ^ 12 = 0)
    (hram : InRam (Sv.pteAddr va.toNat i entry.toNat)) :
    (∃ r, walkPteFrom mem (vpn va) i entry = .ok r ∧
      Sv.walk mem.physWord va.toNat i entry.toNat =
        r.toOption.map fun info => (leafPaddr info va).toNat) ∨
    ∃ (j : Nat) (next : WordType), i = j + 1 ∧ next.toNat % 2 ^ 12 = 0 ∧
      walkPteFrom mem (vpn va) i entry = walkPteFrom mem (vpn va) j next ∧
      Sv.walk mem.physWord va.toNat i entry.toNat = Sv.walk mem.physWord va.toNat j next.toNat ∧
      Sv.visits mem.physWord va.toNat i entry.toNat =
        Sv.pteAddr va.toNat i entry.toNat :: Sv.visits mem.physWord va.toNat j next.toNat := by
  obtain ⟨a, hadd, ha⟩ := checkedAdd_vpnIndex va i halign
  have h8 : a.toNat % 8 = 0 := by
    rw [ha]
    exact pteAddr_mod_eight halign
  obtain ⟨pte, hload, hbits⟩ := loadPte_of_inRam mem (ha ▸ hram) h8
  rw [ha] at hbits
  have hppn : pte.ppn.toNat = Sv.entryPpn (mem.physWord (Sv.pteAddr va.toNat i entry.toNat)) *
      2 ^ 12 := by rw [ppn_toNat, hbits]
  rw [walkPteFrom.eq_def, Sv.walk.eq_def, Sv.visits.eq_def, hadd]
  simp only [bind, Except.bind, hload]
  rcases stepPte_cases a pte hi with
    ⟨err, hs, hbad⟩ | ⟨hs, hw, hl, hp⟩ | ⟨hs, hw, hl⟩
  · rw [hs]
    refine .inl ⟨.error err, rfl, ?_⟩
    rw [hbits] at hbad
    rcases hbad with hw | ⟨hl, hp⟩
    · rw [hw]; rfl
    · rw [hl, if_pos rfl, if_neg hp, ite_self]; rfl
  · rw [hs]
    have hleaf := leafPaddr_toNat va ⟨i, pte.flags, a, pte.ppn⟩ rfl rfl hi hp
    rw [hbits] at hw hl hp hleaf
    refine .inl ⟨_, rfl, ?_⟩
    rw [if_pos hw, if_pos hl, if_pos hp, ← hleaf]
    rfl
  · rw [hs]
    rw [hbits] at hw hl
    rw [hw, hl, ← hppn]
    cases i with
    | zero => exact .inl ⟨_, rfl, rfl⟩
    | succ j => exact .inr ⟨j, pte.ppn, rfl, by rw [hppn]; omega, rfl, rfl, rfl⟩

/-- The walker takes the reference's walk, from any level and any table. -/
theorem walkPteFrom_eq_walk (mem : Ram) (va : WordType) (hi : i ≤ 4) (halign : entry.toNat % 2 ^ 12 = 0)
    (hram : ∀ a ∈ Sv.visits mem.physWord va.toNat i entry.toNat, InRam a) :
    ∃ r, walkPteFrom mem (vpn va) i entry = .ok r ∧
      Sv.walk mem.physWord va.toNat i entry.toNat =
        r.toOption.map fun info => (leafPaddr info va).toNat := by
  have hhere : InRam (Sv.pteAddr va.toNat i entry.toNat) :=
    hram _ (by rw [Sv.visits]; exact List.mem_cons_self)
  induction i using Nat.strongRecOn generalizing entry with
  | ind i ih =>
    rcases walkPteFrom_level mem hi halign hhere with h | ⟨j, next, rfl, hn, hw, hr, hv⟩
    · exact h
    · rw [hw, hr]
      rw [hv] at hram
      have htail : ∀ a ∈ Sv.visits mem.physWord va.toNat j next.toNat, InRam a :=
        fun a ha => hram a (List.mem_cons_of_mem _ ha)
      exact ih j j.lt_succ_self (by omega) hn htail (htail _ (by rw [Sv.visits]; exact List.mem_cons_self))

end Walk

/-! ## The whole translation -/

section Translate

variable {w : PageTableWalker} {m : SvMode}

theorem walkPte_of_mode (hmode : w.mode = m.toMode) (mem : Ram) (vpn : WordType) :
    w.walkPte mem vpn = walkPteFrom mem vpn (m.LEVELS - 1) (fromPaddr w.rootAddress) := by
  unfold walkPte
  rw [hmode]
  cases m <;> rfl

theorem isCanonicalVaddr_of_mode (hmode : w.mode = m.toMode) (va : WordType) :
    w.isCanonicalVaddr va = m.isCanonicalVaddr va := by
  unfold isCanonicalVaddr
  rw [hmode]
  cases m <;> rfl

theorem mode_ne_none (hmode : w.mode = m.toMode) : w.mode ≠ .none := by
  rw [hmode]
  cases m <;> decide

theorem fromPaddr_aligned (a : WordType) : (fromPaddr a).toNat % 2 ^ 12 = 0 := by
  have h : (fromPaddr a).toNat % 2 ^ 12 = 0 ↔ fromPaddr a &&& BitVec.ofNat 64 (2 ^ 12 - 1) = 0 := by
    have := toNat_shiftRight_and_mask (fromPaddr a) 0 12 (by decide)
    simp only [ushiftRight_zero, Nat.pow_zero, Nat.div_one] at this
    rw [← this, ← toNat_inj]
    rfl
  rw [h, fromPaddr, BitVec.and_assoc]
  exact and_zero

theorem leaf_level_le (m : SvMode) : m.LEVELS - 1 ≤ 4 := by cases m <;> decide

/-- With an empty TLB, no permission to check and no A/D effect, a translation
succeeds with `p` exactly when the reference walk ends at `p`, and is an error
otherwise. -/
theorem translateVaddr_eq_reference (m : SvMode) (w : PageTableWalker) (mem : Ram)
    (va : WordType) (hmode : w.mode = m.toMode) (htlb : ∀ a, w.tlb.get a = none)
    (hram : Sv.canonical m va → ∀ a ∈ Sv.visits mem.physWord va.toNat (m.LEVELS - 1)
      (fromPaddr w.rootAddress).toNat, InRam a) :
    ∃ r w', w.translateVaddr mem va ⟨0, 0, 0⟩ .none = .ok (r, w', mem) ∧
      ∀ p : WordType, r = .ok p ↔
        Sv.translate m mem.physWord (fromPaddr w.rootAddress).toNat va = some p.toNat := by
  have hne := mode_ne_none hmode
  have hcan := isCanonicalVaddr_of_mode hmode va
  unfold Sv.translate
  by_cases hc : Sv.canonical m va
  · rw [isCanonicalVaddr_iff.mpr hc] at hcan
    obtain ⟨r, hwalk, href⟩ := walkPteFrom_eq_walk mem va (leaf_level_le m)
      (fromPaddr_aligned w.rootAddress) (hram hc)
    rw [← walkPte_of_mode hmode] at hwalk
    rw [if_pos hc, href, translateVaddr_of_miss hne hcan (htlb _), hwalk]
    cases r with
    | error e => exact ⟨_, _, rfl, fun p => by simp [Except.toOption]⟩
    | ok info =>
      have hperm : permits ⟨0, 0, 0⟩ info.leafFlags := by
        simp [permits]
      refine ⟨_, _, translateLeaf_of_no_need hperm rfl, fun p => ?_⟩
      simp [Except.toOption, toNat_inj]
  · rw [Bool.eq_false_iff.mpr (mt isCanonicalVaddr_iff.mp hc)] at hcan
    rw [if_neg hc]
    refine ⟨_, _, translateVaddr_of_not_canonical hne hcan, fun p => ?_⟩
    simp

/-- A root table at `0x80001000` whose third entry maps a gigapage onto itself. -/
def gigapageRam : Ram := (Ram.new.write .u64 0x1010 0x200000cf).2

theorem translateVaddr_eq_reference_gigapage :
    ∃ r w', (new 0x80001000 .page39bit).translateVaddr gigapageRam 0x80000123
        ⟨0, 0, 0⟩ .none = .ok (r, w', gigapageRam) ∧
      ∀ p : WordType, r = .ok p ↔
        Sv.translate .sv39 gigapageRam.physWord (fromPaddr 0x80001000).toNat 0x80000123 =
          some p.toNat :=
  translateVaddr_eq_reference .sv39 (.new 0x80001000 .page39bit) gigapageRam 0x80000123 rfl
    (fun _ => DirectCache.get_new_none) (fun _ => by decide +kernel)

example : Sv.translate .sv39 gigapageRam.physWord 0x80001000 0x80000123 = some 0x80000123 := by
  decide +kernel

end Translate

end HereEmu
