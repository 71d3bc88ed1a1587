import HereEmu.Cache
import HereEmu.Ram

/-!
# The page-table walker

`PageTableWalker` with its TLB, for the three 64-bit paging modes. The walk
goes down one level per step and reads each entry straight from RAM; the leaf
it finds is cached before any permission is checked, so the check and the A/D
policy work on the cached flags.

The walk subtracts `BASE_ADDR` from a guest-chosen address with checked
arithmetic, which is a panic when the address lies below RAM. The result type
keeps that apart from the faults a guest sees.
-/

namespace HereEmu

/-- Checked addition of the development profile. -/
def checkedAdd (a b : WordType) : Rust WordType :=
  if a.toNat + b.toNat < 2 ^ 64 then .ok (a + b) else .error .overflow

/-- Checked subtraction of the development profile. -/
def checkedSub (a b : WordType) : Rust WordType :=
  if b.toNat ≤ a.toNat then .ok (a - b) else .error .overflow

/-! ## Configuration -/

def PAGE_SIZE_XLEN : Nat := 12
def PHYSICAL_ADDR_WIDTH : Nat := 56
def SUB_VPN_XLEN : Nat := 9
def SUB_VPN_MASK : WordType := 0x1ff#64
def PTE_FLAG_XLEN : Nat := 10
def PTE_FLAG_MASK : WordType := 0x3ff#64
/-- Bits 10 to 53 of an entry. -/
def PTE_PPN_MASK : WordType := 0x003ffffffffffc00#64

inductive VirtualMemoryMode where
  | page32bit | page39bit | page48bit | page57bit | none
  deriving DecidableEq, Repr

inductive AdUpdatePolicy where
  | autoSet | faultOnClear
  deriving DecidableEq, Repr

inductive AccessEffect where
  | none | accessed | accessedDirty
  deriving DecidableEq, Repr

/-- The paging modes that have a page table. -/
inductive SvMode where
  | sv39 | sv48 | sv57
  deriving DecidableEq, Repr

namespace SvMode

def LEVELS : SvMode → Nat
  | sv39 => 3
  | sv48 => 4
  | sv57 => 5

def VA_BITS : SvMode → Nat
  | sv39 => 39
  | sv48 => 48
  | sv57 => 57

/-- The 9-bit slice of a page number that indexes the table at `level`. -/
def vpnIndex (vpn : WordType) (level : Nat) : WordType :=
  (vpn >>> (PAGE_SIZE_XLEN + level * SUB_VPN_XLEN)) &&& SUB_VPN_MASK

def isCanonicalVaddr (m : SvMode) (vaddr : WordType) : Bool := isSignExtended vaddr m.VA_BITS

end SvMode

/-! ## Addresses -/

/-- A virtual address without its page offset. -/
def vpn (vaddr : WordType) : WordType := vaddr &&& ~~~(0xfff#64)

/-- The address of the page with number `ppn`. -/
def fromPpn (ppn : WordType) : WordType := ppn <<< PAGE_SIZE_XLEN

/-- The address of the page `paddr` lies in. -/
def fromPaddr (paddr : WordType) : WordType := paddr &&& ~~~(0xfff#64)

/-- The conversion to a physical address, which keeps 56 bits. -/
def physicalAddr (v : WordType) : WordType := v &&& BitVec.ofNat 64 (2 ^ PHYSICAL_ADDR_WIDTH - 1)

/-! ## Page-table entries -/

abbrev PTEFlags := BitVec 8

namespace PTEFlags

def V : PTEFlags := 0x01#8
def R : PTEFlags := 0x02#8
def W : PTEFlags := 0x04#8
def X : PTEFlags := 0x08#8
def U : PTEFlags := 0x10#8
def A : PTEFlags := 0x40#8
def D : PTEFlags := 0x80#8

def contains (f g : PTEFlags) : Bool := f &&& g == g

end PTEFlags

structure PageTableEntry where
  bits : WordType
  deriving DecidableEq, Repr

namespace PageTableEntry

variable (e : PageTableEntry)

def ppn : WordType := fromPpn ((e.bits &&& PTE_PPN_MASK) >>> PTE_FLAG_XLEN)

/-- The flags are the low ten bits cast to a byte. -/
def flags : PTEFlags := (e.bits &&& PTE_FLAG_MASK).setWidth 8

def hasAnyFlag (f : PTEFlags) : Bool := e.flags &&& f != 0

def isLeaf : Bool := e.hasAnyFlag (.R ||| .W ||| .X)

def isInvalidEncoding : Bool :=
  e.flags &&& (PTEFlags.R ||| PTEFlags.W) == PTEFlags.W

def isValid : Bool := e.flags &&& .V != 0

def setFlag (f : PTEFlags) : PageTableEntry := ⟨e.bits ||| f.setWidth 64⟩

def setAccessed : PageTableEntry := e.setFlag .A

def setDirty : PageTableEntry := e.setFlag .D

/-- The PPN bits below level `i`, which a leaf at that level must not set. -/
def superpageMask (i : Nat) : WordType :=
  (BitVec.ofNat 64 (2 ^ (i * SUB_VPN_XLEN) - 1)) <<< PTE_FLAG_XLEN

end PageTableEntry

/-! ## The walk -/

inductive PageTableError where
  | alignFault | pageFault | privilegeFault
  deriving DecidableEq, Repr

structure PermissionCheck where
  /-- At least one of these flags must be set, unless there are none. -/
  anyOf : PTEFlags
  exactMask : PTEFlags
  exactFlags : PTEFlags
  deriving DecidableEq, Repr

structure WalkInfo where
  leafLevel : Nat
  leafFlags : PTEFlags
  leafPteAddr : WordType
  leafPpn : WordType
  deriving DecidableEq, Repr

/-- What one entry means for the walk: a fault, the leaf, or the next table. -/
inductive PteStep where
  | fault (e : PageTableError)
  | leaf (info : WalkInfo)
  | table (entry : WordType)
  deriving DecidableEq, Repr

def loadPte (mem : Ram) (pteAddr : WordType) : Rust (Except PageTableError PageTableEntry) := do
  let offset ← checkedSub pteAddr BASE_ADDR
  match mem.read .u64 offset with
  | .error _ => .ok (.error .pageFault)
  | .ok bits => .ok (.ok ⟨bits⟩)

def stepPte (i : Nat) (pteAddr : WordType) (pte : PageTableEntry) : PteStep :=
  if !pte.isValid then .fault .pageFault
  else if pte.isInvalidEncoding then .fault .pageFault
  else if pte.isLeaf then
    if pte.bits &&& PageTableEntry.superpageMask i != 0 then .fault .alignFault
    else .leaf ⟨i, pte.flags, pteAddr, pte.ppn⟩
  else .table pte.ppn

/-- The loop of `walk_pte_with_mode`, from level `i` down. `entry` is the
address of the table at that level. -/
def walkPteFrom (mem : Ram) (vpn : WordType) (i : Nat) (entry : WordType) :
    Rust (Except PageTableError WalkInfo) := do
  let pteAddr ← checkedAdd entry (SvMode.vpnIndex vpn i * 8#64)
  match ← loadPte mem pteAddr with
  | .error e => .ok (.error e)
  | .ok pte =>
    match stepPte i pteAddr pte with
    | .fault e => .ok (.error e)
    | .leaf info => .ok (.ok info)
    | .table next =>
      match i with
      | 0 => .ok (.error .pageFault)
      | i + 1 => walkPteFrom mem vpn i next

structure PageTableWalker where
  tlb : DirectCache 12 512 WalkInfo
  rootAddress : WordType
  mode : VirtualMemoryMode
  adUpdatePolicy : AdUpdatePolicy

namespace PageTableWalker

variable (w : PageTableWalker) (mem : Ram)

def new (rootAddress : WordType) (mode : VirtualMemoryMode) : PageTableWalker where
  tlb := .new none
  rootAddress := rootAddress
  mode := mode
  adUpdatePolicy := .faultOnClear

def flushTlb : PageTableWalker := { w with tlb := w.tlb.clear }

def setAdUpdatePolicy (p : AdUpdatePolicy) : PageTableWalker :=
  { w with adUpdatePolicy := p }

def setMode (w : PageTableWalker) (mode : WordType) : Rust PageTableWalker :=
  if mode = 0 then .ok { w with mode := .none }
  else if mode = 1 then .ok { w with mode := .page32bit }
  else if mode = 8 then .ok { w with mode := .page39bit }
  else if mode = 9 then .ok { w with mode := .page48bit }
  else if mode = 10 then .ok { w with mode := .page57bit }
  else .error .setMode

def setRootAddr (rootAddress : WordType) : PageTableWalker :=
  { w with rootAddress := rootAddress }

def walkPteWithMode (w : PageTableWalker) (m : SvMode) (mem : Ram) (vpn : WordType) :
    Rust (Except PageTableError WalkInfo) :=
  walkPteFrom mem vpn (m.LEVELS - 1) (fromPaddr w.rootAddress)

def walkPte (vpn : WordType) : Rust (Except PageTableError WalkInfo) :=
  match w.mode with
  | .page39bit => w.walkPteWithMode .sv39 mem vpn
  | .page48bit => w.walkPteWithMode .sv48 mem vpn
  | .page57bit => w.walkPteWithMode .sv57 mem vpn
  | _ => .error .walkMode

def isCanonicalVaddr (w : PageTableWalker) (vaddr : WordType) : Bool :=
  match w.mode with
  | .page39bit => SvMode.sv39.isCanonicalVaddr vaddr
  | .page48bit => SvMode.sv48.isCanonicalVaddr vaddr
  | .page57bit => SvMode.sv57.isCanonicalVaddr vaddr
  | _ => true

/-- The read-modify-write of the entry at `pteAddr` through a raw pointer. -/
def updatePte (pteAddr : WordType) (f : PageTableEntry → PageTableEntry) : Rust Ram := do
  let offset ← checkedSub pteAddr BASE_ADDR
  -- Indexing RAM is bounds-checked at the first byte of the entry only.
  if offset.toNat < SIZE then
    let pte : PageTableEntry := ⟨Lib.loadLE mem.data offset.toNat 8⟩
    .ok { mem with data := Lib.storeLE mem.data offset.toNat 8 (f pte).bits }
  else .error .outOfBounds

theorem updatePte_eq_ok {mem mem' : Ram} {a : WordType} {f : PageTableEntry → PageTableEntry}
    (h : updatePte mem a f = .ok mem') : ∃ off : Nat,
      mem' = { mem with data := Lib.storeLE mem.data off 8 (f ⟨Lib.loadLE mem.data off 8⟩).bits } := by
  obtain ⟨offset, -, h⟩ := Lib.exists_of_bind_ok h
  split at h
  · cases h
    exact ⟨offset.toNat, rfl⟩
  · cases h

/-- Which of A and D the access needs and the cached leaf does not have. -/
def needAccessedDirty (info : WalkInfo) : AccessEffect → Bool × Bool
  | .none => (false, false)
  | .accessed => (!info.leafFlags.contains .A, false)
  | .accessedDirty => (!info.leafFlags.contains .A, !info.leafFlags.contains .D)

/-- The two `set_…` calls on the entry in RAM. -/
def setNeeded (needAccessed needDirty : Bool) (pte : PageTableEntry) : PageTableEntry :=
  let pte := if needAccessed then pte.setAccessed else pte
  if needDirty then pte.setDirty else pte

def applyAdPolicy (info : WalkInfo) (effect : AccessEffect) :
    Rust (Except PageTableError Unit × Ram) :=
  let (needAccessed, needDirty) := needAccessedDirty info effect
  if !needAccessed && !needDirty then .ok (.ok (), mem)
  else match w.adUpdatePolicy with
    | .autoSet => do
      let mem ← updatePte mem info.leafPteAddr (setNeeded needAccessed needDirty)
      .ok (.ok (), mem)
    | .faultOnClear => .ok (.error .pageFault, mem)

/-- The permission test on the flags of the leaf. -/
def permits (check : PermissionCheck) (flags : PTEFlags) : Bool :=
  !((flags &&& check.exactMask != check.exactFlags)
    || (check.anyOf != 0 && flags &&& check.anyOf == 0))

/-- The leaf's page together with the offset inside it. -/
def leafPaddr (info : WalkInfo) (vaddr : WordType) : WordType :=
  let pageShift := PAGE_SIZE_XLEN + info.leafLevel * SUB_VPN_XLEN
  physicalAddr (info.leafPpn ||| (vaddr &&& BitVec.ofNat 64 (2 ^ pageShift - 1)))

/-- The leaf for a page, from the TLB or else from a walk that fills it. -/
def lookupLeaf (vaddr : WordType) : Rust (Except PageTableError WalkInfo × PageTableWalker) :=
  match w.tlb.get (vpn vaddr) with
  | some info => .ok (.ok info, w)
  | none => do
    match ← w.walkPte mem (vpn vaddr) with
    | .error e => .ok (.error e, w)
    | .ok info => .ok (.ok info, { w with tlb := w.tlb.put (vpn vaddr) info })

/-- What follows once the leaf is known: permissions, A/D bits, the address. -/
def translateLeaf (vaddr : WordType) (info : WalkInfo)
    (check : PermissionCheck) (effect : AccessEffect) :
    Rust (Except PageTableError WordType × PageTableWalker × Ram) :=
  if !permits check info.leafFlags then .ok (.error .privilegeFault, w, mem)
  else do
    match ← w.applyAdPolicy mem info effect with
    | (.error e, mem) => .ok (.error e, w, mem)
    | (.ok (), mem) => .ok (.ok (leafPaddr info vaddr), w, mem)

def translateVaddr (vaddr : WordType)
    (check : PermissionCheck) (effect : AccessEffect) :
    Rust (Except PageTableError WordType × PageTableWalker × Ram) :=
  if w.mode = .none then .ok (.ok (physicalAddr vaddr), w, mem)
  else if !w.isCanonicalVaddr vaddr then .ok (.error .pageFault, w, mem)
  else do
    match ← w.lookupLeaf mem vaddr with
    | (.error e, w) => .ok (.error e, w, mem)
    | (.ok info, w) => w.translateLeaf mem vaddr info check effect

/-! ## Reading the definitions -/

section Lemmas

variable {w w' : PageTableWalker} {mem : Ram} {va : WordType} {check : PermissionCheck}
  {effect : AccessEffect} {info : WalkInfo}

theorem translateVaddr_of_bare (hm : w.mode = .none) :
    w.translateVaddr mem va check effect = .ok (.ok (physicalAddr va), w, mem) := by
  unfold translateVaddr
  rw [if_pos hm]

theorem translateVaddr_of_not_canonical (hm : w.mode ≠ .none)
    (hc : w.isCanonicalVaddr va = false) :
    w.translateVaddr mem va check effect = .ok (.error .pageFault, w, mem) := by
  unfold translateVaddr
  rw [if_neg hm, hc]
  rfl

/-- What follows the lookup of a leaf. -/
def translateFound (w : PageTableWalker) (mem : Ram) (va : WordType) (check : PermissionCheck)
    (effect : AccessEffect) : Except PageTableError WalkInfo →
      Rust (Except PageTableError WordType × PageTableWalker × Ram)
  | .error e => .ok (.error e, w, mem)
  | .ok info => w.translateLeaf mem va info check effect

theorem translateVaddr_of_canonical (hm : w.mode ≠ .none) (hc : w.isCanonicalVaddr va) :
    w.translateVaddr mem va check effect = w.lookupLeaf mem va >>= fun found =>
      found.2.translateFound mem va check effect found.1 := by
  unfold translateVaddr
  rw [if_neg hm, hc]
  refine bind_congr fun found => ?_
  obtain ⟨leaf, w'⟩ := found
  cases leaf <;> rfl

theorem lookupLeaf_of_hit (h : w.tlb.get (vpn va) = some info) :
    w.lookupLeaf mem va = .ok (.ok info, w) := by
  unfold lookupLeaf
  rw [h]

/-- The walker with what a walk found in its TLB. -/
def filled (w : PageTableWalker) (va : WordType) : Except PageTableError WalkInfo → PageTableWalker
  | .error _ => w
  | .ok info => { w with tlb := w.tlb.put (vpn va) info }

theorem flushTlb_filled (leaf : Except PageTableError WalkInfo) :
    (w.filled va leaf).flushTlb = w.flushTlb := by
  cases leaf <;> rfl

theorem lookupLeaf_of_miss (h : w.tlb.get (vpn va) = none) :
    w.lookupLeaf mem va = (w.walkPte mem (vpn va)).map fun leaf => (leaf, w.filled va leaf) := by
  unfold lookupLeaf
  rw [h]
  cases w.walkPte mem (vpn va) with
  | error p => rfl
  | ok leaf => cases leaf <;> rfl

theorem translateVaddr_of_hit (hm : w.mode ≠ .none) (hc : w.isCanonicalVaddr va)
    (h : w.tlb.get (vpn va) = some info) :
    w.translateVaddr mem va check effect = w.translateLeaf mem va info check effect := by
  rw [translateVaddr_of_canonical hm hc, lookupLeaf_of_hit h]
  rfl

theorem translateVaddr_of_miss (hm : w.mode ≠ .none) (hc : w.isCanonicalVaddr va)
    (h : w.tlb.get (vpn va) = none) :
    w.translateVaddr mem va check effect = w.walkPte mem (vpn va) >>= fun leaf =>
      (w.filled va leaf).translateFound mem va check effect leaf := by
  rw [translateVaddr_of_canonical hm hc, lookupLeaf_of_miss h]
  cases w.walkPte mem (vpn va) <;> rfl

theorem translateLeaf_of_not_permits (hp : permits check info.leafFlags = false) :
    w.translateLeaf mem va info check effect = .ok (.error .privilegeFault, w, mem) := by
  unfold translateLeaf
  rw [hp]
  rfl

/-- The leaf of a page comes from the TLB, or from a walk that filled it. -/
theorem lookupLeaf_cases {leaf : Except PageTableError WalkInfo}
    (h : w.lookupLeaf mem va = .ok (leaf, w')) :
    (∃ info, leaf = .ok info ∧ w.tlb.get (vpn va) = some info ∧ w' = w) ∨
    (w.tlb.get (vpn va) = none ∧ w.walkPte mem (vpn va) = .ok leaf ∧ w' = w.filled va leaf) := by
  cases hget : w.tlb.get (vpn va) with
  | some info =>
    rw [lookupLeaf_of_hit hget] at h
    cases h
    exact .inl ⟨info, rfl, rfl, rfl⟩
  | none =>
    rw [lookupLeaf_of_miss hget] at h
    obtain ⟨_, hwalk, ⟨⟩⟩ := Lib.exists_of_map_ok h
    exact .inr ⟨rfl, hwalk, rfl⟩

/-- A translation that returns leaves everything as it was, or got to a leaf. -/
theorem translateVaddr_cases {r : Except PageTableError WordType} {mem' : Ram}
    (h : w.translateVaddr mem va check effect = .ok (r, w', mem')) :
    (w' = w ∧ mem' = mem ∧ ((w.mode = .none ∧ r = .ok (physicalAddr va)) ∨
      (w.mode ≠ .none ∧ ∃ e, r = .error e))) ∨
    (w.mode ≠ .none ∧ w.isCanonicalVaddr va ∧ ∃ info w₁,
      w.lookupLeaf mem va = .ok (.ok info, w₁) ∧
      w₁.translateLeaf mem va info check effect = .ok (r, w', mem')) := by
  by_cases hm : w.mode = .none
  · rw [translateVaddr_of_bare hm] at h
    cases h
    exact .inl ⟨rfl, rfl, .inl ⟨hm, rfl⟩⟩
  cases hc : w.isCanonicalVaddr va with
  | false =>
    rw [translateVaddr_of_not_canonical hm hc] at h
    cases h
    exact .inl ⟨rfl, rfl, .inr ⟨hm, _, rfl⟩⟩
  | true =>
    rw [translateVaddr_of_canonical hm hc] at h
    obtain ⟨⟨leaf, w₁⟩, hlook, h⟩ := Lib.exists_of_bind_ok h
    cases leaf with
    | error e =>
      cases h
      rcases lookupLeaf_cases hlook with ⟨_, hr, _⟩ | ⟨-, -, hw⟩
      · cases hr
      · exact .inl ⟨hw, rfl, .inr ⟨hm, _, rfl⟩⟩
    | ok info => exact .inr ⟨hm, rfl, info, w₁, hlook, h⟩

/-- With nothing to set, the leaf's address is the answer and RAM stays. -/
theorem translateLeaf_of_no_need (hp : permits check info.leafFlags)
    (hn : needAccessedDirty info effect = (false, false)) :
    w.translateLeaf mem va info check effect = .ok (.ok (leafPaddr info va), w, mem) := by
  unfold translateLeaf applyAdPolicy
  rw [hp, hn]
  rfl

/-- A leaf leaves the walker as it is, and RAM too unless A and D are set there. -/
theorem translateLeaf_eq_ok {r : Except PageTableError WordType} {mem' : Ram}
    (h : w.translateLeaf mem va info check effect = .ok (r, w', mem')) :
    w' = w ∧ (mem' = mem ∨ w.adUpdatePolicy = .autoSet ∧ ∃ na nd,
      updatePte mem info.leafPteAddr (setNeeded na nd) = .ok mem') := by
  unfold translateLeaf at h
  split at h
  · cases h
    exact ⟨rfl, .inl rfl⟩
  · obtain ⟨⟨r₁, mem₁⟩, happly, h⟩ := Lib.exists_of_bind_ok h
    have heq : w' = w ∧ mem' = mem₁ := by cases r₁ <;> cases h <;> exact ⟨rfl, rfl⟩
    refine ⟨heq.1, ?_⟩
    rw [heq.2]
    unfold applyAdPolicy at happly
    dsimp only at happly
    split at happly
    · cases happly
      exact .inl rfl
    · split at happly
      · next hp =>
          obtain ⟨mem₂, hset, hmem⟩ := Lib.exists_of_bind_ok happly
          cases hmem
          exact .inr ⟨hp, _, _, hset⟩
      · cases happly
        exact .inl rfl

end Lemmas

end PageTableWalker

end HereEmu
