import HereEmu.Basic
import Mathlib.Data.List.AList
import Mathlib.Data.List.Induction
import Mathlib.Data.List.MinMax

/-!
# The symbol table

`SymTab` keeps the symbols of an image in two maps, by name and by address. Each
symbol overwrites one entry of each, so the maps come apart where a name is listed
again with another address: the old address keeps the name. They agree exactly if
such an address is listed again as well.
-/

namespace HereEmu

open List

/-- A map by its entries. No key has two. -/
abbrev BTreeMap (κ ν : Type) := AList fun _ : κ => ν

structure BiMap (κ ν : Type) where
  forward : BTreeMap κ ν
  backward : BTreeMap ν κ

namespace BiMap

variable {κ ν : Type} [DecidableEq κ] [DecidableEq ν]

def new : BiMap κ ν := ⟨∅, ∅⟩

def insert (m : BiMap κ ν) (key : κ) (value : ν) : BiMap κ ν :=
  ⟨m.forward.insert key value, m.backward.insert value key⟩

def getByLeft (m : BiMap κ ν) (key : κ) : Option ν := m.forward.lookup key

def getByRight (m : BiMap κ ν) (value : ν) : Option κ := m.backward.lookup value

def iter (m : BiMap κ ν) : List (κ × ν) := m.forward.entries.map fun e => (e.1, e.2)

end BiMap

structure SymTab where
  symbols : BiMap String (BitVec 64)

namespace SymTab

/-- `SymTab::from`. -/
def ofSymbols (symbols : List (String × BitVec 64)) : SymTab :=
  ⟨symbols.foldl (fun table s => table.insert s.1 s.2) .new⟩

def funcAddrByName (t : SymTab) (name : String) : Option (BitVec 64) := t.symbols.getByLeft name

def funcNameByAddr (t : SymTab) (addr : BitVec 64) : Option String := t.symbols.getByRight addr

/-- `range(..=addr).next_back()` is the entry with the greatest key up to `addr`. -/
def funcNameInAddrRange (t : SymTab) (addr : BitVec 64) : Option String :=
  ((t.symbols.backward.entries.filter (·.1 ≤ addr)).argmax (·.1.toNat)).map (·.2)

def iter (t : SymTab) : List (String × BitVec 64) := t.symbols.iter

/-- Looking a symbol up one way and the other leads back to it. -/
structure Consistent (symbols : List (String × BitVec 64)) : Prop where
  inverse : ∀ a n, (ofSymbols symbols).funcNameByAddr a = some n →
    (ofSymbols symbols).funcAddrByName n = some a
  range : ∀ a n, (ofSymbols symbols).funcNameInAddrRange a = some n →
    ∃ b, (ofSymbols symbols).funcAddrByName n = some b ∧ b ≤ a ∧
      ∀ s ∈ symbols, ¬ (b < s.2 ∧ s.2 < a)
  iter : ∀ s ∈ (ofSymbols symbols).iter, (ofSymbols symbols).funcAddrByName s.1 = some s.2

/-- A symbol whose name is listed again has its address listed again. -/
def AddressesFollow (symbols : List (String × BitVec 64)) : Prop :=
  ∀ earlier s later, symbols = earlier ++ s :: later → (∃ s' ∈ later, s'.1 = s.1) →
    ∃ s' ∈ later, s'.2 = s.2

/-! ## What the maps hold -/

/-- The last insertion of a key counts. -/
theorem lookup_foldl_insert {β κ ν : Type} [DecidableEq κ] (key : β → κ) (value : β → ν)
    (l : List β) (k : κ) :
    (l.foldl (fun m s => m.insert (key s) (value s)) (∅ : BTreeMap κ ν)).lookup k =
      (l.reverse.find? (key · == k)).map value := by
  induction l using reverseRecOn with
  | nil => rfl
  | append_singleton l s ih =>
    rw [foldl_append, foldl_cons, foldl_nil, reverse_append,
      reverse_singleton, singleton_append, find?_cons]
    by_cases hk : key s = k
    · subst hk
      simp
    · rw [AList.lookup_insert_ne (Ne.symm hk), ih, beq_false_of_ne hk]

variable {symbols : List (String × BitVec 64)}

theorem funcAddrByName_eq (n : String) : (ofSymbols symbols).funcAddrByName n =
    (symbols.reverse.find? (·.1 == n)).map (·.2) := by
  rw [← lookup_foldl_insert]
  exact congrArg (AList.lookup n) (foldl_hom BiMap.forward fun _ _ => rfl).symm

theorem funcNameByAddr_eq (a : BitVec 64) : (ofSymbols symbols).funcNameByAddr a =
    (symbols.reverse.find? (·.2 == a)).map (·.1) := by
  rw [← lookup_foldl_insert]
  exact congrArg (AList.lookup a) (foldl_hom BiMap.backward fun _ _ => rfl).symm

/-! ## When they agree -/

theorem addressesFollow_of_inverse (h : ∀ a n, (ofSymbols symbols).funcNameByAddr a = some n →
    (ofSymbols symbols).funcAddrByName n = some a) : AddressesFollow symbols := by
  intro earlier s later hsplit hname
  by_contra hnone
  have hrev : symbols.reverse = later.reverse ++ s :: earlier.reverse := by simp [hsplit]
  have hlast : later.reverse.find? (·.2 == s.2) = none := by
    simpa using fun s' hs' heq => hnone ⟨s', hs', heq⟩
  have haddr := h s.2 s.1 (by
    rw [funcNameByAddr_eq, hrev, find?_append, hlast]
    simp)
  rw [funcAddrByName_eq, hrev, find?_append] at haddr
  cases hfind : later.reverse.find? (·.1 == s.1) with
  | none =>
    obtain ⟨s', hs', heq⟩ := hname
    exact find?_eq_none.1 hfind s' (mem_reverse.2 hs') (beq_iff_eq.2 heq)
  | some s' =>
    rw [hfind] at haddr
    exact hnone ⟨s', mem_reverse.1 (mem_of_find?_eq_some hfind), Option.some.inj haddr⟩

theorem inverse_of_addressesFollow (h : AddressesFollow symbols) (a : BitVec 64) (n : String)
    (hname : (ofSymbols symbols).funcNameByAddr a = some n) :
    (ofSymbols symbols).funcAddrByName n = some a := by
  rw [funcNameByAddr_eq, Option.map_eq_some_iff] at hname
  obtain ⟨s, hfind, rfl⟩ := hname
  obtain ⟨ha, later, earlier, hrev, hlater⟩ := find?_eq_some_iff_append.1 hfind
  rw [beq_iff_eq] at ha
  subst ha
  have hnone : later.find? (·.1 == s.1) = none := by
    rw [find?_eq_none]
    intro s' hs' heq
    obtain ⟨t, ht, htaddr⟩ := h earlier.reverse s later.reverse
      (by rw [← reverse_reverse symbols, hrev]; simp)
      ⟨s', mem_reverse.2 hs', beq_iff_eq.1 heq⟩
    have := hlater t (mem_reverse.1 ht)
    simp [htaddr] at this
  rw [funcAddrByName_eq, hrev, find?_append, hnone]
  simp

/-- The name found for a range has the address of the closest symbol below. -/
theorem range_of_addressesFollow (h : AddressesFollow symbols) (a : BitVec 64) (n : String)
    (hname : (ofSymbols symbols).funcNameInAddrRange a = some n) :
    ∃ b, (ofSymbols symbols).funcAddrByName n = some b ∧ b ≤ a ∧
      ∀ s ∈ symbols, ¬ (b < s.2 ∧ s.2 < a) := by
  obtain ⟨⟨b, n'⟩, hmax, rfl⟩ := Option.map_eq_some_iff.1 hname
  obtain ⟨hmem, hle⟩ := mem_filter.1 (argmax_mem hmax)
  refine ⟨b, inverse_of_addressesFollow h b n' (AList.mem_lookup_iff.2 hmem), of_decide_eq_true hle,
    fun s hs ⟨hlo, hhi⟩ => ?_⟩
  -- the address of every symbol is a key
  obtain ⟨m, hm⟩ : ∃ m, (ofSymbols symbols).funcNameByAddr s.2 = some m := by
    rw [funcNameByAddr_eq, ← Option.isSome_iff_exists, Option.isSome_map, find?_isSome]
    exact ⟨s, mem_reverse.2 hs, beq_self_eq_true s.2⟩
  refine absurd (le_of_mem_argmax (a := ⟨s.2, m⟩) ?_ hmax) (Nat.not_le_of_lt hlo)
  exact mem_filter.2 ⟨AList.mem_lookup_iff.1 hm, decide_eq_true (BitVec.le_of_lt hhi)⟩

theorem symbols_consistent_iff (symbols : List (String × BitVec 64)) :
    Consistent symbols ↔ AddressesFollow symbols := by
  refine ⟨fun h => addressesFollow_of_inverse h.inverse, fun h => ⟨inverse_of_addressesFollow h,
    range_of_addressesFollow h, fun s hs => ?_⟩⟩
  obtain ⟨e, he, rfl⟩ := mem_map.1 hs
  exact AList.mem_lookup_iff.2 he

/-- A name with two addresses: the first of them leads to the second. -/
theorem renamed_symbol_not_inverse :
    (ofSymbols [("f", 1), ("f", 2)]).funcNameByAddr 1 = some "f" ∧
      (ofSymbols [("f", 1), ("f", 2)]).funcAddrByName "f" = some 2 ∧
      ¬ Consistent [("f", 1), ("f", 2)] := by
  have hname : (ofSymbols [("f", 1), ("f", 2)]).funcNameByAddr 1 = some "f" := by decide
  have haddr : (ofSymbols [("f", 1), ("f", 2)]).funcAddrByName "f" = some 2 := by decide
  refine ⟨hname, haddr, fun h => ?_⟩
  cases haddr.symm.trans (h.inverse 1 "f" hname)

end SymTab

end HereEmu
