import HereEmu.Basic
import HereEmu.Lib.SlotTable

/-!
# The direct-mapped cache

`DirectCache<T, N>` of the source, used for the TLB and for decoded
instructions. The type carries the two numbers that select a slot: the shift
the cached type brings (`ADDR_SHIFT_BITS`) and the number of slots. The hit
counters of the wrapper around it are statistics and left out.
-/

namespace HereEmu

open Lib

structure DirectCache (shift n : Nat) (α : Type) where
  cache : SlotTable WordType Nat α

namespace DirectCache

variable {shift n : Nat} {α : Type}

/-- The slot of an address: its index, cut to the number of slots. -/
def getId (shift n : Nat) (addr : WordType) : Nat :=
  ((addr >>> shift) &&& BitVec.ofNat 64 (n - 1)).toNat

/-- A cache as it comes from zeroed memory. What an all-zero `Option<T>` reads
as depends on how the compiler lays out `T`, so it is a parameter. -/
def new (zeroed : Option α) : DirectCache shift n α := ⟨.fill 0 zeroed⟩

def get (c : DirectCache shift n α) (addr : WordType) : Option α :=
  c.cache.lookup (getId shift n) addr

def put (c : DirectCache shift n α) (addr : WordType) (data : α) : DirectCache shift n α :=
  ⟨c.cache.set (getId shift n) addr addr (some data)⟩

def invalidate (c : DirectCache shift n α) (addr : WordType) : DirectCache shift n α :=
  ⟨c.cache.set (getId shift n) addr 0 none⟩

def clear (_c : DirectCache shift n α) : DirectCache shift n α := ⟨.fill 0 none⟩

variable {c : DirectCache shift n α} {addr a : WordType} {d d' : α} {z : Option α}

@[simp] theorem get_clear : c.clear.get addr = none := by simp [clear, get]

theorem get_new : (new z : DirectCache shift n α).get addr = if 0 = addr then z else none :=
  SlotTable.lookup_fill z

@[simp] theorem get_new_none : (new none : DirectCache shift n α).get addr = none := by
  simp [get_new]

/-- A hit after a `put` is the entry just put, or was a hit before it. -/
theorem get_put (h : (c.put a d).get addr = some d') : (addr = a ∧ d' = d) ∨ c.get addr = some d' :=
  SlotTable.Sound.set (P := fun x y => (x = a ∧ y = d) ∨ c.get x = some y)
    (fun _ _ hold => .inr hold) (.inl ⟨rfl, rfl⟩) addr d' h

end DirectCache

end HereEmu
