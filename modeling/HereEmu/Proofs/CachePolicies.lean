import HereEmu.Cache
import Mathlib.Data.List.Induction

/-!
# The two cache policies

`SetCache` keeps several ways for an index and fills them in turn. Whatever is
done to a cache, it is to answer for an address with the value that was put last,
or not at all once that value is gone. `DirectCache` keeps to that. `SetCache` does
with one way only: an address that is put again goes into the next way, and a
lookup stops at the first.
-/

namespace HereEmu

open Function

variable {α σ : Type} {shift sets ways : Nat}

/-! ## The set-associative cache -/

structure CacheSet (α : Type) where
  idx : Nat
  /-- As many as there are ways. -/
  slots : List (WordType × Option α)

namespace CacheSet

def new (ways : Nat) : CacheSet α := ⟨0, List.replicate ways (0, none)⟩

def insert (ways : Nat) (s : CacheSet α) (addr : WordType) (data : α) : CacheSet α where
  idx := if s.idx + 1 = ways then 0 else s.idx + 1
  slots := s.slots.set s.idx (addr, some data)

def invalidate (s : CacheSet α) (target : WordType) : CacheSet α :=
  match s.slots.findIdx? (·.1 == target) with
  | some index => { s with slots := s.slots.set index (0, none) }
  | none => s

end CacheSet

structure SetCache (shift sets ways : Nat) (α : Type) where
  cache : Nat → CacheSet α

namespace SetCache

def new : SetCache shift sets ways α := ⟨fun _ => .new ways⟩

def get (c : SetCache shift sets ways α) (addr : WordType) : Option α :=
  ((c.cache (DirectCache.getId shift sets addr)).slots.find? (·.1 == addr)).bind (·.2)

/-- One set is changed. -/
def onSet (c : SetCache shift sets ways α) (addr : WordType) (f : CacheSet α → CacheSet α) :
    SetCache shift sets ways α :=
  let i := DirectCache.getId shift sets addr
  ⟨update c.cache i (f (c.cache i))⟩

def put (c : SetCache shift sets ways α) (addr : WordType) (data : α) : SetCache shift sets ways α :=
  c.onSet addr (·.insert ways addr data)

def invalidate (c : SetCache shift sets ways α) (addr : WordType) : SetCache shift sets ways α :=
  c.onSet addr (·.invalidate addr)

end SetCache

/-! ## What is asked of a cache -/

/-- The trait, with the empty cache. -/
structure CachePolicy (σ α : Type) where
  new : σ
  get : σ → WordType → Option α
  put : σ → WordType → α → σ
  invalidate : σ → WordType → σ
  clear : σ → σ

def DirectCache.policy (shift n : Nat) : CachePolicy (DirectCache shift n α) α :=
  ⟨.new none, DirectCache.get, .put, .invalidate, .clear⟩

def SetCache.policy (shift sets ways : Nat) : CachePolicy (SetCache shift sets ways α) α :=
  ⟨.new, SetCache.get, .put, .invalidate, fun _ => .new⟩

inductive CacheOp (α : Type) where
  | put (addr : WordType) (data : α)
  | invalidate (addr : WordType)
  | clear

/-- The value that is there for an address after an operation, given the one before. -/
def CacheOp.leaves (addr : WordType) (value : Option α) : CacheOp α → Option α
  | put a data => if a = addr then some data else value
  | invalidate a => if a = addr then none else value
  | clear => none

/-- The value that was put last, unless it is gone. -/
def latest (ops : List (CacheOp α)) (addr : WordType) : Option α :=
  ops.foldl (CacheOp.leaves addr) none

namespace CachePolicy

def apply (p : CachePolicy σ α) (s : σ) : CacheOp α → σ
  | .put addr data => p.put s addr data
  | .invalidate addr => p.invalidate s addr
  | .clear => p.clear s

def run (p : CachePolicy σ α) (ops : List (CacheOp α)) : σ := ops.foldl p.apply p.new

/-- After any operations the cache answers with the latest value or not at all, and
with the value just put. -/
def Fresh (p : CachePolicy σ α) : Prop :=
  ∀ ops, (∀ addr data, p.get (p.run ops) addr = some data → latest ops addr = some data) ∧
    ∀ addr data, p.get (p.put (p.run ops) addr data) addr = some data

variable {p : CachePolicy σ α}

/-- Every operation leaves at most what it should of the answers before it. -/
theorem fresh_of_steps (I : σ → Prop) (hnew : I p.new ∧ ∀ a, p.get p.new a = none)
    (hstep : ∀ s op, I s → I (p.apply s op) ∧
      ∀ a v, p.get (p.apply s op) a = some v → op.leaves a (p.get s a) = some v)
    (hput : ∀ s a v, I s → p.get (p.put s a v) a = some v) : p.Fresh := by
  have hrun : ∀ ops : List (CacheOp α), I (p.run ops) ∧
      ∀ a v, p.get (p.run ops) a = some v → latest ops a = some v := by
    intro ops
    induction ops using List.reverseRecOn with
    | nil => exact ⟨hnew.1, fun a v h => (hnew.2 a).symm.trans h⟩
    | append_singleton ops op ih =>
      obtain ⟨hI, hleaves⟩ := hstep _ op ih.1
      simp only [run, latest, List.foldl_append, List.foldl_cons, List.foldl_nil] at ih ⊢
      refine ⟨hI, fun a v hget => ?_⟩
      have hv := hleaves a v hget
      cases op with
      | put b d | invalidate b =>
        simp only [CacheOp.leaves] at hv ⊢
        split at hv
        · next hab => rw [if_pos hab, hv]
        · next hab => rw [if_neg hab, ih.2 a v hv]
      | clear => cases hv
  exact fun ops => ⟨(hrun ops).2, fun addr data => hput _ addr data (hrun ops).1⟩

end CachePolicy

/-! ## One slot for an index -/

namespace DirectCache

variable {n : Nat} (c : DirectCache shift n α) (a b : WordType)

theorem get_put_same (v : α) : (c.put a v).get a = some v :=
  Lib.SlotTable.lookup_set.trans (if_pos rfl)

theorem put_leaves {v x : α} (h : (c.put b v).get a = some x) :
    (CacheOp.put b v).leaves a (c.get a) = some x := by
  rw [CacheOp.leaves]
  by_cases hab : b = a
  · subst hab
    rw [if_pos rfl, ← h, get_put_same]
  · rw [if_neg hab]
    exact Lib.SlotTable.lookup_of_lookup_set (Ne.symm hab) h

theorem invalidate_leaves {x : α} (h : (c.invalidate b).get a = some x) :
    (CacheOp.invalidate b).leaves a (c.get a) = some x := by
  have hget : (c.invalidate b).get a =
      if getId shift n a = getId shift n b then none else c.get a := by
    unfold get invalidate Lib.SlotTable.lookup Lib.SlotTable.set
    by_cases hi : getId shift n a = getId shift n b
    · simp only [hi, update_self, ite_self, if_true]
    · simp only [update_of_ne hi, if_neg hi]
  rw [hget] at h
  split at h
  · cases h
  · next hi => rw [CacheOp.leaves, if_neg fun hab => hi (by rw [hab]), h]

theorem fresh (shift n : Nat) : (DirectCache.policy shift n : CachePolicy _ α).Fresh := by
  refine CachePolicy.fresh_of_steps (fun _ => True) ⟨trivial, fun _ => get_new_none⟩
    (fun c op _ => ⟨trivial, fun a v h => ?_⟩) fun c a v _ => c.get_put_same a v
  cases op with
  | put b d => exact c.put_leaves a b h
  | invalidate b => exact c.invalidate_leaves a b h
  | clear => cases (get_clear (c := c)).symm.trans h

end DirectCache

namespace SetCache

/-- A cache with one way is one with a slot for an index. -/
def single (d : DirectCache shift sets α) : SetCache shift sets 1 α :=
  ⟨fun i => ⟨0, [d.cache.slots i]⟩⟩

variable {d : DirectCache shift sets α} {a : WordType}

theorem get_single : (single d).get a = d.get a := by
  unfold get single DirectCache.get Lib.SlotTable.lookup
  by_cases h : (d.cache.slots (DirectCache.getId shift sets a)).1 = a <;> simp [h]

theorem onSet_single {f : CacheSet α → CacheSet α} (slot : WordType × Option α)
    (hf : f ⟨0, [d.cache.slots (DirectCache.getId shift sets a)]⟩ = ⟨0, [slot]⟩) :
    (single d).onSet a f =
      single ⟨⟨update d.cache.slots (DirectCache.getId shift sets a) slot⟩⟩ := by
  refine congrArg mk (funext fun i => ?_)
  by_cases hi : i = DirectCache.getId shift sets a
  · subst hi
    simp only [single, update_self, hf]
  · simp only [single, update_of_ne hi]

theorem put_single (v : α) : (single d).put a v = single (d.put a v) := onSet_single (a, some v) rfl

/-- An address that is not there is left alone. -/
theorem invalidate_single : (single d).invalidate a = single (d.invalidate a) ∨
    (single d).invalidate a = single d ∧ d.get a = none := by
  by_cases ha : (d.cache.slots (DirectCache.getId shift sets a)).1 = a
  · exact .inl (onSet_single (0, none) (by simp [CacheSet.invalidate, ha]))
  · refine .inr ⟨(onSet_single _ ?_).trans (by rw [update_eq_self]), if_neg ha⟩
    simp [CacheSet.invalidate, ha]

theorem fresh_single (shift sets : Nat) : (policy shift sets 1 : CachePolicy _ α).Fresh := by
  have hclear : ∀ a, (new : SetCache shift sets 1 α).get a = none := fun _ =>
    get_single.trans DirectCache.get_new_none
  refine CachePolicy.fresh_of_steps (fun c => ∃ d, c = single d) ⟨⟨.new none, rfl⟩, hclear⟩ ?_ ?_
  · rintro _ op ⟨d, rfl⟩
    cases op with
    | put b v =>
      refine ⟨⟨d.put b v, put_single v⟩, fun a x h => ?_⟩
      simp only [CachePolicy.apply, policy, put_single, get_single] at h ⊢
      exact d.put_leaves a b h
    | invalidate b =>
      simp only [CachePolicy.apply, policy, get_single]
      rcases invalidate_single with heq | ⟨heq, hnone⟩
      · refine ⟨⟨_, heq⟩, fun a x h => ?_⟩
        rw [heq, get_single] at h
        exact d.invalidate_leaves a b h
      · refine ⟨⟨_, heq⟩, fun a x h => ?_⟩
        rw [heq, get_single] at h
        by_cases hab : b = a
        · subst hab
          cases hnone.symm.trans h
        · rw [CacheOp.leaves, if_neg hab, h]
    | clear => exact ⟨⟨.new none, rfl⟩, fun a x h => by cases (hclear a).symm.trans h⟩
  · rintro _ a v ⟨d, rfl⟩
    simp only [policy, put_single, get_single, d.get_put_same]

/-- With a second way an address that was put twice is still there when it was
invalidated. -/
theorem not_fresh (v : α) (shift sets m : Nat) :
    ¬ (policy shift sets (m + 2) : CachePolicy _ α).Fresh := by
  intro h
  have hstale := (h [.put 1 v, .put 1 v, .invalidate 1]).1 1 v
    (by simp [CachePolicy.run, CachePolicy.apply, policy, get, put, invalidate, onSet, new,
      CacheSet.new, CacheSet.insert, CacheSet.invalidate, List.replicate_succ, List.findIdx?_cons])
  simp [latest, CacheOp.leaves] at hstale

end SetCache

/-- `DirectCache` never returns stale data, and `SetCache` exactly if it has one way. -/
theorem cache_policies_fresh (v : α) (shift n sets k : Nat) :
    (DirectCache.policy shift n : CachePolicy _ α).Fresh ∧
      ((SetCache.policy shift sets (2 ^ k) : CachePolicy _ α).Fresh ↔ k = 0) := by
  refine ⟨DirectCache.fresh shift n, fun h => ?_, ?_⟩
  · by_contra hk
    obtain ⟨j, rfl⟩ := Nat.exists_eq_succ_of_ne_zero hk
    obtain ⟨m, hm⟩ : ∃ m, 2 ^ (j + 1) = m + 2 := by
      have hpos := Nat.two_pow_pos j
      exact ⟨2 ^ (j + 1) - 2, by omega⟩
    rw [Nat.succ_eq_add_one, hm] at h
    exact SetCache.not_fresh v shift sets m h
  · rintro rfl
    exact SetCache.fresh_single shift sets

/-- One set of two ways: the second value put for an address is not found. -/
theorem set_cache_returns_old :
    (SetCache.policy 0 1 2 : CachePolicy _ Nat).get
      ((SetCache.policy 0 1 2).run [.put 1 10, .put 1 20]) 1 = some 10 ∧
    latest [.put 1 10, .put 1 20] 1 = some 20 ∧
    ¬ (SetCache.policy 0 1 2 : CachePolicy _ Nat).Fresh := by
  refine ⟨rfl, rfl, fun h => ?_⟩
  have hstale := (h [.put 1 10, .put 1 20]).1 1 10 rfl
  cases hstale

end HereEmu
