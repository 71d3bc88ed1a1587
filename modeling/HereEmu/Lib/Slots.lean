import HereEmu.Lib.ByteMemory

/-!
# Filling slots of a byte memory

A slot is `n` bytes from a place on. A loop goes through a list of slots and
stores a word in some of them. When no two slots of the list meet, the order
does not show in the result: a byte of a slot is a byte of that slot's word, or
what it was, and a byte of no slot is what it was.
-/

namespace HereEmu.Lib

variable {ι : Type} {w : Nat}

/-- The loop: slot `i` gets the low `n` bytes of the word `put i` has, if any. -/
def fill (n : Nat) (place : ι → Nat) (put : ι → Option (BitVec w)) (m : Nat → BitVec 8)
    (l : List ι) : Nat → BitVec 8 :=
  l.foldl (fun m i => match put i with
    | some v => storeLE m (place i) n v
    | none => m) m

/-- No two slots of the list meet. -/
def Apart (n : Nat) (place : ι → Nat) (l : List ι) : Prop :=
  l.Pairwise fun i j => place i + n ≤ place j ∨ place j + n ≤ place i

section

variable {n : Nat} {place : ι → Nat} {put : ι → Option (BitVec w)} {m : Nat → BitVec 8}
  {l : List ι} {i : ι} {b : Nat}

theorem fill_cons : fill n place put m (i :: l) =
    fill n place put (match put i with
      | some v => storeLE m (place i) n v
      | none => m) l := rfl

theorem fill_outside (h : ∀ i ∈ l, ¬ (place i ≤ b ∧ b < place i + n)) :
    fill n place put m l b = m b := by
  induction l generalizing m with
  | nil => rfl
  | cons i l ih =>
    rw [fill_cons, ih fun j hj => h j (List.mem_cons_of_mem i hj)]
    cases put i with
    | none => rfl
    | some v => exact storeLE_outside (h i List.mem_cons_self)

theorem fill_inside (hl : Apart n place l) (hi : i ∈ l) (h1 : place i ≤ b)
    (h2 : b < place i + n) : fill n place put m l b =
      match put i with
      | some v => (v >>> (8 * (b - place i))).setWidth 8
      | none => m b := by
  induction l generalizing m with
  | nil => cases hi
  | cons j l ih =>
    obtain ⟨hj, hl⟩ := List.pairwise_cons.1 hl
    rw [fill_cons]
    rcases List.mem_cons.1 hi with rfl | hi
    · -- the later slots do not meet this one
      rw [fill_outside fun j' hj' => by have := hj j' hj'; omega]
      cases put i with
      | none => rfl
      | some v => exact storeLE_inside h1 h2
    · -- the first slot does not meet this one
      rw [ih hl hi]
      have hout : ¬ (place j ≤ b ∧ b < place j + n) := by have := hj i hi; omega
      cases put j with
      | none => rfl
      | some v =>
        cases put i with
        | none => exact storeLE_outside hout
        | some u => rfl

/-- A filled slot read back. -/
theorem loadLE_fill (hl : Apart n place l) (hi : i ∈ l) :
    (loadLE (fill n place put m l) (place i) n : BitVec w) =
      match put i with
      | some v => v &&& BitVec.ofNat w (2 ^ (8 * n) - 1)
      | none => loadLE m (place i) n := by
  cases hput : put i with
  | none =>
    refine loadLE_congr fun b h1 h2 => ?_
    rw [fill_inside hl hi h1 h2, hput]
  | some v =>
    show _ = v &&& BitVec.ofNat w (2 ^ (8 * n) - 1)
    rw [← loadLE_storeLE_same (m := m) (a := place i)]
    refine loadLE_congr fun b h1 h2 => ?_
    rw [fill_inside hl hi h1 h2, hput, storeLE_inside h1 h2]

end

end HereEmu.Lib
