import Mathlib.Algebra.Group.Nat.Defs
import Mathlib.Tactic.Common

/-!
# Little-endian words in a byte memory

A memory here is nothing but a function from offsets to bytes. `loadLE` puts
`n` bytes together into a word of any width, `storeLE` spreads a word over
`n` bytes, and everything a client needs is one of three facts: what a bit of
a loaded word is, that a load depends on its own bytes only, and that a store
is read back where it was made and nowhere else.

Nothing in this module knows what the bytes mean.
-/

namespace HereEmu.Lib

open BitVec

/-- The `n` bytes from offset `a` on, the lowest first, as a word. -/
def loadLE {w : Nat} (m : Nat → BitVec 8) (a : Nat) : Nat → BitVec w
  | 0 => 0
  | n + 1 => (m a).setWidth w ||| (loadLE m (a + 1) n <<< 8)

/-- The low `n` bytes of `v` placed at offset `a`. -/
def storeLE {w : Nat} (m : Nat → BitVec 8) (a n : Nat) (v : BitVec w) : Nat → BitVec 8 :=
  fun j => if a ≤ j ∧ j < a + n then (v >>> (8 * (j - a))).setWidth 8 else m j

section Load

variable {w : Nat} {m m' : Nat → BitVec 8} {a b n : Nat}

theorem getLsbD_loadLE (k : Nat) :
    (loadLE m a n : BitVec w).getLsbD k =
      (decide (k < w) && decide (k < 8 * n) && (m (a + k / 8)).getLsbD (k % 8)) := by
  induction n generalizing a k with
  | zero => simp [loadLE]
  | succ n ih =>
    simp only [loadLE, getLsbD_or, getLsbD_setWidth, getLsbD_shiftLeft, ih]
    by_cases hk : k < 8
    · -- the bit is in the first byte
      have hdiv : k / 8 = 0 := by omega
      have hmod : k % 8 = k := by omega
      have hlt : k < 8 * (n + 1) := by omega
      simp [hk, hdiv, hmod, hlt]
    · -- it is in the tail, one byte further on
      have hbyte : (m a).getLsbD k = false := getLsbD_of_ge _ _ (by omega)
      have hdiv : a + 1 + (k - 8) / 8 = a + k / 8 := by omega
      have hmod : (k - 8) % 8 = k % 8 := by omega
      have hn : k - 8 < 8 * n ↔ k < 8 * (n + 1) := by omega
      by_cases hw : k < w
      · have hlt : k - 8 < w := by omega
        simp [hbyte, hdiv, hmod, hw, hlt, hk, hn]
      · simp [hw]

/-- A load reads its own bytes and no other. -/
theorem loadLE_congr (h : ∀ j, a ≤ j → j < a + n → m j = m' j) :
    (loadLE m a n : BitVec w) = loadLE m' a n := by
  induction n generalizing a with
  | zero => rfl
  | succ n ih =>
    have htail : (loadLE m (a + 1) n : BitVec w) = loadLE m' (a + 1) n :=
      ih fun j h1 h2 => h j (by omega) (by omega)
    simp only [loadLE, htail, h a (by omega) (by omega)]

/-- Every byte of the range can be read off the loaded word. -/
theorem byte_eq_of_loadLE {j : Nat} (hn : 8 * n ≤ w) (h1 : a ≤ j) (h2 : j < a + n) :
    m j = ((loadLE m a n : BitVec w) >>> (8 * (j - a))).setWidth 8 := by
  refine eq_of_getLsbD_eq fun i hi => ?_
  have hdiv : a + (8 * (j - a) + i) / 8 = j := by omega
  have hmod : (8 * (j - a) + i) % 8 = i := by omega
  have hlt : 8 * (j - a) + i < 8 * n := by omega
  have hw : 8 * (j - a) + i < w := by omega
  simp only [getLsbD_setWidth, getLsbD_ushiftRight, getLsbD_loadLE, hdiv,
    hmod, hlt, hw, hi, decide_true, Bool.true_and]

end Load

section Store

variable {w : Nat} {m : Nat → BitVec 8} {a b n k : Nat} {v : BitVec w}

theorem storeLE_outside {j : Nat} (h : ¬ (a ≤ j ∧ j < a + n)) : storeLE m a n v j = m j := by
  simp [storeLE, h]

theorem storeLE_inside {j : Nat} (h1 : a ≤ j) (h2 : j < a + n) :
    storeLE m a n v j = (v >>> (8 * (j - a))).setWidth 8 := by
  simp [storeLE, h1, h2]

/-- What was stored is read back, cut to the bytes stored. -/
theorem loadLE_storeLE_same :
    (loadLE (storeLE m a n v) a n : BitVec w) = v &&& BitVec.ofNat w (2 ^ (8 * n) - 1) := by
  refine eq_of_getLsbD_eq fun i hi => ?_
  have hmod : i % 8 < 8 := by omega
  have hsum : 8 * (i / 8) + i % 8 = i := by omega
  simp only [getLsbD_loadLE, getLsbD_and, getLsbD_ofNat, Nat.testBit_two_pow_sub_one]
  by_cases hn : i < 8 * n
  · rw [storeLE_inside (by omega) (by omega)]
    have hsub : a + i / 8 - a = i / 8 := by omega
    simp [getLsbD_ushiftRight, hsub, hsum, hn, hi, hmod]
  · simp [hn]

end Store

end HereEmu.Lib
