import HereEmu.Board.Run
import HereEmu.Proofs.BatchCycles

/-!
# The cycles of a run

A run is a chain of batches, each behind one refresh of the timer and the lines,
and each longer than nothing, so it comes to an end: when the cycles are used up,
the board halts, or the hook says stop after the last of them.
-/

namespace HereEmu

open Lib.Exec (Ends)
open BoardState List

variable {P : Platform} {ω η κ : Type} {D : BoardDevices P ω} {hook : ExecutionHook P η κ}

/-- The batches of a run, each with what the hook said after its cycles. -/
inductive Batches (D : BoardDevices P ω) (hook : ExecutionHook P η κ) :
    η → BoardState P ω → List (List Bool) → η → BoardState P ω → Prop where
  | nil (h : η) (b : BoardState P ω) : Batches D hook h b [] h b
  | cons {h h₁ h' : η} {b b₁ b₂ b' : BoardState P ω} {cpu : RVCPU P} {answers : List Bool}
      {rest : List (List Bool)} (running : b.status = .running)
      (refresh : b.prepareCpuBatch D = .ok b₁)
      (heard : Heard hook true h b₁.machine.2 answers h₁ cpu)
      (pos : 0 < answers.length) (le : answers.length ≤ STEP_BATCH_CYCLES)
      (finish : finishCpuBatch D answers.length { b₁ with machine := (b₁.machine.1, cpu) } = .ok b₂)
      (tail : Batches D hook h₁ b₂ rest h' b') : Batches D hook h b (answers :: rest) h' b'

/-- What a run over at most `n` cycles comes to. -/
structure Accounts (D : BoardDevices P ω) (hook : ExecutionHook P η κ) (n : Nat) (h : η)
    (b : BoardState P ω) (r : BatchResult) (h' : η) (b' : BoardState P ω)
    (answers : List (List Bool)) : Prop where
  batches : Batches D hook h b answers h' b'
  cycles : r.cycles = answers.flatten.length
  le : r.cycles ≤ n
  stopped : r.hookStopped ↔ true ∈ answers.flatten
  stopsAt : StopsAt r.cycles r.hookStopped answers.flatten
  all : r.hookStopped = false → r.cycles = n ∨ b'.status = .halt
  counter : b'.cycles = b.cycles + BitVec.ofNat 64 r.cycles

/-- Answers are given, and not too many; and it stops at their number. -/
theorem StopsAt.length {k : Nat} {stopped : Bool} {answers : List Bool} (h : StopsAt k stopped answers)
    (hk : 0 < k) : 0 < answers.length ∧ answers.length ≤ k ∧ StopsAt answers.length stopped answers := by
  cases stopped with
  | false =>
    obtain rfl : answers = replicate k false := h
    rw [length_replicate]
    exact ⟨hk, le_rfl, rfl⟩
  | true =>
    obtain ⟨j, hj, rfl⟩ := h
    rw [length_append, length_replicate, length_singleton]
    exact ⟨by omega, by omega, j, by omega, rfl⟩

/-- A run that does not go on. -/
theorem Accounts.done {n e : Nat} {h : η} {b : BoardState P ω}
    (hgo : ¬(e < n ∧ b.status = .running)) (he : e ≤ n) :
    Accounts D hook (n - e) h b ⟨0, false⟩ h b [] where
  batches := .nil h b
  cycles := rfl
  le := Nat.zero_le _
  stopped := by simp
  stopsAt := rfl
  all _ := by
    cases hs : b.status with
    | halt => exact .inr rfl
    | running => exact .inl (by rw [hs] at hgo; simp at hgo; dsimp only; omega)
  counter := (BitVec.add_zero _).symm

end HereEmu
