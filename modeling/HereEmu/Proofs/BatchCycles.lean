import HereEmu.Batch
import HereEmu.Decoder
import HereEmu.Proofs.TrapEntry

/-!
# What a batch amounts to

A batch is an attempt to take an interrupt and then cycle after cycle, so
cutting it anywhere but before the first cycle makes no difference as long as
the second part does not ask again. A hook that leaves the CPU alone changes
nothing but the length: the batch is the one without it, up to the first cycle
after which the hook says stop.
-/

namespace HereEmu

open Lib.Exec (Ends)
open RVCPU TrapController List

variable {P : Platform} {η κ : Type} (cpu : RVCPU P)

/-- No callback changes the CPU. -/
structure ExecutionHook.ReadsOnly (hook : ExecutionHook P η κ) : Prop where
  before : ∀ {h cpu c h' cpu'}, hook.beforeStep h cpu = .ok (c, h', cpu') → cpu' = cpu
  after : ∀ {h c cpu b h' cpu'}, hook.afterStep h c cpu = .ok (b, h', cpu') → cpu' = cpu

/-- A callback panics with `p`. -/
def ExecutionHook.Panics (hook : ExecutionHook P η κ) (p : PanicSite) : Prop :=
  (∃ h cpu, hook.beforeStep h cpu = .error p) ∨ (∃ h pc, hook.onInterruptTaken h pc = .error p) ∨
    ∃ h c cpu, hook.afterStep h c cpu = .error p

/-- Cycle after cycle, each with one increment of `mcycle` at its end, and what
`after_step` said of each. Only the first of a batch may be an interrupt. -/
inductive Heard (hook : ExecutionHook P η κ) :
    Bool → η → RVCPU P → List Bool → η → RVCPU P → Prop where
  | nil (first : Bool) (h : η) (cpu : RVCPU P) : Heard hook first h cpu [] h cpu
  | interrupt {h h₁ h₂ h' : η} {c : κ} {b : Bool} {bs : List Bool} {cpu cpu₁ cpu₂ cpu' : RVCPU P}
      {i : Interrupt} {csr : CsrRegFile} {pc : WordType}
      (taken : tryTakeInterrupt cpu.csr cpu.pc = .ok (some i, csr, pc))
      (call : hook.onInterruptTaken h cpu.pc = .ok (c, h₁))
      (count : cpu₁ = incrementMcycle { cpu with csr, pc })
      (after : hook.afterStep h₁ c cpu₁ = .ok (b, h₂, cpu₂))
      (rest : Heard hook false h₂ cpu₂ bs h' cpu') : Heard hook true h cpu (b :: bs) h' cpu'
  | step {first : Bool} {h h₁ h₂ h' : η} {c : κ} {b : Bool} {bs : List Bool}
      {cpu cpu₀ cpu₁ cpu₂ cpu₃ cpu' : RVCPU P}
      (none : first → tryTakeInterrupt cpu.csr cpu.pc = .ok (none, cpu.csr, cpu.pc))
      (call : hook.beforeStep h cpu = .ok (c, h₁, cpu₀)) (run : cpu₀.stepImpl = .ok cpu₁)
      (count : cpu₂ = cpu₁.incrementMcycle)
      (after : hook.afterStep h₁ c cpu₂ = .ok (b, h₂, cpu₃))
      (rest : Heard hook false h₂ cpu₃ bs h' cpu') : Heard hook first h cpu (b :: bs) h' cpu'

/-- All `k` cycles and never a stop, or a stop after the last of fewer or as many. -/
def StopsAt (k : Nat) (stopped : Bool) (answers : List Bool) : Prop :=
  if stopped then ∃ j < k, answers = replicate j false ++ [true]
  else answers = replicate k false

theorem StopsAt.append {k : Nat} {stopped : Bool} {answers : List Bool} (h : StopsAt k stopped answers)
    (n : Nat) : StopsAt (n + k) stopped (replicate n false ++ answers) := by
  cases stopped with
  | false =>
    rw [show answers = replicate k false from h, replicate_append_replicate]
    exact rfl
  | true =>
    obtain ⟨j, hj, rfl⟩ := h
    exact ⟨n + j, by omega, by rw [← append_assoc, replicate_append_replicate]⟩

/-- The outcome `x` of a batch with a hook is that of the batch without one, of
`single` cycles, if the hook leaves the CPU alone: as many as it let pass, unless it panicked. -/
def Follows (hook : ExecutionHook P η κ) (first : Bool) (executed left : Nat) (h : η)
    (cpu : RVCPU P) (single : Nat → Rust (RVCPU P)) (x : Rust (BatchResult × η × RVCPU P)) : Prop :=
  Ends (fun p => hook.ReadsOnly → (∃ j ≤ left, single j = .error p) ∨ hook.Panics p) x fun out =>
    ∃ answers, out.1.cycles = executed + answers.length ∧ StopsAt left out.1.hookStopped answers ∧
      Heard hook first h cpu answers out.2.1 out.2.2 ∧
      (hook.ReadsOnly → single answers.length = .ok out.2.2)

section Hooked

variable {hook : ExecutionHook P η κ} {executed left : Nat} {h h₁ : η} {c : κ} {first : Bool}
  {cpu cpu₁ : RVCPU P} {single : Nat → Rust (RVCPU P)}

/-- A cycle, and the loop after it. -/
theorem Follows.cons (hsingle : hook.ReadsOnly → ∀ j, single (j + 1) = cpu₁.stepBatchNoInterrupt j)
    (hheard : ∀ {b h₂ cpu₂ bs h' cpu'}, hook.afterStep h₁ c cpu₁ = .ok (b, h₂, cpu₂) →
      Heard hook false h₂ cpu₂ bs h' cpu' → Heard hook first h cpu (b :: bs) h' cpu')
    (hrest : ∀ h₂ cpu₂, Follows hook false (executed + 1) left h₂ cpu₂ cpu₂.stepBatchNoInterrupt
      (batchLoop hook (executed + 1) left h₂ cpu₂)) :
    Follows hook first executed (left + 1) h cpu single (do
      let (stop, h, cpu) ← hook.afterStep h₁ c cpu₁
      if stop then return (⟨executed + 1, true⟩, h, cpu)
      else batchLoop hook (executed + 1) left h cpu) := by
  rcases hafter : hook.afterStep h₁ c cpu₁ with p | ⟨b, h₂, cpu₂⟩
  · exact fun _ => .inr (.inr (.inr ⟨_, _, _, hafter⟩))
  have hsame : hook.ReadsOnly → ∀ j, single (j + 1) = cpu₂.stepBatchNoInterrupt j := by
    intro hro
    rw [hro.after hafter]
    exact hsingle hro
  cases b with
  | true =>
    exact ⟨[true], rfl, ⟨0, by omega, rfl⟩, hheard hafter (.nil _ _ _), fun hro => hsame hro 0⟩
  | false =>
    have hloop := hrest h₂ cpu₂
    show Follows hook first executed (left + 1) h cpu single
      (batchLoop hook (executed + 1) left h₂ cpu₂)
    cases hx : batchLoop hook (executed + 1) left h₂ cpu₂ with
    | error p =>
      rw [hx] at hloop
      refine fun hro => Or.imp_left ?_ (hloop hro)
      rintro ⟨j, hj, hpanic⟩
      exact ⟨j + 1, by omega, (hsame hro j).trans hpanic⟩
    | ok out =>
      rw [hx] at hloop
      obtain ⟨answers, hcycles, hstops, hrest, hend⟩ := hloop
      refine ⟨false :: answers, ?_, ?_, hheard hafter hrest,
        fun hro => (hsame hro _).trans (hend hro)⟩
      · rw [hcycles, length_cons]
        omega
      · rw [Nat.add_comm]
        exact hstops.append 1

end Hooked

end HereEmu
