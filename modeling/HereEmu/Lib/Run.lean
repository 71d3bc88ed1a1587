import HereEmu.Lib.Exec

/-!
# Runs of a machine that can stop

A machine takes one input at a time and either moves on, leaving an output, or
stops for good with a reason. This module has the two arguments made about
whole runs of such a machine: an invariant that every allowed step keeps holds
at every step (`Always.of_inv`), and two machines that stay related by every
allowed step leave the same outputs (`trace_eq_of_sim`).

`Always P` is a condition on a run, read step by step along the states the run
goes through, so it serves as a hypothesis on the inputs and as a conclusion.
-/

namespace HereEmu.Lib

open List

/-- What a list gives starts with what its head gives. -/
theorem filterMap_cons_toList {α β : Type} (f : α → Option β) (a : α) (l : List α) :
    (a :: l).filterMap f = (f a).toList ++ l.filterMap f := by
  cases h : f a <;> simp [h]

section Fold

variable {σ ι π : Type} {f : σ → ι → Except π σ} {is : List ι}

/-- Two checks, one after the other. -/
theorem except_seq_eq_ok {x y : Except π Unit} : (x >>= fun _ => y) = .ok () ↔ x = .ok () ∧ y = .ok () := by
  cases x with
  | error e => exact ⟨nofun, nofun⟩
  | ok a => exact ⟨fun h => ⟨rfl, h⟩, And.right⟩

/-- A loop none of whose rounds stops. -/
theorem foldlM_eq_ok {g : σ → ι → σ} (h : ∀ i ∈ is, ∀ s, f s i = .ok (g s i)) (s : σ) :
    is.foldlM f s = .ok (is.foldl g s) := by
  induction is generalizing s with
  | nil => rfl
  | cons i is ih =>
    rw [foldlM_cons, h i mem_cons_self]
    exact ih (fun j hj => h j (mem_cons_of_mem i hj)) (g s i)

/-- A loop with a second component that can be told in advance. -/
theorem foldlM_range_eq_ok {α : Type} {f : σ × α → Nat → Except π (σ × α)} {g : σ → Nat → σ}
    {n : Nat} (acc : Nat → α) (h : ∀ i, i < n → ∀ s, f (s, acc i) i = .ok (g s i, acc (i + 1))) (s : σ) :
    (range n).foldlM f (s, acc 0) = .ok ((range n).foldl g s, acc n) := by
  induction n with
  | zero => rfl
  | succ n ih =>
    rw [range_succ, foldlM_append, ih fun i hi => h i (by omega), foldl_append]
    show (f (_, acc n) n >>= _) = _
    rw [h n (by omega)]
    rfl

/-- A round that stops in every state stops the loop, if no other does before. -/
theorem foldlM_eq_error {i : ι} (hi : i ∈ is) (h : ∀ s, ∃ p, f s i = .error p) (s : σ) :
    ∃ p, is.foldlM f s = .error p := by
  induction is generalizing s with
  | nil => cases hi
  | cons j is ih =>
    rw [foldlM_cons]
    cases hj : f s j with
    | error p => exact ⟨p, rfl⟩
    | ok s' =>
      rcases mem_cons.mp hi with rfl | hi
      · obtain ⟨p, hp⟩ := h s
        cases hp.symm.trans hj
      · exact ih hi s'

end Fold

section Machine

variable {σ ι ο π : Type} (step : σ → ι → Except π (ο × σ))

/-- The outputs of a run, up to and including the reason it stopped for. -/
def trace : σ → List ι → List (Except π ο)
  | _, [] => []
  | s, i :: is =>
    match step s i with
    | .error p => [.error p]
    | .ok (o, s') => .ok o :: trace s' is

/-- The outputs of a run that does not stop, and the state it ends in. -/
def runAll : σ → List ι → Except π (List ο × σ)
  | s, [] => .ok ([], s)
  | s, i :: is =>
    match step s i with
    | .error p => .error p
    | .ok (o, s') => (runAll s' is).map fun out => (o :: out.1, out.2)

/-- Every step of the run satisfies `P` in the state it is taken in. -/
def Always (P : σ → ι → Prop) : σ → List ι → Prop
  | _, [] => True
  | s, i :: is => P s i ∧ ∀ o s', step s i = .ok (o, s') → Always P s' is

/-- The last thing that was observed along a run, if anything was. -/
def lastObserved {κ : Type} (obs : σ → ι → Option κ) : σ → List ι → Option κ
  | _, [] => none
  | s, i :: is =>
    match step s i with
    | .error _ => obs s i
    | .ok (_, s') => (lastObserved obs s' is).or (obs s i)

/-- A run is checked by making it. -/
instance Always.decidable {P : σ → ι → Prop} [∀ s i, Decidable (P s i)] :
    (s : σ) → (is : List ι) → Decidable (Always step P s is)
  | _, [] => .isTrue trivial
  | s, i :: is =>
    have (s' : σ) : Decidable (Always step P s' is) := decidable s' is
    inferInstanceAs (Decidable (P s i ∧ _))

variable {step}

variable {Inv : σ → Prop} {C P : σ → ι → Prop} {s : σ} {is : List ι}

/-- The invariant rule: what holds at the start and is kept by the steps a run
is allowed to make gives `P` at every one of them. -/
theorem Always.of_inv (hkeep : ∀ s i o s', Inv s → C s i → step s i = .ok (o, s') → Inv s')
    (hP : ∀ s i, Inv s → C s i → P s i) (h0 : Inv s) (hC : Always step C s is) :
    Always step P s is := by
  induction is generalizing s with
  | nil => trivial
  | cons i is ih =>
    obtain ⟨hc, hrest⟩ := hC
    exact ⟨hP s i h0 hc, fun o s' hs => ih (hkeep s i o s' h0 hc hs) (hrest o s' hs)⟩

theorem Always.intro (h : ∀ s i, P s i) (s : σ) (is : List ι) : Always step P s is := by
  induction is generalizing s with
  | nil => trivial
  | cons i is ih => exact ⟨h s i, fun o s' _ => ih s'⟩

theorem Always.and_mem {D : ι → Prop} (hC : Always step C s is) (hD : ∀ i ∈ is, D i) :
    Always step (fun s i => C s i ∧ D i) s is := by
  induction is generalizing s with
  | nil => trivial
  | cons i is ih =>
    obtain ⟨hc, hrest⟩ := hC
    refine ⟨⟨hc, hD i mem_cons_self⟩, fun o s' hs => ih (hrest o s' hs) fun j hj => ?_⟩
    exact hD j (mem_cons_of_mem _ hj)

variable {Q : σ → ι → Prop}

theorem Always.and (hP : Always step P s is) (hQ : Always step Q s is) :
    Always step (fun s i => P s i ∧ Q s i) s is := by
  induction is generalizing s with
  | nil => trivial
  | cons i is ih => exact ⟨⟨hP.1, hQ.1⟩, fun o s' hs => ih (hP.2 o s' hs) (hQ.2 o s' hs)⟩

theorem Always.mono (hPQ : ∀ s i, P s i → Q s i) (h : Always step P s is) : Always step Q s is := by
  induction is generalizing s with
  | nil => trivial
  | cons i is ih => exact ⟨hPQ s i h.1, fun o s' hs => ih (h.2 o s' hs)⟩

variable {t : σ} {os : List ο}

/-- A run is its first step and the rest. -/
theorem runAll_cons {i : ι} (h : runAll step s (i :: is) = .ok (os, t)) :
    ∃ o s' os', step s i = .ok (o, s') ∧ runAll step s' is = .ok (os', t) ∧ os = o :: os' := by
  rw [runAll] at h
  split at h
  · cases h
  · next o s' hs =>
      obtain ⟨rest, hr, heq⟩ := exists_of_map_ok h
      cases heq
      exact ⟨o, s', rest.1, hs, hr, rfl⟩

theorem runAll_singleton {s' : σ} {i : ι} {o : ο} (h : step s i = .ok (o, s')) :
    runAll step s [i] = .ok ([o], s') := by
  rw [runAll, h]
  rfl

/-- What the steps a run is allowed to make keep holds at its end. -/
theorem runAll_inv (hkeep : ∀ s i o s', Inv s → C s i → step s i = .ok (o, s') → Inv s') {s t : σ}
    (h0 : Inv s) (hC : Always step C s is) (h : runAll step s is = .ok (os, t)) : Inv t := by
  induction is generalizing s os with
  | nil =>
    cases h
    exact h0
  | cons i is ih =>
    obtain ⟨o, s', os', hs, hrest, rfl⟩ := runAll_cons h
    exact ih (hkeep s i o s' h0 hC.1 hs) (hC.2 o s' hs) hrest

/-- What every step keeps holds at the end. -/
theorem runAll_kept (hkeep : ∀ s i o s', Inv s → step s i = .ok (o, s') → Inv s') (h0 : Inv s)
    (h : runAll step s is = .ok (os, t)) : Inv t :=
  runAll_inv (C := fun _ _ => True) (fun s i o s' hs _ => hkeep s i o s' hs) h0
    (Always.intro (fun _ _ => trivial) s is) h

/-- A machine that can always take the next step never stops. -/
theorem runAll_total {D : ι → Prop} {Q : ο → Prop}
    (hstep : ∀ s i, Inv s → D i → ∃ o s', step s i = .ok (o, s') ∧ Q o ∧ Inv s') (h0 : Inv s)
    (his : ∀ i ∈ is, D i) : ∃ os t, runAll step s is = .ok (os, t) ∧ ∀ o ∈ os, Q o := by
  induction is generalizing s with
  | nil => exact ⟨[], s, rfl, by simp⟩
  | cons i is ih =>
    obtain ⟨hi, his⟩ := forall_mem_cons.1 his
    obtain ⟨o, s', hs, ho, h'⟩ := hstep s i h0 hi
    obtain ⟨os, t, hrest, hos⟩ := ih h' his
    refine ⟨o :: os, t, ?_, forall_mem_cons.2 ⟨ho, hos⟩⟩
    rw [runAll, hs]
    exact congrArg (Except.map _) hrest

/-- The abstraction rule: a machine that does in the abstract what another does
gives the same outputs, and ends in the abstraction of its state. -/
theorem runAll_map {τ : Type} {step' : τ → ι → Except π (ο × τ)} {abs : σ → τ}
    (h : ∀ s i, step' (abs s) i = (step s i).map fun out => (out.1, abs out.2)) (s : σ)
    (is : List ι) :
    runAll step' (abs s) is = (runAll step s is).map fun out => (out.1, abs out.2) := by
  induction is generalizing s with
  | nil => rfl
  | cons i is ih =>
    rw [runAll, runAll, h]
    cases step s i with
    | error p => rfl
    | ok out =>
      show (runAll step' (abs out.2) is).map _ = ((runAll step out.2 is).map _).map _
      rw [ih]
      cases runAll step out.2 is <;> rfl

variable {js : List ι}

/-- A run in two parts. -/
theorem runAll_append (h : runAll step s (is ++ js) = .ok (os, t)) :
    ∃ m os₁ os₂, runAll step s is = .ok (os₁, m) ∧ runAll step m js = .ok (os₂, t) ∧
      os = os₁ ++ os₂ := by
  induction is generalizing s os with
  | nil => exact ⟨s, [], os, rfl, h, rfl⟩
  | cons i is ih =>
    obtain ⟨o, s', os', hs, hrest, rfl⟩ := runAll_cons h
    obtain ⟨m, os₁, os₂, h₁, h₂, rfl⟩ := ih hrest
    refine ⟨m, o :: os₁, os₂, ?_, h₂, rfl⟩
    rw [runAll, hs]
    exact congrArg (Except.map _) h₁

/-- The invariant rule for a property of the state and what was observed last. -/
theorem runAll_last {κ : Type} {obs : σ → ι → Option κ} {Inv : Option κ → σ → Prop}
    (hkeep : ∀ l s i o s', Inv l s → step s i = .ok (o, s') → Inv ((obs s i).or l) s')
    {l : Option κ} (h0 : Inv l s) (h : runAll step s is = .ok (os, t)) :
    Inv ((lastObserved step obs s is).or l) t := by
  induction is generalizing l s os with
  | nil =>
    cases h
    exact h0
  | cons i is ih =>
    obtain ⟨o, s', os', hs, hrest, rfl⟩ := runAll_cons h
    rw [lastObserved, hs, Option.or_assoc]
    exact ih (hkeep l s i o s' h0 hs) hrest

/-- What holds along a run holds along the first part of it. -/
theorem Always.take (h : Always step P s (is ++ js)) : Always step P s is := by
  induction is generalizing s with
  | nil => trivial
  | cons i is ih => exact ⟨h.1, fun o s' hs => ih (h.2 o s' hs)⟩

/-- What holds along a run holds along the rest of it. -/
theorem Always.drop (h : Always step P s (is ++ js)) (hrun : runAll step s is = .ok (os, t)) :
    Always step P t js := by
  induction is generalizing s os with
  | nil =>
    cases hrun
    exact h
  | cons i is ih =>
    obtain ⟨o, s', os', hs, hrest, _⟩ := runAll_cons hrun
    exact ih (h.2 o s' hs) hrest

/-- The invariant rule for a property of the state and the outputs so far. -/
theorem runAll_history {Inv : List ο → σ → Prop}
    (hkeep : ∀ os s i o s', Inv os s → C s i → step s i = .ok (o, s') → Inv (os ++ [o]) s')
    {os₀ : List ο} (h0 : Inv os₀ s) (hC : Always step C s is) (h : runAll step s is = .ok (os, t)) :
    Inv (os₀ ++ os) t := by
  induction is generalizing os₀ s os with
  | nil =>
    cases h
    rwa [append_nil]
  | cons i is ih =>
    obtain ⟨o, s', os', hs, hrest, rfl⟩ := runAll_cons h
    have := ih (hkeep os₀ s i o s' h0 hC.1 hs) (hC.2 o s' hs) hrest
    rwa [append_assoc] at this

/-- What holds goes on holding until something happens that ends it. -/
theorem runAll_until {P : σ → Prop}
    (hkeep : ∀ s i o s', P s → step s i = .ok (o, s') → P s' ∨ Q s i) (h0 : P s)
    (h : runAll step s is = .ok (os, t)) :
    P t ∨ ∃ is₁ i is₂ os₁ u, is = is₁ ++ i :: is₂ ∧ runAll step s is₁ = .ok (os₁, u) ∧ Q u i := by
  induction is generalizing s os with
  | nil =>
    cases h
    exact .inl h0
  | cons i is ih =>
    obtain ⟨o, s', os', hs, hrest, rfl⟩ := runAll_cons h
    rcases hkeep s i o s' h0 hs with hP | hQ
    · rcases ih hP hrest with ht | ⟨is₁, j, is₂, os₁, u, rfl, hrun, hQ⟩
      · exact .inl ht
      · refine .inr ⟨i :: is₁, j, is₂, o :: os₁, u, rfl, ?_, hQ⟩
        rw [runAll, hs]
        exact congrArg (Except.map _) hrun
    · exact .inr ⟨[], i, is, [], s, rfl, rfl, hQ⟩

section Rank

variable {rank : σ → Nat} {due : σ → ι → Prop}

-- A step that does not lower the rank was not due, and leaves due what was.
variable (hstep : ∀ s i o s', Inv s → C s i → step s i = .ok (o, s') → Inv s' ∧
  (rank s' < rank s ∨ rank s' = rank s ∧ ¬ due s i ∧ ∀ j, due s j → due s' j))

include hstep

/-- A run lowers the rank once it makes a step that was due. -/
theorem runAll_rank (h0 : Inv s) (hC : Always step C s is) (h : runAll step s is = .ok (os, t)) :
    Inv t ∧ rank t ≤ rank s ∧ ((∃ i ∈ is, due s i) → rank t < rank s) := by
  induction is generalizing s os with
  | nil =>
    cases h
    exact ⟨h0, Nat.le_refl _, by simp⟩
  | cons i is ih =>
    obtain ⟨o, s', os', hs, hrest, rfl⟩ := runAll_cons h
    obtain ⟨h', hrank⟩ := hstep s i o s' h0 hC.1 hs
    obtain ⟨ht, hle, hlt⟩ := ih h' (hC.2 o s' hs) hrest
    rcases hrank with hlow | ⟨hsame, hnot, hdue⟩
    · exact ⟨ht, by omega, fun _ => by omega⟩
    · rw [← hsame]
      refine ⟨ht, hle, fun ⟨j, hj, hjdue⟩ => hlt ⟨j, ?_, hdue j hjdue⟩⟩
      rcases mem_cons.1 hj with rfl | hj
      · exact absurd hjdue hnot
      · exact hj

/-- The progress rule: a run made of blocks with a step that is due in each has
at most as many of them as the rank. -/
theorem blocks_le_rank {blocks : List (List ι)} (h0 : Inv s)
    (hC : Always step C s blocks.flatten) (hdue : ∀ b ∈ blocks, ∀ s, ∃ i ∈ b, due s i)
    (h : runAll step s blocks.flatten = .ok (os, t)) : blocks.length ≤ rank s := by
  induction blocks generalizing s os with
  | nil => exact Nat.zero_le _
  | cons b blocks ih =>
    obtain ⟨hb, hdue⟩ := forall_mem_cons.1 hdue
    obtain ⟨m, os₁, os₂, h₁, h₂, _⟩ := runAll_append h
    obtain ⟨hinv, _, hlt⟩ := runAll_rank hstep h0 hC.take h₁
    have := ih hinv (hC.drop h₁) hdue h₂
    have := hlt (hb s)
    rw [length_cons]
    omega

end Rank

/-- What every step says of its output holds of all outputs of a run. -/
theorem runAll_forall {P : ο → Prop} (hstep : ∀ s i o s', step s i = .ok (o, s') → P o)
    (h : runAll step s is = .ok (os, t)) : ∀ o ∈ os, P o := by
  induction is generalizing s os with
  | nil =>
    cases h
    simp
  | cons i is ih =>
    obtain ⟨o, s', os', hs, hrest, rfl⟩ := runAll_cons h
    exact forall_mem_cons.2 ⟨hstep s i o s' hs, ih hrest⟩

/-- The accounting rule: what every step takes in at the back of a queue and
gives out at its front is what the whole run took in and gave out. -/
theorem runAll_account {κ : Type} {queue : σ → List κ} {intake output : ο → Option κ}
    (hstep : ∀ s i o s', step s i = .ok (o, s') →
      queue s ++ (intake o).toList = (output o).toList ++ queue s')
    {s t : σ} {is : List ι} {os : List ο} (h : runAll step s is = .ok (os, t)) :
    queue s ++ os.filterMap intake = os.filterMap output ++ queue t := by
  induction is generalizing s os with
  | nil =>
    cases h
    simp
  | cons i is ih =>
    obtain ⟨o, s', os', hs, hrest, rfl⟩ := runAll_cons h
    rw [filterMap_cons_toList, filterMap_cons_toList, ← append_assoc, hstep s i o s' hs,
      append_assoc, ih hrest, append_assoc]

end Machine

section Simulation

variable {σ τ ι ο π : Type} {step : σ → ι → Except π (ο × σ)} {step' : τ → ι → Except π (ο × τ)}

/-- Two steps leave the same output, or stop alike, and end in related states. -/
def StepsAgree (R : σ → τ → Prop) : Except π (ο × σ) → Except π (ο × τ) → Prop
  | .error p, .error q => p = q
  | .ok (o, s), .ok (o', t) => o = o' ∧ R s t
  | _, _ => False

/-- The simulation rule: machines that agree on every allowed step from related
states leave the same trace. -/
theorem trace_eq_of_sim {R : σ → τ → Prop} {C : σ → ι → Prop}
    (hsim : ∀ s t i, R s t → C s i → StepsAgree R (step s i) (step' t i))
    {s : σ} {t : τ} {is : List ι} (h0 : R s t) (hC : Always step C s is) :
    trace step s is = trace step' t is := by
  induction is generalizing s t with
  | nil => rfl
  | cons i is ih =>
    obtain ⟨hc, hrest⟩ := hC
    have hagree := hsim s t i h0 hc
    rw [trace, trace]
    cases hs : step s i with
    | error p =>
      cases ht : step' t i with
      | error q =>
        rw [hs, ht] at hagree
        rw [show p = q from hagree]
      | ok ot => rw [hs, ht] at hagree; exact absurd hagree (by simp [StepsAgree])
    | ok os =>
      obtain ⟨o, s'⟩ := os
      cases ht : step' t i with
      | error q => rw [hs, ht] at hagree; exact absurd hagree (by simp [StepsAgree])
      | ok ot =>
        obtain ⟨o', t'⟩ := ot
        rw [hs, ht] at hagree
        obtain ⟨rfl, hR⟩ := hagree
        exact congrArg (Except.ok o :: ·) (ih hR (hrest o s' hs))

end Simulation

end HereEmu.Lib
