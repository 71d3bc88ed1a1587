import Mathlib.Order.RelClasses
import Mathlib.Tactic.Common

/-!
# Computations that fail and panic

`Exec π ε σ` is the monad of code that works on a state, may fail with an error
its caller sees, and may panic. A failure keeps the state reached so far; a
panic leaves none.

`Spec` is a statement about one computation from one state, and the rules below
follow the way computations are put together.
-/

namespace HereEmu.Lib

/-- A result that is known by what is read off it. -/
theorem exists_of_map_ok {ε α β : Type} {f : α → β} {x : Except ε α} {v : β}
    (h : x.map f = .ok v) : ∃ a, x = .ok a ∧ f a = v := by
  cases x with
  | error e => cases h
  | ok a => exact ⟨a, rfl, Except.ok.inj h⟩

/-- A computation in two parts that is not stopped by either. -/
theorem exists_of_bind_ok {ε α β : Type} {x : Except ε α} {f : α → Except ε β} {b : β}
    (h : x >>= f = .ok b) : ∃ a, x = .ok a ∧ f a = .ok b := by
  cases x with
  | error e => cases h
  | ok a => exact ⟨a, rfl, h⟩

/-- What is said of the outcome of a computation can be decided by making it. -/
instance decidableExistsOk {ε α : Type} (x : Except ε α) (P : α → Prop) [DecidablePred P] :
    Decidable (∃ a, x = .ok a ∧ P a) :=
  match x with
  | .error _ => .isFalse fun ⟨_, h, _⟩ => nomatch h
  | .ok a => decidable_of_iff (P a) ⟨fun h => ⟨a, rfl, h⟩, fun ⟨_, h, hp⟩ => Except.ok.inj h ▸ hp⟩

instance decidableForallOk {ε α β : Type} (x : Except ε (α × β)) (P : α → β → Prop)
    [∀ a b, Decidable (P a b)] : Decidable (∀ a b, x = .ok (a, b) → P a b) :=
  match x with
  | .error _ => .isTrue fun _ _ h => by cases h
  | .ok (a, b) =>
    decidable_of_iff (P a b) ⟨fun hp _ _ h => by cases h; exact hp, fun h => h a b rfl⟩

abbrev Exec (π ε σ : Type) := ExceptT ε (StateT σ (Except π))

namespace Exec

variable {π ε ε' σ τ α β : Type}

/-- A computation given by what it does to the state. -/
def ofFun (f : σ → Except π (Except ε α × σ)) : Exec π ε σ α := f

def run (m : Exec π ε σ α) (s : σ) : Except π (Except ε α × σ) := m s

def panic (p : π) : Exec π ε σ α := ofFun fun _ => .error p

/-- A pure computation that may panic. -/
def lift (r : Except π α) : Exec π ε σ α := ofFun fun s => r.map fun a => (.ok a, s)

/-- A pure computation that may fail. -/
def check (r : Except ε α) : Exec π ε σ α := ofFun fun s => .ok (r, s)

/-- A computation on a part of the state. -/
def zoom (get : σ → τ) (put : σ → τ → σ) (m : Exec π ε τ α) : Exec π ε σ α :=
  ofFun fun s => (m.run (get s)).map fun (r, t) => (r, put s t)

/-- Runs `m` and, when it fails, `onError` in the state it left. -/
def mapError (onError : ε' → σ → ε × σ) (m : Exec π ε' σ α) : Exec π ε σ α :=
  ofFun fun s => (m.run s).map fun
    | (.ok a, s) => (.ok a, s)
    | (.error e, s) => let (e, s) := onError e s; (.error e, s)

@[simp] theorem run_ofFun (f : σ → Except π (Except ε α × σ)) (s : σ) : (ofFun f).run s = f s := rfl

@[simp] theorem run_get (s : σ) : (get : Exec π ε σ σ).run s = .ok (.ok s, s) := rfl

@[simp] theorem run_modify (f : σ → σ) (s : σ) :
    (modify f : Exec π ε σ PUnit).run s = .ok (.ok ⟨⟩, f s) := rfl

@[simp] theorem run_lift_ok (a : α) (s : σ) :
    (lift (.ok a) : Exec π ε σ α).run s = .ok (.ok a, s) := rfl

theorem run_mapError_ok {onError : ε' → σ → ε × σ} {m : Exec π ε' σ α} {a : α} {s s' : σ}
    (h : m.run s = .ok (.ok a, s')) : (m.mapError onError).run s = .ok (.ok a, s') := by
  simp [mapError, h, Except.map]

theorem run_mapError_error {onError : ε' → σ → ε × σ} {m : Exec π ε' σ α} {e : ε'} {s s' : σ}
    (h : m.run s = .ok (.error e, s')) :
    (m.mapError onError).run s = .ok (.error (onError e s').1, (onError e s').2) := by
  simp [mapError, h, Except.map]

theorem mapError_id (m : Exec π ε σ α) : m.mapError (fun e s => (e, s)) = m := by
  funext s
  show (m.run s).map _ = m.run s
  cases m.run s with
  | error p => rfl
  | ok out => obtain ⟨_ | _, s'⟩ := out <;> rfl

section Bind

variable {m : Exec π ε σ α} {f : α → Exec π ε σ β} {s s' : σ}

/-- The second computation starts where the first succeeded. -/
theorem run_bind (m : Exec π ε σ α) (f : α → Exec π ε σ β) (s : σ) :
    (m >>= f).run s = m.run s >>= fun
      | (.ok a, s') => (f a).run s'
      | (.error e, s') => .ok (.error e, s') := by
  refine congrArg (m.run s >>= ·) (funext fun out => ?_)
  obtain ⟨_ | _, s'⟩ := out <;> rfl

theorem run_bind_ok {a : α} (h : m.run s = .ok (.ok a, s')) : (m >>= f).run s = (f a).run s' := by
  rw [run_bind, h]
  rfl

theorem run_bind_error {e : ε} (h : m.run s = .ok (.error e, s')) :
    (m >>= f).run s = .ok (.error e, s') := by
  rw [run_bind, h]
  rfl

theorem run_bind_panic {p : π} (h : m.run s = .error p) : (m >>= f).run s = .error p := by
  rw [run_bind, h]
  rfl

/-- Both parts of a computation that succeeds succeed. -/
theorem run_bind_eq_ok {b : β} (h : (m >>= f).run s = .ok (.ok b, s')) :
    ∃ a s₁, m.run s = .ok (.ok a, s₁) ∧ (f a).run s₁ = .ok (.ok b, s') := by
  rw [run_bind] at h
  obtain ⟨⟨r, s₁⟩, hr, h⟩ := exists_of_bind_ok h
  cases r with
  | ok a => exact ⟨a, s₁, hr, h⟩
  | error e => cases h

/-- Only what the first computation leaves matters to the second. -/
theorem run_bind_congr {m' : Exec π ε σ α} (f : α → Exec π ε σ β) (h : m.run s = m'.run s') :
    (m >>= f).run s = (m' >>= f).run s' := by
  rw [run_bind, run_bind, h]

end Bind

/-! ## Statements about computations -/

/-- `Q` holds of the result and the final state, or the panic is one `S` allows. -/
def Outcome (S : π → Prop) (Q : Except ε α → σ → Prop) : Except π (Except ε α × σ) → Prop
  | .error p => S p
  | .ok (r, s) => Q r s

/-- From `s`, the computation ends with `Q` or in a panic `S` allows. -/
def Spec (S : π → Prop) (m : Exec π ε σ α) (s : σ) (Q : Except ε α → σ → Prop) : Prop :=
  Outcome S Q (m.run s)

section Rules

variable {S : π → Prop} {m : Exec π ε σ α} {f : α → Exec π ε σ β} {s : σ}
  {Q Q' : Except ε α → σ → Prop} {R : Except ε β → σ → Prop}

theorem Spec.of_run {r : Except ε α} {s' : σ} (h : m.run s = .ok (r, s')) (hq : Q r s') :
    Spec S m s Q := by
  unfold Spec
  rw [h]
  exact hq

/-- Where any panic will do, what matters is how the computation ends. -/
theorem Spec.of_ends (h : ∀ r s', m.run s = .ok (r, s') → Q r s') :
    Spec (fun _ => True) m s Q := by
  unfold Spec
  cases hr : m.run s with
  | error p => trivial
  | ok out => exact h _ _ hr

theorem Outcome.elim {x : Except π (Except ε α × σ)} {r : Except ε α} {s' : σ} (h : Outcome S Q x)
    (hx : x = .ok (r, s')) : Q r s' := by
  rw [hx] at h
  exact h

theorem Outcome.elim_panic {x : Except π (Except ε α × σ)} {p : π} (h : Outcome S Q x)
    (hx : x = .error p) : S p := by
  rw [hx] at h
  exact h

/-- What a specification says about a computation that did end. -/
theorem Spec.elim {r : Except ε α} {s' : σ} (h : Spec S m s Q) (hr : m.run s = .ok (r, s')) :
    Q r s' :=
  Outcome.elim h hr

theorem Spec.elim_panic {p : π} (h : Spec S m s Q) (hr : m.run s = .error p) : S p :=
  Outcome.elim_panic h hr

/-- A computation that may not panic ends. -/
theorem Spec.exists_run (h : Spec (fun _ => False) m s Q) : ∃ out, m.run s = .ok out := by
  cases hr : m.run s with
  | error p => exact (h.elim_panic hr).elim
  | ok out => exact ⟨out, rfl⟩

theorem Spec.mono (h : Spec S m s Q) (hQ : ∀ r s', Q r s' → Q' r s') : Spec S m s Q' := by
  unfold Spec at *
  cases hr : m.run s with
  | error p => rw [hr] at h; exact h
  | ok out => rw [hr] at h; exact hQ _ _ h

/-- A specification that allows more panics. -/
theorem Spec.weaken {S' : π → Prop} (h : Spec S m s Q) (hS : ∀ p, S p → S' p) : Spec S' m s Q := by
  unfold Spec at *
  cases hr : m.run s with
  | error p => rw [hr] at h; exact hS p h
  | ok out => rw [hr] at h; exact h

theorem Spec.throw {e : ε} (h : Q (.error e) s) : Spec S (throw e) s Q := h

theorem Spec.modify {g : σ → σ} {Q : Except ε PUnit → σ → Prop} (h : Q (.ok ⟨⟩) (g s)) :
    Spec S (modify g) s Q := h

theorem Spec.set {t : σ} {Q : Except ε PUnit → σ → Prop} (h : Q (.ok ⟨⟩) t) :
    Spec S (set t) s Q := h

theorem Spec.mapError {g : ε' → σ → ε × σ} {c : Exec π ε' σ α} {T : Except ε' α → σ → Prop}
    (h : Spec S c s T) (hok : ∀ a s', T (.ok a) s' → Q (.ok a) s')
    (herr : ∀ e s', T (.error e) s' → Q (.error (g e s').1) (g e s').2) :
    Spec S (c.mapError g) s Q := by
  unfold Spec Exec.mapError at *
  rw [run_ofFun]
  generalize c.run s = out at h ⊢
  rcases out with p | ⟨e | a, s'⟩
  · exact h
  · exact herr e s' h
  · exact hok a s' h

/-- One computation after another: the second starts where the first succeeded,
and is skipped when it failed. -/
theorem Spec.bind (h : Spec S m s fun r s' => match r with
    | .ok a => Spec S (f a) s' R
    | .error e => R (.error e) s') : Spec S (m >>= f) s R := by
  unfold Spec at h ⊢
  rw [run_bind]
  generalize m.run s = out at h ⊢
  rcases out with p | ⟨e | a, s'⟩ <;> exact h

/-- The same with the first part's own specification in between. -/
theorem Spec.seq (h : Spec S m s Q) (hok : ∀ a s', Q (.ok a) s' → Spec S (f a) s' R)
    (herr : ∀ e s', Q (.error e) s' → R (.error e) s') : Spec S (m >>= f) s R := by
  refine Spec.bind (h.mono fun r s' hq => ?_)
  cases r with
  | ok a => exact hok a s' hq
  | error e => exact herr e s' hq

theorem Spec.get_bind {f : σ → Exec π ε σ β} (h : Spec S (f s) s R) :
    Spec S (get >>= f) s R := Spec.bind h

end Rules

/-! ## Values that may be a panic -/

/-- `Q` holds of the value, or the panic is one `S` allows. -/
def Ends (S : π → Prop) (x : Except π α) (Q : α → Prop) : Prop :=
  match x with
  | .error p => S p
  | .ok a => Q a

section EndsRules

variable {S : π → Prop} {x : Except π α} {Q Q' : α → Prop}

theorem Ends.elim {a : α} (h : Ends S x Q) (hx : x = .ok a) : Q a := by
  subst hx
  exact h

theorem Ends.trivial (hS : ∀ p, x = .error p → S p) : Ends S x fun _ => True := by
  cases x with
  | error p => exact hS p rfl
  | ok a => exact True.intro

theorem Ends.weaken {S' : π → Prop} (h : Ends S x Q) (hS : ∀ p, S p → S' p) : Ends S' x Q := by
  cases x with
  | ok a => exact h
  | error p => exact hS p h

theorem Ends.mono (h : Ends S x Q) (hQ : ∀ a, Q a → Q' a) : Ends S x Q' := by
  cases x with
  | error p => exact h
  | ok a => exact hQ a h

theorem Ends.bind {f : α → Except π β} {R : β → Prop} (h : Ends S x fun a => Ends S (f a) R) :
    Ends S (x >>= f) R := by
  cases x with
  | error p | ok a => exact h

end EndsRules

/-! ## Computations that do not see a part of the state -/

/-- Changing the state by `g` before the computation is changing it after. -/
def Blind (g : σ → σ) (m : Exec π ε σ α) : Prop :=
  ∀ s, m.run (g s) = (m.run s).map fun out => (out.1, g out.2)

section BlindRules

variable {g : σ → σ} {m : Exec π ε σ α} {f : α → Exec π ε σ β}

theorem Blind.pure (a : α) : Blind g (pure a : Exec π ε σ α) := fun _ => rfl

theorem Blind.throw (e : ε) : Blind g (throw e : Exec π ε σ α) := fun _ => rfl

theorem Blind.lift (x : Except π α) : Blind g (lift x : Exec π ε σ α) := by
  intro s
  cases x <;> rfl

theorem Blind.bind (hm : Blind g m) (hf : ∀ a, Blind g (f a)) : Blind g (m >>= f) := by
  intro s
  rw [run_bind, run_bind, hm s]
  rcases m.run s with p | ⟨e | a, s'⟩
  · rfl
  · rfl
  · exact hf a s'

/-- A look at the state that `g` does not change the use of. -/
theorem Blind.get_bind {f : σ → Exec π ε σ β} (hg : ∀ s, f (g s) = f s) (hf : ∀ s, Blind g (f s)) :
    Blind g (get >>= f) := by
  intro s
  rw [run_bind_ok (run_get s), run_bind_ok (run_get (g s)), hg s]
  exact hf s s

theorem Blind.modify {k : σ → σ} (h : ∀ s, k (g s) = g (k s)) :
    Blind g (modify k : Exec π ε σ PUnit) := by
  intro s
  rw [run_modify, run_modify, h s]
  rfl

end BlindRules

/-! ## Computations that move the state along a relation -/

/-- However the computation ends, the state has moved along `R`. -/
def Along (R : σ → σ → Prop) (m : Exec π ε σ α) : Prop :=
  ∀ s, Spec (fun _ => True) m s fun _ s' => R s s'

section AlongRules

variable {R : σ → σ → Prop} {m : Exec π ε σ α} {f : α → Exec π ε σ β}

theorem Along.elim {r : Except ε α} {s s' : σ} (h : Along R m) (hr : m.run s = .ok (r, s')) :
    R s s' := (h s).elim hr

theorem Along.panic (p : π) : Along R (panic p : Exec π ε σ α) := fun _ => trivial

theorem Along.get_bind {f : σ → Exec π ε σ β} (hf : ∀ s, Along R (f s)) : Along R (get >>= f) :=
  fun s => Spec.get_bind (hf s s)

theorem Along.modify {g : σ → σ} (h : ∀ s, R s (g s)) : Along R (modify g : Exec π ε σ PUnit) :=
  fun s => Spec.modify (h s)

theorem Along.mapError {onError : ε' → σ → ε × σ} {m : Exec π ε' σ α} (hm : Along R m)
    (h : ∀ e s, (onError e s).2 = s) : Along R (m.mapError onError) :=
  fun s => (hm s).mapError (fun _ _ hs => hs) fun e s' hs => by rw [h e s']; exact hs

variable [IsPreorder σ R]

theorem Along.bind (hm : Along R m) (hf : ∀ a, Along R (f a)) : Along R (m >>= f) := by
  intro s
  refine (hm s).seq (fun a s' h => ?_) fun _ _ h => h
  exact (hf a s').mono fun _ s'' h' => trans_of R h h'

theorem Along.pure (a : α) : Along R (pure a : Exec π ε σ α) := fun s => refl_of R s

theorem Along.throw (e : ε) : Along R (throw e : Exec π ε σ α) := fun s => refl_of R s

theorem Along.lift (x : Except π α) : Along R (lift x : Exec π ε σ α) := by
  intro s
  cases x with
  | error p => trivial
  | ok a => exact refl_of R s

end AlongRules

end Exec

end HereEmu.Lib
