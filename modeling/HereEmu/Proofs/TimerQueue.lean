import HereEmu.Clock

/-!
# The queue of the timer

`tick` stops at the first task that is not due, and `next_due` looks at the
first task only. Both are right because the tasks are in order: a registered
task joins at the end of time, and everything that moves a due time sorts. A
task that has run is put off to the end of time, which no clock shows, and it
stays there until it is given another due time.

What the timer is for is said apart from its order and its loops: `TimerOp.tasks`
has the tasks by number, each with the due time it was given last. The tasks of
the timer are these (`Timer.Keeps`).
-/

namespace HereEmu

open List

/-- What a timer is asked to do. The clock is read for a delay and for a tick. -/
inductive TimerOp (κ : Type) where
  | register (callback : κ)
  | setDue (seq : Nat) (newDue : WordType)
  | setDelay (seq : Nat) (now delay : WordType)
  | guard (changes : List (TimerChange κ))
  | tick (now : WordType)

variable {κ : Type} {l : List (ScheduledTask κ)}

/-! ## Tasks by number -/

/-- A new due time for the tasks that are picked. -/
def ScheduledTask.dueAt (p : ScheduledTask κ → Bool) (due : WordType) (task : ScheduledTask κ) :
    ScheduledTask κ :=
  if p task then { task with due } else task

theorem ScheduledTask.dueAt_seq (task : ScheduledTask κ) (p : ScheduledTask κ → Bool)
    (due : WordType) : (task.dueAt p due).seq = task.seq :=
  (apply_ite ScheduledTask.seq _ _ _).trans (ite_self _)

theorem map_dueAt_none {p : ScheduledTask κ → Bool} {due : WordType} (h : ∀ task ∈ l, ¬ p task) :
    l.map (.dueAt p due) = l :=
  (map_congr_left fun task ht => if_neg (h task ht)).trans (map_id _)

/-- A new task has no due time yet; the other changes give one to the task with
the number. -/
def TimerChange.tasks (l : List (ScheduledTask κ)) : TimerChange κ → List (ScheduledTask κ)
  | register callback => l ++ [⟨U64_MAX, l.length, callback⟩]
  | setDue seq newDue => l.map (.dueAt (·.seq = seq) newDue)
  | setDelay seq now delay => l.map (.dueAt (·.seq = seq) (saturatingAdd now delay))

/-- The changes an operation makes, apart from the tasks it runs. -/
def TimerOp.changes : TimerOp κ → List (TimerChange κ)
  | register callback => [.register callback]
  | setDue seq newDue => [.setDue seq newDue]
  | setDelay seq now delay => [.setDelay seq now delay]
  | guard changes => changes
  | tick _ => []

/-- A task that is due runs, and has no due time then. -/
def TimerOp.tasks (l : List (ScheduledTask κ)) : TimerOp κ → List (ScheduledTask κ)
  | tick now => l.map (.dueAt (·.due ≤ now) U64_MAX)
  | op => op.changes.foldl TimerChange.tasks l

/-- A new due time for the task with the number. -/
def TimerChange.Sets (seq : Nat) : TimerChange κ → Prop
  | register _ => False
  | setDue q _ | setDelay q _ _ => q = seq

def TimerOp.Sets (seq : Nat) (op : TimerOp κ) : Prop := ∃ c ∈ op.changes, c.Sets seq

/-- Tasks with the number are not due at any time. -/
def PutOff (q : Nat) (l : List (ScheduledTask κ)) : Prop :=
  ∀ task ∈ l, task.seq = q → task.due = U64_MAX

theorem PutOff.map {q : Nat} {p : ScheduledTask κ → Bool} {due : WordType} (h : PutOff q l)
    (hp : ∀ task, p task → task.seq = q → due = U64_MAX) : PutOff q (l.map (.dueAt p due)) := by
  refine forall_mem_map.2 fun task htask => ?_
  unfold ScheduledTask.dueAt
  split
  · next hpick => exact hp task hpick
  · exact h task htask

/-- Without a new due time a task that has none stays so. -/
theorem PutOff.step {q : Nat} {op : TimerOp κ} (h : PutOff q l) (hop : ¬ op.Sets q) :
    PutOff q (op.tasks l) := by
  have hchanges : PutOff q (op.changes.foldl TimerChange.tasks l) := by
    refine foldlRecOn (motive := PutOff q) _ _ h fun l h c hc => ?_
    cases c with
    | register => exact forall_mem_append.2 ⟨h, forall_mem_singleton.2 fun _ => rfl⟩
    | setDue | setDelay =>
      exact h.map fun task hpick hq => (hop ⟨_, hc, (of_decide_eq_true hpick).symm.trans hq⟩).elim
  cases op with
  | tick now => exact h.map fun _ _ _ => rfl
  | _ => exact hchanges

namespace Timer

variable {t : Timer κ} {tasks : List (ScheduledTask κ)}

def step (t : Timer κ) : TimerOp κ → Timer κ
  | .register callback => (t.register callback).2
  | .setDue seq newDue => t.setDue seq newDue
  | .setDelay seq now delay => t.setDelay seq now delay
  | .guard changes => t.guard changes
  | .tick now => (t.tick now).2

/-! ## In order -/

def Ordered (t : Timer κ) : Prop := t.tasks.Pairwise fun a b => a.due ≤ b.due

theorem build_ordered (t : Timer κ) : t.build.Ordered :=
  have : IsTrans (ScheduledTask κ) fun a b => a.due ≤ b.due := ⟨fun _ _ _ => BitVec.le_trans⟩
  have : Std.Total fun a b : ScheduledTask κ => a.due ≤ b.due := ⟨fun _ _ => BitVec.le_total _ _⟩
  pairwise_insertionSort _ t.tasks

theorem Ordered.step (h : t.Ordered) (op : TimerOp κ) : (t.step op).Ordered := by
  cases op with
  | register callback =>
    refine pairwise_append.2 ⟨h, pairwise_singleton _ _, fun a _ b hb => ?_⟩
    have hmax : U64_MAX.toNat = 2 ^ 64 - 1 := rfl
    rw [mem_singleton.1 hb, BitVec.le_def, hmax]
    omega
  | setDue | setDelay | guard | tick => exact build_ordered _

/-- The tasks that are due come first. They are put off, and the others stay. -/
theorem split_due (h : tasks.Pairwise fun a b => a.due ≤ b.due) (now : WordType) :
    tasks.takeWhile (fun task => decide (task.due ≤ now)) =
        tasks.filter (fun task => decide (task.due ≤ now)) ∧
      (tasks.takeWhile fun task => decide (task.due ≤ now)).map ({ · with due := U64_MAX }) ++
          tasks.dropWhile (fun task => decide (task.due ≤ now)) =
        tasks.map (.dueAt (·.due ≤ now) U64_MAX) := by
  induction tasks with
  | nil => exact ⟨rfl, rfl⟩
  | cons task tasks ih =>
    obtain ⟨hle, htasks⟩ := pairwise_cons.1 h
    by_cases hdue : task.due ≤ now
    · simp [hdue, ScheduledTask.dueAt, (ih htasks).1, ← (ih htasks).2]
    · have hnone : ∀ task' ∈ task :: tasks, ¬ decide (task'.due ≤ now) :=
        forall_mem_cons.2 ⟨by simpa using hdue,
          fun task' ht hdue' => hdue (BitVec.le_trans (hle task' ht) (of_decide_eq_true hdue'))⟩
      rw [map_dueAt_none hnone, filter_eq_nil_iff.2 hnone]
      simp [hdue]

theorem Ordered.nextDue_eq_some (h : t.Ordered) {due : WordType} : t.nextDue = some due ↔
    (∃ task ∈ t.tasks, task.due = due) ∧ ∀ task ∈ t.tasks, due ≤ task.due := by
  unfold nextDue
  cases htasks : t.tasks with
  | nil => simp
  | cons first tasks =>
    rw [Ordered, htasks, pairwise_cons] at h
    rw [head?_cons, Option.map_some, Option.some.injEq]
    constructor
    · rintro rfl
      exact ⟨⟨first, .head _, rfl⟩, forall_mem_cons.2 ⟨BitVec.le_refl _, h.1⟩⟩
    · rintro ⟨⟨task, htask, rfl⟩, hmin⟩
      refine BitVec.le_antisymm ?_ (hmin first (.head _))
      rcases mem_cons.1 htask with rfl | htask
      · exact BitVec.le_refl _
      · exact h.1 task htask

/-! ## The tasks of the timer -/

/-- The tasks of the timer are those of the list, which has them by number. -/
structure Keeps (t : Timer κ) (l : List (ScheduledTask κ)) : Prop where
  tasks : t.tasks.Perm l
  seq : t.seq = l.length
  numbers : l.map (·.seq) = range l.length

theorem Keeps.nodup (h : t.Keeps l) : (t.tasks.map (·.seq)).Nodup :=
  (h.tasks.map _).nodup_iff.2 (h.numbers ▸ nodup_range)

theorem Keeps.build (h : t.Keeps l) : t.build.Keeps l :=
  { h with tasks := (perm_insertionSort _ t.tasks).trans h.tasks }

theorem Keeps.map {p : ScheduledTask κ → Bool} {due : WordType} (h : t.Keeps l)
    (htasks : tasks = t.tasks.map (.dueAt p due)) :
    Keeps { t with tasks } (l.map (.dueAt p due)) where
  tasks := htasks ▸ h.tasks.map _
  seq := h.seq.trans (length_map _).symm
  numbers := by
    rw [length_map, ← h.numbers, map_map]
    exact map_congr_left fun task _ => task.dueAt_seq p due

/-- No other task has the number. -/
theorem setTaskDue_eq (q : Nat) (d : WordType) (h : (tasks.map (·.seq)).Nodup) :
    setTaskDue q d tasks = tasks.map (.dueAt (·.seq = q) d) := by
  induction tasks with
  | nil => rfl
  | cons task tasks ih =>
    obtain ⟨hnot, htasks⟩ := nodup_cons.1 h
    unfold setTaskDue
    rw [map_cons]
    split
    · next hq =>
        have hother : ∀ task' ∈ tasks, ¬ decide (task'.seq = q) := fun task' ht hq' =>
          hnot (mem_map.2 ⟨task', ht, (of_decide_eq_true hq').trans hq.symm⟩)
        rw [map_dueAt_none hother, ScheduledTask.dueAt, if_pos (decide_eq_true hq)]
    · next hq => rw [ih htasks, ScheduledTask.dueAt, if_neg (by simpa using hq)]

theorem Keeps.change (h : t.Keeps l) (c : TimerChange κ) : (t.change c).Keeps (c.tasks l) := by
  cases c with
  | setDue | setDelay => exact h.map (setTaskDue_eq _ _ h.nodup)
  | register callback =>
    simp only [Timer.change, register, TimerChange.tasks, h.seq]
    refine ⟨h.tasks.append_right _, by simp, ?_⟩
    simp [h.numbers, range_succ]

theorem Keeps.step (h : t.Keeps l) (hord : t.Ordered) (op : TimerOp κ) :
    (t.step op).Keeps (op.tasks l) := by
  have hchanges : ∀ changes : List (TimerChange κ),
      (changes.foldl Timer.change t).Keeps (changes.foldl TimerChange.tasks l) := by
    intro changes
    clear hord
    induction changes generalizing t l with
    | nil => exact h
    | cons c changes ih => exact ih (h.change c)
  cases op with
  | register callback => exact h.change (.register callback)
  | setDue seq newDue => exact (h.change (.setDue seq newDue)).build
  | setDelay seq now delay => exact (h.change (.setDelay seq now delay)).build
  | guard changes => exact (hchanges changes).build
  | tick now => exact (h.map (split_due hord now).2).build

theorem Keeps.run (h : t.Keeps l) (hord : t.Ordered) (ops : List (TimerOp κ)) :
    (ops.foldl Timer.step t).Ordered ∧ (ops.foldl Timer.step t).Keeps (ops.foldl TimerOp.tasks l) := by
  induction ops generalizing t l with
  | nil => exact ⟨hord, h⟩
  | cons op ops ih => exact ih (h.step hord op) (hord.step op)

/-- A timer after any operations: its tasks are in order, have numbers of their
own, and are the ones that were registered, each with the due time it was given
last, or none if it was not given one since it was registered or has run. A tick
runs exactly those that are due. One that has run is not due again at any time a
clock shows, until it is given another due time. The next due time is the least
of all. -/
theorem timer_schedules (ops : List (TimerOp κ)) : ∃ t, ops.foldl step new = t ∧ t.Ordered ∧
    (t.tasks.map (·.seq)).Nodup ∧ t.Keeps (ops.foldl TimerOp.tasks []) ∧
    (∀ now, (t.tick now).1 =
      (t.tasks.filter fun task => decide (task.due ≤ now)).map (·.callback)) ∧
    (∀ now, ∀ task ∈ t.tasks, task.due ≤ now → ∀ later : List (TimerOp κ),
      (∀ op ∈ later, ¬ op.Sets task.seq) → ∀ now' < U64_MAX,
        ∀ task' ∈ (later.foldl step (t.tick now).2).tasks, task'.seq = task.seq →
          ¬ task'.due ≤ now') ∧
    (t.nextDue = none ↔ t.tasks = []) ∧
    ∀ due, t.nextDue = some due ↔
      (∃ task ∈ t.tasks, task.due = due) ∧ ∀ task ∈ t.tasks, due ≤ task.due := by
  have hnew : (new : Timer κ).Keeps [] := ⟨.nil, rfl, rfl⟩
  obtain ⟨hord, hkeeps⟩ := hnew.run .nil ops
  generalize ops.foldl step new = t at hord hkeeps
  refine ⟨t, rfl, hord, hkeeps.nodup, hkeeps, fun now => ?_, ?_, by simp [nextDue],
    fun due => hord.nextDue_eq_some⟩
  · exact congrArg (List.map (·.callback)) (split_due hord now).1
  · intro now task htask hdue later hlater now' hnow' task' htask' hseq hdue'
    generalize ops.foldl TimerOp.tasks [] = l at hkeeps
    -- the task has run, and it is the only one with its number
    have hput : PutOff task.seq ((TimerOp.tick now).tasks l) := by
      refine forall_mem_map.2 fun task₁ htask₁ hseq₁ => ?_
      have heq : task₁ = task := inj_on_of_nodup_map hkeeps.nodup (hkeeps.tasks.mem_iff.2 htask₁) htask
        ((task₁.dueAt_seq _ _).symm.trans hseq₁)
      exact congrArg _ (if_pos (decide_eq_true (heq ▸ hdue)))
    have hrun : PutOff task.seq (later.foldl TimerOp.tasks ((TimerOp.tick now).tasks l)) :=
      foldlRecOn (motive := PutOff task.seq) later _ hput fun _ h op hop => h.step (hlater op hop)
    obtain ⟨-, hafter⟩ := (hkeeps.step hord (.tick now)).run (hord.step _) later
    rw [hrun task' (hafter.tasks.mem_iff.1 htask') hseq] at hdue'
    exact absurd hnow' (BitVec.not_lt.2 hdue')

end Timer

end HereEmu
