import HereEmu.Basic
import Mathlib.Data.List.Sort

/-!
# Clock and timer

The clock of the board is its cycle counter, divided by eight. The timer keeps
tasks in the order of the time they are due at. A task that is due runs once and
is then put off to the end of time.
-/

namespace HereEmu

/-- `VirtualClock::now` at a value of the cycle counter. -/
def VirtualClock.now (cycles : WordType) : WordType := cycles >>> 3

/-- The largest `u64`. -/
def U64_MAX : WordType := BitVec.allOnes 64

/-- A task with a callback of any kind. -/
structure ScheduledTask (κ : Type) where
  due : WordType
  seq : Nat
  callback : κ
  deriving DecidableEq, Repr

structure Timer (κ : Type) where
  seq : Nat
  tasks : List (ScheduledTask κ)
  deriving DecidableEq, Repr

/-- `u64::saturating_add`. -/
def saturatingAdd (a b : WordType) : WordType :=
  if a.toNat + b.toNat < 2 ^ 64 then a + b else U64_MAX

/-- A change made through a `TimerGuard`. The clock is read for a delay. -/
inductive TimerChange (κ : Type) where
  | register (callback : κ)
  | setDue (seq : Nat) (newDue : WordType)
  | setDelay (seq : Nat) (now delay : WordType)

namespace Timer

variable {κ : Type} (t : Timer κ)

def new : Timer κ := ⟨0, []⟩

/-- The new task has no due time yet. -/
def register (callback : κ) : Nat × Timer κ :=
  (t.seq, ⟨t.seq + 1, t.tasks ++ [⟨U64_MAX, t.seq, callback⟩]⟩)

/-- Tasks that are due at the same time may come in any order; here the sort is
stable. -/
def build : Timer κ :=
  { t with tasks := t.tasks.insertionSort fun a b => a.due ≤ b.due }

/-- The first task with the number gets the due time. -/
def setTaskDue (seq : Nat) (newDue : WordType) : List (ScheduledTask κ) → List (ScheduledTask κ)
  | [] => []
  | task :: tasks =>
    if task.seq = seq then { task with due := newDue } :: tasks
    else task :: setTaskDue seq newDue tasks

def setDue (seq : Nat) (newDue : WordType) : Timer κ :=
  build { t with tasks := setTaskDue seq newDue t.tasks }

def setDelay (seq : Nat) (now delay : WordType) : Timer κ :=
  t.setDue seq (saturatingAdd now delay)

def change : TimerChange κ → Timer κ
  | .register callback => (t.register callback).2
  | .setDue seq newDue => { t with tasks := setTaskDue seq newDue t.tasks }
  | .setDelay seq now delay => { t with tasks := setTaskDue seq (saturatingAdd now delay) t.tasks }

/-- The life of a guard, up to its drop. -/
def guard (changes : List (TimerChange κ)) : Timer κ := build (changes.foldl change t)

def nextDue : Option WordType := t.tasks.head?.map (·.due)

/-- The callbacks that run, and the timer afterwards. -/
def tick (now : WordType) : List κ × Timer κ :=
  let due := t.tasks.takeWhile fun task => decide (task.due ≤ now)
  let rest := t.tasks.dropWhile fun task => decide (task.due ≤ now)
  (due.map (·.callback),
    build { t with tasks := due.map (fun task => { task with due := U64_MAX }) ++ rest })

end Timer

end HereEmu
