import HereEmu.Proofs.ClintHalves

/-!
# The timer interrupt

A write to `mtime` or `mtimecmp` compares them and drives the line at once. If
the time has not come, the one task of the timer is set to the value the clock
will have when it does. So in every state one of three things holds (`Law`):
nothing has been written yet; the line is high and the time has come; or the
line is low and the task is as far from the clock as `mtime` is from `mtimecmp`.
A tick makes the last two decide between themselves.

The distance is kept as long as neither the cycle counter nor `mtime` wraps
around. And the task has to be set to the right time in the first place: its due
time is computed modulo 2^64, so a deadline further away than the clock can
count falls into the past (`deadline_in_the_past`).
-/

namespace HereEmu

open Lib Timer List

/-- A write to one of the four words of `mtimecmp` and `mtime`. -/
def ClintEvent.WritesTime : ClintEvent → Prop
  | .write _ addr _ => addr.toNat = 0x4000 ∨ addr.toNat = 0x4004 ∨ addr.toNat = 0xbff8 ∨
      addr.toNat = 0xbffc
  | _ => False

namespace ClintSystem

variable {s s' : ClintSystem} {cmp due : WordType} {calls : List IrqCall} {e : ClintEvent}
  {a : ClintAction} {es : List ClintEvent} {os : List ClintAction}

def timerLine : IRQLine := ⟨.machineTimer⟩

/-- The board of one hart, with the deadline and the time its task is due at. -/
structure OneHart (cmp due : WordType) (s : ClintSystem) : Prop where
  placed : s.Placed
  harts : s.clint.hartNum = 1
  timeCmp : s.clint.timeCmp = [cmp]
  line : s.clint.timerIrqLine = some timerLine
  cbId : s.clint.timerCbId = 0
  tasks : s.timer.tasks = [⟨due, 0, timerLine⟩]

theorem OneHart.new : OneHart 0 U64_MAX .new :=
  ⟨⟨rfl, rfl, rfl, by decide, rfl, rfl⟩, rfl, rfl, rfl, rfl, rfl⟩

/-- The time of the task after the comparison. -/
def dueAfter (s : ClintSystem) (cmp due : WordType) : WordType :=
  if cmp ≤ s.getTime then due else cmp - s.clint.timeOffset

/-- What a comparison leaves: the level that was sent, and the task. -/
structure Compared (s : ClintSystem) (cmp due : WordType) (calls : List IrqCall)
    (s' : ClintSystem) : Prop where
  oneHart : s'.OneHart cmp (s'.dueAfter cmp due)
  level : lastLevel 0 calls = some (decide (cmp ≤ s'.getTime))
  cycles : s'.cycles = s.cycles

theorem OneHart.updateTimer (hs : s.OneHart cmp due) :
    ∃ calls s', s.updateTimer 0 = .ok (calls, s') ∧ s.Compared cmp due calls s' := by
  unfold ClintSystem.updateTimer
  rw [hs.timeCmp, hs.line]
  dsimp only [getElem?_cons_zero]
  by_cases hcome : cmp ≤ s.getTime
  · rw [if_pos hcome]
    refine ⟨_, s, rfl, ?_, ?_, rfl⟩
    · rw [dueAfter, if_pos hcome]
      exact hs
    · rw [decide_eq_true hcome]
      rfl
  · rw [if_neg hcome]
    refine ⟨_, _, rfl, ?_, ?_, rfl⟩
    · show OneHart cmp (s.dueAfter cmp due) _
      rw [dueAfter, if_neg hcome]
      refine { hs with placed := { hs.placed with }, tasks := ?_ }
      rw [hs.cbId, setDue, hs.tasks]
      rfl
    · show _ = some (decide (cmp ≤ s.getTime))
      rw [decide_eq_false hcome]
      rfl

theorem OneHart.writeTimeCmp (hs : s.OneHart cmp due) (v : WordType) :
    ∃ a s', s.writeTimeCmp 0 v = .ok (a, s') ∧ s.Compared v due a.calls s' := by
  have hs₁ : OneHart v due { s with clint.timeCmp := s.clint.timeCmp.set 0 v } := by
    refine { hs with placed := { hs.placed with timeCmp := ?_ }, timeCmp := ?_ }
    · exact (length_set ..).trans hs.placed.timeCmp
    · rw [hs.timeCmp]
      rfl
  obtain ⟨calls, s', hupdate, hone, hlevel, hcycles⟩ := hs₁.updateTimer
  refine ⟨⟨some (.ok 0), calls⟩, s', ?_, hone, hlevel, hcycles⟩
  simp only [ClintSystem.writeTimeCmp, hupdate, bind, Except.bind]
  rfl

theorem OneHart.writeTime (hs : s.OneHart cmp due) (v : WordType) :
    ∃ a s', s.writeTime v = .ok (a, s') ∧ s.Compared cmp due a.calls s' := by
  have hs₁ : OneHart cmp due { s with clint.timeOffset := v - s.now } :=
    { hs with placed := { hs.placed with } }
  obtain ⟨calls, s', hupdate, hone, hlevel, hcycles⟩ := hs₁.updateTimer
  refine ⟨⟨some (.ok 0), calls⟩, s', ?_, hone, hlevel, hcycles⟩
  have hrange : range s.clint.hartNum = [0] := by rw [hs.harts]; rfl
  simp only [ClintSystem.writeTime, hrange, updateTimers, hupdate, bind, Except.bind, pure,
    Except.pure, append_nil]

/-- A write compares the two registers, or it has nothing to do with them. -/
theorem OneHart.write (hs : s.OneHart cmp due) (w : Width) (addr data : WordType) :
    ∃ a s', s.write w addr data = .ok (a, s') ∧ ((∃ cmp', s.Compared cmp' due a.calls s') ∨
      ¬ (ClintEvent.write w addr data).WritesTime ∧ s'.OneHart cmp due ∧
        lastLevel 0 a.calls = none ∧ s'.getTime = s.getTime ∧ s'.cycles = s.cycles) := by
  have hcmp : s.clint.timecmpBase = 0x4000 := hs.placed.timecmpBase
  have htime : s.clint.timeBase = 0xbff8 := hs.placed.timeBase
  unfold ClintSystem.write ClintEvent.WritesTime
  dsimp only
  rw [hs.placed.msipBase, hcmp, htime, hs.harts]
  generalize addr.toNat = addr
  by_cases hmsip : 0 ≤ addr ∧ addr < 0 + 1 * 4
  · rw [if_pos hmsip]
    split
    · exact ⟨_, _, rfl, .inr ⟨by omega, hs, rfl, rfl, rfl⟩⟩
    · refine ⟨_, _, rfl, .inr ⟨by omega, ?_, ?_, rfl, rfl⟩⟩
      · exact { hs with placed := { hs.placed with } }
      · cases s.clint.softwareIrqLine <;> rfl
  rw [if_neg hmsip]
  by_cases htimecmp : 0x4000 ≤ addr ∧ addr < 0x4000 + 1 * 8
  · have hindex : (addr - 0x4000) / 8 = 0 := by omega
    rw [if_pos htimecmp, hindex, hs.timeCmp]
    dsimp only [getElem?_cons_zero]
    split
    · obtain ⟨a, s', hwrite, hcompared⟩ := hs.writeTimeCmp (w.truncate data)
      exact ⟨a, s', hwrite, .inl ⟨_, hcompared⟩⟩
    split
    · obtain ⟨a, s', hwrite, hcompared⟩ := hs.writeTimeCmp
        (concatToU64 ((w.truncate data).setWidth 32) (cmp.setWidth 32))
      exact ⟨a, s', hwrite, .inl ⟨_, hcompared⟩⟩
    · exact ⟨_, _, rfl, .inr ⟨by omega, hs, rfl, rfl, rfl⟩⟩
  rw [if_neg htimecmp]
  split
  · obtain ⟨a, s', hwrite, hcompared⟩ := hs.writeTime (if w.bits = 32
      then concatToU64 ((s.getTime >>> 32).setWidth 32) ((w.truncate data).setWidth 32)
      else w.truncate data)
    exact ⟨a, s', hwrite, .inl ⟨_, hcompared⟩⟩
  split
  · obtain ⟨a, s', hwrite, hcompared⟩ := hs.writeTime
      (concatToU64 ((w.truncate data).setWidth 32) (s.getTime.setWidth 32))
    exact ⟨a, s', hwrite, .inl ⟨_, hcompared⟩⟩
  · exact ⟨_, _, rfl, .inr ⟨by omega, hs, rfl, rfl, rfl⟩⟩

theorem OneHart.prepareCpuBatch (hs : s.OneHart cmp due) :
    s.prepareCpuBatch.2.clint = s.clint ∧ s.prepareCpuBatch.2.cycles = s.cycles ∧
      ((due ≤ s.now ∧ s.prepareCpuBatch.1 = [⟨0, .machineTimer, true⟩] ∧
          s.prepareCpuBatch.2.OneHart cmp U64_MAX) ∨
        ¬ due ≤ s.now ∧ s.prepareCpuBatch.1 = [] ∧ s.prepareCpuBatch.2.OneHart cmp due) := by
  refine ⟨rfl, rfl, ?_⟩
  by_cases hdue : due ≤ s.now
  · refine .inl ⟨hdue, ?_, { hs with placed := { hs.placed with }, tasks := ?_ }⟩
    all_goals
      simp [ClintSystem.prepareCpuBatch, tick, hs.tasks, takeWhile, dropWhile, hdue, build,
        IRQLine.setIrq, timerLine]
  · refine .inr ⟨hdue, ?_, { hs with placed := { hs.placed with }, tasks := ?_ }⟩
    all_goals simp [ClintSystem.prepareCpuBatch, tick, hs.tasks, hdue, build]

/-! ## The law -/

/-- The deadline is not further away than the clock can count. -/
def DeadlineFits (s : ClintSystem) : Prop :=
  ∀ cmp ∈ s.clint.timeCmp, s.now.toNat + (cmp.toNat - s.getTime.toNat) < 2 ^ 64

/-- Neither the cycle counter nor `mtime` wraps around, and deadlines fit. -/
def Allowed (s : ClintSystem) : ClintEvent → Prop
  | .write w addr data => ∀ a s', s.write w addr data = .ok (a, s') → s'.DeadlineFits
  | .finishCpuBatch cycles => s.cycles.toNat + cycles.toNat < 2 ^ 64 ∧
      s.getTime.toNat + ((s.finishCpuBatch cycles).now.toNat - s.now.toNat) < 2 ^ 64
  | _ => True

instance (s : ClintSystem) : Decidable s.DeadlineFits :=
  decidable_of_iff (s.clint.timeCmp.all fun cmp =>
    decide (s.now.toNat + (cmp.toNat - s.getTime.toNat) < 2 ^ 64)) (by simp [DeadlineFits])

instance (s : ClintSystem) (e : ClintEvent) : Decidable (s.Allowed e) := by
  unfold Allowed
  split <;> infer_instance

/-- Nothing has been sent; or the time has come and the line is high; or the line
is low and the task is due when the time comes. -/
def Law (level : Option Bool) (cmp due : WordType) (s : ClintSystem) : Prop :=
  (level = none ∧ due = U64_MAX) ∨ (level = some true ∧ cmp ≤ s.getTime) ∨
    (level = some false ∧ due.toNat + s.getTime.toNat = cmp.toNat + s.now.toNat)

/-- What was sent last, and the state, fit together. -/
def TimerInv (calls : List IrqCall) (s : ClintSystem) : Prop :=
  ∃ cmp due, s.OneHart cmp due ∧ Law (lastLevel 0 calls) cmp due s

/-- A task set for a deadline that fits is as far from the clock as the deadline
is from the time. -/
theorem due_distance {cmp offset now : WordType} (hcome : ¬ cmp ≤ now + offset)
    (hfits : now.toNat + (cmp.toNat - (now + offset).toNat) < 2 ^ 64) :
    (cmp - offset).toNat + (now + offset).toNat = cmp.toNat + now.toNat := by
  bv_omega

theorem now_toNat (s : ClintSystem) : s.now.toNat = s.cycles.toNat / 8 := by
  rw [now, VirtualClock.now, BitVec.toNat_ushiftRight, Nat.shiftRight_eq_div_pow]

/-- Clock and `mtime` go on by the same amount. -/
theorem finish_distance {cycles : WordType} (hallowed : s.Allowed (.finishCpuBatch cycles)) :
    ∃ d, (s.finishCpuBatch cycles).now.toNat = s.now.toNat + d ∧
      (s.finishCpuBatch cycles).getTime.toNat = s.getTime.toNat + d := by
  obtain ⟨hcycles, htime⟩ := hallowed
  have hsum : (s.finishCpuBatch cycles).cycles.toNat = s.cycles.toNat + cycles.toNat := by
    show (s.cycles + cycles).toNat = _
    rw [BitVec.toNat_add]
    omega
  have hle : s.now.toNat ≤ (s.finishCpuBatch cycles).now.toNat := by
    rw [now_toNat, now_toNat, hsum]
    omega
  refine ⟨(s.finishCpuBatch cycles).now.toNat - s.now.toNat, by omega, ?_⟩
  unfold getTime at htime ⊢
  generalize (s.finishCpuBatch cycles).now = now' at hle htime
  show (now' + s.clint.timeOffset).toNat = _
  generalize s.now = now at hle htime
  generalize s.clint.timeOffset = offset at htime
  bv_omega

theorem Law.compared {s₀ : ClintSystem} (hs : s₀.Compared cmp due calls s') (hfits : s'.DeadlineFits) :
    Law (lastLevel 0 calls) cmp (s'.dueAfter cmp due) s' := by
  rw [hs.level]
  by_cases hcome : cmp ≤ s'.getTime
  · exact .inr (.inl ⟨by rw [decide_eq_true hcome], hcome⟩)
  · refine .inr (.inr ⟨by rw [decide_eq_false hcome], ?_⟩)
    have hmem : cmp ∈ s'.clint.timeCmp := by
      rw [hs.oneHart.timeCmp]
      exact mem_singleton_self cmp
    rw [dueAfter, if_neg hcome]
    exact due_distance hcome (hfits cmp hmem)

theorem Law.finish {level : Option Bool} {cycles : WordType} (hs : Law level cmp due s)
    (hallowed : s.Allowed (.finishCpuBatch cycles)) :
    Law level cmp due (s.finishCpuBatch cycles) := by
  obtain ⟨d, hnow, htime⟩ := finish_distance hallowed
  rcases hs with hs | ⟨hlevel, hcome⟩ | ⟨hlevel, hdistance⟩
  · exact .inl hs
  · refine .inr (.inl ⟨hlevel, ?_⟩)
    rw [BitVec.le_def] at hcome ⊢
    omega
  · refine .inr (.inr ⟨hlevel, ?_⟩)
    omega

/-- The end of time never comes. -/
theorem not_max_le_now (s : ClintSystem) : ¬ U64_MAX ≤ s.now := by
  have hmax : U64_MAX.toNat = 2 ^ 64 - 1 := rfl
  rw [BitVec.le_def, now_toNat, hmax]
  omega

/-- A tick decides: the line is high if and only if the time has come. -/
theorem Law.tick (hs : s.OneHart cmp due) (hlaw : Law (lastLevel 0 calls) cmp due s) :
    TimerInv (calls ++ s.prepareCpuBatch.1) s.prepareCpuBatch.2 ∧
      (lastLevel 0 calls ≠ none → lastLevel 0 (calls ++ s.prepareCpuBatch.1) =
        some (decide (cmp ≤ s.getTime))) := by
  obtain ⟨hclint, hcycles, htick⟩ := hs.prepareCpuBatch
  have htime : s.prepareCpuBatch.2.getTime = s.getTime := getTime_congr hclint hcycles
  have hnow : s.prepareCpuBatch.2.now = s.now := by rw [now, hcycles, now]
  rcases htick with ⟨hdue, hcalls, hone⟩ | ⟨hdue, hcalls, hone⟩
  · have hhigh : lastLevel 0 (calls ++ s.prepareCpuBatch.1) = some true := by
      rw [hcalls, lastLevel_append]
      rfl
    have hcome : cmp ≤ s.getTime := by
      rcases hlaw with ⟨_, hmax⟩ | ⟨_, hcome⟩ | ⟨_, hdistance⟩
      · rw [hmax] at hdue
        exact absurd hdue (not_max_le_now s)
      · exact hcome
      · rw [BitVec.le_def] at hdue ⊢
        omega
    refine ⟨⟨cmp, U64_MAX, hone, .inr (.inl ⟨hhigh, ?_⟩)⟩, fun _ => ?_⟩
    · rw [htime]
      exact hcome
    · rw [hhigh, decide_eq_true hcome]
  · rw [hcalls, append_nil]
    refine ⟨⟨cmp, due, hone, ?_⟩, fun hsent => ?_⟩
    · unfold Law
      exact hlaw
    · rcases hlaw with ⟨hnone, _⟩ | ⟨hlevel, hcome⟩ | ⟨hlevel, hdistance⟩
      · exact absurd hnone hsent
      · rw [hlevel, decide_eq_true hcome]
      · have hbefore : ¬ cmp ≤ s.getTime := by
          rw [BitVec.le_def] at hdue ⊢
          omega
        rw [hlevel, decide_eq_false hbefore]

/-! ## Runs -/

theorem OneHart.step (hs : s.OneHart cmp due) (e : ClintEvent) :
    ∃ a s', s.step e = .ok (a, s') ∧ (∃ cmp' due', s'.OneHart cmp' due') ∧
      (e.WritesTime → lastLevel 0 a.calls ≠ none) := by
  cases e with
  | read w addr => exact ⟨_, _, rfl, ⟨cmp, due, hs⟩, fun h => h.elim⟩
  | write w addr data =>
    obtain ⟨a, s', hwrite, ⟨cmp', hcompared⟩ | ⟨hquiet, hone, _⟩⟩ := hs.write w addr data
    · refine ⟨a, s', hwrite, ⟨_, _, hcompared.oneHart⟩, fun _ => ?_⟩
      rw [hcompared.level]
      exact Option.some_ne_none _
    · exact ⟨a, s', hwrite, ⟨_, _, hone⟩, fun h => absurd h hquiet⟩
  | prepareCpuBatch =>
    refine ⟨_, _, rfl, ?_, fun h => h.elim⟩
    rcases hs.prepareCpuBatch.2.2 with ⟨_, _, hone⟩ | ⟨_, _, hone⟩
    · exact ⟨_, _, hone⟩
    · exact ⟨_, _, hone⟩
  | finishCpuBatch cycles =>
    exact ⟨_, _, rfl, ⟨cmp, due, { hs with placed := { hs.placed with } }⟩, fun h => h.elim⟩

theorem TimerInv.step (hs : TimerInv calls s) (hallowed : s.Allowed e)
    (h : s.step e = .ok (a, s')) : TimerInv (calls ++ a.calls) s' := by
  obtain ⟨cmp, due, hone, hlaw⟩ := hs
  cases e with
  | read w addr =>
    cases h
    rw [append_nil]
    exact ⟨cmp, due, hone, hlaw⟩
  | write w addr data =>
    have hfits := hallowed a s' h
    obtain ⟨a', t, hwrite, hcases⟩ := hone.write w addr data
    cases hwrite.symm.trans h
    rcases hcases with ⟨cmp', hcompared⟩ | ⟨_, hone', hquiet, htime, hcycles⟩
    · refine ⟨cmp', _, hcompared.oneHart, ?_⟩
      have hlaw' := Law.compared hcompared hfits
      rw [lastLevel_append]
      rwa [hcompared.level] at hlaw' ⊢
    · refine ⟨cmp, due, hone', ?_⟩
      have hnow : s'.now = s.now := by rw [now, hcycles, now]
      unfold Law
      rw [lastLevel_append, hquiet, Option.none_or, htime, hnow]
      exact hlaw
  | prepareCpuBatch =>
    cases h
    exact (Law.tick hone hlaw).1
  | finishCpuBatch cycles =>
    cases h
    rw [append_nil]
    exact ⟨cmp, due, { hone with placed := { hone.placed with } }, hlaw.finish hallowed⟩

/-- Something has been sent in a run that has written one of the registers. -/
theorem written_run (hs : s.OneHart cmp due) (h : runAll step s es = .ok (os, s'))
    (hwritten : ∃ e ∈ es, e.WritesTime) : lastLevel 0 (os.flatMap ClintAction.calls) ≠ none := by
  induction es generalizing s cmp due os with
  | nil =>
    obtain ⟨e, he, _⟩ := hwritten
    exact absurd he not_mem_nil
  | cons e es ih =>
    obtain ⟨a, s₁, os', hstep, hrest, rfl⟩ := runAll_cons h
    obtain ⟨a', s₁', hstep', ⟨cmp', due', hs₁⟩, hsent⟩ := hs.step e
    cases hstep'.symm.trans hstep
    rw [flatMap_cons, lastLevel_append]
    intro hnone
    rw [Option.or_eq_none_iff] at hnone
    obtain ⟨e', he', hwrites⟩ := hwritten
    rcases mem_cons.1 he' with rfl | hmem
    · exact hsent hwrites hnone.2
    · exact ih hs₁ hrest ⟨e', hmem, hwrites⟩ hnone.1

/-- Once `mtime` or `mtimecmp` has been written, a tick leaves the timer line high
if and only if `mtime` has reached `mtimecmp`, whatever is written to them and
however the cycles go, as long as nothing wraps around and no deadline is
further away than the clock can count. -/
theorem timer_line_law (hallowed : Always step Allowed .new es)
    (hwritten : ∃ e ∈ es, e.WritesTime) :
    ∃ os s, runAll step .new (es ++ [.prepareCpuBatch]) = .ok (os, s) ∧
      lastLevel 0 (os.flatMap ClintAction.calls) =
        some (decide (s.value (.mtimecmp 0) ≤ s.value .mtime)) := by
  have htotal : ∀ s e, (∃ cmp due, OneHart cmp due s) → e ∈ es ++ [.prepareCpuBatch] →
      ∃ a s', step s e = .ok (a, s') ∧ True ∧ ∃ cmp due, OneHart cmp due s' := by
    rintro s e ⟨cmp, due, hs⟩ _
    obtain ⟨a, s', hstep, hone, _⟩ := hs.step e
    exact ⟨a, s', hstep, trivial, hone⟩
  obtain ⟨os, t, hrun, _⟩ := runAll_total htotal ⟨_, _, OneHart.new⟩ fun _ => id
  obtain ⟨s, os₁, os₂, hrun₁, htick, rfl⟩ := runAll_append hrun
  obtain ⟨a, t', _, hstep, hend, rfl⟩ := runAll_cons htick
  cases hend
  have hkeep : ∀ os s e a s', TimerInv (flatMap ClintAction.calls os) s → Allowed s e →
      step s e = .ok (a, s') →
      TimerInv (flatMap ClintAction.calls (os ++ [a])) s' := by
    intro os s e a s' hs hallowed h
    rw [flatMap_append, flatMap_singleton]
    exact hs.step hallowed h
  have hnew : TimerInv (flatMap ClintAction.calls []) .new :=
    ⟨_, _, OneHart.new, .inl ⟨rfl, rfl⟩⟩
  obtain ⟨cmp, due, hone, hlaw⟩ := runAll_history hkeep hnew hallowed hrun₁
  have hsent := written_run OneHart.new hrun₁ hwritten
  obtain ⟨hclint, hcycles, _⟩ := hone.prepareCpuBatch
  have htick' : s.step .prepareCpuBatch =
      .ok (⟨none, s.prepareCpuBatch.1⟩, s.prepareCpuBatch.2) := rfl
  rw [htick', Except.ok.injEq, Prod.mk.injEq] at hstep
  obtain ⟨rfl, rfl⟩ := hstep
  refine ⟨_, _, hrun, ?_⟩
  rw [flatMap_append, flatMap_singleton]
  have hlevel := (Law.tick hone hlaw).2 hsent
  have hvalue : s.prepareCpuBatch.2.value (.mtimecmp 0) = cmp := by
    rw [value, hclint, hone.timeCmp]
    rfl
  have htime : s.prepareCpuBatch.2.value .mtime = s.getTime := getTime_congr hclint hcycles
  rw [hvalue, htime]
  exact hlevel

/-- A deadline of 10 is met at 11, which is 88 cycles. -/
theorem timer_line_law_met : ∃ os s,
    runAll step .new ([.write .u64 0x4000 10, .finishCpuBatch 40, .prepareCpuBatch,
      .finishCpuBatch 48] ++ [.prepareCpuBatch]) = .ok (os, s) ∧
      lastLevel 0 (os.flatMap ClintAction.calls) =
        some (decide (s.value (.mtimecmp 0) ≤ s.value .mtime)) :=
  timer_line_law (by decide +kernel) ⟨_, mem_cons_self, .inl rfl⟩

/-- At 800 cycles the clock is at 100. The driver sets `mtime` to 0 and the deadline
to the largest value there is, and the next tick raises the line. -/
theorem deadline_in_the_past :
    (runAll step .new [.finishCpuBatch 800, .write .u64 0xbff8 0,
      .write .u64 0x4000 0xffffffffffffffff, .prepareCpuBatch]).map (fun out =>
        (lastLevel 0 (out.1.flatMap ClintAction.calls), out.2.value .mtime,
          out.2.value (.mtimecmp 0))) = .ok (some true, 0, 0xffffffffffffffff) := by
  decide +kernel

end ClintSystem

end HereEmu
