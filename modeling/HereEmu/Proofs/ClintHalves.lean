import HereEmu.Device.Clint
import HereEmu.Lib.Run

/-!
# The halves of the time registers

Each 64-bit register of the core-local interruptor can be accessed by its two
halves. For `mtime` this works as one expects: a write of a half takes the other
from the value the register has. `mtimecmp` is written whole by an access to its
low half, whatever its type, so that a 32-bit write clears the high half; only a
high half that is zero is kept.
-/

namespace HereEmu

open Lib BitVec Nat

variable (v : WordType)

def lowHalf : BitVec 32 := v.setWidth 32

def highHalf : BitVec 32 := (v >>> 32).setWidth 32

theorem concatToU64_toNat (high low : BitVec 32) :
    (concatToU64 high low).toNat = high.toNat * 2 ^ 32 + low.toNat := by
  have hlow := low.isLt
  have hshift : (high.setWidth 64 <<< 32 : WordType).toNat = high.toNat <<< 32 := by
    rw [toNat_shiftLeft, toNat_setWidth, Nat.shiftLeft_eq, Nat.shiftLeft_eq]
    omega
  have hzero : (low.setWidth 64 : WordType).toNat = low.toNat := by
    rw [toNat_setWidth]
    omega
  rw [concatToU64, toNat_or, hshift, hzero, ← Nat.shiftLeft_add_eq_or_of_lt hlow, Nat.shiftLeft_eq]

theorem lowHalf_toNat : (lowHalf v).toNat = v.toNat % 2 ^ 32 :=
  toNat_setWidth ..

theorem highHalf_toNat : (highHalf v).toNat = v.toNat / 2 ^ 32 := by
  rw [highHalf, toNat_setWidth, toNat_ushiftRight, shiftRight_eq_div_pow]
  omega

theorem lowHalf_concat (high low : BitVec 32) : lowHalf (concatToU64 high low) = low := by
  apply eq_of_toNat_eq
  rw [lowHalf_toNat, concatToU64_toNat]
  omega

theorem highHalf_concat (high low : BitVec 32) : highHalf (concatToU64 high low) = high := by
  apply eq_of_toNat_eq
  rw [highHalf_toNat, concatToU64_toNat]
  omega

/-- What a read or a write at 32 bits carries. -/
theorem truncate_u32 : Width.u32.truncate v = (lowHalf v).setWidth 64 := by
  apply eq_of_toNat_eq
  have hmask : (BitVec.ofNat 64 (2 ^ Width.u32.bits - 1)).toNat = 2 ^ 32 - 1 := by decide
  rw [Width.truncate, toNat_and, hmask, and_two_pow_sub_one_eq_mod, toNat_setWidth, lowHalf_toNat]
  omega

/-- The two kinds of 64-bit registers. -/
inductive TimeReg where
  | mtimecmp (hart : Nat)
  | mtime
  deriving DecidableEq, Repr

namespace TimeReg

def addr : TimeReg → Nat
  | mtimecmp hart => MTIMECMP_OFFSET + 8 * hart
  | mtime => MTIME_OFFSET

def writeLow (r : TimeReg) (value : BitVec 32) : ClintEvent :=
  .write .u32 (BitVec.ofNat 64 r.addr) (value.setWidth 64)

def writeHigh (r : TimeReg) (value : BitVec 32) : ClintEvent :=
  .write .u32 (BitVec.ofNat 64 (r.addr + 4)) (value.setWidth 64)

end TimeReg

namespace ClintSystem

variable {s s' t : ClintSystem} {r : TimeReg} {i : Nat}

def value (s : ClintSystem) : TimeReg → WordType
  | .mtimecmp hart => s.clint.timeCmp.getD hart 0
  | .mtime => s.getTime

/-- A device at the addresses the board gives it, with as many harts as there is
room for, and with its timer line. -/
structure Placed (s : ClintSystem) : Prop where
  msipBase : s.clint.msipBase = 0
  timecmpBase : s.clint.timecmpBase = MTIMECMP_OFFSET
  timeBase : s.clint.timeBase = MTIME_OFFSET
  harts : s.clint.hartNum ≤ 4095
  timeCmp : s.clint.timeCmp.length = s.clint.hartNum
  line : s.clint.timerIrqLine.isSome

theorem Placed.congr (hs : s.Placed) (hclint : s'.clint = s.clint) : s'.Placed := by
  obtain ⟨_, _, _⟩ := s'
  cases hclint
  exact { hs with }

/-- The device has the register. -/
def Has (s : ClintSystem) : TimeReg → Prop
  | .mtimecmp hart => hart < s.clint.hartNum
  | .mtime => True

/-- The registers after a write of `v` to `r`. -/
def Updated (s : ClintSystem) (r : TimeReg) (v : WordType) (s' : ClintSystem) : Prop :=
  s'.Placed ∧ s'.clint.hartNum = s.clint.hartNum ∧
    ∀ r', s.Has r' → s'.value r' = if r' = r then v else s.value r'

/-! ## Where an access goes -/

theorem addr_toNat (hs : s.Placed) (hr : s.Has r) :
    (BitVec.ofNat 64 r.addr).toNat = r.addr ∧ (BitVec.ofNat 64 (r.addr + 4)).toNat = r.addr + 4 := by
  have hharts := hs.harts
  have haddr : r.addr + 4 < 2 ^ 64 := by
    cases r with
    | mtimecmp hart =>
      have hhart : hart < s.clint.hartNum := hr
      simp only [TimeReg.addr, MTIMECMP_OFFSET]
      omega
    | mtime => decide
  rw [toNat_ofNat, toNat_ofNat]
  omega

theorem timeCmp_get (hs : s.Placed) (hi : i < s.clint.hartNum) :
    s.clint.timeCmp[i]? = some (s.value (.mtimecmp i)) := by
  rw [value, List.getD_eq_getElem?_getD, List.getElem?_eq_getElem (by rw [hs.timeCmp]; exact hi)]
  rfl

/-- An address in the registers of one kind is in their range only. -/
theorem mtimecmp_range {hart addr k : Nat} (hs : s.Placed) (hr : s.Has (.mtimecmp hart))
    (haddr : addr = (TimeReg.mtimecmp hart).addr + k) (hk : k < 8) :
    ¬ (s.clint.msipBase ≤ addr ∧ addr < s.clint.msipBase + s.clint.hartNum * 4) ∧
      (s.clint.timecmpBase ≤ addr ∧ addr < s.clint.timecmpBase + s.clint.hartNum * 8) ∧
      (addr - s.clint.timecmpBase) / 8 = hart ∧ addr % 8 = k := by
  have hharts := hs.harts
  have hhart : hart < s.clint.hartNum := hr
  rw [hs.msipBase, hs.timecmpBase]
  simp only [TimeReg.addr, MTIMECMP_OFFSET] at haddr ⊢
  omega

theorem mtime_range {addr : Nat} (hs : s.Placed) (haddr : TimeReg.mtime.addr ≤ addr) :
    ¬ (s.clint.msipBase ≤ addr ∧ addr < s.clint.msipBase + s.clint.hartNum * 4) ∧
      ¬ (s.clint.timecmpBase ≤ addr ∧ addr < s.clint.timecmpBase + s.clint.hartNum * 8) := by
  have hharts := hs.harts
  rw [hs.msipBase, hs.timecmpBase]
  simp only [TimeReg.addr, MTIME_OFFSET, MTIMECMP_OFFSET] at haddr ⊢
  omega

theorem mtime_addr (hs : s.Placed) :
    TimeReg.mtime.addr = s.clint.timeBase ∧ TimeReg.mtime.addr + 4 ≠ s.clint.timeBase := by
  rw [hs.timeBase]
  decide

theorem read_low (hs : s.Placed) (hr : s.Has r) (w : Width) :
    s.read w (BitVec.ofNat 64 r.addr) = .ok (w.truncate (s.value r)) := by
  unfold read
  rw [(addr_toNat hs hr).1]
  cases r with
  | mtimecmp hart =>
    obtain ⟨hmsip, hcmp, hindex, hhalf⟩ := mtimecmp_range hs hr (add_zero _).symm (by decide)
    rw [if_neg hmsip, if_pos hcmp, hindex, timeCmp_get hs hr]
    dsimp only
    rw [if_pos hhalf]
  | mtime =>
    obtain ⟨hmsip, hcmp⟩ := mtime_range hs (le_refl _)
    rw [if_neg hmsip, if_neg hcmp, if_pos (mtime_addr hs).1]
    rfl

theorem read_high (hs : s.Placed) (hr : s.Has r) (w : Width) :
    s.read w (BitVec.ofNat 64 (r.addr + 4)) = .ok (w.truncate (s.value r >>> 32)) := by
  unfold read
  rw [(addr_toNat hs hr).2]
  cases r with
  | mtimecmp hart =>
    obtain ⟨hmsip, hcmp, hindex, hhalf⟩ := mtimecmp_range (k := 4) hs hr rfl (by decide)
    rw [if_neg hmsip, if_pos hcmp, hindex, timeCmp_get hs hr]
    dsimp only
    rw [if_neg (by rw [hhalf]; decide), if_pos hhalf]
  | mtime =>
    obtain ⟨hmsip, hcmp⟩ := mtime_range hs (le_add_right _ 4)
    rw [if_neg hmsip, if_neg hcmp, if_neg (mtime_addr hs).2, if_pos (by rw [(mtime_addr hs).1])]
    rfl

/-- The register is written whole. -/
def writeReg (s : ClintSystem) (r : TimeReg) (v : WordType) : Rust (ClintAction × ClintSystem) :=
  match r with
  | .mtimecmp hart => s.writeTimeCmp hart v
  | .mtime => s.writeTime v

/-- What a write of a value to the low half writes. -/
def lowWritten (r : TimeReg) (old : WordType) (v : BitVec 32) : WordType :=
  match r with
  | .mtimecmp _ => v.setWidth 64
  | .mtime => concatToU64 (highHalf old) v

theorem step_writeLow (hs : s.Placed) (hr : s.Has r) (v : BitVec 32) :
    s.step (r.writeLow v) = s.writeReg r (lowWritten r (s.value r) v) := by
  have hdata : lowHalf (v.setWidth 64) = v := by simp [lowHalf]
  simp only [step, TimeReg.writeLow, write]
  rw [(addr_toNat hs hr).1, truncate_u32, hdata]
  cases r with
  | mtimecmp hart =>
    obtain ⟨hmsip, hcmp, hindex, hhalf⟩ := mtimecmp_range hs hr (add_zero _).symm (by decide)
    rw [if_neg hmsip, if_pos hcmp, hindex, timeCmp_get hs hr]
    dsimp only
    rw [if_pos hhalf]
    rfl
  | mtime =>
    obtain ⟨hmsip, hcmp⟩ := mtime_range hs (le_refl _)
    rw [if_neg hmsip, if_neg hcmp, if_pos (mtime_addr hs).1,
      if_pos (show Width.u32.bits = 32 from rfl)]
    congr 2

theorem step_writeHigh (hs : s.Placed) (hr : s.Has r) (v : BitVec 32) :
    s.step (r.writeHigh v) = s.writeReg r (concatToU64 v (lowHalf (s.value r))) := by
  have hdata : lowHalf (v.setWidth 64) = v := by simp [lowHalf]
  simp only [step, TimeReg.writeHigh, write]
  rw [(addr_toNat hs hr).2, truncate_u32, hdata]
  cases r with
  | mtimecmp hart =>
    obtain ⟨hmsip, hcmp, hindex, hhalf⟩ := mtimecmp_range (k := 4) hs hr rfl (by decide)
    rw [if_neg hmsip, if_pos hcmp, hindex, timeCmp_get hs hr]
    dsimp only
    rw [if_neg (by rw [hhalf]; decide), if_pos hhalf]
    congr 2
  | mtime =>
    obtain ⟨hmsip, hcmp⟩ := mtime_range hs (le_add_right _ 4)
    rw [if_neg hmsip, if_neg hcmp, if_neg (mtime_addr hs).2, if_pos (by rw [(mtime_addr hs).1])]
    congr 2

/-! ## What a write leaves -/

/-- Driving the lines leaves the registers alone. -/
theorem updateTimer_ok (hi : i < s.clint.timeCmp.length)
    (hline : s.clint.timerIrqLine.isSome) :
    ∃ calls s', s.updateTimer i = .ok (calls, s') ∧ s'.clint = s.clint ∧ s'.cycles = s.cycles := by
  obtain ⟨line, hline⟩ := Option.isSome_iff_exists.1 hline
  unfold updateTimer
  rw [List.getElem?_eq_getElem hi, hline]
  dsimp only
  split
  · exact ⟨_, _, rfl, rfl, rfl⟩
  · exact ⟨_, _, rfl, rfl, rfl⟩

theorem updateTimers_ok {is : List Nat} (his : ∀ i ∈ is, i < s.clint.timeCmp.length)
    (hline : s.clint.timerIrqLine.isSome) :
    ∃ calls s', s.updateTimers is = .ok (calls, s') ∧ s'.clint = s.clint ∧ s'.cycles = s.cycles := by
  induction is generalizing s with
  | nil => exact ⟨_, _, rfl, rfl, rfl⟩
  | cons i is ih =>
    obtain ⟨hi, his⟩ := List.forall_mem_cons.1 his
    obtain ⟨calls, s₁, hfirst, hclint, hcycles⟩ := updateTimer_ok hi hline
    obtain ⟨calls', s₂, hrest, hclint', hcycles'⟩ :=
      ih (s := s₁) (by rwa [hclint]) (by rwa [hclint])
    refine ⟨calls ++ calls', s₂, ?_, hclint'.trans hclint, hcycles'.trans hcycles⟩
    simp only [updateTimers, hfirst, hrest, bind, Except.bind]
    rfl

theorem getTime_congr (hclint : s'.clint = s.clint) (hcycles : s'.cycles = s.cycles) :
    s'.getTime = s.getTime := by
  rw [getTime, getTime, now, now, hclint, hcycles]

theorem getTime_offset (s : ClintSystem) (v : WordType) :
    getTime { s with clint.timeOffset := v - s.now } = v := by
  show s.now + (v - s.now) = v
  generalize s.now = n
  bv_omega

theorem writeTimeCmp_ok (hs : s.Placed) (hi : i < s.clint.hartNum) (v : WordType) :
    ∃ a s', s.writeTimeCmp i v = .ok (a, s') ∧ s.Updated (.mtimecmp i) v s' := by
  have hplaced : Placed { s with clint.timeCmp := s.clint.timeCmp.set i v } :=
    { hs with timeCmp := by rw [List.length_set, hs.timeCmp] }
  obtain ⟨calls, s', hupdate, hclint, hcycles⟩ :=
    updateTimer_ok (hplaced.timeCmp ▸ hi : i < (s.clint.timeCmp.set i v).length) hplaced.line
  refine ⟨⟨some (.ok 0), calls⟩, s', ?_, hplaced.congr hclint, by rw [hclint], fun r' hr' => ?_⟩
  · simp only [writeTimeCmp, hupdate, bind, Except.bind]
    rfl
  · cases r' with
    | mtimecmp j =>
      have hj : j < s.clint.timeCmp.length := hs.timeCmp ▸ hr'
      simp only [value, hclint, List.getD_eq_getElem?_getD, List.getElem?_set,
        TimeReg.mtimecmp.injEq]
      by_cases hij : j = i
      · subst hij
        simp [hj]
      · rw [if_neg (Ne.symm hij), if_neg hij]
    | mtime =>
      show s'.getTime = getTime { s with clint.timeCmp := s.clint.timeCmp.set i v }
      exact getTime_congr hclint hcycles

theorem writeTime_ok (hs : s.Placed) (v : WordType) :
    ∃ a s', s.writeTime v = .ok (a, s') ∧ s.Updated .mtime v s' := by
  have hplaced : Placed { s with clint.timeOffset := v - s.now } := { hs with }
  have hrange : ∀ i ∈ List.range s.clint.hartNum, i < s.clint.timeCmp.length := by
    rw [hs.timeCmp]
    exact fun i hi => List.mem_range.1 hi
  obtain ⟨calls, s', hupdate, hclint, hcycles⟩ := updateTimers_ok
    (show ∀ i ∈ List.range s.clint.hartNum,
      i < ({ s with clint.timeOffset := v - s.now } : ClintSystem).clint.timeCmp.length from hrange)
    hplaced.line
  refine ⟨⟨some (.ok 0), calls⟩, s', ?_, hplaced.congr hclint, by rw [hclint], fun r' hr' => ?_⟩
  · simp only [writeTime, hupdate, bind, Except.bind]
    rfl
  · cases r' with
    | mtimecmp j =>
      rw [if_neg (fun h => (by cases h))]
      simp only [value, hclint]
    | mtime => exact (getTime_congr hclint hcycles).trans (getTime_offset s v)

theorem writeReg_ok (hs : s.Placed) (hr : s.Has r) (v : WordType) :
    ∃ a s', s.writeReg r v = .ok (a, s') ∧ s.Updated r v s' := by
  cases r with
  | mtimecmp hart => exact writeTimeCmp_ok hs hr v
  | mtime => exact writeTime_ok hs v

/-! ## The halves -/

/-- A write of `v` to `r`, as the events do it. -/
def Writes (s : ClintSystem) (es : List ClintEvent) (r : TimeReg) (v : WordType) : Prop :=
  ∃ os t, runAll step s es = .ok (os, t) ∧ s.Updated r v t

theorem writes_singleton {e : ClintEvent} {v : WordType} (hs : s.Placed) (hr : s.Has r)
    (h : s.step e = s.writeReg r v) : s.Writes [e] r v := by
  obtain ⟨a, s', hwrite, hupdated⟩ := writeReg_ok hs hr v
  exact ⟨[a], s', runAll_singleton (h.trans hwrite), hupdated⟩

/-- Of two writes to a register the second counts. -/
theorem writes_pair {e₁ e₂ : ClintEvent} {v : WordType} {f : WordType → WordType} (hs : s.Placed)
    (hr : s.Has r) (h₁ : s.step e₁ = s.writeReg r v)
    (h₂ : ∀ s₁ : ClintSystem, s₁.Placed → s₁.Has r → s₁.value r = v →
      s₁.step e₂ = s₁.writeReg r (f v)) : s.Writes [e₁, e₂] r (f v) := by
  obtain ⟨a₁, s₁, hwrite₁, hs₁, hharts₁, hvalue₁⟩ := writeReg_ok hs hr v
  have hhas : ∀ r', s.Has r' → s₁.Has r' := by
    intro r' hr'
    cases r' with
    | mtimecmp j =>
      show j < s₁.clint.hartNum
      rw [hharts₁]
      exact hr'
    | mtime => trivial
  have hr₁ := hhas r hr
  have hv : s₁.value r = v := (hvalue₁ r hr).trans (if_pos rfl)
  obtain ⟨a₂, t, hwrite₂, ht, hharts₂, hvalue₂⟩ := writeReg_ok hs₁ hr₁ (f v)
  refine ⟨[a₁, a₂], t, ?_, ht, hharts₂.trans hharts₁, fun r' hr' => ?_⟩
  · rw [runAll, h₁, hwrite₁]
    dsimp only
    rw [runAll_singleton ((h₂ s₁ hs₁ hr₁ hv).trans hwrite₂)]
    rfl
  · rw [hvalue₂ r' (hhas r' hr'), hvalue₁ r' hr']
    split <;> rfl

/-- There is one value that is written. -/
theorem Writes.iff {es : List ClintEvent} {v w : WordType} (hr : s.Has r) (h : s.Writes es r v) :
    s.Writes es r w ↔ v = w := by
  constructor
  · rintro ⟨_, _, hrun', _, _, hvalue'⟩
    obtain ⟨_, _, hrun, _, _, hvalue⟩ := h
    cases hrun.symm.trans hrun'
    exact ((hvalue r hr).trans (if_pos rfl)).symm.trans ((hvalue' r hr).trans (if_pos rfl))
  · rintro rfl
    exact h

theorem lowHalf_lowWritten (r : TimeReg) (old : WordType) (v : BitVec 32) :
    lowHalf (lowWritten r old v) = v := by
  cases r with
  | mtimecmp hart => simp [lowWritten, lowHalf]
  | mtime => exact lowHalf_concat _ _

/-- Where a write to the low half keeps the high half. -/
theorem lowWritten_eq_iff {old : WordType} {v : BitVec 32} :
    lowWritten r old v = concatToU64 (highHalf old) v ↔ r = .mtime ∨ highHalf old = 0 := by
  cases r with
  | mtimecmp hart =>
    have hzero : v.setWidth 64 = concatToU64 0 v := by simp [concatToU64]
    simp only [lowWritten, reduceCtorEq, false_or, hzero]
    refine ⟨fun h => ?_, fun h => by rw [h]⟩
    rw [← highHalf_concat (highHalf old) v, ← h, highHalf_concat]
  | mtime => exact ⟨fun _ => .inl rfl, fun _ => rfl⟩

/-- A 32-bit read of a half of `mtime` or of a `mtimecmp` returns that half, and a
32-bit write replaces that half and no other, except that the high half of
`mtimecmp` is kept by a write to the low half only if it is zero. So both halves
can be written in either order, except for `mtimecmp` with the high half first
when that is not zero. -/
theorem half_register_access (hs : s.Placed) (hr : s.Has r) :
    (s.read .u32 (BitVec.ofNat 64 r.addr) = .ok ((lowHalf (s.value r)).setWidth 64) ∧
      s.read .u32 (BitVec.ofNat 64 (r.addr + 4)) = .ok ((highHalf (s.value r)).setWidth 64)) ∧
    (∀ v, s.Writes [r.writeHigh v] r (concatToU64 v (lowHalf (s.value r)))) ∧
    (∀ v, s.Writes [r.writeLow v] r (concatToU64 (highHalf (s.value r)) v) ↔
      r = .mtime ∨ highHalf (s.value r) = 0) ∧
    (∀ high low, s.Writes [r.writeLow low, r.writeHigh high] r (concatToU64 high low)) ∧
    ∀ high low, s.Writes [r.writeHigh high, r.writeLow low] r (concatToU64 high low) ↔
      r = .mtime ∨ high = 0 := by
  refine ⟨⟨?_, ?_⟩, fun v => ?_, fun v => ?_, fun high low => ?_, fun high low => ?_⟩
  · rw [read_low hs hr, truncate_u32]
  · rw [read_high hs hr, truncate_u32]
    rfl
  · exact writes_singleton hs hr (step_writeHigh hs hr v)
  · rw [(writes_singleton hs hr (step_writeLow hs hr v)).iff hr, lowWritten_eq_iff]
  · have hpair : s.Writes [r.writeLow low, r.writeHigh high] r
        (concatToU64 high (lowHalf (lowWritten r (s.value r) low))) := by
      refine writes_pair (f := fun v => concatToU64 high (lowHalf v)) hs hr (step_writeLow hs hr low) ?_
      intro s₁ hs₁ hr₁ hv
      rw [step_writeHigh hs₁ hr₁, hv]
    rwa [lowHalf_lowWritten] at hpair
  · have hpair : s.Writes [r.writeHigh high, r.writeLow low] r
        (lowWritten r (concatToU64 high (lowHalf (s.value r))) low) := by
      refine writes_pair (f := fun v => lowWritten r v low) hs hr (step_writeHigh hs hr high) ?_
      intro s₁ hs₁ hr₁ hv
      rw [step_writeLow hs₁ hr₁, hv]
    have hkept := @lowWritten_eq_iff r (concatToU64 high (lowHalf (s.value r))) low
    rwa [highHalf_concat, ← hpair.iff hr] at hkept

/-- Both halves of `mtime`, the high one first. -/
theorem half_register_access_mtime :
    new.Placed ∧ new.Has .mtime ∧
      new.Writes [TimeReg.mtime.writeHigh 1, TimeReg.mtime.writeLow 2] .mtime
        (concatToU64 1 2) := by
  have hs : new.Placed := ⟨rfl, rfl, rfl, by decide, rfl, rfl⟩
  have hr : new.Has .mtime := trivial
  exact ⟨hs, hr, ((half_register_access hs hr).2.2.2.2 1 2).2 (.inl rfl)⟩

/-- The deadline is `0x100000000`, and 5 is written to its low half: it is 5. -/
theorem writeLow_clears_high : ∃ os s a t,
    runAll step .new [.write .u64 0x4000 0x100000000] = .ok (os, s) ∧ s.Placed ∧
      s.value (.mtimecmp 0) = 0x100000000 ∧
      s.step ((TimeReg.mtimecmp 0).writeLow 5) = .ok (a, t) ∧ t.value (.mtimecmp 0) = 5 ∧
      concatToU64 (highHalf 0x100000000) 5 = 0x100000005 :=
  ⟨_, _, _, _, rfl, ⟨rfl, rfl, rfl, by decide, rfl, rfl⟩, by decide, rfl, by decide, by decide⟩

end ClintSystem

end HereEmu
