import HereEmu.Proofs.FloatRun

/-!
# The status of the extension contexts

Software that saves the float and vector registers lazily relies on `mstatus`:
`FS` and `VS` tell whether a unit has been written to since, and `SD` sums them
up. Nothing in the emulator keeps them so. The four fields `FS`, `VS`, `XS` and
`SD` are plain storage that only a CSR write to `mstatus` or `sstatus` changes:
no instruction makes a unit dirty, and a write may give `SD` any value.

So the status is sound along a run exactly if software sees to it: every such
write keeps `SD` in step with the other fields, and a unit is made dirty before
it is changed.
-/

namespace HereEmu

open Lib (Exec Always runAll exists_of_map_ok)
open Lib.Exec (Along)
open RVCPU CsrRegFile TrapTarget Mstatus

/-! ## The fields -/

section Fields

/-- The fields of `mstatus` that describe the contexts. -/
def contextFields : List BitField := [fs, vs, xs, sd]

variable {g : BitField} {c c' : CsrRegFile}

/-- Traps and returns write other fields. -/
theorem get_put_status (hg : g ∈ contextFields) :
    ∀ f ∈ statusFields, ∀ v val, g.get (f.put v val) = g.get v := by
  have hle : ∀ f ∈ statusFields, f.bit + f.len ≤ 64 := by decide
  have hle' : ∀ g ∈ contextFields, g.bit + g.len ≤ 64 := by decide
  have hapart : ∀ f ∈ statusFields, ∀ g ∈ contextFields,
      g.bit + g.len ≤ f.bit ∨ f.bit + f.len ≤ g.bit := by decide
  intro f hf v val
  exact BitField.get_put_disjoint (hle f hf) (hle' g hg) (hapart f hf g hg)

/-- The status of the contexts is the same. -/
def SameContext (c c' : CsrRegFile) : Prop :=
  ∀ g ∈ contextFields, c'.get .mstatus g = c.get .mstatus g

theorem SameContext.of_value (h : c'.value .mstatus = c.value .mstatus) : SameContext c c' :=
  fun g _ => congrArg g.get h

theorem SameContext.trans {c₁ : CsrRegFile} (h : SameContext c c₁) (h' : SameContext c₁ c') :
    SameContext c c' :=
  fun g hg => (h' g hg).trans (h g hg)

/-- The fields of the modes are among those. -/
theorem get_put_target (hg : g ∈ contextFields) (machine : Bool) {f : BitField}
    (hf : f ∈ [(of machine).ie, (of machine).pie, (of machine).pp,
      mprv]) (v val : WordType) : g.get (f.put v val) = g.get v := by
  refine get_put_status hg f ?_ v val
  revert hf
  cases machine <;> simp [of, TrapTarget.machine, supervisor, statusFields] <;> tauto

theorem SameContext.of_trap {pc pc' tval : WordType} {cause : Trap}
    (h : TrapTaken c pc cause tval c' pc') : SameContext c c' := by
  intro g hg
  obtain @⟨machine, w, -, -, hentered, -⟩ := h
  have hput := @get_put_target g hg machine
  simp only [List.forall_mem_cons] at hput
  show g.get (c'.value .mstatus) = g.get (c.value .mstatus)
  rw [hentered.mstatus, enteredStatus]
  simp only [hput]

theorem SameContext.of_xret {machine : Bool} (h : Returned (.of machine) c c') : SameContext c c' := by
  intro g hg
  have hput := @get_put_target g hg machine
  simp only [List.forall_mem_cons] at hput
  show g.get (c'.value .mstatus) = g.get (c.value .mstatus)
  rw [h.mstatus, returnStatus]
  split <;> simp only [hput]

end Fields

/-! ## Steps -/

section Steps

variable {P : Platform} {s s' : RVCPU P} {e : Event P}

/-- The CSR write to `mstatus` or `sstatus` the step is going to make. -/
def statusWrite (s : RVCPU P) : Event P → Option (WordType × WordType)
  | .instr => (nextCsrWrite s).filter fun w => written w.1 = some .mstatus
  | _ => none

/-- A CSR instruction that writes to neither unit leaves both alone. -/
theorem SameUnits.of_csr_step {addr data : WordType} (h : s.stepImpl = .ok s')
    (hw : nextCsrWrite s = some (addr, data)) (hother : ∀ r ∈ unitCsrs, written addr ≠ some r) :
    SameUnits s s' := by
  have hpending : ∀ (d : P.Decoded) s₁, (decodeAtChecked s.pc).run s = .ok (.ok d, s₁) →
      FetchOnly s s₁ → pendingCsrWrite s₁.csr s₁.regFile (getExecFunc d.instr) d.info =
        some (addr, data) := by
    intro d s₁ hdec hfetch
    rw [nextCsrWrite_of_decodes ⟨s₁, hdec⟩] at hw
    rw [hfetch.only]
    exact hw
  have hcsr : ∀ (c : CsrRegFile) regFile (f : ExecFunc P.FloatOp P.VectorOp) info,
      pendingCsrWrite c regFile f info = some (addr, data) → f.isCsr := by
    intro c regFile f info hp
    cases f with
    | csrw _ | csrBit _ _ => rfl
    | _ => cases hp
  cases stepImpl_way h with
  | fault hdec hsame => exact hsame
  | @exception d s₁ x s₂ hdec hfetch hrun hsame =>
    have hscalar : (getExecFunc d.instr).isVector = false := by
      have hf := hcsr _ _ _ _ (hpending d s₁ hdec hfetch)
      revert hf
      cases getExecFunc d.instr <;> intro hf <;> first | rfl | cases hf
    exact ((SameUnits.of_fetchOnly hfetch).trans (.of_error hscalar hrun)).trans hsame
  | @completed d s₁ s₂ hdec hfetch hrun hclear =>
    have hp := hpending d s₁ hdec hfetch
    have hf := hcsr _ _ _ _ hp
    have hregs := sameRegs_of_csr hf hrun
    have hsame : SameUnits s₁ s₂ := by
      refine ⟨hregs.1, hregs.2, fun r hr => ?_⟩
      have hne : r ≠ .minstret := by
        rintro rfl
        exact absurd hr (by decide)
      rw [value_of_csr hf hrun r hne]
      unfold csrAfter
      rw [hp]
      exact writeUncheckPrivilege_frame (hother r hr)
    rw [hclear]
    exact ((SameUnits.of_fetchOnly hfetch).trans hsame).trans (.clearX0 s₂)

theorem SameUnits.incrementMcycle (s : RVCPU P) : SameUnits s s.incrementMcycle := by
  refine ⟨rfl, rfl, fun r hr => setValue_ne ?_⟩
  rintro rfl
  exact absurd hr (by decide)

/-- What an instruction does to the status: nothing, or its CSR write. -/
theorem context_instr (hst : Steady s) (hs : s.step .instr = .ok s') :
    SameContext s.csr s'.csr ∨ ∃ addr data, nextCsrWrite s = some (addr, data) ∧
      SameContext (s.csr.writeUncheckPrivilege addr data) s'.csr := by
  have hsame : ∀ {c c' : CsrRegFile}, SameControl c c' → SameContext c c' :=
    fun h => .of_value (h.value .mstatus (by decide))
  cases (hst.instr hs).csr with
  | same h => exact .inl (hsame h)
  | trap h _ htake h' =>
    exact .inl ((hsame h).trans ((SameContext.of_trap (takeException_taken htake)).trans (hsame h')))
  | written hd hp h => exact .inr ⟨_, _, (nextCsrWrite_of_decodes hd).trans hp, hsame h⟩
  | xret hret h => exact .inl ((SameContext.of_xret hret).trans (hsame h))

theorem context_idle (hs : s.step e = .ok s') (he : e.isInstr = false) : SameContext s.csr s'.csr := by
  cases e with
  | instr => cases he
  | checkInterrupt =>
    obtain ⟨taken, csr, pc, htake, hs'⟩ := tryTakePendingInterrupt_cases hs
    have hcsr : SameContext s.csr csr := by
      rcases tryTakeInterrupt_cases htake with ⟨-, rfl, -⟩ | ⟨i, -, -, htaken⟩
      · exact .of_value rfl
      · exact .of_trap htaken
    rcases hs' with rfl | rfl
    · exact hcsr
    · exact hcsr.trans (.of_value (setValue_ne (by decide)))
  | irq i level =>
    obtain ⟨f, -, hcsr⟩ := step_irq hs
    rw [hcsr]
    exact .of_value (setValue_ne (by decide))
  | devices dev data =>
    cases hs
    exact .of_value rfl

/-- A step leaves the status of the contexts alone, or makes a write to it and
leaves the contexts alone. -/
theorem context_step (hst : Steady s) (hs : s.step e = .ok s') :
    SameContext s.csr s'.csr ∨ ∃ addr data, statusWrite s e = some (addr, data) ∧
      SameUnits s s' ∧ SameContext (s.csr.writeUncheckPrivilege addr data) s'.csr := by
  cases he : e.isInstr with
  | false => exact .inl (context_idle hs he)
  | true =>
    cases e with
    | instr =>
      rcases context_instr hst hs with hsame | ⟨addr, data, hnext, hcontext⟩
      · exact .inl hsame
      by_cases hw : written addr = some .mstatus
      · refine .inr ⟨addr, data, ?_, ?_, hcontext⟩
        · unfold statusWrite
          rw [hnext]
          simp [Option.filter, hw]
        · obtain ⟨s₁, himpl, rfl⟩ := stepOnce_cases hs
          refine (SameUnits.of_csr_step himpl hnext fun r hr => ?_).trans (.incrementMcycle s₁)
          rw [hw]
          rintro ⟨⟩
          exact absurd hr (by decide)
      · exact .inl (.trans (.of_value (writeUncheckPrivilege_frame hw)) hcontext)
    | _ => cases he

end Steps

/-! ## Runs -/

section Runs

variable {P : Platform} {s s' : RVCPU P} {e : Event P} {es : List (Event P)}

/-- `SD` sums up the other fields. -/
def ContextSound (c : CsrRegFile) : Prop :=
  c.get .mstatus sd = 1 ↔ c.get .mstatus fs = 3 ∨ c.get .mstatus vs = 3 ∨ c.get .mstatus xs = 3

instance (c : CsrRegFile) : Decidable (ContextSound c) := by
  unfold ContextSound
  infer_instance

theorem ContextSound.congr {c c' : CsrRegFile} (h : ContextSound c) (hc : SameContext c c') :
    ContextSound c' := by
  unfold ContextSound
  rw [hc _ (by simp [contextFields]), hc _ (by simp [contextFields]), hc _ (by simp [contextFields]),
    hc _ (by simp [contextFields])]
  exact h

/-- A float register or `fcsr` has changed. -/
def FloatChanged (s s' : RVCPU P) : Prop :=
  (∃ i, P.fpuLoadRaw s'.fpu i ≠ P.fpuLoadRaw s.fpu i) ∨ s'.csr.value .fcsr ≠ s.csr.value .fcsr

/-- A vector register or one of the unit's CSRs has changed. -/
def VectorChanged (s s' : RVCPU P) : Prop :=
  s'.vector.vectorRegfile ≠ s.vector.vectorRegfile ∨
    ∃ r ∈ [Csr.vstart, .vl, .vtype, .vcsr], s'.csr.value r ≠ s.csr.value r

/-- A unit that is on and has been changed is dirty in `t`. -/
def DirtyIn (t s s' : RVCPU P) : Prop :=
  (FloatChanged s s' → s.csr.get .mstatus fs ≠ 0 → t.csr.get .mstatus fs = 3) ∧
    (VectorChanged s s' → s.csr.get .mstatus vs ≠ 0 → t.csr.get .mstatus vs = 3)

theorem SameUnits.dirtyIn (h : SameUnits s s') (t : RVCPU P) : DirtyIn t s s' := by
  refine ⟨fun hchanged => ?_, fun hchanged => ?_⟩
  · rcases hchanged with ⟨i, hi⟩ | hfcsr
    · exact absurd (by rw [h.fpu]) hi
    · exact absurd (h.csr .fcsr (by decide)) hfcsr
  · rcases hchanged with hregs | ⟨r, hr, hcsr⟩
    · exact absurd (by rw [h.vector]) hregs
    · have hmem : ∀ r ∈ [Csr.vstart, .vl, .vtype, .vcsr], r ∈ unitCsrs := by decide
      exact absurd (h.csr r (hmem r hr)) hcsr

/-- After a step a changed unit is dirty exactly if it was dirty before. -/
theorem dirtyIn_iff (hst : Steady s) (hs : s.step e = .ok s') :
    DirtyIn s' s s' ↔ DirtyIn s s s' := by
  rcases context_step hst hs with hsame | ⟨_, _, -, hunits, -⟩
  · unfold DirtyIn
    rw [hsame _ (by simp [contextFields]), hsame _ (by simp [contextFields])]
  · exact iff_of_true (hunits.dirtyIn s') (hunits.dirtyIn s)

/-- Software keeps `SD` in step, and makes a unit dirty before it changes it. -/
def KeepsContext (s : RVCPU P) (e : Event P) : Prop :=
  (∀ w ∈ statusWrite s e, ContextSound (s.csr.writeUncheckPrivilege w.1 w.2)) ∧
    ∀ s', s.step e = .ok s' → DirtyIn s s s'

/-- The status is sound, a unit that is changed is dirty after it, and stays so
until a CSR write. -/
def ContextLaw (s : RVCPU P) (e : Event P) : Prop :=
  ContextSound s.csr ∧ ∀ s', s.step e = .ok s' → ContextSound s'.csr ∧ DirtyIn s' s s' ∧
    (statusWrite s e = none → s'.csr.get .mstatus fs = s.csr.get .mstatus fs ∧
      s'.csr.get .mstatus vs = s.csr.get .mstatus vs)

theorem ContextSound.step (hst : Steady s) (hsound : ContextSound s.csr) (hkeeps : KeepsContext s e)
    (hs : s.step e = .ok s') : ContextSound s'.csr := by
  rcases context_step hst hs with hsame | ⟨addr, data, hwrite, -, hcontext⟩
  · exact hsound.congr hsame
  · exact (hkeeps.1 (addr, data) hwrite).congr hcontext

theorem contextLaw_of_keeps (hst : Steady s) (hsound : ContextSound s.csr)
    (hkeeps : KeepsContext s e) : ContextLaw s e := by
  refine ⟨hsound, fun s' hs => ⟨hsound.step hst hkeeps hs, ?_, fun hnone => ?_⟩⟩
  · exact (dirtyIn_iff hst hs).mpr (hkeeps.2 s' hs)
  · rcases context_step hst hs with hsame | ⟨_, _, hwrite, -, -⟩
    · exact ⟨hsame _ (by simp [contextFields]), hsame _ (by simp [contextFields])⟩
    · rw [hnone] at hwrite
      cases hwrite

/-- The status of the contexts is sound along every run in which software keeps
it so. A step makes no unit dirty by itself. -/
theorem context_status_sound (hst : Steady s) (hsound : ContextSound s.csr) :
    (∀ e s', s.step e = .ok s' → (DirtyIn s' s s' ↔ DirtyIn s s s')) ∧
      (Always runStep KeepsContext s es → Always runStep ContextLaw s es) := by
  refine ⟨fun e s' hs => dirtyIn_iff hst hs, fun hkeeps => ?_⟩
  have hkeep : ∀ (s : RVCPU P) e o s', (Steady s ∧ ContextSound s.csr) → KeepsContext s e →
      runStep s e = .ok (o, s') → Steady s' ∧ ContextSound s'.csr := by
    rintro s e o s' ⟨hst, hsound⟩ hkeeps hrun
    have hs := runStep_eq_ok hrun
    exact ⟨hst.step hs, hsound.step hst hkeeps hs⟩
  exact Always.of_inv hkeep (fun s e hs hc => contextLaw_of_keeps hs.1 hs.2 hc) ⟨hst, hsound⟩ hkeeps

/-- A way to keep the status that is read off the state: a unit is off or dirty. -/
def OffOrDirty (s : RVCPU P) (e : Event P) : Prop :=
  (∀ w ∈ statusWrite s e, ContextSound (s.csr.writeUncheckPrivilege w.1 w.2)) ∧
    ∀ f ∈ [fs, vs], s.csr.get .mstatus f = 0 ∨ s.csr.get .mstatus f = 3

-- the values an option holds are looked at, not all values of the type
instance (s : RVCPU P) (e : Event P) : Decidable (OffOrDirty s e) :=
  have := Option.decidableForallMem (p := fun w : WordType × WordType =>
    ContextSound (s.csr.writeUncheckPrivilege w.1 w.2)) (statusWrite s e)
  inferInstanceAs (Decidable (_ ∧ _))

theorem OffOrDirty.keepsContext (h : OffOrDirty s e) : KeepsContext s e := by
  refine ⟨h.1, fun _ _ => ⟨fun _ hon => ?_, fun _ hon => ?_⟩⟩
  · exact (h.2 fs (by simp)).resolve_left hon
  · exact (h.2 vs (by simp)).resolve_left hon

end Runs

/-! ## Programs -/

/-- `FS` and `SD` are set before a register is written: `lui x1, 0x80006;
csrrw x0, mstatus, x1; lui x3, 0x3f800; fmv.w.x f2, x3`. -/
def dirtyFirst : RVCPU bitPlatform.platform :=
  .reset _ { ram := .ofProgram [0x800060b7, 0x30009073, 0x3f8001b7, 0xf0018153], devices := () } none
    fun _ => 0

theorem context_status_sound_dirtyFirst :
    ContextSound dirtyFirst.csr ∧ Always runStep ContextLaw dirtyFirst (List.replicate 4 .instr) := by
  have hsound : ContextSound dirtyFirst.csr := by decide +kernel
  have hkeeps : Always runStep KeepsContext dirtyFirst (List.replicate 4 .instr) :=
    .mono (P := OffOrDirty) (fun _ _ h => h.keepsContext) (by decide +kernel)
  exact ⟨hsound, (context_status_sound (steady_reset _ none _) hsound).2 hkeeps⟩

/-- `FS`, `SD` and a register after the first steps of a program. -/
def statusRun (words : List (BitVec 32)) (n : Nat) : Rust (WordType × WordType × WordType) :=
  (runAll runStep (floatCpu words) (List.replicate n .instr)).map fun out =>
    (out.2.csr.get .mstatus fs, out.2.csr.get .mstatus sd,
      bitPlatform.platform.fpuLoadRaw out.2.fpu 2)

/-- A register is written while `FS` is initial, and `FS` stays so; and `lui x1, 6;
csrrw x0, mstatus, x1` makes the unit dirty without `SD`. -/
theorem context_not_dirty :
    statusRun [0x3f8001b7, 0xf0018153] 3 = .ok (1, 0, 0xffffffff00000000) ∧
      statusRun [0x3f8001b7, 0xf0018153] 4 = .ok (1, 0, 0xffffffff3f800000) ∧
      statusRun [0x000060b7, 0x30009073] 4 = .ok (3, 0, 0xffffffff00000000) := by
  decide +kernel

end HereEmu
