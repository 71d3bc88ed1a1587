import HereEmu.Decoder
import HereEmu.Proofs.TrapEntry

/-!
# A trap and the return from it

Entering a trap and returning from it at once brings the interrupted program
back to where it was. What the two do to `mstatus` is a calculation in three
laws of bit fields: a field put twice holds the later value, disjoint fields
can be put in either order, and putting a field's own value changes nothing.

Both target modes are the same up to names, so the modes are values here and
everything is said once.
-/

namespace HereEmu

open TrapController BitField TrapTarget

section Definitions

variable {P : Platform}

/-- `try_send_trap_signal` on the CPU. -/
def RVCPU.trySendTrapSignal (cpu : RVCPU P) (cause : Trap) (trapValue : WordType) :
    Rust (Bool × RVCPU P) := do
  let (taken, csr, pc) ← TrapController.trySendTrapSignal cpu.csr cpu.pc cause trapValue
  return (taken, { cpu with csr, pc })

/-- The return of a mode, on the CPU. -/
def RVCPU.xret (x : TrapTarget) (cpu : RVCPU P) : Rust (RVCPU P) := do
  let (csr, pc) ← x.xret cpu.csr
  return { cpu with csr, pc }

/-- The number of a cause. -/
def Trap.code : Trap → Rust WordType
  | .interrupt i => i.intoWord
  | .exception e => e.intoWord

def Trap.isInterrupt : Trap → Bool
  | .interrupt _ => true
  | .exception _ => false

/-- The trap is taken in mode `x`: it goes there, and an interrupt is enabled. -/
structure TakenIn (x : TrapTarget) (csr : CsrRegFile) (cause : Trap) : Prop where
  target : toMachine csr cause = .ok (decide (x.level = .M))
  enabled : cause.isInterrupt → csr.cpl < x.level ∨ csr.get .mstatus x.ie = 1

/-- Where the trap vector sends a cause with number `code`. -/
def handlerPc (tvec : WordType) (cause : Trap) (code : WordType) : WordType :=
  if cause.isInterrupt ∧ Xtvec.mode.get tvec = 1 then (Xtvec.base.get tvec <<< 2) + code * 4
  else Xtvec.base.get tvec <<< 2

/-- The vector has a defined mode, and a vectored target does not overflow. -/
def VectorReaches (tvec : WordType) (cause : Trap) (code : WordType) : Prop :=
  Xtvec.mode.get tvec = 0 ∨ Xtvec.mode.get tvec = 1 ∧
    (cause.isInterrupt → (Xtvec.base.get tvec <<< 2).toNat + (code * 4).toNat < 2 ^ 64)

/-- Between the trap and the return. -/
structure InHandler (x : TrapTarget) (cause : Trap) (code : WordType) (cpu cpu₁ : RVCPU P) :
    Prop where
  level : cpu₁.csr.cpl = x.level
  ie : cpu₁.csr.get .mstatus x.ie = 0
  pie : cpu₁.csr.get .mstatus x.pie = cpu.csr.get .mstatus x.ie
  pp : cpu₁.csr.get .mstatus x.pp = cpu.csr.cpl.toWord
  number : cpu₁.csr.value x.cause = if cause.isInterrupt then code ||| 1#64 <<< 63 else code
  pc : cpu₁.pc = handlerPc (cpu.csr.value x.tvec) cause code
  rest : cpu₁ = { cpu with csr := cpu₁.csr, pc := cpu₁.pc }

/-- `mstatus` after the return, from what it was before the trap. -/
def resumedStatus (x : TrapTarget) (p : PrivilegeLevel) (v : WordType) : WordType :=
  let v := x.pp.put (x.pie.put v 1) 0
  if x.level = .M ∧ p = .M then v else Mstatus.mprv.put v 0

/-- After the return. The program counter is among what is as it was. -/
structure Resumed (x : TrapTarget) (cpu cpu₂ : RVCPU P) : Prop where
  level : cpu₂.csr.cpl = cpu.csr.cpl
  ie : cpu₂.csr.get .mstatus x.ie = cpu.csr.get .mstatus x.ie
  mstatus : cpu₂.csr.value .mstatus = resumedStatus x cpu.csr.cpl (cpu.csr.value .mstatus)
  rest : cpu₂ = { cpu with csr := cpu₂.csr }

end Definitions

/-! ## `mstatus` -/

section Status

/-- What the calculation needs to know of the fields of a mode. -/
structure TrapTarget.Fields (x : TrapTarget) : Prop where
  ie : x.ie.bit + x.ie.len ≤ 64
  pie : x.pie.bit + x.pie.len ≤ 64
  pp : x.pp.bit + x.pp.len ≤ 64
  same : x.ie.len = x.pie.len
  ie_pie : x.pie.bit + x.pie.len ≤ x.ie.bit ∨ x.ie.bit + x.ie.len ≤ x.pie.bit
  ie_pp : x.pp.bit + x.pp.len ≤ x.ie.bit ∨ x.ie.bit + x.ie.len ≤ x.pp.bit
  pie_pp : x.pp.bit + x.pp.len ≤ x.pie.bit ∨ x.pie.bit + x.pie.len ≤ x.pp.bit
  mprv : (x.pp.bit + x.pp.len ≤ 17 ∧ x.pie.bit + x.pie.len ≤ 17) ∧ x.ie.bit + x.ie.len ≤ 17

variable {x : TrapTarget} {v p : WordType}

theorem get_ie_entered (hx : x.Fields) : x.ie.get (enteredStatus x v p) = 0 :=
  get_put_same hx.ie (Nat.zero_le _)

theorem get_pie_entered (hx : x.Fields) : x.pie.get (enteredStatus x v p) = x.ie.get v := by
  have hval : x.ie.get (x.pp.put v p) ≤ x.pie.ones := by
    have := get_le_ones (f := x.ie) (v := x.pp.put v p) hx.ie
    unfold ones at this ⊢
    rwa [← hx.same]
  rw [enteredStatus, get_put_disjoint hx.ie hx.pie hx.ie_pie,
    get_put_same hx.pie hval, get_put_disjoint hx.pp hx.ie hx.ie_pp.symm]

theorem get_pp_entered (hx : x.Fields) (hp : p ≤ x.pp.ones) :
    x.pp.get (enteredStatus x v p) = p := by
  rw [enteredStatus, get_put_disjoint hx.ie hx.pp hx.ie_pp,
    get_put_disjoint hx.pie hx.pp hx.pie_pp, get_put_same hx.pp hp]

/-- Restoring the enable undoes what entry did to it. -/
theorem restore_ie (hx : x.Fields) :
    x.pie.put (x.ie.put (enteredStatus x v p) (x.pie.get (enteredStatus x v p))) 1 =
      x.pie.put (x.pp.put v p) 1 := by
  have hget : x.ie.get (x.pie.put (x.pp.put v p) (x.ie.get (x.pp.put v p))) = x.ie.get v := by
    rw [get_put_disjoint hx.pie hx.ie hx.ie_pie.symm, get_put_disjoint hx.pp hx.ie hx.ie_pp.symm]
  rw [get_pie_entered hx, enteredStatus, put_put_same hx.ie, ← hget,
    put_get hx.ie, put_put_same hx.pie]

/-- The previous level is forgotten at the end. -/
theorem put_pp_zero (hx : x.Fields) :
    x.pp.put (x.pie.put (x.pp.put v p) 1) 0 = x.pp.put (x.pie.put v 1) 0 := by
  rw [put_comm hx.pp hx.pie hx.pie_pp.symm, put_put_same hx.pp,
    ← put_comm hx.pp hx.pie hx.pie_pp.symm]

theorem put_mprv_comm (hx : x.Fields) :
    x.pp.put (Mstatus.mprv.put v 0) 0 = Mstatus.mprv.put (x.pp.put v 0) 0 :=
  put_comm hx.pp (by decide) (.inr hx.mprv.1.1)

/-- Entering a trap from level `l` and returning from it. -/
theorem returnStatus_entered (hx : x.Fields) {l : PrivilegeLevel} (hfits : l.toWord ≤ x.pp.ones) :
    returnStatus x (enteredStatus x v l.toWord) = resumedStatus x l v := by
  have hpp : x.pp.get (x.pie.put (x.pp.put v l.toWord) 1) = l.toWord := by
    rw [get_put_disjoint hx.pie hx.pp hx.pie_pp, get_put_same hx.pp hfits]
  have hlevel : l.toWord = PrivilegeLevel.M.toWord ↔ l = .M := by cases l <;> decide
  unfold returnStatus resumedStatus
  simp only [restore_ie hx, hpp, hlevel]
  split
  · exact put_pp_zero hx
  · rw [put_mprv_comm hx, put_pp_zero hx]

/-- The enable is none of the fields that changed. -/
theorem get_ie_resumed (hx : x.Fields) (l : PrivilegeLevel) :
    x.ie.get (resumedStatus x l v) = x.ie.get v := by
  have hget : x.ie.get (x.pp.put (x.pie.put v 1) 0) = x.ie.get v := by
    rw [get_put_disjoint hx.pp hx.ie hx.ie_pp.symm, get_put_disjoint hx.pie hx.ie hx.ie_pie.symm]
  unfold resumedStatus
  split
  · exact hget
  · rw [get_put_disjoint (by decide) hx.ie (.inl hx.mprv.2), hget]

end Status

/-! ## Entry and return -/

section Roundtrip

variable {P : Platform} {cpu : RVCPU P} {cause : Trap} {code : WordType}

theorem nextPcByTvec_reaches {tvec : WordType} (hcode : cause.code = .ok code)
    (h : VectorReaches tvec cause code) :
    nextPcByTvec cause (Xtvec.mode.get tvec) (Xtvec.base.get tvec) =
      .ok (handlerPc tvec cause code) := by
  unfold nextPcByTvec handlerPc
  rcases h with h0 | ⟨h1, hfits⟩
  · rw [if_pos h0, if_neg (by rw [h0]; rintro ⟨-, h⟩; cases h)]
  · rw [h1, if_neg (by decide), if_pos rfl]
    cases cause with
    | exception e => rfl
    | interrupt i =>
      have hi : i.intoWord = .ok code := hcode
      simp only [hi, bind, Except.bind, if_pos (hfits rfl)]
      rfl

theorem intoWord_of_code (hcode : cause.code = .ok code) :
    cause.intoWord = .ok (if cause.isInterrupt then code ||| 1#64 <<< 63 else code) := by
  cases cause with
  | exception e => exact hcode
  | interrupt i =>
    have hi : i.intoWord = .ok code := hcode
    simp only [Trap.intoWord, hi, Trap.isInterrupt]
    rfl

theorem toWord_injective {l l' : PrivilegeLevel} (h : l.toWord = l'.toWord) : l = l' := by
  revert h
  cases l <;> cases l' <;> decide

/-- A trap that is taken, and the return from it at once, on the CSR file. -/
theorem roundtrip {machine : Bool} {csr : CsrRegFile} (pc tval : WordType)
    (hfits : csr.cpl.toWord ≤ (of machine).pp.ones) (hcode : cause.code = .ok code)
    (htaken : TakenIn (.of machine) csr cause)
    (hvec : VectorReaches (csr.value (of machine).tvec) cause code) :
    ∃ csr₁ csr₂, TrapController.trySendTrapSignal csr pc cause tval =
        .ok (true, csr₁, handlerPc (csr.value (of machine).tvec) cause code) ∧
      Entered (.of machine) csr csr₁ pc (if cause.isInterrupt then code ||| 1#64 <<< 63 else code) tval ∧
      Returned (.of machine) csr₁ csr₂ ∧ (of machine).xret csr₁ = .ok (csr₂, pc) := by
  have hto : toMachine csr cause = .ok machine := htaken.target.trans (by cases machine <;> rfl)
  obtain ⟨csr₁, hentered, hsend⟩ := trySendTrapSignal_enters pc tval hfits (intoWord_of_code hcode)
    hto (by cases cause <;> first | exact htaken.enabled rfl | trivial)
  obtain ⟨csr₂, hret, hxret⟩ := xret_eq csr₁ machine
  refine ⟨csr₁, csr₂, hsend.trans ?_, hentered, hret, ?_⟩
  · exact congrArg (Except.map fun pc' => (true, csr₁, pc')) (nextPcByTvec_reaches hcode hvec)
  · rw [hxret, hentered.epc]

/-- The number of the cause is where the mode keeps it. -/
theorem cause_of (machine : Bool) : (of machine).cause = (of machine).level.trapRegs.cause := by
  cases machine <;> rfl

/-- A trap that is taken can be returned from, and the return brings back the
interrupted context. -/
theorem trap_entry_return_restores (cpu : RVCPU P) (x : TrapTarget) (cause : Trap)
    (code tval : WordType) (hmode : x = .machine ∨ x = .supervisor)
    (hp : cpu.csr.cpl ∈ [.U, .S, .M]) (hcode : cause.code = .ok code)
    (htaken : TakenIn x cpu.csr cause)
    (hvec : VectorReaches (cpu.csr.value x.tvec) cause code) :
    ∃ cpu₁ cpu₂ : RVCPU P, cpu.trySendTrapSignal cause tval = .ok (true, cpu₁) ∧
      InHandler x cause code cpu cpu₁ ∧ cpu₁.xret x = .ok cpu₂ ∧ Resumed x cpu cpu₂ := by
  obtain ⟨machine, rfl⟩ : ∃ machine, x = .of machine := by
    rcases hmode with rfl | rfl
    · exact ⟨true, rfl⟩
    · exact ⟨false, rfl⟩
  have hfits : cpu.csr.cpl.toWord ≤ (of machine).pp.ones := by
    refine fits fun hS => ?_
    have hne : cpu.csr.cpl ≠ .M := by
      intro hM
      have hto := htaken.target
      subst hS
      unfold toMachine at hto
      rw [if_pos hM] at hto
      cases hto
    revert hp hne
    cases cpu.csr.cpl <;> decide
  have hx : (of machine).Fields := by
    cases machine with
    | true | false => refine ⟨?_, ?_, ?_, ?_, ?_, ?_, ?_, ?_⟩ <;> decide
  obtain ⟨csr₁, csr₂, hsend, hentered, hret, hxret⟩ := roundtrip cpu.pc tval hfits hcode htaken hvec
  have hget : ∀ f, csr₁.get .mstatus f = f.get (enteredStatus (.of machine) (cpu.csr.value .mstatus)
      cpu.csr.cpl.toWord) := fun f => congrArg f.get hentered.mstatus
  have hpp := (hget _).trans (get_pp_entered hx hfits)
  have hstatus : csr₂.value .mstatus =
      resumedStatus (.of machine) cpu.csr.cpl (cpu.csr.value .mstatus) := by
    rw [hret.mstatus, hentered.mstatus, returnStatus_entered hx hfits]
  refine ⟨{ cpu with csr := csr₁, pc := handlerPc _ cause code }, { cpu with csr := csr₂ }, ?_,
    ⟨hentered.cpl, ?_, ?_, hpp, ?_, rfl, rfl⟩, ?_,
    ⟨toWord_injective (hret.cpl.trans hpp), ?_, hstatus, rfl⟩⟩
  · unfold RVCPU.trySendTrapSignal
    rw [hsend]
    rfl
  · exact (hget _).trans (get_ie_entered hx)
  · exact (hget _).trans (get_pie_entered hx)
  · rw [cause_of]
    exact hentered.cause
  · unfold RVCPU.xret
    rw [hxret]
    rfl
  · show (of machine).ie.get (csr₂.value .mstatus) = _
    rw [hstatus]
    exact get_ie_resumed hx _

/-- A user program and a vectored handler. -/
def userCpu : RVCPU .program :=
  { programCpu [] with
    csr := { (RVCPU.resetCsr .program).setValue .mtvec 0x80000101 with cpl := .U } }

theorem trap_entry_return_restores_timer :
    ∃ cpu₁ cpu₂ : RVCPU .program,
      userCpu.trySendTrapSignal (.interrupt .machineTimer) 0 = .ok (true, cpu₁) ∧
      InHandler .machine (.interrupt .machineTimer) 7 userCpu cpu₁ ∧ cpu₁.xret .machine = .ok cpu₂ ∧
      Resumed .machine userCpu cpu₂ :=
  trap_entry_return_restores userCpu .machine (.interrupt .machineTimer) 7 0 (.inl rfl) (by decide)
    rfl ⟨rfl, fun _ => .inl (by decide)⟩ (.inr ⟨by decide +kernel, fun _ => by decide +kernel⟩)

end Roundtrip

end HereEmu
