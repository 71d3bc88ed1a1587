import HereEmu.Proofs.CsrLegality

/-!
# What a CSR instruction can reach

An instruction that is not refused leaves the CSR file as one write left it,
with `minstret` counted on. So what lower privilege levels can do to the
machine's registers, what the supervisor's views of `mie` and `mip` show and
change, and what `mtvec` makes of a value are all facts about single writes.
-/

namespace HereEmu

open RVCPU CsrRegFile Csr BitVec

section Written

variable {P : Platform} {i : ZicsrInstr} {s s' : RVCPU P} {data : WordType} {r : Csr}

theorem countedCsr_value (addr : WordType) (c : CsrRegFile) (h : r ≠ .minstret) :
    (countedCsr addr c).value r = c.value r := by
  unfold countedCsr
  split
  · rfl
  · exact setValue_ne h

theorem countedCsr_cpl (addr : WordType) (c : CsrRegFile) : (countedCsr addr c).cpl = c.cpl := by
  unfold countedCsr
  split <;> rfl

theorem ZicsrInstr.Writes.unique {data' : WordType} (h : i.Writes s data) (h' : i.Writes s data') :
    data = data' := by
  obtain ⟨-, h⟩ := h
  obtain ⟨-, h'⟩ := h'
  cases hk : i.kind with
  | write => rw [hk] at h h'; exact h.trans h'.symm
  | set | clear =>
    rw [hk] at h h'
    obtain ⟨-, old, hold, rfl⟩ := h
    obtain ⟨-, old', hold', rfl⟩ := h'
    rw [hold] at hold'
    cases hold'
    rfl

/-- The CSRs after an instruction that wrote. -/
theorem ZicsrInstr.Writes.csr (h : i.Writes s data)
    (hrun : (execute (i.decoded P)).run s = .ok (.ok (), s')) :
    s'.csr = countedCsr i.addr (s.csr.writeUncheckPrivilege i.addr data) := by
  obtain ⟨-, ⟨hnot, -⟩ | ⟨data', h', hcsr⟩⟩ := (i.execute_outcome s).elim hrun
  · exact absurd h (hnot data)
  · rw [hcsr, h.unique h']

/-- However the instruction ended, the CSRs are as they were or as a legal
write left them. -/
theorem ZicsrInstr.csr_cases {out : Except Exception Unit}
    (hrun : (execute (i.decoded P)).run s = .ok (out, s')) :
    s'.csr = s.csr ∨ ∃ data, s.csr.isWritePrivLegal i.addr ∧
      s'.csr = countedCsr i.addr (s.csr.writeUncheckPrivilege i.addr data) := by
  have hout := (i.execute_outcome s).elim hrun
  cases out with
  | error e => exact .inl hout.2.2
  | ok _ =>
    obtain ⟨-, ⟨-, hcsr⟩ | ⟨data, h, hcsr⟩⟩ := hout
    · exact .inl hcsr
    · exact .inr ⟨data, h.1, hcsr⟩

end Written

/-! ## `mtvec` -/

section Mtvec

variable {P : Platform}

/-- What is read back from `mtvec` after `v` was written: the base as written,
and the mode as written if it is a defined one. -/
def MtvecReadsBack (s s' : RVCPU P) (v : WordType) : Prop :=
  ∃ x, s'.csr.readChecked mtvec.addr = some x ∧ Xtvec.base.get x = Xtvec.base.get v ∧
    Xtvec.mode.get x =
      if Xtvec.mode.get v ≤ 1 then Xtvec.mode.get v else Xtvec.mode.get (s.csr.value .mtvec)

/-- The validator of the mode looks at bit 2 as well. With that bit set a
defined mode is not taken, unless it is the mode already there. -/
theorem mtvec_readback_iff (i : ZicsrInstr) (s s' : RVCPU P) (v : WordType)
    (haddr : i.addr = mtvec.addr) (hw : i.Writes s v)
    (hrun : (execute (i.decoded P)).run s = .ok (.ok (), s')) :
    MtvecReadsBack s s' v ↔ v.getLsbD 2 = false ∨ 1 < Xtvec.mode.get v ∨
      Xtvec.mode.get v = Xtvec.mode.get (s.csr.value .mtvec) := by
  have hcsr := hw.csr hrun
  rw [haddr] at hcsr
  have hval : s'.csr.value .mtvec = getNewValue (mtvec.validate v) (s.csr.value .mtvec) v := by
    rw [hcsr, countedCsr_value _ _ (by decide), value_write (by decide) rfl]
  have hread : s'.csr.readChecked mtvec.addr = some (s'.csr.value .mtvec) := by
    have hcpl : s'.csr.cpl = s.csr.cpl := by
      rw [hcsr, countedCsr_cpl, writeUncheckPrivilege_cpl]
    have hlegal := readable_of_writable hw.1
    rw [haddr, isReadPrivLegal_of_ne (by decide)] at hlegal
    unfold readChecked
    rw [isReadPrivLegal_of_ne (by decide), hcpl, if_pos hlegal]
    rfl
  unfold MtvecReadsBack
  rw [hread]
  simp only [Option.some.injEq, exists_eq_left', hval, base_mtvec_write, mode_mtvec_write, true_and]
  by_cases hm : Xtvec.mode.get v ≤ 1
  · rw [if_pos hm]
    cases v.getLsbD 2 with
    | false => exact iff_of_true (if_pos ⟨rfl, hm⟩) (.inl rfl)
    | true =>
      rw [if_neg (by rintro ⟨h, -⟩; cases h)]
      constructor
      · exact fun h => .inr (.inr h.symm)
      · rintro (h | h | h)
        · cases h
        · exact absurd hm (BitVec.not_le.mpr h)
        · exact h.symm
  · rw [if_neg hm, if_neg fun h => hm h.2]
    exact iff_of_true rfl (.inr (.inl (BitVec.not_le.mp hm)))

/-- `x1` holds a vectored address that has bit 2 set. -/
def tvecCpu : RVCPU .program :=
  { timedCpu with regFile := fun r => if r = 1 then 0x80000005 else 0 }

/-- The instruction `csrrw x0, mtvec, x1`. -/
def writeMtvec : ZicsrInstr := ⟨.write, false, 1, 0, 0x305⟩

theorem mtvec_readback_tvecCpu : ∃ s', (execute (writeMtvec.decoded .program)).run tvecCpu =
    .ok (.ok (), s') ∧ (MtvecReadsBack tvecCpu s' 0x80000005 ↔
      (0x80000005#64).getLsbD 2 = false ∨ 1 < Xtvec.mode.get 0x80000005#64 ∨
        Xtvec.mode.get 0x80000005#64 = Xtvec.mode.get (tvecCpu.csr.value .mtvec)) :=
  ⟨_, rfl, mtvec_readback_iff writeMtvec tvecCpu _ _ rfl ⟨by decide +kernel, rfl⟩ rfl⟩

/-- The vectored mode is lost. -/
theorem mtvec_mode_lost : ∃ s', (execute (writeMtvec.decoded .program)).run tvecCpu =
    .ok (.ok (), s') ∧ ¬ MtvecReadsBack tvecCpu s' 0x80000005 := by
  refine ⟨_, rfl, ?_⟩
  rintro ⟨x, hx, -, hmode⟩
  have hx' : some x = some 0x80000004 := hx.symm.trans (by decide +kernel)
  cases hx'
  revert hmode
  decide +kernel

end Mtvec

/-! ## The machine's registers, below M -/

section Lower

variable {P : Platform} {c : CsrRegFile} {addr data : WordType} {r b : Csr}

/-- The level an address asks for. -/
def addrLevel (addr : WordType) : Nat := addr.toNat / 2 ^ 8 % 2 ^ 2

/-- What a CSR instruction below M leaves of the machine's registers. -/
structure MachineFrame (s s' : RVCPU P) : Prop where
  machine : ∀ r : Csr, addrLevel r.addr = 3 → r ∉ [.mstatus, .mie, .mip, .minstret] →
    s'.csr.value r = s.csr.value r
  /-- The three with a view for S change inside it. -/
  shared : ∀ r b : Csr, r.shadowOf = some b → b ∈ [.mstatus, .mie, .mip] →
    s'.csr.value b &&& ~~~r.viewMask = s.csr.value b &&& ~~~r.viewMask
  /-- XS and UXL, which only the view would let through. -/
  readOnly : s'.csr.get .mstatus ⟨15, 2⟩ = s.csr.get .mstatus ⟨15, 2⟩ ∧
    s'.csr.get .mstatus ⟨32, 2⟩ = s.csr.get .mstatus ⟨32, 2⟩
  supervisor : s.csr.cpl = .U → ∀ r : Csr, addrLevel r.addr = 1 →
    s'.csr.readUncheckPrivilege r.addr = s.csr.readUncheckPrivilege r.addr

theorem level_of_writable (h : c.isWritePrivLegal addr) :
    addr < 0xC00 ∧ csrPrivilege addr ≤ c.cpl := by
  unfold isWritePrivLegal isReadPrivLegal at h
  split at h
  · cases h
  · next hlt =>
      split at h
      · cases h
      · exact ⟨BitVec.not_le.mp hlt, of_decide_eq_true h⟩

/-- What a register can be written through at a level: a name for part of it,
or an address of the table that the level reaches. -/
theorem writer_of_writable (h : c.isWritePrivLegal addr) (hw : written addr = some r) :
    r = .fcsr ∨ r = .vcsr ∨ ∃ r' : Csr, r'.base = r ∧ addr = r'.addr ∧ r'.addr < 0xC00 ∧
      csrPrivilege r'.addr ≤ c.cpl := by
  obtain ⟨hlt, hlevel⟩ := level_of_writable h
  rcases addr_of_written hw with hr | hr | ⟨r', hr', rfl⟩
  · exact .inl hr
  · exact .inr (.inl hr)
  · exact .inr (.inr ⟨r', hr', rfl, hlt, hlevel⟩)

/-- Below M, a register of the machine is only written through its view. -/
theorem writer_below_machine (hcpl : c.cpl ≤ .S) (h : c.isWritePrivLegal addr)
    (hw : written addr = some r) (hr : addrLevel r.addr = 3) :
    ∃ r' : Csr, r'.shadowOf = some r ∧ addr = r'.addr ∧ r ∈ [.mstatus, .mie, .mip] := by
  have hview : ∀ r' : Csr, r'.addr < 0xC00 → csrPrivilege r'.addr ≤ .S → addrLevel r'.base.addr = 3 →
      r'.shadowOf = some r'.base ∧ r'.base ∈ [mstatus, .mie, .mip] := by
    intro r'
    cases r' <;> decide
  rcases writer_of_writable h hw with rfl | rfl | ⟨r', rfl, rfl, hlt, hlevel⟩
  · exact absurd hr (by decide)
  · exact absurd hr (by decide)
  · obtain ⟨hs, hmem⟩ := hview r' hlt (Nat.le_trans hlevel hcpl) hr
    exact ⟨r', hs, rfl, hmem⟩

/-- The user's registers are all that U can write. -/
theorem written_in_user (hcpl : c.cpl = .U) (h : c.isWritePrivLegal addr)
    (hw : written addr = some r) : r ∈ [.fcsr, .vcsr, .vstart] := by
  have huser : ∀ r' : Csr, r'.addr < 0xC00 → csrPrivilege r'.addr ≤ .U →
      r'.base ∈ [fcsr, .vcsr, .vstart] := by
    intro r'
    cases r' <;> decide
  rcases writer_of_writable h hw with rfl | rfl | ⟨r', rfl, rfl, hlt, hlevel⟩
  · decide
  · decide
  · exact huser r' hlt (hcpl ▸ hlevel)

theorem getNewValue_and {mask old v k : WordType} (h : mask &&& k = 0) :
    getNewValue mask old v &&& k = old &&& k := by
  refine eq_of_getLsbD_eq fun j hj => ?_
  have hbit := congrArg (·.getLsbD j) h
  simp only [getLsbD_and] at hbit ⊢
  rw [getLsbD_getNewValue]
  grind

/-- The value of a register of the machine after a write below M: what it was,
or written under the masks of both its view and itself. -/
theorem machine_value_below (hcpl : c.cpl ≤ .S) (h : c.isWritePrivLegal addr)
    (hr : addrLevel b.addr = 3) (data : WordType) :
    (c.writeUncheckPrivilege addr data).value b = c.value b ∨
      ∃ r : Csr, r.shadowOf = some b ∧ b ∈ [.mstatus, .mie, .mip] ∧
        (c.writeUncheckPrivilege addr data).value b =
          getNewValue (b.validate 0 &&& r.validate 0) (c.value b) data := by
  by_cases hw : written addr = some b
  · obtain ⟨r, hs, rfl, hmem⟩ := writer_below_machine hcpl h hw hr
    have hb : b ≠ .mtvec := fun e => absurd (e ▸ hmem) (by decide)
    have hr' : r ≠ .mtvec := by rintro rfl; cases hs
    refine .inr ⟨r, hs, hmem, ?_⟩
    rw [value_write_shadow hs, validate_const hb, validate_const hr']
  · exact .inl (writeUncheckPrivilege_frame hw)

theorem read_congr {c' : CsrRegFile} (hf : r ≠ .fcsr) (h : c'.value r.base = c.value r.base) :
    c'.readUncheckPrivilege r.addr = c.readUncheckPrivilege r.addr := by
  obtain ⟨h1, h2, -, h3, h4⟩ := addr_ne_part hf
  unfold readUncheckPrivilege
  rw [if_neg h1, if_neg h2, if_neg h3, if_neg h4, if_neg h1, if_neg h2, if_neg h3, if_neg h4,
    ofAddr_addr]
  unfold base at h
  dsimp only
  cases hs : r.shadowOf with
  | none => rw [hs] at h; exact congrArg some h
  | some b => rw [hs] at h; exact congrArg (fun v => some (v &&& r.viewMask)) h

/-- One legal write below M. -/
theorem machineFrame_of_write {s s' : RVCPU P} (hcpl : s.csr.cpl ≤ .S)
    (h : s.csr.isWritePrivLegal addr)
    (hcsr : s'.csr = countedCsr addr (s.csr.writeUncheckPrivilege addr data)) :
    MachineFrame s s' := by
  have hval : ∀ b : Csr, b ≠ .minstret →
      s'.csr.value b = (s.csr.writeUncheckPrivilege addr data).value b := by
    intro b hb
    rw [hcsr, countedCsr_value _ _ hb]
  refine ⟨fun r hr hnot => ?_, fun r b hs hb => ?_, ?_, fun hu r hr => ?_⟩
  · rw [hval r fun e => hnot (by simp [e])]
    rcases machine_value_below hcpl h hr data with heq | ⟨-, -, hmem, -⟩
    · exact heq
    · exact absurd (List.mem_append_left [minstret] hmem) hnot
  · have hview : ∀ r b r' : Csr, r.shadowOf = some b → r'.shadowOf = some b →
        b ∈ [mstatus, .mie, .mip] → b ≠ .minstret ∧ addrLevel b.addr = 3 ∧
          b.validate 0 &&& r'.validate 0 &&& ~~~r.viewMask = 0 := by
      intro r b r' hs hs'
      cases r <;> cases hs <;> cases r' <;> cases hs' <;> decide +kernel
    obtain ⟨hne, hlevel, -⟩ := hview r b r hs hs hb
    rw [hval b hne]
    rcases machine_value_below hcpl h hlevel data with heq | ⟨r', hs', -, heq⟩
    · rw [heq]
    · rw [heq]
      exact getNewValue_and (hview r b r' hs hs' hb).2.2
  · have hfield : ∀ f : BitField, f.bit + f.len ≤ 64 →
        mstatus.validate 0 &&& (f.ones <<< f.bit) = 0 →
        s'.csr.get .mstatus f = s.csr.get .mstatus f := by
      intro f hf hm
      show f.get (s'.csr.value .mstatus) = f.get (s.csr.value .mstatus)
      rw [hval _ (by decide)]
      rcases machine_value_below (b := .mstatus) hcpl h (by decide) data with heq | ⟨r, -, -, heq⟩
      · rw [heq]
      · rw [heq, BitField.get_getNewValue_of_disjoint hf]
        rw [BitVec.and_assoc, BitVec.and_comm (r.validate 0), ← BitVec.and_assoc, hm]
        exact zero_and
    exact ⟨hfield _ (by decide) (by decide +kernel), hfield _ (by decide) (by decide +kernel)⟩
  · have hsup : ∀ r : Csr, addrLevel r.addr = 1 →
        r ≠ .fcsr ∧ r.base ≠ .minstret ∧ r.base ∉ [fcsr, .vcsr, .vstart] := by
      intro r
      cases r <;> decide
    obtain ⟨hf, hm, hnot⟩ := hsup r hr
    refine read_congr hf ?_
    rw [hval _ hm]
    exact writeUncheckPrivilege_frame fun hw => hnot (written_in_user hu h hw)

theorem MachineFrame.of_csr {s s' : RVCPU P} (h : s'.csr = s.csr) : MachineFrame s s' :=
  ⟨fun _ _ _ => by rw [h], fun _ _ _ _ => by rw [h], by rw [h]; exact ⟨rfl, rfl⟩,
    fun _ _ _ => by rw [h]⟩

/-- Below M no CSR instruction, whether it completes or not, changes the
machine's registers outside what their views let through; in U not even what
is S's. -/
theorem csr_instr_keeps_machine_state (i : ZicsrInstr) (s s' : RVCPU P)
    (out : Except Exception Unit) (hcpl : s.csr.cpl = .S ∨ s.csr.cpl = .U)
    (hrun : (execute (i.decoded P)).run s = .ok (out, s')) : MachineFrame s s' := by
  have hle : s.csr.cpl ≤ .S := by
    rcases hcpl with h | h <;> rw [h] <;> decide
  rcases i.csr_cases hrun with hcsr | ⟨data, hlegal, hcsr⟩
  · exact .of_csr hcsr
  · exact machineFrame_of_write hle hlegal hcsr

/-- `csrrw x0, sstatus, x1` in S mode, with every bit of `x1` set. -/
theorem csr_instr_keeps_machine_state_sstatus :
    ∃ s', (execute ((⟨.write, false, 1, 0, 0x100⟩ : ZicsrInstr).decoded .program)).run
        { tvecCpu with csr := { tvecCpu.csr with cpl := .S }, regFile := fun _ => allOnes 64 } =
          .ok (.ok (), s') ∧
      MachineFrame { tvecCpu with
        csr := { tvecCpu.csr with cpl := .S }, regFile := fun _ => allOnes 64 } s' :=
  ⟨_, rfl, csr_instr_keeps_machine_state ⟨.write, false, 1, 0, 0x100⟩ _ _ (.ok ()) (.inl rfl) rfl⟩

end Lower

end HereEmu
