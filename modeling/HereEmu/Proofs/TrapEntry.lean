import HereEmu.Trap.Controller

/-!
# What trap entry and return do to the CSR file

The functions of the trap controller write field after field. Each of them is
summed up here by a structure that says what every register holds afterwards,
and one lemma that computes the function up to the program counter. The rest
of the development reads the structures and does not unfold the functions.
-/

namespace HereEmu

open TrapController BitField Mstatus List

section Fields

/-- The fields of `mstatus` the trap controller writes. -/
def statusFields : List BitField :=
  [sie, mie, spie, mpie, spp, mpp, mprv]

theorem mstatus_keeps {f : BitField} (h : f ∈ statusFields) : Csr.mstatus.Keeps f := by
  simp only [statusFields, mem_cons, not_mem_nil, or_false] at h
  rcases h with rfl | rfl | rfl | rfl | rfl | rfl | rfl <;>
    exact .of_mask (by decide) (by decide) (by decide +kernel)

theorem keeps_whole {r : Csr} (h : r ∈ [Csr.mcause, .mepc, .mtval, .scause, .sepc, .stval]) :
    r.Keeps wholeField := by
  simp only [mem_cons, not_mem_nil, or_false] at h
  rcases h with rfl | rfl | rfl | rfl | rfl | rfl <;>
    exact .of_mask (by decide) (by decide) (by decide +kernel)

variable {f : BitField} {v : WordType} {r : Csr}

/-- The fields of `sstatus` are written in `mstatus`. -/
theorem set_status (c : CsrRegFile) (hr : r.base = .mstatus) (h : f ∈ statusFields)
    (hv : v ≤ f.ones) : c.set r f v = .ok (c.setValue .mstatus (f.put (c.value .mstatus) v)) := by
  rw [CsrRegFile.set_of_keeps (by rw [hr]; exact mstatus_keeps h) hv, hr]

theorem write_trapReg (c : CsrRegFile) (v : WordType) (h : r ∈ [Csr.mcause, .mepc, .mtval]) :
    c.writeUncheckPrivilege r.addr v = c.setValue r v := by
  simp only [mem_cons, not_mem_nil, or_false] at h
  rcases h with rfl | rfl | rfl <;>
    exact (CsrRegFile.writeUncheckPrivilege_addr (by decide) rfl).trans
      (CsrRegFile.writeReg_of_keeps (keeps_whole (by simp)))

theorem assertWriteDirectly_eq (c : CsrRegFile) (r : Csr) (v : WordType) :
    assertWriteDirectly c r v = .ok (c.setValue r v) := by
  unfold assertWriteDirectly
  rw [CsrRegFile.writeDirectly_addr]

end Fields

/-! ## The modes -/

/-- A mode traps go to: its level, its fields of `mstatus` and its registers. -/
structure TrapTarget where
  level : PrivilegeLevel
  ie : BitField
  pie : BitField
  pp : BitField
  tvec : Csr
  cause : Csr
  xret : CsrRegFile → Rust Context

/-- The registers a mode records a trap in. -/
structure TrapRegs where
  epc : Csr
  cause : Csr
  tval : Csr

/-- Traps go to machine or to supervisor mode. -/
def PrivilegeLevel.trapRegs : PrivilegeLevel → TrapRegs
  | .M => ⟨.mepc, .mcause, .mtval⟩
  | _ => ⟨.sepc, .scause, .stval⟩

namespace TrapTarget

def machine : TrapTarget :=
  ⟨.M, mie, mpie, mpp, .mtvec, .mcause, mret⟩

def supervisor : TrapTarget :=
  ⟨.S, sie, spie, spp, .stvec, .scause, sret⟩

/-- The mode, from the answer of `toMachine`. -/
def of : Bool → TrapTarget
  | true => machine
  | false => supervisor

/-- Where the trap vector of the mode sends a cause. -/
def vector (x : TrapTarget) (csr : CsrRegFile) (cause : Trap) : Rust WordType :=
  nextPcByTvec cause (Xtvec.mode.get (csr.value x.tvec)) (Xtvec.base.get (csr.value x.tvec))

/-- The registers an entry writes. -/
def writes (x : TrapTarget) : List Csr :=
  [.mstatus, x.level.trapRegs.cause, x.level.trapRegs.epc, x.level.trapRegs.tval]

/-- Every level fits the field of machine mode. -/
theorem fits {machine : Bool} {l : PrivilegeLevel} (h : machine = false → l ≤ .S) :
    l.toWord ≤ (of machine).pp.ones := by
  cases machine with
  | true => cases l <;> decide +kernel
  | false =>
    have hS := h rfl
    revert hS
    cases l <;> decide +kernel

end TrapTarget

/-! ## Entry -/

/-- `mstatus` on entry. -/
def enteredStatus (x : TrapTarget) (v p : WordType) : WordType :=
  x.ie.put (x.pie.put (x.pp.put v p) (x.ie.get (x.pp.put v p))) 0

/-- The CSR file after a trap to mode `x`. -/
structure Entered (x : TrapTarget) (csr csr' : CsrRegFile) (pc cause trapValue : WordType) :
    Prop where
  cpl : csr'.cpl = x.level
  cause : csr'.value x.level.trapRegs.cause = cause
  epc : csr'.value x.level.trapRegs.epc = pc
  tval : csr'.value x.level.trapRegs.tval = trapValue
  mstatus : csr'.value .mstatus = enteredStatus x (csr.value .mstatus) csr.cpl.toWord
  frame : ∀ r, r ∉ x.writes → csr'.value r = csr.value r

section Entry

variable {csr : CsrRegFile} {pc cause trapValue : WordType} {machine : Bool}

/-- What a trap leaves, written one register after the other. -/
def enteredFile (x : TrapTarget) (csr : CsrRegFile) (pc cause trapValue : WordType) : CsrRegFile :=
  let c := { csr.setValue .mstatus (x.pp.put (csr.value .mstatus) csr.cpl.toWord) with cpl := x.level }
  let c := ((c.setValue x.level.trapRegs.cause cause).setValue x.level.trapRegs.epc pc).setValue
    x.level.trapRegs.tval trapValue
  let c := c.setValue .mstatus (x.pie.put (c.value .mstatus) (x.ie.get (c.value .mstatus)))
  c.setValue .mstatus (x.ie.put (c.value .mstatus) 0)

theorem enteredFile_entered (machine : Bool) :
    Entered (.of machine) csr (enteredFile (.of machine) csr pc cause trapValue) pc cause trapValue := by
  have hnodup : (TrapTarget.of machine).writes.Nodup := by cases machine <;> decide
  obtain ⟨⟨h₁, h₂, h₃⟩, ⟨h₄, h₅⟩, h₆, -⟩ := hnodup
  refine ⟨rfl, ?_, ?_, ?_, ?_, fun r hr => ?_⟩
  all_goals
    unfold enteredFile CsrRegFile.setValue
    grind [enteredStatus, TrapTarget.writes]

variable {trap : Trap} {r : Csr}

/-- The end of both functions: the enable bit is put aside, and the trap vector
read. -/
theorem send_tail (machine : Bool) (hr : r.base = .mstatus) : (do
      let x := TrapTarget.of machine
      let c := { csr.setValue .mstatus (x.pp.put (csr.value .mstatus) csr.cpl.toWord) with cpl := x.level }
      let c := ((c.setValue x.level.trapRegs.cause cause).setValue x.level.trapRegs.epc pc).setValue
        x.level.trapRegs.tval trapValue
      let c ← c.set r x.pie (c.get r x.ie)
      let c ← c.set r x.ie 0
      let pc ← nextPcByTvec trap (c.get x.tvec Xtvec.mode) (c.get x.tvec Xtvec.base)
      return (c, pc)) =
    ((TrapTarget.of machine).vector csr trap).map
      fun pc' => (enteredFile (.of machine) csr pc cause trapValue, pc') := by
  have hfields : (TrapTarget.of machine).pie ∈ statusFields ∧ (TrapTarget.of machine).ie ∈ statusFields ∧
      (TrapTarget.of machine).ie.ones = (TrapTarget.of machine).pie.ones ∧
      (TrapTarget.of machine).tvec.base = (TrapTarget.of machine).tvec ∧
      (TrapTarget.of machine).tvec ∉ (TrapTarget.of machine).writes := by
    cases machine with
    | true | false =>
      exact ⟨by simp [TrapTarget.of, TrapTarget.machine, TrapTarget.supervisor, statusFields],
        by simp [TrapTarget.of, TrapTarget.machine, TrapTarget.supervisor, statusFields], rfl, rfl,
        by decide⟩
  obtain ⟨hpie, hie, hlen, hbase, htvec⟩ := hfields
  have hle : ∀ f ∈ statusFields, f.bit + f.len ≤ 64 := by decide
  have hentered : Entered (.of machine) csr (enteredFile (.of machine) csr pc cause trapValue) pc cause
      trapValue := enteredFile_entered machine
  dsimp only [CsrRegFile.get]
  rw [hr, hbase, set_status _ hr hpie (hlen ▸ get_le_ones (hle _ hie))]
  simp only [bind, Except.bind]
  rw [set_status _ hr hie (Nat.zero_le _)]
  unfold TrapTarget.vector
  rw [← hentered.frame _ htvec]
  rfl

/-- The function for the mode. -/
def sendTrapSignal (machine : Bool) (csr : CsrRegFile) (pc : WordType) (cause : Trap) (trapValue : WordType) :
    Rust Context :=
  if machine then sendTrapSignalMMode csr pc cause trapValue
  else sendTrapSignalSMode csr pc cause trapValue

theorem sendTrapSignal_eq (pc trapValue : WordType)
    (hfits : csr.cpl.toWord ≤ (TrapTarget.of machine).pp.ones) (hw : trap.intoWord = .ok cause) :
    ∃ csr', Entered (.of machine) csr csr' pc cause trapValue ∧
      sendTrapSignal machine csr pc trap trapValue =
        ((TrapTarget.of machine).vector csr trap).map fun pc' => (csr', pc') := by
  refine ⟨_, enteredFile_entered machine, ?_⟩
  cases machine with
  | true =>
    refine Eq.trans ?_ (send_tail true (r := .mstatus) rfl)
    show sendTrapSignalMMode csr pc trap trapValue = _
    unfold sendTrapSignalMMode
    rw [set_status (f := mpp) csr rfl (by simp [statusFields]) hfits]
    simp only [hw, bind, Except.bind]
    rw [write_trapReg _ _ (by simp), write_trapReg _ _ (by simp), write_trapReg _ _ (by simp)]
    rfl
  | false =>
    refine Eq.trans ?_ (send_tail false (r := .sstatus) rfl)
    show sendTrapSignalSMode csr pc trap trapValue = _
    unfold sendTrapSignalSMode
    rw [set_status (f := spp) csr rfl (by simp [statusFields]) hfits]
    simp only [hw, assertWriteDirectly_eq, bind, Except.bind]
    rfl

end Entry

/-! ## Which mode the trap goes to -/

section Send

variable {csr : CsrRegFile} {cause : Trap} {w : WordType} {machine : Bool}

/-- Whether the level and the enable bit of the mode it goes to let a trap
through. -/
def Admits (csr : CsrRegFile) (machine : Bool) : Trap → Prop
  | .exception _ => True
  | .interrupt _ =>
    csr.cpl < (TrapTarget.of machine).level ∨ csr.get .mstatus (TrapTarget.of machine).ie = 1

/-- A trap that is let through is sent; another changes nothing. -/
theorem trySendTrapSignal_eq (pc trapValue : WordType) (hto : toMachine csr cause = .ok machine) :
    (Admits csr machine cause → trySendTrapSignal csr pc cause trapValue =
      (sendTrapSignal machine csr pc cause trapValue).map fun ctx => (true, ctx)) ∧
    (¬ Admits csr machine cause →
      trySendTrapSignal csr pc cause trapValue = .ok (false, csr, pc)) := by
  have hmap (x : Rust Context) : (do return (true, ← x)) = x.map fun ctx => (true, ctx) := by
    cases x <;> rfl
  unfold trySendTrapSignal
  rw [hto]
  cases machine with
  | true | false =>
    cases cause with
    | exception e => exact ⟨fun _ => hmap _, fun h => absurd trivial h⟩
    | interrupt i => exact ⟨fun h => (if_pos h).trans (hmap _), fun h => if_neg h⟩

theorem trySendTrapSignal_enters (pc trapValue : WordType)
    (hfits : csr.cpl.toWord ≤ (TrapTarget.of machine).pp.ones) (hw : cause.intoWord = .ok w)
    (hto : toMachine csr cause = .ok machine) (hen : Admits csr machine cause) :
    ∃ csr', Entered (.of machine) csr csr' pc w trapValue ∧
      trySendTrapSignal csr pc cause trapValue =
        ((TrapTarget.of machine).vector csr cause).map fun pc' => (true, csr', pc') := by
  obtain ⟨csr', hentered, hsend⟩ := sendTrapSignal_eq pc trapValue hfits hw
  refine ⟨csr', hentered, ((trySendTrapSignal_eq pc trapValue hto).1 hen).trans ?_⟩
  rw [hsend]
  cases (TrapTarget.of machine).vector csr cause <;> rfl

/-- A trap that was taken: the mode it went to, what that left, and where it
goes on. -/
inductive TrapTaken (csr : CsrRegFile) (pc : WordType) (cause : Trap) (trapValue : WordType)
    (csr' : CsrRegFile) (pc' : WordType) : Prop
  | intro {machine : Bool} {w : WordType} : cause.intoWord = .ok w → toMachine csr cause = .ok machine →
    Entered (.of machine) csr csr' pc w trapValue → (TrapTarget.of machine).vector csr cause = .ok pc' →
    TrapTaken csr pc cause trapValue csr' pc'

variable {csr' : CsrRegFile} {pc pc' trapValue : WordType}

/-- The cause has a number and the level fits the field it is stored in, or there
would have been a panic. -/
theorem sendTrapSignal_taken (hto : toMachine csr cause = .ok machine)
    (h : sendTrapSignal machine csr pc cause trapValue = .ok (csr', pc')) :
    TrapTaken csr pc cause trapValue csr' pc' := by
  obtain ⟨hfits, w, hw⟩ : csr.cpl.toWord ≤ (TrapTarget.of machine).pp.ones ∧
      ∃ w, cause.intoWord = .ok w := by
    cases machine with
    | true | false =>
      obtain ⟨_, hset, hrest⟩ := Lib.exists_of_bind_ok h
      obtain ⟨w, hw, -⟩ := Lib.exists_of_bind_ok hrest
      exact ⟨by_contra fun hfits => (by cases (if_neg hfits).symm.trans hset), w, hw⟩
  obtain ⟨c, hentered, hsend⟩ := sendTrapSignal_eq pc trapValue hfits hw
  rw [hsend] at h
  obtain ⟨_, hpc, heq⟩ := Lib.exists_of_map_ok h
  cases heq
  exact .intro hw hto hentered hpc

/-- An attempt to send a trap either is an interrupt that was blocked, and
changes nothing, or the trap is taken. -/
theorem trySendTrapSignal_cases {taken : Bool}
    (h : trySendTrapSignal csr pc cause trapValue = .ok (taken, csr', pc')) :
    (taken = false ∧ (∃ i, cause = .interrupt i) ∧ csr' = csr ∧ pc' = pc) ∨
      (taken ∧ TrapTaken csr pc cause trapValue csr' pc') := by
  obtain ⟨machine, hto, -⟩ := Lib.exists_of_bind_ok h
  have hsend := trySendTrapSignal_eq pc trapValue hto
  by_cases hen : Admits csr machine cause
  · rw [hsend.1 hen] at h
    obtain ⟨_, hsent, heq⟩ := Lib.exists_of_map_ok h
    cases heq
    exact .inr ⟨rfl, sendTrapSignal_taken hto hsent⟩
  · rw [hsend.2 hen] at h
    cases h
    cases cause with
    | exception e => exact absurd trivial hen
    | interrupt i => exact .inl ⟨rfl, ⟨i, rfl⟩, rfl, rfl⟩

theorem takeException_taken {e : Exception}
    (h : takeException csr pc e trapValue = .ok (csr', pc')) :
    TrapTaken csr pc (.exception e) trapValue csr' pc' := by
  obtain ⟨⟨taken, c, q⟩, hsend, h⟩ := Lib.exists_of_bind_ok h
  cases h
  rcases trySendTrapSignal_cases hsend with ⟨-, ⟨i, hi⟩, -⟩ | ⟨-, htaken⟩
  · cases hi
  · exact htaken

theorem tryTakeInterrupt_cases {taken : Option Interrupt}
    (h : tryTakeInterrupt csr pc = .ok (taken, csr', pc')) :
    (taken = none ∧ csr' = csr ∧ pc' = pc) ∨
      ∃ i, taken = some i ∧ hasInterrupt csr = .ok (some i) ∧
        TrapTaken csr pc (.interrupt i) 0 csr' pc' := by
  obtain ⟨found, hi, h⟩ := Lib.exists_of_bind_ok h
  cases found with
  | none =>
    cases h
    exact .inl ⟨rfl, rfl, rfl⟩
  | some i =>
    obtain ⟨⟨sent, c, q⟩, hsend, h⟩ := Lib.exists_of_bind_ok h
    cases h
    rcases trySendTrapSignal_cases hsend with ⟨rfl, -, rfl, rfl⟩ | ⟨rfl, htaken⟩
    · exact .inl ⟨rfl, rfl, rfl⟩
    · exact .inr ⟨i, rfl, hi, htaken⟩

/-- A trap leaves alone what neither mode records it in. -/
theorem TrapTaken.frame (h : TrapTaken csr pc cause trapValue csr' pc') {r : Csr}
    (hr : r ∉ [Csr.mstatus, .mcause, .mepc, .mtval, .scause, .sepc, .stval]) :
    csr'.value r = csr.value r := by
  obtain @⟨machine, w, -, -, hentered, -⟩ := h
  refine hentered.frame r fun hmem => hr ?_
  revert hmem
  cases machine <;> cases r <;> decide

end Send

/-! ## Return -/

/-- A value of two bits names a level. -/
theorem expectPrivilege_of_le {v : WordType} (h : v ≤ 3#64) :
    ∃ l : PrivilegeLevel, l.toWord = v ∧ expectPrivilege v = .ok l := by
  have hv : v = 0#64 ∨ v = 1#64 ∨ v = 2#64 ∨ v = 3#64 := by bv_omega
  rcases hv with rfl | rfl | rfl | rfl
  · exact ⟨.U, rfl, rfl⟩
  · exact ⟨.S, rfl, rfl⟩
  · exact ⟨.V, rfl, rfl⟩
  · exact ⟨.M, rfl, rfl⟩

/-- `mstatus` after the return of a mode. Only `mret` can keep `MPRV`. -/
def returnStatus (x : TrapTarget) (v : WordType) : WordType :=
  let v := x.pie.put (x.ie.put v (x.pie.get v)) 1
  x.pp.put (if x.level = .M ∧ x.pp.get v = PrivilegeLevel.M.toWord then v else mprv.put v 0) 0

/-- The CSR file after a return: the level is the one the mode had stored. -/
structure Returned (x : TrapTarget) (csr csr' : CsrRegFile) : Prop where
  cpl : csr'.cpl.toWord = csr.get .mstatus x.pp
  mstatus : csr'.value .mstatus = returnStatus x (csr.value .mstatus)
  frame : ∀ r, r ≠ .mstatus → csr'.value r = csr.value r

section Return

variable (csr : CsrRegFile)

/-- Only what is put into a register last counts. -/
theorem CsrRegFile.setValue_setValue {r : Csr} {v v' : WordType} :
    (csr.setValue r v).setValue r v' = csr.setValue r v' := by
  simp [CsrRegFile.setValue]

theorem setValue_cpl_setValue {r : Csr} {v v' : WordType} {level : PrivilegeLevel} :
    CsrRegFile.setValue { csr.setValue r v with cpl := level } r v' =
      CsrRegFile.setValue { csr with cpl := level } r v' :=
  CsrRegFile.setValue_setValue { csr with cpl := level }

/-- Both returns go to where the trap was taken. -/
theorem xret_eq (machine : Bool) :
    ∃ csr', Returned (.of machine) csr csr' ∧ (TrapTarget.of machine).xret csr =
      .ok (csr', csr.value (TrapTarget.of machine).level.trapRegs.epc) := by
  have hle : (TrapTarget.of machine).pp.get (csr.value .mstatus) ≤ 3#64 := by
    have hones : (TrapTarget.of machine).pp.ones ≤ 3#64 := by cases machine <;> decide
    refine BitVec.le_trans (get_le_ones ?_) hones
    cases machine <;> decide
  obtain ⟨l, hl, hexpect⟩ := expectPrivilege_of_le hle
  have hpp (w : WordType) : (TrapTarget.of machine).pp.get ((TrapTarget.of machine).pie.put
      ((TrapTarget.of machine).ie.put (csr.value .mstatus) w) 1) =
        (TrapTarget.of machine).pp.get (csr.value .mstatus) := by
    cases machine with
    | true | false =>
      rw [get_put_disjoint (by decide) (by decide) (by decide),
        get_put_disjoint (by decide) (by decide) (by decide)]
  have hpie : (TrapTarget.of machine).pie.get (csr.value .mstatus) ≤ (TrapTarget.of machine).ie.ones := by
    cases machine <;> exact get_le_ones (by decide)
  have hm {f : BitField} {v : WordType} (hf : f ∈ statusFields) (hv : v ≤ f.ones) (c : CsrRegFile) :=
    set_status (r := .mstatus) c rfl hf hv
  have hs {f : BitField} {v : WordType} (hf : f ∈ statusFields) (hv : v ≤ f.ones) (c : CsrRegFile) :=
    set_status (r := .sstatus) c rfl hf hv
  have hmprv := hm (v := 0) (show mprv ∈ _ by simp [statusFields]) (Nat.zero_le _)
  refine ⟨CsrRegFile.setValue { csr with cpl := l } .mstatus _,
    ⟨hl, CsrRegFile.setValue_same, fun _ => CsrRegFile.setValue_ne⟩, ?_⟩
  unfold returnStatus
  cases machine with
  | true =>
    simp only [TrapTarget.of, TrapTarget.machine] at hexpect hpp hpie ⊢
    unfold mret
    simp only [bind, Except.bind, CsrRegFile.get, show Csr.mstatus.base = .mstatus from rfl,
      hm (show mie ∈ _ by simp [statusFields]) hpie,
      hm (v := 1) (show mpie ∈ _ by simp [statusFields]) (by decide +kernel),
      hm (v := 0) (show mpp ∈ _ by simp [statusFields]) (Nat.zero_le _), hmprv,
      CsrRegFile.setValue_same, CsrRegFile.setValue_setValue, setValue_cpl_setValue, hpp, hexpect]
    by_cases hM : mpp.get (csr.value .mstatus) = PrivilegeLevel.M.toWord
    · rw [if_pos hM, if_pos ⟨trivial, hM⟩]
      rfl
    · rw [if_neg hM, if_neg (not_and.mpr fun _ => hM)]
      rfl
  | false =>
    simp only [TrapTarget.of, TrapTarget.supervisor] at hexpect hpp hpie ⊢
    unfold sret
    simp only [bind, Except.bind, CsrRegFile.get, show Csr.sstatus.base = .mstatus from rfl,
      hs (show sie ∈ _ by simp [statusFields]) hpie,
      hs (v := 1) (show spie ∈ _ by simp [statusFields]) (by decide +kernel),
      hs (show spp ∈ _ by simp [statusFields]) (show PrivilegeLevel.U.toWord ≤ _ by decide +kernel),
      hmprv, CsrRegFile.setValue_same, CsrRegFile.setValue_setValue, setValue_cpl_setValue, hpp, hexpect]
    rfl

end Return

end HereEmu
