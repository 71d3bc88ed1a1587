import HereEmu.Device.Virtio.Block
import HereEmu.Proofs.ReservationCpu

/-!
# Reservations and the block device

The worker of the block device writes to RAM through host pointers, and so it
goes past `Ram::write` and the reservation that a write there would look at. A
hart and a block device side by side: what a completion writes, and where, has
no part in whether an SC succeeds. It fails exactly if the hart itself has lost
the reservation.
-/

namespace HereEmu

open Lib (Exec Always runAll)
open Lib.Exec (Along)
open RVCPU

/-- A hart and what the worker of a block device has besides RAM. -/
structure Board (P : Platform) where
  cpu : RVCPU P
  isr : BitVec 8
  file : BackingFile

inductive BoardEvent (P : Platform) where
  | hart (e : Event P)
  /-- A task is carried out, all of it at once. -/
  | completion (task : VirtIOBlockAsyncTask) (io : Nat → HostIo)

namespace Board

variable {P : Platform}

def reservation (b : Board P) : Option Reservation := b.cpu.reservation

def complete (b : Board P) (task : VirtIOBlockAsyncTask) (io : Nat → HostIo) : Rust (Board P) := do
  let shared ← (VirtIOBlockAsyncWorker.runTask b.file.len io task).foldlM WorkerOp.run
    ⟨b.cpu.memory.mmio.ram.data, b.isr, b.file⟩
  return ⟨{ b.cpu with memory.mmio.ram.data := shared.mem }, shared.isr, shared.file⟩

def step (b : Board P) : BoardEvent P → Rust (Unit × Board P)
  | .hart e => (b.cpu.step e).map fun cpu => ((), { b with cpu })
  | .completion task io => (b.complete task io).map fun b => ((), b)

/-- The event takes the reservation away. -/
def Releases (b : Board P) (e : BoardEvent P) : Prop :=
  b.reservation ≠ none ∧ ∃ b', b.step e = .ok ((), b') ∧ b'.reservation = none

/-- The hart is not about to execute an LR. -/
def NoLr (b : Board P) (e : BoardEvent P) : Prop := e = .hart .instr → b.cpu.atLr = false

variable {b b' : Board P} {e : BoardEvent P} {es : List (BoardEvent P)} {os : List Unit}
  {r : Reservation}

theorem complete_reservation {task : VirtIOBlockAsyncTask} {io : Nat → HostIo}
    (h : b.complete task io = .ok b') : b'.reservation = b.reservation := by
  obtain ⟨shared, -, h⟩ := Lib.exists_of_bind_ok h
  cases h
  rfl

theorem step_eq_ok {o : Unit} (h : b.step e = .ok (o, b')) :
    (∃ e' cpu, e = .hart e' ∧ b.cpu.step e' = .ok cpu ∧ b' = { b with cpu }) ∨
      ∃ task io, e = .completion task io ∧ b.complete task io = .ok b' := by
  cases e with
  | hart e =>
    obtain ⟨cpu, hs, h⟩ := Lib.exists_of_map_ok h
    cases h
    exact .inl ⟨e, cpu, rfl, hs, rfl⟩
  | completion task io =>
    obtain ⟨b₁, hs, h⟩ := Lib.exists_of_map_ok h
    cases h
    exact .inr ⟨task, io, rfl, hs⟩

/-- A reservation stays as it is or is gone. -/
theorem step_released {o : Unit} (hlr : b.NoLr e) (h : b.step e = .ok (o, b')) :
    b'.reservation = b.reservation ∨ b'.reservation = none := by
  rcases step_eq_ok h with ⟨e', cpu, rfl, hs, rfl⟩ | ⟨task, io, rfl, hs⟩
  · by_cases hdev : ∃ dev data, e' = .devices dev data
    · obtain ⟨dev, data, rfl⟩ := hdev
      cases hs
      exact .inl rfl
    · have hrel : Released b.cpu.memory.mmio cpu.memory.mmio :=
        step_through (fun he => hlr (by rw [he])) (fun dev data he => hdev ⟨dev, data, he⟩) hs
      exact hrel
  · exact .inl (complete_reservation hs)

/-- Only the hart takes the reservation away. -/
theorem Releases.hart (h : b.Releases e) : ∃ e', e = .hart e' := by
  obtain ⟨hsome, b', hs, hnone⟩ := h
  rcases step_eq_ok hs with ⟨e', _, he, _⟩ | ⟨task, io, _, hcomplete⟩
  · exact ⟨e', he⟩
  · rw [complete_reservation hcomplete] at hnone
    exact absurd hnone hsome

theorem run_unreserved {t : Board P} (hnone : b.reservation = none) (hlr : Always step NoLr b es)
    (h : runAll step b es = .ok (os, t)) : t.reservation = none := by
  have hkeep : ∀ (b : Board P) e (o : Unit) b', b.reservation = none → b.NoLr e →
      b.step e = .ok (o, b') → b'.reservation = none := by
    intro b e o b' hnone hlr hs
    rcases step_released hlr hs with hsame | hgone
    · exact hsame.trans hnone
    · exact hgone
  exact Lib.runAll_inv hkeep hnone hlr h

/-- At the end of a run without an LR the reservation is there, or some event
took it away. -/
theorem run_reservation {t : Board P} (hslot : b.reservation = some r)
    (hlr : Always step NoLr b es) (h : runAll step b es = .ok (os, t)) :
    (Always step (fun b e => ¬ b.Releases e) b es ∧ t.reservation = some r) ∨
      (¬ Always step (fun b e => ¬ b.Releases e) b es ∧ t.reservation = none) := by
  induction es generalizing b os with
  | nil =>
    cases h
    exact .inl ⟨trivial, hslot⟩
  | cons e es ih =>
    obtain ⟨o, b', os', hs, hrest, rfl⟩ := Lib.runAll_cons h
    have hlr' := hlr.2 o b' hs
    rcases step_released hlr.1 hs with hsame | hnone
    · have hkept : ¬ b.Releases e := by
        rintro ⟨_, b₁, hs₁, hnone⟩
        rw [hs] at hs₁
        cases hs₁
        rw [hsame, hslot] at hnone
        cases hnone
      rcases ih (hsame.trans hslot) hlr' hrest with ⟨halways, ht⟩ | ⟨hnot, ht⟩
      · refine .inl ⟨⟨hkept, fun o₁ b₁ hs₁ => ?_⟩, ht⟩
        rw [hs] at hs₁
        cases hs₁
        exact halways
      · exact .inr ⟨fun halways => hnot (halways.2 o b' hs), ht⟩
    · have hreleases : b.Releases e := ⟨by rw [hslot]; exact nofun, b', hs, hnone⟩
      exact .inr ⟨fun halways => halways.1 hreleases, run_unreserved hnone hlr' hrest⟩

end Board

/-! ## The SC after it -/

section Sc

variable {P : Platform} {s s₁ s' : RVCPU P} {w : Width} {rs1 rs2 rd : RegIdx} {rl aq : Bool}
  {d : P.Decoded} {r : Reservation}

/-- A fetch leaves the reservation alone. -/
theorem decodeAtChecked_reservation {va : WordType} {out : Except ExceptionInfo P.Decoded}
    (h : (decodeAtChecked va).run s = .ok (out, s₁)) : s₁.reservation = s.reservation := by
  have hread : ∀ va policy,
      Along (SameSlot (B := P.bus)) (VirtAddrManager.readWithPolicy .u16 va policy) := by
    intro va policy
    have hby : ∀ paddr, Along (SameSlot (B := P.bus)) (VirtAddrManager.readByPaddr .u16 paddr) :=
      fun paddr => MemThrough.onMmio (R := fun io io' => io'.ram.reserved = io.ram.reserved)
        fun io _ _ h => congrArg Ram.reserved (readByType_ram h)
    exact (translateWithPolicy_sameSlot va policy).bind hby
  exact (decodeAtChecked_along hread va).elim h

/-- The address of the SC lies in a reserved block. -/
def RVCPU.ScIn (s : RVCPU P) (rs1 : RegIdx) (r : Reservation) : Prop :=
  ∃ policy paddr m', resolveDataPolicy s.csr .write true = .ok policy ∧
    (VirtAddrManager.translateWithPolicy (s.regFile rs1) policy).run s.memory =
      .ok (.ok paddr, m') ∧
    r.inTheSameReservationSet (paddr - BASE_ADDR)

/-- An SC to the block that is reserved succeeds. -/
theorem ScEnds.succeeds (h : ScEnds s w rs1 rs2 rd (.ok ()) s') (hslot : s.reservation = some r)
    (hin : s.ScIn rs1 r) (hrd : rd ≠ 0) : s'.regFile rd = 0 := by
  obtain ⟨policy', paddr', m', hpolicy', htranslate', hset⟩ := hin
  cases h with
  | attempted policy success _ hpolicy haccess hreg =>
    rw [hpolicy'] at hpolicy
    cases hpolicy
    rcases storeConditionalWithPolicy_cases haccess with
      ⟨-, hr, -⟩ | ⟨-, e, hr, -⟩ | ⟨-, paddr, m₁, htranslate, hr, -⟩
    · cases hr
    · cases hr
    · rw [htranslate'] at htranslate
      cases htranslate
      have hsame : SameSlot s.memory m' := (translateWithPolicy_sameSlot _ _).elim htranslate'
      have hslot₁ : m'.mmio.ram.reserved = some r := hsame.trans hslot
      have hsuccess : success := by
        unfold MemoryMapIo.storeConditional Ram.storeConditional at hr
        simp only [hslot₁, Option.any_some, hset, if_true] at hr
        split at hr
        · split at hr
          · cases hr
          · split at hr
            · cases hr
            · cases hr
              rfl
        · cases hr
      rw [hreg hrd, hsuccess]
      rfl

end Sc

namespace Board

variable {P : Platform} {b t : Board P} {es : List (BoardEvent P)} {os : List Unit}
  {r : Reservation} {s₁ s₂ : RVCPU P} {w : Width} {rs1 rs2 rd : RegIdx} {rl aq : Bool}
  {d : P.Decoded}

/-- After any run of hart and completions without an LR, an SC to the block
that was reserved fails exactly if some event took the reservation away, and
that event was the hart's. -/
theorem sc_fails_iff_released (hslot : b.reservation = some r) (hlr : Always step NoLr b es)
    (h : runAll step b es = .ok (os, t)) (hdec : (decodeAtChecked t.cpu.pc).run t.cpu = .ok (.ok d, s₁))
    (hf : getExecFunc d.instr = .sc w) (hinfo : d.info = .A rs1 rs2 rd rl aq) (hrd : rd ≠ 0)
    (hexec : (execute d).run s₁ = .ok (.ok (), s₂)) (hin : s₁.ScIn rs1 r) :
    (s₂.regFile rd = 1 ↔ ¬ Always step (fun b e => ¬ b.Releases e) b es) ∧
      ∀ (b : Board P) e, b.Releases e → ∃ e', e = .hart e' := by
  refine ⟨?_, fun _ _ => Releases.hart⟩
  rcases run_reservation hslot hlr h with ⟨halways, ht⟩ | ⟨hnot, ht⟩
  · refine iff_of_false ?_ fun hnot => hnot halways
    obtain ⟨s₃, hends, rfl⟩ := execute_sc_ends hf hinfo hexec
    have hreg := hends.succeeds ((decodeAtChecked_reservation hdec).trans ht) hin hrd
    show ¬ Function.update s₃.regFile 0 0 rd = 1
    rw [Function.update_of_ne hrd, hreg]
    decide
  · exact iff_of_true (ScFails.of_unreserved ht d s₁ s₂ w rs1 rs2 rd rl aq hdec hf hinfo hexec hrd)
      hnot

/-! ### A completion in the reserved block -/

/-- A request that is answered with an error: its status byte goes to offset
0x1004, its used ring is at 0x50. -/
def errorTask : VirtIOBlockAsyncTask := .earlyErr ⟨0x1004, ⟨0x50, 4, 0⟩⟩

/-- The machine of `scCpu`, which has reserved the word at offset 0x1000. -/
def scBoard : Board scPlatform := ⟨scCpu 0, 0, ⟨fun _ => 0, 512⟩⟩

/-- The SC after a completion in the block does not fail, since nothing took
the reservation away. -/
theorem sc_fails_iff_released_completion : ∃ t s₁ s₂,
    runAll step scBoard [.completion errorTask fun _ => .seekErr] = .ok ([()], t) ∧
      (decodeAtChecked t.cpu.pc).run t.cpu = .ok (.ok ⟨.SC_W, .A 1 2 3 false false⟩, s₁) ∧
      (execute ⟨.SC_W, .A 1 2 3 false false⟩).run s₁ = .ok (.ok (), s₂) ∧
      s₁.ScIn 1 (.new 0x1000) ∧ s₂.regFile 3 ≠ 1 := by
  have hkept : Always step (fun b e => ¬ b.Releases e) scBoard
      [.completion errorTask fun _ => .seekErr] := by
    refine ⟨fun h => ?_, fun _ _ _ => trivial⟩
    obtain ⟨e', he⟩ := h.hart
    cases he
  have hlr : Always step NoLr scBoard [.completion errorTask fun _ => .seekErr] :=
    ⟨nofun, fun _ _ _ => trivial⟩
  obtain ⟨t, s₁, s₂, ht, hdec, hexec, hin⟩ : ∃ t s₁ s₂,
      runAll step scBoard [.completion errorTask fun _ => .seekErr] = .ok ([()], t) ∧
        (decodeAtChecked t.cpu.pc).run t.cpu = .ok (.ok ⟨.SC_W, .A 1 2 3 false false⟩, s₁) ∧
        (execute ⟨.SC_W, .A 1 2 3 false false⟩).run s₁ = .ok (.ok (), s₂) ∧
        s₁.ScIn 1 (.new 0x1000) :=
    ⟨_, _, _, rfl, rfl, rfl, .direct, _, _, rfl, rfl, rfl⟩
  have hiff := (sc_fails_iff_released rfl hlr ht hdec rfl rfl (by decide) hexec hin).1
  exact ⟨t, s₁, s₂, ht, hdec, hexec, hin, fun hfail => hiff.1 hfail hkept⟩

/-- Instructions `lr.w x3, (x1)` and `sc.w x3, x2, (x1)`. -/
def lrScPlatform : Platform := .ramOnly fun raw =>
  if raw = 0x1000a1af then some ⟨.LR_W, .A 1 0 3 false false⟩
  else if raw = 0x1820a1af then some ⟨.SC_W, .A 1 2 3 false false⟩ else none

/-- The two one after the other, with `x1` pointing to offset 0x1000. -/
def lrScBoard : Board lrScPlatform where
  cpu :=
    let program := Lib.storeLE (Lib.storeLE (fun _ => 0) 0 4 0x1000a1af#32) 4 4 0x1820a1af#32
    .reset _ ⟨⟨program, none⟩, ()⟩ none
      fun r => if r = 1 then BASE_ADDR + 0x1000 else if r = 2 then 7 else 5
  isr := 0
  file := ⟨fun _ => 0, 512⟩

/-- The LR reserves the block of offset 0x1000, a completion writes its status
byte into it, and the SC succeeds all the same. -/
theorem sc_succeeds_after_completion :
    (runAll step lrScBoard [.hart .instr]).map (fun out =>
      (out.2.reservation, out.2.cpu.memory.mmio.ram.data 0x1004)) = .ok (some (.new 0x1000), 0) ∧
    (runAll step lrScBoard [.hart .instr, .completion errorTask fun _ => .seekErr]).map (fun out =>
      (out.2.reservation, out.2.cpu.memory.mmio.ram.data 0x1004)) = .ok (some (.new 0x1000), 1) ∧
    (runAll step lrScBoard [.hart .instr, .completion errorTask fun _ => .seekErr, .hart .instr]).map
      (fun out => (out.2.cpu.regFile 3, (Lib.loadLE out.2.cpu.memory.mmio.ram.data 0x1000 4 :
        WordType))) = .ok (0, 7) := by
  decide +kernel

end Board

end HereEmu
