import HereEmu.Proofs.InstrEffect
import HereEmu.Proofs.VectorExec

/-!
# The parts of a course, and vector instructions
-/

namespace HereEmu

open Lib (Exec)
open Lib.Exec (Spec)
open RVCPU

section Scalar

variable {P : Platform} {S : PanicSite → Prop}

theorem Calm.checkTarget (check : Bool) (target : WordType) :
    Calm S (checkTarget check target : CpuM P Unit) := by
  cases check with
  | true => exact .checkJumpAlignment target
  | false => exact .pure ()

theorem Done.send (req : Request) : Done S (req.send : CpuM P WordType) := by
  cases req with
  | load w addr => exact (Calm.read w addr).done
  | loadReserved w addr => exact (Calm.loadReserved w addr).done
  | store w addr data => exact (Done.write w addr data).then_fin fun _ => .pure _
  | storeConditional w addr data =>
    exact (Done.storeConditional w addr data).then_fin fun _ => .pure _
  | amo w addr f => exact .fetchAndOpAmo w addr f

theorem Fin.put (sink : Sink) (v : WordType) : Fin S (sink.put v : CpuM P Unit) := by
  cases sink with
  | none => exact .pure ()
  | reg rd g => exact .writeReg rd _
  | float f rd => exact .modify fun _ => ⟨rfl, .refl _, rfl, rfl, rfl⟩

/-- An environment call asks for the privilege level, which has to be a defined one. -/
theorem Done.execEcall : Done S (execEcall : CpuM P Unit) := by
  intro s hs
  refine Spec.get_bind ?_
  cases h : s.csr.cpl with
  | U | S | M => exact Calm.throw_known (by decide) |>.done s hs
  | V =>
    rcases hs.modes with hd | ⟨-, hS⟩
    · exact absurd h hd.cpl
    · exact hS

end Scalar

/-- A vector instruction. An illegal transfer left memory alone. -/
theorem Done.vector {P : Platform} {S : PanicSite → Prop} {f : ExecFunc P.FloatOp P.VectorOp}
    (hf : f.isVector) (info : RVInstrInfo) : Done S (exec f info) := by
  intro s hs
  have hcsr : ∀ e : VectorEnd P, SameControl s.csr (e.state s).csr := fun e => by
    refine e.csr_ind (.refl _) fun c hc r hr v => hc.trans (.setValue c ?_ v)
    exact List.mem_cons_of_mem _ (List.mem_cons_of_mem _ (List.mem_cons_of_mem _ hr))
  refine exec_vector_spec hf hs.benign (fun _ => Failed.of_illegal (.refl s))
    (fun e x hend hx => ?_) fun e _ _ => ⟨⟨.of_pageTable rfl, ?_, rfl, rfl⟩, rfl⟩
  · rcases vectorEnd_cases hend with ⟨hmem, hresult⟩ | ⟨op, fields, r, t, rfl, hrun, hmem, hresult⟩
    · rw [hx] at hresult
      rcases hresult with hresult | hresult <;> cases hresult
      exact Failed.of_illegal
        ⟨.of_pageTable rfl (congrArg (·.ram.data) hmem), hcsr e, rfl, rfl, rfl, rfl⟩
    · have htracks := (Tracks.access fields op ⟨s.vector, s.memory.mmio⟩
        ⟨s.vector, ⟨s.memory.mmio, []⟩⟩ ⟨rfl, rfl, rfl⟩).elim hrun
      rw [hx] at hresult
      rcases r with err | _
      · rcases htracks.2 err rfl with ⟨rfl, hsame⟩ | ⟨i, err, rfl⟩
        · cases hresult
          exact Failed.of_illegal
            ⟨.of_pageTable rfl (congrArg (·.ram.data) (hmem.trans hsame)), hcsr e, rfl, rfl, rfl, rfl⟩
        · cases hresult
          exact Failed.of_known ⟨.of_pageTable rfl, hcsr e, rfl, rfl⟩
            (fromMemoryErr_known err).1 (fromMemoryErr_known err).2
      · cases hresult
  · exact (hcsr e).trans (.trans (.setValue _ (by decide) _) (.setValue _ (by decide) _))

end HereEmu
