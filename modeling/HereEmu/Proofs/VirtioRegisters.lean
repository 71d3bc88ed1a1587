import HereEmu.Proofs.BlockNotify

/-!
# Every register access is answered

A register the driver may only write has no value to read, and `read_u32_impl`
does not expect to be asked for one. Every other access is answered, whatever
its width, its address and its data and whatever the device has gone through
before.

Two writes are answered only when the device thread is done: a reset waits for
the worker, and a doorbell for the end of the available ring. Neither runs into
a panic. The reset returns within as many rounds as there is work left. The
doorbell does, as long as its index and chains are left alone, if no chain it
consumes comes back to an indirect table; with one that does it never returns.
-/

namespace HereEmu

open Lib

/-- The registers `read_u32_impl` has no value for. -/
def VirtIOMMIOOffset.unreadable : VirtIOMMIOOffset → Bool
  | .config | .deviceFeaturesSelect | .driverFeatures | .driverFeaturesSelect | .queueSelect
  | .queueNum | .queueNotify | .interruptAck | .queueDescLow | .queueDescHigh
  | .queueAvailLow | .queueAvailHigh | .queueUsedLow | .queueUsedHigh => true
  | _ => false

theorem VirtIOMMIOOffset.tryFrom_ne_config {offset : Nat} (h : offset < VIRTIO_MMIO_CONFIG_OFFSET) :
    tryFrom offset ≠ some .config := by
  unfold tryFrom
  split
  case h_29 => exact absurd h (by decide)
  all_goals exact fun h => (by cases h)

theorem VirtIOMMIOOffset.tryFrom_aligned {offset : Nat} {reg : VirtIOMMIOOffset}
    (h : tryFrom offset = some reg) : offset % 4 = 0 := by
  unfold tryFrom at h
  split at h
  case h_30 => cases h
  all_goals rfl

namespace VirtIOMMIO

variable {m : VirtIOMMIO} {isr : BitVec 8} {w : Width} {addr data : WordType} {offset : Nat}

/-- A read of the register file that has no answer. -/
def Unreadable (w : Width) (addr : WordType) : Prop :=
  w = .u32 ∧ addr.toNat < VIRTIO_MMIO_CONFIG_OFFSET ∧
    (VirtIOMMIOOffset.tryFrom addr.toNat).any (·.unreadable)

theorem readU32Impl_ok_iff (halign : offset % 4 = 0) (hoffset : offset < VIRTIO_MMIO_CONFIG_OFFSET) :
    (∃ v, m.readU32Impl isr offset = .ok v) ↔
      (VirtIOMMIOOffset.tryFrom offset).any (·.unreadable) = false := by
  unfold readU32Impl
  rw [if_neg (not_not.2 halign), if_neg (Nat.not_le.2 hoffset)]
  cases VirtIOMMIOOffset.tryFrom offset with
  | none => exact ⟨fun _ => rfl, fun _ => ⟨_, rfl⟩⟩
  | some reg =>
    cases reg <;>
      first
      | exact ⟨fun _ => rfl, fun _ => ⟨_, rfl⟩⟩
      | exact ⟨fun ⟨_, h⟩ => (by cases h), fun h => (by cases h)⟩

theorem read_ok_iff : (∃ r, m.read isr w addr = .ok r) ↔ ¬ Unreadable w addr := by
  unfold read Unreadable
  split
  · next hconfig =>
      refine ⟨fun _ h => Nat.not_le.2 h.2.1 hconfig, fun _ => ?_⟩
      split <;> exact ⟨_, rfl⟩
  · next hregs =>
      have hoffset := Nat.not_le.1 hregs
      split
      · next hrefused =>
          refine ⟨?_, fun _ => ⟨_, rfl⟩⟩
          rintro _ ⟨rfl, _, hreg⟩
          cases htry : VirtIOMMIOOffset.tryFrom addr.toNat with
          | none => rw [htry] at hreg; cases hreg
          | some reg =>
            have halign := VirtIOMMIOOffset.tryFrom_aligned htry
            rcases hrefused with h | h
            · exact h rfl
            · exact h halign
      · next halign =>
          rw [not_or, not_not, not_not] at halign
          have hw : w = .u32 := by cases w <;> simp [Width.bytes] at halign ⊢
          have hreg := @readU32Impl_ok_iff m isr _ halign.2 hoffset
          rw [← Bool.not_eq_true] at hreg
          constructor
          · rintro ⟨r, hr⟩ ⟨_, _, hbad⟩
            obtain ⟨v, hv, _⟩ := exists_of_bind_ok hr
            exact hreg.1 ⟨v, hv⟩ hbad
          · intro hgood
            obtain ⟨v, hv⟩ := hreg.2 fun hbad => hgood ⟨hw, hoffset, hbad⟩
            rw [hv]
            exact ⟨_, rfl⟩

theorem writeU32Impl_ok {value : BitVec 32} (halign : offset % 4 = 0)
    (hoffset : offset < VIRTIO_MMIO_CONFIG_OFFSET) :
    ∃ out, m.writeU32Impl isr offset value = .ok out := by
  unfold writeU32Impl
  rw [if_neg (not_not.2 halign), if_neg (Nat.not_le.2 hoffset)]
  cases hreg : VirtIOMMIOOffset.tryFrom offset with
  | none => exact ⟨_, rfl⟩
  | some reg =>
    cases reg with
    | config => exact absurd hreg (VirtIOMMIOOffset.tryFrom_ne_config hoffset)
    | queueNotify | status =>
      dsimp only
      split <;> exact ⟨_, rfl⟩
    | _ => exact ⟨_, rfl⟩

theorem write_ok (m : VirtIOMMIO) (isr : BitVec 8) (w : Width) (addr data : WordType) :
    ∃ r, m.write isr w addr data = .ok r := by
  unfold write
  split
  · split <;> exact ⟨_, rfl⟩
  · next hregs =>
      split
      · exact ⟨_, rfl⟩
      · next halign =>
          rw [not_or, not_not, not_not] at halign
          obtain ⟨out, hout⟩ := @writeU32Impl_ok m isr _ (data.setWidth 32) halign.2
            (Nat.not_le.1 hregs)
          rw [hout]
          exact ⟨_, rfl⟩

end VirtIOMMIO

namespace BlockSystem

open VirtIOMMIO (Unreadable read_ok_iff)

variable {s s' t : BlockSystem} {e : BlockEvent} {a : BlockAction} {es : List BlockEvent}
  {os : List BlockAction} {num : BitVec 32}

/-- The ring a doorbell goes through, if there is one. -/
def ring (s : BlockSystem) : Nat := s.mmio.device.queue.avail.getD 0

/-- No chain that is consumed comes back to an indirect table. -/
def Straight (s : BlockSystem) (e : BlockEvent) : Prop :=
  ∀ a s', s.step e = .ok (a, s') → (a.consumed?).isSome → ¬ s'.Reenters

/-- The driver leaves index and chains alone, and the chains are straight. -/
def CallStraight (avail : Nat) (s : BlockSystem) (e : BlockEvent) : Prop :=
  s.KeepsIndex avail e ∧ s.KeepsChain e ∧ s.Straight e

/-- A call of `notify` whose walk ends within the bound for a queue of the size. -/
structure Paced (num : BitVec 32) (s : BlockSystem) : Prop where
  thread : s.Serving ∨ s.thread = .idle
  queueNum : s.mmio.device.queue.queueNum = num
  walk : ∀ used handle i r, s.thread = .walking used handle i r →
    turns (VirtQueueDescHandle.next s.shared.mem) (VirtQueue.callbackBound num.toNat + 1 - i) handle =
      none

theorem Paced.walksWithin (hs : s.Paced num) (e : BlockEvent) :
    s.WalksWithin (VirtQueue.callbackBound num.toNat) e := by
  intro used handle i r hthread
  by_contra hi
  have hend := hs.walk used handle i r hthread
  rw [Nat.sub_eq_zero_of_le (Nat.not_le.1 hi)] at hend
  cases hend

theorem Paced.step (hs : s.Paced num) (hbusy : s.Busy e) (hkeep : s.KeepsChain e)
    (hstraight : s.Straight e) (h : s.step e = .ok (a, s')) : s'.Paced num := by
  obtain ⟨hthread', hqueue⟩ : (s'.Serving ∨ s'.thread = .idle) ∧
      s'.mmio.device.queue.queueNum = s.mmio.device.queue.queueNum := by
    rcases (hs.thread.resolve_right hbusy).step h with ⟨hserving, hqueue⟩ | ⟨hidle, _, hqueue, _⟩
    · exact ⟨.inl hserving, by rw [hqueue]⟩
    · exact ⟨.inr hidle, by rw [hqueue]⟩
  refine ⟨hthread', hqueue.trans hs.queueNum, fun used handle i r hwalking => ?_⟩
  have hheld := held_step h
  rw [hwalking] at hheld
  cases hc : a.consumed? with
  | some c =>
    -- the walk begins
    cases step_turn h with
    | consume hthread htake =>
      cases hwalking
      have hend := VirtQueue.turns_of_not_reenters fun hre =>
        hstraight _ _ h rfl ⟨_, _, _, _, rfl, hre⟩
      rwa [VirtQueue.takeEntry_remaining htake, hs.queueNum] at hend
    | _ => cases hc
  | none =>
    rw [hc, Option.toList_none, List.append_nil] at hheld
    cases hthread : s.thread with
    | walking used₀ handle₀ i₀ r₀ =>
      have hend := hs.walk _ _ _ _ hthread
      have hi := hs.walksWithin e _ _ _ _ hthread
      rcases (walking_step h hkeep hthread).2 with ⟨_, hthread', hsame⟩ |
        ⟨d, handle', r', htry, _, hthread', hsame⟩ | ⟨_, hthread'⟩ <;>
        cases hthread'.symm.trans hwalking
      · rwa [hsame.turns]
      · rwa [hsame.turns, ← turns_tryGet htry,
          show VirtQueue.callbackBound num.toNat + 1 - (i₀ + 1) + 1 =
            VirtQueue.callbackBound num.toNat + 1 - i₀ by omega]
    | walked used₀ r₀ =>
      rcases walked_step h hthread with ⟨_, _, hthread'⟩ | ⟨hdep, _⟩
      · cases hthread'.symm.trans hwalking
      · rw [hthread, hdep] at hheld
        cases hheld
    | _ =>
      rw [hthread] at hheld
      cases hdep : a.departed? <;> rw [hdep] at hheld <;> cases hheld

/-- The call returns if no chain it consumes comes back to an indirect table. -/
theorem Serves.returns_straight {avail : Nat} (hs : s.Serves avail) (hp : s.Paced num) :
    s.ReturnsWithin (CallStraight avail) (s.notifyRank (VirtQueue.callbackBound num.toNat) avail) := by
  intro blocks os t hrounds hrun hbusy hallowed
  have hkeep : ∀ s e a s', Paced num s → s.Busy e ∧ s.CallStraight avail e →
      s.step e = .ok (a, s') → Paced num s' :=
    fun _ _ _ _ hp ⟨hbusy, _, hkeep, hstraight⟩ h => hp.step hbusy hkeep hstraight h
  exact hs.returns _ blocks os t hrounds hrun hbusy (Always.of_inv hkeep
    (fun _ e hp hc => ⟨hc.2.1, hp.walksWithin e⟩) hp (hbusy.and hallowed))

/-- What a register write leaves to be done is done in the end. -/
def Returning (s : BlockSystem) : Prop :=
  s.thread = .idle ∨
    s.thread = .sendBarrier ∧ s.ReturnsWithin (fun _ _ => True) (s.backlog + 6) ∨
    s.thread = .notify ∧ s.ReturnsWithin (CallStraight s.ring)
      (1 + s.waiting s.ring * (VirtQueue.callbackBound s.mmio.device.queue.queueNum.toNat + 4))

theorem returning_of_call {call : VirtIOMMIO.Call} (hs : s.Barriers)
    (hthread : s.thread = threadOf call) : s.Returning := by
  cases call with
  | none => exact .inl hthread
  | reset =>
    have hreturns := Draining.returns ⟨hs, .inl (.inl hthread)⟩
    unfold drainRank at hreturns
    rw [hthread] at hreturns
    exact .inr (.inl ⟨hthread, hreturns⟩)
  | notify =>
    refine .inr (.inr ⟨hthread, ?_⟩)
    have hserving : s.Serving ∨ s.thread = .idle := .inl (.inl hthread)
    have hserves : s.Serves s.ring := by
      refine ⟨hserving, fun base hbase => ?_⟩
      rw [ring, hbase]
      rfl
    have hreturns := hserves.returns_straight
      ⟨hserving, rfl, fun _ _ _ _ hwalking => by cases hthread.symm.trans hwalking⟩
    unfold notifyRank at hreturns
    rwa [hthread] at hreturns

/-- Whatever has happened to the device, an access that finds its thread idle is
answered, at any width and any address and with any data, except for a read of a
register that can only be written. A write that gives the device thread
something to do returns, for a doorbell if all chains are straight; in a chain
that is not the thread stays forever. No turn on the way panics. -/
theorem access_answered (hostFeature : VirtIOFeatureSet) (generation : BitVec 32)
    (sectors : WordType) (file : BackingFile) (mem : Nat → BitVec 8)
    (hrun : runAll step (new hostFeature generation sectors file mem) es = .ok (os, s))
    (hidle : s.thread = .idle) (w : Width) (addr : WordType) :
    ((∃ r, s.step (.read w addr) = .ok (.answer r, s)) ↔ ¬ Unreadable w addr) ∧
      ∀ data, ∃ r s', s.step (.write w addr data) = .ok (.answer r, s') ∧ s'.Returning ∧
        ∀ es' os' t, runAll step s' es' = .ok (os', t) →
          (∀ e, e.isDevice ∨ e.isWorker → ∃ out, t.step e = .ok out) ∧
          (t.Reenters → ∀ es₂ os₂ t₂, runAll step t es₂ = .ok (os₂, t₂) →
            Always step KeepsChain t es₂ → t₂.thread ≠ .idle) := by
  have hbarriers := (Barriers.new ..).run hrun
  have hquiet : (new hostFeature generation sectors file mem).Quiet := ⟨rfl, rfl, rfl⟩
  have hsized := hquiet.sized.run hrun
  have hforever : ∀ t : BlockSystem, t.Reenters → ∀ es₂ os₂ t₂, runAll step t es₂ = .ok (os₂, t₂) →
      Always step KeepsChain t es₂ → t₂.thread ≠ .idle := by
    intro t hre es₂ os₂ t₂ h₂ hkeep hidle
    obtain ⟨⟨_, _, _, _, hthread, _⟩, _⟩ := hre.endless.run hkeep h₂
    cases hthread.symm.trans hidle
  constructor
  · rw [← @read_ok_iff s.mmio s.shared.isr]
    constructor
    · rintro ⟨r, hr⟩
      simp only [step, guestRead, hidle] at hr
      obtain ⟨v, hv, _⟩ := exists_of_bind_ok hr
      exact ⟨v, hv⟩
    · rintro ⟨r, hr⟩
      refine ⟨r, ?_⟩
      simp only [step, guestRead, hidle, hr]
      rfl
  · intro data
    obtain ⟨r, hr⟩ := VirtIOMMIO.write_ok s.mmio s.shared.isr w addr data
    cases r with
    | error e =>
      refine ⟨.error e, s, ?_, .inl hidle,
        fun _ _ t h => ⟨fun _ he => (hsized.run h).turn_ok he, hforever t⟩⟩
      simp only [step, guestWrite, hidle, hr]
      rfl
    | ok out =>
      have hstep : s.step (.write w addr data) = .ok (.answer (.ok 0), { s with
          mmio := out.mmio, thread := threadOf out.call, shared.isr := out.isr }) := by
        simp only [step, guestWrite, hidle, hr]
        rfl
      have hsized' := hsized.run (runAll_singleton hstep)
      exact ⟨.ok 0, _, hstep, returning_of_call (hbarriers.step hstep) rfl,
        fun _ _ t h => ⟨fun _ he => (hsized'.run h).turn_ok he, hforever t⟩⟩

/-- The driver has enabled a queue. It can read that back, and it can ring. -/
theorem access_answered_setup : ∃ os s,
    runAll step oneSector setUpQueue = .ok (os, s) ∧
      (∃ r, s.step (.read .u32 0x44) = .ok (.answer r, s)) ∧
      ∃ r s', s.step (.write .u32 0x50 0) = .ok (.answer r, s') ∧ s'.Returning ∧
        s'.thread = .notify := by
  obtain ⟨os, s, hrun, hidle, hen⟩ : ∃ os s, runAll step oneSector setUpQueue =
      .ok (os, s) ∧ s.thread = .idle ∧ s.mmio.enabled := ⟨_, _, rfl, rfl, rfl⟩
  obtain ⟨hread, _⟩ := access_answered _ _ _ _ _ hrun hidle .u32 0x44
  obtain ⟨_, hwrite⟩ := access_answered _ _ _ _ _ hrun hidle .u32 0x50
  refine ⟨os, s, hrun, hread.2 ?_, ?_⟩
  · rintro ⟨_, _, hbad⟩
    cases hbad
  · obtain ⟨r, s', hstep, hreturning, _⟩ := hwrite 0
    refine ⟨r, s', hstep, hreturning, ?_⟩
    rw [step_doorbell hidle hen rfl] at hstep
    cases hstep
    rfl

/-- The driver asks for the size it has written. -/
theorem read_queueNum_panics : oneSector.step (.read .u32 0x38) = .error .device := rfl

end BlockSystem

end HereEmu
