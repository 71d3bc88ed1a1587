import HereEmu.Proofs.VirtioRings

/-!
# Feature negotiation

A write to `Status` with `FEATURES_OK` makes the device look at the features the
driver has written so far. It takes them or it takes the bit back, so the bit
stands for the last such attempt: the features of the device are those the
transport had then, and they are acceptable. No other register touches the bit
or the features of the device, and a reset clears both.

The attempts are observed along the run, as what the transport held when they
were made.
-/

namespace HereEmu

open Lib

namespace VirtIOMMIO

variable {m : VirtIOMMIO} {isr : BitVec 8} {w : Width} {addr data : WordType} {out : Written}
  {host : VirtIOFeatureSet}

/-- Features a driver may choose from those of the host. -/
def Acceptable (host features : VirtIOFeatureSet) : Prop :=
  features &&& VERSION_1 ≠ 0 ∧ host &&& features = features
  deriving Decidable

/-- A status whose bits are all defined, with `FEATURES_OK` among them. -/
def OffersFeatures (status : BitVec 8) : Prop :=
  status &&& ~~~VirtIODeviceStatus.all = 0 ∧ status &&& VirtIOBlkDevice.featuresOk ≠ 0
  deriving Decidable

/-- The status and the features of the device have not changed. -/
structure KeepsFeatures (m m' : VirtIOMMIO) : Prop where
  status : m'.device.status = m.device.status
  host : m'.device.hostFeature = m.device.hostFeature
  guest : m'.device.guestFeature = m.device.guestFeature
  generation : m'.device.generation = m.device.generation

theorem KeepsFeatures.of_device {m' : VirtIOMMIO} (h : m'.device = m.device) : KeepsFeatures m m' := by
  constructor <;> rw [h]

theorem KeepsFeatures.queue {m₁ m' : VirtIOMMIO} {q : VirtQueue} (h : KeepsFeatures m m₁)
    (h' : m'.device = { m₁.device with queue := q }) : KeepsFeatures m m' := by
  constructor <;> rw [h']
  · exact h.status
  · exact h.host
  · exact h.guest
  · exact h.generation

theorem KeepsFeatures.writeQueueNum (value : BitVec 32) : KeepsFeatures m (m.writeQueueNum value) := by
  unfold VirtIOMMIO.writeQueueNum
  split
  · exact .of_device rfl
  · split
    · exact .queue (.of_device updateSelected_device) rfl
    · exact .of_device updateSelected_device

theorem KeepsFeatures.writeQueueReady (value : BitVec 32) :
    KeepsFeatures m (m.writeQueueReady value) := by
  unfold VirtIOMMIO.writeQueueReady
  split
  · exact .of_device rfl
  split
  · exact .of_device rfl
  split
  · exact .of_device rfl
  dsimp only
  split
  · split
    · exact .queue (.of_device updateSelected_device) rfl
    · exact .queue (.of_device updateSelected_device) updateSelected_device
  · exact .of_device updateSelected_device

theorem KeepsFeatures.writeConfig {offset len : Nat} {v : WordType} :
    KeepsFeatures m { m with device := m.device.writeConfig offset len v } := by
  unfold VirtIOBlkDevice.writeConfig
  split <;> exact ⟨rfl, rfl, rfl, rfl⟩

theorem tryFrom_status {offset : Nat} :
    VirtIOMMIOOffset.tryFrom offset = some .status ↔ offset = 0x70 := by
  constructor
  · unfold VirtIOMMIOOffset.tryFrom
    split <;> simp
  · rintro rfl
    rfl

/-- Of all registers only `Status` reaches the features of the device, and only
with a value other than zero. -/
theorem writeU32Impl_features {value : BitVec 32} {offset : Nat}
    (h : m.writeU32Impl isr offset value = .ok out)
    (hoffset : offset < VIRTIO_MMIO_CONFIG_OFFSET) :
    (offset = 0x70 ∧ value ≠ 0 ∧ out.mmio = m.writeStatus value) ∨
      KeepsFeatures m out.mmio ∧ (offset = 0x70 → value = 0) := by
  unfold writeU32Impl at h
  split at h
  · cases h
  rw [if_neg (Nat.not_le.2 hoffset)] at h
  split at h
  · next hreg =>
      cases h
      refine .inr ⟨.of_device rfl, fun hstatus => ?_⟩
      rw [tryFrom_status.2 hstatus] at hreg
      cases hreg
  · next reg hreg =>
      split at h
      case h_9 =>
        have hstatus : offset = 0x70 := tryFrom_status.1 hreg
        split at h
        · next hzero =>
            cases h
            exact .inr ⟨.of_device rfl, fun _ => hzero⟩
        · next hne =>
            cases h
            exact .inl ⟨hstatus, hne, rfl⟩
      all_goals
        have hother : offset = 0x70 → value = 0 := fun hstatus => by
          rw [tryFrom_status.2 hstatus] at hreg
          cases hreg
        first
        | (cases h; exact .inr ⟨.of_device rfl, hother⟩)
        | (cases h; exact .inr ⟨.of_device updateSelected_device, hother⟩)
        | (cases h; exact .inr ⟨.writeQueueNum _, hother⟩)
        | (cases h; exact .inr ⟨.writeQueueReady _, hother⟩)
        | (split at h <;> cases h <;> exact .inr ⟨.of_device rfl, hother⟩)
        | cases h

theorem write_features (h : m.write isr w addr data = .ok (.ok out)) :
    (w = .u32 ∧ addr = 0x70 ∧ data.setWidth 32 ≠ 0#32 ∧
        out.mmio = m.writeStatus (data.setWidth 32)) ∨
      KeepsFeatures m out.mmio ∧ (w = .u32 → addr = 0x70 → data.setWidth 32 = 0#32) := by
  rcases write_cases h with ⟨haddr, rfl⟩ | ⟨haddr, hu32, hr⟩
  · refine .inr ⟨.writeConfig, fun _ hstatus => ?_⟩
    rw [hstatus] at haddr
    exact absurd haddr (by decide)
  · rcases writeU32Impl_features hr haddr with ⟨hstatus, hne, hout⟩ | ⟨hkeep, hzero⟩
    · exact .inl ⟨hu32, BitVec.eq_of_toNat_eq hstatus, hne, hout⟩
    · refine .inr ⟨hkeep, fun _ hstatus => hzero ?_⟩
      rw [hstatus]
      rfl

open VirtIOBlkDevice (featuresOk)

/-- An attempt ends with the features taken over, or with the bit cleared. -/
theorem writeStatus_offer {value : BitVec 32} (h : OffersFeatures (value.setWidth 8)) :
    (Acceptable m.device.hostFeature m.guestFeatures ∧
        (m.writeStatus value).device.guestFeature = m.guestFeatures) ∨
      (m.writeStatus value).device.status &&& featuresOk = 0 := by
  unfold writeStatus VirtIOBlkDevice.setFeature
  dsimp only
  rw [if_neg (not_not.2 h.1), if_pos h.2]
  split
  · right
    rw [BitVec.and_assoc]
    exact BitVec.and_zero
  · next hok =>
      rw [not_or, not_not] at hok
      exact .inl ⟨hok, rfl⟩

theorem or_and {n : Nat} (a b c : BitVec n) : (a ||| b) &&& c = (a &&& c) ||| (b &&& c) := by
  ext i
  simp [Bool.and_or_distrib_right]

/-- Any other status leaves the bit and the features as they are. -/
theorem writeStatus_other {value : BitVec 32} (h : ¬ OffersFeatures (value.setWidth 8)) :
    (m.writeStatus value).device.guestFeature = m.device.guestFeature ∧
      (m.writeStatus value).device.status &&& featuresOk = m.device.status &&& featuresOk := by
  unfold writeStatus
  dsimp only
  split
  · exact ⟨rfl, rfl⟩
  · next hdefined =>
      have hbit : value.setWidth 8 &&& featuresOk = 0 :=
        not_not.1 fun hbit => h ⟨not_not.1 hdefined, hbit⟩
      rw [if_neg (not_not.2 hbit)]
      refine ⟨rfl, ?_⟩
      rw [or_and, hbit]
      exact BitVec.or_zero

theorem writeStatus_host (value : BitVec 32) :
    (m.writeStatus value).device.hostFeature = m.device.hostFeature ∧
      (m.writeStatus value).device.generation = m.device.generation := by
  unfold writeStatus VirtIOBlkDevice.setFeature
  dsimp only
  split
  · exact ⟨rfl, rfl⟩
  · split
    · split <;> exact ⟨rfl, rfl⟩
    · exact ⟨rfl, rfl⟩

/-- A write of a word to `Status` is not refused. -/
theorem write_status_ne_error {isr : BitVec 8} {data : WordType} {e : DeviceError} :
    m.write isr .u32 0x70 data ≠ .ok (.error e) := by
  intro h
  unfold write at h
  rw [if_neg (by decide), if_neg (by decide)] at h
  simp only [bind, Except.bind] at h
  split at h <;> cases h

end VirtIOMMIO

namespace BlockSystem

open VirtIOMMIO (Acceptable OffersFeatures writeStatus_host)
open VirtIOBlkDevice (featuresOk)

variable {s s' t : BlockSystem} {e : BlockEvent} {a : BlockAction} {es : List BlockEvent}
  {os : List BlockAction} {host : VirtIOFeatureSet} {last : Option VirtIOFeatureSet}

/-- What the host offers does not change. -/
theorem step_host (h : s.step e = .ok (a, s')) :
    s'.mmio.device.hostFeature = s.mmio.device.hostFeature ∧
      s'.mmio.device.generation = s.mmio.device.generation := by
  cases e with
  | write w addr data =>
    rcases step_write h with ⟨_, rfl, _⟩ | ⟨_, _, rfl, _⟩ | ⟨out, _, _, hwrite, rfl⟩
    · exact ⟨rfl, rfl⟩
    · exact ⟨rfl, rfl⟩
    rcases VirtIOMMIO.write_features hwrite with ⟨_, _, _, hout⟩ | ⟨hkeep, _⟩
    · rw [hout]
      exact writeStatus_host _
    · exact ⟨hkeep.host, hkeep.generation⟩
  | read w addr | guest mem | device | worker io => cases step_turn h <;> exact ⟨rfl, rfl⟩

/-- The features the driver offers with an event: those in the transport when
it writes a status with `FEATURES_OK` that is accepted as a status. -/
def offered (s : BlockSystem) : BlockEvent → Option VirtIOFeatureSet
  | .write .u32 addr data =>
    if s.thread = .idle ∧ addr = 0x70 ∧ OffersFeatures ((data.setWidth 32).setWidth 8) then
      some s.mmio.guestFeatures
    else none
  | _ => none

/-- The bit stands for the last attempt. -/
structure Negotiated (host : VirtIOFeatureSet) (last : Option VirtIOFeatureSet) (s : BlockSystem) :
    Prop where
  accepted : s.mmio.device.status &&& featuresOk ≠ 0 →
    Acceptable host s.mmio.device.guestFeature ∧ last = some s.mmio.device.guestFeature
  host : s.mmio.device.hostFeature = host

theorem Negotiated.keeps (hs : s.Negotiated host last)
    (hkeep : VirtIOMMIO.KeepsFeatures s.mmio s'.mmio) : s'.Negotiated host last := by
  refine ⟨fun hbit => ?_, hkeep.host.trans hs.host⟩
  rw [hkeep.status] at hbit
  rw [hkeep.guest]
  exact hs.accepted hbit

theorem Negotiated.write {w : Width} {addr data : WordType} (hs : s.Negotiated host last)
    (h : s.step (.write w addr data) = .ok (a, s')) :
    s'.Negotiated host ((s.offered (.write w addr data)).or last) := by
  by_cases hoffer : s.thread = .idle ∧ w = .u32 ∧ addr = 0x70 ∧
      OffersFeatures ((data.setWidth 32).setWidth 8)
  · obtain ⟨hidle, rfl, rfl, hoffers⟩ := hoffer
    have hobs : s.offered (.write .u32 0x70 data) = some s.mmio.guestFeatures :=
      if_pos ⟨hidle, rfl, hoffers⟩
    have hne : data.setWidth 32 ≠ 0#32 := by
      intro hzero
      rw [hzero] at hoffers
      exact hoffers.2 rfl
    rw [hobs, Option.some_or]
    rcases step_write h with ⟨_, _, hnot⟩ | ⟨_, _, _, hrefused⟩ | ⟨out, _, _, hwrite, rfl⟩
    · exact absurd hidle hnot
    · exact absurd hrefused VirtIOMMIO.write_status_ne_error
    rcases VirtIOMMIO.write_features hwrite with ⟨_, _, _, hout⟩ | ⟨_, hzero⟩
    · refine ⟨fun hbit => ?_, (step_host h).1.trans hs.host⟩
      rw [hout] at hbit ⊢
      rcases VirtIOMMIO.writeStatus_offer hoffers with ⟨hok, hguest⟩ | hclear
      · rw [hs.host] at hok
        rw [hguest]
        exact ⟨hok, rfl⟩
      · exact absurd hclear hbit
    · exact absurd (hzero rfl rfl) hne
  · have hobs : s.offered (.write w addr data) = none := by
      cases w with
      | u32 => exact if_neg fun hall => hoffer ⟨hall.1, rfl, hall.2⟩
      | u8 | u16 | u64 => rfl
    rw [hobs, Option.none_or]
    rcases step_write h with ⟨_, rfl, _⟩ | ⟨_, _, rfl, _⟩ | ⟨out, _, hidle, hwrite, rfl⟩
    · exact hs
    · exact hs
    rcases VirtIOMMIO.write_features hwrite with ⟨hw, haddr, _, hout⟩ | ⟨hkeep, _⟩
    · have hother : ¬ OffersFeatures ((data.setWidth 32).setWidth 8) :=
        fun hoffers => hoffer ⟨hidle, hw, haddr, hoffers⟩
      obtain ⟨hguest, hbit⟩ := VirtIOMMIO.writeStatus_other (m := s.mmio) hother
      refine ⟨fun hset => ?_, (step_host h).1.trans hs.host⟩
      rw [hout, hbit] at hset
      rw [hout, hguest]
      exact hs.accepted hset
    · exact hs.keeps hkeep

theorem Negotiated.step (hs : s.Negotiated host last) (h : s.step e = .ok (a, s')) :
    s'.Negotiated host ((s.offered e).or last) := by
  cases e with
  | write w addr data => exact hs.write h
  | device =>
    cases step_turn h with
    | finishReset => exact ⟨fun hbit => absurd BitVec.zero_and hbit, hs.host⟩
    | _ => exact hs.keeps ⟨rfl, rfl, rfl, rfl⟩
  | read w addr | guest mem | worker io =>
    cases step_turn h <;> exact hs.keeps ⟨rfl, rfl, rfl, rfl⟩

theorem step_read_status {v : WordType}
    (h : s.step (.read .u32 0x70) = .ok (.answer (.ok v), s')) :
    v = (s.mmio.device.status.setWidth 32).setWidth 64 := by
  simp only [step, guestRead] at h
  split at h <;> cases h
  rfl

theorem bit_of_status : ∀ status : BitVec 8, status &&& featuresOk = 0 →
    (status.setWidth 32).setWidth 64 &&& 8#64 = 0 := by decide

/-- What the driver reads from `Status`, in whatever state the device got into:
if `FEATURES_OK` is set, the features the device has accepted are acceptable
and are those the transport held at the last attempt; if the last attempt was
not acceptable, the bit is clear. -/
theorem features_ok_reads (hostFeature : VirtIOFeatureSet) (generation : BitVec 32)
    (sectors : WordType) (file : BackingFile) (mem : Nat → BitVec 8) {v : WordType}
    (hrun : runAll step (new hostFeature generation sectors file mem) es = .ok (os, t))
    (hread : t.step (.read .u32 0x70) = .ok (.answer (.ok v), s')) :
    (v &&& 8 ≠ 0 → t.mmio.device.hostFeature = hostFeature ∧
        Acceptable hostFeature t.mmio.device.guestFeature ∧
        lastObserved step offered
          (new hostFeature generation sectors file mem) es = some t.mmio.device.guestFeature) ∧
      ∀ f, lastObserved step offered
          (new hostFeature generation sectors file mem) es = some f →
        ¬ Acceptable hostFeature f → v &&& 8 = 0 := by
  have hkeep : ∀ l s e a s', Negotiated hostFeature l s → step s e = .ok (a, s') →
      Negotiated hostFeature ((s.offered e).or l) s' := fun _ _ _ _ _ hs h => hs.step h
  have hnew : Negotiated hostFeature none
      (new hostFeature generation sectors file mem) :=
    ⟨fun hbit => absurd BitVec.zero_and hbit, rfl⟩
  have hinv := runAll_last hkeep hnew hrun
  rw [Option.or_none] at hinv
  have hv : v &&& 8 ≠ 0 → t.mmio.device.status &&& featuresOk ≠ 0 := by
    rw [step_read_status hread]
    exact mt (bit_of_status t.mmio.device.status)
  refine ⟨fun hbit => ?_, fun f hlast hbad => ?_⟩
  · exact ⟨hinv.host, hinv.accepted (hv hbit)⟩
  · by_contra hbit
    obtain ⟨hok, hlast'⟩ := hinv.accepted (hv hbit)
    rw [hlast] at hlast'
    cases hlast'
    exact hbad hok

/-- The driver chooses `VERSION_1`, the only feature on offer, and goes up to
`FEATURES_OK`. -/
def negotiate : List BlockEvent :=
  [.write .u32 0x70 1, .write .u32 0x70 3, .write .u32 0x24 1, .write .u32 0x20 1,
    .write .u32 0x70 11]

theorem features_ok_reads_negotiated : ∃ os t v,
    runAll step oneSector negotiate = .ok (os, t) ∧
      t.step (.read .u32 0x70) = .ok (.answer (.ok v), t) ∧ v &&& 8 ≠ 0 ∧
      Acceptable VERSION_1 t.mmio.device.guestFeature ∧
      lastObserved step offered oneSector negotiate = some t.mmio.device.guestFeature := by
  refine ⟨_, _, 11, rfl, rfl, by decide, ?_⟩
  exact ((features_ok_reads VERSION_1 0 1 ⟨fun _ => 0, 512⟩ (fun _ => 0) rfl rfl).1 (by decide)).2

end BlockSystem

end HereEmu
