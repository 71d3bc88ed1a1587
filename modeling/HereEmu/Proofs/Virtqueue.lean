import HereEmu.Device.Virtio.Queue
import HereEmu.Lib.Loop
import Mathlib.Data.Finset.Prod

/-!
# Walking a descriptor chain

What `try_get` does is said once, in `tryGet_cases`: it ends the walk, or it
hands out a descriptor with its buffer in RAM, read from the table the walk is
in or from the first place of an indirect table it switches to. It never
indexes a table out of bounds.

A switch forgets the state of the walk: the handle after it depends on the new
table and nothing else, and the budget of descriptors starts afresh. So the
walk is a loop whose entries are the switches (`Lib.Loop`), and it returns if
and only if it never switches to the same table twice. The source has no guard
against that.
-/

namespace HereEmu

open Lib VirtQueueDesc VirtQueueDescFlag VirtQueueDescHandle

theorem DescTable.InRam.len_le {t : DescTable} (h : t.InRam) : t.len ≤ SIZE / bytes := by
  rw [Nat.le_div_iff_mul_le (by decide), Nat.mul_comm]
  exact (Nat.le_add_left _ _).trans h.fits

namespace VirtQueueDescHandle

variable {mem : Nat → BitVec 8} {h h' : VirtQueueDescHandle} {t : DescTable} {d : VirtQueueDesc}

/-- The table `try_get` switches to, if it does. -/
def entered (mem : Nat → BitVec 8) (h : VirtQueueDescHandle) : Option DescTable :=
  let cur := load mem (h.table.base + bytes * h.idx)
  if h.idx < h.table.len ∧ h.remaining ≠ 0 ∧ cur.contains indirect then
    cur.indirectTable
  else none

/-- The walk at the start of a table. -/
def start (t : DescTable) : VirtQueueDescHandle := ⟨t, 0, t.len⟩

/-- The handle the descriptor is taken from. -/
def current (mem : Nat → BitVec 8) (h : VirtQueueDescHandle) : VirtQueueDescHandle :=
  (h.entered mem).elim h start

/-- `try_get` hands out `d` and leaves `h'`. -/
structure Visits (mem : Nat → BitVec 8) (h : VirtQueueDescHandle) (d : VirtQueueDesc)
    (h' : VirtQueueDescHandle) : Prop where
  idx_lt : (h.current mem).idx < (h.current mem).table.len
  remaining : (h.current mem).remaining ≠ 0
  desc : d = .load mem ((h.current mem).table.base + bytes * (h.current mem).idx)
  inRam : d.bufferInRam
  handle : h' = ⟨(h.current mem).table,
    if d.hasNext then d.next.toNat else (h.current mem).table.len, (h.current mem).remaining - 1⟩

theorem DescTable.get_of_lt (mem : Nat → BitVec 8) {i : Nat} (hi : i < t.len) :
    t.get mem i = .ok (.load mem (t.base + bytes * i)) := if_pos hi

/-- The second half of `try_get`, at a handle that has a current descriptor. -/
theorem advance_cases {cur : VirtQueueDescHandle} (hcur : h.current mem = cur)
    (htry : h.tryGet mem = cur.advance mem) (hidx : cur.idx < cur.table.len)
    (hrem : cur.remaining ≠ 0) :
    (∃ h', h.tryGet mem = .ok (none, h')) ∨
      ∃ d h', h.tryGet mem = .ok (some d, h') ∧ Visits mem h d h' := by
  subst hcur
  rw [htry]
  simp only [advance, DescTable.get_of_lt mem hidx, if_neg hrem, bind, Except.bind, pure, Except.pure]
  by_cases hram : (load mem ((h.current mem).table.base + bytes * (h.current mem).idx)).bufferInRam
  · exact .inr ⟨_, _, if_pos hram, hidx, hrem, rfl, hram, rfl⟩
  · exact .inl ⟨_, if_neg hram⟩

/-- A switch leaves nothing of the handle it was made in. -/
theorem tryGet_of_entered (ht : h.entered mem = some t) : h.tryGet mem = (start t).advance mem := by
  unfold entered at ht
  dsimp only at ht
  split at ht
  · next hlive =>
      obtain ⟨hidx, hrem, hind⟩ := hlive
      simp only [tryGet, if_pos (And.intro hidx hrem), DescTable.get_of_lt mem hidx, bind, Except.bind,
        hind, if_true, getIndirect, ht, Option.map_some, pure, Except.pure]
      rfl
  · cases ht

theorem entered_inRam (ht : h.entered mem = some t) : t.InRam ∧ t.len ≠ 0 := by
  unfold entered at ht
  dsimp only at ht
  split at ht
  · exact indirectTable_inRam ht
  · cases ht

/-- What `try_get` does: the walk ends, or a descriptor is handed out. -/
theorem tryGet_cases (mem : Nat → BitVec 8) (h : VirtQueueDescHandle) :
    (∃ h', h.tryGet mem = .ok (none, h')) ∨
      ∃ d h', h.tryGet mem = .ok (some d, h') ∧ Visits mem h d h' := by
  cases ht : h.entered mem with
  | some t =>
    have hcur : h.current mem = start t := by simp [current, ht]
    have hlen : t.len ≠ 0 := (entered_inRam ht).2
    exact advance_cases hcur (tryGet_of_entered ht) (Nat.pos_of_ne_zero hlen) hlen
  | none =>
    have hcur : h.current mem = h := by simp [current, ht]
    by_cases hlive : h.idx < h.table.len ∧ h.remaining ≠ 0
    · have hget := DescTable.get_of_lt mem hlive.1
      have htry : h.tryGet mem = .ok (none, { h with remaining := 0 }) ∨
          h.tryGet mem = h.advance mem := by
        simp only [tryGet, if_pos hlive, hget, bind, Except.bind, getIndirect, pure, Except.pure]
        split
        · next hind =>
            -- an indirect descriptor that was not followed is one that was refused
            have href : (load mem (h.table.base + bytes * h.idx)).indirectTable = none := by
              simpa [entered, hlive, hind] using ht
            exact .inl (by rw [href]; rfl)
        · exact .inr rfl
      rcases htry with htry | htry
      · exact .inl ⟨_, htry⟩
      · exact advance_cases hcur htry hlive.1 hlive.2
    · exact .inl ⟨h, by simp only [tryGet, if_neg hlive]; rfl⟩

/-- One turn of the loop of `take_one_request`. -/
def next (mem : Nat → BitVec 8) (h : VirtQueueDescHandle) : Option VirtQueueDescHandle :=
  match h.tryGet mem with
  | .ok (some _, h') => some h'
  | _ => none

theorem next_eq_some (hn : h.next mem = some h') : ∃ d, h.tryGet mem = .ok (some d, h') ∧
    Visits mem h d h' := by
  unfold next at hn
  rcases tryGet_cases mem h with ⟨_, htry⟩ | ⟨d, _, htry, hv⟩
  · rw [htry] at hn
    cases hn
  · rw [htry] at hn
    cases hn
    exact ⟨d, htry, hv⟩

/-! ## Termination -/

/-- The tables of aligned descriptors in a RAM of some size. Nobody should count them. -/
@[irreducible] def tables (size : Nat) : Finset DescTable :=
  (Finset.range (size / align) ×ˢ Finset.range (size / bytes + 1)).image
    fun p => ⟨align * p.1, p.2⟩

theorem card_tables_le (size : Nat) : (tables size).card ≤ size / align * (size / bytes + 1) := by
  unfold tables
  refine Finset.card_image_le.trans ?_
  rw [Finset.card_product, Finset.card_range, Finset.card_range]

theorem mem_tables {size : Nat} (hfits : t.base + bytes * t.len ≤ size)
    (halign : t.base % align = 0) (hlen : t.len ≠ 0) : t ∈ tables size := by
  unfold tables
  refine Finset.mem_image.2 ⟨(t.base / align, t.len), ?_, ?_⟩
  · simp only [bytes, align, Finset.mem_product, Finset.mem_range] at *
    constructor <;> omega
  · simp only [Nat.mul_div_cancel' (Nat.dvd_of_mod_eq_zero halign)]

/-- The budget ranks the walk between two switches. -/
theorem walk_ranked (mem : Nat → BitVec 8) : RankedBy (next mem) (entered mem)
    remaining (tables SIZE) (SIZE / bytes) where
  lower := by
    intro s t hnone hs
    obtain ⟨d, _, hv⟩ := next_eq_some hs
    have hcur : s.current mem = s := by simp [current, hnone]
    have hrem := hv.remaining
    have hh := hv.handle
    rw [hcur] at hrem hh
    rw [hh]
    dsimp only
    omega
  entry := by
    intro s t k hk hs
    obtain ⟨d, _, hv⟩ := next_eq_some hs
    have hcur : s.current mem = start k := by simp [current, hk]
    have hh := hv.handle
    rw [hcur] at hh
    have hrem : t.remaining = k.len - 1 := by rw [hh]; rfl
    rw [hrem]
    exact (Nat.sub_le _ _).trans (entered_inRam hk).1.len_le
  key := fun _ _ hk =>
    have hram := entered_inRam hk
    mem_tables hram.1.fits hram.1.aligned hram.2

/-- After a switch the walk goes on alike. -/
theorem next_eq_of_entered {u : VirtQueueDescHandle} (hh : h.entered mem = some t)
    (hu : u.entered mem = some t) : h.next mem = u.next mem := by
  unfold next
  rw [tryGet_of_entered hh, tryGet_of_entered hu]

end VirtQueueDescHandle

namespace VirtQueue

variable {σ : Type} {mem : Nat → BitVec 8} {q q' : VirtQueue}

/-- A callback that does not panic. -/
def calling (f : σ → VirtQueueDesc → Nat → σ) : σ → VirtQueueDesc → Nat → Rust σ :=
  fun s d i => .ok (f s d i)

/-- The loop returns on some fuel exactly when the walk is at its end by then. -/
theorem walk_isSome_iff (f : σ → VirtQueueDesc → Nat → σ) {fuel idx : Nat}
    {h : VirtQueueDescHandle} {s : σ} :
    (walk mem (calling f) fuel h idx s).isSome ↔ turns (VirtQueueDescHandle.next mem) fuel h = none := by
  induction fuel generalizing h idx s with
  | zero => simp [walk, turns]
  | succ fuel ih =>
    rcases h.tryGet_cases mem with ⟨h', htry⟩ | ⟨d, h', htry, _⟩
    · simp [walk, turns, VirtQueueDescHandle.next, htry]
    · simp [walk, turns, VirtQueueDescHandle.next, htry, calling, ih]

/-- The number of callbacks, as counted by a callback. -/
theorem walk_count {fuel idx n m : Nat} {h : VirtQueueDescHandle}
    (hw : walk mem (calling fun k _ _ => k + 1) fuel h idx n = some (.ok m)) :
    n ≤ m ∧ turns (VirtQueueDescHandle.next mem) (m - n) h ≠ none := by
  induction fuel generalizing h idx n with
  | zero => cases hw
  | succ fuel ih =>
    rw [walk] at hw
    rcases h.tryGet_cases mem with ⟨h', htry⟩ | ⟨d, h', htry, _⟩
    · rw [htry] at hw
      cases hw
      simp [turns]
    · rw [htry] at hw
      obtain ⟨hle, hne⟩ : n + 1 ≤ m ∧ _ := ih hw
      have hsplit : m - n = m - (n + 1) + 1 := by omega
      refine ⟨by omega, ?_⟩
      rw [hsplit, turns]
      simpa [VirtQueueDescHandle.next, htry] using hne

/-- The chain the next entry refers to comes back to an indirect table. -/
def Reenters (q : VirtQueue) (mem : Nat → BitVec 8) : Prop :=
  ∃ taken q', q.takeEntry mem = .ok (some taken, q') ∧
    Lib.Reenters (next mem) (entered mem) taken.handle

/-- The head in the slot of the available ring that is served next. -/
def nextHead (q : VirtQueue) (mem : Nat → BitVec 8) (avail : Nat) : BitVec 16 :=
  loadLE mem (avail + 4 + 2 * (q.lastAvailIdx.toNat % q.queueNum.toNat)) 2

/-- What has been taken when an entry was consumed. -/
def Took (q : VirtQueue) (mem : Nat → BitVec 8) (taken : Taken) : Prop :=
  ∃ desc avail used, q.desc = some desc ∧ q.avail = some avail ∧ q.used = some used ∧
    q.queueNum ≠ 0 ∧ taken.handle = .new desc q.queueNum.toNat (q.nextHead mem avail).toNat ∧
    taken.completion = ⟨used, q.queueNum, (q.nextHead mem avail).setWidth 32⟩ ∧
    q.lastAvailIdx ≠ VirtQueueAvail.idx mem avail

theorem ready_iff : q.ready ↔
    q.queueNum ≠ 0 ∧ q.desc.isSome ∧ q.avail.isSome ∧ q.used.isSome := by
  simp [ready, and_assoc]

/-- No entry is given, and then a queue that is ready has none, or the next one is. -/
theorem takeEntry_cases (q : VirtQueue) (mem : Nat → BitVec 8) :
    (q.takeEntry mem = .ok (none, q) ∧ ∀ avail, q.ready → q.avail = some avail →
        q.lastAvailIdx = VirtQueueAvail.idx mem avail) ∨
      ∃ taken, q.takeEntry mem = .ok (some taken, { q with lastAvailIdx := q.lastAvailIdx + 1 }) ∧
        q.Took mem taken := by
  generalize hout : q.takeEntry mem = out
  unfold takeEntry at hout
  split at hout
  · next desc avail used hdesc havail hused =>
      split at hout
      · next hnum =>
          subst hout
          exact .inl ⟨rfl, fun _ hready _ => absurd hnum (ready_iff.1 hready).1⟩
      · next hnum =>
          rw [VirtQueueAvail.tryGetDescIdx_eq hnum] at hout
          by_cases hempty : q.lastAvailIdx = VirtQueueAvail.idx mem avail
          · rw [if_pos hempty] at hout
            subst hout
            refine .inl ⟨rfl, fun _ _ h => ?_⟩
            cases havail.symm.trans h
            exact hempty
          · rw [if_neg hempty] at hout
            subst hout
            refine .inr ⟨_, rfl, desc, avail, used, hdesc, havail, hused, hnum, rfl, ?_, hempty⟩
            simp [VirtQueueDescHandle.getEntryIdx, VirtQueueDescHandle.new, nextHead]
  · next hnone =>
      subst hout
      refine .inl ⟨rfl, fun avail hready havail => ?_⟩
      obtain ⟨_, hdesc, _, hused⟩ := ready_iff.1 hready
      obtain ⟨desc, hdesc⟩ := Option.isSome_iff_exists.1 hdesc
      obtain ⟨used, hused⟩ := Option.isSome_iff_exists.1 hused
      exact (hnone desc avail used hdesc havail hused).elim

theorem takeEntry_eq_some {taken : Taken} (h : q.takeEntry mem = .ok (some taken, q')) :
    q.Took mem taken ∧ q' = { q with lastAvailIdx := q.lastAvailIdx + 1 } := by
  rcases q.takeEntry_cases mem with ⟨h', _⟩ | ⟨_, h', htook⟩
  · cases h'.symm.trans h
  · cases h'.symm.trans h
    exact ⟨htook, rfl⟩

/-- As many descriptors as the queue has, and once more for every indirect table RAM has room for. -/
def callbackBound (queueNum : Nat) : Nat :=
  SIZE / align * (SIZE / bytes + 1) * (SIZE / bytes + 1) + queueNum

/-- A chain that comes back to no table is at its end after that many turns. -/
theorem turns_of_not_reenters {h : VirtQueueDescHandle}
    (hre : ¬ Lib.Reenters (next mem) (entered mem) h) :
    turns (next mem) (callbackBound h.remaining + 1) h = none := by
  have hr := walk_ranked mem
  refine turns_eq_none_of_le ?_ (hr.ends _ (fun _ t k _ hk => hr.key t k hk) hre)
  refine Nat.add_le_add_right (Nat.add_le_add_right ?_ _) 1
  exact Nat.mul_le_mul_right _ (card_tables_le SIZE)

/-- Whether the call returns is whether the walk of the entry it consumes ends. -/
theorem takeOneRequest_isSome_iff (f : σ → VirtQueueDesc → Nat → σ) {s : σ} {fuel : Nat} :
    (q.takeOneRequest mem (calling f) s fuel).isSome ↔
      ∀ taken q', q.takeEntry mem = .ok (some taken, q') →
        turns (next mem) fuel taken.handle = none := by
  unfold takeOneRequest
  split
  · next hq => simp [hq]
  · next hq => simp [hq]
  · next taken q' hq =>
      rw [Option.isSome_map, walk_isSome_iff, hq]
      constructor
      · rintro h _ _ heq
        cases heq
        exact h
      · exact fun h => h taken q' rfl

/-- Consuming an entry does not panic. -/
theorem takeEntry_ok (q : VirtQueue) (mem : Nat → BitVec 8) : ∃ out, q.takeEntry mem = .ok out := by
  rcases q.takeEntry_cases mem with ⟨h, _⟩ | ⟨_, h, _⟩ <;> exact ⟨_, h⟩

/-- The three rings, for the size in use, lie in RAM. -/
def RingsInRam (q : VirtQueue) : Prop :=
  ∃ desc avail used, q.desc = some desc ∧ q.avail = some avail ∧ q.used = some used ∧
    desc + descBytes q.queueNum ≤ SIZE ∧ avail + availBytes q.queueNum ≤ SIZE ∧
    used + usedBytes q.queueNum ≤ SIZE

theorem takeEntry_remaining {taken : Taken} (h : q.takeEntry mem = .ok (some taken, q')) :
    taken.handle.remaining = q.queueNum.toNat := by
  obtain ⟨_, _, _, _, _, _, _, hhandle, _⟩ := (takeEntry_eq_some h).1
  rw [hhandle]
  rfl

/-- Taking a request returns if and only if its chain never switches to the
same indirect table twice, and then the size of the queue and of RAM bound how
often the callback is called. -/
theorem takeOneRequest_returns_iff (q : VirtQueue) (mem : Nat → BitVec 8)
    (f : σ → VirtQueueDesc → Nat → σ) (s : σ) :
    ((∃ fuel, (q.takeOneRequest mem (calling f) s fuel).isSome) ↔ ¬ q.Reenters mem) ∧
      (¬ q.Reenters mem →
        (q.takeOneRequest mem (calling f) s (callbackBound q.queueNum.toNat + 1)).isSome) ∧
      ∀ fuel completion q' calls,
        q.takeOneRequest mem (calling fun n _ _ => n + 1) 0 fuel =
          some (.ok (completion, q', calls)) → calls ≤ callbackBound q.queueNum.toNat := by
  have hbound : ¬ q.Reenters mem →
      (q.takeOneRequest mem (calling f) s (callbackBound q.queueNum.toNat + 1)).isSome := by
    intro hre
    rw [takeOneRequest_isSome_iff]
    intro taken q' hq
    rw [← takeEntry_remaining hq]
    exact turns_of_not_reenters fun h => hre ⟨taken, q', hq, h⟩
  have hdiverges : ∀ taken q', q.takeEntry mem = .ok (some taken, q') → ∀ fuel,
      turns (next mem) fuel taken.handle = none →
        ¬ Lib.Reenters (next mem) (entered mem)
          taken.handle :=
    fun _ _ _ fuel hend hre =>
      hre.turns_ne_none (fun _ _ _ => next_eq_of_entered) fuel hend
  refine ⟨⟨?_, fun hre => ⟨_, hbound hre⟩⟩, hbound, ?_⟩
  · rintro ⟨fuel, hsome⟩ ⟨taken, q', hq, hre⟩
    exact hdiverges taken q' hq fuel ((takeOneRequest_isSome_iff f).1 hsome taken q' hq) hre
  · intro fuel completion q' calls hrun
    have hsome : (q.takeOneRequest mem (calling fun n _ _ => n + 1) 0 fuel).isSome := by
      rw [hrun]; rfl
    unfold takeOneRequest at hrun
    split at hrun
    · cases hrun
    · cases hrun
      exact Nat.zero_le _
    · next taken q₁ hq =>
        have hend := (takeOneRequest_isSome_iff _).1 hsome taken q₁ hq
        have hdone := turns_of_not_reenters (hdiverges taken q₁ hq fuel hend)
        rw [takeEntry_remaining hq] at hdone
        obtain ⟨r, hwalk, hr⟩ := Option.map_eq_some_iff.1 hrun
        cases r with
        | error p => cases hr
        | ok n =>
          cases hr
          obtain ⟨_, hne⟩ := walk_count hwalk
          by_contra hlt
          exact hne (turns_eq_none_of_le (by omega) hdone)

end VirtQueue

/-! ## Two chains -/

/-- Memory with a descriptor at an offset. -/
def VirtQueueDesc.place (d : VirtQueueDesc) (a : Nat) (mem : Nat → BitVec 8) : Nat → BitVec 8 :=
  storeLE (storeLE (storeLE (storeLE mem a 8 d.paddr) (a + 8) 4 d.len) (a + 12) 2 d.flags)
    (a + 14) 2 d.next

/-- A queue of one entry: descriptors at offset 0, available ring at 0x40, used ring at 0x48. -/
def chainQueue : VirtQueue :=
  ⟨1, 0, BASE_ADDR, some 0, BASE_ADDR + 0x40, some 0x40, BASE_ADDR + 0x48, some 0x48⟩

/-- Memory in which the driver has made one entry available. -/
def chainMem (d : VirtQueueDesc) : Nat → BitVec 8 :=
  d.place 0 (storeLE (fun _ => 0) 0x42 2 1#16)

namespace VirtQueue

theorem takeOneRequest_returns_iff_single :
    ¬ chainQueue.Reenters (chainMem ⟨BASE_ADDR, 16, 0, 0⟩) ∧
      (chainQueue.takeOneRequest (chainMem ⟨BASE_ADDR, 16, 0, 0⟩) (calling fun n _ _ => n + 1) 0
        (callbackBound 1 + 1)).isSome := by
  have h := takeOneRequest_returns_iff chainQueue (chainMem ⟨BASE_ADDR, 16, 0, 0⟩)
    (fun n _ _ => n + 1) 0
  have hre := h.1.1 ⟨2, by decide +kernel⟩
  exact ⟨hre, h.2.1 hre⟩

/-- An indirect table whose second descriptor refers back to the table. -/
def cyclicMem : Nat → BitVec 8 :=
  place ⟨BASE_ADDR, 16, VirtQueueDescFlag.next, 1⟩ 0x20
    (place ⟨BASE_ADDR + 0x20, 32, indirect, 0⟩ 0x30 (chainMem ⟨BASE_ADDR + 0x20, 32, indirect, 0⟩))

theorem takeOneRequest_cyclic : ¬ ∃ fuel,
    (chainQueue.takeOneRequest cyclicMem (calling fun n _ _ => n + 1) 0 fuel).isSome := by
  rintro ⟨fuel, hsome⟩
  have hre : Lib.Reenters (next cyclicMem)
      (entered cyclicMem) ⟨⟨0, 1⟩, 0, 1⟩ :=
    ⟨0, 1, ⟨⟨0, 1⟩, 0, 1⟩, ⟨⟨0x20, 2⟩, 1, 1⟩, ⟨0x20, 2⟩, by omega, rfl, by decide +kernel,
      by decide +kernel, by decide +kernel⟩
  have hq : chainQueue.takeEntry cyclicMem = .ok (some ⟨⟨⟨0, 1⟩, 0, 1⟩, ⟨0x48, 1, 0⟩⟩,
      { chainQueue with lastAvailIdx := 1 }) := by decide +kernel
  exact hre.turns_ne_none (fun _ _ _ => next_eq_of_entered) fuel
    ((takeOneRequest_isSome_iff _).1 hsome _ _ hq)

end VirtQueue

end HereEmu
