import HereEmu.Lib.Run
import HereEmu.Proofs.AdPolicy
import HereEmu.Proofs.RefWalk

/-!
# Runs of the walker, with and without its TLB

A run is a sequence of translations, flushes, changes of mode and root that
are followed by a flush, and writes to RAM by others. The TLB is transparent
on such a run as long as nobody uses a cached leaf whose path was written to.

What "was written to" means needs a history, so the runs are taken with a set
of *stale* pages beside the state: a write makes a cached page stale when it
changes an entry the page is watched for, a flush makes nothing stale any
more, and a translation must not hit a stale page. Watching the whole path is
what transparency needs; watching the leaf alone is enough for what the walker
itself writes.
-/

namespace HereEmu

open Lib PageTableWalker PTEFlags DirectCache

/-! ## Runs -/

structure TlbState where
  walker : PageTableWalker
  ram : Ram

inductive TlbOp where
  | translate (va : WordType) (check : PermissionCheck) (effect : AccessEffect)
  | flushTlb
  /-- A change of mode and root, with the flush that follows it. -/
  | reconfigure (mode : VirtualMemoryMode) (root : WordType)
  /-- Any write to RAM that is not the walker's. -/
  | writeRam (f : Ram → Ram)

/-- What a step shows: the answer of a translation, and RAM after it. -/
abbrev TlbOut : Type := Option (Except PageTableError WordType) × Ram

def TlbState.exec (s : TlbState) : TlbOp → Rust (TlbOut × TlbState)
  | .translate va check effect =>
    match s.walker.translateVaddr s.ram va check effect with
    | .error p => .error p
    | .ok (r, w, ram) => .ok ((some r, ram), ⟨w, ram⟩)
  | .flushTlb => .ok ((none, s.ram), ⟨s.walker.flushTlb, s.ram⟩)
  | .reconfigure mode root =>
    .ok ((none, s.ram), ⟨({ s.walker with mode := mode }.setRootAddr root).flushTlb, s.ram⟩)
  | .writeRam f => .ok ((none, f s.ram), ⟨s.walker, f s.ram⟩)

/-- The same step by a walker that has nothing cached. -/
def TlbState.execFresh (s : TlbState) (op : TlbOp) : Rust (TlbOut × TlbState) :=
  TlbState.exec ⟨s.walker.flushTlb, s.ram⟩ op

/-! ## Stale pages -/

/-- The entries the walk for a page reads, in the walker's mode. -/
def PageTableWalker.visits (w : PageTableWalker) (mem : Ram) (vpn : WordType) : List WordType :=
  match w.mode with
  | .page39bit => walkVisits mem vpn (SvMode.sv39.LEVELS - 1) (fromPaddr w.rootAddress)
  | .page48bit => walkVisits mem vpn (SvMode.sv48.LEVELS - 1) (fromPaddr w.rootAddress)
  | .page57bit => walkVisits mem vpn (SvMode.sv57.LEVELS - 1) (fromPaddr w.rootAddress)
  | _ => []

/-- The entries a cached page depends on. -/
abbrev Watch : Type := TlbState → WordType → WalkInfo → List WordType

def watchPath : Watch := fun s k _ => s.walker.visits s.ram k

def watchLeaf : Watch := fun _ _ info => [info.leafPteAddr]

/-- Some watched entry of the cached page `k` differs between RAM and `ram'`. -/
def Touched (watch : Watch) (s : TlbState) (ram' : Ram) (k : WordType) : Prop :=
  ∃ info, s.walker.tlb.get k = some info ∧
    ∃ a ∈ watch s k info, ∃ j, PteByte a j ∧ ram'.data j ≠ s.ram.data j

def nextStale (watch : Watch) (s : TlbState) (stale : WordType → Prop) : TlbOp → WordType → Prop
  | .translate va _ _ => fun k => stale k ∧ k ≠ vpn va
  | .flushTlb => fun _ => False
  | .reconfigure _ _ => fun _ => False
  | .writeRam f => fun k => stale k ∨ Touched watch s (f s.ram) k

/-- A step, with the stale pages it leaves. -/
def staleStep (watch : Watch) (g : TlbState × (WordType → Prop)) (op : TlbOp) :
    Rust (TlbOut × TlbState × (WordType → Prop)) :=
  match g.1.exec op with
  | .error p => .error p
  | .ok (out, s') => .ok (out, s', nextStale watch g.1 g.2 op)

/-- A translation does not hit a stale page. -/
def HitsFresh (g : TlbState × (WordType → Prop)) : TlbOp → Prop
  | .translate va _ _ => ∀ info, g.1.walker.tlb.get (vpn va) = some info → ¬ g.2 (vpn va)
  | _ => True

theorem staleStep_eq_ok {watch : Watch} {g g' : TlbState × (WordType → Prop)} {op : TlbOp}
    {out : TlbOut} (h : staleStep watch g op = .ok (out, g')) :
    g.1.exec op = .ok (out, g'.1) ∧ g'.2 = nextStale watch g.1 g.2 op := by
  unfold staleStep at h
  split at h <;> cases h
  exact ⟨by assumption, rfl⟩

/-! ## What a translation does -/

section Translate

variable {w w' : PageTableWalker} {mem mem' : Ram} {va : WordType} {check : PermissionCheck}
  {effect : AccessEffect} {info : WalkInfo} {r : Except PageTableError WordType}

variable {k : WordType}

theorem walkPte_leaf (h : w.walkPte mem k = .ok (.ok info)) :
    ∃ pte, loadPte mem info.leafPteAddr = .ok (.ok pte) ∧ info.leafFlags = pte.flags := by
  have hleaf : ∀ i, walkPteFrom mem k i (fromPaddr w.rootAddress) = .ok (.ok info) →
      ∃ pte, loadPte mem info.leafPteAddr = .ok (.ok pte) ∧ info.leafFlags = pte.flags := by
    intro i hi
    obtain ⟨-, pte, hload, hflags, -⟩ := walkPteFrom_leaf hi
    exact ⟨pte, hload, hflags⟩
  unfold walkPte at h
  split at h
  · exact hleaf _ h
  · exact hleaf _ h
  · exact hleaf _ h
  · cases h

theorem walkPte_adLe (h : mem.AdLe mem') :
    Agree WalkInfo.AdLe (w.walkPte mem k) (w.walkPte mem' k) := by
  unfold walkPte
  split
  · exact walkPteFrom_adLe h
  · exact walkPteFrom_adLe h
  · exact walkPteFrom_adLe h
  · exact .panicked _

theorem walkPte_congr (h : ∀ a ∈ w.visits mem k, ∀ j, PteByte a j → mem.data j = mem'.data j) :
    w.walkPte mem' k = w.walkPte mem k := by
  unfold visits at h
  unfold walkPte
  cases hm : w.mode with
  | page39bit | page48bit | page57bit => rw [hm] at h; exact walkPteFrom_congr h
  | page32bit => rfl
  | none => rfl

theorem translateLeaf_of_fault (hp : permits check info.leafFlags)
    (hn : needAccessedDirty info effect ≠ (false, false)) (hpol : w.adUpdatePolicy = .faultOnClear) :
    w.translateLeaf mem va info check effect = .ok (.error .pageFault, w, mem) := by
  unfold translateLeaf
  rw [hp, applyAdPolicy_fault hn hpol]
  rfl

/-- Translating with a known leaf, in all its outcomes: the walker stays, and
either RAM stays or the leaf has got what the access asks for. -/
theorem translateLeaf_cases (w : PageTableWalker) (va : WordType) (check : PermissionCheck)
    (effect : AccessEffect) {pte : PageTableEntry}
    (hload : loadPte mem info.leafPteAddr = .ok (.ok pte)) :
    (permits check info.leafFlags = false ∧
      w.translateLeaf mem va info check effect = .ok (.error .privilegeFault, w, mem)) ∨
    (permits check info.leafFlags ∧ w.adUpdatePolicy = .faultOnClear ∧
      needAccessedDirty info effect ≠ (false, false) ∧
      w.translateLeaf mem va info check effect = .ok (.error .pageFault, w, mem)) ∨
    (permits check info.leafFlags ∧ w.adUpdatePolicy = .faultOnClear ∧
      needAccessedDirty info effect = (false, false) ∧
      w.translateLeaf mem va info check effect = .ok (.ok (leafPaddr info va), w, mem)) ∨
    (permits check info.leafFlags ∧ w.adUpdatePolicy = .autoSet ∧
      ∃ mem', (AdLe info.leafFlags pte.flags → PteUpdated mem mem' info.leafPteAddr
          (setNeeded (required effect).1 (required effect).2 pte)) ∧
        w.translateLeaf mem va info check effect = .ok (.ok (leafPaddr info va), w, mem')) := by
  cases hp : permits check info.leafFlags with
  | false => exact .inl ⟨rfl, translateLeaf_of_not_permits hp⟩
  | true =>
    refine .inr ?_
    cases hpol : w.adUpdatePolicy with
    | faultOnClear =>
      by_cases hn : needAccessedDirty info effect = (false, false)
      · exact .inr (.inl ⟨rfl, rfl, hn, translateLeaf_of_no_need hp hn⟩)
      · exact .inl ⟨rfl, rfl, hn, translateLeaf_of_fault hp hn hpol⟩
    | autoSet =>
      obtain ⟨mem', happly, hupd⟩ := applyAdPolicy_set effect hpol hload
      refine .inr (.inr ⟨rfl, rfl, mem', fun hflags => setNeeded_required hflags ▸ hupd, ?_⟩)
      unfold translateLeaf
      rw [hp, happly]
      rfl

/-- Once there is a leaf that can be loaded, nothing panics any more. -/
theorem translateLeaf_returns (w : PageTableWalker) (va : WordType) (check : PermissionCheck)
    (effect : AccessEffect) {pte : PageTableEntry}
    (hload : loadPte mem info.leafPteAddr = .ok (.ok pte)) :
    ∃ r mem', w.translateLeaf mem va info check effect = .ok (r, w, mem') := by
  rcases translateLeaf_cases w va check effect hload
    with ⟨_, h⟩ | ⟨_, _, _, h⟩ | ⟨_, _, _, h⟩ | ⟨_, _, _, _, h⟩
  all_goals exact ⟨_, _, h⟩

end Translate

/-! ## Transparency -/

/-- The cached leaf of page `k` is the one a walk would find now, but for A and
D that were set since. Nothing is set under `FaultOnClear`. -/
def CachedOk (w : PageTableWalker) (ram : Ram) (k : WordType) (info : WalkInfo) : Prop :=
  ∃ info', w.walkPte ram k = .ok (.ok info') ∧ info.AdLe info' ∧
    (w.adUpdatePolicy = .faultOnClear → info' = info)

/-- Every cached page that is not stale is as a walk would find it. -/
def TlbInv (g : TlbState × (WordType → Prop)) : Prop :=
  ∀ k info, g.1.walker.tlb.get k = some info → ¬ g.2 k → CachedOk g.1.walker g.1.ram k info

/-- The check asks for neither A nor D, or the policy never sets them. -/
def IgnoresAd (policy : AdUpdatePolicy) (check : PermissionCheck) : Prop :=
  policy = .faultOnClear ∨ (check.exactMask &&& (A ||| D) = 0 ∧ check.anyOf &&& (A ||| D) = 0)

def TlbOp.IgnoresAd (policy : AdUpdatePolicy) : TlbOp → Prop
  | .translate _ check _ => HereEmu.IgnoresAd policy check
  | _ => True

section Transparency

variable {w : PageTableWalker} {mem mem' : Ram} {va k : WordType} {check : PermissionCheck}
  {effect : AccessEffect} {info info' : WalkInfo}

theorem CachedOk.adLe (h : CachedOk w mem k info) (hle : mem.AdLe mem')
    (hp : w.adUpdatePolicy = .autoSet) : CachedOk w mem' k info := by
  obtain ⟨info', hwalk, hinfo, -⟩ := h
  have hagree := walkPte_adLe (w := w) (k := k) hle
  rw [hwalk] at hagree
  obtain ⟨info'', hwalk', hle'⟩ := hagree.exists_ok
  refine ⟨info'', hwalk', hinfo.trans hle', fun hf => ?_⟩
  rw [hp] at hf
  cases hf

theorem leafPaddr_adLe (h : info.AdLe info') : leafPaddr info' va = leafPaddr info va := by
  unfold leafPaddr
  rw [h.level, h.ppn]

theorem permits_adLe (h : AdLe info.leafFlags info'.leafFlags)
    (hc : check.exactMask &&& (A ||| D) = 0 ∧ check.anyOf &&& (A ||| D) = 0) :
    permits check info'.leafFlags = permits check info.leafFlags := by
  have hbits : ∀ m : PTEFlags, m &&& (A ||| D) = 0 →
      m.getLsbD 6 = false ∧ m.getLsbD 7 = false := by decide
  obtain ⟨h6, h7⟩ := hbits _ hc.1
  obtain ⟨g6, g7⟩ := hbits _ hc.2
  unfold permits
  rw [h.and_eq h6 h7, h.and_eq g6 g7]

/-- Two walkers of one policy that hold the same leaf, up to A and D in RAM,
answer alike and leave the same RAM. -/
theorem translateLeaf_agree (w v : PageTableWalker) (va : WordType) (effect : AccessEffect)
    {pte : PageTableEntry}
    (hpol : v.adUpdatePolicy = w.adUpdatePolicy) (hinfo : info.AdLe info')
    (hfault : w.adUpdatePolicy = .faultOnClear → info' = info)
    (hchk : IgnoresAd w.adUpdatePolicy check)
    (hload : loadPte mem info'.leafPteAddr = .ok (.ok pte)) (hflags : info'.leafFlags = pte.flags) :
    ∃ r mem', w.translateLeaf mem va info check effect = .ok (r, w, mem') ∧
      v.translateLeaf mem va info' check effect = .ok (r, v, mem') ∧
      (mem' = mem ∨ w.adUpdatePolicy = .autoSet ∧ mem.AdLe mem') := by
  have hperm : permits check info'.leafFlags = permits check info.leafFlags := by
    rcases hchk with hf | hc
    · rw [hfault hf]
    · exact permits_adLe hinfo.flags hc
  have hload' : loadPte mem info.leafPteAddr = .ok (.ok pte) := by rw [← hinfo.addr]; exact hload
  have hle' : AdLe info'.leafFlags pte.flags := by rw [hflags]; exact .refl _
  have hle : AdLe info.leafFlags pte.flags := hinfo.flags.trans hle'
  rcases translateLeaf_cases w va check effect hload' with
    ⟨hp, h⟩ | ⟨hp, hf, hn, h⟩ | ⟨hp, hf, hn, h⟩ | ⟨hp, hs, mem', hupd, h⟩
  · exact ⟨_, mem, h, translateLeaf_of_not_permits (hperm.trans hp), .inl rfl⟩
  · rw [hfault hf]
    exact ⟨_, mem, h, translateLeaf_of_fault hp hn (hpol.trans hf), .inl rfl⟩
  · rw [hfault hf]
    exact ⟨_, mem, h, translateLeaf_of_no_need hp hn, .inl rfl⟩
  · -- Both set the bits the access asks for in the same entry of RAM.
    rcases translateLeaf_cases v va check effect hload
      with ⟨hp', _⟩ | ⟨_, hf, _⟩ | ⟨_, hf, _⟩ | ⟨_, _, mem'', hupd', h'⟩
    · rw [hperm, hp] at hp'; cases hp'
    · rw [hpol, hs] at hf; cases hf
    · rw [hpol, hs] at hf; cases hf
    · rw [hinfo.addr] at hupd'
      obtain rfl := (hupd hle).unique (hupd' hle')
      rw [leafPaddr_adLe hinfo] at h'
      exact ⟨_, mem', h, h', .inr ⟨hs, (hupd hle).adLe hload' setNeeded_adLe⟩⟩

/-- What a translation can do to the walker and to RAM: fill one slot with what
a walk found, and set A and D. -/
structure Translated (w w' : PageTableWalker) (mem mem' : Ram) (va : WordType) : Prop where
  config : w'.flushTlb = w.flushTlb
  fill : ∀ k info, w'.tlb.get k = some info → w.tlb.get k = some info ∨
    k = vpn va ∧ w.walkPte mem k = .ok (.ok info)
  ram : mem' = mem ∨ w.adUpdatePolicy = .autoSet ∧ mem.AdLe mem'

theorem Translated.refl (w : PageTableWalker) (mem : Ram) (va : WordType) :
    Translated w w mem mem va := ⟨rfl, fun _ _ h => .inl h, .inl rfl⟩

theorem Translated.of_lookup {w' : PageTableWalker} {leaf : Except PageTableError WalkInfo}
    (h : w.lookupLeaf mem va = .ok (leaf, w'))
    (hram : mem' = mem ∨ w.adUpdatePolicy = .autoSet ∧ mem.AdLe mem') :
    Translated w w' mem mem' va := by
  rcases lookupLeaf_cases h with ⟨_, -, -, rfl⟩ | ⟨-, hwalk, rfl⟩
  · exact ⟨rfl, fun _ _ h => .inl h, hram⟩
  · refine ⟨flushTlb_filled leaf, fun k x hx => ?_, hram⟩
    cases leaf with
    | error e => exact .inl hx
    | ok info =>
      rcases get_put hx with ⟨rfl, rfl⟩ | hold
      · exact .inr ⟨rfl, hwalk⟩
      · exact .inl hold

/-- The translation with the TLB and the one without it stop alike, or give the
same answer and the same RAM. -/
theorem translateVaddr_agree (effect : AccessEffect)
    (hok : ∀ info, w.tlb.get (vpn va) = some info → CachedOk w mem (vpn va) info)
    (hchk : IgnoresAd w.adUpdatePolicy check) :
    (∃ p, w.translateVaddr mem va check effect = .error p ∧
      w.flushTlb.translateVaddr mem va check effect = .error p) ∨
    ∃ r w' v' mem', w.translateVaddr mem va check effect = .ok (r, w', mem') ∧
      w.flushTlb.translateVaddr mem va check effect = .ok (r, v', mem') ∧
      v'.flushTlb = w.flushTlb ∧ Translated w w' mem mem' va := by
  by_cases hm : w.mode = .none
  · exact .inr ⟨_, w, w.flushTlb, mem, translateVaddr_of_bare hm, translateVaddr_of_bare hm, rfl,
      .refl ..⟩
  cases hc : w.isCanonicalVaddr va with
  | false => exact .inr ⟨_, w, w.flushTlb, mem, translateVaddr_of_not_canonical hm hc,
      translateVaddr_of_not_canonical hm hc, rfl, .refl ..⟩
  | true =>
    have hfresh : w.flushTlb.translateVaddr mem va check effect = w.walkPte mem (vpn va) >>=
        fun leaf => (w.flushTlb.filled va leaf).translateFound mem va check effect leaf :=
      translateVaddr_of_miss (w := w.flushTlb) hm hc (get_clear (c := w.tlb))
    rw [hfresh]
    cases hget : w.tlb.get (vpn va) with
    | some info =>
      obtain ⟨info', hwalk, hinfo, hfault⟩ := hok info hget
      obtain ⟨pte, hload, hflags⟩ := walkPte_leaf hwalk
      obtain ⟨r, mem', h, h', hram⟩ := translateLeaf_agree w (w.flushTlb.filled va (.ok info')) va
        effect rfl hinfo hfault hchk hload hflags
      rw [translateVaddr_of_hit hm hc hget, hwalk]
      exact .inr ⟨r, w, _, mem', h, h', rfl, rfl, fun _ _ h => .inl h, hram⟩
    | none =>
      rw [translateVaddr_of_miss hm hc hget]
      cases hwalk : w.walkPte mem (vpn va) with
      | error p => exact .inl ⟨p, rfl, rfl⟩
      | ok leaf =>
        have hlook : w.lookupLeaf mem va = .ok (leaf, w.filled va leaf) := by
          rw [lookupLeaf_of_miss hget, hwalk]
          rfl
        cases leaf with
        | error e => exact .inr ⟨_, w, w.flushTlb, mem, rfl, rfl, rfl, .refl ..⟩
        | ok info =>
          obtain ⟨pte, hload, hflags⟩ := walkPte_leaf hwalk
          obtain ⟨r, mem', h, h', hram⟩ := translateLeaf_agree (w.filled va (.ok info))
            (w.flushTlb.filled va (.ok info)) va effect rfl (.refl info) (fun _ => rfl) hchk hload hflags
          exact .inr ⟨r, _, _, mem', h, h', rfl, .of_lookup hlook hram⟩

variable {v : PageTableWalker}

/-- The walk is the same for walkers that differ in their TLB only. -/
theorem walkPte_of_flushTlb (h : v.flushTlb = w.flushTlb) (mem : Ram) (k : WordType) :
    v.walkPte mem k = w.walkPte mem k := by
  have : v.flushTlb.walkPte mem k = w.flushTlb.walkPte mem k := by rw [h]
  exact this

theorem policy_of_flushTlb (h : v.flushTlb = w.flushTlb) : v.adUpdatePolicy = w.adUpdatePolicy := by
  show v.flushTlb.adUpdatePolicy = w.flushTlb.adUpdatePolicy
  rw [h]

theorem CachedOk.of_flushTlb (h : v.flushTlb = w.flushTlb) (hok : CachedOk w mem k info) :
    CachedOk v mem k info := by
  unfold CachedOk
  rw [walkPte_of_flushTlb h, policy_of_flushTlb h]
  exact hok

variable {stale : WordType → Prop}

/-- A translation keeps the cached pages good, and the one it filled is good. -/
theorem TlbInv.translate {s : TlbState} {w' : PageTableWalker} (hinv : TlbInv (s, stale))
    (hhit : ∀ info, s.walker.tlb.get (vpn va) = some info → ¬ stale (vpn va))
    (ht : Translated s.walker w' s.ram mem' va) :
    TlbInv (⟨w', mem'⟩, fun k => stale k ∧ k ≠ vpn va) := by
  intro k info hget hk
  have hold : CachedOk s.walker s.ram k info := by
    rcases ht.fill k info hget with hget' | ⟨rfl, hwalk⟩
    · refine hinv k info hget' fun hs => hk ⟨hs, ?_⟩
      rintro rfl
      exact hhit info hget' hs
    · exact ⟨info, hwalk, .refl info, fun _ => rfl⟩
  refine CachedOk.of_flushTlb ht.config ?_
  rcases ht.ram with hr | ⟨hp, hle⟩
  · rw [hr]; exact hold
  · exact hold.adLe hle hp

theorem TlbInv.writeRam {s : TlbState} (hinv : TlbInv (s, stale)) :
    TlbInv (⟨s.walker, mem'⟩, fun k => stale k ∨ Touched watchPath s mem' k) := by
  intro k info hget hk
  obtain ⟨info', hwalk, hrest⟩ := hinv k info hget fun hs => hk (.inl hs)
  refine ⟨info', ?_, hrest⟩
  rw [← hwalk]
  refine walkPte_congr fun a ha j hj => ?_
  by_contra hne
  exact hk (.inr ⟨info, hget, a, ha, j, hj, Ne.symm hne⟩)

theorem TlbInv.flushed {w : PageTableWalker} {mem : Ram} : TlbInv (⟨w.flushTlb, mem⟩, stale) := by
  intro k info hget
  rw [show (⟨w.flushTlb, mem⟩ : TlbState).walker.tlb.get k = none from
    get_clear (c := w.tlb)] at hget
  cases hget

/-- The cached run and the memoryless run are at the same point. -/
structure TlbSim (g : TlbState × (WordType → Prop)) (t : TlbState) : Prop where
  walker : t.walker.flushTlb = g.1.walker.flushTlb
  ram : t.ram = g.1.ram
  inv : TlbInv g

theorem TlbSim.step {g : TlbState × (WordType → Prop)} {t : TlbState} {op : TlbOp}
    {policy : AdUpdatePolicy} (h : TlbSim g t) (hp : g.1.walker.adUpdatePolicy = policy)
    (hhit : HitsFresh g op) (hop : op.IgnoresAd policy) :
    StepsAgree (fun g' t' => TlbSim g' t' ∧ g'.1.walker.adUpdatePolicy = policy)
      (staleStep watchPath g op) (t.execFresh op) := by
  obtain ⟨s, stale⟩ := g
  obtain ⟨hw, hr, hinv⟩ := h
  subst hp
  unfold TlbState.execFresh
  rw [hw, hr]
  cases op with
  | translate va check effect =>
    have hok : ∀ info, s.walker.tlb.get (vpn va) = some info →
        CachedOk s.walker s.ram (vpn va) info := fun info hi => hinv _ _ hi (hhit info hi)
    rcases translateVaddr_agree effect hok hop with
      ⟨p, h1, h2⟩ | ⟨r, w', v', mem', h1, h2, hv, ht⟩
    · simp only [staleStep, TlbState.exec, h1, h2]
      rfl
    · simp only [staleStep, TlbState.exec, h1, h2]
      refine ⟨rfl, ⟨?_, rfl, TlbInv.translate hinv hhit ht⟩, policy_of_flushTlb ht.config⟩
      exact hv.trans ht.config.symm
  | flushTlb | reconfigure mode root => exact ⟨rfl, ⟨rfl, rfl, TlbInv.flushed⟩, rfl⟩
  | writeRam f => exact ⟨rfl, ⟨rfl, rfl, TlbInv.writeRam hinv⟩, rfl⟩

theorem trace_staleStep (watch : Watch) (s : TlbState) (stale : WordType → Prop)
    (ops : List TlbOp) : trace (staleStep watch) (s, stale) ops = trace TlbState.exec s ops := by
  refine trace_eq_of_sim (R := fun g t => g.1 = t) (C := fun _ _ => True) ?_ rfl
    (Always.intro (fun _ _ => trivial) _ _)
  rintro ⟨s, stale⟩ t op rfl -
  unfold staleStep
  cases hs : s.exec op with
  | error p => rfl
  | ok r => exact ⟨rfl, rfl⟩

/-- The TLB is transparent: with an empty TLB at the start, translations that
never hit a page whose path was written to, and checks that do not ask for
bits the policy sets, every step of the run answers as it does without a TLB
and leaves RAM as it does without one. -/
theorem tlb_transparent (s : TlbState) (ops : List TlbOp)
    (hempty : ∀ k, s.walker.tlb.get k = none)
    (hfresh : Always (staleStep watchPath) HitsFresh (s, fun _ => False) ops)
    (hchk : ∀ op ∈ ops, op.IgnoresAd s.walker.adUpdatePolicy) :
    trace TlbState.exec s ops = trace TlbState.execFresh s ops := by
  rw [← trace_staleStep watchPath s (fun _ => False)]
  have hinv : TlbInv (s, fun _ => False) := by
    intro k info hget
    rw [hempty k] at hget
    cases hget
  refine trace_eq_of_sim (R := fun g t => TlbSim g t ∧
      g.1.walker.adUpdatePolicy = s.walker.adUpdatePolicy) ?_ ⟨⟨rfl, rfl, hinv⟩, rfl⟩
    (hfresh.and_mem hchk)
  rintro g t op ⟨hsim, hp⟩ ⟨hhit, hop⟩
  exact hsim.step hp hhit hop

/-- A loads-only run on the gigapage: a walk, a hit, and a flush. -/
theorem tlb_transparent_gigapage :
    trace TlbState.exec ⟨.new 0x80001000 .page39bit, gigapageRam⟩
        [.translate 0x80000123 ⟨0, .R, .R⟩ .accessed, .translate 0x80000124 ⟨0, .R, .R⟩ .accessed,
          .flushTlb] =
      trace TlbState.execFresh ⟨.new 0x80001000 .page39bit, gigapageRam⟩
        [.translate 0x80000123 ⟨0, .R, .R⟩ .accessed, .translate 0x80000124 ⟨0, .R, .R⟩ .accessed,
          .flushTlb] := by
  refine tlb_transparent _ _ (fun _ => get_new_none) ?_ ?_
  · refine ⟨fun _ _ h => h, fun _ g h => ⟨fun _ _ hs => ?_, fun _ _ _ => ⟨trivial, ?_⟩⟩⟩
    · rw [(staleStep_eq_ok h).2] at hs
      exact hs.1
    · exact fun _ _ _ => trivial
  · intro op hop
    simp only [List.mem_cons, List.not_mem_nil, or_false] at hop
    rcases hop with rfl | rfl | rfl
    · exact .inl rfl
    · exact .inl rfl
    · trivial

/-- The gigapage of `gigapageRam` with A and D still clear. -/
def clearGigapageRam : Ram := (Ram.new.write .u64 0x1010 0x2000000f).2

/-- The answers of a run, without RAM. -/
def answers (t : List (Except PanicSite TlbOut)) :
    List (Except PanicSite (Option (Except PageTableError WordType))) :=
  t.map fun r => r.map Prod.fst

/-- Under `AutoSet` the first translation sets A in RAM and not in the TLB, so
a check that asks for A fails on the hit and passes on a fresh walk. -/
theorem tlb_not_transparent_for_A :
    ∃ (s : TlbState) (ops : List TlbOp), (∀ k, s.walker.tlb.get k = none) ∧
      Always (staleStep watchPath) HitsFresh (s, fun _ => False) ops ∧
      trace TlbState.exec s ops ≠ trace TlbState.execFresh s ops := by
  refine ⟨⟨(PageTableWalker.new 0x80001000 .page39bit).setAdUpdatePolicy .autoSet,
      clearGigapageRam⟩,
    [.translate 0x80000123 ⟨0, 0, 0⟩ .accessed, .translate 0x80000123 ⟨0, .A, .A⟩ .none],
    fun _ => get_new_none, ?_, ?_⟩
  · refine ⟨fun _ _ h => h, fun _ g h => ⟨fun _ _ hs => ?_, fun _ _ _ => trivial⟩⟩
    rw [(staleStep_eq_ok h).2] at hs
    exact hs.1
  · intro h
    have hans := congrArg answers h
    revert hans
    decide +kernel

end Transparency

end HereEmu
