import HereEmu.Decoder.FromIsa
import Mathlib.Data.List.Pairwise

/-!
# The decoders and a linear search

A list of descriptors says which words belong to which instruction. What
`Decoder::from_isa` builds of it, a table with slots that change their
representation, a list for what does not fit, and a list for the short
instructions, answers as a search through the descriptors would.

Towards the table a descriptor is the set of words it matches, and the table is
the function from words to results it computes. Taking a descriptor whose words
the table does not know yet gives its result to exactly these words
(`tryInsert_spec`), so it never meets a slot that is complete, and the order of
insertion leaves no trace.
-/

namespace HereEmu

open List

variable {F V : Type}

/-! ## Slots -/

namespace PartialDecode

variable {slot : PartialDecode F V} {table : List (BitVec 7 × PartialResult F V)} {f7 : BitVec 7}

/-- No `funct7` stands in a list twice. -/
def Distinct : PartialDecode F V → Prop
  | sparseF7 table => (table.map (·.1)).Nodup
  | _ => True

theorem smallGet_cons (e : BitVec 7 × PartialResult F V) (key : BitVec 7) :
    smallGet (e :: table) key = if e.1 = key then some e.2 else smallGet table key := by
  unfold smallGet
  by_cases h : e.1 = key <;> simp [h]

theorem smallGet_eq_none_iff : smallGet table f7 = none ↔ f7 ∉ table.map (·.1) := by
  simp only [smallGet, Option.map_eq_none_iff, find?_eq_none, beq_iff_eq, mem_map, not_exists,
    not_and]

theorem smallGet_insert (hnone : smallGet table f7 = none) (result : PartialResult F V)
    (key : BitVec 7) : smallGet (smallInsert table f7 result) key =
      if key = f7 then some result else smallGet table key := by
  unfold smallGet smallInsert at *
  rw [find?_append, Option.map_or]
  by_cases hkey : key = f7
  · subst hkey
    simp [hnone]
  · simp [hkey, Ne.symm hkey]

theorem smallInsert_nodup (h : (table.map (·.1)).Nodup) (hnone : smallGet table f7 = none)
    (result : PartialResult F V) : ((smallInsert table f7 result).map (·.1)).Nodup := by
  rw [smallInsert, map_append]
  refine nodup_append.mpr ⟨h, pairwise_singleton _ _, fun a ha b hb hab => ?_⟩
  rw [map_singleton, mem_singleton] at hb
  subst hb hab
  exact smallGet_eq_none_iff.mp hnone ha

/-- The last entry of a key counts in the array, the first one in the list. -/
theorem foldl_update_eq (h : (table.map (·.1)).Nodup)
    (dense : BitVec 7 → Option (PartialResult F V)) (key : BitVec 7) :
    table.foldl (fun (dense : BitVec 7 → Option (PartialResult F V)) e =>
        Function.update dense e.1 (some e.2)) dense key =
      (smallGet table key).or (dense key) := by
  induction table generalizing dense with
  | nil => rfl
  | cons e table ih =>
    rw [map_cons, nodup_cons] at h
    rw [foldl_cons, ih h.2, smallGet_cons]
    by_cases hkey : e.1 = key
    · subst hkey
      rw [smallGet_eq_none_iff.mpr h.1, if_pos rfl, Function.update_self]
      rfl
    · rw [if_neg hkey, Function.update_of_ne (Ne.symm hkey)]

theorem tryMakeDense_spec (h : slot.Distinct) :
    slot.tryMakeDense.Distinct ∧ slot.tryMakeDense.lookup = slot.lookup := by
  cases slot with
  | sparseF7 table =>
    unfold tryMakeDense
    dsimp only
    split
    · exact ⟨h, rfl⟩
    · refine ⟨trivial, funext fun key => ?_⟩
      exact (foldl_update_eq h _ key).trans Option.or_none
  | unknown | complete _ | denseF7 _ => exact ⟨trivial, rfl⟩

/-- A `funct7` the slot does not know. It is not complete then. -/
theorem insertF7_spec (h : slot.Distinct) (hnone : slot.lookup f7 = none)
    (result : PartialResult F V) : ∃ slot', slot.insertF7 f7 result = .ok slot' ∧ slot'.Distinct ∧
      ∀ key, slot'.lookup key = if key = f7 then some result else slot.lookup key := by
  cases slot with
  | unknown =>
    have hempty : smallGet ([] : List (BitVec 7 × PartialResult F V)) f7 = none := rfl
    exact ⟨_, rfl, pairwise_singleton _ _, smallGet_insert hempty result⟩
  | complete _ => cases hnone
  | sparseF7 table =>
    have hdistinct : (sparseF7 (smallInsert table f7 result)).Distinct :=
      smallInsert_nodup h hnone result
    have hdense := tryMakeDense_spec hdistinct
    refine ⟨_, rfl, hdense.1, fun key => ?_⟩
    rw [hdense.2]
    exact smallGet_insert hnone result key
  | denseF7 table =>
    exact ⟨_, rfl, trivial, fun key => Function.update_apply table f7 (some result) key⟩

end PartialDecode

/-! ## The table -/

namespace FunctDecoder

variable {t t' : FunctDecoder F V} {c : FunctCodes} {result : PartialResult F V}

def lookup (t : FunctDecoder F V) (c : FunctCodes) : Option (PartialResult F V) :=
  (t.decodeTable c.opcode c.f3).lookup c.f7

def Distinct (t : FunctDecoder F V) : Prop := ∀ opcode f3, (t.decodeTable opcode f3).Distinct

/-- `t'` is `t` with the result for the codes in `S`. -/
structure Gains (t : FunctDecoder F V) (result : PartialResult F V) (S : FunctCodes → Prop)
    (t' : FunctDecoder F V) : Prop where
  distinct : t'.Distinct
  inside : ∀ c, S c → t'.lookup c = some result
  outside : ∀ c, ¬ S c → t'.lookup c = t.lookup c

theorem lookup_setSlot (t : FunctDecoder F V) (opcode : BitVec 7) (f3 : BitVec 3)
    (slot : PartialDecode F V) : (t.setSlot opcode f3 slot).lookup c =
      if c.opcode = opcode ∧ c.f3 = f3 then slot.lookup c.f7 else t.lookup c := by
  unfold lookup setSlot
  dsimp only
  split <;> rfl

theorem lookup_setOpcode (t : FunctDecoder F V) (opcode : BitVec 7) (slot : PartialDecode F V) :
    (t.setOpcode opcode slot).lookup c =
      if c.opcode = opcode then slot.lookup c.f7 else t.lookup c := by
  unfold lookup setOpcode
  dsimp only
  split <;> rfl

theorem Distinct.setWhere (h : t.Distinct) {slot : PartialDecode F V} (hs : slot.Distinct)
    (p : BitVec 7 → BitVec 3 → Prop) [∀ opcode f3, Decidable (p opcode f3)] :
    Distinct ⟨fun opcode f3 => if p opcode f3 then slot else t.decodeTable opcode f3⟩ := by
  intro opcode f3
  dsimp only
  split
  · exact hs
  · exact h opcode f3

theorem insertF3F7_spec (h : t.Distinct) (hnone : t.lookup c = none)
    (result : PartialResult F V) :
    ∃ t', t.insertF3F7 c result = .ok t' ∧ t.Gains result (· = c) t' := by
  obtain ⟨slot, hslot, hdistinct, hlookup⟩ :=
    PartialDecode.insertF7_spec (h c.opcode c.f3) hnone result
  refine ⟨t.setSlot c.opcode c.f3 slot, ?_, h.setWhere hdistinct _, ?_, fun c' hne => ?_⟩
  · unfold insertF3F7
    rw [hslot]
    rfl
  · rintro _ rfl
    rw [lookup_setSlot, if_pos ⟨rfl, rfl⟩, hlookup, if_pos rfl]
  · rw [lookup_setSlot]
    split
    · next heq =>
        have hf7 : c'.f7 ≠ c.f7 := fun hf7 => hne (FunctCodes.ext heq.1 heq.2 hf7)
        rw [hlookup, if_neg hf7, lookup, heq.1, heq.2]
    · rfl

/-- Inserting one result for several codes the table does not know. -/
theorem insertAll_spec {cs : List FunctCodes} (h : t.Distinct) (hcs : cs.Nodup)
    (hnone : ∀ c ∈ cs, t.lookup c = none) (result : PartialResult F V) :
    ∃ t', t.insertAll cs result = .ok t' ∧ t.Gains result (· ∈ cs) t' := by
  induction cs generalizing t with
  | nil => exact ⟨t, rfl, h, fun _ hc => absurd hc not_mem_nil, fun _ _ => rfl⟩
  | cons c cs ih =>
    rw [nodup_cons] at hcs
    obtain ⟨t₁, hrun₁, hgains₁⟩ := insertF3F7_spec h (hnone c mem_cons_self) result
    have hrest : ∀ c' ∈ cs, t₁.lookup c' = none := fun c' hc' =>
      (hgains₁.outside c' fun heq => hcs.1 (heq ▸ hc')).trans
        (hnone c' (mem_cons_of_mem _ hc'))
    obtain ⟨t₂, hrun₂, hgains₂⟩ := ih hgains₁.distinct hcs.2 hrest
    refine ⟨t₂, ?_, hgains₂.distinct, fun c' hc' => ?_, fun c' hc' => ?_⟩
    · unfold insertAll at hrun₂ ⊢
      rw [foldlM_cons, hrun₁]
      exact hrun₂
    · rcases mem_cons.mp hc' with rfl | hmem
      · exact (hgains₂.outside c' hcs.1).trans (hgains₁.inside c' rfl)
      · exact hgains₂.inside c' hmem
    · rw [mem_cons, not_or] at hc'
      exact (hgains₂.outside c' hc'.2).trans (hgains₁.outside c' hc'.1)

end FunctDecoder

/-! ## Words and function codes -/

/-- The bits the table looks at. -/
def FUNCT_BITS : BitVec 32 := OPCODE_BITS ||| F3_BITS ||| F7_BITS

theorem getLsbD_functBits : ∀ i < 32,
    FUNCT_BITS.getLsbD i = decide (i < 7 ∨ 12 ≤ i ∧ i < 15 ∨ 25 ≤ i) := by
  decide

namespace FunctCodes

/-- A word with these codes. -/
def word (c : FunctCodes) : BitVec 32 :=
  c.opcode.setWidth 32 ||| c.f3.setWidth 32 <<< 12 ||| c.f7.setWidth 32 <<< 25

theorem getOpcodeF3F7_word (c : FunctCodes) : getOpcodeF3F7 c.word = c := by
  refine FunctCodes.ext ?_ ?_ ?_ <;> refine BitVec.eq_of_getLsbD_eq fun i hi => ?_ <;>
    simp only [getOpcodeF3F7, word, BitVec.getLsbD_setWidth, BitVec.getLsbD_ushiftRight,
      BitVec.getLsbD_or, BitVec.getLsbD_shiftLeft]
  · simp [hi, show i < 32 by omega, show i < 12 by omega, show i < 25 by omega]
  · have hop : c.opcode.getLsbD (12 + i) = false := BitVec.getLsbD_of_ge _ _ (by omega)
    simp [hi, hop, show 12 + i < 32 by omega, show 12 + i < 25 by omega, show ¬ 12 + i < 12 by omega,
      show i < 32 by omega]
  · have hop : c.opcode.getLsbD (25 + i) = false := BitVec.getLsbD_of_ge _ _ (by omega)
    have hf3 : c.f3.getLsbD (25 + i - 12) = false := BitVec.getLsbD_of_ge _ _ (by omega)
    simp [hi, hop, hf3, show 25 + i < 32 by omega, show ¬ 25 + i < 25 by omega, show i < 32 by omega]

end FunctCodes

theorem getOpcodeF3F7_and (v w : BitVec 32) : getOpcodeF3F7 (v &&& w) =
    ⟨(getOpcodeF3F7 v).opcode &&& (getOpcodeF3F7 w).opcode,
      (getOpcodeF3F7 v).f3 &&& (getOpcodeF3F7 w).f3,
      (getOpcodeF3F7 v).f7 &&& (getOpcodeF3F7 w).f7⟩ := by
  simp [getOpcodeF3F7, BitVec.ushiftRight_and_distrib]

theorem and_of_and_not {v m : BitVec 32} (h : v &&& ~~~m = 0#32) : v &&& m = v := by
  calc v &&& m = v &&& m ||| v &&& ~~~m := by rw [h, BitVec.or_zero]
    _ = v := by rw [← BitVec.and_or_distrib_left, BitVec.or_not_self, BitVec.and_allOnes]

/-- Words without other bits are told by their codes. -/
theorem eq_of_codes {v w : BitVec 32} (hv : v &&& FUNCT_BITS = v) (hw : w &&& FUNCT_BITS = w)
    (h : getOpcodeF3F7 v = getOpcodeF3F7 w) : v = w := by
  have hop : ∀ i < 7, v.getLsbD i = w.getLsbD i := fun i hi => by
    simpa [getOpcodeF3F7, hi] using congrArg (·.opcode.getLsbD i) h
  have hf3 : ∀ i < 3, v.getLsbD (12 + i) = w.getLsbD (12 + i) := fun i hi => by
    simpa [getOpcodeF3F7, hi] using congrArg (·.f3.getLsbD i) h
  have hf7 : ∀ i < 7, v.getLsbD (25 + i) = w.getLsbD (25 + i) := fun i hi => by
    simpa [getOpcodeF3F7, hi] using congrArg (·.f7.getLsbD i) h
  rw [← hv, ← hw]
  refine BitVec.eq_of_getLsbD_eq fun i hi => ?_
  rw [BitVec.getLsbD_and, BitVec.getLsbD_and, getLsbD_functBits i hi]
  by_cases h7 : i < 7
  · rw [hop i h7]
  · by_cases h15 : 12 ≤ i ∧ i < 15
    · have hi3 := hf3 (i - 12) (by omega)
      rw [Nat.add_sub_of_le h15.1] at hi3
      rw [hi3]
    · by_cases h25 : 25 ≤ i
      · have hi7 := hf7 (i - 25) (by omega)
        rw [Nat.add_sub_of_le h25] at hi7
        rw [hi7]
      · simp [h7, h15, h25]

namespace RVInstrDesc

variable {desc : RVInstrDesc F V}

/-- What is asked of a descriptor. -/
structure WellFormed (desc : RVInstrDesc F V) : Prop where
  opcode : desc.mask &&& OPCODE_BITS = OPCODE_BITS
  key : desc.key &&& desc.mask = desc.key

/-- No word belongs to both. -/
def Disjoint (d d' : RVInstrDesc F V) : Prop := ∀ w, ¬ (d.matches w ∧ d'.matches w)

theorem Disjoint.symm {d d' : RVInstrDesc F V} (h : Disjoint d d') : Disjoint d' d :=
  fun w hw => h w hw.symm

instance : Std.Symm (Disjoint (F := F) (V := V)) := ⟨fun _ _ => Disjoint.symm⟩

/-- Keys that differ where both masks look. -/
theorem disjoint_of_keys {d d' : RVInstrDesc F V} (h : d.key &&& d'.mask ≠ d'.key &&& d.mask) :
    Disjoint d d' := by
  rintro w ⟨hm, hm'⟩
  rw [RVInstrDesc.matches, beq_iff_eq] at hm hm'
  refine h ?_
  rw [← hm, ← hm', BitVec.and_assoc, BitVec.and_assoc, BitVec.and_comm d.mask]

/-- A mask that has the whole opcode, and beyond it only bits of the function codes,
asks for these one by one. -/
theorem matches_iff (h : desc.WellFormed) (hmask : desc.mask &&& FUNCT_BITS = desc.mask)
    {w : BitVec 32} : desc.matches w ↔
      (getOpcodeF3F7 w).opcode = (getOpcodeF3F7 desc.key).opcode ∧
      (getOpcodeF3F7 w).f3 &&& (getOpcodeF3F7 desc.mask).f3 = (getOpcodeF3F7 desc.key).f3 ∧
      (getOpcodeF3F7 w).f7 &&& (getOpcodeF3F7 desc.mask).f7 = (getOpcodeF3F7 desc.key).f7 := by
  have hopcode : (getOpcodeF3F7 desc.mask).opcode = BitVec.allOnes 7 := by
    have hcodes := congrArg (fun v => (getOpcodeF3F7 v).opcode) h.opcode
    rw [getOpcodeF3F7_and] at hcodes
    exact BitVec.and_allOnes.symm.trans hcodes
  have hkey : desc.key &&& FUNCT_BITS = desc.key := by
    rw [← h.key, BitVec.and_assoc, hmask]
  have hw : w &&& desc.mask &&& FUNCT_BITS = w &&& desc.mask := by rw [BitVec.and_assoc, hmask]
  have hcodes : w &&& desc.mask = desc.key ↔ getOpcodeF3F7 (w &&& desc.mask) = getOpcodeF3F7 desc.key :=
    ⟨congrArg _, eq_of_codes hw hkey⟩
  rw [RVInstrDesc.matches, beq_iff_eq, hcodes, getOpcodeF3F7_and, FunctCodes.ext_iff, hopcode,
    BitVec.and_allOnes]

end RVInstrDesc

/-! ## Taking a descriptor -/

namespace FunctDecoder

variable {t t' : FunctDecoder F V} {desc : RVInstrDesc F V}

/-- `t'` is `t` with the result of a descriptor for the words of the descriptor. -/
structure Takes (t : FunctDecoder F V) (desc : RVInstrDesc F V) (t' : FunctDecoder F V) : Prop where
  distinct : t'.Distinct
  inside : ∀ w, desc.matches w → t'.recognizeInstr w = some (desc.instr, desc.format)
  outside : ∀ w, ¬ desc.matches w → t'.recognizeInstr w = t.recognizeInstr w

theorem Gains.takes {S : FunctCodes → Prop} (hg : t.Gains (desc.instr, desc.format) S t')
    (hS : ∀ w, desc.matches w ↔ S (getOpcodeF3F7 w)) : t.Takes desc t' :=
  ⟨hg.distinct, fun w hw => hg.inside _ ((hS w).mp hw), fun w hw => hg.outside _ (mt (hS w).mpr hw)⟩

theorem lookup_of_free {S : FunctCodes → Prop}
    (hfree : ∀ w, desc.matches w → t.recognizeInstr w = none)
    (hS : ∀ w, desc.matches w ↔ S (getOpcodeF3F7 w)) {c : FunctCodes} (hc : S c) :
    t.lookup c = none := by
  have hword := hfree c.word ((hS c.word).mpr (by rw [c.getOpcodeF3F7_word]; exact hc))
  rw [recognizeInstr, c.getOpcodeF3F7_word] at hword
  exact hword

/-- The codes of a key have no bits outside those of the mask. -/
theorem keyCodes (h : desc.WellFormed) :
    (getOpcodeF3F7 desc.key).f3 &&& (getOpcodeF3F7 desc.mask).f3 = (getOpcodeF3F7 desc.key).f3 ∧
    (getOpcodeF3F7 desc.key).f7 &&& (getOpcodeF3F7 desc.mask).f7 = (getOpcodeF3F7 desc.key).f7 := by
  have hcodes := congrArg getOpcodeF3F7 h.key
  rw [getOpcodeF3F7_and, FunctCodes.ext_iff] at hcodes
  exact hcodes.2

section Fields

variable {n : Nat} {x k m : BitVec n}

/-- A code the mask leaves free. -/
theorem field_free (hm : m = 0#n) (hk : k &&& m = k) : x &&& m = k := by
  subst hm
  rw [← hk, BitVec.and_zero, BitVec.and_zero]

/-- A code the mask has the whole of. -/
theorem field_whole (hm : m = BitVec.allOnes n) : x &&& m = k ↔ x = k := by
  rw [hm, BitVec.and_allOnes]

theorem rest_and (hk : k &&& m = k) {y : BitVec n} (hy : y &&& ~~~m = y) : (y ||| k) &&& m = k := by
  rw [BitVec.and_or_distrib_right, hk, ← hy, BitVec.and_assoc, BitVec.not_and_self]
  simp

theorem rest_and_not (hk : k &&& m = k) {y : BitVec n} (hy : y &&& ~~~m = y) :
    (y ||| k) &&& ~~~m = y := by
  rw [BitVec.and_or_distrib_right, hy, ← hk, BitVec.and_assoc, BitVec.and_not_self]
  simp

/-- A code the mask has a part of: the rest is a subset of what is left. -/
theorem field_part (hk : k &&& m = k) : x &&& m = k ↔ ∃ y, y &&& ~~~m = y ∧ y ||| k = x := by
  constructor
  · rintro rfl
    refine ⟨x &&& ~~~m, by rw [BitVec.and_assoc, BitVec.and_self], ?_⟩
    rw [← BitVec.and_or_distrib_left, BitVec.or_comm, BitVec.or_not_self, BitVec.and_allOnes]
  · rintro ⟨y, hy, rfl⟩
    exact rest_and hk hy

/-- Different rests make different codes. -/
theorem field_part_injective {y y' : BitVec n} (hk : k &&& m = k) (hy : y &&& ~~~m = y)
    (hy' : y' &&& ~~~m = y') (h : y ||| k = y' ||| k) : y = y' := by
  rw [← rest_and_not hk hy, h, rest_and_not hk hy']

end Fields

theorem revMask_eq (mask : BitVec 32) :
    ((~~~(mask &&& F7_BITS) &&& F7_BITS) >>> 25).setWidth 7 = ~~~(getOpcodeF3F7 mask).f7 := by
  refine BitVec.eq_of_getLsbD_eq fun i hi => ?_
  have hbit : F7_BITS.getLsbD (25 + i) := by
    have hall : ∀ i < 7, F7_BITS.getLsbD (25 + i) := by decide
    exact hall i hi
  simp only [getOpcodeF3F7, BitVec.getLsbD_setWidth, BitVec.getLsbD_ushiftRight, BitVec.getLsbD_and,
    BitVec.getLsbD_not, hbit, Bool.and_true]
  simp [hi, show 25 + i < 32 by omega]

theorem f7Match_eq (key : BitVec 32) :
    ((key &&& F7_BITS) >>> 25).setWidth 7 = (getOpcodeF3F7 key).f7 := by
  have hcodes := getOpcodeF3F7_and key F7_BITS
  have hones : (getOpcodeF3F7 F7_BITS).f7 = BitVec.allOnes 7 := by decide
  rw [hones, BitVec.and_allOnes] at hcodes
  exact congrArg (·.f7) hcodes

/-! The shapes of a mask that the table takes, and the words that match. -/

section Shapes

variable {w : BitVec 32}

theorem matches_opcode (h : desc.WellFormed) (hmask : desc.mask = OPCODE_BITS) :
    desc.matches w ↔ (getOpcodeF3F7 w).opcode = (getOpcodeF3F7 desc.key).opcode := by
  obtain ⟨hkey3, hkey7⟩ := keyCodes h
  rw [RVInstrDesc.matches_iff h (by rw [hmask]; decide)]
  exact ⟨And.left, fun hop => ⟨hop, field_free (by rw [hmask]; decide) hkey3,
    field_free (by rw [hmask]; decide) hkey7⟩⟩

theorem matches_opcode_f3 (h : desc.WellFormed) (hmask : desc.mask = OPCODE_BITS ||| F3_BITS) :
    desc.matches w ↔ (getOpcodeF3F7 w).opcode = (getOpcodeF3F7 desc.key).opcode ∧
      (getOpcodeF3F7 w).f3 = (getOpcodeF3F7 desc.key).f3 := by
  rw [RVInstrDesc.matches_iff h (by rw [hmask]; decide), field_whole (by rw [hmask]; decide)]
  exact ⟨fun hw => ⟨hw.1, hw.2.1⟩, fun hw => ⟨hw.1, hw.2,
    field_free (by rw [hmask]; decide) (keyCodes h).2⟩⟩

theorem matches_all (h : desc.WellFormed) (hmask : desc.mask = OPCODE_BITS ||| F3_BITS ||| F7_BITS) :
    desc.matches w ↔ getOpcodeF3F7 w = getOpcodeF3F7 desc.key := by
  rw [RVInstrDesc.matches_iff h (by rw [hmask]; decide), field_whole (by rw [hmask]; decide),
    field_whole (by rw [hmask]; decide), FunctCodes.ext_iff]

theorem matches_opcode_f7 (h : desc.WellFormed) (hmask : desc.mask = OPCODE_BITS ||| F7_BITS) :
    desc.matches w ↔
      getOpcodeF3F7 w ∈ [0, 1, 2, 3, 4, 5, 6, 7].map fun f3 => { getOpcodeF3F7 desc.key with f3 } := by
  have hevery : ∀ f3 : BitVec 3, f3 ∈ [0, 1, 2, 3, 4, 5, 6, 7] := by decide
  rw [RVInstrDesc.matches_iff h (by rw [hmask]; decide), field_whole (m := (getOpcodeF3F7 desc.mask).f7)
    (by rw [hmask]; decide), mem_map]
  constructor
  · rintro ⟨hop, -, hf7⟩
    exact ⟨(getOpcodeF3F7 w).f3, hevery _, FunctCodes.ext hop.symm rfl hf7.symm⟩
  · rintro ⟨f3, -, heq⟩
    rw [← heq]
    exact ⟨rfl, field_free (by rw [hmask]; decide) (keyCodes h).1, rfl⟩

/-- The loop over the `funct7` of a descriptor whose mask has a part of it. -/
def partCodes (desc : RVInstrDesc F V) : List FunctCodes :=
  (Lib.submasksFrom (~~~(getOpcodeF3F7 desc.mask).f7) (~~~(getOpcodeF3F7 desc.mask).f7)).map
    fun curr => { getOpcodeF3F7 desc.key with f7 := curr ||| (getOpcodeF3F7 desc.key).f7 }

theorem matches_part (h : desc.WellFormed) (hmask : desc.mask &&& FUNCT_BITS = desc.mask)
    (hf3 : desc.mask &&& F3_BITS = F3_BITS) :
    desc.matches w ↔ getOpcodeF3F7 w ∈ partCodes desc := by
  have hwhole : (getOpcodeF3F7 desc.mask).f3 = BitVec.allOnes 3 := by
    have hcodes := congrArg (fun v => (getOpcodeF3F7 v).f3) hf3
    rw [getOpcodeF3F7_and] at hcodes
    exact BitVec.and_allOnes.symm.trans hcodes
  rw [RVInstrDesc.matches_iff h hmask, field_whole hwhole, field_part (keyCodes h).2, partCodes,
    mem_map]
  constructor
  · rintro ⟨hop, hf3, y, hy, hf7⟩
    exact ⟨y, Lib.mem_submasks.mpr hy, FunctCodes.ext hop.symm hf3.symm hf7⟩
  · rintro ⟨y, hy, heq⟩
    rw [← heq]
    exact ⟨rfl, rfl, y, Lib.mem_submasks.mp hy, rfl⟩

theorem nodup_partCodes (h : desc.WellFormed) : (partCodes desc).Nodup := by
  refine pairwise_map.mpr ((Lib.nodup_submasksFrom BitVec.and_self).imp_of_mem ?_)
  intro y y' hy hy' hne heq
  exact hne (field_part_injective (keyCodes h).2 (Lib.mem_submasks.mp hy) (Lib.mem_submasks.mp hy')
    (congrArg (·.f7) heq))

end Shapes

/-- The codes of the words of a descriptor, inserted one by one. -/
theorem insertAll_takes {cs : List FunctCodes} (ht : t.Distinct)
    (hfree : ∀ w, desc.matches w → t.recognizeInstr w = none) (hcs : cs.Nodup)
    (hS : ∀ w, desc.matches w ↔ getOpcodeF3F7 w ∈ cs) :
    ∃ t', t.insertAll cs (desc.instr, desc.format) = .ok t' ∧ t.Takes desc t' := by
  obtain ⟨t', hrun, hgains⟩ := insertAll_spec ht hcs
    (fun c hc => lookup_of_free (S := (· ∈ cs)) hfree hS hc) (desc.instr, desc.format)
  exact ⟨t', hrun, hgains.takes hS⟩

/-- The descriptor is taken or left alone, if the table knows none of its words. -/
theorem tryInsert_spec (h : desc.WellFormed) (ht : t.Distinct)
    (hfree : ∀ w, desc.matches w → t.recognizeInstr w = none) :
    (∃ t', t.tryInsert desc = .ok (t', true) ∧ t.Takes desc t') ∨
      t.tryInsert desc = .ok (t, false) := by
  unfold tryInsert
  dsimp only
  split
  · exact .inr rfl
  rename_i hother
  have hmask : desc.mask &&& FUNCT_BITS = desc.mask := and_of_and_not (not_not.mp hother)
  rw [if_neg (not_not.mpr h.opcode)]
  split
  · next hopcode =>
      refine .inl ⟨_, rfl, Gains.takes (S := fun c => c.opcode = _) ⟨ht.setWhere ?_ _, ?_, ?_⟩
        fun w => matches_opcode h hopcode⟩
      · trivial
      · exact fun c hc => (lookup_setOpcode t _ _).trans (if_pos hc)
      · exact fun c hc => (lookup_setOpcode t _ _).trans (if_neg hc)
  split
  · next hf3 =>
      refine .inl ⟨_, rfl, Gains.takes (S := fun c => c.opcode = _ ∧ c.f3 = _)
        ⟨ht.setWhere ?_ _, ?_, ?_⟩ fun w => matches_opcode_f3 h hf3⟩
      · trivial
      · exact fun c hc => (lookup_setSlot t _ _ _).trans (if_pos hc)
      · exact fun c hc => (lookup_setSlot t _ _ _).trans (if_neg hc)
  split
  · next hall =>
      have hS := fun w => matches_all (w := w) h hall
      obtain ⟨t', hrun, hgains⟩ := insertF3F7_spec ht
        (lookup_of_free (S := (· = getOpcodeF3F7 desc.key)) hfree hS rfl) (desc.instr, desc.format)
      rw [hrun]
      exact .inl ⟨t', rfl, hgains.takes hS⟩
  split
  · next hf7 =>
      have hf3s : ([0, 1, 2, 3, 4, 5, 6, 7] : List (BitVec 3)).Nodup := by decide
      have hnodup : ([0, 1, 2, 3, 4, 5, 6, 7].map fun f3 =>
          { getOpcodeF3F7 desc.key with f3 }).Nodup :=
        pairwise_map.mpr (hf3s.imp fun hne heq => hne (congrArg FunctCodes.f3 heq))
      obtain ⟨t', hrun, htakes⟩ := insertAll_takes ht hfree hnodup fun w => matches_opcode_f7 h hf7
      rw [hrun]
      exact .inl ⟨t', rfl, htakes⟩
  split
  · next hpart =>
      obtain ⟨t', hrun, htakes⟩ := insertAll_takes ht hfree (nodup_partCodes h)
        fun w => matches_part h hmask hpart.1
      rw [revMask_eq, f7Match_eq]
      unfold partCodes at hrun
      rw [hrun]
      exact .inl ⟨t', rfl, htakes⟩
  · exact .inr rfl

end FunctDecoder

/-! ## Building -/

section Build

variable {done : List (RVInstrDesc F V)} {desc : RVInstrDesc F V}
  {s : FunctDecoder F V × List (RVInstrDesc F V)}

/-- What the loop of `from_isa` has built of the descriptors it has seen. -/
structure Built (done : List (RVInstrDesc F V)) (s : FunctDecoder F V × List (RVInstrDesc F V)) :
    Prop where
  distinct : s.1.Distinct
  /-- The table knows no words but those of descriptors. -/
  known : ∀ w, (∀ d ∈ done, ¬ d.matches w) → s.1.recognizeInstr w = none
  /-- A descriptor is in the table or among the others. -/
  placed : ∀ d ∈ done, (∀ w, d.matches w → s.1.recognizeInstr w = some (d.instr, d.format)) ∨
    d ∈ s.2 ∧ ∀ w, d.matches w → s.1.recognizeInstr w = none
  rest : ∀ d ∈ s.2, d ∈ done

theorem Built.new : Built [] ((.new, []) : FunctDecoder F V × List (RVInstrDesc F V)) :=
  ⟨fun _ _ => trivial, fun _ _ => rfl, fun _ hd => absurd hd not_mem_nil,
    fun _ hd => absurd hd not_mem_nil⟩

/-- One round, with a descriptor that has no word in common with the earlier ones. -/
theorem Built.insertDesc (h : Built done s) (hd : desc.WellFormed)
    (hdisjoint : ∀ d ∈ done, RVInstrDesc.Disjoint d desc) :
    ∃ s', Decoder.insertDesc s desc = .ok s' ∧ Built (done ++ [desc]) s' := by
  have hfree : ∀ w, desc.matches w → s.1.recognizeInstr w = none := fun w hw =>
    h.known w fun d hmem hm => hdisjoint d hmem w ⟨hm, hw⟩
  unfold Decoder.insertDesc
  rcases FunctDecoder.tryInsert_spec hd h.distinct hfree with ⟨t, hrun, htakes⟩ | hrun
  · rw [hrun]
    have hold : ∀ d ∈ done, ∀ w, d.matches w → t.recognizeInstr w = s.1.recognizeInstr w :=
      fun d hmem w hm => htakes.outside w fun hw => hdisjoint d hmem w ⟨hm, hw⟩
    refine ⟨(t, s.2), rfl, htakes.distinct, fun w hw => ?_, fun d hmem => ?_, fun d hmem =>
      mem_append_left _ (h.rest d hmem)⟩
    · rw [htakes.outside w (hw desc (mem_append_right _ mem_cons_self))]
      exact h.known w fun d hmem => hw d (mem_append_left _ hmem)
    · rcases mem_append.mp hmem with hmem | hmem
      · rcases h.placed d hmem with hin | ⟨hrest, hout⟩
        · exact .inl fun w hm => (hold d hmem w hm).trans (hin w hm)
        · exact .inr ⟨hrest, fun w hm => (hold d hmem w hm).trans (hout w hm)⟩
      · rw [mem_singleton.mp hmem]
        exact .inl htakes.inside
  · rw [hrun]
    refine ⟨(s.1, s.2 ++ [desc]), rfl, h.distinct, fun w hw => ?_, fun d hmem => ?_, fun d hmem => ?_⟩
    · exact h.known w fun d hmem => hw d (mem_append_left _ hmem)
    · rcases mem_append.mp hmem with hmem | hmem
      · exact (h.placed d hmem).imp_right fun hout => ⟨mem_append_left _ hout.1, hout.2⟩
      · rw [mem_singleton.mp hmem]
        exact .inr ⟨mem_append_right _ mem_cons_self, hfree⟩
    · rcases mem_append.mp hmem with hmem | hmem
      · exact mem_append_left _ (h.rest d hmem)
      · exact mem_append_right _ hmem

/-- All rounds. -/
theorem Built.run {descs : List (RVInstrDesc F V)} (h : Built done s)
    (hwf : ∀ d ∈ descs, d.WellFormed) (hdisjoint : (done ++ descs).Pairwise RVInstrDesc.Disjoint) :
    ∃ s', descs.foldlM Decoder.insertDesc s = .ok s' ∧ Built (done ++ descs) s' := by
  induction descs generalizing done s with
  | nil => exact ⟨s, rfl, by rw [append_nil]; exact h⟩
  | cons desc descs ih =>
    have hround := pairwise_append.mp hdisjoint
    obtain ⟨s₁, hrun₁, hbuilt₁⟩ := h.insertDesc (hwf desc mem_cons_self)
      fun d hd => hround.2.2 d hd desc mem_cons_self
    obtain ⟨s₂, hrun₂, hbuilt₂⟩ := ih hbuilt₁ (fun d hd => hwf d (mem_cons_of_mem _ hd))
      (by rw [append_assoc]; exact hdisjoint)
    refine ⟨s₂, ?_, by rw [append_assoc] at hbuilt₂; exact hbuilt₂⟩
    rw [foldlM_cons, hrun₁]
    exact hrun₂

end Build

/-! ## Searching in turn -/

section Search

variable {α : Type} {mask : α → BitVec 32} {p : α → Bool} {l : List α} {a : α}

theorem mem_sortByMask : a ∈ sortByMask mask l ↔ a ∈ l := (mergeSort_perm l _).mem_iff

theorem pairwise_sortByMask (mask : α → BitVec 32) (l : List α) :
    (sortByMask mask l).Pairwise fun a b => countOnes (mask b) ≤ countOnes (mask a) := by
  have hsorted : (sortByMask mask l).Pairwise fun a b =>
      decide (countZeros (mask a) ≤ countZeros (mask b)) :=
    pairwise_mergeSort (fun a b c => by simp only [decide_eq_true_eq]; exact Nat.le_trans)
      (fun a b => by simp only [Bool.or_eq_true, decide_eq_true_eq]; exact Nat.le_total _ _) l
  refine hsorted.imp fun {a b} hab => ?_
  have hle : countOnes (mask b) ≤ 32 := BitVec.toNat_cpop_le (mask b)
  rw [decide_eq_true_eq] at hab
  unfold countZeros at hab
  omega

/-- The first match has the longest mask of all matches. -/
theorem find?_sortByMask (h : (sortByMask mask l).find? p = some a) :
    a ∈ l ∧ p a ∧ ∀ b ∈ l, p b → countOnes (mask b) ≤ countOnes (mask a) := by
  obtain ⟨hp, before, after, hsplit, hbefore⟩ := find?_eq_some_iff_append.mp h
  have hsorted := pairwise_sortByMask mask l
  rw [hsplit] at hsorted
  refine ⟨mem_sortByMask.mp (mem_of_find?_eq_some h), hp, fun b hb hpb => ?_⟩
  have hmem : b ∈ sortByMask mask l := mem_sortByMask.mpr hb
  rw [hsplit, mem_append, mem_cons] at hmem
  rcases hmem with hmem | rfl | hmem
  · have hnot := hbefore b hmem
    rw [hpb] at hnot
    cases hnot
  · exact Nat.le_refl _
  · exact (pairwise_cons.mp (pairwise_append.mp hsorted).2.1).1 b hmem

theorem find?_sortByMask_none (h : (sortByMask mask l).find? p = none) : ∀ b ∈ l, ¬ p b :=
  fun b hb => find?_eq_none.mp h b (mem_sortByMask.mpr hb)

end Search

/-! ## The specification -/

section Spec

/-- `DecodeMask::matches`. -/
def CompressedDesc.matches (desc : CompressedDesc F V) (raw : BitVec 32) : Bool :=
  raw &&& desc.mask == desc.key

def longs (isa : List (IsaDesc F V)) : List (RVInstrDesc F V) := isa.filterMap IsaDesc.getLong

def shorts (isa : List (IsaDesc F V)) : List (CompressedDesc F V) := isa.filterMap IsaDesc.getShort

/-- The instructions of 16 bits that a format with several immediates knows. -/
def hasImmCB : RiscvInstr F V → Bool
  | .C_SRLI | .C_SRAI | .C_ANDI | .C_BEQZ | .C_BNEZ => true
  | _ => false

def hasImmCL : RiscvInstr F V → Bool
  | .C_FLD | .C_LD | .C_FSD | .C_SD | .C_LW | .C_FLW | .C_SW | .C_FSW => true
  | _ => false

def hasImmCSS : RiscvInstr F V → Bool
  | .C_FSDSP | .C_SDSP | .C_SWSP | .C_FSWSP => true
  | _ => false

/-- The format is one that the operands of the instruction can be taken from. -/
def CompressedDesc.hasFormat (desc : CompressedDesc F V) : Bool :=
  match desc.format with
  | .CB => hasImmCB desc.instr
  | .CL | .CS => hasImmCL desc.instr
  | .CSS => hasImmCSS desc.instr
  | _ => true

/-- What a search through the descriptors finds. Of descriptors of 16 bits that match,
it is one with the longest mask. -/
structure Decoder.Meets (dec : Decoder F V) (isa : List (IsaDesc F V)) : Prop where
  long : ∀ raw, raw &&& 0b11 = 0b11 → ∀ d ∈ longs isa, d.matches raw →
    dec.decode raw = .ok (some ⟨d.instr, decodeInfo raw d.instr d.format⟩)
  short : ∀ raw, raw &&& 0b11 ≠ 0b11 → (∃ d ∈ shorts isa, d.matches raw) →
    ∃ d ∈ shorts isa, d.matches raw ∧
      (∀ d' ∈ shorts isa, d'.matches raw → countOnes d'.mask ≤ countOnes d.mask) ∧
      ∃ info, decodeCompressedInfo raw d.instr d.format = .ok info ∧
        dec.decode raw = .ok (some ⟨d.instr, info⟩)
  none : ∀ raw, dec.decode raw = .ok none ↔
    if raw &&& 0b11 = 0b11 then ∀ d ∈ longs isa, ¬ d.matches raw
    else ∀ d ∈ shorts isa, ¬ d.matches raw

variable {isa : List (IsaDesc F V)} {dec : Decoder F V} {raw : BitVec 32}
  {s : FunctDecoder F V × List (RVInstrDesc F V)}

theorem decodeCompressedInfo_of_has {d : CompressedDesc F V} (h : d.hasFormat)
    (raw : BitVec 32) : ∃ info, decodeCompressedInfo raw d.instr d.format = .ok info := by
  obtain ⟨instr, format, mask, key⟩ := d
  cases format with
  | CB | CL | CS | CSS =>
    -- once the instruction is known, so are the positions of its immediate
    dsimp only [CompressedDesc.hasFormat] at h
    simp only [hasImmCB, hasImmCL, hasImmCSS] at h
    split at h
    all_goals first | exact ⟨_, rfl⟩ | cases h
  | _ => exact ⟨_, rfl⟩

theorem decode_recognized (h : raw &&& 0b11 = 0b11) {instr : RiscvInstr F V} {format : InstrFormat}
    (hr : dec.recognizeInstr raw = some (instr, format)) :
    dec.decode raw = .ok (some ⟨instr, decodeInfo raw instr format⟩) := by
  unfold Decoder.decode
  rw [if_pos (beq_iff_eq.mpr h), hr]

theorem decode_unrecognized (h : raw &&& 0b11 = 0b11) (hr : dec.recognizeInstr raw = none) :
    dec.decode raw = .ok (maskDecode dec.maskDecoder raw) := by
  unfold Decoder.decode
  rw [if_pos (beq_iff_eq.mpr h), hr]

theorem decode_short (h : raw &&& 0b11 ≠ 0b11) :
    dec.decode raw = compressedDecode dec.compressDecoder raw :=
  if_neg fun heq => h (beq_iff_eq.mp heq)

theorem compressedDecode_some {masks : List (CompressedDesc F V)} {d : CompressedDesc F V}
    (h : masks.find? (·.matches raw) = some d) : compressedDecode masks raw =
      (decodeCompressedInfo raw d.instr d.format).map fun info => some ⟨d.instr, info⟩ := by
  unfold CompressedDesc.matches at h
  unfold compressedDecode
  rw [h]
  dsimp only
  cases decodeCompressedInfo raw d.instr d.format <;> rfl

theorem compressedDecode_none {masks : List (CompressedDesc F V)}
    (h : masks.find? (·.matches raw) = none) : compressedDecode masks raw = .ok none := by
  unfold CompressedDesc.matches at h
  unfold compressedDecode
  rw [h]

theorem unique_match {l : List (RVInstrDesc F V)} (h : l.Pairwise RVInstrDesc.Disjoint)
    {d d' : RVInstrDesc F V} (hd : d ∈ l) (hd' : d' ∈ l) (hm : d.matches raw)
    (hm' : d'.matches raw) : d' = d := by
  by_contra hne
  exact h.forall hd' hd hne raw ⟨hm', hm⟩

/-- The decoders the loop ends with. -/
def builtDecoder (isa : List (IsaDesc F V)) (s : FunctDecoder F V × List (RVInstrDesc F V)) :
    Decoder F V where
  compressDecoder := sortByMask (·.mask) (shorts isa)
  recognizeInstr := s.1.recognizeInstr
  maskDecoder := sortByMask (·.mask) s.2

theorem fromIsa_built (hwf : ∀ d ∈ longs isa, d.WellFormed)
    (hdisjoint : (longs isa).Pairwise RVInstrDesc.Disjoint) :
    ∃ s, Decoder.fromIsa isa = .ok (builtDecoder isa s) ∧ Built (longs isa) s := by
  obtain ⟨s, hrun, hbuilt⟩ := Built.new.run hwf (by rw [nil_append]; exact hdisjoint)
  refine ⟨s, ?_, hbuilt⟩
  unfold Decoder.fromIsa
  unfold longs at hrun
  rw [hrun]
  rfl

/-- A word the table does not know belongs to one of the others, or to none. -/
theorem Built.maskDecode (h : Built (longs isa) s)
    (hdisjoint : (longs isa).Pairwise RVInstrDesc.Disjoint) (hr : s.1.recognizeInstr raw = none)
    {d : RVInstrDesc F V} (hd : d ∈ longs isa) (hm : d.matches raw) :
    maskDecode (sortByMask (·.mask) s.2) raw = some ⟨d.instr, decodeInfo raw d.instr d.format⟩ := by
  unfold HereEmu.maskDecode
  cases hfind : (sortByMask (·.mask) s.2).find? (·.matches raw) with
  | none =>
    rcases h.placed d hd with hin | ⟨hrest, -⟩
    · rw [hin raw hm] at hr
      cases hr
    · exact absurd hm (find?_sortByMask_none hfind d hrest)
  | some d' =>
    obtain ⟨hrest, hm', -⟩ := find?_sortByMask hfind
    rw [unique_match hdisjoint hd (h.rest d' hrest) hm hm']
    rfl

theorem Built.decode_of_matches (h : Built (longs isa) s)
    (hdisjoint : (longs isa).Pairwise RVInstrDesc.Disjoint) (hraw : raw &&& 0b11 = 0b11)
    {d : RVInstrDesc F V} (hd : d ∈ longs isa) (hm : d.matches raw) :
    (builtDecoder isa s).decode raw = .ok (some ⟨d.instr, decodeInfo raw d.instr d.format⟩) := by
  rcases h.placed d hd with hin | ⟨-, hout⟩
  · exact decode_recognized hraw (hin raw hm)
  · rw [decode_unrecognized hraw (hout raw hm)]
    exact congrArg Except.ok (h.maskDecode hdisjoint (hout raw hm) hd hm)

theorem Built.decode_of_none (h : Built (longs isa) s) (hraw : raw &&& 0b11 = 0b11)
    (hnone : ∀ d ∈ longs isa, ¬ d.matches raw) : (builtDecoder isa s).decode raw = .ok none := by
  rw [decode_unrecognized hraw (h.known raw hnone)]
  have hfind : (sortByMask (·.mask) s.2).find? (·.matches raw) = none :=
    find?_eq_none.mpr fun d hd => hnone d (h.rest d (mem_sortByMask.mp hd))
  show Except.ok (HereEmu.maskDecode (sortByMask (·.mask) s.2) raw) = _
  unfold HereEmu.maskDecode
  rw [hfind]
  rfl

theorem Built.meets (h : Built (longs isa) s)
    (hdisjoint : (longs isa).Pairwise RVInstrDesc.Disjoint)
    (hformat : ∀ d ∈ shorts isa, d.hasFormat) : (builtDecoder isa s).Meets isa where
  long raw hraw d hd hm := h.decode_of_matches hdisjoint hraw hd hm
  short raw hraw hex := by
    obtain ⟨d₀, hd₀, hm₀⟩ := hex
    cases hfind : (sortByMask (·.mask) (shorts isa)).find? (·.matches raw) with
    | none => exact absurd hm₀ (find?_sortByMask_none hfind d₀ hd₀)
    | some d =>
      obtain ⟨hd, hm, hlongest⟩ := find?_sortByMask hfind
      obtain ⟨info, hinfo⟩ := decodeCompressedInfo_of_has (hformat d hd) raw
      refine ⟨d, hd, hm, hlongest, info, hinfo, (decode_short hraw).trans ?_⟩
      exact (compressedDecode_some hfind).trans (by rw [hinfo]; rfl)
  none raw := by
    split
    · next hraw =>
        refine ⟨fun hnone d hd hm => ?_, h.decode_of_none hraw⟩
        rw [h.decode_of_matches hdisjoint hraw hd hm] at hnone
        cases hnone
    · next hraw =>
        rw [decode_short hraw]
        cases hfind : (sortByMask (·.mask) (shorts isa)).find? (·.matches raw) with
        | none => exact ⟨fun _ => find?_sortByMask_none hfind, fun _ => compressedDecode_none hfind⟩
        | some d =>
          obtain ⟨hd, hm, -⟩ := find?_sortByMask hfind
          refine ⟨fun hnone => ?_, fun hall => absurd hm (hall d hd)⟩
          obtain ⟨info, hinfo⟩ := decodeCompressedInfo_of_has (hformat d hd) raw
          have hsome := (compressedDecode_some hfind).symm.trans hnone
          rw [hinfo] at hsome
          cases hsome

/-- The table has forgotten the order it was built in. -/
theorem Built.decode_eq {isa' : List (IsaDesc F V)}
    {s' : FunctDecoder F V × List (RVInstrDesc F V)} (h : Built (longs isa) s)
    (h' : Built (longs isa') s') (hdisjoint : (longs isa).Pairwise RVInstrDesc.Disjoint)
    (hperm : (longs isa').Perm (longs isa)) (hshorts : shorts isa' = shorts isa) (raw : BitVec 32) :
    (builtDecoder isa' s').decode raw = (builtDecoder isa s).decode raw := by
  by_cases hraw : raw &&& 0b11 = 0b11
  · by_cases hex : ∃ d ∈ longs isa, d.matches raw
    · obtain ⟨d, hd, hm⟩ := hex
      rw [h.decode_of_matches hdisjoint hraw hd hm,
        h'.decode_of_matches ((hperm.pairwise_iff RVInstrDesc.Disjoint.symm).mpr hdisjoint) hraw
          (hperm.mem_iff.mpr hd) hm]
    · have hnone : ∀ d ∈ longs isa, ¬ d.matches raw := fun d hd hm => hex ⟨d, hd, hm⟩
      rw [h.decode_of_none hraw hnone,
        h'.decode_of_none hraw fun d hd => hnone d (hperm.mem_iff.mp hd)]
  · rw [decode_short hraw, decode_short hraw]
    unfold builtDecoder
    rw [hshorts]

/-- Building does not panic, what is built answers as a search through the
descriptors, and the order of those of 32 bits does not matter. -/
theorem decoder_equals_specification (isa : List (IsaDesc F V))
    (hwf : ∀ d ∈ longs isa, d.WellFormed)
    (hdisjoint : (longs isa).Pairwise RVInstrDesc.Disjoint)
    (hformat : ∀ d ∈ shorts isa, d.hasFormat) :
    ∃ dec, Decoder.fromIsa isa = .ok dec ∧ dec.Meets isa ∧
      ∀ isa' : List (IsaDesc F V), (longs isa').Perm (longs isa) → shorts isa' = shorts isa →
        ∃ dec', Decoder.fromIsa isa' = .ok dec' ∧ ∀ raw, dec'.decode raw = dec.decode raw := by
  obtain ⟨s, hrun, hbuilt⟩ := fromIsa_built hwf hdisjoint
  refine ⟨builtDecoder isa s, hrun, hbuilt.meets hdisjoint hformat, fun isa' hperm hshorts => ?_⟩
  obtain ⟨s', hrun', hbuilt'⟩ := fromIsa_built (fun d hd => hwf d (hperm.mem_iff.mp hd))
    ((hperm.pairwise_iff RVInstrDesc.Disjoint.symm).mpr hdisjoint)
  exact ⟨builtDecoder isa' s', hrun', hbuilt.decode_eq hbuilt' hdisjoint hperm hshorts⟩

/-- Descriptors for the table and for the two lists, with `c.jr` inside the mask of
`c.mv`. -/
def smallIsa : List (IsaDesc Unit Unit) :=
  [.long ⟨.ADD, .R, 0xfe00707f, 0x33⟩ (by decide), .short ⟨.C_MV, .CR, 0xf003, 0x8002⟩ (by decide),
    .long ⟨.SUB, .R, 0xfe00707f, 0x40000033⟩ (by decide),
    .long ⟨.LR_W, .A, 0xf9f0707f, 0x1000202f⟩ (by decide),
    .long ⟨.AMOADD_W, .A, 0xf800707f, 0x202f⟩ (by decide),
    .long ⟨.ECALL, .none, 0xffffffff, 0x73⟩ (by decide),
    .short ⟨.C_JR, .CR, 0xf07f, 0x8002⟩ (by decide),
    .short ⟨.C_SDSP, .CSS, 0xe003, 0xe002⟩ (by decide)]

theorem decoder_equals_specification_small :
    (∀ d ∈ longs smallIsa, d.WellFormed) ∧ (longs smallIsa).Pairwise RVInstrDesc.Disjoint ∧
    (∀ d ∈ shorts smallIsa, d.hasFormat) ∧
    ∃ dec, Decoder.fromIsa smallIsa = .ok dec ∧ dec.Meets smallIsa :=
  have hwf : ∀ d ∈ longs smallIsa, d.WellFormed := by
    have hbits : ∀ d ∈ longs smallIsa,
        d.mask &&& OPCODE_BITS = OPCODE_BITS ∧ d.key &&& d.mask = d.key := by decide
    exact fun d hd => ⟨(hbits d hd).1, (hbits d hd).2⟩
  have hdisjoint : (longs smallIsa).Pairwise RVInstrDesc.Disjoint := by
    have hkeys : (longs smallIsa).Pairwise fun d d' => d.key &&& d'.mask ≠ d'.key &&& d.mask := by
      decide
    exact hkeys.imp RVInstrDesc.disjoint_of_keys
  have hformat : ∀ d ∈ shorts smallIsa, d.hasFormat := by decide
  have h := decoder_equals_specification smallIsa hwf hdisjoint hformat
  ⟨hwf, hdisjoint, hformat, h.imp fun _ hdec => ⟨hdec.1, hdec.2.1⟩⟩

/-- `c.mv` with the format of a branch. -/
def misfitIsa : List (IsaDesc Unit Unit) := [.short ⟨.C_MV, .CB, 0xf003, 0x8002⟩ (by decide)]

/-- The operands are asked for only when the word is decoded. -/
theorem decoder_panics_on_misfit : longs misfitIsa = [] ∧
    (∃ d ∈ shorts misfitIsa, d.matches 0x8002) ∧
    ∃ dec, Decoder.fromIsa misfitIsa = .ok dec ∧ dec.decode 0x8002 = .error .instrInfo := by
  refine ⟨rfl, by decide, builtDecoder misfitIsa (.new, []), rfl, ?_⟩
  show compressedDecode (sortByMask (·.mask) [⟨.C_MV, .CB, 0xf003, 0x8002⟩]) 0x8002 = _
  rw [sortByMask, mergeSort_singleton]
  rfl

end Spec

end HereEmu
