import HereEmu.Proofs.VectorElementwise

/-!
# Packed elements

`vcompress` reads the source from front to back and has a second index for the
destination. The invariant of its loop is about a split of the indices into
those read and those to come: the destination holds what was kept of the first,
and the next one to keep has its place right after.
-/

namespace HereEmu

/-- No register in common. -/
def RegIdx.GroupsApart (r : RegIdx) (lmul : Nat) (r' : RegIdx) (lmul' : Nat) : Prop :=
  r.toNat + lmul ≤ r'.toNat ∨ r'.toNat + lmul' ≤ r.toNat

theorem RegIdx.GroupsApart.overlaps {r r' : RegIdx} {lmul lmul' : Nat}
    (h : r.GroupsApart lmul r' lmul') : vectorRegisterGroupOverlaps r lmul r' lmul' = false := by
  rw [vectorRegisterGroupOverlaps, ← Bool.decide_and, decide_eq_false_iff_not]
  unfold GroupsApart at h
  omega

namespace Vector

variable {v : Vector} {vs1 vs2 vd : RegIdx} {j : Nat}

/-- The elements to keep, in order. -/
def kept (v : Vector) (vs1 : RegIdx) : List Nat := (List.range v.config.vl).filter (v.maskBit vs1)

/-- The element for a place of the destination. -/
def packed (v : Vector) (vs1 vs2 : RegIdx) (j : Nat) : Option (BitVec v.sew.bits) :=
  (v.kept vs1)[j]?.map (v.element v.sew vs2)

/-- The state of the loop after `n` elements. -/
def packing (v : Vector) (vs1 vs2 vd : RegIdx) (n : Nat) : Vector × Nat :=
  (v.fill v.sew vd (v.packed vs1 vs2) (List.range n), n)

theorem length_kept_le (vs1 : RegIdx) : (v.kept vs1).length ≤ v.config.vl :=
  Nat.le_trans (List.length_filter_le _ _) (Nat.le_of_eq List.length_range)

theorem maskValue_compressMask {α : Type} [Inhabited α] (x : α) :
    (v.compressMask vs1).maskValue x j = if (v.kept vs1).length ≤ j then
      if v.config.tailAgnostic then some default else none else some x := by
  have hlen : (v.compressMask vs1).length = (v.kept vs1).length := List.countP_eq_length_filter
  rw [← hlen]
  rfl

theorem fill_succ {w : Width} {put : Nat → Option (BitVec w.bits)} {x : BitVec w.bits} {n : Nat}
    (h : put n = some x) :
    v.fill w vd put (List.range (n + 1)) = (v.fill w vd put (List.range n)).putElement w vd n x := by
  unfold fill Lib.fill putElement
  rw [List.range_succ, List.foldl_append, List.foldl_cons, h]
  rfl

/-- One turn, for the index after those in `pre`. -/
theorem compressStep_eq {pre post : List Nat} {i : Nat} (hvl : v.config.vl ≤ sliceLen v.lmul v.sew)
    (hsplit : List.range v.config.vl = pre ++ i :: post) :
    v.compressStep vs1 vs2 vd (v.packing vs1 vs2 vd (pre.countP (v.maskBit vs1))) i =
      .ok (v.packing vs1 vs2 vd ((pre ++ [i]).countP (v.maskBit vs1))) := by
  have hi : i < v.config.vl := by
    rw [← List.mem_range, hsplit]
    exact List.mem_append_right _ List.mem_cons_self
  have hread : v.readMaskBit vs1 i = .ok (v.maskBit vs1 i) := by
    have := v.config.vl_le
    exact if_pos (by unfold VL_MAX at this; unfold VLEN_BYTE; omega)
  unfold compressStep packing
  rw [hread, List.countP_append, List.countP_singleton]
  cases hbit : v.maskBit vs1 i with
  | false => rfl
  | true =>
    have hplace : (v.kept vs1)[pre.countP (v.maskBit vs1)]? = some i := by
      rw [kept, hsplit, List.filter_append, List.filter_cons_of_pos hbit,
        List.countP_eq_length_filter]
      simp
    have hlt := (List.getElem?_eq_some_iff.1 hplace).1
    have hle : (v.kept vs1).length ≤ v.config.vl := length_kept_le vs1
    simp only [bind, Except.bind, if_pos, if_neg (show ¬ sliceLen v.lmul v.sew ≤
      pre.countP (v.maskBit vs1) by omega), get_slice (show i < sliceLen v.lmul v.sew by omega),
      ArithMask.elementLoad, maskValue_compressMask, if_neg (Nat.not_le.2 hlt)]
    rw [fill_succ (x := v.element v.sew vs2 i) (by rw [packed, hplace]; rfl)]
    rfl

theorem foldlM_compressStep (vs1 vs2 vd : RegIdx) (hvl : v.config.vl ≤ sliceLen v.lmul v.sew)
    {pre post : List Nat} (hsplit : List.range v.config.vl = pre ++ post) :
    post.foldlM (v.compressStep vs1 vs2 vd) (v.packing vs1 vs2 vd (pre.countP (v.maskBit vs1))) =
      .ok (v.packing vs1 vs2 vd (v.kept vs1).length) := by
  induction post generalizing pre with
  | nil =>
    rw [List.append_nil] at hsplit
    rw [← hsplit, List.countP_eq_length_filter]
    rfl
  | cons i post ih =>
    rw [List.foldlM_cons, compressStep_eq hvl hsplit]
    exact ih (by rw [hsplit, List.append_assoc]; rfl)

/-- What the two loops leave: the kept elements, and the tail after them. -/
def compressed (v : Vector) (vs1 vs2 vd : RegIdx) : Vector :=
  (v.packing vs1 vs2 vd (v.kept vs1).length).1.fill v.sew vd (fun i => (v.compressMask vs1).maskValue 0 i)
    (pending (sliceLen v.lmul v.sew) (v.kept vs1).length)

theorem mem_pending {count start i : Nat} : i ∈ pending count start ↔ start ≤ i ∧ i < count := by
  rw [pending, List.range_eq_range', List.drop_range', List.mem_range'_1]
  omega

theorem execCompress_eq (hvl : v.config.vl ≤ sliceLen v.lmul v.sew)
    (hvs2 : groupLegal v.lmul vs2) (hvd : groupLegal v.lmul vd)
    (hapart2 : vd.GroupsApart v.lmul vs2 v.lmul) (hapart1 : vd.GroupsApart v.lmul vs1 1) :
    v.execCompress vs1 vs2 vd 0 = .ok (v.compressed vs1 vs2 vd) := by
  have hloop : (List.range v.config.vl).foldlM (v.compressStep vs1 vs2 vd) (v, 0) = _ :=
    foldlM_compressStep vs1 vs2 vd hvl (List.nil_append _).symm
  unfold execCompress
  simp only [hapart2.overlaps, hapart1.overlaps, checkGroup_eq_ok.2 hvs2, checkGroup_eq_ok.2 hvd,
    hloop, bind, Except.bind, ne_eq, not_true_eq_false, Bool.or_self, Bool.false_eq_true, if_false]
  exact ArithMask.loadElements_ok fun _ _ => rfl

theorem element_compressed (h : j < (v.kept vs1).length) :
    (v.compressed vs1 vs2 vd).element v.sew vd j = v.element v.sew vs2 (v.kept vs1)[j] := by
  rw [compressed, element_fill_of_notMem (by rw [mem_pending]; omega), packing,
    element_fill List.pairwise_lt_range (List.mem_range.2 h), packed, List.getElem?_eq_getElem h]
  rfl

theorem element_compressed_tail (h1 : (v.kept vs1).length ≤ j) (h2 : j < sliceLen v.lmul v.sew) :
    (v.compressed vs1 vs2 vd).element v.sew vd j =
      if v.config.tailAgnostic then 0 else v.element v.sew vd j := by
  have hsorted : (pending (sliceLen v.lmul v.sew) (v.kept vs1).length).Pairwise (· < ·) :=
    List.pairwise_lt_range.sublist (List.drop_sublist _ _)
  rw [compressed, element_fill hsorted (mem_pending.2 ⟨h1, h2⟩), packing,
    element_fill_of_notMem (by rw [List.mem_range]; omega), maskValue_compressMask, if_pos h1]
  cases v.config.tailAgnostic <;> rfl

theorem onlyGroup_compressed (hvl : v.config.vl ≤ sliceLen v.lmul v.sew) :
    OnlyGroup vd v.lmul v (v.compressed vs1 vs2 vd) := by
  refine OnlyGroup.trans (onlyGroup_fill fun i hi => ?_)
    (onlyGroup_fill fun i hi => (mem_pending.1 hi).2)
  exact Nat.lt_of_lt_of_le (List.mem_range.1 hi) (Nat.le_trans (length_kept_le vs1) hvl)

end Vector

/-- `vcompress` completes: the first places of the destination hold the elements
of `vs2` whose bit in `vs1` is set, in order; the rest of the group is a tail,
and nothing else has changed. -/
theorem compress_packs (s : VectorView) (rs1 rs2 rd : RegIdx) (func6 : BitVec 6)
    (hvl : s.vector.config.vl ≤ vlmax s.vector.config.vlmul s.vector.config.vsew)
    (hrs2 : Vector.groupLegal s.vector.lmul rs2)
    (hrd : Vector.groupLegal s.vector.lmul rd)
    (hapart2 : rd.GroupsApart s.vector.lmul rs2 s.vector.lmul)
    (hapart1 : rd.GroupsApart s.vector.lmul rs1 1) :
    ∃ v', (VectorInstr.dest .compress).exec (.V rs1 rs2 rd true func6) 0 s =
        .ok { s with vector := v' } ∧
      (List.range (s.vector.kept rs1).length).map (v'.element s.vector.sew rd) =
        (s.vector.kept rs1).map (s.elem rs2) ∧
      (∀ i, (s.vector.kept rs1).length ≤ i → i < Vector.sliceLen s.vector.lmul s.vector.sew →
        v'.element s.vector.sew rd i = if s.vector.config.tailAgnostic then 0 else s.elem rd i) ∧
      Vector.OnlyGroup rd s.vector.lmul s.vector v' := by
  have hcap := Nat.le_trans hvl s.vector.vlmax_le_sliceLen
  refine ⟨s.vector.compressed rs1 rs2 rd, ?_, ?_, fun i h1 h2 => Vector.element_compressed_tail h1 h2,
    Vector.onlyGroup_compressed hcap⟩
  · rw [VectorDestInstr.exec_dest]
    exact congrArg _ (Vector.execCompress_eq hcap hrs2 hrd hapart2 hapart1)
  · refine List.ext_getElem (by simp) fun i h1 h2 => ?_
    rw [List.length_map] at h2
    rw [List.getElem_map, List.getElem_map, List.getElem_range]
    exact Vector.element_compressed h2

/-- The two elements of `v2`, of which the bits in `v1` keep the first. -/
theorem compress_packs_first : ∃ v', (VectorInstr.dest .compress).exec (.V 1 2 3 true 0) 0
      ⟨fun _ => 0, 0, Vector.sample⟩ = .ok ⟨fun _ => 0, 0, v'⟩ ∧
    v'.element .u8 3 0 = 33 ∧ v'.element .u8 3 1 = 0 := by
  obtain ⟨v', hexec, hpacked, htail, _⟩ := compress_packs ⟨fun _ => 0, 0, Vector.sample⟩ 1 2 3 0
    (by decide) (by decide) (by decide) (.inr (by decide)) (.inr (by decide))
  refine ⟨v', hexec, ?_, htail 1 (by decide) (by decide)⟩
  exact (List.cons.inj hpacked).1

end HereEmu
