import VcuCodec.DpbWalks

/-!
# The marking process as edits

The sliding window, the six memory-management operations and the marking
process as a whole, on a buffer that holds the current picture.
-/

namespace VcuCodec

open LinkedLists Relation

variable {ok : Risk → Prop}

/-! ## Dropping pictures -/

variable {c : LinkedDpb}

theorem Dpb.dropLongTerm_reaches (ok : Risk → Prop) (hc : c.HasCur) (p : Node → Bool) :
    Reaches ok c (c.dpb.dropLongTerm p) fun c' => c'.HasCur ∧ c'.order = c.order := by
  refine Reaches.walk_same (o := .decOrder) (J := LinkedDpb.HasCur) ?_ hc c.linked.entry
  intro c u hc hu
  by_cases hp : p (c.dpb.nodes u) ∧ (c.dpb.nodes u).eMarkingFlag = .longTermRef
  · obtain ⟨c', hd, ho, he⟩ := c.setPicToUnused ok (c.mem_order.mp hu)
      (by rw [hp.2]; decide)
    exact ⟨c', _, by simp only [if_pos hp, hd]; rfl, .inr rfl, he,
      LinkedDpb.setPicToUnused_hasCur hc hd, ho⟩
  · exact ⟨c, _, by simp only [if_neg hp]; rfl, .inr rfl, .refl, hc, rfl⟩

theorem Dpb.shortTermToUnused_reaches (hc : c.HasCur) (slice : AvcSliceHdr)
    (iIdx : ℕ) : Reaches ok c (c.dpb.shortTermToUnused slice iIdx) LinkedDpb.HasCur := by
  suffices h : Reaches ok c (c.dpb.shortTermToUnused slice iIdx) fun c' =>
      c'.HasCur ∧ c'.order = c.order from h.mono fun _ h => h.1
  unfold Dpb.shortTermToUnused
  dsimp only
  refine Reaches.walk_same (o := .decOrder) (J := LinkedDpb.HasCur) ?_ hc c.linked.entry
  intro c u hc hu
  split
  · next hp =>
    obtain ⟨c', hd, ho, he⟩ := c.setPicToUnused ok (c.mem_order.mp hu)
      (by rw [hp.2]; decide)
    exact ⟨c', _, by rw [hd], .inl rfl, he, LinkedDpb.setPicToUnused_hasCur hc hd, ho⟩
  · exact ⟨c, _, rfl, .inr rfl, .refl, hc, rfl⟩

theorem Dpb.findLongTermPlace_spec (c : LinkedDpb) (iRef : ℕ) :
    ∃ t, c.dpb.findLongTermPlace iRef = some t ∧
      (t = uEndOfList ∨ t ∈ c.order .decOrder ∧ t ≠ iRef) := by
  refine c.scan (o := .decOrder) ?_ (.inl rfl) c.linked.entry
  intro u s hu hs
  dsimp only
  split
  · next hp => exact ⟨u, _, rfl, .inl rfl, .inr ⟨hu, hp.1.2⟩⟩
  · exact ⟨s, _, rfl, .inr rfl, hs⟩

theorem Dpb.findLastInDecOrder_spec (c : LinkedDpb) (p : Node → Bool) :
    ∃ t, c.dpb.findLastInDecOrder p = some t ∧ (t = uEndOfList ∨ t ∈ c.order .decOrder) := by
  refine c.scan (o := .decOrder) ?_ (.inl rfl) c.linked.entry
  intro u s hu hs
  refine ⟨_, _, rfl, .inr rfl, ?_⟩
  split
  · exact .inr hu
  · exact hs

theorem Dpb.switchLongTermPlace_reaches (hc : c.HasCur) {iRef : ℕ}
    (hi : c.dpb.InDpb iRef) (hr : ∀ r ∈ c.dpb.switchRisks iRef, ok r) :
    Reaches ok c (c.dpb.switchLongTermPlace iRef) LinkedDpb.HasCur := by
  obtain ⟨t, ht, hmem⟩ := Dpb.findLongTermPlace_spec c iRef
  have heq : c.dpb.switchLongTermPlace iRef =
      if t = uEndOfList then some c.dpb else some (c.dpb.moveInFrontOf iRef t) := by
    simp only [Dpb.switchLongTermPlace, ht, Option.bind_eq_bind, Option.bind_some]
  rw [heq]
  by_cases hend : t = uEndOfList
  · rw [if_pos hend]
    exact .done hc
  · rw [if_neg hend]
    have hu : iRef ∈ c.order .decOrder := c.mem_order.mpr hi
    have ht' : t ∈ (c.order .decOrder).erase iRef := by
      obtain ⟨hm, hne⟩ := hmem.resolve_left hend
      exact (List.mem_erase_of_ne hne).mpr hm
    obtain ⟨xs, ys, hsplit⟩ := List.append_of_mem ht'
    let c' : LinkedDpb := ⟨_, _, c.linked.moveInFrontOf hu hsplit⟩
    have hedit : Edit ok c c' := by
      refine .move hu hsplit (fun hh => ?_) rfl rfl
      by_cases hn : (c.dpb.nodes iRef).uNextDecOrder = t
      · exact .inl hn
      · refine .inr (hr _ ?_)
        simp [Dpb.switchRisks, ht, hend, hh, hn]
    refine .edit c' rfl hedit ?_
    have hcur : c'.dpb.uCurRef = c.dpb.uCurRef :=
      congrArg (fun d => d.uCurRef) (c.dpb.moveInFrontOf_unlinked iRef t)
    have hreset : ∀ i, (c'.dpb.nodes i).bIsReset = (c.dpb.nodes i).bIsReset := fun i =>
      congrArg (fun d => (d.nodes i).bIsReset) (c.dpb.moveInFrontOf_unlinked iRef t)
    unfold LinkedDpb.HasCur Dpb.InDpb at *
    rw [hcur, hreset]
    exact hc

theorem Dpb.makeLongTerm_reaches (hc : c.HasCur) {u : ℕ} {v : ℤ}
    (hu : c.dpb.InDpb u) (hr : ∀ r ∈ c.dpb.longTermRisks u v, ok r) :
    Reaches ok c ((c.dpb.makeLongTerm u v).switchLongTermPlace u) LinkedDpb.HasCur := by
  have hs : (c.dpb.makeLongTerm u v).skeleton = c.dpb.skeleton :=
    Dpb.skeleton_modNode fun _ => rfl
  let c1 := c.withDpb _ hs
  have h1 : Edit ok c c1 := by
    refine .remark (f := Node.longTerm v) (.inr rfl) rfl ?_ rfl rfl
    by_cases hm : (c.dpb.nodes u).eMarkingFlag = .unusedForRef
    · exact .inr (hr _ (by simp [Dpb.longTermRisks, hm]))
    · exact .inl ⟨hu, hm⟩
  refine .of_edits (.single h1) (Dpb.switchLongTermPlace_reaches (c := c1)
    (hc.of_skeleton hs rfl) ((Dpb.inDpb_of_skeleton hs u).mpr hu) fun r hm => hr r ?_)
  exact List.mem_append_right _ hm

theorem Dpb.longTermFrameIdxToAShortTerm_reaches (hc : c.HasCur) (slice : AvcSliceHdr) (x : MmcoIdx)
    (hr : ∀ r ∈ c.dpb.memoryControlRisks slice x 3, ok r) :
    Reaches ok c (c.dpb.longTermFrameIdxToAShortTerm slice x.idx3 x.idx1) LinkedDpb.HasCur := by
  obtain ⟨f, hf, hfm⟩ := Dpb.findLastInDecOrder_spec c
    fun n => n.iLongTermFrameIdx = slice.longTermFrameIdx.getD x.idx3 0
  obtain ⟨p, hp, hpm⟩ := Dpb.findLastInDecOrder_spec c fun n => n.iPicNum =
    toInt32 ((c.dpb.nodes c.dpb.uCurRef).iPicNum -
      (slice.differenceOfPicNumsMinus1.getD x.idx1 0 + 1))
  have hfree : ∃ c' : LinkedDpb, c'.dpb = c.dpb.freeLongTermFrameIdx f p ∧ c'.order = c.order ∧
      c'.HasCur ∧ Edits ok c c' := by
    unfold Dpb.freeLongTermFrameIdx
    split
    · next h =>
      have hfu : c.dpb.InDpb f := c.mem_order.mp (hfm.resolve_left h.1.1)
      obtain ⟨c', hd, ho, he⟩ := c.setPicToUnused ok hfu h.2
      exact ⟨c', hd, ho, LinkedDpb.setPicToUnused_hasCur hc hd, he⟩
    · exact ⟨c, rfl, rfl, hc, .refl⟩
  obtain ⟨c', hd, ho, hc', he⟩ := hfree
  simp only [Dpb.memoryControlRisks, hf, hp, Option.getD_some] at hr
  simp only [Dpb.longTermFrameIdxToAShortTerm, hf, hp, Option.bind_eq_bind, Option.bind_some]
  rw [← hd] at hr ⊢
  by_cases hend : p = uEndOfList
  · rw [if_neg (by simpa using hend)]
    exact .of_edits he (.done hc')
  · rw [if_pos hend] at hr ⊢
    refine .of_edits he (Dpb.makeLongTerm_reaches hc' ?_ hr)
    exact c'.mem_order.mp (ho ▸ hpm.resolve_left hend)

theorem Dpb.assignLongTermFrameIdx_reaches (hc : c.HasCur) (slice : AvcSliceHdr) (x : MmcoIdx)
    (hr : ∀ r ∈ c.dpb.memoryControlRisks slice x 6, ok r) :
    Reaches ok c (c.dpb.assignLongTermFrameIdx slice x.idx3) LinkedDpb.HasCur := by
  obtain ⟨c', hd, he, hc', -⟩ := Dpb.dropLongTerm_reaches ok hc
    fun n => n.iLongTermFrameIdx = slice.longTermFrameIdx.getD x.idx3 0 % 256
  simp only [Dpb.memoryControlRisks, hd] at hr
  simp only [Dpb.assignLongTermFrameIdx, hd, Option.bind_eq_bind, Option.bind_some]
  exact .of_edits he (Dpb.makeLongTerm_reaches hc' hc' hr)

theorem Dpb.core_number (slice : AvcSliceHdr) (n : Node) : (n.number slice).core = n.core := by
  unfold Node.number
  split <;> rfl

theorem Dpb.pictNumberProcess_reaches (ok : Risk → Prop) (c : LinkedDpb) (slice : AvcSliceHdr) :
    Reaches ok c (c.dpb.pictNumberProcess slice) fun c' =>
      c'.dpb.core = c.dpb.core ∧ c'.order = c.order := by
  refine Reaches.walk_same (o := .decOrder) (J := fun c' => c'.dpb.core = c.dpb.core) ?_ rfl
    c.linked.entry
  intro c1 u hc hu
  obtain ⟨c2, hd, he, hd2, ho⟩ := Reaches.quiet ok
    (Dpb.core_modNode (d := c1.dpb) (i := u) (f := Node.number slice) (Dpb.core_number slice _))
  refine ⟨c2, _, by rw [hd2]; rfl, .inr rfl, he, ?_, ho⟩
  rw [hd2, Dpb.core_modNode (Dpb.core_number slice _), hc]

/-! ## Operation 5 -/

@[simp] theorem Dpb.uCurRef_serveWaitingPicture (d : Dpb) :
    d.serveWaitingPicture.uCurRef = d.uCurRef := by
  simp only [Dpb.serveWaitingPicture, Dpb.fillWaitingPicture]
  split_ifs <;> rfl

@[simp] theorem Dpb.uCurRef_deletePic (d : Dpb) (i j : ℕ) :
    (d.deletePic i j).uCurRef = d.uCurRef := rfl

@[simp] theorem Dpb.uCurRef_resetNodeInfo (d : Dpb) (i : ℕ) :
    (d.resetNodeInfo i).uCurRef = d.uCurRef := rfl

@[simp] theorem Dpb.uCurRef_decCountPic (d : Dpb) : d.decCountPic.uCurRef = d.uCurRef := rfl

@[simp] theorem Dpb.uCurRef_decCountRef (d : Dpb) : d.decCountRef.uCurRef = d.uCurRef := rfl

@[simp] theorem Dpb.uCurRef_releasePicID (d : Dpb) (i : ℕ) :
    (d.releasePicID i).uCurRef = d.uCurRef := rfl

@[simp] theorem Dpb.uCurRef_unlinkNode (d : Dpb) (u : ℕ) :
    (d.unlinkNode u).uCurRef = d.uCurRef :=
  congrArg (fun d => d.uCurRef) (d.unlinkNode_unlinked u)

theorem Dpb.uCurRef_remove (d : Dpb) (u : ℕ) : (d.remove u).uCurRef = d.uCurRef := by
  simp only [Dpb.remove]
  split_ifs <;> simp

theorem Dpb.uHeadDecOrder_remove {d : Dpb} {u : ℕ} (hu : u ≠ uEndOfList) :
    (d.remove u).uHeadDecOrder =
      if d.uHeadDecOrder = u then (d.nodes u).uNextDecOrder else d.uHeadDecOrder := by
  have hs := congrArg DpbSkeleton.uHeadDecOrder (Dpb.skeleton_remove (d := d) hu)
  exact hs.trans (Dpb.head_unlinkNode hu .decOrder)

def LinkedDpb.remove (c : LinkedDpb) (u : ℕ) (hu : c.dpb.InDpb u) : LinkedDpb :=
  ⟨_, _, c.linked.remove hu⟩

/-- What the loop of operation 5 has done: in front of the pictures `todo` it
has left the pictures `pre`, which it never meets, and the current picture. -/
structure LinkedDpb.Emptied (pre : List ℕ) (cur : ℕ) (c : LinkedDpb) (todo : List ℕ) : Prop where
  uCurRef : c.dpb.uCurRef = cur
  inDpb : c.dpb.InDpb cur
  split : ∃ kept, c.order .decOrder = pre ++ kept ++ todo ∧ (∀ i ∈ kept, i = cur) ∧
    c.dpb.uHeadDecOrder = (kept ++ todo).headD uEndOfList

theorem LinkedDpb.Emptied.only_current {pre : List ℕ} {cur : ℕ} (h : c.Emptied pre cur [])
    (hh : c.dpb.uHeadDecOrder = (c.order .decOrder).headD uEndOfList) :
    ∀ i ∈ c.order .decOrder, i = cur := by
  obtain ⟨kept, hsplit, hkept, hhead⟩ := h.split
  rw [List.append_nil] at hsplit hhead
  have hT := c.linked.spells .decOrder
  rw [hsplit] at hh hT ⊢
  rw [hhead] at hh
  cases pre with
  | nil => simpa using hkept
  | cons p pre =>
    exfalso
    have hp : kept.headD uEndOfList = p := hh
    cases kept with
    | nil => exact Threaded.ne_nil hT (u := p) (by simp) hp.symm
    | cons k kept =>
      obtain rfl : k = p := hp
      have hnd := hT.nodup
      rw [List.cons_append, List.nodup_cons] at hnd
      exact hnd.1 (by simp)

theorem LinkedDpb.Emptied.of_same {pre todo : List ℕ} {cur : ℕ} {c c' : LinkedDpb}
    (h : c.Emptied pre cur todo) (ho : c'.order = c.order)
    (hs : c'.dpb.skeleton = c.dpb.skeleton) (hc : c'.dpb.uCurRef = c.dpb.uCurRef) :
    c'.Emptied pre cur todo := by
  obtain ⟨kept, hsplit, hkept, hhead⟩ := h.split
  have hh : c'.dpb.uHeadDecOrder = c.dpb.uHeadDecOrder := congrArg DpbSkeleton.uHeadDecOrder hs
  exact ⟨hc.trans h.uCurRef, (Dpb.inDpb_of_skeleton hs cur).mpr h.inDpb, kept, ho ▸ hsplit, hkept,
    hh.trans hhead⟩

/-- One turn of the loop of operation 5 at a picture that is not the current one. -/
theorem LinkedDpb.Emptied.remove {pre rest : List ℕ} {cur x : ℕ}
    (h : c.Emptied pre cur (x :: rest)) (hx : x ≠ cur) (hi : c.dpb.InDpb x) :
    (c.remove x hi).Emptied pre cur rest := by
  obtain ⟨kept, hsplit, hkept, hhead⟩ := h.split
  have hT := c.linked.spells .decOrder
  rw [hsplit] at hT
  have hxe : x ≠ uEndOfList := Threaded.ne_nil hT (by simp)
  have hord : (c.remove x hi).order .decOrder = pre ++ kept ++ rest := by
    change (c.order .decOrder).erase x = _
    rw [hsplit, Threaded.erase_middle hT]
  refine ⟨(Dpb.uCurRef_remove _ _).trans h.uCurRef, ?_, kept, hord, hkept, ?_⟩
  · refine ((c.remove x hi).linked.mem_order .decOrder).mp ?_
    change cur ∈ (c.order .decOrder).erase x
    exact (List.mem_erase_of_ne hx.symm).mpr ((c.linked.mem_order .decOrder).mpr h.inDpb)
  · change (c.dpb.remove x).uHeadDecOrder = _
    rw [Dpb.uHeadDecOrder_remove hxe, hhead]
    cases kept with
    | nil =>
      rw [List.nil_append, List.headD_cons, if_pos rfl]
      exact Threaded.next_eq hT
    | cons k kept =>
      have hk : k ≠ x := fun e => hx (e ▸ hkept k (by simp))
      rw [List.cons_append, List.headD_cons, if_neg hk]
      rfl

theorem Dpb.removeAllButCurrent_reaches (ok : Risk → Prop) (hc : c.HasCur) :
    Reaches ok c c.dpb.removeAllButCurrent fun c' => ∃ pre, c'.Emptied pre c'.dpb.uCurRef [] := by
  obtain ⟨pre, rest, hsplit, hhead⟩ := c.linked.entry
  unfold Dpb.removeAllButCurrent
  rw [hhead]
  have hI : c.Emptied pre c.dpb.uCurRef rest :=
    ⟨rfl, hc, [], by simpa using hsplit, by simp, by simpa using hhead⟩
  refine (Reaches.walk (o := .decOrder) (J := LinkedDpb.Emptied pre c.dpb.uCurRef) ?_ hI
    ⟨pre, hsplit⟩).mono fun c' h => ⟨pre, h.uCurRef.symm ▸ h⟩
  intro c1 x rest hI1 hs1
  obtain ⟨pre1, hpre1⟩ := hs1
  have hT := c1.linked.spells .decOrder
  rw [hpre1] at hT
  have hx : c1.dpb.InDpb x := (c1.linked.mem_order .decOrder).mp (by simp [hpre1])
  have hnext : (c1.dpb.nodes x).uNextDecOrder = rest.headD uEndOfList := Threaded.next_eq hT
  by_cases hcur : x = c1.dpb.uCurRef
  · refine ⟨c1, rest, by simp [← hcur, hnext], .refl, le_rfl, ?_, pre1 ++ [x], by simp [hpre1]⟩
    obtain ⟨kept, hsplit1, hkept, hhead1⟩ := hI1.split
    refine ⟨hI1.uCurRef, hI1.inDpb, kept ++ [x], by simp [hsplit1], ?_, by simpa using hhead1⟩
    intro i hi
    rcases List.mem_append.mp hi with hi | hi
    · exact hkept i hi
    · rw [List.mem_singleton.mp hi, hcur, hI1.uCurRef]
  · have hxc : x ≠ c.dpb.uCurRef := hI1.uCurRef ▸ hcur
    obtain ⟨c2, hd, he, ho, hs, hc2, hshow, hkeep⟩ :=
      Dpb.displayIf_reaches ok c1 hx !(c1.dpb.nodes x).nonExisting
    have hp : (c2.dpb.nodes x).picOutputFlag = true → (c2.dpb.nodes x).nonExisting = true := by
      cases hne : (c1.dpb.nodes x).nonExisting with
      | true =>
        intro _
        rw [hkeep (by simp [hne]), hne]
      | false =>
        intro h
        rw [hshow (by simp [hne])] at h
        exact absurd h (by simp)
    have hx2 : c2.dpb.InDpb x := (Dpb.inDpb_of_skeleton hs x).mpr hx
    have hedit : Edit ok c2 (c2.remove x hx2) := .remove hx2 (fun h => .inl (hp h)) rfl rfl
    refine ⟨c2.remove x hx2, rest, ?_, .tail he hedit, le_rfl,
      (hI1.of_same ho hs hc2).remove hxc hx2, pre1, ?_⟩
    · simp only [ne_eq, hcur, not_false_eq_true, if_true, hd, Option.bind_eq_bind,
        Option.bind_some, hnext]
      rfl
    · change (c2.order .decOrder).erase x = _
      rw [ho, hpre1, Threaded.erase_middle hT]

theorem Dpb.setAllPicAsUnused_reaches (ok : Risk → Prop) (hc : c.HasCur) (slice : AvcSliceHdr) :
    Reaches ok c (c.dpb.setAllPicAsUnused slice) LinkedDpb.HasCur := by
  refine (Dpb.removeAllButCurrent_reaches ok hc).bind ?_
  rintro c1 ⟨pre, h1⟩
  have hs2 : (c1.dpb.modNode c1.dpb.uCurRef Node.restart).skeleton = c1.dpb.skeleton :=
    Dpb.skeleton_modNode fun _ => rfl
  let c2 := c1.withDpb _ hs2
  have hedit : Edit ok c1 c2 := .restart h1.only_current rfl rfl
  have hcur : c2.HasCur := (Dpb.inDpb_of_skeleton hs2 _).mpr h1.inDpb
  refine .of_edits (.single hedit) ?_
  have hk : ∀ d : Dpb, d.core = c2.dpb.core → Reaches ok c2 (some d) LinkedDpb.HasCur :=
    fun d hd => (Reaches.quiet ok hd).mono fun c3 h3 => hcur.of_skeleton
      (h3.1 ▸ Dpb.skeleton_of_core hd) (h3.1 ▸ Dpb.uCurRef_of_core hd)
  by_cases hn : slice.nalRefIdc ≠ 0
  · simp only [if_pos hn]
    exact hk _ rfl
  · simp only [if_neg hn]
    exact hk _ rfl

theorem Dpb.decodingMaxLongTermFrameIdx_reaches (ok : Risk → Prop)
    (hc : c.HasCur) (slice : AvcSliceHdr) (iIdx : ℕ) :
    Reaches ok c (c.dpb.decodingMaxLongTermFrameIdx slice iIdx) LinkedDpb.HasCur := by
  refine (Dpb.dropLongTerm_reaches ok hc _).bind ?_
  rintro c1 ⟨hc1, -⟩
  have hq : ∀ v, (c1.dpb.setMaxLongTermFrameIdx v).core = c1.dpb.core := fun _ => rfl
  refine (Reaches.quiet ok (hq _)).mono ?_
  rintro c2 ⟨hd, -⟩
  exact hc1.of_skeleton (hd ▸ rfl) (hd ▸ rfl)

theorem Dpb.memoryControl_reaches (hc : c.HasCur) (slice : AvcSliceHdr)
    (x : MmcoIdx) (op : ℕ) (hr : ∀ r ∈ c.dpb.memoryControlRisks slice x op, ok r) :
    Reaches ok c (c.dpb.memoryControl slice x op) LinkedDpb.HasCur := by
  match op with
  | 1 => exact Dpb.shortTermToUnused_reaches hc slice x.idx1
  | 2 =>
    have h := Dpb.dropLongTerm_reaches ok hc
      fun n => n.iLongTermPicNum = slice.longTermPicNum.getD x.idx2 0
    exact h.mono fun _ h => h.1
  | 3 => exact Dpb.longTermFrameIdxToAShortTerm_reaches hc slice x hr
  | 4 => exact Dpb.decodingMaxLongTermFrameIdx_reaches ok hc slice x.idx4
  | 5 => exact Dpb.setAllPicAsUnused_reaches ok hc slice
  | 6 => exact Dpb.assignLongTermFrameIdx_reaches hc slice x hr
  | 0 => exact .done hc
  | n + 7 => exact .done hc

variable {slice : AvcSliceHdr}

theorem Dpb.memoryControlLoop_reaches {ops : List ℕ} {x : MmcoIdx} (hc : c.HasCur) (hend : 0 ∈ ops)
    (hr : ∀ r ∈ memoryControlLoopRisks slice ops x c.dpb, ok r) :
    Reaches ok c (memoryControlLoop slice ops x c.dpb) LinkedDpb.HasCur := by
  induction ops generalizing x c with
  | nil => exact absurd hend (by simp)
  | cons op ops ih =>
    have h1 := Dpb.memoryControl_reaches hc slice x op fun r hm =>
      hr r (List.mem_append_left _ hm)
    obtain ⟨c1, hd, he, hc1⟩ := h1
    have hr1 : ∀ r ∈ if op = 0 then [] else memoryControlLoopRisks slice ops (x.advance op) c1.dpb,
        ok r := by
      intro r hm
      refine hr r (List.mem_append_right _ ?_)
      rw [hd]
      exact hm
    rw [Dpb.memoryControlLoop, hd]
    refine .of_edits he ?_
    by_cases hop : op = 0
    · simp only [Option.bind_eq_bind, Option.bind_some, if_pos hop]
      exact .done hc1
    · simp only [Option.bind_eq_bind, Option.bind_some, if_neg hop] at hr1 ⊢
      exact ih hc1 (by simpa [Ne.symm hop] using hend) hr1

theorem Dpb.adaptiveMarking_reaches (hc : c.HasCur)
    (hend : slice.MmcoTerminated) (hr : ∀ r ∈ c.dpb.markingRisks slice, ok r) :
    Reaches ok c (c.dpb.adaptiveMarking slice) LinkedDpb.HasCur := by
  unfold Dpb.adaptiveMarking
  split
  · next h =>
    refine Dpb.memoryControlLoop_reaches hc hend fun r hm => hr r ?_
    refine List.mem_append_left _ ?_
    rw [if_pos h]
    exact hm
  · exact .done hc

/-! ## Sliding window -/

theorem Dpb.slidingScan_spec (c : LinkedDpb) :
    ∃ s, c.dpb.slidingScan = some s ∧ s.uPosMin < maxDpbSize := by
  refine c.scan (o := .decOrder) (I := fun s : SlidingScan => s.uPosMin < maxDpbSize) ?_ (by decide)
    c.linked.entry
  intro u s hu hs
  refine ⟨_, _, rfl, .inr rfl, ?_⟩
  have hlt := c.linked.lt_of_mem hu
  simp only [SlidingScan.visit]
  split_ifs <;> assumption

theorem Dpb.slidingWindowMarking_reaches (slice : AvcSliceHdr)
    (hr : ∀ r ∈ c.dpb.slidingRisks slice, ok r) :
    Reaches ok c (c.dpb.slidingWindowMarking slice) fun _ => True := by
  obtain ⟨s, hs, hlt⟩ := Dpb.slidingScan_spec c
  simp only [Dpb.slidingRisks, hs] at hr
  simp only [Dpb.slidingWindowMarking, hs, Option.bind_eq_bind, Option.bind_some]
  by_cases hfull : c.dpb.windowFull slice s = true
  · rw [if_pos hfull] at hr ⊢
    have hs1 : (c.dpb.dropRef s.uPosMin).skeleton = c.dpb.skeleton :=
      Dpb.skeleton_modNode fun _ => rfl
    let c1 := c.withDpb _ hs1
    have hdrop : Edit ok c c1 := by
      refine .dropRef (u := s.uPosMin) ?_ rfl rfl
      by_cases hm : c.dpb.InDpb s.uPosMin ∧
          (c.dpb.nodes s.uPosMin).eMarkingFlag ≠ .unusedForRef
      · exact .inl hm
      · exact .inr (hr _ (List.mem_append_left _ (by simp [if_neg hm])))
    have hid : ((c.dpb.dropRef s.uPosMin).nodes s.uPosMin).uPicID =
        (c.dpb.nodes s.uPosMin).uPicID := by
      simp [Dpb.dropRef, Dpb.decCountRef, Node.setMarking]
    have hin : c1.dpb.InDpb s.uPosMin ↔ c.dpb.InDpb s.uPosMin := Dpb.inDpb_of_skeleton hs1 _
    refine .of_edits (.single hdrop) ?_
    split
    · next hne =>
      have hu : c1.dpb.InDpb s.uPosMin := by
        by_contra hnot
        have hreset : (c1.dpb.nodes s.uPosMin).bIsReset = true := by
          simpa [Dpb.InDpb, hlt] using hnot
        have := c1.linked.clean _ hreset hlt
        exact absurd (this.symm.trans hne) (by simp)
      exact .edit (c1.remove s.uPosMin hu) rfl (.remove hu (fun _ => .inl hne) rfl rfl) trivial
    · have hs2 : (c1.dpb.giveBackPicID s.uPosMin).skeleton = c1.dpb.skeleton :=
        (Dpb.skeleton_modNode fun _ => rfl :
          ((c1.dpb.releasePicID _).modNode s.uPosMin (Node.setPicID undefID)).skeleton = _)
      refine .edit (c1.withDpb _ hs2) rfl (.giveBackPicID ?_ rfl rfl) trivial
      by_cases hm : c.dpb.InDpb s.uPosMin ∨ (c.dpb.nodes s.uPosMin).uPicID = undefID
      · rcases hm with hm | hm
        · exact .inl (hin.mpr hm)
        · exact .inr (.inl (hid.trans hm))
      · exact .inr (.inr (hr _ (List.mem_append_right _ (by simp [if_neg hm]))))
  · rw [if_neg hfull]
    exact .done trivial

/-! ## The whole marking process -/

theorem Dpb.keepCurrentMarked_reaches (slice : AvcSliceHdr)
    (hr : ∀ r ∈ c.dpb.keepRisks slice, ok r) :
    Reaches ok c (some (c.dpb.keepCurrentMarked slice)) fun _ => True := by
  unfold Dpb.keepCurrentMarked
  split
  · next h =>
    have hs : (c.dpb.modNode c.dpb.uCurRef Node.shortTerm).skeleton = c.dpb.skeleton :=
      Dpb.skeleton_modNode fun _ => rfl
    have hedit : (c.dpb.InDpb c.dpb.uCurRef ∧
        (c.dpb.nodes c.dpb.uCurRef).eMarkingFlag ≠ .unusedForRef ∨ ok .remarkUnmarked) →
        Edit ok c (c.withDpb _ hs) := fun hu =>
      .remark (f := Node.shortTerm) (.inl rfl) rfl hu rfl rfl
    refine .edit (c.withDpb _ hs) rfl (hedit ?_) trivial
    by_cases hm : c.dpb.InDpb c.dpb.uCurRef ∧
        (c.dpb.nodes c.dpb.uCurRef).eMarkingFlag ≠ .unusedForRef
    · exact .inl hm
    · refine .inr (hr _ ?_)
      rw [Dpb.keepRisks, if_pos ⟨h.1, h.2, hm⟩]
      exact List.mem_singleton_self _
  · exact .done trivial

theorem Dpb.setCurrent_reaches (ok : Risk → Prop) (hc : c.HasCur) (v : ℕ) :
    Reaches ok c (some (c.dpb.modNode c.dpb.uCurRef (Node.setCurrent c.dpb.uCurRef v)))
      fun c' => c'.dpb = c.dpb.modNode c.dpb.uCurRef (Node.setCurrent c.dpb.uCurRef v) ∧
        c'.HasCur := by
  let u := c.dpb.uCurRef
  have hs1 : (c.dpb.modNode u (Node.setNodeID u)).skeleton = c.dpb.skeleton :=
    Dpb.skeleton_modNode fun _ => rfl
  have hs2 : (c.dpb.modNode u (Node.setCurrent u v)).skeleton = c.dpb.skeleton :=
    Dpb.skeleton_modNode fun _ => rfl
  have hk : (c.dpb.modNode u (Node.setCurrent u v)).core =
      (c.dpb.modNode u (Node.setNodeID u)).core :=
    Dpb.core_modNode_congr rfl
  have h1 : Edit ok c (c.withDpb _ hs1) := .setNodeID hc rfl rfl
  have h2 : Edit ok (c.withDpb _ hs1) (c.withDpb _ hs2) := .quiet hk rfl
  exact ⟨c.withDpb _ hs2, rfl, .tail (.single h1) h2, rfl, hc.of_skeleton hs2 rfl⟩

theorem Dpb.markIDR_core (d : Dpb) (slice : AvcSliceHdr) : (d.markIDR slice).core = d.core := by
  unfold Dpb.markIDR
  split
  · exact (Dpb.core_modNode rfl : (d.modNode d.uCurRef (Node.setLongTermFrameIdx 0)).core = _)
  · rfl

theorem Dpb.markingProcess_reaches (hc : c.HasCur) (slice : AvcSliceHdr)
    (hend : slice.MmcoTerminated) (hr : ∀ r ∈ (Op.markingProcess slice).risks c.dpb, ok r) :
    Reaches ok c (c.dpb.markingProcess slice) fun _ => True := by
  obtain ⟨c1, -, he1, hd1, hc1⟩ := Dpb.setCurrent_reaches ok hc slice.frameNum
  refine .of_edits he1 ?_
  simp only [Op.risks, ← hd1] at hr
  simp only [Dpb.markingProcess, ← hd1]
  by_cases hidr : slice.isIDR = true
  · rw [if_pos hidr]
    exact (Reaches.quiet ok (Dpb.markIDR_core c1.dpb slice)).mono fun _ _ => trivial
  · rw [if_neg hidr] at hr ⊢
    obtain ⟨c2, hd2, he2, hk2, -⟩ := Dpb.pictNumberProcess_reaches ok c1 slice
    have hc2 : c2.HasCur :=
      hc1.of_skeleton (Dpb.skeleton_of_core hk2) (Dpb.uCurRef_of_core hk2)
    simp only [hd2, Option.map_some, Option.getD_some] at hr
    rw [hd2]
    refine .of_edits he2 ?_
    obtain ⟨c3, hd3, he3, hc3⟩ := Dpb.adaptiveMarking_reaches hc2 hend hr
    rw [Dpb.markingRisks, hd3] at hr
    have hr3 := fun r hm => hr r (List.mem_append_right _ hm)
    obtain ⟨c4, hd4, he4, -⟩ := Dpb.slidingWindowMarking_reaches slice fun r hm =>
      hr3 r (List.mem_append_left _ hm)
    have hr4 : ∀ r ∈ c4.dpb.keepRisks slice, ok r := by
      intro r hm
      refine hr3 r (List.mem_append_right _ ?_)
      rw [hd4]
      exact hm
    simp only [Option.bind_eq_bind, Option.bind_some, hd3, hd4]
    exact .of_edits he3 (.of_edits he4 (Dpb.keepCurrentMarked_reaches slice hr4))

end VcuCodec
