import VcuCodec.DpbCleanup

/-!
# The clean-up of the buffer between AVC pictures

`AL_Dpb_AVC_Cleanup` goes along the POC list twice.  The first pass removes what
is neither referred to nor waits.  The second one makes room: as long as the
buffer holds more pictures than it may, a picture that nothing refers to is
displayed, together with the waiting references in front of it, and removed.
-/

namespace VcuCodec

open LinkedLists

/-! ## The limit is kept -/

namespace Dpb

variable {d : Dpb} {u : ℕ}

@[simp] theorem uNumRef_serveWaitingPicture : d.serveWaitingPicture.uNumRef = d.uNumRef := by
  simp only [Dpb.serveWaitingPicture, Dpb.fillWaitingPicture]
  split_ifs <;> rfl

theorem uNumRef_remove (hu : u ≠ uEndOfList) : (d.remove u).uNumRef = d.uNumRef := by
  have hl : (d.unlinkNode u).uNumRef = d.uNumRef :=
    congrArg (fun d => d.uNumRef) (d.unlinkNode_unlinked u)
  have hv : (d.vacate u).uNumRef = d.uNumRef := by
    rw [← hl]
    simp only [Dpb.vacate]
    split_ifs <;> rfl
  rw [remove_eq hu, ← hv]
  split
  · exact uNumRef_serveWaitingPicture
  · exact uNumRef_serveWaitingPicture

theorem uNumRef_displayNode : (d.displayNode u).uNumRef = d.uNumRef := by
  unfold Dpb.displayNode
  split_ifs <;> rfl

theorem uNumRef_foldl_displayNode (d : Dpb) (l : List ℕ) :
    (l.foldl Dpb.displayNode d).uNumRef = d.uNumRef := by
  induction l generalizing d with
  | nil => rfl
  | cons u l ih => exact (ih _).trans uNumRef_displayNode

end Dpb

theorem LinkedDpb.uNumRef_display {c c' : LinkedDpb} {pre rest : List ℕ} {u : ℕ}
    (ho : c.order .poc = pre ++ u :: rest) (hd : c.dpb.display u = some c'.dpb) :
    c'.dpb.uNumRef = c.dpb.uNumRef := by
  have heq := Option.some.inj ((Dpb.display_eq c ho).symm.trans hd)
  rw [← heq]
  exact Dpb.uNumRef_foldl_displayNode _ _

/-! ## The first pass -/

/-- Neither referred to nor waiting. -/
def Dpb.isUseless (d : Dpb) (i : ℕ) : Bool := d.isUnused i && !d.waits i

theorem OutputPass.handed_none {ι : Type*} (waits : ι → Bool) (done : List ι) :
    OutputPass.handed waits (fun _ => false) done = [] := by
  unfold OutputPass.handed
  have hall : done.rdropWhile (fun _ => !false) = [] :=
    List.rdropWhile_eq_nil_iff.mpr fun _ _ => rfl
  rw [hall, List.filter_nil]

/-- The first pass is one in which nothing is due. -/
theorem Dpb.removeUseless_treated (c : LinkedDpb) (he : c.ExistingWait) :
    ∃ c', c.dpb.removeUseless = some c'.dpb ∧ c'.dpb.uNumRef = c.dpb.uNumRef ∧
      c.Treated ((c.order .poc).filter fun i => !c.dpb.isUseless i) [] c' := by
  let due : ℕ → Bool := fun _ => false
  have hwalk : Reaches (fun _ => True) c c.dpb.removeUseless fun c' =>
      ∃ done, c'.dpb.uNumRef = c.dpb.uNumRef ∧ c.TreatedUpTo due done [] c' := by
    unfold Dpb.removeUseless
    rw [c.linked.head_poc]
    refine Reaches.walk (o := .poc)
      (J := fun c1 rest => ∃ done, c1.dpb.uNumRef = c.dpb.uNumRef ∧ c.TreatedUpTo due done rest c1)
      ?_ ⟨[], rfl, rfl, .refl c⟩ ⟨[], rfl⟩
    rintro c1 u rest ⟨done, hn, h⟩ -
    have hnext := LinkedDpb.uNextPOC_eq h.2.pictures
    obtain ⟨c2, shown, hd2, he2, -, -, h2⟩ := h.displayIf he (fun hx => absurd hx (by simp [due]))
    obtain ⟨c3, hd3, he3, h3⟩ := h.removeIf (fun hx => absurd hx (by simp [due])) h2
    have hd2 : c1.dpb = c2.dpb := Option.some.inj hd2
    have hend : u ≠ uEndOfList := Threaded.ne_nil (c1.linked.spells .poc) (by simp [h.2.pictures])
    rw [← hd2] at hd3
    have hkept : c3.dpb.uNumRef = c1.dpb.uNumRef := by
      rw [← hd3]
      split
      · exact Dpb.uNumRef_remove hend
      · rfl
    refine ⟨c3, rest, ?_, he2.trans he3, le_rfl, ⟨_, hkept.trans hn, h3⟩, _, h3.2.pictures⟩
    rw [← hd3]
    by_cases hl : c1.dpb.isUnused u = true ∧ c1.dpb.waits u = false
    · have hl' : (c1.dpb.nodes u).eMarkingFlag = .unusedForRef ∧
          (c1.dpb.nodes u).picOutputFlag = false := ⟨of_decide_eq_true hl.1, hl.2⟩
      simp only [if_pos hl, if_pos hl', hnext]
    · have hl' : ¬ ((c1.dpb.nodes u).eMarkingFlag = .unusedForRef ∧
          (c1.dpb.nodes u).picOutputFlag = false) := fun hx => hl ⟨decide_eq_true hx.1, hx.2⟩
      simp only [if_neg hl, if_neg hl', hnext]
  obtain ⟨c', hd', -, done, hn, horder, h⟩ := hwalk
  rw [List.append_nil] at horder h
  rw [OutputPass.handed_none, ← horder] at h
  refine ⟨c', hd', hn, ?_⟩
  simpa [LinkedDpb.staying, Dpb.isUseless, due] using h

/-! ## The second pass -/

/-- The buffer in front of the turn of the first picture of `rest`, or at an
early end. -/
def LinkedDpb.RoomUpTo (c : LinkedDpb) (rest : List ℕ) (c1 : LinkedDpb) : Prop :=
  c1.dpb.uNumRef = c.dpb.uNumRef ∧ ∃ done rest', c.TreatedUpTo c.dpb.isUnused done rest' c1 ∧
    (rest' = rest ∨ rest = [] ∧ c1.dpb.uCountPic ≤ c1.dpb.uNumRef)

/-- The second pass is one in which every picture is due that nothing refers to. -/
theorem Dpb.removeUnused_room (c : LinkedDpb) (he : c.ExistingWait)
    (huse : ∀ i ∈ c.order .poc, c.dpb.isUseless i = false) :
    ∃ c', c.dpb.removeUnused = some c'.dpb ∧ c.RoomUpTo [] c' := by
  have hwalk : Reaches (fun _ => True) c c.dpb.removeUnused fun c' => c.RoomUpTo [] c' := by
    unfold Dpb.removeUnused
    rw [c.linked.head_poc]
    refine Reaches.walk (o := .poc) (J := fun c1 rest => c.RoomUpTo rest c1) ?_
      ⟨rfl, [], _, ⟨rfl, .refl c⟩, Or.inl rfl⟩ ⟨[], rfl⟩
    rintro c1 u rest ⟨hn, done, rest', h, hrest⟩ -
    obtain rfl : rest' = u :: rest := hrest.resolve_right fun hx => absurd hx.1 (by simp)
    have hnext := LinkedDpb.uNextPOC_eq h.2.pictures
    have hmem : u ∈ c.order .poc := by simp [h.1]
    have hend : u ≠ uEndOfList := Threaded.ne_nil (c.linked.spells .poc) hmem
    have hdue : c.dpb.isUnused u = true → c.dpb.waits u = true := fun hx => by
      have := huse u hmem
      simpa [Dpb.isUseless, hx] using this
    by_cases hfull : c1.dpb.uNumRef < c1.dpb.uCountRef ∨ c1.dpb.uNumRef < c1.dpb.uCountPic
    · obtain ⟨c2, shown, hd2, he2, -, -, h2⟩ := h.displayIf he hdue
      obtain ⟨c3, hd3, he3, h3⟩ := h.removeIf hdue h2
      have hleaves := h.leaves_iff hdue h2
      have hmark : c1.dpb.isUnused u = c.dpb.isUnused u := h.2.isUnused_eq (by simp)
      cases hu : c.dpb.isUnused u with
      | true =>
        have hm : (c1.dpb.nodes u).eMarkingFlag = .unusedForRef := of_decide_eq_true (hmark.trans hu)
        rw [hu] at hd2
        have hgone := hleaves.mp (by simp [hu])
        rw [if_pos hgone] at hd3
        have hkept : c3.dpb.uNumRef = c1.dpb.uNumRef := by
          rw [← hd3, Dpb.uNumRef_remove hend]
          exact LinkedDpb.uNumRef_display h.2.pictures hd2
        refine ⟨c3, rest, ?_, he2.trans he3, le_rfl, ⟨hkept.trans hn, _, _, h3, Or.inl rfl⟩, _,
          h3.2.pictures⟩
        have hd2 : c1.dpb.display u = some c2.dpb := hd2
        simp only [if_pos hfull, if_pos hm, hd2, hd3, hnext, Option.bind_eq_bind, Option.bind_some]
      | false =>
        have hm : (c1.dpb.nodes u).eMarkingFlag ≠ .unusedForRef := fun hx => by
          have := hmark.trans hu
          simp [Dpb.isUnused, hx] at this
        rw [hu] at hd2
        have hd2 : c1.dpb = c2.dpb := Option.some.inj hd2
        have hstay : ¬ (c2.dpb.isUnused u = true ∧ c2.dpb.waits u = false) := fun hx => by
          have := hleaves.mpr hx
          simp [hu] at this
        rw [if_neg hstay, ← hd2] at hd3
        refine ⟨c3, rest, ?_, he2.trans he3, le_rfl, ⟨hd3 ▸ hn, _, _, h3, Or.inl rfl⟩, _,
          h3.2.pictures⟩
        rw [← hd3]
        simp only [if_pos hfull, if_neg hm, hnext]
    · refine ⟨c1, [], ?_, .refl, by simp, ⟨hn, done, _, h, Or.inr ⟨rfl, ?_⟩⟩, _,
        (List.append_nil _).symm⟩
      · simp only [if_neg hfull]
        rfl
      · exact not_lt.mp fun hx => hfull (Or.inr hx)
  obtain ⟨c', hd', -, h⟩ := hwalk
  exact ⟨c', hd', h⟩

/-! ## Both passes -/

theorem Dpb.DeletesSafely.trans {d d' : Dpb} {l l' : List ℕ} {es es' : List Event}
    (h : d.DeletesSafely l es) (h' : d'.DeletesSafely l' es') (hsub : ∀ i ∈ l', i ∈ l)
    (hbufs : ∀ i ∈ l', (d'.nodes i).uFrmID = (d.nodes i).uFrmID ∧
      (d'.nodes i).uMvID = (d.nodes i).uMvID)
    (hmarks : ∀ i ∈ l', d'.isUnused i = d.isUnused i ∧ d'.waits i = d.waits i) :
    d.DeletesSafely l (es ++ es') := by
  have hlate : ∀ as uFrmID uMvID post, es' = as ++ .deletePic uFrmID uMvID :: post →
      ∃ i ∈ l, (d.nodes i).uFrmID = uFrmID ∧ (d.nodes i).uMvID = uMvID ∧ d.isUnused i = true ∧
        (d.waits i = true → .outputFrmBuf uFrmID ∈ es ++ as) := by
    intro as uFrmID uMvID post heq
    obtain ⟨i, hi, hf, hm, hu, hw⟩ := h' as uFrmID uMvID post heq
    refine ⟨i, hsub i hi, (hbufs i hi).1.symm.trans hf, (hbufs i hi).2.symm.trans hm,
      (hmarks i hi).1.symm.trans hu, fun hx => ?_⟩
    exact List.mem_append_right _ (hw ((hmarks i hi).2.trans hx))
  intro pre uFrmID uMvID post heq
  rcases List.append_eq_append_iff.mp heq with ⟨as, rfl, hes'⟩ | ⟨bs, rfl, hbs⟩
  · exact hlate as uFrmID uMvID post hes'
  · cases bs with
    | nil =>
      have := hlate [] uFrmID uMvID post hbs.symm
      simpa using this
    | cons b bs =>
      rw [List.cons_append, List.cons.injEq] at hbs
      exact h pre uFrmID uMvID bs (by rw [hbs.1])

theorem LinkedDpb.Treated.trans {c c1 c2 : LinkedDpb} {left left' handed : List ℕ}
    (h : c.Treated left [] c1) (h' : c1.Treated left' handed c2) (hl : ∀ i ∈ left, i ∈ c.order .poc)
    (hl' : ∀ i ∈ left', i ∈ left) (hh : ∀ i ∈ handed, i ∈ left) : c.Treated left' handed c2 := by
  obtain ⟨es, hlog, houts, hsafe⟩ := h.events
  obtain ⟨es', hlog', houts', hsafe'⟩ := h'.events
  rw [h.pictures] at hsafe'
  have hfrm : ∀ i ∈ left, (c1.dpb.nodes i).uFrmID = (c.dpb.nodes i).uFrmID := fun i hi =>
    h.field_eq hi Node.uFrmID (fun _ => rfl) fun _ => rfl
  refine ⟨h'.pictures, fun i hi => ?_, es ++ es', ?_, ?_, hsafe.trans hsafe' hl (fun i hi => ?_)
    fun i hi => ?_⟩
  · have hn : (c1.dpb.nodes i).plain = (c.dpb.nodes i).plain := by simpa using h.nodes i (hl' i hi)
    rw [h'.nodes i hi, ← hn]
    split
    · exact (congrArg (fun n => n.displayed.plain) hn :
        (c1.dpb.nodes i).plain.displayed.plain = _)
    · rfl
  · rw [hlog', hlog, List.append_assoc]
  · rw [List.filterMap_append, houts, houts', List.map_nil, List.nil_append]
    exact List.map_congr_left fun i hi => hfrm i (hh i hi)
  · exact ⟨hfrm i hi, h.field_eq hi Node.uMvID (fun _ => rfl) fun _ => rfl⟩
  · exact ⟨h.isUnused_eq hi, by simpa using h.waits_eq hi⟩

theorem LinkedDpb.Treated.serve {c c' : LinkedDpb} {left handed : List ℕ}
    (h : c.Treated left handed c') : c.Treated left handed
      (c'.withDpb _ c'.dpb.skeleton_serveWaitingPicture) := by
  refine ⟨h.pictures, fun i hi => ?_, ?_⟩
  · exact Dpb.plain_serveWaitingPicture.trans (h.nodes i hi)
  · obtain ⟨es, hlog, hes⟩ := h.events
    exact ⟨es, Dpb.log_serveWaitingPicture.trans hlog, hes⟩

/-! ## What the clean-up is for -/

/-- The buffer `d'` after the clean-up of `d`, the POC list of which is `l`:
there is room, or every picture is a reference; the pictures `out` were output
in order; and none was removed while it was needed. -/
structure Dpb.MadeRoom (d d' : Dpb) (l out : List ℕ) : Prop where
  count : d'.uCountPic = ((List.range maxDpbSize).filter fun i => decide (d'.InDpb i)).length
  room : d'.uCountPic ≤ d.uNumRef ∨ ∀ i, d'.InDpb i → d'.isUnused i = false
  outputs : d'.outputs = d.outputs ++ out.map fun i => (d.nodes i).uFrmID
  waited : out.Nodup ∧ ∀ i ∈ out, d.InDpb i ∧ d.waits i = true
  ascending : out.Pairwise fun i j => (d.nodes i).iFramePOC ≤ (d.nodes j).iFramePOC
  removed : ∀ i, d.InDpb i → ¬ d'.InDpb i → d.isUnused i = true ∧ (d.waits i = true → i ∈ out)
  deletes : ∃ es, d'.log = d.log ++ es ∧ d.DeletesSafely l es

theorem LinkedDpb.count_eq (c : LinkedDpb) : c.dpb.uCountPic =
    ((List.range maxDpbSize).filter fun i => decide (c.dpb.InDpb i)).length := by
  have hperm : ((List.range maxDpbSize).filter fun i => decide (c.dpb.InDpb i)).Perm
      (c.order .poc) := by
    apply (List.perm_ext_iff_of_nodup (List.nodup_range.filter _) (c.linked.spells .poc).nodup).mpr
    intro i
    rw [List.mem_filter, List.mem_range, decide_eq_true_iff, c.mem_order]
    exact ⟨fun h => h.2, fun h => ⟨h.1, h⟩⟩
  rw [c.linked.count, hperm.length_eq]

/-- Whatever the pictures, `AL_Dpb_AVC_Cleanup` ends and makes room. -/
theorem Dpb.avcCleanup_madeRoom (c : LinkedDpb) (he : c.ExistingWait)
    (hs : (c.order .poc).Pairwise fun i j =>
      (c.dpb.nodes i).iFramePOC ≤ (c.dpb.nodes j).iFramePOC) :
    ∃ d' out, c.dpb.avcCleanup = some d' ∧ c.dpb.MadeRoom d' (c.order .poc) out := by
  obtain ⟨c1, hd1, hn1, h1⟩ := Dpb.removeUseless_treated c he
  have hsub1 : ∀ i ∈ (c.order .poc).filter fun i => !c.dpb.isUseless i, i ∈ c.order .poc :=
    fun i hi => List.mem_of_mem_filter hi
  have hunused : ∀ i ∈ c1.order .poc, c1.dpb.isUnused i = c.dpb.isUnused i := fun i hi =>
    h1.isUnused_eq (h1.pictures ▸ hi)
  have hwaits : ∀ i ∈ c1.order .poc, c1.dpb.waits i = c.dpb.waits i := fun i hi => by
    simpa using h1.waits_eq (h1.pictures ▸ hi)
  have huse : ∀ i ∈ c1.order .poc, c1.dpb.isUseless i = false := fun i hi => by
    have hi' := hi
    rw [h1.pictures] at hi'
    unfold Dpb.isUseless
    rw [hunused i hi, hwaits i hi]
    exact (Bool.not_eq_true' _).mp (List.mem_filter.mp hi').2
  obtain ⟨c2, hd2, hn2, done, rest, h2, hrest⟩ :=
    Dpb.removeUnused_room c1 (h1.existingWait he hsub1) huse
  let out := OutputPass.handed c1.dpb.waits c1.dpb.isUnused done
  have hout : out.Sublist (c1.order .poc) := by
    rw [h2.1]
    exact OutputPass.handed_sublist.trans (List.sublist_append_left _ _)
  have hout' : out.Sublist (c.order .poc) := hout.trans (h1.pictures ▸ List.filter_sublist)
  have hleft : ∀ i ∈ c1.staying c1.dpb.isUnused done ++ rest, i ∈ c1.order .poc := fun i hi => by
    rw [h2.1, List.mem_append]
    exact (List.mem_append.mp hi).imp_left fun hi => List.mem_of_mem_filter hi
  have hc2 : c.Treated (c1.staying c1.dpb.isUnused done ++ rest) out c2 :=
    h1.trans h2.2 hsub1 (fun i hi => h1.pictures ▸ hleft i hi) fun i hi =>
      h1.pictures ▸ hout.subset hi
  let c3 := c2.withDpb _ c2.dpb.skeleton_serveWaitingPicture
  have h3 : c.Treated (c1.staying c1.dpb.isUnused done ++ rest) out c3 := hc2.serve
  have hcount : c3.dpb.uCountPic = c2.dpb.uCountPic := by
    rw [c3.linked.count, c2.linked.count]
    rfl
  refine ⟨c3.dpb, out, ?_, c3.count_eq, ?_, ?_, ⟨?_, fun i hi => ⟨?_, ?_⟩⟩, hs.sublist hout',
    fun i hi hnot => ?_, ?_⟩
  · unfold Dpb.avcCleanup
    rw [hd1, Option.bind_eq_bind, Option.bind_some, hd2]
    rfl
  · rcases hrest with rfl | ⟨-, hroom⟩
    · refine Or.inr fun i hi => ?_
      have hmem : i ∈ c1.staying c1.dpb.isUnused done ++ [] := h3.pictures ▸ c3.mem_order.mpr hi
      have hstay : i ∈ c1.staying c1.dpb.isUnused done := by simpa using hmem
      rw [h3.isUnused_eq hmem, ← hunused i (hleft i hmem)]
      have := (List.mem_filter.mp hstay).2
      cases hu : c1.dpb.isUnused i with
      | false => rfl
      | true => simp [hu] at this
    · rw [hn2, hn1] at hroom
      exact Or.inl (hcount ▸ hroom)
  · obtain ⟨es, hlog, houts, -⟩ := h3.events
    unfold Dpb.outputs
    rw [hlog, List.filterMap_append, houts]
  · exact (c.linked.spells .poc).nodup.sublist hout'
  · exact c.mem_order.mp (hout'.subset hi)
  · rw [← hwaits i (hout.subset hi)]
    exact (List.mem_filter.mp hi).2
  · have hin := (c.mem_order (o := .poc)).mpr hi
    by_cases hl : c.dpb.isUseless i = true
    · -- it left in the first pass
      obtain ⟨hu, hw⟩ := Bool.and_eq_true_iff.mp hl
      exact ⟨hu, fun hx => by simp [hx] at hw⟩
    · have hin1 : i ∈ c1.order .poc := by
        rw [h1.pictures]
        exact List.mem_filter.mpr ⟨hin, by simpa using hl⟩
      have hgone : i ∉ c1.staying c1.dpb.isUnused done ++ rest := fun hx =>
        hnot (c3.mem_order.mp (h3.pictures.symm ▸ hx : i ∈ c3.order .poc))
      have hdone : i ∈ done := by
        rw [h2.1, List.mem_append] at hin1
        exact hin1.resolve_right fun hx => hgone (List.mem_append_right _ hx)
      have hu : c1.dpb.isUnused i = true := by
        by_contra hno
        refine hgone (List.mem_append_left _ (List.mem_filter.mpr ⟨hdone, ?_⟩))
        simp [Bool.eq_false_iff.mpr hno]
      refine ⟨(hunused i hin1).symm.trans hu, fun hw => ?_⟩
      obtain ⟨xs, ys, hsplit⟩ := List.append_of_mem hdone
      have hnd : done.Nodup := by
        have := (c1.linked.spells .poc).nodup
        rw [h2.1] at this
        exact this.of_append_left
      exact (OutputPass.mem_handed_iff hsplit hnd).mpr
        ⟨(hwaits i hin1).trans hw, i, List.mem_cons_self, hu⟩
  · obtain ⟨es, hlog, -, hsafe⟩ := h3.events
    exact ⟨es, hlog, hsafe⟩

/-- Three pictures in a buffer for one: a reference that waits, a picture that
nothing refers to and that waits behind it, and one that was displayed. -/
def Op.crowded : List Op :=
  [.insert (.sample 0 0 .unusedForRef), .display 0, .insert (.sample 1 4 .shortTermRef),
    .insert (.sample 2 8 .unusedForRef)]

theorem Dpb.avcCleanup_madeRoom_crowded : ∃ (c : LinkedDpb) (d' : Dpb) (out : List ℕ),
    (Dpb.zeroed.init 1 .normal).run Op.crowded = some c.dpb ∧ c.dpb.avcCleanup = some d' ∧
      c.dpb.MadeRoom d' (c.order .poc) out := by
  obtain ⟨c, hr, hs, hw⟩ := Dpb.waiting_of_run .zeroed 1 .normal Op.crowded (by decide +kernel)
  obtain ⟨d', out, hd', h⟩ := Dpb.avcCleanup_madeRoom c hw.existing hs.poc
  exact ⟨c, d', out, hr, hd', h⟩

end VcuCodec
