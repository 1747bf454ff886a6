import Mathlib.Data.List.DropRight
import VcuCodec.DpbOutput

/-!
# The clean-up of the buffer between HEVC pictures

`AL_Dpb_HEVC_Cleanup` goes once along the POC list.  A waiting picture is due
where its latency has reached the limit or where too many pictures wait from it
on; a picture that is due is displayed together with the waiting ones in front
of it.  A picture leaves the buffer in its own turn or not at all, so one that
is displayed in the turn of a later picture stays, even if nothing refers to it.
-/

namespace VcuCodec

open LinkedLists

/-! ## One pass over a list -/

namespace OutputPass

variable {ι : Type*}

/-- What a pass over `done` hands out: the waiting elements up to the last due one. -/
def handed (waits due : ι → Bool) (done : List ι) : List ι := (done.rdropWhile fun i => !due i).filter waits

/-- The elements behind the last due one. -/
def behind (due : ι → Bool) (done : List ι) : List ι := done.rtakeWhile fun i => !due i

variable {waits due : ι → Bool} {done : List ι} {i u : ι}

theorem split (due : ι → Bool) (done : List ι) : (done.rdropWhile fun i => !due i) ++ behind due done = done :=
  List.rdropWhile_append_rtakeWhile

theorem not_due (hi : i ∈ behind due done) : due i = false := by
  have h := List.mem_rtakeWhile_imp hi
  simpa using h

theorem handed_sublist : (handed waits due done).Sublist done :=
  List.filter_sublist.trans (List.rdropWhile_prefix _ _).sublist

theorem handed_append (waits due : ι → Bool) (done : List ι) (u : ι) :
    handed waits due (done ++ [u]) =
      if due u then (done ++ [u]).filter waits else handed waits due done := by
  unfold handed
  rw [List.rdropWhile_concat]
  by_cases hu : due u = true <;> simp [hu]

theorem handed_append_behind (waits due : ι → Bool) (done : List ι) :
    handed waits due done ++ (behind due done).filter waits = done.filter waits := by
  unfold handed
  rw [← List.filter_append, split]

/-- What waits and was not handed out is behind the last due element. -/
theorem filter_notMem_handed [DecidableEq ι] (hnd : done.Nodup) :
    done.filter (fun i => decide (i ∉ handed waits due done) && waits i) =
      (behind due done).filter waits := by
  have hdis := List.disjoint_of_nodup_append ((split due done).symm ▸ hnd)
  conv_lhs => rw [← split due done]
  rw [List.filter_append]
  have hfront : (done.rdropWhile fun i => !due i).filter
      (fun i => decide (i ∉ handed waits due done) && waits i) = [] := by
    apply List.filter_eq_nil_iff.mpr
    intro i hi hw
    simp only [Bool.and_eq_true, decide_eq_true_eq] at hw
    exact hw.1 (List.mem_filter.mpr ⟨hi, hw.2⟩)
  have hback : (behind due done).filter
      (fun i => decide (i ∉ handed waits due done) && waits i) = (behind due done).filter waits := by
    apply List.filter_congr
    intro i hi
    have hnot : i ∉ handed waits due done := fun h => hdis (List.mem_filter.mp h).1 hi
    simp [hnot]
  simp only [split] at hfront hback ⊢
  rw [hfront, hback, List.nil_append]

theorem exists_first_waiting (h : ∃ i ∈ behind due done, waits i = true) :
    ∃ xs w ys, behind due done = xs ++ w :: ys ∧ (∀ i ∈ xs, waits i = false) ∧ waits w = true ∧
      due w = false := by
  obtain ⟨i, hi, hw⟩ := h
  obtain ⟨w, hfind⟩ := Option.isSome_iff_exists.mp (List.find?_isSome.mpr ⟨i, hi, hw⟩)
  obtain ⟨hw, xs, ys, heq, hxs⟩ := List.find?_eq_some_iff_append.mp hfind
  have hmem : w ∈ behind due done := by simp [heq]
  exact ⟨xs, w, ys, heq, by simpa using hxs, hw, not_due hmem⟩

/-- An element is not behind the last due one exactly if one from it on is due. -/
theorem mem_rdropWhile_iff {l xs ys : List ι} (hl : l = xs ++ i :: ys) (hnd : l.Nodup) :
    (i ∈ l.rdropWhile fun i => !due i) ↔ ∃ j ∈ i :: ys, due j = true := by
  constructor
  · intro hi
    by_contra hno
    have hall : ∀ j ∈ (i :: ys).reverse, (!due j) = true := fun j hj => by
      cases hj' : due j with
      | false => rfl
      | true => exact absurd ⟨j, List.mem_reverse.mp hj, hj'⟩ hno
    have hmem : i ∈ xs := by
      unfold List.rdropWhile at hi
      rw [hl, List.reverse_append, List.dropWhile_append_of_pos hall, List.mem_reverse] at hi
      exact List.mem_reverse.mp ((List.dropWhile_sublist _).subset hi)
    rw [hl] at hnd
    exact List.disjoint_of_nodup_append hnd hmem List.mem_cons_self
  · rintro ⟨j, hj, hdue⟩
    have hsplit : (l.rdropWhile fun i => !due i) ++ behind due l = xs ++ i :: ys :=
      (split due l).trans hl
    rcases List.append_eq_append_iff.mp hsplit with ⟨as, -, hbehind⟩ | ⟨bs, hfront, hbs⟩
    · have hmem : j ∈ behind due l := by
        rw [hbehind]
        exact List.mem_append_right _ hj
      exact absurd hdue (by simp [not_due hmem])
    · cases bs with
      | nil =>
        have hmem : j ∈ behind due l := by
          rw [List.nil_append] at hbs
          exact hbs ▸ hj
        exact absurd hdue (by simp [not_due hmem])
      | cons b bs =>
        rw [List.cons_append, List.cons.injEq] at hbs
        rw [hfront, hbs.1]
        simp

theorem mem_handed_iff {l xs ys : List ι} (hl : l = xs ++ i :: ys) (hnd : l.Nodup) :
    i ∈ handed waits due l ↔ waits i = true ∧ ∃ j ∈ i :: ys, due j = true := by
  unfold handed
  rw [List.mem_filter, mem_rdropWhile_iff hl hnd, and_comm]

end OutputPass

/-! ## Pictures that are due -/

namespace Dpb

/-- The number of pictures that wait from picture `i` of the POC list `l` on. -/
def waitingFrom (d : Dpb) (l : List ℕ) (i : ℕ) : ℕ := (l.dropWhile (· != i)).countP d.waits

/-- The latency of the picture has reached the limit. -/
def isLate (d : Dpb) (uMaxLatency i : ℕ) : Bool := uMaxLatency ≤ (d.nodes i).uPicLatency

/-- The picture is displayed in its own turn. -/
def isDue (d : Dpb) (l : List ℕ) (uMaxLatency maxNumOutput i : ℕ) : Bool :=
  d.waits i && (d.isLate uMaxLatency i || decide (maxNumOutput < d.waitingFrom l i))

/-- No picture refers to the picture. -/
def isUnused (d : Dpb) (i : ℕ) : Bool := (d.nodes i).eMarkingFlag = .unusedForRef

/-- The picture leaves the buffer in its turn. -/
def leaves (d : Dpb) (l : List ℕ) (uMaxLatency maxNumOutput i : ℕ) : Bool :=
  d.isUnused i && (!d.waits i || d.isDue l uMaxLatency maxNumOutput i)

variable {d : Dpb} {l done rest : List ℕ} {u uMaxLatency maxNumOutput : ℕ}

theorem waitingFrom_eq (hl : l = done ++ u :: rest) (hnd : l.Nodup) :
    d.waitingFrom l u = (u :: rest).countP d.waits := by
  have hu : ∀ i ∈ done, (i != u) = true := fun i hi => by
    rw [hl] at hnd
    have hdis := List.disjoint_of_nodup_append hnd
    exact bne_iff_ne.mpr fun e => hdis hi (by simp [e])
  unfold waitingFrom
  rw [hl, List.dropWhile_append_of_pos hu, List.dropWhile_cons_of_neg (by simp)]

/-- The counter, less what was handed out, decides as the pictures from `u` on
do: where an earlier picture still waits, both are within the bound. -/
theorem due_iff (d : Dpb) (uMaxLatency maxNumOutput : ℕ) (hl : l = done ++ u :: rest)
    (hnd : l.Nodup) :
    maxNumOutput < (OutputPass.behind (d.isDue l uMaxLatency maxNumOutput) done ++
      u :: rest).countP d.waits ↔ maxNumOutput < d.waitingFrom l u := by
  let due := d.isDue l uMaxLatency maxNumOutput
  change maxNumOutput < (OutputPass.behind due done ++ u :: rest).countP d.waits ↔ _
  rw [waitingFrom_eq hl hnd, List.countP_append]
  by_cases hw : ∃ i ∈ OutputPass.behind due done, d.waits i = true
  · -- the first waiting picture behind the last due one is within the bound
    obtain ⟨xs, w, ys, hsplit, hxs, hwait, hdue⟩ := OutputPass.exists_first_waiting hw
    have hfront := OutputPass.split due done
    have hlw : l = ((done.rdropWhile fun i => !due i) ++ xs) ++ w :: (ys ++ u :: rest) := by
      rw [hl]
      conv_lhs => rw [← hfront, hsplit]
      simp
    have hbound : d.waitingFrom l w ≤ maxNumOutput := by
      have hno : (d.waits w && (d.isLate uMaxLatency w ||
          decide (maxNumOutput < d.waitingFrom l w))) = false := hdue
      rw [hwait, Bool.true_and, Bool.or_eq_false_iff, decide_eq_false_iff_not, not_lt] at hno
      exact hno.2
    have hzero : xs.countP d.waits = 0 := List.countP_eq_zero.mpr fun i hi => by simp [hxs i hi]
    rw [waitingFrom_eq hlw hnd, List.countP_cons, List.countP_append] at hbound
    rw [hsplit, List.countP_append, hzero, List.countP_cons]
    omega
  · have hzero : (OutputPass.behind due done).countP d.waits = 0 :=
      List.countP_eq_zero.mpr fun i hi h => hw ⟨i, hi, h⟩
    rw [hzero, Nat.zero_add]

end Dpb

/-! ## The state of the pass -/

/-- Each picture that the events delete was no reference of `d`, and its frame
was handed out before if it waited. -/
def Dpb.DeletesSafely (d : Dpb) (l : List ℕ) (es : List Event) : Prop :=
  ∀ pre uFrmID uMvID post, es = pre ++ .deletePic uFrmID uMvID :: post →
    ∃ i ∈ l, (d.nodes i).uFrmID = uFrmID ∧ (d.nodes i).uMvID = uMvID ∧ d.isUnused i = true ∧
      (d.waits i = true → .outputFrmBuf uFrmID ∈ pre)

namespace Dpb.DeletesSafely

variable {d : Dpb} {l : List ℕ} {es es' : List Event}

theorem append (h : d.DeletesSafely l es)
    (hno : ∀ e ∈ es', ∀ uFrmID uMvID, e ≠ .deletePic uFrmID uMvID) :
    d.DeletesSafely l (es ++ es') := by
  intro pre uFrmID uMvID post heq
  rcases List.append_eq_append_iff.mp heq with ⟨as, rfl, hes'⟩ | ⟨bs, rfl, hbs⟩
  · exact absurd rfl (hno _ (hes' ▸ by simp) uFrmID uMvID)
  · cases bs with
    | nil =>
      have hmem : Event.deletePic uFrmID uMvID ∈ es' := by
        rw [List.nil_append] at hbs
        simp [← hbs]
      exact absurd rfl (hno _ hmem uFrmID uMvID)
    | cons b bs =>
      rw [List.cons_append, List.cons.injEq] at hbs
      exact h pre uFrmID uMvID bs (by rw [hbs.1])

theorem delete (h : d.DeletesSafely l es) {i : ℕ} (hi : i ∈ l) (hu : d.isUnused i = true)
    (hw : d.waits i = true → .outputFrmBuf (d.nodes i).uFrmID ∈ es) :
    d.DeletesSafely l (es ++ [.deletePic (d.nodes i).uFrmID (d.nodes i).uMvID]) := by
  intro pre uFrmID uMvID post heq
  rcases List.append_eq_append_iff.mp heq with ⟨as, rfl, has⟩ | ⟨bs, rfl, hbs⟩
  · cases as with
    | nil =>
      rw [List.nil_append, List.cons.injEq, Event.deletePic.injEq] at has
      obtain ⟨⟨hf, hm⟩, -⟩ := has
      refine ⟨i, hi, hf, hm, hu, fun hx => ?_⟩
      rw [← hf, List.append_nil]
      exact hw hx
    | cons a as => simp at has
  · cases bs with
    | nil =>
      rw [List.nil_append, List.cons.injEq, Event.deletePic.injEq] at hbs
      obtain ⟨⟨hf, hm⟩, -⟩ := hbs
      refine ⟨i, hi, hf.symm, hm.symm, hu, fun hx => ?_⟩
      rw [hf]
      simpa using hw hx
    | cons b bs =>
      rw [List.cons_append, List.cons.injEq] at hbs
      exact h pre uFrmID uMvID bs (by rw [hbs.1])

end Dpb.DeletesSafely

/-- The buffer while the pictures of `c` are gone through: `left` are still in
it, and those of `handed` have been displayed. -/
structure LinkedDpb.Treated (c : LinkedDpb) (left handed : List ℕ) (c' : LinkedDpb) : Prop where
  pictures : c'.order .poc = left
  nodes : ∀ i ∈ left, (c'.dpb.nodes i).plain =
    if i ∈ handed then (c.dpb.nodes i).displayed.plain else (c.dpb.nodes i).plain
  events : ∃ es, c'.dpb.log = c.dpb.log ++ es ∧
    es.filterMap Event.outputFrm = handed.map (fun i => (c.dpb.nodes i).uFrmID) ∧
    c.dpb.DeletesSafely (c.order .poc) es

namespace LinkedDpb.Treated

variable {c c' c'' : LinkedDpb} {left left' handed : List ℕ} {i u : ℕ}

theorem refl (c : LinkedDpb) : c.Treated (c.order .poc) [] c := by
  refine ⟨rfl, fun i _ => rfl, [], (List.append_nil _).symm, rfl, fun pre _ _ _ hx => ?_⟩
  simp at hx

theorem waits_eq (h : c.Treated left handed c') (hi : i ∈ left) :
    c'.dpb.waits i = (decide (i ∉ handed) && c.dpb.waits i) := by
  change (c'.dpb.nodes i).plain.picOutputFlag = _
  rw [h.nodes i hi]
  by_cases hm : i ∈ handed
  · simp [hm, Node.displayed, Node.plain, Node.unlinked]
  · simp only [hm, if_false, not_false_eq_true, decide_true, Bool.true_and]
    rfl

theorem field_eq {α : Type*} (h : c.Treated left handed c') (hi : i ∈ left) (f : Node → α)
    (hp : ∀ n : Node, f n.plain = f n) (hd : ∀ n : Node, f n.displayed = f n) :
    f (c'.dpb.nodes i) = f (c.dpb.nodes i) := by
  rw [← hp, h.nodes i hi]
  split
  · rw [hp, hd]
  · exact hp _

theorem isUnused_eq (h : c.Treated left handed c') (hi : i ∈ left) :
    c'.dpb.isUnused i = c.dpb.isUnused i := by
  have := h.field_eq hi Node.eMarkingFlag (fun _ => rfl) fun _ => rfl
  unfold Dpb.isUnused
  rw [this]

theorem existingWait (h : c.Treated left handed c') (he : c.ExistingWait)
    (hsub : ∀ i ∈ left, i ∈ c.order .poc) : c'.ExistingWait := by
  intro i hi hx
  rw [h.pictures] at hi
  have hx' := h.field_eq hi Node.nonExisting (fun _ => rfl) fun _ => rfl
  rw [h.waits_eq hi, he i (hsub i hi) (hx'.symm.trans hx), Bool.and_false]

/-- A picture is displayed together with the waiting ones in front of it. -/
theorem display (h : c.Treated left handed c') {shown : List ℕ}
    (hd : c'.dpb.Displayed c''.dpb shown) (ho : c''.order = c'.order)
    (hsub : ∀ i ∈ shown, i ∈ left) : c.Treated left (handed ++ shown) c'' := by
  obtain ⟨es, hlog, houts, hsafe⟩ := h.events
  obtain ⟨es', hlog', hno⟩ := hd.kept
  have hfrm : shown.map (fun i => (c'.dpb.nodes i).uFrmID) =
      shown.map fun i => (c.dpb.nodes i).uFrmID := List.map_congr_left fun i hi =>
    h.field_eq (hsub i hi) Node.uFrmID (fun _ => rfl) fun _ => rfl
  refine ⟨by rw [ho, h.pictures], fun i hi => ?_, es ++ es', ?_, ?_, hsafe.append hno⟩
  · have hn := h.nodes i hi
    rw [hd.nodes]
    by_cases hs : i ∈ shown
    · have hdis : (c'.dpb.nodes i).displayed.plain = (c'.dpb.nodes i).plain.displayed := rfl
      rw [if_pos hs, if_pos (List.mem_append_right _ hs), hdis, hn]
      split <;> rfl
    · rw [if_neg hs, hn]
      simp [hs]
  · rw [hlog', hlog, List.append_assoc]
  · have hout := hd.outputs
    unfold Dpb.outputs at hout
    rw [hlog', List.filterMap_append, List.append_cancel_left_eq, hfrm] at hout
    rw [List.filterMap_append, houts, hout, List.map_append]

/-- A picture that nothing refers to and that does not wait leaves the buffer. -/
theorem remove {pre rest : List ℕ} (h : c.Treated (pre ++ u :: rest) handed c')
    (hsub : u ∈ c.order .poc) (hu : c'.dpb.isUnused u = true) (hw : c'.dpb.waits u = false)
    (hd : c''.dpb = c'.dpb.remove u) (ho : c''.order .poc = pre ++ rest) :
    c.Treated (pre ++ rest) handed c'' := by
  have hmem : u ∈ pre ++ u :: rest := by simp
  have hT := c'.linked.spells .poc
  rw [h.pictures] at hT
  have hend : u ≠ uEndOfList := Threaded.ne_nil hT hmem
  have hmark : (c'.dpb.nodes u).eMarkingFlag = .unusedForRef := of_decide_eq_true hu
  have hnot := Threaded.notMem_of_middle hT
  have hdisplayed : c.dpb.waits u = true → u ∈ handed := fun hx => by
    rw [h.waits_eq hmem, hx, Bool.and_true, decide_eq_false_iff_not, not_not] at hw
    exact hw
  obtain ⟨es, hlog, houts, hsafe⟩ := h.events
  refine ⟨ho, fun i hi => ?_, ?_⟩
  · have hne : i ≠ u := fun e => by
      rw [e] at hi
      exact (List.mem_append.mp hi).elim hnot.1 hnot.2
    have hi' : i ∈ pre ++ u :: rest := by
      rw [List.mem_append] at hi ⊢
      exact hi.imp_right (List.mem_cons_of_mem _)
    rw [hd, Dpb.plain_remove hend, if_neg hne]
    exact h.nodes i hi'
  · have hrm := Dpb.log_remove (d := c'.dpb) hend
    simp only [hmark, ne_eq, not_true_eq_false, false_and, if_false, List.append_nil] at hrm
    rw [hd, hrm, hlog]
    cases hx : (c'.dpb.nodes u).nonExisting with
    | true => exact ⟨es, by simp, houts, hsafe⟩
    | false =>
      have hf := h.field_eq hmem Node.uFrmID (fun _ => rfl) fun _ => rfl
      have hm := h.field_eq hmem Node.uMvID (fun _ => rfl) fun _ => rfl
      refine ⟨es ++ [.deletePic (c.dpb.nodes u).uFrmID (c.dpb.nodes u).uMvID], ?_, ?_, ?_⟩
      · simp [hf, hm]
      · rw [List.filterMap_append, houts]
        exact List.append_nil _
      · refine hsafe.delete hsub (by rw [← h.isUnused_eq hmem, hu]) fun hx => ?_
        have hout : (c.dpb.nodes u).uFrmID ∈ es.filterMap Event.outputFrm := by
          rw [houts]
          exact List.mem_map_of_mem (hdisplayed hx)
        obtain ⟨e, he, heq⟩ := List.mem_filterMap.mp hout
        cases e <;> simp only [Event.outputFrm, Option.some.injEq, reduceCtorEq] at heq
        rw [← heq]
        exact he

end LinkedDpb.Treated

/-! ## A pass that displays what is due -/

section Pass

variable {c c1 : LinkedDpb} {due : ℕ → Bool} {done rest : List ℕ} {u : ℕ}

/-- The pictures that stay in a pass: they are references, or they wait and are
not due. -/
def LinkedDpb.staying (c : LinkedDpb) (due : ℕ → Bool) (done : List ℕ) : List ℕ :=
  done.filter fun i => !(c.dpb.isUnused i && (!c.dpb.waits i || due i))

/-- The buffer in front of the turn of the first picture of `rest`. -/
def LinkedDpb.TreatedUpTo (c : LinkedDpb) (due : ℕ → Bool) (done rest : List ℕ) (c1 : LinkedDpb) :
    Prop :=
  c.order .poc = done ++ rest ∧
    c.Treated (c.staying due done ++ rest) (OutputPass.handed c.dpb.waits due done) c1

namespace LinkedDpb.TreatedUpTo

theorem notMem_handed (h : c.TreatedUpTo due done (u :: rest) c1) :
    u ∉ OutputPass.handed c.dpb.waits due done := fun hm => by
  have hT := c.linked.spells .poc
  rw [h.1] at hT
  exact (Threaded.notMem_of_middle hT).1 (OutputPass.handed_sublist.subset hm)

theorem waits_eq (h : c.TreatedUpTo due done (u :: rest) c1) : c1.dpb.waits u = c.dpb.waits u := by
  have := h.2.waits_eq (i := u) (by simp)
  simpa [h.notMem_handed] using this

/-- The pictures that a display in this turn hands out. -/
theorem filter_waits (h : c.TreatedUpTo due done (u :: rest) c1) (hw : c.dpb.waits u = true) :
    (c.staying due done ++ [u]).filter c1.dpb.waits =
      (OutputPass.behind due done).filter c.dpb.waits ++ [u] := by
  have hnd : done.Nodup := by
    have := (c.linked.spells .poc).nodup
    rw [h.1] at this
    exact this.of_append_left
  have hmem : ∀ i ∈ c.staying due done ++ [u], i ∈ c.staying due done ++ u :: rest := fun i hi => by
    rw [List.mem_append] at hi ⊢
    exact hi.imp_right fun hi => by simp [List.mem_singleton.mp hi]
  have hu : c1.dpb.waits u = true := h.waits_eq.trans hw
  rw [List.filter_append, List.filter_cons_of_pos hu, List.filter_nil]
  congr 1
  rw [List.filter_congr fun i hi => h.2.waits_eq (hmem i (List.mem_append_left _ hi)),
    LinkedDpb.staying, List.filter_filter, ← OutputPass.filter_notMem_handed hnd]
  apply List.filter_congr
  intro i hi
  -- a waiting picture that was not handed out has not been due in its turn
  cases hw : c.dpb.waits i with
  | false => simp
  | true =>
    by_cases hm : i ∈ OutputPass.handed c.dpb.waits due done
    · simp [hm]
    · have hbehind : i ∈ (OutputPass.behind due done).filter c.dpb.waits := by
        rw [← OutputPass.filter_notMem_handed hnd]
        exact List.mem_filter.mpr ⟨hi, by simp [hw, hm]⟩
      have hnot := OutputPass.not_due (List.mem_filter.mp hbehind).1
      simp [hnot, hm]

/-- The first half of a turn: the picture is displayed if it is due. -/
theorem displayIf (h : c.TreatedUpTo due done (u :: rest) c1) (he : c.ExistingWait)
    (hdue : due u = true → c.dpb.waits u = true) :
    ∃ c2 shown, c1.dpb.displayIf (due u) u = some c2.dpb ∧ Edits (fun _ => True) c1 c2 ∧
      c1.dpb.Displayed c2.dpb shown ∧
      OutputPass.handed c.dpb.waits due (done ++ [u]) =
        OutputPass.handed c.dpb.waits due done ++ shown ∧
      c.Treated (c.staying due done ++ u :: rest)
        (OutputPass.handed c.dpb.waits due (done ++ [u])) c2 := by
  have hu : c1.dpb.InDpb u := (c1.linked.mem u).mp (by simp [h.2.pictures])
  have hsub : ∀ i ∈ c.staying due done ++ u :: rest, i ∈ c.order .poc := by
    intro i hi
    rw [h.1, List.mem_append]
    exact (List.mem_append.mp hi).imp_left fun hi => List.filter_sublist.subset hi
  have happend := OutputPass.handed_append c.dpb.waits due done u
  cases hd : due u with
  | false =>
    rw [hd, if_neg (by simp)] at happend
    refine ⟨c1, [], rfl, .refl, .refl _, by simpa using happend, ?_⟩
    rw [happend]
    exact h.2
  | true =>
    have hw := hdue hd
    obtain ⟨c2, hd2, he2, ho2, -⟩ := Dpb.display_reaches (fun _ => True) c1 hu
    obtain ⟨d', hd', hshown⟩ := Dpb.display_displayed c1 (h.2.existingWait he hsub) h.2.pictures
    obtain rfl : d' = c2.dpb := Option.some.inj (hd'.symm.trans hd2)
    rw [h.filter_waits hw] at hshown
    have hall : OutputPass.handed c.dpb.waits due (done ++ [u]) =
        OutputPass.handed c.dpb.waits due done ++
          ((OutputPass.behind due done).filter c.dpb.waits ++ [u]) := by
      rw [happend, if_pos hd, ← List.append_assoc, OutputPass.handed_append_behind,
        List.filter_append, List.filter_cons_of_pos hw, List.filter_nil]
    refine ⟨c2, _, hd2, he2, hshown, hall, ?_⟩
    rw [hall]
    refine h.2.display hshown ho2 fun i hi => ?_
    rw [← h.filter_waits hw] at hi
    have := (List.mem_filter.mp hi).1
    rw [List.mem_append] at this ⊢
    exact this.imp_right fun hi => by simp [List.mem_singleton.mp hi]

/-- The second half: a picture leaves if nothing refers to it and it does not
wait any more. -/
theorem leaves_iff {c2 : LinkedDpb} (h : c.TreatedUpTo due done (u :: rest) c1)
    (hdue : due u = true → c.dpb.waits u = true)
    (h2 : c.Treated (c.staying due done ++ u :: rest)
      (OutputPass.handed c.dpb.waits due (done ++ [u])) c2) :
    (c.dpb.isUnused u && (!c.dpb.waits u || due u)) = true ↔
      c2.dpb.isUnused u = true ∧ c2.dpb.waits u = false := by
  have hmem : u ∈ c.staying due done ++ u :: rest := by simp
  have hnot := h.notMem_handed
  rw [h2.isUnused_eq hmem, h2.waits_eq hmem, OutputPass.handed_append]
  cases hd : due u with
  | false => simp [hnot]
  | true => simp [hdue hd]

theorem removeIf {c2 : LinkedDpb} (h : c.TreatedUpTo due done (u :: rest) c1)
    (hdue : due u = true → c.dpb.waits u = true)
    (h2 : c.Treated (c.staying due done ++ u :: rest)
      (OutputPass.handed c.dpb.waits due (done ++ [u])) c2) :
    ∃ c3 : LinkedDpb, (if c2.dpb.isUnused u = true ∧ c2.dpb.waits u = false then c2.dpb.remove u
        else c2.dpb) = c3.dpb ∧ Edits (fun _ => True) c2 c3 ∧
      c.TreatedUpTo due (done ++ [u]) rest c3 := by
  have horder : c.order .poc = (done ++ [u]) ++ rest := by
    rw [h.1, List.append_assoc, List.singleton_append]
  have hleaves := h.leaves_iff hdue h2
  by_cases hl : c2.dpb.isUnused u = true ∧ c2.dpb.waits u = false
  · obtain ⟨c3, hd3, he3, ho3⟩ := LinkedDpb.remove_turn (fun _ => True) h2.pictures
      fun hf => absurd (hl.2.symm.trans hf) (by simp)
    have hstay : c.staying due (done ++ [u]) = c.staying due done := by
      unfold LinkedDpb.staying
      rw [List.filter_append, List.filter_cons_of_neg (by simp [hleaves.mpr hl]),
        List.filter_nil, List.append_nil]
    refine ⟨c3, by rw [if_pos hl, hd3], .single he3, horder, ?_⟩
    rw [hstay]
    exact h2.remove (by simp [h.1]) hl.1 hl.2 hd3 ho3
  · have hno := Bool.eq_false_iff.mpr fun hx => hl (hleaves.mp hx)
    have hstay : c.staying due (done ++ [u]) = c.staying due done ++ [u] := by
      unfold LinkedDpb.staying
      rw [List.filter_append, List.filter_cons_of_pos (by simp [hno]), List.filter_nil]
    refine ⟨c2, if_neg hl, .refl, horder, ?_⟩
    rw [hstay, List.append_assoc, List.singleton_append]
    exact h2

end LinkedDpb.TreatedUpTo

end Pass

/-! ## The pass of the HEVC clean-up -/

/-- The buffer during the clean-up of `c`: `left` are its pictures, and those of
`handed` have been displayed. -/
structure LinkedDpb.Cleaning (c : LinkedDpb) (left handed : List ℕ) (c' : LinkedDpb) : Prop where
  pictures : c'.order .poc = left
  nodes : ∀ i ∈ left, (c'.dpb.nodes i).plain =
    if i ∈ handed then (c.dpb.nodes i).displayed.plain else (c.dpb.nodes i).plain
  counter : c'.dpb.uNumOutputPic + handed.length = (c.order .poc).countP c.dpb.waits
  events : ∃ es, c'.dpb.log = c.dpb.log ++ es ∧
    es.filterMap Event.outputFrm = handed.map (fun i => (c.dpb.nodes i).uFrmID) ∧
    c.dpb.DeletesSafely (c.order .poc) es

namespace LinkedDpb.Cleaning

variable {c c' c'' : LinkedDpb} {left handed : List ℕ} {i : ℕ}

theorem treated (h : c.Cleaning left handed c') : c.Treated left handed c' :=
  ⟨h.pictures, h.nodes, h.events⟩

theorem of_treated (h : c.Treated left handed c')
    (hc : c'.dpb.uNumOutputPic + handed.length = (c.order .poc).countP c.dpb.waits) :
    c.Cleaning left handed c' :=
  ⟨h.pictures, h.nodes, hc, h.events⟩

theorem isLate_eq (h : c.Cleaning left handed c') (hi : i ∈ left) (uMaxLatency : ℕ) :
    c'.dpb.isLate uMaxLatency i = c.dpb.isLate uMaxLatency i := by
  have := h.treated.field_eq hi Node.uPicLatency (fun _ => rfl) fun _ => rfl
  unfold Dpb.isLate
  rw [this]

theorem counter_display (h : c.Cleaning left handed c') {shown : List ℕ}
    (hd : c'.dpb.Displayed c''.dpb shown)
    (hcount : (handed ++ shown).length ≤ (c.order .poc).countP c.dpb.waits) :
    c''.dpb.uNumOutputPic + (handed ++ shown).length = (c.order .poc).countP c.dpb.waits := by
  have hle : (c.order .poc).countP c.dpb.waits ≤ maxDpbSize :=
    List.countP_le_length.trans (c.linked.length_le .poc)
  have hmax : maxDpbSize = 34 := rfl
  have hcounter := h.counter
  rw [List.length_append] at hcount ⊢
  rw [hd.counter_eq (by omega) (by omega)]
  omega

end LinkedDpb.Cleaning

/-! ## One turn -/

section Turn

variable {c c1 : LinkedDpb} {done rest : List ℕ} {u uMaxLatency maxNumOutput : ℕ}

/-- The pictures that have stayed. -/
def LinkedDpb.stayed (c : LinkedDpb) (uMaxLatency maxNumOutput : ℕ) (done : List ℕ) : List ℕ :=
  done.filter fun i => !c.dpb.leaves (c.order .poc) uMaxLatency maxNumOutput i

/-- The pictures that have been displayed. -/
def LinkedDpb.displayed (c : LinkedDpb) (uMaxLatency maxNumOutput : ℕ) (done : List ℕ) : List ℕ :=
  OutputPass.handed c.dpb.waits (c.dpb.isDue (c.order .poc) uMaxLatency maxNumOutput) done

/-- The buffer in front of the turn of the first picture of `rest`. -/
def LinkedDpb.CleanedUpTo (c : LinkedDpb) (uMaxLatency maxNumOutput : ℕ) (done rest : List ℕ)
    (c1 : LinkedDpb) : Prop :=
  c.order .poc = done ++ rest ∧ c.Cleaning (c.stayed uMaxLatency maxNumOutput done ++ rest)
    (c.displayed uMaxLatency maxNumOutput done) c1

theorem LinkedDpb.CleanedUpTo.treated
    (h : c.CleanedUpTo uMaxLatency maxNumOutput done rest c1) :
    c.TreatedUpTo (c.dpb.isDue (c.order .poc) uMaxLatency maxNumOutput) done rest c1 :=
  ⟨h.1, h.2.treated⟩

theorem Dpb.waits_of_isDue {d : Dpb} {l : List ℕ} {i : ℕ}
    (h : d.isDue l uMaxLatency maxNumOutput i = true) : d.waits i = true :=
  (Bool.and_eq_true_iff.mp h).1

theorem LinkedDpb.CleanedUpTo.shouldBeDisplayed
    (h : c.CleanedUpTo uMaxLatency maxNumOutput done (u :: rest) c1) :
    ((c1.dpb.nodes u).picOutputFlag && (decide (uMaxLatency ≤ (c1.dpb.nodes u).uPicLatency) ||
      decide (maxNumOutput < c1.dpb.uNumOutputPic))) =
      c.dpb.isDue (c.order .poc) uMaxLatency maxNumOutput u := by
  have hnd := (c.linked.spells .poc).nodup
  have hwaits : c1.dpb.waits u = c.dpb.waits u := h.treated.waits_eq
  have hlate := h.2.isLate_eq (i := u) (by simp) uMaxLatency
  unfold Dpb.isLate at hlate
  have hcount : c1.dpb.uNumOutputPic = (OutputPass.behind (c.dpb.isDue (c.order .poc) uMaxLatency
      maxNumOutput) done ++ u :: rest).countP c.dpb.waits := by
    have hcounter := h.2.counter
    have hall := congrArg List.length (OutputPass.handed_append_behind c.dpb.waits
      (c.dpb.isDue (c.order .poc) uMaxLatency maxNumOutput) done)
    rw [List.length_append, ← List.countP_eq_length_filter, ← List.countP_eq_length_filter] at hall
    rw [List.countP_append]
    rw [h.1, List.countP_append] at hcounter
    unfold LinkedDpb.displayed at hcounter
    omega
  have hdue := Dpb.due_iff c.dpb uMaxLatency maxNumOutput h.1 hnd
  change (c1.dpb.waits u && _) = _
  rw [hwaits, hlate, hcount, decide_eq_decide.mpr hdue]
  rfl

theorem LinkedDpb.CleanedUpTo.displayIf (he : c.ExistingWait)
    (h : c.CleanedUpTo uMaxLatency maxNumOutput done (u :: rest) c1) :
    Reaches (fun _ => True) c1
      (c1.dpb.displayIf (c.dpb.isDue (c.order .poc) uMaxLatency maxNumOutput u) u) fun c2 =>
      c.Cleaning (c.stayed uMaxLatency maxNumOutput done ++ u :: rest)
        (c.displayed uMaxLatency maxNumOutput (done ++ [u])) c2 := by
  obtain ⟨c2, shown, hd2, he2, hshown, hall, h2⟩ := h.treated.displayIf he Dpb.waits_of_isDue
  refine ⟨c2, hd2, he2, .of_treated h2 ?_⟩
  have hcounter := h.2.counter_display hshown
  unfold LinkedDpb.displayed at hcounter
  rw [← hall] at hcounter
  refine hcounter ?_
  rw [List.countP_eq_length_filter]
  have hpre : (done ++ [u]).Sublist (c.order .poc) := by
    rw [h.1]
    simp
  have hsub : (OutputPass.handed c.dpb.waits (c.dpb.isDue (c.order .poc) uMaxLatency maxNumOutput)
      (done ++ [u])).Sublist ((c.order .poc).filter c.dpb.waits) :=
    ((List.rdropWhile_prefix _ _).sublist.filter _).trans (hpre.filter _)
  exact hsub.length_le

theorem LinkedDpb.CleanedUpTo.removeIf {c2 : LinkedDpb}
    (h : c.CleanedUpTo uMaxLatency maxNumOutput done (u :: rest) c1)
    (h2 : c.Cleaning (c.stayed uMaxLatency maxNumOutput done ++ u :: rest)
      (c.displayed uMaxLatency maxNumOutput (done ++ [u])) c2) :
    ∃ c3 : LinkedDpb, (if c2.dpb.isUnused u = true ∧ c2.dpb.waits u = false then c2.dpb.remove u
        else c2.dpb) = c3.dpb ∧ Edits (fun _ => True) c2 c3 ∧
      c.CleanedUpTo uMaxLatency maxNumOutput (done ++ [u]) rest c3 := by
  obtain ⟨c3, hd3, he3, ho3, h3⟩ := h.treated.removeIf Dpb.waits_of_isDue h2.treated
  refine ⟨c3, hd3, he3, ho3, .of_treated h3 ?_⟩
  have hcounter : c3.dpb.uNumOutputPic = c2.dpb.uNumOutputPic := by
    rw [← hd3]
    split
    · exact Dpb.uNumOutputPic_remove ..
    · rfl
  rw [hcounter]
  exact h2.counter

end Turn

/-- What the clean-up leaves in the buffer and what it displays. -/
theorem Dpb.hevcCleanup_cleaning (c : LinkedDpb) (he : c.Waiting) (uMaxLatency maxNumOutput : ℕ) :
    ∃ c', c.dpb.hevcCleanup uMaxLatency maxNumOutput = some c'.dpb ∧
      c.Cleaning (c.stayed uMaxLatency maxNumOutput (c.order .poc))
        (c.displayed uMaxLatency maxNumOutput (c.order .poc)) c' := by
  have hstart : c.CleanedUpTo uMaxLatency maxNumOutput [] (c.order .poc) c := by
    refine ⟨rfl, rfl, fun i _ => rfl, ?_, [], (List.append_nil _).symm, rfl, fun pre _ _ _ hx => ?_⟩
    · exact he.count
    · simp at hx
  have hwalk : Reaches (fun _ => True) c (c.dpb.hevcCleanup uMaxLatency maxNumOutput) fun c' =>
      ∃ done, c.CleanedUpTo uMaxLatency maxNumOutput done [] c' := by
    unfold Dpb.hevcCleanup
    rw [c.linked.head_poc]
    refine Reaches.walk (o := .poc)
      (J := fun c1 rest => ∃ done, c.CleanedUpTo uMaxLatency maxNumOutput done rest c1)
      ?_ ⟨[], hstart⟩ ⟨[], rfl⟩
    rintro c1 u rest ⟨done, h⟩ -
    obtain ⟨c2, hd2, he2, h2⟩ := h.displayIf he.existing
    obtain ⟨c3, hd3, he3, h3⟩ := h.removeIf h2
    have hnext := LinkedDpb.uNextPOC_eq h2.pictures
    refine ⟨c3, rest, ?_, he2.trans he3, le_rfl, ⟨_, h3⟩, _, h3.2.pictures⟩
    simp only [h.shouldBeDisplayed, hd2, Option.bind_eq_bind, Option.bind_some, hnext]
    rw [← hd3]
    by_cases hl : c2.dpb.isUnused u = true ∧ c2.dpb.waits u = false
    · have hl' : (c2.dpb.nodes u).eMarkingFlag = .unusedForRef ∧
          (c2.dpb.nodes u).picOutputFlag = false := ⟨of_decide_eq_true hl.1, hl.2⟩
      rw [if_pos hl, if_pos hl']
    · have hl' : ¬ ((c2.dpb.nodes u).eMarkingFlag = .unusedForRef ∧
          (c2.dpb.nodes u).picOutputFlag = false) := fun hx => hl ⟨decide_eq_true hx.1, hx.2⟩
      rw [if_neg hl, if_neg hl']
  obtain ⟨c', hd', -, done, horder, hclean⟩ := hwalk
  rw [List.append_nil] at horder hclean
  rw [← horder] at hclean
  exact ⟨c', hd', hclean⟩

/-! ## What the clean-up is for -/

/-- The buffer `d'` after the clean-up of `d`, the POC list of which is `l`, as
its description says: no more pictures wait than may, none of them too long, no
useless picture is left, the pictures `out` were output in order, and none was
removed while it was needed. -/
structure Dpb.CleanedUp (d d' : Dpb) (l : List ℕ) (uMaxLatency maxNumOutput : ℕ) (out : List ℕ) :
    Prop where
  count : ((List.range maxDpbSize).filter fun i =>
    decide (d'.InDpb i) && d'.waits i).length ≤ maxNumOutput
  latency : ∀ i, d'.InDpb i → d'.waits i = true → (d'.nodes i).uPicLatency < uMaxLatency
  useful : ∀ i, d'.InDpb i → d'.isUnused i = true → d'.waits i = true
  outputs : d'.outputs = d.outputs ++ out.map fun i => (d.nodes i).uFrmID
  waited : out.Nodup ∧ ∀ i ∈ out, d.InDpb i ∧ d.waits i = true
  ascending : out.Pairwise fun i j => (d.nodes i).iFramePOC ≤ (d.nodes j).iFramePOC
  removed : ∀ i, d.InDpb i → ¬ d'.InDpb i → d.isUnused i = true ∧ (d.waits i = true → i ∈ out)
  deletes : ∃ es, d'.log = d.log ++ es ∧ d.DeletesSafely l es

/-- No picture that nothing refers to waits, within both bounds, in front of a
waiting picture whose latency has reached the limit. -/
def Dpb.NoneOvertaken (d : Dpb) (l : List ℕ) (uMaxLatency maxNumOutput : ℕ) : Prop :=
  ∀ xs i ys, l = xs ++ i :: ys → d.isUnused i = true → d.waits i = true →
    d.isLate uMaxLatency i = false → d.waitingFrom l i ≤ maxNumOutput →
    ∀ j ∈ ys, d.waits j = true → d.isLate uMaxLatency j = false

section CleanedUp

variable {c c' : LinkedDpb} {uMaxLatency maxNumOutput i j : ℕ} {xs ys : List ℕ}

theorem Dpb.isDue_eq_false {d : Dpb} {l : List ℕ} (hw : d.waits i = true) :
    d.isDue l uMaxLatency maxNumOutput i = false ↔
      d.isLate uMaxLatency i = false ∧ d.waitingFrom l i ≤ maxNumOutput := by
  unfold Dpb.isDue
  rw [hw, Bool.true_and, Bool.or_eq_false_iff, decide_eq_false_iff_not, not_lt]

theorem LinkedDpb.waitingFrom_le (hl : c.order .poc = xs ++ i :: ys) (hj : j ∈ ys) :
    c.dpb.waitingFrom (c.order .poc) j ≤ c.dpb.waitingFrom (c.order .poc) i := by
  have hnd := (c.linked.spells .poc).nodup
  obtain ⟨as, bs, rfl⟩ := List.append_of_mem hj
  have hlj : c.order .poc = (xs ++ i :: as) ++ j :: bs := by simp [hl]
  rw [Dpb.waitingFrom_eq hl hnd, Dpb.waitingFrom_eq hlj hnd]
  exact ((List.sublist_append_right _ _).cons _).countP_le

theorem LinkedDpb.Cleaning.waits_iff
    (h : c.Cleaning (c.stayed uMaxLatency maxNumOutput (c.order .poc))
      (c.displayed uMaxLatency maxNumOutput (c.order .poc)) c') :
    c'.dpb.InDpb i ∧ c'.dpb.waits i = true ↔
      i ∈ (OutputPass.behind (c.dpb.isDue (c.order .poc) uMaxLatency maxNumOutput)
        (c.order .poc)).filter c.dpb.waits := by
  have hnd := (c.linked.spells .poc).nodup
  rw [← OutputPass.filter_notMem_handed hnd, List.mem_filter, ← c'.linked.mem, h.pictures]
  constructor
  · rintro ⟨hi, hw⟩
    rw [h.treated.waits_eq hi] at hw
    exact ⟨List.filter_sublist.subset hi, hw⟩
  · rintro ⟨hi, hw⟩
    have hbehind : i ∈ (OutputPass.behind (c.dpb.isDue (c.order .poc) uMaxLatency maxNumOutput)
        (c.order .poc)).filter c.dpb.waits := by
      rw [← OutputPass.filter_notMem_handed hnd]
      exact List.mem_filter.mpr ⟨hi, hw⟩
    have hnot := OutputPass.not_due (List.mem_filter.mp hbehind).1
    have hstay : i ∈ c.stayed uMaxLatency maxNumOutput (c.order .poc) := by
      refine List.mem_filter.mpr ⟨hi, ?_⟩
      simp [Dpb.leaves, (Bool.and_eq_true_iff.mp hw).2, hnot]
    exact ⟨hstay, (h.treated.waits_eq hstay).trans hw⟩

/-- From the first picture on that still waits no more than `maxNumOutput` do. -/
theorem LinkedDpb.countP_behind_le (c : LinkedDpb) (uMaxLatency maxNumOutput : ℕ) :
    (OutputPass.behind (c.dpb.isDue (c.order .poc) uMaxLatency maxNumOutput)
      (c.order .poc)).countP c.dpb.waits ≤ maxNumOutput := by
  have hnd := (c.linked.spells .poc).nodup
  by_cases hw : ∃ i ∈ OutputPass.behind (c.dpb.isDue (c.order .poc) uMaxLatency maxNumOutput)
      (c.order .poc), c.dpb.waits i = true
  · obtain ⟨as, w, bs, hsplit, has, hwait, hdue⟩ := OutputPass.exists_first_waiting hw
    have hl := OutputPass.split (c.dpb.isDue (c.order .poc) uMaxLatency maxNumOutput)
      (c.order .poc)
    rw [hsplit, ← List.append_assoc] at hl
    have hbound := ((Dpb.isDue_eq_false hwait).mp hdue).2
    rw [Dpb.waitingFrom_eq hl.symm hnd] at hbound
    have hzero : as.countP c.dpb.waits = 0 := List.countP_eq_zero.mpr fun i hi => by simp [has i hi]
    rw [hsplit, List.countP_append, hzero, Nat.zero_add]
    exact hbound
  · have hzero := List.countP_eq_zero.mpr fun i hi h => hw ⟨i, hi, h⟩
    rw [hzero]
    exact Nat.zero_le _

/-- A picture that is left although nothing refers to it was overtaken. -/
theorem LinkedDpb.overtaken_iff (hl : c.order .poc = xs ++ i :: ys) (hw : c.dpb.waits i = true)
    (hdue : c.dpb.isDue (c.order .poc) uMaxLatency maxNumOutput i = false) :
    i ∈ c.displayed uMaxLatency maxNumOutput (c.order .poc) ↔
      ∃ j ∈ ys, c.dpb.waits j = true ∧ c.dpb.isLate uMaxLatency j = true := by
  have hbound := ((Dpb.isDue_eq_false hw).mp hdue).2
  unfold LinkedDpb.displayed
  rw [OutputPass.mem_handed_iff hl (c.linked.spells .poc).nodup]
  constructor
  · rintro ⟨-, j, hj, hjdue⟩
    have hj : j ∈ ys := (List.mem_cons.mp hj).resolve_left fun e => by
      rw [e, hdue] at hjdue
      exact absurd hjdue (by simp)
    have hle := LinkedDpb.waitingFrom_le hl hj
    unfold Dpb.isDue at hjdue
    rw [Bool.and_eq_true_iff, Bool.or_eq_true_iff, decide_eq_true_iff] at hjdue
    exact ⟨j, hj, hjdue.1, hjdue.2.resolve_right (by omega)⟩
  · rintro ⟨j, hj, hjw, hjl⟩
    refine ⟨hw, j, List.mem_cons_of_mem _ hj, ?_⟩
    unfold Dpb.isDue
    rw [hjw, hjl]
    rfl

/-- Whatever the pictures, the clean-up meets every part of its description but
one. -/
theorem LinkedDpb.Cleaning.cleanedUp
    (h : c.Cleaning (c.stayed uMaxLatency maxNumOutput (c.order .poc))
      (c.displayed uMaxLatency maxNumOutput (c.order .poc)) c')
    (hs : (c.order .poc).Pairwise fun i j =>
      (c.dpb.nodes i).iFramePOC ≤ (c.dpb.nodes j).iFramePOC)
    (huseful : ∀ i, c'.dpb.InDpb i → c'.dpb.isUnused i = true → c'.dpb.waits i = true) :
    c.dpb.CleanedUp c'.dpb (c.order .poc) uMaxLatency maxNumOutput
      (c.displayed uMaxLatency maxNumOutput (c.order .poc)) := by
  have hnd := (c.linked.spells .poc).nodup
  have hsub : (c.displayed uMaxLatency maxNumOutput (c.order .poc)).Sublist (c.order .poc) :=
    OutputPass.handed_sublist
  obtain ⟨es, hlog, houts, hsafe⟩ := h.events
  refine ⟨?_, fun i hi hw => ?_, huseful, ?_, ⟨hnd.sublist hsub, fun i hi => ?_⟩, hs.sublist hsub,
    fun i hi hnot => ?_, es, hlog, hsafe⟩
  · have hperm : ((List.range maxDpbSize).filter fun i =>
        decide (c'.dpb.InDpb i) && c'.dpb.waits i).Perm
        ((OutputPass.behind (c.dpb.isDue (c.order .poc) uMaxLatency maxNumOutput)
          (c.order .poc)).filter c.dpb.waits) := by
      have hbehind : (OutputPass.behind (c.dpb.isDue (c.order .poc) uMaxLatency maxNumOutput)
          (c.order .poc)).Nodup := by
        have := OutputPass.split (c.dpb.isDue (c.order .poc) uMaxLatency maxNumOutput)
          (c.order .poc)
        rw [← this] at hnd
        exact hnd.of_append_right
      refine (List.perm_ext_iff_of_nodup (List.nodup_range.filter _) (hbehind.filter _)).mpr
        fun i => ?_
      rw [← h.waits_iff, List.mem_filter, List.mem_range, Bool.and_eq_true_iff, decide_eq_true_iff]
      exact ⟨fun hi => hi.2, fun hi => ⟨hi.1.1, hi⟩⟩
    rw [hperm.length_eq, ← List.countP_eq_length_filter]
    exact c.countP_behind_le uMaxLatency maxNumOutput
  · have hmem := List.mem_filter.mp (h.waits_iff.mp ⟨hi, hw⟩)
    have hin : i ∈ c.stayed uMaxLatency maxNumOutput (c.order .poc) := by
      rw [← h.pictures]
      exact (c'.linked.mem i).mpr hi
    have hlate := ((Dpb.isDue_eq_false hmem.2).mp (OutputPass.not_due hmem.1)).1
    rw [← h.isLate_eq hin] at hlate
    exact not_le.mp (of_decide_eq_false hlate)
  · unfold Dpb.outputs
    rw [hlog, List.filterMap_append, houts]
  · exact ⟨(c.linked.mem i).mp (hsub.subset hi), (List.mem_filter.mp hi).2⟩
  · have hin := (c.linked.mem i).mpr hi
    have hleaves : c.dpb.leaves (c.order .poc) uMaxLatency maxNumOutput i = true := by
      by_contra hno
      refine hnot ((c'.linked.mem i).mp ?_)
      rw [h.pictures]
      exact List.mem_filter.mpr ⟨hin, by simpa using hno⟩
    obtain ⟨hu, hdue⟩ := Bool.and_eq_true_iff.mp hleaves
    refine ⟨hu, fun hw => ?_⟩
    rw [hw] at hdue
    obtain ⟨xs, ys, hl⟩ := List.append_of_mem hin
    unfold LinkedDpb.displayed
    rw [OutputPass.mem_handed_iff hl hnd]
    exact ⟨hw, i, List.mem_cons_self, by simpa using hdue⟩

end CleanedUp

/-- The clean-up leaves a picture that is neither referred to nor waiting
exactly where such a picture is overtaken by a late one. -/
theorem Dpb.cleanedUp_iff (c : LinkedDpb) (hw : c.Waiting)
    (hs : (c.order .poc).Pairwise fun i j => (c.dpb.nodes i).iFramePOC ≤ (c.dpb.nodes j).iFramePOC)
    (uMaxLatency maxNumOutput : ℕ) :
    ∃ d', c.dpb.hevcCleanup uMaxLatency maxNumOutput = some d' ∧
      ((∃ out, c.dpb.CleanedUp d' (c.order .poc) uMaxLatency maxNumOutput out) ↔
        c.dpb.NoneOvertaken (c.order .poc) uMaxLatency maxNumOutput) := by
  obtain ⟨c', hd', h⟩ := Dpb.hevcCleanup_cleaning c hw uMaxLatency maxNumOutput
  refine ⟨c'.dpb, hd', ?_, fun hnone => ⟨_, h.cleanedUp hs fun i hi hu => ?_⟩⟩
  · rintro ⟨out, hclean⟩ xs i ys hl hu hwait hlate hbound j hj hjw
    have hdue : c.dpb.isDue (c.order .poc) uMaxLatency maxNumOutput i = false :=
      (Dpb.isDue_eq_false hwait).mpr ⟨hlate, hbound⟩
    have hstay : i ∈ c.stayed uMaxLatency maxNumOutput (c.order .poc) := by
      refine List.mem_filter.mpr ⟨by simp [hl], ?_⟩
      simp [Dpb.leaves, hwait, hdue]
    have hin : c'.dpb.InDpb i := (c'.linked.mem i).mp (by rw [h.pictures]; exact hstay)
    -- the picture still waits, so no due picture has overtaken it
    have hstill := hclean.useful i hin (by rw [h.treated.isUnused_eq hstay, hu])
    rw [h.treated.waits_eq hstay, Bool.and_eq_true_iff, decide_eq_true_iff] at hstill
    have hno := (LinkedDpb.overtaken_iff hl hwait hdue).not.mp hstill.1
    exact Bool.eq_false_iff.mpr fun hjl => hno ⟨j, hj, hjw, hjl⟩
  · have hstay : i ∈ c.stayed uMaxLatency maxNumOutput (c.order .poc) := by
      rw [← h.pictures]
      exact (c'.linked.mem i).mpr hi
    obtain ⟨hin, hleaves⟩ := List.mem_filter.mp hstay
    rw [h.treated.isUnused_eq hstay] at hu
    have hleaves : c.dpb.waits i = true ∧
        c.dpb.isDue (c.order .poc) uMaxLatency maxNumOutput i = false := by
      simpa [Dpb.leaves, hu] using hleaves
    obtain ⟨hwait, hdue⟩ := hleaves
    obtain ⟨xs, ys, hl⟩ := List.append_of_mem hin
    obtain ⟨hlate, hbound⟩ := (Dpb.isDue_eq_false hwait).mp hdue
    have hno : i ∉ c.displayed uMaxLatency maxNumOutput (c.order .poc) := fun hm => by
      obtain ⟨j, hj, hjw, hjl⟩ := (LinkedDpb.overtaken_iff hl hwait hdue).mp hm
      have := hnone xs i ys hl hu hwait hlate hbound j hj hjw
      exact absurd (hjl.symm.trans this) (by simp)
    rw [h.treated.waits_eq hstay, hwait]
    simp [hno]

/-- A stream with two pictures of reordering and a latency of two: the third
picture is no reference any more when the fourth one comes. -/
def Op.overtaken : List Op :=
  [.insert (.sample 0 0 .shortTermRef), .hevcCleanup 2 2,
    .insert (.sample 1 8 .shortTermRef), .hevcCleanup 2 2,
    .incrementPicLatency 0 4, .incrementPicLatency 1 4,
    .insert (.sample 2 4 .shortTermRef), .hevcCleanup 2 2,
    .setMarkingFlag 2 .unusedForRef,
    .incrementPicLatency 2 2, .incrementPicLatency 1 2, .insert (.sample 3 2 .shortTermRef)]

theorem Dpb.cleanedUp_iff_overtaken : ∃ (c : LinkedDpb) (d' : Dpb),
    (Dpb.zeroed.init 4 .normal).run Op.overtaken = some c.dpb ∧
      c.dpb.hevcCleanup 2 2 = some d' ∧
      ((∃ out, c.dpb.CleanedUp d' (c.order .poc) 2 2 out) ↔
        c.dpb.NoneOvertaken (c.order .poc) 2 2) := by
  obtain ⟨c, hr, hs, hw⟩ := Dpb.waiting_of_run .zeroed 4 .normal Op.overtaken (by decide +kernel)
  obtain ⟨d', hd', h⟩ := Dpb.cleanedUp_iff c hw hs.poc 2 2
  exact ⟨c, d', hr, hd', h⟩

/-- The late second picture takes the third one with it to the output, and the
third one stays in the buffer. -/
theorem Dpb.not_cleanedUp_overtaken : (Dpb.zeroed.init 4 .normal).RunAllowed
      [.promoteHead, .removePending] Op.overtaken ∧
    ∃ d d', (Dpb.zeroed.init 4 .normal).run Op.overtaken = some d ∧ d.hevcCleanup 2 2 = some d' ∧
      ∀ l out, ¬ d.CleanedUp d' l 2 2 out := by
  refine ⟨by decide +kernel, ?_⟩
  have hrun : ((Dpb.zeroed.init 4 .normal).run Op.overtaken).bind (fun d =>
      (d.hevcCleanup 2 2).map fun d' => (decide (d'.InDpb 2), d'.isUnused 2, d'.waits 2)) =
      some (true, true, false) := by decide +kernel
  obtain ⟨d, hr, hd⟩ := Option.bind_eq_some_iff.mp hrun
  obtain ⟨d', hd', hq⟩ := Option.map_eq_some_iff.mp hd
  simp only [Prod.mk.injEq] at hq
  refine ⟨d, d', hr, hd', fun l out h => ?_⟩
  have hwaits := h.useful 2 (of_decide_eq_true hq.1) hq.2.1
  exact absurd (hwaits.symm.trans hq.2.2) (by simp)

end VcuCodec
