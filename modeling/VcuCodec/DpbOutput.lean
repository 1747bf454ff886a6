import VcuCodec.DpbCounters
import VcuCodec.RingQueues

/-!
# The output of pictures

What `AL_Dpb_Display` hands to the display FIFO: the pictures that wait for
their output in front of a node of the POC list, and the node itself.  The
invariant of the output is that `uNumOutputPic` counts the waiting pictures and
that no inferred picture waits; the markings have no part in it.
-/

namespace VcuCodec

open LinkedLists

/-- The picture of node `i` waits for its output. -/
def Dpb.waits (d : Dpb) (i : ℕ) : Bool := (d.nodes i).picOutputFlag

/-! ## The waiting pictures -/

/-- The marks of a buffer in which no picture is a reference. -/
def DpbMarks.unreferenced (k : DpbMarks) : DpbMarks where
  nodes i := ⟨.unusedForRef, (k.nodes i).picOutputFlag, (k.nodes i).nonExisting⟩
  uCountRef := 0
  uNumOutputPic := k.uNumOutputPic
  wrapped := false

attribute [ext] DpbMarks

namespace DpbMarks

variable {k : DpbMarks} {u : ℕ} {l : List ℕ}

theorem nodes_unreferenced (i : ℕ) : k.unreferenced.nodes i =
    ⟨.unusedForRef, (k.nodes i).picOutputFlag, (k.nodes i).nonExisting⟩ := rfl

theorem unreferenced_congr {k' : DpbMarks}
    (hn : ∀ i, (k'.nodes i).picOutputFlag = (k.nodes i).picOutputFlag ∧
      (k'.nodes i).nonExisting = (k.nodes i).nonExisting)
    (ho : k'.uNumOutputPic = k.uNumOutputPic) : k'.unreferenced = k.unreferenced := by
  unfold unreferenced
  rw [ho]
  congr 1
  funext i
  rw [(hn i).1, (hn i).2]

theorem unreferenced_setMarking (m : MarkingRef) :
    (k.setNode u { k.nodes u with eMarkingFlag := m }).unreferenced = k.unreferenced := by
  refine unreferenced_congr (fun i => ?_) rfl
  rw [nodes_setNode]
  split
  · next h => rw [h]; exact ⟨rfl, rfl⟩
  · exact ⟨rfl, rfl⟩

theorem unreferenced_dropRef : (k.dropRef u).unreferenced = k.unreferenced :=
  unreferenced_setMarking (k := k.decCountRef) .unusedForRef

theorem unreferenced_remove : (k.remove u).unreferenced = k.unreferenced.remove u := by
  have hsame : ∀ k' : DpbMarks, k'.nodes = k.nodes → k'.uNumOutputPic = k.uNumOutputPic →
      (k'.setNode u ⟨.unusedForRef, false, false⟩).unreferenced = k.unreferenced.remove u := by
    intro k' hn ho
    unfold DpbMarks.remove
    rw [if_neg (by simp [nodes_unreferenced])]
    unfold unreferenced DpbMarks.setNode
    rw [hn, ho]
    congr 1
    funext i
    by_cases hi : i = u
    · subst hi
      simp
    · simp [hi]
  unfold DpbMarks.remove
  split
  · exact hsame k.decCountRef rfl rfl
  · exact hsame k rfl rfl

theorem unreferenced_insert (a : InsertArgs) :
    (k.insert a).unreferenced = k.unreferenced.insert { a with eMarkingFlag := .unusedForRef } := by
  unfold unreferenced DpbMarks.insert DpbMarks.setNode
  simp only [ne_eq, not_true_eq_false, if_false]
  congr 1
  funext i
  by_cases hi : i = a.uNode
  · subst hi
    simp
  · simp [hi]

theorem unreferenced_displayNode (h : k.unreferenced.Counted (u :: l)) (hu : u ∉ l)
    (hlen : l.length < 255) : (k.displayNode u).unreferenced.Counted (u :: l) := by
  have hd := h.displayNode hu hlen
  have heq : (k.displayNode u).unreferenced = k.unreferenced.displayNode u := by
    by_cases hp : (k.nodes u).picOutputFlag = true
    · have hp' : (k.unreferenced.nodes u).picOutputFlag = true := hp
      have hw := hd.noWrap
      have hk : k.displayNode u = { k.setNode u { k.nodes u with picOutputFlag := false } with
          uNumOutputPic := dec8 k.uNumOutputPic
          wrapped := k.wrapped || k.uNumOutputPic == 0 } := by
        rw [DpbMarks.displayNode, if_pos hp]
      have hk' : k.unreferenced.displayNode u =
          { k.unreferenced.setNode u { k.unreferenced.nodes u with picOutputFlag := false } with
            uNumOutputPic := dec8 k.uNumOutputPic
            wrapped := k.unreferenced.wrapped || k.uNumOutputPic == 0 } := by
        rw [DpbMarks.displayNode, if_pos hp']
        rfl
      rw [hk'] at hw ⊢
      rw [hk]
      refine DpbMarks.ext (funext fun i => ?_) rfl rfl hw.symm
      by_cases hi : i = u
      · subst hi
        simp [unreferenced, DpbMarks.setNode]
      · simp [unreferenced, DpbMarks.setNode, hi]
    · have hp' : ¬ (k.unreferenced.nodes u).picOutputFlag = true := hp
      rw [DpbMarks.displayNode, if_neg hp, DpbMarks.displayNode, if_neg hp']
  rw [heq]
  exact hd

end DpbMarks

/-- No inferred picture waits for its output. -/
def LinkedDpb.ExistingWait (c : LinkedDpb) : Prop :=
  ∀ i ∈ c.order .poc, (c.dpb.nodes i).nonExisting = true → c.dpb.waits i = false

namespace LinkedDpb.ExistingWait

variable {c c' : LinkedDpb}

theorem of_marks (h : c.ExistingWait) {k : DpbMarks} (hd : c'.dpb.marks = k)
    (hn : ∀ i, (k.nodes i).nonExisting = (c.dpb.nodes i).nonExisting ∧
      ((k.nodes i).picOutputFlag = true → c.dpb.waits i = true))
    (ho : c'.order = c.order) : c'.ExistingWait := by
  intro i hi hx
  rw [ho] at hi
  have hnode : (c'.dpb.nodes i).marks = k.nodes i := congrArg (fun k => k.nodes i) hd
  have hx' : (c.dpb.nodes i).nonExisting = true := by
    rw [← (hn i).1, ← hnode]
    exact hx
  have hflag : (c'.dpb.nodes i).picOutputFlag = (k.nodes i).picOutputFlag :=
    congrArg NodeMarks.picOutputFlag hnode
  cases hw : c'.dpb.waits i with
  | false => rfl
  | true =>
    have := (hn i).2 (hflag.symm.trans hw)
    exact absurd ((h i hi hx').symm.trans this) (by simp)

theorem same_marks (h : c.ExistingWait) (hd : c'.dpb.marks = c.dpb.marks)
    (ho : c'.order = c.order) : c'.ExistingWait :=
  h.of_marks hd (fun _ => ⟨rfl, id⟩) ho

theorem setMarking (h : c.ExistingWait) {k : DpbMarks} {u : ℕ} {m : MarkingRef}
    (hk : k.nodes = c.dpb.marks.nodes)
    (hd : c'.dpb.marks = k.setNode u { k.nodes u with eMarkingFlag := m })
    (ho : c'.order = c.order) : c'.ExistingWait := by
  refine h.of_marks hd (fun i => ?_) ho
  rw [DpbMarks.nodes_setNode, hk]
  split
  · next hi => subst hi; exact ⟨rfl, id⟩
  · exact ⟨rfl, id⟩

theorem edit {ok : Risk → Prop} (h : c.ExistingWait) (he : Edit ok c c') : c'.ExistingWait := by
  cases he with
  | quiet hd ho => exact h.same_marks (Dpb.marks_of_core hd) ho
  | setNodeID _ hd ho => exact h.same_marks (hd ▸ Dpb.marks_modNode fun _ => rfl) ho
  | @remove u hu _ hd ho =>
    have hmem : u ∈ c.order .poc := c.mem_order.mpr hu
    intro i hi hx
    rw [ho] at hi
    have hne : i ≠ u := fun e =>
      (c.linked.spells .poc).nodup.not_mem_erase (e ▸ hi)
    have hplain := Dpb.plain_remove (d := c.dpb) (i := i)
      (Threaded.ne_nil (c.linked.spells .poc) hmem)
    rw [if_neg hne, ← hd] at hplain
    have hflag : c'.dpb.waits i = c.dpb.waits i :=
      (congrArg Node.picOutputFlag hplain : (c'.dpb.nodes i).plain.picOutputFlag = _)
    have hexist : (c'.dpb.nodes i).nonExisting = (c.dpb.nodes i).nonExisting :=
      (congrArg Node.nonExisting hplain : (c'.dpb.nodes i).plain.nonExisting = _)
    rw [hflag]
    exact h i (List.mem_of_mem_erase hi) (hexist.symm.trans hx)
  | @displayNode u _ hd ho =>
    refine h.of_marks (hd ▸ Dpb.marks_displayNode) (fun i => ?_) ho
    unfold DpbMarks.displayNode
    split
    · change ((c.dpb.marks.setNode u _).nodes i).nonExisting = _ ∧
        (((c.dpb.marks.setNode u _).nodes i).picOutputFlag = true → _)
      rw [DpbMarks.nodes_setNode]
      split
      · next hi => subst hi; exact ⟨rfl, fun hf => absurd hf (by simp)⟩
      · exact ⟨rfl, id⟩
    · exact ⟨rfl, id⟩
  | @dropRef u _ hd ho =>
    refine h.setMarking (k := c.dpb.marks.decCountRef) (u := u) (m := .unusedForRef) rfl ?_ ho
    rw [hd, Dpb.marks_dropRef]
    rfl
  | giveBackPicID _ hd ho => exact h.same_marks (hd ▸ Dpb.marks_giveBackPicID) ho
  | @remark u _ m _ hf _ hd ho =>
    refine h.setMarking (u := u) (m := m) rfl ?_ ho
    rw [hd, Dpb.marks_of_core (Dpb.core_modNode_congr hf), Dpb.marks_setMarking]
  | move _ _ _ hd ho =>
    have hk : c'.dpb.marks = c.dpb.marks := by
      rw [hd]
      exact (congrArg Dpb.marks (c.dpb.moveInFrontOf_unlinked _ _) :
        (c.dpb.moveInFrontOf _ _).unlinked.marks = _)
    intro i hi hx
    rw [ho, Function.update_of_ne (by decide)] at hi
    have hnode : (c'.dpb.nodes i).marks = (c.dpb.nodes i).marks :=
      congrArg (fun k => k.nodes i) hk
    have hflag : c'.dpb.waits i = c.dpb.waits i := congrArg NodeMarks.picOutputFlag hnode
    rw [hflag]
    exact h i hi ((congrArg NodeMarks.nonExisting hnode).symm.trans hx)
  | restart _ hd ho => exact h.same_marks (hd ▸ Dpb.marks_modNode fun _ => rfl) ho
  | @insert a hv hreset _ _ hd _ ho =>
    have hk := Dpb.marks_of_insert hd
    intro i hi hx
    rw [ho] at hi
    have hnode : (c'.dpb.nodes i).marks =
        if i = a.uNode then ⟨a.eMarkingFlag, a.picOutputFlag, a.nonExisting⟩
        else (c.dpb.nodes i).marks := by
      have := congrArg (fun k => k.nodes i) hk
      exact this.trans DpbMarks.nodes_setNode
    by_cases hi' : i = a.uNode
    · rw [if_pos hi'] at hnode
      have hflag : c'.dpb.waits i = a.picOutputFlag := congrArg NodeMarks.picOutputFlag hnode
      rw [hflag]
      exact hv.noOutput ((congrArg NodeMarks.nonExisting hnode).symm.trans hx)
    · rw [if_neg hi'] at hnode
      have hold : i ∈ c.order .poc := by
        have hperm : ((c.dpb.fillNode a).insertOrder a c.order .poc).Perm
            (a.uNode :: c.order .poc) := by
          refine List.perm_middle.trans ?_
          rw [List.takeWhile_append_dropWhile]
        exact (List.mem_cons.mp (hperm.mem_iff.mp hi)).resolve_left hi'
      have hflag : c'.dpb.waits i = c.dpb.waits i := congrArg NodeMarks.picOutputFlag hnode
      rw [hflag]
      exact h i hold ((congrArg NodeMarks.nonExisting hnode).symm.trans hx)
  | releaseOneBuf _ hd ho => exact h.same_marks (hd ▸ Dpb.marks_releaseOneBuf) ho
  | serve hd ho => exact h.same_marks (hd ▸ Dpb.marks_serveWaitingPicture) ho
  | clearAll hd ho =>
    intro i hi _
    rw [ho] at hi
    change (c'.dpb.nodes i).picOutputFlag = false
    rw [hd, Dpb.nodes_clearAll, if_pos hi]
    rfl
  | @setMarkingFlag u m _ hd ho =>
    refine h.setMarking (u := u) (m := m) rfl ?_ ho
    rw [hd]
    exact Dpb.marks_setMarking

end LinkedDpb.ExistingWait

theorem Dpb.existingWait_of_run {m : Dpb} {uNumRef : ℕ} {eMode : DpbMode} {ops : List Op} {d : Dpb}
    (ha : (m.init uNumRef eMode).RunAllowed [] ops)
    (hr : (m.init uNumRef eMode).run ops = some d) :
    ∃ c : LinkedDpb, c.dpb = d ∧ c.ExistingWait :=
  Dpb.run_keeps (c := LinkedDpb.init m uNumRef eMode) (fun _ _ h he => h.edit he)
    (by simp [LinkedDpb.ExistingWait, LinkedDpb.init]) ha hr

/-- `uNumOutputPic` counts the pictures that wait for their output, and no
inferred picture does. -/
structure LinkedDpb.Waiting (c : LinkedDpb) : Prop where
  count : c.dpb.uNumOutputPic = (c.order .poc).countP c.dpb.waits
  existing : c.ExistingWait

namespace LinkedDpb.Waiting

variable {c c' : LinkedDpb} {u : ℕ}

theorem iff_counted : c.Waiting ↔ c.dpb.marks.unreferenced.Counted (c.order .poc) := by
  refine ⟨fun h => ⟨?_, h.count, ?_, h.existing, rfl⟩, fun h => ⟨h.output, h.noOutput⟩⟩
  · exact (List.countP_eq_zero.mpr fun i _ => by
      simp [DpbMarks.nodes_unreferenced, NodeMarks.marked]).symm
  · simp [DpbMarks.nodes_unreferenced]

theorem of_marks (h : c.Waiting)
    (hd : c'.dpb.marks.unreferenced = c.dpb.marks.unreferenced) (ho : c'.order = c.order) :
    c'.Waiting := by
  rw [iff_counted, hd, ho]
  exact iff_counted.mp h

theorem in_front (h : c.Waiting) (hu : c.dpb.InDpb u) :
    c.dpb.marks.unreferenced.Counted (u :: (c.order .poc).erase u) ∧
      u ∉ (c.order .poc).erase u ∧ ((c.order .poc).erase u).length < 255 ∧
      (c.order .poc).Perm (u :: (c.order .poc).erase u) := by
  have hp := List.perm_cons_erase ((c.linked.mem u).mpr hu)
  have hlen := c.linked.length_le .poc
  have hle := (List.erase_sublist (a := u) (l := c.order .poc)).length_le
  refine ⟨(iff_counted.mp h).perm hp.symm, (c.linked.spells .poc).nodup.not_mem_erase, ?_, hp⟩
  simp only [maxDpbSize, maxRef, maxStackSize, recBuf, concealBuf] at hlen
  omega

theorem edit {ok : Risk → Prop} (hp : ¬ ok .removePending) (h : c.Waiting) (he : Edit ok c c') :
    c'.Waiting := by
  cases he with
  | quiet hd ho => exact h.of_marks (congrArg _ (Dpb.marks_of_core hd)) ho
  | setNodeID _ hd ho =>
    exact h.of_marks (congrArg _ (hd ▸ Dpb.marks_modNode fun _ => rfl)) ho
  | @remove u hu hpend hd ho =>
    obtain ⟨hc, hnot, hlen, -⟩ := h.in_front hu
    have hmem : u ∈ c.order .poc := c.mem_order.mpr hu
    have hflag : c.dpb.waits u = false := by
      cases hf : (c.dpb.nodes u).picOutputFlag with
      | true => exact h.existing u hmem ((hpend hf).resolve_right hp)
      | false => exact hf
    rw [iff_counted, hd, ho, Dpb.marks_remove (Threaded.ne_nil (c.linked.spells .poc) hmem),
      DpbMarks.unreferenced_remove]
    exact hc.remove hnot hlen hflag
  | displayNode hu hd ho =>
    obtain ⟨hc, hnot, hlen, hperm⟩ := h.in_front hu
    rw [iff_counted, hd, ho, Dpb.marks_displayNode]
    exact (DpbMarks.unreferenced_displayNode hc hnot hlen).perm hperm
  | dropRef _ hd ho =>
    refine h.of_marks ?_ ho
    rw [hd, Dpb.marks_dropRef, DpbMarks.unreferenced_dropRef]
  | giveBackPicID _ hd ho => exact h.of_marks (congrArg _ (hd ▸ Dpb.marks_giveBackPicID)) ho
  | remark _ hf _ hd ho =>
    refine h.of_marks ?_ ho
    rw [hd, Dpb.marks_of_core (Dpb.core_modNode_congr hf), Dpb.marks_setMarking,
      DpbMarks.unreferenced_setMarking]
  | move _ _ _ hd ho =>
    have hk : c'.dpb.marks = c.dpb.marks := by
      rw [hd]
      exact (congrArg Dpb.marks (c.dpb.moveInFrontOf_unlinked _ _) :
        (c.dpb.moveInFrontOf _ _).unlinked.marks = _)
    rw [iff_counted, hk, ho, Function.update_of_ne (by decide)]
    exact iff_counted.mp h
  | restart _ hd ho => exact h.of_marks (congrArg _ (hd ▸ Dpb.marks_modNode fun _ => rfl)) ho
  | @insert a hv hreset _ _ hd _ ho =>
    have hnot : a.uNode ∉ c.order .poc := fun hm => by
      have hin := ((c.linked.mem _).mp hm).2
      rw [hreset] at hin
      exact absurd hin (by simp)
    have hlen := c.linked.length_le .poc
    have hlt : (c.order .poc).length < 255 := by
      simp only [maxDpbSize, maxRef, maxStackSize, recBuf, concealBuf] at hlen
      omega
    have hperm : ((c.dpb.fillNode a).insertOrder a c.order .poc).Perm (a.uNode :: c.order .poc) := by
      refine List.perm_middle.trans ?_
      rw [List.takeWhile_append_dropWhile]
    have hv' : InsertArgs.Valid { a with eMarkingFlag := .unusedForRef } :=
      { hv with marking := by simp }
    rw [iff_counted, ho, Dpb.marks_of_insert hd, DpbMarks.unreferenced_insert]
    have hc := DpbMarks.Counted.insert (a := { a with eMarkingFlag := .unusedForRef })
      (iff_counted.mp h) hnot hlt hv'
    exact hc.perm hperm
  | releaseOneBuf _ hd ho => exact h.of_marks (congrArg _ (hd ▸ Dpb.marks_releaseOneBuf)) ho
  | serve hd ho => exact h.of_marks (congrArg _ (hd ▸ Dpb.marks_serveWaitingPicture)) ho
  | clearAll hd ho =>
    rw [iff_counted, hd, ho]
    refine DpbMarks.Counted.clearAll (iff_counted.mp h) (fun i hi => ?_) rfl rfl rfl
    change (⟨_, ((c.dpb.clearAll (c.order .poc)).nodes i).picOutputFlag,
      ((c.dpb.clearAll (c.order .poc)).nodes i).nonExisting⟩ : NodeMarks) = _
    rw [Dpb.nodes_clearAll, if_pos hi]
    rfl
  | @setMarkingFlag u m _ hd ho =>
    refine h.of_marks ?_ ho
    rw [hd]
    exact (congrArg _ Dpb.marks_setMarking).trans (DpbMarks.unreferenced_setMarking m)

end LinkedDpb.Waiting

theorem Dpb.waiting_of_run (m : Dpb) (uNumRef : ℕ) (eMode : DpbMode) (ops : List Op)
    (ha : (m.init uNumRef eMode).RunAllowed [.promoteHead, .removePending] ops) :
    ∃ c : LinkedDpb, (m.init uNumRef eMode).run ops = some c.dpb ∧ c.Sorted ∧ c.Waiting := by
  have hbase : (LinkedDpb.init m uNumRef eMode).Sorted ∧ (LinkedDpb.init m uNumRef eMode).Waiting :=
    ⟨⟨rfl, .nil, .nil⟩, rfl, by simp [LinkedDpb.ExistingWait, LinkedDpb.init]⟩
  obtain ⟨d, hr, c, rfl, hc⟩ := Dpb.run_goes_through (J := fun c => c.Sorted ∧ c.Waiting)
    (fun c c' h he => ⟨h.1.edit (by simp) he, h.2.edit (by simp) he⟩)
    (fun c h => h.1.not_stuck) hbase ha
  exact ⟨c, hr, hc⟩

theorem iterate_dec8 {k n : ℕ} (hk : k ≤ n) (hn : n < 256) : dec8^[k] n = n - k := by
  induction k with
  | zero => rfl
  | succ k ih =>
    rw [Function.iterate_succ_apply', ih (by omega), dec8_of_pos (by omega) (by omega)]
    omega

/-! ## The display FIFO -/

/-- The frames in the FIFO, the oldest first. -/
def DispFifo.frames (f : DispFifo) : List ℕ :=
  RingQueues.contents f.pFrmIDs frmBufPoolSize f.uFirstFrm f.uNumFrm

theorem DispFifo.frames_queue {f : DispFifo} (hf : f.uFirstFrm < frmBufPoolSize)
    (hn : f.uNumFrm < frmBufPoolSize) (uFrmID uPicLatency : ℕ) :
    (f.queue uFrmID uPicLatency).frames = f.frames ++ [uFrmID] := by
  have hsize : frmBufPoolSize = 50 := rfl
  have hpos : (f.uFirstFrm + f.uNumFrm) % 256 = f.uFirstFrm + f.uNumFrm := by omega
  have hnum : inc8 f.uNumFrm = f.uNumFrm + 1 := inc8_of_lt (by omega)
  unfold DispFifo.frames DispFifo.queue
  simp only [hpos, hnum]
  exact RingQueues.contents_push hn uFrmID

/-- Queueing the pictures `l` one after the other. -/
def DispFifo.queueAll (f : DispFifo) (nodes : ℕ → Node) (l : List ℕ) : DispFifo :=
  l.foldl (fun f i => f.queue (nodes i).uFrmID (nodes i).uPicLatency) f

theorem DispFifo.frames_queueAll {f : DispFifo} {nodes : ℕ → Node} {l : List ℕ}
    (hf : f.uFirstFrm < frmBufPoolSize) (hn : f.uNumFrm + l.length ≤ frmBufPoolSize) :
    (f.queueAll nodes l).frames = f.frames ++ l.map fun i => (nodes i).uFrmID := by
  induction l generalizing f with
  | nil => exact (List.append_nil _).symm
  | cons x l ih =>
    rw [List.length_cons] at hn
    have hsize : frmBufPoolSize = 50 := rfl
    have hx := DispFifo.frames_queue hf (by omega) (nodes x).uFrmID (nodes x).uPicLatency
    have hnum : (f.queue (nodes x).uFrmID (nodes x).uPicLatency).uNumFrm = f.uNumFrm + 1 :=
      inc8_of_lt (by omega)
    have htail := ih (f := f.queue (nodes x).uFrmID (nodes x).uPicLatency) hf (by omega)
    rw [hx, List.append_assoc] at htail
    exact htail

/-! ## What a display does -/

/-- The frame of an output callback. -/
def Event.outputFrm : Event → Option ℕ
  | .outputFrmBuf uFrmID => some uFrmID
  | _ => none

/-- The frames that were handed to the output callback, the oldest first. -/
def Dpb.outputs (d : Dpb) : List ℕ := d.log.filterMap Event.outputFrm

/-- The buffer `d'` after the pictures `shown` of `d` were displayed one after
the other, and nothing else was done. -/
structure Dpb.Displayed (d d' : Dpb) (shown : List ℕ) : Prop where
  fifo : d'.dispFifo = d.dispFifo.queueAll d.nodes shown
  outputs : d'.outputs = d.outputs ++ shown.map fun i => (d.nodes i).uFrmID
  nodes : ∀ i, d'.nodes i = if i ∈ shown then (d.nodes i).displayed else d.nodes i
  counter : d'.uNumOutputPic = dec8^[shown.length] d.uNumOutputPic
  lists : d'.skeleton = d.skeleton
  kept : ∃ es, d'.log = d.log ++ es ∧ ∀ e ∈ es, ∀ uFrmID uMvID, e ≠ .deletePic uFrmID uMvID

namespace Dpb.Displayed

variable {d d' d'' : Dpb} {shown shown' : List ℕ}

theorem refl (d : Dpb) : d.Displayed d [] where
  fifo := rfl
  outputs := (List.append_nil _).symm
  nodes i := by simp
  counter := rfl
  lists := rfl
  kept := ⟨[], (List.append_nil _).symm, by simp⟩

theorem uFrmID_eq (h : d.Displayed d' shown) (i : ℕ) : (d'.nodes i).uFrmID = (d.nodes i).uFrmID := by
  rw [h.nodes]
  split <;> rfl

theorem waits_eq (h : d.Displayed d' shown) (i : ℕ) :
    d'.waits i = (decide (i ∉ shown) && d.waits i) := by
  unfold Dpb.waits
  rw [h.nodes]
  by_cases hi : i ∈ shown <;> simp [hi, Node.displayed]

theorem trans (h : d.Displayed d' shown) (h' : d'.Displayed d'' shown')
    (hdis : ∀ i ∈ shown', i ∉ shown) : d.Displayed d'' (shown ++ shown') := by
  have hmap : shown'.map (fun i => (d'.nodes i).uFrmID) =
      shown'.map fun i => (d.nodes i).uFrmID := List.map_congr_left fun i _ => h.uFrmID_eq i
  refine ⟨?_, ?_, fun i => ?_, ?_, h'.lists.trans h.lists, ?_⟩
  · have hq : d'.dispFifo.queueAll d'.nodes shown' = d'.dispFifo.queueAll d.nodes shown' := by
      unfold DispFifo.queueAll
      apply List.foldl_ext
      intro f i hi
      rw [h.nodes, if_neg (hdis i hi)]
    rw [h'.fifo, hq, h.fifo]
    exact (List.foldl_append ..).symm
  · rw [h'.outputs, h.outputs, hmap, List.map_append, List.append_assoc]
  · rw [h'.nodes, h.nodes]
    by_cases hi : i ∈ shown'
    · simp [hi, hdis i hi]
    · simp [hi]
  · rw [h'.counter, h.counter, List.length_append, Nat.add_comm, Function.iterate_add_apply]
  · obtain ⟨es, hes, hno⟩ := h.kept
    obtain ⟨es', hes', hno'⟩ := h'.kept
    refine ⟨es ++ es', by rw [hes', hes, List.append_assoc], fun e he => ?_⟩
    exact (List.mem_append.mp he).elim (hno e) (hno' e)

theorem counter_eq (h : d.Displayed d' shown) (hn : shown.length ≤ d.uNumOutputPic)
    (hc : d.uNumOutputPic < 256) : d'.uNumOutputPic = d.uNumOutputPic - shown.length := by
  rw [h.counter]
  exact iterate_dec8 hn hc

theorem frames (h : d.Displayed d' shown) (hf : d.dispFifo.uFirstFrm < frmBufPoolSize)
    (hn : d.dispFifo.uNumFrm + shown.length ≤ frmBufPoolSize) :
    d'.dispFifo.frames = d.dispFifo.frames ++ shown.map fun i => (d.nodes i).uFrmID := by
  rw [h.fifo]
  exact DispFifo.frames_queueAll hf hn

end Dpb.Displayed

theorem Dpb.displayNode_displayed {d : Dpb} {u : ℕ}
    (he : (d.nodes u).nonExisting = true → d.waits u = false) :
    d.Displayed (d.displayNode u) ([u].filter d.waits) := by
  by_cases hw : d.waits u = true
  · have hne : (d.nodes u).nonExisting = false := by
      cases hn : (d.nodes u).nonExisting with
      | false => rfl
      | true => exact absurd ((he hn).symm.trans hw) (by simp)
    have hflag : (d.nodes u).picOutputFlag = true := hw
    rw [List.filter_cons_of_pos hw, List.filter_nil]
    have hd : d.displayNode u = (((d.addToDisplayList u).setOutput (d.nodes u).iFramePOC
        d.bNewSeq).modNode u Node.displayed |>.setOutput (d.nodes u).iFramePOC false).decNumOutputPic := by
      unfold Dpb.displayNode
      rw [if_pos hflag]
      simp [hne, Dpb.setOutput]
    refine ⟨?_, ?_, fun i => ?_, ?_, d.skeleton_displayNode u, ?_⟩
    · rw [hd]
      rfl
    · rw [hd]
      change List.filterMap _ (if d.uNumOutputPic = 0 then _ else _) = _
      split <;>
        simp [Dpb.outputs, Dpb.addToDisplayList, Dpb.record, Dpb.setFifo, Dpb.setOutput,
          Dpb.modNode] <;> rfl
    · rw [Dpb.nodes_displayNode]
      by_cases hi : i = u
      · subst hi
        simp [hflag]
      · simp [hi]
    · rw [hd]
      rfl
    · rw [hd]
      refine ⟨[.incrementFrmBuf .display (d.nodes u).uFrmID, .outputFrmBuf (d.nodes u).uFrmID] ++
        if d.uNumOutputPic = 0 then [.counterWrapped] else [], ?_, ?_⟩
      · change (if d.uNumOutputPic = 0 then _ else _) = _
        split <;> simp [Dpb.addToDisplayList, Dpb.record, Dpb.setFifo, Dpb.setOutput, Dpb.modNode]
      · split <;> simp
  · have hflag : ¬ (d.nodes u).picOutputFlag = true := hw
    rw [List.filter_cons_of_neg hw, List.filter_nil]
    unfold Dpb.displayNode
    rw [if_neg hflag]
    exact .refl d

theorem Dpb.foldl_displayNode_displayed {d : Dpb} {l : List ℕ} (hnd : l.Nodup)
    (he : ∀ i ∈ l, (d.nodes i).nonExisting = true → d.waits i = false) :
    d.Displayed (l.foldl Dpb.displayNode d) (l.filter d.waits) := by
  induction l generalizing d with
  | nil => exact .refl d
  | cons u l ih =>
    obtain ⟨hu, hnd⟩ := List.nodup_cons.mp hnd
    have h := Dpb.displayNode_displayed (he u List.mem_cons_self)
    have hne : ∀ i ∈ l, i ∉ [u].filter d.waits := fun i hi hm =>
      hu (List.mem_singleton.mp (List.mem_filter.mp hm).1 ▸ hi)
    have hw : ∀ i ∈ l, (d.displayNode u).waits i = d.waits i := fun i hi => by
      rw [h.waits_eq]
      simp [hne i hi]
    have hrest := ih (d := d.displayNode u) hnd fun i hi hx => by
      rw [hw i hi]
      refine he i (List.mem_cons_of_mem _ hi) ?_
      rwa [h.nodes, if_neg (hne i hi)] at hx
    rw [List.filter_congr hw] at hrest
    have := h.trans hrest fun i hi => hne i (List.mem_filter.mp hi).1
    rwa [← List.filter_append, List.singleton_append] at this

/-! ## AL_Dpb_Display -/

theorem Dpb.skeleton_foldl_displayNode (d : Dpb) (l : List ℕ) :
    (l.foldl Dpb.displayNode d).skeleton = d.skeleton := by
  induction l generalizing d with
  | nil => rfl
  | cons u l ih => exact (ih _).trans (d.skeleton_displayNode u)

theorem Dpb.waits_foldl_displayNode (d : Dpb) (l : List ℕ) (i : ℕ) :
    (l.foldl Dpb.displayNode d).waits i = (decide (i ∉ l) && d.waits i) := by
  induction l generalizing d with
  | nil => simp
  | cons u l ih =>
    have hu : (d.displayNode u).waits i = if i = u then false else d.waits i :=
      Dpb.picOutputFlag_displayNode d u i
    rw [List.foldl_cons, ih, hu]
    by_cases hi : i = u <;> simp [hi]

/-- `AL_Dpb_Display` displays the pictures up to `u` one after the other: the
nested call finds no waiting picture in front of its own. -/
theorem Dpb.display_eq (c : LinkedDpb) {pre rest : List ℕ} {u : ℕ}
    (ho : c.order .poc = pre ++ u :: rest) :
    c.dpb.display u = some ((pre ++ [u]).foldl Dpb.displayNode c.dpb) := by
  have hT := c.linked.spells .poc
  rw [ho] at hT
  have hlen : pre.length < walkFuel := by
    have := c.linked.length_le .poc
    rw [ho, List.length_append] at this
    unfold walkFuel
    omega
  -- the pictures walked over have been displayed
  let I : List ℕ → Dpb → Prop := fun todo d =>
    ∃ done, pre = done ++ todo ∧ d = done.foldl Dpb.displayNode c.dpb
  have hstep : ∀ x todo d, I (x :: todo) d → x ≠ u ∧
      ∃ d' todo', todo'.length ≤ todo.length ∧
        displayTurn (fun u d => displayAt maxDpbSize u d) x d = some (d', todo'.headD u) ∧
        I todo' d' := by
    rintro x todo _ ⟨done, hdone, rfl⟩
    have hx : x ∈ pre := hdone ▸ by simp
    have hxu : x ≠ u := fun e => (Threaded.notMem_of_middle hT).1 (e ▸ hx)
    have hxe : x ≠ uEndOfList := Threaded.ne_nil hT (List.mem_append_left _ hx)
    let c' : LinkedDpb := c.withDpb _ (c.dpb.skeleton_foldl_displayNode done)
    have hsplit : c'.order .poc = done ++ x :: (todo ++ u :: rest) := by
      change c.order .poc = _
      rw [ho, hdone, List.append_assoc, List.cons_append]
    have hnext : (c'.dpb.nodes x).uNextPOC = todo.headD u := by
      have hT' := c'.linked.spells .poc
      rw [hsplit] at hT'
      have := Threaded.next_eq hT'
      cases todo <;> exact this
    have hflag : ∀ i ∈ done, c'.dpb.waits i = false := fun i hi => by
      change (done.foldl Dpb.displayNode c.dpb).waits i = false
      rw [Dpb.waits_foldl_displayNode]
      simp [hi]
    refine ⟨hxu, (done ++ [x]).foldl Dpb.displayNode c.dpb, todo, le_rfl, ?_, done ++ [x], ?_, rfl⟩
    · change displayTurn _ x c'.dpb = _
      rw [List.foldl_append]
      change _ = some (c'.dpb.displayNode x, _)
      cases hf : (c'.dpb.nodes x).picOutputFlag with
      | false =>
        have hself : c'.dpb.displayNode x = c'.dpb := by
          unfold Dpb.displayNode
          rw [if_neg (by simp [hf])]
        simp [Dpb.displayTurn, hxe, hf, hnext, hself]
      | true =>
        have hd := Dpb.displayAt_first c' hsplit hflag (maxDpbSize - 1)
        simp only [Dpb.displayTurn, if_neg hxe, hf, if_true, hnext]
        rw [show displayAt maxDpbSize x c'.dpb = _ from hd]
        rfl
    · rw [hdone, List.append_assoc, List.singleton_append]
  obtain ⟨d, hd, done, hdone, rfl⟩ :=
    whileLinked_rule I hstep (⟨[], rfl, rfl⟩ : I pre c.dpb) hlen
  rw [List.append_nil] at hdone
  subst hdone
  have hhead : c.dpb.uHeadPOC = pre.headD u := by
    rw [c.linked.head_poc, ho]
    cases pre <;> rfl
  rw [Dpb.display, walkFuel, Dpb.displayAt, hhead, hd, List.foldl_append]
  rfl

theorem Dpb.display_displayed (c : LinkedDpb) (he : c.ExistingWait) {pre rest : List ℕ} {u : ℕ}
    (ho : c.order .poc = pre ++ u :: rest) :
    ∃ d', c.dpb.display u = some d' ∧ c.dpb.Displayed d' ((pre ++ [u]).filter c.dpb.waits) := by
  have hsub : (pre ++ [u]).Sublist (c.order .poc) := by
    rw [ho]
    simp
  exact ⟨_, Dpb.display_eq c ho, Dpb.foldl_displayNode_displayed
    ((c.linked.spells .poc).nodup.sublist hsub) fun i hi => he i (hsub.subset hi)⟩

/-- The frames handed to the FIFO are those of the waiting pictures that do not
follow `u` in the POC list, each once and in ascending order. -/
theorem Dpb.display_exact (c : LinkedDpb) (he : c.ExistingWait)
    (hs : (c.order .poc).Pairwise fun i j => (c.dpb.nodes i).iFramePOC ≤ (c.dpb.nodes j).iFramePOC)
    {pre rest : List ℕ} {u : ℕ} (ho : c.order .poc = pre ++ u :: rest) :
    ∃ d' shown, c.dpb.display u = some d' ∧ c.dpb.Displayed d' shown ∧
      (∀ i, i ∈ shown ↔ i ∈ pre ++ [u] ∧ c.dpb.waits i = true) ∧ shown.Nodup ∧
      shown.Pairwise (fun i j => (c.dpb.nodes i).iFramePOC ≤ (c.dpb.nodes j).iFramePOC) ∧
      (shown.length ≤ c.dpb.uNumOutputPic → c.dpb.uNumOutputPic < 256 →
        d'.uNumOutputPic = c.dpb.uNumOutputPic - shown.length) ∧
      (c.dpb.dispFifo.uFirstFrm < frmBufPoolSize →
        c.dpb.dispFifo.uNumFrm + shown.length ≤ frmBufPoolSize →
        d'.dispFifo.frames = c.dpb.dispFifo.frames ++ shown.map fun i => (c.dpb.nodes i).uFrmID) := by
  obtain ⟨d', hd, h⟩ := Dpb.display_displayed c he ho
  have hsub : ((pre ++ [u]).filter c.dpb.waits).Sublist (c.order .poc) := by
    refine List.filter_sublist.trans ?_
    rw [ho]
    simp
  exact ⟨d', _, hd, h, fun i => List.mem_filter, (c.linked.spells .poc).nodup.sublist hsub,
    hs.sublist hsub, h.counter_eq, h.frames⟩

/-- Three pictures, the second of which is the last one in output order. -/
def Op.threeOutputs : List Op :=
  [.insert (.sample 0 0 .shortTermRef), .insert (.sample 1 8 .shortTermRef),
    .insert (.sample 2 4 .shortTermRef)]

theorem Dpb.display_exact_threeOutputs : ∃ d d' shown,
    (Dpb.zeroed.init 4 .normal).run Op.threeOutputs = some d ∧ d.display 1 = some d' ∧
      d.Displayed d' shown ∧
      shown.Pairwise (fun i j => (d.nodes i).iFramePOC ≤ (d.nodes j).iFramePOC) := by
  obtain ⟨c, hr, hs, hw⟩ :=
    Dpb.waiting_of_run .zeroed 4 .normal Op.threeOutputs (by decide +kernel)
  have hin : ((Dpb.zeroed.init 4 .normal).run Op.threeOutputs).map
      (fun d => decide (d.InDpb 1)) = some true := by decide +kernel
  rw [hr] at hin
  have hin : c.dpb.InDpb 1 := of_decide_eq_true (Option.some.inj hin)
  obtain ⟨pre, rest, ho⟩ := List.append_of_mem ((c.linked.mem 1).mpr hin)
  obtain ⟨d', shown, hd, hshown, -, -, hasc, -, -⟩ := Dpb.display_exact c hw.existing hs.poc ho
  exact ⟨c.dpb, d', shown, hr, hd, hshown, hasc⟩

end VcuCodec
