import Mathlib.Data.Finset.Card
import VcuCodec.DpbAvcCleanup
import VcuCodec.DpbMmco5

/-!
# The references and the window over them

`refs` are the nodes that hold a reference.  The clean-up and the removal of a
picture add none, the sliding window takes one out where it is full, and a
buffer that is cleaned up has a free node left as long as there are fewer
references than nodes.
-/

namespace VcuCodec

open LinkedLists

/-- The nodes that hold a short-term or long-term reference. -/
def Dpb.refs (d : Dpb) : Finset ℕ :=
  {i ∈ Finset.range maxDpbSize | (d.nodes i).marks.marked = true}

namespace Dpb

variable {d d' : Dpb} {u i : ℕ} {slice : AvcSliceHdr}

theorem mem_refs : i ∈ d.refs ↔ i < maxDpbSize ∧ (d.nodes i).marks.marked = true := by
  simp [refs]

theorem refs_congr (h : ∀ i, (d'.nodes i).marks.marked = (d.nodes i).marks.marked) :
    d'.refs = d.refs := by
  ext i
  rw [mem_refs, mem_refs, h]

/-! ## Changes that add no reference -/

/-- No node that holds no reference in `d` holds one in `d'`. -/
structure NoNewRefs (d d' : Dpb) : Prop where
  uNumRef : d'.uNumRef = d.uNumRef
  marked : ∀ i, (d'.nodes i).marks.marked = true → (d.nodes i).marks.marked = true

namespace NoNewRefs

theorem refl (d : Dpb) : d.NoNewRefs d := ⟨rfl, fun _ h => h⟩

theorem trans {d1 d2 d3 : Dpb} (h : d1.NoNewRefs d2) (h' : d2.NoNewRefs d3) : d1.NoNewRefs d3 :=
  ⟨h'.uNumRef.trans h.uNumRef, fun i hi => h.marked i (h'.marked i hi)⟩

theorem refs_subset (h : d.NoNewRefs d') : d'.refs ⊆ d.refs := by
  intro i hi
  rw [mem_refs] at hi ⊢
  exact ⟨hi.1, h.marked i hi.2⟩

theorem of_marks (hn : d'.uNumRef = d.uNumRef) (hk : d'.marks = d.marks) : d.NoNewRefs d' := by
  refine ⟨hn, fun i hi => ?_⟩
  have hi' : (d'.nodes i).marks = (d.nodes i).marks := congrArg (fun k => k.nodes i) hk
  rwa [hi'] at hi

theorem of_setNode {k : DpbMarks} {n : NodeMarks} (hn : d'.uNumRef = d.uNumRef)
    (hk : d'.marks = k.setNode u n) (hnodes : k.nodes = d.marks.nodes) (hm : n.marked = false) :
    d.NoNewRefs d' := by
  refine ⟨hn, fun i hi => ?_⟩
  have hi' : (d'.nodes i).marks = (k.setNode u n).nodes i := congrArg (fun k => k.nodes i) hk
  rw [hi', DpbMarks.nodes_setNode] at hi
  split at hi
  · exact absurd (hm.symm.trans hi) (by simp)
  · rw [hnodes] at hi
    exact hi

theorem remove (d : Dpb) (u : ℕ) : d.NoNewRefs (d.remove u) := by
  by_cases hu : u = uEndOfList
  · rw [Dpb.remove, if_pos hu]
    exact refl d
  · refine of_setNode (uNumRef_remove hu) (marks_remove hu) ?_ rfl
    split <;> rfl

theorem displayNode (d : Dpb) (u : ℕ) : d.NoNewRefs (d.displayNode u) := by
  refine ⟨uNumRef_displayNode, fun i hi => ?_⟩
  have hi' : ((d.displayNode u).nodes i).marks = (d.marks.displayNode u).nodes i :=
    congrArg (fun k => k.nodes i) marks_displayNode
  rw [hi'] at hi
  unfold DpbMarks.displayNode at hi
  split at hi
  · have hset : (d.marks.setNode u { d.marks.nodes u with picOutputFlag := false }).nodes i =
        if i = u then { d.marks.nodes u with picOutputFlag := false } else d.marks.nodes i :=
      DpbMarks.nodes_setNode
    change ((d.marks.setNode u _).nodes i).marked = true at hi
    rw [hset] at hi
    split at hi
    · next h => rw [h]; exact hi
    · exact hi
  · exact hi

theorem dropRef (d : Dpb) (u : ℕ) : d.NoNewRefs (d.dropRef u) :=
  of_setNode (k := d.marks.decCountRef) rfl marks_dropRef rfl rfl

theorem giveBackPicID (d : Dpb) (u : ℕ) : d.NoNewRefs (d.giveBackPicID u) :=
  of_marks rfl marks_giveBackPicID

theorem serveWaitingPicture (d : Dpb) : d.NoNewRefs d.serveWaitingPicture :=
  of_marks uNumRef_serveWaitingPicture marks_serveWaitingPicture

theorem whileLinked {body : ℕ → Dpb → Option (Dpb × ℕ)} {nil n u : ℕ}
    (hbody : ∀ x d r, body x d = some r → d.NoNewRefs r.1)
    (h : LinkedLists.whileLinked nil body n u d = some d') : d.NoNewRefs d' :=
  whileLinked_keeps (fun c => d.NoNewRefs c) (fun x c r hc hr => hc.trans (hbody x c r hr)) (refl d)
    h

theorem displayAt {k u : ℕ} (h : d.displayAt k u = some d') : d.NoNewRefs d' := by
  induction k generalizing u d d' with
  | zero => simp [Dpb.displayAt] at h
  | succ k ih =>
    obtain ⟨c, hc, h⟩ := Option.bind_eq_some_iff.mp h
    obtain rfl : c.displayNode u = d' := by simpa using h
    refine trans (whileLinked ?_ hc) (displayNode c u)
    intro x d r hr
    unfold Dpb.displayTurn at hr
    split_ifs at hr
    · obtain ⟨e, he, rfl⟩ := Option.map_eq_some_iff.mp hr
      exact ih he
    · obtain rfl : _ = r := by simpa using hr
      exact refl d

theorem avcCleanup (h : d.avcCleanup = some d') : d.NoNewRefs d' := by
  obtain ⟨d1, h1, h⟩ := Option.bind_eq_some_iff.mp h
  obtain ⟨d2, h2, h⟩ := Option.bind_eq_some_iff.mp h
  obtain rfl : d2.serveWaitingPicture = d' := by simpa using h
  have hn1 : d.NoNewRefs d1 := by
    apply whileLinked _ h1
    intro x d r hr
    dsimp only at hr
    split_ifs at hr <;> obtain rfl : _ = r := by simpa using hr
    · exact remove d x
    · exact refl d
  have hn2 : d1.NoNewRefs d2 := by
    apply whileLinked _ h2
    intro x d r hr
    dsimp only at hr
    split_ifs at hr
    · obtain ⟨e, he, hr⟩ := Option.bind_eq_some_iff.mp hr
      obtain rfl : _ = r := by simpa using hr
      exact trans (displayAt he) (remove e x)
    · obtain rfl : _ = r := by simpa using hr
      exact refl d
    · obtain rfl : _ = r := by simpa using hr
      exact refl d
  exact (hn1.trans hn2).trans (serveWaitingPicture d2)

end NoNewRefs

end Dpb

/-! ## Spare nodes -/

/-- A node that holds no picture is free, and no node has the marking
`nonExistingRef`. -/
structure Node.Sound (n : Node) : Prop where
  known : n.eMarkingFlag ≠ .nonExistingRef
  spare : n.bIsReset = true → n.eMarkingFlag = .unusedForRef ∧ n.picOutputFlag = false

def LinkedDpb.Sound (c : LinkedDpb) : Prop := ∀ i < maxDpbSize, (c.dpb.nodes i).Sound

namespace LinkedDpb.Sound

variable {c c' : LinkedDpb} {u : ℕ}

theorem of_plain (h : c.Sound) (hn : ∀ i, (c'.dpb.nodes i).plain = (c.dpb.nodes i).plain) :
    c'.Sound := by
  intro i hi
  have hp : (c.dpb.nodes i).plain.Sound := ⟨(h i hi).known, (h i hi).spare⟩
  rw [← hn i] at hp
  exact ⟨hp.known, hp.spare⟩

theorem modNode (h : c.Sound) {f : Node → Node} (hf : (c.dpb.nodes u).Sound →
    (f (c.dpb.nodes u)).Sound) (hd : c'.dpb.nodes = (c.dpb.modNode u f).nodes) : c'.Sound := by
  intro i hi
  rw [hd, Dpb.nodes_modNode]
  split
  · next hu => exact hf (hu ▸ h i hi)
  · exact h i hi

theorem edit {ok : Risk → Prop} (hr : ¬ ok .remarkUnmarked) (hm : ¬ ok .setMarking) (h : c.Sound)
    (he : Edit ok c c') : c'.Sound := by
  cases he with
  | quiet hd _ =>
    intro i hi
    have hn : (c'.dpb.nodes i).core = (c.dpb.nodes i).core := congrArg (fun d => d.nodes i) hd
    have hp : (c.dpb.nodes i).core.Sound := ⟨(h i hi).known, (h i hi).spare⟩
    rw [← hn] at hp
    exact ⟨hp.known, hp.spare⟩
  | @setNodeID u _ hd _ =>
    exact h.modNode (f := Node.setNodeID u) (fun hn => ⟨hn.known, hn.spare⟩) (congrArg Dpb.nodes hd)
  | @remove u hu _ hd _ =>
    intro i hi
    have hne : u ≠ uEndOfList := Threaded.ne_nil (c.linked.spells .poc) (c.mem_order.mpr hu)
    have hn : (c'.dpb.nodes i).plain =
        if i = u then (c.dpb.nodes u).reset.plain else (c.dpb.nodes i).plain := by
      rw [hd, Dpb.plain_remove hne]
    have hp : (c'.dpb.nodes i).plain.Sound := by
      rw [hn]
      split
      · exact ⟨by simp [Node.plain, Node.unlinked, Node.reset], fun _ => ⟨rfl, rfl⟩⟩
      · exact ⟨(h i hi).known, (h i hi).spare⟩
    exact ⟨hp.known, hp.spare⟩
  | @displayNode u _ hd _ =>
    have hf : (c.dpb.displayNode u).nodes = c.dpb.nodes ∨
        (c.dpb.displayNode u).nodes = (c.dpb.modNode u Node.displayed).nodes := by
      unfold Dpb.displayNode
      split_ifs
      · exact .inr rfl
      · exact .inr rfl
      · exact .inl rfl
    rcases hf with hf | hf
    · exact h.of_plain fun i => by rw [hd, hf]
    · exact h.modNode (fun hn => ⟨hn.known, fun hb => ⟨(hn.spare hb).1, rfl⟩⟩) (hd ▸ hf)
  | @dropRef u _ hd _ =>
    have hn : (c.dpb.dropRef u).nodes = (c.dpb.modNode u (Node.setMarking .unusedForRef)).nodes :=
      rfl
    exact h.modNode (fun hn => ⟨by simp [Node.setMarking], fun hb => ⟨rfl, (hn.spare hb).2⟩⟩)
      (hd ▸ hn)
  | @giveBackPicID u _ hd _ =>
    have hn : (c.dpb.giveBackPicID u).nodes = (c.dpb.modNode u (Node.setPicID undefID)).nodes := rfl
    exact h.modNode (fun hn => ⟨hn.known, hn.spare⟩) (hd ▸ hn)
  | @remark u f m hs hf hu hd _ =>
    have hin : (c.dpb.nodes u).bIsReset = false := (hu.resolve_right hr).1.2
    refine h.modNode (fun _ => ?_) (congrArg Dpb.nodes hd)
    have hp : (Node.setMarking m (c.dpb.nodes u)).core.Sound := by
      refine ⟨?_, fun hb => absurd (hin.symm.trans hb) (by simp)⟩
      rcases hs with rfl | rfl <;> simp [Node.core, Node.setMarking]
    rw [← hf] at hp
    exact ⟨hp.known, hp.spare⟩
  | move _ _ _ hd _ =>
    exact h.of_plain fun i => hd ▸ Dpb.plain_of_unlinked (Dpb.moveInFrontOf_unlinked _ _ _) i
  | restart _ hd _ =>
    exact h.modNode (f := Node.restart) (fun hn => ⟨hn.known, hn.spare⟩) (congrArg Dpb.nodes hd)
  | @insert a hv _ _ _ hd _ _ =>
    intro i hi
    have hn : (c'.dpb.nodes i).unlinked = ((c.dpb.fillNode a).nodes i).unlinked := by
      have := congrArg (fun d => d.nodes i) hd
      rw [Dpb.nodes_countInserted] at this
      exact this
    have hp : ((c.dpb.fillNode a).nodes i).unlinked.Sound := by
      rw [Dpb.nodes_fillNode]
      split
      · exact ⟨hv.marking, fun hb => absurd hb (by simp [Node.fill, Node.unlinked])⟩
      · exact ⟨(h i hi).known, (h i hi).spare⟩
    rw [← hn] at hp
    exact ⟨hp.known, hp.spare⟩
  | releaseOneBuf _ hd _ => exact h.of_plain fun i => by rw [hd]; rfl
  | serve hd _ => exact h.of_plain fun i => hd ▸ Dpb.plain_serveWaitingPicture
  | clearAll hd _ =>
    intro i hi
    rw [hd, Dpb.nodes_clearAll]
    split
    · exact ⟨(h i hi).known, fun hb => ⟨((h i hi).spare hb).1, rfl⟩⟩
    · exact h i hi
  | setMarkingFlag hk _ _ => exact absurd hk hm

end LinkedDpb.Sound

/-! ## Buffers in order -/

/-- A buffer that has taken none of the turns that lose pictures from the
decoding order or mark a node that holds none. -/
structure LinkedDpb.Tidy (c : LinkedDpb) : Prop where
  sorted : c.Sorted
  existing : c.ExistingWait
  sound : c.Sound

theorem LinkedDpb.Tidy.edit {ok : Risk → Prop} {c c' : LinkedDpb} (hh : ¬ ok .promoteHead)
    (hr : ¬ ok .remarkUnmarked) (hm : ¬ ok .setMarking) (h : c.Tidy) (he : Edit ok c c') : c'.Tidy :=
  ⟨h.sorted.edit hh he, h.existing.edit he, h.sound.edit hr hm he⟩

theorem LinkedDpb.Sound.card_refs {c : LinkedDpb} (h : c.Sound) :
    c.dpb.refs.card = (c.order .decOrder).countP fun i => (c.dpb.nodes i).marks.marked := by
  have hset : c.dpb.refs =
      ((c.order .decOrder).filter fun i => (c.dpb.nodes i).marks.marked).toFinset := by
    ext i
    rw [Dpb.mem_refs, List.mem_toFinset, List.mem_filter, c.mem_order]
    constructor
    · rintro ⟨hi, hm⟩
      refine ⟨⟨hi, ?_⟩, hm⟩
      cases hb : (c.dpb.nodes i).bIsReset with
      | false => rfl
      | true =>
        have hu : (c.dpb.nodes i).marks.eMarkingFlag = .unusedForRef := ((h i hi).spare hb).1
        simp [NodeMarks.marked, hu] at hm
    · exact fun h => ⟨h.1.1, h.2⟩
  rw [hset, List.toFinset_card_of_nodup ((c.linked.spells .decOrder).nodup.filter _),
    List.countP_eq_length_filter]

/-! ## The sliding window -/

namespace SlidingScan

variable {nodes : ℕ → Node}

theorem visit_count (s : SlidingScan) (u : ℕ) :
    (s.visit nodes u).uNumShortTerm + (s.visit nodes u).uNumLongTerm =
      s.uNumShortTerm + s.uNumLongTerm + if (nodes u).marks.marked then 1 else 0 := by
  unfold visit NodeMarks.marked Node.marks
  dsimp only
  split_ifs <;> simp_all <;> omega

theorem foldl_count (l : List ℕ) (s : SlidingScan) :
    (l.foldl (visit nodes) s).uNumShortTerm + (l.foldl (visit nodes) s).uNumLongTerm =
      s.uNumShortTerm + s.uNumLongTerm + l.countP fun i => (nodes i).marks.marked := by
  induction l generalizing s with
  | nil => rfl
  | cons u l ih =>
    rw [List.foldl_cons, ih, visit_count, List.countP_cons]
    omega

/-- What the scan of the pictures `l` has found: the least frame number of the
short-term ones, unless it is `INT32_MAX`, and where it is. -/
structure Found (nodes : ℕ → Node) (l : List ℕ) (s : SlidingScan) : Prop where
  least : ∀ i ∈ l, (nodes i).eMarkingFlag = .shortTermRef →
    s.iMinFrameNumWrap ≤ (nodes i).iFrameNumWrap
  pos : s.iMinFrameNumWrap < int32Max →
    s.uPosMin ∈ l ∧ (nodes s.uPosMin).eMarkingFlag = .shortTermRef

theorem Found.visit {l : List ℕ} {s : SlidingScan} (h : Found nodes l s) (u : ℕ) :
    Found nodes (l ++ [u]) (s.visit nodes u) := by
  by_cases hv : (nodes u).iFrameNumWrap < s.iMinFrameNumWrap ∧
      (nodes u).eMarkingFlag = .shortTermRef
  · have hmin : (s.visit nodes u).iMinFrameNumWrap = (nodes u).iFrameNumWrap := by
      simp [SlidingScan.visit, hv.1, hv.2]
    have hpos : (s.visit nodes u).uPosMin = u := by
      simp [SlidingScan.visit, hv.1, hv.2]
    refine ⟨fun i hi hk => ?_, fun _ => ?_⟩
    · rw [hmin]
      rcases List.mem_append.mp hi with hi | hi
      · exact hv.1.le.trans (h.least i hi hk)
      · rw [List.mem_singleton.mp hi]
    · rw [hpos]
      exact ⟨by simp, hv.2⟩
  · have hmin : (s.visit nodes u).iMinFrameNumWrap = s.iMinFrameNumWrap := by
      unfold SlidingScan.visit
      dsimp only
      split_ifs <;> simp_all
    have hpos : (s.visit nodes u).uPosMin = s.uPosMin := by
      unfold SlidingScan.visit
      dsimp only
      split_ifs <;> simp_all
    refine ⟨fun i hi hk => ?_, fun hlt => ?_⟩
    · rw [hmin]
      rcases List.mem_append.mp hi with hi | hi
      · exact h.least i hi hk
      · rw [List.mem_singleton.mp hi] at hk ⊢
        exact not_lt.mp fun hlt => hv ⟨hlt, hk⟩
    · rw [hmin] at hlt
      rw [hpos]
      exact ⟨List.mem_append_left _ (h.pos hlt).1, (h.pos hlt).2⟩

theorem foldl_found (l : List ℕ) : Found nodes l (l.foldl (visit nodes) .init) := by
  induction l using List.reverseRecOn with
  | nil => exact ⟨by simp, fun h => absurd h (by simp [init])⟩
  | append_singleton l u ih =>
    rw [List.foldl_append]
    exact ih.visit u

end SlidingScan

/-- The pictures `l` with their numbers. -/
def Dpb.numberAll (d : Dpb) (slice : AvcSliceHdr) (l : List ℕ) : Dpb :=
  { d with nodes := fun i => if i ∈ l then (d.nodes i).number slice else d.nodes i }

theorem Dpb.modNode_numberAll {d : Dpb} {slice : AvcSliceHdr} {l : List ℕ} {u : ℕ} (hu : u ∉ l) :
    (d.numberAll slice l).modNode u (Node.number slice) = d.numberAll slice (l ++ [u]) := by
  have hn : ((d.numberAll slice l).modNode u (Node.number slice)).nodes =
      (d.numberAll slice (l ++ [u])).nodes := by
    funext i
    simp only [Dpb.nodes_modNode, Dpb.numberAll, List.mem_append, List.mem_singleton]
    by_cases hi : i = u
    · simp [hi, hu]
    · simp [hi]
  change { d with nodes := ((d.numberAll slice l).modNode u (Node.number slice)).nodes } = _
  rw [hn]
  rfl

/-- `AL_Dpb_PictNumberProcess` numbers every picture of a sorted buffer. -/
theorem LinkedDpb.Sorted.pictNumberProcess {c : LinkedDpb} (h : c.Sorted) (ok : Risk → Prop)
    (slice : AvcSliceHdr) : Reaches ok c (c.dpb.pictNumberProcess slice) fun c' =>
      c'.dpb = c.dpb.numberAll slice (c.order .decOrder) ∧ c'.order = c.order := by
  have hwalk : Reaches ok c (c.dpb.pictNumberProcess slice) fun c' => ∃ done,
      c.order .decOrder = done ++ [] ∧ c'.dpb = c.dpb.numberAll slice done ∧ c'.order = c.order := by
    unfold Dpb.pictNumberProcess
    rw [h.head]
    refine Reaches.walk (o := .decOrder) (J := fun c' rest => ∃ done,
      c.order .decOrder = done ++ rest ∧ c'.dpb = c.dpb.numberAll slice done ∧
        c'.order = c.order) ?_ ⟨[], rfl, by simp [Dpb.numberAll], rfl⟩ ⟨[], rfl⟩
    rintro c1 u rest ⟨done, ho, hd, ho1⟩ -
    have hT := c.linked.spells .decOrder
    rw [ho] at hT
    have hT1 := c1.linked.spells .decOrder
    rw [ho1, ho] at hT1
    have hnext : (c1.dpb.nodes u).uNextDecOrder = rest.headD uEndOfList := Threaded.next_eq hT1
    obtain ⟨c2, hd2, he, hd2', ho2⟩ := Reaches.quiet ok
      (Dpb.core_modNode (d := c1.dpb) (i := u) (f := Node.number slice) (Dpb.core_number slice _))
    refine ⟨c2, rest, by rw [hnext, hd2'], he, le_rfl, ⟨done ++ [u], by simp [ho], ?_, ho2.trans ho1⟩,
      done ++ [u], by rw [ho2, ho1, ho]; simp⟩
    rw [hd2', hd, Dpb.modNode_numberAll (Threaded.notMem_of_middle hT).1]
  refine hwalk.mono ?_
  rintro c' ⟨done, ho, hd, ho'⟩
  rw [List.append_nil] at ho
  exact ⟨ho ▸ hd, ho'⟩

namespace LinkedDpb.Tidy

variable {c c' : LinkedDpb} {d' : Dpb} {slice : AvcSliceHdr} {u : ℕ}

theorem slidingScan (h : c.Tidy) (hu : u ∈ c.order .decOrder)
    (hs : (c.dpb.nodes u).eMarkingFlag = .shortTermRef)
    (hw : (c.dpb.nodes u).iFrameNumWrap < int32Max) :
    ∃ s, c.dpb.slidingScan = some s ∧ s.uNumShortTerm + s.uNumLongTerm = c.dpb.refs.card ∧
      s.uPosMin ∈ c.dpb.refs := by
  have hfound : SlidingScan.Found c.dpb.nodes (c.order .decOrder) _ :=
    SlidingScan.foldl_found (c.order .decOrder)
  refine ⟨_, h.sorted.fold_decOrder (SlidingScan.visit c.dpb.nodes) .init, ?_, ?_⟩
  · rw [SlidingScan.foldl_count, h.sound.card_refs]
    exact Nat.zero_add _
  · obtain ⟨hmem, hk⟩ := hfound.pos ((hfound.least u hu hs).trans_lt hw)
    rw [Dpb.mem_refs]
    exact ⟨(c.mem_order.mp hmem).1, by simp [Node.marks, NodeMarks.marked, hk]⟩

/-- With a short-term picture in the buffer the window is not exceeded by more
than it was. -/
theorem card_slidingWindow (h : c.Tidy) (hu : u ∈ c.order .decOrder)
    (hs : (c.dpb.nodes u).eMarkingFlag = .shortTermRef)
    (hw : (c.dpb.nodes u).iFrameNumWrap < int32Max)
    (hd : c.dpb.slidingWindowMarking slice = some d') :
    d'.uNumRef = c.dpb.uNumRef ∧
      d'.refs.card ≤ max (c.dpb.refs.card - 1) (min c.dpb.uNumRef slice.sps.maxNumRefFrames) := by
  obtain ⟨s, hscan, hcount, hpos⟩ := h.slidingScan hu hs hw
  rw [Dpb.slidingWindowMarking, hscan, Option.bind_eq_bind, Option.bind_some] at hd
  by_cases hfull : c.dpb.windowFull slice s = true
  · rw [if_pos hfull] at hd
    have hleft : d'.uNumRef = c.dpb.uNumRef ∧ d'.refs ⊆ (c.dpb.dropRef s.uPosMin).refs := by
      dsimp only at hd
      split at hd
      · obtain rfl : _ = d' := by simpa using hd
        have hn := Dpb.NoNewRefs.remove (c.dpb.dropRef s.uPosMin) s.uPosMin
        exact ⟨hn.uNumRef, hn.refs_subset⟩
      · obtain rfl : _ = d' := by simpa using hd
        have hn := Dpb.NoNewRefs.giveBackPicID (c.dpb.dropRef s.uPosMin) s.uPosMin
        exact ⟨hn.uNumRef, hn.refs_subset⟩
    have hdrop : (c.dpb.dropRef s.uPosMin).refs ⊆ c.dpb.refs.erase s.uPosMin := by
      intro i hi
      rw [Finset.mem_erase]
      refine ⟨?_, (Dpb.NoNewRefs.dropRef c.dpb s.uPosMin).refs_subset hi⟩
      rintro rfl
      have hm := (Dpb.mem_refs.mp hi).2
      simp [Dpb.dropRef, Dpb.decCountRef, Node.setMarking, Node.marks, NodeMarks.marked] at hm
    have hcard := Finset.card_le_card (hleft.2.trans hdrop)
    rw [Finset.card_erase_of_mem hpos] at hcard
    exact ⟨hleft.1, le_max_of_le_left hcard⟩
  · rw [if_neg hfull] at hd
    obtain rfl : c.dpb = d' := by simpa using hd
    refine ⟨rfl, le_max_of_le_right ?_⟩
    rw [← hcount]
    simpa [Dpb.windowFull] using hfull

/-! ## The clean-up -/

end LinkedDpb.Tidy

end VcuCodec
