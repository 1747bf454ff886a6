import VcuCodec.DpbLists

/-!
# The counters of the buffer

`DpbMarks` is what the counters are about: the marking and the output flag of
each node.  Every edit of the buffer is an edit of its marks, and the counters
follow them unless a picture that is not marked is dropped or marked again, or
a picture that waits for its output is removed.
-/

namespace VcuCodec

open LinkedLists

/-! ## Marks -/

/-- The fields of a node that the counters are about. -/
structure NodeMarks where
  eMarkingFlag : MarkingRef
  picOutputFlag : Bool
  nonExisting : Bool

/-- The picture is a short-term or long-term reference. -/
def NodeMarks.marked (n : NodeMarks) : Bool :=
  n.eMarkingFlag = .shortTermRef ∨ n.eMarkingFlag = .longTermRef

def Node.marks (n : Node) : NodeMarks := ⟨n.eMarkingFlag, n.picOutputFlag, n.nonExisting⟩

/-- The counters, with a flag for a decrement below zero, over the marks of the nodes. -/
structure DpbMarks where
  nodes : ℕ → NodeMarks
  uCountRef : ℕ
  uNumOutputPic : ℕ
  wrapped : Bool

def Dpb.marks (d : Dpb) : DpbMarks :=
  ⟨fun i => (d.nodes i).marks, d.uCountRef, d.uNumOutputPic, .counterWrapped ∈ d.log⟩

namespace DpbMarks

variable (k : DpbMarks) (u : ℕ)

/-- One decrement of the count of references. -/
def decCountRef : DpbMarks :=
  { k with uCountRef := dec8 k.uCountRef, wrapped := k.wrapped || k.uCountRef == 0 }

def setNode (n : NodeMarks) : DpbMarks := { k with nodes := Function.update k.nodes u n }

def remove : DpbMarks :=
  (if (k.nodes u).eMarkingFlag ≠ .unusedForRef then k.decCountRef else k).setNode u
    ⟨.unusedForRef, false, false⟩

def dropRef : DpbMarks :=
  k.decCountRef.setNode u { k.nodes u with eMarkingFlag := .unusedForRef }

def displayNode : DpbMarks :=
  if (k.nodes u).picOutputFlag then
    { k.setNode u { k.nodes u with picOutputFlag := false } with
      uNumOutputPic := dec8 k.uNumOutputPic
      wrapped := k.wrapped || k.uNumOutputPic == 0 }
  else k

def insert (a : InsertArgs) : DpbMarks :=
  { k.setNode a.uNode ⟨a.eMarkingFlag, a.picOutputFlag, a.nonExisting⟩ with
    uCountRef := if a.eMarkingFlag ≠ .unusedForRef then inc8 k.uCountRef else k.uCountRef
    uNumOutputPic := if a.picOutputFlag then inc8 k.uNumOutputPic else k.uNumOutputPic }

def countMarked (l : List ℕ) : ℕ := l.countP fun i => (k.nodes i).marked

def countOutput (l : List ℕ) : ℕ := l.countP fun i => (k.nodes i).picOutputFlag

/-- The counters count the marks of the pictures `l`. -/
structure Counted (l : List ℕ) : Prop where
  ref : k.uCountRef = k.countMarked l
  output : k.uNumOutputPic = k.countOutput l
  known : ∀ i ∈ l, (k.nodes i).eMarkingFlag ≠ .nonExistingRef
  noOutput : ∀ i ∈ l, (k.nodes i).nonExisting = true → (k.nodes i).picOutputFlag = false
  noWrap : k.wrapped = false

variable {k} {u} {n : NodeMarks} {l l' : List ℕ} {i : ℕ}

theorem nodes_setNode : (k.setNode u n).nodes i = if i = u then n else k.nodes i :=
  Function.update_apply ..

@[simp] theorem nodes_setNode_self : (k.setNode u n).nodes u = n := Function.update_self ..

theorem nodes_setNode_of_mem (hu : u ∉ l) (hi : i ∈ l) : (k.setNode u n).nodes i = k.nodes i := by
  have hne : i ≠ u := fun e => hu (e ▸ hi)
  rw [nodes_setNode, if_neg hne]

theorem countMarked_cons :
    k.countMarked (u :: l) = k.countMarked l + if (k.nodes u).marked then 1 else 0 :=
  List.countP_cons ..

theorem countOutput_cons :
    k.countOutput (u :: l) = k.countOutput l + if (k.nodes u).picOutputFlag then 1 else 0 :=
  List.countP_cons ..

theorem countMarked_congr {k' : DpbMarks} (h : ∀ i ∈ l, k'.nodes i = k.nodes i) :
    k'.countMarked l = k.countMarked l :=
  List.countP_congr fun i hi => by rw [h i hi]

theorem countOutput_congr {k' : DpbMarks} (h : ∀ i ∈ l, k'.nodes i = k.nodes i) :
    k'.countOutput l = k.countOutput l :=
  List.countP_congr fun i hi => by rw [h i hi]

end DpbMarks

theorem dec8_of_pos {m : ℕ} (h0 : 0 < m) (hm : m < 256) : dec8 m = m - 1 := by
  unfold dec8
  omega

theorem inc8_of_lt {m : ℕ} (hm : m < 255) : inc8 m = m + 1 := by
  unfold inc8
  omega

theorem NodeMarks.marked_iff {n : NodeMarks} (hn : n.eMarkingFlag ≠ .nonExistingRef) :
    n.marked = true ↔ n.eMarkingFlag ≠ .unusedForRef := by
  unfold NodeMarks.marked
  cases hm : n.eMarkingFlag <;> simp_all

namespace DpbMarks.Counted

variable {k k' : DpbMarks} {l l' : List ℕ} {u : ℕ} {n : NodeMarks} {a : InsertArgs}

theorem perm (h : k.Counted l) (hp : l'.Perm l) : k.Counted l' where
  ref := h.ref.trans (hp.countP_eq _).symm
  output := h.output.trans (hp.countP_eq _).symm
  known i hi := h.known i (hp.mem_iff.mp hi)
  noOutput i hi := h.noOutput i (hp.mem_iff.mp hi)
  noWrap := h.noWrap

theorem tail_of_agree (h : k.Counted (u :: l)) (ha : ∀ i ∈ l, k'.nodes i = k.nodes i) :
    (∀ i ∈ l, (k'.nodes i).eMarkingFlag ≠ .nonExistingRef) ∧
      ∀ i ∈ l, (k'.nodes i).nonExisting = true → (k'.nodes i).picOutputFlag = false := by
  refine ⟨fun i hi => ?_, fun i hi => ?_⟩
  · rw [ha i hi]
    exact h.known i (List.mem_cons_of_mem _ hi)
  · rw [ha i hi]
    exact h.noOutput i (List.mem_cons_of_mem _ hi)

theorem uCountRef_pos (h : k.Counted (u :: l)) (hm : (k.nodes u).eMarkingFlag ≠ .unusedForRef) :
    k.uCountRef = k.countMarked l + 1 := by
  have hmark := (NodeMarks.marked_iff (h.known u List.mem_cons_self)).mpr hm
  rw [h.ref, countMarked_cons, if_pos hmark]

theorem decCountRef (hlen : l.length < 255) (hc : k.uCountRef = k.countMarked l + 1)
    (hw : k.wrapped = false) :
    k.decCountRef.uCountRef = k.countMarked l ∧ k.decCountRef.wrapped = false := by
  have hle : k.countMarked l ≤ l.length := List.countP_le_length
  refine ⟨?_, ?_⟩
  · show dec8 k.uCountRef = _
    rw [dec8_of_pos (by omega) (by omega)]
    omega
  · show (k.wrapped || k.uCountRef == 0) = false
    simp [hw, hc]

theorem dropRef (h : k.Counted (u :: l)) (hu : u ∉ l) (hlen : l.length < 255)
    (hm : (k.nodes u).eMarkingFlag ≠ .unusedForRef) : (k.dropRef u).Counted (u :: l) := by
  have hself : (k.dropRef u).nodes u = { k.nodes u with eMarkingFlag := .unusedForRef } :=
    nodes_setNode_self
  have hrest : ∀ i ∈ l, (k.dropRef u).nodes i = k.nodes i := fun i hi =>
    nodes_setNode_of_mem hu hi
  obtain ⟨hknown, hno⟩ := h.tail_of_agree hrest
  obtain ⟨hc, hw⟩ := decCountRef hlen (h.uCountRef_pos hm) h.noWrap
  refine ⟨?_, ?_, ?_, ?_, hw⟩
  · rw [countMarked_cons, hself, countMarked_congr hrest]
    exact hc.trans (by simp [NodeMarks.marked])
  · rw [countOutput_cons, hself, countOutput_congr hrest]
    exact h.output.trans countOutput_cons
  · refine List.forall_mem_cons.mpr ⟨?_, hknown⟩
    simp [hself]
  · refine List.forall_mem_cons.mpr ⟨?_, hno⟩
    rw [hself]
    exact h.noOutput u List.mem_cons_self

theorem remove (h : k.Counted (u :: l)) (hu : u ∉ l) (hlen : l.length < 255)
    (hp : (k.nodes u).picOutputFlag = false) : (k.remove u).Counted l := by
  have hrest : ∀ i ∈ l, (k.remove u).nodes i = k.nodes i := by
    intro i hi
    have hne : i ≠ u := fun e => hu (e ▸ hi)
    unfold DpbMarks.remove
    rw [nodes_setNode, if_neg hne]
    split <;> rfl
  obtain ⟨hknown, hno⟩ := h.tail_of_agree hrest
  have hout : k.uNumOutputPic = k.countOutput l := by
    rw [h.output, countOutput_cons, hp]
    simp
  rw [← countOutput_congr hrest] at hout
  by_cases hm : (k.nodes u).eMarkingFlag = .unusedForRef
  · have hr : k.remove u = k.setNode u ⟨.unusedForRef, false, false⟩ := by
      rw [DpbMarks.remove, if_neg (not_not.mpr hm)]
    have hmark : (k.nodes u).marked = false := by
      simp [NodeMarks.marked, hm]
    have hc : k.uCountRef = k.countMarked l := by
      rw [h.ref, countMarked_cons, hmark]
      simp
    rw [← countMarked_congr hrest] at hc
    rw [hr] at hc hout hknown hno ⊢
    exact ⟨hc, hout, hknown, hno, h.noWrap⟩
  · have hr : k.remove u = k.decCountRef.setNode u ⟨.unusedForRef, false, false⟩ := by
      rw [DpbMarks.remove, if_pos hm]
    obtain ⟨hc, hw⟩ := decCountRef hlen (h.uCountRef_pos hm) h.noWrap
    rw [← countMarked_congr hrest] at hc
    rw [hr] at hc hout hknown hno ⊢
    exact ⟨hc, hout, hknown, hno, hw⟩

theorem displayNode (h : k.Counted (u :: l)) (hu : u ∉ l) (hlen : l.length < 255) :
    (k.displayNode u).Counted (u :: l) := by
  by_cases hp : (k.nodes u).picOutputFlag = true
  · have hnodes : (k.displayNode u).nodes =
        (k.setNode u { k.nodes u with picOutputFlag := false }).nodes := by
      simp only [DpbMarks.displayNode, if_pos hp]
    have hself : (k.displayNode u).nodes u = { k.nodes u with picOutputFlag := false } := by
      rw [hnodes, nodes_setNode_self]
    have hrest : ∀ i ∈ l, (k.displayNode u).nodes i = k.nodes i := fun i hi => by
      rw [hnodes, nodes_setNode_of_mem hu hi]
    obtain ⟨hknown, hno⟩ := h.tail_of_agree hrest
    have hout : k.uNumOutputPic = k.countOutput l + 1 := by
      rw [h.output, countOutput_cons, if_pos hp]
    have hle : k.countOutput l ≤ l.length := List.countP_le_length
    refine ⟨?_, ?_, ?_, ?_, ?_⟩
    · rw [countMarked_cons, hself, countMarked_congr hrest]
      simp only [DpbMarks.displayNode, if_pos hp]
      exact h.ref.trans countMarked_cons
    · rw [countOutput_cons, hself, countOutput_congr hrest]
      simp only [DpbMarks.displayNode, if_pos hp]
      rw [dec8_of_pos (by omega) (by omega)]
      simp
      omega
    · refine List.forall_mem_cons.mpr ⟨?_, hknown⟩
      rw [hself]
      exact h.known u List.mem_cons_self
    · refine List.forall_mem_cons.mpr ⟨?_, hno⟩
      simp [hself]
    · simp [DpbMarks.displayNode, if_pos hp, h.noWrap, hout]
  · simpa only [DpbMarks.displayNode, if_neg hp] using h

theorem insert (h : k.Counted l) (hu : a.uNode ∉ l) (hlen : l.length < 255) (hv : a.Valid) :
    (k.insert a).Counted (a.uNode :: l) := by
  have hself : (k.insert a).nodes a.uNode =
      ⟨a.eMarkingFlag, a.picOutputFlag, a.nonExisting⟩ := nodes_setNode_self
  have hrest : ∀ i ∈ l, (k.insert a).nodes i = k.nodes i := fun i hi =>
    nodes_setNode_of_mem hu hi
  have hle : k.countMarked l ≤ l.length := List.countP_le_length
  have hle' : k.countOutput l ≤ l.length := List.countP_le_length
  have href := h.ref
  have hout := h.output
  refine ⟨?_, ?_, ?_, ?_, h.noWrap⟩
  · rw [countMarked_cons, hself, countMarked_congr hrest]
    have hmark := NodeMarks.marked_iff
      (n := ⟨a.eMarkingFlag, a.picOutputFlag, a.nonExisting⟩) hv.marking
    simp only [DpbMarks.insert, hmark]
    split
    · rw [inc8_of_lt (by omega), href]
    · rw [href, Nat.add_zero]
  · rw [countOutput_cons, hself, countOutput_congr hrest]
    simp only [DpbMarks.insert]
    split
    · rw [inc8_of_lt (by omega), hout]
    · rw [hout, Nat.add_zero]
  · refine List.forall_mem_cons.mpr ⟨?_, fun i hi => ?_⟩
    · rw [hself]
      exact hv.marking
    · rw [hrest i hi]
      exact h.known i hi
  · refine List.forall_mem_cons.mpr ⟨?_, fun i hi => ?_⟩
    · rw [hself]
      exact hv.noOutput
    · rw [hrest i hi]
      exact h.noOutput i hi

/-- Marking a reference picture again, or clearing nothing but its other fields. -/
theorem remark (h : k.Counted (u :: l)) (hu : u ∉ l)
    (hm : (k.nodes u).eMarkingFlag ≠ .unusedForRef) {m : MarkingRef}
    (hs : m = .shortTermRef ∨ m = .longTermRef) :
    (k.setNode u { k.nodes u with eMarkingFlag := m }).Counted (u :: l) := by
  have hrest : ∀ i ∈ l, (k.setNode u { k.nodes u with eMarkingFlag := m }).nodes i = k.nodes i :=
    fun i hi => nodes_setNode_of_mem hu hi
  obtain ⟨hknown, hno⟩ := h.tail_of_agree hrest
  refine ⟨?_, ?_, ?_, ?_, h.noWrap⟩
  · have hmark : (⟨m, (k.nodes u).picOutputFlag, (k.nodes u).nonExisting⟩ : NodeMarks).marked :=
      by simpa [NodeMarks.marked] using hs
    rw [countMarked_cons, nodes_setNode_self, countMarked_congr hrest, if_pos hmark]
    exact h.uCountRef_pos hm
  · rw [countOutput_cons, nodes_setNode_self, countOutput_congr hrest]
    exact h.output.trans countOutput_cons
  · refine List.forall_mem_cons.mpr ⟨?_, hknown⟩
    rcases hs with rfl | rfl <;> simp
  · refine List.forall_mem_cons.mpr ⟨?_, hno⟩
    rw [nodes_setNode_self]
    exact h.noOutput u List.mem_cons_self

theorem clearAll (h : k.Counted l)
    (hn : ∀ i ∈ l, k'.nodes i = { k.nodes i with picOutputFlag := false })
    (hc : k'.uCountRef = k.uCountRef) (ho : k'.uNumOutputPic = 0) (hw : k'.wrapped = k.wrapped) :
    k'.Counted l where
  ref := by
    rw [hc, h.ref]
    exact List.countP_congr fun i hi => by rw [hn i hi]; rfl
  output := by
    rw [ho, eq_comm]
    exact List.countP_eq_zero.mpr fun i hi => by simp [hn i hi]
  known i hi := by
    rw [hn i hi]
    exact h.known i hi
  noOutput i hi _ := by rw [hn i hi]
  noWrap := hw.trans h.noWrap

end DpbMarks.Counted

/-! ## The marks after each edit -/

section Marks

variable {d d' : Dpb} {u : ℕ}

theorem Dpb.marks_eq {k : DpbMarks} (hn : ∀ i, (d.nodes i).marks = k.nodes i)
    (hc : d.uCountRef = k.uCountRef) (ho : d.uNumOutputPic = k.uNumOutputPic)
    (hw : Event.counterWrapped ∈ d.log ↔ k.wrapped = true) : d.marks = k := by
  obtain ⟨nodes, uCountRef, uNumOutputPic, wrapped⟩ := k
  have hn : (fun i => (d.nodes i).marks) = nodes := funext hn
  simp only [Dpb.marks, hn, hc, ho, hw, Bool.decide_eq_true]

theorem Dpb.mem_log_of_marks : Event.counterWrapped ∈ d.log ↔ d.marks.wrapped = true := by
  simp [Dpb.marks]

theorem Dpb.marks_of_core (h : d'.core = d.core) : d'.marks = d.marks := by
  have hk : ∀ d : Dpb, d.core.marks = d.marks := fun d => by
    refine Dpb.marks_eq (fun _ => rfl) rfl rfl ?_
    rw [← Dpb.mem_log_of_marks]
    simp [Dpb.core, Event.ofPictures]
  rw [← hk d', h, hk d]

theorem Dpb.marks_modNode {f : Node → Node} (hf : ∀ n, (f n).marks = n.marks) :
    (d.modNode u f).marks = d.marks := by
  refine Dpb.marks_eq (fun i => ?_) rfl rfl Dpb.mem_log_of_marks
  rw [Dpb.nodes_modNode]
  split
  · next h => rw [hf, h]; rfl
  · rfl

theorem Dpb.marks_serveWaitingPicture : d.serveWaitingPicture.marks = d.marks := by
  refine Dpb.marks_eq (fun i => ?_) uCountRef_serveWaitingPicture uNumOutputPic_serveWaitingPicture
    ?_
  · have h := congrArg Node.marks (Dpb.plain_serveWaitingPicture (d := d) (i := i))
    exact h
  · rw [log_serveWaitingPicture, Dpb.mem_log_of_marks]

theorem Dpb.marks_remove (hu : u ≠ uEndOfList) : (d.remove u).marks = d.marks.remove u := by
  have hn : ∀ i, ((d.remove u).nodes i).marks =
      if i = u then ⟨.unusedForRef, false, false⟩ else (d.nodes i).marks := by
    intro i
    have h := congrArg Node.marks (Dpb.plain_remove (d := d) (i := i) hu)
    rw [apply_ite Node.marks] at h
    exact h
  unfold DpbMarks.remove
  refine Dpb.marks_eq (fun i => ?_) ?_ ?_ ?_
  · rw [hn, DpbMarks.nodes_setNode]
    split_ifs <;> rfl
  · rw [Dpb.uCountRef_remove hu]
    split_ifs <;> simp_all [Dpb.marks, Node.marks, DpbMarks.setNode, DpbMarks.decCountRef]
  · rw [Dpb.uNumOutputPic_remove]
    split_ifs <;> rfl
  · rw [Dpb.log_remove hu]
    split_ifs <;>
      simp_all [Dpb.marks, Node.marks, DpbMarks.setNode, DpbMarks.decCountRef]

theorem Dpb.marks_dropRef : (d.dropRef u).marks = d.marks.dropRef u := by
  refine Dpb.marks_eq (fun i => ?_) rfl rfl ?_
  · unfold DpbMarks.dropRef
    rw [DpbMarks.nodes_setNode]
    change (((d.modNode u (Node.setMarking .unusedForRef)).nodes i).marks) = _
    rw [Dpb.nodes_modNode]
    split_ifs <;> rfl
  · have hl : (d.dropRef u).log =
        if d.uCountRef = 0 then d.log ++ [.counterWrapped] else d.log := rfl
    rw [hl]
    split_ifs with h0
    · simp [DpbMarks.dropRef, DpbMarks.setNode, DpbMarks.decCountRef, Dpb.marks, h0]
    · simp [DpbMarks.dropRef, DpbMarks.setNode, DpbMarks.decCountRef, Dpb.marks, h0]

theorem Dpb.marks_displayNode : (d.displayNode u).marks = d.marks.displayNode u := by
  have hp : (d.marks.nodes u).picOutputFlag = (d.nodes u).picOutputFlag := rfl
  by_cases hf : (d.nodes u).picOutputFlag = true
  · rw [DpbMarks.displayNode, hp, if_pos hf]
    refine Dpb.marks_eq (fun i => ?_) ?_ ?_ ?_
    · show _ = (d.marks.setNode u _).nodes i
      rw [DpbMarks.nodes_setNode, Dpb.nodes_displayNode]
      simp only [hf, and_true]
      split_ifs <;> rfl
    · unfold Dpb.displayNode
      split_ifs <;> rfl
    · unfold Dpb.displayNode
      split_ifs <;> rfl
    · unfold Dpb.displayNode
      rw [if_pos hf]
      split_ifs <;> by_cases h0 : d.uNumOutputPic = 0 <;>
        simp [Dpb.decNumOutputPic, Dpb.setOutput, Dpb.marks, Dpb.modNode, Dpb.addToDisplayList,
          Dpb.setFifo, Dpb.record, h0]
  · rw [DpbMarks.displayNode, hp, if_neg hf, Dpb.displayNode, if_neg hf]

theorem Dpb.marks_setPicID {v : ℕ} : (d.modNode u (Node.setPicID v)).marks = d.marks :=
  Dpb.marks_modNode fun _ => rfl

theorem Dpb.marks_giveBackPicID : (d.giveBackPicID u).marks = d.marks :=
  Dpb.marks_setPicID (d := d.releasePicID _)

theorem Dpb.marks_setMarking {m : MarkingRef} : (d.modNode u (Node.setMarking m)).marks =
    d.marks.setNode u { d.marks.nodes u with eMarkingFlag := m } := by
  refine Dpb.marks_eq (fun i => ?_) rfl rfl Dpb.mem_log_of_marks
  rw [Dpb.nodes_modNode, DpbMarks.nodes_setNode]
  split_ifs <;> rfl

theorem Dpb.marks_releaseOneBuf : d.releaseOneBuf.marks = d.marks := by
  refine Dpb.marks_eq (fun _ => rfl) rfl rfl ?_
  simp [Dpb.releaseOneBuf, Dpb.record, Dpb.setDlt, Dpb.mem_log_of_marks]

theorem Dpb.nodes_clearAll (l : List ℕ) (i : ℕ) :
    (d.clearAll l).nodes i = if i ∈ l then (d.nodes i).clearOutput else d.nodes i := by
  change (l.foldl (fun d i => d.modNode i Node.clearOutput) d).nodes i = _
  induction l generalizing d with
  | nil => simp
  | cons j l ih =>
    rw [List.foldl_cons, ih, Dpb.nodes_modNode]
    by_cases hj : i = j
    · subst hj
      by_cases hl : i ∈ l <;> simp [hl, Node.clearOutput]
    · simp [hj]

theorem Dpb.foldl_clearOutput (l : List ℕ) :
    (d.clearAll l).uCountRef = d.uCountRef ∧ (d.clearAll l).log = d.log := by
  change (l.foldl (fun d i => d.modNode i Node.clearOutput) d).uCountRef = _ ∧
    (l.foldl (fun d i => d.modNode i Node.clearOutput) d).log = _
  induction l generalizing d with
  | nil => exact ⟨rfl, rfl⟩
  | cons j l ih => exact ih

theorem Dpb.marks_of_insert {a : InsertArgs}
    (h : d'.unlinked = (d.fillNode a).unlinked.countInserted a) : d'.marks = d.marks.insert a := by
  have hu : ∀ d : Dpb, d.unlinked.marks = d.marks := fun _ => rfl
  rw [← hu d', h]
  have hc : (d.fillNode a).uCountRef = d.uCountRef ∧
      (d.fillNode a).uNumOutputPic = d.uNumOutputPic ∧ (d.fillNode a).log = d.log := by
    simp only [Dpb.fillNode]
    split_ifs <;> exact ⟨rfl, rfl, rfl⟩
  obtain ⟨hc, ho, hl⟩ := hc
  refine Dpb.marks_eq (fun i => ?_) ?_ ?_ ?_
  · rw [Dpb.nodes_countInserted]
    change ((d.fillNode a).nodes i).marks = (d.marks.setNode a.uNode _).nodes i
    rw [Dpb.nodes_fillNode, DpbMarks.nodes_setNode]
    split_ifs <;> rfl
  · simp only [Dpb.countInserted, Dpb.unlinked, DpbMarks.insert, hc]
    split_ifs <;> rfl
  · simp only [Dpb.countInserted, Dpb.unlinked, DpbMarks.insert, ho]
    split_ifs <;> rfl
  · simp only [Dpb.countInserted, Dpb.unlinked, DpbMarks.insert]
    split_ifs <;> simp [Dpb.record, hl, Dpb.mem_log_of_marks, DpbMarks.setNode]

end Marks

/-! ## Edits -/

/-- The counters count the marks of the pictures of the buffer. -/
def LinkedDpb.Counted (c : LinkedDpb) : Prop := c.dpb.marks.Counted (c.order .poc)

namespace LinkedDpb.Counted

variable {c c' : LinkedDpb} {u : ℕ}

theorem of_marks (h : c.Counted) (hd : c'.dpb.marks = c.dpb.marks) (ho : c'.order = c.order) :
    c'.Counted := by
  unfold LinkedDpb.Counted
  rw [hd, ho]
  exact h

theorem in_front (h : c.Counted) (hu : c.dpb.InDpb u) :
    c.dpb.marks.Counted (u :: (c.order .poc).erase u) ∧ u ∉ (c.order .poc).erase u ∧
      ((c.order .poc).erase u).length < 255 ∧
      (c.order .poc).Perm (u :: (c.order .poc).erase u) := by
  have hp := List.perm_cons_erase ((c.linked.mem u).mpr hu)
  have hlen := c.linked.length_le .poc
  have hle := (List.erase_sublist (a := u) (l := c.order .poc)).length_le
  refine ⟨h.perm hp.symm, (c.linked.spells .poc).nodup.not_mem_erase, ?_, hp⟩
  simp only [maxDpbSize, maxRef, maxStackSize, recBuf, concealBuf] at hlen
  omega

theorem edit {ok : Risk → Prop} (hs : ¬ ok .slideUnmarked) (hr : ¬ ok .remarkUnmarked)
    (hp : ¬ ok .removePending) (hm : ¬ ok .setMarking) (h : c.Counted) (he : Edit ok c c') :
    c'.Counted := by
  cases he with
  | quiet hd ho => exact h.of_marks (Dpb.marks_of_core hd) ho
  | setNodeID _ hd ho => exact h.of_marks (hd ▸ Dpb.marks_modNode fun _ => rfl) ho
  | @remove u hu hpend hd ho =>
    obtain ⟨hc, hnot, hlen, -⟩ := h.in_front hu
    have hflag : (c.dpb.marks.nodes u).picOutputFlag = false := by
      cases hf : (c.dpb.nodes u).picOutputFlag with
      | true =>
        have hno := hc.noOutput u List.mem_cons_self ((hpend hf).resolve_right hp)
        exact absurd (hno.symm.trans hf) (by simp)
      | false => exact hf
    unfold LinkedDpb.Counted
    rw [hd, ho, Dpb.marks_remove (Threaded.ne_nil (c.linked.spells .poc) (c.mem_order.mpr hu))]
    exact hc.remove hnot hlen hflag
  | displayNode hu hd ho =>
    obtain ⟨hc, hnot, hlen, hperm⟩ := h.in_front hu
    unfold LinkedDpb.Counted
    rw [hd, ho, Dpb.marks_displayNode]
    exact (hc.displayNode hnot hlen).perm hperm
  | dropRef hu hd ho =>
    obtain ⟨hin, hmark⟩ := hu.resolve_right hs
    obtain ⟨hc, hnot, hlen, hperm⟩ := h.in_front hin
    unfold LinkedDpb.Counted
    rw [hd, ho, Dpb.marks_dropRef]
    exact (hc.dropRef hnot hlen hmark).perm hperm
  | giveBackPicID _ hd ho => exact h.of_marks (hd ▸ Dpb.marks_giveBackPicID) ho
  | remark hk hf hu hd ho =>
    obtain ⟨hin, hmark⟩ := hu.resolve_right hr
    obtain ⟨hc, hnot, -, hperm⟩ := h.in_front hin
    unfold LinkedDpb.Counted
    rw [hd, ho, Dpb.marks_of_core (Dpb.core_modNode_congr hf), Dpb.marks_setMarking]
    exact (hc.remark hnot hmark hk).perm hperm
  | move hu hsplit hh hd ho =>
    unfold LinkedDpb.Counted
    have hk : c'.dpb.marks = c.dpb.marks := by
      rw [hd]
      exact (congrArg Dpb.marks (c.dpb.moveInFrontOf_unlinked _ _) :
        (c.dpb.moveInFrontOf _ _).unlinked.marks = _)
    rw [hk, ho, Function.update_of_ne (by decide)]
    exact h
  | restart _ hd ho => exact h.of_marks (hd ▸ Dpb.marks_modNode fun _ => rfl) ho
  | @insert a hv hreset _ _ hd _ ho =>
    have hnot : a.uNode ∉ c.order .poc := fun hm => by
      have hin := ((c.linked.mem _).mp hm).2
      rw [hreset] at hin
      exact absurd hin (by simp)
    have hlen := c.linked.length_le .poc
    have hlt : (c.order .poc).length < 255 := by
      simp only [maxDpbSize, maxRef, maxStackSize, recBuf, concealBuf] at hlen
      omega
    have hperm : ((c.dpb.fillNode a).insertOrder a c.order .poc).Perm (a.uNode :: c.order .poc) := by
      refine List.perm_middle.trans ?_
      rw [List.takeWhile_append_dropWhile]
    unfold LinkedDpb.Counted
    rw [ho, Dpb.marks_of_insert hd]
    exact (DpbMarks.Counted.insert h hnot hlt hv).perm hperm
  | releaseOneBuf _ hd ho => exact h.of_marks (hd ▸ Dpb.marks_releaseOneBuf) ho
  | serve hd ho => exact h.of_marks (hd ▸ Dpb.marks_serveWaitingPicture) ho
  | clearAll hd ho =>
    unfold LinkedDpb.Counted
    rw [hd, ho]
    obtain ⟨hc, hl⟩ := Dpb.foldl_clearOutput (d := c.dpb) (c.order .poc)
    refine DpbMarks.Counted.clearAll h (fun i hi => ?_) hc rfl ?_
    · change ((c.dpb.clearAll (c.order .poc)).nodes i).marks = _
      rw [Dpb.nodes_clearAll, if_pos hi]
      rfl
    · change decide (_ ∈ (c.dpb.clearAll (c.order .poc)).log) = decide _
      rw [hl]
  | setMarkingFlag hk hd ho => exact absurd hk hm

end LinkedDpb.Counted

/-! ## Runs -/

/-- The number of nodes of the decoding order that `p` selects. -/
def Dpb.countInDecOrder (d : Dpb) (p : Node → Bool) : Option ℕ :=
  whileLinked uEndOfList (fun uPic n =>
    some (if p (d.nodes uPic) then n + 1 else n, (d.nodes uPic).uNextDecOrder))
    walkFuel d.uHeadDecOrder 0

/-- Both counters count nodes of the decoding order, and neither has wrapped. -/
def Dpb.CountersOk (d : Dpb) : Prop :=
  d.countInDecOrder (fun n => n.marks.marked) = some d.uCountRef ∧
    d.countInDecOrder Node.picOutputFlag = some d.uNumOutputPic ∧ .counterWrapped ∉ d.log

instance (d : Dpb) : Decidable d.CountersOk := inferInstanceAs (Decidable (_ ∧ _ ∧ _))

theorem LinkedDpb.Sorted.countInDecOrder {c : LinkedDpb} (h : c.Sorted) (p : Node → Bool) :
    c.dpb.countInDecOrder p = some ((c.order .poc).countP fun i => p (c.dpb.nodes i)) := by
  have hfold : ∀ (l : List ℕ) (n : ℕ), l.foldl (fun n u => if p (c.dpb.nodes u) then n + 1 else n) n =
      n + l.countP fun i => p (c.dpb.nodes i) := by
    intro l
    induction l with
    | nil => exact fun _ => rfl
    | cons u l ih =>
      intro n
      rw [List.foldl_cons, ih, List.countP_cons]
      split <;> omega
  rw [Dpb.countInDecOrder, h.fold_decOrder, hfold, Nat.zero_add,
    (c.linked.perm .decOrder).countP_eq]

/-- In a run from `AL_Dpb_Init` the counters are right as long as no step
promotes the head, drops or re-marks a picture that is not a reference, removes
one that waits for its output, or sets a marking from outside. -/
theorem Dpb.countersOk_of_run (m : Dpb) (uNumRef : ℕ) (eMode : DpbMode) (ops : List Op)
    (ha : (m.init uNumRef eMode).RunAllowed
      [.promoteHead, .slideUnmarked, .remarkUnmarked, .removePending, .setMarking] ops) :
    ∃ d, (m.init uNumRef eMode).run ops = some d ∧ d.CountersOk := by
  have hbase : (LinkedDpb.init m uNumRef eMode).Sorted ∧ (LinkedDpb.init m uNumRef eMode).Counted :=
    ⟨⟨rfl, .nil, .nil⟩, rfl, rfl, by simp [LinkedDpb.init], by simp [LinkedDpb.init], rfl⟩
  obtain ⟨d, hr, c, rfl, hs, hc⟩ := Dpb.run_goes_through (J := fun c => c.Sorted ∧ c.Counted)
    (fun c c' h he => ⟨h.1.edit (by simp) he,
      h.2.edit (by simp) (by simp) (by simp) (by simp) he⟩)
    (fun c h => h.1.not_stuck) hbase ha
  refine ⟨c.dpb, hr, ?_, ?_, ?_⟩
  · exact (hs.countInDecOrder _).trans (congrArg some hc.ref.symm)
  · exact (hs.countInDecOrder _).trans (congrArg some hc.output.symm)
  · rw [Dpb.mem_log_of_marks]
    exact Bool.eq_false_iff.mp hc.noWrap

theorem Dpb.countersOk_threeRefs : ∃ d, (Dpb.zeroed.init 4 .normal).run
    (Op.threeRefs [6, 3, 0] [0] [1, 0] ++ [.display 1, .flush]) = some d ∧ d.CountersOk :=
  Dpb.countersOk_of_run .zeroed 4 .normal _ (by decide +kernel)

/-- A stream with one reference frame whose second and third pictures make
themselves long-term pictures, the second one after it has dropped the first. -/
def Op.onlyLongTerm : List Op :=
  [.insert (.sample 0 0 .shortTermRef), .markingProcess (.sample 1 avcNutVclIdr 0),
    .insert (.sample 1 2 .shortTermRef),
    .markingProcess ((AvcSliceHdr.sample 1 1 1).withMmco [1, 6, 0] [0] [0]),
    .insert (.sample 2 4 .shortTermRef),
    .markingProcess ((AvcSliceHdr.sample 1 1 2).withMmco [6, 0] [] [1])]

/-- The sliding window finds no short-term picture and drops node 0, which is no
reference: two pictures are references and `uCountRef` is 1. -/
theorem Dpb.not_countersOk_onlyLongTerm : (Dpb.zeroed.init 4 .normal).RunAllowed []
      Op.onlyLongTerm ∧
    ∃ d, (Dpb.zeroed.init 4 .normal).run Op.onlyLongTerm = some d ∧ ¬ d.CountersOk := by
  refine ⟨by decide +kernel, ?_⟩
  have hrun : ((Dpb.zeroed.init 4 .normal).run Op.onlyLongTerm).map
      (fun d => (d.uCountRef, d.countInDecOrder fun n => n.marks.marked)) = some (1, some 2) := by
    decide +kernel
  obtain ⟨d, hr, hd⟩ := Option.map_eq_some_iff.mp hrun
  simp only [Prod.mk.injEq] at hd
  refine ⟨d, hr, fun h => ?_⟩
  have hcount := h.1
  rw [hd.1, hd.2] at hcount
  exact absurd hcount (by decide)

end VcuCodec
