import Mathlib.Logic.Relation
import VcuCodec.DpbOrders
import VcuCodec.DpbRuns

/-!
# Elementary edits

Every operation of the buffer comes down to a few elementary edits: a picture
leaves, is displayed, loses or gets its marking, gives its picture ID back,
moves in the decoding order, and so on.  `Edit ok` relates a buffer to the
buffer after one of them.  The edits that damage a property of the buffer name
a `Risk`, and `ok` says which risks are taken.
-/

namespace VcuCodec

open LinkedLists Relation

/-! ## What no property reads -/

/-- A node without its numbers. -/
def Node.core (n : Node) : Node :=
  { n with
    iFrameNum := 0
    iSliceFrameNum := 0
    iFrameNumWrap := 0
    iLongTermFrameIdx := 0
    iLongTermPicNum := 0
    iPicNum := 0
    bIsDisplayed := false
    uPicLatency := 0
    eNUT := 0 }

/-- Log entries that do not come from the display. -/
def Event.ofPictures : Event → Bool
  | .incrementFrmBuf .display _ => false
  | .decrementFrmBuf .display _ => false
  | .outputFrmBuf _ => false
  | _ => true

/-- The buffer without picture numbers, display FIFO and configuration. -/
def Dpb.core (d : Dpb) : Dpb :=
  { d with
    nodes := fun i => (d.nodes i).core
    dispFifo := ⟨fun _ => 0, fun _ => 0, fun _ => .notNeededForOutput, 0, 0⟩
    iLastDisplayedPOC := 0
    bNewSeq := false
    uNumRef := 0
    maxLongTermFrameIdx := 0
    bLastHasMMCO5 := false
    eMode := .normal
    log := d.log.filter Event.ofPictures }

theorem Dpb.skeleton_of_core {d d' : Dpb} (h : d'.core = d.core) : d'.skeleton = d.skeleton :=
  (congrArg Dpb.skeleton h : d'.core.skeleton = d.core.skeleton)

theorem Dpb.modNode_id (d : Dpb) (i : ℕ) : (d.modNode i fun n => n) = d := by
  unfold Dpb.modNode
  have hn : (fun j => if j = i then d.nodes i else d.nodes j) = d.nodes := by
    funext j
    split
    · next h => rw [h]
    · rfl
  rw [hn]

theorem Dpb.core_modNode_congr {d : Dpb} {i : ℕ} {f g : Node → Node}
    (hf : (f (d.nodes i)).core = (g (d.nodes i)).core) :
    (d.modNode i f).core = (d.modNode i g).core := by
  have hn : (fun j => ((d.modNode i f).nodes j).core) =
      fun j => ((d.modNode i g).nodes j).core := by
    funext j
    simp only [Dpb.nodes_modNode]
    split
    · exact hf
    · rfl
  unfold Dpb.core
  rw [hn]
  rfl

theorem Dpb.core_modNode {d : Dpb} {i : ℕ} {f : Node → Node}
    (hf : (f (d.nodes i)).core = (d.nodes i).core) : (d.modNode i f).core = d.core := by
  have h := Dpb.core_modNode_congr (g := fun n => n) hf
  rwa [Dpb.modNode_id] at h

theorem Dpb.core_record_of_display {d : Dpb} {es : List Event}
    (hes : ∀ e ∈ es, e.ofPictures = false) : (d.record es).core = d.core := by
  have hl : (d.log ++ es).filter Event.ofPictures = d.log.filter Event.ofPictures := by
    have he : es.filter Event.ofPictures = [] := List.filter_eq_nil_iff.mpr (by simpa using hes)
    rw [List.filter_append, he, List.append_nil]
  unfold Dpb.core Dpb.record
  rw [hl]

theorem Dpb.uCurRef_of_core {d d' : Dpb} (h : d'.core = d.core) : d'.uCurRef = d.uCurRef :=
  (congrArg Dpb.uCurRef h : d'.core.uCurRef = d.core.uCurRef)

/-! ## Edits -/

/-- A buffer with the orders its links spell out. -/
structure LinkedDpb where
  dpb : Dpb
  order : Order → List ℕ
  linked : Linked dpb order

/-- Clearing the output flags of the pictures `l`. -/
def Dpb.clearAll (d : Dpb) (l : List ℕ) : Dpb :=
  { l.foldl (fun d i => d.modNode i Node.clearOutput) d with uNumOutputPic := 0 }

variable {ok : Risk → Prop}

/-- One elementary change of the buffer. -/
inductive Edit (ok : Risk → Prop) (c c' : LinkedDpb) : Prop
  | quiet (hd : c'.dpb.core = c.dpb.core) (ho : c'.order = c.order)
  | setNodeID {u : ℕ} (hu : c.dpb.InDpb u) (hd : c'.dpb = c.dpb.modNode u (Node.setNodeID u))
      (ho : c'.order = c.order)
  | remove {u : ℕ} (hu : c.dpb.InDpb u)
      (hp : (c.dpb.nodes u).picOutputFlag = true →
        (c.dpb.nodes u).nonExisting = true ∨ ok .removePending)
      (hd : c'.dpb = c.dpb.remove u) (ho : c'.order = fun o => (c.order o).erase u)
  | displayNode {u : ℕ} (hu : c.dpb.InDpb u) (hd : c'.dpb = c.dpb.displayNode u)
      (ho : c'.order = c.order)
  | dropRef {u : ℕ}
      (hu : c.dpb.InDpb u ∧ (c.dpb.nodes u).eMarkingFlag ≠ .unusedForRef ∨ ok .slideUnmarked)
      (hd : c'.dpb = c.dpb.dropRef u) (ho : c'.order = c.order)
  | giveBackPicID {u : ℕ}
      (hu : c.dpb.InDpb u ∨ (c.dpb.nodes u).uPicID = undefID ∨ ok .slideStaleID)
      (hd : c'.dpb = c.dpb.giveBackPicID u) (ho : c'.order = c.order)
  | remark {u : ℕ} {f : Node → Node} {m : MarkingRef} (hm : m = .shortTermRef ∨ m = .longTermRef)
      (hf : (f (c.dpb.nodes u)).core = (Node.setMarking m (c.dpb.nodes u)).core)
      (hu : c.dpb.InDpb u ∧ (c.dpb.nodes u).eMarkingFlag ≠ .unusedForRef ∨ ok .remarkUnmarked)
      (hd : c'.dpb = c.dpb.modNode u f) (ho : c'.order = c.order)
  | move {u t : ℕ} {xs ys : List ℕ} (hu : u ∈ c.order .decOrder)
      (hs : (c.order .decOrder).erase u = xs ++ t :: ys)
      (hh : c.dpb.uHeadDecOrder = u → (c.dpb.nodes u).uNextDecOrder = t ∨ ok .promoteHead)
      (hd : c'.dpb = c.dpb.moveInFrontOf u t)
      (ho : c'.order = Function.update c.order .decOrder (xs ++ u :: t :: ys))
  | restart {u : ℕ}
      (hall : c.dpb.uHeadDecOrder = (c.order .decOrder).headD uEndOfList →
        ∀ i ∈ c.order .decOrder, i = u)
      (hd : c'.dpb = c.dpb.modNode u Node.restart) (ho : c'.order = c.order)
  | insert {a : InsertArgs} (hv : a.Valid) (hr : (c.dpb.nodes a.uNode).bIsReset = true)
      (hw : a.nonExisting = false → c.dpb.ids.bPicWaiting = true → ok .insertWhileWaiting)
      (hmv : a.nonExisting = false → c.dpb.MvFree a.uMvID ∨ ok .sharedMv)
      (hd : c'.dpb.unlinked = (c.dpb.fillNode a).unlinked.countInserted a)
      (hh : c'.dpb.uHeadDecOrder = if c.order .poc = [] then a.uNode else c.dpb.uHeadDecOrder)
      (ho : c'.order = (c.dpb.fillNode a).insertOrder a c.order)
  | releaseOneBuf (hn : c.dpb.dlt.iNumDltPic ≠ 0) (hd : c'.dpb = c.dpb.releaseOneBuf)
      (ho : c'.order = c.order)
  | serve (hd : c'.dpb = c.dpb.serveWaitingPicture) (ho : c'.order = c.order)
  | clearAll (hd : c'.dpb = c.dpb.clearAll (c.order .poc)) (ho : c'.order = c.order)
  | setMarkingFlag {u : ℕ} {m : MarkingRef} (hk : ok .setMarking)
      (hd : c'.dpb = c.dpb.setMarkingFlag u m) (ho : c'.order = c.order)

/-- Any number of edits. -/
abbrev Edits (ok : Risk → Prop) : LinkedDpb → LinkedDpb → Prop := ReflTransGen (Edit ok)

theorem Edits.keep {J : LinkedDpb → Prop} (hJ : ∀ c c', J c → Edit ok c c' → J c')
    {c c' : LinkedDpb} (h : Edits ok c c') (hc : J c) : J c' := by
  induction h with
  | refl => exact hc
  | tail _ hstep ih => exact hJ _ _ ih hstep

/-- The computation `r` on `c` does not fault, comes down to edits, and ends in
a state with `P`. -/
def Reaches (ok : Risk → Prop) (c : LinkedDpb) (r : Option Dpb) (P : LinkedDpb → Prop) : Prop :=
  ∃ c', r = some c'.dpb ∧ Edits ok c c' ∧ P c'

namespace Reaches

variable {c c' : LinkedDpb} {r : Option Dpb} {P Q : LinkedDpb → Prop}

theorem done (hP : P c) : Reaches ok c (some c.dpb) P := ⟨c, rfl, .refl, hP⟩

theorem edit (c' : LinkedDpb) {d : Dpb} (hd : d = c'.dpb) (he : Edit ok c c') (hP : P c') :
    Reaches ok c (some d) P :=
  ⟨c', by rw [hd], .single he, hP⟩

theorem mono (h : Reaches ok c r P) (hPQ : ∀ c', P c' → Q c') : Reaches ok c r Q := by
  obtain ⟨c', hr, he, hP⟩ := h
  exact ⟨c', hr, he, hPQ c' hP⟩

theorem bind {f : Dpb → Option Dpb} (h : Reaches ok c r P)
    (hf : ∀ c', P c' → Reaches ok c' (f c'.dpb) Q) : Reaches ok c (r.bind f) Q := by
  obtain ⟨c', hr, he, hP⟩ := h
  obtain ⟨c'', hr', he', hQ⟩ := hf c' hP
  exact ⟨c'', by rw [hr, Option.bind_some, hr'], he.trans he', hQ⟩

theorem of_edits (he : Edits ok c c') (h : Reaches ok c' r P) : Reaches ok c r P := by
  obtain ⟨c'', hr, he', hP⟩ := h
  exact ⟨c'', hr, he.trans he', hP⟩

end Reaches

end VcuCodec
