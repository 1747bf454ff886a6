import VcuCodec.DpbLinks

/-!
# The three orders as one invariant

`Linked d order` says that the links of the buffer `d` spell out the lists
`order`, one for each `Order`, of the pictures it holds.  The decoding order is
only required to be entered somewhere: `uHeadDecOrder` may point into its
middle, or nowhere.
-/

namespace VcuCodec

open LinkedLists

/-- The links of `d` spell out `order`. -/
structure Linked (d : Dpb) (order : Order → List ℕ) : Prop where
  spells : ∀ o, d.Spells o (order o)
  perm : ∀ o, (order o).Perm (order .poc)
  mem : ∀ i, i ∈ order .poc ↔ d.InDpb i
  head_poc : d.uHeadPOC = (order .poc).headD uEndOfList
  last_poc : d.uLastPOC = (order .poc).getLastD uEndOfList
  head_lsb : order .poc ≠ [] → d.uHeadPocLsb = (order .pocLsb).headD uEndOfList
  head_dec : d.uHeadDecOrder = uEndOfList ∨ d.uHeadDecOrder ∈ order .decOrder
  count : d.uCountPic = (order .poc).length
  clean : ∀ i, (d.nodes i).bIsReset = true → i < maxDpbSize → (d.nodes i).nonExisting = false

namespace Linked

variable {d d' : Dpb} {order : Order → List ℕ} {o : Order} {u i : ℕ}

theorem mem_order (h : Linked d order) (o : Order) : i ∈ order o ↔ d.InDpb i :=
  (h.perm o).mem_iff.trans (h.mem i)

theorem lt_of_mem (h : Linked d order) (hi : i ∈ order o) : i < maxDpbSize :=
  ((h.mem_order o).mp hi).1

theorem length_le (h : Linked d order) (o : Order) : (order o).length ≤ maxDpbSize := by
  have hsub : order o ⊆ List.range maxDpbSize := fun i hi =>
    List.mem_range.mpr (h.lt_of_mem hi)
  have hle := (h.spells o).nodup.length_le_of_subset hsub
  rwa [List.length_range] at hle

theorem entry (h : Linked d order) : ∃ pre rest, order .decOrder = pre ++ rest ∧
    d.uHeadDecOrder = rest.headD uEndOfList := by
  rcases h.head_dec with he | hm
  · exact ⟨order .decOrder, [], by simp, by simpa using he⟩
  · obtain ⟨pre, rest, hsplit⟩ := List.append_of_mem hm
    exact ⟨pre, _, hsplit, rfl⟩

end Linked

/-! ## What the invariant reads -/

/-- The fields of a node that `Linked` reads. -/
structure NodeSkeleton where
  uPrevPOC : ℕ
  uNextPOC : ℕ
  uPrevPocLsb : ℕ
  uNextPocLsb : ℕ
  uPrevDecOrder : ℕ
  uNextDecOrder : ℕ
  bIsReset : Bool
  nonExisting : Bool

def Node.skeleton (n : Node) : NodeSkeleton :=
  ⟨n.uPrevPOC, n.uNextPOC, n.uPrevPocLsb, n.uNextPocLsb, n.uPrevDecOrder, n.uNextDecOrder,
    n.bIsReset, n.nonExisting⟩

/-- The part of the buffer that `Linked` reads. -/
structure DpbSkeleton where
  nodes : ℕ → NodeSkeleton
  uHeadPOC : ℕ
  uHeadPocLsb : ℕ
  uHeadDecOrder : ℕ
  uLastPOC : ℕ
  uCountPic : ℕ

def Dpb.skeleton (d : Dpb) : DpbSkeleton :=
  ⟨fun i => (d.nodes i).skeleton, d.uHeadPOC, d.uHeadPocLsb, d.uHeadDecOrder, d.uLastPOC,
    d.uCountPic⟩

variable {d : Dpb}

theorem Dpb.skeleton_modNode {i : ℕ} {f : Node → Node}
    (hf : ∀ n, (f n).skeleton = n.skeleton) : (d.modNode i f).skeleton = d.skeleton := by
  have hn : (fun j => ((d.modNode i f).nodes j).skeleton) = fun j => (d.nodes j).skeleton := by
    funext j
    rw [Dpb.nodes_modNode]
    split
    · next h => rw [hf, h]
    · rfl
  unfold Dpb.skeleton
  rw [hn]
  rfl

section OfSkeleton

variable {d d' : Dpb} {order : Order → List ℕ} (hs : d'.skeleton = d.skeleton)

include hs

theorem Dpb.nodes_of_skeleton (i : ℕ) : (d'.nodes i).skeleton = (d.nodes i).skeleton :=
  congrArg (fun s => s.nodes i) hs

theorem Dpb.next_of_skeleton (o : Order) (i : ℕ) : o.next (d'.nodes i) = o.next (d.nodes i) := by
  have hi := Dpb.nodes_of_skeleton hs i
  cases o with
  | poc => exact congrArg NodeSkeleton.uNextPOC hi
  | pocLsb => exact congrArg NodeSkeleton.uNextPocLsb hi
  | decOrder => exact congrArg NodeSkeleton.uNextDecOrder hi

theorem Dpb.prev_of_skeleton (o : Order) (i : ℕ) : o.prev (d'.nodes i) = o.prev (d.nodes i) := by
  have hi := Dpb.nodes_of_skeleton hs i
  cases o with
  | poc => exact congrArg NodeSkeleton.uPrevPOC hi
  | pocLsb => exact congrArg NodeSkeleton.uPrevPocLsb hi
  | decOrder => exact congrArg NodeSkeleton.uPrevDecOrder hi

theorem Dpb.inDpb_of_skeleton (i : ℕ) : d'.InDpb i ↔ d.InDpb i := by
  have hi : (d'.nodes i).bIsReset = (d.nodes i).bIsReset :=
    congrArg NodeSkeleton.bIsReset (Dpb.nodes_of_skeleton hs i)
  rw [Dpb.InDpb, Dpb.InDpb, hi]

theorem Linked.of_skeleton (h : Linked d order) : Linked d' order where
  spells o := (h.spells o).congr (fun i _ => Dpb.next_of_skeleton hs o i)
    (fun i _ => Dpb.prev_of_skeleton hs o i)
  perm := h.perm
  mem i := (h.mem i).trans (Dpb.inDpb_of_skeleton hs i).symm
  head_poc := (congrArg DpbSkeleton.uHeadPOC hs).trans h.head_poc
  last_poc := (congrArg DpbSkeleton.uLastPOC hs).trans h.last_poc
  head_lsb hne := (congrArg DpbSkeleton.uHeadPocLsb hs).trans (h.head_lsb hne)
  head_dec := by
    have hh : d'.uHeadDecOrder = d.uHeadDecOrder := congrArg DpbSkeleton.uHeadDecOrder hs
    rw [hh]
    exact h.head_dec
  count := (congrArg DpbSkeleton.uCountPic hs).trans h.count
  clean i hi hlt := by
    have hr : (d'.nodes i).bIsReset = (d.nodes i).bIsReset :=
      congrArg NodeSkeleton.bIsReset (Dpb.nodes_of_skeleton hs i)
    have he : (d'.nodes i).nonExisting = (d.nodes i).nonExisting :=
      congrArg NodeSkeleton.nonExisting (Dpb.nodes_of_skeleton hs i)
    rw [he]
    exact h.clean i (hr ▸ hi) hlt

end OfSkeleton

namespace Dpb

variable (d : Dpb)

@[simp] theorem skeleton_setIds (ids : PicIds) : (d.setIds ids).skeleton = d.skeleton := rfl

@[simp] theorem skeleton_deletePic (i j : ℕ) : (d.deletePic i j).skeleton = d.skeleton := rfl

@[simp] theorem skeleton_fillWaitingPicture : d.fillWaitingPicture.skeleton = d.skeleton := by
  simp only [Dpb.fillWaitingPicture]
  split_ifs
  · exact (Dpb.skeleton_setIds _ _).trans (Dpb.skeleton_modNode fun _ => rfl)
  · exact (Dpb.skeleton_setIds _ _).trans (Dpb.skeleton_modNode fun _ => rfl)

@[simp] theorem skeleton_serveWaitingPicture : d.serveWaitingPicture.skeleton = d.skeleton := by
  unfold Dpb.serveWaitingPicture
  split_ifs
  · exact d.skeleton_fillWaitingPicture
  · rfl

end Dpb

/-! ## Removing a picture -/

namespace Dpb

variable {d : Dpb} {order : Order → List ℕ} {u : ℕ}

theorem skeleton_modNode_congr {d' : Dpb} {f : Node → Node} {i : ℕ} (h : d'.skeleton = d.skeleton)
    (hf : ∀ n n', (f n).skeleton = (f n').skeleton) :
    (d'.modNode i f).skeleton = (d.modNode i f).skeleton := by
  have hn : (fun j => ((d'.modNode i f).nodes j).skeleton) =
      fun j => ((d.modNode i f).nodes j).skeleton := by
    funext j
    simp only [Dpb.nodes_modNode]
    split
    · exact hf _ _
    · exact Dpb.nodes_of_skeleton h j
  have hd := h
  simp only [Dpb.skeleton, DpbSkeleton.mk.injEq] at hd
  simp only [Dpb.skeleton, DpbSkeleton.mk.injEq]
  exact ⟨hn, hd.2⟩

theorem skeleton_decCountPic_congr {d' : Dpb} (h : d'.skeleton = d.skeleton) :
    d'.decCountPic.skeleton = d.decCountPic.skeleton := by
  simp only [Dpb.skeleton, DpbSkeleton.mk.injEq] at h
  simp only [Dpb.skeleton, DpbSkeleton.mk.injEq, Dpb.decCountPic]
  exact ⟨h.1, h.2.1, h.2.2.1, h.2.2.2.1, h.2.2.2.2.1, congrArg dec8 h.2.2.2.2.2⟩

theorem skeleton_remove (hu : u ≠ uEndOfList) :
    (d.remove u).skeleton = ((d.unlinkNode u).decCountPic.modNode u Node.reset).skeleton := by
  have key : ∀ d' : Dpb, d'.skeleton = (d.unlinkNode u).skeleton →
      (d'.decCountPic.resetNodeInfo u).serveWaitingPicture.skeleton =
        ((d.unlinkNode u).decCountPic.modNode u Node.reset).skeleton := by
    intro d' h
    rw [skeleton_serveWaitingPicture, Dpb.resetNodeInfo, skeleton_setIds]
    exact skeleton_modNode_congr (skeleton_decCountPic_congr h) fun _ _ => rfl
  simp only [Dpb.remove, if_neg hu]
  split_ifs
  · exact key _ rfl
  · exact key _ rfl
  · exact (skeleton_deletePic _ _ _).trans (key _ rfl)
  · exact (skeleton_deletePic _ _ _).trans (key _ rfl)

theorem Spells.unlinkNode {o : Order} {l : List ℕ} (h : d.Spells o l) (hu : u ∈ l) :
    (d.unlinkNode u).Spells o (l.erase u) := by
  have hpoc : ∀ {d' : Dpb} {o' l'}, (d'.removeFromList .poc u).Spells o' l' →
      (d'.removeFromPocList u).Spells o' l' := by
    intro d' o' l' h'
    exact h'.of_nodes_eq (by simp only [Dpb.removeFromPocList]; split_ifs <;> rfl)
  cases o with
  | poc =>
    have h1 := hpoc (h.removeFromList hu)
    exact (h1.removeFromList_of_ne (by decide)).removeFromList_of_ne (by decide)
  | pocLsb =>
    have h1 := hpoc (h.removeFromList_of_ne (by decide))
    exact (h1.removeFromList hu).removeFromList_of_ne (by decide)
  | decOrder =>
    have h1 := hpoc (h.removeFromList_of_ne (by decide))
    exact (h1.removeFromList_of_ne (by decide)).removeFromList hu

theorem head_removeFromPocList (o : Order) :
    o.head (d.removeFromPocList u) = o.head (d.removeFromList .poc u) := by
  simp only [Dpb.removeFromPocList]
  split_ifs
  · rfl
  · cases o <;> rfl

theorem nodes_removeFromPocList : (d.removeFromPocList u).nodes = (d.removeFromList .poc u).nodes := by
  simp only [Dpb.removeFromPocList]
  split_ifs <;> rfl

theorem head_unlinkNode (hu : u ≠ uEndOfList) (o : Order) :
    o.head (d.unlinkNode u) = if o.head d = u then o.next (d.nodes u) else o.head d := by
  have hn : ∀ (d' : Dpb) o', o' ≠ o →
      o.next ((d'.removeFromList o' u).nodes u) = o.next (d'.nodes u) := by
    intro d' o' ho
    rw [Dpb.removeFromList, Order.next_joinNeighbours hu, if_neg (fun h => ho h.1.symm),
      Dpb.nodes_moveHead]
  simp only [Dpb.unlinkNode, Dpb.removeFromDecOrderList, Dpb.removeFromPocLsbList,
    Order.head_removeFromList, head_removeFromPocList]
  cases o with
  | poc => simp
  | pocLsb => simp [nodes_removeFromPocList, hn _ .poc (by decide)]
  | decOrder =>
    simp [hn _ .pocLsb (by decide), nodes_removeFromPocList, hn _ .poc (by decide)]

theorem uLastPOC_unlinkNode :
    (d.unlinkNode u).uLastPOC =
      if (d.nodes u).uNextPOC ≠ uEndOfList then d.uLastPOC else (d.nodes u).uPrevPOC := by
  have hl : ∀ (d' : Dpb) o', (d'.removeFromList o' u).uLastPOC = d'.uLastPOC := by
    intro d' o'
    simp only [Dpb.removeFromList, Dpb.joinNeighbours]
    cases o' <;> split_ifs <;> rfl
  simp only [Dpb.unlinkNode, Dpb.removeFromDecOrderList, Dpb.removeFromPocLsbList, hl,
    Dpb.removeFromPocList]
  split_ifs
  · rw [hl]
  · rfl

end Dpb

theorem Dpb.bIsReset_unlinkNode (d : Dpb) (u i : ℕ) :
    ((d.unlinkNode u).nodes i).bIsReset = (d.nodes i).bIsReset :=
  congrArg (fun d => (d.nodes i).bIsReset) (d.unlinkNode_unlinked u)

variable {order : Order → List ℕ} {u : ℕ}

theorem Linked.remove (h : Linked d order)
    (hu : d.InDpb u) : Linked (d.remove u) fun o => (order o).erase u := by
  have hmem : ∀ o, u ∈ order o := fun o => (h.mem_order o).mpr hu
  have hne : u ≠ uEndOfList := Threaded.ne_nil (h.spells .poc) (hmem .poc)
  suffices hk : Linked ((d.unlinkNode u).decCountPic.modNode u Node.reset)
      fun o => (order o).erase u from hk.of_skeleton (Dpb.skeleton_remove hne)
  have hnot : ∀ o, ∀ i ∈ (order o).erase u, i ≠ u := fun o i hi e =>
    (h.spells o).nodup.not_mem_erase (e ▸ hi)
  have hhead : ∀ o : Order, o.head ((d.unlinkNode u).decCountPic.modNode u Node.reset) =
      if o.head d = u then o.next (d.nodes u) else o.head d := by
    intro o
    rw [Order.head_modNode, ← Dpb.head_unlinkNode hne o]
    cases o <;> rfl
  refine ⟨fun o => ?_, fun o => (h.perm o).erase u, fun i => ?_, ?_, ?_, fun hpoc => ?_, ?_, ?_,
    fun i hi hlt => ?_⟩
  · refine ((h.spells o).unlinkNode (hmem o)).congr (fun i hi => ?_) (fun i hi => ?_)
    · rw [Dpb.nodes_modNode, if_neg (hnot o i hi)]
      rfl
    · rw [Dpb.nodes_modNode, if_neg (hnot o i hi)]
      rfl
  · rw [(h.spells .poc).nodup.mem_erase_iff, h.mem, Dpb.InDpb, Dpb.InDpb, Dpb.nodes_modNode]
    by_cases hi : i = u
    · simp [hi, Node.reset]
    · simp [hi, Dpb.decCountPic, Dpb.bIsReset_unlinkNode]
  · rw [Threaded.headD_erase (h.spells .poc) (hmem .poc), ← h.head_poc]
    exact hhead .poc
  · rw [Threaded.getLastD_erase (h.spells .poc) (hmem .poc), ← h.last_poc]
    exact Dpb.uLastPOC_unlinkNode
  · have hpoc' : order .poc ≠ [] := List.ne_nil_of_mem (hmem .poc)
    rw [Threaded.headD_erase (h.spells .pocLsb) (hmem .pocLsb), ← h.head_lsb hpoc']
    exact hhead .pocLsb
  · have hd : ((d.unlinkNode u).decCountPic.modNode u Node.reset).uHeadDecOrder = _ :=
      hhead .decOrder
    have hnd := (h.spells .decOrder).nodup
    rw [hd]
    split
    · by_cases hn : Order.decOrder.next (d.nodes u) = uEndOfList
      · exact .inl hn
      · exact .inr (Threaded.next_mem_erase (h.spells .decOrder) (hmem .decOrder) hn)
    · next hne' =>
      exact h.head_dec.imp id fun hm => (hnd.mem_erase_iff).mpr ⟨hne', hm⟩
  · have hc : (d.unlinkNode u).uCountPic = d.uCountPic :=
      congrArg (fun d => d.uCountPic) (d.unlinkNode_unlinked u)
    have hpos := List.length_pos_of_mem (hmem .poc)
    have hle := h.length_le .poc
    change dec8 (d.unlinkNode u).uCountPic = _
    rw [hc, h.count, List.length_erase_of_mem (hmem .poc), dec8]
    simp only [maxDpbSize, maxRef, maxStackSize, recBuf, concealBuf] at hle
    omega
  · have he : ((d.unlinkNode u).nodes i).nonExisting = (d.nodes i).nonExisting :=
      congrArg (fun d => (d.nodes i).nonExisting) (d.unlinkNode_unlinked u)
    rw [Dpb.nodes_modNode] at hi ⊢
    split
    · rfl
    · next hiu =>
      rw [if_neg hiu] at hi
      exact he.trans (h.clean i ((d.bIsReset_unlinkNode u i).symm.trans hi) hlt)

/-! ## Moving a picture in the decoding order -/

theorem Dpb.uLastPOC_moveInFrontOf (d : Dpb) (u t : ℕ) :
    (d.moveInFrontOf u t).uLastPOC = d.uLastPOC := by
  simp only [Dpb.moveInFrontOf, Dpb.linkInFrontOf, Dpb.joinNeighbours]
  split_ifs <;> rfl

theorem Order.head_moveInFrontOf (o : Order) (d : Dpb) (u t : ℕ) :
    o.head (d.moveInFrontOf u t) =
      if o = .decOrder ∧ t = d.uHeadDecOrder then u else o.head d := by
  rw [Dpb.moveInFrontOf, Order.head_linkInFrontOf, Order.head_joinNeighbours,
    Order.head_joinNeighbours]
  rfl

variable {xs ys : List ℕ}

theorem Linked.moveInFrontOf {u t : ℕ} (h : Linked d order) (hu : u ∈ order .decOrder)
    (hsplit : (order .decOrder).erase u = xs ++ t :: ys) :
    Linked (d.moveInFrontOf u t) (Function.update order .decOrder (xs ++ u :: t :: ys)) := by
  have hne : u ≠ uEndOfList := Threaded.ne_nil (h.spells .decOrder) hu
  have hun : u ∉ xs ++ t :: ys := hsplit ▸ (h.spells .decOrder).nodup.not_mem_erase
  have hperm : (xs ++ u :: t :: ys).Perm (order .decOrder) := by
    refine List.perm_middle.trans ?_
    rw [← hsplit]
    exact (List.perm_cons_erase hu).symm
  have hdata : ∀ i, ((d.moveInFrontOf u t).nodes i).bIsReset = (d.nodes i).bIsReset := fun i =>
    congrArg (fun d => (d.nodes i).bIsReset) (d.moveInFrontOf_unlinked u t)
  have hcount : (d.moveInFrontOf u t).uCountPic = d.uCountPic :=
    congrArg (fun d => d.uCountPic) (d.moveInFrontOf_unlinked u t)
  have hexist : ∀ i, ((d.moveInFrontOf u t).nodes i).nonExisting = (d.nodes i).nonExisting :=
    fun i => congrArg (fun d => (d.nodes i).nonExisting) (d.moveInFrontOf_unlinked u t)
  refine ⟨fun o => ?_, fun o => ?_, fun i => ?_, ?_, ?_, fun hpoc => ?_, ?_, ?_, fun i hi hlt => ?_⟩
  · by_cases ho : o = .decOrder
    · subst ho
      rw [Function.update_self]
      have hj := (h.spells .decOrder).joinNeighbours hu
      rw [hsplit] at hj
      exact hj.linkInFrontOf hun hne
    · rw [Function.update_of_ne ho]
      exact ((h.spells o).joinNeighbours_of_ne ho).linkInFrontOf_of_ne ho u t
  · by_cases ho : o = .decOrder
    · subst ho
      simpa using hperm.trans (h.perm .decOrder)
    · simpa [Function.update_of_ne ho] using h.perm o
  · simpa [Dpb.InDpb, hdata] using h.mem i
  · have hh : (d.moveInFrontOf u t).uHeadPOC = d.uHeadPOC :=
      (Order.head_moveInFrontOf .poc d u t).trans (if_neg (by simp))
    rw [Function.update_of_ne (by decide)]
    exact hh.trans h.head_poc
  · rw [Function.update_of_ne (by decide)]
    exact (d.uLastPOC_moveInFrontOf u t).trans h.last_poc
  · have hh : (d.moveInFrontOf u t).uHeadPocLsb = d.uHeadPocLsb :=
      (Order.head_moveInFrontOf .pocLsb d u t).trans (if_neg (by simp))
    rw [Function.update_of_ne (by decide)] at hpoc ⊢
    exact hh.trans (h.head_lsb hpoc)
  · have hh : (d.moveInFrontOf u t).uHeadDecOrder =
        if t = d.uHeadDecOrder then u else d.uHeadDecOrder := by
      have h0 := Order.head_moveInFrontOf .decOrder d u t
      simp only [true_and] at h0
      exact h0
    rw [Function.update_self, hh]
    split
    · exact .inr (by simp)
    · exact h.head_dec.imp id fun hm => hperm.mem_iff.mpr hm
  · rw [Function.update_of_ne (by decide)]
    exact hcount.trans h.count
  · exact (hexist i).trans (h.clean i ((hdata i).symm.trans hi) hlt)

/-! ## Inserting a picture -/

theorem Dpb.nodes_linkPOC (d : Dpb) (u : ℕ) (p : Place) :
    (d.linkPOC u p).nodes = (d.linkIn .poc u p).nodes := by
  cases p <;> rfl

theorem Dpb.linkPOC_unlinked (d : Dpb) (u : ℕ) (p : Place) :
    (d.linkPOC u p).unlinked = d.unlinked := by
  rw [← d.linkIn_unlinked .poc u p]
  cases p <;> rfl

theorem Order.head_linkPOC (o : Order) (d : Dpb) (u : ℕ) (p : Place) :
    o.head (d.linkPOC u p) = o.head (d.linkIn .poc u p) := by
  cases p with
  | before t => rfl
  | after t => cases o <;> rfl

/-- The orders after a new picture has been linked in. -/
def Dpb.insertOrder (d : Dpb) (a : InsertArgs) (order : Order → List ℕ) : Order → List ℕ
  | .poc =>
    let after := fun i => !decide (a.iFramePOC < (d.nodes i).iFramePOC)
    (order .poc).takeWhile after ++ a.uNode :: (order .poc).dropWhile after
  | .pocLsb =>
    let after := fun i => !decide (a.uPocLsb < (d.nodes i).slicePicOrderCntLsb)
    (order .pocLsb).takeWhile after ++ a.uNode :: (order .pocLsb).dropWhile after
  | .decOrder => order .decOrder ++ [a.uNode]

theorem Order.head_linkIn_between {o : Order} (h : d.Spells o (xs ++ ys)) (hl : xs ++ ys ≠ [])
    (hh : o.head d = (xs ++ ys).headD uEndOfList) :
    o.head (d.linkIn o u (.between xs ys)) = (xs ++ u :: ys).headD uEndOfList := by
  cases ys with
  | nil =>
    rw [Place.between, Order.head_linkIn_after, hh]
    cases xs with
    | nil => exact absurd rfl hl
    | cons x xs => rfl
  | cons t ys =>
    rw [Place.between, Order.head_linkIn_before, hh]
    cases xs with
    | nil => simp
    | cons x xs =>
      have hx : t ≠ x := fun e => (Threaded.notMem_of_middle h).1 (by simp [e])
      simp [hx]

theorem Dpb.uLastPOC_linkPOC_between (hl : d.uLastPOC = (xs ++ ys).getLastD uEndOfList) :
    (d.linkPOC u (.between xs ys)).uLastPOC = (xs ++ u :: ys).getLastD uEndOfList := by
  cases ys with
  | nil => simp [Place.between, Dpb.linkPOC]
  | cons t ys =>
    have hk : (d.linkIn .poc u (.before t)).uLastPOC = d.uLastPOC := by
      simp only [Dpb.linkIn]
      split_ifs <;> rfl
    rw [Place.between, Dpb.linkPOC, hk, hl]
    simp

theorem Dpb.linkFirst_spells (d : Dpb) (hu : u ≠ uEndOfList) (o : Order) :
    (d.linkFirst u).Spells o [u] := by
  have hn : (d.linkFirst u).nodes u = (d.nodes u).unlinked := by
    change (d.modNode u Node.unlinked).nodes u = _
    rw [Dpb.nodes_modNode, if_pos rfl]
  refine ⟨List.nodup_singleton u, by simpa using hu.symm, ?_, ?_, trivial⟩
  · change o.prev ((d.linkFirst u).nodes u) = uEndOfList
    rw [hn]
    cases o <;> rfl
  · change o.next ((d.linkFirst u).nodes u) = uEndOfList
    rw [hn]
    cases o <;> rfl

section LinkNode

variable {d : Dpb} {a : InsertArgs} {order : Order → List ℕ}

/-- Linking a node into the three lists finds its place in each of them, unless
the decoding order cannot be entered. -/
theorem Dpb.linkNode_spec (hs : ∀ o, d.Spells o (order o))
    (hperm : ∀ o, (order o).Perm (order .poc)) (hlt : ∀ i ∈ order .poc, i < maxDpbSize)
    (hlen : (order .poc).length ≤ maxDpbSize)
    (hpoc : d.uHeadPOC = (order .poc).headD uEndOfList)
    (hlsb : order .poc ≠ [] → d.uHeadPocLsb = (order .pocLsb).headD uEndOfList)
    (hdec : d.uHeadDecOrder = uEndOfList ∨ d.uHeadDecOrder ∈ order .decOrder)
    (hlast : d.uLastPOC = (order .poc).getLastD uEndOfList)
    (hu : a.uNode ∉ order .poc) (hlu : a.uNode < maxDpbSize) :
    (d.linkNode a.iFramePOC a.uPocLsb a.uNode = none ∧ order .poc ≠ [] ∧
      d.uHeadDecOrder = uEndOfList) ∨
    ∃ d', d.linkNode a.iFramePOC a.uPocLsb a.uNode = some d' ∧
      (∀ o, d'.Spells o (d.insertOrder a order o)) ∧
      d'.unlinked = d.unlinked ∧
      d'.uHeadPOC = (d.insertOrder a order .poc).headD uEndOfList ∧
      d'.uLastPOC = (d.insertOrder a order .poc).getLastD uEndOfList ∧
      d'.uHeadPocLsb = (d.insertOrder a order .pocLsb).headD uEndOfList ∧
      d'.uHeadDecOrder = if order .poc = [] then a.uNode else d.uHeadDecOrder := by
  have hne : a.uNode ≠ uEndOfList := by
    intro e
    simp only [e, uEndOfList, maxDpbSize, maxRef, maxStackSize, recBuf, concealBuf] at hlu
    omega
  by_cases hemp : order .poc = []
  · right
    have hall : ∀ o, order o = [] := fun o => by
      have hp := hperm o
      rw [hemp] at hp
      exact hp.eq_nil
    have hord : ∀ o, d.insertOrder a order o = [a.uNode] := by
      intro o
      cases o <;> simp [Dpb.insertOrder, hall]
    have hhead : d.uHeadPOC = uEndOfList := by simpa [hemp] using hpoc
    refine ⟨d.linkFirst a.uNode, by simp [Dpb.linkNode, hhead], fun o => ?_, ?_, ?_, ?_, ?_, ?_⟩
    · rw [hord]
      exact d.linkFirst_spells hne o
    · exact (Dpb.unlinked_modNode fun _ => rfl : (d.modNode a.uNode Node.unlinked).unlinked = _)
    · rw [hord]
      rfl
    · rw [hord]
      rfl
    · rw [hord]
      rfl
    · rw [if_pos hemp]
      rfl
  · have hlt' : ∀ o, ∀ i ∈ order o, i < maxDpbSize := fun o i hi =>
      hlt i ((hperm o).mem_iff.mp hi)
    have hlen' : ∀ o, (order o).length ≤ walkFuel := fun o => by
      have := (hperm o).length_eq
      unfold walkFuel
      omega
    have hemp' : ∀ o, order o ≠ [] := fun o e => hemp (by
      have hp := hperm o
      rw [e] at hp
      exact hp.symm.eq_nil)
    have hnot : ∀ o, a.uNode ∉ order o := fun o hm => hu ((hperm o).mem_iff.mp hm)
    have hhead : d.uHeadPOC ≠ uEndOfList := by
      rw [hpoc]
      exact Threaded.headD_ne_nil (hs .poc) hemp
    obtain ⟨xs, ys, hxy, hord1, hp1⟩ : ∃ xs ys, xs ++ ys = order .poc ∧
        d.insertOrder a order .poc = xs ++ a.uNode :: ys ∧
        findPlace (fun i => (d.nodes i).uNextPOC)
          (fun i => decide (a.iFramePOC < (d.nodes i).iFramePOC)) walkFuel d.uHeadPOC =
            some (.between xs ys) :=
      ⟨_, _, List.takeWhile_append_dropWhile, rfl,
        hpoc ▸ (hs .poc).findPlace_eq (hlt' .poc) hemp (hlen' .poc) _⟩
    let d1 := d.linkPOC a.uNode (.between xs ys)
    have hu1 : d1.unlinked = d.unlinked := d.linkPOC_unlinked _ _
    have hs1 : d1.Spells .poc (xs ++ a.uNode :: ys) :=
      ((hxy.symm ▸ hs .poc : d.Spells .poc (xs ++ ys)).linkIn
        (hxy.symm ▸ hnot .poc) hne).of_nodes_eq (d.nodes_linkPOC _ _)
    have hs1' : ∀ o, o ≠ .poc → d1.Spells o (order o) := fun o ho =>
      ((hs o).linkIn_of_ne ho _).of_nodes_eq (d.nodes_linkPOC _ _)
    have hh1 : d1.uHeadPOC = (xs ++ a.uNode :: ys).headD uEndOfList :=
      (Order.head_linkPOC .poc d _ _).trans
        (Order.head_linkIn_between (hxy.symm ▸ hs .poc) (hxy.symm ▸ hemp) (hxy.symm ▸ hpoc))
    have hl1 : d1.uLastPOC = (xs ++ a.uNode :: ys).getLastD uEndOfList :=
      Dpb.uLastPOC_linkPOC_between (hxy.symm ▸ hlast)
    have hh1' : ∀ o : Order, o ≠ .poc → o.head d1 = o.head d := fun o ho =>
      (Order.head_linkPOC o d _ _).trans (Order.head_linkIn_of_ne ho)
    have hkey : ∀ i, (d1.nodes i).slicePicOrderCntLsb = (d.nodes i).slicePicOrderCntLsb := fun i =>
      congrArg (fun d => (d.nodes i).slicePicOrderCntLsb) hu1
    obtain ⟨xs', ys', hxy', hord2, hp2⟩ : ∃ xs' ys', xs' ++ ys' = order .pocLsb ∧
        d.insertOrder a order .pocLsb = xs' ++ a.uNode :: ys' ∧
        findPlace (fun i => (d1.nodes i).uNextPocLsb)
          (fun i => decide (a.uPocLsb < (d1.nodes i).slicePicOrderCntLsb)) walkFuel
            d.uHeadPocLsb = some (.between xs' ys') := by
      refine ⟨_, _, List.takeWhile_append_dropWhile, rfl, ?_⟩
      simp only [hkey]
      rw [hlsb hemp]
      exact (hs1' .pocLsb (by decide)).findPlace_eq (hlt' .pocLsb) (hemp' .pocLsb)
        (hlen' .pocLsb) _
    let d2 := d1.linkIn .pocLsb a.uNode (.between xs' ys')
    have hu2 : d2.unlinked = d.unlinked := (d1.linkIn_unlinked _ _ _).trans hu1
    have hs2 : d2.Spells .pocLsb (xs' ++ a.uNode :: ys') :=
      (hxy'.symm ▸ hs1' .pocLsb (by decide) : d1.Spells .pocLsb (xs' ++ ys')).linkIn
        (hxy'.symm ▸ hnot .pocLsb) hne
    have hs2d : d2.Spells .decOrder (order .decOrder) :=
      (hs1' .decOrder (by decide)).linkIn_of_ne (by decide) _
    have hh2 : d2.uHeadPocLsb = (xs' ++ a.uNode :: ys').headD uEndOfList :=
      Order.head_linkIn_between (o := .pocLsb) (d := d1) (hxy'.symm ▸ hs1' .pocLsb (by decide))
        (hxy'.symm ▸ hemp' .pocLsb)
        (hxy'.symm ▸ (hh1' .pocLsb (by decide)).trans (hlsb hemp))
    have heq : d.linkNode a.iFramePOC a.uPocLsb a.uNode =
        (findLast (fun i => (d2.nodes i).uNextDecOrder) walkFuel d.uHeadDecOrder).bind
          fun uLast => some (d2.linkIn .decOrder a.uNode (.after uLast)) := by
      simp only [Dpb.linkNode, if_neg hhead, hp1, Option.bind_eq_bind, Option.bind_some]
      exact congrArg (fun p => Option.bind p _) hp2
    rcases hdec with hend | hmem
    · left
      refine ⟨?_, hemp, hend⟩
      rw [heq, hend]
      rfl
    · right
      obtain ⟨pre, rest, hsplit⟩ := List.append_of_mem hmem
      have hlast' : findLast (fun i => (d2.nodes i).uNextDecOrder) walkFuel d.uHeadDecOrder =
          some ((order .decOrder).getLastD uEndOfList) := by
        rw [hsplit] at hs2d ⊢
        refine (findLast_eq hs2d (fun i hi => hlt' .decOrder i ?_) (by simp) ?_).trans
          (by simp [List.getLast?_cons])
        · rw [hsplit]
          exact List.mem_append_right _ hi
        · have := hlen' .decOrder
          rw [hsplit, List.length_append] at this
          omega
      let d3 := d2.linkIn .decOrder a.uNode (.after ((order .decOrder).getLastD uEndOfList))
      have hh3 : ∀ o : Order, o.head d3 = o.head d2 := fun o => Order.head_linkIn_after
      have hlast3 : d3.uLastPOC = d1.uLastPOC := by
        have hk : ∀ (d : Dpb) o p, (d.linkIn o a.uNode p).uLastPOC = d.uLastPOC := by
          intro d o p
          cases p <;> simp only [Dpb.linkIn]
          · cases o <;> split_ifs <;> rfl
          · rfl
        exact (hk _ _ _).trans (hk _ _ _)
      refine ⟨d3, by rw [heq, hlast']; rfl, fun o => ?_, ?_, ?_, ?_, ?_, ?_⟩
      · cases o with
        | poc =>
          rw [hord1]
          exact (hs1.linkIn_of_ne (by decide) _).linkIn_of_ne (by decide) _
        | pocLsb =>
          rw [hord2]
          exact hs2.linkIn_of_ne (by decide) _
        | decOrder =>
          have hs3 : d2.Spells .decOrder (order .decOrder ++ []) := by simpa using hs2d
          exact hs3.linkIn (by simpa using hnot .decOrder) hne
      · exact (d2.linkIn_unlinked _ _ _).trans hu2
      · rw [hord1, ← hh1]
        exact (hh3 .poc).trans (Order.head_linkIn_of_ne (by decide))
      · rw [hord1, ← hl1]
        exact hlast3
      · rw [hord2, ← hh2]
        exact hh3 .pocLsb
      · rw [if_neg hemp]
        exact ((hh3 .decOrder).trans (Order.head_linkIn_of_ne (by decide))).trans
          (hh1' .decOrder (by decide))

theorem Dpb.nodes_fillNode (d : Dpb) (a : InsertArgs) (i : ℕ) :
    (d.fillNode a).nodes i =
      if i = a.uNode then Node.fill a (d.assignPicID a).2 (d.nodes a.uNode) else d.nodes i := by
  simp only [Dpb.fillNode]
  split_ifs <;> simp_all [Dpb.modNode, Dpb.setFifo, Dpb.setIds, Dpb.setCurRef]

theorem Order.head_fillNode (o : Order) (d : Dpb) (a : InsertArgs) :
    o.head (d.fillNode a) = o.head d := by
  simp only [Dpb.fillNode]
  cases o <;> split_ifs <;> rfl

theorem Dpb.uLastPOC_fillNode (d : Dpb) (a : InsertArgs) :
    (d.fillNode a).uLastPOC = d.uLastPOC := by
  simp only [Dpb.fillNode]
  split_ifs <;> rfl

theorem Dpb.uCountPic_fillNode (d : Dpb) (a : InsertArgs) :
    (d.fillNode a).uCountPic = d.uCountPic := by
  simp only [Dpb.fillNode]
  split_ifs <;> rfl

theorem Dpb.countInserted_unlinked (d : Dpb) (a : InsertArgs) :
    (d.countInserted a).unlinked = d.unlinked.countInserted a := by
  simp only [Dpb.countInserted]
  split_ifs <;> rfl

theorem Dpb.skeleton_countInserted (d : Dpb) (a : InsertArgs) :
    (d.countInserted a).skeleton = { d with uCountPic := inc8 d.uCountPic }.skeleton := by
  simp only [Dpb.countInserted]
  split_ifs <;> rfl

theorem Linked.insert (h : Linked d order) (hr : (d.nodes a.uNode).bIsReset = true)
    (hlu : a.uNode < maxDpbSize) :
    (d.insert a = none ∧ order .poc ≠ [] ∧ d.uHeadDecOrder = uEndOfList) ∨
    ∃ d', d.insert a = some d' ∧ Linked d' ((d.fillNode a).insertOrder a order) ∧
      d'.unlinked = (d.fillNode a).unlinked.countInserted a ∧
      d'.uHeadDecOrder = if order .poc = [] then a.uNode else d.uHeadDecOrder := by
  have hnot : ∀ o, a.uNode ∉ order o := fun o hm => by
    have := ((h.mem_order o).mp hm).2
    rw [hr] at this
    exact absurd this (by simp)
  have hs : ∀ o, (d.fillNode a).Spells o (order o) := by
    intro o
    have hn : ∀ i ∈ order o, (d.fillNode a).nodes i = d.nodes i := fun i hi => by
      have hi' : i ≠ a.uNode := fun e => hnot o (e ▸ hi)
      rw [Dpb.nodes_fillNode, if_neg hi']
    exact (h.spells o).congr (fun i hi => by rw [hn i hi]) (fun i hi => by rw [hn i hi])
  have hhead := fun o => Order.head_fillNode o d a
  have hdec : (d.fillNode a).uHeadDecOrder = d.uHeadDecOrder := hhead .decOrder
  rcases Dpb.linkNode_spec hs h.perm (fun i hi => h.lt_of_mem hi) (h.length_le .poc)
    ((hhead .poc).trans h.head_poc) (fun hp => (hhead .pocLsb).trans (h.head_lsb hp))
    (hdec ▸ h.head_dec) ((d.uLastPOC_fillNode a).trans h.last_poc) (hnot .poc) hlu with
    ⟨hnone, hpoc, hend⟩ | ⟨d', hsome, hs', hu', hpoc', hlast', hlsb', hdec'⟩
  · left
    refine ⟨?_, hpoc, hdec ▸ hend⟩
    simp [Dpb.insert, hnone]
  · right
    have hperm : ∀ o, ((d.fillNode a).insertOrder a order o).Perm (a.uNode :: order o) := by
      intro o
      cases o with
      | poc =>
        refine List.perm_middle.trans ?_
        rw [List.takeWhile_append_dropWhile]
      | pocLsb =>
        refine List.perm_middle.trans ?_
        rw [List.takeWhile_append_dropWhile]
      | decOrder => exact List.perm_append_singleton _ _
    have hreset : ∀ i, (d'.nodes i).bIsReset = ((d.fillNode a).nodes i).bIsReset := fun i =>
      congrArg (fun d => (d.nodes i).bIsReset) hu'
    have hl : Linked (d'.countInserted a) ((d.fillNode a).insertOrder a order) := by
      suffices hl : Linked { d' with uCountPic := inc8 d'.uCountPic }
          ((d.fillNode a).insertOrder a order) from
        hl.of_skeleton (d'.skeleton_countInserted a)
      refine ⟨hs', fun o => ?_, fun i => ?_, hpoc', hlast', fun _ => hlsb', ?_, ?_,
        fun i hi hlt => ?_⟩
      · exact (hperm o).trans (((h.perm o).cons _).trans (hperm .poc).symm)
      · rw [(hperm .poc).mem_iff, List.mem_cons, h.mem, Dpb.InDpb, Dpb.InDpb]
        change _ ↔ _ ∧ (d'.nodes i).bIsReset = false
        rw [hreset, Dpb.nodes_fillNode]
        by_cases hi : i = a.uNode
        · simp [hi, hlu, Node.fill]
        · simp [hi]
      · change d'.uHeadDecOrder = _ ∨ d'.uHeadDecOrder ∈ _
        rw [hdec', hdec, (hperm .decOrder).mem_iff]
        split
        · exact .inr (by simp)
        · exact h.head_dec.imp id fun hm => by simp [hm]
      · have hc : d'.uCountPic = d.uCountPic :=
          (congrArg (fun d => d.uCountPic) hu').trans (d.uCountPic_fillNode a)
        have hle := h.length_le .poc
        change inc8 d'.uCountPic = _
        rw [(hperm .poc).length_eq, hc, h.count, List.length_cons, inc8]
        simp only [maxDpbSize, maxRef, maxStackSize, recBuf, concealBuf] at hle
        omega
      · have he : (d'.nodes i).nonExisting = ((d.fillNode a).nodes i).nonExisting :=
          congrArg (fun d => (d.nodes i).nonExisting) hu'
        change (d'.nodes i).bIsReset = true at hi
        rw [hreset, Dpb.nodes_fillNode] at hi
        refine he.trans ?_
        rw [Dpb.nodes_fillNode]
        by_cases hi' : i = a.uNode
        · simp [hi', Node.fill] at hi
        · rw [if_neg hi'] at hi ⊢
          exact h.clean i hi hlt
    refine ⟨d'.countInserted a, by simp [Dpb.insert, hsome], hl, ?_, ?_⟩
    · rw [Dpb.countInserted_unlinked, hu']
    · have hk : (d'.countInserted a).uHeadDecOrder = d'.uHeadDecOrder :=
        congrArg DpbSkeleton.uHeadDecOrder (d'.skeleton_countInserted a)
      rw [hk, hdec', hdec]

end LinkNode

end VcuCodec
