import Mathlib.Algebra.Order.Ring.Int
import VcuCodec.DpbEffects
import VcuCodec.DpbSteps

/-!
# The three lists

In every run in which the head of the decoding order is not moved in front of a
picture that does not follow it, the three lists start at their heads, hold the
same pictures, and the two that are sorted by order counts stay sorted.
-/

namespace VcuCodec

open LinkedLists

/-! ## Lists in order -/

/-- `order` spells out the three lists of `d` from their heads. -/
structure Dpb.ListsAre (d : Dpb) (order : Order → List ℕ) : Prop where
  head : ∀ o, o.head d = (order o).headD uEndOfList
  spells : ∀ o, d.Spells o (order o)
  perm : ∀ o, (order o).Perm (order .poc)
  mem : ∀ i, i ∈ order .poc ↔ d.InDpb i
  count : d.uCountPic = (order .poc).length
  poc : (order .poc).Pairwise fun i j => (d.nodes i).iFramePOC ≤ (d.nodes j).iFramePOC
  pocLsb : (order .pocLsb).Pairwise fun i j =>
    (d.nodes i).slicePicOrderCntLsb ≤ (d.nodes j).slicePicOrderCntLsb

/-- The three lists are acyclic with inverse links, hold the `uCountPic` nodes
of the buffer, and are sorted. -/
def Dpb.ListsOk (d : Dpb) : Prop := ∃ order, d.ListsAre order

/-- The keys of the two sorted lists. -/
def Node.keys (n : Node) : ℤ × ℕ := (n.iFramePOC, n.slicePicOrderCntLsb)

/-- The part of the buffer that `Sorted` reads. -/
def Dpb.sorting (d : Dpb) : ℕ × (ℕ → ℤ × ℕ) := (d.uHeadDecOrder, fun i => (d.nodes i).keys)

/-- The decoding order starts at its head and the other two are sorted. -/
structure LinkedDpb.Sorted (c : LinkedDpb) : Prop where
  head : c.dpb.uHeadDecOrder = (c.order .decOrder).headD uEndOfList
  poc : (c.order .poc).Pairwise fun i j =>
    (c.dpb.nodes i).keys.1 ≤ (c.dpb.nodes j).keys.1
  pocLsb : (c.order .pocLsb).Pairwise fun i j =>
    (c.dpb.nodes i).keys.2 ≤ (c.dpb.nodes j).keys.2

/-! ## Edits of the data -/

section Sorting

variable {d d' : Dpb} {u : ℕ}

theorem Dpb.sorting_modNode {f : Node → Node} (hf : ∀ n, (f n).keys = n.keys) :
    (d.modNode u f).sorting = d.sorting := by
  have hn : (fun j => ((d.modNode u f).nodes j).keys) = fun j => (d.nodes j).keys := by
    funext j
    rw [Dpb.nodes_modNode]
    split
    · next h => rw [hf, h]
    · rfl
  unfold Dpb.sorting
  rw [hn]
  rfl

theorem Dpb.sorting_of_core (h : d'.core = d.core) : d'.sorting = d.sorting :=
  (congrArg Dpb.sorting h : d'.core.sorting = d.core.sorting)

theorem Dpb.sorting_displayNode : (d.displayNode u).sorting = d.sorting := by
  have hs : (d.modNode u Node.displayed).sorting = d.sorting := Dpb.sorting_modNode fun _ => rfl
  unfold Dpb.displayNode
  split_ifs
  · exact hs
  · exact hs
  · rfl

theorem Dpb.sorting_serveWaitingPicture : d.serveWaitingPicture.sorting = d.sorting := by
  have hs : ∀ i v, (d.modNode i (Node.setPicID v)).sorting = d.sorting := fun i v =>
    Dpb.sorting_modNode fun _ => rfl
  simp only [Dpb.serveWaitingPicture, Dpb.fillWaitingPicture]
  split_ifs
  · exact hs _ _
  · exact hs _ _
  · rfl

theorem Dpb.sorting_clearAll (l : List ℕ) : (d.clearAll l).sorting = d.sorting := by
  suffices h : (l.foldl (fun d i => d.modNode i Node.clearOutput) d).sorting = d.sorting from h
  induction l generalizing d with
  | nil => rfl
  | cons i l ih => exact ih.trans (Dpb.sorting_modNode fun _ => rfl)

theorem Dpb.keys_of_sorting (h : d'.sorting = d.sorting) (i : ℕ) :
    (d'.nodes i).keys = (d.nodes i).keys :=
  congrFun (congrArg Prod.snd h) i

theorem Dpb.keys_of_unlinked (h : d'.unlinked = d.unlinked) (i : ℕ) :
    (d'.nodes i).keys = (d.nodes i).keys :=
  (congrArg (fun d => (d.nodes i).keys) h : (d'.unlinked.nodes i).keys = _)

theorem Dpb.nodes_countInserted (d : Dpb) (a : InsertArgs) :
    (d.countInserted a).nodes = d.nodes := by
  simp only [Dpb.countInserted]
  split_ifs <;> rfl

theorem Dpb.keys_remove (hu : u ≠ uEndOfList) {i : ℕ} (hi : i ≠ u) :
    ((d.remove u).nodes i).keys = (d.nodes i).keys := by
  have h := Dpb.plain_remove (d := d) (i := i) hu
  rw [if_neg hi] at h
  exact (congrArg Node.keys h : ((d.remove u).nodes i).plain.keys = _)

end Sorting

namespace LinkedDpb.Sorted

variable {c c' : LinkedDpb} {u t : ℕ} {xs ys : List ℕ} {a : InsertArgs}

theorem of_sorting (h : c.Sorted) (hs : c'.dpb.sorting = c.dpb.sorting)
    (ho : c'.order = c.order) : c'.Sorted := by
  have hk := Dpb.keys_of_sorting hs
  refine ⟨?_, ?_, ?_⟩
  · rw [ho, ← h.head]
    exact congrArg Prod.fst hs
  · simpa only [ho, hk] using h.poc
  · simpa only [ho, hk] using h.pocLsb

/-! ## Edits of the lists -/

theorem remove (h : c.Sorted) (hu : c.dpb.InDpb u) (hd : c'.dpb = c.dpb.remove u)
    (ho : c'.order = fun o => (c.order o).erase u) : c'.Sorted := by
  have hmem : ∀ o, u ∈ c.order o := fun o => c.mem_order.mpr hu
  have hne : u ≠ uEndOfList := Threaded.ne_nil (c.linked.spells .poc) (hmem .poc)
  have hkeys : ∀ o, ∀ i ∈ (c.order o).erase u,
      (c'.dpb.nodes i).keys = (c.dpb.nodes i).keys := by
    intro o i hi
    rw [hd]
    exact Dpb.keys_remove hne fun e => (c.linked.spells o).nodup.not_mem_erase (e ▸ hi)
  refine ⟨?_, ?_, ?_⟩
  · have hT := c.linked.spells .decOrder
    rw [hd, Dpb.uHeadDecOrder_remove hne, h.head, ho, Threaded.headD_erase hT (hmem .decOrder)]
    rfl
  · rw [ho]
    refine (h.poc.sublist List.erase_sublist).imp_of_mem fun hi hj hij => ?_
    rwa [hkeys .poc _ hi, hkeys .poc _ hj]
  · rw [ho]
    refine (h.pocLsb.sublist List.erase_sublist).imp_of_mem fun hi hj hij => ?_
    rwa [hkeys .pocLsb _ hi, hkeys .pocLsb _ hj]

/-- Moving a picture keeps the entry of the decoding order if the head moves
only in front of the picture that follows it. -/
theorem move (h : c.Sorted) (hu : u ∈ c.order .decOrder)
    (hs : (c.order .decOrder).erase u = xs ++ t :: ys)
    (hh : c.dpb.uHeadDecOrder = u → (c.dpb.nodes u).uNextDecOrder = t)
    (hd : c'.dpb = c.dpb.moveInFrontOf u t)
    (ho : c'.order = Function.update c.order .decOrder (xs ++ u :: t :: ys)) : c'.Sorted := by
  have hkeys : ∀ i, (c'.dpb.nodes i).keys = (c.dpb.nodes i).keys := by
    rw [hd]
    exact Dpb.keys_of_unlinked (c.dpb.moveInFrontOf_unlinked u t)
  refine ⟨?_, ?_, ?_⟩
  · have hT := c.linked.spells .decOrder
    have hne := Threaded.headD_erase hT hu
    rw [← h.head, hs] at hne
    have hnd : (xs ++ t :: ys).Nodup := hs ▸ hT.nodup.erase u
    have hdec : c'.dpb.uHeadDecOrder =
        if t = c.dpb.uHeadDecOrder then u else c.dpb.uHeadDecOrder := by
      have h0 := Order.head_moveInFrontOf .decOrder c.dpb u t
      simp only [true_and] at h0
      rw [hd]
      exact h0
    rw [hdec, ho, Function.update_self]
    cases xs with
    | nil =>
      -- the picture goes to the front of the list
      rw [List.nil_append, List.headD_cons]
      split
      · rfl
      · next ht =>
        by_cases hhu : c.dpb.uHeadDecOrder = u
        · exact hhu
        · rw [if_neg hhu] at hne
          exact absurd hne ht
    | cons x xs =>
      have hxt : x ≠ t := fun e => by simp [e] at hnd
      rw [List.cons_append, List.headD_cons] at hne ⊢
      by_cases hhu : c.dpb.uHeadDecOrder = u
      · rw [if_pos hhu] at hne
        exact absurd (hne.trans (hh hhu)) hxt
      · rw [if_neg hhu] at hne
        rw [← hne, if_neg hxt.symm]
  · rw [ho, Function.update_of_ne (by decide)]
    simpa only [hkeys] using h.poc
  · rw [ho, Function.update_of_ne (by decide)]
    simpa only [hkeys] using h.pocLsb

/-- Operation 5 changes the key of a picture that is alone in the buffer. -/
theorem restart (h : c.Sorted)
    (hall : c.dpb.uHeadDecOrder = (c.order .decOrder).headD uEndOfList →
      ∀ i ∈ c.order .decOrder, i = u)
    (hd : c'.dpb = c.dpb.modNode u Node.restart) (ho : c'.order = c.order) : c'.Sorted := by
  have hone : ∀ o, ∀ i ∈ c.order o, i = u := fun o i hi =>
    hall h.head i (c.mem_order.mpr (c.mem_order.mp hi))
  refine ⟨?_, ?_, ?_⟩
  · rw [ho, ← h.head, hd]
    rfl
  · rw [ho]
    refine List.pairwise_of_forall_mem_list fun i hi j hj => le_of_eq ?_
    rw [hone _ i hi, hone _ j hj]
  · rw [ho]
    refine List.pairwise_of_forall_mem_list fun i hi j hj => le_of_eq ?_
    rw [hone _ i hi, hone _ j hj]

theorem insert (h : c.Sorted) (hr : (c.dpb.nodes a.uNode).bIsReset = true)
    (hd : c'.dpb.unlinked = (c.dpb.fillNode a).unlinked.countInserted a)
    (hh : c'.dpb.uHeadDecOrder = if c.order .poc = [] then a.uNode else c.dpb.uHeadDecOrder)
    (ho : c'.order = (c.dpb.fillNode a).insertOrder a c.order) : c'.Sorted := by
  have hnot : ∀ o, a.uNode ∉ c.order o := fun o hm => by
    have hin := (c.mem_order.mp hm).2
    rw [hr] at hin
    exact absurd hin (by simp)
  have hkeys : ∀ i, (c'.dpb.nodes i).keys = ((c.dpb.fillNode a).nodes i).keys := by
    intro i
    have hn : (c'.dpb.unlinked.nodes i).keys = _ :=
      congrArg (fun d => (d.nodes i).keys) hd
    rw [Dpb.nodes_countInserted] at hn
    exact hn
  have hnew : ((c.dpb.fillNode a).nodes a.uNode).keys = (a.iFramePOC, a.uPocLsb) := by
    rw [Dpb.nodes_fillNode, if_pos rfl]
    rfl
  have hold : ∀ o, ∀ i ∈ c.order o,
      ((c.dpb.fillNode a).nodes i).keys = (c.dpb.nodes i).keys := fun o i hi => by
    have hi' : i ≠ a.uNode := fun e => hnot o (e ▸ hi)
    rw [Dpb.nodes_fillNode, if_neg hi']
  refine ⟨?_, ?_, ?_⟩
  · have hnil : c.order .poc = [] ↔ c.order .decOrder = [] := by
      rw [← List.length_eq_zero_iff, ← List.length_eq_zero_iff,
        (c.linked.perm .decOrder).length_eq]
    rw [hh, ho, h.head]
    simp only [Dpb.insertOrder, hnil]
    cases c.order .decOrder <;> rfl
  · simp only [hkeys]
    rw [ho]
    have hp := pairwise_insert (fun i => ((c.dpb.fillNode a).nodes i).keys.1) a.uNode
      (h.poc.imp_of_mem fun hi hj hij => by rwa [hold _ _ hi, hold _ _ hj])
    simp only [hnew] at hp
    exact hp
  · simp only [hkeys]
    rw [ho]
    have hp := pairwise_insert (fun i => ((c.dpb.fillNode a).nodes i).keys.2) a.uNode
      (h.pocLsb.imp_of_mem fun hi hj hij => by rwa [hold _ _ hi, hold _ _ hj])
    simp only [hnew] at hp
    exact hp

/-- Every edit that does not promote the head keeps the lists in order. -/
theorem edit {ok : Risk → Prop} (hok : ¬ ok .promoteHead) (h : c.Sorted) (he : Edit ok c c') :
    c'.Sorted := by
  cases he with
  | quiet hd ho => exact h.of_sorting (Dpb.sorting_of_core hd) ho
  | setNodeID _ hd ho => exact h.of_sorting (hd ▸ Dpb.sorting_modNode fun _ => rfl) ho
  | remove hu _ hd ho => exact h.remove hu hd ho
  | displayNode _ hd ho => exact h.of_sorting (hd ▸ Dpb.sorting_displayNode) ho
  | dropRef _ hd ho =>
    have hs : ∀ u, (c.dpb.modNode u (Node.setMarking .unusedForRef)).sorting = c.dpb.sorting :=
      fun _ => Dpb.sorting_modNode fun _ => rfl
    exact h.of_sorting (hd ▸ hs _) ho
  | giveBackPicID _ hd ho =>
    have hs : ∀ u, (c.dpb.modNode u (Node.setPicID undefID)).sorting = c.dpb.sorting :=
      fun _ => Dpb.sorting_modNode fun _ => rfl
    exact h.of_sorting (hd ▸ hs _) ho
  | remark _ hf _ hd ho =>
    refine h.of_sorting ?_ ho
    rw [hd]
    exact (Dpb.sorting_of_core (Dpb.core_modNode_congr hf)).trans
      (Dpb.sorting_modNode fun _ => rfl)
  | move hu hs hh hd ho => exact h.move hu hs (fun e => (hh e).resolve_right hok) hd ho
  | restart hall hd ho => exact h.restart hall hd ho
  | insert _ hr _ _ hd hh ho => exact h.insert hr hd hh ho
  | releaseOneBuf _ hd ho => exact h.of_sorting (hd ▸ rfl) ho
  | serve hd ho => exact h.of_sorting (hd ▸ Dpb.sorting_serveWaitingPicture) ho
  | clearAll hd ho => exact h.of_sorting (hd ▸ Dpb.sorting_clearAll _) ho
  | setMarkingFlag _ hd ho => exact h.of_sorting (hd ▸ Dpb.sorting_modNode fun _ => rfl) ho

theorem not_stuck (h : c.Sorted) : ¬ c.Stuck := by
  rintro ⟨hne, hend⟩
  have hdec : c.order .decOrder ≠ [] := fun e => hne (by
    have hp := c.linked.perm .decOrder
    rw [e] at hp
    exact hp.symm.eq_nil)
  rw [h.head] at hend
  exact Threaded.headD_ne_nil (c.linked.spells .decOrder) hdec hend

/-- A walk of the decoding order that only reads the buffer visits every picture. -/
theorem fold_decOrder (h : c.Sorted) {σ : Type*} (f : σ → ℕ → σ) (s : σ) :
    whileLinked uEndOfList (fun u s => some (f s u, (c.dpb.nodes u).uNextDecOrder)) walkFuel
      c.dpb.uHeadDecOrder s = some ((c.order .decOrder).foldl f s) := by
  have hlen : (c.order .decOrder).length < walkFuel := by
    have := c.linked.length_le .decOrder
    unfold walkFuel
    omega
  -- the pictures walked over have been folded
  let I : List ℕ → σ → Prop := fun rest s' => ∃ done, c.order .decOrder = done ++ rest ∧
    s' = done.foldl f s
  have hstep : ∀ u rest s', I (u :: rest) s' → u ≠ uEndOfList ∧ ∃ s'' rest',
      rest'.length ≤ rest.length ∧ some (f s' u, (c.dpb.nodes u).uNextDecOrder) =
        some (s'', rest'.headD uEndOfList) ∧ I rest' s'' := by
    rintro u rest _ ⟨done, ho, rfl⟩
    have hT := c.linked.spells .decOrder
    rw [ho] at hT
    have hnext : (c.dpb.nodes u).uNextDecOrder = rest.headD uEndOfList := Threaded.next_eq hT
    refine ⟨Threaded.ne_nil hT (by simp), _, rest, le_rfl, by rw [hnext], done ++ [u],
      by simp [ho], ?_⟩
    rw [List.foldl_append]
    rfl
  obtain ⟨s', hs, done, hdone, rfl⟩ := whileLinked_rule I hstep
    (⟨[], rfl, rfl⟩ : I (c.order .decOrder) s) hlen
  rw [List.append_nil] at hdone
  rw [h.head, hs, hdone]

end LinkedDpb.Sorted

/-! ## The head of the POC-LSB order -/

/-- The POC-LSB order of an empty buffer has no head. -/
def LinkedDpb.LsbHead (c : LinkedDpb) : Prop :=
  c.order .poc = [] → c.dpb.uHeadPocLsb = uEndOfList

namespace LinkedDpb.LsbHead

variable {c c' : LinkedDpb} {u : ℕ}

theorem of_skeleton (h : c.LsbHead) (hs : c'.dpb.skeleton = c.dpb.skeleton)
    (ho : c'.order = c.order) : c'.LsbHead := by
  intro hnil
  rw [ho] at hnil
  exact (congrArg DpbSkeleton.uHeadPocLsb hs).trans (h hnil)

theorem remove (hu : c.dpb.InDpb u) (hd : c'.dpb = c.dpb.remove u)
    (ho : c'.order = fun o => (c.order o).erase u) : c'.LsbHead := by
  intro hnil
  have hmem : ∀ o, u ∈ c.order o := fun o => c.mem_order.mpr hu
  have hT := c.linked.spells .pocLsb
  have hne : u ≠ uEndOfList := Threaded.ne_nil hT (hmem .pocLsb)
  have hlsb : (c.order .pocLsb).erase u = [] := by
    have hp := (c.linked.perm .pocLsb).erase u
    rw [ho] at hnil
    change (c.order .poc).erase u = [] at hnil
    rw [hnil] at hp
    exact hp.eq_nil
  have hhead := congrArg DpbSkeleton.uHeadPocLsb (Dpb.skeleton_remove (d := c.dpb) hne)
  have herase := Threaded.headD_erase hT (hmem .pocLsb)
  rw [hlsb, ← c.linked.head_lsb (List.ne_nil_of_mem (hmem .poc))] at herase
  rw [hd]
  exact (hhead.trans (Dpb.head_unlinkNode hne .pocLsb)).trans herase.symm

theorem edit {ok : Risk → Prop} (h : c.LsbHead) (he : Edit ok c c') : c'.LsbHead := by
  cases he with
  | quiet hd ho => exact h.of_skeleton (Dpb.skeleton_of_core hd) ho
  | setNodeID _ hd ho => exact h.of_skeleton (hd ▸ Dpb.skeleton_modNode fun _ => rfl) ho
  | remove hu _ hd ho => exact .remove hu hd ho
  | displayNode _ hd ho => exact h.of_skeleton (hd ▸ Dpb.skeleton_displayNode _ _) ho
  | dropRef _ hd ho =>
    have hs : ∀ u, (c.dpb.modNode u (Node.setMarking .unusedForRef)).skeleton = c.dpb.skeleton :=
      fun _ => Dpb.skeleton_modNode fun _ => rfl
    exact h.of_skeleton (hd ▸ hs _) ho
  | giveBackPicID _ hd ho =>
    have hs : ∀ u, (c.dpb.modNode u (Node.setPicID undefID)).skeleton = c.dpb.skeleton :=
      fun _ => Dpb.skeleton_modNode fun _ => rfl
    exact h.of_skeleton (hd ▸ hs _) ho
  | remark _ hf _ hd ho =>
    refine h.of_skeleton ?_ ho
    rw [hd]
    exact (Dpb.skeleton_of_core (Dpb.core_modNode_congr hf)).trans
      (Dpb.skeleton_modNode fun _ => rfl)
  | move _ _ _ hd ho =>
    intro hnil
    rw [ho, Function.update_of_ne (by decide)] at hnil
    rw [hd, ← h hnil]
    exact (Order.head_moveInFrontOf .pocLsb c.dpb _ _).trans (if_neg (by simp))
  | restart _ hd ho =>
    intro hnil
    rw [ho] at hnil
    rw [hd]
    exact h hnil
  | insert _ _ _ _ _ _ ho =>
    intro hnil
    rw [ho] at hnil
    simp [Dpb.insertOrder] at hnil
  | releaseOneBuf _ hd ho => exact h.of_skeleton (hd ▸ rfl) ho
  | serve hd ho => exact h.of_skeleton (hd ▸ Dpb.skeleton_serveWaitingPicture _) ho
  | clearAll hd ho => exact h.of_skeleton (hd ▸ Dpb.skeleton_clearAll _ _) ho
  | setMarkingFlag _ hd ho => exact h.of_skeleton (hd ▸ Dpb.skeleton_modNode fun _ => rfl) ho

end LinkedDpb.LsbHead

theorem LinkedDpb.Sorted.listsOk {c : LinkedDpb} (h : c.Sorted) (hl : c.LsbHead) :
    c.dpb.ListsOk := by
  refine ⟨c.order, fun o => ?_, c.linked.spells, c.linked.perm, c.linked.mem, c.linked.count,
    h.poc, h.pocLsb⟩
  cases o with
  | poc => exact c.linked.head_poc
  | pocLsb =>
    by_cases hnil : c.order .poc = []
    · have hp := c.linked.perm .pocLsb
      rw [hnil] at hp
      rw [hp.eq_nil]
      exact hl hnil
    · exact c.linked.head_lsb hnil
  | decOrder => exact h.head

/-! ## Runs -/

/-- In a run from `AL_Dpb_Init` that never promotes the head, nothing faults and
the lists are in order, once a picture has been inserted or if the context held
no head of the POC-LSB order. -/
theorem Dpb.listsOk_of_run (m : Dpb) (uNumRef : ℕ) (eMode : DpbMode) (ops : List Op)
    (ha : (m.init uNumRef eMode).RunAllowed [.promoteHead] ops)
    (hl : m.uHeadPocLsb = uEndOfList ∨ ∃ a, .insert a ∈ ops) :
    ∃ d, (m.init uNumRef eMode).run ops = some d ∧ d.ListsOk := by
  have hbase : (LinkedDpb.init m uNumRef eMode).Sorted := ⟨rfl, .nil, .nil⟩
  have hsorted : ∀ c c', c.Sorted → Edit (· ∉ [Risk.promoteHead]) c c' → c'.Sorted :=
    fun c c' h => h.edit (by simp)
  have hboth : ∀ c c', c.Sorted ∧ c.LsbHead → Edit (· ∉ [Risk.promoteHead]) c c' →
      c'.Sorted ∧ c'.LsbHead := fun c c' h he => ⟨hsorted c c' h.1 he, h.2.edit he⟩
  have hstuck : ∀ c : LinkedDpb, c.Sorted ∧ c.LsbHead → ¬ c.Stuck := fun c h => h.1.not_stuck
  rcases hl with hend | ⟨a, hmem⟩
  · have hlsb : (LinkedDpb.init m uNumRef eMode).LsbHead := fun _ =>
      (m.uHeadPocLsb_init uNumRef eMode).trans hend
    obtain ⟨d, hr, c, rfl, hc⟩ := Dpb.run_goes_through hboth hstuck ⟨hbase, hlsb⟩ ha
    exact ⟨c.dpb, hr, hc.1.listsOk hc.2⟩
  · -- the first part of the run, the insertion, and what follows it
    obtain ⟨pre, post, rfl⟩ := List.append_of_mem hmem
    obtain ⟨_, hr1, c1, rfl, hc1⟩ :=
      Dpb.run_goes_through hsorted (fun c h => h.not_stuck) hbase ha.of_append
    have ha1 := ha.append_right hr1
    obtain ⟨c2, hd2, he2, hne⟩ := (Dpb.insert_reaches ha1.1.1.1 ha1.1.1.2 ha1.1.2).resolve_left
      fun h => hc1.not_stuck h.2
    have hc2 : c2.Sorted ∧ c2.LsbHead :=
      ⟨he2.keep hsorted hc1, fun hnil => absurd hnil hne⟩
    obtain ⟨_, hr3, c3, rfl, hc3⟩ := Dpb.run_goes_through hboth hstuck hc2 (ha1.2 c2.dpb hd2)
    refine ⟨c3.dpb, ?_, hc3.1.listsOk hc3.2⟩
    rw [Dpb.run, GuardedRuns.run_append]
    refine (congrArg (Option.bind · _) hr1).trans ?_
    rw [Option.bind_some, GuardedRuns.run]
    exact (congrArg (Option.bind · _) hd2).trans hr3

/-- Three reference pictures; an operation 6 or 3 of the third one makes `refs`
long-term pictures. -/
def Op.threeRefs (ops : List ℕ) (diff lt : List ℤ) : List Op :=
  [.insert (.sample 0 0 .shortTermRef), .markingProcess (.sample 4 avcNutVclIdr 0),
    .insert (.sample 1 2 .shortTermRef), .markingProcess (.sample 4 1 1),
    .insert (.sample 2 4 .shortTermRef),
    .markingProcess ((AvcSliceHdr.sample 4 1 2).withMmco ops diff lt)]

theorem Dpb.listsOk_threeRefs : ∃ d, (Dpb.zeroed.init 4 .normal).run
    (Op.threeRefs [6, 3, 0] [0] [1, 0] ++ [.flush]) = some d ∧ d.ListsOk :=
  Dpb.listsOk_of_run .zeroed 4 .normal _ (by decide +kernel)
    (.inr ⟨.sample 0 0 .shortTermRef, by simp [Op.threeRefs]⟩)

theorem Dpb.ListsOk.prev_head {d : Dpb} (h : d.ListsOk) (o : Order) (hne : o.head d ≠ uEndOfList) :
    o.prev (d.nodes (o.head d)) = uEndOfList := by
  obtain ⟨order, h⟩ := h
  have hT := h.spells o
  have hhead := h.head o
  cases hl : order o with
  | nil =>
    rw [hl] at hhead
    exact absurd hhead hne
  | cons x xs =>
    rw [hl] at hT hhead
    have hT : d.Spells o ([] ++ x :: xs) := hT
    rw [hhead]
    exact Threaded.prev_eq hT

/-- The oldest of three pictures becomes long-term and moves in front of the
newest: the head of the decoding order now follows the second picture. -/
theorem Dpb.not_listsOk_promoteHead : (Dpb.zeroed.init 4 .normal).RunAllowed []
      (Op.threeRefs [6, 3, 0] [1] [1, 0]) ∧
    ∃ d, (Dpb.zeroed.init 4 .normal).run (Op.threeRefs [6, 3, 0] [1] [1, 0]) = some d ∧
      ¬ d.ListsOk := by
  refine ⟨by decide +kernel, ?_⟩
  have hrun : ((Dpb.zeroed.init 4 .normal).run (Op.threeRefs [6, 3, 0] [1] [1, 0])).map
      (fun d => (d.uHeadDecOrder, (d.nodes d.uHeadDecOrder).uPrevDecOrder)) = some (0, 1) := by
    decide +kernel
  obtain ⟨d, hr, hd⟩ := Option.map_eq_some_iff.mp hrun
  simp only [Prod.mk.injEq] at hd
  refine ⟨d, hr, fun h => ?_⟩
  have hprev := h.prev_head .decOrder (by change d.uHeadDecOrder ≠ _; rw [hd.1]; decide)
  exact absurd (hd.2.symm.trans hprev) (by decide)

end VcuCodec
