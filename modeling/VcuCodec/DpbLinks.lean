import VcuCodec.DpbMarking

/-!
# The links of the decoded picture buffer

`Linked d order` says that the links of `d` spell out three orders of the same
set of pictures.  Removing a picture, linking one in and moving one inside the
decoding order keep it, and the theorems below give the new orders.
-/

namespace VcuCodec

open LinkedLists

/-! ## Reading back what a write left -/

@[simp] theorem Order.next_setNext (o o' : Order) (v : ℕ) (n : Node) :
    o'.next (o.setNext v n) = if o' = o then v else o'.next n := by
  cases o <;> cases o' <;> rfl

@[simp] theorem Order.next_setPrev (o o' : Order) (v : ℕ) (n : Node) :
    o'.next (o.setPrev v n) = o'.next n := by
  cases o <;> cases o' <;> rfl

@[simp] theorem Order.prev_setPrev (o o' : Order) (v : ℕ) (n : Node) :
    o'.prev (o.setPrev v n) = if o' = o then v else o'.prev n := by
  cases o <;> cases o' <;> rfl

@[simp] theorem Order.prev_setNext (o o' : Order) (v : ℕ) (n : Node) :
    o'.prev (o.setNext v n) = o'.prev n := by
  cases o <;> cases o' <;> rfl

@[simp] theorem Order.head_setHead (o o' : Order) (v : ℕ) (d : Dpb) :
    o'.head (o.setHead v d) = if o' = o then v else o'.head d := by
  cases o <;> cases o' <;> rfl

@[simp] theorem Order.nodes_setHead (o : Order) (v : ℕ) (d : Dpb) :
    (o.setHead v d).nodes = d.nodes := by
  cases o <;> rfl

@[simp] theorem Dpb.nodes_modNode (d : Dpb) (i j : ℕ) (f : Node → Node) :
    (d.modNode i f).nodes j = if j = i then f (d.nodes i) else d.nodes j := rfl

@[simp] theorem Order.head_modNode (o : Order) (d : Dpb) (i : ℕ) (f : Node → Node) :
    o.head (d.modNode i f) = o.head d := by
  cases o <;> rfl

/-! ## The buffer without its links -/

/-- What the list operations leave alone. -/
def Dpb.unlinked (d : Dpb) : Dpb :=
  { d with
    nodes := fun i => (d.nodes i).unlinked
    uHeadPOC := uEndOfList
    uHeadPocLsb := uEndOfList
    uLastPOC := uEndOfList
    uHeadDecOrder := uEndOfList }

@[simp] theorem Order.unlinked_setNext (o : Order) (v : ℕ) (n : Node) :
    (o.setNext v n).unlinked = n.unlinked := by
  cases o <;> rfl

@[simp] theorem Order.unlinked_setPrev (o : Order) (v : ℕ) (n : Node) :
    (o.setPrev v n).unlinked = n.unlinked := by
  cases o <;> rfl

@[simp] theorem Order.unlinked_setHead (o : Order) (v : ℕ) (d : Dpb) :
    (o.setHead v d).unlinked = d.unlinked := by
  cases o <;> rfl

variable {d : Dpb} {f : Node → Node}

theorem Dpb.unlinked_modNode {i : ℕ}
    (hf : ∀ n, (f n).unlinked = n.unlinked) : (d.modNode i f).unlinked = d.unlinked := by
  have hn : (fun j => ((d.modNode i f).nodes j).unlinked) = fun j => (d.nodes j).unlinked := by
    funext j
    rw [Dpb.nodes_modNode]
    split
    · next h => rw [hf, h]
    · rfl
  unfold Dpb.unlinked
  rw [hn]
  rfl

theorem Dpb.joinNeighbours_unlinked (o : Order) (d : Dpb) (p q : ℕ) :
    (d.joinNeighbours o p q).unlinked = d.unlinked := by
  simp only [Dpb.joinNeighbours]
  split_ifs <;> simp [Dpb.unlinked_modNode]

theorem Dpb.removeFromList_unlinked (o : Order) (d : Dpb) (u : ℕ) :
    (d.removeFromList o u).unlinked = d.unlinked := by
  rw [Dpb.removeFromList, Dpb.joinNeighbours_unlinked]
  split
  · exact o.unlinked_setHead _ d
  · rfl

theorem Dpb.unlinkNode_unlinked (d : Dpb) (u : ℕ) : (d.unlinkNode u).unlinked = d.unlinked := by
  rw [Dpb.unlinkNode, Dpb.removeFromDecOrderList, Dpb.removeFromPocLsbList,
    Dpb.removeFromList_unlinked, Dpb.removeFromList_unlinked]
  have h := Dpb.removeFromList_unlinked .poc d u
  simp only [Dpb.removeFromPocList]
  split_ifs
  · exact h
  · exact h

theorem Dpb.linkIn_unlinked (o : Order) (d : Dpb) (u : ℕ) (p : Place) :
    (d.linkIn o u p).unlinked = d.unlinked := by
  cases p with
  | before t =>
    simp only [Dpb.linkIn]
    split_ifs <;> simp [Dpb.unlinked_modNode]
  | after t => simp [Dpb.linkIn, Dpb.unlinked_modNode]

/-! ## One list -/

/-- The links of one order spell out `l`. -/
def Dpb.Spells (d : Dpb) (o : Order) (l : List ℕ) : Prop :=
  Threaded uEndOfList (fun i => o.next (d.nodes i)) (fun i => o.prev (d.nodes i)) l

namespace Dpb.Spells

variable {d d' : Dpb} {o o' : Order} {l xs ys : List ℕ} {u t : ℕ}

theorem congr (h : d.Spells o l) (hn : ∀ i ∈ l, o.next (d'.nodes i) = o.next (d.nodes i))
    (hp : ∀ i ∈ l, o.prev (d'.nodes i) = o.prev (d.nodes i)) : d'.Spells o l :=
  Threaded.congr h hn hp

theorem modNode {f : Node → Node} {i : ℕ} (h : d.Spells o l)
    (hn : ∀ n, o.next (f n) = o.next n) (hp : ∀ n, o.prev (f n) = o.prev n) :
    (d.modNode i f).Spells o l := by
  refine h.congr (fun j _ => ?_) (fun j _ => ?_)
  · rw [Dpb.nodes_modNode]
    split
    · next e => rw [hn, e]
    · rfl
  · rw [Dpb.nodes_modNode]
    split
    · next e => rw [hp, e]
    · rfl

end Dpb.Spells

theorem Dpb.nodes_guardedWrite {v i : ℕ} (hi : i ≠ uEndOfList) :
    (if v ≠ uEndOfList then d.modNode v f else d).nodes i =
      if i = v then f (d.nodes i) else d.nodes i := by
  by_cases hv : v ≠ uEndOfList
  · rw [if_pos hv, Dpb.nodes_modNode]
    split
    · next h => rw [h]
    · rfl
  · rw [if_neg hv, if_neg]
    exact fun h => hv (h ▸ hi)

theorem Order.head_guardedWrite {o : Order} {v : ℕ} :
    o.head (if v ≠ uEndOfList then d.modNode v f else d) = o.head d := by
  split
  · exact o.head_modNode d v f
  · rfl

theorem Dpb.nodes_moveHead (p : Prop) [Decidable p] (o : Order) (v : ℕ) (d : Dpb) :
    (if p then o.setHead v d else d).nodes = d.nodes := by
  split
  · exact o.nodes_setHead v d
  · rfl

variable {o o' : Order}

theorem Order.next_joinNeighbours {p q i : ℕ} (hi : i ≠ uEndOfList) :
    o'.next ((d.joinNeighbours o p q).nodes i) =
      if o' = o ∧ i = p then q else o'.next (d.nodes i) := by
  simp only [Dpb.joinNeighbours, Dpb.nodes_guardedWrite hi]
  split_ifs <;> simp_all

theorem Order.prev_joinNeighbours {p q i : ℕ} (hi : i ≠ uEndOfList) :
    o'.prev ((d.joinNeighbours o p q).nodes i) =
      if o' = o ∧ i = q then p else o'.prev (d.nodes i) := by
  simp only [Dpb.joinNeighbours, Dpb.nodes_guardedWrite hi]
  split_ifs <;> simp_all

theorem Order.head_joinNeighbours {p q : ℕ} : o'.head (d.joinNeighbours o p q) = o'.head d := by
  simp only [Dpb.joinNeighbours, Order.head_guardedWrite]

theorem Order.head_removeFromList (o o' : Order) (d : Dpb) (u : ℕ) :
    o'.head (d.removeFromList o u) =
      if o' = o ∧ o.head d = u then o.next (d.nodes u) else o'.head d := by
  rw [Dpb.removeFromList, Order.head_joinNeighbours]
  split_ifs <;> simp_all

namespace Dpb.Spells

variable {d d' : Dpb} {o o' : Order} {l xs ys : List ℕ} {u p q : ℕ}

theorem joinNeighbours (h : d.Spells o l) (hu : u ∈ l) :
    (d.joinNeighbours o (o.prev (d.nodes u)) (o.next (d.nodes u))).Spells o (l.erase u) := by
  obtain ⟨xs, ys, rfl⟩ := List.append_of_mem hu
  have hne : ∀ i ∈ xs ++ ys, i ≠ uEndOfList := by
    intro i hi
    refine Threaded.ne_nil h ?_
    simp only [List.mem_append, List.mem_cons] at hi ⊢
    tauto
  rw [Threaded.erase_middle h]
  refine Threaded.unlink h (fun i hi => ?_) (fun i hi => ?_)
  · rw [Order.next_joinNeighbours (hne i hi)]
    simp
  · rw [Order.prev_joinNeighbours (hne i hi)]
    simp

theorem joinNeighbours_of_ne (h : d.Spells o l) (hne : o ≠ o') :
    (d.joinNeighbours o' p q).Spells o l := by
  refine h.congr (fun i hi => ?_) (fun i hi => ?_)
  · rw [Order.next_joinNeighbours (Threaded.ne_nil h hi)]
    simp [hne]
  · rw [Order.prev_joinNeighbours (Threaded.ne_nil h hi)]
    simp [hne]

theorem setNext (h : d.Spells o l) (ho : o ≠ o') (i v : ℕ) :
    (d.modNode i (o'.setNext v)).Spells o l :=
  h.modNode (by simp [ho]) (by simp)

theorem setPrev (h : d.Spells o l) (ho : o ≠ o') (i v : ℕ) :
    (d.modNode i (o'.setPrev v)).Spells o l :=
  h.modNode (by simp) (by simp [ho])

theorem ite (c : Prop) [Decidable c] (h : d.Spells o l) (h' : d'.Spells o l) :
    (if c then d' else d).Spells o l := by
  split
  · exact h'
  · exact h

theorem of_nodes_eq (h : d.Spells o l) (he : d'.nodes = d.nodes) : d'.Spells o l :=
  h.congr (fun i _ => by rw [he]) (fun i _ => by rw [he])

theorem setHead (h : d.Spells o l) (v : ℕ) : (o'.setHead v d).Spells o l :=
  h.of_nodes_eq (o'.nodes_setHead v d)

theorem removeFromList (h : d.Spells o l) (hu : u ∈ l) :
    (d.removeFromList o u).Spells o (l.erase u) := by
  have hn := Dpb.nodes_moveHead (o.head d = u) o (o.next (d.nodes u)) d
  have key := (h.of_nodes_eq hn).joinNeighbours hu
  rwa [hn] at key

theorem removeFromList_of_ne (h : d.Spells o l) (hne : o ≠ o') :
    (d.removeFromList o' u).Spells o l :=
  (h.of_nodes_eq (Dpb.nodes_moveHead _ _ _ _)).joinNeighbours_of_ne hne

end Dpb.Spells

/-! ## Linking a node in -/

/-- The place between `xs` and `ys`. -/
def Place.between (xs : List ℕ) : List ℕ → Place
  | [] => .after (xs.getLastD uEndOfList)
  | t :: _ => .before t

section LinkIn

variable {d : Dpb} {o o' : Order} {u t i : ℕ}

theorem Order.next_linkIn_before (hut : u ≠ t) (hup : u ≠ o.prev (d.nodes t))
    (htp : t ≠ o.prev (d.nodes t)) (hi : i ≠ uEndOfList) :
    o'.next ((d.linkIn o u (.before t)).nodes i) =
      if o' = o ∧ i = u then t
      else if o' = o ∧ i = o.prev (d.nodes t) then u else o'.next (d.nodes i) := by
  simp only [Dpb.linkIn, Dpb.nodes_moveHead, Dpb.nodes_guardedWrite hi, Dpb.nodes_modNode]
  split_ifs <;> simp_all

theorem Order.prev_linkIn_before (hut : u ≠ t) (hup : u ≠ o.prev (d.nodes t))
    (htp : t ≠ o.prev (d.nodes t)) (hi : i ≠ uEndOfList) :
    o'.prev ((d.linkIn o u (.before t)).nodes i) =
      if o' = o ∧ i = u then o.prev (d.nodes t)
      else if o' = o ∧ i = t then u else o'.prev (d.nodes i) := by
  simp only [Dpb.linkIn, Dpb.nodes_moveHead, Dpb.nodes_guardedWrite hi, Dpb.nodes_modNode]
  split_ifs <;> simp_all

theorem Order.next_linkIn_after (hut : u ≠ t) :
    o'.next ((d.linkIn o u (.after t)).nodes i) =
      if o' = o ∧ i = u then uEndOfList
      else if o' = o ∧ i = t then u else o'.next (d.nodes i) := by
  simp only [Dpb.linkIn, Dpb.nodes_modNode]
  split_ifs <;> simp_all

theorem Order.prev_linkIn_after (hut : u ≠ t) :
    o'.prev ((d.linkIn o u (.after t)).nodes i) =
      if o' = o ∧ i = u then t else o'.prev (d.nodes i) := by
  simp only [Dpb.linkIn, Dpb.nodes_modNode]
  split_ifs <;> simp_all

theorem Order.head_linkIn_before :
    o'.head (d.linkIn o u (.before t)) =
      if o' = o ∧ t = o.head d then u else o'.head d := by
  simp only [Dpb.linkIn, Order.head_guardedWrite, Order.head_modNode]
  by_cases ht : t = o.head d
  · rw [if_pos ht, Order.head_setHead, Order.head_guardedWrite]
    simp [ht]
  · rw [if_neg ht, Order.head_guardedWrite]
    simp [ht]

theorem Order.head_linkIn_after : o'.head (d.linkIn o u (.after t)) = o'.head d := by
  simp [Dpb.linkIn]

theorem Order.head_linkIn_of_ne (ho : o' ≠ o) {p : Place} :
    o'.head (d.linkIn o u p) = o'.head d := by
  cases p with
  | before t => rw [Order.head_linkIn_before, if_neg (fun h => ho h.1)]
  | after t => exact Order.head_linkIn_after

end LinkIn

namespace Dpb.Spells

variable {d d' : Dpb} {o o' : Order} {l xs ys : List ℕ} {u t : ℕ}

theorem linkIn (h : d.Spells o (xs ++ ys)) (hu : u ∉ xs ++ ys) (hne : u ≠ uEndOfList) :
    (d.linkIn o u (.between xs ys)).Spells o (xs ++ u :: ys) := by
  have hmem : ∀ i ∈ xs ++ ys, i ≠ uEndOfList ∧ i ≠ u := fun i hi =>
    ⟨Threaded.ne_nil h hi, fun e => hu (e ▸ hi)⟩
  have hlast : u ≠ xs.getLastD uEndOfList :=
    Threaded.ne_getLastD_of_notMem (fun hm => hu (List.mem_append_left _ hm)) hne
  cases ys with
  | nil =>
    refine Threaded.link h hu hne (fun i hi => ?_) (fun i hi => ?_) ?_ ?_
    · rw [Place.between, Order.next_linkIn_after hlast]
      simp [(hmem i hi).2]
    · rw [Place.between, Order.prev_linkIn_after hlast]
      simp [(hmem i hi).2, (hmem i hi).1]
    · rw [Place.between, Order.next_linkIn_after hlast]
      simp
    · rw [Place.between, Order.prev_linkIn_after hlast]
      simp
  | cons t ys =>
    have ht : u ≠ t := Ne.symm (hmem t (by simp)).2
    have hp : o.prev (d.nodes t) = xs.getLastD uEndOfList := Threaded.prev_eq h
    have hup : u ≠ o.prev (d.nodes t) := hp ▸ hlast
    have htp : t ≠ o.prev (d.nodes t) := hp ▸ Threaded.ne_getLastD h (by simp)
    refine Threaded.link h hu hne (fun i hi => ?_) (fun i hi => ?_) ?_ ?_
    · rw [Place.between, Order.next_linkIn_before ht hup htp (hmem i hi).1, hp]
      simp [(hmem i hi).2]
    · rw [Place.between, Order.prev_linkIn_before ht hup htp (hmem i hi).1]
      simp [(hmem i hi).2]
    · rw [Place.between, Order.next_linkIn_before ht hup htp hne]
      simp
    · rw [Place.between, Order.prev_linkIn_before ht hup htp hne, hp]
      simp

theorem linkIn_of_ne (h : d.Spells o l) (ho : o ≠ o') (p : Place) :
    (d.linkIn o' u p).Spells o l := by
  cases p with
  | before t =>
    have hu : (d.modNode u fun n => o'.setNext t (o'.setPrev (o'.prev (d.nodes t)) n)).Spells o l :=
      h.modNode (by simp [ho]) (by simp [ho])
    have ht := (hu.setPrev ho t u).ite (o'.prev (d.nodes t) ≠ uEndOfList)
      ((hu.setPrev ho t u).setNext ho (o'.prev (d.nodes t)) u)
    exact ht.ite _ (ht.setHead u)
  | after t =>
    have hu : (d.modNode u fun n => o'.setPrev t (o'.setNext uEndOfList n)).Spells o l :=
      h.modNode (by simp [ho]) (by simp [ho])
    exact hu.setNext ho t u

end Dpb.Spells

/-! ## Walks -/

variable {nextOf prevOf : ℕ → ℕ}

theorem findPlace_eq {above : ℕ → Bool} {xs l : List ℕ} {n : ℕ}
    (h : Threaded uEndOfList nextOf prevOf (xs ++ l)) (hlt : ∀ i ∈ l, i < maxDpbSize)
    (hl : l ≠ []) (hn : l.length ≤ n) : findPlace nextOf above n (l.headD uEndOfList) =
      some (.between (xs ++ l.takeWhile (!above ·)) (l.dropWhile (!above ·))) := by
  induction l generalizing xs n with
  | nil => exact absurd rfl hl
  | cons x l ih =>
    obtain ⟨n, rfl⟩ : ∃ m, n = m + 1 := ⟨n - 1, by simp at hn; omega⟩
    have hx : ¬ maxDpbSize ≤ x := by have := hlt x (by simp); omega
    have hnext : nextOf x = l.headD uEndOfList := h.next_eq
    rw [List.headD_cons, findPlace, if_neg hx]
    by_cases ha : above x = true
    · simp [ha, Place.between]
    · rw [if_neg ha, hnext]
      cases l with
      | nil => simp [ha, Place.between]
      | cons y l =>
        have hy : y ≠ uEndOfList := h.ne_nil (by simp)
        rw [List.append_cons] at h
        rw [if_neg (by simpa using hy),
          ih h (fun i hi => hlt i (List.mem_cons_of_mem _ hi)) (by simp) (by simpa using hn)]
        simp [ha]

theorem findLast_eq {xs l : List ℕ} {n : ℕ}
    (h : Threaded uEndOfList nextOf prevOf (xs ++ l)) (hlt : ∀ i ∈ l, i < maxDpbSize)
    (hl : l ≠ []) (hn : l.length ≤ n) :
    findLast nextOf n (l.headD uEndOfList) = some (l.getLastD uEndOfList) := by
  induction l generalizing xs n with
  | nil => exact absurd rfl hl
  | cons x l ih =>
    obtain ⟨n, rfl⟩ : ∃ m, n = m + 1 := ⟨n - 1, by simp at hn; omega⟩
    have hx : ¬ maxDpbSize ≤ x := by have := hlt x (by simp); omega
    have hnext : nextOf x = l.headD uEndOfList := h.next_eq
    rw [List.headD_cons, findLast, if_neg hx, hnext]
    cases l with
    | nil => simp
    | cons y l =>
      have hy : y ≠ uEndOfList := h.ne_nil (by simp)
      rw [List.append_cons] at h
      rw [if_neg (by simpa using hy),
        ih h (fun i hi => hlt i (List.mem_cons_of_mem _ hi)) (by simp) (by simpa using hn)]
      simp

theorem Dpb.Spells.findPlace_eq {o : Order} {l : List ℕ} (h : d.Spells o l)
    (hlt : ∀ i ∈ l, i < maxDpbSize) (hl : l ≠ []) (hlen : l.length ≤ walkFuel) (above : ℕ → Bool) :
    findPlace (fun i => o.next (d.nodes i)) above walkFuel (l.headD uEndOfList) =
      some (.between (l.takeWhile (!above ·)) (l.dropWhile (!above ·))) := by
  have h' : Threaded uEndOfList (fun i => o.next (d.nodes i)) (fun i => o.prev (d.nodes i))
      ([] ++ l) := h
  exact VcuCodec.findPlace_eq h' hlt hl hlen

/-! ## Moving a node in the decoding order -/

section LinkInFrontOf

variable {d : Dpb} {o : Order} {u t i : ℕ}

theorem Order.next_linkInFrontOf (hu : u ≠ uEndOfList) (ht : t ≠ uEndOfList) (hut : u ≠ t)
    (hup : u ≠ (d.nodes t).uPrevDecOrder) (htp : t ≠ (d.nodes t).uPrevDecOrder)
    (hi : i ≠ uEndOfList) :
    o.next ((d.linkInFrontOf u t).nodes i) =
      if o = .decOrder ∧ i = u then t
      else if o = .decOrder ∧ i = (d.nodes t).uPrevDecOrder then u else o.next (d.nodes i) := by
  simp only [Dpb.linkInFrontOf, Dpb.nodes_moveHead, Dpb.nodes_modNode,
    Dpb.nodes_guardedWrite hi, Dpb.nodes_guardedWrite hu, Dpb.nodes_guardedWrite ht]
  split_ifs <;> simp_all

theorem Order.prev_linkInFrontOf (hu : u ≠ uEndOfList) (ht : t ≠ uEndOfList) (hut : u ≠ t)
    (hup : u ≠ (d.nodes t).uPrevDecOrder) (htp : t ≠ (d.nodes t).uPrevDecOrder)
    (hi : i ≠ uEndOfList) :
    o.prev ((d.linkInFrontOf u t).nodes i) =
      if o = .decOrder ∧ i = u then (d.nodes t).uPrevDecOrder
      else if o = .decOrder ∧ i = t then u else o.prev (d.nodes i) := by
  simp only [Dpb.linkInFrontOf, Dpb.nodes_moveHead, Dpb.nodes_modNode,
    Dpb.nodes_guardedWrite hi, Dpb.nodes_guardedWrite hu, Dpb.nodes_guardedWrite ht]
  split_ifs <;> simp_all

theorem Order.head_linkInFrontOf :
    o.head (d.linkInFrontOf u t) =
      if o = .decOrder ∧ t = Order.decOrder.head d then u else o.head d := by
  simp only [Dpb.linkInFrontOf, Order.head_modNode, Order.head_guardedWrite]
  by_cases ht : t = Order.decOrder.head d
  · rw [if_pos ht, Order.head_setHead]
    simp only [Order.head_modNode, Order.head_guardedWrite, ht, and_true]
  · rw [if_neg ht]
    simp only [Order.head_modNode, Order.head_guardedWrite, ht, and_false, if_false]

end LinkInFrontOf

namespace Dpb.Spells

variable {d : Dpb} {o : Order} {l xs ys : List ℕ} {u t : ℕ}

theorem linkInFrontOf (h : d.Spells .decOrder (xs ++ t :: ys)) (hu : u ∉ xs ++ t :: ys)
    (hne : u ≠ uEndOfList) : (d.linkInFrontOf u t).Spells .decOrder (xs ++ u :: t :: ys) := by
  have hmem : ∀ i ∈ xs ++ t :: ys, i ≠ uEndOfList ∧ i ≠ u := fun i hi =>
    ⟨Threaded.ne_nil h hi, fun e => hu (e ▸ hi)⟩
  have ht := hmem t (by simp)
  have hp : (d.nodes t).uPrevDecOrder = xs.getLastD uEndOfList := Threaded.prev_eq h
  have hup : u ≠ (d.nodes t).uPrevDecOrder :=
    hp ▸ Threaded.ne_getLastD_of_notMem (fun hm => hu (List.mem_append_left _ hm)) hne
  have htp : t ≠ (d.nodes t).uPrevDecOrder := hp ▸ Threaded.ne_getLastD h (by simp)
  refine Threaded.link h hu hne (fun i hi => ?_) (fun i hi => ?_) ?_ ?_
  · rw [Order.next_linkInFrontOf hne ht.1 ht.2.symm hup htp (hmem i hi).1, hp]
    simp [(hmem i hi).2]
  · rw [Order.prev_linkInFrontOf hne ht.1 ht.2.symm hup htp (hmem i hi).1]
    simp [(hmem i hi).2]
  · rw [Order.next_linkInFrontOf hne ht.1 ht.2.symm hup htp hne]
    simp
  · rw [Order.prev_linkInFrontOf hne ht.1 ht.2.symm hup htp hne, hp]
    simp

end Dpb.Spells

theorem Dpb.linkInFrontOf_unlinked (d : Dpb) (u t : ℕ) :
    (d.linkInFrontOf u t).unlinked = d.unlinked := by
  simp only [Dpb.linkInFrontOf]
  split_ifs <;> simp [Dpb.unlinked_modNode]

theorem Dpb.moveInFrontOf_unlinked (d : Dpb) (u t : ℕ) :
    (d.moveInFrontOf u t).unlinked = d.unlinked := by
  rw [Dpb.moveInFrontOf, Dpb.linkInFrontOf_unlinked, Dpb.joinNeighbours_unlinked]

theorem Dpb.Spells.linkInFrontOf_of_ne {o : Order} {l : List ℕ} (h : d.Spells o l)
    (ho : o ≠ .decOrder) (u t : ℕ) : (d.linkInFrontOf u t).Spells o l := by
  have hp := h.ite ((d.nodes t).uPrevDecOrder ≠ uEndOfList)
    (h.setNext ho (d.nodes t).uPrevDecOrder u)
  have hu := ((hp.setPrev ho u (d.nodes t).uPrevDecOrder).setPrev ho t u).setNext ho u t
  exact hu.ite _ (hu.setHead u)

end VcuCodec
