import VcuCodec.AvcSliceParsing
import VcuCodec.CheckedWalks
import VcuCodec.DpbPicIds
import VcuCodec.RefLists

/-!
# The initial reference picture lists of AVC

`AL_Dpb_InitPSlice_RefList` and `AL_Dpb_InitBSlice_RefList` of `lib_parsing/DPB.c`,
and what clauses 8.2.4.2.1 and 8.2.4.2.3 of H.264 say of their lists.  The
pictures are not sorted: they are read off the POC list and the decoding order.
-/

namespace VcuCodec

open CheckedRuns Checked LinkedLists

variable {σ : Type}

/-! ## The source -/

/-- A node goes to the array it belongs to.  The array of `first` is filled from its
last entry on downwards, the one of `second` from its first entry on upwards. -/
def Dpb.sortNode (d : Dpb) (first second : Node → Bool) (uNode : ℕ) (t : List ℕ × List ℕ) :
    Checked σ (List ℕ × List ℕ) :=
  if first (d.nodes uNode) then do
    check (t.1.length < maxRef)
    return ((d.nodes uNode).uNodeID :: t.1, t.2)
  else if second (d.nodes uNode) then do
    check (t.2.length < maxRef)
    return (t.1, t.2 ++ [(d.nodes uNode).uNodeID])
  else pure t

/-- One of the loops over a list of the buffer. -/
def Dpb.sortList (d : Dpb) (o : Order) (first second : Node → Bool) : Checked σ (List ℕ × List ℕ) :=
  walk uEndOfList (fun u => o.next (d.nodes u)) (d.sortNode first second) walkFuel (o.head d) ([], [])

def Node.isShort (n : Node) : Bool := n.eMarkingFlag = .shortTermRef

def Node.isLong (n : Node) : Bool := n.eMarkingFlag = .longTermRef

def Dpb.initPSliceRefList (d : Dpb) (refs : BufferRefs) : Checked σ BufferRefs := do
  let t ← d.sortList .decOrder Node.isShort fun n => n.eMarkingFlag ≠ .unusedForRef
  let refs ← BufferRefs.copyNodes t.1 0 refs
  BufferRefs.copyNodes t.2 t.1.length refs

/-- The end of `AL_Dpb_InitBSlice_RefList`: where list 1 is the same as list 0, its
first two entries are exchanged. -/
def Dpb.exchangeFirst (d : Dpb) (n : ℕ) (refs0 refs1 : BufferRefs) : Checked σ BufferRefs :=
  if 1 < n ∧ ∀ iPic < n, (refs1 iPic).uNodeID = (refs0 iPic).uNodeID then do
    check ((refs1 0).uNodeID % 64 < maxDpbSize)
    let nodeTemp := d.nodes ((refs1 0).uNodeID % 64)
    return (refs1.setNode 0 (refs1 1).uNodeID).setNode 1 nodeTemp.uNodeID
  else pure refs1

/-- The part of `AL_Dpb_InitBSlice_RefList` behind the loops over the buffer. -/
def Dpb.mergeBLists (d : Dpb) (less great long : List ℕ) (refs0 refs1 : BufferRefs) :
    Checked σ (BufferRefs × BufferRefs) := do
  let refs0 ← BufferRefs.copyNodes less 0 refs0
  let refs0 ← BufferRefs.copyNodes great less.length refs0
  let refs0 ← BufferRefs.copyNodes long (less.length + great.length) refs0
  let refs1 ← BufferRefs.copyNodes great 0 refs1
  let refs1 ← BufferRefs.copyNodes less great.length refs1
  let refs1 ← BufferRefs.copyNodes long (great.length + less.length) refs1
  let refs1 ← d.exchangeFirst (less.length + great.length + long.length) refs0 refs1
  return (refs0, refs1)

def Dpb.initBSliceRefList (d : Dpb) (iCurFramePOC : ℤ) (refs0 refs1 : BufferRefs) :
    Checked σ (BufferRefs × BufferRefs) := do
  let short ← d.sortList .poc (fun n => n.isShort && n.iFramePOC < iCurFramePOC) Node.isShort
  let long ← d.sortList .decOrder (fun _ => false) Node.isLong
  d.mergeBLists short.1 short.2 long.2 refs0 refs1

def sliceSP : ℕ := 3

def Dpb.initPictList (d : Dpb) (sliceType : ℕ) (iCurFramePOC : ℤ) (refs0 refs1 : BufferRefs) :
    Checked σ (BufferRefs × BufferRefs) :=
  if sliceType = sliceP ∨ sliceType = sliceSP then do
    let refs0 ← d.initPSliceRefList refs0.reset
    return (refs0, refs1.reset)
  else if sliceType = sliceB then d.initBSliceRefList iCurFramePOC refs0.reset refs1.reset
  else pure (refs0.reset, refs1.reset)

/-! ## The clauses -/

/-- The list `l` holds what `S` holds, once each, in the order `R`. -/
structure Arranges {ι : Type} (S : ι → Prop) (R : ι → ι → Prop) (l : List ι) : Prop where
  nodup : l.Nodup
  mem : ∀ i, i ∈ l ↔ S i
  ordered : l.Pairwise R

namespace Dpb

/-- Marked as used for short-term reference. -/
def ShortTerm (d : Dpb) (i : ℕ) : Prop := d.InDpb i ∧ (d.nodes i).eMarkingFlag = .shortTermRef

/-- Marked as used for long-term reference. -/
def LongTerm (d : Dpb) (i : ℕ) : Prop := d.InDpb i ∧ (d.nodes i).eMarkingFlag = .longTermRef
deriving Decidable

/-- Inferred frames are not included when `pic_order_cnt_type` is 0. -/
def Included (d : Dpb) (picOrderCntType i : ℕ) : Prop :=
  d.ShortTerm i ∧ (picOrderCntType = 0 → (d.nodes i).nonExisting = false)

def Clause82421 (d : Dpb) (l : List ℕ) : Prop :=
  ∃ short long, l = short ++ long ∧
    Arranges d.ShortTerm (fun i j => (d.nodes j).iPicNum ≤ (d.nodes i).iPicNum) short ∧
    Arranges d.LongTerm (fun i j => (d.nodes i).iLongTermPicNum ≤ (d.nodes j).iLongTermPicNum) long

end Dpb

/-- The first two entries of list 1 are exchanged where it is list 0. -/
def exchanged (l0 l1 : List ℕ) : List ℕ :=
  match l1 with
  | x :: y :: l => if l1 = l0 then y :: x :: l else l1
  | _ => l1

namespace Dpb

def Clause82423 (d : Dpb) (picOrderCntType : ℕ) (cur : ℤ) (l0 l1 : List ℕ) : Prop :=
  ∃ past future long,
    l0 = past ++ (future ++ long) ∧ l1 = exchanged l0 (future ++ (past ++ long)) ∧
    Arranges (fun i => d.Included picOrderCntType i ∧ (d.nodes i).iFramePOC < cur)
      (fun i j => (d.nodes j).iFramePOC ≤ (d.nodes i).iFramePOC) past ∧
    Arranges (fun i => d.Included picOrderCntType i ∧ cur < (d.nodes i).iFramePOC)
      (fun i j => (d.nodes i).iFramePOC ≤ (d.nodes j).iFramePOC) future ∧
    Arranges d.LongTerm (fun i j => (d.nodes i).iLongTermPicNum ≤ (d.nodes j).iLongTermPicNum) long

/-- Whatever the lists held before, they become those of clause 8.2.4.2.3. -/
def InitsBLists (d : Dpb) (picOrderCntType : ℕ) (cur : ℤ) (s : σ) : Prop :=
  ∀ refs0 refs1 : BufferRefs, Ends (d.initPictList sliceB cur refs0 refs1) s fun r _ =>
    ∃ l0 l1, d.Clause82423 picOrderCntType cur l0 l1 ∧ refs0.reset.Filled l0 r.1 ∧
      refs1.reset.Filled l1 r.2

end Dpb

/-! ## Sorting the nodes -/

namespace Dpb

variable {d : Dpb} {first second : Node → Bool} {l : List ℕ} {s : σ}

/-- Both arrays have room for what they hold. -/
def Fits (t : List ℕ × List ℕ) : Prop := t.1.length ≤ maxRef ∧ t.2.length ≤ maxRef

/-- The arrays with one node more. -/
def sorted (d : Dpb) (first second : Node → Bool) (t : List ℕ × List ℕ) (u : ℕ) : List ℕ × List ℕ :=
  if first (d.nodes u) then (u :: t.1, t.2)
  else if second (d.nodes u) then (t.1, t.2 ++ [u])
  else t

variable {t : List ℕ × List ℕ}

theorem fits_of_sorted {u : ℕ} (h : Fits (d.sorted first second t u)) : Fits t := by
  unfold sorted at h
  split_ifs at h
  · exact ⟨Nat.le_of_succ_le h.1, h.2⟩
  · have hle := h.2
    rw [List.length_append] at hle
    exact ⟨h.1, (Nat.le_add_right _ _).trans hle⟩
  · exact h

theorem endsIff_sortNode {u : ℕ} (hid : (d.nodes u).uNodeID = u) (ht : Fits t) :
    EndsIff (Fits (d.sorted first second t u)) (d.sortNode first second u t) s fun t' _ =>
      t' = d.sorted first second t u := by
  unfold sortNode sorted
  rw [hid]
  by_cases hfirst : first (d.nodes u) = true
  · rw [if_pos hfirst, if_pos hfirst]
    refine ((endsIff_check _).bindEnds fun _ s' _ _ => (ends_pure _).mpr rfl).congr ?_
    exact ⟨fun h => ⟨h, ht.2⟩, fun h => h.1⟩
  · rw [if_neg hfirst, if_neg hfirst]
    by_cases hsecond : second (d.nodes u) = true
    · rw [if_pos hsecond, if_pos hsecond]
      refine ((endsIff_check _).bindEnds fun _ s' _ _ => (ends_pure _).mpr rfl).congr ?_
      unfold Fits
      rw [List.length_append, List.length_singleton]
      exact ⟨fun h => ⟨ht.1, h⟩, fun h => h.2⟩
    · rw [if_neg hsecond, if_neg hsecond]
      exact ⟨fun _ => (ends_pure _).mpr rfl, fun _ => ht⟩

theorem foldl_sorted (d : Dpb) (first second : Node → Bool) (l : List ℕ) (t : List ℕ × List ℕ) :
    l.foldl (d.sorted first second) t =
      ((l.filter fun u => first (d.nodes u)).reverse ++ t.1,
        t.2 ++ l.filter fun u => !first (d.nodes u) && second (d.nodes u)) := by
  induction l generalizing t with
  | nil => simp
  | cons u l ih =>
    rw [List.foldl_cons, ih]
    unfold sorted
    by_cases hfirst : first (d.nodes u) = true
    · simp [hfirst]
    · by_cases hsecond : second (d.nodes u) = true
      · simp [hfirst, hsecond]
      · simp [hfirst, hsecond]

end Dpb

/-! ## The lists of the buffer -/

/-- The pictures that a walk of the order `o` goes through. -/
def Dpb.walked (d : Dpb) (o : Order) : List ℕ :=
  trail uEndOfList (fun u => o.next (d.nodes u)) walkFuel (o.head d)

namespace LinkedDpb

variable {c : LinkedDpb} {o : Order} {s : σ}

variable {pre rest : List ℕ}

theorem segment_of_split (hsplit : c.order o = pre ++ rest) :
    Segment (fun i => o.next (c.dpb.nodes i)) (fun i => o.prev (c.dpb.nodes i))
        (pre.getLastD uEndOfList) rest uEndOfList ∧ uEndOfList ∉ rest ∧ rest.length < walkFuel := by
  have hT : Threaded uEndOfList (fun i => o.next (c.dpb.nodes i)) (fun i => o.prev (c.dpb.nodes i))
      (c.order o) := c.linked.spells o
  have hle := c.linked.length_le o
  rw [hsplit] at hT hle
  rw [List.length_append] at hle
  refine ⟨(Segment.append.mp hT.links).2, fun h => hT.nil_notMem (List.mem_append_right _ h), ?_⟩
  unfold walkFuel
  omega

theorem walked_eq (hsplit : c.order o = pre ++ rest)
    (hhead : o.head c.dpb = rest.headD uEndOfList) : c.dpb.walked o = rest := by
  obtain ⟨hseg, hnil, hlen⟩ := segment_of_split hsplit
  unfold Dpb.walked
  rw [hhead]
  exact trail_eq hseg hnil hlen.le

theorem walked_poc (c : LinkedDpb) : c.dpb.walked .poc = c.order .poc :=
  walked_eq (List.nil_append _).symm c.linked.head_poc

theorem walked_suffix (c : LinkedDpb) (ho : o ≠ .pocLsb) :
    c.dpb.walked o <:+ c.order o ∧ o.head c.dpb = (c.dpb.walked o).headD uEndOfList := by
  have hentry : ∃ pre rest, c.order o = pre ++ rest ∧ o.head c.dpb = rest.headD uEndOfList := by
    cases o with
    | poc => exact ⟨[], _, rfl, c.linked.head_poc⟩
    | pocLsb => exact absurd rfl ho
    | decOrder => exact c.linked.entry
  obtain ⟨pre, rest, hsplit, hhead⟩ := hentry
  rw [walked_eq hsplit hhead]
  exact ⟨⟨pre, hsplit.symm⟩, hhead⟩

theorem walk_walked {β : Type} (ho : o ≠ .pocLsb) (body : ℕ → β → Checked σ β) (b : β) :
    walk uEndOfList (fun u => o.next (c.dpb.nodes u)) body walkFuel (o.head c.dpb) b =
      each body (c.dpb.walked o) b := by
  obtain ⟨⟨pre, hsplit⟩, hhead⟩ := c.walked_suffix ho
  obtain ⟨hseg, hnil, hlen⟩ := segment_of_split hsplit.symm
  rw [hhead]
  exact walk_eq_each hseg hnil hlen b

theorem inDpb_of_walked (ho : o ≠ .pocLsb) {u : ℕ} (hu : u ∈ c.dpb.walked o) : c.dpb.InDpb u :=
  (c.linked.mem_order o).mp ((c.walked_suffix ho).1.subset hu)

theorem nodup_walked (ho : o ≠ .pocLsb) : (c.dpb.walked o).Nodup :=
  ((c.linked.spells o).nodup).sublist (c.walked_suffix ho).1.sublist

theorem endsIff_sortList (hid : c.OwnIDs) (ho : o ≠ .pocLsb) (first second : Node → Bool) :
    EndsIff (((c.dpb.walked o).filter fun u => first (c.dpb.nodes u)).length ≤ maxRef ∧
        ((c.dpb.walked o).filter fun u => !first (c.dpb.nodes u) && second (c.dpb.nodes u)).length ≤ maxRef)
      (c.dpb.sortList o first second) s fun t _ =>
        t = (((c.dpb.walked o).filter fun u => first (c.dpb.nodes u)).reverse,
          (c.dpb.walked o).filter fun u => !first (c.dpb.nodes u) && second (c.dpb.nodes u)) := by
  have hbody : ∀ u ∈ c.dpb.walked o, ∀ t (s : σ), Dpb.Fits t →
      EndsIff (Dpb.Fits (c.dpb.sorted first second t u)) (c.dpb.sortNode first second u t) s
        fun t' _ => t' = c.dpb.sorted first second t u := fun u hu t s ht =>
    Dpb.endsIff_sortNode (hid u (c.inDpb_of_walked ho hu)) ht
  have hall := endsIff_each hbody (fun t u => Dpb.fits_of_sorted) (b := ([], []))
    ⟨Nat.zero_le _, Nat.zero_le _⟩ s
  rw [Dpb.foldl_sorted, List.append_nil, List.nil_append] at hall
  unfold Dpb.sortList
  rw [walk_walked ho]
  refine hall.congr ?_
  unfold Dpb.Fits
  rw [List.length_reverse]

end LinkedDpb

/-! ## P slices -/

namespace Dpb

/-- The short-term pictures of the decoding order, the last one first. -/
def recent (d : Dpb) : List ℕ := ((d.walked .decOrder).filter fun u => (d.nodes u).isShort).reverse

/-- The other references of the decoding order. -/
def others (d : Dpb) : List ℕ :=
  (d.walked .decOrder).filter fun u =>
    !(d.nodes u).isShort && decide ((d.nodes u).eMarkingFlag ≠ .unusedForRef)

/-- There is room in the arrays and in the list. -/
@[mk_iff]
structure RoomForP (d : Dpb) : Prop where
  recent_le : d.recent.length ≤ maxRef
  others_le : d.others.length ≤ maxRef
  total_le : d.recent.length + d.others.length ≤ maxRef + 1

end Dpb

namespace LinkedDpb

variable {c : LinkedDpb} {s : σ}

theorem endsIff_initPSliceRefList (hid : c.OwnIDs) (refs : BufferRefs) :
    EndsIff c.dpb.RoomForP (c.dpb.initPSliceRefList refs) s fun r _ =>
      refs.Filled (c.dpb.recent ++ c.dpb.others) r := by
  unfold Dpb.initPSliceRefList
  have hsort := endsIff_sortList (s := s) hid (o := .decOrder) (by decide) Node.isShort
    fun n => n.eMarkingFlag ≠ .unusedForRef
  refine (hsort.bind (ψ := c.dpb.recent.length ≤ maxRef + 1 ∧
    c.dpb.recent.length + c.dpb.others.length ≤ maxRef + 1) fun t s1 _ ht => ?_).congr ?_
  · rw [ht]
    have hfirst : EndsIff (0 + c.dpb.recent.length ≤ maxRef + 1) (BufferRefs.copyNodes c.dpb.recent 0 refs) s1
        fun r _ => refs.Filled c.dpb.recent r :=
      BufferRefs.endsIff_copyNodes (BufferRefs.filled_nil refs) (Nat.zero_le _)
    rw [Nat.zero_add] at hfirst
    exact hfirst.bind fun r s2 hle hr => BufferRefs.endsIff_copyNodes hr hle
  · have hrecent : c.dpb.recent.length =
        ((c.dpb.walked .decOrder).filter fun u => (c.dpb.nodes u).isShort).length := List.length_reverse
    rw [← hrecent]
    exact ⟨fun h => ⟨h.1.1, h.1.2, h.2.2⟩, fun h => ⟨⟨h.recent_le, h.others_le⟩,
      h.recent_le.trans (Nat.le_succ _), h.total_le⟩⟩

end LinkedDpb

/-! ## B slices -/

namespace Dpb

/-- The long-term pictures of the decoding order. -/
def longs (d : Dpb) : List ℕ := (d.walked .decOrder).filter fun u => (d.nodes u).isLong

/-- The short-term pictures of the POC list in front of `cur`, the last one first. -/
def past (d : Dpb) (cur : ℤ) : List ℕ :=
  ((d.walked .poc).filter fun u => (d.nodes u).isShort && (d.nodes u).iFramePOC < cur).reverse

/-- The other short-term pictures of the POC list. -/
def future (d : Dpb) (cur : ℤ) : List ℕ :=
  (d.walked .poc).filter fun u =>
    !((d.nodes u).isShort && (d.nodes u).iFramePOC < cur) && (d.nodes u).isShort

/-- There is room in the arrays and in the lists. -/
@[mk_iff]
structure RoomForB (d : Dpb) (cur : ℤ) : Prop where
  past_le : (d.past cur).length ≤ maxRef
  future_le : (d.future cur).length ≤ maxRef
  longs_le : d.longs.length ≤ maxRef
  total_le : (d.past cur).length + (d.future cur).length + d.longs.length ≤ maxRef + 1

/-- The POC list and the decoding order hold the references of clause 8.2.4.2.3 in
its order. -/
@[mk_iff]
structure ReadyForB (d : Dpb) (picOrderCntType : ℕ) (cur : ℤ) : Prop where
  room : d.RoomForB cur
  shorts : ∀ i ∈ d.walked .poc, (d.nodes i).isShort = true → (d.nodes i).iFramePOC ≠ cur ∧
    (picOrderCntType = 0 → (d.nodes i).nonExisting = false)
  past_desc : (d.past cur).Pairwise fun i j => (d.nodes j).iFramePOC ≤ (d.nodes i).iFramePOC
  future_asc : (d.future cur).Pairwise fun i j => (d.nodes i).iFramePOC ≤ (d.nodes j).iFramePOC
  longs_walked : ∀ i < maxDpbSize, d.LongTerm i → i ∈ d.walked .decOrder
  longs_asc : d.longs.Pairwise fun i j => (d.nodes i).iLongTermPicNum ≤ (d.nodes j).iLongTermPicNum

end Dpb

namespace LinkedDpb

variable {c : LinkedDpb} {cur : ℤ} {s : σ} {old0 old1 refs0 refs1 : BufferRefs} {l0 l1 : List ℕ}

variable {i : ℕ}

theorem lt_of_inDpb (hi : c.dpb.InDpb i) : i < 34 := hi.1

theorem end_notMem_of_inDpb {l : List ℕ} (hl : ∀ u ∈ l, c.dpb.InDpb u) : uEndOfList ∉ l := by
  intro hmem
  have hlt := c.lt_of_inDpb (hl _ hmem)
  unfold uEndOfList at hlt
  omega

theorem ends_exchangeFirst (hid : c.OwnIDs) (h0 : BufferRefs.Filled old0 l0 refs0)
    (h1 : BufferRefs.Filled old1 l1 refs1) (hl1 : ∀ u ∈ l1, c.dpb.InDpb u)
    (hlen : l0.length = l1.length) :
    Ends (c.dpb.exchangeFirst l1.length refs0 refs1) s fun refs _ =>
      BufferRefs.Filled old1 (exchanged l0 l1) refs := by
  have hsame : (∀ i < l1.length, (refs1 i).uNodeID = (refs0 i).uNodeID) ↔ l1 = l0 := by
    constructor
    · intro h
      refine List.ext_getElem hlen.symm fun i hi hi0 => ?_
      have hi' := h i hi
      rw [h0 i, h1 i, List.getD_eq_getElem _ _ hi, List.getD_eq_getElem _ _ hi0] at hi'
      exact hi'
    · rintro rfl i hi
      rw [h0 i, h1 i, List.getD_eq_getElem _ _ hi, List.getD_eq_getElem _ _ hi]
  unfold Dpb.exchangeFirst
  rw [ends_ite, hsame]
  refine ⟨fun hc => ?_, fun hc => ?_⟩
  · obtain ⟨hlt, rfl⟩ := hc
    obtain ⟨x, y, l, rfl⟩ : ∃ x y l, l1 = x :: y :: l := by
      match l1, hlt with
      | x :: y :: l, _ => exact ⟨x, y, l, rfl⟩
    have hx : c.dpb.InDpb x := hl1 x List.mem_cons_self
    have hx0 : (refs1 0).uNodeID = x := h1 0
    have hy1 : (refs1 1).uNodeID = y := h1 1
    have hmod : x % 64 = x := Nat.mod_eq_of_lt (by have := c.lt_of_inDpb hx; omega)
    rw [hx0, hy1, hmod, ends_bind, ends_check]
    refine ⟨hx.1, (ends_pure _).mpr fun i => ?_⟩
    have hexch : exchanged (x :: y :: l) (x :: y :: l) = y :: x :: l := if_pos rfl
    rw [hexch, BufferRefs.uNodeID_setNode, BufferRefs.uNodeID_setNode, hid x hx]
    match i with
    | 0 => rfl
    | 1 => rfl
    | i + 2 =>
      rw [if_neg (by omega), if_neg (by omega)]
      exact h1 (i + 2)
  · rw [ends_pure]
    have hexch : exchanged l0 l1 = l1 := by
      unfold exchanged
      split
      · next x y l =>
        refine if_neg fun he => hc ⟨?_, he⟩
        simp
      · rfl
    rwa [hexch]

theorem endsIff_mergeBLists (hid : c.OwnIDs) {less great long : List ℕ}
    (hin : ∀ u ∈ great ++ (less ++ long), c.dpb.InDpb u) (refs0 refs1 : BufferRefs) :
    EndsIff (less.length + great.length + long.length ≤ maxRef + 1)
      (c.dpb.mergeBLists less great long refs0 refs1) s fun r _ =>
        refs0.Filled (less ++ (great ++ long)) r.1 ∧
          refs1.Filled (exchanged (less ++ (great ++ long)) (great ++ (less ++ long))) r.2 := by
  unfold Dpb.mergeBLists
  have hlen : (less ++ (great ++ long)).length = (great ++ (less ++ long)).length := by
    simp only [List.length_append]
    omega
  have htotal : less.length + great.length + long.length = (great ++ (less ++ long)).length := by
    simp only [List.length_append]
    omega
  refine (BufferRefs.endsIff_copyThree (ψ := great.length + less.length + long.length ≤ maxRef + 1 ∧ True)
    fun r0 s0 h0 => ?_).congr ⟨fun h => h.1, fun h => ⟨h, by omega, trivial⟩⟩
  refine BufferRefs.endsIff_copyThree fun r1 s1 h1 => ⟨fun _ => ?_, fun _ => trivial⟩
  rw [ends_bind, htotal]
  exact (ends_exchangeFirst hid h0 h1 hin hlen).imp fun r s2 hr => (ends_pure _).mpr ⟨h0, hr⟩

theorem endsIff_initBSliceRefList (hid : c.OwnIDs) (cur : ℤ) (refs0 refs1 : BufferRefs) :
    EndsIff (c.dpb.RoomForB cur) (c.dpb.initBSliceRefList cur refs0 refs1) s fun r _ =>
      refs0.Filled (c.dpb.past cur ++ (c.dpb.future cur ++ c.dpb.longs)) r.1 ∧
        refs1.Filled (exchanged (c.dpb.past cur ++ (c.dpb.future cur ++ c.dpb.longs))
          (c.dpb.future cur ++ (c.dpb.past cur ++ c.dpb.longs))) r.2 := by
  unfold Dpb.initBSliceRefList
  have hshort := endsIff_sortList (s := s) hid (o := .poc) (by decide)
    (fun n => n.isShort && n.iFramePOC < cur) Node.isShort
  have hlong : ∀ s : σ, EndsIff (c.dpb.longs.length ≤ maxRef)
      (c.dpb.sortList .decOrder (fun _ => false) Node.isLong) s fun t _ => t.2 = c.dpb.longs := by
    intro s
    have hsort := endsIff_sortList (s := s) hid (o := .decOrder) (by decide) (fun _ => false) Node.isLong
    refine (hsort.imp fun t s' _ ht => congrArg Prod.snd ht).congr ⟨fun h => h.2, fun h => ⟨?_, h⟩⟩
    simp
  have hin : ∀ u ∈ c.dpb.future cur ++ (c.dpb.past cur ++ c.dpb.longs), c.dpb.InDpb u := by
    intro u hu
    simp only [List.mem_append, Dpb.future, Dpb.past, Dpb.longs, List.mem_reverse, List.mem_filter] at hu
    rcases hu with hu | hu | hu
    · exact inDpb_of_walked (by decide) hu.1
    · exact inDpb_of_walked (by decide) hu.1
    · exact inDpb_of_walked (by decide) hu.1
  refine (hshort.bind (ψ := c.dpb.longs.length ≤ maxRef ∧ (c.dpb.past cur).length +
    (c.dpb.future cur).length + c.dpb.longs.length ≤ maxRef + 1) fun t s1 _ ht => ?_).congr ?_
  · rw [ht]
    refine (hlong s1).bind fun t' s2 _ ht' => ?_
    rw [ht']
    exact endsIff_mergeBLists hid hin refs0 refs1
  · have hpast : (c.dpb.past cur).length = ((c.dpb.walked .poc).filter fun u =>
        (c.dpb.nodes u).isShort && (c.dpb.nodes u).iFramePOC < cur).length := List.length_reverse
    rw [← hpast]
    exact ⟨fun h => ⟨h.1.1, h.1.2, h.2.1, h.2.2⟩,
      fun h => ⟨⟨h.past_le, h.future_le⟩, h.longs_le, h.total_le⟩⟩

theorem mem_past : i ∈ c.dpb.past cur ↔ c.dpb.ShortTerm i ∧ (c.dpb.nodes i).iFramePOC < cur := by
  unfold Dpb.past Dpb.ShortTerm
  rw [List.mem_reverse, List.mem_filter, walked_poc, c.linked.mem]
  simp [Node.isShort, and_assoc]

theorem mem_future :
    i ∈ c.dpb.future cur ↔ c.dpb.ShortTerm i ∧ cur ≤ (c.dpb.nodes i).iFramePOC := by
  unfold Dpb.future Dpb.ShortTerm
  rw [List.mem_filter, walked_poc, c.linked.mem]
  simp [Node.isShort]
  tauto

theorem mem_longs : i ∈ c.dpb.longs ↔ i ∈ c.dpb.walked .decOrder ∧ c.dpb.LongTerm i := by
  unfold Dpb.longs Dpb.LongTerm
  rw [List.mem_filter]
  simp only [Node.isLong, decide_eq_true_eq]
  exact ⟨fun h => ⟨h.1, inDpb_of_walked (by decide) h.1, h.2⟩, fun h => ⟨h.1, h.2.2⟩⟩

theorem nodup_longs : c.dpb.longs.Nodup := (nodup_walked (by decide)).filter _

theorem clause82423 {picOrderCntType : ℕ} (h : c.dpb.ReadyForB picOrderCntType cur) :
    c.dpb.Clause82423 picOrderCntType cur (c.dpb.past cur ++ (c.dpb.future cur ++ c.dpb.longs))
      (exchanged (c.dpb.past cur ++ (c.dpb.future cur ++ c.dpb.longs))
        (c.dpb.future cur ++ (c.dpb.past cur ++ c.dpb.longs))) := by
  have hshort : ∀ {i}, c.dpb.ShortTerm i → (c.dpb.nodes i).iFramePOC ≠ cur ∧
      c.dpb.Included picOrderCntType i := by
    intro i hi
    have hmem : i ∈ c.dpb.walked .poc := by
      rw [walked_poc]
      exact (c.linked.mem i).mpr hi.1
    have hs := h.shorts i hmem (decide_eq_true hi.2)
    exact ⟨hs.1, hi, hs.2⟩
  refine ⟨_, _, _, rfl, rfl, ⟨?_, fun i => ?_, h.past_desc⟩, ⟨?_, fun i => ?_, h.future_asc⟩,
    ⟨nodup_longs, fun i => ?_, h.longs_asc⟩⟩
  · exact List.nodup_reverse.mpr ((nodup_walked (by decide)).filter _)
  · rw [mem_past]
    exact ⟨fun hi => ⟨(hshort hi.1).2, hi.2⟩, fun hi => ⟨hi.1.1, hi.2⟩⟩
  · exact (nodup_walked (by decide)).filter _
  · rw [mem_future]
    refine ⟨fun hi => ⟨(hshort hi.1).2, ?_⟩, fun hi => ⟨hi.1.1, hi.2.le⟩⟩
    exact lt_of_le_of_ne hi.2 (hshort hi.1).1.symm
  · rw [mem_longs]
    exact ⟨fun hi => hi.2, fun hi => ⟨h.longs_walked i hi.1.1 hi, hi⟩⟩

end LinkedDpb

theorem append_split {ι : Type} {p : ι → Prop} {a b a' b' : List ι} (h : a ++ b = a' ++ b')
    (ha : ∀ x ∈ a, p x) (hb : ∀ x ∈ b, ¬p x) (ha' : ∀ x ∈ a', p x) (hb' : ∀ x ∈ b', ¬p x) :
    a = a' ∧ b = b' := by
  classical
  have hfront : ∀ {a b : List ι}, (∀ x ∈ a, p x) → (∀ x ∈ b, ¬p x) →
      (a ++ b).filter (fun x => p x) = a := by
    intro a b ha hb
    rw [List.filter_append, List.filter_eq_self.mpr fun x hx => decide_eq_true (ha x hx),
      List.filter_eq_nil_iff.mpr fun x hx => by simpa using hb x hx, List.append_nil]
  have heq : a = a' := by rw [← hfront ha hb, h, hfront ha' hb']
  rw [heq] at h
  exact ⟨heq, List.append_cancel_left h⟩

namespace LinkedDpb

variable {c : LinkedDpb} {cur : ℤ} {picOrderCntType : ℕ} {l0 l1 : List ℕ}

/-- The clause asks of the buffer what the lists are read off. -/
theorem readyForB_of_clause (hroom : c.dpb.RoomForB cur)
    (h : c.dpb.Clause82423 picOrderCntType cur (c.dpb.past cur ++ (c.dpb.future cur ++ c.dpb.longs)) l1) :
    c.dpb.ReadyForB picOrderCntType cur := by
  obtain ⟨past, future, long, hl0, -, hpast, hfuture, hlong⟩ := h
  have hshort : ∀ {i}, c.dpb.ShortTerm i → ¬c.dpb.LongTerm i := by
    intro i hi hl
    rw [Dpb.LongTerm, hi.2] at hl
    exact absurd hl.2 (by decide)
  have hrest : ∀ i ∈ future ++ long, ¬(c.dpb.ShortTerm i ∧ (c.dpb.nodes i).iFramePOC < cur) := by
    intro i hi hs
    rcases List.mem_append.mp hi with hi | hi
    · exact absurd hs.2 ((hfuture.mem i).mp hi).2.not_gt
    · exact hshort hs.1 ((hlong.mem i).mp hi)
  have hrest' : ∀ i ∈ c.dpb.future cur ++ c.dpb.longs,
      ¬(c.dpb.ShortTerm i ∧ (c.dpb.nodes i).iFramePOC < cur) := by
    intro i hi hs
    rcases List.mem_append.mp hi with hi | hi
    · exact absurd hs.2 (mem_future.mp hi).2.not_gt
    · exact hshort hs.1 (mem_longs.mp hi).2
  obtain ⟨hp, hfl⟩ := append_split hl0 (fun i hi => mem_past.mp hi) hrest'
    (fun i hi => ⟨((hpast.mem i).mp hi).1.1, ((hpast.mem i).mp hi).2⟩) hrest
  obtain ⟨hf, hl⟩ := append_split hfl (fun i hi => (mem_future.mp hi).1)
    (fun i hi hs => hshort hs (mem_longs.mp hi).2) (fun i hi => ((hfuture.mem i).mp hi).1.1)
    fun i hi hs => hshort hs ((hlong.mem i).mp hi)
  refine ⟨hroom, fun i hi hs => ?_, ?_, ?_, fun i _ hi => ?_, ?_⟩
  · have hst : c.dpb.ShortTerm i := ⟨inDpb_of_walked (by decide) hi, of_decide_eq_true hs⟩
    rcases lt_or_ge (c.dpb.nodes i).iFramePOC cur with hlt | hge
    · have hmem := (hpast.mem i).mp (hp ▸ mem_past.mpr ⟨hst, hlt⟩)
      exact ⟨hlt.ne, hmem.1.2⟩
    · have hmem := (hfuture.mem i).mp (hf ▸ mem_future.mpr ⟨hst, hge⟩)
      exact ⟨hmem.2.ne', hmem.1.2⟩
  · rw [hp]
    exact hpast.ordered
  · rw [hf]
    exact hfuture.ordered
  · exact (mem_longs.mp (hl ▸ (hlong.mem i).mpr hi)).1
  · rw [hl]
    exact hlong.ordered

theorem inDpb_of_clause (h : c.dpb.Clause82423 picOrderCntType cur l0 l1) :
    ∀ i ∈ l0, c.dpb.InDpb i := by
  obtain ⟨past, future, long, rfl, -, hpast, hfuture, hlong⟩ := h
  intro i hi
  rcases List.mem_append.mp hi with hi | hi
  · exact ((hpast.mem i).mp hi).1.1.1
  · rcases List.mem_append.mp hi with hi | hi
    · exact ((hfuture.mem i).mp hi).1.1.1
    · exact ((hlong.mem i).mp hi).1

theorem endsIff_initPictList_b (hid : c.OwnIDs) (cur : ℤ) (refs0 refs1 : BufferRefs) (s : σ) :
    EndsIff (c.dpb.RoomForB cur) (c.dpb.initPictList sliceB cur refs0 refs1) s fun r _ =>
      refs0.reset.Filled (c.dpb.past cur ++ (c.dpb.future cur ++ c.dpb.longs)) r.1 ∧
        refs1.reset.Filled (exchanged (c.dpb.past cur ++ (c.dpb.future cur ++ c.dpb.longs))
          (c.dpb.future cur ++ (c.dpb.past cur ++ c.dpb.longs))) r.2 := by
  unfold Dpb.initPictList
  rw [if_neg (by decide), if_pos rfl]
  exact endsIff_initBSliceRefList hid cur _ _

theorem readyForB_of_initsBLists (hid : c.OwnIDs) {s : σ} (h : c.dpb.InitsBLists picOrderCntType cur s) :
    c.dpb.ReadyForB picOrderCntType cur := by
  -- lists without a picture show what is written
  let empty : BufferRefs := fun _ => ⟨0, uEndOfList⟩
  have hempty : ∀ i, (empty.reset i).uNodeID = uEndOfList := by
    intro i
    unfold BufferRefs.reset
    split <;> rfl
  have hends := endsIff_initPictList_b hid cur empty empty s
  have hroom := hends.of_returns (h empty empty).returns
  obtain ⟨r, -, -, ⟨hr, -⟩, l0, l1, hclause, hl0, -⟩ := (hends.ends hroom).and (h empty empty)
  have hin : ∀ i ∈ c.dpb.past cur ++ (c.dpb.future cur ++ c.dpb.longs), c.dpb.InDpb i := by
    intro i hi
    rcases List.mem_append.mp hi with hi | hi
    · exact (mem_past.mp hi).1.1
    · rcases List.mem_append.mp hi with hi | hi
      · exact (mem_future.mp hi).1.1
      · exact (mem_longs.mp hi).2.1
  have heq := hr.unique hl0 hempty (end_notMem_of_inDpb hin) (end_notMem_of_inDpb (inDpb_of_clause hclause))
  rw [← heq] at hclause
  exact readyForB_of_clause hroom hclause

/-- The lists of a B slice are those of the clause if and only if the buffer holds
the references in its order. -/
theorem initsBLists_iff (hid : c.OwnIDs) (picOrderCntType : ℕ) (cur : ℤ) (s : σ) :
    c.dpb.InitsBLists picOrderCntType cur s ↔ c.dpb.ReadyForB picOrderCntType cur := by
  refine ⟨readyForB_of_initsBLists hid, fun h refs0 refs1 => ?_⟩
  exact ((endsIff_initPictList_b hid cur refs0 refs1 s).ends h.room).imp fun r _ hr =>
    ⟨_, _, clause82423 h, hr.1, hr.2⟩

end LinkedDpb

/-! ## Two long-term pictures -/

instance (d : Dpb) (cur : ℤ) : Decidable (d.RoomForB cur) :=
  decidable_of_iff _ (d.roomForB_iff cur).symm

instance (d : Dpb) (picOrderCntType : ℕ) (cur : ℤ) : Decidable (d.ReadyForB picOrderCntType cur) :=
  decidable_of_iff _ (d.readyForB_iff picOrderCntType cur).symm

/-- Four references with the POCs 0, 8, 4 and 12; the second one gets the long-term
index `lt0`, and then the first one the index `lt1`. -/
def Op.twoLongTerm (lt0 lt1 : ℤ) : List Op :=
  [.insert (.sample 0 0 .shortTermRef), .markingProcess (.sample 4 avcNutVclIdr 0),
    .insert (.sample 1 8 .shortTermRef), .markingProcess (.sample 4 1 1),
    .insert (.sample 2 4 .shortTermRef),
    .markingProcess { (AvcSliceHdr.sample 4 1 2).withMmco [4, 3, 0] [0] [lt0] with
      maxLongTermFrameIdxPlus1 := [2] },
    .insert (.sample 3 12 .shortTermRef),
    .markingProcess ((AvcSliceHdr.sample 4 1 3).withMmco [3, 0] [2] [lt1]),
    .pictNumberProcess (.sample 4 1 4)]

namespace LinkedDpb

/-- The second picture gets the larger index. -/
theorem initsBLists_twoLongTerm : ∃ d, (Dpb.zeroed.init 4 .normal).run (Op.twoLongTerm 1 0) = some d ∧
    d.InitsBLists 1 6 () := by
  have hrun : ((Dpb.zeroed.init 4 .normal).run (Op.twoLongTerm 1 0)).map
      (fun d => decide (d.ReadyForB 1 6)) = some true := by decide +kernel
  obtain ⟨d, hd, hready⟩ := Option.map_eq_some_iff.mp hrun
  obtain ⟨c, rfl, hid⟩ := Dpb.ownIDs_of_run (by decide +kernel) hd
  exact ⟨c.dpb, hd, (initsBLists_iff hid 1 6 ()).mpr (of_decide_eq_true hready)⟩

/-- The second picture gets the smaller index: it stays behind the first one. -/
theorem not_initsBLists_twoLongTerm :
    ∃ d, (Dpb.zeroed.init 4 .normal).run (Op.twoLongTerm 0 1) = some d ∧ ¬d.InitsBLists 1 6 () := by
  have hrun : ((Dpb.zeroed.init 4 .normal).run (Op.twoLongTerm 0 1)).map
      (fun d => decide (d.ReadyForB 1 6)) = some false := by decide +kernel
  obtain ⟨d, hd, hready⟩ := Option.map_eq_some_iff.mp hrun
  obtain ⟨c, rfl, hid⟩ := Dpb.ownIDs_of_run (by decide +kernel) hd
  exact ⟨c.dpb, hd, fun h => of_decide_eq_false hready (readyForB_of_initsBLists hid h)⟩

end LinkedDpb

end VcuCodec
