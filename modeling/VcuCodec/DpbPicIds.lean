import VcuCodec.DpbEffects
import VcuCodec.DpbSteps
import VcuCodec.IdPools

/-!
# Picture IDs

The picture-ID pool of the buffer is a pool of identifiers whose clients are the
nodes: as long as no stale ID of an empty node is given back and no picture
comes while another one waits, every edit of the buffer is a number of steps of
that pool.
-/

namespace VcuCodec

open IdPools LinkedLists Relation

/-! ## The pool of a buffer -/

/-- The fields of a node that picture IDs are about. -/
structure NodeIdent where
  bIsReset : Bool
  nonExisting : Bool
  uNodeID : ℕ
  uPicID : ℕ

def Node.ident (n : Node) : NodeIdent := ⟨n.bIsReset, n.nonExisting, n.uNodeID, n.uPicID⟩

/-- The pool data over the identities of the nodes. -/
structure IdTable where
  ids : PicIds
  nodes : ℕ → NodeIdent

def Dpb.idTable (d : Dpb) : IdTable := ⟨d.ids, fun i => (d.nodes i).ident⟩

namespace IdTable

variable (t : IdTable) (u : ℕ)

/-- The picture ID of the picture in node `u`. -/
def held : Option ℕ :=
  if u < maxDpbSize ∧ (t.nodes u).bIsReset = false ∧ (t.nodes u).uPicID ≠ undefID then
    some (t.nodes u).uPicID
  else none

/-- The free stack, the IDs the pictures hold, and the picture that waits. -/
def pool : Pool ℕ ℕ where
  free := arrayStack t.ids.freePicIDs t.ids.freePicIdCnt
  held := t.held
  waiting := if t.ids.bPicWaiting then some t.ids.uNodeWaiting else none

def setNode (n : NodeIdent) : IdTable := { t with nodes := Function.update t.nodes u n }

def setIds (ids : PicIds) : IdTable := { t with ids := ids }

def giveBack : IdTable :=
  (t.setIds (t.ids.release (t.nodes u).uPicID)).setNode u { t.nodes u with uPicID := undefID }

def vacate : IdTable :=
  let ids := t.ids.release (t.nodes u).uPicID
  (t.setIds (if (t.nodes u).uNodeID = ids.uNodeWaiting then ids.resetWaiting else ids)).setNode u
    ⟨true, false, uEndOfList, (t.nodes u).uPicID⟩

/-- The waiting picture has got the ID on top of the stack. -/
def served : IdTable :=
  (t.setIds (t.ids.take t.ids.uNodeWaiting t.ids.uFrmWaiting t.ids.uMvWaiting).resetWaiting).setNode
    t.ids.uNodeWaiting { t.nodes t.ids.uNodeWaiting with uPicID := t.ids.top }

def serve : IdTable :=
  if t.ids.bPicWaiting ∧ t.ids.freePicIdCnt ≠ 0 then
    if (t.nodes t.ids.uNodeWaiting).nonExisting then
      (t.setIds t.ids.resetWaiting).setNode t.ids.uNodeWaiting
        { t.nodes t.ids.uNodeWaiting with uPicID := uEndOfList }
    else t.served
  else t

/-- A picture comes to node `u`. -/
def fill (ids : PicIds) (nonExisting : Bool) (uPicID : ℕ) : IdTable :=
  (t.setIds ids).setNode u ⟨false, nonExisting, u, uPicID⟩

/-- A new picture takes the ID on top of the stack or starts to wait; an
inferred one does neither. -/
def insert (a : InsertArgs) : IdTable :=
  if a.nonExisting then t.fill a.uNode t.ids true uEndOfList
  else if t.ids.freePicIdCnt ≠ 0 then
    t.fill a.uNode (t.ids.take a.uNode a.uFrmID a.uMvID) false t.ids.top
  else
    t.fill a.uNode { t.ids with
      bPicWaiting := true
      uNodeWaiting := a.uNode
      uFrmWaiting := a.uFrmID
      uMvWaiting := a.uMvID } false uEndOfList

/-- What the pool does not see of a node. -/
def shape (i : ℕ) : Bool × Bool × ℕ :=
  ((t.nodes i).bIsReset, (t.nodes i).nonExisting, (t.nodes i).uNodeID)

/-- The picture that waits is an existing one, and each picture knows its node. -/
structure Settled : Prop where
  waiter : t.ids.bPicWaiting = true → t.ids.uNodeWaiting < maxDpbSize ∧
    (t.shape t.ids.uNodeWaiting).1 = false ∧ (t.shape t.ids.uNodeWaiting).2.1 = false
  idle : t.ids.bPicWaiting = false → t.ids.uNodeWaiting = uEndOfList
  self : ∀ i < maxDpbSize, (t.shape i).1 = false → (t.shape i).2.2 = i

/-- The pool is conserved, and the table agrees with it. -/
structure Ok : Prop where
  conserved : Conserved (List.range picIdPoolSize) t.pool
  back : ∀ {i x}, t.held i = some x → t.ids.picId2NodeId x = i
  settled : t.Settled
  inferred : ∀ i < maxDpbSize, (t.shape i).2.1 = true → t.held i = none

variable {t u} {n : NodeIdent} {i x : ℕ} {ids : PicIds}

theorem held_eq_some : t.held u = some x ↔ u < maxDpbSize ∧ (t.nodes u).bIsReset = false ∧
    (t.nodes u).uPicID = x ∧ x ≠ undefID := by
  unfold held
  split
  · next h =>
    rw [Option.some.injEq]
    exact ⟨fun e => ⟨h.1, h.2.1, e, e ▸ h.2.2⟩, fun e => e.2.2.1⟩
  · next h =>
    refine ⟨fun e => absurd e (by simp), fun e => absurd ⟨e.1, e.2.1, ?_⟩ h⟩
    rw [e.2.2.1]
    exact e.2.2.2

theorem nodes_setNode : (t.setNode u n).nodes i = if i = u then n else t.nodes i :=
  Function.update_apply ..

theorem held_setNode_of_ne (hi : i ≠ u) : (t.setNode u n).held i = t.held i := by
  unfold held
  rw [nodes_setNode, if_neg hi]

theorem held_setNode : (t.setNode u n).held = Function.update t.held u
    (if u < maxDpbSize ∧ n.bIsReset = false ∧ n.uPicID ≠ undefID then some n.uPicID else none) := by
  funext i
  by_cases hi : i = u
  · subst hi
    rw [Function.update_self, held, nodes_setNode, if_pos rfl]
  · rw [Function.update_of_ne hi, held_setNode_of_ne hi]

theorem setNode_self : t.setNode u (t.nodes u) = t := by
  unfold setNode
  rw [Function.update_eq_self]

theorem pool_ext {q : Pool ℕ ℕ} (hf : t.pool.free = q.free) (hh : t.held = q.held)
    (hw : t.pool.waiting = q.waiting) : t.pool = q := by
  obtain ⟨free, held, waiting⟩ := q
  exact (congrArg₂ (fun f w => (⟨f, t.held, w⟩ : Pool ℕ ℕ)) hf hw).trans (by rw [hh])

theorem shape_setPicID {v : ℕ} :
    ((t.setIds ids).setNode u { t.nodes u with uPicID := v }).shape i = t.shape i := by
  unfold shape
  rw [nodes_setNode]
  split
  · next e => rw [e]
  · rfl

theorem shape_vacate : (t.vacate u).shape i = if i = u then (true, false, uEndOfList) else t.shape i := by
  unfold IdTable.vacate IdTable.shape
  rw [nodes_setNode]
  split <;> rfl

theorem shape_serve : t.serve.shape i = t.shape i := by
  unfold IdTable.serve IdTable.served
  split_ifs <;> first | exact shape_setPicID | rfl

theorem shape_fill {e : Bool} {v : ℕ} :
    (t.fill u ids e v).shape i = if i = u then (false, e, u) else t.shape i := by
  unfold IdTable.shape IdTable.fill
  rw [nodes_setNode]
  split <;> rfl

theorem Settled.of_shape {t' : IdTable} (h : t.Settled) (hs : ∀ i, t'.shape i = t.shape i)
    (hw : t'.ids.bPicWaiting = t.ids.bPicWaiting) (hn : t'.ids.uNodeWaiting = t.ids.uNodeWaiting) :
    t'.Settled := by
  refine ⟨?_, ?_, ?_⟩
  · simpa only [hw, hn, hs] using h.waiter
  · simpa only [hw, hn] using h.idle
  · simpa only [hs] using h.self

end IdTable

/-! ## Steps of the pool -/

theorem PicIds.release_undef (ids : PicIds) : ids.release undefID = ids := if_pos rfl

namespace IdTable.Ok

variable {t : IdTable} {u i x : ℕ} {a : InsertArgs}

theorem freePicIdCnt_le (h : t.Ok) : t.ids.freePicIdCnt ≤ picIdPoolSize := by
  have hlen := h.conserved.length_free_le
  rwa [List.length_range, IdTable.pool, length_arrayStack] at hlen

theorem lt_of_free (h : t.Ok) (hx : x ∈ t.pool.free) : x < picIdPoolSize :=
  List.mem_range.mp ((h.conserved.all x).mpr (.inl hx))

theorem ne_undef_of_free (h : t.Ok) (hx : x ∈ t.pool.free) : x ≠ undefID := by
  have hlt := h.lt_of_free hx
  simp only [picIdPoolSize, maxRef] at hlt
  unfold undefID
  omega

theorem back_take (h : t.Ok) (htop : t.ids.top ∈ t.pool.free)
    (hx : Function.update t.held u (some t.ids.top) i = some x) :
    Function.update t.ids.picId2NodeId t.ids.top u x = i := by
  rcases held_of_update hx with ⟨hiu, e⟩ | ⟨-, ho⟩
  · rw [← Option.some.inj e, Function.update_self, hiu]
  · have hne : x ≠ t.ids.top := fun e => h.conserved.disjoint ho (e ▸ htop)
    rw [Function.update_of_ne hne]
    exact h.back ho

theorem free_release (h : t.Ok) (hx : x ≠ undefID) :
    arrayStack (t.ids.release x).freePicIDs (t.ids.release x).freePicIdCnt = x :: t.pool.free := by
  have hcnt := h.freePicIdCnt_le
  have hinc : inc8 t.ids.freePicIdCnt = t.ids.freePicIdCnt + 1 := by
    simp only [picIdPoolSize, maxRef] at hcnt
    unfold inc8
    omega
  simp only [PicIds.release, if_neg hx, hinc]
  exact arrayStack_push _ _ _

theorem back_release (h : t.Ok) (hi : i ≠ u) (hu : t.held u = some (t.nodes u).uPicID ∨
      (t.nodes u).uPicID = undefID) (hx : t.held i = some x) :
    (t.ids.release (t.nodes u).uPicID).picId2NodeId x = i := by
  unfold PicIds.release
  split
  · exact h.back hx
  · next hne =>
    have hxu : x ≠ (t.nodes u).uPicID := by
      rintro rfl
      exact hi (h.conserved.unique hx (hu.resolve_right hne))
    show Function.update t.ids.picId2NodeId (t.nodes u).uPicID undefID x = i
    rw [Function.update_of_ne hxu]
    exact h.back hx

theorem giveBack_of_held (h : t.Ok) (hx : t.held u = some x) :
    (t.giveBack u).Ok ∧ Steps t.pool (t.giveBack u).pool := by
  obtain ⟨hu, hr, rfl, hne⟩ := held_eq_some.mp hx
  have hw : (t.ids.release (t.nodes u).uPicID).bPicWaiting = t.ids.bPicWaiting ∧
      (t.ids.release (t.nodes u).uPicID).uNodeWaiting = t.ids.uNodeWaiting := by
    simp [PicIds.release, hne]
  have hheld : (t.giveBack u).held = Function.update t.held u none := by
    unfold IdTable.giveBack
    rw [held_setNode]
    simp
    rfl
  have hp : (t.giveBack u).pool =
      ⟨(t.nodes u).uPicID :: t.pool.free, Function.update t.pool.held u none, t.pool.waiting⟩ := by
    refine pool_ext (h.free_release hne) hheld ?_
    simp only [IdTable.pool, IdTable.giveBack, IdTable.setNode, IdTable.setIds, hw]
  have hsteps : Steps t.pool (t.giveBack u).pool := by
    rw [hp]
    exact .single (.release hx)
  refine ⟨⟨h.conserved.steps hsteps, fun {i y} hy => ?_, ?_, fun i hi he => ?_⟩, hsteps⟩
  · rw [hheld] at hy
    rcases held_of_update hy with ⟨-, e⟩ | ⟨hiu, ho⟩
    · exact absurd e (by simp)
    · exact h.back_release hiu (.inl hx) ho
  · exact h.settled.of_shape (fun _ => shape_setPicID) hw.1 hw.2
  · rw [hheld, Function.update_apply]
    split
    · rfl
    · exact h.inferred i hi (shape_setPicID ▸ he)

theorem giveBack (h : t.Ok) (hu : u < maxDpbSize ∧ (t.nodes u).bIsReset = false ∨
    (t.nodes u).uPicID = undefID) : (t.giveBack u).Ok ∧ Steps t.pool (t.giveBack u).pool := by
  by_cases hid : (t.nodes u).uPicID = undefID
  · have he : t.giveBack u = t := by
      unfold IdTable.giveBack
      rw [hid, PicIds.release_undef]
      have hn : ({ t.nodes u with uPicID := undefID } : NodeIdent) = t.nodes u := by rw [← hid]
      exact (congrArg (t.setNode u) hn).trans setNode_self
    rw [he]
    exact ⟨h, .refl⟩
  · obtain ⟨hlt, hr⟩ := hu.resolve_right hid
    exact h.giveBack_of_held (held_eq_some.mpr ⟨hlt, hr, rfl, hid⟩)

/-- The waiting picture gets an ID, if there is a free one. -/
theorem serve (h : t.Ok) : t.serve.Ok ∧ Steps t.pool t.serve.pool := by
  unfold IdTable.serve
  split
  · next hs =>
    obtain ⟨hwait, hcnt⟩ := hs
    obtain ⟨hu, hr, he⟩ := h.settled.waiter hwait
    change (t.nodes t.ids.uNodeWaiting).nonExisting = false at he
    rw [he, if_neg (by simp)]
    have hwaiting : t.pool.waiting = some t.ids.uNodeWaiting := if_pos hwait
    have hfree : t.pool.free = t.ids.top :: arrayStack t.ids.freePicIDs (t.ids.freePicIdCnt - 1) :=
      arrayStack_pop _ hcnt
    have htop : t.ids.top ∈ t.pool.free := hfree ▸ List.mem_cons_self
    have hheld : t.served.held = Function.update t.held t.ids.uNodeWaiting (some t.ids.top) := by
      unfold IdTable.served
      rw [held_setNode]
      exact congrArg _ (if_pos ⟨hu, hr, h.ne_undef_of_free htop⟩)
    have hshape : ∀ i, t.served.shape i = t.shape i := fun _ => shape_setPicID
    have hsteps : Steps t.pool t.served.pool := by
      have hp : t.served.pool = ⟨arrayStack t.ids.freePicIDs (t.ids.freePicIdCnt - 1),
          Function.update t.pool.held t.ids.uNodeWaiting (some t.ids.top), none⟩ :=
        pool_ext rfl hheld rfl
      rw [hp]
      exact .single (.serve hwaiting hfree)
    refine ⟨⟨h.conserved.steps hsteps, fun {i y} hy => ?_, ?_, fun i hi hne => ?_⟩, hsteps⟩
    · rw [hheld] at hy
      exact h.back_take htop hy
    · refine ⟨fun hw => absurd hw (by simp [IdTable.served, IdTable.setNode, IdTable.setIds,
        PicIds.resetWaiting]), fun _ => rfl, fun i hi hir => ?_⟩
      rw [hshape] at hir ⊢
      exact h.settled.self i hi hir
    · rw [hshape] at hne
      have hiu : i ≠ t.ids.uNodeWaiting := by
        rintro rfl
        exact absurd (hne.symm.trans he) (by simp)
      rw [hheld, Function.update_of_ne hiu]
      exact h.inferred i hi hne
  · exact ⟨h, .refl⟩

/-- A picture leaves its node, and with it its ID and its place in the wait. -/
theorem vacate (h : t.Ok) (hu : u < maxDpbSize) (hr : (t.nodes u).bIsReset = false) :
    (t.vacate u).Ok ∧ Steps t.pool (t.vacate u).pool := by
  have hself : (t.nodes u).uNodeID = u := h.settled.self u hu hr
  have hheld : (t.vacate u).held = Function.update t.held u none := by
    unfold IdTable.vacate
    rw [held_setNode]
    simp
    rfl
  set ids := t.ids.release (t.nodes u).uPicID with hids
  have hw : ids.bPicWaiting = t.ids.bPicWaiting ∧ ids.uNodeWaiting = t.ids.uNodeWaiting := by
    rw [hids, PicIds.release]
    split <;> exact ⟨rfl, rfl⟩
  -- the ID goes back first
  have hrelease : Steps t.pool
      ⟨arrayStack ids.freePicIDs ids.freePicIdCnt, Function.update t.held u none, t.pool.waiting⟩ := by
    by_cases hid : (t.nodes u).uPicID = undefID
    · have hnone : t.held u = none := if_neg fun e => e.2.2 hid
      have hsame : Function.update t.held u none = t.held := by
        rw [← hnone, Function.update_eq_self]
      rw [hids, hid, PicIds.release_undef, hsame]
      exact .refl
    · rw [hids, h.free_release hid]
      exact .single (.release (held_eq_some.mpr ⟨hu, hr, rfl, hid⟩))
  have hback : ∀ {i x}, (t.vacate u).held i = some x → ids.picId2NodeId x = i := by
    intro i x hx
    rw [hheld] at hx
    rcases held_of_update hx with ⟨-, e⟩ | ⟨hiu, ho⟩
    · exact absurd e (by simp)
    · refine h.back_release hiu ?_ ho
      by_cases hid : (t.nodes u).uPicID = undefID
      · exact .inr hid
      · exact .inl (held_eq_some.mpr ⟨hu, hr, rfl, hid⟩)
  have hshape : ∀ i, i ≠ u → (t.vacate u).shape i = t.shape i := fun i hi => by
    rw [shape_vacate, if_neg hi]
  have hgone : ((t.vacate u).shape u).1 = true := by
    rw [shape_vacate, if_pos rfl]
  have hselfs : ∀ i < maxDpbSize, ((t.vacate u).shape i).1 = false →
      ((t.vacate u).shape i).2.2 = i := by
    intro i hi hir
    have hiu : i ≠ u := by
      rintro rfl
      exact absurd (hgone.symm.trans hir) (by simp)
    rw [hshape i hiu] at hir ⊢
    exact h.settled.self i hi hir
  have hinferred : ∀ i < maxDpbSize, ((t.vacate u).shape i).2.1 = true →
      (t.vacate u).held i = none := by
    intro i hi he
    rw [hheld, Function.update_apply]
    split
    · rfl
    · next hiu =>
      rw [hshape i hiu] at he
      exact h.inferred i hi he
  by_cases hwu : t.ids.uNodeWaiting = u
  · -- the picture that leaves is the one that waits
    have hwait : t.ids.bPicWaiting = true := by
      by_contra hf
      have hend := h.settled.idle (by simpa using hf)
      simp only [maxDpbSize, maxRef, maxStackSize, recBuf, concealBuf] at hu
      rw [hwu, uEndOfList] at hend
      omega
    have hids' : (t.vacate u).ids = ids.resetWaiting := by
      show (if (t.nodes u).uNodeID = ids.uNodeWaiting then ids.resetWaiting else ids) = _
      rw [if_pos (by rw [hself, hw.2, hwu])]
    have hsteps : Steps t.pool (t.vacate u).pool := by
      have hleave : t.pool.waiting = some u := by
        rw [← hwu]
        exact if_pos hwait
      have hp : (t.vacate u).pool =
          ⟨arrayStack ids.freePicIDs ids.freePicIdCnt, Function.update t.held u none, none⟩ := by
        refine pool_ext ?_ hheld ?_
        · simp only [IdTable.pool, hids']
          rfl
        · simp only [IdTable.pool, hids']
          rfl
      rw [hp]
      exact .tail hrelease (.leave hleave)
    refine ⟨⟨h.conserved.steps hsteps, fun hx => ?_, ⟨fun hf => ?_, fun _ => ?_, hselfs⟩,
      hinferred⟩, hsteps⟩
    · rw [hids']
      exact hback hx
    · rw [hids'] at hf
      exact absurd hf (by simp [PicIds.resetWaiting])
    · rw [hids']
      rfl
  · have hids' : (t.vacate u).ids = ids := by
      show (if (t.nodes u).uNodeID = ids.uNodeWaiting then ids.resetWaiting else ids) = _
      rw [if_neg (by rw [hself, hw.2]; exact fun e => hwu e.symm)]
    have hsteps : Steps t.pool (t.vacate u).pool := by
      have hp : (t.vacate u).pool =
          ⟨arrayStack ids.freePicIDs ids.freePicIdCnt, Function.update t.held u none,
            t.pool.waiting⟩ := by
        refine pool_ext ?_ hheld ?_
        · simp only [IdTable.pool, hids']
        · simp only [IdTable.pool, hids', hw]
      rw [hp]
      exact hrelease
    refine ⟨⟨h.conserved.steps hsteps, fun hx => ?_, ⟨fun hf => ?_, fun hf => ?_, hselfs⟩,
      hinferred⟩, hsteps⟩
    · rw [hids']
      exact hback hx
    · rw [hids', hw.1] at hf
      rw [hids', hw.2, hshape _ hwu]
      exact h.settled.waiter hf
    · rw [hids', hw.1] at hf
      rw [hids', hw.2]
      exact h.settled.idle hf

section Insert

variable {e : Bool} {v : ℕ} {ids : PicIds}

theorem held_fill : (t.fill u ids e v).held = Function.update t.held u
    (if u < maxDpbSize ∧ v ≠ undefID then some v else none) := by
  unfold IdTable.fill
  rw [held_setNode]
  simp only [true_and]
  rfl

theorem self_fill (h : t.Ok) (i : ℕ) (hi : i < maxDpbSize)
    (hr : ((t.fill u ids e v).shape i).1 = false) : ((t.fill u ids e v).shape i).2.2 = i := by
  rw [shape_fill] at hr ⊢
  split
  · next hiu => exact hiu.symm
  · next hiu =>
    rw [if_neg hiu] at hr
    exact h.settled.self i hi hr

theorem inferred_fill (h : t.Ok) (he : e = true → v = undefID) (i : ℕ) (hi : i < maxDpbSize)
    (hne : ((t.fill u ids e v).shape i).2.1 = true) : (t.fill u ids e v).held i = none := by
  rw [shape_fill] at hne
  rw [held_fill, Function.update_apply]
  split
  · next hiu =>
    rw [if_pos hiu] at hne
    exact if_neg fun hv => hv.2 (he hne)
  · next hiu =>
    rw [if_neg hiu] at hne
    exact h.inferred i hi hne

theorem held_fill_none (hr : t.held u = none) : (t.fill u ids e uEndOfList).held = t.held := by
  have hend : ¬ (u < maxDpbSize ∧ uEndOfList ≠ undefID) := fun hk => hk.2 rfl
  rw [held_fill, if_neg hend, ← hr]
  exact Function.update_eq_self ..

end Insert

theorem insert (h : t.Ok) (hu : a.uNode < maxDpbSize) (hr : (t.nodes a.uNode).bIsReset = true)
    (hw : a.nonExisting = false → t.ids.bPicWaiting = false) :
    (t.insert a).Ok ∧ Steps t.pool (t.insert a).pool := by
  have hnone : t.held a.uNode = none := if_neg fun hk => by simp [hr] at hk
  unfold IdTable.insert
  split_ifs with hex hcnt
  · -- an inferred picture holds no ID and does not wait
    have hheld : (t.fill a.uNode t.ids true uEndOfList).held = t.held := held_fill_none hnone
    have hsteps : Steps t.pool (t.fill a.uNode t.ids true uEndOfList).pool := by
      have hp : (t.fill a.uNode t.ids true uEndOfList).pool = t.pool := pool_ext rfl hheld rfl
      rw [hp]
    refine ⟨⟨h.conserved.steps hsteps, fun hx => ?_, ⟨fun hwait => ?_, h.settled.idle,
      h.self_fill⟩, h.inferred_fill fun _ => rfl⟩, hsteps⟩
    · rw [hheld] at hx
      exact h.back hx
    · have hwaiter := h.settled.waiter hwait
      have hiu : t.ids.uNodeWaiting ≠ a.uNode := fun e => by
        have hres : (t.nodes t.ids.uNodeWaiting).bIsReset = false := hwaiter.2.1
        rw [e, hr] at hres
        exact absurd hres (by simp)
      change _ ∧ ((t.fill a.uNode t.ids true uEndOfList).shape t.ids.uNodeWaiting).1 = false ∧
        ((t.fill a.uNode t.ids true uEndOfList).shape t.ids.uNodeWaiting).2.1 = false
      rw [shape_fill, if_neg hiu]
      exact hwaiter
  · -- the ID on top of the stack is taken
    have hidle : t.pool.waiting = none := if_neg (by simp [hw (by simpa using hex)])
    have hfree : t.pool.free = t.ids.top :: arrayStack t.ids.freePicIDs (t.ids.freePicIdCnt - 1) :=
      arrayStack_pop _ hcnt
    have htop : t.ids.top ∈ t.pool.free := hfree ▸ List.mem_cons_self
    have hheld : (t.fill a.uNode (t.ids.take a.uNode a.uFrmID a.uMvID) false t.ids.top).held =
        Function.update t.held a.uNode (some t.ids.top) := by
      rw [held_fill, if_pos ⟨hu, h.ne_undef_of_free htop⟩]
    have hsteps : Steps t.pool
        (t.fill a.uNode (t.ids.take a.uNode a.uFrmID a.uMvID) false t.ids.top).pool := by
      have hp : (t.fill a.uNode (t.ids.take a.uNode a.uFrmID a.uMvID) false t.ids.top).pool =
          ⟨arrayStack t.ids.freePicIDs (t.ids.freePicIdCnt - 1),
            Function.update t.pool.held a.uNode (some t.ids.top), none⟩ :=
        pool_ext rfl hheld hidle
      rw [hp]
      exact .single (.take hidle hfree hnone)
    have hfalse : t.ids.bPicWaiting = false := hw (by simpa using hex)
    refine ⟨⟨h.conserved.steps hsteps, fun hx => ?_, ⟨fun hwait => ?_, h.settled.idle,
      h.self_fill⟩, h.inferred_fill (by simp)⟩, hsteps⟩
    · rw [hheld] at hx
      exact h.back_take htop hx
    · exact absurd (hwait.symm.trans hfalse) (by simp)
  · -- the stack is empty: the picture starts to wait
    have hidle : t.pool.waiting = none := if_neg (by simp [hw (by simpa using hex)])
    have hcnt : t.ids.freePicIdCnt = 0 := not_not.mp hcnt
    have hfree : t.pool.free = [] := by
      unfold IdTable.pool
      rw [hcnt]
      rfl
    set ids : PicIds := { t.ids with
      bPicWaiting := true
      uNodeWaiting := a.uNode
      uFrmWaiting := a.uFrmID
      uMvWaiting := a.uMvID }
    have hheld : (t.fill a.uNode ids false uEndOfList).held = t.held := held_fill_none hnone
    have hsteps : Steps t.pool (t.fill a.uNode ids false uEndOfList).pool := by
      have hp : (t.fill a.uNode ids false uEndOfList).pool = ⟨[], t.pool.held, some a.uNode⟩ :=
        pool_ext hfree hheld rfl
      rw [hp]
      exact .single (.wait hidle hfree hnone)
    refine ⟨⟨h.conserved.steps hsteps, fun hx => ?_, ⟨fun _ => ?_, fun hf => ?_,
      h.self_fill⟩, h.inferred_fill (by simp)⟩, hsteps⟩
    · rw [hheld] at hx
      exact h.back hx
    · show a.uNode < maxDpbSize ∧ ((t.fill a.uNode ids false uEndOfList).shape a.uNode).1 = false ∧
        ((t.fill a.uNode ids false uEndOfList).shape a.uNode).2.1 = false
      rw [shape_fill, if_pos rfl]
      exact ⟨hu, rfl, rfl⟩
    · exact absurd hf (by simp [IdTable.fill, IdTable.setNode, IdTable.setIds, ids])

end IdTable.Ok

/-! ## The table after each edit -/

section Edits

variable {d d' : Dpb} {u : ℕ}

theorem Dpb.idTable_eq {t : IdTable} (hi : d.ids = t.ids)
    (hn : ∀ i, (d.nodes i).ident = t.nodes i) : d.idTable = t := by
  obtain ⟨ids, nodes⟩ := t
  have hn : (fun i => (d.nodes i).ident) = nodes := funext hn
  unfold Dpb.idTable
  rw [hn, hi]

theorem Dpb.idTable_of_core (h : d'.core = d.core) : d'.idTable = d.idTable :=
  (congrArg Dpb.idTable h : d'.core.idTable = d.core.idTable)

theorem Dpb.idTable_of_unlinked (h : d'.unlinked = d.unlinked) : d'.idTable = d.idTable :=
  (congrArg Dpb.idTable h : d'.unlinked.idTable = d.unlinked.idTable)

theorem Dpb.idTable_modNode {f : Node → Node} {n : NodeIdent}
    (hf : (f (d.nodes u)).ident = n) : (d.modNode u f).idTable = d.idTable.setNode u n := by
  refine Dpb.idTable_eq rfl fun i => ?_
  rw [Dpb.nodes_modNode, IdTable.nodes_setNode]
  split
  · exact hf
  · rfl

theorem Dpb.idTable_modNode_same {f : Node → Node} (hf : ∀ n, (f n).ident = n.ident) :
    (d.modNode u f).idTable = d.idTable :=
  (Dpb.idTable_modNode (hf _)).trans IdTable.setNode_self

theorem Dpb.idTable_displayNode : (d.displayNode u).idTable = d.idTable := by
  refine Dpb.idTable_eq ?_ fun i => ?_
  · unfold Dpb.displayNode
    split_ifs <;> rfl
  · rw [Dpb.nodes_displayNode]
    split
    · next h => rw [h.1]; rfl
    · rfl

theorem Dpb.idTable_giveBackPicID : (d.giveBackPicID u).idTable = d.idTable.giveBack u :=
  Dpb.idTable_modNode (d := d.releasePicID _) rfl

theorem Dpb.idTable_serveWaitingPicture : d.serveWaitingPicture.idTable = d.idTable.serve := by
  have hset : ∀ v ids, ((d.modNode d.ids.uNodeWaiting (Node.setPicID v)).setIds ids).idTable =
      (d.idTable.setIds ids).setNode d.ids.uNodeWaiting
        { d.idTable.nodes d.ids.uNodeWaiting with uPicID := v } := fun v ids =>
    congrArg (fun t => IdTable.setIds t ids) (Dpb.idTable_modNode rfl)
  unfold Dpb.serveWaitingPicture Dpb.fillWaitingPicture IdTable.serve
  by_cases hs : d.ids.bPicWaiting ∧ d.ids.freePicIdCnt ≠ 0
  · rw [if_pos hs]
    refine Eq.trans ?_ (if_pos hs).symm
    by_cases he : (d.nodes d.ids.uNodeWaiting).nonExisting
    · refine Eq.trans ?_ (if_pos he).symm
      exact (congrArg Dpb.idTable (if_pos he)).trans (hset _ _)
    · refine Eq.trans ?_ (if_neg he).symm
      exact (congrArg Dpb.idTable (if_neg he)).trans (hset _ _)
  · rw [if_neg hs]
    exact (if_neg hs).symm

theorem Dpb.idTable_remove (hu : u ≠ uEndOfList) :
    (d.remove u).idTable = (d.idTable.vacate u).serve := by
  have hl := d.unlinkNode_unlinked u
  have hids : (d.unlinkNode u).ids = d.ids := congrArg (fun d => d.ids) hl
  have hident : ∀ i, ((d.unlinkNode u).nodes i).ident = (d.nodes i).ident := fun i =>
    congrArg (fun t => t.nodes i) (Dpb.idTable_of_unlinked hl)
  have hid : ((d.unlinkNode u).nodes u).uNodeID = (d.nodes u).uNodeID :=
    congrArg NodeIdent.uNodeID (hident u)
  have hv : (d.vacate u).idTable = d.idTable.vacate u := by
    have hvi : (d.vacate u).ids =
        if ((d.unlinkNode u).nodes u).uNodeID =
            ((d.unlinkNode u).ids.release (d.nodes u).uPicID).uNodeWaiting then
          ((d.unlinkNode u).ids.release (d.nodes u).uPicID).resetWaiting
        else (d.unlinkNode u).ids.release (d.nodes u).uPicID := by
      by_cases hm : (d.nodes u).eMarkingFlag ≠ .unusedForRef
      · simp only [Dpb.vacate, if_pos hm]
        rfl
      · simp only [Dpb.vacate, if_neg hm]
        rfl
    refine Dpb.idTable_eq ?_ fun i => ?_
    · rw [hvi, hids, hid]
      rfl
    · rw [Dpb.nodes_vacate]
      unfold IdTable.vacate
      rw [IdTable.nodes_setNode]
      split
      · exact congrArg (fun n => (⟨true, false, uEndOfList, n.uPicID⟩ : NodeIdent)) (hident u)
      · exact hident i
  rw [Dpb.remove_eq hu, ← hv, ← Dpb.idTable_serveWaitingPicture]
  split <;> rfl

theorem Dpb.idTable_clearAll (l : List ℕ) : (d.clearAll l).idTable = d.idTable := by
  suffices h : (l.foldl (fun d i => d.modNode i Node.clearOutput) d).idTable = d.idTable from h
  induction l generalizing d with
  | nil => rfl
  | cons i l ih => exact ih.trans (Dpb.idTable_modNode_same fun _ => rfl)

theorem Dpb.idTable_of_insert {a : InsertArgs}
    (h : d'.unlinked = (d.fillNode a).unlinked.countInserted a) :
    d'.idTable = d.idTable.insert a := by
  have hc : ((d.fillNode a).unlinked.countInserted a).idTable = (d.fillNode a).idTable := by
    unfold Dpb.countInserted
    split_ifs <;> rfl
  have hids : (d.fillNode a).ids = (d.assignPicID a).1 := by
    unfold Dpb.fillNode
    split_ifs <;> rfl
  have hd : d'.idTable = (d.fillNode a).idTable :=
    (congrArg Dpb.idTable h : d'.unlinked.idTable = _).trans hc
  rw [hd]
  have hfill : (d.fillNode a).idTable =
      d.idTable.fill a.uNode (d.assignPicID a).1 a.nonExisting (d.assignPicID a).2 := by
    refine Dpb.idTable_eq hids fun i => ?_
    rw [Dpb.nodes_fillNode]
    unfold IdTable.fill
    rw [IdTable.nodes_setNode]
    split <;> rfl
  rw [hfill]
  unfold Dpb.assignPicID IdTable.insert
  by_cases he : a.nonExisting = true
  · simp only [he, if_true]
    rfl
  · have he' : a.nonExisting = false := by simpa using he
    by_cases hcnt : d.ids.freePicIdCnt ≠ 0
    · simp only [he', Bool.false_eq_true, if_false, if_pos hcnt]
      exact (if_pos hcnt).symm
    · simp only [he', Bool.false_eq_true, if_false, if_neg hcnt]
      exact (if_neg hcnt).symm

/-- Every edit is a number of steps of the pool, unless it gives back a stale
ID or inserts a picture while another one waits. -/
theorem IdTable.Ok.edit {ok : Risk → Prop} (hs : ¬ ok .slideStaleID)
    (hw : ¬ ok .insertWhileWaiting) {c c' : LinkedDpb} (h : c.dpb.idTable.Ok)
    (he : Edit ok c c') : c'.dpb.idTable.Ok ∧ Steps c.dpb.idTable.pool c'.dpb.idTable.pool := by
  have hsame : ∀ t : IdTable, c'.dpb.idTable = t → t.Ok ∧ Steps c.dpb.idTable.pool t.pool →
      c'.dpb.idTable.Ok ∧ Steps c.dpb.idTable.pool c'.dpb.idTable.pool := fun t ht hk => ht ▸ hk
  have hid : c'.dpb.idTable = c.dpb.idTable →
      c'.dpb.idTable.Ok ∧ Steps c.dpb.idTable.pool c'.dpb.idTable.pool := fun ht =>
    hsame _ ht ⟨h, .refl⟩
  cases he with
  | quiet hd _ => exact hid (Dpb.idTable_of_core hd)
  | @setNodeID u hu hd _ =>
    have hself : (c.dpb.idTable.nodes u).uNodeID = u := h.settled.self u hu.1 hu.2
    have hn : (Node.setNodeID u (c.dpb.nodes u)).ident = c.dpb.idTable.nodes u :=
      congrArg (fun v => (⟨(c.dpb.nodes u).bIsReset, (c.dpb.nodes u).nonExisting, v,
        (c.dpb.nodes u).uPicID⟩ : NodeIdent)) hself.symm
    rw [hd] at hid ⊢
    exact hid ((Dpb.idTable_modNode hn).trans IdTable.setNode_self)
  | @remove u hu _ hd _ =>
    have hne : u ≠ uEndOfList := Threaded.ne_nil (c.linked.spells .poc) (c.mem_order.mpr hu)
    obtain ⟨h1, hs1⟩ := h.vacate hu.1 hu.2
    obtain ⟨h2, hs2⟩ := h1.serve
    exact hsame _ (hd ▸ Dpb.idTable_remove hne) ⟨h2, hs1.trans hs2⟩
  | displayNode _ hd _ => exact hid (hd ▸ Dpb.idTable_displayNode)
  | @dropRef u _ hd _ =>
    have hk : (c.dpb.modNode u (Node.setMarking .unusedForRef)).idTable = c.dpb.idTable :=
      Dpb.idTable_modNode_same fun _ => rfl
    exact hid (hd ▸ hk)
  | @giveBackPicID u hu hd _ =>
    refine hsame _ (hd ▸ Dpb.idTable_giveBackPicID) (h.giveBack ?_)
    rcases hu with hin | hun | hrisk
    · exact .inl hin
    · exact .inr hun
    · exact absurd hrisk hs
  | remark _ hf _ hd _ =>
    rw [hd] at hid ⊢
    exact hid ((Dpb.idTable_of_core (Dpb.core_modNode_congr hf)).trans
      (Dpb.idTable_modNode_same fun _ => rfl))
  | move _ _ _ hd _ => exact hid (hd ▸ Dpb.idTable_of_unlinked (Dpb.moveInFrontOf_unlinked _ _ _))
  | restart _ hd _ => exact hid (hd ▸ Dpb.idTable_modNode_same fun _ => rfl)
  | @insert a hv hr hwait _ hd _ _ =>
    refine hsame _ (Dpb.idTable_of_insert hd) (h.insert hv.node hr fun hex => ?_)
    exact Bool.eq_false_iff.mpr fun hb => hw (hwait hex hb)
  | releaseOneBuf _ hd _ => exact hid (hd ▸ rfl)
  | serve hd _ => exact hsame _ (hd ▸ Dpb.idTable_serveWaitingPicture) h.serve
  | clearAll hd _ => exact hid (hd ▸ Dpb.idTable_clearAll _)
  | setMarkingFlag _ hd _ => exact hid (hd ▸ Dpb.idTable_modNode_same fun _ => rfl)

/-- Each picture of the buffer knows its node. -/
def LinkedDpb.OwnIDs (c : LinkedDpb) : Prop := ∀ i, c.dpb.InDpb i → (c.dpb.nodes i).uNodeID = i

theorem LinkedDpb.OwnIDs.edit {ok : Risk → Prop} {c c' : LinkedDpb} (h : c.OwnIDs) (he : Edit ok c c') :
    c'.OwnIDs := by
  have hshape : ∀ t : IdTable, c'.dpb.idTable = t → (∀ i, (t.shape i).1 = false →
      (t.shape i).2.2 = i ∨ t.shape i = c.dpb.idTable.shape i) → c'.OwnIDs := by
    rintro t rfl hs i hi
    rcases hs i hi.2 with hid | hsame
    · exact hid
    · have hreset : (c'.dpb.nodes i).bIsReset = (c.dpb.nodes i).bIsReset := congrArg (·.1) hsame
      exact (congrArg (·.2.2) hsame).trans (h i ⟨hi.1, hreset.symm.trans hi.2⟩)
  have hid : c'.dpb.idTable = c.dpb.idTable → c'.OwnIDs := fun ht => hshape _ ht fun i _ => .inr rfl
  cases he with
  | quiet hd _ => exact hid (Dpb.idTable_of_core hd)
  | @setNodeID u hu hd _ =>
    have hn : (Node.setNodeID u (c.dpb.nodes u)).ident = c.dpb.idTable.nodes u :=
      congrArg (fun v => (⟨(c.dpb.nodes u).bIsReset, (c.dpb.nodes u).nonExisting, v,
        (c.dpb.nodes u).uPicID⟩ : NodeIdent)) (h u hu).symm
    rw [hd] at hid
    exact hid ((Dpb.idTable_modNode hn).trans IdTable.setNode_self)
  | @remove u hu _ hd _ =>
    have hne : u ≠ uEndOfList := Threaded.ne_nil (c.linked.spells .poc) (c.mem_order.mpr hu)
    refine hshape _ (hd ▸ Dpb.idTable_remove hne) fun i hi => ?_
    rw [IdTable.shape_serve, IdTable.shape_vacate] at hi ⊢
    split at hi
    · exact absurd hi (by simp)
    · next hiu => exact .inr (if_neg hiu)
  | displayNode _ hd _ => exact hid (hd ▸ Dpb.idTable_displayNode)
  | @dropRef u _ hd _ =>
    have hk : (c.dpb.modNode u (Node.setMarking .unusedForRef)).idTable = c.dpb.idTable :=
      Dpb.idTable_modNode_same fun _ => rfl
    exact hid (hd ▸ hk)
  | giveBackPicID _ hd _ =>
    exact hshape _ (hd ▸ Dpb.idTable_giveBackPicID) fun i _ => .inr IdTable.shape_setPicID
  | remark _ hf _ hd _ =>
    rw [hd] at hid
    exact hid ((Dpb.idTable_of_core (Dpb.core_modNode_congr hf)).trans
      (Dpb.idTable_modNode_same fun _ => rfl))
  | move _ _ _ hd _ => exact hid (hd ▸ Dpb.idTable_of_unlinked (Dpb.moveInFrontOf_unlinked _ _ _))
  | restart _ hd _ => exact hid (hd ▸ Dpb.idTable_modNode_same fun _ => rfl)
  | insert _ _ _ _ hd _ _ =>
    refine hshape _ (Dpb.idTable_of_insert hd) fun i _ => ?_
    have hfill : ∀ {ids : PicIds} {e : Bool} {u v : ℕ}, ((c.dpb.idTable.fill u ids e v).shape i).2.2 = i ∨
        (c.dpb.idTable.fill u ids e v).shape i = c.dpb.idTable.shape i := by
      intro ids e u v
      rw [IdTable.shape_fill]
      split
      · next hiu => exact .inl hiu.symm
      · exact .inr rfl
    unfold IdTable.insert
    split_ifs <;> exact hfill
  | releaseOneBuf _ hd _ => exact hid (hd ▸ rfl)
  | serve hd _ =>
    exact hshape _ (hd ▸ Dpb.idTable_serveWaitingPicture) fun i _ => .inr IdTable.shape_serve
  | clearAll hd _ => exact hid (hd ▸ Dpb.idTable_clearAll _)
  | setMarkingFlag _ hd _ => exact hid (hd ▸ Dpb.idTable_modNode_same fun _ => rfl)

end Edits

/-! ## Runs -/

/-- The IDs on the free stack and the IDs of the pictures of the buffer are
distinct and make up the pool, and each ID in use leads back to its node. -/
structure Dpb.PicIdsOk (d : Dpb) : Prop where
  conserved : Conserved (List.range picIdPoolSize) d.idTable.pool
  back : ∀ {i x}, d.idTable.held i = some x → d.ids.picId2NodeId x = i
  count : d.ids.freePicIdCnt ≤ picIdPoolSize

theorem IdTable.Ok.init (m : Dpb) (uNumRef : ℕ) (eMode : DpbMode) :
    (m.init uNumRef eMode).idTable.Ok := by
  have hids := m.ids_init uNumRef eMode
  have hreset : ∀ i < maxDpbSize, ((m.init uNumRef eMode).idTable.nodes i).bIsReset = true := by
    intro i hi
    change ((m.init uNumRef eMode).nodes i).bIsReset = true
    rw [Dpb.nodes_init, if_pos hi]
    rfl
  have hheld : ∀ i, (m.init uNumRef eMode).idTable.held i = none := fun i =>
    if_neg fun hk => by simp [hreset i hk.1] at hk
  have hfree : (m.init uNumRef eMode).idTable.pool.free = arrayStack id picIdPoolSize := by
    change arrayStack (m.init uNumRef eMode).ids.freePicIDs (m.init uNumRef eMode).ids.freePicIdCnt = _
    rw [hids]
    exact arrayStack_congr fun k hk => if_pos hk
  have hwait : (m.init uNumRef eMode).idTable.ids.bPicWaiting = false :=
    congrArg PicIds.bPicWaiting hids
  refine ⟨⟨?_, fun hx => ?_, fun hx => ?_, fun x => ?_, fun _ => hheld _⟩, fun hx => ?_,
    ⟨fun hw => ?_, fun _ => congrArg PicIds.uNodeWaiting hids, fun i hi hr => ?_⟩,
    fun i _ _ => hheld i⟩
  · rw [hfree]
    decide
  · exact absurd ((hheld _).symm.trans hx) (by simp)
  · exact absurd ((hheld _).symm.trans hx) (by simp)
  · rw [hfree]
    have hno : ¬ ∃ v, (m.init uNumRef eMode).idTable.pool.held v = some x := by
      rintro ⟨v, hv⟩
      exact absurd ((hheld v).symm.trans hv) (by simp)
    have hstack : (arrayStack id picIdPoolSize).Perm (List.range picIdPoolSize) := by decide
    simp only [hno, or_false]
    exact hstack.mem_iff.symm
  · exact absurd ((hheld _).symm.trans hx) (by simp)
  · exact absurd (hwait.symm.trans hw) (by simp)
  · exact absurd ((hreset i hi).symm.trans hr) (by simp)

/-- `AL_Dpb_Remove` and `AL_Dpb_AVC_Cleanup` end with the service of the picture
that waits. -/
theorem Dpb.serveWaitingPicture_served (d : Dpb) :
    d.serveWaitingPicture.ids.bPicWaiting = false ∨ d.serveWaitingPicture.ids.freePicIdCnt = 0 := by
  unfold Dpb.serveWaitingPicture
  by_cases hs : d.ids.bPicWaiting ∧ d.ids.freePicIdCnt ≠ 0
  · rw [if_pos hs]
    simp only [Dpb.fillWaitingPicture]
    split_ifs <;> exact .inl rfl
  · rw [if_neg hs]
    by_cases hb : d.ids.bPicWaiting = true
    · exact .inr (not_not.mp fun h0 => hs ⟨hb, h0⟩)
    · exact .inl (by simpa using hb)

theorem Dpb.ids_remove_served {d : Dpb} {u : ℕ} (hu : u ≠ uEndOfList) :
    (d.remove u).ids.bPicWaiting = false ∨ (d.remove u).ids.freePicIdCnt = 0 := by
  rw [Dpb.remove_eq hu]
  split <;> exact Dpb.serveWaitingPicture_served _

/-- After the removal of a picture or a clean-up no picture waits while an ID is
free. -/
def Dpb.ServesWhenFree (d : Dpb) : Prop :=
  ∀ op d', (∃ u, u ≠ uEndOfList ∧ op = .remove u) ∨ op = .avcCleanup → d.step op = some d' →
    d'.idTable.pool.waiting = none ∨ d'.idTable.pool.free = []

theorem Dpb.servesWhenFree (d : Dpb) : d.ServesWhenFree := by
  intro op d' hop hd'
  have hserved : d'.ids.bPicWaiting = false ∨ d'.ids.freePicIdCnt = 0 := by
    rcases hop with ⟨u, hu, rfl⟩ | rfl
    · rw [← Option.some.inj hd']
      exact Dpb.ids_remove_served hu
    · obtain ⟨e, -, he⟩ := Option.bind_eq_some_iff.mp hd'
      obtain ⟨e', -, he'⟩ := Option.bind_eq_some_iff.mp he
      rw [← Option.some.inj he']
      exact e'.serveWaitingPicture_served
  refine hserved.imp (fun hf => ?_) fun h0 => ?_
  · exact if_neg (by simp [Dpb.idTable, hf])
  · show arrayStack d'.ids.freePicIDs d'.ids.freePicIdCnt = []
    rw [h0]
    rfl

/-- In a run from `AL_Dpb_Init` that gives back no stale ID and inserts no picture
while another one waits, the IDs are conserved, and a picture that waits is
the first one to get an ID from then on: at the latest when a picture is
removed or the buffer cleaned up while an ID is free. -/
theorem Dpb.picIdsOk_of_run (m : Dpb) (uNumRef : ℕ) (eMode : DpbMode) (ops ops' : List Op)
    (d d' : Dpb)
    (ha : (m.init uNumRef eMode).RunAllowed [.slideStaleID, .insertWhileWaiting] (ops ++ ops'))
    (hr : (m.init uNumRef eMode).run ops = some d) (hr' : d.run ops' = some d') :
    d.PicIdsOk ∧
      (∀ u, d.idTable.pool.waiting = some u → ServedFirst u d.idTable.pool d'.idTable.pool) ∧
      d.ServesWhenFree := by
  have hbad : ∀ c c' : LinkedDpb, c.dpb.idTable.Ok →
      Edit (· ∉ [Risk.slideStaleID, .insertWhileWaiting]) c c' → c'.dpb.idTable.Ok ∧
        Steps c.dpb.idTable.pool c'.dpb.idTable.pool := fun c c' h he =>
    h.edit (by simp) (by simp) he
  obtain ⟨c, rfl, hc⟩ := Dpb.run_keeps (J := fun c => c.dpb.idTable.Ok)
    (c := LinkedDpb.init m uNumRef eMode) (fun c c' h he => (hbad c c' h he).1)
    (IdTable.Ok.init m uNumRef eMode) ha.of_append hr
  obtain ⟨c', rfl, -, hsteps⟩ := Dpb.run_keeps
    (J := fun c' => c'.dpb.idTable.Ok ∧ Steps c.dpb.idTable.pool c'.dpb.idTable.pool)
    (fun c₁ c₂ h he => ⟨(hbad c₁ c₂ h.1 he).1, h.2.trans (hbad c₁ c₂ h.1 he).2⟩)
    ⟨hc, .refl⟩ (ha.append_right hr) hr'
  exact ⟨⟨hc.conserved, hc.back, hc.freePicIdCnt_le⟩, fun u hu => hsteps.servedFirst hu,
    c.dpb.servesWhenFree⟩

theorem Dpb.ownIDs_of_run {m d : Dpb} {uNumRef : ℕ} {eMode : DpbMode} {ops : List Op}
    (ha : (m.init uNumRef eMode).RunAllowed [] ops) (hr : (m.init uNumRef eMode).run ops = some d) :
    ∃ c : LinkedDpb, c.dpb = d ∧ c.OwnIDs := by
  refine Dpb.run_keeps (J := LinkedDpb.OwnIDs) (c := LinkedDpb.init m uNumRef eMode)
    (fun c c' h he => h.edit he) (fun i hi => ?_) ha hr
  exact absurd (((LinkedDpb.init m uNumRef eMode).linked.mem i).mpr hi) (by simp [LinkedDpb.init])

/-- A wait that ends with the removal of another picture, in a buffer that holds
all IDs. -/
def Op.fullPool : List Op :=
  (List.range 17).map fun i => .insert (.sample i (2 * i) .shortTermRef)

theorem Dpb.picIdsOk_fullPool : ∃ d d' : Dpb, d.PicIdsOk ∧
    (∀ u, d.idTable.pool.waiting = some u → ServedFirst u d.idTable.pool d'.idTable.pool) ∧
      d.ServesWhenFree := by
  have ha : (Dpb.zeroed.init 4 .normal).RunAllowed [.slideStaleID, .insertWhileWaiting]
      (Op.fullPool ++ [.remove 3]) := by decide +kernel
  have hsome : ((Dpb.zeroed.init 4 .normal).run (Op.fullPool ++ [.remove 3])).isSome = true := by
    decide +kernel
  obtain ⟨d', hd'⟩ := Option.isSome_iff_exists.mp hsome
  obtain ⟨d, hr, hr'⟩ := Option.bind_eq_some_iff.mp (GuardedRuns.run_append.symm.trans hd')
  exact ⟨d, d', Dpb.picIdsOk_of_run .zeroed 4 .normal _ _ d d' ha hr hr'⟩

/-- Two sequences; in the second one two pictures make themselves long-term
pictures in a window of one. -/
def Op.staleNode : List Op :=
  [.insert (.sample 0 0 .shortTermRef), .markingProcess (.sample 1 avcNutVclIdr 0), .flush,
    .insert (.sample 1 0 .shortTermRef), .markingProcess (.sample 1 avcNutVclIdr 0),
    .insert (.sample 2 2 .shortTermRef),
    .markingProcess ((AvcSliceHdr.sample 1 1 1).withMmco [1, 6, 0] [0] [0]),
    .insert (.sample 3 4 .shortTermRef),
    .markingProcess ((AvcSliceHdr.sample 1 1 2).withMmco [6, 0] [] [1])]

/-- The sliding window falls back on node 0, which is empty, and releases the ID
it had: ID 15 is free and belongs to the picture in node 3. -/
theorem Dpb.not_picIdsOk_staleNode : (Dpb.zeroed.init 4 .normal).RunAllowed [] Op.staleNode ∧
    ∃ d, (Dpb.zeroed.init 4 .normal).run Op.staleNode = some d ∧ ¬ d.PicIdsOk := by
  refine ⟨by decide +kernel, ?_⟩
  have hrun : ((Dpb.zeroed.init 4 .normal).run Op.staleNode).map
      (fun d => (d.idTable.held 3, decide (15 ∈ d.idTable.pool.free))) = some (some 15, true) := by
    decide +kernel
  obtain ⟨d, hr, hd⟩ := Option.map_eq_some_iff.mp hrun
  simp only [Prod.mk.injEq, decide_eq_true_eq] at hd
  exact ⟨d, hr, fun h => h.conserved.disjoint hd.1 hd.2⟩

end VcuCodec
