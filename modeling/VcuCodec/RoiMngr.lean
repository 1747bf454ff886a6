import Mathlib.Data.List.Perm.Subperm
import Mathlib.Data.List.TakeWhile
import VcuCodec.CheckedWalks
import VcuCodec.MachineInts

/-!
# The regions of interest of a frame

`exe_encoder/ROIMngr.cpp` keeps the regions of a frame in a linked list, in the order
they come in or by their quality; in the latter case the better region stands behind,
and of two regions with the same quality the older one.  An intra region has no
quality and goes to the end.
-/

namespace VcuCodec

open LinkedLists

/-! ## The code -/

inductive RoiOrder
  | incoming
  | quality
  deriving DecidableEq

/-- What `AL_TRoiNode` says about a region, in LCUs. -/
structure Roi where
  iPosX : ℤ
  iPosY : ℤ
  iWidth : ℤ
  iHeight : ℤ
  iDeltaQP : BitVec 8

/-- `AL_TRoiNode`; nodes are named in the order of their allocation. -/
structure RoiNode extends Roi where
  pPrev : Option ℕ
  pNext : Option ℕ

/-- `AL_TRoiMngrCtx` and the nodes that were allocated for it. -/
structure RoiMngr where
  iMinQP : ℤ
  iMaxQP : ℤ
  iPicWidth : ℤ
  iPicHeight : ℤ
  iLcuWidth : ℤ
  iLcuHeight : ℤ
  iNumLCUs : ℤ
  uLcuSize : ℕ
  /-- an `AL_ERoiQuality`, which can be any number -/
  eBkgQuality : ℤ
  eOrder : RoiOrder
  pFirstNode : Option ℕ
  pLastNode : Option ℕ
  nodes : List RoiNode

namespace RoiMngr

def maskQP : BitVec 8 := 0x3F
def maskForceIntra : BitVec 8 := 0x40
def maskForceMv0 : BitVec 8 := 0x80
def maskForce : BitVec 8 := 0xC0

/-- `AL_ROI_QUALITY_INTRA`. -/
def roiQualityIntra : ℤ := 0x40

/-- `RoundUp` to a power of two. -/
def roundUp (iVal iRnd : ℤ) : ℤ :=
  let sum := toInt32 (iVal + iRnd - 1)
  sum - sum % iRnd

def clip3 (iVal iMin iMax : ℤ) : ℤ := if iVal < iMin then iMin else if iMax < iVal then iMax else iVal

def extendSign (value : BitVec 32) (numBits : ℕ) : BitVec 32 :=
  let value := value &&& (0xFFFFFFFF >>> (32 - numBits))
  if 1 <<< (numBits - 1) ≤ value then value - 1 <<< numBits else value

/-- `ToInt`. -/
def qualityToInt (eQuality : ℤ) : BitVec 8 := (extendSign (BitVec.ofInt 32 eQuality) 6).setWidth 8

def getNewDeltaQP (eQuality : ℤ) : BitVec 8 :=
  if eQuality = roiQualityIntra then maskForceIntra else qualityToInt eQuality &&& maskQP

def getDQp (iDeltaQP : BitVec 8) : ℤ := (((iDeltaQP &&& maskQP) <<< 2).sshiftRight 2).toInt

def isIntra (iDeltaQP : BitVec 8) : Bool := iDeltaQP &&& maskForceIntra ≠ 0

def shouldInsertAfter (iCurrentQP iQPToInsert : BitVec 8) : Bool :=
  isIntra iQPToInsert || getDQp iQPToInsert < getDQp iCurrentQP

def modify (c : RoiMngr) (i : ℕ) (f : RoiNode → RoiNode) : Option RoiMngr :=
  if i < c.nodes.length then some { c with nodes := c.nodes.modify i f } else none

def pushBack (c : RoiMngr) (pNode : ℕ) : Option RoiMngr :=
  match c.pFirstNode with
  | some _ => do
    let last ← c.pLastNode
    let c ← c.modify pNode fun n => { n with pPrev := some last, pNext := none }
    let c ← c.modify last fun n => { n with pNext := some pNode }
    return { c with pLastNode := some pNode }
  | none => do
    let c ← c.modify pNode fun n => { n with pPrev := none, pNext := none }
    return { c with pFirstNode := some pNode, pLastNode := some pNode }

/-- The loop of `Insert`. -/
def seek (c : RoiMngr) (iDeltaQP : BitVec 8) : (fuel : ℕ) → (pCur : Option ℕ) → Option (Option ℕ)
  | 0, _ => none
  | _ + 1, none => some none
  | fuel + 1, some pCur => do
    let cur ← c.nodes[pCur]?
    if shouldInsertAfter cur.iDeltaQP iDeltaQP then c.seek iDeltaQP fuel cur.pNext
    else return some pCur

def insert (c : RoiMngr) (pNode : ℕ) : Option RoiMngr := do
  let node ← c.nodes[pNode]?
  match ← c.seek node.iDeltaQP (c.nodes.length + 1) c.pFirstNode with
  | some pCur =>
    let cur ← c.nodes[pCur]?
    let c' ← c.modify pNode fun n => { n with pPrev := cur.pPrev, pNext := some pCur }
    let c' ← c'.modify pCur fun n => { n with pPrev := some pNode }
    return { c' with pFirstNode := if c.pFirstNode = some pCur then some pNode else c.pFirstNode }
  | none => c.pushBack pNode

def create (iPicWidth iPicHeight : ℤ) (isAvc isHevc : Bool) (eBkgQuality : ℤ) (eOrder : RoiOrder) :
    RoiMngr :=
  let uLcuSize := if isAvc then 4 else if isHevc then 5 else 6
  let iLcuWidth := roundUp iPicWidth (2 ^ uLcuSize) / 2 ^ uLcuSize
  let iLcuHeight := roundUp iPicHeight (2 ^ uLcuSize) / 2 ^ uLcuSize
  { iMinQP := if isAvc || isHevc then -32 else -128
    iMaxQP := if isAvc || isHevc then 31 else 127
    iPicWidth, iPicHeight, iLcuWidth, iLcuHeight
    iNumLCUs := toInt32 (iLcuWidth * iLcuHeight)
    uLcuSize, eBkgQuality, eOrder
    pFirstNode := none
    pLastNode := none
    nodes := [] }

/-- The arguments of `AL_RoiMngr_AddROI`, and what its `Rtos_Malloc` gives. -/
structure Addition where
  iPosX : ℤ
  iPosY : ℤ
  iWidth : ℤ
  iHeight : ℤ
  eQuality : ℤ
  malloc : Bool

/-- The region in LCUs, clipped to the picture. -/
def region (c : RoiMngr) (a : Addition) : Roi :=
  let iPosX := a.iPosX / 2 ^ c.uLcuSize
  let iPosY := a.iPosY / 2 ^ c.uLcuSize
  let iWidth := roundUp a.iWidth (2 ^ c.uLcuSize) / 2 ^ c.uLcuSize
  let iHeight := roundUp a.iHeight (2 ^ c.uLcuSize) / 2 ^ c.uLcuSize
  { iPosX, iPosY
    iWidth := if c.iLcuWidth < iPosX + iWidth then c.iLcuWidth - iPosX else iWidth
    iHeight := if c.iLcuHeight < iPosY + iHeight then c.iLcuHeight - iPosY else iHeight
    iDeltaQP := getNewDeltaQP a.eQuality }

/-- The region is in the picture and there is memory for it. -/
def Accepts (c : RoiMngr) (a : Addition) : Prop :=
  a.iPosX < c.iPicWidth ∧ a.iPosY < c.iPicHeight ∧ a.malloc = true
deriving Decidable

/-- `AL_RoiMngr_AddROI`; its result is `Accepts`. -/
def addROI (c : RoiMngr) (a : Addition) : Option RoiMngr :=
  if c.Accepts a then
    let pNode := c.nodes.length
    let node : RoiNode := ⟨c.region a, none, none⟩
    let c := { c with nodes := c.nodes ++ [node] }
    match c.eOrder with
    | .quality => c.insert pNode
    | .incoming => c.pushBack pNode
  else some c

def addROIs (c : RoiMngr) (run : List Addition) : Option RoiMngr := run.foldlM addROI c

/-! ## The links -/

/-- The link of a node. -/
def follow (nodes : List RoiNode) (link : RoiNode → Option ℕ) (p : Option ℕ) : Option ℕ :=
  (p.bind fun i => nodes[i]?).bind link

def next (c : RoiMngr) : Option ℕ → Option ℕ := follow c.nodes (·.pNext)

def prev (c : RoiMngr) : Option ℕ → Option ℕ := follow c.nodes (·.pPrev)

/-- The links from the head on spell out `l`, with `prev` for the way back. -/
structure Listed (c : RoiMngr) (prev : Option ℕ → Option ℕ) (l : List ℕ) : Prop where
  threaded : Threaded none c.next prev (l.map some)
  first : c.pFirstNode = l.head?
  last : c.pLastNode = l.getLast?
  valid : ∀ i ∈ l, i < c.nodes.length

/-- The manager without its nodes. -/
def context (c : RoiMngr) : RoiMngr := { c with pFirstNode := none, pLastNode := none, nodes := [] }

/-- Only links differ. -/
structure Relinked (c c' : RoiMngr) : Prop where
  context : c'.context = c.context
  regions : c'.nodes.map RoiNode.toRoi = c.nodes.map RoiNode.toRoi

theorem follow_modify (nodes : List RoiNode) (i : ℕ) (f : RoiNode → RoiNode)
    (link : RoiNode → Option ℕ) (p : Option ℕ) :
    follow (nodes.modify i f) link p =
      if p = some i then (nodes[i]?).bind fun n => link (f n) else follow nodes link p := by
  unfold follow
  cases p with
  | none => simp
  | some j =>
    by_cases hj : i = j
    · simp [hj, Option.bind_map]
    · simp [hj, Ne.symm hj]

theorem follow_modify₂ (nodes : List RoiNode) {i j : ℕ} (hij : i ≠ j) (f g : RoiNode → RoiNode)
    (link : RoiNode → Option ℕ) (p : Option ℕ) :
    follow ((nodes.modify i f).modify j g) link p =
      if p = some j then (nodes[j]?).bind fun n => link (g n)
      else if p = some i then (nodes[i]?).bind fun n => link (f n)
      else follow nodes link p := by
  rw [follow_modify, follow_modify, List.getElem?_modify]
  simp [hij]

theorem modify_regions (nodes : List RoiNode) (i : ℕ) {f : RoiNode → RoiNode}
    (hf : ∀ n, (f n).toRoi = n.toRoi) :
    (nodes.modify i f).map RoiNode.toRoi = nodes.map RoiNode.toRoi := by
  apply List.ext_getElem?
  intro j
  rw [List.getElem?_map, List.getElem?_map, List.getElem?_modify]
  by_cases hj : i = j
  · simp [hj, Function.comp_def, hf]
  · simp [hj]

/-! ## Linking a node in -/

theorem getLastD_some (l : List ℕ) : (l.map some).getLastD none = l.getLast? := by
  cases l using List.reverseRecOn with
  | nil => rfl
  | append_singleton l i => simp

theorem headD_some (l : List ℕ) : (l.map some).headD none = l.head? := by
  cases l with
  | nil => rfl
  | cons i l => rfl

theorem Listed.nodup {c : RoiMngr} {prev : Option ℕ → Option ℕ} {l : List ℕ} (h : c.Listed prev l) :
    l.Nodup :=
  .of_map some h.threaded.nodup

theorem Listed.length_lt {c : RoiMngr} {prev : Option ℕ → Option ℕ} {l : List ℕ}
    (h : c.Listed prev l) : l.length < c.nodes.length + 1 := by
  have hsub : l ⊆ List.range c.nodes.length := fun i hi => List.mem_range.mpr (h.valid i hi)
  have hle := (List.subperm_of_subset h.nodup hsub).length_le
  rw [List.length_range] at hle
  omega

/-- The links of `c'` are those of `c` with `u` between `xs` and `ys`. -/
structure LinksIn (c c' : RoiMngr) (xs : List ℕ) (u : ℕ) (ys : List ℕ) : Prop where
  relinked : Relinked c c'
  first : c'.pFirstNode = (xs ++ u :: ys).head?
  last : c'.pLastNode = (xs ++ u :: ys).getLast?
  next : ∀ i ∈ xs ++ ys, c'.next (some i) = if some i = xs.getLast? then some u else c.next (some i)
  next_self : c'.next (some u) = ys.head?
  prev : ∀ i ∈ xs ++ ys, c'.prev (some i) = if some i = ys.head? then some u else c.prev (some i)
  prev_self : c.Listed c.prev (xs ++ ys) → c'.prev (some u) = xs.getLast?

theorem Relinked.length {c c' : RoiMngr} (h : Relinked c c') : c'.nodes.length = c.nodes.length := by
  have hlen := congrArg List.length h.regions
  rwa [List.length_map, List.length_map] at hlen

variable {c c' : RoiMngr} {prev prev' : Option ℕ → Option ℕ} {l xs ys : List ℕ} {u : ℕ}

theorem LinksIn.listed (h : LinksIn c c' xs u ys) (hl : c.Listed prev (xs ++ ys)) (hu : u ∉ xs ++ ys)
    (hlt : u < c.nodes.length)
    (hprev : ∀ i ∈ xs ++ ys, prev' (some i) = if some i = ys.head? then some u else prev (some i))
    (hself : prev' (some u) = xs.getLast?) : c'.Listed prev' (xs ++ u :: ys) where
  threaded := by
    rw [List.map_append, List.map_cons]
    have hthreaded := hl.threaded
    rw [List.map_append] at hthreaded
    have hmem : ∀ p ∈ xs.map some ++ ys.map some, ∃ i ∈ xs ++ ys, some i = p := by
      intro p hp
      rw [← List.map_append] at hp
      exact List.mem_map.mp hp
    apply hthreaded.link
    · rw [← List.map_append]
      simpa using hu
    · exact Option.some_ne_none u
    · intro p hp
      obtain ⟨i, hi, rfl⟩ := hmem p hp
      rw [getLastD_some]
      exact h.next i hi
    · intro p hp
      obtain ⟨i, hi, rfl⟩ := hmem p hp
      rw [headD_some]
      exact hprev i hi
    · rw [headD_some]
      exact h.next_self
    · rw [getLastD_some]
      exact hself
  first := h.first
  last := h.last
  valid := by
    intro i hi
    rw [h.relinked.length]
    rcases List.mem_cons.mp (List.perm_middle.mem_iff.mp hi) with rfl | hi
    · exact hlt
    · exact hl.valid i hi

/-- The links back of the list that a node is linked in. -/
def backLinks (prev : Option ℕ → Option ℕ) (xs : List ℕ) (u : ℕ) (ys : List ℕ) (p : Option ℕ) :
    Option ℕ :=
  if p = some u then xs.getLast? else if p = ys.head? then some u else prev p

theorem LinksIn.listed_backLinks (h : LinksIn c c' xs u ys) (hl : c.Listed prev (xs ++ ys))
    (hu : u ∉ xs ++ ys) (hlt : u < c.nodes.length) :
    c'.Listed (backLinks prev xs u ys) (xs ++ u :: ys) := by
  apply h.listed hl hu hlt
  · intro i hi
    have hiu : some i ≠ some u := by
      intro e
      exact hu (Option.some.inj e ▸ hi)
    exact if_neg hiu
  · exact if_pos rfl

theorem pushBack_first (hfirst : c.pFirstNode = none) (hlt : u < c.nodes.length) :
    c.pushBack u = some
      { c with
        pFirstNode := some u
        pLastNode := some u
        nodes := c.nodes.modify u fun n => { n with pPrev := none, pNext := none } } := by
  simp [pushBack, hfirst, modify, hlt]

theorem pushBack_last {first last : ℕ} (hfirst : c.pFirstNode = some first)
    (hlast : c.pLastNode = some last) (hlt : u < c.nodes.length) (hlast' : last < c.nodes.length) :
    c.pushBack u = some
      { c with
        pLastNode := some u
        nodes := (c.nodes.modify u fun n => { n with pPrev := some last, pNext := none }).modify last
          fun n => { n with pNext := some u } } := by
  simp [pushBack, hfirst, hlast, modify, hlt, hlast']

theorem pushBack_links (hl : c.Listed prev l) (hu : u ∉ l) (hlt : u < c.nodes.length) :
    ∃ c', c.pushBack u = some c' ∧ LinksIn c c' l u [] := by
  obtain ⟨n, hn⟩ : ∃ n, c.nodes[u]? = some n := ⟨_, List.getElem?_eq_getElem hlt⟩
  cases l using List.reverseRecOn with
  | nil =>
    refine ⟨_, pushBack_first hl.first hlt, ⟨rfl, modify_regions _ _ fun _ => rfl⟩, rfl, rfl, ?_, ?_,
      ?_, ?_⟩
    · intro i hi
      cases hi
    · exact (follow_modify _ _ _ _ _).trans (by rw [if_pos rfl, hn]; rfl)
    · intro i hi
      cases hi
    · intro _
      exact (follow_modify _ _ _ _ _).trans (by rw [if_pos rfl, hn]; rfl)
  | append_singleton l v =>
    obtain ⟨first, hfirst⟩ : ∃ first, (l ++ [v]).head? = some first := by
      cases l with
      | nil => exact ⟨v, rfl⟩
      | cons i l => exact ⟨i, rfl⟩
    have hlast : (l ++ [v]).getLast? = some v := List.getLast?_concat
    have huv : u ≠ v := by
      intro e
      simp [e] at hu
    have hother : ∀ i ∈ l ++ [v] ++ [], some i ≠ some u := by
      intro i hi e
      rw [List.append_nil, Option.some.inj e] at hi
      exact hu hi
    have hv : v < c.nodes.length := hl.valid v (by simp)
    obtain ⟨m, hm⟩ : ∃ m, c.nodes[v]? = some m := ⟨_, List.getElem?_eq_getElem hv⟩
    have hlink := follow_modify₂ c.nodes huv (fun n => { n with pPrev := some v, pNext := none })
      (fun n => { n with pNext := some u })
    refine ⟨_, pushBack_last (hl.first.trans hfirst) (hl.last.trans hlast) hlt hv,
      ⟨rfl, ?_⟩, ?_, ?_, ?_, ?_, ?_, ?_⟩
    · apply (modify_regions _ v (f := fun n => { n with pNext := some u }) fun _ => rfl).trans
      exact modify_regions _ u fun _ => rfl
    · rw [List.head?_append, hfirst]
      exact hl.first.trans hfirst
    · simp
    · intro i hi
      apply (hlink _ _).trans
      rw [hlast, hm, if_neg (hother i hi)]
      rfl
    · apply (hlink _ _).trans
      rw [if_neg (by simpa using huv), if_pos rfl, hn]
      rfl
    · intro i hi
      apply (hlink _ _).trans
      rw [if_neg (hother i hi), List.head?_nil, if_neg (Option.some_ne_none i)]
      by_cases hiv : some i = some v
      · simp [hiv, hm, RoiMngr.prev, follow]
      · rw [if_neg hiv]
        rfl
    · intro _
      apply (hlink _ _).trans
      rw [if_neg (by simpa using huv), if_pos rfl, hn, hlast]
      rfl

/-- `iDeltaQP` of a node. -/
def qp (c : RoiMngr) (i : ℕ) : BitVec 8 := ((c.nodes[i]?).map (·.iDeltaQP)).getD 0

theorem Relinked.qp_eq (h : Relinked c c') : c'.qp = c.qp := by
  funext i
  have hi := congrArg (fun rs : List Roi => (rs[i]?).map Roi.iDeltaQP) h.regions
  simp only [List.getElem?_map, Option.map_map] at hi
  exact congrArg (fun o => o.getD 0) hi

/-- The nodes that `Insert` passes. -/
def passed (c : RoiMngr) (l : List ℕ) (q : BitVec 8) : List ℕ :=
  l.takeWhile fun i => shouldInsertAfter (c.qp i) q

/-- The nodes from which on `Insert` stays. -/
def ahead (c : RoiMngr) (l : List ℕ) (q : BitVec 8) : List ℕ :=
  l.dropWhile fun i => shouldInsertAfter (c.qp i) q

theorem passed_append_ahead (c : RoiMngr) (l : List ℕ) (q : BitVec 8) :
    c.passed l q ++ c.ahead l q = l := List.takeWhile_append_dropWhile

theorem seek_eq {p : Option ℕ} (h : Segment c.next prev p (l.map some) none)
    (hvalid : ∀ i ∈ l, i < c.nodes.length) (q : BitVec 8) {fuel : ℕ} (hfuel : l.length < fuel) :
    c.seek q fuel l.head? = some (c.ahead l q).head? := by
  induction l generalizing p fuel with
  | nil =>
    cases fuel with
    | zero => omega
    | succ fuel => rfl
  | cons i l ih =>
    rw [List.forall_mem_cons] at hvalid
    rw [List.length_cons] at hfuel
    obtain ⟨-, hnext, hrest⟩ := h
    obtain ⟨n, hn⟩ : ∃ n, c.nodes[i]? = some n := ⟨_, List.getElem?_eq_getElem hvalid.1⟩
    have hlink : n.pNext = l.head? := by
      have hi : c.next (some i) = n.pNext := by simp [next, follow, hn]
      rw [← hi, hnext]
      exact headD_some l
    have hqp : c.qp i = n.iDeltaQP := by simp [qp, hn]
    cases fuel with
    | zero => omega
    | succ fuel =>
      rw [List.head?_cons, seek, hn]
      by_cases hq : shouldInsertAfter n.iDeltaQP q = true
      · have hdrop : c.ahead (i :: l) q = c.ahead l q := by simp [ahead, hqp, hq]
        have hfuel' : l.length < fuel := by omega
        rw [hdrop, ← ih hrest hvalid.2 hfuel', ← hlink]
        simp [hq]
      · have hdrop : c.ahead (i :: l) q = i :: l := by simp [ahead, hqp, hq]
        rw [hdrop]
        simp [hq]

theorem insert_front {v : ℕ} {n m : RoiNode} (hn : c.nodes[u]? = some n) (hm : c.nodes[v]? = some m)
    (hseek : c.seek n.iDeltaQP (c.nodes.length + 1) c.pFirstNode = some (some v)) :
    c.insert u = some
      { c with
        pFirstNode := if c.pFirstNode = some v then some u else c.pFirstNode
        nodes := (c.nodes.modify u fun n => { n with pPrev := m.pPrev, pNext := some v }).modify v
          fun n => { n with pPrev := some u } } := by
  have hu : u < c.nodes.length := (List.getElem?_eq_some_iff.mp hn).1
  have hv : v < c.nodes.length := (List.getElem?_eq_some_iff.mp hm).1
  have hv' : v < (c.nodes.modify u fun n => { n with pPrev := m.pPrev, pNext := some v }).length := by
    rwa [List.length_modify]
  simp only [insert, hn, hseek, hm, modify, Option.bind_eq_bind, Option.bind_some, if_pos hu, if_pos hv']
  rfl

/-- `Insert` links a node in at an end of the list, or leaves the links from the head
on as they are. -/
theorem insert_links {n : RoiNode} (hl : c.Listed prev l) (hu : u ∉ l) (hn : c.nodes[u]? = some n) :
    ∃ c', c.insert u = some c' ∧ Relinked c c' ∧
      (c.passed l n.iDeltaQP = [] ∨ c.ahead l n.iDeltaQP = [] →
        LinksIn c c' (c.passed l n.iDeltaQP) u (c.ahead l n.iDeltaQP)) ∧
      (c.passed l n.iDeltaQP ≠ [] → c.ahead l n.iDeltaQP ≠ [] → c'.Listed prev l) := by
  have hult : u < c.nodes.length := (List.getElem?_eq_some_iff.mp hn).1
  have hseek := seek_eq hl.threaded.links hl.valid n.iDeltaQP hl.length_lt
  rw [← hl.first] at hseek
  have happ := c.passed_append_ahead l n.iDeltaQP
  cases hahead : c.ahead l n.iDeltaQP with
  | nil =>
    rw [hahead, List.append_nil] at happ
    obtain ⟨c', hrun, hlinks⟩ := pushBack_links hl hu hult
    rw [hahead] at hseek
    refine ⟨c', ?_, hlinks.relinked, fun _ => ?_, fun _ hne => absurd rfl hne⟩
    · simpa only [insert, hn, hseek, List.head?_nil, Option.bind_eq_bind, Option.bind_some] using hrun
    · rwa [happ]
  | cons v ys =>
    rw [hahead] at happ hseek
    have hvl : v ∈ l := by
      rw [← happ]
      simp
    obtain ⟨m, hm⟩ : ∃ m, c.nodes[v]? = some m := ⟨_, List.getElem?_eq_getElem (hl.valid v hvl)⟩
    have huv : u ≠ v := fun e => hu (e ▸ hvl)
    have hother : ∀ i ∈ l, some i ≠ some u := by
      intro i hi e
      exact hu (Option.some.inj e ▸ hi)
    have hlink := follow_modify₂ c.nodes huv (fun n => { n with pPrev := m.pPrev, pNext := some v })
      (fun n => { n with pPrev := some u })
    -- the link to the node behind is written at the new node only
    have hnext : ∀ i ∈ l, follow ((c.nodes.modify u fun n =>
        { n with pPrev := m.pPrev, pNext := some v }).modify v fun n => { n with pPrev := some u })
        (·.pNext) (some i) = c.next (some i) := by
      intro i hi
      rw [hlink, if_neg (hother i hi)]
      by_cases hiv : some i = some v
      · simp [hiv, hm, RoiMngr.next, follow]
      · rw [if_neg hiv]
        rfl
    refine ⟨_, insert_front hn hm hseek, ⟨rfl, ?_⟩, fun hends => ?_, fun hne _ => ?_⟩
    · apply (modify_regions _ v (f := fun n => { n with pPrev := some u }) fun _ => rfl).trans
      exact modify_regions _ u fun _ => rfl
    · have hpassed : c.passed l n.iDeltaQP = [] := by simpa using hends
      rw [hpassed, List.nil_append] at happ
      have hfirst : c.pFirstNode = some v := by
        rw [hl.first, ← happ]
        rfl
      rw [hpassed]
      refine ⟨⟨rfl, ?_⟩, ?_, ?_, ?_, ?_, ?_, ?_⟩
      · apply (modify_regions _ v (f := fun n => { n with pPrev := some u }) fun _ => rfl).trans
        exact modify_regions _ u fun _ => rfl
      · exact if_pos hfirst
      · rw [List.nil_append, List.getLast?_cons_cons, happ]
        exact hl.last
      · intro i hi
        rw [List.nil_append, happ] at hi
        rw [List.getLast?_nil, if_neg (Option.some_ne_none i)]
        exact hnext i hi
      · apply (hlink _ _).trans
        rw [if_neg (by simpa using huv), if_pos rfl, hn]
        rfl
      · intro i hi
        rw [List.nil_append, happ] at hi
        apply (hlink _ _).trans
        rw [if_neg (hother i hi), hm]
        rfl
      · intro hback
        have hprev : c.prev (some v) = none := hback.threaded.links.1
        apply (hlink _ _).trans
        rw [if_neg (by simpa using huv), if_pos rfl, hn]
        simpa [RoiMngr.prev, follow, hm] using hprev
    · have hfirst : c.pFirstNode ≠ some v := by
        intro hfirst
        rw [hl.first] at hfirst
        cases hpassed : c.passed l n.iDeltaQP with
        | nil => exact hne hpassed
        | cons i xs =>
          have hnd := hl.nodup
          rw [← happ, hpassed] at hfirst hnd
          obtain rfl : i = v := Option.some.inj hfirst
          simp at hnd
      exact {
        threaded := by
          apply hl.threaded.congr
          · intro p hp
            obtain ⟨i, hi, rfl⟩ := List.mem_map.mp hp
            exact hnext i hi
          · intro p _
            rfl
        first := (if_neg hfirst).trans hl.first
        last := hl.last
        valid := by
          intro i hi
          rw [List.length_modify, List.length_modify]
          exact hl.valid i hi }

/-! ## The order of the regions -/

/-- A node `i` in front of a node `j`: it has the worse quality, or the same and is
newer.  Behind an intra region stand newer regions of a quality better than 0. -/
def InOrder (qp : ℕ → BitVec 8) (i j : ℕ) : Prop :=
  if isIntra (qp i) then i < j ∧ (isIntra (qp j) ∨ getDQp (qp j) < 0)
  else isIntra (qp j) ∨ getDQp (qp j) < getDQp (qp i) ∨ getDQp (qp j) = getDQp (qp i) ∧ j < i

theorem getDQp_of_isIntra {eQuality : ℤ} (h : isIntra (getNewDeltaQP eQuality) = true) :
    getDQp (getNewDeltaQP eQuality) = 0 := by
  unfold getNewDeltaQP at h ⊢
  by_cases he : eQuality = roiQualityIntra
  · rw [if_pos he]
    rfl
  · rw [if_neg he, isIntra, BitVec.and_assoc] at h
    simp [maskQP, maskForceIntra] at h

variable {qp : ℕ → BitVec 8} {i : ℕ}

theorem inOrder_passed (h : shouldInsertAfter (qp i) (qp u) = true)
    (hi : i < u) (hintra : isIntra (qp i) = true → getDQp (qp i) = 0) : InOrder qp i u := by
  unfold InOrder
  rw [shouldInsertAfter, Bool.or_eq_true, decide_eq_true_eq] at h
  by_cases hqi : isIntra (qp i) = true
  · rw [if_pos hqi]
    exact ⟨hi, h.imp_right fun hlt => by rwa [hintra hqi] at hlt⟩
  · rw [if_neg hqi]
    exact h.imp_right Or.inl

theorem inOrder_ahead (h : ¬shouldInsertAfter (qp i) (qp u) = true)
    (hi : i < u) : InOrder qp u i := by
  rw [shouldInsertAfter, Bool.or_eq_true, decide_eq_true_eq, not_or, not_lt] at h
  unfold InOrder
  rw [if_neg h.1]
  rcases lt_or_eq_of_le h.2 with hlt | heq
  · exact .inr (.inl hlt)
  · exact .inr (.inr ⟨heq, hi⟩)

/-- What stands behind a node that `Insert` does not pass has no better place either. -/
theorem inOrder_trans {i j : ℕ} (hui : ¬shouldInsertAfter (qp i) (qp u) = true)
    (hij : InOrder qp i j) (hj : j < u) (hintra : isIntra (qp i) = true → getDQp (qp i) = 0) :
    InOrder qp u j := by
  rw [shouldInsertAfter, Bool.or_eq_true, decide_eq_true_eq, not_or, not_lt] at hui
  unfold InOrder at hij ⊢
  rw [if_neg hui.1]
  by_cases hqi : isIntra (qp i) = true
  · rw [if_pos hqi] at hij
    have hzero := hintra hqi
    exact hij.2.imp_right fun hlt => .inl (by omega)
  · rw [if_neg hqi] at hij
    exact hij.imp_right fun hle => by omega

theorem pairwise_insert (c : RoiMngr) (h : l.Pairwise (InOrder c.qp)) (hnew : ∀ i ∈ l, i < u)
    (hintra : ∀ i ∈ l, isIntra (c.qp i) = true → getDQp (c.qp i) = 0) :
    (c.passed l (c.qp u) ++ u :: c.ahead l (c.qp u)).Pairwise (InOrder c.qp) := by
  induction l with
  | nil => exact List.pairwise_singleton _ _
  | cons i l ih =>
    rw [List.forall_mem_cons] at hnew hintra
    obtain ⟨hi, hrest⟩ := List.pairwise_cons.mp h
    by_cases hq : shouldInsertAfter (c.qp i) (c.qp u) = true
    · have hpassed : c.passed (i :: l) (c.qp u) = i :: c.passed l (c.qp u) := by simp [passed, hq]
      have hahead : c.ahead (i :: l) (c.qp u) = c.ahead l (c.qp u) := by simp [ahead, hq]
      rw [hpassed, hahead, List.cons_append]
      refine List.pairwise_cons.mpr ⟨fun j hj => ?_, ih hrest hnew.2 hintra.2⟩
      rcases List.mem_cons.mp (List.perm_middle.mem_iff.mp hj) with rfl | hj
      · exact inOrder_passed hq hnew.1 hintra.1
      · rw [passed_append_ahead] at hj
        exact hi j hj
    · have hpassed : c.passed (i :: l) (c.qp u) = [] := by simp [passed, hq]
      have hahead : c.ahead (i :: l) (c.qp u) = i :: l := by simp [ahead, hq]
      rw [hpassed, hahead, List.nil_append]
      refine List.pairwise_cons.mpr ⟨fun j hj => ?_, h⟩
      rcases List.mem_cons.mp hj with rfl | hj
      · exact inOrder_ahead hq hnew.1
      · exact inOrder_trans hq (hi j hj) (hnew.2 j hj) hintra.1

/-! ## Runs -/

/-- In the order of qualities, the new region is an intra region, has no better quality
than the first region, or a better one than all of them. -/
def LandsAtAnEnd (c : RoiMngr) (a : Addition) : Prop :=
  c.eOrder = .quality → c.Accepts a →
    isIntra (getNewDeltaQP a.eQuality) = true ∨
    (∀ first ∈ c.pFirstNode, getDQp (c.qp first) ≤ getDQp (getNewDeltaQP a.eQuality)) ∨
    ∀ n ∈ c.nodes, getDQp (getNewDeltaQP a.eQuality) < getDQp n.iDeltaQP

/-- Every region of a run lands at an end of the list. -/
def AllLand : RoiMngr → List Addition → Prop
  | _, [] => True
  | c, a :: run => c.LandsAtAnEnd a ∧ ∀ c', c.addROI a = some c' → AllLand c' run

/-- The regions of a run that are added, in the order they come in. -/
def added (c : RoiMngr) (run : List Addition) : List Roi :=
  (run.filter fun a => c.Accepts a).map c.region

/-- `l` are the nodes of the list, which are all that there are if `whole` holds. -/
structure Holds (c : RoiMngr) (rois : List Roi) (whole : Prop) (prev : Option ℕ → Option ℕ)
    (l : List ℕ) : Prop where
  listed : c.Listed prev l
  regions : c.nodes.map RoiNode.toRoi = rois
  made : ∀ roi ∈ rois, ∃ a, roi = c.region a
  incoming : c.eOrder = .incoming → l = List.range c.nodes.length
  sorted : c.eOrder = .quality → l.Pairwise (InOrder c.qp)
  all : whole → c.Listed c.prev l ∧ l.Perm (List.range c.nodes.length)

/-- `addROI` before the node is linked in. -/
def alloc (c : RoiMngr) (a : Addition) : RoiMngr :=
  { c with nodes := c.nodes ++ [⟨c.region a, none, none⟩] }

variable {a : Addition}

theorem addROI_accepted (ha : c.Accepts a) : c.addROI a = match c.eOrder with
    | .quality => (c.alloc a).insert c.nodes.length
    | .incoming => (c.alloc a).pushBack c.nodes.length := by
  rw [addROI, if_pos ha]
  rfl

theorem follow_append (nodes : List RoiNode) (n : RoiNode) (link : RoiNode → Option ℕ)
    (hi : i < nodes.length) : follow (nodes ++ [n]) link (some i) = follow nodes link (some i) := by
  simp [follow, List.getElem?_append_left hi]

theorem Listed.alloc (h : c.Listed prev l) (a : Addition) : (c.alloc a).Listed prev l where
  threaded := by
    apply h.threaded.congr
    · intro p hp
      obtain ⟨i, hi, rfl⟩ := List.mem_map.mp hp
      exact follow_append _ _ _ (h.valid i hi)
    · intro p _
      rfl
  first := h.first
  last := h.last
  valid := by
    intro i hi
    have hlt := h.valid i hi
    simp only [RoiMngr.alloc, List.length_append, List.length_singleton]
    omega

theorem Listed.alloc_prev (h : c.Listed c.prev l) (a : Addition) :
    (c.alloc a).Listed (c.alloc a).prev l where
  threaded := by
    apply (h.alloc a).threaded.congr
    · intro p _
      rfl
    · intro p hp
      obtain ⟨i, hi, rfl⟩ := List.mem_map.mp hp
      exact follow_append _ _ _ (h.valid i hi)
  first := h.first
  last := h.last
  valid := (h.alloc a).valid

theorem qp_alloc (c : RoiMngr) (a : Addition) (hi : i < c.nodes.length) :
    (c.alloc a).qp i = c.qp i := by
  simp [qp, RoiMngr.alloc, List.getElem?_append_left hi]

theorem qp_alloc_self (c : RoiMngr) (a : Addition) :
    (c.alloc a).qp c.nodes.length = getNewDeltaQP a.eQuality := by
  simp [qp, RoiMngr.alloc, region]

/-- A region that lands at an end passes all of the list or nothing of it. -/
theorem LandsAtAnEnd.ends (h : c.LandsAtAnEnd a) (hquality : c.eOrder = .quality)
    (ha : c.Accepts a) (hl : c.Listed prev l) :
    (c.alloc a).passed l (getNewDeltaQP a.eQuality) = [] ∨
      (c.alloc a).ahead l (getNewDeltaQP a.eQuality) = [] := by
  have hqp : ∀ i ∈ l, (c.alloc a).qp i = c.qp i := fun i hi => c.qp_alloc a (hl.valid i hi)
  by_cases hintra : isIntra (getNewDeltaQP a.eQuality) = true
  · apply Or.inr
    apply List.dropWhile_eq_nil_iff.mpr
    intro i _
    rw [shouldInsertAfter, hintra, Bool.true_or]
  · rcases h hquality ha with hi | hfirst | hall
    · exact absurd hi hintra
    · apply Or.inl
      cases l with
      | nil => rfl
      | cons i l =>
        have hle := hfirst i hl.first
        have hnot : ¬shouldInsertAfter ((c.alloc a).qp i) (getNewDeltaQP a.eQuality) = true := by
          rw [shouldInsertAfter, hqp i List.mem_cons_self, Bool.or_eq_true, decide_eq_true_eq, not_or,
            not_lt]
          exact ⟨hintra, hle⟩
        simp [passed, hnot]
    · apply Or.inr
      apply List.dropWhile_eq_nil_iff.mpr
      intro i hi
      obtain ⟨n, hn⟩ : ∃ n, c.nodes[i]? = some n := ⟨_, List.getElem?_eq_getElem (hl.valid i hi)⟩
      have hlt := hall n (List.mem_of_getElem? hn)
      have hqi : c.qp i = n.iDeltaQP := by simp [qp, hn]
      rw [shouldInsertAfter, hqp i hi, hqi, Bool.or_eq_true, decide_eq_true_eq]
      exact .inr hlt

theorem region_congr (h : c'.context = c.context) : c'.region = c.region :=
  (congrArg region h : c'.context.region = c.context.region)

theorem added_congr (h : c'.context = c.context) (run : List Addition) :
    c'.added run = c.added run :=
  (congrArg (fun c => added c run) h : c'.context.added run = c.context.added run)

theorem LinksIn.all (h : LinksIn (c.alloc a) c' xs c.nodes.length ys)
    (hl : c.Listed c.prev (xs ++ ys)) (hperm : (xs ++ ys).Perm (List.range c.nodes.length)) :
    c'.Listed c'.prev (xs ++ c.nodes.length :: ys) ∧
      (xs ++ c.nodes.length :: ys).Perm (List.range c'.nodes.length) := by
  have hlen : (c.alloc a).nodes.length = c.nodes.length + 1 := by simp [RoiMngr.alloc]
  have hnew : c.nodes.length ∉ xs ++ ys := fun hmem => Nat.lt_irrefl _ (hl.valid _ hmem)
  constructor
  · apply h.listed (hl.alloc_prev a) hnew
    · omega
    · exact h.prev
    · exact h.prev_self (hl.alloc_prev a)
  · rw [h.relinked.length, hlen, List.range_succ]
    exact List.perm_middle.trans ((hperm.cons _).trans (List.perm_append_singleton _ _).symm)

theorem added_accepted (ha : c.Accepts a) : c.added [a] = [c.region a] := by
  simp [added, ha]

theorem added_refused (ha : ¬c.Accepts a) : c.added [a] = [] := by
  simp [added, ha]

section Step

variable {rois : List Roi} {whole : Prop} {a : Addition}

theorem Holds.relinked (h : c.Holds rois whole prev l) (ha : c.Accepts a) {whole' : Prop}
    (hr : Relinked (c.alloc a) c') (hl : c'.Listed prev' xs)
    (hincoming : c.eOrder = .incoming → xs = List.range c'.nodes.length)
    (hsorted : c.eOrder = .quality → xs.Pairwise (InOrder (c.alloc a).qp))
    (hall : whole' → c'.Listed c'.prev xs ∧ xs.Perm (List.range c'.nodes.length)) :
    c'.Holds (rois ++ c.added [a]) whole' prev' xs where
  listed := hl
  regions := by
    rw [hr.regions, added_accepted ha, ← h.regions]
    simp [RoiMngr.alloc]
  made := by
    have hcontext : c'.context = c.context := hr.context
    intro roi hroi
    rw [region_congr hcontext]
    rcases List.mem_append.mp hroi with hroi | hroi
    · exact h.made roi hroi
    · rw [added_accepted ha] at hroi
      exact ⟨a, List.mem_singleton.mp hroi⟩
  incoming horder := hincoming ((congrArg eOrder hr.context).symm.trans horder)
  sorted horder := by
    rw [hr.qp_eq]
    exact hsorted ((congrArg eOrder hr.context).symm.trans horder)
  all := hall

theorem Holds.getDQp_of_isIntra (h : c.Holds rois whole prev l) {i : ℕ} (hi : i ∈ l)
    (hintra : isIntra (c.qp i) = true) : getDQp (c.qp i) = 0 := by
  obtain ⟨n, hn⟩ : ∃ n, c.nodes[i]? = some n := ⟨_, List.getElem?_eq_getElem (h.listed.valid i hi)⟩
  have hmem : n.toRoi ∈ rois := by
    rw [← h.regions]
    exact List.mem_map_of_mem (List.mem_of_getElem? hn)
  obtain ⟨a, ha⟩ := h.made _ hmem
  have hqp : c.qp i = getNewDeltaQP a.eQuality := by
    simp [qp, hn, ha, region]
  rw [hqp] at hintra ⊢
  exact RoiMngr.getDQp_of_isIntra hintra

theorem addROI_holds (h : c.Holds rois whole prev l) (a : Addition) :
    ∃ c' prev' l', c.addROI a = some c' ∧ c'.context = c.context ∧
      c'.Holds (rois ++ c.added [a]) (whole ∧ c.LandsAtAnEnd a) prev' l' := by
  by_cases ha : c.Accepts a
  · have hlen : (c.alloc a).nodes.length = c.nodes.length + 1 := by simp [RoiMngr.alloc]
    have hnew : c.nodes.length ∉ l := fun hmem => Nat.lt_irrefl _ (h.listed.valid _ hmem)
    have hnode : (c.alloc a).nodes[c.nodes.length]? = some ⟨c.region a, none, none⟩ := by
      simp [RoiMngr.alloc]
    rw [addROI_accepted ha]
    cases horder : c.eOrder with
    | incoming =>
      obtain ⟨c', hrun, hlinks⟩ := pushBack_links (h.listed.alloc a) hnew (by omega)
      have hl : (c.alloc a).Listed prev (l ++ []) := by
        rw [List.append_nil]
        exact h.listed.alloc a
      have hnew' : c.nodes.length ∉ l ++ [] := by rwa [List.append_nil]
      refine ⟨c', _, _, hrun, hlinks.relinked.context, h.relinked ha hlinks.relinked
        (hlinks.listed_backLinks hl hnew' (by omega)) (fun _ => ?_) (fun hq => ?_) fun hwhole => ?_⟩
      · rw [hlinks.relinked.length, hlen, List.range_succ, h.incoming horder]
      · rw [horder] at hq
        cases hq
      · obtain ⟨hback, hperm⟩ := h.all hwhole.1
        apply hlinks.all
        · rwa [List.append_nil]
        · rwa [List.append_nil]
    | quality =>
      obtain ⟨c', hrun, hr, hends, hmiddle⟩ := insert_links (h.listed.alloc a) hnew hnode
      have hincoming : c.eOrder = .incoming → ∀ xs, xs = List.range c'.nodes.length := by
        intro hi
        rw [horder] at hi
        cases hi
      have hqp : ∀ i ∈ l, (c.alloc a).qp i = c.qp i := fun i hi => c.qp_alloc a (h.listed.valid i hi)
      have hsorted : l.Pairwise (InOrder (c.alloc a).qp) := by
        apply (h.sorted horder).imp_of_mem
        intro i j hi hj hij
        unfold InOrder at hij ⊢
        rwa [hqp i hi, hqp j hj]
      have happ := (c.alloc a).passed_append_ahead l (getNewDeltaQP a.eQuality)
      by_cases hend : (c.alloc a).passed l (getNewDeltaQP a.eQuality) = [] ∨
          (c.alloc a).ahead l (getNewDeltaQP a.eQuality) = []
      · have hlinks : LinksIn (c.alloc a) c' ((c.alloc a).passed l (getNewDeltaQP a.eQuality))
            c.nodes.length ((c.alloc a).ahead l (getNewDeltaQP a.eQuality)) := hends hend
        have hl : (c.alloc a).Listed prev ((c.alloc a).passed l (getNewDeltaQP a.eQuality) ++
            (c.alloc a).ahead l (getNewDeltaQP a.eQuality)) := by
          rw [happ]
          exact h.listed.alloc a
        refine ⟨c', _, _, hrun, hr.context, h.relinked ha hr
          (hlinks.listed_backLinks hl (by rwa [happ]) (by omega)) (fun hi => hincoming hi _)
          (fun _ => ?_) fun hwhole => ?_⟩
        · rw [← qp_alloc_self c a]
          apply pairwise_insert _ hsorted
          · exact h.listed.valid
          · intro i hi hintra
            rw [hqp i hi] at hintra ⊢
            exact h.getDQp_of_isIntra hi hintra
        · obtain ⟨hback, hperm⟩ := h.all hwhole.1
          apply hlinks.all
          · rwa [happ]
          · rwa [happ]
      · rw [not_or] at hend
        refine ⟨c', prev, l, hrun, hr.context, h.relinked ha hr (hmiddle hend.1 hend.2)
          (fun hi => hincoming hi _) (fun _ => hsorted) fun hwhole => ?_⟩
        rcases hwhole.2.ends horder ha h.listed with hpassed | hahead
        · exact absurd hpassed hend.1
        · exact absurd hahead hend.2
  · refine ⟨c, prev, l, if_neg ha, rfl, ?_⟩
    rw [added_refused ha, List.append_nil]
    exact { h with all := fun hwhole => h.all hwhole.1 }

theorem addROIs_holds (h : c.Holds rois whole prev l) (run : List Addition) :
    ∃ c' prev' l', c.addROIs run = some c' ∧ c'.context = c.context ∧
      c'.Holds (rois ++ c.added run) (whole ∧ c.AllLand run) prev' l' := by
  induction run generalizing c rois whole prev l with
  | nil =>
    refine ⟨c, prev, l, rfl, rfl, ?_⟩
    rw [added, List.filter_nil, List.map_nil, List.append_nil]
    exact { h with all := fun hwhole => h.all hwhole.1 }
  | cons a run ih =>
    obtain ⟨c₁, prev₁, l₁, hadd, hcontext, h₁⟩ := addROI_holds h a
    obtain ⟨c', prev', l', hrun, hcontext', h'⟩ := ih h₁
    refine ⟨c', prev', l', ?_, hcontext'.trans hcontext, ?_⟩
    · rw [addROIs, List.foldlM_cons, hadd]
      exact hrun
    · have hadded : c.added [a] ++ c.added run = c.added (a :: run) := by
        rw [added, added, added, ← List.map_append, ← List.filter_append]
        rfl
      rw [added_congr hcontext, List.append_assoc, hadded] at h'
      exact { h' with all := fun hwhole => h'.all ⟨⟨hwhole.1, hwhole.2.1⟩, hwhole.2.2 c₁ hadd⟩ }

end Step

theorem create_holds (iPicWidth iPicHeight : ℤ) (isAvc isHevc : Bool) (eBkgQuality : ℤ)
    (eOrder : RoiOrder) : (create iPicWidth iPicHeight isAvc isHevc eBkgQuality eOrder).Holds [] True
      (create iPicWidth iPicHeight isAvc isHevc eBkgQuality eOrder).prev [] := by
  have hlisted : (create iPicWidth iPicHeight isAvc isHevc eBkgQuality eOrder).Listed
      (create iPicWidth iPicHeight isAvc isHevc eBkgQuality eOrder).prev [] :=
    ⟨.empty, rfl, rfl, by simp⟩
  exact {
    listed := hlisted
    regions := rfl
    made := by simp
    incoming := fun _ => rfl
    sorted := fun _ => .nil
    all := fun _ => ⟨hlisted, .refl _⟩ }

end RoiMngr

end VcuCodec
