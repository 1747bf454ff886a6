import Mathlib.Tactic.Ring
import VcuCodec.CellTables
import VcuCodec.RoiMngr

/-!
# QP tables of regions of interest

`AL_RoiMngr_FillBuff` fills a QP table with the quality of the background and paints
the regions of the list over it.  A region that is not an intra region has a border of
one LCU with the mean of its quality and of the quality beyond the border.
-/

namespace VcuCodec

open CheckedRuns Checked CellTables LinkedLists

namespace RoiMngr

/-! ## The code -/

/-- A computation on `pBuf`. -/
abbrev Fill (n : ℕ) : Type → Type := Checked (Vector (BitVec 8) n)

variable {n : ℕ}

/-- What `MeanQuality` writes over `target`. -/
def meanQP (c : RoiMngr) (target iDQp1 iDQp2 : BitVec 8) : BitVec 8 :=
  let iQP := clip3 ((getDQp iDQp1 + getDQp iDQp2).tdiv 2) c.iMinQP c.iMaxQP
  (BitVec.ofInt 8 iQP &&& maskQP) ||| (target &&& maskForce)

def meanQuality (c : RoiMngr) (pTargetQP : ℤ) (iDQp1 iDQp2 : BitVec 8) (iNumQPPerLCU : ℕ) :
    Fill n Unit := do
  let target ← load pTargetQP
  store pTargetQP (c.meanQP target iDQp1 iDQp2)
  forBelow (iNumQPPerLCU - 1) () fun i _ => do
    let first ← load pTargetQP
    store (pTargetQP + (1 + i : ℕ)) first

/-- `MeanQuality` with the quality at another place. -/
def meanWith (c : RoiMngr) (pTargetQP source : ℤ) (iQP : BitVec 8) (iNumQPPerLCU : ℕ) :
    Fill n Unit := do
  let iDQp1 ← load source
  c.meanQuality pTargetQP iDQp1 iQP iNumQPPerLCU

/-! Places of `pBuf` stand for pointers. -/

section Transitions

variable (c : RoiMngr) (pLcu1 pLcu2 : ℤ) (iNumQPPerLCU iNumBytesPerLCU : ℕ)

def leftCorner (iPosX : ℤ) (iQP : BitVec 8) : Fill n Unit :=
  if 1 < iPosX then
    c.meanWith (pLcu1 - iNumBytesPerLCU) (pLcu2 - 2 * iNumBytesPerLCU) iQP iNumQPPerLCU
  else if 0 < iPosX then
    c.meanWith (pLcu1 - iNumBytesPerLCU) (pLcu2 - iNumBytesPerLCU) iQP iNumQPPerLCU
  else pure ()

def rightCorner (iPosX iWidth : ℤ) (iQP : BitVec 8) : Fill n Unit :=
  if iPosX + iWidth + 2 < c.iLcuWidth then
    c.meanWith (pLcu1 + iWidth * iNumBytesPerLCU) (pLcu2 + (iWidth + 1) * iNumBytesPerLCU) iQP
      iNumQPPerLCU
  else if iPosX + iWidth + 1 < c.iLcuWidth then
    c.meanWith (pLcu1 + iWidth * iNumBytesPerLCU) (pLcu2 + iWidth * iNumBytesPerLCU) iQP iNumQPPerLCU
  else pure ()

def updateTransitionHorz (iPosX iWidth : ℤ) (iQP : BitVec 8) : Fill n Unit := do
  c.leftCorner pLcu1 pLcu2 iNumQPPerLCU iNumBytesPerLCU iPosX iQP
  forBelow iWidth.toNat () fun w _ =>
    c.meanWith (pLcu1 + w * iNumBytesPerLCU) (pLcu2 + w * iNumBytesPerLCU) iQP iNumQPPerLCU
  c.rightCorner pLcu1 pLcu2 iNumQPPerLCU iNumBytesPerLCU iPosX iWidth iQP

def updateTransitionVert (iHeight : ℤ) (iQP : BitVec 8) : Fill n Unit :=
  forBelow iHeight.toNat () fun h _ =>
    c.meanWith (pLcu1 + h * (c.iLcuWidth * iNumBytesPerLCU))
      (pLcu2 + h * (c.iLcuWidth * iNumBytesPerLCU)) iQP iNumQPPerLCU

end Transitions

/-- `GetNodePosInBuf`, in 32-bit numbers. -/
def getNodePosInBuf (c : RoiMngr) (uLcuX uLcuY : ℤ) (iNumBytesPerLCU : ℕ) : ℤ :=
  let uLcuNum := (uLcuY * c.iLcuWidth + uLcuX) % 2 ^ 32
  uLcuNum * iNumBytesPerLCU % 2 ^ 32

/-- What `SetLCUQuality` writes over `lcuQP`. -/
def lcuQuality (lcuQP uROIQP : BitVec 8) : BitVec 8 :=
  if isIntra uROIQP then (lcuQP &&& maskQP) ||| maskForceIntra
  else if isIntra lcuQP ∧ uROIQP &&& maskForceMv0 = 0 then uROIQP ||| maskForceIntra
  else uROIQP

def setLCUQuality (pLCUQP : ℤ) (uROIQP : BitVec 8) : Fill n Unit := do
  let lcuQP ← load pLCUQP
  store pLCUQP (lcuQuality lcuQP uROIQP)

section ComputeROI

variable (c : RoiMngr) (iNumQPPerLCU iNumBytesPerLCU : ℕ) (node : Roi)

def fillRoi : Fill n Unit :=
  let pLCU := c.getNodePosInBuf node.iPosX node.iPosY iNumBytesPerLCU
  forBelow node.iHeight.toNat () fun h _ =>
    forBelow node.iWidth.toNat () fun w _ =>
      forBelow iNumQPPerLCU () fun i _ =>
        setLCUQuality (pLCU + h * (iNumBytesPerLCU * c.iLcuWidth) + w * iNumBytesPerLCU + i)
          node.iDeltaQP

def updateAbove : Fill n Unit :=
  if node.iPosY ≠ 0 then
    let pLcuTop1 := c.getNodePosInBuf node.iPosX (node.iPosY - 1) iNumBytesPerLCU
    let pLcuTop2 :=
      if 1 < node.iPosY then c.getNodePosInBuf node.iPosX (node.iPosY - 2) iNumBytesPerLCU
      else pLcuTop1
    c.updateTransitionHorz pLcuTop1 pLcuTop2 iNumQPPerLCU iNumBytesPerLCU node.iPosX node.iWidth
      node.iDeltaQP
  else pure ()

def updateBelow : Fill n Unit :=
  if node.iPosY + node.iHeight + 1 < c.iLcuHeight then
    let pLcuBot1 := c.getNodePosInBuf node.iPosX (node.iPosY + node.iHeight) iNumBytesPerLCU
    let pLcuBot2 :=
      if node.iPosY + node.iHeight + 2 < c.iLcuHeight then
        c.getNodePosInBuf node.iPosX (node.iPosY + node.iHeight + 1) iNumBytesPerLCU
      else pLcuBot1
    c.updateTransitionHorz pLcuBot1 pLcuBot2 iNumQPPerLCU iNumBytesPerLCU node.iPosX node.iWidth
      node.iDeltaQP
  else pure ()

def updateLeft : Fill n Unit :=
  if node.iPosX ≠ 0 then
    let pLcuLeft1 := c.getNodePosInBuf (node.iPosX - 1) node.iPosY iNumBytesPerLCU
    let pLcuLeft2 :=
      if 1 < node.iPosX then c.getNodePosInBuf (node.iPosX - 2) node.iPosY iNumBytesPerLCU
      else pLcuLeft1
    c.updateTransitionVert pLcuLeft1 pLcuLeft2 iNumQPPerLCU iNumBytesPerLCU node.iHeight node.iDeltaQP
  else pure ()

def updateRight : Fill n Unit :=
  if node.iPosX + node.iWidth + 1 < c.iLcuWidth then
    let pLcuRight1 := c.getNodePosInBuf (node.iPosX + node.iWidth) node.iPosY iNumBytesPerLCU
    let pLcuRight2 :=
      if node.iPosX + node.iWidth + 2 < c.iLcuWidth then
        c.getNodePosInBuf (node.iPosX + node.iWidth + 1) node.iPosY iNumBytesPerLCU
      else pLcuRight1
    c.updateTransitionVert pLcuRight1 pLcuRight2 iNumQPPerLCU iNumBytesPerLCU node.iHeight
      node.iDeltaQP
  else pure ()

def updateTransitions : Fill n Unit := do
  c.updateAbove iNumQPPerLCU iNumBytesPerLCU node
  c.updateBelow iNumQPPerLCU iNumBytesPerLCU node
  c.updateLeft iNumQPPerLCU iNumBytesPerLCU node
  c.updateRight iNumQPPerLCU iNumBytesPerLCU node

def computeROI : Fill n Unit := do
  c.fillRoi iNumQPPerLCU iNumBytesPerLCU node
  if node.iDeltaQP &&& maskForce = 0 then c.updateTransitions iNumQPPerLCU iNumBytesPerLCU node
  else pure ()

end ComputeROI

def fillBuff (c : RoiMngr) (iNumQPPerLCU iNumBytesPerLCU : ℕ) : Fill n Unit := do
  forBelow c.iNumLCUs.toNat () fun iLCU _ =>
    forBelow iNumQPPerLCU () fun iQP _ =>
      store (iLCU * iNumBytesPerLCU + iQP) (getNewDeltaQP c.eBkgQuality)
  walk none c.next (fun pCur _ => do
    let node ← deref (pCur.bind fun i => c.nodes[i]?)
    c.computeROI iNumQPPerLCU iNumBytesPerLCU node.toRoi) (c.nodes.length + 1) c.pFirstNode ()

/-! ## What a region does to the table -/

/-- On one axis, where the quality comes from that meets the region at `a`: at the region
from `a` itself, at its border from one LCU further out, or from the border itself at
the end of the picture.  The last LCU of the picture is no border. -/
def beyondOn (pos size limit a : ℤ) : Option ℤ :=
  if pos ≤ a ∧ a < pos + size then some a
  else if a = pos - 1 ∧ 0 ≤ a then some (if 1 < pos then a - 1 else a)
  else if a = pos + size ∧ a + 1 < limit then some (if a + 2 < limit then a + 1 else a)
  else none

end RoiMngr

/-- The LCU is one of the region. -/
def Roi.Covers (roi : Roi) (p : ℤ × ℤ) : Prop :=
  (roi.iPosX ≤ p.1 ∧ p.1 < roi.iPosX + roi.iWidth) ∧
    roi.iPosY ≤ p.2 ∧ p.2 < roi.iPosY + roi.iHeight
deriving Decidable

namespace RoiMngr

/-- The LCU beyond the border at `p`. -/
def beyond (c : RoiMngr) (roi : Roi) (p : ℤ × ℤ) : Option (ℤ × ℤ) := do
  let x ← beyondOn roi.iPosX roi.iWidth c.iLcuWidth p.1
  let y ← beyondOn roi.iPosY roi.iHeight c.iLcuHeight p.2
  return (x, y)

/-- A table with a region painted over it. -/
def paint (c : RoiMngr) (table : ℤ × ℤ → BitVec 8) (roi : Roi) (p : ℤ × ℤ) : BitVec 8 :=
  if roi.Covers p then lcuQuality (table p) roi.iDeltaQP
  else if roi.iDeltaQP &&& maskForce = 0 then
    match c.beyond roi p with
    | some q => c.meanQP (table p) (table q) roi.iDeltaQP
    | none => table p
  else table p

/-! ## Painting one region -/

/-- The table has a place for all LCUs. -/
structure TableFits (c : RoiMngr) (n iNumQPPerLCU iNumBytesPerLCU : ℕ) : Prop where
  used_pos : 0 < iNumQPPerLCU
  used_le : iNumQPPerLCU ≤ iNumBytesPerLCU
  fits : c.iLcuWidth * c.iLcuHeight * iNumBytesPerLCU ≤ n
  small : n < 2 ^ 31

/-- A region of the picture. -/
structure RoiFits (c : RoiMngr) (roi : Roi) : Prop where
  left : 0 ≤ roi.iPosX
  left_lt : roi.iPosX < c.iLcuWidth
  top : 0 ≤ roi.iPosY
  top_lt : roi.iPosY < c.iLcuHeight
  width : 0 ≤ roi.iWidth
  right : roi.iPosX + roi.iWidth ≤ c.iLcuWidth
  height : 0 ≤ roi.iHeight
  bottom : roi.iPosY + roi.iHeight ≤ c.iLcuHeight

def TableFits.layout {c : RoiMngr} {num bytes : ℕ} (h : c.TableFits n num bytes) : Layout n where
  width := c.iLcuWidth
  height := c.iLcuHeight
  bytes := bytes
  used := num
  used_le := h.used_le
  fits := h.fits

section Painting

variable {c : RoiMngr} {num bytes : ℕ} {roi : Roi} {pBuf₀ : Vector (BitVec 8) n}
  {table : ℤ × ℤ → BitVec 8} {p q : ℤ × ℤ} {x y : ℤ}

theorem TableFits.nodePos (h : c.TableFits n num bytes) (hp : h.layout.Inside (x, y)) :
    c.getNodePosInBuf x y bytes = h.layout.cell (x, y) := by
  have h0 := h.layout.number_nonneg hp
  have hb := h.layout.cell_bounds hp h.used_pos
  have hbytes : (1 : ℤ) ≤ bytes := by
    have := h.used_pos
    have := h.used_le
    omega
  have hle : (y * c.iLcuWidth + x) * 1 ≤ (y * c.iLcuWidth + x) * (bytes : ℤ) :=
    mul_le_mul_of_nonneg_left hbytes h0
  have hcell : h.layout.cell (x, y) = (y * c.iLcuWidth + x) * (bytes : ℤ) := rfl
  have hsmall := h.small
  have hnumber : (y * c.iLcuWidth + x) % 2 ^ 32 = y * c.iLcuWidth + x := by
    apply Int.emod_eq_of_lt
    · exact h0
    · omega
  unfold getNodePosInBuf
  rw [hnumber, hcell]
  apply Int.emod_eq_of_lt <;> omega

theorem TableFits.cell_add (h : c.TableFits n num bytes) (x y k : ℤ) :
    h.layout.cell (x, y) + k * bytes = h.layout.cell (x + k, y) := by
  simp only [Layout.cell, TableFits.layout]
  ring

theorem TableFits.cell_add_rows (h : c.TableFits n num bytes) (x y k : ℤ) :
    h.layout.cell (x, y) + k * (c.iLcuWidth * bytes) = h.layout.cell (x, y + k) := by
  simp only [Layout.cell, TableFits.layout]
  ring

theorem paint_of_covers (hp : roi.Covers p) : c.paint table roi p = lcuQuality (table p) roi.iDeltaQP :=
  if_pos hp

theorem paint_of_beyond (hp : ¬roi.Covers p) (hforce : roi.iDeltaQP &&& maskForce = 0)
    (hq : c.beyond roi p = some q) :
    c.paint table roi p = c.meanQP (table p) (table q) roi.iDeltaQP := by
  rw [paint, if_neg hp, if_pos hforce, hq]

theorem paint_of_none (hp : ¬roi.Covers p) (hq : c.beyond roi p = none) :
    c.paint table roi p = table p := by
  rw [paint, if_neg hp, hq, ite_self]

theorem paints_lcu (h : c.TableFits n num bytes) (hp : h.layout.Inside p) (hcovers : roi.Covers p) :
    h.layout.Paints pBuf₀ table (c.paint table roi)
      (forBelow num () fun i _ => setLCUQuality (h.layout.cell p + i) roi.iDeltaQP) {p} := by
  apply Layout.Paints.cell
  intro T pBuf hT _ hshows
  rw [paint_of_covers hcovers, ← hT]
  apply (hshows.part_zero p (lcuQuality (T p) roi.iDeltaQP)).fill_cell (Nat.zero_add num)
  intro i hi pBuf hpart
  rw [Nat.zero_add] at hpart ⊢
  apply ends_bind.mpr
  apply hpart.load hp hi
  have hold : Layout.part T p (lcuQuality (T p) roi.iDeltaQP) i p i = T p :=
    if_neg fun hlt => Nat.lt_irrefl i hlt.2
  rw [hold]
  exact hpart.store_part hp hi

theorem paints_mean (h : c.TableFits n num bytes) (hp : h.layout.Inside p) (hq : h.layout.Inside q)
    (hcovers : ¬roi.Covers p) (hforce : roi.iDeltaQP &&& maskForce = 0)
    (hbeyond : c.beyond roi p = some q) (hkeep : q = p ∨ ¬roi.Covers q ∧ c.beyond roi q = none) :
    h.layout.Paints pBuf₀ table (c.paint table roi)
      (c.meanWith (h.layout.cell p) (h.layout.cell q) roi.iDeltaQP num) {p} := by
  apply Layout.Paints.cell
  intro T pBuf hT hTq hshows
  have hsource : T q = table q := by
    rcases hkeep with rfl | ⟨hnot, hnone⟩
    · exact hT
    · rcases hTq q with hbefore | hafter
      · exact hbefore
      · rw [hafter, paint_of_none hnot hnone]
  rw [paint_of_beyond hcovers hforce hbeyond, ← hT, ← hsource]
  have hzero : ∀ p, h.layout.cell p = h.layout.cell p + (0 : ℕ) := fun p => (add_zero _).symm
  apply ends_bind.mpr
  rw [hzero q]
  apply hshows.load hq h.used_pos
  apply ends_bind.mpr
  rw [hzero p]
  apply hshows.load hp h.used_pos
  apply ends_bind.mpr
  apply ((hshows.part_zero p _).store_part hp h.used_pos).imp
  intro _ pBuf' hfirst
  apply hfirst.fill_cell
  · have hpos := h.used_pos
    change 1 + (num - 1) = num
    omega
  · intro i hi pBuf'' hpart
    have hlt : 0 + 1 + i < num := by omega
    apply ends_bind.mpr
    apply hpart.load hp h.used_pos
    have hheld : Layout.part T p (c.meanQP (T p) (T q) roi.iDeltaQP) (0 + 1 + i) p 0 =
        c.meanQP (T p) (T q) roi.iDeltaQP := if_pos ⟨rfl, by omega⟩
    rw [hheld, ← hzero, ← Nat.zero_add 1]
    exact hpart.store_part hp hlt

/-! ### Borders -/

theorem beyondOn_inside {pos size limit a : ℤ} (h : pos ≤ a ∧ a < pos + size) :
    beyondOn pos size limit a = some a :=
  if_pos h

/-- What is beyond the border is not reached itself. -/
theorem beyondOn_keep {pos size limit a b : ℤ} (hsize : 0 ≤ size)
    (h : beyondOn pos size limit a = some b) : b = a ∨ beyondOn pos size limit b = none := by
  unfold beyondOn at h ⊢
  split_ifs at h with hin hlow hnext hhigh hnext
  · exact .inl (Option.some.inj h).symm
  · obtain rfl := Option.some.inj h
    right
    rw [if_neg (by omega), if_neg (by omega), if_neg (by omega)]
  · exact .inl (Option.some.inj h).symm
  · obtain rfl := Option.some.inj h
    right
    rw [if_neg (by omega), if_neg (by omega), if_neg (by omega)]
  · exact .inl (Option.some.inj h).symm

theorem beyondOn_bounds {pos size limit a b : ℤ} (hpos : 0 ≤ pos) (hlimit : pos < limit)
    (hsize : 0 ≤ size) (hend : pos + size ≤ limit) (h : beyondOn pos size limit a = some b) :
    (0 ≤ a ∧ a < limit) ∧ 0 ≤ b ∧ b < limit := by
  unfold beyondOn at h
  split_ifs at h with hin hlow hnext hhigh hnext <;> obtain rfl := Option.some.inj h <;> omega

theorem isSome_beyondOn {pos size limit a : ℤ} : (beyondOn pos size limit a).isSome = true ↔
    (a = pos - 1 ∧ 0 ≤ a) ∨ (pos ≤ a ∧ a < pos + size) ∨ (a = pos + size ∧ a + 1 < limit) := by
  unfold beyondOn
  split_ifs with hin hlow hnext hhigh hnext <;> simp <;> omega

theorem beyond_eq_some {xb yb : ℤ} : c.beyond roi p = some (xb, yb) ↔
    beyondOn roi.iPosX roi.iWidth c.iLcuWidth p.1 = some xb ∧
      beyondOn roi.iPosY roi.iHeight c.iLcuHeight p.2 = some yb := by
  unfold beyond
  cases beyondOn roi.iPosX roi.iWidth c.iLcuWidth p.1 with
  | none => simp
  | some x =>
    cases beyondOn roi.iPosY roi.iHeight c.iLcuHeight p.2 with
    | none => simp
    | some y => simp

theorem isSome_beyond : (c.beyond roi p).isSome = true ↔
    (beyondOn roi.iPosX roi.iWidth c.iLcuWidth p.1).isSome = true ∧
      (beyondOn roi.iPosY roi.iHeight c.iLcuHeight p.2).isSome = true := by
  unfold beyond
  cases beyondOn roi.iPosX roi.iWidth c.iLcuWidth p.1 with
  | none => simp
  | some x =>
    cases beyondOn roi.iPosY roi.iHeight c.iLcuHeight p.2 with
    | none => simp
    | some y => simp

theorem beyond_of_covers (hp : roi.Covers p) : c.beyond roi p = some p :=
  beyond_eq_some.mpr ⟨beyondOn_inside hp.1, beyondOn_inside hp.2⟩

theorem beyond_keep (hroi : c.RoiFits roi) (h : c.beyond roi p = some q) :
    q = p ∨ ¬roi.Covers q ∧ c.beyond roi q = none := by
  obtain ⟨hx, hy⟩ := beyond_eq_some.mp h
  have hout : c.beyond roi q = none → ¬roi.Covers q ∧ c.beyond roi q = none := by
    intro hnone
    refine ⟨fun hcovers => ?_, hnone⟩
    rw [beyond_of_covers hcovers] at hnone
    cases hnone
  rcases beyondOn_keep hroi.width hx with hqx | hqx
  · rcases beyondOn_keep hroi.height hy with hqy | hqy
    · exact .inl (Prod.ext hqx hqy)
    · apply Or.inr
      apply hout
      rw [← Option.not_isSome_iff_eq_none, isSome_beyond, hqy]
      simp
  · apply Or.inr
    apply hout
    rw [← Option.not_isSome_iff_eq_none, isSome_beyond, hqx]
    simp

variable {xb yb : ℤ}

theorem paints_border (h : c.TableFits n num bytes) (hroi : c.RoiFits roi)
    (hforce : roi.iDeltaQP &&& maskForce = 0)
    (hx : beyondOn roi.iPosX roi.iWidth c.iLcuWidth x = some xb)
    (hy : beyondOn roi.iPosY roi.iHeight c.iLcuHeight y = some yb) (hcovers : ¬roi.Covers (x, y)) :
    h.layout.Paints pBuf₀ table (c.paint table roi)
      (c.meanWith (h.layout.cell (x, y)) (h.layout.cell (xb, yb)) roi.iDeltaQP num) {(x, y)} := by
  obtain ⟨hpx, hqx⟩ := beyondOn_bounds hroi.left hroi.left_lt hroi.width hroi.right hx
  obtain ⟨hpy, hqy⟩ := beyondOn_bounds hroi.top hroi.top_lt hroi.height hroi.bottom hy
  have hbeyond : c.beyond roi (x, y) = some (xb, yb) := beyond_eq_some.mpr ⟨hx, hy⟩
  exact paints_mean h ⟨hpx.1, hpx.2, hpy⟩ ⟨hqx.1, hqx.2, hqy⟩ hcovers hforce hbeyond
    (beyond_keep hroi hbeyond)

section Rows

variable (pBuf₀ table)

variable (h : c.TableFits n num bytes) (hroi : c.RoiFits roi)
  (hforce : roi.iDeltaQP &&& maskForce = 0)
  (hy : beyondOn roi.iPosY roi.iHeight c.iLcuHeight y = some yb)
  (hout : ¬(roi.iPosY ≤ y ∧ y < roi.iPosY + roi.iHeight))

include hroi hforce hy hout

/-- A corner, which has the quality of `x₂` when there is one. -/
theorem paints_corner {near far : Prop} [Decidable near] [Decidable far] {x₂ : ℤ} (hfar : far → near)
    (hx : near → beyondOn roi.iPosX roi.iWidth c.iLcuWidth x = some (if far then x₂ else x)) :
    h.layout.Paints pBuf₀ table (c.paint table roi)
      (if far then c.meanWith (h.layout.cell (x, y)) (h.layout.cell (x₂, yb)) roi.iDeltaQP num
        else if near then c.meanWith (h.layout.cell (x, y)) (h.layout.cell (x, yb)) roi.iDeltaQP num
        else pure ()) {p | near ∧ p ∈ ({(x, y)} : Set (ℤ × ℤ))} := by
  have hcovers : ¬roi.Covers (x, y) := fun hc => hout hc.2
  have hpaints : h.layout.Paints pBuf₀ table (c.paint table roi)
      (if near then c.meanWith (h.layout.cell (x, y)) (h.layout.cell (if far then x₂ else x, yb))
        roi.iDeltaQP num else pure ()) {p | near ∧ p ∈ ({(x, y)} : Set (ℤ × ℤ))} :=
    Layout.Paints.guard fun hnear => paints_border h hroi hforce (hx hnear) hy hcovers
  by_cases hf : far
  · rw [if_pos (hfar hf), if_pos hf] at hpaints
    rwa [if_pos hf]
  · rw [if_neg hf] at hpaints
    rwa [if_neg hf]

theorem paints_leftCorner : h.layout.Paints pBuf₀ table (c.paint table roi)
    (c.leftCorner (h.layout.cell (roi.iPosX, y)) (h.layout.cell (roi.iPosX, yb)) num bytes roi.iPosX
      roi.iDeltaQP) {p | 0 < roi.iPosX ∧ p ∈ ({(roi.iPosX - 1, y)} : Set (ℤ × ℤ))} := by
  have hcell : ∀ y, h.layout.cell (roi.iPosX, y) - bytes = h.layout.cell (roi.iPosX - 1, y) := by
    intro y
    have hadd := h.cell_add roi.iPosX y (-1)
    rw [← Int.sub_eq_add_neg] at hadd
    linarith
  have hcell2 : h.layout.cell (roi.iPosX, yb) - 2 * bytes = h.layout.cell (roi.iPosX - 2, yb) := by
    have hadd := h.cell_add roi.iPosX yb (-2)
    rw [← Int.sub_eq_add_neg] at hadd
    linarith
  unfold leftCorner
  rw [hcell, hcell, hcell2]
  apply paints_corner pBuf₀ table h hroi hforce hy hout (by omega)
  intro h0
  rw [beyondOn, if_neg (by omega), if_pos (by omega), Int.sub_sub]
  rfl

theorem paints_rightCorner : h.layout.Paints pBuf₀ table (c.paint table roi)
    (c.rightCorner (h.layout.cell (roi.iPosX, y)) (h.layout.cell (roi.iPosX, yb)) num bytes roi.iPosX
      roi.iWidth roi.iDeltaQP)
    {p | roi.iPosX + roi.iWidth + 1 < c.iLcuWidth ∧ p ∈ ({(roi.iPosX + roi.iWidth, y)} : Set (ℤ × ℤ))} := by
  have hwidth := hroi.width
  unfold rightCorner
  rw [h.cell_add, h.cell_add, h.cell_add, ← add_assoc]
  apply paints_corner pBuf₀ table h hroi hforce hy hout (by omega)
  intro h1
  rw [beyondOn, if_neg (by omega), if_neg (by omega), if_pos (by omega)]

theorem paints_row : h.layout.Paints pBuf₀ table (c.paint table roi)
    (c.updateTransitionHorz (h.layout.cell (roi.iPosX, y)) (h.layout.cell (roi.iPosX, yb)) num bytes
      roi.iPosX roi.iWidth roi.iDeltaQP)
    {p | p.2 = y ∧ (beyondOn roi.iPosX roi.iWidth c.iLcuWidth p.1).isSome = true} := by
  have hwidth := hroi.width
  have hline : h.layout.Paints pBuf₀ table (c.paint table roi)
      (forBelow roi.iWidth.toNat () fun w _ => c.meanWith
        (h.layout.cell (roi.iPosX, y) + w * bytes) (h.layout.cell (roi.iPosX, yb) + w * bytes)
        roi.iDeltaQP num) {p | p.2 = y ∧ roi.iPosX ≤ p.1 ∧ p.1 < roi.iPosX + roi.iWidth} := by
    have hround : ∀ w < roi.iWidth.toNat, h.layout.Paints pBuf₀ table (c.paint table roi)
        (c.meanWith (h.layout.cell (roi.iPosX, y) + w * bytes) (h.layout.cell (roi.iPosX, yb) + w * bytes)
          roi.iDeltaQP num) {(roi.iPosX + w, y)} := by
      intro w hw
      rw [h.cell_add, h.cell_add]
      have hx : beyondOn roi.iPosX roi.iWidth c.iLcuWidth (roi.iPosX + w) = some (roi.iPosX + w) :=
        beyondOn_inside (by omega)
      exact paints_border h hroi hforce hx hy fun hc => hout hc.2
    refine Layout.Paints.congr (Layout.Paints.forBelow_cells hround fun i j e => by simpa using e) ?_
    ext ⟨px, py⟩
    simp only [Set.mem_ofPred_eq, Prod.mk.injEq]
    constructor
    · rintro ⟨w, hw, rfl, rfl⟩
      omega
    · rintro ⟨rfl, hx⟩
      exact ⟨(px - roi.iPosX).toNat, by omega, by omega, rfl⟩
  have hall := (paints_leftCorner pBuf₀ table h hroi hforce hy hout).bind
    (hline.bind (paints_rightCorner pBuf₀ table h hroi hforce hy hout) ?_) ?_
  · apply hall.congr
    ext ⟨px, py⟩
    simp only [Set.mem_union, Set.mem_ofPred_eq, Set.mem_singleton_iff, Prod.mk.injEq, isSome_beyondOn]
    omega
  · rw [Set.disjoint_left]
    rintro ⟨px, py⟩ hright hmiddle
    simp only [Set.mem_ofPred_eq, Set.mem_singleton_iff, Prod.mk.injEq] at hright hmiddle
    omega
  · rw [Set.disjoint_left]
    rintro ⟨px, py⟩ hright hleft
    simp only [Set.mem_union, Set.mem_ofPred_eq, Set.mem_singleton_iff, Prod.mk.injEq] at hright hleft
    omega

end Rows

/-- The column on the left or on the right of the region. -/
theorem paints_column (h : c.TableFits n num bytes) (hroi : c.RoiFits roi)
    (hforce : roi.iDeltaQP &&& maskForce = 0)
    (hx : beyondOn roi.iPosX roi.iWidth c.iLcuWidth x = some xb)
    (hout : ¬(roi.iPosX ≤ x ∧ x < roi.iPosX + roi.iWidth)) :
    h.layout.Paints pBuf₀ table (c.paint table roi)
      (c.updateTransitionVert (h.layout.cell (x, roi.iPosY)) (h.layout.cell (xb, roi.iPosY)) num bytes
        roi.iHeight roi.iDeltaQP) {p | p.1 = x ∧ roi.iPosY ≤ p.2 ∧ p.2 < roi.iPosY + roi.iHeight} := by
  have hheight := hroi.height
  have hround : ∀ k < roi.iHeight.toNat, h.layout.Paints pBuf₀ table (c.paint table roi)
      (c.meanWith (h.layout.cell (x, roi.iPosY) + k * (c.iLcuWidth * bytes))
        (h.layout.cell (xb, roi.iPosY) + k * (c.iLcuWidth * bytes)) roi.iDeltaQP num)
      {(x, roi.iPosY + k)} := by
    intro k hk
    rw [h.cell_add_rows, h.cell_add_rows]
    have hy : beyondOn roi.iPosY roi.iHeight c.iLcuHeight (roi.iPosY + k) = some (roi.iPosY + k) :=
      beyondOn_inside (by omega)
    exact paints_border h hroi hforce hx hy fun hc => hout hc.1
  refine Layout.Paints.congr (Layout.Paints.forBelow_cells hround fun i j e => by simpa using e) ?_
  ext ⟨px, py⟩
  simp only [Set.mem_ofPred_eq, Prod.mk.injEq]
  constructor
  · rintro ⟨k, hk, rfl, rfl⟩
    omega
  · rintro ⟨rfl, hy⟩
    exact ⟨(py - roi.iPosY).toNat, by omega, rfl, by omega⟩

section Region

variable (pBuf₀ table)

variable (h : c.TableFits n num bytes) (hroi : c.RoiFits roi)

include hroi

theorem paints_fillRoi : h.layout.Paints pBuf₀ table (c.paint table roi)
    (c.fillRoi num bytes roi) {p | roi.Covers p} := by
  have hwidth := hroi.width
  have hheight := hroi.height
  have hbase : c.getNodePosInBuf roi.iPosX roi.iPosY bytes = h.layout.cell (roi.iPosX, roi.iPosY) :=
    h.nodePos ⟨hroi.left, hroi.left_lt, hroi.top, hroi.top_lt⟩
  have hcell : ∀ k w : ℕ, c.getNodePosInBuf roi.iPosX roi.iPosY bytes + k * (bytes * c.iLcuWidth) +
      w * bytes = h.layout.cell (roi.iPosX + w, roi.iPosY + k) := by
    intro k w
    rw [hbase, mul_comm (bytes : ℤ), h.cell_add_rows, h.cell_add]
  have hloop : h.layout.Paints pBuf₀ table (c.paint table roi) (c.fillRoi num bytes roi)
      {p | ∃ k < roi.iHeight.toNat,
        p ∈ {p : ℤ × ℤ | ∃ w < roi.iWidth.toNat, p = (roi.iPosX + w, roi.iPosY + k)}} := by
    apply Layout.Paints.forBelow
    · intro k hk
      apply Layout.Paints.forBelow_cells
      · intro w hw
        rw [hcell]
        have hright := hroi.right
        have hbottom := hroi.bottom
        have hleft := hroi.left
        have htop := hroi.top
        apply paints_lcu h
        · refine ⟨?_, ?_, ?_, ?_⟩ <;> simp only [TableFits.layout] <;> omega
        · refine ⟨⟨?_, ?_⟩, ?_, ?_⟩ <;> dsimp only <;> omega
      · intro i j e
        simpa using e
    · intro i _ j hj
      rw [Set.disjoint_left]
      rintro p ⟨w, -, rfl⟩ ⟨w', -, e⟩
      have hy := congrArg Prod.snd e
      dsimp only at hy
      omega
  apply hloop.congr
  ext ⟨px, py⟩
  simp only [Set.mem_ofPred_eq, Prod.mk.injEq, Roi.Covers]
  constructor
  · rintro ⟨k, hk, w, hw, rfl, rfl⟩
    omega
  · rintro ⟨hx, hy⟩
    exact ⟨(py - roi.iPosY).toNat, by omega, (px - roi.iPosX).toNat, by omega, by omega, by omega⟩

variable (hforce : roi.iDeltaQP &&& maskForce = 0)

include hforce

/-- A row of the border under its condition, with the quality of the row `y₂` when there is one. -/
theorem paints_horz {shown far : Prop} [Decidable shown] [Decidable far] {y₂ : ℤ}
    (hy : shown → beyondOn roi.iPosY roi.iHeight c.iLcuHeight y = some (if far then y₂ else y))
    (hout : ¬(roi.iPosY ≤ y ∧ y < roi.iPosY + roi.iHeight)) :
    h.layout.Paints pBuf₀ table (c.paint table roi)
      (if shown then c.updateTransitionHorz (c.getNodePosInBuf roi.iPosX y bytes)
        (if far then c.getNodePosInBuf roi.iPosX y₂ bytes else c.getNodePosInBuf roi.iPosX y bytes) num
        bytes roi.iPosX roi.iWidth roi.iDeltaQP else pure ())
      {p | shown ∧ p.2 = y ∧ (beyondOn roi.iPosX roi.iWidth c.iLcuWidth p.1).isSome = true} := by
  apply Layout.Paints.guard
  intro hshown
  obtain ⟨hin, hin₂⟩ := beyondOn_bounds hroi.top hroi.top_lt hroi.height hroi.bottom (hy hshown)
  have hpos : ∀ y, 0 ≤ y ∧ y < c.iLcuHeight →
      c.getNodePosInBuf roi.iPosX y bytes = h.layout.cell (roi.iPosX, y) :=
    fun y hy => h.nodePos ⟨hroi.left, hroi.left_lt, hy⟩
  rw [← apply_ite (c.getNodePosInBuf roi.iPosX · bytes), hpos _ hin, hpos _ hin₂]
  exact paints_row pBuf₀ table h hroi hforce (hy hshown) hout

theorem paints_vert {shown far : Prop} [Decidable shown] [Decidable far] {x₂ : ℤ}
    (hx : shown → beyondOn roi.iPosX roi.iWidth c.iLcuWidth x = some (if far then x₂ else x))
    (hout : ¬(roi.iPosX ≤ x ∧ x < roi.iPosX + roi.iWidth)) :
    h.layout.Paints pBuf₀ table (c.paint table roi)
      (if shown then c.updateTransitionVert (c.getNodePosInBuf x roi.iPosY bytes)
        (if far then c.getNodePosInBuf x₂ roi.iPosY bytes else c.getNodePosInBuf x roi.iPosY bytes) num
        bytes roi.iHeight roi.iDeltaQP else pure ())
      {p | shown ∧ p.1 = x ∧ roi.iPosY ≤ p.2 ∧ p.2 < roi.iPosY + roi.iHeight} := by
  apply Layout.Paints.guard
  intro hshown
  obtain ⟨hin, hin₂⟩ := beyondOn_bounds hroi.left hroi.left_lt hroi.width hroi.right (hx hshown)
  have hpos : ∀ x, 0 ≤ x ∧ x < c.iLcuWidth →
      c.getNodePosInBuf x roi.iPosY bytes = h.layout.cell (x, roi.iPosY) :=
    fun x hx => h.nodePos ⟨hx.1, hx.2, hroi.top, hroi.top_lt⟩
  rw [← apply_ite (c.getNodePosInBuf · roi.iPosY bytes), hpos _ hin, hpos _ hin₂]
  exact paints_column h hroi hforce (hx hshown) hout

theorem paints_updateAbove : h.layout.Paints pBuf₀ table (c.paint table roi)
    (c.updateAbove num bytes roi) {p | roi.iPosY ≠ 0 ∧ p.2 = roi.iPosY - 1 ∧
      (beyondOn roi.iPosX roi.iWidth c.iLcuWidth p.1).isSome = true} := by
  have htop := hroi.top
  apply paints_horz pBuf₀ table h hroi hforce ?_ (by omega)
  intro hne
  rw [beyondOn, if_neg (by omega), if_pos (by omega), Int.sub_sub]
  rfl

theorem paints_updateBelow : h.layout.Paints pBuf₀ table (c.paint table roi)
    (c.updateBelow num bytes roi) {p | roi.iPosY + roi.iHeight + 1 < c.iLcuHeight ∧
      p.2 = roi.iPosY + roi.iHeight ∧
      (beyondOn roi.iPosX roi.iWidth c.iLcuWidth p.1).isSome = true} := by
  have hheight := hroi.height
  apply paints_horz pBuf₀ table h hroi hforce ?_ (by omega)
  intro hlt
  rw [beyondOn, if_neg (by omega), if_neg (by omega), if_pos (by omega)]

theorem paints_updateLeft : h.layout.Paints pBuf₀ table (c.paint table roi)
    (c.updateLeft num bytes roi) {p | roi.iPosX ≠ 0 ∧ p.1 = roi.iPosX - 1 ∧
      roi.iPosY ≤ p.2 ∧ p.2 < roi.iPosY + roi.iHeight} := by
  have hleft := hroi.left
  apply paints_vert pBuf₀ table h hroi hforce ?_ (by omega)
  intro hne
  rw [beyondOn, if_neg (by omega), if_pos (by omega), Int.sub_sub]
  rfl

theorem paints_updateRight : h.layout.Paints pBuf₀ table (c.paint table roi)
    (c.updateRight num bytes roi) {p | roi.iPosX + roi.iWidth + 1 < c.iLcuWidth ∧
      p.1 = roi.iPosX + roi.iWidth ∧ roi.iPosY ≤ p.2 ∧ p.2 < roi.iPosY + roi.iHeight} := by
  have hwidth := hroi.width
  apply paints_vert pBuf₀ table h hroi hforce ?_ (by omega)
  intro hlt
  rw [beyondOn, if_neg (by omega), if_neg (by omega), if_pos (by omega)]

theorem paints_updateTransitions : h.layout.Paints pBuf₀ table (c.paint table roi)
    (c.updateTransitions num bytes roi) {p | ¬roi.Covers p ∧ (c.beyond roi p).isSome = true} := by
  have hwidth := hroi.width
  have hheight := hroi.height
  have hleft := hroi.left
  have htop := hroi.top
  have hall := (paints_updateAbove pBuf₀ table h hroi hforce).bind
    ((paints_updateBelow pBuf₀ table h hroi hforce).bind
      ((paints_updateLeft pBuf₀ table h hroi hforce).bind (paints_updateRight pBuf₀ table h hroi hforce) ?_) ?_) ?_
  · apply hall.congr
    ext ⟨px, py⟩
    simp only [Set.mem_union, Set.mem_ofPred_eq, isSome_beyond, isSome_beyondOn, Roi.Covers]
    omega
  · rw [Set.disjoint_left]
    rintro ⟨px, py⟩ hright hleft
    simp only [Set.mem_ofPred_eq] at hright hleft
    omega
  · rw [Set.disjoint_left]
    rintro ⟨px, py⟩ hside hbelow
    simp only [Set.mem_union, Set.mem_ofPred_eq] at hside hbelow
    omega
  · rw [Set.disjoint_left]
    rintro ⟨px, py⟩ hrest habove
    simp only [Set.mem_union, Set.mem_ofPred_eq] at hrest habove
    omega

end Region

theorem computeROI_ends (h : c.TableFits n num bytes) (hroi : c.RoiFits roi)
    {pBuf : Vector (BitVec 8) n} (hshows : h.layout.ShowsCells pBuf₀ pBuf table) :
    Ends (c.computeROI num bytes roi) pBuf fun _ pBuf' =>
      h.layout.ShowsCells pBuf₀ pBuf' (c.paint table roi) := by
  have hfill := paints_fillRoi pBuf₀ table h hroi
  by_cases hforce : roi.iDeltaQP &&& maskForce = 0
  · have hborder := paints_updateTransitions pBuf₀ table h hroi hforce
    unfold computeROI
    rw [if_pos hforce]
    apply (hfill.bind hborder ?_).ends ?_ hshows
    · rw [Set.disjoint_left]
      intro p hborder hcovers
      exact hborder.1 hcovers
    · intro p hp
      have hcovers : ¬roi.Covers p := fun hc => hp (.inl hc)
      apply paint_of_none hcovers
      rw [← Option.not_isSome_iff_eq_none]
      intro hsome
      exact hp (.inr ⟨hcovers, hsome⟩)
  · unfold computeROI
    rw [if_neg hforce]
    apply (hfill.bind Layout.Paints.pure (Set.empty_disjoint _)).ends ?_ hshows
    intro p hp
    have hcovers : ¬roi.Covers p := fun hc => hp (.inl hc)
    rw [paint, if_neg hcovers, if_neg hforce]

end Painting

/-! ## The table of all regions -/

/-- The regions of some nodes. -/
def regionsOf (c : RoiMngr) (l : List ℕ) : List Roi := l.filterMap fun i => (c.nodes[i]?).map (·.toRoi)

section Fill

variable {c : RoiMngr} {num bytes : ℕ} {prev : Option ℕ → Option ℕ} {l : List ℕ}

theorem background_ends (h : c.TableFits n num bytes) (hnumber : c.iNumLCUs = c.iLcuWidth * c.iLcuHeight)
    (hwidth : 0 ≤ c.iLcuWidth) (pBuf : Vector (BitVec 8) n) :
    Ends (forBelow c.iNumLCUs.toNat () fun iLCU _ =>
      forBelow num () fun iQP _ => store (iLCU * bytes + iQP) (getNewDeltaQP c.eBkgQuality)) pBuf
      fun _ pBuf' => h.layout.ShowsCells pBuf pBuf' fun _ => getNewDeltaQP c.eBkgQuality := by
  rw [hnumber]
  exact h.layout.ends_clear hwidth _

/-- The walk over the nodes paints one region after the other. -/
theorem each_ends (h : c.TableFits n num bytes) (hroi : ∀ node ∈ c.nodes, c.RoiFits node.toRoi)
    (hl : ∀ i ∈ l, i < c.nodes.length) {pBuf₀ pBuf : Vector (BitVec 8) n}
    {table : ℤ × ℤ → BitVec 8} (hshows : h.layout.ShowsCells pBuf₀ pBuf table) :
    Ends (each (fun (pCur : Option ℕ) (_ : Unit) => (do
      let node ← deref (pCur.bind fun i => c.nodes[i]?)
      c.computeROI num bytes node.toRoi : Fill n Unit)) (l.map some) ()) pBuf fun _ pBuf' =>
        h.layout.ShowsCells pBuf₀ pBuf' ((c.regionsOf l).foldl c.paint table) := by
  induction l generalizing pBuf table with
  | nil => exact (ends_pure ()).mpr hshows
  | cons i l ih =>
    rw [List.forall_mem_cons] at hl
    obtain ⟨node, hnode⟩ : ∃ node, c.nodes[i]? = some node := ⟨_, List.getElem?_eq_getElem hl.1⟩
    have hregions : c.regionsOf (i :: l) = node.toRoi :: c.regionsOf l := by
      simp [regionsOf, hnode]
    rw [hregions, List.foldl_cons, List.map_cons]
    apply ends_bind.mpr
    apply ends_bind.mpr
    apply ends_deref.mpr
    refine ⟨node, hnode, ?_⟩
    apply (computeROI_ends h (hroi node (List.mem_of_getElem? hnode)) hshows).imp
    intro _ pBuf' hshows'
    exact ih hl.2 hshows'

/-- The table shows the background with all regions of the list painted over it. -/
theorem fillBuff_ends (h : c.TableFits n num bytes) (hnumber : c.iNumLCUs = c.iLcuWidth * c.iLcuHeight)
    (hwidth : 0 ≤ c.iLcuWidth) (hroi : ∀ node ∈ c.nodes, c.RoiFits node.toRoi)
    (hl : c.Listed prev l) (pBuf : Vector (BitVec 8) n) :
    Ends (c.fillBuff num bytes) pBuf fun _ pBuf' =>
      h.layout.ShowsCells pBuf pBuf'
        ((c.regionsOf l).foldl c.paint fun _ => getNewDeltaQP c.eBkgQuality) := by
  have hlen : (l.map some).length < c.nodes.length + 1 := by
    rw [List.length_map]
    exact hl.length_lt
  apply ends_bind.mpr
  apply (background_ends h hnumber hwidth pBuf).imp
  intro _ pBuf' hshows
  have hfirst : c.pFirstNode = (l.map some).headD none := by rw [headD_some, hl.first]
  rw [hfirst, walk_eq_each hl.threaded.links hl.threaded.nil_notMem hlen]
  exact each_ends h hroi hl.valid hshows

end Fill

/-! ## The quality of an LCU -/

section Quality

variable {c : RoiMngr} {roi : Roi} {before after : List Roi} {table : ℤ × ℤ → BitVec 8} {p : ℤ × ℤ}

theorem or_and_distrib (x y z : BitVec 8) : (x ||| y) &&& z = x &&& z ||| y &&& z := by
  rw [BitVec.and_comm, BitVec.and_or_distrib_left, BitVec.and_comm z x, BitVec.and_comm z y]

theorem getDQp_congr {x y : BitVec 8} (h : x &&& maskQP = y &&& maskQP) : getDQp x = getDQp y := by
  unfold getDQp
  rw [h]

theorem getDQp_or_force (x y : BitVec 8) (hy : y &&& maskQP = 0) : getDQp (x ||| y) = getDQp x := by
  apply getDQp_congr
  rw [or_and_distrib, hy]
  exact BitVec.or_zero

theorem isIntra_or (x y : BitVec 8) : isIntra (x ||| y) = (isIntra x || isIntra y) := by
  unfold isIntra
  rw [or_and_distrib, Bool.eq_iff_iff]
  simp [BitVec.or_eq_zero_iff]

theorem getNewDeltaQP_cases (eQuality : ℤ) : getNewDeltaQP eQuality = maskForceIntra ∨
    isIntra (getNewDeltaQP eQuality) = false ∧ getNewDeltaQP eQuality &&& maskForce = 0 := by
  unfold getNewDeltaQP
  by_cases he : eQuality = roiQualityIntra
  · exact .inl (if_pos he)
  · right
    rw [if_neg he, isIntra, BitVec.and_assoc, BitVec.and_assoc]
    have hintra : maskQP &&& maskForceIntra = 0 := by decide
    have hforce : maskQP &&& maskForce = 0 := by decide
    rw [hintra, hforce]
    simp

theorem paint_intra (hroi : roi.iDeltaQP = maskForceIntra) :
    getDQp (c.paint table roi p) = getDQp (table p) ∧
      isIntra (c.paint table roi p) = (isIntra (table p) || decide (roi.Covers p)) := by
  have hforce : ¬roi.iDeltaQP &&& maskForce = 0 := by
    rw [hroi]
    decide
  have hintra : isIntra roi.iDeltaQP = true := by
    rw [hroi]
    decide
  by_cases hcovers : roi.Covers p
  · rw [paint_of_covers hcovers, lcuQuality, if_pos hintra]
    constructor
    · rw [getDQp_or_force _ _ (by decide)]
      apply getDQp_congr
      rw [BitVec.and_assoc, BitVec.and_self]
    · rw [isIntra_or]
      simp [hcovers, maskForceIntra, isIntra]
  · rw [paint, if_neg hcovers, if_neg hforce]
    simp [hcovers]

theorem isIntra_paint (hroi : isIntra roi.iDeltaQP = false)
    (hforce : roi.iDeltaQP &&& maskForce = 0) :
    isIntra (c.paint table roi p) = isIntra (table p) := by
  by_cases hcovers : roi.Covers p
  · rw [paint_of_covers hcovers, lcuQuality, if_neg (by simp [hroi])]
    by_cases hlcu : isIntra (table p) = true
    · have hmv0 : roi.iDeltaQP &&& maskForceMv0 = 0 := by
        have hsub : maskForceMv0 = maskForce &&& maskForceMv0 := by decide
        rw [hsub, ← BitVec.and_assoc, hforce]
        exact BitVec.zero_and
      rw [if_pos ⟨hlcu, hmv0⟩, isIntra_or, hlcu, Bool.or_eq_true]
      exact .inr (by decide)
    · rw [if_neg (fun h => hlcu h.1), hroi]
      exact (Bool.eq_false_iff.mpr hlcu).symm
  · cases hbeyond : c.beyond roi p with
    | none => rw [paint_of_none hcovers hbeyond]
    | some q =>
      rw [paint_of_beyond hcovers hforce hbeyond, meanQP, isIntra_or]
      have hkeep : ∀ x : BitVec 8, isIntra (x &&& maskQP) = false := by
        intro x
        rw [isIntra, BitVec.and_assoc]
        simp [maskQP, maskForceIntra]
      have hsame : ∀ x : BitVec 8, isIntra (x &&& maskForce) = isIntra x := by
        intro x
        rw [isIntra, isIntra, BitVec.and_assoc]
        rfl
      rw [hkeep, hsame, Bool.false_or]

theorem getDQp_paint_of_covers (hroi : isIntra roi.iDeltaQP = false) (hcovers : roi.Covers p) :
    getDQp (c.paint table roi p) = getDQp roi.iDeltaQP := by
  rw [paint_of_covers hcovers, lcuQuality, if_neg (by simp [hroi])]
  split_ifs
  · exact getDQp_or_force _ _ (by decide)
  · rfl

/-- The region changes the quality of `p`. -/
def Touches (c : RoiMngr) (roi : Roi) (p : ℤ × ℤ) : Prop :=
  isIntra roi.iDeltaQP = false ∧ (c.beyond roi p).isSome = true

theorem getDQp_paint_of_not_touches (hroi : ∃ a, roi = c.region a) (h : ¬c.Touches roi p) :
    getDQp (c.paint table roi p) = getDQp (table p) := by
  obtain ⟨a, ha⟩ := hroi
  have hqp : roi.iDeltaQP = getNewDeltaQP a.eQuality := by rw [ha, region]
  rcases getNewDeltaQP_cases a.eQuality with hintra | ⟨hintra, -⟩
  · exact (paint_intra (hqp.trans hintra)).1
  · rw [← hqp] at hintra
    have hnone : c.beyond roi p = none := by
      rw [← Option.not_isSome_iff_eq_none]
      exact fun hsome => h ⟨hintra, hsome⟩
    have hcovers : ¬roi.Covers p := by
      intro hcovers
      rw [beyond_of_covers hcovers] at hnone
      cases hnone
    rw [paint_of_none hcovers hnone]

theorem getDQp_foldl (hmade : ∀ roi ∈ after, ∃ a, roi = c.region a)
    (h : ∀ roi ∈ after, ¬c.Touches roi p) :
    getDQp (after.foldl c.paint table p) = getDQp (table p) := by
  induction after generalizing table with
  | nil => rfl
  | cons roi after ih =>
    rw [List.forall_mem_cons] at hmade h
    rw [List.foldl_cons, ih hmade.2 h.2, getDQp_paint_of_not_touches hmade.1 h.1]

theorem getDQp_of_last (hroi : isIntra roi.iDeltaQP = false) (hcovers : roi.Covers p)
    (hmade : ∀ roi ∈ after, ∃ a, roi = c.region a) (h : ∀ roi ∈ after, ¬c.Touches roi p) :
    getDQp ((before ++ roi :: after).foldl c.paint table p) = getDQp roi.iDeltaQP := by
  rw [List.foldl_append, List.foldl_cons, getDQp_foldl hmade h, getDQp_paint_of_covers hroi hcovers]

/-- The intra flag is the one of the background and of the intra regions. -/
theorem isIntra_foldl {rois : List Roi} (hmade : ∀ roi ∈ rois, ∃ a, roi = c.region a) :
    isIntra (rois.foldl c.paint table p) = true ↔
      isIntra (table p) = true ∨ ∃ roi ∈ rois, isIntra roi.iDeltaQP = true ∧ roi.Covers p := by
  induction rois generalizing table with
  | nil => simp
  | cons roi rois ih =>
    rw [List.forall_mem_cons] at hmade
    obtain ⟨⟨a, ha⟩, hrest⟩ := hmade
    have hqp : roi.iDeltaQP = getNewDeltaQP a.eQuality := by rw [ha, region]
    have hpaint : isIntra (c.paint table roi p) = true ↔
        isIntra (table p) = true ∨ isIntra roi.iDeltaQP = true ∧ roi.Covers p := by
      rcases getNewDeltaQP_cases a.eQuality with hintra | ⟨hintra, hforce⟩
      · have hflag : isIntra roi.iDeltaQP = true := by
          rw [hqp, hintra]
          decide
        rw [(paint_intra (hqp.trans hintra)).2, hflag]
        simp
      · rw [← hqp] at hintra hforce
        rw [isIntra_paint hintra hforce, hintra]
        simp
    rw [List.foldl_cons, ih hrest, hpaint]
    simp [or_assoc]

end Quality

/-! ## Runs -/

/-- Positions and sizes that are not negative and can be rounded up to LCUs. -/
def Addition.InRange (a : Addition) : Prop :=
  0 ≤ a.iPosX ∧ 0 ≤ a.iPosY ∧ (0 ≤ a.iWidth ∧ a.iWidth ≤ 2 ^ 31 - 64) ∧
    0 ≤ a.iHeight ∧ a.iHeight ≤ 2 ^ 31 - 64
deriving Decidable

theorem roundUp_div {v m : ℤ} (hm : m = 16 ∨ m = 32 ∨ m = 64) (h0 : 0 ≤ v) (hv : v ≤ 2 ^ 31 - 64) :
    roundUp v m / m = (v + m - 1) / m := by
  have hfits : toInt32 (v + m - 1) = v + m - 1 := by
    apply toInt32_of_fits
    constructor <;> omega
  unfold roundUp
  dsimp only
  rw [hfits]
  rcases hm with rfl | rfl | rfl <;> omega

/-- A region on one axis of the picture, clipped to it. -/
theorem clip_fits {m pos size pic : ℤ} (hm : m = 16 ∨ m = 32 ∨ m = 64) (hpos : 0 ≤ pos ∧ pos < pic)
    (hpic : pic < 2 ^ 16) (hsize : 0 ≤ size ∧ size ≤ 2 ^ 31 - 64) :
    0 ≤ pos / m ∧ pos / m < roundUp pic m / m ∧
      0 ≤ (if roundUp pic m / m < pos / m + roundUp size m / m then roundUp pic m / m - pos / m
        else roundUp size m / m) ∧
      pos / m + (if roundUp pic m / m < pos / m + roundUp size m / m then roundUp pic m / m - pos / m
        else roundUp size m / m) ≤ roundUp pic m / m := by
  rw [roundUp_div hm (by omega) (by omega : pic ≤ 2 ^ 31 - 64), roundUp_div hm hsize.1 hsize.2]
  rcases hm with rfl | rfl | rfl <;> split_ifs <;> omega

section Created

variable {iPicWidth iPicHeight eBkgQuality : ℤ} {isAvc isHevc : Bool} {eOrder : RoiOrder}

theorem lcuSize_cases (isAvc isHevc : Bool) :
    (2 : ℤ) ^ (if isAvc then 4 else if isHevc then 5 else 6) = 16 ∨
      (2 : ℤ) ^ (if isAvc then 4 else if isHevc then 5 else 6) = 32 ∨
      (2 : ℤ) ^ (if isAvc then 4 else if isHevc then 5 else 6) = 64 := by
  cases isAvc
  · cases isHevc
    · exact .inr (.inr rfl)
    · exact .inr (.inl rfl)
  · exact .inl rfl

theorem region_fits (hw : 0 ≤ iPicWidth ∧ iPicWidth < 2 ^ 16) (hh : 0 ≤ iPicHeight ∧ iPicHeight < 2 ^ 16)
    {a : Addition} (ha : a.InRange)
    (haccept : (create iPicWidth iPicHeight isAvc isHevc eBkgQuality eOrder).Accepts a) :
    (create iPicWidth iPicHeight isAvc isHevc eBkgQuality eOrder).RoiFits
      ((create iPicWidth iPicHeight isAvc isHevc eBkgQuality eOrder).region a) := by
  obtain ⟨hx, hy, hwidth, hheight⟩ := ha
  have hm := lcuSize_cases isAvc isHevc
  obtain ⟨hleft, hleft_lt, hw0, hright⟩ := clip_fits hm ⟨hx, haccept.1⟩ hw.2 hwidth
  obtain ⟨htop, htop_lt, hh0, hbottom⟩ := clip_fits hm ⟨hy, haccept.2.1⟩ hh.2 hheight
  exact ⟨hleft, hleft_lt, htop, htop_lt, hw0, hright, hh0, hbottom⟩

theorem create_nonneg (hw : 0 ≤ iPicWidth ∧ iPicWidth < 2 ^ 16)
    (hh : 0 ≤ iPicHeight ∧ iPicHeight < 2 ^ 16) :
    0 ≤ (create iPicWidth iPicHeight isAvc isHevc eBkgQuality eOrder).iLcuWidth ∧
      0 ≤ (create iPicWidth iPicHeight isAvc isHevc eBkgQuality eOrder).iLcuHeight := by
  have hm := lcuSize_cases isAvc isHevc
  have hw' := roundUp_div hm hw.1 (by omega)
  have hh' := roundUp_div hm hh.1 (by omega)
  simp only [create]
  rw [hw', hh']
  rcases hm with hm | hm | hm <;> rw [hm] <;> omega

/-- The table of a list of nodes. -/
def tableOf (c : RoiMngr) (l : List ℕ) : ℤ × ℤ → BitVec 8 :=
  (c.regionsOf l).foldl c.paint fun _ => getNewDeltaQP c.eBkgQuality

theorem numLCUs_eq {c : RoiMngr} {n num bytes : ℕ} (h : c.TableFits n num bytes)
    (hc : c.context = create iPicWidth iPicHeight isAvc isHevc eBkgQuality eOrder)
    (hwidth : 0 ≤ c.iLcuWidth) (hheight : 0 ≤ c.iLcuHeight) :
    c.iNumLCUs = c.iLcuWidth * c.iLcuHeight := by
  have hnum : c.iNumLCUs = toInt32 (c.iLcuWidth * c.iLcuHeight) := by
    have hw : c.iLcuWidth = (create iPicWidth iPicHeight isAvc isHevc eBkgQuality eOrder).iLcuWidth :=
      (congrArg iLcuWidth hc : c.context.iLcuWidth = _)
    have hh : c.iLcuHeight = (create iPicWidth iPicHeight isAvc isHevc eBkgQuality eOrder).iLcuHeight :=
      (congrArg iLcuHeight hc : c.context.iLcuHeight = _)
    rw [hw, hh]
    exact congrArg iNumLCUs hc
  rw [hnum]
  apply toInt32_of_fits
  have hpos := mul_nonneg hwidth hheight
  have hbytes : (1 : ℤ) ≤ bytes := by
    have := h.used_pos
    have := h.used_le
    omega
  have hle : c.iLcuWidth * c.iLcuHeight * 1 ≤ c.iLcuWidth * c.iLcuHeight * (bytes : ℤ) :=
    mul_le_mul_of_nonneg_left hbytes hpos
  have hfits := h.fits
  have hsmall := h.small
  constructor <;> omega

end Created

/-- After every run of additions the links from the head on spell out a list of nodes, in
the order of the additions or of the qualities.  If all regions land at an end, these are
all nodes, and the links back fit.  A table that is filled from the list shows the
background with the regions painted over it, and nothing is written outside. -/
theorem roiMngr_runs (iPicWidth iPicHeight eBkgQuality : ℤ) (isAvc isHevc : Bool) (eOrder : RoiOrder)
    (run : List Addition) :
    ∃ c prev l, (create iPicWidth iPicHeight isAvc isHevc eBkgQuality eOrder).addROIs run = some c ∧
      c.context = create iPicWidth iPicHeight isAvc isHevc eBkgQuality eOrder ∧
      c.nodes.map RoiNode.toRoi =
        (create iPicWidth iPicHeight isAvc isHevc eBkgQuality eOrder).added run ∧
      c.Listed prev l ∧
      (eOrder = .incoming → l = List.range c.nodes.length) ∧
      (eOrder = .quality → l.Pairwise (InOrder c.qp)) ∧
      ((create iPicWidth iPicHeight isAvc isHevc eBkgQuality eOrder).AllLand run →
        c.Listed c.prev l ∧ l.Perm (List.range c.nodes.length)) ∧
      (0 ≤ iPicWidth ∧ iPicWidth < 2 ^ 16 → 0 ≤ iPicHeight ∧ iPicHeight < 2 ^ 16 →
        (∀ a ∈ run, a.InRange) → ∀ (n num bytes : ℕ) (h : c.TableFits n num bytes)
          (pBuf : Vector (BitVec 8) n), Ends (c.fillBuff num bytes) pBuf fun _ pBuf' =>
            h.layout.ShowsCells pBuf pBuf' (c.tableOf l)) ∧
      ∀ p,
        (∀ before roi after, c.regionsOf l = before ++ roi :: after → isIntra roi.iDeltaQP = false →
          roi.Covers p → (∀ r ∈ after, ¬c.Touches r p) →
            getDQp (c.tableOf l p) = getDQp roi.iDeltaQP) ∧
        ((∀ r ∈ c.regionsOf l, ¬c.Touches r p) →
          getDQp (c.tableOf l p) = getDQp (getNewDeltaQP eBkgQuality)) ∧
        (isIntra (c.tableOf l p) = true ↔ isIntra (getNewDeltaQP eBkgQuality) = true ∨
          ∃ roi ∈ c.regionsOf l, isIntra roi.iDeltaQP = true ∧ roi.Covers p) := by
  obtain ⟨c, prev, l, hrun, hcontext, h⟩ :=
    addROIs_holds (create_holds iPicWidth iPicHeight isAvc isHevc eBkgQuality eOrder) run
  have hcreate : c.context = create iPicWidth iPicHeight isAvc isHevc eBkgQuality eOrder := hcontext
  have horder : c.eOrder = eOrder := congrArg RoiMngr.eOrder hcreate
  have hbkg : c.eBkgQuality = eBkgQuality := congrArg RoiMngr.eBkgQuality hcreate
  have hregions := h.regions
  rw [List.nil_append] at hregions
  have hmade : ∀ roi ∈ c.regionsOf l, ∃ a, roi = c.region a := by
    intro roi hroi
    obtain ⟨i, -, hi⟩ := List.mem_filterMap.mp hroi
    obtain ⟨node, hnode, rfl⟩ := Option.map_eq_some_iff.mp hi
    apply h.made
    rw [← h.regions]
    exact List.mem_map_of_mem (List.mem_of_getElem? hnode)
  refine ⟨c, prev, l, hrun, hcreate, hregions, h.listed, fun ho => h.incoming (horder.trans ho),
    fun ho => h.sorted (horder.trans ho), fun hland => h.all ⟨trivial, hland⟩, ?_, fun p => ⟨?_, ?_, ?_⟩⟩
  · intro hw hh hrange n num bytes hfits pBuf
    have hroi : ∀ node ∈ c.nodes, c.RoiFits node.toRoi := by
      intro node hnode
      have hmem := List.mem_map_of_mem (f := RoiNode.toRoi) hnode
      rw [hregions] at hmem
      obtain ⟨a, ha, hregion⟩ := List.mem_map.mp hmem
      obtain ⟨harun, haccept⟩ := List.mem_filter.mp ha
      have hfit := region_fits hw hh (hrange a harun) (of_decide_eq_true haccept)
      rw [hregion, ← hcreate] at hfit
      exact ⟨hfit.left, hfit.left_lt, hfit.top, hfit.top_lt, hfit.width, hfit.right, hfit.height,
        hfit.bottom⟩
    have hlcu : 0 ≤ c.iLcuWidth ∧ 0 ≤ c.iLcuHeight := by
      have hwidth := congrArg RoiMngr.iLcuWidth hcreate
      have hheight := congrArg RoiMngr.iLcuHeight hcreate
      change c.iLcuWidth = _ at hwidth
      change c.iLcuHeight = _ at hheight
      rw [hwidth, hheight]
      exact create_nonneg hw hh
    exact fillBuff_ends hfits (numLCUs_eq hfits hcreate hlcu.1 hlcu.2) hlcu.1 hroi h.listed pBuf
  · intro before roi after hsplit hintra hcovers hafter
    have hafter' : ∀ roi ∈ after, ∃ a, roi = c.region a := by
      intro r hr
      apply hmade
      rw [hsplit]
      simp [hr]
    rw [tableOf, hsplit]
    exact getDQp_of_last hintra hcovers hafter' hafter
  · intro hnone
    rw [tableOf, getDQp_foldl hmade hnone, hbkg]
  · rw [tableOf, isIntra_foldl hmade, hbkg]

/-- A picture of 8 by 6 macroblocks with the background quality 5. -/
def smallPic : RoiMngr := create 128 96 true false 5 .quality

/-- The table of the picture. -/
def smallTable (c : RoiMngr) : Option (Vector (BitVec 8) 48) :=
  match (c.fillBuff 1 1 : Fill 48 Unit) (.replicate 48 0) with
  | .ok (_, pBuf) => some pBuf
  | .error _ => none

theorem smallTable_eq {c : RoiMngr} {pBuf : Vector (BitVec 8) 48} (h : smallTable c = some pBuf) :
    (c.fillBuff 1 1 : Fill 48 Unit) (.replicate 48 0) = .ok ((), pBuf) := by
  unfold smallTable at h
  split at h
  · next pBuf' hfill =>
    rw [hfill, Option.some.inj h]
  · cases h

theorem smallTable_none {c : RoiMngr} (h : smallTable c = none) :
    ¬Returns (c.fillBuff 1 1 : Fill 48 Unit) (.replicate 48 0) := by
  rintro ⟨_, pBuf, hfill, -⟩
  unfold smallTable at h
  rw [hfill] at h
  cases h

/-- An LCU on a border does not show the background, of two regions with the same quality
the newer one stands in front, and a region with a negative position is painted
outside of the table. -/
theorem not_roiMngr_runs :
    (¬∀ (run : List Addition) (c : RoiMngr) (pBuf pBuf' : Vector (BitVec 8) 48),
      smallPic.addROIs run = some c → c.fillBuff 1 1 pBuf = .ok ((), pBuf') →
        ∀ x y : ℕ, x < 8 → y < 6 → (∀ node ∈ c.nodes, ¬node.toRoi.Covers (x, y)) →
          pBuf'[8 * y + x]? = some (getNewDeltaQP 5)) ∧
    (¬∀ (run : List Addition) (c : RoiMngr) (i j : ℕ), smallPic.addROIs run = some c →
      c.pFirstNode = some i → c.next (some i) = some j → getDQp (c.qp i) = getDQp (c.qp j) → i < j) ∧
    ¬∀ (run : List Addition) (c : RoiMngr) (pBuf : Vector (BitVec 8) 48),
      smallPic.addROIs run = some c → Returns (c.fillBuff 1 1) pBuf := by
  refine ⟨fun hall => ?_, fun hall => ?_, fun hall => ?_⟩
  · have hrun : ((smallPic.addROIs [⟨32, 32, 32, 16, -5, true⟩]).bind fun c => do
        let pBuf ← smallTable c
        return (decide (∀ node ∈ c.nodes, ¬node.toRoi.Covers (1, 2)), pBuf[17]?)) =
          some (true, some 0) := by
      decide +kernel
    obtain ⟨c, hc, hrest⟩ := Option.bind_eq_some_iff.mp hrun
    obtain ⟨pBuf, hfill, hread⟩ := Option.bind_eq_some_iff.mp hrest
    obtain ⟨hcovers, hvalue⟩ := Prod.ext_iff.mp (Option.some.inj hread)
    have hbkg := hall _ c _ pBuf hc (smallTable_eq hfill) 1 2 (by decide) (by decide)
      (of_decide_eq_true hcovers)
    have hzero : pBuf[17]? = some 0 := hvalue
    rw [hzero] at hbkg
    exact absurd hbkg (by decide)
  · have hrun : ((smallPic.addROIs [⟨0, 0, 16, 16, 5, true⟩, ⟨64, 0, 16, 16, 5, true⟩]).map fun c =>
        (c.pFirstNode, c.next (some 1), decide (getDQp (c.qp 1) = getDQp (c.qp 0)))) =
          some (some 1, some 0, true) := by
      decide +kernel
    obtain ⟨c, hc, hread⟩ := Option.map_eq_some_iff.mp hrun
    obtain ⟨hfirst, hread⟩ := Prod.ext_iff.mp hread
    obtain ⟨hnext, hqp⟩ := Prod.ext_iff.mp hread
    exact absurd (hall _ c 1 0 hc hfirst hnext (of_decide_eq_true hqp)) (by decide)
  · have hrun : ((smallPic.addROIs [⟨-16, 0, 16, 16, 0, true⟩]).map fun c => (smallTable c).isNone) =
        some true := by
      decide +kernel
    obtain ⟨c, hc, hnone⟩ := Option.map_eq_some_iff.mp hrun
    exact smallTable_none (Option.isNone_iff_eq_none.mp hnone) (hall _ c _ hc)

end RoiMngr

end VcuCodec
