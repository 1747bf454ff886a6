import VcuCodec.HevcSliceData
import VcuCodec.HevcSkippedPict

/-!
# The bins of the HEVC skipped picture

What `AL_sHEVC_GenerateSkippedTileCabac` codes is compared with the slice data of a tile.
-/

namespace VcuCodec

open QuadTrees TiledPicture

/-- The syntax element of a place of `pState`. -/
def syntaxContext : ℕ → SyntaxContext
  | 0 => .splitCuFlag 0
  | 1 => .cuSkipFlag 0
  | 2 => .cuSkipFlag 1
  | 3 => .cuSkipFlag 2
  | _ => .mergeIdx

def CabacBin.syntaxBin : CabacBin → SyntaxBin
  | .context ctxIdx binVal => .context (syntaxContext ctxIdx) binVal
  | .terminate binVal => .terminate binVal

def BinWrites.syntaxBins (w : BinWrites) : List SyntaxBin := w.bins.map CabacBin.syntaxBin

namespace BinWrites

@[simp] theorem syntaxBins_next (w w' : BinWrites) : (w.next w').syntaxBins = w.syntaxBins ++ w'.syntaxBins :=
  List.map_append

@[simp] theorem syntaxBins_callIf (c : Prop) [Decidable c] (w : BinWrites) :
    (callIf c w).syntaxBins = if c then w.syntaxBins else [] := by
  unfold callIf
  split <;> rfl

end BinWrites

theorem syntaxBins_cu_zero (a b : Bool) : (writeSkippedCU a b true).syntaxBins = leafBins a b 0 := by
  cases a <;> cases b <;> rfl

theorem syntaxBins_cu_succ (a b : Bool) (n : ℕ) : (writeSkippedCU a b false).syntaxBins = leafBins a b (n + 1) := by
  cases a <;> cases b <;> rfl

/-! ## The bins of a block -/

variable {P : Plane} {n x y : ℕ} {a b : Bool}

/-- The bins of the leaves of a block, with the neighbours of the block that are available. -/
def quadBins (P : Plane) (n x y : ℕ) (a b : Bool) : List SyntaxBin :=
  (leaves P n x y).flatMap fun leaf => leafBins (a || decide (x < leaf.x)) (b || decide (y < leaf.y)) leaf.level

theorem quadBins_leaf (n x y : ℕ) (a b : Bool) (h : leaves P n x y = [⟨x, y, n⟩]) : quadBins P n x y a b = leafBins a b n := by
  unfold quadBins
  rw [h, List.flatMap_singleton]
  dsimp only
  rw [decide_eq_false (lt_irrefl x), decide_eq_false (lt_irrefl y), Bool.or_false, Bool.or_false]

theorem flatMap_quarter {x' y' : ℕ} (hx : x ≤ x') (hy : y ≤ y') (hwidth : x' < P.width) (hheight : y' < P.height) :
    ((leaves P n x' y').flatMap fun leaf => leafBins (a || decide (x < leaf.x)) (b || decide (y < leaf.y)) leaf.level) =
      quadBins P n x' y' (a || decide (x < x')) (b || decide (y < y')) := by
  refine List.flatMap_congr fun leaf hleaf => ?_
  obtain ⟨⟨hxleaf, -⟩, ⟨hyleaf, -⟩, -⟩ := leaf_inside hleaf hwidth hheight
  have hleft : decide (x < leaf.x) = (decide (x < x') || decide (x' < leaf.x)) := by
    rw [← Bool.decide_or, decide_eq_decide]
    omega
  have habove : decide (y < leaf.y) = (decide (y < y') || decide (y' < leaf.y)) := by
    rw [← Bool.decide_or, decide_eq_decide]
    omega
  rw [hleft, habove, Bool.or_assoc, Bool.or_assoc]

theorem flatMap_ite {α β : Type*} (c : Prop) [Decidable c] (l : List α) (f : α → List β) :
    (if c then l else []).flatMap f = if c then l.flatMap f else [] := by
  split <;> rfl

theorem quadBins_split (hunit : 0 < P.unit) (hx : x < P.width) (hy : y < P.height) (h : ¬ P.Fits (n + 1) x y) :
    quadBins P (n + 1) x y a b = quadBins P n x y a b ++
      (if x + P.side n < P.width then quadBins P n (x + P.side n) y true b else []) ++
      (if y + P.side n < P.height then quadBins P n x (y + P.side n) a true else []) ++
      (if x + P.side n < P.width ∧ y + P.side n < P.height then quadBins P n (x + P.side n) (y + P.side n) true true
      else []) := by
  have hpos := P.side_pos (n := n) hunit
  have hself : ∀ z : ℕ, decide (z < z) = false := fun z => decide_eq_false (lt_irrefl z)
  have hnext : ∀ z : ℕ, decide (z < z + P.side n) = true := fun z => decide_eq_true (Nat.lt_add_of_pos_right hpos)
  have hquarter : ∀ (c : Prop) [Decidable c] (x' y' : ℕ) (a' b' : Bool), x ≤ x' → y ≤ y' → (c → x' < P.width ∧ y' < P.height) →
      (a || decide (x < x')) = a' → (b || decide (y < y')) = b' →
      ((if c then leaves P n x' y' else []).flatMap fun leaf =>
        leafBins (a || decide (x < leaf.x)) (b || decide (y < leaf.y)) leaf.level) =
      if c then quadBins P n x' y' a' b' else [] := by
    intro c _ x' y' a' b' hxle hyle hc ha hb
    rw [flatMap_ite]
    refine ite_congr rfl (fun hinside => ?_) fun _ => rfl
    rw [flatMap_quarter hxle hyle (hc hinside).1 (hc hinside).2, ha, hb]
  rw [← hquarter (x + P.side n < P.width) (x + P.side n) y true b (Nat.le_add_right ..) le_rfl (fun hw => ⟨hw, hy⟩)
      (by rw [hnext, Bool.or_true]) (by rw [hself, Bool.or_false]),
    ← hquarter (y + P.side n < P.height) x (y + P.side n) a true le_rfl (Nat.le_add_right ..) (fun hh => ⟨hx, hh⟩)
      (by rw [hself, Bool.or_false]) (by rw [hnext, Bool.or_true]),
    ← hquarter _ (x + P.side n) (y + P.side n) true true (Nat.le_add_right ..) (Nat.le_add_right ..) id
      (by rw [hnext, Bool.or_true]) (by rw [hnext, Bool.or_true])]
  unfold quadBins
  rw [leaves_split h, List.flatMap_append, List.flatMap_append, List.flatMap_append]

theorem quadBins_fits (h : P.Fits n x y) : quadBins P n x y a b = leafBins a b n := quadBins_leaf n x y a b (leaves_of_fits h)

/-! ## The blocks at the borders of the picture -/

theorem and_one_shiftLeft (iMod k : ℕ) : iMod &&& 1 <<< k ≠ 0 ↔ iMod.testBit k = true := by
  rw [Nat.shiftLeft_eq, Nat.one_mul, Nat.and_two_pow]
  cases iMod.testBit k with
  | true => simp
  | false => simp

theorem and_one_shiftLeft_sub (iMod k : ℕ) : iMod &&& (1 <<< k - 1) ≠ 0 ↔ 0 < iMod % 2 ^ k := by
  rw [Nat.shiftLeft_eq, Nat.one_mul, Nat.and_two_pow_sub_one_eq_mod]
  exact Nat.pos_iff_ne_zero.symm

/-- The part of a block of which some units are in front of a border. -/
structure Cut (P : Plane) (iMod n first border : ℕ) : Prop where
  border_eq : border = first + P.unit * (iMod % 2 ^ n)
  pos : 0 < iMod % 2 ^ n

section Cuts

variable {iMod first border : ℕ}

theorem Cut.lt (h : Cut P iMod n first border) (hunit : 0 < P.unit) : first < border ∧ border < first + P.side n := by
  rw [h.border_eq]
  have hmul := Nat.mul_pos hunit h.pos
  have hlt := Nat.mul_lt_mul_of_pos_left (Nat.mod_lt iMod (Nat.two_pow_pos n)) hunit
  unfold Plane.side
  omega

/-- The border is behind the first half of the block, or in it. -/
theorem Cut.half (h : Cut P iMod (n + 1) first border) (hunit : 0 < P.unit) :
    (iMod.testBit n = true ∧ first + P.side n ≤ border ∧ (first + P.side n < border ↔ 0 < iMod % 2 ^ n) ∧
      (0 < iMod % 2 ^ n → Cut P iMod n (first + P.side n) border)) ∨
    (iMod.testBit n = false ∧ ¬ first + P.side n < border ∧ 0 < iMod % 2 ^ n ∧ Cut P iMod n first border) := by
  have hborder := h.border_eq
  have hpos := h.pos
  have hmod : iMod % 2 ^ (n + 1) = iMod % 2 ^ n + 2 ^ n * (iMod / 2 ^ n % 2) := Nat.mod_pow_succ
  have hlt := Nat.mod_lt iMod (Nat.two_pow_pos n)
  rw [Nat.testBit_eq_decide_div_mod_eq]
  rcases Nat.mod_two_eq_zero_or_one (iMod / 2 ^ n) with hbit | hbit
  · right
    have hsame : iMod % 2 ^ (n + 1) = iMod % 2 ^ n := by
      rw [hmod, hbit]
      omega
    rw [hsame] at hborder hpos
    have hmul := Nat.mul_lt_mul_of_pos_left hlt hunit
    refine ⟨by rw [hbit]; rfl, ?_, hpos, hborder, hpos⟩
    unfold Plane.side
    omega
  · left
    have hmore : iMod % 2 ^ (n + 1) = 2 ^ n + iMod % 2 ^ n := by
      rw [hmod, hbit]
      omega
    rw [hmore, Nat.mul_add, ← Nat.add_assoc] at hborder
    have hrest : first + P.side n < border ↔ 0 < iMod % 2 ^ n := by
      rw [hborder]
      constructor
      · intro hlt'
        exact Nat.pos_of_mul_pos_left (Nat.pos_of_lt_add_right hlt')
      · intro hrest
        exact Nat.lt_add_of_pos_right (Nat.mul_pos hunit hrest)
    refine ⟨by rw [hbit]; rfl, ?_, hrest, fun hrest => ⟨hborder, hrest⟩⟩
    rw [hborder]
    exact Nat.le_add_right _ _

theorem Cut.last (h : Cut P iMod 1 first border) (hunit : 0 < P.unit) : ¬ first + P.side 0 < border := by
  rcases h.half hunit with ⟨-, -, hlt, -⟩ | ⟨-, hnot, -, -⟩
  · rw [hlt, Nat.pow_zero, Nat.mod_one]
    exact lt_irrefl 0
  · exact hnot

end Cuts

/-- The block is cut by the border of the picture on the right. -/
theorem syntaxBins_right {iMod k : ℕ} (hunit : 0 < P.unit) (hcut : Cut P iMod (k + 1) x P.width)
    (hh : y + P.side (k + 1) ≤ P.height) :
    (writeSkippedCuRight iMod k b).syntaxBins = quadBins P (k + 1) x y true b := by
  induction k generalizing x y b with
  | zero =>
    obtain ⟨hwidth, hborder⟩ := hcut.lt hunit
    have hside := P.side_succ 0
    have hpos := P.side_pos (n := 0) hunit
    have hsplit : ¬ P.Fits 1 x y := fun hfits => absurd hfits.1 (Nat.not_le_of_gt hborder)
    have hbelow : y + P.side 0 < P.height := by omega
    have hnot := hcut.last hunit
    unfold writeSkippedCuRight
    rw [quadBins_split hunit hwidth (by omega) hsplit, if_pos hbelow, if_neg hnot, if_neg (fun h => hnot h.1),
      quadBins_leaf 0 x y _ _ rfl, quadBins_leaf 0 x _ _ _ rfl, BinWrites.syntaxBins_next, syntaxBins_cu_zero,
      syntaxBins_cu_zero, List.append_nil, List.append_nil]
  | succ k ih =>
    have hpos := P.side_pos (n := k + 1) hunit
    have hside := P.side_succ (k + 1)
    obtain ⟨hwidth, hborder⟩ := hcut.lt hunit
    have hsplit : ¬ P.Fits (k + 1 + 1) x y := fun hfits => absurd hfits.1 (Nat.not_le_of_gt hborder)
    have hbelow : y + P.side (k + 1) < P.height := by omega
    unfold writeSkippedCuRight
    simp only [BinWrites.syntaxBins_next, BinWrites.syntaxBins_callIf, and_one_shiftLeft, and_one_shiftLeft_sub,
      syntaxBins_cu_succ _ _ k]
    rw [quadBins_split hunit hwidth (by omega) hsplit, if_pos hbelow]
    rcases hcut.half hunit with ⟨hbit, hle, hlt, hrest⟩ | ⟨hbit, hnot, hrest, hcut'⟩
    · have hfits : P.Fits (k + 1) x y := ⟨hle, by omega⟩
      have hfits' : P.Fits (k + 1) x (y + P.side (k + 1)) := ⟨hle, by omega⟩
      rw [if_pos hbit, if_pos hbit, quadBins_fits hfits, quadBins_fits hfits']
      by_cases hpart : 0 < iMod % 2 ^ (k + 1)
      · rw [if_pos hpart, if_pos hpart, if_pos (hlt.mpr hpart), if_pos ⟨hlt.mpr hpart, hbelow⟩,
          ih (y := y) (hrest hpart) (by omega), ih (y := y + P.side (k + 1)) (hrest hpart) (by omega)]
      · rw [if_neg hpart, if_neg hpart, if_neg (fun h => hpart (hlt.mp h)), if_neg (fun h => hpart (hlt.mp h.1))]
    · have hnobit : ¬ iMod.testBit (k + 1) = true := by rw [hbit]; exact Bool.false_ne_true
      rw [if_neg hnobit, if_neg hnobit, if_pos hrest, if_pos hrest, if_neg hnot, if_neg (fun h => hnot h.1),
        ih (y := y) hcut' (by omega), ih (y := y + P.side (k + 1)) hcut' (by omega), List.nil_append, List.append_nil, List.append_nil]

/-- The block is cut by the border of the picture below. -/
theorem syntaxBins_bottom {iMod k : ℕ} (hunit : 0 < P.unit) (hcut : Cut P iMod (k + 1) y P.height)
    (hw : x + P.side (k + 1) ≤ P.width) :
    (writeSkippedCuBottom iMod k a).syntaxBins = quadBins P (k + 1) x y a true := by
  induction k generalizing x y a with
  | zero =>
    obtain ⟨hheight, hborder⟩ := hcut.lt hunit
    have hside := P.side_succ 0
    have hpos := P.side_pos (n := 0) hunit
    have hsplit : ¬ P.Fits 1 x y := fun hfits => absurd hfits.2 (Nat.not_le_of_gt hborder)
    have hright : x + P.side 0 < P.width := by omega
    have hnot := hcut.last hunit
    unfold writeSkippedCuBottom
    rw [quadBins_split hunit (by omega) hheight hsplit, if_pos hright, if_neg hnot, if_neg (fun h => hnot h.2),
      quadBins_leaf 0 x y _ _ rfl, quadBins_leaf 0 _ y _ _ rfl, BinWrites.syntaxBins_next, syntaxBins_cu_zero,
      syntaxBins_cu_zero, List.append_nil, List.append_nil]
  | succ k ih =>
    have hpos := P.side_pos (n := k + 1) hunit
    have hside := P.side_succ (k + 1)
    obtain ⟨hheight, hborder⟩ := hcut.lt hunit
    have hsplit : ¬ P.Fits (k + 1 + 1) x y := fun hfits => absurd hfits.2 (Nat.not_le_of_gt hborder)
    have hright : x + P.side (k + 1) < P.width := by omega
    unfold writeSkippedCuBottom
    simp only [BinWrites.syntaxBins_next, BinWrites.syntaxBins_callIf, and_one_shiftLeft, and_one_shiftLeft_sub,
      syntaxBins_cu_succ _ _ k]
    rw [quadBins_split hunit (by omega) hheight hsplit, if_pos hright]
    rcases hcut.half hunit with ⟨hbit, hle, hlt, hrest⟩ | ⟨hbit, hnot, hrest, hcut'⟩
    · have hfits : P.Fits (k + 1) x y := ⟨by omega, hle⟩
      have hfits' : P.Fits (k + 1) (x + P.side (k + 1)) y := ⟨by omega, hle⟩
      rw [if_pos hbit, quadBins_fits hfits, quadBins_fits hfits']
      by_cases hpart : 0 < iMod % 2 ^ (k + 1)
      · rw [if_pos hpart, if_pos (hlt.mpr hpart), if_pos ⟨hright, hlt.mpr hpart⟩, ih (x := x) (hrest hpart) (by omega),
          ih (x := x + P.side (k + 1)) (hrest hpart) (by omega), List.append_assoc _ (quadBins _ _ _ _ _ _)]
      · rw [if_neg hpart, if_neg (fun h => hpart (hlt.mp h)), if_neg (fun h => hpart (hlt.mp h.2)), List.append_nil,
          List.append_nil]
    · have hnobit : ¬ iMod.testBit (k + 1) = true := by rw [hbit]; exact Bool.false_ne_true
      rw [if_neg hnobit, if_pos hrest, if_neg hnot, if_neg (fun h => hnot h.2), ih (x := x) hcut' (by omega),
        ih (x := x + P.side (k + 1)) hcut' (by omega), List.nil_append, List.append_nil, List.append_nil]

theorem syntaxBins_botRight {iModW iModH k : ℕ} (hunit : 0 < P.unit) (hcutW : Cut P iModW (k + 1) x P.width)
    (hcutH : Cut P iModH (k + 1) y P.height) :
    (writeSkippedCuBotRight iModW iModH k).syntaxBins = quadBins P (k + 1) x y true true := by
  induction k generalizing x y with
  | zero =>
    obtain ⟨hwidth, hborder⟩ := hcutW.lt hunit
    obtain ⟨hheight, -⟩ := hcutH.lt hunit
    have hsplit : ¬ P.Fits 1 x y := fun hfits => absurd hfits.1 (Nat.not_le_of_gt hborder)
    have hnotW := hcutW.last hunit
    have hnotH := hcutH.last hunit
    unfold writeSkippedCuBotRight
    rw [quadBins_split hunit hwidth hheight hsplit, if_neg hnotW, if_neg hnotH, if_neg (fun h => hnotW h.1),
      quadBins_leaf 0 x y _ _ rfl, syntaxBins_cu_zero, List.append_nil, List.append_nil, List.append_nil]
  | succ k ih =>
    obtain ⟨hwidth, hborder⟩ := hcutW.lt hunit
    obtain ⟨hheight, -⟩ := hcutH.lt hunit
    have hsplit : ¬ P.Fits (k + 1 + 1) x y := fun hfits => absurd hfits.1 (Nat.not_le_of_gt hborder)
    unfold writeSkippedCuBotRight
    simp only [BinWrites.syntaxBins_next, BinWrites.syntaxBins_callIf, and_one_shiftLeft, and_one_shiftLeft_sub,
      syntaxBins_cu_succ _ _ k]
    rw [quadBins_split hunit hwidth hheight hsplit]
    rcases hcutW.half hunit with ⟨hbitW, hleW, hltW, hrestW⟩ | ⟨hbitW, hnotW, hrestW, hcutW'⟩
    · rcases hcutH.half hunit with ⟨hbitH, hleH, hltH, hrestH⟩ | ⟨hbitH, hnotH, hrestH, hcutH'⟩
      · have hfits : P.Fits (k + 1) x y := ⟨hleW, hleH⟩
        rw [if_pos hbitH, if_pos hbitW, if_pos hbitW, quadBins_fits hfits, if_congr hltW rfl rfl, if_congr hltH rfl rfl,
          if_congr (and_congr hltW hltH) rfl rfl]
        have hright : (if 0 < iModW % 2 ^ (k + 1) then (writeSkippedCuRight iModW k true).syntaxBins else []) =
            if 0 < iModW % 2 ^ (k + 1) then quadBins P (k + 1) (x + P.side (k + 1)) y true true else [] :=
          ite_congr rfl (fun hpart => syntaxBins_right hunit (hrestW hpart) hleH) fun _ => rfl
        rw [hright]
        by_cases hpartH : 0 < iModH % 2 ^ (k + 1)
        · rw [if_pos hpartH, if_pos hpartH, syntaxBins_bottom hunit (hrestH hpartH) hleW, ← List.append_assoc]
          refine congrArg _ ?_
          by_cases hpartW : 0 < iModW % 2 ^ (k + 1)
          · rw [if_pos hpartW, if_pos ⟨hpartW, hpartH⟩, ih (hrestW hpartW) (hrestH hpartH)]
          · rw [if_neg hpartW, if_neg (fun h => hpartW h.1)]
        · have hnotBoth : ¬ (0 < iModW % 2 ^ (k + 1) ∧ 0 < iModH % 2 ^ (k + 1)) := fun h => hpartH h.2
          rw [if_neg hpartH, if_neg hpartH, if_neg hnotBoth, List.append_nil, List.append_nil]
      · have hnobit : ¬ iModH.testBit (k + 1) = true := by rw [hbitH]; exact Bool.false_ne_true
        have hnotBoth : ¬ (x + P.side (k + 1) < P.width ∧ y + P.side (k + 1) < P.height) := fun h => hnotH h.2
        rw [if_neg hnobit, if_pos hrestH, if_pos hbitW, if_neg hnotH, if_neg hnotBoth,
          syntaxBins_bottom hunit hcutH' hleW, List.nil_append, List.append_nil, List.append_nil, if_congr hltW rfl rfl]
        refine congrArg _ (ite_congr rfl (fun hpart => ?_) fun _ => rfl)
        exact ih (hrestW hpart) hcutH'
    · have hnobitW : ¬ iModW.testBit (k + 1) = true := by rw [hbitW]; exact Bool.false_ne_true
      have hnotBoth : ¬ (x + P.side (k + 1) < P.width ∧ y + P.side (k + 1) < P.height) := fun h => hnotW h.1
      rw [if_neg hnobitW, if_neg hnobitW, if_pos hrestW, if_pos hrestW, if_neg hnotW, if_neg hnotBoth,
        List.nil_append, List.nil_append, List.append_nil, List.append_nil]
      rcases hcutH.half hunit with ⟨hbitH, hleH, hltH, hrestH⟩ | ⟨hbitH, hnotH, hrestH, hcutH'⟩
      · rw [if_pos hbitH, syntaxBins_right hunit hcutW' hleH, if_congr hltH rfl rfl]
        refine congrArg _ (ite_congr rfl (fun hpart => ?_) fun _ => rfl)
        exact ih hcutW' (hrestH hpart)
      · have hnobit : ¬ iModH.testBit (k + 1) = true := by rw [hbitH]; exact Bool.false_ne_true
        rw [if_neg hnobit, if_pos hrestH, if_neg hnotH, ih hcutW' hcutH', List.nil_append, List.append_nil]

/-! ## The borders of a tile -/

/-- The length of a tile that has the given blocks of the given size. -/
def tileLength (size border first count : ℕ) : ℕ := min (count * size) (border - first * size)

section Lengths

variable {unit levels border first count : ℕ}

/-- The last block of a tile is cut by the border of the picture, or it is inside. -/
theorem tileLength_cases (hunit : 0 < unit) (hcount : 0 < count) (hdvd : unit ∣ border)
    (hlast : (first + (count - 1)) * (unit * 2 ^ levels) < border) :
    (tileLength (unit * 2 ^ levels) border first count / (unit * 2 ^ levels) = count - 1 ∧
      border = (first + (count - 1)) * (unit * 2 ^ levels) +
        unit * (tileLength (unit * 2 ^ levels) border first count % (unit * 2 ^ levels) / unit) ∧
      0 < tileLength (unit * 2 ^ levels) border first count % (unit * 2 ^ levels) / unit ∧
      tileLength (unit * 2 ^ levels) border first count % (unit * 2 ^ levels) / unit < 2 ^ levels) ∨
    (tileLength (unit * 2 ^ levels) border first count = count * (unit * 2 ^ levels) ∧
      (first + count) * (unit * 2 ^ levels) ≤ border) := by
  have hpos : 0 < unit * 2 ^ levels := Nat.mul_pos hunit (Nat.two_pow_pos _)
  have hsize : unit ∣ unit * 2 ^ levels := Nat.dvd_mul_right _ _
  generalize hS : unit * 2 ^ levels = S at *
  obtain ⟨count, rfl⟩ : ∃ c, count = c + 1 := ⟨count - 1, by omega⟩
  rw [Nat.add_sub_cancel] at hlast ⊢
  have hsplit : (first + count) * S = first * S + count * S := Nat.add_mul ..
  have hall : (count + 1) * S = count * S + S := Nat.succ_mul ..
  have hend : (first + (count + 1)) * S = first * S + (count * S + S) := by rw [Nat.add_mul, hall]
  by_cases hfull : (first + (count + 1)) * S ≤ border
  · right
    refine ⟨min_eq_left ?_, hfull⟩
    omega
  · left
    have hlength : tileLength S border first (count + 1) = (border - (first + count) * S) + count * S := by
      unfold tileLength
      rw [min_eq_right (by omega)]
      omega
    have hrest : border - (first + count) * S < S := by omega
    have hrestDvd : unit ∣ border - (first + count) * S := Nat.dvd_sub hdvd (hsize.mul_left _)
    rw [hlength, Nat.add_mul_mod_self_right, Nat.add_mul_div_right _ _ hpos, Nat.mod_eq_of_lt hrest, Nat.div_eq_of_lt hrest,
      Nat.mul_div_cancel' hrestDvd]
    refine ⟨Nat.zero_add _, by omega, Nat.div_pos (Nat.le_of_dvd (by omega) hrestDvd) hunit, ?_⟩
    rw [Nat.div_lt_iff_lt_mul hunit, Nat.mul_comm (2 ^ levels), hS]
    exact hrest

theorem tileLength_blocks (hunit : 0 < unit) (hcount : 0 < count)
    (hlast : (first + (count - 1)) * (unit * 2 ^ levels) < border) :
    (tileLength (unit * 2 ^ levels) border first count + unit * 2 ^ levels - 1) / (unit * 2 ^ levels) = count := by
  have hpos : 0 < unit * 2 ^ levels := Nat.mul_pos hunit (Nat.two_pow_pos _)
  generalize unit * 2 ^ levels = S at *
  obtain ⟨count, rfl⟩ : ∃ c, count = c + 1 := ⟨count - 1, by omega⟩
  rw [Nat.add_sub_cancel] at hlast
  have hsplit : (first + count) * S = first * S + count * S := Nat.add_mul ..
  have hall : (count + 1) * S = count * S + S := Nat.succ_mul ..
  have hlo : count * S < tileLength S border first (count + 1) := by
    apply lt_min
    · omega
    · omega
  have hhi : tileLength S border first (count + 1) ≤ (count + 1) * S := min_le_left _ _
  rw [Nat.div_eq_iff hpos]
  omega

end Lengths

/-! ## The bins of a tile -/

/-- What the loops give to a tile of a picture. -/
def skippedTile (pic : TiledPicture) (lastTile : Bool) (t : Tile) : SkippedTile where
  bLastTile := lastTile
  iWidth := tileLength (2 ^ pic.ctbLog2SizeY) pic.picWidth t.colBd t.columns
  iHeight := tileLength (2 ^ pic.ctbLog2SizeY) pic.picHeight t.rowBd t.rows
  uNumLCU := t.columns * t.rows

/-- The last coding tree block of a row is cut by the border of the picture, and those of the last row. -/
def cutWidth (pic : TiledPicture) (t : Tile) : ℕ :=
  tileLength (2 ^ pic.ctbLog2SizeY) pic.picWidth t.colBd t.columns % 2 ^ pic.ctbLog2SizeY / 2 ^ pic.minCbLog2SizeY

def cutHeight (pic : TiledPicture) (t : Tile) : ℕ :=
  tileLength (2 ^ pic.ctbLog2SizeY) pic.picHeight t.rowBd t.rows % 2 ^ pic.ctbLog2SizeY / 2 ^ pic.minCbLog2SizeY

variable {pic : TiledPicture} {t : Tile} {i : ℕ} {lastTile : Bool}

theorem ctb_eq (pic : TiledPicture) : 2 ^ pic.ctbLog2SizeY = 2 ^ pic.minCbLog2SizeY * 2 ^ pic.levels := by
  rw [← side_levels]
  rfl

/-- The first luma location of a coding tree block. -/
def ctbX (pic : TiledPicture) (t : Tile) (i : ℕ) : ℕ := pic.tileX t + i % t.columns * pic.plane.side pic.levels

def ctbY (pic : TiledPicture) (t : Tile) (i : ℕ) : ℕ := pic.tileY t + i / t.columns * pic.plane.side pic.levels

theorem last_lt {first count size n : ℕ} (hsize : 0 < size) (hcount : 0 < count)
    (h : first + count ≤ (n + size - 1) / size) : (first + (count - 1)) * size < n :=
  mul_lt_of_lt hsize (lt_of_lt_of_le (by omega) h)

/-- A block of a tile is cut if it is the last one and if something is left, and is otherwise inside. -/
theorem block_cases {first count border k : ℕ} (hk : k < count) (hdvd : P.unit ∣ border) (hunit : 0 < P.unit)
    (hlast : (first + (count - 1)) * P.side n < border) (cut : ℕ)
    (hcut : tileLength (P.side n) border first count % P.side n / P.unit = cut) :
    (k = count - 1 → cut ≠ 0 → 0 < n ∧ Cut P cut n ((first + k) * P.side n) border) ∧
    (¬ (k = count - 1 ∧ cut ≠ 0) → (first + k) * P.side n + P.side n ≤ border) ∧
    (cut ≠ 0 → tileLength (P.side n) border first count / P.side n = count - 1) := by
  rcases tileLength_cases hunit (Nat.zero_lt_of_lt hk) hdvd hlast with ⟨hdiv, hborder, hpos, hlt⟩ | ⟨hlength, hle⟩
  · have hcut' : tileLength (P.unit * 2 ^ n) border first count % (P.unit * 2 ^ n) / P.unit = cut := hcut
    rw [hcut'] at hborder hpos hlt
    refine ⟨?_, ?_, fun _ => hdiv⟩
    · rintro rfl hne
      have hlevels : n ≠ 0 := by
        rintro rfl
        rw [Nat.pow_zero] at hlt
        omega
      refine ⟨Nat.pos_of_ne_zero hlevels, ?_, ?_⟩
      · rw [Nat.mod_eq_of_lt hlt]
        exact hborder
      · rw [Nat.mod_eq_of_lt hlt]
        exact hpos
    · intro hnot
      have hnext : k + 1 ≤ count - 1 := by omega
      calc (first + k) * P.side n + P.side n = (first + (k + 1)) * P.side n := by ring
        _ ≤ (first + (count - 1)) * P.side n := Nat.mul_le_mul_right _ (Nat.add_le_add_left hnext _)
        _ ≤ border := hlast.le
  · have hzero : cut = 0 := by
      have hlength' : tileLength (P.side n) border first count = count * P.side n := hlength
      rw [← hcut, hlength', Nat.mul_mod_left, Nat.zero_div]
    refine ⟨fun _ hne => absurd hzero hne, fun _ => ?_, fun hne => absurd hzero hne⟩
    calc (first + k) * P.side n + P.side n = (first + (k + 1)) * P.side n := by ring
      _ ≤ (first + count) * P.side n := Nat.mul_le_mul_right _ (Nat.add_le_add_left hk _)
      _ ≤ border := hle

theorem leafBins_comm (a b : Bool) (n : ℕ) : leafBins a b n = leafBins b a n := by
  unfold leafBins
  rw [Nat.add_comm]

/-- The neighbours that the generator takes to be available. -/
def takenLeft (pic : TiledPicture) (t : Tile) (i : ℕ) : Bool :=
  decide (i % t.columns ≠ 0) || decide (i % t.columns = t.columns - 1 ∧ cutWidth pic t ≠ 0)

def takenAbove (pic : TiledPicture) (t : Tile) (i : ℕ) : Bool :=
  decide (t.columns ≤ i) || decide (i / t.columns = t.rows - 1 ∧ cutHeight pic t ≠ 0)

theorem shiftLeft_one (n : ℕ) : 1 <<< n = 2 ^ n := by
  rw [Nat.shiftLeft_eq, Nat.one_mul]

theorem skippedLCU_eq (h : TileInside pic t) (i : ℕ) :
    (skippedLCU pic.ctbLog2SizeY pic.minCbLog2SizeY (skippedTile pic lastTile t) i).syntaxBins =
      (if i % t.columns = t.columns - 1 ∧ cutWidth pic t ≠ 0 ∧ i / t.columns = t.rows - 1 ∧ cutHeight pic t ≠ 0 then
        writeSkippedCuBotRight (cutWidth pic t) (cutHeight pic t) (pic.levels - 1)
      else if i % t.columns = t.columns - 1 ∧ cutWidth pic t ≠ 0 then
        writeSkippedCuRight (cutWidth pic t) (pic.levels - 1) (t.columns ≤ i)
      else if i / t.columns = t.rows - 1 ∧ cutHeight pic t ≠ 0 then
        writeSkippedCuBottom (cutHeight pic t) (pic.levels - 1) (i % t.columns ≠ 0)
      else writeSkippedCU (t.columns ≤ i) (i % t.columns ≠ 0) false).syntaxBins ++
        endBins lastTile (i = t.columns * t.rows - 1) := by
  have hlastW := last_lt (Nat.two_pow_pos _) h.columns_pos h.columns_le
  have hlastH := last_lt (Nat.two_pow_pos _) h.rows_pos h.rows_le
  have hunit := Nat.two_pow_pos pic.minCbLog2SizeY
  have hwidth : (tileLength (2 ^ pic.ctbLog2SizeY) pic.picWidth t.colBd t.columns + 2 ^ pic.ctbLog2SizeY - 1) /
      2 ^ pic.ctbLog2SizeY = t.columns := by
    rw [ctb_eq] at hlastW ⊢
    exact tileLength_blocks hunit h.columns_pos hlastW
  have hrows : cutHeight pic t ≠ 0 →
      tileLength (2 ^ pic.ctbLog2SizeY) pic.picHeight t.rowBd t.rows / 2 ^ pic.ctbLog2SizeY = t.rows - 1 := by
    rw [← side_levels] at hlastH ⊢
    exact (block_cases (P := pic.plane) h.rows_pos pic.dvd_height hunit hlastH (cutHeight pic t) (by
      unfold cutHeight
      rw [side_levels]
      rfl)).2.2
  have hbottom : (i / t.columns = tileLength (2 ^ pic.ctbLog2SizeY) pic.picHeight t.rowBd t.rows /
      2 ^ pic.ctbLog2SizeY ∧ cutHeight pic t ≠ 0) = (i / t.columns = t.rows - 1 ∧ cutHeight pic t ≠ 0) := by
    refine propext (and_congr_left fun hcut => ?_)
    rw [hrows hcut]
  have hcutW : tileLength (2 ^ pic.ctbLog2SizeY) pic.picWidth t.colBd t.columns % 2 ^ pic.ctbLog2SizeY /
      2 ^ pic.minCbLog2SizeY = cutWidth pic t := rfl
  have hcutH : tileLength (2 ^ pic.ctbLog2SizeY) pic.picHeight t.rowBd t.rows % 2 ^ pic.ctbLog2SizeY /
      2 ^ pic.minCbLog2SizeY = cutHeight pic t := rfl
  have hlevels : pic.ctbLog2SizeY - pic.minCbLog2SizeY = pic.levels := rfl
  unfold skippedLCU skippedTile
  dsimp only
  rw [shiftLeft_one, Nat.shiftRight_eq_div_pow, Nat.shiftRight_eq_div_pow, Nat.shiftRight_eq_div_pow,
    Nat.shiftRight_eq_div_pow, hwidth]
  simp only [hcutW, hcutH, hbottom, hlevels]
  rw [BinWrites.syntaxBins_next, BinWrites.syntaxBins_next, BinWrites.syntaxBins_callIf, List.append_assoc]
  unfold endBins
  cases lastTile with
  | true => rfl
  | false =>
    cases decide (i = t.columns * t.rows - 1) with
    | true => rfl
    | false => rfl

/-- The bins of a coding tree block, where it can be split. -/
theorem syntaxBins_skippedLCU (h : TileInside pic t) (hlevels : 0 < pic.levels) (hi : i < t.columns * t.rows) :
    (skippedLCU pic.ctbLog2SizeY pic.minCbLog2SizeY (skippedTile pic lastTile t) i).syntaxBins =
      quadBins pic.plane pic.levels (ctbX pic t i) (ctbY pic t i) (takenLeft pic t i) (takenAbove pic t i) ++
        endBins lastTile (i + 1 = t.columns * t.rows) := by
  have hunit := Nat.two_pow_pos pic.minCbLog2SizeY
  have hcolumn : i % t.columns < t.columns := Nat.mod_lt i h.columns_pos
  have hrow : i / t.columns < t.rows := Nat.div_lt_of_lt_mul hi
  have hlastW := last_lt (Nat.two_pow_pos _) h.columns_pos h.columns_le
  have hlastH := last_lt (Nat.two_pow_pos _) h.rows_pos h.rows_le
  rw [← side_levels] at hlastW hlastH
  obtain ⟨hcutW, hinW, -⟩ := block_cases (P := pic.plane) hcolumn pic.dvd_width hunit hlastW (cutWidth pic t) (by
    unfold cutWidth
    rw [side_levels]
    rfl)
  obtain ⟨hcutH, hinH, -⟩ := block_cases (P := pic.plane) hrow pic.dvd_height hunit hlastH (cutHeight pic t) (by
    unfold cutHeight
    rw [side_levels]
    rfl)
  have hx : (t.colBd + i % t.columns) * pic.plane.side pic.levels = ctbX pic t i := by
    unfold ctbX tileX
    rw [side_levels, Nat.add_mul]
  have hy : (t.rowBd + i / t.columns) * pic.plane.side pic.levels = ctbY pic t i := by
    unfold ctbY tileY
    rw [side_levels, Nat.add_mul]
  rw [hx] at hcutW hinW
  rw [hy] at hcutH hinH
  have hend : decide (i = t.columns * t.rows - 1) = decide (i + 1 = t.columns * t.rows) := by
    rw [decide_eq_decide]
    omega
  obtain ⟨k, hk⟩ : ∃ k, pic.levels = k + 1 := ⟨pic.levels - 1, (Nat.sub_add_cancel hlevels).symm⟩
  rw [hk] at hcutW hinW hcutH hinH
  rw [skippedLCU_eq h, hend, hk, Nat.add_sub_cancel]
  refine congrArg (· ++ _) ?_
  unfold takenLeft takenAbove
  by_cases hright : i % t.columns = t.columns - 1 ∧ cutWidth pic t ≠ 0
  · rw [decide_eq_true hright, Bool.or_true]
    by_cases hbottom : i / t.columns = t.rows - 1 ∧ cutHeight pic t ≠ 0
    · rw [if_pos ⟨hright.1, hright.2, hbottom⟩, decide_eq_true hbottom, Bool.or_true]
      exact syntaxBins_botRight hunit (hcutW hright.1 hright.2).2 (hcutH hbottom.1 hbottom.2).2
    · rw [if_neg (fun hand => hbottom hand.2.2), if_pos hright, decide_eq_false hbottom, Bool.or_false]
      exact syntaxBins_right hunit (hcutW hright.1 hright.2).2 (hinH hbottom)
  · rw [if_neg (fun hand => hright ⟨hand.1, hand.2.1⟩), if_neg hright, decide_eq_false hright, Bool.or_false]
    by_cases hbottom : i / t.columns = t.rows - 1 ∧ cutHeight pic t ≠ 0
    · rw [if_pos hbottom, decide_eq_true hbottom, Bool.or_true]
      exact syntaxBins_bottom hunit (hcutH hbottom.1 hbottom.2).2 (hinW hright)
    · rw [if_neg hbottom, decide_eq_false hbottom, Bool.or_false, syntaxBins_cu_succ _ _ k, leafBins_comm]
      exact (quadBins_fits ⟨hinW hright, hinH hbottom⟩).symm

/-- The bins of the coding tree unit in the syntax, with the neighbours that are in the tile. -/
theorem ctuBins_eq (h : TileInside pic t) (hi : i < t.columns * t.rows) :
    pic.ctuBins lastTile t i =
      quadBins pic.plane pic.levels (ctbX pic t i) (ctbY pic t i) (decide (i % t.columns ≠ 0)) (decide (t.columns ≤ i)) ++
        endBins lastTile (i + 1 = t.columns * t.rows) := by
  obtain ⟨hx, hy⟩ := ctb_inside h hi
  have hpos : 0 < pic.plane.side pic.levels := Plane.side_pos unit_pos
  have hleft : decide (pic.tileX t < ctbX pic t i) = decide (i % t.columns ≠ 0) := by
    rw [decide_eq_decide]
    unfold ctbX
    constructor
    · rintro hlt hzero
      rw [hzero, Nat.zero_mul] at hlt
      exact lt_irrefl _ hlt
    · intro hne
      exact Nat.lt_add_of_pos_right (Nat.mul_pos (Nat.pos_of_ne_zero hne) hpos)
  have habove : decide (pic.tileY t < ctbY pic t i) = decide (t.columns ≤ i) := by
    rw [decide_eq_decide]
    unfold ctbY
    constructor
    · intro hlt
      by_contra! hless
      rw [Nat.div_eq_of_lt hless, Nat.zero_mul] at hlt
      exact lt_irrefl _ hlt
    · intro hle
      exact Nat.lt_add_of_pos_right (Nat.mul_pos (Nat.div_pos hle h.columns_pos) hpos)
  unfold ctuBins
  refine congrArg (· ++ _) ?_
  have hx' : ctbX pic t i < pic.plane.width := hx
  have hy' : ctbY pic t i < pic.plane.height := hy
  have hxle : pic.tileX t ≤ ctbX pic t i := Nat.le_add_right ..
  have hyle : pic.tileY t ≤ ctbY pic t i := Nat.le_add_right ..
  have hquad := flatMap_quarter (n := pic.levels) (a := false) (b := false) hxle hyle hx' hy'
  rw [hleft, habove, Bool.false_or, Bool.false_or] at hquad
  exact hquad

theorem syntaxBins_foldl (f : ℕ → BinWrites) (l : List ℕ) (w : BinWrites) :
    (l.foldl (fun w i => w.next (f i)) w).syntaxBins = w.syntaxBins ++ l.flatMap fun i => (f i).syntaxBins := by
  induction l generalizing w with
  | nil => exact (List.append_nil _).symm
  | cons i l ih => rw [List.foldl_cons, ih, BinWrites.syntaxBins_next, List.flatMap_cons, List.append_assoc]

theorem syntaxBins_tile (pic : TiledPicture) (lastTile : Bool) (t : Tile) :
    (skippedTileBins pic.ctbLog2SizeY pic.minCbLog2SizeY (skippedTile pic lastTile t)).syntaxBins =
      (List.range (t.columns * t.rows)).flatMap fun i =>
        (skippedLCU pic.ctbLog2SizeY pic.minCbLog2SizeY (skippedTile pic lastTile t) i).syntaxBins :=
  syntaxBins_foldl _ _ _

/-! ## When the bins of a tile are right -/

def SyntaxBin.isSkipFlag : SyntaxBin → Bool
  | .context (.cuSkipFlag _) _ => true
  | _ => false

theorem find_leafBins (a b : Bool) (n : ℕ) (l : List SyntaxBin) :
    (leafBins a b n ++ l).find? SyntaxBin.isSkipFlag = some (.context (.cuSkipFlag (a.toNat + b.toNat)) true) := by
  unfold leafBins
  by_cases hn : n = 0
  · rw [if_pos hn]
    rfl
  · rw [if_neg hn]
    rfl

theorem find_quadBins (hunit : 0 < P.unit) (hx : x < P.width) (hy : y < P.height) (l : List SyntaxBin) :
    (quadBins P n x y a b ++ l).find? SyntaxBin.isSkipFlag = some (.context (.cuSkipFlag (a.toNat + b.toNat)) true) := by
  induction n generalizing l with
  | zero =>
    rw [quadBins_leaf 0 x y a b rfl]
    exact find_leafBins ..
  | succ n ih =>
    by_cases hfits : P.Fits (n + 1) x y
    · rw [quadBins_fits hfits]
      exact find_leafBins ..
    · rw [quadBins_split hunit hx hy hfits, List.append_assoc, List.append_assoc, List.append_assoc]
      exact ih _

/-- The coding tree blocks can be split, and no cut column or row is alone in the tile. -/
structure TileRight (pic : TiledPicture) (t : Tile) : Prop where
  levels : 0 < pic.levels
  columns : cutWidth pic t ≠ 0 → 1 < t.columns
  rows : cutHeight pic t ≠ 0 → 1 < t.rows

theorem takenLeft_eq (h : TileRight pic t) : takenLeft pic t i = decide (i % t.columns ≠ 0) := by
  unfold takenLeft
  rw [← Bool.decide_or, decide_eq_decide]
  refine ⟨fun hor => hor.elim id fun hcut => ?_, Or.inl⟩
  have hcolumns := h.columns hcut.2
  omega

theorem takenAbove_eq (h : TileRight pic t) : takenAbove pic t i = decide (t.columns ≤ i) := by
  unfold takenAbove
  rw [← Bool.decide_or, decide_eq_decide]
  refine ⟨fun hor => hor.elim id fun hcut => ?_, Or.inl⟩
  have hrows := h.rows hcut.2
  by_contra! hless
  rw [Nat.div_eq_of_lt hless] at hcut
  omega

theorem levels_pos_of_cut (h : TileInside pic t) (hcut : cutWidth pic t ≠ 0 ∨ cutHeight pic t ≠ 0) : 0 < pic.levels := by
  have hunit := Nat.two_pow_pos pic.minCbLog2SizeY
  have hlastW := last_lt (Nat.two_pow_pos _) h.columns_pos h.columns_le
  have hlastH := last_lt (Nat.two_pow_pos _) h.rows_pos h.rows_le
  rw [← side_levels] at hlastW hlastH
  rcases hcut with hcut | hcut
  · refine ((block_cases (P := pic.plane) (Nat.sub_one_lt h.columns_pos.ne') pic.dvd_width hunit hlastW (cutWidth pic t) ?_).1
      rfl hcut).1
    unfold cutWidth
    rw [side_levels]
    rfl
  · refine ((block_cases (P := pic.plane) (Nat.sub_one_lt h.rows_pos.ne') pic.dvd_height hunit hlastH (cutHeight pic t) ?_).1
      rfl hcut).1
    unfold cutHeight
    rw [side_levels]
    rfl

/-- The first coding tree unit has a neighbour that is not there, or a flag that is not. -/
theorem tileRight_of_first (h : TileInside pic t) (l l' : List SyntaxBin)
    (heq : (skippedLCU pic.ctbLog2SizeY pic.minCbLog2SizeY (skippedTile pic lastTile t) 0).syntaxBins ++ l =
      pic.ctuBins lastTile t 0 ++ l') : TileRight pic t := by
  have hcount : 0 < t.columns * t.rows := Nat.mul_pos h.columns_pos h.rows_pos
  have hlevels : 0 < pic.levels := by
    by_contra! hzero
    have hnocut : cutWidth pic t = 0 ∧ cutHeight pic t = 0 := by
      by_contra! hcut
      have hpos := levels_pos_of_cut h (by omega)
      omega
    have hlevels : pic.levels = 0 := Nat.le_zero.mp hzero
    rw [skippedLCU_eq h, hnocut.1, hnocut.2, ctuBins_eq h hcount, hlevels, quadBins_leaf 0 _ _ _ _ rfl] at heq
    simp only [ne_eq, not_true, and_false, if_false] at heq
    rw [syntaxBins_cu_succ _ _ 0] at heq
    have hhead := congrArg List.head? heq
    revert hhead
    unfold leafBins
    simp
  rw [syntaxBins_skippedLCU h hlevels hcount, ctuBins_eq h hcount, List.append_assoc, List.append_assoc] at heq
  obtain ⟨hx, hy⟩ := ctb_inside h hcount
  have hx' : ctbX pic t 0 < pic.plane.width := hx
  have hy' : ctbY pic t 0 < pic.plane.height := hy
  have hfind := congrArg (List.find? SyntaxBin.isSkipFlag) heq
  rw [find_quadBins unit_pos hx' hy', find_quadBins unit_pos hx' hy'] at hfind
  have hinc : (takenLeft pic t 0).toNat + (takenAbove pic t 0).toNat =
      (decide (0 % t.columns ≠ 0)).toNat + (decide (t.columns ≤ 0)).toNat := by
    injection hfind with hbin
    injection hbin with hctx
    injection hctx
  have hleft : decide (0 % t.columns ≠ 0) = false := decide_eq_false (by rw [Nat.zero_mod]; exact fun hne => hne rfl)
  have habove : decide (t.columns ≤ 0) = false := decide_eq_false (Nat.not_le_of_gt h.columns_pos)
  unfold takenLeft takenAbove at hinc
  rw [hleft, habove, Bool.false_or, Bool.false_or, Bool.toNat_false, Nat.add_zero, Nat.zero_mod, Nat.zero_div] at hinc
  obtain ⟨hnoLeft, hnoAbove⟩ := Nat.add_eq_zero_iff.mp hinc
  have hcolumns : ¬ (0 = t.columns - 1 ∧ cutWidth pic t ≠ 0) := by
    intro hcut
    rw [decide_eq_true hcut] at hnoLeft
    cases hnoLeft
  have hrows : ¬ (0 = t.rows - 1 ∧ cutHeight pic t ≠ 0) := by
    intro hcut
    rw [decide_eq_true hcut] at hnoAbove
    cases hnoAbove
  have hcpos := h.columns_pos
  have hrpos := h.rows_pos
  exact ⟨hlevels, fun hcut => by omega, fun hcut => by omega⟩

/-- The bins of a tile are those of the syntax exactly if the coding tree blocks can be split
and no cut column or row is alone. -/
theorem syntaxBins_tile_iff (h : TileInside pic t) :
    (skippedTileBins pic.ctbLog2SizeY pic.minCbLog2SizeY (skippedTile pic lastTile t)).syntaxBins =
      (pic.tileData lastTile t).bins ↔ TileRight pic t := by
  rw [syntaxBins_tile, bins_tileData h]
  constructor
  · intro heq
    obtain ⟨n, hn⟩ : ∃ n, t.columns * t.rows = n + 1 :=
      ⟨t.columns * t.rows - 1, (Nat.sub_add_cancel (Nat.mul_pos h.columns_pos h.rows_pos)).symm⟩
    rw [hn, List.range_succ_eq_map, List.flatMap_cons, List.flatMap_cons] at heq
    exact tileRight_of_first h _ _ heq
  · intro hright
    refine List.flatMap_congr fun i hi => ?_
    have hi' := List.mem_range.mp hi
    rw [syntaxBins_skippedLCU h hright.levels hi', ctuBins_eq h hi', takenLeft_eq hright, takenAbove_eq hright]

end VcuCodec
