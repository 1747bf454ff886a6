import Mathlib.Data.List.Basic
import Mathlib.Algebra.BigOperators.Group.List.Basic
import Mathlib.Tactic.Common
import Mathlib.Tactic.Ring

/-!
# Quadtrees on a plane with a border

A square block is kept whole if it fits into the plane, and is otherwise split into four
blocks, of which those that begin outside of the plane are left out.  Blocks of level zero
are never split.  The leaves are in z-order.
-/

namespace QuadTrees

/-- A plane of the given size, and the side of the blocks of level zero. -/
structure Plane where
  unit : ℕ
  width : ℕ
  height : ℕ

structure Block where
  x : ℕ
  y : ℕ
  level : ℕ
  deriving DecidableEq

variable (P : Plane)

/-- The side of the blocks of a level. -/
def Plane.side (n : ℕ) : ℕ := P.unit * 2 ^ n

/-- The block is inside of the plane. -/
def Plane.Fits (n x y : ℕ) : Prop := x + P.side n ≤ P.width ∧ y + P.side n ≤ P.height
deriving Decidable

/-- The point is in the block. -/
def Block.Covers (b : Block) (px py : ℕ) : Prop :=
  (b.x ≤ px ∧ px < b.x + P.side b.level) ∧ b.y ≤ py ∧ py < b.y + P.side b.level
deriving Decidable

/-- The leaves of a block. -/
def leaves : ℕ → ℕ → ℕ → List Block
  | 0, x, y => [⟨x, y, 0⟩]
  | n + 1, x, y =>
    if P.Fits (n + 1) x y then [⟨x, y, n + 1⟩]
    else
      leaves n x y ++
      (if x + P.side n < P.width then leaves n (x + P.side n) y else []) ++
      (if y + P.side n < P.height then leaves n x (y + P.side n) else []) ++
      (if x + P.side n < P.width ∧ y + P.side n < P.height then leaves n (x + P.side n) (y + P.side n) else [])

variable {P} {n x y px py : ℕ} {b : Block}

theorem Plane.side_succ (n : ℕ) : P.side (n + 1) = P.side n + P.side n := by
  unfold Plane.side
  ring

theorem Plane.side_pos (h : 0 < P.unit) : 0 < P.side n := Nat.mul_pos h (Nat.two_pow_pos n)

theorem leaves_of_fits (h : P.Fits n x y) : leaves P n x y = [⟨x, y, n⟩] := by
  cases n with
  | zero => rfl
  | succ n => exact if_pos h

theorem leaves_split (h : ¬ P.Fits (n + 1) x y) :
    leaves P (n + 1) x y = leaves P n x y ++
      (if x + P.side n < P.width then leaves P n (x + P.side n) y else []) ++
      (if y + P.side n < P.height then leaves P n x (y + P.side n) else []) ++
      (if x + P.side n < P.width ∧ y + P.side n < P.height then leaves P n (x + P.side n) (y + P.side n) else []) :=
  if_neg h

/-- A leaf of a block that is split is a leaf of one of its quarters, which begins inside of the plane. -/
theorem mem_leaves_split (h : ¬ P.Fits (n + 1) x y) (hb : b ∈ leaves P (n + 1) x y) (hx : x < P.width) (hy : y < P.height) :
    ∃ x' y', (x' = x ∨ x' = x + P.side n) ∧ (y' = y ∨ y' = y + P.side n) ∧ x' < P.width ∧ y' < P.height ∧
      b ∈ leaves P n x' y' := by
  rw [leaves_split h] at hb
  rcases List.mem_append.mp hb with hb | hb
  · rcases List.mem_append.mp hb with hb | hb
    · rcases List.mem_append.mp hb with hb | hb
      · exact ⟨x, y, Or.inl rfl, Or.inl rfl, hx, hy, hb⟩
      · split at hb
        · next hright => exact ⟨_, y, Or.inr rfl, Or.inl rfl, hright, hy, hb⟩
        · cases hb
    · split at hb
      · next hbottom => exact ⟨x, _, Or.inl rfl, Or.inr rfl, hx, hbottom, hb⟩
      · cases hb
  · split at hb
    · next hboth => exact ⟨_, _, Or.inr rfl, Or.inr rfl, hboth.1, hboth.2, hb⟩
    · cases hb

/-! ## Every point is in one leaf -/

/-- A block has as many points in common with its four quarters as with itself. -/
theorem covers_quarters :
    (if (⟨x, y, n + 1⟩ : Block).Covers P px py then 1 else 0) =
      (if (⟨x, y, n⟩ : Block).Covers P px py then 1 else 0) +
      (if (⟨x + P.side n, y, n⟩ : Block).Covers P px py then 1 else 0) +
      (if (⟨x, y + P.side n, n⟩ : Block).Covers P px py then 1 else 0) +
      (if (⟨x + P.side n, y + P.side n, n⟩ : Block).Covers P px py then 1 else 0) := by
  have hside := P.side_succ n
  unfold Block.Covers
  grind

/-- A point of the plane is in exactly one leaf of a block that covers it. -/
theorem countP_leaves (hpx : px < P.width) (hpy : py < P.height) (n x y : ℕ) :
    (leaves P n x y).countP (fun b => decide (b.Covers P px py)) =
      if (⟨x, y, n⟩ : Block).Covers P px py then 1 else 0 := by
  have hone : ∀ b : Block, [b].countP (fun b => decide (b.Covers P px py)) = if b.Covers P px py then 1 else 0 := by
    intro b
    rw [List.countP_singleton]
    simp only [decide_eq_true_eq]
  induction n generalizing x y with
  | zero => exact hone _
  | succ n ih =>
    by_cases hfits : P.Fits (n + 1) x y
    · rw [leaves_of_fits hfits]
      exact hone _
    · -- a quarter that is left out covers no point of the plane
      have hquarter : ∀ (c : Prop) [Decidable c] (x' y' : ℕ), (x' < P.width → y' < P.height → c) →
          (if c then leaves P n x' y' else []).countP (fun b => decide (b.Covers P px py)) =
            if (⟨x', y', n⟩ : Block).Covers P px py then 1 else 0 := by
        intro c _ x' y' hc
        by_cases hinside : c
        · rw [if_pos hinside]
          exact ih x' y'
        · rw [if_neg hinside, if_neg]
          · rfl
          · rintro ⟨⟨hx, -⟩, hy, -⟩
            exact hinside (hc (lt_of_le_of_lt hx hpx) (lt_of_le_of_lt hy hpy))
      rw [leaves_split hfits, List.countP_append, List.countP_append, List.countP_append, ih,
        hquarter _ _ _ fun hx _ => hx, hquarter _ _ _ fun _ hy => hy, hquarter _ _ _ And.intro, ← covers_quarters]

/-- Some block of a list has the point. -/
def Reaches (P : Plane) (bs : List Block) (px py : ℕ) : Prop := ∃ b ∈ bs, b.Covers P px py

theorem Reaches.mono {bs bs' : List Block} (h : Reaches P bs px py) (hsub : bs ⊆ bs') : Reaches P bs' px py := by
  obtain ⟨b, hb, hcovers⟩ := h
  exact ⟨b, hsub hb, hcovers⟩

theorem reaches_leaves (hpx : px < P.width) (hpy : py < P.height) (h : (⟨x, y, n⟩ : Block).Covers P px py) :
    Reaches P (leaves P n x y) px py := by
  have hcount := countP_leaves hpx hpy n x y
  rw [if_pos h] at hcount
  obtain ⟨b, hb, hcovers⟩ := List.countP_pos_iff.mp (by rw [hcount]; exact Nat.one_pos)
  exact ⟨b, hb, of_decide_eq_true hcovers⟩

/-! ## The leaves are the largest blocks that fit -/

theorem level_le (hb : b ∈ leaves P n x y) (hx : x < P.width) (hy : y < P.height) : b.level ≤ n := by
  induction n generalizing x y with
  | zero =>
    obtain rfl := List.mem_singleton.mp hb
    exact le_rfl
  | succ n ih =>
    by_cases hfits : P.Fits (n + 1) x y
    · rw [leaves_of_fits hfits] at hb
      obtain rfl := List.mem_singleton.mp hb
      exact le_rfl
    · obtain ⟨x', y', -, -, hx', hy', hb⟩ := mem_leaves_split hfits hb hx hy
      exact (ih hb hx' hy').trans (Nat.le_succ n)

/-- A leaf begins in the block and in the plane, and it fits unless it is of level zero. -/
theorem leaf_inside (hb : b ∈ leaves P n x y) (hx : x < P.width) (hy : y < P.height) :
    (x ≤ b.x ∧ b.x < P.width) ∧ (y ≤ b.y ∧ b.y < P.height) ∧ (b.level = 0 ∨ P.Fits b.level b.x b.y) := by
  induction n generalizing x y with
  | zero =>
    obtain rfl := List.mem_singleton.mp hb
    exact ⟨⟨le_rfl, hx⟩, ⟨le_rfl, hy⟩, Or.inl rfl⟩
  | succ n ih =>
    by_cases hfits : P.Fits (n + 1) x y
    · rw [leaves_of_fits hfits] at hb
      obtain rfl := List.mem_singleton.mp hb
      exact ⟨⟨le_rfl, hx⟩, ⟨le_rfl, hy⟩, Or.inr hfits⟩
    · obtain ⟨x', y', hx₁, hy₁, hx', hy', hb⟩ := mem_leaves_split hfits hb hx hy
      obtain ⟨⟨hxb, hbx⟩, ⟨hyb, hby⟩, hlast⟩ := ih hb hx' hy'
      exact ⟨⟨by omega, hbx⟩, ⟨by omega, hby⟩, hlast⟩

/-- The aligned block of a level that has the point fits into the plane. -/
def Plane.FitsAt (P : Plane) (n px py : ℕ) : Prop :=
  (px / P.side n + 1) * P.side n ≤ P.width ∧ (py / P.side n + 1) * P.side n ≤ P.height

theorem div_mul_mono {k p q : ℕ} (h : p ≤ q) : (p / k + 1) * k ≤ (q / k + 1) * k :=
  Nat.mul_le_mul_right _ (Nat.succ_le_succ (Nat.div_le_div_right h))

theorem div_mul_le {k m p : ℕ} (hk : 0 < k) (h : k ∣ m) (hm : 0 < m) : (p / k + 1) * k ≤ (p / m + 1) * m := by
  obtain ⟨c, rfl⟩ := h
  have hlt : p < (p / (k * c) + 1) * (k * c) := by
    rw [Nat.mul_comm]
    exact Nat.lt_mul_div_succ p hm
  have hdiv : p / k < (p / (k * c) + 1) * c := by
    rw [Nat.div_lt_iff_lt_mul hk]
    calc p < (p / (k * c) + 1) * (k * c) := hlt
      _ = (p / (k * c) + 1) * c * k := by ring
  calc (p / k + 1) * k ≤ (p / (k * c) + 1) * c * k := Nat.mul_le_mul_right _ hdiv
    _ = (p / (k * c) + 1) * (k * c) := by ring

theorem Plane.FitsAt.mono {n m qx qy : ℕ} (h : P.FitsAt m qx qy) (hunit : 0 < P.unit) (hn : n ≤ m) (hx : px ≤ qx)
    (hy : py ≤ qy) : P.FitsAt n px py := by
  have hside : P.side n ∣ P.side m := Nat.mul_dvd_mul_left _ (Nat.pow_dvd_pow 2 hn)
  have hshorter : ∀ p, (p / P.side n + 1) * P.side n ≤ (p / P.side m + 1) * P.side m := fun p =>
    div_mul_le (Plane.side_pos hunit) hside (Plane.side_pos hunit)
  exact ⟨(div_mul_mono hx).trans ((hshorter qx).trans h.1), (div_mul_mono hy).trans ((hshorter qy).trans h.2)⟩

theorem div_mul_of_dvd {k p q : ℕ} (hk : k ∣ p) (hle : p ≤ q) (hlt : q < p + k) : (q / k + 1) * k = p + k := by
  obtain ⟨c, rfl⟩ := hk
  have hdiv : q / k = c := Nat.div_eq_of_lt_le (by rwa [Nat.mul_comm]) (by
    rw [Nat.succ_mul, Nat.mul_comm c k]
    exact hlt)
  rw [hdiv]
  ring

theorem fitsAt_of_covers (hx : P.side n ∣ x) (hy : P.side n ∣ y) (h : (⟨x, y, n⟩ : Block).Covers P px py) :
    P.FitsAt n px py ↔ P.Fits n x y := by
  obtain ⟨⟨hxle, hxlt⟩, hyle, hylt⟩ := h
  unfold Plane.FitsAt Plane.Fits
  rw [div_mul_of_dvd hx hxle hxlt, div_mul_of_dvd hy hyle hylt]

/-- The points of a leaf, and what is around a leaf that is smaller than the block. -/
theorem leaf_maximal (hx : x < P.width) (hy : y < P.height) (hxd : P.side n ∣ x) (hyd : P.side n ∣ y)
    (hb : b ∈ leaves P n x y) : (P.side b.level ∣ b.x ∧ P.side b.level ∣ b.y) ∧
      ∀ px py, b.Covers P px py → (⟨x, y, n⟩ : Block).Covers P px py ∧ (b.level < n → ¬ P.FitsAt (b.level + 1) px py) := by
  induction n generalizing x y with
  | zero =>
    obtain rfl := List.mem_singleton.mp hb
    exact ⟨⟨hxd, hyd⟩, fun px py h => ⟨h, fun hlt => absurd hlt (lt_irrefl 0)⟩⟩
  | succ n ih =>
    by_cases hfits : P.Fits (n + 1) x y
    · rw [leaves_of_fits hfits] at hb
      obtain rfl := List.mem_singleton.mp hb
      exact ⟨⟨hxd, hyd⟩, fun px py h => ⟨h, fun hlt => absurd hlt (lt_irrefl _)⟩⟩
    · obtain ⟨x', y', hx₁, hy₁, hx', hy', hb⟩ := mem_leaves_split hfits hb hx hy
      have hhalf : P.side n ∣ P.side (n + 1) := Nat.mul_dvd_mul_left _ (Nat.pow_dvd_pow 2 (Nat.le_succ n))
      have hxd' : P.side n ∣ x' := by
        rcases hx₁ with rfl | rfl
        · exact hhalf.trans hxd
        · exact Nat.dvd_add (hhalf.trans hxd) (dvd_refl _)
      have hyd' : P.side n ∣ y' := by
        rcases hy₁ with rfl | rfl
        · exact hhalf.trans hyd
        · exact Nat.dvd_add (hhalf.trans hyd) (dvd_refl _)
      obtain ⟨hdvd, hpoints⟩ := ih hx' hy' hxd' hyd' hb
      refine ⟨hdvd, fun px py h => ?_⟩
      obtain ⟨⟨⟨hpx, hpx'⟩, hpy, hpy'⟩, hsmaller⟩ := hpoints px py h
      have hcovers : (⟨x, y, n + 1⟩ : Block).Covers P px py := by
        unfold Block.Covers
        rw [Plane.side_succ]
        dsimp only at hpx hpx' hpy hpy' ⊢
        omega
      refine ⟨hcovers, fun hlt hat => ?_⟩
      rcases Nat.lt_or_ge b.level n with hlow | hhigh
      · exact hsmaller hlow hat
      · have hlevel : b.level = n := le_antisymm (level_le hb hx' hy') hhigh
        rw [hlevel] at hat
        exact hfits ((fitsAt_of_covers hxd hyd hcovers).mp hat)

/-- A leaf is not larger than the leaves on its left and above it. -/
theorem level_le_of_covers {a b : Block} {xa ya xb yb : ℕ} (hunit : 0 < P.unit) (hxa : xa < P.width) (hya : ya < P.height)
    (hxd : P.side n ∣ xa) (hyd : P.side n ∣ ya) (ha : a ∈ leaves P n xa ya) (hxb : xb < P.width) (hyb : yb < P.height)
    (hxd' : P.side n ∣ xb) (hyd' : P.side n ∣ yb) (hb : b ∈ leaves P n xb yb) (hcovers : a.Covers P px py)
    (hpx : px ≤ b.x) (hpy : py ≤ b.y) : b.level ≤ a.level := by
  by_contra! hlt
  have hle := level_le hb hxb hyb
  obtain ⟨-, -, hfits⟩ := leaf_inside hb hxb hyb
  have hself : b.Covers P b.x b.y := by
    have hpos := P.side_pos (n := b.level) hunit
    exact ⟨⟨le_rfl, by omega⟩, le_rfl, by omega⟩
  have hat : P.FitsAt b.level b.x b.y := by
    obtain ⟨hdvd, -⟩ := leaf_maximal hxb hyb hxd' hyd' hb
    rcases hfits with hzero | hfits
    · omega
    · exact (fitsAt_of_covers hdvd.1 hdvd.2 hself).mpr hfits
  obtain ⟨-, hpoints⟩ := leaf_maximal hxa hya hxd hyd ha
  exact (hpoints px py hcovers).2 (lt_of_lt_of_le hlt hle) (hat.mono hunit hlt hpx hpy)

/-! ## The order of the leaves -/

/-- Every block of a list is allowed behind the blocks in front of it. -/
def Ordered (allowed : List Block → Block → Prop) : List Block → List Block → Prop
  | _, [] => True
  | before, b :: bs => allowed before b ∧ Ordered allowed (before ++ [b]) bs

theorem ordered_append {allowed : List Block → Block → Prop} {before bs bs' : List Block} :
    Ordered allowed before (bs ++ bs') ↔ Ordered allowed before bs ∧ Ordered allowed (before ++ bs) bs' := by
  induction bs generalizing before with
  | nil => simp [Ordered]
  | cons b bs ih =>
    simp only [List.cons_append, Ordered, ih, and_assoc, List.append_assoc, List.nil_append]

/-- The points on the left of a block and above it are in blocks in front of it, unless they
are outside of a region that begins at the given point. -/
def Allowed (P : Plane) (x₀ y₀ : ℕ) (before : List Block) (b : Block) : Prop :=
  (x₀ < b.x → Reaches P before (b.x - 1) b.y) ∧ (y₀ < b.y → Reaches P before b.x (b.y - 1))

/-- The points on the left of a block and those above it. -/
structure Bordered (P : Plane) (x₀ y₀ : ℕ) (before : List Block) (n x y : ℕ) : Prop where
  left : x₀ < x → ∀ py, y ≤ py → py < y + P.side n → py < P.height → Reaches P before (x - 1) py
  above : y₀ < y → ∀ px, x ≤ px → px < x + P.side n → px < P.width → Reaches P before px (y - 1)

theorem reaches_right {before : List Block} (hpos : 0 < P.side n) (hsub : leaves P n x y ⊆ before)
    (hwidth : x + P.side n < P.width) {py : ℕ} (hle : y ≤ py) (hlt : py < y + P.side n) (hheight : py < P.height) :
    Reaches P before (x + P.side n - 1) py := by
  refine (reaches_leaves (by omega) hheight ⟨⟨?_, ?_⟩, hle, hlt⟩).mono hsub
  · show x ≤ x + P.side n - 1
    omega
  · show x + P.side n - 1 < x + P.side n
    omega

theorem reaches_below {before : List Block} (hpos : 0 < P.side n) (hsub : leaves P n x y ⊆ before)
    (hheight : y + P.side n < P.height) {px : ℕ} (hle : x ≤ px) (hlt : px < x + P.side n) (hwidth : px < P.width) :
    Reaches P before px (y + P.side n - 1) := by
  refine (reaches_leaves hwidth (by omega) ⟨⟨hle, hlt⟩, ?_, ?_⟩).mono hsub
  · show y ≤ y + P.side n - 1
    omega
  · show y + P.side n - 1 < y + P.side n
    omega

theorem ordered_singleton {x₀ y₀ : ℕ} {before : List Block} (hpos : 0 < P.side n) (hx : x < P.width) (hy : y < P.height)
    (h : Bordered P x₀ y₀ before n x y) : Ordered (Allowed P x₀ y₀) before [⟨x, y, n⟩] :=
  ⟨⟨fun hlt => h.left hlt y le_rfl (by omega) hy, fun hlt => h.above hlt x le_rfl (by omega) hx⟩, trivial⟩

/-- The leaves of a block are allowed if the points around the block are in blocks in front of it. -/
theorem ordered_leaves {x₀ y₀ : ℕ} {before : List Block} (hunit : 0 < P.unit) (hx : x < P.width) (hy : y < P.height)
    (h : Bordered P x₀ y₀ before n x y) : Ordered (Allowed P x₀ y₀) before (leaves P n x y) := by
  induction n generalizing x y before with
  | zero => exact ordered_singleton (P.side_pos hunit) hx hy h
  | succ n ih =>
    by_cases hfits : P.Fits (n + 1) x y
    · rw [leaves_of_fits hfits]
      exact ordered_singleton (P.side_pos hunit) hx hy h
    · have hpos := P.side_pos (n := n) hunit
      have hside := P.side_succ n
      rw [leaves_split hfits, ordered_append, ordered_append, ordered_append]
      -- the quarters in front of a quarter border it, and the blocks around the block
      refine ⟨⟨⟨?_, ?_⟩, ?_⟩, ?_⟩
      · exact ih hx hy ⟨fun hlt py hle hpy => h.left hlt py hle (by omega), fun hlt px hle hpx => h.above hlt px hle (by omega)⟩
      · by_cases hright : x + P.side n < P.width
        · rw [if_pos hright]
          refine ih hright hy ⟨fun _ py hle hpy hh => ?_, fun hlt px hle hpx hw => ?_⟩
          · exact reaches_right hpos (List.subset_append_right _ _) hright hle hpy hh
          · exact (h.above hlt px (by omega) (by omega) hw).mono (List.subset_append_left _ _)
        · rw [if_neg hright]
          trivial
      · by_cases hbelow : y + P.side n < P.height
        · rw [if_pos hbelow]
          refine ih hx hbelow ⟨fun hlt py hle hpy hh => ?_, fun _ px hle hpx hw => ?_⟩
          · exact (h.left hlt py (by omega) (by omega) hh).mono (List.subset_append_left _ _)
          · refine reaches_below hpos ?_ hbelow hle hpx hw
            exact List.subset_append_of_subset_right _ (List.subset_append_left _ _)
        · rw [if_neg hbelow]
          trivial
      · by_cases hboth : x + P.side n < P.width ∧ y + P.side n < P.height
        · rw [if_pos hboth, if_pos hboth.1, if_pos hboth.2]
          refine ih hboth.1 hboth.2 ⟨fun _ py hle hpy hh => ?_, fun _ px hle hpx hw => ?_⟩
          · refine reaches_right hpos ?_ hboth.1 hle hpy hh
            exact List.subset_append_of_subset_right _ (List.subset_append_right _ _)
          · refine reaches_below hpos ?_ hboth.2 hle hpx hw
            exact List.subset_append_of_subset_right _ (List.subset_append_of_subset_left _ (List.subset_append_right _ _))
        · rw [if_neg hboth]
          trivial

/-! ## A grid of blocks -/

/-- The blocks of a grid with the given number of columns, row after row. -/
def gridLeaves (P : Plane) (n x₀ y₀ columns : ℕ) (i : ℕ) : List Block :=
  leaves P n (x₀ + i % columns * P.side n) (y₀ + i / columns * P.side n)

/-- The leaves of the blocks in front of a block of the grid. -/
def before (P : Plane) (n x₀ y₀ columns i : ℕ) : List Block :=
  (List.range i).flatMap (gridLeaves P n x₀ y₀ columns)

theorem before_succ (n x₀ y₀ columns i : ℕ) :
    before P n x₀ y₀ columns (i + 1) = before P n x₀ y₀ columns i ++ gridLeaves P n x₀ y₀ columns i := by
  unfold before
  rw [List.range_succ, List.flatMap_append, List.flatMap_singleton]

theorem gridLeaves_subset {n x₀ y₀ columns i j : ℕ} (h : j < i) :
    gridLeaves P n x₀ y₀ columns j ⊆ before P n x₀ y₀ columns i :=
  fun _ hb => List.mem_flatMap.mpr ⟨j, List.mem_range.mpr h, hb⟩

theorem pred_column {columns i : ℕ} (h : i % columns ≠ 0) :
    (i - 1) % columns + 1 = i % columns ∧ (i - 1) / columns = i / columns := by
  have hsplit := Nat.mod_add_div i columns
  rcases Nat.eq_zero_or_pos columns with rfl | hpos
  · rw [Nat.mod_zero] at h
    simp only [Nat.mod_zero, Nat.div_zero, and_true]
    omega
  · have hlt := Nat.mod_lt i hpos
    have hpred : i - 1 = (i % columns - 1) + columns * (i / columns) := by omega
    rw [hpred, Nat.add_mul_mod_self_left, Nat.add_mul_div_left _ _ hpos, Nat.mod_eq_of_lt (by omega),
      Nat.div_eq_of_lt (by omega)]
    omega

theorem pred_row {columns i : ℕ} (h : i / columns ≠ 0) :
    columns ≤ i ∧ (i - columns) % columns = i % columns ∧ (i - columns) / columns + 1 = i / columns := by
  obtain ⟨hpos, hle⟩ := Nat.div_ne_zero_iff.mp h
  refine ⟨hle, (Nat.mod_eq_sub_mod hle).symm, ?_⟩
  exact (Nat.div_eq_sub_div (Nat.pos_of_ne_zero hpos) hle).symm

variable {x₀ y₀ columns : ℕ}

/-- The leaves of a grid are allowed, where the grid begins in the plane with every block. -/
theorem ordered_grid (hunit : 0 < P.unit) (hcolumns : 0 < columns) (i : ℕ)
    (hx : ∀ j < i, x₀ + j % columns * P.side n < P.width) (hy : ∀ j < i, y₀ + j / columns * P.side n < P.height) :
    Ordered (Allowed P x₀ y₀) [] (before P n x₀ y₀ columns i) := by
  induction i with
  | zero => trivial
  | succ i ih =>
    have hpos := P.side_pos (n := n) hunit
    have hwidth := hx i (Nat.lt_succ_self i)
    have hheight := hy i (Nat.lt_succ_self i)
    have hleaves := ih (fun j hj => hx j (Nat.lt_succ_of_lt hj)) fun j hj => hy j (Nat.lt_succ_of_lt hj)
    rw [before_succ, ordered_append, List.nil_append]
    refine ⟨hleaves, ordered_leaves hunit hwidth hheight ⟨fun hlt py hle hpy hh => ?_, fun hlt px hle hpx hw => ?_⟩⟩
    · have hcolumn : i % columns ≠ 0 := fun hzero => by
        rw [hzero, Nat.zero_mul] at hlt
        exact lt_irrefl _ hlt
      obtain ⟨hmod, hdiv⟩ := pred_column hcolumn
      have hpred : i - 1 < i := Nat.sub_one_lt fun hzero => hcolumn (by rw [hzero, Nat.zero_mod])
      have hx' : x₀ + i % columns * P.side n = x₀ + (i - 1) % columns * P.side n + P.side n := by
        rw [← hmod, Nat.succ_mul, Nat.add_assoc]
      rw [hx'] at hwidth ⊢
      rw [← hdiv] at hle hpy
      exact reaches_right hpos (gridLeaves_subset hpred) hwidth hle hpy hh
    · have hrow : i / columns ≠ 0 := fun hzero => by
        rw [hzero, Nat.zero_mul] at hlt
        exact lt_irrefl _ hlt
      obtain ⟨hle', hmod, hdiv⟩ := pred_row hrow
      have hy' : y₀ + i / columns * P.side n = y₀ + (i - columns) / columns * P.side n + P.side n := by
        rw [← hdiv, Nat.succ_mul, Nat.add_assoc]
      rw [hy'] at hheight ⊢
      rw [← hmod] at hle hpx
      exact reaches_below hpos (gridLeaves_subset (Nat.sub_lt_of_pos_le hcolumns hle')) hheight hle hpx hw

theorem covers_grid (hpos : 0 < P.side n) (hcolumn : (px - x₀) / P.side n < columns)
    (hx : x₀ ≤ px) (hy : y₀ ≤ py) (i : ℕ) :
    (⟨x₀ + i % columns * P.side n, y₀ + i / columns * P.side n, n⟩ : Block).Covers P px py ↔
      (px - x₀) / P.side n + columns * ((py - y₀) / P.side n) = i := by
  have hcovers : (⟨x₀ + i % columns * P.side n, y₀ + i / columns * P.side n, n⟩ : Block).Covers P px py ↔
      (py - y₀) / P.side n = i / columns ∧ (px - x₀) / P.side n = i % columns := by
    rw [Nat.div_eq_iff hpos, Nat.div_eq_iff hpos]
    simp only [Block.Covers]
    omega
  rw [hcovers]
  constructor
  · rintro ⟨hrow, hcol⟩
    rw [hrow, hcol]
    exact Nat.mod_add_div i columns
  · rintro rfl
    have hcolumns : 0 < columns := Nat.zero_lt_of_lt hcolumn
    rw [Nat.add_mul_div_left _ _ hcolumns, Nat.add_mul_mod_self_left, Nat.mod_eq_of_lt hcolumn, Nat.div_eq_of_lt hcolumn,
      Nat.zero_add]
    exact ⟨rfl, rfl⟩

theorem countP_before (hpos : 0 < P.side n) (hcolumn : (px - x₀) / P.side n < columns)
    (hx : x₀ ≤ px) (hy : y₀ ≤ py) (hpx : px < P.width) (hpy : py < P.height) (i : ℕ) :
    (before P n x₀ y₀ columns i).countP (fun b => decide (b.Covers P px py)) =
      if (px - x₀) / P.side n + columns * ((py - y₀) / P.side n) < i then 1 else 0 := by
  induction i with
  | zero => rfl
  | succ i ih =>
    have hleaves := countP_leaves hpx hpy n (x₀ + i % columns * P.side n) (y₀ + i / columns * P.side n)
    rw [if_congr (covers_grid hpos hcolumn hx hy i) rfl rfl] at hleaves
    rw [before_succ, List.countP_append, ih]
    unfold gridLeaves
    rw [hleaves]
    split_ifs <;> omega

/-- A point of the plane that is in the grid is in exactly one leaf of the grid. -/
theorem countP_grid {x₀ y₀ columns rows : ℕ} (hpos : 0 < P.side n) (hpx : px < P.width) (hpy : py < P.height)
    (hx : x₀ ≤ px) (hcolumn : px < x₀ + columns * P.side n) (hy : y₀ ≤ py) (hrow : py < y₀ + rows * P.side n) :
    (before P n x₀ y₀ columns (columns * rows)).countP (fun b => decide (b.Covers P px py)) = 1 := by
  have hcol : (px - x₀) / P.side n < columns := (Nat.div_lt_iff_lt_mul hpos).mpr (by omega)
  have hrow' : (py - y₀) / P.side n < rows := (Nat.div_lt_iff_lt_mul hpos).mpr (by omega)
  rw [countP_before hpos hcol hx hy hpx hpy, if_pos]
  calc (px - x₀) / P.side n + columns * ((py - y₀) / P.side n)
      < columns + columns * ((py - y₀) / P.side n) := Nat.add_lt_add_right hcol _
    _ = columns * ((py - y₀) / P.side n + 1) := by ring
    _ ≤ columns * rows := Nat.mul_le_mul_left _ hrow'

end QuadTrees
