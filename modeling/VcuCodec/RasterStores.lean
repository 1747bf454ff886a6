import Mathlib.Data.List.Basic
import Mathlib.Data.List.Range
import Mathlib.Logic.Function.Basic
import Mathlib.Tactic.Common

/-!
# Stores into a raster

An array whose rows are `pitch` elements apart, and a list of stores into it.  Where the stores
paint a picture, the array shows it afterwards.  `walk` is a loop whose rounds move a pointer on.
-/

namespace RasterStores

variable {α β σ ω : Type*}

/-! ## Stores -/

/-- The array after the stores, one after the other. -/
def storeAll (a : ℕ → α) (ws : List (ℕ × α)) : ℕ → α :=
  ws.foldl (fun a w => Function.update a w.1 w.2) a

variable {a : ℕ → α} {ws : List (ℕ × α)} {i : ℕ} {x : α}

theorem storeAll_cons (a : ℕ → α) (w : ℕ × α) (ws : List (ℕ × α)) :
    storeAll a (w :: ws) = storeAll (Function.update a w.1 w.2) ws := rfl

theorem storeAll_of_ne (h : ∀ w ∈ ws, w.1 ≠ i) : storeAll a ws i = a i := by
  induction ws generalizing a with
  | nil => rfl
  | cons w ws ih =>
    rw [storeAll_cons, ih fun v hv => h v (List.mem_cons_of_mem w hv)]
    exact Function.update_of_ne (h w List.mem_cons_self).symm _ _

/-- A place that all stores give the same element has it, if there is a store. -/
theorem storeAll_eq (hmem : (i, x) ∈ ws) (h : ∀ w ∈ ws, w.1 = i → w.2 = x) :
    storeAll a ws i = x := by
  induction ws generalizing a with
  | nil => cases hmem
  | cons w ws ih =>
    have hrest : ∀ v ∈ ws, v.1 = i → v.2 = x := fun v hv => h v (List.mem_cons_of_mem w hv)
    rw [storeAll_cons]
    by_cases hlater : (i, x) ∈ ws
    · exact ih hlater hrest
    · obtain rfl : (i, x) = w := (List.mem_cons.mp hmem).resolve_right hlater
      have hne : ∀ v ∈ ws, v.1 ≠ i := by
        intro v hv hi
        apply hlater
        have hval := hrest v hv hi
        rw [← hi, ← hval]
        exact hv
      rw [storeAll_of_ne hne, Function.update_self]

/-! ## Rasters -/

/-- The element in a row and a column. -/
def cell (a : ℕ → α) (pitch r c : ℕ) : α := a (r * pitch + c)

/-- The cells of `rows` rows and `cols` columns are those of a picture. -/
def Shows (f : ℕ → ℕ → α) (rows cols : ℕ) (picture : ℕ → ℕ → α) : Prop :=
  ∀ r < rows, ∀ c < cols, f r c = picture r c

/-- The stores give each place in a row the element of the picture, and reach all its cells. -/
structure Paints (ws : List (ℕ × α)) (pitch rows cols : ℕ) (picture : ℕ → ℕ → α) : Prop where
  inRow : ∀ w ∈ ws, ∃ r c, c < pitch ∧ w = (r * pitch + c, picture r c)
  reach : ∀ r < rows, ∀ c < cols, (r * pitch + c, picture r c) ∈ ws

theorem place_inj {pitch r r' c c' : ℕ} (hc : c < pitch) (hc' : c' < pitch)
    (h : r * pitch + c = r' * pitch + c') : r = r' ∧ c = c' := by
  have hrow (r c : ℕ) (hc : c < pitch) : (r * pitch + c) / pitch = r := by
    rw [Nat.mul_comm, Nat.mul_add_div (by omega), Nat.div_eq_of_lt hc, Nat.add_zero]
  have hr : r = r' := by rw [← hrow r c hc, h, hrow r' c' hc']
  subst hr
  exact ⟨rfl, Nat.add_left_cancel h⟩

theorem Paints.shows {pitch rows cols : ℕ} {picture : ℕ → ℕ → α}
    (h : Paints ws pitch rows cols picture) (hcols : cols ≤ pitch) (a : ℕ → α) :
    Shows (cell (storeAll a ws) pitch) rows cols picture := by
  intro r hr c hc
  refine storeAll_eq (h.reach r hr c hc) fun w hw hplace => ?_
  obtain ⟨r', c', hc', rfl⟩ := h.inRow w hw
  obtain ⟨rfl, rfl⟩ := place_inj hc' (lt_of_lt_of_le hc hcols) hplace
  rfl

theorem exists_place {cols rows : ℕ} {q : ℕ → Prop} :
    (∃ i < cols * rows, q i) ↔ ∃ r < rows, ∃ c < cols, q (r * cols + c) := by
  constructor
  · rintro ⟨i, hi, hq⟩
    have hcols : 0 < cols := Nat.pos_of_mul_pos_right (Nat.zero_lt_of_lt hi)
    refine ⟨i / cols, Nat.div_lt_of_lt_mul hi, i % cols, Nat.mod_lt _ hcols, ?_⟩
    rw [Nat.div_add_mod']
    exact hq
  · rintro ⟨r, hr, c, hc, hq⟩
    refine ⟨r * cols + c, ?_, hq⟩
    have hrows : (r + 1) * cols ≤ rows * cols := Nat.mul_le_mul_right cols hr
    rw [Nat.mul_comm cols rows]
    rw [Nat.succ_mul] at hrows
    omega

theorem Shows.iff_eq {f : ℕ → ℕ → α} {rows cols : ℕ} {picture picture' : ℕ → ℕ → α}
    (h : Shows f rows cols picture) :
    Shows f rows cols picture' ↔ ∀ r < rows, ∀ c < cols, picture r c = picture' r c := by
  constructor
  · exact fun h' r hr c hc => (h r hr c hc).symm.trans (h' r hr c hc)
  · exact fun heq r hr c hc => (h r hr c hc).trans (heq r hr c hc)

/-- A picture above another one. -/
def stacked (rows : ℕ) (top bottom : ℕ → ℕ → α) (r c : ℕ) : α :=
  if r < rows then top r c else bottom (r - rows) c

theorem stacked_top {rows r : ℕ} {top bottom : ℕ → ℕ → α} (h : r < rows) :
    stacked rows top bottom r = top r := by
  funext c
  exact if_pos h

theorem stacked_bottom {rows r : ℕ} {top bottom : ℕ → ℕ → α} :
    stacked rows top bottom (rows + r) = bottom r := by
  funext c
  unfold stacked
  rw [if_neg (by omega), Nat.add_sub_cancel_left]

variable {top top' bottom bottom' : ℕ → ℕ → α}

theorem stacked_congr {rows r c : ℕ} (hr : r < 2 * rows)
    (htop : ∀ q < rows, top q c = top' q c) (hbottom : ∀ q < rows, bottom q c = bottom' q c) :
    stacked rows top bottom r c = stacked rows top' bottom' r c := by
  unfold stacked
  split
  next h => exact htop r h
  · exact hbottom (r - rows) (by omega)

theorem stacked_eq_iff {rows cols : ℕ} :
    (∀ r < 2 * rows, ∀ c < cols, stacked rows top bottom r c = stacked rows top' bottom' r c) ↔
      ∀ r < rows, ∀ c < cols, top r c = top' r c ∧ bottom r c = bottom' r c := by
  constructor
  · intro h r hr c hc
    have htop := h r (by omega) c hc
    have hbottom := h (rows + r) (by omega) c hc
    rw [stacked_top hr, stacked_top hr] at htop
    rw [stacked_bottom, stacked_bottom] at hbottom
    exact ⟨htop, hbottom⟩
  · intro h r hr c hc
    exact stacked_congr hr (fun q hq => (h q hq c hc).1) fun q hq => (h q hq c hc).2

theorem stacked_map (g : α → β) (rows r c : ℕ) (top bottom : ℕ → ℕ → α) :
    g (stacked rows top bottom r c) =
      stacked rows (fun r c => g (top r c)) (fun r c => g (bottom r c)) r c := by
  unfold stacked
  split <;> rfl

/-- Two rows whose elements take turns. -/
def alternate (even odd : ℕ → α) (c : ℕ) : α := if c % 2 = 0 then even (c / 2) else odd (c / 2)

theorem alternate_even (even odd : ℕ → α) (k : ℕ) : alternate even odd (2 * k) = even k := by
  unfold alternate
  rw [if_pos (Nat.mul_mod_right 2 k), Nat.mul_div_cancel_left k (by decide)]

theorem alternate_odd (even odd : ℕ → α) (k : ℕ) : alternate even odd (2 * k + 1) = odd k := by
  unfold alternate
  rw [if_neg (by omega), Nat.mul_add_div (by decide)]
  rfl

theorem alternate_map (g : α → β) (even odd : ℕ → α) (c : ℕ) :
    g (alternate even odd c) = alternate (fun c => g (even c)) (fun c => g (odd c)) c := by
  unfold alternate
  split <;> rfl

variable {even even' odd odd' : ℕ → α}

theorem alternate_congr {n c : ℕ} (hc : c < 2 * n)
    (heven : ∀ k < n, even k = even' k) (hodd : ∀ k < n, odd k = odd' k) :
    alternate even odd c = alternate even' odd' c := by
  unfold alternate
  split
  · exact heven _ (by omega)
  · exact hodd _ (by omega)

variable {n : ℕ}

theorem alternate_eq_iff : (∀ c < 2 * n, alternate even odd c = alternate even' odd' c) ↔
      ∀ k < n, even k = even' k ∧ odd k = odd' k := by
  constructor
  · intro h k hk
    have heven := h (2 * k) (by omega)
    have hodd := h (2 * k + 1) (by omega)
    rw [alternate_even, alternate_even] at heven
    rw [alternate_odd, alternate_odd] at hodd
    exact ⟨heven, hodd⟩
  · intro h c hc
    exact alternate_congr hc (fun k hk => (h k hk).1) fun k hk => (h k hk).2

/-! ## Loops with a pointer -/

/-- The rounds of a loop, each of which gets the pointer, moves it on and has a result. -/
def walk (body : σ → β → σ × List ω) : σ → List β → σ × List ω
  | p, [] => (p, [])
  | p, b :: bs =>
    let round := body p b
    let rest := walk body round.1 bs
    (rest.1, round.2 ++ rest.2)

variable {body : σ → ℕ → σ × List ω} {p : ℕ → σ}

theorem walk_range'_fst {i : ℕ} (h : ∀ j, i ≤ j → j < i + n → (body (p j) j).1 = p (j + 1)) :
    (walk body (p i) (List.range' i n)).1 = p (i + n) := by
  induction n generalizing i with
  | zero => rfl
  | succ n ih =>
    have hrest := @ih (i + 1) fun j hj hlt => h j (by omega) (by omega)
    rw [List.range'_succ]
    simp only [walk]
    rw [h i le_rfl (by omega), hrest, Nat.add_right_comm, Nat.add_assoc]

theorem walk_range'_snd {i : ℕ} (h : ∀ j, i ≤ j → j + 1 < i + n → (body (p j) j).1 = p (j + 1)) :
    (walk body (p i) (List.range' i n)).2 =
      (List.range' i n).flatMap fun j => (body (p j) j).2 := by
  induction n generalizing i with
  | zero => rfl
  | succ n ih =>
    rw [List.range'_succ, List.flatMap_cons]
    simp only [walk]
    cases n with
    | zero => rfl
    | succ n =>
      have hrest := @ih (i + 1) fun j hj hlt => h j (by omega) (by omega)
      rw [h i le_rfl (by omega), hrest]

theorem mem_walk {y : ω} (h : ∀ j, j + 1 < n → (body (p j) j).1 = p (j + 1)) :
    y ∈ (walk body (p 0) (List.range n)).2 ↔ ∃ j < n, y ∈ (body (p j) j).2 := by
  rw [List.range_eq_range', walk_range'_snd fun j _ hlt => h j (by omega), List.mem_flatMap]
  simp only [List.mem_range'_1, Nat.zero_le, true_and, Nat.zero_add]

theorem walk_fst (h : ∀ j < n, (body (p j) j).1 = p (j + 1)) :
    (walk body (p 0) (List.range n)).1 = p n := by
  rw [List.range_eq_range', walk_range'_fst fun j _ hlt => h j (by omega), Nat.zero_add]

/-! ## Rows in groups -/

variable {f : ℕ → List β} {k : ℕ}

theorem flatMap_rounds {m : ℕ} (g : ℕ → β)
    (hround : ∀ i < m, f i = (List.range k).map fun j => g (k * i + j)) :
    (List.range m).flatMap f = (List.range (k * m)).map g := by
  induction m with
  | zero => rfl
  | succ m ih =>
    rw [List.range_succ, List.flatMap_append, ih fun i hi => hround i (by omega), Nat.mul_succ,
      List.range_add, List.map_append, List.flatMap_singleton, List.map_map, hround m (by omega)]
    rfl

theorem flatMap_groups {rest : List β} {m n : ℕ} (g : ℕ → β)
    (hround : ∀ i < m, f i = (List.range k).map fun j => g (k * i + j))
    (hrest : rest = (List.range n).map fun j => g (k * m + j)) :
    (List.range m).flatMap f ++ rest = (List.range (k * m + n)).map g := by
  rw [flatMap_rounds g hround, hrest, List.range_add, List.map_append, List.map_map]
  rfl

end RasterStores
