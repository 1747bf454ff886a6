import Mathlib.Data.Int.Basic
import Mathlib.Data.Set.Piecewise
import Mathlib.Order.CompletePartialOrder
import Mathlib.Tactic.Linarith
import VcuCodec.CheckedRuns

/-!
# Tables of cells in an array

A picture of `width` times `height` cells lies row by row in an array.  Each cell has
`bytes` places, of which the first `used` hold something; the rest of the array has
other contents.  `Shows` says what the cells hold, and the rules say what a load, a
store and a loop over the places of one cell do.
-/

namespace CellTables

open CheckedRuns Checked

variable {α : Type} {n : ℕ}

def load (place : ℤ) : Checked (Vector α n) α := fun array => readAt array place array

def store (place : ℤ) (v : α) : Checked (Vector α n) Unit := fun array =>
  match (writeAt array place v : Checked (Vector α n) _) array with
  | .ok (array', _) => .ok ((), array')
  | .error e => .error e

variable {array : Vector α n}

theorem ends_load {place : ℤ} {Q : α → Vector α n → Prop}
    (h : 0 ≤ place ∧ place < n) (hq : Q (array.get ⟨place.toNat, (Int.toNat_lt h.1).mpr h.2⟩) array) :
    Ends (load place) array Q :=
  (ends_readAt (s := array)).mpr ⟨h, hq⟩

theorem ends_store {place : ℤ} {v : α} {Q : Unit → Vector α n → Prop}
    (h : 0 ≤ place ∧ place < n) (hq : Q () (array.set place.toNat v ((Int.toNat_lt h.1).mpr h.2))) :
    Ends (store place v) array Q := by
  refine ⟨(), _, ?_, hq⟩
  unfold store writeAt
  rw [dif_pos h]
  rfl

/-- The shape of a table in an array of `n` elements. -/
structure Layout (n : ℕ) where
  width : ℤ
  height : ℤ
  bytes : ℕ
  used : ℕ
  used_le : used ≤ bytes
  fits : width * height * bytes ≤ n

namespace Layout

variable (L : Layout n) {p q : ℤ × ℤ} {i j : ℕ}

/-- A cell of the table. -/
def Inside (p : ℤ × ℤ) : Prop := 0 ≤ p.1 ∧ p.1 < L.width ∧ 0 ≤ p.2 ∧ p.2 < L.height
deriving Decidable

/-- The first place of a cell. -/
def cell (p : ℤ × ℤ) : ℤ := (p.2 * L.width + p.1) * L.bytes

theorem number_lt (hp : L.Inside p) : p.2 * L.width + p.1 < L.width * L.height := by
  obtain ⟨hx0, hx, -, hy⟩ := hp
  have hrow : (p.2 + 1) * L.width ≤ L.height * L.width :=
    mul_le_mul_of_nonneg_right hy (by omega)
  linarith

theorem number_nonneg (hp : L.Inside p) : 0 ≤ p.2 * L.width + p.1 := by
  obtain ⟨hx0, hx, hy0, -⟩ := hp
  have hrow : 0 ≤ p.2 * L.width := mul_nonneg hy0 (by omega)
  omega

theorem cell_bounds (hp : L.Inside p) (hi : i < L.used) : 0 ≤ L.cell p + i ∧ L.cell p + i < n := by
  have hlt := L.number_lt hp
  have h0 := L.number_nonneg hp
  have hused := L.used_le
  have hfits := L.fits
  have hrow : (p.2 * L.width + p.1 + 1) * L.bytes ≤ L.width * L.height * L.bytes :=
    mul_le_mul_of_nonneg_right hlt (by omega)
  have hpos : 0 ≤ (p.2 * L.width + p.1) * (L.bytes : ℤ) := mul_nonneg h0 (by omega)
  have hcell : L.cell p = (p.2 * L.width + p.1) * L.bytes := rfl
  constructor
  · omega
  · linarith

theorem digits_inj {b x y r s : ℤ} (hr : 0 ≤ r ∧ r < b) (hs : 0 ≤ s ∧ s < b)
    (h : x * b + r = y * b + s) : x = y ∧ r = s := by
  have hx : (x * b + r) / b = x := by
    rw [add_comm, Int.add_mul_ediv_right _ _ (by omega), Int.ediv_eq_zero_of_lt hr.1 hr.2, zero_add]
  have hy : (y * b + s) / b = y := by
    rw [add_comm, Int.add_mul_ediv_right _ _ (by omega), Int.ediv_eq_zero_of_lt hs.1 hs.2, zero_add]
  have hxy : x = y := by rw [← hx, ← hy, h]
  rw [hxy] at h
  exact ⟨hxy, by omega⟩

theorem cell_inj (hp : L.Inside p) (hq : L.Inside q) (hi : i < L.used) (hj : j < L.used)
    (h : L.cell p + i = L.cell q + j) : p = q ∧ i = j := by
  have hused := L.used_le
  obtain ⟨hnumber, hij⟩ := digits_inj (b := L.bytes) ⟨by omega, by omega⟩ ⟨by omega, by omega⟩ h
  obtain ⟨hy, hx⟩ := digits_inj ⟨hp.1, hp.2.1⟩ ⟨hq.1, hq.2.1⟩ hnumber
  exact ⟨Prod.ext hx hy, by omega⟩

/-- The cells hold `V`, and the rest of the array is as in `array₀`. -/
structure Shows (array₀ array : Vector α n) (V : ℤ × ℤ → ℕ → α) : Prop where
  cells : ∀ p, L.Inside p → ∀ i < L.used, array[(L.cell p + i).toNat]? = some (V p i)
  rest : ∀ k : ℕ, (∀ p, L.Inside p → ∀ i < L.used, (k : ℤ) ≠ L.cell p + i) → array[k]? = array₀[k]?

namespace Shows

variable {L} {array₀ array : Vector α n} {V V' : ℤ × ℤ → ℕ → α}

theorem congr (h : L.Shows array₀ array V) (hV : ∀ p, L.Inside p → ∀ i < L.used, V' p i = V p i) :
    L.Shows array₀ array V' where
  cells p hp i hi := by rw [hV p hp i hi, h.cells p hp i hi]
  rest := h.rest

theorem load (h : L.Shows array₀ array V) (hp : L.Inside p) (hi : i < L.used)
    {Q : α → Vector α n → Prop} (hq : Q (V p i) array) : Ends (load (L.cell p + i)) array Q := by
  have hb := L.cell_bounds hp hi
  apply ends_load hb
  have hget := h.cells p hp i hi
  rw [Vector.getElem?_eq_getElem (by omega), Option.some_inj] at hget
  rwa [← hget] at hq

theorem store (h : L.Shows array₀ array V) (hp : L.Inside p) (hi : i < L.used) (v : α)
    (hV : ∀ q, L.Inside q → ∀ j < L.used, V' q j = if q = p ∧ j = i then v else V q j) :
    Ends (store (L.cell p + i) v) array fun _ array' => L.Shows array₀ array' V' := by
  have hb := L.cell_bounds hp hi
  apply ends_store hb
  constructor
  · intro q hq j hj
    have hbq := L.cell_bounds hq hj
    rw [hV q hq j hj, Vector.getElem?_set]
    by_cases hqp : q = p ∧ j = i
    · rw [if_pos hqp, hqp.1, hqp.2, if_pos rfl]
    · have hne : (L.cell p + i).toNat ≠ (L.cell q + j).toNat := by
        intro e
        have hpq := L.cell_inj hp hq hi hj (by omega)
        exact hqp ⟨hpq.1.symm, hpq.2.symm⟩
      rw [if_neg hqp, if_neg hne]
      exact h.cells q hq j hj
  · intro k hk
    have hne : (L.cell p + i).toNat ≠ k := by
      intro e
      exact hk p hp i hi (by omega)
    rw [Vector.getElem?_set, if_neg hne]
    exact h.rest k hk

end Shows

/-! ## Cells that hold one value -/

/-- All places of a cell hold the same. -/
def ShowsCells (array₀ array : Vector α n) (T : ℤ × ℤ → α) : Prop :=
  L.Shows array₀ array fun p _ => T p

/-- The first `j` places of the cell `p` already hold `v`. -/
def part (T : ℤ × ℤ → α) (p : ℤ × ℤ) (v : α) (j : ℕ) (q : ℤ × ℤ) (i : ℕ) : α :=
  if q = p ∧ i < j then v else T q

namespace ShowsCells

variable {L} {array₀ array : Vector α n} {T T' : ℤ × ℤ → α} {v : α}

theorem congr (h : L.ShowsCells array₀ array T) (hT : ∀ p, L.Inside p → T' p = T p) :
    L.ShowsCells array₀ array T' :=
  Shows.congr h fun p hp _ _ => hT p hp

theorem part_zero (h : L.ShowsCells array₀ array T) (p : ℤ × ℤ) (v : α) :
    L.Shows array₀ array (part T p v 0) := by
  apply Shows.congr h
  intro q _ i _
  exact if_neg fun hi => absurd hi.2 (Nat.not_lt_zero i)

end ShowsCells

section Part

variable {L} {array₀ array : Vector α n} {T : ℤ × ℤ → α} {v : α}

theorem Shows.store_part (h : L.Shows array₀ array (part T p v j)) (hp : L.Inside p) (hj : j < L.used) :
    Ends (CellTables.store (L.cell p + j) v) array fun _ array' =>
      L.Shows array₀ array' (part T p v (j + 1)) := by
  apply h.store hp hj
  intro q _ m _
  unfold part
  by_cases hm : q = p ∧ m = j
  · rw [if_pos hm, if_pos ⟨hm.1, by omega⟩]
  · rw [if_neg hm]
    have hiff : q = p ∧ m < j + 1 ↔ q = p ∧ m < j := by
      constructor
      · intro h
        have hne : m ≠ j := fun e => hm ⟨h.1, e⟩
        exact ⟨h.1, by omega⟩
      · exact fun h => ⟨h.1, by omega⟩
    simp only [hiff]

theorem Shows.fill_cell {body : ℕ → Unit → Checked (Vector α n) Unit} {k rounds : ℕ}
    (h : L.Shows array₀ array (part T p v k)) (hk : k + rounds = L.used)
    (hbody : ∀ i < rounds, ∀ array, L.Shows array₀ array (part T p v (k + i)) →
      Ends (body i ()) array fun _ array' => L.Shows array₀ array' (part T p v (k + i + 1))) :
    Ends (forBelow rounds () body) array fun _ array' =>
      L.ShowsCells array₀ array' (Function.update T p v) := by
  have hloop : Ends (forBelow rounds () body) array fun _ array' =>
      L.Shows array₀ array' (part T p v (k + rounds)) := by
    apply forBelow_ends (fun i _ array => L.Shows array₀ array (part T p v (k + i)))
    · intro i _ array hi hI
      exact hbody i hi array hI
    · exact h
  apply hloop.imp
  intro _ array' h'
  apply h'.congr
  intro q _ i hi
  unfold part
  by_cases hq : q = p
  · rw [hq, Function.update_self, if_pos ⟨rfl, by omega⟩]
  · rw [Function.update_of_ne hq, if_neg fun e => hq e.1]

end Part

/-! ## Tables that are cleared -/

section Clearing

variable {L} {array : Vector α n}

theorem exists_shows [Inhabited α] (L : Layout n) (array : Vector α n) : ∃ V, L.Shows array array V := by
  refine ⟨fun p i => (array[(L.cell p + i).toNat]?).getD default, fun p hp i hi => ?_, fun _ _ => rfl⟩
  have hb := L.cell_bounds hp hi
  have hlt : (L.cell p + i).toNat < n := by omega
  rw [Vector.getElem?_eq_getElem hlt, Option.getD_some]

/-- The cells are numbered row by row. -/
def ofNumber (L : Layout n) (k : ℕ) : ℤ × ℤ := (k % L.width, k / L.width)

theorem inside_ofNumber (hwidth : 0 ≤ L.width) {k : ℕ} (hk : k < (L.width * L.height).toNat) :
    L.Inside (L.ofNumber k) := by
  have hpos : 0 < L.width := by
    rcases lt_or_eq_of_le hwidth with hlt | hzero
    · exact hlt
    · rw [← hzero, zero_mul] at hk
      exact absurd hk (Nat.not_lt_zero k)
  refine ⟨Int.emod_nonneg _ (by omega), Int.emod_lt_of_pos _ hpos, Int.ediv_nonneg (by omega) hwidth,
    Int.ediv_lt_of_lt_mul hpos ?_⟩
  rw [mul_comm]
  omega

theorem number_eq_iff {k : ℕ} (hk : L.Inside (L.ofNumber k)) (hq : L.Inside q) :
    q.2 * L.width + q.1 = k ↔ q = L.ofNumber k := by
  constructor
  · intro e
    have hsplit : q.2 * L.width + q.1 = k / L.width * L.width + k % L.width :=
      e.trans (Int.ediv_mul_add_emod _ _).symm
    obtain ⟨hy, hx⟩ := digits_inj ⟨hq.1, hq.2.1⟩ ⟨hk.1, hk.2.1⟩ hsplit
    exact Prod.ext hx hy
  · intro e
    rw [e]
    exact Int.ediv_mul_add_emod _ _

/-- The loops that write `v` to all places of all cells. -/
theorem ends_clear [Inhabited α] (hwidth : 0 ≤ L.width) (v : α) :
    Ends (forBelow (L.width * L.height).toNat () fun k _ =>
      forBelow L.used () fun i _ => CellTables.store (k * L.bytes + i) v) array
      fun _ array' => L.ShowsCells array array' fun _ => v := by
  obtain ⟨V, hV⟩ := exists_shows L array
  have hloop : Ends (forBelow (L.width * L.height).toNat () fun k _ =>
      forBelow L.used () fun i _ => CellTables.store (k * L.bytes + i) v) array fun _ array' =>
        L.Shows array array' fun p i =>
          if p.2 * L.width + p.1 < ((L.width * L.height).toNat : ℕ) then v else V p i := by
    apply forBelow_ends fun k _ array' => L.Shows array array' fun p i =>
      if p.2 * L.width + p.1 < (k : ℕ) then v else V p i
    · intro k _ array' hk hshows
      have hp := inside_ofNumber hwidth hk
      have hcell : L.cell (L.ofNumber k) = k * L.bytes := by
        unfold cell ofNumber
        rw [Int.ediv_mul_add_emod]
      have hinner : Ends (forBelow L.used () fun i _ => CellTables.store (k * L.bytes + i) v) array'
          fun _ array'' => L.Shows array array'' fun q m =>
            if q.2 * L.width + q.1 < k ∨ q.2 * L.width + q.1 = k ∧ m < L.used then v else V q m := by
        apply forBelow_ends fun i _ array'' => L.Shows array array'' fun q m =>
          if q.2 * L.width + q.1 < k ∨ q.2 * L.width + q.1 = k ∧ m < i then v else V q m
        · intro i _ array'' hi hpart
          rw [← hcell]
          apply hpart.store hp hi
          intro q hq m _
          by_cases hqm : q = L.ofNumber k ∧ m = i
          · rw [if_pos hqm, if_pos (.inr ⟨(number_eq_iff hp hq).mpr hqm.1, by omega⟩)]
          · rw [if_neg hqm]
            have hiff : q.2 * L.width + q.1 = k ∧ m < i + 1 ↔ q.2 * L.width + q.1 = k ∧ m < i := by
              constructor
              · intro hlt
                have hne : m ≠ i := fun e => hqm ⟨(number_eq_iff hp hq).mp hlt.1, e⟩
                exact ⟨hlt.1, by omega⟩
              · exact fun hlt => ⟨hlt.1, by omega⟩
            simp only [hiff]
        · apply hshows.congr
          intro q _ m _
          have hiff : (q.2 * L.width + q.1 < k ∨ q.2 * L.width + q.1 = k ∧ m < 0) ↔
              q.2 * L.width + q.1 < k := by omega
          simp only [hiff]
      apply hinner.imp
      intro _ array'' hshows'
      apply hshows'.congr
      intro q _ m hm
      have hiff : (q.2 * L.width + q.1 < k ∨ q.2 * L.width + q.1 = k ∧ m < L.used) ↔
          q.2 * L.width + q.1 < (k + 1 : ℕ) := by omega
      simp only [hiff]
    · apply hV.congr
      intro q hq m _
      have h0 := L.number_nonneg hq
      exact if_neg (by omega)
  apply hloop.imp
  intro _ array' hshows
  apply hshows.congr
  intro q hq m _
  have hlt := L.number_lt hq
  exact (if_pos (by omega)).symm

end Clearing

/-! ## Painting -/

section Painting

open scoped Classical in
/-- The cells of `S` are painted. -/
noncomputable def progress (before after : ℤ × ℤ → α) (S : Set (ℤ × ℤ)) : ℤ × ℤ → α :=
  S.piecewise after before

variable {before after : ℤ × ℤ → α} {S : Set (ℤ × ℤ)}

theorem progress_of_mem (hp : p ∈ S) : progress before after S p = after p := by
  unfold progress Set.piecewise
  exact if_pos hp

theorem progress_of_notMem (hp : p ∉ S) : progress before after S p = before p := by
  unfold progress Set.piecewise
  exact if_neg hp

/-- A run that paints the cells of `A`, which are not painted yet. -/
def Paints (array₀ : Vector α n) (before after : ℤ × ℤ → α) (m : Checked (Vector α n) Unit)
    (A : Set (ℤ × ℤ)) : Prop :=
  ∀ S array, Disjoint A S → L.ShowsCells array₀ array (progress before after S) →
    Ends m array fun _ array' => L.ShowsCells array₀ array' (progress before after (S ∪ A))

namespace Paints

variable {L} {array₀ array : Vector α n} {before after : ℤ × ℤ → α}
  {m m' : Checked (Vector α n) Unit} {A B : Set (ℤ × ℤ)}

theorem congr (h : L.Paints array₀ before after m A) (hAB : A = B) :
    L.Paints array₀ before after m B :=
  hAB ▸ h

theorem pure : L.Paints array₀ before after (pure ()) ∅ := by
  intro S array _ h
  rw [ends_pure, Set.union_empty]
  exact h

theorem bind (h : L.Paints array₀ before after m A) (h' : L.Paints array₀ before after m' B)
    (hAB : Disjoint B A) : L.Paints array₀ before after (m >>= fun _ => m') (A ∪ B) := by
  intro S array hS hshows
  rw [Set.disjoint_union_left] at hS
  rw [ends_bind]
  apply (h S array hS.1 hshows).imp
  intro _ array' h'shows
  rw [← Set.union_assoc]
  exact h' _ array' (Set.disjoint_union_right.mpr ⟨hS.2, hAB⟩) h'shows

theorem ite {c : Prop} [Decidable c] (h : c → L.Paints array₀ before after m A)
    (h' : ¬c → L.Paints array₀ before after m' A) :
    L.Paints array₀ before after (if c then m else m') A := by
  by_cases hc : c
  · rw [if_pos hc]
    exact h hc
  · rw [if_neg hc]
    exact h' hc

theorem guard {c : Prop} [Decidable c] (h : c → L.Paints array₀ before after m A) :
    L.Paints array₀ before after (if c then m else Pure.pure ()) {p | c ∧ p ∈ A} := by
  apply ite
  · intro hc
    apply (h hc).congr
    ext p
    exact ⟨fun hp => ⟨hc, hp⟩, fun hp => hp.2⟩
  · intro hc
    apply pure.congr
    ext p
    exact ⟨fun hp => hp.elim, fun hp => hc hp.1⟩

variable {body : ℕ → Unit → Checked (Vector α n) Unit}

theorem forBelow {rounds : ℕ} {A : ℕ → Set (ℤ × ℤ)}
    (hbody : ∀ i < rounds, L.Paints array₀ before after (body i ()) (A i))
    (hdisj : ∀ i < rounds, ∀ j < i, Disjoint (A i) (A j)) :
    L.Paints array₀ before after (forBelow rounds () body) {p | ∃ i < rounds, p ∈ A i} := by
  intro S array hS hshows
  apply forBelow_ends fun i _ array =>
    L.ShowsCells array₀ array (progress before after (S ∪ {p | ∃ j < i, p ∈ A j}))
  · intro i _ array hi hI
    have hnew : Disjoint (A i) (S ∪ {p | ∃ j < i, p ∈ A j}) := by
      rw [Set.disjoint_union_right]
      constructor
      · apply hS.mono_left
        intro p hp
        exact ⟨i, hi, hp⟩
      · rw [Set.disjoint_left]
        intro p hp hpj
        obtain ⟨j, hj, hpA⟩ := hpj
        exact Set.disjoint_left.mp (hdisj i hi j hj) hp hpA
    apply (hbody i hi _ array hnew hI).imp
    intro _ array' h'
    have hset : S ∪ {p | ∃ j < i, p ∈ A j} ∪ A i = S ∪ {p | ∃ j < i + 1, p ∈ A j} := by
      ext p
      constructor
      · rintro ((hp | ⟨j, hj, hp⟩) | hp)
        · exact .inl hp
        · exact .inr ⟨j, by omega, hp⟩
        · exact .inr ⟨i, by omega, hp⟩
      · rintro (hp | ⟨j, hj, hp⟩)
        · exact .inl (.inl hp)
        · rcases Nat.lt_or_eq_of_le (Nat.le_of_lt_succ hj) with hlt | rfl
          · exact .inl (.inr ⟨j, hlt, hp⟩)
          · exact .inr hp
    rwa [← hset]
  · have hset : S ∪ {p | ∃ j < 0, p ∈ A j} = S := by simp
    rwa [hset]

theorem forBelow_cells {rounds : ℕ} {p : ℕ → ℤ × ℤ}
    (hbody : ∀ i < rounds, L.Paints array₀ before after (body i ()) {p i})
    (hp : ∀ i j, p i = p j → i = j) :
    L.Paints array₀ before after (Checked.forBelow rounds () body) {q | ∃ i < rounds, q = p i} := by
  apply forBelow hbody
  intro i _ j hj
  rw [Set.disjoint_singleton]
  intro e
  exact Nat.lt_irrefl i (hp i j e ▸ hj)

theorem cell {p : ℤ × ℤ} (h : ∀ T array, T p = before p → (∀ q, T q = before q ∨ T q = after q) →
    L.ShowsCells array₀ array T →
    Ends m array fun _ array' => L.ShowsCells array₀ array' (Function.update T p (after p))) :
    L.Paints array₀ before after m {p} := by
  intro S array hS hshows
  have hp : p ∉ S := Set.disjoint_singleton_left.mp hS
  apply (h _ array (progress_of_notMem hp) ?_ hshows).imp
  · intro _ array' h'
    apply h'.congr
    intro q _
    by_cases hqp : q = p
    · rw [hqp, Function.update_self]
      exact progress_of_mem (.inr rfl)
    · rw [Function.update_of_ne hqp]
      by_cases hq : q ∈ S
      · rw [progress_of_mem hq]
        exact progress_of_mem (.inl hq)
      · rw [progress_of_notMem hq]
        apply progress_of_notMem
        rintro (hqS | hqp')
        · exact hq hqS
        · exact hqp hqp'
  · intro q
    by_cases hq : q ∈ S
    · exact .inr (progress_of_mem hq)
    · exact .inl (progress_of_notMem hq)

theorem ends (h : L.Paints array₀ before after m A) (hrest : ∀ p, p ∉ A → after p = before p)
    (hshows : L.ShowsCells array₀ array before) :
    Ends m array fun _ array' => L.ShowsCells array₀ array' after := by
  have hnone : progress before after ∅ = before := by
    funext p
    exact progress_of_notMem (Set.notMem_empty p)
  have hall : progress before after (∅ ∪ A) = after := by
    funext p
    rw [Set.empty_union]
    by_cases hp : p ∈ A
    · exact progress_of_mem hp
    · rw [progress_of_notMem hp, hrest p hp]
  rw [← hnone] at hshows
  apply (h ∅ array (Set.disjoint_empty A) hshows).imp
  intro _ array' h'
  rwa [hall] at h'

end Paints

end Painting

end Layout

end CellTables
