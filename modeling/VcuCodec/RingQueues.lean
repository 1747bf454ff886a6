import Mathlib.Data.List.Basic
import Mathlib.Data.Nat.ModEq
import Mathlib.Logic.Function.Basic
import Mathlib.Tactic.Common

/-!
# Queues in ring buffers

A queue of `n` elements in an array of `size` entries starts at index `head` and
goes on modulo `size`.
-/

namespace RingQueues

variable {α : Type*} {size head n : ℕ} {f g : ℕ → α}

/-- The elements of the queue, the oldest first. -/
def contents (f : ℕ → α) (size head n : ℕ) : List α :=
  (List.range n).map fun k => f ((head + k) % size)

@[simp] theorem length_contents : (contents f size head n).length = n := by
  simp [contents]

@[simp] theorem getElem_contents {k : ℕ} (h : k < (contents f size head n).length) :
    (contents f size head n)[k] = f ((head + k) % size) := by
  simp [contents]

theorem mem_contents {x : α} :
    x ∈ contents f size head n ↔ ∃ k < n, f ((head + k) % size) = x := by
  simp [contents]

theorem mod_ne {h i j size : ℕ} (hij : i < j) (hj : j < i + size) :
    (h + i) % size ≠ (h + j) % size := fun he => by
  have hmod : i ≡ j [MOD size] := Nat.ModEq.add_left_cancel' h he
  have hle := Nat.le_of_dvd (by omega) ((Nat.modEq_iff_dvd' hij.le).mp hmod)
  omega

theorem distance_mod (i k size : ℕ) : ((i + k) % size + size - i % size) % size = k % size := by
  rcases Nat.eq_zero_or_pos size with rfl | hpos
  · simp
  have hlt := Nat.mod_lt i hpos
  have hsub : (i + k) % size + size - i % size = (i + k) % size + (size - i % size) := by omega
  have hsum : i + k + (size - i % size) = k + size * (i / size + 1) := by
    have := Nat.div_add_mod i size
    rw [Nat.mul_add, Nat.mul_one]
    omega
  rw [hsub, Nat.mod_add_mod, hsum, Nat.add_mul_mod_self_left]

theorem contents_succ :
    contents f size head (n + 1) = contents f size head n ++ [f ((head + n) % size)] := by
  unfold contents
  rw [List.range_succ, List.map_append, List.map_singleton]

theorem contents_push (hn : n < size) (x : α) :
    contents (Function.update f ((head + n) % size) x) size head (n + 1) =
      contents f size head n ++ [x] := by
  have hold : ∀ k ∈ List.range n,
      Function.update f ((head + n) % size) x ((head + k) % size) = f ((head + k) % size) := by
    intro k hk
    have hkn := List.mem_range.mp hk
    rw [Function.update_of_ne (mod_ne hkn (by omega))]
  rw [contents_succ, Function.update_self]
  congr 1
  exact List.map_congr_left hold

theorem contents_pop (hn : n ≠ 0) :
    contents f size head n = f (head % size) :: contents f size ((head + 1) % size) (n - 1) := by
  obtain ⟨m, rfl⟩ := Nat.exists_eq_succ_of_ne_zero hn
  unfold contents
  rw [List.range_succ_eq_map, List.map_cons, Nat.add_zero, List.map_map, Nat.succ_sub_one]
  refine congrArg _ (List.map_congr_left fun k _ => congrArg f ?_)
  show (head + (k + 1)) % size = ((head + 1) % size + k) % size
  rw [Nat.mod_add_mod]
  congr 1
  omega

@[simp] theorem contents_zero : contents f size head 0 = [] := rfl

@[simp] theorem contents_mod : contents f size (head % size) n = contents f size head n := by
  unfold contents
  simp only [Nat.mod_add_mod]

theorem contents_update (hn : n < size) (x : α) :
    contents (Function.update f ((head + n) % size) x) size head n = contents f size head n := by
  apply List.map_congr_left
  intro k hk
  exact Function.update_of_ne (mod_ne (List.mem_range.mp hk) (by omega)) _ _

theorem contents_tail : contents f size (head + 1) (n - 1) = (contents f size head n).tail := by
  rcases Nat.eq_zero_or_pos n with rfl | hn
  · rfl
  · rw [contents_pop hn.ne', List.tail_cons, contents_mod]

theorem contents_drop {m : ℕ} :
    contents f size ((head + m) % size) (n - m) = (contents f size head n).drop m := by
  apply List.ext_getElem
  · simp
  · intro k h1 h2
    simp only [getElem_contents, List.getElem_drop, Nat.mod_add_mod, Nat.add_assoc]

theorem contents_take {m : ℕ} (h : m ≤ n) : (contents f size head n).take m = contents f size head m := by
  unfold contents
  rw [← List.map_take, List.take_range, Nat.min_eq_left h]

/-- Writing a block behind the last element appends it, wherever it wraps. -/
theorem contents_append {xs : List α} {g : ℕ → α} (hn : n + xs.length ≤ size)
    (hnew : ∀ k (h : k < xs.length), g ((head + n + k) % size) = xs[k])
    (hold : ∀ i < size, (∀ k < xs.length, i ≠ (head + n + k) % size) → g i = f i) :
    contents g size head (n + xs.length) = contents f size head n ++ xs := by
  apply List.ext_getElem
  · simp
  · intro k h1 h2
    rw [length_contents] at h1
    rcases Nat.lt_or_ge k n with hk | hk
    · rw [List.getElem_append_left (by rwa [length_contents])]
      rw [getElem_contents, getElem_contents]
      apply hold _ (Nat.mod_lt _ (by omega))
      intro j hj
      rw [Nat.add_assoc]
      exact mod_ne (by omega) (by omega)
    · rw [List.getElem_append_right (by rwa [length_contents])]
      simp only [getElem_contents, length_contents]
      rw [← hnew (k - n) (by omega)]
      congr 2
      omega

/-! ## Blocks -/

/-- The `n` elements of the array from `pos` on. -/
def slice (f : ℕ → α) (pos n : ℕ) : List α := (List.range n).map fun k => f (pos + k)

/-- The array with a block copied to `pos`. -/
def blit (f : ℕ → α) (pos : ℕ) (xs : List α) : ℕ → α := fun i =>
  if pos ≤ i then xs[i - pos]?.getD (f i) else f i

/-- The ring with a block copied to `pos`, and on from its start. -/
def blitWrapped (f : ℕ → α) (size pos : ℕ) (xs : List α) : ℕ → α :=
  if size < pos + xs.length then blit (blit f pos (xs.take (size - pos))) 0 (xs.drop (size - pos))
  else blit f pos xs

section Blocks

variable {pos i : ℕ} {xs : List α}

theorem blit_inside {k : ℕ} (h : k < xs.length) : blit f pos xs (pos + k) = xs[k] := by
  unfold blit
  rw [if_pos (Nat.le_add_right pos k), Nat.add_sub_cancel_left, List.getElem?_eq_getElem h]
  rfl

theorem blit_outside (h : i < pos ∨ pos + xs.length ≤ i) : blit f pos xs i = f i := by
  unfold blit
  split
  · rw [List.getElem?_eq_none (by omega)]
    rfl
  · rfl

theorem blitWrapped_new (hpos : pos < size) (hlen : xs.length ≤ size) {k : ℕ} (hk : k < xs.length) :
    blitWrapped f size pos xs ((pos + k) % size) = xs[k] := by
  unfold blitWrapped
  split
  · next hwrap =>
    by_cases hfirst : pos + k < size
    · have hk' : k < (xs.take (size - pos)).length := by
        rw [List.length_take]
        omega
      rw [Nat.mod_eq_of_lt hfirst, blit_outside (.inr (by rw [List.length_drop]; omega)), blit_inside hk',
        List.getElem_take]
    · have hmod : (pos + k) % size = 0 + (k - (size - pos)) := by
        rw [Nat.mod_eq_sub_mod (by omega), Nat.mod_eq_of_lt (by omega)]
        omega
      have hk' : k - (size - pos) < (xs.drop (size - pos)).length := by
        rw [List.length_drop]
        omega
      rw [hmod, blit_inside hk', List.getElem_drop]
      congr 1
      omega
  · next hwrap => rw [Nat.mod_eq_of_lt (by omega), blit_inside hk]

theorem blitWrapped_old (hpos : pos < size) (hi : i < size) (hne : ∀ k < xs.length, i ≠ (pos + k) % size) :
    blitWrapped f size pos xs i = f i := by
  have hout : ∀ k < xs.length, pos + k < size → i ≠ pos + k := by
    intro k hk hlt
    have := hne k hk
    rwa [Nat.mod_eq_of_lt hlt] at this
  unfold blitWrapped
  split
  · next hwrap =>
    -- neither part of the block reaches `i`
    have hfirst : i < pos ∨ pos + (xs.take (size - pos)).length ≤ i := by
      rw [List.length_take]
      by_contra hc
      exact hout (i - pos) (by omega) (by omega) (by omega)
    have hsecond : i < 0 ∨ 0 + (xs.drop (size - pos)).length ≤ i := by
      rw [List.length_drop]
      right
      by_contra hc
      have hk := hne (i + (size - pos)) (by omega)
      rw [show pos + (i + (size - pos)) = i + size by omega, Nat.add_mod_right, Nat.mod_eq_of_lt hi] at hk
      exact hk rfl
    rw [blit_outside hsecond, blit_outside hfirst]
  · next hwrap =>
    apply blit_outside
    by_contra hc
    exact hout (i - pos) (by omega) (by omega) (by omega)

/-- A block copied behind the last element is appended to the queue. -/
theorem contents_blitWrapped (hpos : pos = (head + n) % size) (hn : n + xs.length ≤ size) :
    contents (blitWrapped f size pos xs) size head (n + xs.length) = contents f size head n ++ xs := by
  rcases Nat.eq_zero_or_pos size with rfl | hsize
  · obtain rfl : n = 0 := by omega
    obtain rfl : xs = [] := List.eq_nil_of_length_eq_zero (by omega)
    rfl
  have hlt : pos < size := hpos ▸ Nat.mod_lt _ hsize
  have hat : ∀ k, (head + n + k) % size = (pos + k) % size := fun k => by rw [hpos, Nat.mod_add_mod]
  apply contents_append hn
  · intro k hk
    rw [hat]
    exact blitWrapped_new hlt (by omega) hk
  · intro i hi hne
    apply blitWrapped_old hlt hi
    intro k hk
    rw [← hat]
    exact hne k hk

theorem contents_eq_slice (h : head + n ≤ size) : contents f size head n = slice f head n := by
  apply List.map_congr_left
  intro k hk
  rw [Nat.mod_eq_of_lt]
  have := List.mem_range.mp hk
  omega

theorem contents_eq_slices (hhead : head < size) (hwrap : size < head + n) (hn : n ≤ size) :
    contents f size head n = slice f head (size - head) ++ slice f 0 (n - (size - head)) := by
  have hsplit : n = (size - head) + (n - (size - head)) := by omega
  conv_lhs => rw [hsplit]
  unfold contents slice
  rw [List.range_add, List.map_append, List.map_map]
  congr 1
  · apply List.map_congr_left
    intro k hk
    have := List.mem_range.mp hk
    rw [Nat.mod_eq_of_lt (by omega)]
  · apply List.map_congr_left
    intro k hk
    have := List.mem_range.mp hk
    rw [Function.comp_apply, Nat.zero_add, show head + (size - head + k) = k + size by omega,
      Nat.add_mod_right, Nat.mod_eq_of_lt (by omega)]

end Blocks

end RingQueues
