import Mathlib.Data.List.Basic
import Mathlib.Tactic.Common
import Mathlib.Tactic.Linarith

/-!
# Sets of signed distances

A set of nonzero distances is kept as its negative elements from zero down and
its positive elements from zero up, each with a flag.  It is given by its steps,
or predicted from another set: the elements of that set and zero are shifted,
and those that are selected and not zero make up the new one.
-/

namespace DeltaSets

/-- The elements from zero down and from zero up. -/
structure DeltaSet where
  s0 : List (ℤ × Bool)
  s1 : List (ℤ × Bool)
  falls : s0.Pairwise fun a b => b.1 < a.1
  negative : ∀ e ∈ s0, e.1 < 0
  rises : s1.Pairwise fun a b => a.1 < b.1
  positive : ∀ e ∈ s1, 0 < e.1

namespace DeltaSet

def card (s : DeltaSet) : ℕ := s.s0.length + s.s1.length

end DeltaSet

/-! ## Sets given by their steps -/

/-- The elements below `start`, each at its step minus one from the one before. -/
def falling (start : ℤ) : List (ℕ × Bool) → List (ℤ × Bool)
  | [] => []
  | (n, b) :: l => (start - (n + 1), b) :: falling (start - (n + 1)) l

def mirror (l : List (ℤ × Bool)) : List (ℤ × Bool) := l.map fun e => (-e.1, e.2)

theorem falling_lt {start : ℤ} {l : List (ℕ × Bool)} : ∀ e ∈ falling start l, e.1 < start := by
  induction l generalizing start with
  | nil => simp [falling]
  | cons x l ih =>
    intro e he
    rcases List.mem_cons.mp he with rfl | he
    · change start - ((x.1 : ℤ) + 1) < start
      omega
    · have := ih e he
      omega

theorem falling_pairwise (start : ℤ) (l : List (ℕ × Bool)) :
    (falling start l).Pairwise fun a b => b.1 < a.1 := by
  induction l generalizing start with
  | nil => exact .nil
  | cons x l ih => exact .cons (fun e he => falling_lt e he) (ih _)

theorem map_range_eq_falling {n : ℕ} {start : ℤ} {m : ℕ → ℕ} {b : ℕ → Bool} {d : ℕ → ℤ}
    (h0 : 0 < n → d 0 = start - (m 0 + 1))
    (hs : ∀ i, i + 1 < n → d (i + 1) = d i - (m (i + 1) + 1)) :
    (List.range n).map (fun j => (d j, b j)) = falling start ((List.range n).map fun j => (m j, b j)) := by
  induction n generalizing start m b d with
  | zero => rfl
  | succ n ih =>
    have htail : (List.range n).map (fun j => (d (j + 1), b (j + 1))) =
        falling (d 0) ((List.range n).map fun j => (m (j + 1), b (j + 1))) :=
      ih (fun hn => hs 0 (by omega)) fun i hi => hs (i + 1) (by omega)
    rw [List.range_succ_eq_map, List.map_cons, List.map_cons, List.map_map, List.map_map, falling,
      ← h0 (Nat.succ_pos n)]
    exact congrArg _ htail

def ofSteps (d0 d1 : List (ℕ × Bool)) : DeltaSet where
  s0 := falling 0 d0
  s1 := mirror (falling 0 d1)
  falls := falling_pairwise 0 d0
  negative := falling_lt
  rises := by
    unfold mirror
    rw [List.pairwise_map]
    exact (falling_pairwise 0 d1).imp fun h => neg_lt_neg h
  positive := fun e he => by
    obtain ⟨x, hx, rfl⟩ := List.mem_map.mp he
    exact neg_pos.mpr (falling_lt x hx)

/-! ## Predicted sets -/

/-- What becomes of an element of the other set. -/
inductive Selection
  | used
  | kept
  | dropped
  deriving DecidableEq, Repr

def Selection.isKept : Selection → Bool
  | .dropped => false
  | _ => true

def Selection.isUsed : Selection → Bool
  | .used => true
  | _ => false

/-- The elements of a list, shifted, with what becomes of each. -/
def shifted (delta : ℤ) (l : List (ℤ × Bool)) (fl : List Selection) : List (ℤ × Selection) :=
  l.zipWith (fun e f => (e.1 + delta, f)) fl

variable {l : List (ℤ × Bool)} {fl : List Selection} {delta : ℤ}

theorem map_range_eq_shifted {n : ℕ}
    {d : ℕ → ℤ} {b : ℕ → Bool} {f : ℕ → Selection} (hl : (List.range n).map (fun j => (d j, b j)) = l)
    (hf : ∀ j, j < n → fl[j]? = some (f j)) :
    (List.range n).map (fun j => (d j + delta, f j)) = shifted delta l fl := by
  subst hl
  apply List.ext_getElem?
  intro j
  simp only [shifted, List.getElem?_zipWith, List.getElem?_map]
  by_cases hj : j < n
  · simp [List.getElem?_range hj, hf j hj]
  · have hnone : (List.range n)[j]? = none := List.getElem?_eq_none (by simpa using hj)
    simp [hnone]

theorem exists_of_mem_shifted
    {x : ℤ × Selection} (h : x ∈ shifted delta l fl) : ∃ e ∈ l, x.1 = e.1 + delta := by
  induction l generalizing fl with
  | nil => simp [shifted] at h
  | cons e l ih =>
    cases fl with
    | nil => simp [shifted] at h
    | cons f fl =>
      rcases List.mem_cons.mp h with rfl | h
      · exact ⟨e, List.mem_cons_self, rfl⟩
      · obtain ⟨e', he', hx⟩ := ih h
        exact ⟨e', List.mem_cons_of_mem _ he', hx⟩

variable {R : ℤ → ℤ → Prop}

theorem shifted_pairwise (hR : ∀ a b, R a b → R (a + delta) (b + delta))
    (hl : l.Pairwise fun a b => R a.1 b.1) (fl : List Selection) :
    (shifted delta l fl).Pairwise fun a b => R a.1 b.1 := by
  induction l generalizing fl with
  | nil => exact .nil
  | cons e l ih =>
    cases fl with
    | nil => exact .nil
    | cons f fl =>
      rw [List.pairwise_cons] at hl
      refine .cons (fun x hx => ?_) (ih hl.2 fl)
      obtain ⟨e', he', hx'⟩ := exists_of_mem_shifted hx
      rw [hx']
      exact hR _ _ (hl.1 e' he')

/-- The shifted elements of `s` and of zero, from the largest one down.  The
selections are listed for `s0`, for `s1` and for zero. -/
def candidates (s : DeltaSet) (delta : ℤ) (fl : List Selection) : List (ℤ × Selection) :=
  (shifted delta s.s1 (fl.drop s.s0.length)).reverse ++
    (shifted delta [(0, false)] (fl.drop s.card) ++ shifted delta s.s0 fl)

theorem candidates_falls (s : DeltaSet) (delta : ℤ) (fl : List Selection) :
    (candidates s delta fl).Pairwise fun a b => b.1 < a.1 := by
  have hshift : ∀ a b : ℤ, b < a → b + delta < a + delta := fun a b h => by omega
  have hzero : ∀ x ∈ shifted delta [(0, false)] (fl.drop s.card), x.1 = delta := fun x hx => by
    obtain ⟨e, he, hx⟩ := exists_of_mem_shifted hx
    rw [List.mem_singleton.mp he] at hx
    simpa using hx
  have hlow : ∀ x ∈ shifted delta s.s0 fl, x.1 < delta := fun x hx => by
    obtain ⟨e, he, hx⟩ := exists_of_mem_shifted hx
    have := s.negative e he
    omega
  have hhigh : ∀ x ∈ shifted delta s.s1 (fl.drop s.s0.length), delta < x.1 := fun x hx => by
    obtain ⟨e, he, hx⟩ := exists_of_mem_shifted hx
    have := s.positive e he
    omega
  refine List.pairwise_append.mpr ⟨?_, List.pairwise_append.mpr ⟨?_, ?_, fun x hx y hy => ?_⟩,
    fun x hx y hy => ?_⟩
  · rw [List.pairwise_reverse]
    exact shifted_pairwise (R := fun a b => a < b) (fun a b h => by omega) s.rises _
  · exact shifted_pairwise (R := fun a b => b < a) hshift (.cons (by simp) .nil) _
  · exact shifted_pairwise (R := fun a b => b < a) hshift s.falls _
  · rw [hzero x hx]
    exact hlow y hy
  · have hx := hhigh x (List.mem_reverse.mp hx)
    rcases List.mem_append.mp hy with hy | hy
    · rw [hzero y hy]
      exact hx
    · exact (hlow y hy).trans hx

/-- The selected elements of one sign. -/
def pick (sign : ℤ → Bool) (l : List (ℤ × Selection)) : List (ℤ × Bool) :=
  (l.filter fun x => sign x.1 && x.2.isKept).map fun x => (x.1, x.2.isUsed)

theorem pick_pairwise {l : List (ℤ × Selection)}
    (hl : l.Pairwise fun a b => R a.1 b.1) (sign : ℤ → Bool) :
    (pick sign l).Pairwise fun a b => R a.1 b.1 := by
  unfold pick
  rw [List.pairwise_map]
  exact hl.sublist List.filter_sublist

theorem sign_of_mem_pick {sign : ℤ → Bool} {l : List (ℤ × Selection)} {e : ℤ × Bool}
    (h : e ∈ pick sign l) : sign e.1 = true := by
  obtain ⟨x, hx, rfl⟩ := List.mem_map.mp h
  exact (Bool.and_eq_true_iff.mp (List.mem_filter.mp hx).2).1

theorem pick_append (sign : ℤ → Bool) (l l' : List (ℤ × Selection)) :
    pick sign (l ++ l') = pick sign l ++ pick sign l' := by
  simp [pick]

/-- The set predicted from `s`. -/
def predict (s : DeltaSet) (delta : ℤ) (fl : List Selection) : DeltaSet where
  s0 := pick (fun d => d < 0) (candidates s delta fl)
  s1 := pick (fun d => 0 < d) (candidates s delta fl).reverse
  falls := pick_pairwise (R := fun a b => b < a) (candidates_falls s delta fl) _
  negative := fun _ he => of_decide_eq_true (sign_of_mem_pick he)
  rises := by
    refine pick_pairwise (R := fun a b => a < b) ?_ _
    rw [List.pairwise_reverse]
    exact candidates_falls s delta fl
  positive := fun _ he => of_decide_eq_true (sign_of_mem_pick he)

end DeltaSets
