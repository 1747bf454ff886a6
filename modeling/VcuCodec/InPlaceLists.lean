import Mathlib.Data.List.GetD
import Mathlib.Data.List.Range
import Mathlib.Logic.Function.Basic
import Mathlib.Tactic.Common

/-!
# Lists that are edited in place

An element is put into a list that lies in consecutive cells: the cells behind
its place are shifted up by one, and the elements that a test rejects are then
removed by moving the other ones down.  The cells that become free keep what
they held, so that rejecting too much can show.
-/

namespace InPlaceLists

variable {α : Type}

/-- `for(u = n; u > a; --u) cells[u] = cells[u - 1];` -/
def shiftUp (a : ℕ) : ℕ → (ℕ → α) → ℕ → α
  | 0, cells => cells
  | u + 1, cells => if a < u + 1 then shiftUp a u (Function.update cells (u + 1) (cells u)) else cells

theorem shiftUp_apply (a n : ℕ) (cells : ℕ → α) (j : ℕ) :
    shiftUp a n cells j = if a < j ∧ j ≤ n then cells (j - 1) else cells j := by
  induction n generalizing cells with
  | zero =>
    rw [if_neg (by omega)]
    rfl
  | succ n ih =>
    rw [shiftUp]
    by_cases ha : a < n + 1
    · rw [if_pos ha, ih]
      by_cases hj : j = n + 1
      · rw [hj, if_neg (by omega), if_pos ⟨ha, le_rfl⟩, Function.update_self, Nat.add_sub_cancel]
      · by_cases hlt : a < j ∧ j ≤ n
        · rw [if_pos hlt, if_pos (by omega), Function.update_of_ne (by omega)]
        · rw [if_neg hlt, if_neg (by omega), Function.update_of_ne hj]
    · rw [if_neg ha, if_neg (by omega)]

/-- `if(keep(x)) cells[free++] = x;` with `free` in front of the cells. -/
def putIf (keep : α → Bool) (t : ℕ × (ℕ → α)) (x : α) : ℕ × (ℕ → α) :=
  if keep x then (t.1 + 1, Function.update t.2 t.1 x) else t

def compactStep (keep : α → Bool) (t : ℕ × (ℕ → α)) (u : ℕ) : ℕ × (ℕ → α) := putIf keep t (t.2 u)

/-- The loop over the `m` cells from `a` on. -/
def compact (keep : α → Bool) (a m : ℕ) (cells : ℕ → α) : ℕ → α :=
  ((List.range' a m).foldl (compactStep keep) (a, cells)).2

/-- The elements that are kept lie in front, what is behind them has not moved. -/
theorem foldl_compactStep (keep : α → Bool) (a m : ℕ) (cells : ℕ → α) :
    (List.range' a m).foldl (compactStep keep) (a, cells) =
      (a + (((List.range' a m).map cells).filter keep).length, fun j =>
        if j < a then cells j else (((List.range' a m).map cells).filter keep).getD (j - a) (cells j)) := by
  induction m with
  | zero => simp
  | succ m ih =>
    rw [List.range'_1_concat, List.foldl_append, ih, List.map_append, List.filter_append,
      List.foldl_cons, List.foldl_nil]
    have hlen : (((List.range' a m).map cells).filter keep).length ≤ m := by
      refine (List.length_filter_le _ _).trans ?_
      rw [List.length_map, List.length_range']
    generalize ((List.range' a m).map cells).filter keep = kept at hlen ⊢
    have hat : kept.getD (a + m - a) (cells (a + m)) = cells (a + m) :=
      List.getD_eq_default _ _ (by omega)
    change putIf keep _ (if a + m < a then cells (a + m) else kept.getD (a + m - a) (cells (a + m))) = _
    rw [if_neg (by omega), hat, putIf]
    by_cases hkeep : keep (cells (a + m)) = true
    · have hlast : ([a + m].map cells).filter keep = [cells (a + m)] := by simp [hkeep]
      rw [if_pos hkeep, hlast, List.length_append, List.length_singleton]
      refine Prod.ext rfl (funext fun j => ?_)
      dsimp only
      by_cases hj : j = a + kept.length
      · rw [hj, Function.update_self, if_neg (by omega)]
        simp
      · rw [Function.update_of_ne hj]
        by_cases hja : j < a
        · rw [if_pos hja, if_pos hja]
        · rw [if_neg hja, if_neg hja]
          rcases Nat.lt_or_ge (j - a) kept.length with hlt | hge
          · rw [List.getD_append _ _ _ _ hlt]
          · rw [List.getD_eq_default _ _ hge, List.getD_eq_default]
            rw [List.length_append, List.length_singleton]
            omega
    · have hlast : ([a + m].map cells).filter keep = [] := by simp [hkeep]
      rw [if_neg hkeep, hlast, List.append_nil]

theorem compact_apply (keep : α → Bool) (a m : ℕ) (cells : ℕ → α) (j : ℕ) :
    compact keep a m cells j =
      if j < a then cells j else (((List.range' a m).map cells).filter keep).getD (j - a) (cells j) := by
  unfold compact
  rw [foldl_compactStep]

/-- The first `n` cells. -/
def front (n : ℕ) (cells : ℕ → α) : List α := (List.range n).map cells

theorem length_front (n : ℕ) (cells : ℕ → α) : (front n cells).length = n := by
  unfold front
  rw [List.length_map, List.length_range]

theorem getElem_front {n i : ℕ} {cells : ℕ → α} (hi : i < (front n cells).length) : (front n cells)[i] = cells i := by
  simp [front]

/-! ## Putting one element in -/

/-- `p` is put into cell `a` of the first `n`, which are followed by a spare one. -/
def insertAt (keep : α → Bool) (a n : ℕ) (p : α) (cells : ℕ → α) : ℕ → α :=
  compact keep (a + 1) (n - a) (Function.update (shiftUp a n cells) a p)

section InsertAt

variable {keep : α → Bool} {a n : ℕ} {p : α} {cells : ℕ → α}

theorem insertAt_of_le {j : ℕ} (hj : j ≤ a) :
    insertAt keep a n p cells j = if j = a then p else cells j := by
  unfold insertAt
  rw [compact_apply, if_pos (by omega)]
  by_cases hja : j = a
  · rw [if_pos hja, hja, Function.update_self]
  · rw [if_neg hja, Function.update_of_ne hja, shiftUp_apply, if_neg (by omega)]

/-- Behind the new element the ones that are accepted follow, and then what is left. -/
theorem insertAt_of_lt {i : ℕ} (hi : a + 1 + i ≤ n) :
    insertAt keep a n p cells (a + 1 + i) = (((front n cells).drop a).filter keep).getD i (cells (a + i)) := by
  have hmoved : (List.range' (a + 1) (n - a)).map (Function.update (shiftUp a n cells) a p) =
      (front n cells).drop a := by
    apply List.ext_getElem
    · simp [front]
    · intro k hk hk'
      have hkn : k < n - a := by simpa [front] using hk'
      rw [List.getElem_map, List.getElem_range', List.getElem_drop, getElem_front,
        Function.update_of_ne (by omega), shiftUp_apply, if_pos (by omega)]
      congr 1
      omega
  unfold insertAt
  rw [compact_apply, hmoved, if_neg (by omega), Function.update_of_ne (by omega), shiftUp_apply,
    if_pos (by omega)]
  congr 1
  · omega
  · congr 1
    omega

theorem map_insertAt {β : Type} (f : α → β) (keep : β → Bool) (j : ℕ) :
    f (insertAt (fun x => keep (f x)) a n p cells j) =
      insertAt keep a n (f p) (fun i => f (cells i)) j := by
  have hcells : ∀ i, f (Function.update (shiftUp a n cells) a p i) =
      Function.update (shiftUp a n fun i => f (cells i)) a (f p) i := by
    intro i
    by_cases hi : i = a
    · rw [hi, Function.update_self, Function.update_self]
    · rw [Function.update_of_ne hi, Function.update_of_ne hi, shiftUp_apply, shiftUp_apply]
      split <;> rfl
  have hmap : (List.range' (a + 1) (n - a)).map (Function.update (shiftUp a n fun i => f (cells i)) a (f p)) =
      ((List.range' (a + 1) (n - a)).map (Function.update (shiftUp a n cells) a p)).map f := by
    rw [List.map_map]
    apply List.map_congr_left
    intro i _
    exact (hcells i).symm
  unfold insertAt
  rw [compact_apply, compact_apply, hmap, ← hcells]
  generalize Function.update (shiftUp a n cells) a p = cells'
  generalize (List.range' (a + 1) (n - a)).map cells' = r
  rw [List.filter_map, List.getD_map]
  split <;> rfl

/-- The elements behind a new one, with what is left. -/
def squeeze (keep : α → Bool) (r : List α) : List α := r.filter keep ++ r.drop (r.filter keep).length

theorem length_squeeze (r : List α) : (squeeze keep r).length = r.length := by
  have hle := List.length_filter_le keep r
  unfold squeeze
  rw [List.length_append, List.length_drop]
  omega

theorem mem_of_mem_squeeze {r : List α} {q : α} (h : q ∈ squeeze keep r) : q ∈ r := by
  rcases List.mem_append.mp h with hq | hq
  · exact (List.mem_filter.mp hq).1
  · exact List.mem_of_mem_drop hq

/-- The `n` cells and the spare one that the last of them is shifted into. -/
theorem front_succ_insertAt (ha : a ≤ n) : front (n + 1) (insertAt keep a n p cells) =
    (front n cells).take a ++ p :: squeeze keep ((front n cells).drop a) := by
  have hdrop : ((front n cells).drop a).length = n - a := by rw [List.length_drop, length_front]
  have htake : ((front n cells).take a).length = a := by
    rw [List.length_take, length_front]
    omega
  apply List.ext_getElem
  · rw [length_front, List.length_append, List.length_cons, length_squeeze, hdrop, htake]
    omega
  · intro j hj hj'
    have hjn : j < n + 1 := by rwa [length_front] at hj
    rw [getElem_front]
    rcases Nat.lt_trichotomy j a with hlt | rfl | hgt
    · rw [insertAt_of_le hlt.le, if_neg hlt.ne, List.getElem_append_left (by omega), List.getElem_take,
        getElem_front]
    · rw [insertAt_of_le le_rfl, if_pos rfl, List.getElem_append_right htake.le]
      simp [htake]
    · obtain ⟨i, rfl⟩ : ∃ i, j = a + 1 + i := ⟨j - (a + 1), by omega⟩
      have hi : i < ((front n cells).drop a).length := by omega
      have hcell : ((front n cells).drop a)[i] = cells (a + i) := by
        rw [List.getElem_drop, getElem_front]
      rw [insertAt_of_lt (by omega), List.getElem_append_right (by omega)]
      simp only [htake, show a + 1 + i - a = i + 1 by omega, List.getElem_cons_succ]
      unfold squeeze
      rcases Nat.lt_or_ge i (((front n cells).drop a).filter keep).length with hkept | hleft
      · rw [List.getElem_append_left hkept, List.getD_eq_getElem _ _ hkept]
      · rw [List.getElem_append_right hleft, List.getD_eq_default _ _ hleft, List.getElem_drop, ← hcell]
        congr 1
        omega

/-- Where nothing is put in, the element at its place is there twice. -/
theorem front_succ_shiftUp (ha : a ≤ n) : front (n + 1) (shiftUp a n cells) =
    (front n cells).take a ++ cells a :: (front n cells).drop a := by
  have htake : ((front n cells).take a).length = a := by
    rw [List.length_take, length_front]
    omega
  apply List.ext_getElem
  · simp [front]
    omega
  · intro j hj hj'
    have hjn : j < n + 1 := by rwa [length_front] at hj
    rw [getElem_front, shiftUp_apply]
    rcases Nat.lt_trichotomy j a with hlt | rfl | hgt
    · rw [if_neg (by omega), List.getElem_append_left (by omega), List.getElem_take, getElem_front]
    · rw [if_neg (by omega), List.getElem_append_right htake.le]
      simp [htake]
    · obtain ⟨i, rfl⟩ : ∃ i, j = a + 1 + i := ⟨j - (a + 1), by omega⟩
      rw [if_pos (by omega), List.getElem_append_right (by omega)]
      simp only [htake, show a + 1 + i - a = i + 1 by omega, List.getElem_cons_succ, List.getElem_drop,
        getElem_front]
      congr 1
      omega

/-- What holds of the first `m` cells and of the new element still holds of the cells. -/
theorem insertAt_forall {P : α → Prop} {m j : ℕ} (hn : n ≤ m) (hp : P p) (h : ∀ i < m, P (cells i))
    (hj : j < m) : P (insertAt keep a n p cells j) := by
  have hcell : ∀ i < m, P (Function.update (shiftUp a n cells) a p i) := by
    intro i hi
    by_cases hia : i = a
    · rwa [hia, Function.update_self]
    · rw [Function.update_of_ne hia, shiftUp_apply]
      split
      · exact h (i - 1) (by omega)
      · exact h i hi
  unfold insertAt
  rw [compact_apply]
  split
  · exact hcell j hj
  · rcases Nat.lt_or_ge (j - (a + 1)) (((List.range' (a + 1) (n - a)).map
      (Function.update (shiftUp a n cells) a p)).filter keep).length with hlt | hge
    · rw [List.getD_eq_getElem _ _ hlt]
      have hmem := (List.mem_filter.mp (List.getElem_mem hlt)).1
      obtain ⟨i, hi, heq⟩ := List.mem_map.mp hmem
      rw [List.mem_range'_1] at hi
      rw [← heq]
      rcases Nat.lt_or_ge i m with him | him
      · exact hcell i him
      · -- the spare cell holds what was in front of it
        rw [Function.update_of_ne (by omega), shiftUp_apply, if_pos (by omega)]
        exact h (i - 1) (by omega)
    · rw [List.getD_eq_default _ _ hge]
      exact hcell j hj

end InsertAt

/-! ## Rejecting one element -/

/-- A test that rejects `p` does no more harm to `r` than rejecting `p` alone. -/
def Separates (keep : α → Bool) (p : α) (r : List α) : Prop :=
  (∀ q ∈ r, q ≠ p → keep q = true) ∨
    ∃ a b, r = a ++ b ∧ (∀ q ∈ a, keep q = true) ∧ (∀ q ∈ b, keep q = false) ∧ p ∉ b.dropLast

theorem separates_congr {keep keep' : α → Bool} {p : α} {r : List α} (h : ∀ q ∈ r, keep q = keep' q) :
    Separates keep p r ↔ Separates keep' p r := by
  have hone : ∀ {k k' : α → Bool}, (∀ q ∈ r, k q = k' q) → Separates k p r → Separates k' p r := by
    intro k k' hk hs
    rcases hs with hall | ⟨a, b, rfl, ha, hb, hlast⟩
    · exact .inl fun q hq hqp => hk q hq ▸ hall q hq hqp
    · refine .inr ⟨a, b, rfl, fun q hq => ?_, fun q hq => ?_, hlast⟩
      · rw [← hk q (List.mem_append_left b hq)]
        exact ha q hq
      · rw [← hk q (List.mem_append_right a hq)]
        exact hb q hq
  exact ⟨hone h, hone fun q hq => (h q hq).symm⟩

variable [DecidableEq α]

theorem length_filter_ne {r : List α} {p : α} (hc : r.count p ≤ 1) :
    r.length - 1 ≤ (r.filter (· ≠ p)).length := by
  have hlen := List.length_eq_length_filter_add (l := r) (· == p)
  have heq : (r.filter fun q => !(q == p)) = r.filter (· ≠ p) := by
    apply List.filter_congr
    intro q _
    by_cases hq : q = p <;> simp [hq]
  rw [heq, ← List.count_eq_length_filter] at hlen
  omega

/-- Of the elements that `keep` rejects, none but `p` is followed by one that it
accepts. -/
theorem separates_of_leftover {keep : α → Bool} {p d : α} {r : List α} (hp : keep p = false)
    (hc : r.count p ≤ 1)
    (h : ∀ i < r.length - 1, (r.filter keep).getD i (r.getD i d) = (r.filter (· ≠ p)).getD i d) :
    Separates keep p r := by
  rw [Separates, or_iff_not_imp_left]
  intro hother
  have hkeep : r.filter keep = (r.filter (· ≠ p)).filter keep := by
    rw [List.filter_filter]
    apply List.filter_congr
    intro q _
    by_cases hqp : q = p
    · simp [hqp, hp]
    · simp [hqp]
  -- `a` is what comes in front of the first other element that is rejected
  obtain ⟨a, q, rest, hsplit, ha, hq⟩ : ∃ a q rest, r.filter (· ≠ p) = a ++ q :: rest ∧
      (∀ x ∈ a, keep x = true) ∧ keep q = false := by
    push Not at hother
    obtain ⟨x, hx, hxp, hxk⟩ := hother
    have hfind : ((r.filter (· ≠ p)).find? fun y => !keep y).isSome = true := by
      rw [List.find?_isSome]
      exact ⟨x, List.mem_filter.mpr ⟨hx, by simpa using hxp⟩, by simpa using hxk⟩
    obtain ⟨q, hfind⟩ := Option.isSome_iff_exists.mp hfind
    rw [List.find?_eq_some_iff_append] at hfind
    obtain ⟨hq, a, rest, hsplit, ha⟩ := hfind
    exact ⟨a, q, rest, hsplit, by simpa using ha, by simpa using hq⟩
  have hqp : q ≠ p := by
    have hmem : q ∈ r.filter (· ≠ p) := by
      rw [hsplit]
      simp
    simpa using (List.mem_filter.mp hmem).2
  have hkept : r.filter keep = a ++ rest.filter keep := by
    rw [hkeep, hsplit, List.filter_append, List.filter_eq_self.mpr ha, List.filter_cons_of_neg (by simp [hq])]
  have hnotMem : p ∉ r → r = a ++ q :: rest := fun hpr => by
    rw [← hsplit, List.filter_eq_self.mpr fun x hx => ?_]
    simpa using fun hxp : x = p => hpr (hxp ▸ hx)
  have hat : ∀ (l k : List α) (e : α), (l ++ k).getD l.length e = k.getD 0 e := fun l k e => by
    rw [List.getD_append_right _ _ _ _ le_rfl, Nat.sub_self]
  by_cases hlt : a.length < r.length - 1
  · -- nothing is accepted any more, and the cells have not moved
    have heq := h a.length hlt
    rw [hkept, hsplit, hat, hat] at heq
    have hnil : rest.filter keep = [] := by
      cases hk : rest.filter keep with
      | nil => rfl
      | cons k ks =>
        rw [hk] at heq
        have hmem : k ∈ rest.filter keep := by
          rw [hk]
          exact List.mem_cons_self
        have hkk := (List.mem_filter.mp hmem).2
        rw [show k = q from heq, hq] at hkk
        exact absurd hkk (by simp)
    rw [hnil] at heq
    have hrq : r.getD a.length d = q := heq
    have hreject : ∀ x ∈ q :: rest, keep x = false := by
      intro x hx
      rcases List.mem_cons.mp hx with rfl | hx
      · exact hq
      · simpa using List.filter_eq_nil_iff.mp hnil x hx
    by_cases hpr : p ∈ r
    · obtain ⟨x, y, rfl⟩ := List.append_of_mem hpr
      have hcount : x.count p + (y.count p + 1) ≤ 1 := by
        rwa [List.count_append, List.count_cons_self] at hc
      have hx : p ∉ x := List.count_eq_zero.mp (by omega)
      have hy : p ∉ y := List.count_eq_zero.mp (by omega)
      have hfilter : (x ++ p :: y).filter (· ≠ p) = x ++ y := by
        rw [List.filter_append, List.filter_cons_of_neg (by simp), List.filter_eq_self.mpr,
          List.filter_eq_self.mpr]
        · simpa using fun z hz (hzp : z = p) => hy (hzp ▸ hz)
        · simpa using fun z hz (hzp : z = p) => hx (hzp ▸ hz)
      rw [hfilter] at hsplit h
      -- `p` comes behind the first other element that is rejected
      obtain ⟨x', rfl, hrest⟩ : ∃ x', x = a ++ q :: x' ∧ rest = x' ++ y := by
        rcases List.append_eq_append_iff.mp hsplit with ⟨a', ha', hy'⟩ | ⟨x', hx', hy'⟩
        · exfalso
          rcases List.eq_nil_or_concat a' with rfl | ⟨a', z, rfl⟩
          · rw [ha', List.append_nil, hat] at hrq
            exact hqp hrq.symm
          · have hz : (x ++ p :: y).getD a.length d = z := by
              rw [hy', ha', List.concat_eq_append]
              have hlen : (x ++ (a' ++ [z])).length = (x ++ p :: a').length := by simp
              have hlist : x ++ p :: (a' ++ [z] ++ q :: rest) = (x ++ p :: a') ++ z :: q :: rest := by simp
              rw [hlist, hlen, hat]
              rfl
            have hza : z ∈ a := by
              rw [ha']
              simp
            rw [hrq.symm.trans hz, ha z hza] at hq
            exact absurd hq (by simp)
        · cases x' with
          | nil =>
            rw [List.append_nil] at hx'
            rw [hx', hat] at hrq
            exact absurd hrq.symm hqp
          | cons q' x' =>
            obtain ⟨rfl, hrest⟩ := List.cons_eq_cons.mp hy'
            exact ⟨x', hx', hrest⟩
      have hall : ∀ z ∈ q :: x' ++ p :: y, keep z = false := by
        intro z hz
        rcases List.mem_append.mp hz with hz | hz
        · refine hreject z ?_
          rw [hrest]
          exact List.mem_append_left y hz
        · rcases List.mem_cons.mp hz with rfl | hz
          · exact hp
          · refine hreject z (List.mem_cons_of_mem _ ?_)
            rw [hrest]
            exact List.mem_append_right _ hz
      refine ⟨a, q :: x' ++ p :: y, by simp, ha, hall, ?_⟩
      cases y with
      | nil =>
        rw [List.dropLast_concat]
        exact fun hmem => hx (List.mem_append_right _ hmem)
      | cons z y =>
        exfalso
        have heq := h (a ++ q :: x').length (by simp)
        rw [hkept, hnil, List.append_nil, List.getD_eq_default _ _ (by simp), hat, hat] at heq
        have hpz : p = z := heq
        exact hy (hpz ▸ List.mem_cons_self)
    · refine ⟨a, q :: rest, hnotMem hpr, ha, hreject, fun hlast => hpr ?_⟩
      rw [hnotMem hpr]
      exact List.mem_append_right _ (List.dropLast_subset _ hlast)
  · have hpr : p ∉ r := by
      intro hpr
      have hlen : (r.filter (· ≠ p)).length < r.length :=
        List.length_filter_lt_length_iff_exists.mpr ⟨p, hpr, by simp⟩
      rw [hsplit, List.length_append, List.length_cons] at hlen
      omega
    have hle : (r.filter (· ≠ p)).length ≤ r.length := List.length_filter_le _ _
    rw [hsplit, List.length_append, List.length_cons] at hle
    have hlast : rest = [] := List.eq_nil_of_length_eq_zero (by omega)
    refine ⟨a, [q], ?_, ha, by simpa using hq, by simp⟩
    rw [hnotMem hpr, hlast]

theorem Separates.leftover {keep : α → Bool} {p : α} {r : List α} (h : Separates keep p r)
    (hp : keep p = false) (hc : r.count p ≤ 1) (d : α) :
    ∀ i < r.length - 1, (r.filter keep).getD i (r.getD i d) = (r.filter (· ≠ p)).getD i d := by
  intro i hi
  rcases h with hall | ⟨a, b, rfl, ha, hb, hlast⟩
  · have heq : r.filter keep = r.filter (· ≠ p) := by
      apply List.filter_congr
      intro q hq
      by_cases hqp : q = p
      · simp [hqp, hp]
      · simp [hqp, hall q hq hqp]
    have hlen := length_filter_ne hc
    rw [heq, List.getD_eq_getElem _ _ (by omega), List.getD_eq_getElem _ _ (by omega)]
  · -- nothing moves
    have hpa : p ∉ a := fun hpa => by
      rw [ha p hpa] at hp
      exact absurd hp (by simp)
    have hkept : (a ++ b).filter keep = a := by
      rw [List.filter_append, List.filter_eq_self.mpr ha, List.filter_eq_nil_iff.mpr fun q hq => by simp [hb q hq],
        List.append_nil]
    have hstay : a.getD i ((a ++ b).getD i d) = (a ++ b).getD i d := by
      rcases Nat.lt_or_ge i a.length with hlt | hge
      · rw [List.getD_append _ _ _ _ hlt, List.getD_eq_getElem _ _ hlt, List.getD_eq_getElem _ _ hlt]
      · rw [List.getD_eq_default _ _ hge]
    have hself : ∀ l : List α, p ∉ l → l.filter (· ≠ p) = l := fun l hl =>
      List.filter_eq_self.mpr fun q hq => by simpa using fun hqp : q = p => hl (hqp ▸ hq)
    rw [hkept, hstay]
    rcases List.eq_nil_or_concat b with rfl | ⟨b, q, rfl⟩
    · rw [List.append_nil, hself a hpa]
    · rw [List.concat_eq_append] at hlast hi ⊢
      rw [List.dropLast_concat] at hlast
      have hab : p ∉ a ++ b := fun hmem => (List.mem_append.mp hmem).elim hpa hlast
      rw [← List.append_assoc] at hi ⊢
      rw [List.filter_append, hself _ hab]
      rw [List.length_append, List.length_singleton, Nat.add_sub_cancel] at hi
      rw [List.getD_append _ _ _ _ hi, List.getD_append _ _ _ _ hi]

/-! ## The list with the element -/

/-- The list that holds `p` at index `a`, the elements that followed behind it, and
`p` no second time. -/
def moved (a : ℕ) (p : α) (l : List α) : List α :=
  (l.take a ++ p :: (l.drop a).filter (· ≠ p)).take l.length

variable {keep : α → Bool} {a n : ℕ} {p : α} {cells : ℕ → α}

theorem length_moved (hc : ((front n cells).drop a).count p ≤ 1) :
    (moved a p (front n cells)).length = n := by
  have hfilter := length_filter_ne hc
  unfold moved
  simp only [List.length_take, List.length_append, List.length_cons, List.length_drop,
    length_front] at hfilter ⊢
  omega

/-- The test does what it is to do if and only if it separates `p` from what
follows its new place. -/
theorem front_insertAt_iff (hp : keep p = false) (hc : ((front n cells).drop a).count p ≤ 1) :
    front n (insertAt keep a n p cells) = moved a p (front n cells) ↔
      Separates keep p ((front n cells).drop a) := by
  have hlen : ((front n cells).drop a).length = n - a := by rw [List.length_drop, length_front]
  have hleft : ∀ i < ((front n cells).drop a).length - 1, (front n (insertAt keep a n p cells))[a + 1 + i]? =
      some ((((front n cells).drop a).filter keep).getD i (((front n cells).drop a).getD i p)) := by
    intro i hi
    have hin : a + 1 + i < (front n (insertAt keep a n p cells)).length := by
      rw [length_front]
      omega
    have hget : ((front n cells).drop a).getD i p = cells (a + i) := by
      rw [List.getD_eq_getElem _ _ (by omega), List.getElem_drop, getElem_front]
    rw [List.getElem?_eq_getElem hin, getElem_front, insertAt_of_lt (by omega), hget]
  have hright : ∀ i < ((front n cells).drop a).length - 1, (moved a p (front n cells))[a + 1 + i]? =
      some ((((front n cells).drop a).filter (· ≠ p)).getD i p) := by
    intro i hi
    have hfilter := length_filter_ne hc
    have htake : ((front n cells).take a).length = a := by
      rw [List.length_take, length_front]
      omega
    unfold moved
    rw [List.getElem?_take_of_lt (by rw [length_front]; omega), List.getElem?_append_right (by omega),
      htake, show a + 1 + i - a = i + 1 by omega, List.getElem?_cons_succ,
      List.getD_eq_getElem _ _ (by omega), List.getElem?_eq_getElem]
  constructor
  · intro h
    refine separates_of_leftover hp hc (d := p) fun i hi => ?_
    have heq := (hleft i hi).symm.trans (h ▸ hright i hi)
    exact Option.some.inj heq
  · intro h
    apply List.ext_getElem?
    intro j
    rcases Nat.lt_or_ge j n with hjn | hjn
    · have hin : j < (front n (insertAt keep a n p cells)).length := by rwa [length_front]
      rcases Nat.lt_or_ge a j with hlt | hle
      · obtain ⟨i, rfl⟩ : ∃ i, j = a + 1 + i := ⟨j - (a + 1), by omega⟩
        rw [hleft i (by omega), hright i (by omega)]
        exact congrArg some (h.leftover hp hc p i (by omega))
      · have htake : ((front n cells).take a).length = min a n := by
          rw [List.length_take, length_front]
        rw [List.getElem?_eq_getElem hin, getElem_front, insertAt_of_le hle]
        unfold moved
        rw [List.getElem?_take_of_lt (by rwa [length_front])]
        by_cases hja : j = a
        · rw [if_pos hja, hja, List.getElem?_append_right (by omega), htake,
            Nat.min_eq_left (by omega), Nat.sub_self]
          rfl
        · have hjf : j < (front n cells).length := by rwa [length_front]
          rw [if_neg hja, List.getElem?_append_left (by omega), List.getElem?_take_of_lt (by omega),
            List.getElem?_eq_getElem hjf, getElem_front]
    · rw [List.getElem?_eq_none (by rwa [length_front]), List.getElem?_eq_none]
      rwa [length_moved hc]

end InPlaceLists
