import Mathlib.Order.Interval.Finset.Basic
import Mathlib.Data.Int.Interval
import Mathlib.Data.List.Basic
import Mathlib.Tactic.Common

/-!
# Windows ahead of a position

Elements come in the order of their keys.  A queue holds the next ones, up to
`la` of them and no further than the first one at or behind the position plus
`la`; the position moves on by one.  The element at the end of the window is in
the queue as soon as some key in front of it is missing.
-/

namespace AheadWindows

variable {α : Type*} {key : α → ℤ} {la t : ℤ} {all q cs : List α} {x : α}

def Increasing (key : α → ℤ) (l : List α) : Prop := l.Pairwise fun x y => key x < key y

/-- `q` is queued at position `t`, and `cs` is still to come. -/
structure Window (key : α → ℤ) (la t : ℤ) (all q cs : List α) : Prop where
  split : q ++ cs = all.filter (t ≤ key ·)
  length_le : (q.length : ℤ) ≤ la
  short : ∀ x ∈ q.dropLast, key x < t + la

/-- Nothing more is to be queued. -/
def Filled (key : α → ℤ) (la t : ℤ) (q cs : List α) : Prop :=
  (q.length : ℤ) = la ∨ (∃ x ∈ q.getLast?, t + la ≤ key x) ∨ cs = []

theorem Increasing.filter_eq_dropWhile (h : Increasing key q) :
    q.filter (t ≤ key ·) = q.dropWhile (key · < t) := by
  induction q with
  | nil => rfl
  | cons x q ih =>
    obtain ⟨hx, hq⟩ := List.pairwise_cons.1 h
    by_cases hlt : key x < t
    · have hle : ¬t ≤ key x := not_le.2 hlt
      simp [hlt, hle, ih hq]
    · have hle : t ≤ key x := not_lt.1 hlt
      have hself : q.filter (t ≤ key ·) = q := by
        apply List.filter_eq_self.2
        intro y hy
        exact decide_eq_true (hle.trans (hx y hy).le)
      simp [hlt, hle, hself]

theorem Increasing.nodup_map (h : Increasing key q) : (q.map key).Nodup := by
  apply List.Pairwise.map key _ h
  intro x y hxy
  exact hxy.ne

theorem Increasing.eq_of_key {y : α} (h : Increasing key q) (hx : x ∈ q) (hy : y ∈ q)
    (hxy : key x = key y) : x = y :=
  List.inj_on_of_nodup_map h.nodup_map hx hy hxy

namespace Window

theorem mem_iff (h : Window key la t all q cs) : x ∈ q ++ cs ↔ x ∈ all ∧ t ≤ key x := by
  rw [h.split, List.mem_filter, decide_eq_true_iff]

theorem increasing (h : Window key la t all q cs) (hall : Increasing key all) :
    Increasing key (q ++ cs) := by
  rw [h.split]
  exact hall.filter _

theorem nil_of_filled (hf : Filled key la t [] cs) (hla : 1 ≤ la) : cs = [] := by
  rcases hf with hlen | ⟨x, hx, -⟩ | hcs
  · rw [List.length_nil, Nat.cast_zero] at hlen
    omega
  · cases hx
  · exact hcs

theorem start (hla : 1 ≤ la) (h : ∀ x ∈ all, 0 ≤ key x) : Window key la 0 all [] all where
  split := by
    refine (List.filter_eq_self.2 ?_).symm
    intro x hx
    exact decide_eq_true (h x hx)
  length_le := by
    rw [List.length_nil, Nat.cast_zero]
    omega
  short := by
    intro x hx
    cases hx

theorem push {c : α} (h : Window key la t all q (c :: cs)) (hall : Increasing key all)
    (hlen : (q.length : ℤ) < la) (hlast : ∀ x ∈ q.getLast?, key x < t + la) :
    Window key la t all (q ++ [c]) cs where
  split := by rw [List.append_assoc, List.singleton_append, h.split]
  length_le := by
    rw [List.length_append, List.length_singleton, Nat.cast_add, Nat.cast_one]
    exact hlen
  short := by
    intro x hx
    rw [List.dropLast_concat] at hx
    have hq : Increasing key q := ((h.increasing hall).sublist (List.sublist_append_left q _))
    cases hl : q.getLast? with
    | none => rw [List.getLast?_eq_none_iff.1 hl] at hx; cases hx
    | some y =>
      have hy := hlast y hl
      obtain ⟨q', rfl⟩ := List.getLast?_eq_some_iff.1 hl
      rcases List.mem_append.1 hx with hx | hx
      · exact (List.pairwise_append.1 hq).2.2 x hx y (List.mem_singleton_self y) |>.trans hy
      · exact List.mem_singleton.1 hx ▸ hy

theorem le_key (h : Window key la t all q cs) (hx : x ∈ q) : t ≤ key x :=
  (h.mem_iff.1 (List.mem_append_left _ hx)).2

theorem head_iff (h : Window key la t all q cs) (hall : Increasing key all)
    (hf : Filled key la t q cs) (hla : 1 ≤ la) :
    x ∈ all ∧ key x = t ↔ q.head? = some x ∧ key x = t := by
  constructor
  · rintro ⟨hx, hkey⟩
    have hmem : x ∈ q ++ cs := h.mem_iff.2 ⟨hx, hkey.ge⟩
    cases q with
    | nil => rw [nil_of_filled hf hla] at hmem; cases hmem
    | cons y q =>
      have hy : t ≤ key y := h.le_key List.mem_cons_self
      rcases List.mem_cons.1 hmem with rfl | hmem
      · exact ⟨rfl, hkey⟩
      · have hlt := (List.pairwise_cons.1 (h.increasing hall)).1 x hmem
        omega
  · rintro ⟨hx, hkey⟩
    exact ⟨(h.mem_iff.1 (List.mem_append_left _ (List.mem_of_mem_head? hx))).1, hkey⟩

/-- The element at the end of the window is the last one in the queue just when
some key of the window is missing. -/
theorem last_iff (h : Window key la t all q cs) (hall : Increasing key all)
    (hf : Filled key la t q cs) (hx : x ∈ all) (hkey : key x = t + la) (hla : 1 ≤ la) :
    q.getLast? = some x ↔ ∃ g, t ≤ g ∧ g < t + la ∧ ∀ y ∈ all, key y ≠ g := by
  have hinc := h.increasing hall
  have hcard : (Finset.Ico t (t + la)).card = la.toNat := by rw [Int.card_Ico]; congr 1; omega
  have hlen := h.length_le
  constructor
  · intro hlast
    by_contra hdense
    push Not at hdense
    obtain ⟨q', rfl⟩ := List.getLast?_eq_some_iff.1 hlast
    -- every key of the window stands in front of `x`
    have hsub : Finset.Ico t (t + la) ⊆ (q'.map key).toFinset := by
      intro g hg
      obtain ⟨hge, hlt⟩ := Finset.mem_Ico.1 hg
      obtain ⟨y, hy, rfl⟩ := hdense g hge hlt
      rw [List.mem_toFinset]
      apply List.mem_map_of_mem
      have hmem := h.mem_iff.2 ⟨hy, hge⟩
      rw [List.append_assoc] at hmem hinc
      rcases List.mem_append.1 hmem with hq | hrest
      · exact hq
      · rcases List.mem_cons.1 hrest with rfl | hcs
        · omega
        · have hpair := (List.pairwise_append.1 hinc).2.1
          have := (List.pairwise_cons.1 hpair).1 y hcs
          omega
    have hle := (Finset.card_le_card hsub).trans (List.toFinset_card_le _)
    rw [List.length_map, hcard] at hle
    rw [List.length_append, List.length_singleton, Nat.cast_add] at hlen
    omega
  · rintro ⟨g, hge, hlt, hmiss⟩
    rcases List.mem_append.1 (h.mem_iff.2 ⟨hx, by omega⟩) with hq | hcs
    · -- what stands in front of the last one is nearer
      cases hl : q.getLast? with
      | none => rw [List.getLast?_eq_none_iff.1 hl] at hq; cases hq
      | some y =>
        obtain ⟨q', rfl⟩ := List.getLast?_eq_some_iff.1 hl
        rcases List.mem_append.1 hq with hq' | hxy
        · have := h.short x (by rw [List.dropLast_concat]; exact hq')
          omega
        · rw [List.mem_singleton.1 hxy]
    · -- the queue is full, of keys in the window other than the missing one
      exfalso
      have hbefore : ∀ y ∈ q, key y < key x := fun y hy => (List.pairwise_append.1 hinc).2.2 y hy x hcs
      have hfull : (q.length : ℤ) = la := by
        rcases hf with hlen | ⟨y, hy, hkeyy⟩ | rfl
        · exact hlen
        · have := hbefore y (List.mem_of_mem_getLast? hy)
          omega
        · cases hcs
      have hq : Increasing key q := hinc.sublist (List.sublist_append_left _ _)
      have hsub : (q.map key).toFinset ⊆ (Finset.Ico t (t + la)).erase g := by
        intro k hk
        obtain ⟨y, hy, rfl⟩ := List.mem_map.1 (List.mem_toFinset.1 hk)
        have hall' := (h.mem_iff.1 (List.mem_append_left _ hy)).1
        rw [Finset.mem_erase, Finset.mem_Ico]
        exact ⟨hmiss y hall', h.le_key hy, hkey ▸ hbefore y hy⟩
      have hle := Finset.card_le_card hsub
      rw [List.toFinset_card_of_nodup hq.nodup_map, List.length_map,
        Finset.card_erase_of_mem (Finset.mem_Ico.2 ⟨hge, hlt⟩), hcard] at hle
      omega

/-- Nothing is at the position and nothing at the end of the window. -/
theorem stay (h : Window key la t all q cs) (hall : Increasing key all)
    (hf : Filled key la t q cs) (hla : 1 ≤ la) (hhead : ∀ x ∈ q.head?, key x ≠ t)
    (hlast : ∀ x ∈ q.getLast?, key x ≠ t + la) :
    Window key la (t + 1) all q cs ∧ Filled key la (t + 1) q cs := by
  refine ⟨⟨?_, h.length_le, ?_⟩, ?_⟩
  · rw [h.split]
    apply List.filter_congr
    intro x hx
    have hne : key x ≠ t := fun hkey =>
      hhead x ((h.head_iff hall hf hla).1 ⟨hx, hkey⟩).1 hkey
    exact decide_eq_decide.2 ⟨fun hle => by omega, fun hle => by omega⟩
  · intro x hx
    have := h.short x hx
    omega
  · rcases hf with hlen | ⟨x, hx, hle⟩ | hcs
    · exact .inl hlen
    · have := hlast x hx
      exact .inr (.inl ⟨x, hx, by omega⟩)
    · exact .inr (.inr hcs)

/-- The position moves on and what lies behind it is dropped. -/
theorem pop (h : Window key la t all q cs) (hall : Increasing key all)
    (hf : Filled key la t q cs) (hla : 1 ≤ la) :
    Window key la (t + 1) all (q.dropWhile (key · < t + 1)) cs := by
  have hinc := h.increasing hall
  have hq : Increasing key q := hinc.sublist (List.sublist_append_left _ _)
  refine ⟨?_, ?_, ?_⟩
  · have hcs : cs.filter (t + 1 ≤ key ·) = cs := by
      apply List.filter_eq_self.2
      intro y hy
      cases q with
      | nil => rw [nil_of_filled hf hla] at hy; cases hy
      | cons z q =>
        have hz := h.le_key List.mem_cons_self
        have hlt := (List.pairwise_cons.1 hinc).1 y (List.mem_append_right _ hy)
        exact decide_eq_true (by omega)
    have htwice : all.filter (t + 1 ≤ key ·) = (all.filter (t ≤ key ·)).filter (t + 1 ≤ key ·) := by
      rw [List.filter_filter]
      apply List.filter_congr
      intro x _
      by_cases hx : t + 1 ≤ key x
      · have hx' : t ≤ key x := by omega
        simp [hx, hx']
      · simp [hx]
    rw [htwice, ← h.split, List.filter_append, hcs, hq.filter_eq_dropWhile]
  · have hle : ((q.dropWhile (key · < t + 1)).length : ℤ) ≤ q.length :=
      Int.ofNat_le.2 (List.dropWhile_suffix _).length_le
    exact hle.trans h.length_le
  · intro x hx
    have hmem : x ∈ q.dropLast := by
      obtain ⟨p, hp⟩ := List.dropWhile_suffix (key · < t + 1) (l := q)
      rw [← hp, List.dropLast_append_of_ne_nil (List.ne_nil_of_mem (List.mem_of_mem_dropLast hx))]
      exact List.mem_append_right p hx
    have := h.short x hmem
    omega

end Window

end AheadWindows
