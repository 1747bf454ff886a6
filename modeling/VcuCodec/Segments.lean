import Mathlib.Data.List.Basic
import Mathlib.Tactic.Common

/-!
# Segments of a list

Some elements of a list count, and the others stand between them.  A new segment begins
at a counted element that opens it, and at the counted element behind a cut.  `segments`
goes over the whole list; `firstCut` looks for the end of the first segment only.
-/

namespace Segments

variable {α : Type*} (counts opens cuts : α → Bool)

/-- The segments of a list behind the elements of the current segment. -/
def segmentsFrom : List α → (cur : List α) → (cut : Bool) → List (List α)
  | [], cur, _ => if cur.isEmpty then [] else [cur]
  | x :: xs, cur, cut =>
    if counts x then
      if !cur.isEmpty && (opens x || cut) then cur :: segmentsFrom xs [x] false
      else segmentsFrom xs (cur ++ [x]) false
    else segmentsFrom xs cur (cut || cuts x)

/-- The counted elements of a list, segment by segment. -/
def segments (xs : List α) : List (List α) := segmentsFrom counts opens cuts xs [] false

/-- The element ends a segment in front of it. -/
def ends (x : α) : Bool := if counts x then opens x else cuts x

/-- The length of the list up to the element that ends the first segment. -/
def firstCut : List α → (seen : Bool) → Option ℕ
  | [], _ => none
  | x :: xs, seen =>
    if seen && ends counts opens cuts x then some 0
    else (firstCut xs (seen || counts x)).map (· + 1)

variable {counts opens cuts} {xs ys cur : List α} {x : α} {seen cut : Bool} {k : ℕ}

/-- In front of the first counted element a cut has no effect. -/
theorem segmentsFrom_nil : segmentsFrom counts opens cuts xs [] cut = segments counts opens cuts xs := by
  unfold segments
  induction xs generalizing cut with
  | nil => rfl
  | cons x xs ih =>
    unfold segmentsFrom
    by_cases hx : counts x = true
    · simp [hx]
    · simp only [hx, if_false, Bool.false_eq_true]
      rw [ih]
      exact ih.symm

theorem segmentsFrom_cut (hcur : cur ≠ []) :
    segmentsFrom counts opens cuts xs cur true = cur :: segments counts opens cuts xs := by
  have hne : cur.isEmpty = false := List.isEmpty_eq_false_iff.mpr hcur
  induction xs with
  | nil => simp [segmentsFrom, segments, hne]
  | cons x xs ih =>
    unfold segments segmentsFrom
    by_cases hx : counts x = true
    · simp [hx, hne]
    · simp only [hx, if_false, Bool.false_eq_true, Bool.true_or]
      rw [ih, segmentsFrom_nil]

theorem segmentsFrom_firstCut (cur : List α) (h : firstCut counts opens cuts xs seen = some k)
    (hseen : seen = !cur.isEmpty) :
    segmentsFrom counts opens cuts xs cur false =
      (cur ++ (xs.take k).filter counts) :: segments counts opens cuts (xs.drop k) := by
  induction xs generalizing cur seen k with
  | nil => exact absurd h (by simp [firstCut])
  | cons x xs ih =>
    unfold firstCut at h
    split at h
    · next hend =>
      obtain rfl := Option.some.inj h
      obtain ⟨hs, hx⟩ := Bool.and_eq_true_iff.mp hend
      have hne : cur.isEmpty = false := by
        rw [hs] at hseen
        simpa using hseen.symm
      rw [List.take_zero, List.filter_nil, List.append_nil, List.drop_zero]
      unfold segments segmentsFrom
      unfold ends at hx
      by_cases hc : counts x = true
      · rw [if_pos hc] at hx
        simp [hc, hx, hne]
      · rw [if_neg hc] at hx
        simp only [hc, if_false, hx, Bool.false_eq_true, Bool.or_true]
        rw [segmentsFrom_cut (List.isEmpty_eq_false_iff.mp hne), segmentsFrom_nil]
    · next hend =>
      obtain ⟨k, hk, rfl⟩ := Option.map_eq_some_iff.mp h
      rw [List.take_succ_cons, List.drop_succ_cons]
      unfold segmentsFrom
      by_cases hc : counts x = true
      · have hopen : (!cur.isEmpty && (opens x || false)) = false := by
          rw [ends, if_pos hc, hseen] at hend
          simpa using hend
        rw [if_pos hc, hopen, if_neg Bool.false_ne_true, List.filter_cons_of_pos hc]
        have hk' : (seen || counts x) = !(cur ++ [x]).isEmpty := by
          rw [hc, Bool.or_true]
          cases cur <;> rfl
        rw [ih _ hk hk', List.append_assoc]
        rfl
      · rw [if_neg hc, List.filter_cons_of_neg hc]
        have hk' : (seen || counts x) = !cur.isEmpty := by
          simpa [hc] using hseen
        cases hempty : cur.isEmpty with
        | true =>
          obtain rfl := List.isEmpty_iff.mp hempty
          rw [segmentsFrom_nil]
          exact ih _ hk hk'
        | false =>
          have hcut : cuts x = false := by
            rw [ends, if_neg hc, hseen, hempty] at hend
            simpa using hend
          rw [hcut]
          exact ih _ hk hk'

theorem segments_firstCut (h : firstCut counts opens cuts xs false = some k) :
    segments counts opens cuts xs =
      (xs.take k).filter counts :: segments counts opens cuts (xs.drop k) := by
  unfold segments
  rw [segmentsFrom_firstCut [] h rfl]
  rfl

/-- A cut is found again in a longer list, the last element of which may open more. -/
theorem firstCut_extend {y : α} (hcounts : counts y = counts x) (hcuts : cuts y = cuts x)
    (hopens : opens x = true → opens y = true)
    (h : firstCut counts opens cuts (xs ++ [x]) seen = some k) :
    firstCut counts opens cuts (xs ++ y :: ys) seen = some k := by
  induction xs generalizing seen k with
  | nil =>
    simp only [List.nil_append, firstCut, Option.map_none] at h ⊢
    split at h
    · next hend =>
      obtain ⟨hs, hx⟩ := Bool.and_eq_true_iff.mp hend
      rw [if_pos, h]
      rw [hs, Bool.true_and]
      unfold ends at hx ⊢
      rw [hcounts, hcuts]
      by_cases hc : counts x = true
      · rw [if_pos hc] at hx ⊢
        exact hopens hx
      · rw [if_neg hc] at hx ⊢
        exact hx
    · exact absurd h (by simp)
  | cons z xs ih =>
    simp only [List.cons_append, firstCut] at h ⊢
    split at h
    · next hend => rw [if_pos hend, h]
    · next hend =>
      rw [if_neg hend]
      obtain ⟨k, hk, rfl⟩ := Option.map_eq_some_iff.mp h
      rw [ih hk]
      rfl

theorem firstCut_map {β : Type*} {counts opens cuts : β → Bool} {f : α → β} :
    firstCut counts opens cuts (xs.map f) seen = firstCut (counts ∘ f) (opens ∘ f) (cuts ∘ f) xs seen := by
  induction xs generalizing seen with
  | nil => rfl
  | cons x xs ih =>
    simp only [List.map_cons, firstCut, ih]
    rfl

theorem firstCut_congr {counts' opens' cuts' : α → Bool}
    (h : ∀ x ∈ xs, counts x = counts' x ∧ opens x = opens' x ∧ cuts x = cuts' x) :
    firstCut counts opens cuts xs seen = firstCut counts' opens' cuts' xs seen := by
  induction xs generalizing seen with
  | nil => rfl
  | cons x xs ih =>
    obtain ⟨hc, ho, hu⟩ := h x List.mem_cons_self
    have hends : ends counts opens cuts x = ends counts' opens' cuts' x := by
      unfold ends
      rw [hc, ho, hu]
    unfold firstCut
    rw [hends, hc, ih fun y hy => h y (List.mem_cons_of_mem x hy)]

/-! ## Pieces of segments -/

theorem firstCut_concat (h : firstCut counts opens cuts xs seen = none)
    (hx : ends counts opens cuts x = false) : firstCut counts opens cuts (xs ++ [x]) seen = none := by
  induction xs generalizing seen with
  | nil => simp [firstCut, hx]
  | cons y xs ih =>
    rw [List.cons_append, firstCut]
    unfold firstCut at h
    split at h
    · exact absurd h (Option.some_ne_none 0)
    · next hend =>
      rw [if_neg hend, ih (Option.map_eq_none_iff.mp h)]
      rfl

theorem segmentsFrom_append (xs : List α) (cur : List α) (cut : Bool) :
    ∃ done cur' cut', ∀ ys, segmentsFrom counts opens cuts (xs ++ ys) cur cut =
      done ++ segmentsFrom counts opens cuts ys cur' cut' := by
  induction xs generalizing cur cut with
  | nil => exact ⟨[], cur, cut, fun _ => rfl⟩
  | cons x xs ih =>
    simp only [List.cons_append, segmentsFrom]
    by_cases hx : counts x = true
    · simp only [if_pos hx]
      by_cases ho : (!cur.isEmpty && (opens x || cut)) = true
      · simp only [if_pos ho]
        obtain ⟨done, cur', cut', h⟩ := ih [x] false
        exact ⟨cur :: done, cur', cut', fun ys => congrArg _ (h ys)⟩
      · simp only [if_neg ho]
        exact ih _ _
    · simp only [if_neg hx]
      exact ih _ _

theorem exists_prefix (hcur : cur ≠ []) : ∃ seg ∈ segmentsFrom counts opens cuts xs cur cut, cur <+: seg := by
  have hne : cur.isEmpty = false := List.isEmpty_eq_false_iff.mpr hcur
  induction xs generalizing cur cut with
  | nil => exact ⟨cur, by simp [segmentsFrom, hne], List.prefix_refl cur⟩
  | cons x xs ih =>
    unfold segmentsFrom
    by_cases hx : counts x = true
    · rw [if_pos hx]
      split
      · exact ⟨cur, List.mem_cons_self, List.prefix_refl cur⟩
      · have happ : cur ++ [x] ≠ [] := List.append_ne_nil_of_left_ne_nil hcur [x]
        obtain ⟨seg, hseg, hpre⟩ := ih happ (List.isEmpty_eq_false_iff.mpr happ)
        exact ⟨seg, hseg, (List.prefix_append cur [x]).trans hpre⟩
    · rw [if_neg hx]
      exact ih hcur hne

/-- Up to the next end everything goes to the current segment. -/
theorem segmentsFrom_uncut (h : firstCut counts opens cuts xs true = none) (hcur : cur ≠ []) :
    segmentsFrom counts opens cuts (xs ++ ys) cur false =
      segmentsFrom counts opens cuts ys (cur ++ xs.filter counts) false := by
  induction xs generalizing cur with
  | nil => rw [List.nil_append, List.filter_nil, List.append_nil]
  | cons x xs ih =>
    unfold firstCut at h
    split at h
    · exact absurd h (Option.some_ne_none 0)
    · next hend =>
      rw [Bool.true_or] at h
      have hrest := Option.map_eq_none_iff.mp h
      rw [Bool.true_and] at hend
      rw [List.cons_append, segmentsFrom]
      unfold ends at hend
      by_cases hx : counts x = true
      · rw [if_pos hx, Bool.not_eq_true] at hend
        rw [if_pos hx, hend, Bool.or_false, Bool.and_false, if_neg Bool.false_ne_true,
          List.filter_cons_of_pos hx, ih hrest (List.append_ne_nil_of_left_ne_nil hcur [x]),
          List.append_assoc]
        rfl
      · rw [if_neg hx, Bool.not_eq_true] at hend
        rw [if_neg hx, hend, Bool.or_false, List.filter_cons_of_neg hx, ih hrest hcur]

theorem segmentsFrom_infix (h : firstCut counts opens cuts xs false = none) (hany : xs.any counts = true) :
    ∃ seg ∈ segmentsFrom counts opens cuts (xs ++ ys) cur cut, xs.filter counts <:+: seg := by
  induction xs generalizing cur cut with
  | nil => exact absurd hany (by simp)
  | cons x xs ih =>
    unfold firstCut at h
    rw [Bool.false_and, if_neg Bool.false_ne_true, Bool.false_or, Option.map_eq_none_iff] at h
    rw [List.cons_append, segmentsFrom]
    by_cases hx : counts x = true
    · rw [hx] at h
      rw [if_pos hx, List.filter_cons_of_pos hx]
      split
      · rw [segmentsFrom_uncut h (List.cons_ne_nil x [])]
        obtain ⟨seg, hseg, hpre⟩ := exists_prefix (List.append_ne_nil_of_left_ne_nil (List.cons_ne_nil x [])
          (xs.filter counts))
        exact ⟨seg, List.mem_cons_of_mem cur hseg, hpre.isInfix⟩
      · have happ : cur ++ [x] ≠ [] := List.append_ne_nil_of_right_ne_nil cur (List.cons_ne_nil x [])
        rw [segmentsFrom_uncut h happ, List.append_assoc]
        obtain ⟨seg, hseg, hpre⟩ := exists_prefix (List.append_ne_nil_of_right_ne_nil cur
          (List.append_ne_nil_of_left_ne_nil (List.cons_ne_nil x []) (xs.filter counts)))
        exact ⟨seg, hseg, (List.suffix_append cur _).isInfix.trans hpre.isInfix⟩
    · rw [Bool.not_eq_true] at hx
      rw [hx] at h
      rw [hx, if_neg Bool.false_ne_true, List.filter_cons_of_neg (by rw [hx]; exact Bool.false_ne_true)]
      rw [List.any_cons, hx, Bool.false_or] at hany
      exact ih h hany

theorem segments_infix {pre : List α} (h : firstCut counts opens cuts xs false = none)
    (hany : xs.any counts = true) :
    ∃ seg ∈ segments counts opens cuts (pre ++ (xs ++ ys)), xs.filter counts <:+: seg := by
  obtain ⟨done, cur, cut, happ⟩ := @segmentsFrom_append α counts opens cuts pre [] false
  obtain ⟨seg, hseg, hin⟩ : ∃ seg ∈ segmentsFrom counts opens cuts (xs ++ ys) cur cut,
      xs.filter counts <:+: seg := segmentsFrom_infix h hany
  refine ⟨seg, ?_, hin⟩
  unfold segments
  rw [happ]
  exact List.mem_append_right done hseg

end Segments
