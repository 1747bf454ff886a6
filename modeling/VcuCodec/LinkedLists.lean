import Mathlib.Data.List.Induction
import Mathlib.Data.List.Nodup
import Mathlib.Order.Lattice
import Mathlib.Tactic.Common

/-!
# Index-linked lists

A doubly linked list threaded through an array is a head index and two link
functions `next` and `prev`; the index `nil` closes the list on both sides.
`Threaded` says that the links spell out a given list of indices, and the
theorems below say what unlinking a node, linking one in and moving one do to
that list.  `pairwise_insert` is insertion into a sorted list, and `whileLinked`
is the loop that walks such a list while its body changes the state the links
are stored in.
-/

namespace LinkedLists

variable {ι : Type*} {nil : ι} {next prev next' prev' : ι → ι}

/-- The links of a segment `l` whose neighbours are `p` before and `q` after. -/
def Segment (next prev : ι → ι) : ι → List ι → ι → Prop
  | _, [], _ => True
  | p, x :: xs, q => prev x = p ∧ next x = xs.headD q ∧ Segment next prev x xs q

namespace Segment

variable {p q r : ι} {l xs ys : List ι}

theorem append : Segment next prev p (xs ++ ys) q ↔
    Segment next prev p xs (ys.headD q) ∧ Segment next prev (xs.getLastD p) ys q := by
  induction xs generalizing p with
  | nil => simp [Segment]
  | cons x xs ih =>
    have hh : (xs ++ ys).headD q = xs.headD (ys.headD q) := by cases xs <;> simp
    rw [List.cons_append, Segment, Segment, ih, hh, List.getLastD_cons]
    simp only [and_assoc]

theorem congr (h : Segment next prev p l q) (hn : ∀ i ∈ l, next' i = next i)
    (hp : ∀ i ∈ l, prev' i = prev i) : Segment next' prev' p l q := by
  induction l generalizing p with
  | nil => trivial
  | cons x xs ih =>
    refine ⟨?_, ?_, ih h.2.2 (fun i hi => hn i (by simp [hi])) (fun i hi => hp i (by simp [hi]))⟩
    · rw [hp x (by simp), h.1]
    · rw [hn x (by simp), h.2.1]

theorem reroute_next [DecidableEq ι] (h : Segment next prev p l q) (hnd : l.Nodup)
    (hn : ∀ i ∈ l, next' i = if i = l.getLastD nil then r else next i)
    (hp : ∀ i ∈ l, prev' i = prev i) : Segment next' prev' p l r := by
  induction l generalizing p nil with
  | nil => trivial
  | cons x xs ih =>
    rw [List.nodup_cons] at hnd
    refine ⟨by rw [hp x (by simp), h.1], ?_, @ih x x h.2.2 hnd.2 ?_ ?_⟩
    · rw [hn x (by simp), List.getLastD_cons]
      cases xs with
      | nil => simp
      | cons y ys =>
        have hne : x ≠ (y :: ys).getLastD x := by
          intro he
          have hm : (y :: ys).getLastD x ∈ y :: ys := by
            rw [List.getLastD_cons]
            exact List.getLastD_mem_cons
          exact hnd.1 (he ▸ hm)
        rw [if_neg hne, h.2.1]
        simp
    · intro i hi
      rw [hn i (by simp [hi]), List.getLastD_cons]
    · intro i hi
      exact hp i (by simp [hi])

theorem reroute_prev [DecidableEq ι] (h : Segment next prev p l q) (hnd : l.Nodup)
    (hn : ∀ i ∈ l, next' i = next i)
    (hp : ∀ i ∈ l, prev' i = if i = l.headD nil then r else prev i) :
    Segment next' prev' r l q := by
  cases l with
  | nil => trivial
  | cons x xs =>
    rw [List.nodup_cons] at hnd
    refine ⟨by rw [hp x (by simp)]; simp, by rw [hn x (by simp), h.2.1], h.2.2.congr ?_ ?_⟩
    · intro i hi
      exact hn i (by simp [hi])
    · intro i hi
      have hne : i ≠ x := fun e => hnd.1 (e ▸ hi)
      rw [hp i (by simp [hi])]
      simp [hne]

end Segment

/-- The links spell out `l`, which has no repeated index and is closed by
`nil` at both ends. -/
structure Threaded (nil : ι) (next prev : ι → ι) (l : List ι) : Prop where
  nodup : l.Nodup
  nil_notMem : nil ∉ l
  links : Segment next prev nil l nil

namespace Threaded

variable {l xs ys zs : List ι} {u t : ι}

theorem empty : Threaded nil next prev [] := ⟨List.nodup_nil, List.not_mem_nil, trivial⟩

theorem ne_nil (h : Threaded nil next prev l) (hu : u ∈ l) : u ≠ nil :=
  fun e => h.nil_notMem (e ▸ hu)

theorem headD_ne_nil (h : Threaded nil next prev l) (hl : l ≠ []) : l.headD nil ≠ nil := by
  cases l with
  | nil => exact absurd rfl hl
  | cons x xs => exact h.ne_nil (by simp)

/-! ## Reading the links -/

theorem next_eq (h : Threaded nil next prev (xs ++ u :: ys)) : next u = ys.headD nil :=
  (Segment.append.mp h.links).2.2.1

theorem prev_eq (h : Threaded nil next prev (xs ++ u :: ys)) : prev u = xs.getLastD nil :=
  (Segment.append.mp h.links).2.1

theorem congr (h : Threaded nil next prev l) (hn : ∀ i ∈ l, next' i = next i)
    (hp : ∀ i ∈ l, prev' i = prev i) : Threaded nil next' prev' l :=
  ⟨h.nodup, h.nil_notMem, h.links.congr hn hp⟩

/-! ## The ends of the list when a node leaves -/

theorem notMem_of_middle (h : Threaded nil next prev (xs ++ u :: ys)) : u ∉ xs ∧ u ∉ ys := by
  have hnd := h.nodup
  rw [List.nodup_middle, List.nodup_cons, List.mem_append, not_or] at hnd
  exact hnd.1

theorem erase_middle [DecidableEq ι] (h : Threaded nil next prev (xs ++ u :: ys)) :
    (xs ++ u :: ys).erase u = xs ++ ys := by
  rw [List.erase_append_right _ h.notMem_of_middle.1, List.erase_cons_head]

theorem headD_erase [DecidableEq ι] (h : Threaded nil next prev l) (hu : u ∈ l) :
    (l.erase u).headD nil = if l.headD nil = u then next u else l.headD nil := by
  obtain ⟨xs, ys, rfl⟩ := List.append_of_mem hu
  rw [h.erase_middle, h.next_eq]
  cases xs with
  | nil => simp
  | cons x xs =>
    have hx : x ≠ u := fun e => h.notMem_of_middle.1 (by simp [e])
    simp [hx]

theorem getLastD_erase [DecidableEq ι] (h : Threaded nil next prev l) (hu : u ∈ l) :
    (l.erase u).getLastD nil = if next u ≠ nil then l.getLastD nil else prev u := by
  obtain ⟨xs, ys, rfl⟩ := List.append_of_mem hu
  rw [h.erase_middle, h.next_eq, h.prev_eq]
  cases ys using List.reverseRecOn with
  | nil => simp
  | append_singleton ys y _ =>
    have hne : (ys ++ [y]).headD nil ≠ nil := by
      have hy : ∀ i ∈ ys ++ [y], i ≠ nil := fun i hi => h.ne_nil (by simp at hi ⊢; tauto)
      cases ys with
      | nil => exact hy y (by simp)
      | cons z zs => exact hy z (by simp)
    have hsplit : xs ++ u :: (ys ++ [y]) = (xs ++ u :: ys) ++ [y] := by simp
    rw [if_pos hne, hsplit, ← List.append_assoc, List.getLastD_concat, List.getLastD_concat]

theorem next_mem_erase [DecidableEq ι] (h : Threaded nil next prev l) (hu : u ∈ l)
    (hne : next u ≠ nil) : next u ∈ l.erase u := by
  obtain ⟨xs, ys, rfl⟩ := List.append_of_mem hu
  rw [h.erase_middle]
  rw [h.next_eq] at hne ⊢
  cases ys with
  | nil => exact absurd rfl hne
  | cons y ys => simp

/-! ## Editing the links -/

private theorem getLastD_mem (hxs : xs ≠ []) : xs.getLastD nil ∈ xs := by
  cases xs using List.reverseRecOn with
  | nil => exact absurd rfl hxs
  | append_singleton xs x _ => simp

private theorem headD_mem (hxs : xs ≠ []) : xs.headD nil ∈ xs := by
  cases xs with
  | nil => exact absurd rfl hxs
  | cons x xs => simp

theorem ne_headD (h : Threaded nil next prev (xs ++ ys)) {i : ι} (hi : i ∈ xs) :
    i ≠ ys.headD nil := by
  rintro rfl
  by_cases hys : ys = []
  · subst hys
    exact h.nil_notMem (by simpa using hi)
  · exact (List.nodup_append.mp h.nodup).2.2 _ hi _ (headD_mem hys) rfl

theorem ne_getLastD (h : Threaded nil next prev (xs ++ ys)) {i : ι} (hi : i ∈ ys) :
    i ≠ xs.getLastD nil := by
  rintro rfl
  by_cases hxs : xs = []
  · subst hxs
    exact h.nil_notMem (by simpa using hi)
  · exact (List.nodup_append.mp h.nodup).2.2 _ (getLastD_mem hxs) _ hi rfl

theorem ne_getLastD_of_notMem (hu : u ∉ xs) (hne : u ≠ nil) : u ≠ xs.getLastD nil := by
  rintro rfl
  by_cases hxs : xs = []
  · subst hxs
    exact hne rfl
  · exact hu (getLastD_mem hxs)

/-- Joining the neighbours of a node takes it out of the list. -/
theorem unlink [DecidableEq ι] (h : Threaded nil next prev (xs ++ u :: ys))
    (hn : ∀ i ∈ xs ++ ys, next' i = if i = prev u then next u else next i)
    (hp : ∀ i ∈ xs ++ ys, prev' i = if i = next u then prev u else prev i) :
    Threaded nil next' prev' (xs ++ ys) := by
  have hsub : (xs ++ ys).Sublist (xs ++ u :: ys) := by simp
  have hnd : (xs ++ ys).Nodup := h.nodup.sublist hsub
  have hnil : nil ∉ xs ++ ys := fun hm => h.nil_notMem (hsub.subset hm)
  obtain ⟨hxs, -, -, hys⟩ := Segment.append.mp h.links
  rw [h.prev_eq, h.next_eq] at hn hp
  refine ⟨hnd, hnil, Segment.append.mpr ⟨?_, ?_⟩⟩
  · refine hxs.reroute_next (List.nodup_append.mp hnd).1 (fun i hi => hn i (by simp [hi])) ?_
    intro i hi
    have hne : i ≠ ys.headD nil := by
      rw [List.append_cons] at h
      exact h.ne_headD (by simp [hi])
    rw [hp i (by simp [hi]), if_neg hne]
  · refine hys.reroute_prev (List.nodup_append.mp hnd).2.1 ?_ (fun i hi => hp i (by simp [hi]))
    intro i hi
    rw [hn i (by simp [hi]), if_neg (h.ne_getLastD (by simp [hi]))]

/-- Pointing the two ends of a gap at a new node links it in between. -/
theorem link [DecidableEq ι] (h : Threaded nil next prev (xs ++ ys)) (hu : u ∉ xs ++ ys)
    (hune : u ≠ nil)
    (hn : ∀ i ∈ xs ++ ys, next' i = if i = xs.getLastD nil then u else next i)
    (hp : ∀ i ∈ xs ++ ys, prev' i = if i = ys.headD nil then u else prev i)
    (hnu : next' u = ys.headD nil) (hpu : prev' u = xs.getLastD nil) :
    Threaded nil next' prev' (xs ++ u :: ys) := by
  obtain ⟨hxs, hys⟩ := Segment.append.mp h.links
  obtain ⟨hndx, hndy, -⟩ := List.nodup_append.mp h.nodup
  refine ⟨?_, ?_, Segment.append.mpr ⟨?_, hpu, hnu, ?_⟩⟩
  · rw [List.nodup_middle, List.nodup_cons]
    exact ⟨hu, h.nodup⟩
  · have hnil := h.nil_notMem
    simp only [List.mem_append, List.mem_cons, not_or] at hnil ⊢
    exact ⟨hnil.1, Ne.symm hune, hnil.2⟩
  · refine hxs.reroute_next hndx (fun i hi => hn i (by simp [hi])) ?_
    intro i hi
    rw [hp i (by simp [hi]), if_neg (h.ne_headD hi)]
  · refine hys.reroute_prev hndy ?_ (fun i hi => hp i (by simp [hi]))
    intro i hi
    rw [hn i (by simp [hi]), if_neg (h.ne_getLastD hi)]

end Threaded

/-! ## Insertion into a sorted list -/

/-- A new element that goes in front of the first one with a larger key keeps a
list sorted. -/
theorem pairwise_insert {κ : Type*} [LinearOrder κ] (key : ι → κ) {l : List ι} (u : ι)
    (h : l.Pairwise fun i j => key i ≤ key j) :
    (l.takeWhile (fun i => !decide (key u < key i)) ++
      u :: l.dropWhile fun i => !decide (key u < key i)).Pairwise fun i j => key i ≤ key j := by
  induction l with
  | nil => simp
  | cons x xs ih =>
    have hx := List.pairwise_cons.mp h
    by_cases hlt : key u < key x
    · have hle : ∀ i ∈ x :: xs, key u ≤ key i := by
        intro i hi
        rcases List.mem_cons.mp hi with rfl | hi
        · exact hlt.le
        · exact hlt.le.trans (hx.1 i hi)
      simpa [hlt] using ⟨by simpa using hle, hx⟩
    · have hmem : ∀ i ∈ xs.takeWhile (fun i => !decide (key u < key i)) ++
          u :: xs.dropWhile (fun i => !decide (key u < key i)), key x ≤ key i := by
        intro i hi
        have hp := (List.perm_middle (a := u)).mem_iff.mp hi
        rw [List.takeWhile_append_dropWhile] at hp
        rcases List.mem_cons.mp hp with rfl | hi
        · exact not_lt.mp hlt
        · exact hx.1 i hi
      simpa [hlt] using ⟨by simpa using hmem, ih hx.2⟩

/-! ## Loops over a linked list -/

section Loops

variable {σ : Type*} [DecidableEq ι]

/-- `while(u != nil) { ... }`, where one turn of the body gives the new state
and the index the walk goes on with; `none` is a fault of the body or a walk
that is still going after `n` turns. -/
def whileLinked (nil : ι) (body : ι → σ → Option (σ × ι)) : ℕ → ι → σ → Option σ
  | 0, _, _ => none
  | n + 1, u, s =>
    if u = nil then some s
    else (body u s).bind fun (s', v) => whileLinked nil body n v s'

/-- The rule of the loop: `I` relates the indices still to visit to the state,
and each turn hands over to a remainder that is no longer than the rest. -/
theorem whileLinked_rule {body : ι → σ → Option (σ × ι)} (I : List ι → σ → Prop)
    (hstep : ∀ x rest s, I (x :: rest) s → x ≠ nil ∧ ∃ s' rest', rest'.length ≤ rest.length ∧
      body x s = some (s', rest'.headD nil) ∧ I rest' s')
    {l : List ι} {s : σ} {n : ℕ} (hI : I l s) (hn : l.length < n) :
    ∃ s', whileLinked nil body n (l.headD nil) s = some s' ∧ I [] s' := by
  induction n generalizing l s with
  | zero => omega
  | succ n ih =>
    cases l with
    | nil => exact ⟨s, by simp [whileLinked], hI⟩
    | cons x rest =>
      obtain ⟨hx, s', rest', hlen, hbody, hI'⟩ := hstep x rest s hI
      rw [List.length_cons] at hn
      obtain ⟨t, ht, hIt⟩ := ih hI' (by omega)
      refine ⟨t, ?_, hIt⟩
      simp only [whileLinked, List.headD_cons, if_neg hx, hbody, Option.bind_some]
      exact ht

theorem whileLinked_keeps {body : ι → σ → Option (σ × ι)} (P : σ → Prop)
    (hbody : ∀ x s r, P s → body x s = some r → P r.1) {n : ℕ} {u : ι} {s s' : σ} (hs : P s)
    (h : whileLinked nil body n u s = some s') : P s' := by
  induction n generalizing u s with
  | zero => simp [whileLinked] at h
  | succ n ih =>
    unfold whileLinked at h
    split at h
    · obtain rfl : s = s' := by simpa using h
      exact hs
    · obtain ⟨r, hr, h⟩ := Option.bind_eq_some_iff.mp h
      exact ih (hbody u s r hs hr) h

/-- A walk that stops at the first index with `p` finds what the list finds. -/
theorem Segment.whileLinked_find {q : ι} {l : List ι} (h : Segment next prev q l nil)
    (hnil : nil ∉ l) (p : ι → Bool) {n : ℕ} (hn : l.length < n) :
    whileLinked nil (fun u found => if p u then some (u, nil) else some (found, next u)) n
      (l.headD nil) nil = some ((l.find? p).getD nil) := by
  induction l generalizing q n with
  | nil =>
    cases n with
    | zero => omega
    | succ n => simp [whileLinked]
  | cons x xs ih =>
    rw [List.mem_cons, not_or] at hnil
    rw [List.length_cons] at hn
    obtain ⟨m, rfl⟩ : ∃ m, n = m + 2 := ⟨n - 2, by omega⟩
    have hx : ¬x = nil := fun e => hnil.1 e.symm
    rw [List.headD_cons, whileLinked, if_neg hx]
    by_cases hp : p x
    · simp [hp, whileLinked]
    · have hrest := ih h.2.2 hnil.2 (n := m + 1) (by omega)
      rw [if_neg hp, Option.bind_some, h.2.1, List.find?_cons_of_neg hp]
      exact hrest

end Loops

end LinkedLists
