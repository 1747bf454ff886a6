import VcuCodec.DeltaSets
import VcuCodec.HevcStRefPicSets

/-!
# The rows of the short-term sets

What `AL_HEVC_sComputeRefPicSetVariables` leaves in the row of a set, and that
the rows of the other sets are kept.
-/

namespace VcuCodec

open CheckedRuns Checked DeltaSets

/-! ## One side -/

/-- What the two flags of an entry say. -/
def RefPicSet.selection (set : RefPicSet) (i : ℕ) : Selection :=
  if set.useDeltaFlag i then if set.usedByCurrPicFlag i then .used else .kept else .dropped

namespace PocTable

/-- The pictures of a set. -/
def row (t : PocTable) (i : ℕ) : List (ℤ × Bool) :=
  (List.range (t.numPics i)).map fun j => (t.deltaPoc i j, t.usedByCurrPic i j)

@[simp] theorem length_row (t : PocTable) (i : ℕ) : (t.row i).length = t.numPics i := by
  simp [row]

/-- The rows of the other sets are the same. -/
def SameBut (refIdx : ℕ) (t t' : PocTable) : Prop :=
  ∀ i, i ≠ refIdx → t'.numPics i = t.numPics i ∧ t'.deltaPoc i = t.deltaPoc i ∧
    t'.usedByCurrPic i = t.usedByCurrPic i

/-- The row of a set starts with the pictures `l`; its number of pictures is not
written yet. -/
structure Fills (own : PocTable) (refIdx : ℕ) (t : PocTable) (l : List (ℤ × Bool)) : Prop where
  same : own.SameBut refIdx t
  numPics : t.numPics = own.numPics
  entry : ∀ j e, l[j]? = some e → e = (t.deltaPoc refIdx j, t.usedByCurrPic refIdx j)

variable {σ : Type} {own t t' : PocTable} {refIdx rIdx : ℕ} {s : σ} {l : List (ℤ × Bool)}

theorem SameBut.refl (refIdx : ℕ) (t : PocTable) : t.SameBut refIdx t := fun _ _ => ⟨rfl, rfl, rfl⟩

theorem SameBut.row (h : own.SameBut refIdx t) {i : ℕ} (hi : i ≠ refIdx) : t.row i = own.row i := by
  obtain ⟨hn, hd, hu⟩ := h i hi
  unfold PocTable.row
  rw [hn, hd, hu]

theorem SameBut.setNumPics (h : own.SameBut refIdx t) (n : ℕ) :
    own.SameBut refIdx (t.setNumPics refIdx n) := by
  intro i hi
  obtain ⟨hn, hd, hu⟩ := h i hi
  exact ⟨(Function.update_of_ne hi _ _).trans hn, hd, hu⟩

theorem Fills.nil (refIdx : ℕ) (own : PocTable) : Fills own refIdx own [] where
  same := .refl refIdx own
  numPics := rfl
  entry j e h := by simp at h

theorem Fills.row (h : Fills own refIdx t l) : (t.setNumPics refIdx l.length).row refIdx = l := by
  apply List.ext_getElem?
  intro j
  unfold PocTable.row PocTable.setNumPics
  dsimp only
  rw [Function.update_self, List.getElem?_map]
  by_cases hj : j < l.length
  · rw [List.getElem?_range hj, List.getElem?_eq_getElem hj]
    exact congrArg some (h.entry j _ (List.getElem?_eq_getElem hj)).symm
  · rw [List.getElem?_eq_none (by simpa using hj), List.getElem?_eq_none (by omega)]
    rfl

theorem ends_write (h : Fills own refIdx t l) (hl : l.length < maxRef) (d : ℤ) (b : Bool) :
    Ends (t.write refIdx l.length d b) s fun t' s' => s' = s ∧ Fills own refIdx t' (l ++ [(d, b)]) := by
  unfold write
  rw [ends_bind, ends_check]
  refine ⟨hl, (ends_pure _).mpr ⟨rfl, ?_, h.numPics, fun j e he => ?_⟩⟩
  · intro i hi
    obtain ⟨hn, hd, hu⟩ := h.same i hi
    exact ⟨hn, (Function.update_of_ne hi _ _).trans hd, (Function.update_of_ne hi _ _).trans hu⟩
  · simp only [Function.update_self]
    rcases Nat.lt_trichotomy j l.length with hj | rfl | hj
    · rw [List.getElem?_append_left hj] at he
      rw [Function.update_of_ne (by omega), Function.update_of_ne (by omega)]
      exact h.entry j e he
    · simp only [List.getElem?_concat_length, Option.some.injEq] at he
      rw [Function.update_self, Function.update_self, ← he]
    · rw [List.getElem?_eq_none (by rw [List.length_append, List.length_singleton]; omega)] at he
      simp at he

/-! ## Predicted sets -/

theorem pick_singleton (set : RefPicSet) (keep : ℤ → Bool) (d : ℤ) (i : ℕ) :
    pick keep [(d, set.selection i)] =
      if keep d ∧ set.useDeltaFlag i then [(d, set.usedByCurrPicFlag i)] else [] := by
  unfold pick RefPicSet.selection
  cases hk : keep d <;> cases hd : set.useDeltaFlag i <;> cases hu : set.usedByCurrPicFlag i <;>
    simp [hk, Selection.isKept, Selection.isUsed]

theorem length_pick_le (keep : ℤ → Bool) (x : List (ℤ × Selection)) : (pick keep x).length ≤ x.length := by
  unfold pick
  rw [List.length_map]
  exact List.length_filter_le _ x

theorem ends_select (set : RefPicSet) (keep : ℤ → Bool) (d : ℤ) {i n : ℕ} (hi : i < maxRef)
    (h : Fills own refIdx t l ∧ n = l.length) (hl : l.length < maxRef) :
    Ends (select set refIdx keep d i (t, n)) s fun t' s' => s' = s ∧
      Fills own refIdx t'.1 (l ++ pick keep [(d, set.selection i)]) ∧
        t'.2 = (l ++ pick keep [(d, set.selection i)]).length := by
  obtain ⟨h, rfl⟩ := h
  unfold select
  rw [pick_singleton]
  by_cases hkeep : keep d
  · rw [if_pos hkeep, ends_bind, ends_check]
    refine ⟨hi, ?_⟩
    by_cases huse : set.useDeltaFlag i
    · rw [if_pos huse, if_pos ⟨hkeep, huse⟩, ends_bind]
      refine (ends_write h hl d _).imp fun t' s' ht => ?_
      exact (ends_pure _).mpr ⟨ht.1, ht.2, by simp⟩
    · rw [if_neg huse, if_neg fun hc => huse hc.2, List.append_nil]
      exact (ends_pure _).mpr ⟨rfl, h, rfl⟩
  · rw [if_neg hkeep, if_neg fun hc => hkeep hc.1, List.append_nil]
    exact (ends_pure _).mpr ⟨rfl, h, rfl⟩

theorem ends_scan (set : RefPicSet) (keep : ℤ → Bool) {x : List (ℤ × Selection)} {d : ℕ → ℤ}
    {i : ℕ → ℕ} {body : ℕ → PocTable × ℕ → Checked σ (PocTable × ℕ)}
    (hbody : ∀ k t, own.SameBut refIdx t.1 → body k t = select set refIdx keep (d k) (i k) t)
    (hx : ∀ k, k < x.length → x[k]? = some (d k, set.selection (i k)))
    (hi : ∀ k, k < x.length → i k < maxRef) {n : ℕ} (h : Fills own refIdx t l ∧ n = l.length)
    (hl : l.length + x.length ≤ maxRef) :
    Ends (forBelow x.length (t, n) body) s fun t' s' => s' = s ∧
      Fills own refIdx t'.1 (l ++ pick keep x) ∧ t'.2 = (l ++ pick keep x).length := by
  refine (forBelow_ends (fun k t' s' => s' = s ∧ Fills own refIdx t'.1 (l ++ pick keep (x.take k)) ∧
    t'.2 = (l ++ pick keep (x.take k)).length) (fun k t' s' hk ht => ?_) ?_).imp fun t' s' ht => ?_
  · obtain ⟨rfl, ht⟩ := ht
    have hlen := length_pick_le keep (x.take k)
    rw [List.length_take] at hlen
    have htake : x.take (k + 1) = x.take k ++ [(d k, set.selection (i k))] := by
      rw [List.take_add_one, hx k hk]
      rfl
    rw [hbody k t' ht.1.same, htake, pick_append, ← List.append_assoc]
    exact ends_select set keep (d k) (hi k hk) ht (by rw [List.length_append]; omega)
  · simpa [pick] using h
  · rwa [List.take_length] at ht

theorem ends_predict {other : PocTable} (set : RefPicSet) (hne : rIdx ≠ refIdx) (keep : ℤ → Bool)
    (delta : ℤ) {otherAt zeroAt ownAt : ℕ} {x y : List (ℤ × Selection)}
    (hx : (List.range (other.numPics rIdx)).map (fun j =>
      (other.deltaPoc rIdx j + delta, set.selection (otherAt + j))) = x)
    (hy : (List.range (own.numPics rIdx)).map (fun j =>
      (own.deltaPoc rIdx j + delta, set.selection (ownAt + j))) = y)
    (hother : otherAt + x.length ≤ maxRef) (hzero : zeroAt < maxRef)
    (hown : ownAt + y.length ≤ maxRef) (hroom : x.length + 1 + y.length ≤ maxRef) :
    Ends (own.predict other set refIdx rIdx keep delta otherAt zeroAt ownAt) s fun t' s' => s' = s ∧
      own.SameBut refIdx t' ∧
        t'.row refIdx = pick keep (x.reverse ++ ([(delta, set.selection zeroAt)] ++ y)) := by
  have hxlen : x.length = other.numPics rIdx := by simp [← hx]
  have hylen : y.length = own.numPics rIdx := by simp [← hy]
  have hxat : ∀ k, k < x.reverse.length → x.reverse[k]? = some
      (other.deltaPoc rIdx (other.numPics rIdx - 1 - k) + delta,
        set.selection (otherAt + (other.numPics rIdx - 1 - k))) := by
    intro k hk
    rw [List.length_reverse] at hk
    rw [List.getElem?_reverse hk, hxlen, ← hx, List.getElem?_map, List.getElem?_range (by omega)]
    rfl
  have hyat : ∀ k, k < y.length → y[k]? = some (own.deltaPoc rIdx k + delta, set.selection (ownAt + k)) := by
    intro k hk
    rw [← hy, List.getElem?_map, List.getElem?_range (by omega)]
    rfl
  have hrev : x.reverse.length = other.numPics rIdx := by rw [List.length_reverse, hxlen]
  unfold predict
  simp only [ends_bind]
  rw [← hrev, ← hylen]
  have hfirst : Ends (forBelow x.reverse.length (own, 0) fun k t =>
      select set refIdx keep (other.deltaPoc rIdx (x.reverse.length - 1 - k) + delta)
        (otherAt + (x.reverse.length - 1 - k)) t) s fun t' s' => s' = s ∧
      Fills own refIdx t'.1 ([] ++ pick keep x.reverse) ∧ t'.2 = ([] ++ pick keep x.reverse).length :=
    ends_scan set keep (fun k t _ => rfl) (by rwa [← hrev] at hxat) (fun k hk => by omega)
      ⟨.nil refIdx own, rfl⟩ (by simp only [List.length_nil, List.length_reverse]; omega)
  refine hfirst.imp fun t1 s1 h1 => ?_
  obtain ⟨rfl, h1⟩ := h1
  have hlen1 := length_pick_le keep x.reverse
  rw [List.length_reverse] at hlen1
  refine (ends_select set keep delta hzero h1 (by rw [List.nil_append]; omega)).imp fun t2 s2 h2 => ?_
  obtain ⟨rfl, h2⟩ := h2
  have hlen2 := length_pick_le keep [(delta, set.selection zeroAt)]
  rw [List.length_singleton] at hlen2
  refine (ends_scan set keep (fun k t ht => ?_) hyat (fun k hk => by omega) h2
    (by simp only [List.nil_append, List.length_append]; omega)).imp fun t3 s3 h3 => ?_
  · rw [(ht rIdx hne).2.1]
  · obtain ⟨rfl, h3, hn⟩ := h3
    rw [ends_pure, hn]
    refine ⟨rfl, h3.same.setNumPics _, ?_⟩
    rw [h3.row, pick_append, pick_append, List.nil_append, List.append_assoc]

/-! ## Sets that are coded explicitly -/

end PocTable

/-- The pictures on one side, as they are coded. -/
def CodedPics.pics (s : CodedPics) : List (ℕ × Bool) :=
  (List.range s.numPics).map fun j => (s.deltaPocMinus1 j, s.usedByCurrPicFlag j)

namespace PocTable

variable {σ : Type} {t t' : PocTable} {refIdx : ℕ} {s : σ}

/-- The entries up to `i` of a set that is coded explicitly. -/
structure Sums (t : PocTable) (refIdx : ℕ) (sign : ℤ) (c : CodedPics) (i : ℕ) (t' : PocTable) :
    Prop where
  same : t.SameBut refIdx t'
  numPics : t'.numPics refIdx = c.numPics
  used : ∀ j ≤ i, t'.usedByCurrPic refIdx j = c.usedByCurrPicFlag j
  first : t'.deltaPoc refIdx 0 = sign * (c.deltaPocMinus1 0 + 1)
  next : ∀ j < i, t'.deltaPoc refIdx (j + 1) =
    t'.deltaPoc refIdx j + sign * (c.deltaPocMinus1 (j + 1) + 1)

theorem ends_setCoded {sign : ℤ} {c : CodedPics} (hn : c.numPics ≤ maxRef) :
    Ends (t.setCoded refIdx sign c) s fun t' s' => s' = s ∧ Sums t refIdx sign c (c.numPics - 1) t' := by
  unfold setCoded
  rw [ends_bind]
  unfold write
  rw [ends_bind, ends_check]
  refine ⟨by decide, (ends_pure _).mpr ?_⟩
  refine forBelow_ends (fun i t' s' => s' = s ∧ Sums t refIdx sign c i t') (fun i t' s' hi h => ?_)
    ⟨rfl, ?_⟩
  · obtain ⟨rfl, h⟩ := h
    rw [ends_bind, ends_check]
    refine ⟨by omega, (ends_pure _).mpr ⟨rfl, fun k hk => ?_, h.numPics, fun j hj => ?_, ?_, fun j hj => ?_⟩⟩
    · obtain ⟨hnum, hd, hu⟩ := h.same k hk
      exact ⟨hnum, (Function.update_of_ne hk _ _).trans hd, (Function.update_of_ne hk _ _).trans hu⟩
    · simp only [Function.update_self]
      rcases Nat.lt_or_eq_of_le hj with hlt | rfl
      · rw [Function.update_of_ne (by omega)]
        exact h.used j (by omega)
      · rw [Function.update_self]
    · simp only [Function.update_self]
      rw [Function.update_of_ne (by omega)]
      exact h.first
    · simp only [Function.update_self]
      rcases Nat.lt_or_eq_of_le (Nat.le_of_lt_succ hj) with hlt | rfl
      · rw [Function.update_of_ne (by omega), Function.update_of_ne (by omega)]
        exact h.next j hlt
      · rw [Function.update_self, Function.update_of_ne (by omega)]
  · refine ⟨fun k hk => ?_, Function.update_self _ _ _, fun j hj => ?_, ?_, fun j hj => by omega⟩
    · exact ⟨Function.update_of_ne hk _ _, Function.update_of_ne hk _ _, Function.update_of_ne hk _ _⟩
    · obtain rfl : j = 0 := by omega
      simp only [Function.update_self]
    · simp only [Function.update_self]

theorem Sums.row {sign : ℤ} (hsign : sign * sign = 1) {c : CodedPics}
    (h : Sums t refIdx sign c (c.numPics - 1) t') :
    t'.row refIdx = (falling 0 c.pics).map fun e => (-sign * e.1, e.2) := by
  have hfall : (List.range c.numPics).map (fun j => (-sign * t'.deltaPoc refIdx j, c.usedByCurrPicFlag j)) =
      falling 0 c.pics := by
    refine map_range_eq_falling (fun _ => ?_) fun i hi => ?_
    · rw [h.first, ← mul_assoc, neg_mul, hsign]
      ring
    · rw [h.next i (by omega), mul_add, ← mul_assoc, neg_mul _ sign, hsign]
      ring
  unfold PocTable.row
  rw [← hfall, h.numPics, List.map_map]
  apply List.map_congr_left
  intro j hj
  have hj : j < c.numPics := List.mem_range.mp hj
  have hcancel : -sign * (-sign * t'.deltaPoc refIdx j) = t'.deltaPoc refIdx j := by
    rw [← mul_assoc, neg_mul_neg, hsign, one_mul]
  rw [h.used j (by omega), Function.comp_apply, hcancel]

end PocTable

/-! ## Both sides -/

namespace HevcStSps

/-- The variables of set `i` are those of `S`. -/
structure HoldsAt (sps : HevcStSps) (i : ℕ) (S : DeltaSet) : Prop where
  s0 : sps.s0.row i = S.s0
  s1 : sps.s1.row i = S.s1
  numDeltaPocs : sps.numDeltaPocs i = S.card

/-- Only the variables of set `refIdx` have changed. -/
structure SameBut (refIdx : ℕ) (sps sps' : HevcStSps) : Prop where
  limit : sps'.spsMaxDecPicBufferingMinus1 = sps.spsMaxDecPicBufferingMinus1
  numSets : sps'.numShortTermRefPicSets = sps.numShortTermRefPicSets
  s0 : sps.s0.SameBut refIdx sps'.s0
  s1 : sps.s1.SameBut refIdx sps'.s1
  numDeltaPocs : ∀ i, i ≠ refIdx → sps'.numDeltaPocs i = sps.numDeltaPocs i

variable {σ : Type} {sps sps' : HevcStSps} {refIdx : ℕ} {s : σ}

theorem HoldsAt.congr {i : ℕ} {S : DeltaSet} (h : sps.HoldsAt i S) (hsame : sps.SameBut refIdx sps')
    (hi : i ≠ refIdx) : sps'.HoldsAt i S where
  s0 := (hsame.s0.row hi).trans h.s0
  s1 := (hsame.s1.row hi).trans h.s1
  numDeltaPocs := (hsame.numDeltaPocs i hi).trans h.numDeltaPocs

theorem ends_compute_coded (hinter : (sps.shortTermRefPicSet refIdx).interRefPicSetPredictionFlag = false)
    (h0 : (sps.shortTermRefPicSet refIdx).s0.numPics ≤ maxRef)
    (h1 : (sps.shortTermRefPicSet refIdx).s1.numPics ≤ maxRef) :
    Ends (sps.computeRefPicSetVariables refIdx) s fun sps' s' => s' = s ∧ sps.SameBut refIdx sps' ∧
      sps'.HoldsAt refIdx (ofSteps (sps.shortTermRefPicSet refIdx).s0.pics
        (sps.shortTermRefPicSet refIdx).s1.pics) := by
  unfold computeRefPicSetVariables
  simp only [hinter, Bool.false_eq_true, if_false, ends_bind]
  refine (PocTable.ends_setCoded h0).imp fun t0 s0 ht0 => ?_
  obtain ⟨rfl, ht0⟩ := ht0
  refine (PocTable.ends_setCoded h1).imp fun t1 s1 ht1 => ?_
  obtain ⟨rfl, ht1⟩ := ht1
  rw [ends_pure, ends_pure]
  have hrow0 : t0.row refIdx = falling 0 (sps.shortTermRefPicSet refIdx).s0.pics := by
    rw [ht0.row (by decide)]
    simp
  have hrow1 : t1.row refIdx = mirror (falling 0 (sps.shortTermRefPicSet refIdx).s1.pics) := by
    rw [ht1.row (by decide)]
    simp [mirror]
  refine ⟨rfl, ⟨rfl, rfl, ht0.same, ht1.same, fun i hi => Function.update_of_ne hi _ _⟩, hrow0, hrow1, ?_⟩
  change Function.update _ refIdx _ refIdx = _
  rw [Function.update_self, ← t0.length_row, ← t1.length_row, hrow0, hrow1]
  rfl

theorem ends_compute_predicted {set : RefPicSet} (hset : sps.shortTermRefPicSet refIdx = set)
    (hinter : set.interRefPicSetPredictionFlag = true)
    (hne : set.rIdx refIdx ≠ refIdx) (hidx : set.rIdx refIdx ≤ maxRefPicSet) {S : DeltaSet}
    (hS : sps.HoldsAt (set.rIdx refIdx) S) {fl : List Selection} (hlen : fl.length = S.card + 1)
    (hfit : fl.length ≤ maxRef) (hfl : ∀ j, j < fl.length → fl[j]? = some (set.selection j)) :
    Ends (sps.computeRefPicSetVariables refIdx) s fun sps' s' => s' = s ∧ sps.SameBut refIdx sps' ∧
      sps'.HoldsAt refIdx (DeltaSets.predict S set.deltaRPS fl) := by
  have hcard : S.card = S.s0.length + S.s1.length := rfl
  have hn0 : sps.s0.numPics (set.rIdx refIdx) = S.s0.length := by
    rw [← hS.s0, PocTable.length_row]
  have hn1 : sps.s1.numPics (set.rIdx refIdx) = S.s1.length := by
    rw [← hS.s1, PocTable.length_row]
  have hlow : (List.range (sps.s0.numPics (set.rIdx refIdx))).map (fun j =>
      (sps.s0.deltaPoc (set.rIdx refIdx) j + set.deltaRPS, set.selection (0 + j))) =
        shifted set.deltaRPS S.s0 fl :=
    map_range_eq_shifted hS.s0 fun j hj => by rw [hfl j (by omega), Nat.zero_add]
  have hhigh : (List.range (sps.s1.numPics (set.rIdx refIdx))).map (fun j =>
      (sps.s1.deltaPoc (set.rIdx refIdx) j + set.deltaRPS, set.selection (S.s0.length + j))) =
        shifted set.deltaRPS S.s1 (fl.drop S.s0.length) :=
    map_range_eq_shifted hS.s1 fun j hj => by rw [List.getElem?_drop, hfl _ (by omega)]
  have hlowlen : (shifted set.deltaRPS S.s0 fl).length = S.s0.length := by
    rw [← hlow, List.length_map, List.length_range, hn0]
  have hhighlen : (shifted set.deltaRPS S.s1 (fl.drop S.s0.length)).length = S.s1.length := by
    rw [← hhigh, List.length_map, List.length_range, hn1]
  have hzero : shifted set.deltaRPS [(0, false)] (fl.drop S.card) =
      [(set.deltaRPS, set.selection S.card)] := by
    have hat := hfl S.card (by omega)
    rw [List.drop_eq_getElem_cons (by omega : S.card < fl.length)]
    rw [List.getElem?_eq_getElem (by omega : S.card < fl.length), Option.some.injEq] at hat
    simp [shifted, hat]
  unfold computeRefPicSetVariables
  simp only [hset, hinter, if_true, ends_bind, ends_check]
  refine ⟨⟨hidx, by omega, by omega⟩, ?_⟩
  refine (PocTable.ends_predict (x := shifted set.deltaRPS S.s1 (fl.drop S.s0.length))
    (y := shifted set.deltaRPS S.s0 fl) set hne (fun d => d < 0) set.deltaRPS (by rw [hn0, hhigh]) hlow
    (by omega) (by rw [hS.numDeltaPocs]; omega) (by omega) (by omega)).imp fun t0 s0 ht0 => ?_
  obtain ⟨rfl, hsame0, hrow0⟩ := ht0
  obtain ⟨hnum, hdelta, -⟩ := hsame0 _ hne
  refine (PocTable.ends_predict (x := shifted set.deltaRPS S.s0 fl)
    (y := shifted set.deltaRPS S.s1 (fl.drop S.s0.length)) set hne (fun d => 0 < d) set.deltaRPS
    (by rw [hnum, hdelta, hlow]) (by rw [hnum, hn0, hhigh]) (by omega)
    (by rw [hS.numDeltaPocs]; omega) (by omega) (by omega)).imp fun t1 s1 ht1 => ?_
  obtain ⟨rfl, hsame1, hrow1⟩ := ht1
  rw [ends_pure, ends_pure]
  have hs0 : t0.row refIdx = (DeltaSets.predict S set.deltaRPS fl).s0 := by
    rw [hrow0, hS.numDeltaPocs, ← hzero]
    rfl
  have hs1 : t1.row refIdx = (DeltaSets.predict S set.deltaRPS fl).s1 := by
    rw [hrow1, hS.numDeltaPocs, ← hzero]
    simp [DeltaSets.predict, candidates, hzero]
  refine ⟨rfl, ⟨rfl, rfl, hsame0, hsame1, fun i hi => Function.update_of_ne hi _ _⟩, hs0, hs1, ?_⟩
  change Function.update _ refIdx _ refIdx = _
  rw [Function.update_self, ← t0.length_row, ← t1.length_row, hs0, hs1]
  rfl

end HevcStSps

end VcuCodec
