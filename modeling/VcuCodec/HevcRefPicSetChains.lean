import VcuCodec.HevcRefPicSetRows

/-!
# Chains of short-term reference picture sets

The sets of a sequence parameter set and of the slices behind it, as H.265 codes
and derives them, and what `AL_HEVC_short_term_ref_pic_set` makes of their bits.
-/

namespace VcuCodec

open CheckedRuns Checked Parse BitStrings DeltaSets

/-! ## The syntax -/

/-- `st_ref_pic_set` of H.265. -/
inductive StRefPicSet
  | coded (s0 s1 : List (ℕ × Bool))
  | predicted (deltaIdxMinus1 : ℕ) (deltaRpsSign : Bool) (absDeltaRpsMinus1 : ℕ)
      (flags : List Selection)

/-- The entries of a set that is coded explicitly. -/
def picBits (l : List (ℕ × Bool)) : List Bool :=
  l.flatMap fun e => golomb e.1 ++ fixed 1 e.2.toNat

/-- `used_by_curr_pic_flag`, and `use_delta_flag` if that is 0. -/
def selectionBits : Selection → List Bool
  | .used => fixed 1 1
  | .kept => fixed 1 0 ++ fixed 1 1
  | .dropped => fixed 1 0 ++ fixed 1 0

def flagBits (l : List Selection) : List Bool := l.flatMap selectionBits

namespace StRefPicSet

/-- The set `RefRpsIdx`. -/
def ref (done : List DeltaSet) (deltaIdxMinus1 : ℕ) : DeltaSet :=
  done.getD (done.length - (deltaIdxMinus1 + 1)) (ofSteps [] [])

def deltaRps (deltaRpsSign : Bool) (absDeltaRpsMinus1 : ℕ) : ℤ :=
  (1 - 2 * (deltaRpsSign.toNat : ℤ)) * (absDeltaRpsMinus1 + 1)

/-- The variables of a set behind the sets `done`: equations (7-61) and (7-62)
of H.265 if it is predicted. -/
def derived (done : List DeltaSet) : StRefPicSet → DeltaSet
  | coded s0 s1 => ofSteps s0 s1
  | predicted k sign abs flags => DeltaSets.predict (ref done k) (deltaRps sign abs) flags

/-- The ranges of the syntax elements; `own` says that the set is coded in a slice
header, and `limit` is `sps_max_dec_pic_buffering_minus1`. -/
def Valid (limit : ℕ) (own : Bool) (done : List DeltaSet) : StRefPicSet → Prop
  | coded s0 s1 => s0.length ≤ limit ∧ s1.length ≤ limit ∧ ∀ e ∈ s0 ++ s1, e.1 < 2 ^ 15
  | predicted k _ abs flags =>
    k < done.length ∧ (own = false → k = 0) ∧ abs < 2 ^ 15 ∧ flags.length = (ref done k).card + 1

/-- The bits of set `idx`. -/
def bits (own : Bool) (idx : ℕ) : StRefPicSet → List Bool
  | coded s0 s1 =>
    (if idx ≠ 0 then fixed 1 0 else []) ++
      (golomb s0.length ++ (golomb s1.length ++ (picBits s0 ++ picBits s1)))
  | predicted k sign abs flags =>
    fixed 1 1 ++ ((if own then golomb k else []) ++
      (fixed 1 sign.toNat ++ (golomb abs ++ flagBits flags)))

/-- The arrays have room for the set. -/
def Fits (done : List DeltaSet) : StRefPicSet → Prop
  | coded s0 s1 => s0.length ≤ maxRef ∧ s1.length ≤ maxRef
  | predicted k _ _ _ => (ref done k).card < maxRef

instance (limit : ℕ) (own : Bool) (done : List DeltaSet) : DecidablePred (Valid limit own done)
  | coded s0 s1 =>
    inferInstanceAs (Decidable (s0.length ≤ limit ∧ s1.length ≤ limit ∧ ∀ e ∈ s0 ++ s1, e.1 < 2 ^ 15))
  | predicted k _ abs flags =>
    inferInstanceAs (Decidable (k < done.length ∧ (own = false → k = 0) ∧ abs < 2 ^ 15 ∧
      flags.length = (ref done k).card + 1))

instance (done : List DeltaSet) : DecidablePred (Fits done)
  | coded s0 s1 => inferInstanceAs (Decidable (s0.length ≤ maxRef ∧ s1.length ≤ maxRef))
  | predicted k _ _ _ => inferInstanceAs (Decidable ((ref done k).card < maxRef))

/-- The sets of a chain behind the sets `done`. -/
def derivedChain (done : List DeltaSet) : List StRefPicSet → List DeltaSet
  | [] => done
  | s :: l => derivedChain (done ++ [s.derived done]) l

/-- A property of every set of a chain behind the sets `done`. -/
def Along (P : List DeltaSet → StRefPicSet → Prop) (done : List DeltaSet) : List StRefPicSet → Prop
  | [] => True
  | s :: l => P done s ∧ Along P (done ++ [s.derived done]) l

instance decidableAlong (P : List DeltaSet → StRefPicSet → Prop) [∀ done, DecidablePred (P done)] :
    (done : List DeltaSet) → (sets : List StRefPicSet) → Decidable (Along P done sets)
  | _, [] => inferInstanceAs (Decidable True)
  | done, s :: l =>
    have := decidableAlong P (done ++ [s.derived done]) l
    inferInstanceAs (Decidable (P done s ∧ Along P (done ++ [s.derived done]) l))

/-- The bits of the sets from `idx` on. -/
def chainBits (idx : ℕ) : List StRefPicSet → List Bool
  | [] => []
  | s :: l => s.bits false idx ++ chainBits (idx + 1) l

end StRefPicSet

/-! ## Reading -/

variable {c : Prop} {r : List Bool} {p : RbspParser}

variable {Q : ℕ → RbspParser → Prop}

theorem ends_ue {v : ℕ} (h : p.Ahead c (golomb v ++ r)) (hv : v < 2 ^ 31)
    (hq : ∀ q : RbspParser, q.Ahead c r → Q v q) : Ends ue p Q := by
  have hread := h.ue (by omega)
  refine (ends_step _).mpr ?_
  rw [hread.1]
  exact hq _ hread.2.1

theorem ends_flag {b : Bool} (h : p.Ahead c (fixed 1 b.toNat ++ r))
    (hq : ∀ q : RbspParser, q.Ahead c r → Q b.toNat q) : Ends (u 1) p Q := by
  have hread := h.u (by decide) (by cases b <;> decide)
  refine (ends_step _).mpr ?_
  rw [hread.1]
  exact hq _ hread.2.1

namespace CodedPics

/-- The first `j` pictures have been read. -/
structure Reads (c : Prop) (l : List (ℕ × Bool)) (r : List Bool) (j : ℕ) (s : CodedPics)
    (p : RbspParser) : Prop where
  numPics : s.numPics = l.length
  entry : ∀ k e, k < j → l[k]? = some e → (s.deltaPocMinus1 k, s.usedByCurrPicFlag k) = e
  ahead : p.Ahead c (picBits (l.drop j) ++ r)

variable {l : List (ℕ × Bool)} {s : CodedPics}

theorem Reads.pics (h : Reads c l r l.length s p) : s.pics = l := by
  apply List.ext_getElem?
  intro j
  unfold CodedPics.pics
  rw [h.numPics, List.getElem?_map]
  by_cases hj : j < l.length
  · have hat := List.getElem?_eq_getElem hj
    rw [List.getElem?_range hj, hat]
    exact congrArg some (h.entry j _ hj hat)
  · rw [List.getElem?_eq_none (by simpa using hj), List.getElem?_eq_none (by omega)]
    rfl

theorem Reads.round (hl : ∀ e ∈ l, e.1 < 2 ^ 15) {j : ℕ} (hj : j < l.length) (hroom : j < maxRef)
    (h : Reads c l r j s p) :
    Ends (do
      check (j < maxRef)
      let delta ← ue
      let used ← u 1
      return { s with
        deltaPocMinus1 := Function.update s.deltaPocMinus1 j (delta % 2 ^ 16)
        usedByCurrPicFlag := Function.update s.usedByCurrPicFlag j (used != 0) }) p
      (Reads c l r (j + 1)) := by
  have hv := hl _ (List.getElem_mem hj)
  have hbits := h.ahead
  rw [List.drop_eq_getElem_cons hj] at hbits
  simp only [picBits, List.flatMap_cons, List.append_assoc] at hbits
  simp only [ends_bind, ends_check, ends_pure]
  refine ⟨hroom, ends_ue hbits (by omega) fun q hq => ends_flag hq fun q' hq' => ?_⟩
  refine ⟨h.numPics, fun k e hk he => ?_, hq'⟩
  rcases Nat.lt_or_eq_of_le (Nat.le_of_lt_succ hk) with hlt | rfl
  · simp only [Function.update_of_ne (show k ≠ j by omega)]
    exact h.entry k e hlt he
  · rw [List.getElem?_eq_getElem hj, Option.some.injEq] at he
    simp only [Function.update_self, he] at hv ⊢
    rw [Nat.mod_eq_of_lt (by omega)]
    obtain ⟨n, b⟩ := e
    cases b <;> rfl

theorem endsIff_read (hn : s.numPics = l.length) (hl : ∀ e ∈ l, e.1 < 2 ^ 15)
    (h : p.Ahead c (picBits l ++ r)) :
    EndsIff (l.length ≤ maxRef) s.read p fun s' q =>
      s'.pics = l ∧ s'.numPics = l.length ∧ q.Ahead c r := by
  have hstart : Reads c l r 0 s p := ⟨hn, fun k e hk => by omega, h⟩
  unfold read
  rw [hn]
  refine ⟨fun hroom => ?_, fun hret => not_lt.mp fun hroom => ?_⟩
  · refine (forBelow_ends (Reads c l r) (fun j s' q hj hq => hq.round hl hj (by omega))
      hstart).imp fun s' q hq => ⟨hq.pics, hq.numPics, ?_⟩
    simpa [picBits] using hq.ahead
  · refine forBelow_not_returns (Reads c l r) (fun j s' q hj hq => hq.round hl (by omega) hj)
      (fun s' q _ hround => ?_) hroom hstart hret
    exact absurd (ends_check.mp (ends_bind.mp hround)).1 (by decide)

end CodedPics

namespace RefPicSet

/-- The fields that are read in front of the flags are the same. -/
structure SameHead (set set' : RefPicSet) : Prop where
  inter : set'.interRefPicSetPredictionFlag = set.interRefPicSetPredictionFlag
  idx : set'.deltaIdxMinus1 = set.deltaIdxMinus1
  sign : set'.deltaRpsSign = set.deltaRpsSign
  abs : set'.absDeltaRpsMinus1 = set.absDeltaRpsMinus1

/-- The flags of the first `j` entries have been read. -/
structure Reads (c : Prop) (set0 : RefPicSet) (fl : List Selection) (r : List Bool) (j : ℕ)
    (set : RefPicSet) (p : RbspParser) : Prop where
  head : set0.SameHead set
  entry : ∀ k, k < j → fl[k]? = some (set.selection k)
  ahead : p.Ahead c (flagBits (fl.drop j) ++ r)

variable {fl : List Selection} {set0 set : RefPicSet}

theorem Reads.next {j : ℕ} {f : Selection} (hf : fl[j]? = some f) (h : Reads c set0 fl r j set p)
    {set' : RefPicSet} (hhead : set.SameHead set') (hat : set'.selection j = f)
    (hsame : ∀ k, k ≠ j → set'.selection k = set.selection k) {q : RbspParser}
    (hq : q.Ahead c (flagBits (fl.drop (j + 1)) ++ r)) : Reads c set0 fl r (j + 1) set' q where
  head := ⟨hhead.inter.trans h.head.inter, hhead.idx.trans h.head.idx,
    hhead.sign.trans h.head.sign, hhead.abs.trans h.head.abs⟩
  entry k hk := by
    rcases Nat.lt_or_eq_of_le (Nat.le_of_lt_succ hk) with hlt | rfl
    · rw [hsame k (by omega)]
      exact h.entry k hlt
    · rw [hat, hf]
  ahead := hq

theorem Reads.round {j : ℕ} (hj : j < fl.length) (hroom : j < maxRef) (h : Reads c set0 fl r j set p) :
    Ends (do
      check (j < maxRef)
      let used ← u 1
      let set := { set with
        useDeltaFlag := Function.update set.useDeltaFlag j true
        usedByCurrPicFlag := Function.update set.usedByCurrPicFlag j (used != 0) }
      if used != 0 then return set
      let use ← u 1
      return { set with useDeltaFlag := Function.update set.useDeltaFlag j (use != 0) }) p
      (Reads c set0 fl r (j + 1)) := by
  have hbits := h.ahead
  have hat := List.getElem?_eq_getElem hj
  rw [List.drop_eq_getElem_cons hj] at hbits
  simp only [flagBits, List.flatMap_cons, List.append_assoc] at hbits
  generalize fl[j] = f at *
  simp only [ends_bind, ends_check, ends_ite]
  refine ⟨hroom, ?_⟩
  cases f with
  | used =>
    refine ends_flag (b := true) hbits fun q hq => ⟨fun _ => ?_, fun hc => absurd rfl hc⟩
    refine (ends_pure _).mpr ?_
    refine h.next hat ?_ ?_ (fun k hk => ?_) hq
    · exact ⟨rfl, rfl, rfl, rfl⟩
    · simp [selection]
    · simp [selection, hk]
  | kept =>
    simp only [selectionBits, List.append_assoc] at hbits
    refine ends_flag (b := false) hbits fun q hq => ⟨fun hc => absurd hc (by decide), fun _ => ?_⟩
    refine ends_flag (b := true) hq fun q' hq' => ?_
    refine (ends_pure _).mpr ?_
    refine h.next hat ?_ ?_ (fun k hk => ?_) hq'
    · exact ⟨rfl, rfl, rfl, rfl⟩
    · simp [selection]
    · simp [selection, hk]
  | dropped =>
    simp only [selectionBits, List.append_assoc] at hbits
    refine ends_flag (b := false) hbits fun q hq => ⟨fun hc => absurd hc (by decide), fun _ => ?_⟩
    refine ends_flag (b := false) hq fun q' hq' => ?_
    refine (ends_pure _).mpr ?_
    refine h.next hat ?_ ?_ (fun k hk => ?_) hq'
    · exact ⟨rfl, rfl, rfl, rfl⟩
    · simp [selection]
    · simp [selection, hk]

theorem endsIff_readFlags (h : p.Ahead c (flagBits fl ++ r)) :
    EndsIff (fl.length ≤ maxRef) (set.readFlags fl.length) p fun set' q => set.SameHead set' ∧
      (∀ k, k < fl.length → fl[k]? = some (set'.selection k)) ∧ q.Ahead c r := by
  have hstart : Reads c set fl r 0 set p := ⟨⟨rfl, rfl, rfl, rfl⟩, fun k hk => by omega, h⟩
  unfold readFlags
  refine ⟨fun hroom => ?_, fun hret => not_lt.mp fun hroom => ?_⟩
  · refine (forBelow_ends (Reads c set fl r) (fun j s q hj hq => hq.round hj (by omega))
      hstart).imp fun s q hq => ⟨hq.head, hq.entry, ?_⟩
    simpa [flagBits] using hq.ahead
  · refine forBelow_not_returns (Reads c set fl r) (fun j s q hj hq => hq.round (by omega) hj)
      (fun s q _ hround => ?_) hroom hstart hret
    exact absurd (ends_check.mp (ends_bind.mp hround)).1 (by decide)

end RefPicSet

/-! ## One set -/

namespace HevcStSps

/-- The sets `sets` are those of the tables. -/
def Holds (sps : HevcStSps) (sets : List DeltaSet) : Prop :=
  ∀ i S, sets[i]? = some S → sps.HoldsAt i S

variable {sps sps' : HevcStSps} {done : List DeltaSet} {own : Bool}

theorem Holds.concat (h : sps.Holds done) (hsame : sps.SameBut done.length sps') {S : DeltaSet}
    (hat : sps'.HoldsAt done.length S) : sps'.Holds (done ++ [S]) := by
  intro i T hT
  rcases Nat.lt_trichotomy i done.length with hi | rfl | hi
  · rw [List.getElem?_append_left hi] at hT
    exact (h i T hT).congr hsame (by omega)
  · simp only [List.getElem?_concat_length, Option.some.injEq] at hT
    exact hT ▸ hat
  · rw [List.getElem?_eq_none (by rw [List.length_append, List.length_singleton]; omega)] at hT
    simp at hT

theorem clipNumPics_eq {v : ℕ} (hv : v ≤ sps.spsMaxDecPicBufferingMinus1)
    (hlim : sps.spsMaxDecPicBufferingMinus1 < 256) : sps.clipNumPics v = v := by
  unfold clipNumPics
  rw [toInt32_of_fits (by unfold FitsInt32; omega)]
  unfold clip3
  rw [if_neg (by omega), if_neg (by omega)]
  rfl

variable {set : RefPicSet}

theorem endsIff_readCoded (hlim : sps.spsMaxDecPicBufferingMinus1 < 256)
    {s0 s1 : List (ℕ × Bool)} (h0 : s0.length ≤ sps.spsMaxDecPicBufferingMinus1)
    (h1 : s1.length ≤ sps.spsMaxDecPicBufferingMinus1) (hv : ∀ e ∈ s0 ++ s1, e.1 < 2 ^ 15)
    (h : p.Ahead c (golomb s0.length ++ (golomb s1.length ++ (picBits s0 ++ picBits s1)) ++ r)) :
    EndsIff (s0.length ≤ maxRef ∧ s1.length ≤ maxRef) (sps.readCoded set) p fun set' q =>
      set'.interRefPicSetPredictionFlag = set.interRefPicSetPredictionFlag ∧
        (set'.s0.pics = s0 ∧ set'.s0.numPics = s0.length) ∧
          (set'.s1.pics = s1 ∧ set'.s1.numPics = s1.length) ∧ q.Ahead c r := by
  simp only [List.append_assoc] at h
  unfold readCoded
  refine (ends_ue h (by omega) fun q hq => ?_ : Ends ue p fun v q => v = s0.length ∧
    q.Ahead c (golomb s1.length ++ (picBits s0 ++ (picBits s1 ++ r)))).bindIff ?_
  · exact ⟨rfl, hq⟩
  rintro _ q ⟨rfl, hq⟩
  refine (ends_ue hq (by omega) fun q hq => ?_ : Ends ue q fun v q => v = s1.length ∧
    q.Ahead c (picBits s0 ++ (picBits s1 ++ r))).bindIff ?_
  · exact ⟨rfl, hq⟩
  rintro _ q ⟨rfl, hq⟩
  rw [clipNumPics_eq h0 hlim, clipNumPics_eq h1 hlim]
  have hread0 := CodedPics.endsIff_read (s := { set.s0 with numPics := s0.length }) rfl
    (fun e he => hv e (List.mem_append_left _ he)) hq
  refine hread0.bind fun c0 q0 _ hc0 => ?_
  have hread1 := CodedPics.endsIff_read (s := { set.s1 with numPics := s1.length }) rfl
    (fun e he => hv e (List.mem_append_right _ he)) hc0.2.2
  exact hread1.bindEnds fun c1 q1 _ hc1 => (ends_pure _).mpr
    ⟨rfl, ⟨hc0.1, hc0.2.1⟩, ⟨hc1.1, hc1.2.1⟩, hc1.2.2⟩

theorem rIdx_eq {n : ℕ} (hset : set.deltaIdxMinus1 < n) (hn : n ≤ maxRefPicSet) :
    set.rIdx n = n - (set.deltaIdxMinus1 + 1) := by
  unfold maxRefPicSet at hn
  unfold RefPicSet.rIdx
  rw [Int.emod_eq_of_lt (by omega) (by omega)]
  omega

/-- `delta_idx_minus1` is only there in a slice header. -/
theorem ends_deltaIdx (hown : own = true ↔ done.length = sps.numShortTermRefPicSets) {k : ℕ}
    (hk : own = false → k = 0) (hlt : k < 2 ^ 31)
    (h : p.Ahead c ((if own then golomb k else []) ++ r)) :
    Ends (readIf (done.length = sps.numShortTermRefPicSets) ue 0) p fun v q => k = v ∧ q.Ahead c r := by
  rw [ends_readIf, ← hown]
  cases own with
  | true => exact ⟨fun _ => ends_ue h hlt fun q hq => ⟨rfl, hq⟩, fun hc => absurd rfl hc⟩
  | false =>
    refine ⟨fun hc => absurd hc (by decide), fun _ => ⟨hk rfl, ?_⟩⟩
    simpa using h

theorem endsIff_readPredicted (hown : own = true ↔ done.length = sps.numShortTermRefPicSets)
    (hidx : done.length ≤ maxRefPicSet) {k abs : ℕ} {sign : Bool} {flags : List Selection}
    (hv : (StRefPicSet.predicted k sign abs flags).Valid sps.spsMaxDecPicBufferingMinus1 own done)
    (hcard : sps.numDeltaPocs (done.length - (k + 1)) = (StRefPicSet.ref done k).card)
    (hset : set.deltaIdxMinus1 = 0) (h : p.Ahead c ((if own then golomb k else []) ++
      (fixed 1 sign.toNat ++ (golomb abs ++ flagBits flags)) ++ r)) :
    EndsIff ((StRefPicSet.ref done k).card < maxRef) (sps.readPredicted done.length set) p fun set' q =>
      set'.interRefPicSetPredictionFlag = set.interRefPicSetPredictionFlag ∧
        set'.rIdx done.length = done.length - (k + 1) ∧
          set'.deltaRPS = StRefPicSet.deltaRps sign abs ∧
            (∀ j, j < flags.length → flags[j]? = some (set'.selection j)) ∧ q.Ahead c r := by
  obtain ⟨hk, hk0, habs, hlen⟩ := hv
  have hle : maxRefPicSet = 64 := rfl
  simp only [List.append_assoc] at h
  unfold readPredicted
  rw [hset]
  refine (ends_deltaIdx hown hk0 (by omega) h).bindIff ?_
  rintro _ q ⟨rfl, hq⟩
  refine (ends_flag hq fun q hq => ?_ : Ends (u 1) q fun v q => sign.toNat = v ∧
    q.Ahead c (golomb abs ++ (flagBits flags ++ r))).bindIff ?_
  · exact ⟨rfl, hq⟩
  rintro _ q ⟨rfl, hq⟩
  refine (ends_ue hq (by omega) fun q hq => ?_ : Ends ue q fun v q => abs = v ∧
    q.Ahead c (flagBits flags ++ r)).bindIff ?_
  · exact ⟨rfl, hq⟩
  rintro _ q ⟨rfl, hq⟩
  rw [Nat.mod_eq_of_lt (show k < 256 by omega), Nat.mod_eq_of_lt (show abs < 2 ^ 16 by omega)]
  dsimp only
  generalize hhead : ({ set with
    deltaIdxMinus1 := k
    deltaRpsSign := sign.toNat
    absDeltaRpsMinus1 := abs } : RefPicSet) = head
  have hhinter : head.interRefPicSetPredictionFlag = set.interRefPicSetPredictionFlag := by rw [← hhead]
  have hhidx : head.deltaIdxMinus1 = k := by rw [← hhead]
  have hhrIdx : head.rIdx done.length = done.length - (k + 1) := by
    rw [rIdx_eq (by omega) hidx, hhidx]
  have hhrps : head.deltaRPS = StRefPicSet.deltaRps sign abs := by
    rw [← hhead]
    rfl
  rw [hhrIdx, hcard, ← hlen]
  have hcheck : Ends (check (done.length - (k + 1) ≤ maxRefPicSet)) q fun _ q' =>
      q'.Ahead c (flagBits flags ++ r) := ends_check.mpr ⟨by omega, hq⟩
  refine hcheck.bindIff fun _ q' hq' => ?_
  refine ((RefPicSet.endsIff_readFlags hq').congr (by omega)).imp fun set' q _ hset' => ?_
  obtain ⟨hsame, hsel, hq⟩ := hset'
  refine ⟨hsame.inter.trans hhinter, ?_, ?_, hsel, hq⟩
  · rw [← hhrIdx]
    unfold RefPicSet.rIdx
    rw [hsame.idx]
  · rw [← hhrps]
    unfold RefPicSet.deltaRPS
    rw [hsame.sign, hsame.abs]

/-- The step of a chain: a set is read and derived if the arrays have room for it. -/
theorem endsIff_readShortTermRefPicSet
    (hown : own = true ↔ done.length = sps.numShortTermRefPicSets) (hidx : done.length ≤ maxRefPicSet)
    (hlim : sps.spsMaxDecPicBufferingMinus1 < 256) (hdone : sps.Holds done) {st : StRefPicSet}
    (hv : st.Valid sps.spsMaxDecPicBufferingMinus1 own done)
    (h : p.Ahead c (st.bits own done.length ++ r)) :
    EndsIff (st.Fits done) (sps.readShortTermRefPicSet done.length) p fun sps' q =>
      sps.SameBut done.length sps' ∧ sps'.Holds (done ++ [st.derived done]) ∧ q.Ahead c r := by
  unfold readShortTermRefPicSet
  have hcheck : Ends (check (done.length ≤ maxRefPicSet)) p fun _ q =>
      q.Ahead c (st.bits own done.length ++ r) := ends_check.mpr ⟨hidx, h⟩
  refine hcheck.bindIff fun _ p h => ?_
  cases st with
  | coded s0 s1 =>
    obtain ⟨h0, h1, hs⟩ := hv
    have hinter : Ends (readIf (done.length ≠ 0) (u 1) 0) p fun v q => v = 0 ∧ q.Ahead c
        (golomb s0.length ++ (golomb s1.length ++ (picBits s0 ++ picBits s1)) ++ r) := by
      simp only [StRefPicSet.bits, List.append_assoc] at h ⊢
      rw [ends_readIf]
      refine ⟨fun hne => ?_, fun heq => ⟨rfl, ?_⟩⟩
      · rw [if_pos hne] at h
        exact ends_flag (b := false) h fun q hq => ⟨rfl, hq⟩
      · rw [if_neg heq] at h
        exact h
    refine hinter.bindIff ?_
    rintro _ q ⟨rfl, hq⟩
    rw [if_neg (by decide)]
    refine (endsIff_readCoded hlim h0 h1 hs hq).bindEnds fun set' q hfit hset' => ?_
    obtain ⟨hsinter, hs0, hs1, hq⟩ := hset'
    have hset : (sps.setRefPicSet done.length set').shortTermRefPicSet done.length = set' :=
      Function.update_self _ _ _
    refine (ends_compute_coded ?_ ?_ ?_).imp fun sps' q' hsps' => ?_
    · rw [hset, hsinter]
      rfl
    · rw [hset, hs0.2]
      exact hfit.1
    · rw [hset, hs1.2]
      exact hfit.2
    · rw [hset, hs0.1, hs1.1] at hsps'
      obtain ⟨rfl, hsame, hat⟩ := hsps'
      have hsame : sps.SameBut done.length sps' := ⟨hsame.limit, hsame.numSets, hsame.s0, hsame.s1,
        hsame.numDeltaPocs⟩
      exact ⟨hsame, hdone.concat hsame hat, hq⟩
  | predicted k sign abs flags =>
    obtain ⟨hk, hk0, habs, hlen⟩ := hv
    have hat : done[done.length - (k + 1)]? = some (StRefPicSet.ref done k) := by
      unfold StRefPicSet.ref
      rw [List.getD_eq_getElem?_getD, List.getElem?_eq_getElem (by omega)]
      rfl
    have hS := hdone _ _ hat
    have hinter : Ends (readIf (done.length ≠ 0) (u 1) 0) p fun v q => v = 1 ∧ q.Ahead c
        ((if own then golomb k else []) ++ (fixed 1 sign.toNat ++ (golomb abs ++ flagBits flags)) ++ r) := by
      simp only [StRefPicSet.bits, List.append_assoc] at h ⊢
      rw [ends_readIf]
      exact ⟨fun hne => ends_flag (b := true) h fun q hq => ⟨rfl, hq⟩, fun heq => absurd heq (by omega)⟩
    refine hinter.bindIff ?_
    rintro _ q ⟨rfl, hq⟩
    rw [if_pos (by decide)]
    refine (endsIff_readPredicted hown hidx ⟨hk, hk0, habs, hlen⟩ hS.numDeltaPocs rfl hq).bindEnds
      fun set' q hfit hset' => ?_
    obtain ⟨hsinter, hrIdx, hrps, hsel, hq⟩ := hset'
    have hset : (sps.setRefPicSet done.length set').shortTermRefPicSet done.length = set' :=
      Function.update_self _ _ _
    refine (ends_compute_predicted hset (hsinter.trans rfl) (by omega) (by omega) (S := StRefPicSet.ref done k) ?_ hlen
      (by omega) hsel).imp fun sps' q' hsps' => ?_
    · rw [hrIdx]
      exact ⟨hS.s0, hS.s1, hS.numDeltaPocs⟩
    · rw [hrps] at hsps'
      obtain ⟨rfl, hsame, hat⟩ := hsps'
      have hsame : sps.SameBut done.length sps' := ⟨hsame.limit, hsame.numSets, hsame.s0, hsame.s1,
        hsame.numDeltaPocs⟩
      exact ⟨hsame, hdone.concat hsame hat, hq⟩

/-! ## Chains -/

theorem bits_ne_nil (st : StRefPicSet) (idx : ℕ) : st.bits false idx ≠ [] := by
  cases st with
  | coded s0 s1 =>
    apply List.ne_nil_of_length_pos
    simp only [StRefPicSet.bits, List.length_append, length_golomb]
    omega
  | predicted k sign abs flags => exact List.cons_ne_nil _ _

variable {sets : List StRefPicSet}

/-- The sets of a sequence parameter set from the next one on. -/
theorem endsIff_readSets (hidx : sps.numShortTermRefPicSets ≤ maxRefPicSet)
    (hnum : done.length + sets.length = sps.numShortTermRefPicSets)
    (hlim : sps.spsMaxDecPicBufferingMinus1 < 256) (hdone : sps.Holds done)
    (hv : StRefPicSet.Along (StRefPicSet.Valid sps.spsMaxDecPicBufferingMinus1 false) done sets)
    (h : p.Ahead True (StRefPicSet.chainBits done.length sets ++ r)) :
    EndsIff (StRefPicSet.Along StRefPicSet.Fits done sets) (readSets sets.length done.length sps) p
      fun res _ => res.1 = true ∧ res.2.spsMaxDecPicBufferingMinus1 = sps.spsMaxDecPicBufferingMinus1 ∧
        res.2.numShortTermRefPicSets = sps.numShortTermRefPicSets ∧
          res.2.Holds (StRefPicSet.derivedChain done sets) := by
  induction sets generalizing done sps p with
  | nil => exact ⟨fun _ => (ends_pure _).mpr ⟨rfl, rfl, rfl, hdone⟩, fun _ => trivial⟩
  | cons st sets ih =>
    rw [List.length_cons] at hnum
    obtain ⟨hst, hsets⟩ := hv
    simp only [StRefPicSet.chainBits, List.append_assoc] at h
    have hmore : Ends moreRbspData p fun more q => more = true ∧
        q.Ahead True (st.bits false done.length ++ (StRefPicSet.chainBits (done.length + 1) sets ++ r)) := by
      obtain ⟨hval, hq, -⟩ := h.moreRbspData
      refine (ends_step _).mpr ⟨hval.trans (decide_eq_true ?_), hq⟩
      exact List.append_ne_nil_of_left_ne_nil (bits_ne_nil st _) _
    refine hmore.bindIff ?_
    rintro _ q ⟨rfl, hq⟩
    rw [if_neg (by decide)]
    have hown : false = true ↔ done.length = sps.numShortTermRefPicSets :=
      ⟨fun hc => absurd hc (by decide), fun hc => by omega⟩
    have hread := endsIff_readShortTermRefPicSet hown (by omega) hlim hdone hst hq
    refine hread.bind fun sps' q' _ hsps' => ?_
    obtain ⟨hsame, hholds, hq'⟩ := hsps'
    have hlength : (done ++ [st.derived done]).length = done.length + 1 := by simp
    rw [← hlength] at hq' ⊢
    rw [← hsame.limit] at hlim hsets
    rw [← hsame.numSets] at hidx hnum
    rw [← hsame.limit, ← hsame.numSets]
    exact ih hidx (by omega) hlim hholds hsets hq'

theorem endsIff_readShortTermRefPicSets (hlen : sets.length ≤ maxRefPicSet)
    (hlim : sps.spsMaxDecPicBufferingMinus1 < 256)
    (hv : StRefPicSet.Along (StRefPicSet.Valid sps.spsMaxDecPicBufferingMinus1 false) [] sets)
    (h : p.Ahead True (golomb sets.length ++ (StRefPicSet.chainBits 0 sets ++ r))) :
    EndsIff (StRefPicSet.Along StRefPicSet.Fits [] sets) sps.readShortTermRefPicSets p
      fun res _ => res.1 = true ∧ res.2.spsMaxDecPicBufferingMinus1 = sps.spsMaxDecPicBufferingMinus1 ∧
        res.2.numShortTermRefPicSets = sets.length ∧
          res.2.Holds (StRefPicSet.derivedChain [] sets) := by
  have hle : maxRefPicSet = 64 := rfl
  unfold readShortTermRefPicSets
  refine (ends_ue h (by omega) fun q hq => ?_ : Ends ue p fun v q => sets.length = v ∧
    q.Ahead True (StRefPicSet.chainBits 0 sets ++ r)).bindIff ?_
  · exact ⟨rfl, hq⟩
  rintro _ q ⟨rfl, hq⟩
  rw [Nat.mod_eq_of_lt (show sets.length < 256 by omega), if_pos hlen]
  have hstart : Holds { sps with numShortTermRefPicSets := sets.length } [] :=
    fun i S hS => by simp at hS
  exact endsIff_readSets hlen (Nat.zero_add _) hlim hstart hv hq

/-! ## The sets of the slices -/

/-- Each slice that codes its own set, with its parser in front of the set, leaves
the derived set behind those of the sequence parameter set. -/
def DerivesSlices (sets : List DeltaSet) : HevcStSps → List (StRefPicSet × RbspParser) → Prop
  | _, [] => True
  | sps, (st, q) :: slices =>
    Ends (sps.readShortTermRefPicSet sets.length) q fun sps' _ =>
      sps'.Holds (sets ++ [st.derived sets]) ∧ DerivesSlices sets sps' slices

theorem length_derivedChain (done : List DeltaSet) (sets : List StRefPicSet) :
    (StRefPicSet.derivedChain done sets).length = done.length + sets.length := by
  induction sets generalizing done with
  | nil => rfl
  | cons st sets ih =>
    rw [StRefPicSet.derivedChain, ih]
    simp only [List.length_append, List.length_cons, List.length_nil]
    omega

theorem Holds.take {sets : List DeltaSet} {S : DeltaSet} (h : sps.Holds (sets ++ [S])) :
    sps.Holds sets := by
  intro i T hT
  apply h i T
  rw [List.getElem?_append_left (List.getElem?_eq_some_iff.mp hT).1, hT]

theorem derivesSlices_iff {sets : List DeltaSet} {slices : List (StRefPicSet × RbspParser)}
    (hnum : sps.numShortTermRefPicSets = sets.length) (hlen : sets.length ≤ maxRefPicSet)
    (hlim : sps.spsMaxDecPicBufferingMinus1 < 256) (hsets : sps.Holds sets)
    (hslices : ∀ x ∈ slices, x.1.Valid sps.spsMaxDecPicBufferingMinus1 true sets ∧
      ∃ c r, x.2.Ahead c (x.1.bits true sets.length ++ r)) :
    sps.DerivesSlices sets slices ↔ ∀ x ∈ slices, x.1.Fits sets := by
  induction slices generalizing sps with
  | nil => simp [DerivesSlices]
  | cons x slices ih =>
    obtain ⟨hv, c, r, hahead⟩ := hslices x List.mem_cons_self
    have hown : true = true ↔ sets.length = sps.numShortTermRefPicSets :=
      ⟨fun _ => hnum.symm, fun _ => rfl⟩
    have hread := endsIff_readShortTermRefPicSet hown hlen hlim hsets hv hahead
    rw [List.forall_mem_cons]
    constructor
    · intro hd
      have hfit := hread.of_returns hd.returns
      obtain ⟨sps', q, -, ⟨hsame, hholds, -⟩, -, hrest⟩ := (hread.ends hfit).and hd
      refine ⟨hfit, (ih (hsame.numSets.trans hnum) (by rwa [hsame.limit]) hholds.take ?_).mp hrest⟩
      rw [hsame.limit]
      exact fun y hy => hslices y (List.mem_cons_of_mem _ hy)
    · intro ⟨hfit, hrest⟩
      refine (hread.ends hfit).imp fun sps' q hsps' => ?_
      obtain ⟨hsame, hholds, -⟩ := hsps'
      refine ⟨hholds, (ih (hsame.numSets.trans hnum) (by rwa [hsame.limit]) hholds.take ?_).mpr hrest⟩
      rw [hsame.limit]
      exact fun y hy => hslices y (List.mem_cons_of_mem _ hy)

/-- The sets of a sequence parameter set and of the slices are derived as H.265
says if and only if the arrays have room for every one of them. -/
theorem readShortTermRefPicSets_derives_iff {sets : List StRefPicSet}
    {slices : List (StRefPicSet × RbspParser)} (hlen : sets.length ≤ maxRefPicSet)
    (hlim : sps.spsMaxDecPicBufferingMinus1 < 256)
    (hv : StRefPicSet.Along (StRefPicSet.Valid sps.spsMaxDecPicBufferingMinus1 false) [] sets)
    (h : p.Ahead True (golomb sets.length ++ (StRefPicSet.chainBits 0 sets ++ r)))
    (hslices : ∀ x ∈ slices,
      x.1.Valid sps.spsMaxDecPicBufferingMinus1 true (StRefPicSet.derivedChain [] sets) ∧
        ∃ c r, x.2.Ahead c (x.1.bits true sets.length ++ r)) :
    Ends sps.readShortTermRefPicSets p (fun res _ => res.1 = true ∧
        res.2.Holds (StRefPicSet.derivedChain [] sets) ∧
          res.2.DerivesSlices (StRefPicSet.derivedChain [] sets) slices) ↔
      StRefPicSet.Along StRefPicSet.Fits [] sets ∧
        ∀ x ∈ slices, x.1.Fits (StRefPicSet.derivedChain [] sets) := by
  have hread := endsIff_readShortTermRefPicSets hlen hlim hv h
  have hchain : (StRefPicSet.derivedChain [] sets).length = sets.length := by
    rw [length_derivedChain, List.length_nil, Nat.zero_add]
  have hrest : ∀ res : Bool × HevcStSps,
      res.2.spsMaxDecPicBufferingMinus1 = sps.spsMaxDecPicBufferingMinus1 →
        res.2.numShortTermRefPicSets = sets.length →
          res.2.Holds (StRefPicSet.derivedChain [] sets) →
            (res.2.DerivesSlices (StRefPicSet.derivedChain [] sets) slices ↔
              ∀ x ∈ slices, x.1.Fits (StRefPicSet.derivedChain [] sets)) := by
    intro res hlimit hnum hholds
    refine derivesSlices_iff (hnum.trans hchain.symm) (by omega) (by omega) hholds fun x hx => ?_
    rw [hlimit, hchain]
    exact hslices x hx
  constructor
  · intro hends
    have hfits := hread.of_returns hends.returns
    obtain ⟨res, q, -, ⟨-, hlimit, hnum, hholds⟩, -, -, hslices⟩ := (hread.ends hfits).and hends
    exact ⟨hfits, (hrest res hlimit hnum hholds).mp hslices⟩
  · intro ⟨hfits, hslices⟩
    refine (hread.ends hfits).imp fun res q hres => ?_
    obtain ⟨hdone, hlimit, hnum, hholds⟩ := hres
    exact ⟨hdone, hholds, (hrest res hlimit hnum hholds).mpr hslices⟩

/-! ## Runs -/

/-- The tables behind `initSps`, with the given `sps_max_dec_pic_buffering_minus1`. -/
def cleared (limit : ℕ) : HevcStSps where
  spsMaxDecPicBufferingMinus1 := limit
  numShortTermRefPicSets := 0
  shortTermRefPicSet _ :=
    { interRefPicSetPredictionFlag := false
      deltaIdxMinus1 := 0
      deltaRpsSign := 0
      absDeltaRpsMinus1 := 0
      usedByCurrPicFlag := fun _ => false
      useDeltaFlag := fun _ => false
      s0 := ⟨0, fun _ => 0, fun _ => false⟩
      s1 := ⟨0, fun _ => 0, fun _ => false⟩ }
  s0 := ⟨fun _ => 0, fun _ _ => 0, fun _ _ => false⟩
  s1 := ⟨fun _ => 0, fun _ _ => 0, fun _ _ => false⟩
  numDeltaPocs _ := 0

/-- The parser in front of the bytes `raw`, which hold no start code. -/
def parserOf (raw : List UInt8) : RbspParser :=
  .init ⟨memOf raw, raw.length, 0, raw.length⟩ (fun _ => 0) false

theorem ahead_parserOf {raw : List UInt8} {k : ℕ} (hsmall : 8 * raw.length < 2 ^ 32) (hk : k < 8)
    (hbits : window (memOf raw) 0 (8 * raw.length) = r ++ true :: List.replicate k false) :
    (parserOf raw).Ahead True r := by
  refine RbspParser.ahead_init _ True ⟨rfl, fun i hi => ?_⟩ (deemulate_false 0 0 _) hsmall
    (fun _ => by simp [bitAt]) hk hbits
  rw [Nat.zero_add, Nat.mod_eq_of_lt hi]
  exact memOf_of_lt hi

def shortChain : List StRefPicSet :=
  [.coded [(0, true), (1, false)] [(2, true)],
    .predicted 0 true 0 [.used, .dropped, .kept, .used]]

/-- A set predicted from the first one. -/
def sliceSet : StRefPicSet := .predicted 1 false 3 [.used, .used, .dropped, .used]

theorem derives_shortChain :
    Ends (cleared 4).readShortTermRefPicSets (parserOf [109, 104, 254, 56]) (fun res _ => res.1 = true ∧
      res.2.Holds (StRefPicSet.derivedChain [] shortChain) ∧
        res.2.DerivesSlices (StRefPicSet.derivedChain [] shortChain) [(sliceSet, parserOf [161, 51])]) := by
  have hahead : (parserOf [109, 104, 254, 56]).Ahead True
      (golomb shortChain.length ++ (StRefPicSet.chainBits 0 shortChain ++ [])) :=
    ahead_parserOf (k := 3) (by decide) (by decide) (by decide +kernel)
  refine (readShortTermRefPicSets_derives_iff (by decide) (by decide) (by decide +kernel) hahead
    (List.forall_mem_singleton.mpr ⟨by decide +kernel, True, [], ?_⟩)).mpr
      ⟨by decide +kernel, List.forall_mem_singleton.mpr (by decide +kernel)⟩
  exact ahead_parserOf (k := 0) (by decide) (by decide) (by decide +kernel)

/-- Fifteen pictures, sixteen predicted from them, and a set predicted from those. -/
def overrunChain : List StRefPicSet :=
  [.coded (List.replicate 15 (0, true)) [], .predicted 0 true 0 (List.replicate 16 .used),
    .predicted 0 true 0 (List.replicate 17 .used)]

/-- The last set has 17 flags. -/
theorem not_derives_overrunChain :
    ¬Ends (cleared 15).readShortTermRefPicSets
      (parserOf [32, 67, 255, 255, 255, 255, 255, 255, 255, 255, 248]) (fun res _ => res.1 = true ∧
        res.2.Holds (StRefPicSet.derivedChain [] overrunChain)) := by
  intro hends
  have hahead : (parserOf [32, 67, 255, 255, 255, 255, 255, 255, 255, 255, 248]).Ahead True
      (golomb overrunChain.length ++ (StRefPicSet.chainBits 0 overrunChain ++ [])) :=
    ahead_parserOf (k := 3) (by decide) (by decide) (by decide +kernel)
  have hv : StRefPicSet.Along (StRefPicSet.Valid (cleared 15).spsMaxDecPicBufferingMinus1 false) []
    overrunChain := by decide +kernel
  have hread := endsIff_readShortTermRefPicSets (by decide) (by decide) hv hahead
  exact absurd (hread.of_returns hends.returns) (by decide +kernel)

end HevcStSps

end VcuCodec
