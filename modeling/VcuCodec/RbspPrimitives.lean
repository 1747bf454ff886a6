import VcuCodec.RbspDescriptors
import VcuCodec.RbspSteps

/-!
# The primitives of the RBSP parser

The rest of `lib_common_dec/RbspParser.c`: the reads of whole bytes and of the
trailing bits.  `Within` says that the bit cursor is inside what has been fetched;
a call keeps it there if every single bit or byte it asks for is there behind the
refill.
-/

namespace VcuCodec

open CheckedRuns Checked

namespace Parse

def byteAligned : Parse Bool := step fun p => (p.iTotalBitIndex % 8 = 0, p)

def getNextBit : Parse ℕ := step fun p => p.getNextBit

def skip (iNumBits : ℕ) : Parse Unit := step fun p => ((), p.skip iNumBits)

def i (iNumBits : ℕ) : Parse ℤ := do
  let mask := if 0 < iNumBits then 1 <<< (iNumBits - 1) - 1 else 0
  let val ← u iNumBits
  let absVal : ℤ := (val &&& mask : ℕ)
  return if val &&& (2 ^ 32 - 1 - mask) ≠ 0 then -absVal else absVal

/-- `getbyte`, with its assertions.  At the end of the data the cursor goes to the
end of the last byte. -/
def getByte : Parse ℕ := fun p =>
  if p.iTotalBitIndex % 8 ≠ 0 then .error .outOfBounds
  else
    let r := if p.iTrailingBitOneIndex < p.iTotalBitIndex + 8 then p.fetchData else (true, p)
    let q := r.2
    if !r.1 then
      .ok (0, { q with
        iTotalBitIndex := q.iTrailingBitOneIndexConceal
        pByte := q.iTrailingBitOneIndexConceal / 8 })
    else if q.iTrailingBitOneIndex < q.iTotalBitIndex then .error .outOfBounds
    else .ok ((q.pBuffer (p.iTotalBitIndex / 8)).toNat,
      { q with iTotalBitIndex := q.iTotalBitIndex + 8, pByte := q.pByte + 1 })

/-- Zero bits up to the next byte. -/
def alignmentZeros : (fuel : ℕ) → Parse Bool
  | 0 => stuck .unfinished
  | fuel + 1 => do
    let aligned ← byteAligned
    if aligned then return true
    let bitEqualToZero ← u 1
    if bitEqualToZero ≠ 0 then return false
    alignmentZeros fuel

def byteAlignment (fuel : ℕ) : Parse Bool := do
  let bitEqualToOne ← u 1
  if bitEqualToOne = 0 then return false
  alignmentZeros fuel

def rbspTrailingBits (fuel : ℕ) : Parse Bool := do
  let atEnd ← step fun p =>
    let q := p.removeTrailingBits
    (decide (q.iTotalBitIndex = q.iTrailingBitOneIndex), q)
  if !atEnd then return false
  step fun p => ((), { p with iTrailingBitOneIndex := p.iTrailingBitOneIndexConceal })
  let rbspStopOneBit ← u 1
  if rbspStopOneBit = 0 then return false
  alignmentZeros fuel

end Parse

namespace RbspParser

variable {p q r : RbspParser} {n k : ℕ}

/-- The cursor is inside what has been fetched of a payload of `n` bytes. -/
structure Within (p : RbspParser) (n : ℕ) : Prop where
  total_le : p.iTotalBitIndex ≤ p.iTrailingBitOneIndex
  trailing_le : p.iTrailingBitOneIndex + 8 * p.pending.length ≤ 8 * n
  conceal_ge : p.iTrailingBitOneIndex ≤ p.iTrailingBitOneIndexConceal
  starts : p.uNumScDetect ≤ 2
  small : 8 * (n + 1) < 2 ^ 32

/-- `q` is behind `p`, in the same payload. -/
structure Moves (p q : RbspParser) (n : ℕ) : Prop where
  within : q.Within n
  le : p.iTotalBitIndex ≤ q.iTotalBitIndex

theorem Within.moves (h : p.Within n) : Moves p p n := ⟨h, le_rfl⟩

theorem Moves.trans (h : Moves p q n) (h' : Moves q r n) : Moves p r n :=
  ⟨h'.within, h.le.trans h'.le⟩

theorem Within.total_le_payload (h : p.Within n) : p.iTotalBitIndex ≤ 8 * n := by
  have := h.total_le
  have := h.trailing_le
  omega

theorem Within.moreRbspDataConceal (h : p.Within n) : p.moreRbspDataConceal = true :=
  decide_eq_true (h.total_le.trans h.conceal_ge)

theorem Within.bitsAhead_eq (h : p.Within n) :
    p.bitsAhead = p.iTrailingBitOneIndex - p.iTotalBitIndex := by
  have h1 := h.total_le
  have h2 := h.trailing_le
  have h3 := h.small
  unfold bitsAhead
  omega

theorem Within.move (h : p.Within n) {i j : ℕ} (hi : i ≤ p.iTrailingBitOneIndex) :
    Within { p with iTotalBitIndex := i, pByte := j } n :=
  ⟨hi, h.trailing_le, h.conceal_ge, h.starts, h.small⟩

theorem Within.removeTrailingBits (h : p.Within n) : p.removeTrailingBits.Within n := by
  have hle := p.trailingBitOne_le p.iTrailingBitOneIndex
  have htotal := h.total_le
  have htrailing := h.trailing_le
  have hlow : p.iTotalBitIndex ≤ p.removeTrailingBits.iTrailingBitOneIndex := by
    unfold RbspParser.removeTrailingBits
    dsimp only
    split <;> omega
  have hhigh : p.removeTrailingBits.iTrailingBitOneIndex ≤ p.iTrailingBitOneIndex := by
    unfold RbspParser.removeTrailingBits
    dsimp only
    split <;> omega
  have hpending : p.removeTrailingBits.pending = p.pending := rfl
  refine ⟨hlow, ?_, ?_, h.starts, h.small⟩
  · rw [hpending]
    omega
  · have hconceal : p.removeTrailingBits.iTrailingBitOneIndexConceal =
        (p.removeTrailingBits.iTrailingBitOneIndex + 8) / 8 * 8 := rfl
    omega

/-- A fetch keeps the cursor and what is in front of it. -/
theorem Within.fetchData (h : p.Within n) :
    p.fetchData.2.Within n ∧ p.fetchData.2.iTotalBitIndex = p.iTotalBitIndex := by
  unfold RbspParser.fetchData
  split
  · exact ⟨h, rfl⟩
  · next hfin =>
    have hstarts : p.uNumScDetect ≤ 1 := by
      have hne : p.uNumScDetect ≠ 2 := fun he => hfin (by simp [finishedFetching, he])
      have := h.starts
      omega
    obtain ⟨taken, hf⟩ := fetchLoop_fetches ANTI_EMUL_GRANULARITY p.iBufInOffset
      (p.iTrailingBitOneIndex / 8) hstarts rfl
    have hpending := congrArg List.length hf.pending
    rw [List.length_append] at hpending
    have hwithin : (fetchLoop ANTI_EMUL_GRANULARITY p.iBufInOffset (p.iTrailingBitOneIndex / 8)
        p).Within n := by
      have h1 := h.total_le
      have h2 := h.trailing_le
      have h3 := h.conceal_ge
      refine ⟨?_, ?_, ?_, hf.starts, h.small⟩
      · rw [hf.total, hf.trailing]
        omega
      · rw [hf.trailing]
        omega
      · rw [hf.trailing, hf.conceal]
        omega
    dsimp only
    split
    · exact ⟨hwithin.removeTrailingBits, hf.total⟩
    · exact ⟨hwithin, hf.total⟩

theorem Within.fetch_moves (h : p.Within n) : Moves p p.fetchData.2 n :=
  ⟨h.fetchData.1, h.fetchData.2.ge⟩

theorem Within.getCache24 (h : p.Within n) : Moves p p.getCache24.2 n := by
  unfold RbspParser.getCache24
  dsimp only
  split
  · exact h.fetch_moves
  · exact h.moves

theorem Within.skip (h : p.Within n) (k : ℕ) : Moves p (p.skip k) n := by
  have hrun := MeasuredLoops.run_rule (skipRound_lt k) (fun t => Moves p t.2 n)
    (fun t => Moves p t.2 n ∧ (t.1 = true → k ≤ t.2.bitsAhead)) ?_ ?_ (s := (true, p)) h.moves
  · obtain ⟨hm, hahead⟩ := hrun
    unfold RbspParser.skip
    dsimp only
    generalize MeasuredLoops.run (skipRound k) skipMeasure (skipRound_lt k) (true, p) = t at hm hahead
    obtain ⟨bRes, q⟩ := t
    dsimp only at hm hahead ⊢
    have hw := hm.within
    have htotal := hw.total_le
    have htrailing := hw.trailing_le
    have hsmall := hw.small
    cases bRes with
    | true =>
      have hk := hahead rfl
      rw [hw.bitsAhead_eq] at hk
      rw [if_pos rfl, Nat.mod_eq_of_lt (by omega)]
      exact ⟨hw.move (by omega), hm.le.trans (Nat.le_add_right _ _)⟩
    | false =>
      rw [if_neg (by decide)]
      exact ⟨hw.move le_rfl, hm.le.trans htotal⟩
  · rintro ⟨bRes, q⟩ t' hq ht
    simp only [skipRound] at ht
    split at ht
    · obtain rfl := Sum.inl.inj ht
      exact hq.trans hq.within.fetch_moves
    · cases ht
  · rintro ⟨bRes, q⟩ t' hq ht
    simp only [skipRound] at ht
    split at ht
    · cases ht
    · next hc =>
      obtain rfl := Sum.inr.inj ht
      exact ⟨hq, fun hb => not_lt.mp fun hlt => hc ⟨hb, hlt⟩⟩

/-! ## Single bits -/

/-- A bit is there for the cursor, or the data is at its end: the fetch for it does
not bring zero bits only. -/
def BitReady (p : RbspParser) : Prop :=
  p.iTotalBitIndex < p.iTrailingBitOneIndex ∨ p.fetchData.1 = false ∨
    p.iTotalBitIndex < p.fetchData.2.iTrailingBitOneIndex
deriving Decidable

theorem Within.takeBit (h : p.Within n) (hlt : p.iTotalBitIndex < p.iTrailingBitOneIndex) :
    Moves p p.takeBit.2 n :=
  ⟨h.move hlt, Nat.le_succ _⟩

theorem Within.getNextBit (h : p.Within n) (hready : p.BitReady) : Moves p p.getNextBit.2 n := by
  unfold RbspParser.getNextBit
  split
  · next hfetch =>
    dsimp only
    split
    · next hf =>
      obtain ⟨hw, htotal⟩ := h.fetchData
      have hlt : p.fetchData.2.iTotalBitIndex < p.fetchData.2.iTrailingBitOneIndex := by
        rw [htotal]
        rcases hready with hr | hr | hr
        · omega
        · rw [hr] at hf
          exact absurd hf (by decide)
        · exact hr
      exact h.fetch_moves.trans (hw.takeBit hlt)
    · exact h.fetch_moves
  · next hfetch => exact h.takeBit (by omega)

theorem Within.getNextBit_total (h : p.Within n) (hbit : p.getNextBit.1 ≠ 255) :
    p.getNextBit.2.iTotalBitIndex = p.iTotalBitIndex + 1 := by
  unfold RbspParser.getNextBit at hbit ⊢
  split
  · next hfetch =>
    rw [if_pos hfetch] at hbit
    dsimp only at hbit ⊢
    split
    · exact congrArg (· + 1) h.fetchData.2
    · next hf =>
      rw [if_neg hf] at hbit
      exact absurd rfl hbit
  · rfl

/-! ## The states a descriptor visits

`bit` is asked of every state at which a single bit is read, `count` of every state
at which the bits ahead are counted. -/

section Visits

variable (bit count : RbspParser → Prop)

/-- The single bits behind the first 24 of `u`. -/
def bitsVisits : ℕ → RbspParser → Prop
  | 0, _ => True
  | k + 1, p => bit p ∧ bitsVisits k p.getNextBit.2

def uVisits (iNumBits : ℕ) (p : RbspParser) : Prop :=
  p.moreRbspDataConceal = true →
    if iNumBits = 1 then bit p
    else count p ∧ count p.getCache24.2 ∧
      bitsVisits bit (iNumBits - 24) (p.getCache24.2.skip 24)

def ueSuffixVisits (k : ℕ) (p : RbspParser) : Prop :=
  k ≠ 0 → k < 32 → uVisits bit count k p

/-- The loop of `ue` for a code that is longer than the cache. -/
def ueLoop (p : RbspParser) : Option ℕ × RbspParser :=
  MeasuredLoops.run ueRound (fun t => t.1.remaining) ueRound_lt (p, 0)

def ueVisits (p : RbspParser) : Prop :=
  p.moreRbspDataConceal = true →
    count p ∧
      let q := p.getCache24.2
      let n := 23 - alLog2 p.getCache24.1
      if n = 23 then
        (∀ t, Relation.ReflTransGen (fun s s' => ueRound s = .inl s') (q, 0) t → bit t.1) ∧
          ∀ k r, ueLoop q = (some k, r) → ueSuffixVisits bit count k r
      else count q ∧ ueSuffixVisits bit count n (q.skip (n + 1))

/-- At most `k` zero bits up to the next byte. -/
def zerosVisits : ℕ → RbspParser → Prop
  | 0, _ => True
  | k + 1, p => p.iTotalBitIndex % 8 ≠ 0 →
    uVisits bit count 1 p ∧ ((p.u 1).1 = 0 → zerosVisits k (p.u 1).2)

/-- A one bit, and zero bits up to the next byte. -/
def alignmentVisits (p : RbspParser) : Prop :=
  uVisits bit count 1 p ∧ ((p.u 1).1 ≠ 0 → zerosVisits bit count 8 (p.u 1).2)

end Visits

/-- The difference of the refills does not wrap, however many of them are made. -/
def Refills (p : RbspParser) : Prop :=
  ∀ k, ((fun q : RbspParser => q.fetchData.2)^[k] p).iTotalBitIndex ≤
    ((fun q : RbspParser => q.fetchData.2)^[k] p).iTrailingBitOneIndex

theorem Within.refills (h : p.Within n) : Refills p := by
  intro k
  apply Within.total_le (n := n)
  induction k with
  | zero => exact h
  | succ k ih =>
    rw [Function.iterate_succ_apply']
    exact ih.fetchData.1

/-- Any state will do. -/
abbrev Anywhere : RbspParser → Prop := fun _ => True

theorem bitsVisits_anywhere (k : ℕ) (p : RbspParser) : bitsVisits Anywhere k p := by
  induction k generalizing p with
  | zero => trivial
  | succ k ih => exact ⟨trivial, ih _⟩

theorem Within.uLoop (h : p.Within n) {k val : ℕ} (hready : bitsVisits BitReady k p) :
    Moves p (uLoop k (val, p)).2 n := by
  induction k generalizing p val with
  | zero => exact h.moves
  | succ k ih =>
    have hm := h.getNextBit hready.1
    exact hm.trans (ih hm.within hready.2)

theorem Within.u (h : p.Within n) (hready : uVisits BitReady Anywhere k p) :
    Moves p (p.u k).2 n ∧ uVisits Anywhere Refills k p := by
  have hmore := h.moreRbspDataConceal
  have hcache := h.getCache24
  have hready := hready hmore
  unfold uVisits RbspParser.u
  rw [if_neg (by simp [hmore])]
  by_cases h1 : k = 1
  · rw [if_pos h1] at hready ⊢
    rw [if_pos h1]
    exact ⟨h.getNextBit hready, fun _ => trivial⟩
  · rw [if_neg h1] at hready ⊢
    rw [if_neg h1]
    refine ⟨?_, fun _ => ⟨h.refills, hcache.within.refills, bitsVisits_anywhere _ _⟩⟩
    split
    · exact hcache.trans (hcache.within.skip k)
    · have hskip := hcache.within.skip 24
      exact hcache.trans (hskip.trans (hskip.within.uLoop hready.2.2))

theorem Within.ueSuffix (h : p.Within n) (hready : ueSuffixVisits BitReady Anywhere k p) :
    Moves p (p.ueSuffix k).2 n ∧ ueSuffixVisits Anywhere Refills k p := by
  unfold RbspParser.ueSuffix
  split
  · next h0 => exact ⟨h.moves, fun hne => absurd h0 hne⟩
  split
  · next h32 => exact ⟨h.moves, fun _ hlt => absurd hlt (by omega)⟩
  · next h0 h32 =>
    obtain ⟨hm, hcount⟩ := h.u (hready h0 (by omega))
    exact ⟨hm, fun _ _ => hcount⟩

theorem Within.ueLoop (h : p.Within n)
    (hready : ∀ t, Relation.ReflTransGen (fun s s' => ueRound s = .inl s') (p, 0) t →
      BitReady t.1) :
    Moves p (ueLoop p).2 n := by
  have hround (t : RbspParser × ℕ)
      (ht : Relation.ReflTransGen (fun s s' => ueRound s = .inl s') (p, 0) t ∧ Moves p t.1 n) :
      Moves p t.1.getNextBit.2 n :=
    ht.2.trans (ht.2.within.getNextBit (hready t ht.1))
  apply MeasuredLoops.run_rule ueRound_lt
    (fun t => Relation.ReflTransGen (fun s s' => ueRound s = .inl s') (p, 0) t ∧ Moves p t.1 n)
    (fun t => Moves p t.2 n) _ _ ⟨.refl, h.moves⟩
  · intro t t' ht hnext
    refine ⟨ht.1.tail hnext, ?_⟩
    have hm := hround t ht
    simp only [ueRound] at hnext
    split at hnext
    · cases hnext
    split at hnext
    · cases hnext
    · obtain rfl := Sum.inl.inj hnext
      exact hm
  · intro t t' ht hlast
    have hm := hround t ht
    simp only [ueRound] at hlast
    split at hlast
    · obtain rfl := Sum.inr.inj hlast
      exact hm
    split at hlast
    · obtain rfl := Sum.inr.inj hlast
      exact hm
    · cases hlast

theorem Within.ue (h : p.Within n) (hready : ueVisits BitReady Anywhere p) :
    Moves p p.ue.2 n ∧ ueVisits Anywhere Refills p := by
  have hmore := h.moreRbspDataConceal
  have hcache := h.getCache24
  have hready := (hready hmore).2
  unfold ueVisits RbspParser.ue
  rw [if_neg (by simp [hmore])]
  dsimp only at hready ⊢
  by_cases h23 : 23 - alLog2 p.getCache24.1 = 23
  · rw [if_pos h23] at hready ⊢
    rw [if_pos h23]
    have hloop := hcache.within.ueLoop hready.1
    have hsuffix (k : ℕ) (r : RbspParser) (hr : RbspParser.ueLoop p.getCache24.2 = (some k, r)) :=
      (show r.Within n by rw [hr] at hloop; exact hloop.within).ueSuffix (hready.2 k r hr)
    refine ⟨?_, fun _ => ⟨h.refills, fun _ _ => trivial, fun k r hr => (hsuffix k r hr).2⟩⟩
    unfold RbspParser.ueLoop at hloop hsuffix
    split
    · next k r hr =>
      rw [hr] at hloop
      exact hcache.trans (hloop.trans (hsuffix k r hr).1)
    · next r hr =>
      rw [hr] at hloop
      exact hcache.trans hloop
  · rw [if_neg h23] at hready ⊢
    rw [if_neg h23]
    have hskip := hcache.within.skip (23 - alLog2 p.getCache24.1 + 1)
    obtain ⟨hm, hcount⟩ := hskip.within.ueSuffix hready.2
    exact ⟨hcache.trans (hskip.trans hm), fun _ => ⟨h.refills, hcache.within.refills, hcount⟩⟩

theorem Within.se (h : p.Within n) (hready : ueVisits BitReady Anywhere p) :
    Moves p p.se.2 n ∧ ueVisits Anywhere Refills p := by
  obtain ⟨hm, hcount⟩ := h.ue hready
  refine ⟨?_, hcount⟩
  unfold RbspParser.se
  rw [if_neg (by simp [h.moreRbspDataConceal])]
  exact hm

theorem Within.moreRbspData (h : p.Within n) : Moves p p.moreRbspData.2 n := h.fetch_moves

end RbspParser

end VcuCodec
