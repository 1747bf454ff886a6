import VcuCodec.GuardedRuns
import VcuCodec.RingQueues
import VcuCodec.Segments
import VcuCodec.StartCodeTable

/-!
# The start-code table against one scan of the stream

`spans` is what one scan of the stream gives: where each NAL starts and ends.  The table
holds the spans that are not handed over, up to the detector.
-/

namespace VcuCodec

/-- The NAL units that start at the positions, up to the next start and at last to `e`. -/
def spans : List ℕ → (e : ℕ) → List (ℕ × ℕ)
  | [], _ => []
  | p :: ps, e => (p, ps.headD e) :: spans ps e

section Spans

variable {ps xs ys : List ℕ} {e p q : ℕ}

theorem spans_append : spans (xs ++ ys) e = spans xs (ys.headD e) ++ spans ys e := by
  induction xs with
  | nil => rfl
  | cons x xs ih =>
    rw [List.cons_append, spans, spans, ih]
    cases xs <;> rfl

@[simp] theorem length_spans : (spans ps e).length = ps.length := by
  induction ps with
  | nil => rfl
  | cons p ps ih => rw [spans, List.length_cons, ih, List.length_cons]

theorem snd_mem_of_mem_spans {x : ℕ × ℕ} (hx : x ∈ spans ps e) : x.1 ∈ ps ∧ (x.2 ∈ ps ∨ x.2 = e) := by
  induction ps with
  | nil => exact absurd hx List.not_mem_nil
  | cons p ps ih =>
    rcases List.mem_cons.mp hx with rfl | hx
    · refine ⟨List.mem_cons_self, ?_⟩
      cases ps with
      | nil => exact .inr rfl
      | cons q ps => exact .inl (List.mem_cons_of_mem p List.mem_cons_self)
    · obtain ⟨h1, h2⟩ := ih hx
      exact ⟨List.mem_cons_of_mem p h1, h2.imp_left (List.mem_cons_of_mem p)⟩

variable {stream : ℕ → ℕ}

theorem startsIn_append {a b c : ℕ} (hab : a ≤ b) (hbc : b ≤ c) :
    startsIn stream a c = startsIn stream a b ++ startsIn stream b c := by
  unfold startsIn
  have hb : b = a + (b - a) := by omega
  have hlen : c - a = (b - a) + (c - b) := by omega
  rw [← List.filter_append, hlen, ← List.range'_append_1, ← hb]

theorem mem_startsIn {a b p : ℕ} (h : p ∈ startsIn stream a b) :
    a ≤ p ∧ p < b ∧ stream p = 0 ∧ stream (p + 1) = 0 ∧ stream (p + 2) = 1 := by
  obtain ⟨hr, hs⟩ := List.mem_filter.mp h
  rw [List.mem_range'_1] at hr
  simp only [decide_eq_true_eq] at hs
  exact ⟨hr.1, by omega, hs⟩

theorem startsIn_sorted {a b : ℕ} : (startsIn stream a b).Pairwise (· < ·) :=
  (List.pairwise_lt_range' ..).filter _

end Spans

/-! ## The search -/

namespace ScConfig

variable (c : ScConfig) (pBuf : ℕ → ℕ)

/-- A VCL NAL of which the first byte of the slice is there and opens a picture. -/
def opensPicture (pNal : TableNal) : Bool :=
  nalHdrSize c.eCodec < pNal.uSize && c.isFirstSlice pBuf pNal.uPosition

def cutsUnit (pNal : TableNal) : Bool := isAud c.eCodec pNal.uNUT || isEosOrEob c.eCodec pNal.uNUT

/-- A NAL that ends the unit in front of it. -/
def endsUnit (pNal : TableNal) : Bool :=
  Segments.ends (fun pNal => isVcl c.eCodec pNal.uNUT) (c.opensPicture pBuf) c.cutsUnit pNal

/-- The length of the access unit that the table starts with. -/
def unitLength (table : List TableNal) (seen : Bool) : Option ℕ :=
  Segments.firstCut (fun pNal => isVcl c.eCodec pNal.uNUT) (c.opensPicture pBuf) c.cutsUnit table seen

/-- What the assertions of the search demand of a NAL. -/
structure Sound (pNal : TableNal) : Prop where
  startCode : c.isStartCode pBuf pNal.uPosition = true
  sei : isPrefixSei c.eCodec pNal.uNUT = true → c.checkSeiUUID pBuf pNal = true →
    c.getNumSliceInSei pBuf pNal ≠ 0

/-- What the search does at NAL number `iNal`, behind a VCL NAL or not. -/
inductive NalSearch (iNal : ℕ) (pNal : TableNal) (seen : Bool) : Option ℤ → UnitSearch → Prop
  | goOn {t' : UnitSearch} (hends : (seen && c.endsUnit pBuf pNal) = false)
      (hseen : t'.bVCLNalSeen = (seen || isVcl c.eCodec pNal.uNUT)) (hfound : t'.iNalFound = iNal) :
      NalSearch iNal pNal seen none t'
  | before {t' : UnitSearch} (hseen : seen = true)
      (hends : c.bSubframe = false → c.endsUnit pBuf pNal = true) :
      NalSearch iNal pNal seen (some ((iNal : ℤ) - 1)) t'
  | behind {t' : UnitSearch} (hseen : seen = true) (hsub : c.bSubframe = true)
      (hfd : isFd c.eCodec pNal.uNUT = true) : NalSearch iNal pNal seen (some (iNal : ℤ)) t'

/-- The search ended at NAL number `j` with a unit of `k` NAL units. -/
structure UnitEnd (table : List TableNal) (seen : Bool) (j k : ℕ) : Prop where
  lt : j < table.length
  uncut : c.unitLength pBuf (table.take j) seen = none
  vcl : (seen || (table.take j).any fun pNal => isVcl c.eCodec pNal.uNUT) = true
  length : k = j ∧ (c.bSubframe = false → c.unitLength pBuf table seen = some j) ∨
    k = j + 1 ∧ c.bSubframe = true ∧ isFd c.eCodec (table[j]).uNUT = true

variable {c pBuf}

variable {pNal : TableNal}

theorem endsUnit_vcl (h : isVcl c.eCodec pNal.uNUT = true) :
    c.endsUnit pBuf pNal = c.opensPicture pBuf pNal := if_pos h

theorem endsUnit_other (h : ¬isVcl c.eCodec pNal.uNUT = true) :
    c.endsUnit pBuf pNal = c.cutsUnit pNal := if_neg h

theorem fd_not_ends (h : isFd c.eCodec pNal.uNUT = true) :
    isVcl c.eCodec pNal.uNUT = false ∧ c.endsUnit pBuf pNal = false := by
  have hvcl : isVcl c.eCodec pNal.uNUT = false := by
    cases he : c.eCodec <;> rw [he] at h <;> simp_all [isFd, isVcl]
  refine ⟨hvcl, ?_⟩
  rw [endsUnit_other (hvcl ▸ Bool.false_ne_true), cutsUnit]
  cases he : c.eCodec <;> rw [he] at h <;> simp_all [isFd, isAud, isEosOrEob]

theorem searchNal_spec (hp : c.Sound pBuf pNal) (iNal : ℕ) {t : UnitSearch}
    (ht : t.iNalFound = if 0 < iNal then (iNal : ℤ) - 1 else 0) :
    ∃ found t', c.searchNal pBuf iNal pNal t = some (found, t') ∧
      c.NalSearch pBuf iNal pNal t.bVCLNalSeen found t' := by
  obtain ⟨t₁, ht₁, hseen, hfound⟩ : ∃ t₁ : UnitSearch,
      (if 0 < iNal then { t with iNalFound := t.iNalFound + 1 } else t) = t₁ ∧
        t₁.bVCLNalSeen = t.bVCLNalSeen ∧ t₁.iNalFound = iNal := by
    refine ⟨_, rfl, ?_, ?_⟩
    · split <;> rfl
    · split
      · next h =>
        rw [if_pos h] at ht
        dsimp only
        omega
      · next h =>
        rw [if_neg h] at ht
        omega
  unfold searchNal
  rw [ht₁, ← hseen]
  dsimp only
  by_cases hvcl : isVcl c.eCodec pNal.uNUT = true
  · have hends := @endsUnit_vcl c pBuf pNal hvcl
    have hgoes : (t₁.bVCLNalSeen || isVcl c.eCodec pNal.uNUT) = true := by rw [hvcl, Bool.or_true]
    rw [if_pos hvcl]
    by_cases hsize : nalHdrSize c.eCodec < pNal.uSize
    · rw [if_pos hsize, hp.startCode, Bool.not_true, if_neg Bool.false_ne_true]
      have hopen : c.opensPicture pBuf pNal = c.isFirstSlice pBuf pNal.uPosition := by
        unfold opensPicture
        rw [decide_eq_true hsize, Bool.true_and]
      split
      · next h =>
        obtain ⟨h1, h2⟩ := Bool.and_eq_true_iff.mp h
        exact ⟨_, _, rfl, hfound ▸ .before h1 fun _ => by rw [hends, hopen, h2]⟩
      · next h =>
        split
        · next hsub =>
          obtain ⟨h1, h2⟩ := Bool.and_eq_true_iff.mp hsub
          exact ⟨_, _, rfl, hfound ▸ .before h1 fun hc => absurd h2 (hc ▸ Bool.false_ne_true)⟩
        · refine ⟨_, _, rfl, .goOn ?_ hgoes.symm hfound⟩
          rw [hends, hopen]
          exact Bool.not_eq_true _ ▸ h
    · rw [if_neg hsize]
      refine ⟨_, _, rfl, .goOn ?_ hgoes.symm hfound⟩
      rw [hends, opensPicture, decide_eq_false hsize, Bool.false_and, Bool.and_false]
  · have hends := @endsUnit_other c pBuf pNal hvcl
    have hgoes : (t₁.bVCLNalSeen || isVcl c.eCodec pNal.uNUT) = t₁.bVCLNalSeen := by
      rw [Bool.not_eq_true] at hvcl
      rw [hvcl, Bool.or_false]
    rw [if_neg hvcl]
    split
    · next h =>
      obtain ⟨h1, h2⟩ := Bool.and_eq_true_iff.mp h
      exact ⟨_, _, rfl, hfound ▸ .before h2 fun _ => hends.trans h1⟩
    · next h =>
      have hstay : (t₁.bVCLNalSeen && c.endsUnit pBuf pNal) = false := by
        rw [hends, Bool.and_comm]
        exact Bool.not_eq_true _ ▸ h
      split
      · next h0 =>
        rw [Bool.and_eq_true, Bool.and_eq_true, decide_eq_true_eq] at h0
        exact absurd h0.2 (hp.sei h0.1.1 h0.1.2)
      · -- a SEI changes the number of slices only
        obtain ⟨t₂, ht₂, hseen₂, hfound₂⟩ : ∃ t₂ : UnitSearch,
            (if (isPrefixSei c.eCodec pNal.uNUT && c.checkSeiUUID pBuf pNal) = true then
              { t₁ with iNumSlicesRemaining := c.getNumSliceInSei pBuf pNal } else t₁) = t₂ ∧
              t₂.bVCLNalSeen = t₁.bVCLNalSeen ∧ t₂.iNalFound = iNal := by
          refine ⟨_, rfl, ?_, ?_⟩ <;> split <;> first | rfl | exact hfound
        rw [ht₂]
        split
        · next hfd =>
          simp only [Bool.and_eq_true] at hfd
          exact ⟨_, _, rfl, hfound₂ ▸ .behind (hseen₂ ▸ hfd.2) hfd.1.1.2 hfd.1.1.1⟩
        · exact ⟨_, _, rfl, .goOn hstay (hseen₂.trans hgoes.symm) hfound₂⟩

variable {table : List TableNal}

theorem searchFrom_spec (hp : ∀ pNal ∈ table, c.Sound pBuf pNal) (iNal : ℕ)
    {t : UnitSearch} (ht : t.iNalFound = if 0 < iNal then (iNal : ℤ) - 1 else 0) :
    ∃ found t', c.searchFrom pBuf table iNal t = some (found, t') ∧ ∀ iLast, found = some iLast →
        ∃ j k, c.UnitEnd pBuf table t.bVCLNalSeen j k ∧ iLast = (iNal : ℤ) + (k : ℤ) - 1 := by
  induction table generalizing iNal t with
  | nil => exact ⟨none, t, rfl, nofun⟩
  | cons pNal nals ih =>
    obtain ⟨found, t', hstep, hsearch⟩ := searchNal_spec (hp pNal List.mem_cons_self) iNal ht
    unfold searchFrom
    rw [hstep]
    simp only [Option.bind_eq_bind, Option.bind_some]
    cases hsearch with
    | goOn hends hseen hfound =>
      have ht' : t'.iNalFound = if 0 < iNal + 1 then ((iNal + 1 : ℕ) : ℤ) - 1 else 0 := by
        rw [hfound, if_pos (Nat.succ_pos iNal)]
        push_cast
        omega
      obtain ⟨found, t'', hrest, hunit⟩ := ih (fun q hq => hp q (List.mem_cons_of_mem pNal hq)) (iNal + 1) ht'
      refine ⟨found, t'', hrest, fun iLast hlast => ?_⟩
      obtain ⟨j, k, hend, hk⟩ := hunit iLast hlast
      rw [hseen] at hend
      have hgo : ∀ nals', c.unitLength pBuf (pNal :: nals') t.bVCLNalSeen =
          (c.unitLength pBuf nals' (t.bVCLNalSeen || isVcl c.eCodec pNal.uNUT)).map (· + 1) := by
        intro nals'
        unfold unitLength
        rw [Segments.firstCut, if_neg]
        rw [Bool.not_eq_true]
        exact hends
      refine ⟨j + 1, k + 1, ⟨Nat.succ_lt_succ hend.lt, ?_, ?_, ?_⟩, ?_⟩
      · rw [List.take_succ_cons, hgo, hend.uncut]
        rfl
      · rw [List.take_succ_cons, List.any_cons, ← Bool.or_assoc]
        exact hend.vcl
      · rcases hend.length with ⟨rfl, hlen⟩ | ⟨rfl, hsub, hfd⟩
        · refine .inl ⟨rfl, fun hc => ?_⟩
          rw [hgo, hlen hc]
          rfl
        · exact .inr ⟨rfl, hsub, hfd⟩
      · rw [hk]
        push_cast
        omega
    | before hseen hends =>
      refine ⟨_, _, rfl, fun iLast hlast => ⟨0, 0, ⟨Nat.zero_lt_succ _, rfl, ?_, .inl ⟨rfl, fun hc => ?_⟩⟩, ?_⟩⟩
      · rw [hseen, Bool.true_or]
      · unfold unitLength
        rw [Segments.firstCut, if_pos]
        rw [hseen, Bool.true_and]
        exact hends hc
      · rw [← Option.some.inj hlast]
        push_cast
        omega
    | behind hseen hsub hfd =>
      refine ⟨_, _, rfl, fun iLast hlast => ⟨0, 1, ⟨Nat.zero_lt_succ _, rfl, ?_, .inr ⟨rfl, hsub, hfd⟩⟩, ?_⟩⟩
      · rw [hseen, Bool.true_or]
      · rw [← Option.some.inj hlast]
        push_cast
        omega

theorem searchNextDecodingUnit_spec (hp : ∀ pNal ∈ table, c.Sound pBuf pNal)
    (iNumSlicesRemaining : ℤ) :
    ∃ found t', c.searchNextDecodingUnit pBuf table iNumSlicesRemaining = some (found, t') ∧
      ∀ iLast, found = some iLast →
        ∃ j k, c.UnitEnd pBuf table false j k ∧ (iLast + 1).toNat = k := by
  unfold searchNextDecodingUnit
  dsimp only
  split
  · exact ⟨none, _, rfl, nofun⟩
  · obtain ⟨found, t', h, hunit⟩ := searchFrom_spec (t := ⟨false, 0, -1, false, iNumSlicesRemaining⟩) hp 0 rfl
    refine ⟨found, t', h, fun iLast hlast => ?_⟩
    obtain ⟨j, k, hend, hk⟩ := hunit iLast hlast
    exact ⟨j, k, hend, by omega⟩

end ScConfig

end VcuCodec
