import VcuCodec.GuardedRuns
import VcuCodec.RingQueues
import VcuCodec.StartCodeScan

/-!
# Decoding units against one scan of the stream

Whatever pieces the stream comes in, the units handed over and the table are together one
scan of the stream, and the VCL NAL units of a unit are those of an access unit.
-/

namespace VcuCodec

namespace ScConfig

variable (c : ScConfig) (stream : ℕ → ℕ)

/-! ## One scan of the stream -/

/-- The NAL of a span as the table holds it. -/
def nalOf (x : ℕ × ℕ) : TableNal := ⟨x.1 % c.uSize, nutAt c.eCodec stream x.1, x.2 - x.1⟩

def spanVcl (x : ℕ × ℕ) : Bool := isVcl c.eCodec (nutAt c.eCodec stream x.1)

/-- The span of a slice that starts a picture. -/
def spanOpens (x : ℕ × ℕ) : Bool :=
  nalHdrSize c.eCodec < x.2 - x.1 && 128 ≤ stream (x.1 + nalHdrSize c.eCodec)

/-- An access unit delimiter, or the end of a sequence or of the stream. -/
def spanCuts (x : ℕ × ℕ) : Bool :=
  isAud c.eCodec (nutAt c.eCodec stream x.1) || isEosOrEob c.eCodec (nutAt c.eCodec stream x.1)

/-- The VCL NAL units of the spans, access unit by access unit. -/
def accessUnits (xs : List (ℕ × ℕ)) : List (List (ℕ × ℕ)) :=
  Segments.segments (c.spanVcl stream) (c.spanOpens stream) (c.spanCuts stream) xs

/-- A NAL as it is decoded is that of the span.  Only in the decoding of slices is a filler
data NAL decoded before its end is known. -/
def SameNal (pNal : TableNal) (x : ℕ × ℕ) : Prop :=
  pNal.uPosition = x.1 % c.uSize ∧ pNal.uNUT = nutAt c.eCodec stream x.1 ∧
    (pNal.uSize = x.2 - x.1 ∨ c.bSubframe = true ∧ isFd c.eCodec pNal.uNUT = true)

/-- A user-data SEI that announces a picture without slices. -/
def AnnouncesNone (p : ℕ) : Prop :=
  (stream p = 0 ∧ stream (p + 1) = 0 ∧ stream (p + 2) = 1) ∧
    isPrefixSei c.eCodec (nutAt c.eCodec stream p) = true ∧
    (seiUuid = (List.range 16).map fun i => stream (p + seiStart c.eCodec + i)) ∧
    stream (p + seiStart c.eCodec + 16) = 0
deriving Decidable

def Quiet : Prop := ∀ p, ¬c.AnnouncesNone stream p

/-- Positions of the ring in front of `e`. -/
structure Window (ps : List ℕ) (e : ℕ) : Prop where
  sorted : ps.Pairwise (· < ·)
  lt : ∀ p ∈ ps, p < e
  le : ∀ p ∈ ps, e ≤ p + c.uSize

variable {c stream} {ps as bs : List ℕ} {p q e : ℕ}

/-! ## The table -/

theorem deltaPosition_mod (hpq : p < q) (hq : q ≤ p + c.uSize) :
    c.deltaPosition (p % c.uSize) (q % c.uSize) = q - p := by
  have hpos : 0 < c.uSize := by omega
  have hp := Nat.mod_lt p hpos
  have hq' := Nat.mod_lt q hpos
  have hdist := RingQueues.distance_mod p (q - p) c.uSize
  rw [Nat.add_sub_cancel' hpq.le] at hdist
  unfold deltaPosition
  split
  · next h =>
    have hwrap : q % c.uSize + c.uSize - p % c.uSize = (q % c.uSize - p % c.uSize) + c.uSize := by omega
    rw [hwrap, Nat.add_mod_right, Nat.mod_eq_of_lt (by omega)] at hdist
    rcases Nat.lt_or_eq_of_le (show q - p ≤ c.uSize by omega) with hlt | heq
    · rwa [Nat.mod_eq_of_lt hlt] at hdist
    · rw [heq, Nat.mod_self] at hdist
      omega
  · next h =>
    rcases Nat.lt_or_eq_of_le (show q - p ≤ c.uSize by omega) with hlt | heq
    · rw [Nat.mod_eq_of_lt hlt] at hdist
      rcases Nat.lt_or_eq_of_le (show q % c.uSize + c.uSize - p % c.uSize ≤ c.uSize by omega) with h' | h'
      · rw [Nat.mod_eq_of_lt h'] at hdist
        omega
      · rw [h', Nat.mod_self] at hdist
        omega
    · rw [heq, Nat.mod_self] at hdist
      have hdvd := Nat.dvd_of_mod_eq_zero hdist
      have hle := Nat.le_of_dvd (by omega) hdvd
      omega

theorem Window.tail (h : c.Window (p :: ps) e) : c.Window ps e :=
  ⟨(List.pairwise_cons.mp h.sorted).2, fun q hq => h.lt q (List.mem_cons_of_mem p hq),
    fun q hq => h.le q (List.mem_cons_of_mem p hq)⟩

theorem Window.delta_next (h : c.Window (p :: q :: ps) e) :
    c.deltaPosition (p % c.uSize) (q % c.uSize) = q - p :=
  have hq : q ∈ p :: q :: ps := List.mem_cons_of_mem p List.mem_cons_self
  deltaPosition_mod ((List.pairwise_cons.mp h.sorted).1 q List.mem_cons_self)
    ((h.lt q hq).le.trans (h.le p List.mem_cons_self))

theorem Window.delta_end (h : c.Window (p :: ps) e) :
    c.deltaPosition (p % c.uSize) (e % c.uSize) = e - p :=
  deltaPosition_mod (h.lt p List.mem_cons_self) (h.le p List.mem_cons_self)

theorem closeLast_spans {e' : ℕ} (h : c.Window ps e) :
    c.closeLast (e % c.uSize) ((spans ps e').map (c.nalOf stream)) = (spans ps e).map (c.nalOf stream) := by
  induction ps with
  | nil => rfl
  | cons p ps ih =>
    cases ps with
    | nil =>
      show [{ c.nalOf stream (p, e') with uSize := c.deltaPosition (p % c.uSize) (e % c.uSize) }] =
        [c.nalOf stream (p, e)]
      rw [h.delta_end]
      rfl
    | cons q ps => exact congrArg (c.nalOf stream (p, q) :: ·) (ih h.tail)

theorem newNals_spans (h : c.Window ps e) :
    c.newNals (e % c.uSize) (ps.map fun p => (p % c.uSize, nutAt c.eCodec stream p)) =
      (spans ps e).map (c.nalOf stream) := by
  induction ps with
  | nil => rfl
  | cons p ps ih =>
    cases ps with
    | nil =>
      show [TableNal.mk (p % c.uSize) _ (c.deltaPosition (p % c.uSize) (e % c.uSize))] = _
      rw [h.delta_end]
      rfl
    | cons q ps =>
      show TableNal.mk (p % c.uSize) _ (c.deltaPosition (p % c.uSize) (q % c.uSize)) :: _ = _
      rw [h.delta_next]
      exact congrArg (c.nalOf stream (p, q) :: ·) (ih h.tail)

variable {table : List TableNal}

theorem length_closeLast {uPosition : ℕ} : (c.closeLast uPosition table).length = table.length := by
  induction table with
  | nil => rfl
  | cons nal table ih =>
    cases table with
    | nil => rfl
    | cons next rest => exact congrArg Nat.succ ih

variable {iOffset : ℕ} {src : List (ℕ × ℕ)}

theorem refill_isSome
    (h : table.length + src.length ≤ c.iStackSize * 4096 ∧ table.length + src.length < 2 ^ 16) :
    ∃ table', c.refill iOffset table src = some table' := by
  unfold refill
  cases src with
  | nil => exact ⟨_, if_pos h⟩
  | cons first rest =>
    dsimp only
    rw [length_closeLast]
    exact ⟨_, if_pos h⟩

theorem length_newNals : (c.newNals iOffset src).length = src.length := by
  induction src with
  | nil => rfl
  | cons first src ih =>
    cases src with
    | nil => rfl
    | cons next rest => exact congrArg Nat.succ ih

theorem length_refill {table table' : List TableNal}
    (h : c.refill iOffset table src = some table') : table'.length = table.length + src.length := by
  unfold refill at h
  rw [Option.ite_none_right_eq_some] at h
  obtain rfl := Option.some.inj h.2
  rw [List.length_append, length_newNals]
  cases src with
  | nil => rfl
  | cons first rest =>
    dsimp only
    rw [length_closeLast]

theorem unitNals_spans (h : c.Window (as ++ p :: bs) e) :
    c.unitNals iOffset as.length ((spans (as ++ p :: bs) e).map (c.nalOf stream)) =
      (spans as p).map (c.nalOf stream) := by
  induction as with
  | nil => cases bs <;> rfl
  | cons a as ih =>
    cases as with
    | nil =>
      show [TableNal.mk (a % c.uSize) _ (c.deltaPosition (a % c.uSize) (p % c.uSize))] = _
      rw [h.delta_next]
      rfl
    | cons b as =>
      show TableNal.mk (a % c.uSize) _ (c.deltaPosition (a % c.uSize) (b % c.uSize)) :: _ = _
      rw [h.delta_next]
      exact congrArg (c.nalOf stream (a, b) :: ·) (ih h.tail)

theorem unitNals_succ (h : c.Window (as ++ p :: bs) e) :
    ∃ uSize, c.unitNals iOffset (as.length + 1) ((spans (as ++ p :: bs) e).map (c.nalOf stream)) =
      (spans as p).map (c.nalOf stream) ++ [⟨p % c.uSize, nutAt c.eCodec stream p, uSize⟩] := by
  induction as with
  | nil => cases bs <;> exact ⟨_, rfl⟩
  | cons a as ih =>
    obtain ⟨uSize, hrest⟩ := ih h.tail
    refine ⟨uSize, ?_⟩
    cases as with
    | nil =>
      show TableNal.mk (a % c.uSize) _ (c.deltaPosition (a % c.uSize) (p % c.uSize)) :: _ = _
      rw [h.delta_next]
      exact congrArg (c.nalOf stream (a, p) :: ·) hrest
    | cons b as =>
      show TableNal.mk (a % c.uSize) _ (c.deltaPosition (a % c.uSize) (b % c.uSize)) :: _ = _
      rw [h.delta_next]
      exact congrArg (c.nalOf stream (a, b) :: ·) hrest

end ScConfig

/-! ## Runs -/

namespace ScUse

/-- The table and the stream buffer against the stream: `ps` are the NAL units that are not
handed over, and the last of them is known up to `e`. -/
structure Tracks (c : ScConfig) (s : ScUse) (ps : List ℕ) (e : ℕ) : Prop where
  ring : ∀ i, s.released ≤ i → i < s.written → s.pBuf (i % c.uSize) = s.stream i
  released_le : s.released ≤ s.scanned
  scanned_le : s.scanned ≤ s.written
  written_le : s.written ≤ s.released + c.uSize
  starts : ps <:+ startsIn s.stream 0 s.scanned
  kept : ∀ p ∈ ps, s.released ≤ p ∧ p < e ∧ p + nalHdrSize c.eCodec ≤ s.written
  e_le : e ≤ s.scanned
  table : s.table = (spans ps e).map (c.nalOf s.stream)

/-- The units handed over and the NAL units behind them are one scan of the stream up to
`N`, and the units are its access units. -/
structure Matches (c : ScConfig) (s : ScUse) (ps : List ℕ) (N : ℕ) (units : List (List (ℕ × ℕ))) :
    Prop where
  scan : spans (startsIn s.stream 0 N) N =
    units.flatten ++ spans (ps ++ startsIn s.stream s.scanned N) N
  handed : List.Forall₂ (fun u xs => List.Forall₂ (c.SameNal s.stream) u.nals xs) s.handed units
  within : ∀ xs ∈ units, xs.filter (c.spanVcl s.stream) ≠ [] ∧
    ∃ au ∈ c.accessUnits s.stream (spans (startsIn s.stream 0 N) N), xs.filter (c.spanVcl s.stream) <:+: au
  whole : c.bSubframe = false →
    c.accessUnits s.stream (spans (startsIn s.stream 0 N) N) =
      units.map (List.filter (c.spanVcl s.stream)) ++
        c.accessUnits s.stream (spans (ps ++ startsIn s.stream s.scanned N) N)

variable {c : ScConfig} {s s' : ScUse} {ps as bs : List ℕ} {p e N : ℕ} {units : List (List (ℕ × ℕ))}

theorem Tracks.window (h : s.Tracks c ps e) : c.Window ps e where
  sorted := startsIn_sorted.sublist h.starts.sublist
  lt q hq := (h.kept q hq).2.1
  le q hq := by
    have := h.e_le
    have := h.scanned_le
    have := h.written_le
    have := (h.kept q hq).1
    omega

theorem Tracks.span_mem (h : s.Tracks c ps e) {x : ℕ × ℕ} (hx : x ∈ spans ps e) :
    x.1 ∈ ps ∧ s.released ≤ x.1 ∧ x.2 ≤ s.scanned := by
  obtain ⟨h1, h2⟩ := snd_mem_of_mem_spans hx
  refine ⟨h1, (h.kept x.1 h1).1, ?_⟩
  have := h.e_le
  rcases h2 with h2 | h2
  · have := (h.kept x.2 h2).2.1
    omega
  · omega

theorem Tracks.read (h : s.Tracks c ps e) {q k : ℕ} (hq : s.released ≤ q) (hk : q + k < s.written) :
    s.pBuf ((q % c.uSize + k) % c.uSize) = s.stream (q + k) := by
  rw [Nat.mod_add_mod]
  exact h.ring (q + k) (by omega) hk

theorem Tracks.sound (h : s.Tracks c ps e) (hq : c.Quiet s.stream) :
    ∀ pNal ∈ s.table, c.Sound s.pBuf pNal := by
  intro pNal hmem
  rw [h.table, List.mem_map] at hmem
  obtain ⟨x, hx, rfl⟩ := hmem
  obtain ⟨hps, hrel, hle⟩ := h.span_mem hx
  obtain ⟨-, -, h0, h1, h2⟩ := mem_startsIn (h.starts.subset hps)
  have hhdr : x.1 + 2 < s.written := by
    have hle := (h.kept x.1 hps).2.2
    cases he : c.eCodec <;> rw [he, nalHdrSize] at hle <;> omega
  refine ⟨?_, fun hpre huuid => ?_⟩
  · unfold ScConfig.isStartCode ScConfig.nalOf
    dsimp only
    rw [Nat.mod_mod, h.ring x.1 hrel (by omega), h.read hrel (show x.1 + 1 < s.written by omega),
      h.read hrel hhdr, h0, h1, h2]
    rfl
  · -- the bytes that are compared belong to the span
    unfold ScConfig.checkSeiUUID at huuid
    rw [decide_eq_true_eq] at huuid
    obtain ⟨hsize, huuid⟩ := huuid
    have hend : x.1 + ScConfig.seiStart c.eCodec + 16 < s.written := by
      have := h.scanned_le
      unfold ScConfig.nalOf at hsize
      cases he : c.eCodec <;> rw [he] at hsize <;> simp only [ScConfig.seiSize, ScConfig.seiStart] at hsize ⊢ <;> omega
    unfold ScConfig.getNumSliceInSei
    unfold ScConfig.nalOf at huuid ⊢
    dsimp only at huuid ⊢
    rw [Nat.add_assoc, h.read hrel (by rw [← Nat.add_assoc]; exact hend), ← Nat.add_assoc]
    refine fun hnone => hq x.1 ⟨⟨h0, h1, h2⟩, hpre, huuid.trans (List.map_congr_left fun i hi => ?_), hnone⟩
    have hi := List.mem_range.mp hi
    rw [Nat.add_assoc, h.read hrel (by omega), ← Nat.add_assoc]

theorem Tracks.unitLength_map (h : s.Tracks c ps e) {xs : List (ℕ × ℕ)} {seen : Bool}
    (hxs : ∀ x ∈ xs, x ∈ spans ps e) :
    c.unitLength s.pBuf (xs.map (c.nalOf s.stream)) seen =
      Segments.firstCut (c.spanVcl s.stream) (c.spanOpens s.stream) (c.spanCuts s.stream) xs seen := by
  unfold ScConfig.unitLength
  rw [Segments.firstCut_map]
  refine Segments.firstCut_congr fun x hx => ⟨rfl, ?_, rfl⟩
  obtain ⟨-, hrel, hle⟩ := h.span_mem (hxs x hx)
  show c.opensPicture s.pBuf (c.nalOf s.stream x) = c.spanOpens s.stream x
  unfold ScConfig.opensPicture ScConfig.spanOpens ScConfig.isFirstSlice ScConfig.nalOf
  dsimp only
  by_cases hsize : nalHdrSize c.eCodec < x.2 - x.1
  · have := h.scanned_le
    rw [h.read hrel (by omega)]
  · rw [decide_eq_false hsize, Bool.false_and, Bool.false_and]

variable {k : ℕ}

/-- The search ends where the scan of a longer stream does. -/
theorem Tracks.firstCut_longer (h : s.Tracks c ps e) (hN : s.scanned ≤ N)
    (hk : c.unitLength s.pBuf s.table false = some k) :
    Segments.firstCut (c.spanVcl s.stream) (c.spanOpens s.stream) (c.spanCuts s.stream)
      (spans (ps ++ startsIn s.stream s.scanned N) N) false = some k := by
  rw [h.table, h.unitLength_map fun x hx => hx] at hk
  rcases List.eq_nil_or_concat' ps with rfl | ⟨qs, q, rfl⟩
  · exact absurd hk (by simp [spans, Segments.firstCut])
  · rw [spans_append] at hk
    have hnext : e ≤ (startsIn s.stream s.scanned N).headD N := by
      cases hst : startsIn s.stream s.scanned N with
      | nil => exact h.e_le.trans hN
      | cons q' qs' =>
        have := (mem_startsIn (hst ▸ List.mem_cons_self : q' ∈ startsIn s.stream s.scanned N)).1
        exact h.e_le.trans this
    rw [List.append_assoc, spans_append]
    have hextend := @Segments.firstCut_extend _ (c.spanVcl s.stream) (c.spanOpens s.stream)
      (c.spanCuts s.stream) (spans qs q) (spans (startsIn s.stream s.scanned N) N) (q, e) false k
      (q, (startsIn s.stream s.scanned N).headD N) rfl rfl
    refine hextend ?_ hk
    intro hopens
    unfold ScConfig.spanOpens at hopens ⊢
    rw [Bool.and_eq_true, decide_eq_true_eq] at hopens ⊢
    exact ⟨Nat.lt_of_lt_of_le hopens.1 (Nat.sub_le_sub_right hnext q), hopens.2⟩

/-! ## Steps -/

variable {n : ℕ}

theorem Tracks.transfer (h : s.Tracks c ps e) (ha : s.Allowed c (.transfer n))
    (hs : s.step c (.transfer n) = some s') : s'.Tracks c ps e := by
  obtain rfl := Option.some.inj hs
  have hroom : s.written + n ≤ s.released + c.uSize := ha
  refine ⟨fun i hrel hlt => ?_, h.released_le, h.scanned_le.trans (Nat.le_add_right _ n), hroom, h.starts,
    fun p hp => ?_, h.e_le, h.table⟩
  · change s.released ≤ i at hrel
    change i < s.written + n at hlt
    dsimp only
    by_cases hnew : s.written ≤ i
    · obtain ⟨k, rfl⟩ := Nat.exists_eq_add_of_le hnew
      have := h.released_le
      have := h.scanned_le
      rw [RingQueues.distance_mod, Nat.mod_eq_of_lt (by omega), if_pos (by omega)]
    · -- an older byte is not overwritten
      have hold : i % c.uSize = (s.written + (c.uSize - (s.written - i))) % c.uSize := by
        rw [show s.written + (c.uSize - (s.written - i)) = i + c.uSize by omega, Nat.add_mod_right]
      rw [hold, RingQueues.distance_mod, Nat.mod_eq_of_lt (by omega), if_neg (by omega), ← hold]
      exact h.ring i hrel (by omega)
  · obtain ⟨h1, h2, h3⟩ := h.kept p hp
    exact ⟨h1, h2, h3.trans (Nat.le_add_right _ n)⟩

theorem Tracks.release (h : s.Tracks c ps e) (ha : s.Allowed c (.release n))
    (hs : s.step c (.release n) = some s') : s'.Tracks c ps e := by
  obtain rfl := Option.some.inj hs
  obtain ⟨hle, hlen⟩ := ha
  rw [h.table, List.length_map, length_spans] at hlen
  have hw := h.written_le
  refine ⟨fun i hrel hlt => h.ring i ((Nat.le_add_right _ n).trans hrel) hlt, hle, h.scanned_le, by
    show s.written ≤ s.released + n + c.uSize
    omega, h.starts, fun p hp => ?_, h.e_le, h.table⟩
  have hstarts := h.starts
  rw [startsIn_append (Nat.zero_le _) hle] at hstarts
  have hsuf := List.suffix_of_suffix_length_le hstarts (List.suffix_append _ _) hlen
  exact ⟨(mem_startsIn (hsuf.subset hp)).1, (h.kept p hp).2⟩

variable {table : List TableNal}

/-- The detector goes on behind a table that is not full. -/
theorem Tracks.refill (h : s.Tracks c ps e) (iNumSlicesRemaining : ℤ) (ha : s.Allowed c (.turn n))
    (hr : c.refill ((s.scanned + n) % c.uSize) s.table (s.scdAnswer c n) = some table) :
    ∃ e', Tracks c { s with table, iNumSlicesRemaining, scanned := s.scanned + n }
      (ps ++ startsIn s.stream s.scanned (s.scanned + n)) e' := by
  obtain ⟨hle, -, hhdr⟩ := ha
  have hrel := h.released_le
  have hw := h.written_le
  have hstarts : ps ++ startsIn s.stream s.scanned (s.scanned + n) <:+
      startsIn s.stream 0 (s.scanned + n) := by
    rw [startsIn_append (Nat.zero_le s.scanned) (Nat.le_add_right _ n)]
    obtain ⟨pre, hpre⟩ := h.starts
    exact ⟨pre, by rw [← hpre, List.append_assoc]⟩
  unfold ScConfig.refill scdAnswer at hr
  cases hst : startsIn s.stream s.scanned (s.scanned + n) with
  | nil =>
    rw [hst] at hr hstarts
    simp only [List.map_nil, Option.ite_none_right_eq_some] at hr
    obtain rfl := Option.some.inj hr.2
    refine ⟨e, h.ring, hrel.trans (Nat.le_add_right _ n), hle, hw, hstarts, ?_,
      h.e_le.trans (Nat.le_add_right _ n), ?_⟩
    · rw [List.append_nil]
      exact h.kept
    · rw [List.append_nil, ScConfig.newNals, List.append_nil]
      exact h.table
  | cons q qs =>
    have hmem : ∀ p ∈ q :: qs, s.scanned ≤ p ∧ p < s.scanned + n ∧ p + nalHdrSize c.eCodec ≤ s.written := by
      intro p hp
      rw [← hst] at hp
      exact ⟨(mem_startsIn hp).1, (mem_startsIn hp).2.1, hhdr p hp⟩
    have hq := hmem q List.mem_cons_self
    have hclose : c.Window ps q := ⟨h.window.sorted, fun p hp => by
      have := h.e_le
      have := (h.kept p hp).2.1
      omega, fun p hp => by
      have := (h.kept p hp).1
      omega⟩
    have hnew : c.Window (q :: qs) (s.scanned + n) := ⟨hst ▸ startsIn_sorted, fun p hp => (hmem p hp).2.1,
      fun p hp => by
        have := (hmem p hp).1
        omega⟩
    rw [hst] at hr hstarts
    simp only [List.map_cons, Option.ite_none_right_eq_some] at hr
    obtain rfl := Option.some.inj hr.2
    refine ⟨s.scanned + n, h.ring, hrel.trans (Nat.le_add_right _ n), hle, hw, hstarts, ?_, le_rfl, ?_⟩
    · intro p hp
      rcases List.mem_append.mp hp with hp | hp
      · obtain ⟨h1, h2, h3⟩ := h.kept p hp
        have hlt : p < s.scanned + n := by
          have := h.e_le
          omega
        exact ⟨h1, hlt, h3⟩
      · obtain ⟨h1, h2, h3⟩ := hmem p hp
        exact ⟨hrel.trans h1, h2, h3⟩
    · show _ = (spans (ps ++ q :: qs) (s.scanned + n)).map (c.nalOf s.stream)
      rw [spans_append, List.map_append, ← ScConfig.newNals_spans hnew, h.table,
        ScConfig.closeLast_spans hclose]
      rfl

/-- The unit in front of the other NAL units of the table, as a scan up to `N` gives it. -/
structure UnitScan (c : ScConfig) (s : ScUse) (us ps : List ℕ) (iOffset N : ℕ) : Prop where
  nals : List.Forall₂ (c.SameNal s.stream) (c.unitNals iOffset us.length s.table)
    (spans us ((ps ++ startsIn s.stream s.scanned N).headD N))
  uncut : Segments.firstCut (c.spanVcl s.stream) (c.spanOpens s.stream) (c.spanCuts s.stream)
    (spans us ((ps ++ startsIn s.stream s.scanned N).headD N)) false = none
  vcl : (spans us ((ps ++ startsIn s.stream s.scanned N).headD N)).any (c.spanVcl s.stream) = true
  whole : c.bSubframe = false →
    Segments.firstCut (c.spanVcl s.stream) (c.spanOpens s.stream) (c.spanCuts s.stream)
      (spans (us ++ (ps ++ startsIn s.stream s.scanned N)) N) false = some us.length

variable {us : List ℕ} {iOffset : ℕ}

theorem sameNal_spans (xs : List (ℕ × ℕ)) :
    List.Forall₂ (c.SameNal s.stream) (xs.map (c.nalOf s.stream)) xs :=
  List.forall₂_map_left_iff.mpr (List.forall₂_same.mpr fun _ _ => ⟨rfl, rfl, .inl rfl⟩)

theorem Tracks.unitScan (h : s.Tracks c ps e) {j k : ℕ} (hu : c.UnitEnd s.pBuf s.table false j k)
    (iOffset : ℕ) :
    ∃ us rest, ps = us ++ rest ∧ k = us.length ∧
      ∀ N, s.scanned ≤ N → s.UnitScan c us rest iOffset N := by
  have hlt : j < ps.length := by
    have := hu.lt
    rwa [h.table, List.length_map, length_spans] at this
  obtain ⟨as, p, bs, hps, hj⟩ : ∃ (as : List ℕ) (p : ℕ) (bs : List ℕ), ps = as ++ p :: bs ∧ as.length = j :=
    ⟨ps.take j, ps[j], ps.drop (j + 1), by rw [← List.drop_eq_getElem_cons hlt, List.take_append_drop],
      List.length_take_of_le hlt.le⟩
  subst hps hj
  have hspans : spans (as ++ p :: bs) e = spans as p ++ spans (p :: bs) e := spans_append
  have hmem : ∀ x ∈ spans as p, x ∈ spans (as ++ p :: bs) e := fun x hx =>
    hspans ▸ List.mem_append_left _ hx
  have htake : s.table.take as.length = (spans as p).map (c.nalOf s.stream) := by
    rw [h.table, hspans, List.map_append, List.take_left' (by rw [List.length_map, length_spans])]
  have hcut := hu.uncut
  rw [htake, h.unitLength_map hmem] at hcut
  have hvcl := hu.vcl
  rw [htake, Bool.false_or, List.any_map] at hvcl
  rcases hu.length with ⟨rfl, hwhole⟩ | ⟨rfl, hsub, hfd⟩
  · refine ⟨as, p :: bs, rfl, rfl, fun N hN => ⟨?_, hcut, hvcl, fun hc => ?_⟩⟩
    · rw [h.table, ScConfig.unitNals_spans h.window]
      exact sameNal_spans (spans as p)
    · rw [← List.append_assoc]
      exact h.firstCut_longer hN (hwhole hc)
  · -- the filler data NAL belongs to the unit
    have hnext : s.table[as.length]? = some (c.nalOf s.stream (p, bs.headD e)) := by
      rw [h.table, hspans, List.map_append, List.getElem?_append_right (by rw [List.length_map, length_spans]),
        List.length_map, length_spans, Nat.sub_self]
      rfl
    obtain ⟨_, hget⟩ := List.getElem?_eq_some_iff.mp hnext
    rw [hget] at hfd
    obtain ⟨hother, hends⟩ := @ScConfig.fd_not_ends c s.pBuf _ hfd
    rw [ScConfig.endsUnit_other (hother ▸ Bool.false_ne_true)] at hends
    have hlast : ∀ e', spans (as ++ [p]) e' = spans as p ++ [(p, e')] := fun e' => spans_append
    refine ⟨as ++ [p], bs, by rw [List.append_assoc]; rfl, by rw [List.length_append]; rfl,
      fun N hN => ⟨?_, ?_, ?_, fun hc => absurd hsub (hc ▸ Bool.false_ne_true)⟩⟩
    · obtain ⟨uSize, hnals⟩ : ∃ uSize, c.unitNals iOffset (as.length + 1)
          ((spans (as ++ p :: bs) e).map (c.nalOf s.stream)) =
            (spans as p).map (c.nalOf s.stream) ++ [⟨p % c.uSize, nutAt c.eCodec s.stream p, uSize⟩] :=
        ScConfig.unitNals_succ h.window
      rw [h.table, List.length_append, hlast]
      show List.Forall₂ _ (c.unitNals iOffset (as.length + 1) _) _
      rw [hnals]
      exact List.rel_append (sameNal_spans (spans as p)) (.cons ⟨rfl, rfl, .inr ⟨hsub, hfd⟩⟩ .nil)
    · rw [hlast]
      have hnot : ¬c.spanVcl s.stream (p, (bs ++ startsIn s.stream s.scanned N).headD N) = true :=
        (Bool.not_eq_true _).mpr hother
      exact Segments.firstCut_concat hcut ((if_neg hnot).trans hends)
    · rw [hlast, List.any_append, Bool.or_eq_true]
      exact .inl hvcl

/-- A unit that is handed over goes from the table to the units. -/
theorem Matches.hand (h : s.Matches c (us ++ ps) N units) (hu : s.UnitScan c us ps iOffset N)
    {iLastVclNal iNumSlicesRemaining : ℤ} {bNewCVSStarts : Bool} : Matches c { s with
      handed := s.handed ++ [⟨c.unitNals iOffset us.length s.table, iLastVclNal, bNewCVSStarts⟩]
      table
      iNumSlicesRemaining } ps N
      (units ++ [spans us ((ps ++ startsIn s.stream s.scanned N).headD N)]) := by
  have hrest : spans (us ++ (ps ++ startsIn s.stream s.scanned N)) N =
      spans us ((ps ++ startsIn s.stream s.scanned N).headD N) ++
        spans (ps ++ startsIn s.stream s.scanned N) N := spans_append
  have hscan := h.scan
  rw [List.append_assoc, hrest] at hscan
  refine ⟨?_, List.rel_append h.handed (.cons hu.nals .nil), fun xs hxs => ?_, fun hc => ?_⟩
  · rw [List.flatten_append, List.flatten_singleton, List.append_assoc]
    exact hscan
  · rcases List.mem_append.mp hxs with hxs | hxs
    · exact h.within xs hxs
    · obtain rfl := List.mem_singleton.mp hxs
      refine ⟨?_, ?_⟩
      · obtain ⟨x, hx, hv⟩ := List.any_eq_true.mp hu.vcl
        exact List.ne_nil_of_mem (List.mem_filter.mpr ⟨hx, hv⟩)
      · dsimp only
        rw [hscan]
        exact Segments.segments_infix hu.uncut hu.vcl
  · have hwhole := h.whole hc
    have hcut := hu.whole hc
    rw [List.append_assoc] at hwhole
    dsimp only
    rw [hwhole, ScConfig.accessUnits, Segments.segments_firstCut hcut, hrest,
      List.take_left' length_spans, List.drop_left' length_spans, List.map_append, List.append_assoc]
    rfl

variable {iNumSlicesRemaining : ℤ}

theorem Matches.refill (h : s.Matches c ps N units) (hN : s.scanned + n ≤ N) :
    Matches c { s with table, iNumSlicesRemaining, scanned := s.scanned + n }
      (ps ++ startsIn s.stream s.scanned (s.scanned + n)) N units := by
  have hsame : ps ++ startsIn s.stream s.scanned (s.scanned + n) ++ startsIn s.stream (s.scanned + n) N =
      ps ++ startsIn s.stream s.scanned N := by
    rw [List.append_assoc, ← startsIn_append (Nat.le_add_right _ n) hN]
  refine ⟨?_, h.handed, h.within, fun hc => ?_⟩
  · dsimp only
    rw [hsame]
    exact h.scan
  · dsimp only
    rw [hsame]
    exact h.whole hc

theorem Tracks.hand (h : s.Tracks c (us ++ ps) e) {handed : List DecodingUnit} :
    Tracks c { s with handed, table := s.table.drop us.length, iNumSlicesRemaining } ps e := by
  refine ⟨h.ring, h.released_le, h.scanned_le, h.written_le, (List.suffix_append us ps).trans h.starts,
    fun p hp => h.kept p (List.mem_append_right us hp), h.e_le, ?_⟩
  dsimp only
  rw [h.table, spans_append, List.map_append, List.drop_left' (by rw [List.length_map, length_spans])]

/-! ## Every run -/

/-- The table has room for what the detector finds when it goes on. -/
def Roomy (c : ScConfig) (s : ScUse) : ScOp → Prop
  | .turn n => ∀ t, c.searchNextDecodingUnit s.pBuf s.table s.iNumSlicesRemaining = some (none, t) →
      c.canStoreMoreStartCodes s.table = true ∧
        s.table.length + (s.scdAnswer c n).length ≤ c.iStackSize * 4096 ∧
        s.table.length + (s.scdAnswer c n).length < 2 ^ 16
  | _ => True

instance (c : ScConfig) (s : ScUse) : ∀ op, Decidable (s.Roomy c op)
  | .turn n =>
    match h : c.searchNextDecodingUnit s.pBuf s.table s.iNumSlicesRemaining with
    | some (none, _) =>
      decidable_of_iff (c.canStoreMoreStartCodes s.table = true ∧
        s.table.length + (s.scdAnswer c n).length ≤ c.iStackSize * 4096 ∧
        s.table.length + (s.scdAnswer c n).length < 2 ^ 16) (by simp [Roomy, h])
    | some (some _, _) => isTrue (by simp [Roomy, h])
    | none => isTrue (by simp [Roomy, h])
  | .transfer _ | .release _ => isTrue trivial

/-- The table holds the NAL units of the stream that are not handed over, and each scan of the
stream gives the units handed over and these. -/
structure OneScan (c : ScConfig) (s : ScUse) (ps : List ℕ) (e : ℕ) : Prop where
  tracks : s.Tracks c ps e
  matches_scan : ∀ N, s.scanned ≤ N → ∃ units, s.Matches c ps N units

theorem start_oneScan (stream : ℕ → ℕ) : (start stream).OneScan c [] 0 where
  tracks := ⟨fun i _ h2 => absurd h2 (Nat.not_lt_zero i), le_rfl, le_rfl, Nat.zero_le _, List.nil_suffix,
    nofun, le_rfl, rfl⟩
  matches_scan _ _ := ⟨[], rfl, .nil, nofun, fun _ => rfl⟩

theorem OneScan.turn (h : s.OneScan c ps e) (hq : c.Quiet s.stream) (ha : s.Allowed c (.turn n))
    (hr : s.Roomy c (.turn n)) :
    ∃ s', s.step c (.turn n) = some s' ∧ s'.stream = s.stream ∧ ∃ ps' e', s'.OneScan c ps' e' := by
  obtain ⟨found, t, hsearch, hunit⟩ :=
    ScConfig.searchNextDecodingUnit_spec (h.tracks.sound hq) s.iNumSlicesRemaining
  unfold step
  rw [hsearch]
  simp only [Option.bind_eq_bind, Option.bind_some]
  cases found with
  | some iLast =>
    obtain ⟨j, k, hend, hk⟩ := hunit iLast rfl
    obtain ⟨us, rest, rfl, hlen, hscan⟩ := h.tracks.unitScan hend (s.scanned % c.uSize)
    rw [hlen] at hk
    refine ⟨_, rfl, rfl, rest, e, ?_, fun N hN => ?_⟩
    · rw [hk]
      exact h.tracks.hand
    · obtain ⟨units, hm⟩ := h.matches_scan N hN
      rw [hk]
      exact ⟨_, hm.hand (hscan N hN)⟩
  | none =>
    obtain ⟨hstore, hroom⟩ := hr t hsearch
    dsimp only
    rw [if_pos hstore]
    split
    · exact ⟨_, rfl, rfl, ps, e, ⟨h.tracks.ring, h.tracks.released_le, h.tracks.scanned_le,
        h.tracks.written_le, h.tracks.starts, h.tracks.kept, h.tracks.e_le, h.tracks.table⟩, fun N hN => by
          obtain ⟨units, hm⟩ := h.matches_scan N hN
          exact ⟨units, hm.scan, hm.handed, hm.within, hm.whole⟩⟩
    · obtain ⟨table, htable⟩ : ∃ table,
          c.refill ((s.scanned + n) % c.uSize) s.table (s.scdAnswer c n) = some table :=
        ScConfig.refill_isSome hroom
      obtain ⟨e', htracks⟩ := h.tracks.refill t.iNumSlicesRemaining ha htable
      refine ⟨{ s with table, iNumSlicesRemaining := t.iNumSlicesRemaining, scanned := s.scanned + n },
        ?_, rfl, _, e', htracks, fun N hN => ?_⟩
      · have hanswer : scdAnswer c { s with iNumSlicesRemaining := t.iNumSlicesRemaining } n = s.scdAnswer c n :=
          rfl
        rw [hanswer, htable]
        rfl
      · obtain ⟨units, hm⟩ := h.matches_scan N ((Nat.le_add_right _ n).trans hN)
        exact ⟨units, hm.refill hN⟩

theorem OneScan.step (h : s.OneScan c ps e) (hq : c.Quiet s.stream) {op : ScOp} (ha : s.Allowed c op)
    (hr : s.Roomy c op) :
    ∃ s', s.step c op = some s' ∧ s'.stream = s.stream ∧ ∃ ps' e', s'.OneScan c ps' e' := by
  cases op with
  | transfer n =>
    exact ⟨_, rfl, rfl, ps, e, h.tracks.transfer ha rfl, fun N hN => by
      obtain ⟨units, hm⟩ := h.matches_scan N hN
      exact ⟨units, hm.scan, hm.handed, hm.within, hm.whole⟩⟩
  | turn n => exact h.turn hq ha hr
  | release n =>
    exact ⟨_, rfl, rfl, ps, e, h.tracks.release ha rfl, fun N hN => by
      obtain ⟨units, hm⟩ := h.matches_scan N hN
      exact ⟨units, hm.scan, hm.handed, hm.within, hm.whole⟩⟩

/-- In whatever pieces a stream comes and is scanned, the decoder hands over the NAL units of
one scan of it, access unit by access unit, as long as the table has room. -/
theorem run_oneScan {c : ScConfig} {stream : ℕ → ℕ} {ops : List ScOp} (hq : c.Quiet stream)
    (hg : GuardedRuns.Guarded (step c) (fun s op => s.Allowed c op ∧ s.Roomy c op) ops (start stream)) :
    ∃ s, GuardedRuns.run (step c) ops (start stream) = some s ∧ s.stream = stream ∧
      ∃ ps e, s.OneScan c ps e := by
  have hstep : ∀ (s : ScUse) op, (s.stream = stream ∧ ∃ ps e, s.OneScan c ps e) →
      (s.Allowed c op ∧ s.Roomy c op) →
      ∃ s', s.step c op = some s' ∧ s'.stream = stream ∧ ∃ ps e, s'.OneScan c ps e := by
    rintro s op ⟨hstream, ps, e, h⟩ ⟨ha, hr⟩
    subst hstream
    exact h.step hq ha hr
  exact GuardedRuns.run_of_guarded hstep ⟨rfl, [], 0, start_oneScan stream⟩ hg

/-- Pictures of two slices each. -/
def twoSlices : List ℕ :=
  [0, 0, 1, 0x65, 0x88, 1, 0, 0, 1, 0x65, 0x41, 2, 0, 0, 1, 0x61, 0x9a, 3, 0, 0, 1, 0x61, 0x44, 4,
    0, 0, 1, 9, 0x10, 5, 0, 0, 1, 0x65, 0x88, 1]

theorem twoSlices_quiet {bSubframe : Bool} {iStackSize uSize : ℕ} :
    ScConfig.Quiet ⟨.avc, bSubframe, iStackSize, uSize⟩ (twoSlices.getD · 0) := by
  rintro p ⟨⟨-, -, h2⟩, hpre, -⟩
  have hp : p < 36 := by
    by_contra hge
    dsimp only at h2
    rw [List.getD_eq_default _ _ (show twoSlices.length ≤ p + 2 by simp [twoSlices]; omega)] at h2
    exact absurd h2 (by decide)
  have hno : ∀ p < 36, isPrefixSei .avc (nutAt .avc (twoSlices.getD · 0) p) = false := by decide
  exact absurd hpre (by rw [hno p hp]; exact Bool.false_ne_true)

/-- The stream buffer is filled again before the last picture is complete. -/
theorem twoSlices_oneScan :
    ∃ s, GuardedRuns.run (step ⟨.avc, false, 1, 32⟩)
        [.transfer 32, .turn 27, .turn 0, .release 12, .transfer 12, .turn 0, .turn 17]
        (start (twoSlices.getD · 0)) = some s ∧ s.stream = (twoSlices.getD · 0) ∧
      ∃ ps e, s.OneScan ⟨.avc, false, 1, 32⟩ ps e :=
  run_oneScan twoSlices_quiet (by decide +kernel)

/-- A user-data SEI that announces a picture without slices, in front of an AUD. -/
def noSlices : List ℕ :=
  [0, 0, 1, 6, 5, 17, 0xb1, 0xe1, 0x67, 0xa4, 0xd9, 0xca, 0x11, 0xe7, 0xb1, 0x9b, 0x00, 0x50, 0xc2, 0x49,
    0x00, 0x48, 0, 128, 7, 0, 0, 1, 9, 16]

/-- Nothing but empty SEI NAL units. -/
def seis (p : ℕ) : ℕ := [0, 0, 1, 6].getD (p % 4) 0

theorem startsIn_seis (k : ℕ) : startsIn seis (64 * k) (64 * (k + 1)) = (startsIn seis 0 64).map (64 * k + ·) := by
  unfold startsIn
  rw [show 64 * (k + 1) - 64 * k = 64 - 0 by omega, ← Nat.add_zero (64 * k), ← List.map_add_range', List.filter_map]
  refine congrArg _ (List.filter_congr fun p _ => ?_)
  have hseis : ∀ q, seis (64 * k + q) = seis q := fun q => by
    unfold seis
    rw [show 64 * k + q = q + 4 * (16 * k) by omega, Nat.add_mul_mod_self_left]
  simp only [Function.comp_apply, Nat.add_assoc, hseis]

theorem length_startsIn_seis (k : ℕ) : (startsIn seis 0 (64 * k)).length = 16 * k := by
  induction k with
  | zero => rfl
  | succ k ih =>
    rw [startsIn_append (Nat.zero_le (64 * k)) (by omega), List.length_append, ih, startsIn_seis,
      List.length_map, show (startsIn seis 0 64).length = 16 by decide]
    omega

/-- The table after `k` turns. -/
structure Filling (k : ℕ) (s : ScUse) : Prop where
  tracks : ∃ e, s.Tracks ⟨.avc, false, 1, 2 ^ 16⟩ (startsIn seis 0 (64 * k)) e
  stream : s.stream = seis
  scanned : s.scanned = 64 * k
  written : s.written = 64 * 258
  handed : s.handed = []

theorem seis_quiet : ScConfig.Quiet ⟨.avc, false, 1, 2 ^ 16⟩ seis := by
  rintro p ⟨-, -, huuid, -⟩
  have hlt : ∀ q, seis q < 7 := fun q => by
    have hmod : ∀ r < 4, [0, 0, 1, 6].getD r 0 < 7 := by decide
    exact hmod (q % 4) (Nat.mod_lt q (by decide))
  have hhead := congrArg (List.headD · 0) huuid
  have := hlt (p + ScConfig.seiStart .avc + 0)
  change 0xb1 = seis (p + ScConfig.seiStart .avc + 0) at hhead
  omega

/-- The search finds no unit in a table of SEI NAL units. -/
theorem Filling.search {s : ScUse} (h : s.Filling k) :
    ∃ t, ScConfig.searchNextDecodingUnit ⟨.avc, false, 1, 2 ^ 16⟩ s.pBuf s.table s.iNumSlicesRemaining =
      some (none, t) := by
  obtain ⟨e, htracks⟩ := h.tracks
  obtain ⟨found, t, hsearch, hunit⟩ :=
    ScConfig.searchNextDecodingUnit_spec (htracks.sound (h.stream ▸ seis_quiet)) s.iNumSlicesRemaining
  cases found with
  | none => exact ⟨t, hsearch⟩
  | some iLast =>
    obtain ⟨j, k, hend, -⟩ := hunit iLast rfl
    obtain ⟨pNal, hmem, hvcl⟩ := List.any_eq_true.mp ((Bool.false_or _).symm.trans hend.vcl)
    have hmem := List.mem_of_mem_take hmem
    rw [htracks.table, List.mem_map] at hmem
    obtain ⟨x, hx, rfl⟩ := hmem
    obtain ⟨-, -, -, -, h2⟩ := mem_startsIn (htracks.span_mem hx).1
    -- behind a start code stands the type of a SEI
    have hone : ∀ q, seis q % 32 = 5 ∨ seis q % 32 = 1 → q % 4 = 2 := fun q => by
      have hmod : ∀ r < 4, [0, 0, 1, 6].getD r 0 % 32 = 5 ∨ [0, 0, 1, 6].getD r 0 % 32 = 1 → r = 2 := by decide
      exact hmod (q % 4) (Nat.mod_lt q (by decide))
    have h3 : seis (x.1 + 3) % 32 = 5 ∨ seis (x.1 + 3) % 32 = 1 := by
      rw [h.stream] at hvcl
      exact of_decide_eq_true hvcl
    have := hone (x.1 + 2) (.inr (by rw [h2]))
    have := hone (x.1 + 3) h3
    omega

theorem Filling.allowed {s : ScUse} (h : s.Filling k) (hk : k ≤ 256) :
    s.Allowed ⟨.avc, false, 1, 2 ^ 16⟩ (.turn 64) := by
  have hlen : (startsIn seis 0 64).length = 16 := by decide
  refine ⟨?_, ?_, ?_⟩
  · rw [h.scanned, h.written]
    omega
  · unfold scdAnswer
    rw [h.stream, h.scanned, ← Nat.mul_succ, startsIn_seis, List.length_map, List.length_map, hlen]
  · rw [h.stream, h.scanned, h.written]
    intro p hp
    have := (mem_startsIn hp).2.1
    show p + 4 ≤ 64 * 258
    omega

theorem Filling.length {s : ScUse} (h : s.Filling k) : s.table.length = 16 * k := by
  obtain ⟨e, htracks⟩ := h.tracks
  rw [htracks.table, List.length_map, length_spans, length_startsIn_seis]

theorem Filling.answer {s : ScUse} (h : s.Filling k) :
    (s.scdAnswer ⟨.avc, false, 1, 2 ^ 16⟩ 64).length = 16 := by
  have hlen : (startsIn seis 0 64).length = 16 := by decide
  unfold scdAnswer
  rw [h.stream, h.scanned, ← Nat.mul_succ, startsIn_seis, List.length_map, List.length_map, hlen]

theorem Filling.turn {s : ScUse} (h : s.Filling k) (hk : k ≤ 255) :
    ∃ s', s.step ⟨.avc, false, 1, 2 ^ 16⟩ (.turn 64) = some s' ∧ s'.Filling (k + 1) := by
  obtain ⟨t, hsearch⟩ := h.search
  obtain ⟨e, htracks⟩ := h.tracks
  have hstore : ScConfig.canStoreMoreStartCodes ⟨.avc, false, 1, 2 ^ 16⟩ s.table = true := by
    unfold ScConfig.canStoreMoreStartCodes
    rw [h.length, decide_eq_true_eq]
    dsimp only
    omega
  obtain ⟨table, htable⟩ : ∃ table, ScConfig.refill ⟨.avc, false, 1, 2 ^ 16⟩ ((s.scanned + 64) % 2 ^ 16)
      s.table (s.scdAnswer ⟨.avc, false, 1, 2 ^ 16⟩ 64) = some table := by
    apply ScConfig.refill_isSome
    rw [h.length, h.answer]
    dsimp only
    omega
  obtain ⟨e', hnew⟩ := htracks.refill t.iNumSlicesRemaining (h.allowed (by omega)) htable
  refine ⟨{ s with table, iNumSlicesRemaining := t.iNumSlicesRemaining, scanned := s.scanned + 64 }, ?_, ?_⟩
  · have hmore : ¬s.written - s.scanned < 5 := by
      rw [h.written, h.scanned]
      omega
    have hanswer : scdAnswer ⟨.avc, false, 1, 2 ^ 16⟩ { s with iNumSlicesRemaining := t.iNumSlicesRemaining } 64 =
        s.scdAnswer ⟨.avc, false, 1, 2 ^ 16⟩ 64 := rfl
    unfold step
    rw [hsearch]
    simp only [Option.bind_eq_bind, Option.bind_some]
    rw [if_pos hstore, if_neg hmore, hanswer, htable]
    rfl
  · have hstarts : startsIn seis 0 (64 * k) ++ startsIn s.stream s.scanned (s.scanned + 64) =
        startsIn seis 0 (64 * (k + 1)) := by
      rw [h.stream, h.scanned, ← Nat.mul_succ, ← startsIn_append (Nat.zero_le _) (by omega)]
    refine ⟨⟨e', hstarts ▸ hnew⟩, h.stream, ?_, h.written, h.handed⟩
    show s.scanned + 64 = _
    rw [h.scanned]
    rfl

theorem Filling.run {k m : ℕ} {s : ScUse} (h : s.Filling k) (hm : k + m ≤ 256) :
    GuardedRuns.Guarded (step ⟨.avc, false, 1, 2 ^ 16⟩) (Allowed ⟨.avc, false, 1, 2 ^ 16⟩)
        (List.replicate m (.turn 64) ++ [.turn 64]) s ∧
      ∃ s', GuardedRuns.run (step ⟨.avc, false, 1, 2 ^ 16⟩) (List.replicate m (.turn 64)) s = some s' ∧
        s'.Filling (k + m) := by
  induction m generalizing k s with
  | zero => exact ⟨⟨h.allowed hm, fun _ _ => trivial⟩, s, rfl, h⟩
  | succ m ih =>
    obtain ⟨s₁, hstep, h₁⟩ := h.turn (by omega)
    obtain ⟨hg, s', hrun, h'⟩ := ih h₁ (by omega)
    refine ⟨⟨h.allowed (by omega), fun t ht => ?_⟩, s', ?_, ?_⟩
    · rw [hstep] at ht
      obtain rfl := Option.some.inj ht
      exact hg
    · rw [List.replicate_succ, GuardedRuns.run, hstep]
      exact hrun
    · rw [show k + (m + 1) = k + 1 + m by omega]
      exact h'

theorem Filling.clears {s : ScUse} (h : s.Filling 256) :
    ∃ s', s.step ⟨.avc, false, 1, 2 ^ 16⟩ (.turn 64) = some s' ∧ s'.stream = seis ∧
      s'.scanned = 64 * 257 ∧ s'.table.length = 16 ∧ s'.handed = [] := by
  obtain ⟨t, hsearch⟩ := h.search
  have hstore : ¬ScConfig.canStoreMoreStartCodes ⟨.avc, false, 1, 2 ^ 16⟩ s.table = true := by
    unfold ScConfig.canStoreMoreStartCodes
    rw [h.length, decide_eq_true_eq]
    decide
  have hmore : ¬s.written - s.scanned < 5 := by
    rw [h.written, h.scanned]
    omega
  have hanswer : (scdAnswer ⟨.avc, false, 1, 2 ^ 16⟩
      { s with iNumSlicesRemaining := t.iNumSlicesRemaining, table := [] } 64).length = 16 := h.answer
  obtain ⟨table, htable⟩ : ∃ table, ScConfig.refill ⟨.avc, false, 1, 2 ^ 16⟩ ((s.scanned + 64) % 2 ^ 16) []
      (scdAnswer ⟨.avc, false, 1, 2 ^ 16⟩
        { s with iNumSlicesRemaining := t.iNumSlicesRemaining, table := [] } 64) = some table := by
    apply ScConfig.refill_isSome
    rw [hanswer]
    decide
  refine ⟨{ s with table, iNumSlicesRemaining := t.iNumSlicesRemaining, scanned := s.scanned + 64 }, ?_,
    h.stream, ?_, ?_, h.handed⟩
  · unfold step
    rw [hsearch]
    simp only [Option.bind_eq_bind, Option.bind_some]
    rw [if_neg hstore, if_neg hmore, htable]
    rfl
  · show s.scanned + 64 = _
    rw [h.scanned]
  · show table.length = 16
    rw [ScConfig.length_refill htable, hanswer]
    rfl

/-- A full table is cleared, and its NAL units are lost. -/
theorem seis_lost :
    ∃ ops s, GuardedRuns.Guarded (step ⟨.avc, false, 1, 2 ^ 16⟩) (Allowed ⟨.avc, false, 1, 2 ^ 16⟩) ops (start seis) ∧
      GuardedRuns.run (step ⟨.avc, false, 1, 2 ^ 16⟩) ops (start seis) = some s ∧
      ¬∃ ps e, s.OneScan ⟨.avc, false, 1, 2 ^ 16⟩ ps e := by
  let c : ScConfig := ⟨.avc, false, 1, 2 ^ 16⟩
  have hroom : (start seis).Allowed c (.transfer (64 * 258)) := by decide
  obtain ⟨s₀, hs₀⟩ : ∃ s₀, (start seis).step c (.transfer (64 * 258)) = some s₀ := ⟨_, rfl⟩
  have h₀ : s₀.Filling 0 := by
    have htracks := (@start_oneScan c seis).tracks.transfer hroom hs₀
    obtain rfl := Option.some.inj hs₀
    exact ⟨⟨0, htracks⟩, rfl, rfl, rfl, rfl⟩
  obtain ⟨hg, s₁, hrun, h₁⟩ := h₀.run (show 0 + 256 ≤ 256 from le_rfl)
  obtain ⟨s₂, hclear, hstream, hscanned, hlength, hhanded⟩ := h₁.clears
  refine ⟨.transfer (64 * 258) :: (List.replicate 256 (.turn 64) ++ [.turn 64]), s₂, ⟨hroom, fun t ht => ?_⟩,
    ?_, ?_⟩
  · rw [hs₀] at ht
    obtain rfl := Option.some.inj ht
    exact hg
  · rw [GuardedRuns.run, hs₀, Option.bind_some, GuardedRuns.run_append, hrun, Option.bind_some, GuardedRuns.run,
      hclear]
    rfl
  · rintro ⟨ps, e, h⟩
    obtain ⟨units, hm⟩ := h.matches_scan s₂.scanned le_rfl
    have hhanded := hhanded ▸ hm.handed
    obtain rfl := List.forall₂_nil_left_iff.mp hhanded
    have hps : ps.length = 16 := by
      rw [← hlength, h.tracks.table, List.length_map, length_spans]
    have hscan := congrArg List.length hm.scan
    have hnone : startsIn seis (64 * 257) (64 * 257) = [] := by
      unfold startsIn
      rw [Nat.sub_self]
      rfl
    rw [hstream, hscanned, hnone, List.append_nil, List.flatten_nil, List.nil_append, length_spans, length_spans,
      length_startsIn_seis, hps] at hscan
    omega

/-- Where slices are decoded a unit is not an access unit; a full table loses NAL units; and a
user-data SEI can announce a picture without slices. -/
theorem not_run_oneScan :
    (¬∀ (c : ScConfig) (stream : ℕ → ℕ) (ops : List ScOp), c.Quiet stream →
      GuardedRuns.Guarded (step c) (fun s op => s.Allowed c op ∧ s.Roomy c op) ops (start stream) →
      ∃ s, GuardedRuns.run (step c) ops (start stream) = some s ∧ s.stream = stream ∧
        ∃ ps e units, s.OneScan c ps e ∧ s.Matches c ps s.scanned units ∧
          c.accessUnits s.stream (spans (startsIn s.stream 0 s.scanned) s.scanned) =
            units.map (List.filter (c.spanVcl s.stream)) ++ c.accessUnits s.stream (spans ps s.scanned)) ∧
    (¬∀ (c : ScConfig) (stream : ℕ → ℕ) (ops : List ScOp), c.bSubframe = false → c.Quiet stream →
      GuardedRuns.Guarded (step c) (Allowed c) ops (start stream) →
      ∃ s, GuardedRuns.run (step c) ops (start stream) = some s ∧ ∃ ps e, s.OneScan c ps e) ∧
    ¬∀ (c : ScConfig) (stream : ℕ → ℕ) (ops : List ScOp), c.bSubframe = false →
      GuardedRuns.Guarded (step c) (fun s op => s.Allowed c op ∧ s.Roomy c op) ops (start stream) →
      ∃ s, GuardedRuns.run (step c) ops (start stream) = some s ∧ ∃ ps e, s.OneScan c ps e := by
  refine ⟨fun h => ?_, fun h => ?_, fun h => ?_⟩
  · let c : ScConfig := ⟨.avc, true, 1, 32⟩
    let ops : List ScOp := [.transfer 32, .turn 27, .turn 0]
    obtain ⟨s, hrun, hstream, ps, e, units, -, hm, hwhole⟩ :=
      h c (twoSlices.getD · 0) ops twoSlices_quiet (by decide +kernel)
    have hs : (GuardedRuns.run (step c) ops (start (twoSlices.getD · 0))).map
        (fun s => (s.scanned, s.handed.map fun u => u.nals.length)) = some (27, [1]) := by decide +kernel
    rw [hrun, Option.map_some, Option.some.injEq, Prod.mk.injEq] at hs
    obtain ⟨hscanned, hone⟩ := hs
    obtain ⟨u, hhanded, hu⟩ := List.map_eq_singleton_iff.mp hone
    obtain ⟨xs, rest, hxs, hnil, rfl⟩ := List.forall₂_cons_left_iff.mp (hhanded ▸ hm.handed)
    have hle := List.length_filter_le (c.spanVcl s.stream) xs
    rw [← hxs.length_eq, hu] at hle
    -- the first access unit has two VCL NAL units
    have htwo : (c.accessUnits (twoSlices.getD · 0) (spans (startsIn (twoSlices.getD · 0) 0 27) 27)).head?.map
        List.length = some 2 := by decide +kernel
    rw [← hstream, ← hscanned, hwhole] at htwo
    have := Option.some.inj htwo
    omega
  · obtain ⟨ops, s, hg, hrun, hno⟩ := seis_lost
    obtain ⟨s', hrun', hscan⟩ := h ⟨.avc, false, 1, 2 ^ 16⟩ seis ops rfl seis_quiet hg
    rw [hrun] at hrun'
    obtain rfl := Option.some.inj hrun'
    exact hno hscan
  · let c : ScConfig := ⟨.avc, false, 1, 32⟩
    let ops : List ScOp := [.transfer 30, .turn 30, .turn 0]
    obtain ⟨s, hrun, -⟩ := h c (noSlices.getD · 0) ops rfl (by decide +kernel)
    have hfail : (GuardedRuns.run (step c) ops (start (noSlices.getD · 0))).isNone = true := by decide +kernel
    rw [hrun] at hfail
    exact absurd hfail Bool.false_ne_true

end ScUse

end VcuCodec
