import Mathlib.Tactic.Ring
import VcuCodec.MeasuredLoops

/-!
# The aspect ratio of the encoder

`AL_UpdateAspectRatio` (`lib_encode/EncUtils.c`) writes the sample aspect ratio of the
VUI for a picture size and a display aspect ratio: an index for the standard formats,
and the reduced quotient for all other sizes.
-/

namespace VcuCodec.AspectRatios

open MeasuredLoops

/-! ## The code -/

/-- `AL_EAspectRatio`. -/
inductive AspectRatio
  | auto
  | ratio11
  | ratio43
  | ratio169
  | none
  deriving DecidableEq

/-- The fields of `AL_TVuiParam` on the aspect ratio. -/
structure VuiParam where
  aspectRatioInfoPresentFlag : ℕ
  aspectRatioIdc : ℕ
  sarWidth : ℕ
  sarHeight : ℕ
  deriving DecidableEq

def primes : List ℕ := [2, 3, 5, 7, 11, 13, 17, 19, 23]

/-- A round of the inner loop of `AL_Reduction`. -/
def reduceBody (prime : ℕ) (s : ℕ × ℕ) : (ℕ × ℕ) ⊕ (ℕ × ℕ) :=
  if s.1 % prime = 0 ∧ s.2 % prime = 0 then .inl (s.1 / prime, s.2 / prime) else .inr s

/-- `AL_Reduction`; each inner loop is cut short after `fuel` rounds. -/
def reduction (fuel : ℕ) (s : ℕ × ℕ) : Option (ℕ × ℕ) :=
  primes.foldlM (fun s prime => loop (reduceBody prime) fuel s) s

/-- `RoundUp` of a `uint32_t`. -/
def roundUp16 (v : ℕ) : ℕ := (v + 15) % 2 ^ 32 / 16 * 16

/-- The index of a standard format of 4:3, 0 for all others. -/
def idc43 (uWidth uHeight : ℕ) : ℕ :=
  if uWidth = 352 then
    if uHeight = 240 then 3
    else if uHeight = 288 then 2
    else if uHeight = 480 then 7
    else if uHeight = 576 then 6
    else 0
  else if uWidth = 480 then
    if uHeight = 480 then 11
    else if uHeight = 576 then 10
    else 0
  else if uWidth = 528 then
    if uHeight = 480 then 5
    else if uHeight = 576 then 4
    else 0
  else if uWidth = 640 then
    if uHeight = 480 then 1
    else 0
  else if uWidth = 720 then
    if uHeight = 480 then 3
    else if uHeight = 576 then 2
    else 0
  else if uWidth = 1440 then
    if roundUp16 uHeight = 1088 then 1
    else 0
  else 0

/-- The index of a standard format of 16:9. -/
def idc169 (uWidth uHeight : ℕ) : ℕ :=
  if uWidth = 352 then
    if uHeight = 480 then 8
    else if uHeight = 576 then 9
    else 0
  else if uWidth = 480 then
    if uHeight = 480 then 7
    else if uHeight = 576 then 6
    else 0
  else if uWidth = 528 then
    if uHeight = 480 then 13
    else if uHeight = 576 then 12
    else 0
  else if uWidth = 720 then
    if uHeight = 480 then 5
    else if uHeight = 576 then 4
    else 0
  else if uWidth = 960 then
    if roundUp16 uHeight = 1088 then 16
    else 0
  else if uWidth = 1280 then
    if uHeight = 720 then 1
    else if roundUp16 uHeight = 1088 then 15
    else 0
  else if uWidth = 1440 then
    if roundUp16 uHeight = 1088 then 14
    else 0
  else if uWidth = 1920 then
    if roundUp16 uHeight = 1088 then 1
    else 0
  else 0

/-- `aspect_ratio_idc` from the tables. -/
def tableIdc (uWidth uHeight : ℕ) : AspectRatio → ℕ
  | .ratio43 => idc43 uWidth uHeight
  | .ratio169 => idc169 uWidth uHeight
  | .ratio11 => 1
  | _ => 0

/-- The factors of the width and of the height, in 32 bits. -/
def scaled (uWidth uHeight : ℕ) : AspectRatio → ℕ × ℕ
  | .ratio43 => (uWidth * 3 % 2 ^ 32, uHeight * 4 % 2 ^ 32)
  | .ratio169 => (uWidth * 9 % 2 ^ 32, uHeight * 16 % 2 ^ 32)
  | _ => (uWidth, uHeight)

/-- The VUI with an index. -/
def VuiParam.ofIdc (idc : ℕ) : VuiParam := ⟨if idc ≠ 0 then 1 else 0, idc, 0, 0⟩

/-- `AL_UpdateAspectRatio`, which keeps the fields of the VUI that are not listed. -/
def updateAspectRatio (fuel uWidth uHeight : ℕ) (eAspectRatio : AspectRatio) : Option VuiParam :=
  if eAspectRatio = .none then some ⟨0, 0, 0, 0⟩
  else
    let ratio := if eAspectRatio = .auto then if uWidth ≤ 720 then .ratio43 else .ratio169
      else eAspectRatio
    let idc := tableIdc uWidth uHeight ratio
    if idc = 0 ∧ eAspectRatio ≠ .auto then
      let (uW, uH) := scaled uWidth uHeight ratio
      if uH ≠ uW then do
        let (uW, uH) ← reduction fuel (uW, uH)
        -- `sar_width` and `sar_height` have 16 bits
        return ⟨1, 255, uH % 2 ^ 16, uW % 2 ^ 16⟩
      else some (.ofIdc 1)
    else some (.ofIdc idc)

/-! ## What the fields mean -/

/-- The sample aspect ratio of an `aspect_ratio_idc` (table E-1 of the standards). -/
def tableSar : ℕ → ℕ × ℕ
  | 1 => (1, 1)
  | 2 => (12, 11)
  | 3 => (10, 11)
  | 4 => (16, 11)
  | 5 => (40, 33)
  | 6 => (24, 11)
  | 7 => (20, 11)
  | 8 => (32, 11)
  | 9 => (80, 33)
  | 10 => (18, 11)
  | 11 => (15, 11)
  | 12 => (64, 33)
  | 13 => (160, 99)
  | 14 => (4, 3)
  | 15 => (3, 2)
  | 16 => (2, 1)
  | _ => (0, 0)

/-- The sample aspect ratio that a decoder reads; `(0, 0)` if it is not specified. -/
def VuiParam.sar (v : VuiParam) : ℕ × ℕ :=
  if v.aspectRatioInfoPresentFlag = 0 then (0, 0)
  else if v.aspectRatioIdc = 255 then (v.sarWidth, v.sarHeight)
  else tableSar v.aspectRatioIdc

/-- A display aspect ratio. -/
def AspectRatio.display : AspectRatio → Option (ℕ × ℕ)
  | .ratio43 => some (4, 3)
  | .ratio169 => some (16, 9)
  | _ => Option.none

/-- A picture of samples of this shape has the display aspect ratio `num : den`. -/
def VuiParam.DisplaysAs (v : VuiParam) (uWidth uHeight num den : ℕ) : Prop :=
  v.sar.1 * uWidth * den = num * uHeight * v.sar.2 ∧ (0 < uWidth → 0 < uHeight → 0 < v.sar.1 ∧ 0 < v.sar.2)

/-! ## Reduction -/

/-- The rest of two numbers after a common divisor is taken out. -/
structure Reduced (s t : ℕ × ℕ) (d : ℕ) : Prop where
  pos : 0 < d
  fst : s.1 = d * t.1
  snd : s.2 = d * t.2

theorem Reduced.refl (s : ℕ × ℕ) : Reduced s s 1 := ⟨Nat.one_pos, (one_mul _).symm, (one_mul _).symm⟩

theorem Reduced.trans {s t u : ℕ × ℕ} {d e : ℕ} (h : Reduced s t d) (h' : Reduced t u e) :
    Reduced s u (d * e) where
  pos := Nat.mul_pos h.pos h'.pos
  fst := by rw [h.fst, h'.fst, mul_assoc]
  snd := by rw [h.snd, h'.snd, mul_assoc]

variable {s : ℕ × ℕ} {fuel : ℕ}

/-- The inner loop takes out all common factors `prime`. -/
theorem reduceLoop_ends {prime : ℕ} (hprime : 1 < prime) (hs : 0 < s.1 + s.2)
    (hfuel : s.1 + s.2 < fuel) : ∃ t, loop (reduceBody prime) fuel s = some t ∧
      (∃ d, Reduced s t d) ∧ ¬(prime ∣ t.1 ∧ prime ∣ t.2) := by
  apply loop_rule (fun t => 0 < t.1 + t.2 ∧ ∃ d, Reduced s t d)
    (fun t => (∃ d, Reduced s t d) ∧ ¬(prime ∣ t.1 ∧ prime ∣ t.2)) (fun t => t.1 + t.2)
  · intro t t' ⟨hpos, d, hd⟩ hbody
    unfold reduceBody at hbody
    split_ifs at hbody with hdvd
    have ht' := Sum.inl.inj hbody
    have h1 : t.1 = prime * t'.1 := by
      rw [← ht', Nat.mul_div_cancel' (Nat.dvd_of_mod_eq_zero hdvd.1)]
    have h2 : t.2 = prime * t'.2 := by
      rw [← ht', Nat.mul_div_cancel' (Nat.dvd_of_mod_eq_zero hdvd.2)]
    have hsum : t.1 + t.2 = prime * (t'.1 + t'.2) := by rw [h1, h2, mul_add]
    have hpos' : 0 < t'.1 + t'.2 := by
      rw [hsum] at hpos
      exact Nat.pos_of_mul_pos_left hpos
    refine ⟨⟨hpos', _, hd.trans ⟨by omega, h1, h2⟩⟩, ?_⟩
    rw [hsum]
    exact lt_mul_of_one_lt_left hpos' hprime
  · intro t t' ⟨_, hd⟩ hbody
    unfold reduceBody at hbody
    split_ifs at hbody with hdvd
    obtain rfl := Sum.inr.inj hbody
    exact ⟨hd, fun h => hdvd ⟨Nat.mod_eq_zero_of_dvd h.1, Nat.mod_eq_zero_of_dvd h.2⟩⟩
  · exact ⟨hs, 1, .refl s⟩
  · exact hfuel

theorem Reduced.sum_pos {s t : ℕ × ℕ} {d : ℕ} (h : Reduced s t d) (hs : 0 < s.1 + s.2) :
    0 < t.1 + t.2 := by
  rw [h.fst, h.snd, ← mul_add] at hs
  exact Nat.pos_of_mul_pos_left hs

theorem Reduced.sum_le {s t : ℕ × ℕ} {d : ℕ} (h : Reduced s t d) : t.1 + t.2 ≤ s.1 + s.2 := by
  rw [h.fst, h.snd, ← mul_add]
  exact Nat.le_mul_of_pos_left _ h.pos

theorem reduceAll_ends (ps : List ℕ) (hps : ∀ p ∈ ps, 1 < p) (hs : 0 < s.1 + s.2)
    (hfuel : s.1 + s.2 < fuel) :
    ∃ t d, ps.foldlM (fun s prime => loop (reduceBody prime) fuel s) s = some t ∧ Reduced s t d ∧
      ∀ p ∈ ps, ¬(p ∣ t.1 ∧ p ∣ t.2) := by
  induction ps generalizing s with
  | nil => exact ⟨s, 1, rfl, .refl s, by simp⟩
  | cons p ps ih =>
    rw [List.forall_mem_cons] at hps
    obtain ⟨u, hu, ⟨d, hd⟩, hp⟩ := reduceLoop_ends hps.1 hs hfuel
    obtain ⟨t, e, ht, he, hrest⟩ := ih hps.2 (hd.sum_pos hs) (lt_of_le_of_lt hd.sum_le hfuel)
    refine ⟨t, d * e, ?_, hd.trans he, ?_⟩
    · rw [List.foldlM_cons, hu]
      exact ht
    · rw [List.forall_mem_cons]
      refine ⟨fun h => hp ⟨?_, ?_⟩, hrest⟩
      · rw [he.fst]
        exact h.1.mul_left e
      · rw [he.snd]
        exact h.2.mul_left e

theorem reduction_ends (hs : 0 < s.1 + s.2) (hfuel : s.1 + s.2 < fuel) :
    ∃ t d, reduction fuel s = some t ∧ Reduced s t d ∧ ∀ p ∈ primes, ¬(p ∣ t.1 ∧ p ∣ t.2) :=
  reduceAll_ends primes (by decide) hs hfuel

/-! ## The standard formats -/

/-- The active picture of a standard format, times 45: 704 of 720 samples, and 1080
lines. -/
def nominalSize (uWidth uHeight : ℕ) : ℕ × ℕ :=
  (if uWidth = 480 ∨ uWidth = 720 then 44 * uWidth else 45 * uWidth,
    45 * if roundUp16 uHeight = 1088 then 1080 else uHeight)

/-- A format with `lines` lines, which are 1080 if there are 1073 to 1088. -/
theorem displaysAs_ofIdc {uWidth uHeight idc num den : ℕ} (hidc : idc ≠ 0) (hlt : idc ≠ 255)
    (hsar : (tableSar idc).1 * (nominalSize uWidth uHeight).1 * den =
      num * (nominalSize uWidth uHeight).2 * (tableSar idc).2)
    (hpos : 0 < (tableSar idc).1 ∧ 0 < (tableSar idc).2) :
    (VuiParam.ofIdc idc).DisplaysAs (nominalSize uWidth uHeight).1 (nominalSize uWidth uHeight).2 num
      den := by
  have heq : (VuiParam.ofIdc idc).sar = tableSar idc := by
    simp [VuiParam.sar, VuiParam.ofIdc, hidc, hlt]
  unfold VuiParam.DisplaysAs
  rw [heq]
  exact ⟨hsar, fun _ _ => hpos⟩

variable {uWidth uHeight idc : ℕ}

theorem idc43_displays (h : idc43 uWidth uHeight = idc) (hidc : idc ≠ 0) :
    (VuiParam.ofIdc idc).DisplaysAs (nominalSize uWidth uHeight).1 (nominalSize uWidth uHeight).2 4
      3 := by
  unfold idc43 at h
  split_ifs at h with hw hh hh hh hh hw hh hh hw hh hh hw hh hw hh hh hw hh <;>
    first | exact absurd h.symm hidc | skip
  all_goals
    subst h
    apply displaysAs_ofIdc (by decide) (by decide) _ (by decide)
    simp only [nominalSize, hh, hw, if_true]
    decide

theorem idc169_displays (h : idc169 uWidth uHeight = idc) (hidc : idc ≠ 0)
    (h352 : uWidth ≠ 352) : (VuiParam.ofIdc idc).DisplaysAs (nominalSize uWidth uHeight).1
      (nominalSize uWidth uHeight).2 16 9 := by
  unfold idc169 at h
  rw [if_neg h352] at h
  split_ifs at h with hw hh hh hw hh hh hw hh hh hw hh hw hh hh hw hh hw hh <;>
    first | exact absurd h.symm hidc | skip
  all_goals
    subst h
    apply displaysAs_ofIdc (by decide) (by decide) _ (by decide)
    simp only [nominalSize, hh, hw, if_true]
    decide

/-! ## The VUI of a picture -/

variable {ratio : AspectRatio}

theorem scaled_reduced {uWidth uHeight num den : ℕ} (hw : uWidth < 2 ^ 16) (hh : uHeight < 2 ^ 16)
    (hratio : ratio.display = some (num, den)) :
    scaled uWidth uHeight ratio = (uWidth * den, uHeight * num) ∧ den ≤ 9 ∧ num ≤ 16 ∧ 0 < den ∧
      0 < num := by
  cases ratio with
  | ratio43 =>
    cases hratio
    refine ⟨Prod.ext ?_ ?_, by decide⟩ <;> exact Nat.mod_eq_of_lt (by omega)
  | ratio169 =>
    cases hratio
    refine ⟨Prod.ext ?_ ?_, by decide⟩ <;> exact Nat.mod_eq_of_lt (by omega)
  | _ => cases hratio

/-- The reduced quotient shows the picture as requested. -/
theorem displaysAs_reduced {uWidth uHeight num den d : ℕ} {t : ℕ × ℕ} (hnum : 0 < num) (hden : 0 < den)
    (h : Reduced (uWidth * den, uHeight * num) t d) :
    (VuiParam.mk 1 255 t.2 t.1).DisplaysAs uWidth uHeight num den := by
  have hw : uWidth * den = d * t.1 := h.fst
  have hh : uHeight * num = d * t.2 := h.snd
  constructor
  · change t.2 * uWidth * den = num * uHeight * t.1
    calc t.2 * uWidth * den
      _ = t.2 * (uWidth * den) := mul_assoc _ _ _
      _ = (d * t.2) * t.1 := by
        rw [hw]
        ring
      _ = num * uHeight * t.1 := by rw [← hh, mul_comm uHeight]
  · intro hw0 hh0
    have hwpos := Nat.mul_pos hw0 hden
    have hhpos := Nat.mul_pos hh0 hnum
    rw [hw] at hwpos
    rw [hh] at hhpos
    exact ⟨Nat.pos_of_mul_pos_left hhpos, Nat.pos_of_mul_pos_left hwpos⟩

theorem updateAspectRatio_auto (fuel uWidth uHeight : ℕ) : updateAspectRatio fuel uWidth uHeight .auto =
    some (.ofIdc (if uWidth ≤ 720 then idc43 uWidth uHeight else idc169 uWidth uHeight)) := by
  unfold updateAspectRatio
  by_cases h : uWidth ≤ 720
  · simp [h, tableIdc]
  · simp [h, tableIdc]

theorem updateAspectRatio_table (fuel : ℕ) {uWidth uHeight : ℕ}
    (hidc : tableIdc uWidth uHeight ratio ≠ 0) (hnone : ratio ≠ .none) (hauto : ratio ≠ .auto) :
    updateAspectRatio fuel uWidth uHeight ratio = some (.ofIdc (tableIdc uWidth uHeight ratio)) := by
  simp [updateAspectRatio, hnone, hauto, hidc]

theorem updateAspectRatio_extended {fuel uWidth uHeight num den : ℕ} (hw : uWidth < 2 ^ 16)
    (hh : uHeight < 2 ^ 16) (hfuel : 2 ^ 21 ≤ fuel)
    (hratio : ratio.display = some (num, den)) (hidc : tableIdc uWidth uHeight ratio = 0) :
    ∃ v, updateAspectRatio fuel uWidth uHeight ratio = some v ∧
      ∃ t d, Reduced (uWidth * den, uHeight * num) t d ∧
        (∀ p ∈ primes, 0 < uWidth + uHeight → ¬(p ∣ t.1 ∧ p ∣ t.2)) ∧
        (t.1 < 2 ^ 16 → t.2 < 2 ^ 16 → v.DisplaysAs uWidth uHeight num den) := by
  obtain ⟨hscaled, hden9, hnum16, hden, hnum⟩ := scaled_reduced hw hh hratio
  have hne : ratio ≠ .none ∧ ratio ≠ .auto := by
    constructor <;> intro e <;> rw [e] at hratio <;> cases hratio
  have hrun : updateAspectRatio fuel uWidth uHeight ratio =
      if uHeight * num ≠ uWidth * den then
        (reduction fuel (uWidth * den, uHeight * num)).map fun t => ⟨1, 255, t.2 % 2 ^ 16, t.1 % 2 ^ 16⟩
      else some (.ofIdc 1) := by
    simp [updateAspectRatio, hne.1, hne.2, hidc, hscaled, Option.map_eq_bind]
  rw [hrun]
  by_cases heq : uHeight * num ≠ uWidth * den
  · have hpos : 0 < uWidth * den + uHeight * num := by omega
    have hlt : uWidth * den + uHeight * num < fuel := by
      have h9 : uWidth * den ≤ uWidth * 9 := Nat.mul_le_mul_left _ hden9
      have h16 : uHeight * num ≤ uHeight * 16 := Nat.mul_le_mul_left _ hnum16
      omega
    obtain ⟨t, d, ht, hd, hprimes⟩ := reduction_ends (s := (uWidth * den, uHeight * num)) hpos hlt
    rw [if_pos heq, ht]
    refine ⟨_, rfl, t, d, hd, fun p hp _ => hprimes p hp, fun h1 h2 => ?_⟩
    dsimp only
    rw [Nat.mod_eq_of_lt h1, Nat.mod_eq_of_lt h2]
    exact displaysAs_reduced hnum hden hd
  · have heq' : uHeight * num = uWidth * den := not_not.mp heq
    rw [if_neg heq]
    have hdisplays : (VuiParam.ofIdc 1).DisplaysAs uWidth uHeight num den := by
      have hsar : (VuiParam.ofIdc 1).sar = (1, 1) := rfl
      unfold VuiParam.DisplaysAs
      rw [hsar]
      refine ⟨?_, fun _ _ => by decide⟩
      rw [one_mul, mul_one, ← heq', mul_comm]
    rcases Nat.eq_zero_or_pos (uWidth * den) with hzero | hpos
    · refine ⟨_, rfl, _, 1, .refl _, fun p _ hpos => ?_, fun _ _ => hdisplays⟩
      rw [hzero] at heq'
      rcases Nat.mul_eq_zero.mp hzero with h | h <;> rcases Nat.mul_eq_zero.mp heq' with h' | h' <;> omega
    · refine ⟨_, rfl, (1, 1), uWidth * den, ⟨hpos, (mul_one _).symm, heq'.trans (mul_one _).symm⟩,
        fun p hp _ h => ?_, fun _ _ => hdisplays⟩
      have hone : p = 1 := Nat.dvd_one.mp h.1
      rw [hone] at hp
      exact absurd hp (by decide)

/-- The function ends.  It keeps out a ratio that is not asked for, takes square samples
for 1:1, the index of a standard format for its active picture, and for all other
sizes of 4:3 and 16:9 samples that show the picture as requested. -/
theorem updateAspectRatio_displays (fuel uWidth uHeight : ℕ) (hw : uWidth < 2 ^ 16)
    (hh : uHeight < 2 ^ 16) (hfuel : 2 ^ 21 ≤ fuel) (ratio : AspectRatio) :
    ∃ v, updateAspectRatio fuel uWidth uHeight ratio = some v ∧
      (ratio = .none → v = ⟨0, 0, 0, 0⟩) ∧ (ratio = .ratio11 → v.sar = (1, 1)) ∧
      (ratio = .auto → v = .ofIdc (if uWidth ≤ 720 then idc43 uWidth uHeight else idc169 uWidth uHeight)) ∧
      ∀ num den, ratio.display = some (num, den) →
        (tableIdc uWidth uHeight ratio ≠ 0 → ¬(ratio = .ratio169 ∧ uWidth = 352) →
          v.DisplaysAs (nominalSize uWidth uHeight).1 (nominalSize uWidth uHeight).2 num den) ∧
        (tableIdc uWidth uHeight ratio = 0 → ∃ t d, Reduced (uWidth * den, uHeight * num) t d ∧
          (∀ p ∈ primes, 0 < uWidth + uHeight → ¬(p ∣ t.1 ∧ p ∣ t.2)) ∧
          (t.1 < 2 ^ 16 → t.2 < 2 ^ 16 → v.DisplaysAs uWidth uHeight num den)) := by
  cases ratio with
  | none =>
    refine ⟨_, rfl, fun _ => rfl, fun h => ?_, fun h => ?_, fun num den h => ?_⟩ <;> cases h
  | auto =>
    refine ⟨_, updateAspectRatio_auto fuel uWidth uHeight, fun h => ?_, fun h => ?_, fun _ => rfl,
      fun num den h => ?_⟩ <;> cases h
  | ratio11 =>
    refine ⟨.ofIdc 1, rfl, fun h => ?_, fun _ => rfl, fun h => ?_, fun num den h => ?_⟩ <;> cases h
  | ratio43 =>
    by_cases hidc : tableIdc uWidth uHeight .ratio43 = 0
    · obtain ⟨v, hv, hrest⟩ := updateAspectRatio_extended hw hh hfuel rfl hidc
      refine ⟨v, hv, fun h => ?_, fun h => ?_, fun h => ?_, fun num den h => ?_⟩ <;> cases h
      exact ⟨fun hne => absurd hidc hne, fun _ => hrest⟩
    · refine ⟨_, updateAspectRatio_table fuel hidc (by decide) (by decide), fun h => ?_, fun h => ?_,
        fun h => ?_, fun num den h => ?_⟩ <;> cases h
      exact ⟨fun hne _ => idc43_displays rfl hne, fun hzero => absurd hzero hidc⟩
  | ratio169 =>
    by_cases hidc : tableIdc uWidth uHeight .ratio169 = 0
    · obtain ⟨v, hv, hrest⟩ := updateAspectRatio_extended hw hh hfuel rfl hidc
      refine ⟨v, hv, fun h => ?_, fun h => ?_, fun h => ?_, fun num den h => ?_⟩ <;> cases h
      exact ⟨fun hne => absurd hidc hne, fun _ => hrest⟩
    · refine ⟨_, updateAspectRatio_table fuel hidc (by decide) (by decide), fun h => ?_, fun h => ?_,
        fun h => ?_, fun num den h => ?_⟩ <;> cases h
      exact ⟨fun hne h352 => idc169_displays rfl hne fun h => h352 ⟨rfl, h⟩,
        fun hzero => absurd hzero hidc⟩

theorem updateAspectRatio_displays_small :
    (10 < 2 ^ 16 ∧ 6 < 2 ^ 16) ∧ ∃ v, updateAspectRatio (2 ^ 21) 10 6 .ratio43 = some v ∧
      v.DisplaysAs 10 6 4 3 := by
  obtain ⟨v, hv, -, -, -, hall⟩ :=
    updateAspectRatio_displays (2 ^ 21) 10 6 (by decide) (by decide) le_rfl .ratio43
  obtain ⟨t, d, ht, -, hdisplays⟩ := (hall 4 3 rfl).2 (by decide)
  have h1 : 10 * 3 = d * t.1 := ht.fst
  have h2 : 6 * 4 = d * t.2 := ht.snd
  have hle1 := Nat.le_mul_of_pos_left t.1 ht.pos
  have hle2 := Nat.le_mul_of_pos_left t.2 ht.pos
  exact ⟨by decide, v, hv, hdisplays (by omega) (by omega)⟩

/-- A picture of 720 by 576 samples is not shown as 4:3 if all of it counts, and samples
for 1:1 are square whatever the picture is. -/
theorem not_updateAspectRatio_displays :
    (¬∀ fuel uWidth uHeight v, updateAspectRatio fuel uWidth uHeight .ratio43 = some v →
      v.DisplaysAs uWidth uHeight 4 3) ∧
    ¬∀ fuel uWidth uHeight v, updateAspectRatio fuel uWidth uHeight .ratio11 = some v →
      v.DisplaysAs uWidth uHeight 1 1 := by
  constructor
  · intro hall
    exact absurd (hall 0 720 576 (.ofIdc 2) (by decide)).1 (by decide)
  · intro hall
    exact absurd (hall 0 720 576 (.ofIdc 1) (by decide)).1 (by decide)

end VcuCodec.AspectRatios
