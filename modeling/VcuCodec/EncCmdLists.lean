import VcuCodec.EncCmdFile
import VcuCodec.AheadWindows
import Mathlib.Data.List.TakeWhile

/-!
# The commands of a file

The lines of a file whose frame numbers do not decrease make one command for each
frame they name.  The reader of `exe_encoder/EncCmdMngr.cpp` yields these commands
one by one, if the first line that is not empty has a word.
-/

namespace VcuCodec.EncCmd

open AheadWindows

variable {N : Atof} {L : List (ℤ × List Token)} {cs : List TFrmCmd} {c : TFrmCmd} {f g : ℤ}

/-- The value of a setting of the frame rate divides by zero. -/
def Token.Divides (N : Atof) (t : Token) : Prop :=
  Word.ofChars t.word = some .Fps ∧ (N.toMilli t.sVal).tmod 1000 ≠ 0 ∧ N.toInt t.sVal = -1
deriving Decidable

/-- Everything that the lines say about the frame `f`. -/
def settings (L : List (ℤ × List Token)) (f : ℤ) : List Token :=
  (L.filter (isFor f)).flatMap (·.2)

/-- The command of the frame `f`, if some line names it. -/
def frmCmd (N : Atof) (L : List (ℤ × List Token)) (f : ℤ) : Option TFrmCmd :=
  if L.any (isFor f) then (settings L f).foldlM (set N) { iFrame := f } else none

/-- The commands in the order of the lines. -/
def frmCmds (N : Atof) : List (ℤ × List Token) → Option (List TFrmCmd)
  | [] => some []
  | (f, s) :: L =>
    ((s ++ (L.takeWhile (isFor f)).flatMap (·.2)).foldlM (set N) { iFrame := f }).bind fun c =>
      (frmCmds N (L.dropWhile (isFor f))).map (c :: ·)
termination_by L => L.length
decreasing_by
  rw [List.length_cons]
  exact Nat.lt_succ_of_le (List.dropWhile_suffix _).length_le

/-! ### Division by zero -/

theorem setFps_eq_none_iff {l : List Char} :
    setFps N c l = none ↔ (N.toMilli l).tmod 1000 ≠ 0 ∧ N.toInt l = -1 := by
  unfold setFps
  simp only
  by_cases hfrac : (N.toMilli l).tmod 1000 = 0
  · simp [hfrac]
  · rw [if_neg hfrac]
    by_cases hrate : N.toInt l + 1 = 0
    · rw [if_pos hrate]
      exact iff_of_true rfl ⟨hfrac, by omega⟩
    · rw [if_neg hrate]
      exact iff_of_false (by simp) fun hn => hrate (by omega)

theorem set_eq_none_iff {t : Token} : set N c t = none ↔ t.Divides N := by
  rw [set, Token.Divides]
  cases hw : Word.ofChars t.word with
  | none => simp
  | some w =>
    cases w with
    | Fps => simp [setFps_eq_none_iff]
    | _ => simp

variable {s : List Token}

theorem foldlM_set_iff : (∃ c', s.foldlM (set N) c = some c') ↔ ∀ t ∈ s, ¬t.Divides N := by
  induction s generalizing c with
  | nil => exact iff_of_true ⟨c, rfl⟩ (by simp)
  | cons t s ih =>
    rw [List.forall_mem_cons, List.foldlM_cons, Option.bind_eq_bind]
    cases ht : set N c t with
    | none => exact iff_of_false (by simp) fun h => h.1 (set_eq_none_iff.1 ht)
    | some c1 =>
      have hne : ¬t.Divides N := fun hd => by rw [set_eq_none_iff.2 hd] at ht; cases ht
      rw [Option.bind_some, ih]
      exact ⟨fun h => ⟨hne, h⟩, fun h => h.2⟩

/-! ### Lines in order -/

def Ordered (L : List (ℤ × List Token)) : Prop := L.Pairwise fun l l' => l.1 ≤ l'.1
deriving Decidable

@[simp] theorem frmCmds_nil : frmCmds N [] = some [] := by rw [frmCmds]

theorem frmCmds_cons :
    frmCmds N ((f, s) :: L) = ((s ++ (L.takeWhile (isFor f)).flatMap (·.2)).foldlM (set N)
      { iFrame := f }).bind fun c => (frmCmds N (L.dropWhile (isFor f))).map (c :: ·) := by
  rw [frmCmds]

theorem frmCmds_cons_eq_some : frmCmds N ((f, s) :: L) = some cs ↔ ∃ c cs',
      (s ++ (L.takeWhile (isFor f)).flatMap (·.2)).foldlM (set N) { iFrame := f } = some c ∧
        frmCmds N (L.dropWhile (isFor f)) = some cs' ∧ cs = c :: cs' := by
  rw [frmCmds_cons, Option.bind_eq_some_iff]
  constructor
  · rintro ⟨c, hc, hcs⟩
    obtain ⟨cs', hcs', rfl⟩ := Option.map_eq_some_iff.1 hcs
    exact ⟨c, cs', hc, hcs', rfl⟩
  · rintro ⟨c, cs', hc, hcs', rfl⟩
    exact ⟨c, hc, by rw [hcs', Option.map_some]⟩

theorem frmCmds_eq_nil (h : frmCmds N L = some []) : L = [] := by
  cases L with
  | nil => rfl
  | cons l L =>
    obtain ⟨c, cs', -, -, hnil⟩ := frmCmds_cons_eq_some.1 h
    cases hnil

theorem exists_frmCmds (h : ∀ l ∈ L, ∀ t ∈ l.2, ¬t.Divides N) : ∃ cs, frmCmds N L = some cs := by
  induction L using frmCmds.induct with
  | case1 => exact ⟨[], frmCmds_nil⟩
  | case2 f s L ih =>
    have hdrop : ∀ l ∈ L.dropWhile (isFor f), ∀ t ∈ l.2, ¬t.Divides N := fun l hl =>
      h l (List.mem_cons_of_mem _ ((List.dropWhile_sublist _).subset hl))
    obtain ⟨cs', hcs'⟩ := ih hdrop
    have hgroup : ∀ t ∈ s ++ (L.takeWhile (isFor f)).flatMap (·.2), ¬t.Divides N := by
      intro t ht
      rcases List.mem_append.1 ht with hs | ht
      · exact h (f, s) List.mem_cons_self t hs
      · obtain ⟨l, hl, htl⟩ := List.mem_flatMap.1 ht
        exact h l (List.mem_cons_of_mem _ ((List.takeWhile_sublist _).subset hl)) t htl
    obtain ⟨c, hc⟩ := foldlM_set_iff.2 hgroup
    exact ⟨c :: cs', frmCmds_cons_eq_some.2 ⟨c, cs', hc, hcs', rfl⟩⟩

/-- Behind the lines of the first frame come later frames. -/
theorem Ordered.lt_of_mem_dropWhile (h : Ordered ((f, s) :: L)) :
    ∀ l ∈ L.dropWhile (isFor f), f < l.1 := by
  obtain ⟨hle, hL⟩ := List.pairwise_cons.1 h
  cases hd : L.dropWhile (isFor f) with
  | nil => simp
  | cons l0 L0 =>
    have hne : L.dropWhile (isFor f) ≠ [] := by simp [hd]
    have hhead := List.head_dropWhile_not (isFor f) hne
    simp only [hd, List.head_cons] at hhead
    have hsub : (l0 :: L0).Sublist L := hd ▸ List.dropWhile_sublist _
    have hl0 : f < l0.1 :=
      lt_of_le_of_ne (hle l0 (hsub.subset List.mem_cons_self)) fun he =>
        of_decide_eq_false hhead he.symm
    intro l hl
    rcases List.mem_cons.1 hl with rfl | hl
    · exact hl0
    · exact hl0.trans_le ((List.pairwise_cons.1 (hL.sublist hsub)).1 l hl)

theorem Ordered.dropWhile {l : ℤ × List Token} (h : Ordered (l :: L)) :
    Ordered (L.dropWhile (isFor f)) :=
  (List.pairwise_cons.1 h).2.sublist (List.dropWhile_sublist _)

theorem foldlM_group_iFrame (h : s.foldlM (set N) { iFrame := f } = some c) :
    c.iFrame = f :=
  foldlM_set_iFrame h

theorem frames_iff (h : frmCmds N L = some cs) : (∃ c ∈ cs, c.iFrame = g) ↔ ∃ l ∈ L, l.1 = g := by
  induction L using frmCmds.induct generalizing cs with
  | case1 =>
    obtain rfl := Option.some.inj (frmCmds_nil (N := N) ▸ h)
    simp
  | case2 f s L ih =>
    obtain ⟨c, cs', hc, hcs', rfl⟩ := frmCmds_cons_eq_some.1 h
    have hmem : (∃ l ∈ (f, s) :: L, l.1 = g) ↔ f = g ∨ ∃ l ∈ L.dropWhile (isFor f), l.1 = g := by
      constructor
      · rintro ⟨l, hl, rfl⟩
        rcases List.mem_cons.1 hl with rfl | hl
        · exact .inl rfl
        · rw [← List.takeWhile_append_dropWhile (p := isFor f) (l := L)] at hl
          rcases List.mem_append.1 hl with hl | hl
          · exact .inl (isFor_iff.1 (List.mem_takeWhile_imp hl)).symm
          · exact .inr ⟨l, hl, rfl⟩
      · rintro (rfl | ⟨l, hl, rfl⟩)
        · exact ⟨_, List.mem_cons_self, rfl⟩
        · exact ⟨l, List.mem_cons_of_mem _ ((List.dropWhile_sublist _).subset hl), rfl⟩
    rw [hmem, ← ih hcs', List.exists_mem_cons_iff, foldlM_group_iFrame hc]

theorem increasing_frmCmds (hord : Ordered L) (h : frmCmds N L = some cs) :
    Increasing TFrmCmd.iFrame cs := by
  induction L using frmCmds.induct generalizing cs with
  | case1 =>
    obtain rfl := Option.some.inj (frmCmds_nil (N := N) ▸ h)
    exact List.Pairwise.nil
  | case2 f s L ih =>
    obtain ⟨c, cs', hc, hcs', rfl⟩ := frmCmds_cons_eq_some.1 h
    refine List.pairwise_cons.2 ⟨?_, ih hord.dropWhile hcs'⟩
    intro c' hc'
    obtain ⟨l, hl, hframe⟩ := (frames_iff hcs').1 ⟨c', hc', rfl⟩
    rw [foldlM_group_iFrame hc, ← hframe]
    exact hord.lt_of_mem_dropWhile l hl

theorem any_isFor : L.any (isFor f) = !(L.filter (isFor f)).isEmpty := by
  rw [Bool.eq_iff_iff, Bool.not_eq_true', List.isEmpty_eq_false_iff, ne_eq,
    List.filter_eq_nil_iff, List.any_eq_true]
  push Not
  rfl

/-- The command of a frame is one of the commands of the file. -/
theorem frmCmd_iff (hord : Ordered L) (h : frmCmds N L = some cs) :
    frmCmd N L g = some c ↔ c ∈ cs ∧ c.iFrame = g := by
  induction L using frmCmds.induct generalizing cs with
  | case1 =>
    obtain rfl := Option.some.inj (frmCmds_nil (N := N) ▸ h)
    simp [frmCmd]
  | case2 f s L ih =>
    obtain ⟨c0, cs', hc, hcs', rfl⟩ := frmCmds_cons_eq_some.1 h
    have hlater := hord.lt_of_mem_dropWhile
    by_cases hg : g = f
    · subst hg
      have hnone : (L.dropWhile (isFor g)).filter (isFor g) = [] := by
        apply List.filter_eq_nil_iff.2
        intro l hl hfor
        exact (hlater l hl).ne' (isFor_iff.1 hfor)
      have hself : (L.takeWhile (isFor g)).filter (isFor g) = L.takeWhile (isFor g) :=
        List.filter_eq_self.2 fun l hl => List.mem_takeWhile_imp hl
      have hfilter : L.filter (isFor g) = L.takeWhile (isFor g) := by
        conv_lhs => rw [← List.takeWhile_append_dropWhile (p := isFor g) (l := L)]
        rw [List.filter_append, hself, hnone, List.append_nil]
      have hfor : isFor g (g, s) = true := isFor_iff.2 rfl
      have hany : ((g, s) :: L).any (isFor g) = true := by simp [hfor]
      rw [frmCmd, if_pos hany, settings, List.filter_cons_of_pos hfor, hfilter, List.flatMap_cons,
        hc, Option.some.injEq]
      constructor
      · rintro rfl
        exact ⟨List.mem_cons_self, foldlM_group_iFrame hc⟩
      · rintro ⟨hmem, hframe⟩
        rcases List.mem_cons.1 hmem with rfl | hmem
        · rfl
        · obtain ⟨l, hl, hlf⟩ := (frames_iff hcs').1 ⟨c, hmem, hframe⟩
          exact absurd hlf (hlater l hl).ne'
    · have hfor : ¬isFor g (f, s) = true := fun he => hg (isFor_iff.1 he).symm
      have hnone : (L.takeWhile (isFor f)).filter (isFor g) = [] := by
        apply List.filter_eq_nil_iff.2
        intro l hl he
        have hlf : l.1 = f := isFor_iff.1 (List.mem_takeWhile_imp hl)
        exact hg ((isFor_iff.1 he).symm.trans hlf)
      have hfilter : ((f, s) :: L).filter (isFor g) = (L.dropWhile (isFor f)).filter (isFor g) := by
        rw [List.filter_cons_of_neg hfor]
        conv_lhs => rw [← List.takeWhile_append_dropWhile (p := isFor f) (l := L)]
        rw [List.filter_append, hnone, List.nil_append]
      have hsame : frmCmd N ((f, s) :: L) g = frmCmd N (L.dropWhile (isFor f)) g := by
        rw [frmCmd, frmCmd, settings, settings, hfilter, any_isFor, any_isFor, hfilter]
      rw [hsame, ih hord.dropWhile hcs', List.mem_cons]
      constructor
      · rintro ⟨hmem, hframe⟩
        exact ⟨.inr hmem, hframe⟩
      · rintro ⟨rfl | hmem, hframe⟩
        · exact absurd (hframe.symm.trans (foldlM_group_iFrame hc)) hg
        · exact ⟨hmem, hframe⟩

/-! ### Scene changes -/

/-- The word that announces a scene change. -/
def Token.IsSC (t : Token) : Prop := Word.ofChars t.word = some .SC
deriving Decidable

variable {c' : TFrmCmd}

theorem setFps_bSceneChange {l : List Char} (h : setFps N c l = some c') :
    c'.bSceneChange = c.bSceneChange := by
  unfold setFps at h
  simp only at h
  split at h
  · obtain rfl := Option.some.inj h
    rfl
  · split at h
    · cases h
    · obtain rfl := Option.some.inj h
      rfl

theorem set_bSceneChange {t : Token} (h : set N c t = some c') :
    c'.bSceneChange = true ↔ c.bSceneChange = true ∨ t.IsSC := by
  rw [set] at h
  unfold Token.IsSC
  cases hw : Word.ofChars t.word with
  | none =>
    rw [hw] at h
    obtain rfl := Option.some.inj h
    simp
  | some w =>
    rw [hw] at h
    cases w with
    | Fps => simp [setFps_bSceneChange h]
    | _ => obtain rfl := Option.some.inj h; simp

theorem foldlM_set_bSceneChange (h : s.foldlM (set N) c = some c') :
    c'.bSceneChange = true ↔ c.bSceneChange = true ∨ ∃ t ∈ s, t.IsSC := by
  induction s generalizing c with
  | nil =>
    obtain rfl := Option.some.inj h
    simp
  | cons t s ih =>
    rw [List.foldlM_cons, Option.bind_eq_bind, Option.bind_eq_some_iff] at h
    obtain ⟨c1, h1, h2⟩ := h
    rw [ih h2, set_bSceneChange h1, or_assoc, List.exists_mem_cons_iff]

/-- The command of a frame changes the scene if one of its lines says so. -/
theorem frmCmd_bSceneChange (h : frmCmd N L f = some c) :
    c.bSceneChange = true ↔ ∃ l ∈ L, l.1 = f ∧ ∃ t ∈ l.2, t.IsSC := by
  unfold frmCmd at h
  split at h
  · rw [foldlM_set_bSceneChange h]
    simp only [settings, List.mem_flatMap, List.mem_filter, isFor_iff, Bool.false_eq_true, false_or]
    constructor
    · rintro ⟨t, ⟨l, ⟨hl, hf⟩, ht⟩, hsc⟩
      exact ⟨l, hl, hf, t, ht, hsc⟩
    · rintro ⟨l, hl, hf, t, ht, hsc⟩
      exact ⟨t, ⟨l, ⟨hl, hf⟩, ht⟩, hsc⟩
  · cases h

end VcuCodec.EncCmd
