import VcuCodec.AvcRefLists
import VcuCodec.InPlaceLists

/-!
# The modification of the reference picture lists of AVC

`AL_Dpb_ModifShortTerm` and `AL_Dpb_ModifLongTerm` of `lib_parsing/DPB.c`, and what
clause 8.2.4.3 of H.264 says of one command.  The picture numbers of a frame are
its frame numbers.
-/

namespace VcuCodec

open CheckedRuns Checked LinkedLists InPlaceLists

variable {σ : Type}

/-! ## The source -/

/-- The first node of the decoding order that `p` selects. -/
def Dpb.findInDecOrder (d : Dpb) (p : Node → Bool) : Option ℕ :=
  whileLinked uEndOfList (fun uCpt uFound =>
    if p (d.nodes uCpt) then some (uCpt, uEndOfList)
    else some (uFound, (d.nodes uCpt).uNextDecOrder)) walkFuel d.uHeadDecOrder uEndOfList

def Dpb.picNumF (d : Dpb) (slice : AvcSliceHdr) (uNodeID : ℕ) : ℤ :=
  if uNodeID = uEndOfList then slice.sps.maxFrameNum
  else if (d.nodes uNodeID).isShort then (d.nodes uNodeID).iPicNum else slice.sps.maxFrameNum

/-- `AL_Dpb_sLongTermPicNumF`; the sum and the product are those of `int32_t`. -/
def Dpb.longTermPicNumF (d : Dpb) (uNodeID : ℕ) : ℤ :=
  if uNodeID = uEndOfList then toInt32 (2 * (d.maxLongTermFrameIdx + 1))
  else if (d.nodes uNodeID).isLong then (d.nodes uNodeID).iLongTermPicNum
  else toInt32 (2 * (d.maxLongTermFrameIdx + 1))

/-- A list, the index of its next entry and the prediction of the picture number. -/
structure ListMod where
  refs : BufferRefs
  uRefIdx : ℕ
  iPicNumPred : ℤ

/-- What the two functions below share: the entries from `uRefIdx` on are shifted, the
node that `p` selects is put there, and the entries with its number are removed. -/
def Dpb.modif (d : Dpb) (uNumRef : ℕ) (p : Node → Bool) (numF : ℕ → ℤ) (num : ℤ) (t : ListMod) :
    Checked σ ListMod :=
  let refs : BufferRefs := shiftUp t.uRefIdx uNumRef t.refs
  match d.findInDecOrder p with
  | none => stuck .unfinished
  | some uCpt =>
    if uCpt = uEndOfList then pure { t with refs }
    else do
      check (t.uRefIdx ≤ maxRef)
      let refs := refs.setNode t.uRefIdx (d.nodes uCpt).uNodeID
      return { t with
        refs := compact (fun r => numF r.uNodeID ≠ num) (t.uRefIdx + 1) (uNumRef - t.uRefIdx) refs
        uRefIdx := t.uRefIdx + 1 }

/-- `iPicNumNoWrap` of `AL_Dpb_ModifShortTerm` -/
def iPicNumNoWrap (slice : AvcSliceHdr) (iPicNumIdc : ℕ) (iDiffPicNum iPicNumPred : ℤ) : ℤ :=
  if iPicNumIdc = 0 then
    if iPicNumPred - iDiffPicNum < 0 then iPicNumPred - iDiffPicNum + slice.sps.maxFrameNum
    else iPicNumPred - iDiffPicNum
  else if slice.sps.maxFrameNum ≤ iPicNumPred + iDiffPicNum then
    iPicNumPred + iDiffPicNum - slice.sps.maxFrameNum
  else iPicNumPred + iDiffPicNum

def Dpb.modifShortTerm (d : Dpb) (slice : AvcSliceHdr) (uNumRef iPicNumIdc : ℕ)
    (absDiffPicNumMinus1 : ℤ) (t : ListMod) : Checked σ ListMod :=
  let noWrap := iPicNumNoWrap slice iPicNumIdc (absDiffPicNumMinus1 + 1) t.iPicNumPred
  let iPicNum := if slice.frameNum < noWrap then noWrap - slice.sps.maxFrameNum else noWrap
  d.modif uNumRef (fun n => n.iPicNum = iPicNum ∧ n.isShort) (d.picNumF slice) iPicNum
    { t with iPicNumPred := noWrap }

def Dpb.modifLongTerm (d : Dpb) (uNumRef : ℕ) (longTermPicNum : ℤ) (t : ListMod) :
    Checked σ ListMod :=
  d.modif uNumRef (fun n => n.iLongTermPicNum = longTermPicNum ∧ n.isLong) d.longTermPicNumF
    longTermPicNum t

/-- A command of the modification syntax. -/
inductive ListCommand
  | shortTerm (iPicNumIdc : ℕ) (absDiffPicNumMinus1 : ℤ)
  | longTerm (longTermPicNum : ℤ)
  deriving DecidableEq, Repr

/-- One turn of the loop of `AL_AVC_PictMngr_ReorderPictList`. -/
def Dpb.modifCommand (d : Dpb) (slice : AvcSliceHdr) (uNumRef : ℕ) :
    ListCommand → ListMod → Checked σ ListMod
  | .shortTerm iPicNumIdc absDiffPicNumMinus1, t =>
    d.modifShortTerm slice uNumRef iPicNumIdc absDiffPicNumMinus1 t
  | .longTerm longTermPicNum, t => d.modifLongTerm uNumRef longTermPicNum t

/-! ## The clause -/

def picNumLXNoWrap (slice : AvcSliceHdr) (modificationOfPicNumsIdc : ℕ)
    (absDiffPicNumMinus1 picNumLXPred : ℤ) : ℤ :=
  if modificationOfPicNumsIdc = 0 then
    (picNumLXPred - (absDiffPicNumMinus1 + 1)) % slice.sps.maxFrameNum
  else (picNumLXPred + (absDiffPicNumMinus1 + 1)) % slice.sps.maxFrameNum

def picNumLX (slice : AvcSliceHdr) (noWrap : ℤ) : ℤ :=
  if slice.frameNum < noWrap then noWrap - slice.sps.maxFrameNum else noWrap

namespace ListCommand

def nextPred (slice : AvcSliceHdr) (picNumLXPred : ℤ) : ListCommand → ℤ
  | shortTerm idc absDiffPicNumMinus1 => picNumLXNoWrap slice idc absDiffPicNumMinus1 picNumLXPred
  | longTerm _ => picNumLXPred

/-- The command is for a picture with the number of `i`. -/
def Designates (slice : AvcSliceHdr) (d : Dpb) (picNumLXPred : ℤ) (i : ℕ) : ListCommand → Prop
  | c@(shortTerm _ _) =>
    d.ShortTerm i ∧ (d.nodes i).iPicNum = picNumLX slice (c.nextPred slice picNumLXPred)
  | longTerm longTermPicNum => d.LongTerm i ∧ (d.nodes i).iLongTermPicNum = longTermPicNum

/-- The command names the reference picture `p`. -/
def Names (slice : AvcSliceHdr) (d : Dpb) (picNumLXPred : ℤ) (c : ListCommand) (p : ℕ) : Prop :=
  ∀ i, c.Designates slice d picNumLXPred i ↔ i = p

/-- The prediction leaves the range of the picture numbers on neither side by more than
that range. -/
def InRange (slice : AvcSliceHdr) (picNumLXPred : ℤ) : ListCommand → Prop
  | shortTerm idc absDiffPicNumMinus1 =>
    if idc = 0 then
      -slice.sps.maxFrameNum ≤ picNumLXPred - (absDiffPicNumMinus1 + 1) ∧
        picNumLXPred - (absDiffPicNumMinus1 + 1) < slice.sps.maxFrameNum
    else 0 ≤ picNumLXPred + (absDiffPicNumMinus1 + 1) ∧
      picNumLXPred + (absDiffPicNumMinus1 + 1) < 2 * slice.sps.maxFrameNum
  | longTerm _ => True

/-- The number of the picture is not what `AL_Dpb_sLongTermPicNumF` gives for the
entries that are no long-term pictures, or that does not matter. -/
def Harmless (d : Dpb) (p : ℕ) (r : List ℕ) : ListCommand → Prop
  | shortTerm _ _ => True
  | longTerm longTermPicNum => toInt32 (2 * (d.maxLongTermFrameIdx + 1)) ≠ longTermPicNum ∨
      Separates (fun q => q ≠ p ∧ q ≠ uEndOfList ∧ (d.nodes q).isLong) p r

end ListCommand

/-- The first `n` entries. -/
def ListMod.pictures (n : ℕ) (t : ListMod) : List ℕ := front n fun i => (t.refs i).uNodeID

/-- A command does what clause 8.2.4.3 says: `p` is at the current index, the entries
that followed come behind it, and `p` is removed from them. -/
def ListCommand.Modifies (slice : AvcSliceHdr) (n : ℕ) (c : ListCommand) (p : ℕ) (t t' : ListMod) :
    Prop :=
  t'.pictures n = moved t.uRefIdx p (t.pictures n) ∧ t'.uRefIdx = t.uRefIdx + 1 ∧
    t'.iPicNumPred = c.nextPred slice t.iPicNumPred

/-! ## One command -/

theorem LinkedDpb.findInDecOrder_eq (c : LinkedDpb) (p : Node → Bool) :
    c.dpb.findInDecOrder p =
      some (((c.dpb.walked .decOrder).find? fun u => p (c.dpb.nodes u)).getD uEndOfList) := by
  obtain ⟨⟨pre, hsplit⟩, hhead⟩ := c.walked_suffix (o := .decOrder) (by decide)
  obtain ⟨hseg, hnil, hlen⟩ := segment_of_split hsplit.symm
  have hfind := hseg.whileLinked_find hnil (fun u => p (c.dpb.nodes u)) hlen
  unfold Dpb.findInDecOrder
  rw [← hfind, ← hhead]
  rfl

theorem LinkedDpb.findInDecOrder_unique {c : LinkedDpb} {p : Node → Bool} {u : ℕ}
    (hp : ∀ i, c.dpb.InDpb i → (p (c.dpb.nodes i) = true ↔ i = u)) :
    c.dpb.findInDecOrder p = some (if u ∈ c.dpb.walked .decOrder then u else uEndOfList) := by
  rw [findInDecOrder_eq]
  congr 1
  have hin : ∀ i ∈ c.dpb.walked .decOrder, (p (c.dpb.nodes i) = true ↔ i = u) := fun i hi =>
    hp i (inDpb_of_walked (by decide) hi)
  cases hfind : (c.dpb.walked .decOrder).find? fun u => p (c.dpb.nodes u) with
  | none =>
    have hnone := List.find?_eq_none.mp hfind
    rw [if_neg fun hu => hnone u hu ((hin u hu).mpr rfl)]
    rfl
  | some i =>
    have hi := List.mem_of_find?_eq_some hfind
    obtain rfl := (hin i hi).mp (List.find?_some (p := fun u => p (c.dpb.nodes u)) hfind)
    rw [if_pos hi]
    rfl

namespace LinkedDpb

variable {c : LinkedDpb} {p : Node → Bool} {u n : ℕ} {numF : ℕ → ℤ} {num : ℤ} {t : ListMod} {s : σ}

theorem uNodeID_insert (numF : ℕ → ℤ) (num : ℤ) (n u : ℕ) (t : ListMod) (j : ℕ) :
    (compact (fun r : BufferRef => numF r.uNodeID ≠ num) (t.uRefIdx + 1) (n - t.uRefIdx)
        (BufferRefs.setNode (shiftUp t.uRefIdx n t.refs) t.uRefIdx u) j).uNodeID =
      insertAt (fun q => numF q ≠ num) t.uRefIdx n u (fun i => (t.refs i).uNodeID) j :=
  map_insertAt (p := ({ shiftUp t.uRefIdx n t.refs t.uRefIdx with uNodeID := u } : BufferRef))
    BufferRef.uNodeID (fun q => numF q ≠ num) j

theorem pictures_insert (u : ℕ) :
    front n (fun i => (compact (fun r : BufferRef => numF r.uNodeID ≠ num) (t.uRefIdx + 1) (n - t.uRefIdx)
        (BufferRefs.setNode (shiftUp t.uRefIdx n t.refs) t.uRefIdx u) i).uNodeID) =
      front n (insertAt (fun q => numF q ≠ num) t.uRefIdx n u fun i => (t.refs i).uNodeID) :=
  List.map_congr_left fun j _ => uNodeID_insert numF num n u t j

/-- A command puts the picture that only it selects to its place and removes it from
what follows, if and only if there is room, the walk comes by the picture, and
the numbers separate it from the other ones. -/
theorem modif_iff (n : ℕ) (p : Node → Bool) (numF : ℕ → ℤ) (num : ℤ) (t : ListMod) (hid : c.OwnIDs)
    (hu : c.dpb.InDpb u)
    (hp : ∀ i, c.dpb.InDpb i → (p (c.dpb.nodes i) = true ↔ i = u)) (hnum : numF u = num)
    (hcount : ((t.pictures n).drop t.uRefIdx).count u ≤ 1) :
    Ends (c.dpb.modif n p numF num t) s (fun t' _ => t'.pictures n = moved t.uRefIdx u (t.pictures n) ∧
        t'.uRefIdx = t.uRefIdx + 1 ∧ t'.iPicNumPred = t.iPicNumPred) ↔
      t.uRefIdx ≤ maxRef ∧ u ∈ c.dpb.walked .decOrder ∧
        Separates (fun q => numF q ≠ num) u ((t.pictures n).drop t.uRefIdx) := by
  have hend : u ≠ uEndOfList := fun he => end_notMem_of_inDpb (c := c) (l := [u]) (by simpa using hu)
    (by simp [he])
  unfold Dpb.modif
  rw [findInDecOrder_unique hp]
  by_cases hwalk : u ∈ c.dpb.walked .decOrder
  · rw [if_pos hwalk]
    dsimp only
    rw [if_neg hend, ends_bind, ends_check, ends_pure, hid u hu]
    have hiff : front n (insertAt (fun q => numF q ≠ num) t.uRefIdx n u fun i => (t.refs i).uNodeID) =
        moved t.uRefIdx u (t.pictures n) ↔
          Separates (fun q => numF q ≠ num) u ((t.pictures n).drop t.uRefIdx) :=
      front_insertAt_iff (by simp [hnum]) hcount
    rw [← hiff, ← pictures_insert]
    exact ⟨fun h => ⟨h.1, hwalk, h.2.1⟩, fun h => ⟨h.1, h.2.2, rfl, rfl⟩⟩
  · rw [if_neg hwalk]
    dsimp only
    rw [if_pos rfl, ends_pure]
    exact ⟨fun h => absurd h.2.1 (by simp), fun h => absurd h.2.1 hwalk⟩

theorem ends_modif_pred {Q : ListMod → σ → Prop} (h : Ends (c.dpb.modif n p numF num t) s Q) :
    Ends (c.dpb.modif n p numF num t) s fun t' _ => t'.iPicNumPred = t.iPicNumPred := by
  unfold Dpb.modif at h ⊢
  rw [findInDecOrder_eq] at h ⊢
  dsimp only at h ⊢
  rw [ends_ite] at h ⊢
  refine ⟨fun _ => (ends_pure _).mpr rfl, fun hne => ?_⟩
  have hrest := h.2 hne
  rw [ends_bind, ends_check] at hrest ⊢
  exact ⟨hrest.1, (ends_pure _).mpr rfl⟩

end LinkedDpb

/-! ## The numbers -/

/-- The prediction is taken modulo `MaxPicNum` if and only if it is in range. -/
theorem iPicNumNoWrap_eq_iff (slice : AvcSliceHdr) (idc : ℕ) (absDiffPicNumMinus1 pred : ℤ) :
    iPicNumNoWrap slice idc (absDiffPicNumMinus1 + 1) pred =
        picNumLXNoWrap slice idc absDiffPicNumMinus1 pred ↔
      (ListCommand.shortTerm idc absDiffPicNumMinus1).InRange slice pred := by
  have hpos : (0 : ℤ) < slice.sps.maxFrameNum := by
    unfold AvcSps.maxFrameNum
    positivity
  unfold iPicNumNoWrap picNumLXNoWrap ListCommand.InRange
  generalize (slice.sps.maxFrameNum : ℤ) = m at hpos ⊢
  by_cases hidc : idc = 0
  · simp only [if_pos hidc]
    generalize pred - (absDiffPicNumMinus1 + 1) = x
    have hlo := Int.emod_nonneg x hpos.ne'
    have hhi := Int.emod_lt_of_pos x hpos
    constructor
    · intro h
      split at h <;> omega
    · intro h
      split
      · rw [← Int.add_emod_right, Int.emod_eq_of_lt (by omega) (by omega)]
      · rw [Int.emod_eq_of_lt (by omega) (by omega)]
  · simp only [if_neg hidc]
    generalize pred + (absDiffPicNumMinus1 + 1) = x
    have hlo := Int.emod_nonneg x hpos.ne'
    have hhi := Int.emod_lt_of_pos x hpos
    constructor
    · intro h
      split at h <;> omega
    · intro h
      split
      · rw [← Int.sub_emod_right, Int.emod_eq_of_lt (by omega) (by omega)]
      · rw [Int.emod_eq_of_lt (by omega) (by omega)]

theorem picNumLX_lt (slice : AvcSliceHdr) (idc : ℕ) (absDiffPicNumMinus1 pred : ℤ) :
    picNumLX slice (picNumLXNoWrap slice idc absDiffPicNumMinus1 pred) < slice.sps.maxFrameNum := by
  have hpos : (0 : ℤ) < slice.sps.maxFrameNum := by
    unfold AvcSps.maxFrameNum
    positivity
  have hlt : picNumLXNoWrap slice idc absDiffPicNumMinus1 pred < slice.sps.maxFrameNum := by
    unfold picNumLXNoWrap
    split <;> exact Int.emod_lt_of_pos _ hpos
  unfold picNumLX
  split <;> omega

namespace LinkedDpb

variable {c : LinkedDpb} {slice : AvcSliceHdr} {cmd : ListCommand} {pred : ℤ} {u n : ℕ} {r : List ℕ}
  {t : ListMod} {s : σ}

/-- The entries are pictures of the buffer or empty. -/
def Entries (c : LinkedDpb) (r : List ℕ) : Prop := ∀ q ∈ r, q = uEndOfList ∨ c.dpb.InDpb q

theorem inDpb_of_names (h : cmd.Names slice c.dpb pred u) : c.dpb.InDpb u := by
  have hu := (h u).mpr rfl
  cases cmd with
  | shortTerm idc diff => exact hu.1.1
  | longTerm num => exact hu.1.1

theorem separates_short {idc : ℕ} {diff : ℤ} (h : (ListCommand.shortTerm idc diff).Names slice c.dpb pred u)
    (hr : c.Entries r) :
    Separates (fun q => c.dpb.picNumF slice q ≠ picNumLX slice (picNumLXNoWrap slice idc diff pred)) u r := by
  have hlt := picNumLX_lt slice idc diff pred
  refine .inl fun q hq hqu => decide_eq_true ?_
  unfold Dpb.picNumF
  split_ifs with hend hshort
  · exact hlt.ne'
  · have hin := (hr q hq).resolve_left hend
    exact fun he => hqu ((h q).mp ⟨⟨hin, of_decide_eq_true hshort⟩, he⟩)
  · exact hlt.ne'

/-- The number of a long-term picture does so if and only if it is harmless. -/
theorem separates_long_iff {num : ℤ} (h : (ListCommand.longTerm num).Names slice c.dpb pred u)
    (hr : c.Entries r) :
    Separates (fun q => c.dpb.longTermPicNumF q ≠ num) u r ↔
      (ListCommand.longTerm num).Harmless c.dpb u r := by
  have hlong : ∀ q ∈ r, q ≠ uEndOfList → (c.dpb.nodes q).isLong = true →
      (c.dpb.longTermPicNumF q ≠ num ↔ q ≠ u) := by
    intro q hq hend hl
    have hin := (hr q hq).resolve_left hend
    have hnum : c.dpb.longTermPicNumF q = (c.dpb.nodes q).iLongTermPicNum := by
      unfold Dpb.longTermPicNumF
      rw [if_neg hend, if_pos hl]
    have hq' : (c.dpb.nodes q).iLongTermPicNum = num ↔ q = u := by
      rw [← h q]
      exact ⟨fun he => ⟨⟨hin, of_decide_eq_true hl⟩, he⟩, fun hd => hd.2⟩
    rw [hnum]
    exact not_congr hq'
  have hother : ∀ q, ¬(q ≠ uEndOfList ∧ (c.dpb.nodes q).isLong = true) →
      c.dpb.longTermPicNumF q = toInt32 (2 * (c.dpb.maxLongTermFrameIdx + 1)) := by
    intro q hq
    unfold Dpb.longTermPicNumF
    by_cases hend : q = uEndOfList
    · rw [if_pos hend]
    · rw [if_neg hend, if_neg fun hl => hq ⟨hend, hl⟩]
  unfold ListCommand.Harmless
  by_cases hclash : toInt32 (2 * (c.dpb.maxLongTermFrameIdx + 1)) = num
  · -- the entries that are no long-term pictures have the number as well
    have hkeep : ∀ q ∈ r, (decide (c.dpb.longTermPicNumF q ≠ num) : Bool) =
        decide (q ≠ u ∧ q ≠ uEndOfList ∧ (c.dpb.nodes q).isLong = true) := by
      intro q hq
      rw [decide_eq_decide]
      by_cases hl : q ≠ uEndOfList ∧ (c.dpb.nodes q).isLong = true
      · rw [hlong q hq hl.1 hl.2]
        exact ⟨fun h => ⟨h, hl⟩, fun h => h.1⟩
      · exact ⟨fun h => absurd ((hother q hl).trans hclash) h, fun h => absurd h.2 hl⟩
    rw [separates_congr hkeep]
    exact ⟨fun h => .inr h, fun h => h.resolve_left fun hne => hne hclash⟩
  · refine ⟨fun _ => .inl hclash, fun _ => .inl fun q hq hqu => decide_eq_true ?_⟩
    by_cases hl : q ≠ uEndOfList ∧ (c.dpb.nodes q).isLong = true
    · exact (hlong q hq hl.1 hl.2).mpr hqu
    · rw [hother q hl]
      exact hclash

/-- What makes a command do what the clause says. -/
structure Carries (c : LinkedDpb) (slice : AvcSliceHdr) (cmd : ListCommand) (u uRefIdx : ℕ) (pred : ℤ)
    (r : List ℕ) : Prop where
  room : uRefIdx ≤ maxRef
  walked : u ∈ c.dpb.walked .decOrder
  inRange : cmd.InRange slice pred
  harmless : cmd.Harmless c.dpb u r

theorem modifCommand_iff (hid : c.OwnIDs) (h : cmd.Names slice c.dpb t.iPicNumPred u)
    (hr : c.Entries ((t.pictures n).drop t.uRefIdx))
    (hcount : ((t.pictures n).drop t.uRefIdx).count u ≤ 1) :
    Ends (c.dpb.modifCommand slice n cmd t) s (fun t' _ => cmd.Modifies slice n u t t') ↔
      c.Carries slice cmd u t.uRefIdx t.iPicNumPred ((t.pictures n).drop t.uRefIdx) := by
  have hu := inDpb_of_names h
  have hend : u ≠ uEndOfList := fun he => end_notMem_of_inDpb (c := c) (l := [u]) (by simpa using hu)
    (by simp [he])
  have hdes := (h u).mpr rfl
  cases cmd with
  | longTerm num =>
    have hp : ∀ i, c.dpb.InDpb i → (decide ((c.dpb.nodes i).iLongTermPicNum = num ∧
        (c.dpb.nodes i).isLong = true) = true ↔ i = u) := by
      intro i hi
      rw [← h i, decide_eq_true_eq]
      exact ⟨fun hi' => ⟨⟨hi, of_decide_eq_true hi'.2⟩, hi'.1⟩, fun hd => ⟨hd.2, decide_eq_true hd.1.2⟩⟩
    have hnum : c.dpb.longTermPicNumF u = num := by
      unfold Dpb.longTermPicNumF
      rw [if_neg hend, if_pos (show (c.dpb.nodes u).isLong = true from decide_eq_true hdes.1.2)]
      exact hdes.2
    refine (modif_iff n _ _ num t hid hu hp hnum hcount).trans ?_
    rw [separates_long_iff h hr]
    exact ⟨fun h => ⟨h.1, h.2.1, trivial, h.2.2⟩, fun h => ⟨h.room, h.walked, h.harmless⟩⟩
  | shortTerm idc diff =>
    have hpred := iPicNumNoWrap_eq_iff slice idc diff t.iPicNumPred
    by_cases hin : (ListCommand.shortTerm idc diff).InRange slice t.iPicNumPred
    · have hp : ∀ i, c.dpb.InDpb i → (decide ((c.dpb.nodes i).iPicNum =
          picNumLX slice (picNumLXNoWrap slice idc diff t.iPicNumPred) ∧
            (c.dpb.nodes i).isShort = true) = true ↔ i = u) := by
        intro i hi
        rw [← h i, decide_eq_true_eq]
        exact ⟨fun hi' => ⟨⟨hi, of_decide_eq_true hi'.2⟩, hi'.1⟩,
          fun hd => ⟨hd.2, decide_eq_true hd.1.2⟩⟩
      have hnum : c.dpb.picNumF slice u = picNumLX slice (picNumLXNoWrap slice idc diff t.iPicNumPred) := by
        unfold Dpb.picNumF
        rw [if_neg hend, if_pos (show (c.dpb.nodes u).isShort = true from decide_eq_true hdes.1.2)]
        exact hdes.2
      change Ends (c.dpb.modifShortTerm slice n idc diff t) s _ ↔ _
      unfold Dpb.modifShortTerm
      dsimp only
      rw [hpred.mpr hin]
      refine (modif_iff n _ _ _ { t with
        iPicNumPred := picNumLXNoWrap slice idc diff t.iPicNumPred } hid hu hp hnum hcount).trans ?_
      exact ⟨fun h => ⟨h.1, h.2.1, hin, trivial⟩, fun h' => ⟨h'.room, h'.walked, separates_short h hr⟩⟩
    · refine ⟨fun hends => absurd ?_ hin, fun hcarries => absurd hcarries.inRange hin⟩
      obtain ⟨t', -, -, hkeep, hnext⟩ := (ends_modif_pred hends).and hends
      exact hpred.mp (hkeep.symm.trans hnext.2.2)

end LinkedDpb

/-! ## A list of commands -/

/-- The commands name the pictures they are paired with. -/
def Dpb.NamesAll (d : Dpb) (slice : AvcSliceHdr) : List (ListCommand × ℕ) → (pred : ℤ) → Prop
  | [], _ => True
  | (cmd, u) :: cs, pred => cmd.Names slice d pred u ∧ d.NamesAll slice cs (cmd.nextPred slice pred)

/-- The commands, one after the other, do what the clause says. -/
def Dpb.ModifiesAll (d : Dpb) (slice : AvcSliceHdr) (n : ℕ) :
    List (ListCommand × ℕ) → ListMod → σ → Prop
  | [], _, _ => True
  | (cmd, u) :: cs, t, s => Ends (d.modifCommand slice n cmd t) s fun t' s' =>
      cmd.Modifies slice n u t t' ∧ d.ModifiesAll slice n cs t' s'

namespace LinkedDpb

variable {c : LinkedDpb} {slice : AvcSliceHdr} {u n a : ℕ} {l : List ℕ} {t : ListMod}

/-- What makes them do so, for the list `l` of the clause. -/
def CarriesAll (c : LinkedDpb) (slice : AvcSliceHdr) :
    List (ListCommand × ℕ) → (l : List ℕ) → (uRefIdx : ℕ) → (pred : ℤ) → Prop
  | [], _, _, _ => True
  | (cmd, u) :: cs, l, uRefIdx, pred => c.Carries slice cmd u uRefIdx pred (l.drop uRefIdx) ∧
      c.CarriesAll slice cs (moved uRefIdx u l) (uRefIdx + 1) (cmd.nextPred slice pred)

theorem entries_moved (hl : c.Entries l) (hu : c.dpb.InDpb u) : c.Entries (moved a u l) := by
  intro q hq
  have hmem := List.mem_of_mem_take hq
  rw [List.mem_append, List.mem_cons, List.mem_filter] at hmem
  rcases hmem with hmem | rfl | hmem
  · exact hl q (List.mem_of_mem_take hmem)
  · exact .inr hu
  · exact hl q (List.mem_of_mem_drop hmem.1)

theorem count_moved {q : ℕ} (hl : (l.drop a).count q ≤ 1) : ((moved a u l).drop (a + 1)).count q ≤ 1 := by
  have hsub : ((moved a u l).drop (a + 1)).Sublist (l.drop a) := by
    rcases Nat.lt_or_ge l.length a with hlt | hge
    · have hnil : (moved a u l).drop (a + 1) = [] := by
        apply List.drop_eq_nil_of_le
        refine (List.length_take_le _ _).trans ?_
        omega
      rw [hnil]
      exact List.nil_sublist _
    · unfold moved
      have htake : (l.take a).length = a := by
        rw [List.length_take]
        omega
      have hdrop : (l.take a ++ u :: (l.drop a).filter (· ≠ u)).drop (a + 1) = (l.drop a).filter (· ≠ u) := by
        rw [List.drop_append, htake, List.drop_eq_nil_of_le (by omega), Nat.add_sub_cancel_left]
        rfl
      rw [List.drop_take, hdrop]
      exact (List.take_sublist _ _).trans List.filter_sublist
  exact (hsub.count_le q).trans hl

/-- The commands do what clause 8.2.4.3 says if and only if each of them has room, comes
by its picture, stays in the range of the picture numbers and is harmless. -/
theorem modifiesAll_iff (hid : c.OwnIDs) (slice : AvcSliceHdr) (n : ℕ) (cs : List (ListCommand × ℕ))
    (t : ListMod) (s : σ) (h : c.dpb.NamesAll slice cs t.iPicNumPred) (hl : c.Entries (t.pictures n))
    (hcount : ∀ q, c.dpb.InDpb q → ((t.pictures n).drop t.uRefIdx).count q ≤ 1) :
    c.dpb.ModifiesAll slice n cs t s ↔
      c.CarriesAll slice cs (t.pictures n) t.uRefIdx t.iPicNumPred := by
  induction cs generalizing t s with
  | nil => exact Iff.rfl
  | cons cu cs ih =>
    obtain ⟨cmd, u⟩ := cu
    obtain ⟨hcmd, hrest⟩ := h
    have hu := inDpb_of_names hcmd
    have hone := modifCommand_iff (s := s) hid hcmd (fun q hq => hl q (List.mem_of_mem_drop hq))
      (hcount u hu)
    have hnext : ∀ t' (s' : σ), cmd.Modifies slice n u t t' → (c.dpb.ModifiesAll slice n cs t' s' ↔
        c.CarriesAll slice cs (moved t.uRefIdx u (t.pictures n)) (t.uRefIdx + 1)
          (cmd.nextPred slice t.iPicNumPred)) := by
      rintro t' s' ⟨hl', hidx', hpred'⟩
      rw [← hl', ← hidx', ← hpred']
      refine ih t' s' (hpred' ▸ hrest) (hl' ▸ entries_moved hl hu) fun q hq => ?_
      rw [hl', hidx']
      exact count_moved (hcount q hq)
    constructor
    · rintro ⟨t', s', hrun, hmod, hall⟩
      exact ⟨hone.mp ⟨t', s', hrun, hmod⟩, (hnext t' s' hmod).mp hall⟩
    · rintro ⟨hcarries, hall⟩
      exact (hone.mpr hcarries).imp fun t' s' hmod => ⟨hmod, (hnext t' s' hmod).mpr hall⟩

end LinkedDpb

/-! ## Two lists -/

namespace ListCommand

variable {slice : AvcSliceHdr} {d : Dpb} {pred : ℤ} {cmd : ListCommand} {i p : ℕ}

instance : Decidable (d.ShortTerm i) := inferInstanceAs (Decidable (_ ∧ _))

instance : Decidable (cmd.Designates slice d pred i) :=
  match cmd with
  | shortTerm _ _ => inferInstanceAs (Decidable (_ ∧ _))
  | longTerm _ => inferInstanceAs (Decidable (_ ∧ _))

theorem lt_of_designates (h : cmd.Designates slice d pred i) : i < maxDpbSize := by
  cases cmd with
  | shortTerm idc diff => exact h.1.1.1
  | longTerm num => exact h.1.1.1

instance : Decidable (cmd.Names slice d pred p) :=
  decidable_of_iff (p < maxDpbSize ∧ ∀ i < maxDpbSize, cmd.Designates slice d pred i ↔ i = p)
    ⟨fun h i => ⟨fun hi => (h.2 i (lt_of_designates hi)).mp hi,
      fun hi => (h.2 i (hi ▸ h.1)).mpr hi⟩,
      fun h => ⟨lt_of_designates ((h p).mpr rfl), fun i _ => h i⟩⟩

end ListCommand

instance Dpb.decidableNamesAll (d : Dpb) (slice : AvcSliceHdr) :
    ∀ (cs : List (ListCommand × ℕ)) (pred : ℤ), Decidable (d.NamesAll slice cs pred)
  | [], _ => .isTrue trivial
  | (cmd, _) :: cs, pred =>
    have := d.decidableNamesAll slice cs (cmd.nextPred slice pred)
    inferInstanceAs (Decidable (_ ∧ _))

/-- A list that begins with the nodes `l`. -/
def BufferRefs.ofList (l : List ℕ) : BufferRefs := fun i => ⟨0, l.getD i uEndOfList⟩

/-- The list 3, 2, 0, 1 before it is modified. -/
def ListMod.sample : ListMod := ⟨.ofList [3, 2, 0, 1], 0, 4⟩

/-- `Op.twoLongTerm 1 0` without the operation that allows long-term indices. -/
def Op.unallowedLongTerm : List Op :=
  [.insert (.sample 0 0 .shortTermRef), .markingProcess (.sample 4 avcNutVclIdr 0),
    .insert (.sample 1 8 .shortTermRef), .markingProcess (.sample 4 1 1),
    .insert (.sample 2 4 .shortTermRef),
    .markingProcess ((AvcSliceHdr.sample 4 1 2).withMmco [3, 0] [0] [1]),
    .insert (.sample 3 12 .shortTermRef),
    .markingProcess ((AvcSliceHdr.sample 4 1 3).withMmco [3, 0] [2] [0]),
    .pictNumberProcess (.sample 4 1 4)]

namespace LinkedDpb

/-- A long-term and a short-term picture are moved to the front. -/
theorem modifiesAll_twoLongTerm : ∃ d,
    (Dpb.zeroed.init 4 .normal).run (Op.twoLongTerm 1 0) = some d ∧
      d.ModifiesAll (.sample 4 1 4) 4 [(.longTerm 0, 0), (.shortTerm 0 1, 2)] .sample () := by
  have hrun : ((Dpb.zeroed.init 4 .normal).run (Op.twoLongTerm 1 0)).map (fun d =>
      decide (d.NamesAll (.sample 4 1 4) [(.longTerm 0, 0), (.shortTerm 0 1, 2)] 4 ∧
        (∀ q ∈ ListMod.sample.pictures 4, d.InDpb q) ∧ d.walked .decOrder = [0, 1, 2, 3] ∧
        d.maxLongTermFrameIdx = 1)) = some true := by decide +kernel
  obtain ⟨d, hd, hall⟩ := Option.map_eq_some_iff.mp hrun
  obtain ⟨hnames, hin, hwalk, hmax⟩ := of_decide_eq_true hall
  obtain ⟨c, rfl, hid⟩ := Dpb.ownIDs_of_run (by decide +kernel) hd
  have hlist : ListMod.sample.pictures 4 = [3, 2, 0, 1] := by decide +kernel
  refine ⟨c.dpb, hd, (modifiesAll_iff hid _ 4 _ .sample () hnames ?_ ?_).mpr ⟨⟨?_, ?_, ?_, ?_⟩,
    ⟨?_, ?_, ?_, ?_⟩, trivial⟩⟩
  · intro q hq
    exact .inr (hin q hq)
  · intro q _
    rw [hlist]
    exact List.nodup_iff_count_le_one.mp (by decide) q
  · decide
  · rw [hwalk]
    decide
  · trivial
  · refine .inl ?_
    rw [hmax]
    decide
  · decide
  · rw [hwalk]
    decide
  · unfold ListCommand.InRange
    decide +kernel
  · trivial

/-- Where no long-term index is allowed, the number of the entries that are no long-term
pictures is 0. -/
theorem not_modifiesAll_unallowedLongTerm : ∃ d,
    (Dpb.zeroed.init 4 .normal).run Op.unallowedLongTerm = some d ∧
      d.NamesAll (.sample 4 1 4) [(.longTerm 0, 0)] 4 ∧
      (∀ q ∈ ListMod.sample.pictures 4, d.InDpb q) ∧ (ListMod.sample.pictures 4).Nodup ∧
      ¬d.ModifiesAll (.sample 4 1 4) 4 [(.longTerm 0, 0)] .sample () := by
  have hrun : ((Dpb.zeroed.init 4 .normal).run Op.unallowedLongTerm).map (fun d =>
      decide (d.NamesAll (.sample 4 1 4) [(.longTerm 0, 0)] 4 ∧
        (∀ q ∈ ListMod.sample.pictures 4, d.InDpb q) ∧
        ((d.modifCommand (.sample 4 1 4) 4 (.longTerm 0) .sample : Checked Unit _) ()).toOption.map
          (fun r => r.1.pictures 4) = some [0, 1, 2, 0])) = some true := by decide +kernel
  obtain ⟨d, hd, hall⟩ := Option.map_eq_some_iff.mp hrun
  obtain ⟨hnames, hin, hlist⟩ := of_decide_eq_true hall
  refine ⟨d, hd, hnames, hin, by decide +kernel, ?_⟩
  rintro ⟨t', s', hends, ⟨hmod, -, -⟩, -⟩
  rw [hends] at hlist
  have hpics : t'.pictures 4 = [0, 1, 2, 0] := Option.some.inj hlist
  rw [hpics] at hmod
  exact absurd hmod (by decide +kernel)

end LinkedDpb

end VcuCodec
