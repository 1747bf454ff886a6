import VcuCodec.AvcRefListMods
import VcuCodec.AvcSliceLists

/-!
# The construction of the reference picture lists of AVC

`constructRefPicList` of `lib_decode/AvcDecoder.c`: the initial lists, the commands
of the slice header, the clean-up of the entries that are not active, and the
count of the references that exist.  The count goes through a list up to its
first empty entry.
-/

namespace VcuCodec

open CheckedRuns Checked LinkedLists InPlaceLists

variable {σ : Type}

/-! ## The source -/

/-- The fields of the slice header that the buffer reads. -/
def AvcSliceSyntax.hdr (slice : AvcSliceSyntax) (sps : AvcSps) : AvcSliceHdr where
  sps := sps
  nalUnitType := slice.nalUnitType
  nalRefIdc := slice.nalRefIdc
  frameNum := slice.frameNum
  picOrderCntLsb := slice.picOrderCntLsb
  deltaPicOrderCntBottom := slice.deltaPicOrderCntBottom
  deltaPicOrderCnt := slice.deltaPicOrderCnt
  longTermReferenceFlag := slice.longTermReferenceFlag ≠ 0
  adaptiveRefPicMarkingModeFlag := slice.adaptiveRefPicMarkingModeFlag ≠ 0
  memoryManagementControlOperation := slice.marking.memoryManagementControlOperation.toList
  differenceOfPicNumsMinus1 := slice.marking.differenceOfPicNumsMinus1.toList
  longTermPicNum := slice.marking.longTermPicNum.toList
  longTermFrameIdx := slice.marking.longTermFrameIdx.toList
  maxLongTermFrameIdxPlus1 := slice.marking.maxLongTermFrameIdxPlus1.toList

/-- A loop of `AL_AVC_PictMngr_ReorderPictList`. -/
def Dpb.reorderLoop (d : Dpb) (slice : AvcSliceHdr) (uNumRef : ℕ) (r : RefPicListReordering) :
    (rounds uParse uParseShort uParseLong : ℕ) → ListMod → Checked σ ListMod
  | 0, _, _, _, _ => stuck .unfinished
  | rounds + 1, uParse, uParseShort, uParseLong, t => do
    let iPicNumIdc ← readAt r.reorderingOfPicNumsIdc uParse
    if iPicNumIdc = 3 then return t
    else if iPicNumIdc = 0 ∨ iPicNumIdc = 1 then
      let absDiff ← readAt r.absDiffPicNumMinus1 uParseShort
      let t ← d.modifShortTerm slice uNumRef iPicNumIdc.toNat absDiff t
      d.reorderLoop slice uNumRef r rounds (uParse + 1) (uParseShort + 1) uParseLong t
    else if iPicNumIdc = 2 then
      let num ← readAt r.longTermPicNum uParseLong
      let t ← d.modifLongTerm uNumRef num t
      d.reorderLoop slice uNumRef r rounds (uParse + 1) uParseShort (uParseLong + 1) t
    else d.reorderLoop slice uNumRef r rounds (uParse + 1) uParseShort uParseLong t

/-- The part of `AL_AVC_PictMngr_ReorderPictList` for one list, with the number of its
active entries in a `uint8_t`. -/
def Dpb.reorderList (d : Dpb) (slice : AvcSliceHdr) (numRefIdxActiveMinus1 : ℤ)
    (r : RefPicListReordering) (refs : BufferRefs) : Checked σ BufferRefs := do
  let t ← d.reorderLoop slice ((numRefIdxActiveMinus1 + 1) % 256).toNat r
    (avcMaxReferencePictureReorder + 1) 0 0 0 ⟨refs, 0, slice.frameNum⟩
  return t.refs

def Dpb.reorderPictList (d : Dpb) (slice : AvcSliceSyntax) (hdr : AvcSliceHdr)
    (refs0 refs1 : BufferRefs) : Checked σ (BufferRefs × BufferRefs) := do
  let refs0 ← readIf (slice.l0.refPicListReorderingFlag ≠ 0)
    (d.reorderList hdr slice.numRefIdxL0ActiveMinus1 slice.l0 refs0) refs0
  let refs1 ← readIf (slice.l1.refPicListReorderingFlag ≠ 0 ∧ slice.sliceType = sliceB)
    (d.reorderList hdr slice.numRefIdxL1ActiveMinus1 slice.l1 refs1) refs1
  return (refs0, refs1)

/-- The loop of `AL_Dpb_GetNumExistingRef` over one list: it reads the entries of the
list alone. -/
def Dpb.countExisting (d : Dpb) (refs : BufferRefs) :
    (rounds i iNumExisting : ℕ) → Checked σ ℕ
  | 0, _, _ => stuck .unfinished
  | rounds + 1, i, iNumExisting => do
    check (i ≤ maxRef)
    if (refs i).uNodeID = uEndOfList then return iNumExisting
    else do
      check ((refs i).uNodeID < maxDpbSize)
      d.countExisting refs rounds (i + 1)
        (if (d.nodes (refs i).uNodeID).nonExisting then iNumExisting else iNumExisting + 1)

def Dpb.getNumExistingRef (d : Dpb) (refs0 refs1 : BufferRefs) : Checked σ ℕ := do
  let iNumExisting ← d.countExisting refs0 (maxRef + 2) 0 0
  d.countExisting refs1 (maxRef + 2) 0 iNumExisting

/-- The clean-up behind the active entries: the last of the 17 entries stays. -/
def BufferRefs.trim (n : ℤ) (refs : BufferRefs) : BufferRefs := fun i =>
  if n ≤ i ∧ i < maxRef then { refs i with uNodeID := uEndOfList } else refs i

/-- What `constructRefPicList` leaves, with the count of the references that exist where
it is taken. -/
structure RefPicLists where
  ret : Bool
  dpb : Dpb
  refs0 : BufferRefs
  refs1 : BufferRefs
  numExisting : Option ℕ

/-- The part of `constructRefPicList` behind the commands. -/
def Dpb.checkLists (d : Dpb) (slice : AvcSliceSyntax) (refs0 refs1 : BufferRefs) :
    Checked σ RefPicLists :=
  let refs0 := refs0.trim (slice.numRefIdxL0ActiveMinus1 + 1)
  let refs1 := refs1.trim (slice.numRefIdxL1ActiveMinus1 + 1)
  if (slice.sliceType ≠ sliceI ∧ refs0.num < slice.numRefIdxL0ActiveMinus1 + 1) ∨
      (slice.sliceType = sliceB ∧ refs1.num < slice.numRefIdxL1ActiveMinus1 + 1) then
    pure ⟨false, d, refs0, refs1, none⟩
  else if 0 < refs0.num + refs1.num then do
    let n ← d.getNumExistingRef refs0 refs1
    return ⟨n ≠ 0, d, refs0, refs1, some n⟩
  else pure ⟨true, d, refs0, refs1, none⟩

def Dpb.constructRefPicList (d : Dpb) (slice : AvcSliceSyntax) (iCurFramePOC : ℤ)
    (refs0 refs1 : BufferRefs) : Checked σ RefPicLists := do
  let sps ← deref slice.pSPS
  match d.pictNumberProcess (slice.hdr sps.toAvcSps) with
  | none => stuck .unfinished
  | some d =>
    let (refs0, refs1) ← d.initPictList slice.sliceType iCurFramePOC refs0 refs1
    let (refs0, refs1) ← d.reorderPictList slice (slice.hdr sps.toAvcSps) refs0 refs1
    d.checkLists slice refs0 refs1

/-! ## The lists -/

/-- One of the 17 entries is empty. -/
def BufferRefs.Terminated (refs : BufferRefs) : Prop := ∃ i ≤ maxRef, (refs i).uNodeID = uEndOfList

/-- The pictures among the first `n` entries that exist. -/
def Dpb.existing (d : Dpb) (refs : BufferRefs) (n : ℕ) : ℕ :=
  (List.range n).countP fun i =>
    (refs i).uNodeID ≠ uEndOfList ∧ (d.nodes (refs i).uNodeID).nonExisting = false

/-- The construction stays inside the lists, leaves each of them with an empty entry,
and where it counts the references that exist, it counts those that are active. -/
def Dpb.TerminatesLists (d : Dpb) (slice : AvcSliceSyntax) (iCurFramePOC : ℤ)
    (refs0 refs1 : BufferRefs) (s : σ) : Prop :=
  Ends (d.constructRefPicList slice iCurFramePOC refs0 refs1) s fun r _ =>
    r.refs0.Terminated ∧ r.refs1.Terminated ∧ ∀ n, r.numExisting = some n →
      n = r.dpb.existing r.refs0 (slice.numRefIdxL0ActiveMinus1 + 1).toNat +
        r.dpb.existing r.refs1 (slice.numRefIdxL1ActiveMinus1 + 1).toNat

/-! ## The commands of a list -/

/-- The commands in the arrays, as they are read by the loop. -/
def RefPicListReordering.commandsFrom (r : RefPicListReordering) :
    (rounds uParse uParseShort uParseLong : ℕ) → List ListCommand
  | 0, _, _, _ => []
  | rounds + 1, uParse, uParseShort, uParseLong =>
    let iPicNumIdc := (r.reorderingOfPicNumsIdc[uParse]?).getD 3
    if iPicNumIdc = 3 then []
    else if iPicNumIdc = 0 ∨ iPicNumIdc = 1 then
      .shortTerm iPicNumIdc.toNat ((r.absDiffPicNumMinus1[uParseShort]?).getD 0) ::
        r.commandsFrom rounds (uParse + 1) (uParseShort + 1) uParseLong
    else if iPicNumIdc = 2 then
      .longTerm ((r.longTermPicNum[uParseLong]?).getD 0) ::
        r.commandsFrom rounds (uParse + 1) uParseShort (uParseLong + 1)
    else r.commandsFrom rounds (uParse + 1) uParseShort uParseLong

/-- The commands of a list, where they are used. -/
def RefPicListReordering.commands (r : RefPicListReordering) (use : Prop) [Decidable use] :
    List ListCommand :=
  if use then r.commandsFrom (avcMaxReferencePictureReorder + 1) 0 0 0 else []

def Dpb.modifCommands (d : Dpb) (slice : AvcSliceHdr) (uNumRef : ℕ) :
    List ListCommand → ListMod → Checked σ ListMod
  | [], t => pure t
  | cmd :: cs, t => do
    let t ← d.modifCommand slice uNumRef cmd t
    d.modifCommands slice uNumRef cs t

section Commands

variable {d : Dpb} {slice : AvcSliceHdr} {n : ℕ} {r : RefPicListReordering} {s : σ}

theorem ends_readAt_nat {k i : ℕ} {v : Vector ℤ k} {Q : ℤ → σ → Prop} (hi : i < k) (e : ℤ) :
    Ends (readAt v i) s Q ↔ Q ((v[i]?).getD e) s := by
  rw [ends_readAt, Vector.getElem?_eq_getElem hi, Option.getD_some]
  exact ⟨fun h => h.2, fun h => ⟨by omega, h⟩⟩

variable {i rounds uParse uParseShort uParseLong : ℕ}

/-- In front of the end of the commands, at `i`, the loop reads inside the arrays. -/
theorem ends_reorderLoop (hi : i < 17)
    (hend : (r.reorderingOfPicNumsIdc[i]?).getD 3 = 3) (hle : uParse ≤ i) (hrounds : i < uParse + rounds)
    (hshort : uParseShort ≤ uParse) (hlong : uParseLong ≤ uParse) (t : ListMod) {Q : ListMod → σ → Prop} :
    Ends (d.reorderLoop slice n r rounds uParse uParseShort uParseLong t) s Q ↔
      Ends (d.modifCommands slice n (r.commandsFrom rounds uParse uParseShort uParseLong) t) s Q := by
  have hsize : avcMaxReferencePictureReorder = 17 := rfl
  induction rounds generalizing uParse uParseShort uParseLong t s with
  | zero => omega
  | succ rounds ih =>
    unfold Dpb.reorderLoop RefPicListReordering.commandsFrom
    rw [ends_bind, ends_readAt_nat (by omega) 3]
    dsimp only
    generalize hidc : (r.reorderingOfPicNumsIdc[uParse]?).getD 3 = idc
    have hnext : idc ≠ 3 → uParse + 1 ≤ i := by
      intro hne
      rcases Nat.lt_or_ge uParse i with hlt | hge
      · exact hlt
      · obtain rfl : uParse = i := by omega
        exact absurd (hidc.symm.trans hend) hne
    by_cases h3 : idc = 3
    · rw [if_pos h3, if_pos h3]
      rfl
    · have hle' := hnext h3
      rw [if_neg h3, if_neg h3]
      by_cases h01 : idc = 0 ∨ idc = 1
      · rw [if_pos h01, if_pos h01, ends_bind, ends_readAt_nat (by omega) 0]
        unfold Dpb.modifCommands
        rw [ends_bind, ends_bind]
        refine exists_congr fun t' => exists_congr fun s' => and_congr_right fun _ => ?_
        exact ih hle' (by omega) (by omega) (by omega) t'
      · rw [if_neg h01, if_neg h01]
        by_cases h2 : idc = 2
        · rw [if_pos h2, if_pos h2, ends_bind, ends_readAt_nat (by omega) 0]
          unfold Dpb.modifCommands
          rw [ends_bind, ends_bind]
          refine exists_congr fun t' => exists_congr fun s' => and_congr_right fun _ => ?_
          exact ih hle' (by omega) (by omega) (by omega) t'
        · rw [if_neg h2, if_neg h2]
          exact ih hle' (by omega) (by omega) (by omega) t

/-- There are not more commands than entries in front of their end. -/
theorem length_commandsFrom (hend : (r.reorderingOfPicNumsIdc[i]?).getD 3 = 3) (hle : uParse ≤ i) :
    (r.commandsFrom rounds uParse uParseShort uParseLong).length ≤ i - uParse := by
  induction rounds generalizing uParse uParseShort uParseLong with
  | zero => exact Nat.zero_le _
  | succ rounds ih =>
    unfold RefPicListReordering.commandsFrom
    dsimp only
    split
    · exact Nat.zero_le _
    · next h3 =>
      have hlt : uParse < i := by
        rcases Nat.lt_or_ge uParse i with hlt | hge
        · exact hlt
        · obtain rfl : uParse = i := by omega
          exact absurd hend h3
      split
      · have hrest : (r.commandsFrom rounds (uParse + 1) (uParseShort + 1) uParseLong).length ≤
            i - (uParse + 1) := ih hlt
        rw [List.length_cons]
        omega
      · split
        · have hrest : (r.commandsFrom rounds (uParse + 1) uParseShort (uParseLong + 1)).length ≤
              i - (uParse + 1) := ih hlt
          rw [List.length_cons]
          omega
        · have hrest : (r.commandsFrom rounds (uParse + 1) uParseShort uParseLong).length ≤
              i - (uParse + 1) := ih hlt
          omega

end Commands

/-! ## The empty entries -/

namespace ListCommand

variable (slice : AvcSliceHdr) (pred : ℤ)

def predBehind : ListCommand → ℤ
  | shortTerm idc absDiffPicNumMinus1 => iPicNumNoWrap slice idc (absDiffPicNumMinus1 + 1) pred
  | longTerm _ => pred

/-- The number that the command looks for. -/
def number : ListCommand → ℤ
  | c@(shortTerm _ _) =>
    if slice.frameNum < c.predBehind slice pred then c.predBehind slice pred - slice.sps.maxFrameNum
    else c.predBehind slice pred
  | longTerm longTermPicNum => longTermPicNum

/-- The nodes that the command stops at. -/
def selects : ListCommand → Node → Bool
  | c@(shortTerm _ _), n => n.iPicNum = c.number slice pred ∧ n.isShort
  | c@(longTerm _), n => n.iLongTermPicNum = c.number slice pred ∧ n.isLong

end ListCommand

namespace Dpb

variable (d : Dpb) (slice : AvcSliceHdr)

/-- The numbers that a command compares. -/
def numberF : ListCommand → ℕ → ℤ
  | .shortTerm _ _ => d.picNumF slice
  | .longTerm _ => d.longTermPicNumF

/-- The picture that a command finds. -/
def found (pred : ℤ) (cmd : ListCommand) : Option ℕ :=
  (d.walked .decOrder).find? fun u => cmd.selects slice pred (d.nodes u)

/-- The entries `r` behind the picture of a command, without those that have its number. -/
def squeezed (pred : ℤ) (cmd : ListCommand) (r : List ℕ) : List ℕ :=
  squeeze (fun q => d.numberF slice cmd q ≠ cmd.number slice pred) r

/-- One of the entries `l` is empty when the command at the index `a` comes, and it is
not overwritten when the entries with the number of the command are removed. -/
def Spares (cmd : ListCommand) (a : ℕ) (pred : ℤ) (l : List ℕ) : Prop :=
  match d.found slice pred cmd with
  | none => uEndOfList ∈ l
  | some _ => uEndOfList ∈ l.take a ++ d.squeezed slice pred cmd (l.drop a)

/-- The entries behind a command, with the one that is shifted out of the list. -/
def modified (cmd : ListCommand) (a : ℕ) (pred : ℤ) (l : List ℕ) : List ℕ :=
  match d.found slice pred cmd with
  | none => l.take a ++ l.getD a uEndOfList :: l.drop a
  | some u => l.take a ++ u :: d.squeezed slice pred cmd (l.drop a)

def indexBehind (cmd : ListCommand) (a : ℕ) (pred : ℤ) : ℕ :=
  if (d.found slice pred cmd).isSome then a + 1 else a

/-- Each command spares an empty one of the 16 entries. -/
def SparesAll : List ListCommand → (a : ℕ) → (pred : ℤ) → (l : List ℕ) → Prop
  | [], _, _, _ => True
  | cmd :: cs, a, pred, l => d.Spares slice cmd a pred l ∧
      SparesAll cs (d.indexBehind slice cmd a pred) (cmd.predBehind slice pred)
        ((d.modified slice cmd a pred l).take maxRef)

theorem modifCommand_eq (n : ℕ) (cmd : ListCommand) (t : ListMod) :
    (d.modifCommand slice n cmd t : Checked σ ListMod) =
      d.modif n (cmd.selects slice t.iPicNumPred) (d.numberF slice cmd)
        (cmd.number slice t.iPicNumPred)
        { t with iPicNumPred := cmd.predBehind slice t.iPicNumPred } := by
  cases cmd with
  | shortTerm idc diff => rfl
  | longTerm num => rfl

end Dpb

namespace BufferRefs

variable {refs : BufferRefs}

/-- The nodes of the first `n` entries. -/
def nodesOf (n : ℕ) (refs : BufferRefs) : List ℕ := front n fun i => (refs i).uNodeID

theorem length_nodesOf (n : ℕ) : (refs.nodesOf n).length = n := length_front n _

theorem mem_nodesOf {n q : ℕ} : q ∈ refs.nodesOf n ↔ ∃ i < n, (refs i).uNodeID = q := by
  simp [nodesOf, front]

theorem terminated_iff : refs.Terminated ↔ uEndOfList ∈ refs.nodesOf (maxRef + 1) := by
  rw [mem_nodesOf]
  exact exists_congr fun i => and_congr_left fun _ => Nat.lt_succ_iff.symm

theorem take_nodesOf {n m : ℕ} (h : n ≤ m) : (refs.nodesOf m).take n = refs.nodesOf n := by
  unfold nodesOf front
  rw [← List.map_take, List.take_range, min_eq_left h]

end BufferRefs

namespace LinkedDpb

variable {c : LinkedDpb} {slice : AvcSliceHdr} {cmd : ListCommand} {cs : List ListCommand} {a n : ℕ}
  {pred : ℤ} {l : List ℕ} {t : ListMod} {s : σ}

theorem inDpb_of_found {u : ℕ} (h : c.dpb.found slice pred cmd = some u) : c.dpb.InDpb u :=
  inDpb_of_walked (by decide) (List.mem_of_find?_eq_some h)

theorem ne_end_of_inDpb {u : ℕ} (h : c.dpb.InDpb u) : u ≠ uEndOfList := by
  rintro rfl
  exact end_notMem_of_inDpb (l := [uEndOfList]) (by simpa using h) (by simp)

theorem end_mem_of_spares (h : c.dpb.Spares slice cmd a pred l) : uEndOfList ∈ l := by
  unfold Dpb.Spares at h
  split at h
  · exact h
  · rcases List.mem_append.mp h with h | h
    · exact List.mem_of_mem_take h
    · exact List.mem_of_mem_drop (mem_of_mem_squeeze h)

/-- A command spares an empty entry if and only if there is one behind it. -/
theorem end_mem_modified_iff (ha : a < l.length) :
    uEndOfList ∈ c.dpb.modified slice cmd a pred l ↔ c.dpb.Spares slice cmd a pred l := by
  unfold Dpb.modified Dpb.Spares
  cases hfound : c.dpb.found slice pred cmd with
  | none =>
    dsimp only
    rw [List.mem_append, List.mem_cons, List.getD_eq_getElem _ _ ha]
    constructor
    · rintro (h | h | h)
      · exact List.mem_of_mem_take h
      · exact h ▸ List.getElem_mem ha
      · exact List.mem_of_mem_drop h
    · intro h
      rw [← List.take_append_drop a l, List.mem_append] at h
      exact h.imp id .inr
  | some u =>
    have hu := ne_end_of_inDpb (inDpb_of_found hfound)
    dsimp only
    rw [List.mem_append, List.mem_append, List.mem_cons]
    exact or_congr Iff.rfl (or_iff_right hu.symm)

theorem ends_modifCommand (hid : c.OwnIDs) (cmd : ListCommand) (t : ListMod) (s : σ) (hn : n ≤ maxRef)
    (hidx : t.uRefIdx < maxRef)
    (hentries : ∀ i < maxRef, (t.refs i).uNodeID = uEndOfList ∨ c.dpb.InDpb (t.refs i).uNodeID) :
    Ends (c.dpb.modifCommand slice n cmd t) s fun t' _ =>
      t'.uRefIdx = c.dpb.indexBehind slice cmd t.uRefIdx t.iPicNumPred ∧
        t'.iPicNumPred = cmd.predBehind slice t.iPicNumPred ∧
        (∀ i < maxRef, (t'.refs i).uNodeID = uEndOfList ∨ c.dpb.InDpb (t'.refs i).uNodeID) ∧
        (n = maxRef → t'.refs.nodesOf (maxRef + 1) =
          c.dpb.modified slice cmd t.uRefIdx t.iPicNumPred (t.refs.nodesOf maxRef)) := by
  rw [Dpb.modifCommand_eq]
  unfold Dpb.modif Dpb.indexBehind Dpb.modified
  have hsame : ((c.dpb.walked .decOrder).find? fun u => cmd.selects slice t.iPicNumPred (c.dpb.nodes u)) =
      c.dpb.found slice t.iPicNumPred cmd := rfl
  rw [findInDecOrder_eq, hsame]
  cases hfound : c.dpb.found slice t.iPicNumPred cmd with
  | none =>
    dsimp only [Option.getD_none, Option.isSome_none]
    rw [if_pos rfl, ends_pure]
    refine ⟨rfl, rfl, fun i hi => ?_, ?_⟩
    · dsimp only
      rw [shiftUp_apply]
      split
      · exact hentries (i - 1) (by omega)
      · exact hentries i hi
    · rintro rfl
      have hfront : front (maxRef + 1) (shiftUp t.uRefIdx maxRef fun i => (t.refs i).uNodeID) =
          (t.refs.nodesOf maxRef).take t.uRefIdx ++
            (t.refs t.uRefIdx).uNodeID :: (t.refs.nodesOf maxRef).drop t.uRefIdx :=
        front_succ_shiftUp hidx.le
      have hget : (t.refs.nodesOf maxRef).getD t.uRefIdx uEndOfList = (t.refs t.uRefIdx).uNodeID := by
        rw [List.getD_eq_getElem _ _ (by rwa [BufferRefs.length_nodesOf])]
        exact getElem_front _
      rw [hget]
      refine Eq.trans (List.map_congr_left fun i _ => ?_) hfront
      dsimp only
      rw [shiftUp_apply, shiftUp_apply]
      split <;> rfl
  | some u =>
    have hu := inDpb_of_found hfound
    dsimp only [Option.getD_some, Option.isSome_some]
    rw [if_neg (ne_end_of_inDpb hu), ends_bind, ends_check, ends_pure, hid u hu]
    have hnodes := uNodeID_insert (c.dpb.numberF slice cmd) (cmd.number slice t.iPicNumPred) n u t
    refine ⟨hidx.le, rfl, rfl, fun i hi => ?_, ?_⟩
    · rw [hnodes]
      exact insertAt_forall (P := fun q => q = uEndOfList ∨ c.dpb.InDpb q) hn (.inr hu) hentries hi
    · rintro rfl
      exact (List.map_congr_left fun i _ => hnodes i).trans (front_succ_insertAt hidx.le)

theorem indexBehind_le : c.dpb.indexBehind slice cmd a pred ≤ a + 1 := by
  unfold Dpb.indexBehind
  split <;> omega

/-- The commands leave an empty entry if and only if each of them spares one. -/
theorem ends_modifCommands (hid : c.OwnIDs) (hn : n ≤ maxRef) (cs : List ListCommand) (t : ListMod) (s : σ)
    (hidx : t.uRefIdx + cs.length ≤ maxRef)
    (hentries : ∀ i < maxRef, (t.refs i).uNodeID = uEndOfList ∨ c.dpb.InDpb (t.refs i).uNodeID) :
    Ends (c.dpb.modifCommands slice n cs t) s fun t' _ =>
      (∀ i < maxRef, (t'.refs i).uNodeID = uEndOfList ∨ c.dpb.InDpb (t'.refs i).uNodeID) ∧
        (n = maxRef → cs ≠ [] → (t'.refs.Terminated ↔
          c.dpb.SparesAll slice cs t.uRefIdx t.iPicNumPred (t.refs.nodesOf maxRef))) := by
  induction cs generalizing t s with
  | nil => exact (ends_pure t).mpr ⟨hentries, fun _ h => absurd rfl h⟩
  | cons cmd cs ih =>
    rw [List.length_cons] at hidx
    unfold Dpb.modifCommands
    rw [ends_bind]
    refine (ends_modifCommand hid cmd t s hn (by omega) hentries).imp fun t1 s1 h1 => ?_
    obtain ⟨hidx1, hpred1, hentries1, hmod⟩ := h1
    have hle : c.dpb.indexBehind slice cmd t.uRefIdx t.iPicNumPred ≤ t.uRefIdx + 1 := indexBehind_le
    have hspares : uEndOfList ∈
          c.dpb.modified slice cmd t.uRefIdx t.iPicNumPred (t.refs.nodesOf maxRef) ↔
        c.dpb.Spares slice cmd t.uRefIdx t.iPicNumPred (t.refs.nodesOf maxRef) := by
      apply end_mem_modified_iff
      rw [BufferRefs.length_nodesOf]
      omega
    cases cs with
    | nil =>
      refine (ends_pure t1).mpr ⟨hentries1, fun hfull _ => ?_⟩
      rw [BufferRefs.terminated_iff, hmod hfull, hspares]
      exact (and_iff_left trivial).symm
    | cons cmd' cs =>
      refine (ih t1 s1 (by omega) hentries1).imp fun t2 s2 h2 => ⟨h2.1, fun hfull _ => ?_⟩
      have hnext : t1.refs.nodesOf maxRef =
          (c.dpb.modified slice cmd t.uRefIdx t.iPicNumPred (t.refs.nodesOf maxRef)).take maxRef := by
        rw [← hmod hfull]
        exact (BufferRefs.take_nodesOf (Nat.le_succ _)).symm
      rw [h2.2 hfull (List.cons_ne_nil _ _), hidx1, hpred1, hnext]
      refine ⟨fun h => ⟨hspares.mp ?_, h⟩, fun h => h.2⟩
      -- what the next command spares was spared before
      exact List.mem_of_mem_take (end_mem_of_spares h.1)

/-- A list is as it was filled, behind a reset. -/
def StartsWith (c : LinkedDpb) (old : BufferRefs) (l : List ℕ) (refs : BufferRefs) : Prop :=
  old.reset.Filled l refs ∧ l.length ≤ maxRef + 1 ∧ ∀ u ∈ l, c.dpb.InDpb u

end LinkedDpb

/-- The 16 entries of a list that is filled with `l`. -/
def padded (l : List ℕ) : List ℕ := (List.range maxRef).map fun i => l.getD i uEndOfList

/-- A list with `n` active entries that is filled with `l`, with `spare` behind it, keeps
an empty entry. -/
def Dpb.KeepsEnd (d : Dpb) (slice : AvcSliceHdr) (n : ℤ) (l : List ℕ) (spare : ℕ)
    (cs : List ListCommand) : Prop :=
  n < maxRef ∨
    if cs = [] then l.length < maxRef ∨ (l.length = maxRef ∧ spare = uEndOfList)
    else d.SparesAll slice cs 0 slice.frameNum (padded l)

namespace LinkedDpb

variable {c : LinkedDpb} {slice : AvcSliceHdr} {old refs : BufferRefs} {l : List ℕ} {n : ℤ} {s : σ}

theorem StartsWith.entries (h : c.StartsWith old l refs) (i : ℕ) (hi : i < maxRef) :
    (refs i).uNodeID = uEndOfList ∨ c.dpb.InDpb (refs i).uNodeID := by
  rw [h.1 i]
  rcases Nat.lt_or_ge i l.length with hlt | hge
  · rw [List.getD_eq_getElem _ _ hlt]
    exact .inr (h.2.2 _ (List.getElem_mem hlt))
  · rw [List.getD_eq_default _ _ hge]
    unfold BufferRefs.reset
    rw [if_pos hi]
    exact .inl rfl

theorem StartsWith.nodesOf (h : c.StartsWith old l refs) : refs.nodesOf maxRef = padded l := by
  refine List.map_congr_left fun i hi => ?_
  have hi : i < maxRef := List.mem_range.mp hi
  have hreset : (old.reset i).uNodeID = uEndOfList := by
    unfold BufferRefs.reset
    rw [if_pos hi]
  rw [h.1 i, hreset]

/-- Without commands, a list is terminated by an empty entry of the 16, or by the spare one. -/
theorem StartsWith.terminated_iff (h : c.StartsWith old l refs) : refs.Terminated ↔
    l.length < maxRef ∨ (l.length = maxRef ∧ (old maxRef).uNodeID = uEndOfList) := by
  have hset : ∀ i < l.length, (refs i).uNodeID ≠ uEndOfList := by
    intro i hi
    rw [h.1 i, List.getD_eq_getElem _ _ hi]
    exact ne_end_of_inDpb (h.2.2 _ (List.getElem_mem hi))
  have hreset : ∀ i < maxRef, (old.reset i).uNodeID = uEndOfList := by
    intro i hi
    unfold BufferRefs.reset
    rw [if_pos hi]
  have hspare : (old.reset maxRef).uNodeID = (old maxRef).uNodeID := by
    unfold BufferRefs.reset
    rw [if_neg (lt_irrefl _)]
  constructor
  · rintro ⟨i, hi, hend⟩
    rcases Nat.lt_or_ge i l.length with hlt | hge
    · exact absurd hend (hset i hlt)
    · rcases Nat.lt_or_ge l.length maxRef with hlt | hle
      · exact .inl hlt
      · obtain rfl : i = maxRef := by omega
        rw [h.1, List.getD_eq_default _ _ hge, hspare] at hend
        exact .inr ⟨by omega, hend⟩
  · rintro (hlt | ⟨heq, hend⟩)
    · refine ⟨l.length, hlt.le, ?_⟩
      rw [h.1, List.getD_eq_default _ _ le_rfl]
      exact hreset _ hlt
    · refine ⟨maxRef, le_rfl, ?_⟩
      rw [h.1, List.getD_eq_default _ _ heq.le, hspare, hend]

variable {r : RefPicListReordering}

theorem endsAt_getD {i : ℤ} (h : r.EndsAt i) :
    i.toNat < 17 ∧ (r.reorderingOfPicNumsIdc[i.toNat]?).getD 3 = 3 := by
  obtain ⟨hi, hget⟩ := h
  have hlt : i.toNat < avcMaxReferencePictureReorder := by
    unfold avcMaxReferencePictureReorder
    omega
  refine ⟨hlt, ?_⟩
  rw [Vector.getElem?_eq_getElem hlt]
  exact hget

/-- The commands of one list, if there are any to be read. -/
theorem ends_reorderList (hid : c.OwnIDs) {use : Prop} [Decidable use] {num : ℤ} (hnum : 0 ≤ num ∧ num ≤ 15)
    (hfits : use → ∃ i, r.EndsAt i) (h : c.StartsWith old l refs) (s : σ) :
    Ends (readIf use (c.dpb.reorderList slice num r refs) refs) s fun refs' _ =>
      (∀ i < maxRef, (refs' i).uNodeID = uEndOfList ∨ c.dpb.InDpb (refs' i).uNodeID) ∧
        (¬use → refs' = refs) ∧ (num = 15 → (refs'.Terminated ↔
          c.dpb.KeepsEnd slice (num + 1) l (old maxRef).uNodeID (r.commands use))) := by
  have hsize : maxRef = 16 := rfl
  unfold RefPicListReordering.commands
  rw [ends_readIf]
  have hplain : num = 15 → (refs.Terminated ↔
      c.dpb.KeepsEnd slice (num + 1) l (old maxRef).uNodeID []) := by
    intro hfull
    unfold Dpb.KeepsEnd
    rw [if_pos rfl, h.terminated_iff]
    exact (or_iff_right (by omega)).symm
  refine ⟨fun huse => ?_, fun huse => ⟨h.entries, fun _ => rfl, ?_⟩⟩
  · obtain ⟨i, hi⟩ := hfits huse
    obtain ⟨hlt, hend⟩ := endsAt_getD hi
    have hmax : avcMaxReferencePictureReorder = 17 := rfl
    have hlen : (r.commandsFrom (avcMaxReferencePictureReorder + 1) 0 0 0).length ≤ i.toNat - 0 :=
      length_commandsFrom hend (Nat.zero_le _)
    unfold Dpb.reorderList
    rw [if_pos huse, ends_bind, ends_reorderLoop hlt hend (Nat.zero_le _) (by omega) le_rfl le_rfl]
    generalize r.commandsFrom (avcMaxReferencePictureReorder + 1) 0 0 0 = cs at hlen ⊢
    cases cs with
    | nil =>
      refine (ends_pure _).mpr ((ends_pure _).mpr ⟨h.entries, fun hno => absurd huse hno, hplain⟩)
    | cons cmd cs =>
      have hn : ((num + 1) % 256).toNat ≤ maxRef := by omega
      have hidx : 0 + (cmd :: cs).length ≤ maxRef := by omega
      refine (ends_modifCommands hid hn (cmd :: cs) ⟨refs, 0, slice.frameNum⟩ s hidx h.entries).imp
        fun t' s' h' => (ends_pure _).mpr ⟨h'.1, fun hno => absurd huse hno, fun hfull => ?_⟩
      rw [h'.2 (by omega) (List.cons_ne_nil _ _), h.nodesOf]
      unfold Dpb.KeepsEnd
      rw [if_neg (List.cons_ne_nil _ _)]
      exact (or_iff_right (by omega)).symm
  · rw [if_neg huse]
    exact hplain

end LinkedDpb

/-! ## The count -/

section Count

variable {d : Dpb} {refs : BufferRefs} {s : σ}

/-- Up to the first empty entry, at `m`, the count stays inside the list. -/
theorem ends_countExisting {m i : ℕ} (rounds acc : ℕ) (hm : m ≤ maxRef) (hend : (refs m).uNodeID = uEndOfList)
    (hset : ∀ j < m, (refs j).uNodeID ≠ uEndOfList ∧ (refs j).uNodeID < maxDpbSize) (hi : i ≤ m)
    (hrounds : m < i + rounds) :
    Ends (d.countExisting refs rounds i acc) s fun n _ => n + d.existing refs i = acc + d.existing refs m := by
  induction rounds generalizing i acc s with
  | zero => omega
  | succ rounds ih =>
    unfold Dpb.countExisting
    rw [ends_bind, ends_check, ends_ite]
    refine ⟨hi.trans hm, fun he => (ends_pure _).mpr ?_, fun hne => ?_⟩
    · have him : i = m := by
        rcases Nat.lt_or_ge i m with hlt | hge
        · exact absurd he (hset i hlt).1
        · omega
      rw [him]
    · have hlt : i < m := by
        rcases Nat.lt_or_ge i m with hlt | hge
        · exact hlt
        · obtain rfl : i = m := by omega
          exact absurd hend hne
      rw [ends_bind, ends_check]
      refine ⟨(hset i hlt).2, (ih _ hlt (by omega)).imp fun n t hn => ?_⟩
      have hnext : d.existing refs (i + 1) = d.existing refs i +
          if (d.nodes (refs i).uNodeID).nonExisting then 0 else 1 := by
        unfold Dpb.existing
        rw [List.range_succ, List.countP_append, List.countP_singleton]
        congr 1
        cases (d.nodes (refs i).uNodeID).nonExisting with
        | true => simp
        | false => simp [hne]
      rw [hnext] at hn
      split at hn <;> omega

theorem trim_apply {n : ℤ} {i : ℕ} : (refs.trim n i).uNodeID =
    if n ≤ i ∧ i < maxRef then uEndOfList else (refs i).uNodeID := by
  unfold BufferRefs.trim
  split <;> rfl

/-- Where there are as many references as active entries, the active entries are set. -/
theorem set_of_num {n : ℕ} (hn : n ≤ maxRef) (hnum : n ≤ (refs.trim n).num) :
    ∀ i < n, (refs.trim n i).uNodeID ≠ uEndOfList := by
  have hcount : (refs.trim n).num =
      (List.range n).countP fun i => (refs.trim n i).uNodeID ≠ uEndOfList := by
    have hsplit : List.range maxRef = List.range n ++ List.range' n (maxRef - n) := by
      have happ : List.range' 0 n ++ List.range' (0 + n) (maxRef - n) = List.range' 0 (n + (maxRef - n)) :=
        List.range'_append_1
      rw [Nat.zero_add, Nat.add_sub_cancel' hn] at happ
      rw [List.range_eq_range', List.range_eq_range', happ]
    unfold BufferRefs.num
    rw [hsplit, List.countP_append, Nat.add_eq_left, List.countP_eq_zero]
    intro i hi
    rw [List.mem_range'_1] at hi
    rw [trim_apply, if_pos (by omega)]
    simp
  have hall : (List.range n).countP (fun i => (refs.trim n i).uNodeID ≠ uEndOfList) =
      (List.range n).length := by
    refine le_antisymm List.countP_le_length ?_
    rw [List.length_range, ← hcount]
    exact hnum
  intro i hi
  have hset := List.countP_eq_length.mp hall i (List.mem_range.mpr hi)
  exact of_decide_eq_true hset

theorem existing_of_empty {n : ℕ} (h : ∀ i < n, (refs i).uNodeID = uEndOfList) : d.existing refs n = 0 := by
  unfold Dpb.existing
  rw [List.countP_eq_zero]
  intro i hi
  simp [h i (List.mem_range.mp hi)]

end Count

/-! ## The construction -/

theorem exchanged_perm (l0 l1 : List ℕ) : (exchanged l0 l1).Perm l1 := by
  unfold exchanged
  split
  · next x y l =>
    split
    · exact .swap x y l
    · exact .refl _
  · exact .refl _

namespace Dpb

/-- The pictures of the initial list 0. -/
def initial0 (d : Dpb) (sliceType : ℕ) (cur : ℤ) : List ℕ :=
  if sliceType = sliceP ∨ sliceType = sliceSP then d.recent ++ d.others
  else if sliceType = sliceB then d.past cur ++ (d.future cur ++ d.longs)
  else []

/-- The pictures of the initial list 1. -/
def initial1 (d : Dpb) (sliceType : ℕ) (cur : ℤ) : List ℕ :=
  if sliceType = sliceB then
    exchanged (d.past cur ++ (d.future cur ++ d.longs)) (d.future cur ++ (d.past cur ++ d.longs))
  else []

/-- There is room for the initial lists. -/
structure RoomFor (d : Dpb) (sliceType : ℕ) (cur : ℤ) : Prop where
  p : sliceType = sliceP ∨ sliceType = sliceSP → d.RoomForP
  b : sliceType = sliceB → d.RoomForB cur

/-- There is room for the initial lists, and both lists keep an empty entry. -/
structure KeepsLists (d : Dpb) (slice : AvcSliceSyntax) (hdr : AvcSliceHdr) (cur : ℤ)
    (spare0 spare1 : ℕ) : Prop where
  room : d.RoomFor slice.sliceType cur
  list0 : d.KeepsEnd hdr (slice.numRefIdxL0ActiveMinus1 + 1) (d.initial0 slice.sliceType cur) spare0
    (slice.l0.commands (slice.l0.refPicListReorderingFlag ≠ 0))
  list1 : d.KeepsEnd hdr (slice.numRefIdxL1ActiveMinus1 + 1) (d.initial1 slice.sliceType cur) spare1
    (slice.l1.commands (slice.l1.refPicListReorderingFlag ≠ 0 ∧ slice.sliceType = sliceB))

end Dpb

namespace LinkedDpb

variable {c : LinkedDpb} {slice : AvcSliceSyntax} {refs0 refs1 : BufferRefs} {cur : ℤ} {sliceType : ℕ} {s : σ}

theorem startsWith_initPictList (hid : c.OwnIDs) (cur : ℤ) (sliceType : ℕ) (refs0 refs1 : BufferRefs) (s : σ) :
    EndsIff (c.dpb.RoomFor sliceType cur) (c.dpb.initPictList sliceType cur refs0 refs1) s fun r _ =>
      c.StartsWith refs0 (c.dpb.initial0 sliceType cur) r.1 ∧
        c.StartsWith refs1 (c.dpb.initial1 sliceType cur) r.2 := by
  have hnone : ∀ refs : BufferRefs, c.StartsWith refs [] refs.reset := fun refs =>
    ⟨BufferRefs.filled_nil _, Nat.zero_le _, by simp⟩
  have hPB : ∀ t, t = sliceP ∨ t = sliceSP → t ≠ sliceB := by
    rintro t (rfl | rfl) <;> decide
  have hwalk : ∀ {o : Order} {p : ℕ → Bool} {u}, o ≠ .pocLsb → u ∈ (c.dpb.walked o).filter p → c.dpb.InDpb u :=
    fun ho hu => inDpb_of_walked ho (List.mem_filter.mp hu).1
  unfold Dpb.initPictList Dpb.initial0 Dpb.initial1
  by_cases hP : sliceType = sliceP ∨ sliceType = sliceSP
  · rw [if_pos hP, if_pos hP, if_neg (hPB _ hP)]
    have hlist := endsIff_initPSliceRefList (s := s) hid refs0.reset
    refine (hlist.bindEnds fun r s1 hroom hr => (ends_pure _).mpr ⟨⟨hr, ?_, ?_⟩, hnone _⟩).congr ?_
    · exact ⟨fun h => ⟨fun _ => h, fun hB => absurd hB (hPB _ hP)⟩, fun h => h.p hP⟩
    · rw [List.length_append]
      exact hroom.total_le
    · intro u hu
      rcases List.mem_append.mp hu with hu | hu
      · exact hwalk (by decide) (List.mem_reverse.mp hu)
      · exact hwalk (by decide) hu
  · rw [if_neg hP, if_neg hP]
    by_cases hB : sliceType = sliceB
    · rw [if_pos hB, if_pos hB, if_pos hB]
      have hin : ∀ u ∈ c.dpb.past cur ++ (c.dpb.future cur ++ c.dpb.longs), c.dpb.InDpb u := by
        intro u hu
        rcases List.mem_append.mp hu with hu | hu
        · exact hwalk (by decide) (List.mem_reverse.mp hu)
        rcases List.mem_append.mp hu with hu | hu
        · exact hwalk (by decide) hu
        · exact hwalk (by decide) hu
      have hperm : (exchanged (c.dpb.past cur ++ (c.dpb.future cur ++ c.dpb.longs))
          (c.dpb.future cur ++ (c.dpb.past cur ++ c.dpb.longs))).Perm
            (c.dpb.past cur ++ (c.dpb.future cur ++ c.dpb.longs)) := by
        refine (exchanged_perm _ _).trans ?_
        rw [← List.append_assoc, ← List.append_assoc]
        exact List.perm_append_comm.append_right _
      refine ((endsIff_initBSliceRefList hid cur refs0.reset refs1.reset).imp fun r t hroom hr => ?_).congr ?_
      · have hlen : (c.dpb.past cur ++ (c.dpb.future cur ++ c.dpb.longs)).length ≤ maxRef + 1 := by
          rw [List.length_append, List.length_append, ← Nat.add_assoc]
          exact hroom.total_le
        refine ⟨⟨hr.1, hlen, hin⟩, hr.2, ?_, fun u hu => hin u (hperm.mem_iff.mp hu)⟩
        rw [hperm.length_eq]
        exact hlen
      · exact ⟨fun h => ⟨fun hp => absurd hp hP, fun _ => h⟩, fun h => h.b hB⟩
    · rw [if_neg hB, if_neg hB, if_neg hB]
      exact ⟨fun _ => (ends_pure _).mpr ⟨hnone _, hnone _⟩,
        fun _ => ⟨fun hp => absurd hp hP, fun hb => absurd hb hB⟩⟩

/-- A list with an empty entry is counted up to its first one. -/
theorem ends_countExisting_of_terminated {refs : BufferRefs} {n : ℕ} (acc : ℕ) (hn : n ≤ maxRef)
    (hentries : ∀ i < maxRef, (refs i).uNodeID = uEndOfList ∨ c.dpb.InDpb (refs i).uNodeID)
    (hterm : refs.Terminated) (hactive : (∀ i < n, (refs i).uNodeID ≠ uEndOfList) ∧
      (∀ i, n ≤ i → i < maxRef → (refs i).uNodeID = uEndOfList) ∨
        ∀ i < maxRef, (refs i).uNodeID = uEndOfList) (s : σ) :
    Ends (c.dpb.countExisting refs (maxRef + 2) 0 acc) s fun k _ => k = acc + c.dpb.existing refs n := by
  have hzero : c.dpb.existing refs 0 = 0 := rfl
  rcases hactive with ⟨hset, hempty⟩ | hempty
  · -- the entry behind the active ones is the first empty one
    have hend : (refs n).uNodeID = uEndOfList := by
      rcases Nat.lt_or_ge n maxRef with hlt | hge
      · exact hempty n le_rfl hlt
      · obtain ⟨i, hi, hend⟩ := hterm
        rcases Nat.lt_or_ge i n with hin | hni
        · exact absurd hend (hset i hin)
        · obtain rfl : i = n := by omega
          exact hend
    have hnodes : ∀ j < n, (refs j).uNodeID ≠ uEndOfList ∧ (refs j).uNodeID < maxDpbSize := fun j hj =>
      ⟨hset j hj, ((hentries j (by omega)).resolve_left (hset j hj)).1⟩
    refine (ends_countExisting (maxRef + 2) acc hn hend hnodes (Nat.zero_le _) (by omega)).imp
      fun k _ hk => ?_
    rwa [hzero, Nat.add_zero] at hk
  · have hnodes : ∀ j < 0, (refs j).uNodeID ≠ uEndOfList ∧ (refs j).uNodeID < maxDpbSize :=
      fun j hj => absurd hj (Nat.not_lt_zero j)
    refine (ends_countExisting (maxRef + 2) acc (Nat.zero_le _) (hempty 0 (by decide)) hnodes le_rfl
      (by decide)).imp fun k _ hk => ?_
    rw [existing_of_empty fun i hi => hempty i (by omega)]
    rwa [hzero, Nat.add_zero, Nat.add_zero] at hk

/-- Behind the commands, the lists have to keep an empty entry. -/
theorem ends_checkLists_iff (hclip : slice.RefsClipped)
    (h0 : ∀ i < maxRef, (refs0 i).uNodeID = uEndOfList ∨ c.dpb.InDpb (refs0 i).uNodeID)
    (h1 : ∀ i < maxRef, (refs1 i).uNodeID = uEndOfList ∨ c.dpb.InDpb (refs1 i).uNodeID)
    (hintra : slice.sliceType = sliceI → ∀ i < maxRef, (refs0 i).uNodeID = uEndOfList)
    (hone : slice.sliceType ≠ sliceB → ∀ i < maxRef, (refs1 i).uNodeID = uEndOfList) :
    Ends (c.dpb.checkLists slice refs0 refs1) s (fun r _ => r.refs0.Terminated ∧ r.refs1.Terminated ∧
        ∀ n, r.numExisting = some n →
          n = r.dpb.existing r.refs0 (slice.numRefIdxL0ActiveMinus1 + 1).toNat +
            r.dpb.existing r.refs1 (slice.numRefIdxL1ActiveMinus1 + 1).toNat) ↔
      (refs0.trim (slice.numRefIdxL0ActiveMinus1 + 1)).Terminated ∧
        (refs1.trim (slice.numRefIdxL1ActiveMinus1 + 1)).Terminated := by
  obtain ⟨hclip0, hclip1⟩ := hclip
  have hsize : maxRef = 16 := rfl
  obtain ⟨n0, hn0⟩ : ∃ n0 : ℕ, slice.numRefIdxL0ActiveMinus1 + 1 = n0 :=
    ⟨(slice.numRefIdxL0ActiveMinus1 + 1).toNat, by omega⟩
  obtain ⟨n1, hn1⟩ : ∃ n1 : ℕ, slice.numRefIdxL1ActiveMinus1 + 1 = n1 :=
    ⟨(slice.numRefIdxL1ActiveMinus1 + 1).toNat, by omega⟩
  have hentries : ∀ {refs : BufferRefs} {n : ℤ},
      (∀ i < maxRef, (refs i).uNodeID = uEndOfList ∨ c.dpb.InDpb (refs i).uNodeID) →
      ∀ i < maxRef, (refs.trim n i).uNodeID = uEndOfList ∨ c.dpb.InDpb (refs.trim n i).uNodeID := by
    intro refs n h i hi
    rw [trim_apply]
    split
    · exact .inl rfl
    · exact h i hi
  have hempty : ∀ {refs : BufferRefs} {n : ℤ}, (∀ i < maxRef, (refs i).uNodeID = uEndOfList) →
      ∀ i < maxRef, (refs.trim n i).uNodeID = uEndOfList := by
    intro refs n h i hi
    rw [trim_apply]
    split
    · rfl
    · exact h i hi
  -- a list with enough references is active up to its end
  have hactive : ∀ {refs : BufferRefs} {n : ℕ}, n ≤ maxRef → n ≤ (refs.trim n).num →
      (∀ i < n, (refs.trim n i).uNodeID ≠ uEndOfList) ∧
        ∀ i, n ≤ i → i < maxRef → (refs.trim n i).uNodeID = uEndOfList := by
    intro refs n hn hnum
    refine ⟨set_of_num hn hnum, fun i hni hi => ?_⟩
    rw [trim_apply, if_pos ⟨by omega, hi⟩]
  unfold Dpb.checkLists
  simp only [hn0, hn1, Int.toNat_natCast, Nat.cast_lt]
  constructor
  · intro h
    rw [ends_ite, ends_ite, ends_bind] at h
    obtain ⟨hfew, hmany⟩ := h
    by_cases hc : slice.sliceType ≠ sliceI ∧ (refs0.trim n0).num < n0 ∨
        slice.sliceType = sliceB ∧ (refs1.trim n1).num < n1
    · have hends := (ends_pure _).mp (hfew hc)
      exact ⟨hends.1, hends.2.1⟩
    · by_cases hpos : 0 < (refs0.trim n0).num + (refs1.trim n1).num
      · obtain ⟨n, t, -, hends⟩ := (hmany hc).1 hpos
        have hends := (ends_pure _).mp hends
        exact ⟨hends.1, hends.2.1⟩
      · have hends := (ends_pure _).mp ((hmany hc).2 hpos)
        exact ⟨hends.1, hends.2.1⟩
  · rintro ⟨hterm0, hterm1⟩
    rw [ends_ite]
    refine ⟨fun _ => (ends_pure _).mpr ⟨hterm0, hterm1, fun n hn => by cases hn⟩, fun henough => ?_⟩
    rw [ends_ite]
    refine ⟨fun _ => ?_, fun _ => (ends_pure _).mpr ⟨hterm0, hterm1, fun n hn => by cases hn⟩⟩
    rw [not_or, not_and, not_and, Nat.not_lt, Nat.not_lt] at henough
    have hactive0 : ((∀ i < n0, (refs0.trim n0 i).uNodeID ≠ uEndOfList) ∧
        ∀ i, n0 ≤ i → i < maxRef → (refs0.trim n0 i).uNodeID = uEndOfList) ∨
          ∀ i < maxRef, (refs0.trim n0 i).uNodeID = uEndOfList := by
      by_cases hI : slice.sliceType = sliceI
      · exact .inr (hempty (hintra hI))
      · exact .inl (hactive (by omega) (henough.1 hI))
    have hactive1 : ((∀ i < n1, (refs1.trim n1 i).uNodeID ≠ uEndOfList) ∧
        ∀ i, n1 ≤ i → i < maxRef → (refs1.trim n1 i).uNodeID = uEndOfList) ∨
          ∀ i < maxRef, (refs1.trim n1 i).uNodeID = uEndOfList := by
      by_cases hB : slice.sliceType = sliceB
      · exact .inl (hactive (by omega) (henough.2 hB))
      · exact .inr (hempty (hone hB))
    unfold Dpb.getNumExistingRef
    rw [ends_bind, ends_bind]
    refine (ends_countExisting_of_terminated 0 (by omega) (hentries h0) hterm0 hactive0 s).imp
      fun k0 s1 hk0 => ?_
    refine (ends_countExisting_of_terminated k0 (by omega) (hentries h1) hterm1 hactive1 s1).imp fun k1 s2 hk1 => (ends_pure _).mpr ⟨hterm0, hterm1, fun n hn => ?_⟩
    obtain rfl : k1 = n := Option.some.inj hn
    rw [hk1, hk0, Nat.zero_add]

theorem terminated_trim_iff {refs : BufferRefs} {num : ℤ} {P : Prop} (hnum : 0 ≤ num ∧ num ≤ 15)
    (hshort : num < 15 → P) (hfull : num = 15 → (refs.Terminated ↔ P)) :
    (refs.trim (num + 1)).Terminated ↔ P := by
  have hsize : maxRef = 16 := rfl
  rcases lt_or_eq_of_le hnum.2 with hlt | heq
  · refine iff_of_true ⟨(num + 1).toNat, by omega, ?_⟩ (hshort hlt)
    rw [trim_apply, if_pos (by omega)]
  · rw [← hfull heq]
    refine exists_congr fun i => and_congr_right fun hi => ?_
    rw [trim_apply, if_neg (by omega)]

/-- Behind the commands, each list keeps an empty entry or not. -/
theorem ends_reorderPictList (hid : c.OwnIDs) {hdr : AvcSliceHdr} (hfit : slice.ListsFit)
    {old0 old1 : BufferRefs} (h0 : c.StartsWith old0 (c.dpb.initial0 slice.sliceType cur) refs0)
    (h1 : c.StartsWith old1 (c.dpb.initial1 slice.sliceType cur) refs1) (s : σ) :
    Ends (c.dpb.reorderPictList slice hdr refs0 refs1) s fun r _ =>
      (∀ i < maxRef, (r.1 i).uNodeID = uEndOfList ∨ c.dpb.InDpb (r.1 i).uNodeID) ∧
      (∀ i < maxRef, (r.2 i).uNodeID = uEndOfList ∨ c.dpb.InDpb (r.2 i).uNodeID) ∧
      (slice.sliceType = sliceI → ∀ i < maxRef, (r.1 i).uNodeID = uEndOfList) ∧
      (slice.sliceType ≠ sliceB → ∀ i < maxRef, (r.2 i).uNodeID = uEndOfList) ∧
      ((r.1.trim (slice.numRefIdxL0ActiveMinus1 + 1)).Terminated ↔
        c.dpb.KeepsEnd hdr (slice.numRefIdxL0ActiveMinus1 + 1) (c.dpb.initial0 slice.sliceType cur)
          (old0 maxRef).uNodeID (slice.l0.commands (slice.l0.refPicListReorderingFlag ≠ 0))) ∧
      ((r.2.trim (slice.numRefIdxL1ActiveMinus1 + 1)).Terminated ↔
        c.dpb.KeepsEnd hdr (slice.numRefIdxL1ActiveMinus1 + 1) (c.dpb.initial1 slice.sliceType cur)
          (old1 maxRef).uNodeID
          (slice.l1.commands (slice.l1.refPicListReorderingFlag ≠ 0 ∧ slice.sliceType = sliceB))) := by
  have hsize : maxRef = 16 := rfl
  have hshort : ∀ {num : ℤ} {l : List ℕ} {spare : ℕ} {cs : List ListCommand}, num < 15 →
      c.dpb.KeepsEnd hdr (num + 1) l spare cs := fun h => .inl (by omega)
  -- a list without pictures in front of its commands
  have hnone : ∀ {old refs : BufferRefs} {l : List ℕ}, c.StartsWith old l refs → l = [] →
      ∀ i < maxRef, (refs i).uNodeID = uEndOfList := by
    rintro old refs l h rfl i hi
    rw [h.1 i, List.getD_nil]
    unfold BufferRefs.reset
    rw [if_pos hi]
  unfold Dpb.reorderPictList
  rw [ends_bind]
  refine (ends_reorderList hid hfit.clipped.1 hfit.fits0 h0 s).imp fun r0 s1 hr0 => ?_
  rw [ends_bind]
  refine (ends_reorderList hid hfit.clipped.2 (fun h => hfit.fits1 h.1) h1 s1).imp fun r1 s2 hr1 => ?_
  refine (ends_pure _).mpr ⟨hr0.1, hr1.1, fun hI => ?_, fun hB => ?_, ?_, ?_⟩
  · have hkeep : r0 = refs0 := hr0.2.1 fun hflag => hflag (hfit.intra hI)
    have hnil : c.dpb.initial0 slice.sliceType cur = [] := by
      rw [hI]
      rfl
    rw [hkeep]
    exact hnone h0 hnil
  · have hkeep : r1 = refs1 := hr1.2.1 fun huse => hB huse.2
    rw [hkeep]
    exact hnone h1 (if_neg hB)
  · exact terminated_trim_iff hfit.clipped.1 hshort hr0.2.2
  · exact terminated_trim_iff hfit.clipped.2 hshort hr1.2.2

/-- The construction keeps both lists terminated, and counts in them what it is to
count, if and only if there is room for the initial lists and each list keeps an
empty entry. -/
theorem terminatesLists_iff (hid : c.OwnIDs) (hfit : slice.ListsFit) (cur : ℤ) (refs0 refs1 : BufferRefs)
    (s : σ) : c.dpb.TerminatesLists slice cur refs0 refs1 s ↔ ∃ sps d, slice.pSPS = some sps ∧
      c.dpb.pictNumberProcess (slice.hdr sps.toAvcSps) = some d ∧
        d.KeepsLists slice (slice.hdr sps.toAvcSps) cur (refs0 maxRef).uNodeID (refs1 maxRef).uNodeID := by
  obtain ⟨sps, hsps⟩ := Option.isSome_iff_exists.mp hfit.hasSps
  obtain ⟨c', hd, hedits, -⟩ := Dpb.pictNumberProcess_reaches (fun _ => True) c (slice.hdr sps.toAvcSps)
  have hid' : c'.OwnIDs := hedits.keep (fun c c' h he => h.edit he) hid
  have hiff : Ends (c.dpb.constructRefPicList slice cur refs0 refs1) s (fun r _ =>
        r.refs0.Terminated ∧ r.refs1.Terminated ∧ ∀ n, r.numExisting = some n →
          n = r.dpb.existing r.refs0 (slice.numRefIdxL0ActiveMinus1 + 1).toNat +
            r.dpb.existing r.refs1 (slice.numRefIdxL1ActiveMinus1 + 1).toNat) ↔
      c'.dpb.KeepsLists slice (slice.hdr sps.toAvcSps) cur (refs0 maxRef).uNodeID (refs1 maxRef).uNodeID := by
    unfold Dpb.constructRefPicList
    rw [hsps]
    refine Ends.bind_congr (Q := fun a _ => a = sps) (ends_deref.mpr ⟨sps, rfl, rfl⟩) fun a s0 ha => ?_
    subst ha
    rw [hd]
    have hinit := startsWith_initPictList hid' cur slice.sliceType refs0 refs1 s0
    by_cases hroom : c'.dpb.RoomFor slice.sliceType cur
    · refine (hinit.ends hroom).bind_congr fun r0 s1 h0 => ?_
      refine (ends_reorderPictList hid' hfit h0.1 h0.2 s1).bind_congr fun r1 s2 h1 => ?_
      obtain ⟨hentries0, hentries1, hintra, hone, hend0, hend1⟩ := h1
      rw [ends_checkLists_iff hfit.clipped hentries0 hentries1 hintra hone, hend0, hend1]
      exact ⟨fun h => ⟨hroom, h.1, h.2⟩, fun h => ⟨h.list0, h.list1⟩⟩
    · refine iff_of_false (fun h => hroom ?_) fun h => hroom h.room
      exact hinit.of_returns (ends_bind.mp h).returns
  refine hiff.trans ⟨fun h => ⟨sps, c'.dpb, hsps, hd, h⟩, ?_⟩
  rintro ⟨sps', d, hsps', hd', h⟩
  obtain rfl : sps = sps' := Option.some.inj (hsps.symm.trans hsps')
  obtain rfl : c'.dpb = d := Option.some.inj (hd.symm.trans hd')
  exact h

end LinkedDpb

/-! ## Sixteen references -/

instance (d : Dpb) : Decidable d.RoomForP :=
  decidable_of_iff _ d.roomForP_iff.symm

/-- `n` short-term references with the frame numbers 0, 1, … -/
def Op.shortTerms (n : ℕ) : List Op :=
  (List.range n).flatMap fun i => [.insert (.sample i (2 * i) .shortTermRef),
    .markingProcess (.sample 16 (if i = 0 then avcNutVclIdr else 1) i)]

def AvcSpsSyntax.sixteenFrames : AvcSpsSyntax := { AvcSpsSyntax.plain with maxNumRefFrames := 16 }

/-- A P slice with 16 active references and no commands. -/
def AvcSliceSyntax.sixteenActive (frameNum : ℕ) : AvcSliceSyntax :=
  { AvcSliceSyntax.cleared with
    sliceType := sliceP
    nalUnitType := 1
    frameNum := frameNum
    numRefIdxL0ActiveMinus1 := 15
    pSPS := some .sixteenFrames }

theorem AvcSliceSyntax.listsFit_sixteenActive (frameNum : ℕ) : (sixteenActive frameNum).ListsFit :=
  ⟨by simp [RefsClipped, sixteenActive, cleared], fun h => absurd rfl h, fun h => absurd rfl h,
    fun _ => rfl, rfl⟩

namespace LinkedDpb

/-- Fifteen of the entries are set. -/
theorem terminatesLists_fifteen : ∃ d,
    (Dpb.zeroed.init 16 .normal).run (Op.shortTerms 15) = some d ∧
      d.TerminatesLists (.sixteenActive 15) 30 .zeroed .zeroed () := by
  have hrun : ((Dpb.zeroed.init 16 .normal).run (Op.shortTerms 15)).map (fun d =>
      (d.pictNumberProcess ((AvcSliceSyntax.sixteenActive 15).hdr AvcSpsSyntax.sixteenFrames.toAvcSps)).map fun d =>
        decide (d.RoomForP ∧ (d.recent ++ d.others).length = 15)) = some (some true) := by decide +kernel
  obtain ⟨d, hd, hnum⟩ := Option.map_eq_some_iff.mp hrun
  obtain ⟨d', hd', hroom⟩ := Option.map_eq_some_iff.mp hnum
  obtain ⟨hroom, hlen⟩ := of_decide_eq_true hroom
  obtain ⟨c, rfl, hid⟩ := Dpb.ownIDs_of_run (by decide +kernel) hd
  refine ⟨c.dpb, hd, (terminatesLists_iff hid (AvcSliceSyntax.listsFit_sixteenActive 15) 30 _ _ ()).mpr
    ⟨.sixteenFrames, d', rfl, hd', ⟨fun _ => hroom, fun hB => absurd hB (by decide)⟩, .inr ?_, .inl (by decide)⟩⟩
  refine .inl ?_
  change (d'.recent ++ d'.others).length < maxRef
  rw [hlen]
  decide

/-- All sixteen entries are set, and the spare one holds a node as well. -/
theorem not_terminatesLists_sixteen : ∃ d,
    (Dpb.zeroed.init 16 .normal).run (Op.shortTerms 16) = some d ∧
      (AvcSliceSyntax.sixteenActive 0).ListsFit ∧
      ¬d.TerminatesLists (.sixteenActive 0) 32 .zeroed .zeroed () := by
  have hrun : ((Dpb.zeroed.init 16 .normal).run (Op.shortTerms 16)).map (fun d =>
      ((d.constructRefPicList (.sixteenActive 0) 32 .zeroed .zeroed : Checked Unit _) ()).isOk) =
        some false := by decide +kernel
  obtain ⟨d, hd, hstuck⟩ := Option.map_eq_some_iff.mp hrun
  refine ⟨d, hd, AvcSliceSyntax.listsFit_sixteenActive 0, ?_⟩
  rintro ⟨r, s', hends, -⟩
  rw [hends] at hstuck
  cases hstuck

end LinkedDpb

end VcuCodec
