import VcuCodec.DpbEdits

/-!
# The data behind the links

What removing a picture, displaying one and serving the waiting one do to the
fields of the nodes and to the counters, the log and the queue of deleted
pictures.
-/

namespace VcuCodec

/-- A node without its links and its picture ID. -/
def Node.plain (n : Node) : Node := { n.unlinked with uPicID := 0 }

namespace Dpb

variable {d d' : Dpb} {u i : ℕ}

theorem plain_of_unlinked (h : d'.unlinked = d.unlinked) (i : ℕ) :
    (d'.nodes i).plain = (d.nodes i).plain := by
  have hi : (d'.nodes i).unlinked = (d.nodes i).unlinked := congrArg (fun d => d.nodes i) h
  exact (congrArg Node.plain hi : (d'.nodes i).unlinked.plain = (d.nodes i).unlinked.plain)

theorem plain_modNode {f : Node → Node} (hf : ∀ n, (f n).plain = n.plain) :
    ((d.modNode u f).nodes i).plain = (d.nodes i).plain := by
  rw [Dpb.nodes_modNode]
  split
  · next h => rw [hf, h]
  · rfl

/-! ## Serving the waiting picture -/

theorem plain_serveWaitingPicture : (d.serveWaitingPicture.nodes i).plain = (d.nodes i).plain := by
  simp only [Dpb.serveWaitingPicture, Dpb.fillWaitingPicture]
  split_ifs
  · exact plain_modNode fun _ => rfl
  · exact plain_modNode fun _ => rfl
  · rfl

@[simp] theorem uCountRef_serveWaitingPicture : d.serveWaitingPicture.uCountRef = d.uCountRef := by
  simp only [Dpb.serveWaitingPicture, Dpb.fillWaitingPicture]
  split_ifs <;> rfl

@[simp] theorem uNumOutputPic_serveWaitingPicture :
    d.serveWaitingPicture.uNumOutputPic = d.uNumOutputPic := by
  simp only [Dpb.serveWaitingPicture, Dpb.fillWaitingPicture]
  split_ifs <;> rfl

@[simp] theorem log_serveWaitingPicture : d.serveWaitingPicture.log = d.log := by
  simp only [Dpb.serveWaitingPicture, Dpb.fillWaitingPicture]
  split_ifs <;> rfl

@[simp] theorem dlt_serveWaitingPicture : d.serveWaitingPicture.dlt = d.dlt := by
  simp only [Dpb.serveWaitingPicture, Dpb.fillWaitingPicture]
  split_ifs <;> rfl

/-! ## Removing a picture -/

/-- The buffer after `AL_Dpb_Remove` has unlinked and reset the node and before
it serves the waiting picture. -/
def vacate (d : Dpb) (u : ℕ) : Dpb :=
  let n := d.nodes u
  let d := (d.unlinkNode u).releasePicID n.uPicID
  let d := if n.eMarkingFlag ≠ .unusedForRef then d.decCountRef else d
  d.decCountPic.resetNodeInfo u

theorem remove_eq (hu : u ≠ uEndOfList) :
    d.remove u =
      if (d.nodes u).nonExisting then (d.vacate u).serveWaitingPicture
      else (d.vacate u).serveWaitingPicture.deletePic (d.nodes u).uFrmID (d.nodes u).uMvID := by
  rw [Dpb.remove, if_neg hu]
  rfl

theorem nodes_vacate :
    (d.vacate u).nodes i =
      if i = u then ((d.unlinkNode u).nodes u).reset else (d.unlinkNode u).nodes i := by
  simp only [Dpb.vacate]
  split_ifs <;> simp_all [Dpb.resetNodeInfo, Dpb.setIds, Dpb.modNode, Dpb.decCountPic,
    Dpb.decCountRef, Dpb.releasePicID]

theorem plain_remove (hu : u ≠ uEndOfList) :
    ((d.remove u).nodes i).plain =
      if i = u then (d.nodes u).reset.plain else (d.nodes i).plain := by
  have hv : ((d.vacate u).nodes i).plain =
      if i = u then (d.nodes u).reset.plain else (d.nodes i).plain := by
    have hl := plain_of_unlinked (d.unlinkNode_unlinked u)
    rw [nodes_vacate]
    split
    · exact (congrArg (fun n => n.reset.plain) (hl u) :
        ((d.unlinkNode u).nodes u).plain.reset.plain = _)
    · exact hl i
  rw [remove_eq hu, ← hv]
  split
  · exact plain_serveWaitingPicture
  · exact plain_serveWaitingPicture

theorem uCountRef_remove (hu : u ≠ uEndOfList) :
    (d.remove u).uCountRef =
      if (d.nodes u).eMarkingFlag ≠ .unusedForRef then dec8 d.uCountRef else d.uCountRef := by
  have hl : (d.unlinkNode u).uCountRef = d.uCountRef :=
    congrArg (fun d => d.uCountRef) (d.unlinkNode_unlinked u)
  have hv : (d.vacate u).uCountRef =
      if (d.nodes u).eMarkingFlag ≠ .unusedForRef then dec8 d.uCountRef else d.uCountRef := by
    rw [← hl]
    simp only [Dpb.vacate]
    split_ifs <;> rfl
  rw [remove_eq hu, ← hv]
  split
  · exact uCountRef_serveWaitingPicture
  · exact uCountRef_serveWaitingPicture

theorem uNumOutputPic_remove (d : Dpb) (u : ℕ) : (d.remove u).uNumOutputPic = d.uNumOutputPic := by
  by_cases hu : u = uEndOfList
  · rw [Dpb.remove, if_pos hu]
  · have hl : (d.unlinkNode u).uNumOutputPic = d.uNumOutputPic :=
      congrArg (fun d => d.uNumOutputPic) (d.unlinkNode_unlinked u)
    have hv : (d.vacate u).uNumOutputPic = d.uNumOutputPic := by
      rw [← hl]
      simp only [Dpb.vacate]
      split_ifs <;> rfl
    rw [remove_eq hu, ← hv]
    split
    · exact uNumOutputPic_serveWaitingPicture
    · exact uNumOutputPic_serveWaitingPicture

theorem log_remove (hu : u ≠ uEndOfList) :
    (d.remove u).log = d.log ++
      (if (d.nodes u).eMarkingFlag ≠ .unusedForRef ∧ d.uCountRef = 0 then [.counterWrapped]
        else []) ++
      if (d.nodes u).nonExisting then []
        else [.deletePic (d.nodes u).uFrmID (d.nodes u).uMvID] := by
  have hl : (d.unlinkNode u).log = d.log :=
    congrArg (fun d => d.log) (d.unlinkNode_unlinked u)
  have hc : (d.unlinkNode u).uCountRef = d.uCountRef :=
    congrArg (fun d => d.uCountRef) (d.unlinkNode_unlinked u)
  have hv : (d.vacate u).log = d.log ++
      if (d.nodes u).eMarkingFlag ≠ .unusedForRef ∧ d.uCountRef = 0 then [.counterWrapped]
      else [] := by
    rw [← hl, ← hc]
    simp only [Dpb.vacate]
    split_ifs with hm hw hw
    · simp [Dpb.resetNodeInfo, Dpb.setIds, Dpb.modNode, Dpb.decCountPic, Dpb.decCountRef,
        Dpb.releasePicID, hw.2]
    · have h0 : (d.unlinkNode u).uCountRef ≠ 0 := fun h => hw ⟨hm, h⟩
      simp [Dpb.resetNodeInfo, Dpb.setIds, Dpb.modNode, Dpb.decCountPic, Dpb.decCountRef,
        Dpb.releasePicID, h0]
    · exact absurd hw.1 hm
    · simp [Dpb.resetNodeInfo, Dpb.setIds, Dpb.modNode, Dpb.decCountPic, Dpb.releasePicID]
  rw [remove_eq hu, ← hv]
  split
  · rw [log_serveWaitingPicture, List.append_nil]
  · exact congrArg (· ++ [_]) log_serveWaitingPicture

end Dpb

end VcuCodec
