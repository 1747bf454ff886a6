import VcuCodec.DpbLists
import VcuCodec.RingQueues

/-!
# Buffer references

The frame and motion-vector buffers that the pictures of the buffer reference:
each reference taken by an insertion is still held, waits in the queue of
deleted pictures, or has been released, and releases follow the order of the
removals.
-/

namespace VcuCodec

open LinkedLists RingQueues

/-! ## The ledger -/

def Event.frmTaken : Event → Option ℕ
  | .incrementFrmBuf .picture uFrmID => some uFrmID
  | _ => none

def Event.mvTaken : Event → Option ℕ
  | .incrementMvBuf uMvID => some uMvID
  | _ => none

def Event.frmReleased : Event → Option ℕ
  | .decrementFrmBuf .picture uFrmID => some uFrmID
  | _ => none

def Event.mvReleased : Event → Option ℕ
  | .decrementMvBuf uMvID => some uMvID
  | _ => none

def Event.removed : Event → Option (ℕ × ℕ)
  | .deletePic uFrmID uMvID => some (uFrmID, uMvID)
  | _ => none

/-- The references a log records for the pictures of the buffer: those taken,
those of removed pictures, and those released. -/
structure Ledger where
  frmTaken : List ℕ
  mvTaken : List ℕ
  removed : List (ℕ × ℕ)
  frmReleased : List ℕ
  mvReleased : List ℕ

def Ledger.of (log : List Event) : Ledger where
  frmTaken := log.filterMap Event.frmTaken
  mvTaken := log.filterMap Event.mvTaken
  removed := log.filterMap Event.removed
  frmReleased := log.filterMap Event.frmReleased
  mvReleased := log.filterMap Event.mvReleased

/-- The pairs of references taken by one insertion each. -/
def Ledger.taken (l : Ledger) : List (ℕ × ℕ) := l.frmTaken.zip l.mvTaken

/-- The pairs of references released together. -/
def Ledger.released (l : Ledger) : List (ℕ × ℕ) := l.frmReleased.zip l.mvReleased

/-- The queue of deleted pictures, the first removed first. -/
def DltQueue.contents (q : DltQueue) : List (ℕ × ℕ) :=
  (RingQueues.contents q.pDltFrmIDLst frmBufPoolSize q.iDltFrmLstHead q.iNumDltPic).zip
    (RingQueues.contents q.pDltMvIDLst maxDpbSize q.iDltMvLstHead q.iNumDltPic)

/-- The buffers of a picture, if it exists. -/
def Node.bufs (n : Node) : Option (ℕ × ℕ) := if n.nonExisting then none else some (n.uFrmID, n.uMvID)

/-- The ledger and the queue over the buffers of the nodes. -/
structure DpbBufs where
  ledger : Ledger
  dlt : DltQueue
  bufs : ℕ → Option (ℕ × ℕ)

def Dpb.buffers (d : Dpb) : DpbBufs := ⟨.of d.log, d.dlt, fun i => (d.nodes i).bufs⟩

/-! ## Balance -/

/-- The two rings of the queue hold the same number of entries. -/
structure DltQueue.Ok (q : DltQueue) : Prop where
  frmHead : q.iDltFrmLstHead < frmBufPoolSize
  mvHead : q.iDltMvLstHead < maxDpbSize
  frmTail : q.iDltFrmLstTail = (q.iDltFrmLstHead + q.iNumDltPic) % frmBufPoolSize
  mvTail : q.iDltMvLstTail = (q.iDltMvLstHead + q.iNumDltPic) % maxDpbSize

/-- The references taken for the pictures `l` and before them are balanced. -/
structure DpbBufs.Ok (b : DpbBufs) (l : List ℕ) : Prop where
  lenTaken : b.ledger.frmTaken.length = b.ledger.mvTaken.length
  lenReleased : b.ledger.frmReleased.length = b.ledger.mvReleased.length
  matched : b.ledger.taken.Perm (b.ledger.removed ++ l.filterMap b.bufs)
  fifo : b.ledger.removed = b.ledger.released ++ b.dlt.contents
  queue : b.dlt.Ok
  distinct : ((l.filterMap b.bufs ++ b.dlt.contents).map Prod.snd).Nodup
  inRange : ∀ mv ∈ (l.filterMap b.bufs ++ b.dlt.contents).map Prod.snd, mv < maxDpbSize

namespace DltQueue

variable {q : DltQueue} {uFrmID uMvID : ℕ}

@[simp] theorem length_contents : q.contents.length = q.iNumDltPic := by
  simp [DltQueue.contents]

theorem map_snd_contents : q.contents.map Prod.snd =
    RingQueues.contents q.pDltMvIDLst maxDpbSize q.iDltMvLstHead q.iNumDltPic :=
  List.map_snd_zip (by simp)

theorem Ok.push (h : q.Ok) : (q.push uFrmID uMvID).Ok where
  frmHead := h.frmHead
  mvHead := h.mvHead
  frmTail := by
    show (q.iDltFrmLstTail + 1) % frmBufPoolSize = _
    rw [h.frmTail, Nat.mod_add_mod]
    rfl
  mvTail := by
    show (q.iDltMvLstTail + 1) % maxDpbSize = _
    rw [h.mvTail, Nat.mod_add_mod]
    rfl

theorem Ok.contents_push (h : q.Ok) (hn : q.iNumDltPic < maxDpbSize) :
    (q.push uFrmID uMvID).contents = q.contents ++ [(uFrmID, uMvID)] := by
  have hn' : q.iNumDltPic < frmBufPoolSize := by
    simp only [frmBufPoolSize]
    omega
  simp only [DltQueue.contents, DltQueue.push, h.frmTail, h.mvTail]
  rw [RingQueues.contents_push hn', RingQueues.contents_push hn, List.zip_append (by simp)]
  rfl

theorem Ok.pop (h : q.Ok) (hn : q.iNumDltPic ≠ 0) : q.pop.Ok := by
  have hsum : ∀ head, head + q.iNumDltPic = head + 1 + (q.iNumDltPic - 1) := fun head => by omega
  refine ⟨Nat.mod_lt _ (by decide), Nat.mod_lt _ (by decide), ?_, ?_⟩
  · show q.iDltFrmLstTail = ((q.iDltFrmLstHead + 1) % frmBufPoolSize + (q.iNumDltPic - 1)) % _
    rw [h.frmTail, Nat.mod_add_mod, hsum]
  · show q.iDltMvLstTail = ((q.iDltMvLstHead + 1) % maxDpbSize + (q.iNumDltPic - 1)) % _
    rw [h.mvTail, Nat.mod_add_mod, hsum]

theorem Ok.contents_pop (h : q.Ok) (hn : q.iNumDltPic ≠ 0) :
    q.contents = (q.pDltFrmIDLst q.iDltFrmLstHead, q.pDltMvIDLst q.iDltMvLstHead) ::
      q.pop.contents := by
  simp only [DltQueue.contents, DltQueue.pop]
  rw [RingQueues.contents_pop hn, RingQueues.contents_pop hn,
    Nat.mod_eq_of_lt h.frmHead, Nat.mod_eq_of_lt h.mvHead, List.zip_cons_cons]

end DltQueue

namespace DpbBufs.Ok

variable {b b' : DpbBufs} {l l' : List ℕ} {u : ℕ} {x : ℕ × ℕ}

theorem perm (h : b.Ok l) (hp : l'.Perm l) : b.Ok l' := by
  have hb := hp.filterMap b.bufs
  have hall := (hb.append_right b.dlt.contents).map Prod.snd
  exact ⟨h.lenTaken, h.lenReleased, h.matched.trans (hb.symm.append_left _), h.fifo, h.queue,
    hall.nodup_iff.mpr h.distinct, fun mv hm => h.inRange mv (hall.mem_iff.mp hm)⟩

theorem length_le (h : b.Ok l) :
    (l.filterMap b.bufs).length + b.dlt.iNumDltPic ≤ maxDpbSize := by
  have hle := h.distinct.length_le_of_subset fun mv hm => List.mem_range.mpr (h.inRange mv hm)
  simpa using hle

theorem of_same (h : b.Ok l) (hl : b'.ledger = b.ledger) (hd : b'.dlt = b.dlt)
    (hb : l'.filterMap b'.bufs = l.filterMap b.bufs) : b'.Ok l' := by
  refine ⟨?_, ?_, ?_, ?_, hd ▸ h.queue, ?_, ?_⟩
  · rw [hl]
    exact h.lenTaken
  · rw [hl]
    exact h.lenReleased
  · rw [hl, hb]
    exact h.matched
  · rw [hl, hd]
    exact h.fifo
  · rw [hb, hd]
    exact h.distinct
  · rw [hb, hd]
    exact h.inRange

theorem insert (h : b.Ok l) (hmv : x.2 < maxDpbSize)
    (hfree : x.2 ∉ (l.filterMap b.bufs ++ b.dlt.contents).map Prod.snd)
    (hl : b'.ledger = { b.ledger with
      frmTaken := b.ledger.frmTaken ++ [x.1], mvTaken := b.ledger.mvTaken ++ [x.2] })
    (hd : b'.dlt = b.dlt) (hb : l'.filterMap b'.bufs = x :: l.filterMap b.bufs) : b'.Ok l' := by
  refine ⟨?_, ?_, ?_, ?_, hd ▸ h.queue, ?_, ?_⟩
  · rw [hl]
    simp [h.lenTaken]
  · rw [hl]
    exact h.lenReleased
  · have htaken : b'.ledger.taken = b.ledger.taken ++ [x] := by
      rw [hl]
      exact List.zip_append h.lenTaken
    have hremoved : b'.ledger.removed = b.ledger.removed := by rw [hl]
    rw [htaken, hremoved, hb]
    exact (h.matched.append_right [x]).trans
      ((List.perm_append_singleton ..).trans List.perm_middle.symm)
  · rw [hl, hd]
    exact h.fifo
  · rw [hb, hd, List.cons_append, List.map_cons, List.nodup_cons]
    exact ⟨hfree, h.distinct⟩
  · rw [hb, hd, List.cons_append, List.map_cons, List.forall_mem_cons]
    exact ⟨hmv, h.inRange⟩

/-- The references of a picture that leaves go to the queue. -/
theorem remove (h : b.Ok l) (hb : (l.filterMap b.bufs).Perm (x :: l'.filterMap b'.bufs))
    (hl : b'.ledger = { b.ledger with removed := b.ledger.removed ++ [x] })
    (hd : b'.dlt = b.dlt.push x.1 x.2) : b'.Ok l' := by
  have hroom : b.dlt.iNumDltPic < maxDpbSize := by
    have hle := h.length_le
    rw [hb.length_eq, List.length_cons] at hle
    omega
  have hcontents : b'.dlt.contents = b.dlt.contents ++ [x] := by
    rw [hd]
    exact h.queue.contents_push hroom
  have hall : ((l.filterMap b.bufs ++ b.dlt.contents).map Prod.snd).Perm
      ((l'.filterMap b'.bufs ++ b'.dlt.contents).map Prod.snd) := by
    refine List.Perm.map _ ?_
    rw [hcontents, ← List.append_assoc]
    exact (hb.append_right _).trans (List.perm_append_singleton ..).symm
  refine ⟨?_, ?_, ?_, ?_, hd ▸ h.queue.push, hall.nodup_iff.mp h.distinct,
    fun mv hm => h.inRange mv (hall.mem_iff.mpr hm)⟩
  · rw [hl]
    exact h.lenTaken
  · rw [hl]
    exact h.lenReleased
  · have htaken : b'.ledger.taken = b.ledger.taken := by rw [hl]; rfl
    have hremoved : b'.ledger.removed = b.ledger.removed ++ [x] := by rw [hl]
    rw [htaken, hremoved, List.append_assoc]
    exact h.matched.trans (hb.append_left _)
  · have hreleased : b'.ledger.released = b.ledger.released := by rw [hl]; rfl
    have hremoved : b'.ledger.removed = b.ledger.removed ++ [x] := by rw [hl]
    rw [hremoved, hreleased, hcontents, h.fifo, List.append_assoc]

theorem release (h : b.Ok l) (hn : b.dlt.iNumDltPic ≠ 0)
    (hl : b'.ledger = { b.ledger with
      frmReleased := b.ledger.frmReleased ++ [b.dlt.pDltFrmIDLst b.dlt.iDltFrmLstHead]
      mvReleased := b.ledger.mvReleased ++ [b.dlt.pDltMvIDLst b.dlt.iDltMvLstHead] })
    (hd : b'.dlt = b.dlt.pop) (hb : l.filterMap b'.bufs = l.filterMap b.bufs) : b'.Ok l := by
  have hcontents := h.queue.contents_pop hn
  rw [← hd] at hcontents
  have hsub : ((l.filterMap b'.bufs ++ b'.dlt.contents).map Prod.snd).Sublist
      ((l.filterMap b.bufs ++ b.dlt.contents).map Prod.snd) := by
    rw [hb, hcontents]
    exact List.Sublist.map _ (by simp)
  refine ⟨?_, ?_, ?_, ?_, hd ▸ h.queue.pop hn, h.distinct.sublist hsub,
    fun mv hm => h.inRange mv (hsub.subset hm)⟩
  · rw [hl]
    exact h.lenTaken
  · rw [hl]
    simp [h.lenReleased]
  · rw [hl, hb]
    exact h.matched
  · have hreleased : b'.ledger.released = b.ledger.released ++
        [(b.dlt.pDltFrmIDLst b.dlt.iDltFrmLstHead, b.dlt.pDltMvIDLst b.dlt.iDltMvLstHead)] := by
      rw [hl]
      exact List.zip_append h.lenReleased
    have hremoved : b'.ledger.removed = b.ledger.removed := by rw [hl]
    rw [hremoved, hreleased, h.fifo, hcontents, List.append_assoc, List.singleton_append]

end DpbBufs.Ok

/-! ## The ledger after each edit -/

namespace Ledger

variable {log es : List Event}

theorem of_append_of_none (h : ∀ e ∈ es, e.frmTaken = none ∧ e.mvTaken = none ∧
    e.removed = none ∧ e.frmReleased = none ∧ e.mvReleased = none) :
    Ledger.of (log ++ es) = Ledger.of log := by
  have hnone : ∀ {β : Type} (f : Event → Option β), (∀ e ∈ es, f e = none) →
      (log ++ es).filterMap f = log.filterMap f := fun f hf => by
    rw [List.filterMap_append, List.filterMap_eq_nil_iff.mpr hf, List.append_nil]
  simp only [Ledger.of, hnone _ fun e he => (h e he).1, hnone _ fun e he => (h e he).2.1,
    hnone _ fun e he => (h e he).2.2.1, hnone _ fun e he => (h e he).2.2.2.1,
    hnone _ fun e he => (h e he).2.2.2.2]

theorem of_filter : Ledger.of (log.filter Event.ofPictures) = Ledger.of log := by
  have hskip : ∀ {β : Type} (f : Event → Option β), (∀ e, e.ofPictures = false → f e = none) →
      (log.filter Event.ofPictures).filterMap f = log.filterMap f := fun f hf => by
    rw [List.filterMap_filter]
    refine List.filterMap_congr fun e _ => ?_
    split
    · rfl
    · next he => exact (hf e (by simpa using he)).symm
  have hcase : ∀ e : Event, e.ofPictures = false → e.frmTaken = none ∧ e.mvTaken = none ∧
      e.removed = none ∧ e.frmReleased = none ∧ e.mvReleased = none := by
    intro e he
    cases e with
    | incrementFrmBuf holder i => cases holder <;> simp_all [Event.ofPictures, Event.frmTaken,
        Event.mvTaken, Event.removed, Event.frmReleased, Event.mvReleased]
    | decrementFrmBuf holder i => cases holder <;> simp_all [Event.ofPictures, Event.frmTaken,
        Event.mvTaken, Event.removed, Event.frmReleased, Event.mvReleased]
    | outputFrmBuf i => exact ⟨rfl, rfl, rfl, rfl, rfl⟩
    | _ => exact absurd he (by simp [Event.ofPictures])
  simp only [Ledger.of, hskip _ fun e he => (hcase e he).1, hskip _ fun e he => (hcase e he).2.1,
    hskip _ fun e he => (hcase e he).2.2.1, hskip _ fun e he => (hcase e he).2.2.2.1,
    hskip _ fun e he => (hcase e he).2.2.2.2]

end Ledger

section Edits

variable {d d' : Dpb} {u : ℕ}

theorem Dpb.buffers_eq {b : DpbBufs} (hl : Ledger.of d.log = b.ledger) (hd : d.dlt = b.dlt)
    (hb : ∀ i, (d.nodes i).bufs = b.bufs i) : d.buffers = b := by
  obtain ⟨ledger, dlt, bufs⟩ := b
  have hb : (fun i => (d.nodes i).bufs) = bufs := funext hb
  unfold Dpb.buffers
  rw [hl, hd, hb]

theorem Dpb.buffers_of_core (h : d'.core = d.core) : d'.buffers = d.buffers := by
  have hk : ∀ d : Dpb, d.core.buffers = d.buffers := fun d =>
    Dpb.buffers_eq Ledger.of_filter rfl fun _ => rfl
  rw [← hk d', h, hk d]

theorem Dpb.buffers_of_unlinked (h : d'.unlinked = d.unlinked) : d'.buffers = d.buffers :=
  (congrArg Dpb.buffers h : d'.unlinked.buffers = d.unlinked.buffers)

theorem Dpb.buffers_modNode {f : Node → Node} (hf : ∀ n, (f n).bufs = n.bufs) :
    (d.modNode u f).buffers = d.buffers := by
  refine Dpb.buffers_eq rfl rfl fun i => ?_
  rw [Dpb.nodes_modNode]
  split
  · next h => rw [hf, h]; rfl
  · rfl

theorem Dpb.buffers_decCountRef : d.decCountRef.buffers = d.buffers := by
  refine Dpb.buffers_eq ?_ rfl fun _ => rfl
  unfold Dpb.decCountRef
  split
  · exact Ledger.of_append_of_none (by simp [Event.frmTaken, Event.mvTaken, Event.removed,
      Event.frmReleased, Event.mvReleased])
  · rfl

theorem Dpb.buffers_decNumOutputPic : d.decNumOutputPic.buffers = d.buffers := by
  refine Dpb.buffers_eq ?_ rfl fun _ => rfl
  unfold Dpb.decNumOutputPic
  split
  · exact Ledger.of_append_of_none (by simp [Event.frmTaken, Event.mvTaken, Event.removed,
      Event.frmReleased, Event.mvReleased])
  · rfl

theorem Dpb.buffers_addToDisplayList : (d.addToDisplayList u).buffers = d.buffers :=
  Dpb.buffers_eq (Ledger.of_append_of_none (by simp [Event.frmTaken, Event.mvTaken, Event.removed,
    Event.frmReleased, Event.mvReleased])) rfl fun _ => rfl

theorem Dpb.buffers_displayNode : (d.displayNode u).buffers = d.buffers := by
  have hset : ∀ (d : Dpb) p b q b',
      ((((d.setOutput p b).modNode u Node.displayed).setOutput q b').decNumOutputPic).buffers =
        d.buffers := fun d p b q b' =>
    Dpb.buffers_decNumOutputPic.trans
      (Dpb.buffers_modNode (d := d.setOutput p b) (f := Node.displayed) fun _ => rfl)
  unfold Dpb.displayNode
  split_ifs
  · exact hset d d.iLastDisplayedPOC d.bNewSeq _ _
  · exact (hset (d.addToDisplayList u) _ _ _ _).trans Dpb.buffers_addToDisplayList
  · rfl

theorem Dpb.buffers_serveWaitingPicture : d.serveWaitingPicture.buffers = d.buffers := by
  refine Dpb.buffers_eq ?_ dlt_serveWaitingPicture fun i => ?_
  · rw [log_serveWaitingPicture]
    rfl
  · have h := congrArg Node.bufs (Dpb.plain_serveWaitingPicture (d := d) (i := i))
    exact h

theorem Dpb.buffers_clearAll (l : List ℕ) : (d.clearAll l).buffers = d.buffers := by
  suffices h : (l.foldl (fun d i => d.modNode i Node.clearOutput) d).buffers = d.buffers from h
  induction l generalizing d with
  | nil => rfl
  | cons i l ih => exact ih.trans (Dpb.buffers_modNode fun _ => rfl)

theorem Dpb.bufs_remove (hu : u ≠ uEndOfList) {i : ℕ} (hi : i ≠ u) :
    ((d.remove u).nodes i).bufs = (d.nodes i).bufs := by
  have h := Dpb.plain_remove (d := d) (i := i) hu
  rw [if_neg hi] at h
  exact (congrArg Node.bufs h : ((d.remove u).nodes i).plain.bufs = _)

theorem Dpb.dlt_remove (hu : u ≠ uEndOfList) :
    (d.remove u).dlt =
      if (d.nodes u).nonExisting then d.dlt else d.dlt.push (d.nodes u).uFrmID (d.nodes u).uMvID := by
  have hl : (d.unlinkNode u).dlt = d.dlt :=
    congrArg (fun d => d.dlt) (d.unlinkNode_unlinked u)
  have hv : (d.vacate u).dlt = d.dlt := by
    rw [← hl]
    simp only [Dpb.vacate]
    split_ifs <;> rfl
  rw [Dpb.remove_eq hu, ← hv]
  split
  · exact dlt_serveWaitingPicture
  · exact congrArg (DltQueue.push · _ _) dlt_serveWaitingPicture

theorem Dpb.ledger_remove (hu : u ≠ uEndOfList) :
    Ledger.of (d.remove u).log = { Ledger.of d.log with
      removed := (Ledger.of d.log).removed ++ (d.nodes u).bufs.toList } := by
  rw [Dpb.log_remove hu, Node.bufs]
  have hw : Ledger.of (d.log ++ if (d.nodes u).eMarkingFlag ≠ .unusedForRef ∧ d.uCountRef = 0 then
      [.counterWrapped] else []) = Ledger.of d.log := by
    refine Ledger.of_append_of_none ?_
    split <;> simp [Event.frmTaken, Event.mvTaken, Event.removed, Event.frmReleased,
      Event.mvReleased]
  rw [← hw]
  cases hne : (d.nodes u).nonExisting with
  | true => simp
  | false => simp [Ledger.of, Event.frmTaken, Event.mvTaken, Event.removed, Event.frmReleased,
      Event.mvReleased]

theorem Dpb.buffers_of_insert {a : InsertArgs} (hv : a.Valid)
    (h : d'.unlinked = (d.fillNode a).unlinked.countInserted a) :
    d'.buffers.ledger = (if a.nonExisting then d.buffers.ledger else { d.buffers.ledger with
      frmTaken := d.buffers.ledger.frmTaken ++ [a.uFrmID]
      mvTaken := d.buffers.ledger.mvTaken ++ [a.uMvID] }) ∧
    d'.buffers.dlt = d.buffers.dlt ∧
    ∀ i, d'.buffers.bufs i =
      if i = a.uNode then (if a.nonExisting then none else some (a.uFrmID, a.uMvID))
      else d.buffers.bufs i := by
  have hd : d'.buffers = ((d.fillNode a).unlinked.countInserted a).buffers :=
    (congrArg Dpb.buffers h : d'.unlinked.buffers = _)
  have hfill : (d.fillNode a).log = d.log ∧ (d.fillNode a).dlt = d.dlt := by
    simp only [Dpb.fillNode]
    split_ifs <;> exact ⟨rfl, rfl⟩
  have hdlt : ((d.fillNode a).unlinked.countInserted a).dlt = d.dlt := by
    rw [← hfill.2]
    simp only [Dpb.countInserted]
    split_ifs <;> rfl
  rw [hd]
  refine ⟨?_, hdlt, fun i => ?_⟩
  · have hlog : ((d.fillNode a).unlinked.countInserted a).log = d.log ++
        (if a.nonExisting then [] else
          [.incrementFrmBuf .picture a.uFrmID, .incrementMvBuf a.uMvID]) := by
      rw [← hfill.1]
      cases hne : a.nonExisting with
      | true => simp [Dpb.countInserted, hv.noFrm hne, hv.noMv hne, Dpb.unlinked]
      | false =>
        have hfrm := hv.frm hne
        have hmv := hv.mv hne
        have hf : a.uFrmID ≠ uEndOfList := by
          intro e
          simp [e, uEndOfList, frmBufPoolSize, maxDpbSize, maxRef, maxStackSize, recBuf, concealBuf,
            maxBufHeldByNextComponent] at hfrm
        have hm : a.uMvID ≠ uEndOfList := by
          intro e
          simp [e, uEndOfList, maxDpbSize, maxRef, maxStackSize, recBuf, concealBuf] at hmv
        simp [Dpb.countInserted, hf, hm, Dpb.unlinked, Dpb.record]
    change Ledger.of _ = _
    rw [hlog]
    cases hne : a.nonExisting with
    | true => simp [Dpb.buffers]
    | false =>
      simp [Dpb.buffers, Ledger.of, Event.frmTaken, Event.mvTaken, Event.removed,
        Event.frmReleased, Event.mvReleased]
      rfl
  · change (((d.fillNode a).unlinked.countInserted a).nodes i).bufs = _
    rw [Dpb.nodes_countInserted]
    change ((d.fillNode a).nodes i).bufs = _
    rw [Dpb.nodes_fillNode]
    split <;> rfl

end Edits

/-! ## Edits -/

/-- The references of the pictures of the buffer are balanced. -/
def LinkedDpb.Balanced (c : LinkedDpb) : Prop := c.dpb.buffers.Ok (c.order .poc)

namespace LinkedDpb.Balanced

variable {c c' : LinkedDpb} {u : ℕ}

theorem of_buffers (h : c.Balanced) (hd : c'.dpb.buffers = c.dpb.buffers)
    (ho : c'.order .poc = c.order .poc) : c'.Balanced := by
  unfold LinkedDpb.Balanced
  rw [hd, ho]
  exact h

theorem remove (h : c.Balanced) (hu : c.dpb.InDpb u) (hd : c'.dpb = c.dpb.remove u)
    (ho : c'.order .poc = (c.order .poc).erase u) : c'.Balanced := by
  have hmem : u ∈ c.order .poc := c.mem_order.mpr hu
  have hne : u ≠ uEndOfList := Threaded.ne_nil (c.linked.spells .poc) hmem
  have hrest : ((c.order .poc).erase u).filterMap c'.dpb.buffers.bufs =
      ((c.order .poc).erase u).filterMap c.dpb.buffers.bufs := by
    refine List.filterMap_congr fun i hi => ?_
    have hiu : i ≠ u := fun e => (c.linked.spells .poc).nodup.not_mem_erase (e ▸ hi)
    rw [hd]
    exact Dpb.bufs_remove hne hiu
  have hledger := Dpb.ledger_remove (d := c.dpb) hne
  have hdlt := Dpb.dlt_remove (d := c.dpb) hne
  have hperm := List.perm_cons_erase hmem
  unfold LinkedDpb.Balanced
  rw [ho]
  cases hex : (c.dpb.nodes u).nonExisting with
  | true =>
    have hnone : c.dpb.buffers.bufs u = none := if_pos hex
    rw [hex, if_pos rfl] at hdlt
    have hb : (c.dpb.nodes u).bufs = none := hnone
    rw [hb] at hledger
    refine (h.perm hperm.symm).of_same ?_ ?_ ?_
    · rw [hd]
      exact hledger.trans (by simp [Dpb.buffers])
    · rw [hd]
      exact hdlt
    · rw [List.filterMap_cons_none hnone, hrest]
  | false =>
    have hsome : c.dpb.buffers.bufs u = some ((c.dpb.nodes u).uFrmID, (c.dpb.nodes u).uMvID) :=
      if_neg (by simp [hex])
    rw [hex, if_neg (by simp)] at hdlt
    have hb : (c.dpb.nodes u).bufs = _ := hsome
    rw [hb] at hledger
    refine DpbBufs.Ok.remove (x := ((c.dpb.nodes u).uFrmID, (c.dpb.nodes u).uMvID)) h ?_ ?_ ?_
    · rw [hrest, ← List.filterMap_cons_some hsome]
      exact hperm.filterMap _
    · rw [hd]
      exact hledger
    · rw [hd]
      exact hdlt

theorem insert {a : InsertArgs} (h : c.Balanced) (hv : a.Valid)
    (hr : (c.dpb.nodes a.uNode).bIsReset = true)
    (hmv : a.nonExisting = false → c.dpb.MvFree a.uMvID)
    (hd : c'.dpb.unlinked = (c.dpb.fillNode a).unlinked.countInserted a)
    (ho : c'.order = (c.dpb.fillNode a).insertOrder a c.order) : c'.Balanced := by
  have hnot : a.uNode ∉ c.order .poc := fun hm => by
    have hin := (c.mem_order.mp hm).2
    rw [hr] at hin
    exact absurd hin (by simp)
  have hperm : (c'.order .poc).Perm (a.uNode :: c.order .poc) := by
    rw [ho]
    refine List.perm_middle.trans ?_
    rw [List.takeWhile_append_dropWhile]
  obtain ⟨hledger, hdlt, hbufs⟩ := Dpb.buffers_of_insert hv hd
  have hrest : (c.order .poc).filterMap c'.dpb.buffers.bufs =
      (c.order .poc).filterMap c.dpb.buffers.bufs := by
    refine List.filterMap_congr fun i hi => ?_
    have hiu : i ≠ a.uNode := fun e => hnot (e ▸ hi)
    rw [hbufs, if_neg hiu]
  have hself := hbufs a.uNode
  rw [if_pos rfl] at hself
  refine DpbBufs.Ok.perm (l := a.uNode :: c.order .poc) ?_ hperm
  cases hex : a.nonExisting with
  | true =>
    rw [hex, if_pos rfl] at hledger hself
    exact h.of_same hledger hdlt (by rw [List.filterMap_cons_none hself, hrest])
  | false =>
    rw [hex, if_neg (by simp)] at hledger hself
    refine DpbBufs.Ok.insert (x := (a.uFrmID, a.uMvID)) h (hv.mv hex) ?_ hledger hdlt ?_
    · -- the buffer is neither held nor in the queue
      obtain ⟨hheld, hqueue⟩ := hmv hex
      rw [List.map_append, List.mem_append]
      rintro (hm | hm)
      · obtain ⟨x, hx, hxe⟩ := List.mem_map.mp hm
        obtain ⟨i, hi, hbi⟩ := List.mem_filterMap.mp hx
        have hin := c.mem_order.mp hi
        have hbi : (c.dpb.nodes i).bufs = some x := hbi
        unfold Node.bufs at hbi
        split at hbi
        · exact absurd hbi (by simp)
        · next he =>
          exact hheld i hin.1 hin.2 (by simpa using he)
            ((congrArg Prod.snd (Option.some.inj hbi)).trans hxe)
      · have hm : a.uMvID ∈ c.dpb.dlt.contents.map Prod.snd := hm
        rw [DltQueue.map_snd_contents, mem_contents] at hm
        obtain ⟨k, hk, he⟩ := hm
        exact hqueue k hk he
    · rw [List.filterMap_cons_some hself, hrest]

/-- Every edit keeps the balance, unless it inserts a picture with a
motion-vector buffer that is still referenced. -/
theorem edit {ok : Risk → Prop} (hs : ¬ ok .sharedMv) (h : c.Balanced) (he : Edit ok c c') :
    c'.Balanced := by
  cases he with
  | quiet hd ho => exact h.of_buffers (Dpb.buffers_of_core hd) (by rw [ho])
  | setNodeID _ hd ho =>
    exact h.of_buffers (hd ▸ Dpb.buffers_modNode fun _ => rfl) (by rw [ho])
  | remove hu _ hd ho => exact h.remove hu hd (by rw [ho])
  | displayNode _ hd ho => exact h.of_buffers (hd ▸ Dpb.buffers_displayNode) (by rw [ho])
  | @dropRef u _ hd ho =>
    have hk : (c.dpb.modNode u (Node.setMarking .unusedForRef)).buffers = c.dpb.buffers :=
      Dpb.buffers_modNode fun _ => rfl
    exact h.of_buffers (hd ▸ Dpb.buffers_decCountRef.trans hk) (by rw [ho])
  | @giveBackPicID u _ hd ho =>
    have hk : ((c.dpb.releasePicID (c.dpb.nodes u).uPicID).modNode u
        (Node.setPicID undefID)).buffers = c.dpb.buffers :=
      Dpb.buffers_modNode (d := c.dpb.releasePicID _) fun _ => rfl
    exact h.of_buffers (hd ▸ hk) (by rw [ho])
  | remark _ hf _ hd ho =>
    refine h.of_buffers ?_ (by rw [ho])
    rw [hd]
    exact (Dpb.buffers_of_core (Dpb.core_modNode_congr hf)).trans
      (Dpb.buffers_modNode fun _ => rfl)
  | move _ _ _ hd ho =>
    refine h.of_buffers (hd ▸ Dpb.buffers_of_unlinked (Dpb.moveInFrontOf_unlinked _ _ _)) ?_
    rw [ho, Function.update_of_ne (by decide)]
  | restart _ hd ho => exact h.of_buffers (hd ▸ Dpb.buffers_modNode fun _ => rfl) (by rw [ho])
  | insert hv hr _ hmv hd _ ho =>
    exact h.insert hv hr (fun hex => (hmv hex).resolve_right hs) hd ho
  | releaseOneBuf hn hd ho =>
    have hk : c'.dpb.buffers.Ok (c.order .poc) := by
      refine DpbBufs.Ok.release h hn ?_ (hd ▸ rfl) (hd ▸ rfl)
      rw [hd]
      simp [Dpb.buffers, Dpb.releaseOneBuf, Dpb.record, Dpb.setDlt, Ledger.of, Event.frmTaken,
        Event.mvTaken, Event.removed, Event.frmReleased, Event.mvReleased]
      rfl
    unfold LinkedDpb.Balanced
    rw [ho]
    exact hk
  | serve hd ho => exact h.of_buffers (hd ▸ Dpb.buffers_serveWaitingPicture) (by rw [ho])
  | clearAll hd ho => exact h.of_buffers (hd ▸ Dpb.buffers_clearAll _) (by rw [ho])
  | setMarkingFlag _ hd ho =>
    exact h.of_buffers (hd ▸ Dpb.buffers_modNode fun _ => rfl) (by rw [ho])

end LinkedDpb.Balanced

/-! ## Runs -/

/-- The pictures of the buffer. -/
def Dpb.pictures (d : Dpb) : List ℕ := (List.range maxDpbSize).filter fun i => d.InDpb i

/-- Each pair of references taken by an insertion belongs to a picture of the
buffer or to a removed one, the removed ones are released in the order of their
removal, and the others wait in the queue, which has room for them. -/
structure Dpb.BuffersOk (d : Dpb) : Prop where
  lenTaken : (Ledger.of d.log).frmTaken.length = (Ledger.of d.log).mvTaken.length
  lenReleased : (Ledger.of d.log).frmReleased.length = (Ledger.of d.log).mvReleased.length
  matched : (Ledger.of d.log).taken.Perm
    ((Ledger.of d.log).removed ++ d.pictures.filterMap fun i => (d.nodes i).bufs)
  fifo : (Ledger.of d.log).removed = (Ledger.of d.log).released ++ d.dlt.contents
  bound : d.dlt.iNumDltPic ≤ maxDpbSize

theorem LinkedDpb.pictures_perm (c : LinkedDpb) : c.dpb.pictures.Perm (c.order .poc) := by
  refine (List.perm_ext_iff_of_nodup (List.nodup_range.filter _) (c.linked.spells .poc).nodup).mpr
    fun i => ?_
  have hmem : i ∈ c.dpb.pictures ↔ i < maxDpbSize ∧ c.dpb.InDpb i := by
    simp [Dpb.pictures]
  have hlt : i < maxDpbSize ∧ c.dpb.InDpb i ↔ c.dpb.InDpb i := and_iff_right_of_imp And.left
  exact (hmem.trans hlt).trans (c.linked.mem i).symm

theorem LinkedDpb.Balanced.buffersOk {c : LinkedDpb} (h : c.Balanced) : c.dpb.BuffersOk where
  lenTaken := h.lenTaken
  lenReleased := h.lenReleased
  matched := h.matched.trans ((c.pictures_perm.symm.filterMap _).append_left _)
  fifo := h.fifo
  bound := by
    have hle := h.length_le
    change _ + c.dpb.dlt.iNumDltPic ≤ _ at hle
    omega

/-- After a flush, draining the queue releases every reference once. -/
theorem LinkedDpb.Balanced.drained {c : LinkedDpb} (h : c.Balanced) : ∃ d, c.dpb.flush = some d ∧ d.terminate.dlt.iNumDltPic = 0 ∧
      (Ledger.of d.terminate.log).taken.Perm (Ledger.of d.terminate.log).released := by
  obtain ⟨c₁, hd₁, he₁, hnil⟩ := Dpb.flush_reaches (fun _ => False) c
  have h₁ : c₁.Balanced := he₁.keep (fun _ _ h he => h.edit id he) h
  obtain ⟨c₂, hd₂, he₂, ho₂, hnum⟩ := c₁.releaseBufs (fun _ => False) le_rfl
  have h₂ : c₂.Balanced := he₂.keep (fun _ _ h he => h.edit id he) h₁
  have hterm : c₁.dpb.terminate = c₂.dpb := by
    rw [hd₂, Dpb.terminate, Dpb.releaseUnusedBuf]
    by_cases h0 : c₁.dpb.dlt.iNumDltPic = 0
    · simp only [h0, if_true]
    · simp only [if_neg h0, if_true]
  refine ⟨c₁.dpb, hd₁, ?_, ?_⟩
  · rw [hterm, hnum]
    omega
  · rw [hterm]
    have hempty : c₂.dpb.dlt.contents = [] := by
      rw [← List.length_eq_zero_iff, DltQueue.length_contents, hnum]
      omega
    have hm := h₂.matched
    have hf := h₂.fifo
    change _ = _ ++ c₂.dpb.dlt.contents at hf
    rw [hempty, List.append_nil] at hf
    rw [ho₂, hnil, List.filterMap_nil, List.append_nil, hf] at hm
    exact hm

/-- In a run from `AL_Dpb_Init` in which each picture comes with a
motion-vector buffer that is not referenced any more, the references are
balanced in every state, and a flush and the end of decoding release them all. -/
theorem Dpb.buffersOk_of_run (m : Dpb) (uNumRef : ℕ) (eMode : DpbMode) (ops : List Op) (d : Dpb)
    (ha : (m.init uNumRef eMode).RunAllowed [.sharedMv] ops)
    (hr : (m.init uNumRef eMode).run ops = some d) :
    d.BuffersOk ∧ ∃ d', d.flush = some d' ∧ d'.terminate.dlt.iNumDltPic = 0 ∧
      (Ledger.of d'.terminate.log).taken.Perm (Ledger.of d'.terminate.log).released := by
  have hbase : (LinkedDpb.init m uNumRef eMode).Balanced := by
    refine ⟨rfl, rfl, .rfl, rfl, ⟨Nat.zero_lt_succ _, Nat.zero_lt_succ _, rfl, rfl⟩, List.nodup_nil, ?_⟩
    intro mv hmv
    exact absurd hmv List.not_mem_nil
  obtain ⟨c, rfl, hc⟩ := Dpb.run_keeps (c := LinkedDpb.init m uNumRef eMode)
    (J := LinkedDpb.Balanced) (fun c c' h he => h.edit (by simp) he) hbase ha hr
  exact ⟨hc.buffersOk, hc.drained⟩

theorem Dpb.buffersOk_threeRefs : ∃ d : Dpb, d.BuffersOk ∧ ∃ d', d.flush = some d' ∧
    d'.terminate.dlt.iNumDltPic = 0 ∧
      (Ledger.of d'.terminate.log).taken.Perm (Ledger.of d'.terminate.log).released := by
  have hsome : ((Dpb.zeroed.init 4 .normal).run
      (Op.threeRefs [6, 3, 0] [0] [1, 0] ++ [.remove 1, .endDecoding 1])).isSome = true := by
    decide +kernel
  obtain ⟨d, hd⟩ := Option.isSome_iff_exists.mp hsome
  exact ⟨d, Dpb.buffersOk_of_run .zeroed 4 .normal _ d (by decide +kernel) hd⟩

/-- One picture inserted and removed again and again, without the end of a decoding. -/
def Op.insertRemove (n : ℕ) : List Op :=
  (List.range n).flatMap fun _ => [.insert (.sample 0 0 .shortTermRef), .remove 0]

/-- The queue of deleted pictures holds more entries than its array. -/
theorem Dpb.not_buffersOk_insertRemove :
    (Dpb.zeroed.init 4 .normal).RunAllowed [] (Op.insertRemove 35) ∧
    ∃ d, (Dpb.zeroed.init 4 .normal).run (Op.insertRemove 35) = some d ∧ ¬ d.BuffersOk := by
  refine ⟨by decide +kernel, ?_⟩
  have hrun : ((Dpb.zeroed.init 4 .normal).run (Op.insertRemove 35)).map
      (fun d => d.dlt.iNumDltPic) = some 35 := by decide +kernel
  obtain ⟨d, hr, hd⟩ := Option.map_eq_some_iff.mp hrun
  refine ⟨d, hr, fun h => ?_⟩
  have hbound := h.bound
  rw [hd] at hbound
  exact absurd hbound (by decide)

end VcuCodec
