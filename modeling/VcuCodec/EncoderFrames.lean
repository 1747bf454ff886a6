import VcuCodec.EncoderCtx
import Mathlib.Tactic.Ring
import Mathlib.Data.List.Perm.Subperm
import Mathlib.Data.List.Nodup

/-!
# The frames in flight in the encoder

A frame in flight holds a picture info of the pool, a permit of the semaphore, an
entry of the source table and a reference on its source buffer.  When the scheduler
refuses a frame only the last two are given back.
-/

namespace VcuCodec

/-- The source buffers in the source table. -/
def sourcesIn (t : List (Option (ℕ × ℕ))) : List ℕ := t.filterMap (·.map Prod.fst)

/-! ## The source table -/

section SourceTable

variable {t t' : List (Option (ℕ × ℕ))} {pSrc pFI : ℕ}

@[simp] theorem sourcesIn_nil : sourcesIn [] = [] := rfl

@[simp] theorem sourcesIn_none : sourcesIn (none :: t) = sourcesIn t := rfl

@[simp] theorem sourcesIn_some {e : ℕ × ℕ} : sourcesIn (some e :: t) = e.1 :: sourcesIn t := rfl

@[simp] theorem sourcesIn_replicate {n : ℕ} : sourcesIn (List.replicate n none) = [] := by
  induction n with
  | zero => rfl
  | succ n ih => rw [List.replicate_succ, sourcesIn_none, ih]

@[simp] theorem sourcesIn_append : sourcesIn (t ++ t') = sourcesIn t ++ sourcesIn t' :=
  List.filterMap_append

theorem count_one {x y : ℕ} : [y].count x = if x = y then 1 else 0 := by
  by_cases h : x = y
  · rw [h, List.count_singleton_self, if_pos rfl]
  · rw [if_neg h, List.count_eq_zero_of_not_mem (by simpa using h)]

theorem addSourceSent_perm (h : addSourceSent pSrc pFI t = some t') :
    (sourcesIn t').Perm (pSrc :: sourcesIn t) ∧ t'.length = t.length := by
  induction t generalizing t' with
  | nil => exact absurd h (by simp [addSourceSent])
  | cons e t ih =>
    cases e with
    | none =>
      obtain rfl := Option.some.inj h
      exact ⟨List.Perm.refl _, rfl⟩
    | some e =>
      obtain ⟨u, hu, rfl⟩ := Option.map_eq_some_iff.mp h
      obtain ⟨hperm, hlen⟩ := ih hu
      exact ⟨(hperm.cons e.1).trans (List.Perm.swap _ _ _), by rw [List.length_cons, hlen]; rfl⟩

theorem addSourceSent_isSome (pSrc pFI : ℕ) (h : (sourcesIn t).length < t.length) :
    (addSourceSent pSrc pFI t).isSome := by
  induction t with
  | nil => exact absurd h (by simp)
  | cons e t ih =>
    cases e with
    | none => rfl
    | some e =>
      rw [addSourceSent, Option.isSome_map]
      apply ih
      simpa using h

theorem removeSourceSent_perm (h : removeSourceSent pSrc t = some t') :
    (sourcesIn t).Perm (pSrc :: sourcesIn t') ∧ t'.length = t.length := by
  induction t generalizing t' with
  | nil => exact absurd h (by simp [removeSourceSent])
  | cons e t ih =>
    cases e with
    | none =>
      obtain ⟨u, hu, rfl⟩ := Option.map_eq_some_iff.mp h
      obtain ⟨hperm, hlen⟩ := ih hu
      exact ⟨hperm, by rw [List.length_cons, hlen]; rfl⟩
    | some e =>
      rw [removeSourceSent] at h
      split at h
      · next he =>
        obtain rfl := Option.some.inj h
        rw [sourcesIn_some, he]
        exact ⟨List.Perm.refl _, rfl⟩
      · obtain ⟨u, hu, rfl⟩ := Option.map_eq_some_iff.mp h
        obtain ⟨hperm, hlen⟩ := ih hu
        exact ⟨(hperm.cons e.1).trans (List.Perm.swap _ _ _), by rw [List.length_cons, hlen]; rfl⟩

theorem removeSourceSent_isSome (h : pSrc ∈ sourcesIn t) : (removeSourceSent pSrc t).isSome := by
  induction t with
  | nil => exact absurd h List.not_mem_nil
  | cons e t ih =>
    cases e with
    | none =>
      rw [removeSourceSent, Option.isSome_map]
      exact ih h
    | some e =>
      rw [removeSourceSent]
      split
      · rfl
      · next he =>
        rw [Option.isSome_map]
        exact ih ((List.mem_cons.mp h).resolve_left (Ne.symm he))

theorem removeSourceSent_replicate {n : ℕ} {e : ℕ × ℕ} :
    removeSourceSent e.1 (List.replicate n none ++ some e :: t) =
      some (List.replicate (n + 1) none ++ t) := by
  induction n with
  | zero => simp [removeSourceSent]
  | succ n ih =>
    rw [List.replicate_succ, List.cons_append, removeSourceSent, ih]
    rfl

end SourceTable

/-! ## References -/

namespace EncCtx

variable {c c' : EncCtx} {u v : RefUse} {b x : ℕ}

theorem ref_refs : (c.ref u b).refs v x = c.refs v x + if v = u ∧ x = b then 1 else 0 := by
  unfold ref
  split <;> simp [*]

theorem unref_refs : (c.unref u b).refs v x = c.refs v x - if v = u ∧ x = b then 1 else 0 := by
  unfold unref
  split <;> simp [*]

theorem refQpTable_eq (c : EncCtx) (pQpTable : Option ℕ) :
    c.refQpTable pQpTable = { c with refs := (c.refQpTable pQpTable).refs } ∧
      (∀ x, (c.refQpTable pQpTable).refs .stream x = c.refs .stream x) ∧
      ∀ x, (c.refQpTable pQpTable).refs .source x = c.refs .source x := by
  cases pQpTable with
  | none => exact ⟨rfl, fun x => rfl, fun x => rfl⟩
  | some q => exact ⟨rfl, fun x => by simp [refQpTable, ref_refs], fun x => by simp [refQpTable, ref_refs]⟩

theorem unrefQpTable_eq (c : EncCtx) (pQpTable : Option ℕ) :
    c.unrefQpTable pQpTable = { c with refs := (c.unrefQpTable pQpTable).refs } ∧
      (∀ x, (c.unrefQpTable pQpTable).refs .stream x = c.refs .stream x) ∧
      ∀ x, (c.unrefQpTable pQpTable).refs .source x = c.refs .source x := by
  cases pQpTable with
  | none => exact ⟨rfl, fun x => rfl, fun x => rfl⟩
  | some q =>
    exact ⟨rfl, fun x => by simp [unrefQpTable, unref_refs],
      fun x => by simp [unrefQpTable, unref_refs]⟩

theorem releaseSource_eq {pSrc pFI : ℕ} (h : c.releaseSource pSrc pFI = some c') :
    ∃ t, removeSourceSent pSrc c.SourceSent = some t ∧
      c' = { c with SourceSent := t, refs := c'.refs } ∧
      (∀ x, c'.refs .stream x = c.refs .stream x) ∧
      ∀ x, c'.refs .source x = c.refs .source x - if x = pSrc then 1 else 0 := by
  obtain ⟨t, ht, h⟩ := Option.bind_eq_some_iff.mp h
  obtain ⟨hc, hstream, hsource⟩ := unrefQpTable_eq
    (({ c with SourceSent := t } : EncCtx).unref .source pSrc) (c.Pool pFI)
  rw [← Option.some.inj h]
  refine ⟨t, ht, hc, ?_, ?_⟩
  · intro x
    refine (hstream x).trans ?_
    simp [unref_refs]
  · intro x
    refine (hsource x).trans ?_
    simp [unref_refs]

theorem releaseSource_isSome {pSrc : ℕ} (pFI : ℕ) (h : pSrc ∈ sourcesIn c.SourceSent) :
    (c.releaseSource pSrc pFI).isSome := by
  obtain ⟨t, ht⟩ := Option.isSome_iff_exists.mp (removeSourceSent_isSome h)
  unfold releaseSource
  rw [ht]
  rfl

/-- A call that returns false before it takes anything, the end of the stream, and a
frame that the scheduler takes or refuses. -/
theorem process_cases {pFrame pQpTable : Option ℕ} {canBeUsed encoded bRet : Bool}
    {frame : Option EncFrame}
    (h : c.process pFrame pQpTable canBeUsed encoded = some (bRet, c', frame)) :
    (c.refuses pFrame pQpTable canBeUsed = true ∧ bRet = false ∧ c' = c ∧ frame = none) ∨
    (pFrame = none ∧ bRet = encoded ∧ c' = { c with bEndOfStreamReceived := true } ∧ frame = none) ∨
    ∃ pSrc iCurPool ids t, c.refuses pFrame pQpTable canBeUsed = false ∧ pFrame = some pSrc ∧
      bRet = encoded ∧ c.iPoolIds = iCurPool :: ids ∧
      c' = { c with
        PendingEncodings := c.PendingEncodings - 1
        iPoolIds := ids
        Pool := Function.update c.Pool iCurPool pQpTable
        SourceSent := t
        refs := c'.refs } ∧
      t.length = c.SourceSent.length ∧ (∀ x, c'.refs .stream x = c.refs .stream x) ∧
      ((encoded = true ∧ frame = some ⟨iCurPool, pSrc⟩ ∧
          (sourcesIn t).Perm (pSrc :: sourcesIn c.SourceSent) ∧
          ∀ x, c'.refs .source x = c.refs .source x + if x = pSrc then 1 else 0) ∨
        (encoded = false ∧ frame = none ∧ (sourcesIn t).Perm (sourcesIn c.SourceSent) ∧
          ∀ x, c'.refs .source x = c.refs .source x)) := by
  unfold process at h
  split at h
  · next hr =>
    obtain ⟨rfl, rfl, rfl⟩ : false = bRet ∧ c = c' ∧ none = frame := by simpa using h
    exact .inl ⟨hr, rfl, rfl, rfl⟩
  next hr =>
  split at h
  · next =>
    obtain ⟨rfl, rfl, rfl⟩ : encoded = bRet ∧ _ = c' ∧ none = frame := by simpa using h
    exact .inr (.inl ⟨rfl, rfl, rfl, rfl⟩)
  next pSrc =>
  obtain ⟨iCurPool, hid, h⟩ := Option.bind_eq_some_iff.mp h
  obtain ⟨ids, hids⟩ := List.head?_eq_some_iff.mp hid
  dsimp only at h
  obtain ⟨t, ht, h⟩ := Option.bind_eq_some_iff.mp h
  obtain ⟨hadd, haddlen⟩ := addSourceSent_perm ht
  obtain ⟨hcq, hstream, hsource⟩ := refQpTable_eq { c with
    PendingEncodings := c.PendingEncodings - 1
    iPoolIds := c.iPoolIds.tail
    Pool := Function.update c.Pool iCurPool pQpTable } pQpTable
  generalize refQpTable _ pQpTable = cq at h hadd haddlen hcq hstream hsource
  dsimp only at hcq hstream hsource
  have hSourceSent : (cq.ref .source pSrc).SourceSent = c.SourceSent := by rw [hcq]; rfl
  rw [hSourceSent] at hadd haddlen
  have hrefs : ∀ x, (cq.ref .source pSrc).refs .source x =
      c.refs .source x + if x = pSrc then 1 else 0 := by
    intro x
    rw [ref_refs, hsource]
    simp
  have hstreams : ∀ x, (cq.ref .source pSrc).refs .stream x = c.refs .stream x := by
    intro x
    rw [ref_refs, hstream]
    simp
  refine .inr (.inr ⟨pSrc, iCurPool, ids, ?_⟩)
  split at h
  · next henc =>
    obtain ⟨rfl, rfl, rfl⟩ : true = bRet ∧ _ = c' ∧ some _ = frame := by simpa using h
    refine ⟨t, by simpa using hr, rfl, henc.symm, hids, ?_, haddlen, hstreams,
      .inl ⟨henc, rfl, hadd, hrefs⟩⟩
    rw [hcq]
    unfold ref
    rw [hids]
    rfl
  · next henc =>
    obtain ⟨c₁, hrel, h⟩ := Option.bind_eq_some_iff.mp h
    obtain ⟨rfl, rfl, rfl⟩ : false = bRet ∧ c₁ = c' ∧ none = frame := by simpa using h
    obtain ⟨u, hu, hc, hrel1, hrel2⟩ := releaseSource_eq hrel
    obtain ⟨hrem, hremlen⟩ := removeSourceSent_perm hu
    refine ⟨u, by simpa using hr, rfl, by simpa using henc, hids, ?_, hremlen.trans haddlen, ?_,
      .inr ⟨by simpa using henc, rfl, ?_, ?_⟩⟩
    · rw [hc, hcq]
      unfold ref
      rw [hids]
      rfl
    · intro x
      rw [hrel1]
      exact hstreams x
    · exact (List.perm_cons pSrc).mp (hrem.symm.trans hadd)
    · intro x
      rw [hrel2]
      dsimp only
      rw [hrefs]
      exact add_sub_cancel_right _ _

theorem giveIdBackToPool_eq (c : EncCtx) (iPoolID : ℕ) :
    c.giveIdBackToPool iPoolID = { c with iPoolIds := (c.giveIdBackToPool iPoolID).iPoolIds } ∧
      (c.giveIdBackToPool iPoolID).iPoolIds =
        if c.iPoolIds.length < encMaxCmd then c.iPoolIds ++ [iPoolID] else c.iPoolIds := by
  unfold giveIdBackToPool
  split
  · exact ⟨rfl, rfl⟩
  · exact ⟨rfl, rfl⟩

/-- The status takes the oldest stream buffer; that of the last slice also ends the
frame. -/
theorem endEncoding_cases {pPicStatus : EncPicStatus} {streamId : ℕ}
    (h : c.endEncoding pPicStatus streamId = some c') :
    ∃ pStream, streamId < alMaxStreamBuffer ∧ c.tLayerCtx.iCurStreamRecv = streamId ∧
      c.tLayerCtx.StreamSent streamId = some pStream ∧
      c'.tLayerCtx = { c.tLayerCtx with
        iCurStreamRecv := (c.tLayerCtx.iCurStreamRecv + 1) % alMaxStreamBuffer } ∧
      c'.callbacks = c.callbacks ++ [(some pStream, some pPicStatus.SrcHandle)] ∧ c'.Pool = c.Pool ∧
      (∀ x, c'.refs .stream x = c.refs .stream x - if x = pStream then 1 else 0) ∧
      ((pPicStatus.bIsLastSlice = false ∧ c'.SourceSent = c.SourceSent ∧ c'.iPoolIds = c.iPoolIds ∧
          c'.PendingEncodings = c.PendingEncodings ∧ ∀ x, c'.refs .source x = c.refs .source x) ∨
        (pPicStatus.bIsLastSlice = true ∧
          removeSourceSent pPicStatus.SrcHandle c.SourceSent = some c'.SourceSent ∧
          c'.iPoolIds = (if c.iPoolIds.length < encMaxCmd then c.iPoolIds ++ [pPicStatus.UserParam]
            else c.iPoolIds) ∧
          c'.PendingEncodings = c.PendingEncodings + 1 ∧
          ∀ x, c'.refs .source x = c.refs .source x - if x = pPicStatus.SrcHandle then 1 else 0)) := by
  unfold endEncoding at h
  split at h
  case isFalse => exact absurd h (by simp)
  next hid =>
  dsimp only at h
  obtain ⟨pStream, hstream, h⟩ := Option.bind_eq_some_iff.mp h
  refine ⟨pStream, hid.1, hid.2, hstream, ?_⟩
  split at h
  · next hlast =>
    obtain ⟨c₂, hrel, h⟩ := Option.bind_eq_some_iff.mp h
    obtain ⟨t, ht, hc₂, hrel1, hrel2⟩ := releaseSource_eq hrel
    dsimp only at ht hrel1 hrel2
    rw [Option.bind_eq_bind, Option.bind_some] at h
    rw [← Option.some.inj h]
    obtain ⟨hgive, hids⟩ := giveIdBackToPool_eq c₂ pPicStatus.UserParam
    rw [hgive, hids]
    rw [hc₂] at hrel1 hrel2 ⊢
    refine ⟨rfl, rfl, rfl, ?_, .inr ⟨hlast, ht, rfl, rfl, ?_⟩⟩
    · intro x
      rw [unref_refs]
      dsimp only at hrel1 ⊢
      rw [hrel1]
      simp
    · intro x
      rw [unref_refs]
      dsimp only at hrel2 ⊢
      rw [hrel2]
      simp
  · next hlast =>
    rw [Option.bind_eq_bind, Option.bind_some] at h
    rw [← Option.some.inj h]
    refine ⟨rfl, rfl, rfl, fun x => by simp [unref_refs], .inl ⟨by simpa using hlast, rfl, rfl, rfl, ?_⟩⟩
    intro x
    simp [unref_refs]

/-! ## The end of the channel -/

/-- The stream buffers of the ring are given back in their order. -/
theorem foldlM_releaseStream {l : List (Option ℕ)} (h : l.foldlM releaseStream c = some c') :
    ∃ ps : List ℕ, l = ps.map some ∧
      c' = { c with
        callbacks := c.callbacks ++ ps.map fun p => (some p, none)
        refs := c'.refs } ∧
      (∀ x, c'.refs .stream x = c.refs .stream x - ps.count x) ∧
      ∀ x, c'.refs .source x = c.refs .source x := by
  induction l generalizing c with
  | nil =>
    obtain rfl : c = c' := by simpa using h
    exact ⟨[], rfl, by simp, fun x => by simp, fun x => rfl⟩
  | cons e l ih =>
    rw [List.foldlM_cons] at h
    obtain ⟨c₁, h₁, h⟩ := Option.bind_eq_some_iff.mp h
    obtain ⟨p, rfl, h₁⟩ := Option.bind_eq_some_iff.mp h₁
    obtain rfl := Option.some.inj h₁
    obtain ⟨ps, rfl, hc, hstream, hsource⟩ := ih h
    refine ⟨p :: ps, rfl, ?_, ?_, ?_⟩
    · rw [hc]
      simp [unref]
    · intro x
      rw [hstream, unref_refs, List.count_cons]
      by_cases hx : x = p
      · simp [hx]
        omega
      · simp [hx, Ne.symm hx]
    · intro x
      rw [hsource, unref_refs]
      simp

/-- The entries of the source table are freed one after the other. -/
theorem foldlM_releaseSourceAt {n : ℕ} (hn : n ≤ c.SourceSent.length) :
    ∃ c', (List.range n).foldlM releaseSourceAt c = some c' ∧
      c' = { c with
        SourceSent := List.replicate n none ++ c.SourceSent.drop n
        callbacks := c.callbacks ++ (sourcesIn (c.SourceSent.take n)).map fun p => (none, some p)
        refs := c'.refs } ∧
      (∀ x, c'.refs .stream x = c.refs .stream x) ∧
      ∀ x, c'.refs .source x = c.refs .source x - (sourcesIn (c.SourceSent.take n)).count x := by
  induction n with
  | zero => exact ⟨c, rfl, by simp, fun x => rfl, fun x => by simp⟩
  | succ n ih =>
    obtain ⟨c₁, hrun, hc₁, hstream, hsource⟩ := ih (by omega)
    have hlt : n < c.SourceSent.length := hn
    have hdrop : c.SourceSent.drop n = c.SourceSent[n] :: c.SourceSent.drop (n + 1) :=
      List.drop_eq_getElem_cons hlt
    have htake : c.SourceSent.take (n + 1) = c.SourceSent.take n ++ [c.SourceSent[n]] :=
      (List.take_append_getElem hlt).symm
    have hentry : c₁.SourceSent[n]? = some c.SourceSent[n] := by
      rw [hc₁]
      dsimp only
      rw [List.getElem?_append_right (by simp), List.length_replicate, Nat.sub_self, hdrop]
      rfl
    rw [List.range_succ, List.foldlM_append, hrun]
    simp only [Option.bind_eq_bind, Option.bind_some, List.foldlM_cons, List.foldlM_nil]
    rw [htake]
    unfold releaseSourceAt
    rw [hentry]
    cases he : c.SourceSent[n] with
    | none =>
      refine ⟨c₁, rfl, ?_, hstream, ?_⟩
      · rw [hc₁, hdrop, he]
        simp [sourcesIn, List.replicate_succ']
      · intro x
        rw [hsource]
        simp [sourcesIn]
    | some e =>
      have hrem : removeSourceSent e.1 c₁.SourceSent =
          some (List.replicate (n + 1) none ++ c.SourceSent.drop (n + 1)) := by
        rw [hc₁]
        dsimp only
        rw [hdrop, he, removeSourceSent_replicate]
      have hmem : e.1 ∈ sourcesIn c₁.SourceSent :=
        (removeSourceSent_perm hrem).1.symm.mem_iff.mp List.mem_cons_self
      obtain ⟨c₂, hc₂⟩ := Option.isSome_iff_exists.mp (releaseSource_isSome e.2
        (c := { c₁ with callbacks := c₁.callbacks ++ [(none, some e.1)] }) hmem)
      obtain ⟨t, ht, hrec, hrel1, hrel2⟩ := releaseSource_eq hc₂
      obtain rfl := Option.some.inj (hrem.symm.trans ht)
      refine ⟨c₂, ?_, ?_, ?_, ?_⟩
      · show EncCtx.releaseSource _ e.1 e.2 >>= some = _
        rw [hc₂]
        rfl
      · rw [hrec, hc₁]
        simp [sourcesIn]
      · intro x
        exact (hrel1 x).trans (hstream x)
      · intro x
        rw [hrel2]
        dsimp only
        rw [hsource]
        have hone : (sourcesIn (c.SourceSent.take n ++ [some e])).count x =
            (sourcesIn (c.SourceSent.take n)).count x + if x = e.1 then 1 else 0 := by
          rw [sourcesIn_append, List.count_append, sourcesIn_some, sourcesIn_nil, count_one]
        rw [hone]
        push_cast
        ring

end EncCtx

/-! ## Conservation -/

/-- Pool, semaphore and source table are the same. -/
structure EncCtx.SameFrames (c c' : EncCtx) : Prop where
  iPoolIds : c.iPoolIds = c'.iPoolIds
  Pool : c.Pool = c'.Pool
  PendingEncodings : c.PendingEncodings = c'.PendingEncodings
  SourceSent : c.SourceSent = c'.SourceSent

theorem EncCtx.putStreamBuffer_same (c : EncCtx) (pStream size : ℕ) :
    c.SameFrames (c.putStreamBuffer pStream size).2.1 ∧
      ∀ b, (c.putStreamBuffer pStream size).2.1.refs .source b = c.refs .source b := by
  unfold putStreamBuffer
  dsimp only
  split
  · exact ⟨⟨rfl, rfl, rfl, rfl⟩, fun b => by simp [ref_refs]⟩
  · exact ⟨⟨rfl, rfl, rfl, rfl⟩, fun b => by simp [ref_refs]⟩

namespace EncoderUse

/-- The frames in flight account for what is missing in the pool and the semaphore and
for what is in the source table. -/
structure FramesKept (s : EncoderUse) : Prop where
  pool : s.alive = true →
    (s.ctx.iPoolIds ++ s.frames.map (·.UserParam)).Perm (List.range encMaxCmd)
  permits : s.alive = true → s.ctx.PendingEncodings + s.frames.length = encMaxCmd - 1
  table : (sourcesIn s.ctx.SourceSent).Perm (s.frames.map (·.SrcHandle))
  held : ∀ b, s.ctx.refs .source b = (s.frames.map (·.SrcHandle)).count b
  unchanged : ∀ p ∈ s.refusedFrames, p.1.SameFrames p.2

/-- The condition: the scheduler refuses no frame. -/
def Encoded (s : EncoderUse) : EncoderOp → Prop
  | .process pFrame pQpTable canBeUsed encoded =>
      s.ctx.refuses pFrame pQpTable canBeUsed = true ∨ pFrame = none ∨ encoded = true
  | _ => True

instance (s : EncoderUse) : ∀ op, Decidable (s.Encoded op)
  | .process _ _ _ _ => inferInstanceAs (Decidable (_ ∨ _))
  | .putStreamBuffer _ _ _ => isTrue trivial
  | .endEncoding _ _ => isTrue trivial
  | .endOfStream => isTrue trivial
  | .destroy => isTrue trivial

/-- What every call keeps; `lost` is the number of frames that the scheduler refused. -/
structure FramesInv (s : EncoderUse) (lost : ℕ) : Prop where
  nodup : s.alive = true → (s.ctx.iPoolIds ++ s.frames.map (·.UserParam)).Nodup
  lt : s.alive = true → ∀ i ∈ s.ctx.iPoolIds ++ s.frames.map (·.UserParam), i < encMaxCmd
  ids : s.alive = true → s.ctx.iPoolIds.length = s.ctx.PendingEncodings + 1
  permits : s.alive = true → s.ctx.PendingEncodings + s.frames.length + lost = encMaxCmd - 1
  length : s.ctx.SourceSent.length = alMaxSourceBuffer
  table : (sourcesIn s.ctx.SourceSent).Perm (s.frames.map (·.SrcHandle))
  held : ∀ b, s.ctx.refs .source b = (s.frames.map (·.SrcHandle)).count b
  unchanged : lost = 0 → ∀ p ∈ s.refusedFrames, p.1.SameFrames p.2

variable {s s' : EncoderUse} {lost : ℕ}

theorem FramesInv.kept (h : s.FramesInv 0) : s.FramesKept where
  pool ha := by
    have hids := h.ids ha
    have hpermits := h.permits ha
    have hlen : (s.ctx.iPoolIds ++ s.frames.map (·.UserParam)).length = encMaxCmd := by
      rw [List.length_append, List.length_map]
      unfold encMaxCmd at *
      omega
    apply List.Subperm.perm_of_length_le
    · exact (h.nodup ha).subperm fun i hi => List.mem_range.mpr (h.lt ha i hi)
    · rw [List.length_range, hlen]
  permits := h.permits
  table := h.table
  held := h.held
  unchanged := h.unchanged rfl

theorem start_framesInv (bQpTableRequired : Bool) : (start bQpTableRequired).FramesInv 0 where
  nodup _ := by
    show (List.range encMaxCmd ++ []).Nodup
    decide
  lt _ := by
    show ∀ i ∈ List.range encMaxCmd ++ [], i < encMaxCmd
    decide
  ids _ := rfl
  permits _ := rfl
  length := List.length_replicate
  table := by
    show (sourcesIn (List.replicate alMaxSourceBuffer none)).Perm []
    rw [sourcesIn_replicate]
  held _ := rfl
  unchanged _ _ h := absurd h List.not_mem_nil

/-- What does not touch the frames keeps the invariant. -/
theorem FramesInv.of_same (h : s.FramesInv lost) (hctx : s.ctx.SameFrames s'.ctx)
    (hrefs : ∀ b, s'.ctx.refs .source b = s.ctx.refs .source b) (halive : s'.alive = s.alive)
    (hframes : s'.frames = s.frames)
    (hrefused : ∀ p ∈ s'.refusedFrames, p ∈ s.refusedFrames ∨ p.1.SameFrames p.2) :
    s'.FramesInv lost := by
  refine ⟨?_, ?_, ?_, ?_, ?_, ?_, ?_, ?_⟩
  · rw [halive, hframes, ← hctx.iPoolIds]
    exact h.nodup
  · rw [halive, hframes, ← hctx.iPoolIds]
    exact h.lt
  · rw [halive, ← hctx.iPoolIds, ← hctx.PendingEncodings]
    exact h.ids
  · rw [halive, hframes, ← hctx.PendingEncodings]
    exact h.permits
  · rw [← hctx.SourceSent]
    exact h.length
  · rw [hframes, ← hctx.SourceSent]
    exact h.table
  · intro b
    rw [hrefs, hframes]
    exact h.held b
  · intro hl p hp
    exact (hrefused p hp).elim (h.unchanged hl p) id

theorem FramesInv.process (h : s.FramesInv lost) {pFrame pQpTable : Option ℕ}
    {canBeUsed encoded : Bool} (ha : s.Allowed (.process pFrame pQpTable canBeUsed encoded))
    (hs : s.step (.process pFrame pQpTable canBeUsed encoded) = some s') :
    ∃ lost', s'.FramesInv lost' ∧ (s.Encoded (.process pFrame pQpTable canBeUsed encoded) →
      lost' = lost) := by
  obtain ⟨⟨bRet, ctx, frame⟩, hrun, hs⟩ := Option.bind_eq_some_iff.mp hs
  obtain rfl := Option.some.inj hs
  rcases EncCtx.process_cases hrun with ⟨hr, rfl, rfl, rfl⟩ | ⟨rfl, rfl, rfl, rfl⟩ |
    ⟨pSrc, iCurPool, ids, t, hr, rfl, rfl, hids, hctx, hlen, -, hcase⟩
  · refine ⟨lost, ?_, fun _ => rfl⟩
    refine h.of_same ?_ (fun _ => rfl) rfl (List.append_nil _) ?_
    · exact ⟨rfl, rfl, rfl, rfl⟩
    intro p hp
    rcases List.mem_append.mp hp with hp | hp
    · exact .inl hp
    · rw [List.mem_singleton.mp hp]
      exact .inr ⟨rfl, rfl, rfl, rfl⟩
  · refine ⟨lost, ?_, fun _ => rfl⟩
    refine h.of_same ?_ (fun _ => rfl) rfl (List.append_nil _) ?_
    · exact ⟨rfl, rfl, rfl, rfl⟩
    intro p hp
    dsimp only at hp
    split at hp
    · exact .inl hp
    · rcases List.mem_append.mp hp with hp | hp
      · exact .inl hp
      · rw [List.mem_singleton.mp hp]
        exact .inr ⟨rfl, rfl, rfl, rfl⟩
  · have hpos : s.alive = true → 0 < s.ctx.PendingEncodings := fun _ =>
      (ha.2.resolve_left (by rw [hr]; exact Bool.noConfusion)).resolve_left (by simp)
    have hnodup := h.nodup
    have hlt := h.lt
    have hlens := h.ids
    have hpermits := h.permits
    rw [hids] at hnodup hlt hlens
    rcases hcase with ⟨rfl, rfl, hperm, hrefs⟩ | ⟨rfl, rfl, hperm, hrefs⟩
    · -- the identifier goes from the pool to the frame
      have hmove : (ids ++ (s.frames ++ [EncFrame.mk iCurPool pSrc]).map (·.UserParam)).Perm
          (iCurPool :: ids ++ s.frames.map (·.UserParam)) := by
        rw [List.map_append, ← List.append_assoc]
        exact List.perm_append_singleton _ _
      refine ⟨lost, ⟨?_, ?_, ?_, ?_, ?_, ?_, ?_, ?_⟩, fun _ => rfl⟩
      all_goals rw [hctx]
      all_goals dsimp only [Option.toList_some]
      · intro hal
        exact hmove.nodup_iff.mpr (hnodup hal)
      · intro hal i hi
        exact hlt hal i (hmove.mem_iff.mp hi)
      · intro hal
        have := hlens hal
        have := hpos hal
        rw [List.length_cons] at *
        omega
      · intro hal
        have := hpermits hal
        have := hpos hal
        rw [List.length_append, List.length_singleton]
        omega
      · rw [hlen]
        exact h.length
      · rw [List.map_append]
        exact hperm.trans ((h.table.cons pSrc).trans (List.perm_append_singleton _ _).symm)
      · intro b
        rw [hrefs, h.held, List.map_append, List.count_append, List.map_singleton, count_one]
        push_cast
        rfl
      · exact h.unchanged
    · -- the frame is lost
      refine ⟨lost + 1, ⟨?_, ?_, ?_, ?_, ?_, ?_, ?_, ?_⟩, fun henc => ?_⟩
      all_goals try rw [hctx]
      all_goals try dsimp only [Option.toList_none]
      all_goals try rw [List.append_nil]
      · intro hal
        exact (List.nodup_cons.mp (hnodup hal)).2
      · intro hal i hi
        exact hlt hal i (List.mem_cons_of_mem _ hi)
      · intro hal
        have := hlens hal
        have := hpos hal
        rw [List.length_cons] at *
        omega
      · intro hal
        have := hpermits hal
        have := hpos hal
        omega
      · rw [hlen]
        exact h.length
      · exact hperm.trans h.table
      · intro b
        rw [hrefs]
        exact h.held b
      · exact fun hl => absurd hl (Nat.succ_ne_zero _)
      · have hnever : ¬ (s.Encoded (.process (some pSrc) pQpTable canBeUsed false)) := by
          show ¬ (_ = true ∨ _ = none ∨ false = true)
          rw [hr]
          simp
        exact absurd henc hnever

theorem FramesInv.endEncoding (h : s.FramesInv lost) {pPicStatus : EncPicStatus} {streamUserPtr : ℕ}
    (ha : s.Allowed (.endEncoding pPicStatus streamUserPtr))
    (hs : s.step (.endEncoding pPicStatus streamUserPtr) = some s') : s'.FramesInv lost := by
  obtain ⟨ctx, hrun, hs⟩ := Option.bind_eq_some_iff.mp hs
  obtain rfl := Option.some.inj hs
  obtain ⟨hal, hmem, -⟩ := ha
  obtain ⟨pStream, -, -, -, -, -, hpool, -, hcase⟩ := EncCtx.endEncoding_cases hrun
  rcases hcase with ⟨hlast, htable, hids, hpermits, hrefs⟩ | ⟨hlast, htable, hids, hpermits, hrefs⟩
  · refine h.of_same ⟨hids.symm, hpool.symm, hpermits.symm, htable.symm⟩ hrefs rfl ?_ fun p hp => .inl hp
    rw [hlast]
    rfl
  · -- the frame gives back what it took
    have hperm := List.perm_cons_erase hmem
    have hpos : 0 < s.frames.length := List.length_pos_of_mem hmem
    have hlen := hperm.length_eq
    rw [List.length_cons] at hlen
    have hidsLen := h.ids hal
    have hsum := h.permits hal
    unfold encMaxCmd at hsum
    rw [if_pos (by unfold encMaxCmd; omega)] at hids
    have huser : (s.frames.map (·.UserParam)).Perm
        (pPicStatus.UserParam :: (s.frames.erase pPicStatus.toEncFrame).map (·.UserParam)) :=
      hperm.map _
    have hsrc : (s.frames.map (·.SrcHandle)).Perm
        (pPicStatus.SrcHandle :: (s.frames.erase pPicStatus.toEncFrame).map (·.SrcHandle)) :=
      hperm.map _
    have hmove : (ctx.iPoolIds ++ (s.frames.erase pPicStatus.toEncFrame).map (·.UserParam)).Perm
        (s.ctx.iPoolIds ++ s.frames.map (·.UserParam)) := by
      rw [hids, List.append_assoc]
      exact huser.symm.append_left _
    obtain ⟨hrem, hremLen⟩ := removeSourceSent_perm htable
    refine ⟨?_, ?_, ?_, ?_, ?_, ?_, ?_, h.unchanged⟩
    all_goals dsimp only
    all_goals try rw [hlast, if_pos rfl]
    · intro _
      exact hmove.nodup_iff.mpr (h.nodup hal)
    · intro _ i hi
      exact h.lt hal i (hmove.mem_iff.mp hi)
    · intro _
      rw [hids, hpermits, List.length_append, List.length_singleton, hidsLen]
    · intro _
      rw [hpermits]
      unfold encMaxCmd
      omega
    · exact hremLen.trans h.length
    · exact (hrem.symm.trans (h.table.trans hsrc)).cons_inv
    · intro b
      rw [hrefs, h.held, hsrc.count_eq, List.count_cons]
      by_cases hb : b = pPicStatus.SrcHandle
      · simp [hb]
      · simp [hb, Ne.symm hb]

theorem FramesInv.destroy (h : s.FramesInv lost) (hs : s.step .destroy = some s') :
    s'.FramesInv lost := by
  obtain ⟨ctx, hrun, hs⟩ := Option.bind_eq_some_iff.mp hs
  obtain rfl := Option.some.inj hs
  obtain ⟨c₁, hstreams, hrun⟩ := Option.bind_eq_some_iff.mp hrun
  obtain ⟨ps, -, hc₁, -, hsource₁⟩ := EncCtx.foldlM_releaseStream hstreams
  have htable : c₁.SourceSent = s.ctx.SourceSent := by rw [hc₁]
  have hlen : c₁.SourceSent.length = alMaxSourceBuffer := by rw [htable, h.length]
  obtain ⟨c₂, hrun₂, hc₂, -, hsource₂⟩ := EncCtx.foldlM_releaseSourceAt hlen.ge
  obtain rfl : c₂ = ctx := Option.some.inj (hrun₂.symm.trans hrun)
  rw [← hlen] at hc₂ hsource₂
  have hnone : c₂.SourceSent = List.replicate c₁.SourceSent.length none := by
    rw [hc₂]
    simp
  refine ⟨nofun, nofun, nofun, nofun, ?_, ?_, ?_, h.unchanged⟩
  · rw [hnone, List.length_replicate, hlen]
  · rw [hnone, sourcesIn_replicate]
    exact List.Perm.refl _
  · intro b
    rw [hsource₂, List.take_length, hsource₁, htable, h.held, h.table.count_eq]
    exact sub_self _

theorem FramesInv.step (h : s.FramesInv lost) {op : EncoderOp} (ha : s.Allowed op)
    (hs : s.step op = some s') : ∃ lost', s'.FramesInv lost' ∧ (s.Encoded op → lost' = lost) := by
  cases op with
  | process pFrame pQpTable canBeUsed encoded => exact h.process ha hs
  | putStreamBuffer pStream size mapped =>
    obtain rfl := Option.some.inj hs
    obtain ⟨hsame, hrefs⟩ := s.ctx.putStreamBuffer_same pStream size
    exact ⟨lost, h.of_same hsame hrefs rfl rfl fun p hp => .inl hp, fun _ => rfl⟩
  | endEncoding pPicStatus streamUserPtr => exact ⟨lost, h.endEncoding ha hs, fun _ => rfl⟩
  | endOfStream =>
    obtain rfl := Option.some.inj hs
    exact ⟨lost, h.of_same ⟨rfl, rfl, rfl, rfl⟩ (fun _ => rfl) rfl rfl fun p hp => .inl hp,
      fun _ => rfl⟩
  | destroy => exact ⟨lost, h.destroy hs, fun _ => rfl⟩

end EncoderUse

end VcuCodec
