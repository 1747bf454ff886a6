import VcuCodec.EncoderFrames

/-!
# The ring of stream buffers in the encoder

The stream buffers that the scheduler has are those between the receive index and the
send index.  A submission takes its entry and its reference before it can be refused,
and it does not see whether the scheduler got the buffer.
-/

namespace VcuCodec

namespace EncCtx

variable {c c' : EncCtx}

/-- From the receive index on the loop of `releaseStreams` meets the whole queue. -/
theorem streamsFrom_eq {l : LayerCtx} {n k streamId : ℕ} (hid : streamId < alMaxStreamBuffer)
    (hk : k < alMaxStreamBuffer) (hn : k < n)
    (hsent : l.iCurStreamSent = (streamId + k) % alMaxStreamBuffer) :
    streamsFrom l n streamId = RingQueues.contents l.StreamSent alMaxStreamBuffer streamId k := by
  induction n generalizing k streamId with
  | zero => exact absurd hn (Nat.not_lt_zero k)
  | succ n ih =>
    unfold streamsFrom
    rcases Nat.eq_zero_or_pos k with rfl | hpos
    · rw [hsent, Nat.add_zero, Nat.mod_eq_of_lt hid, if_pos rfl]
      rfl
    · have hne : streamId ≠ l.iCurStreamSent := by
        rw [hsent]
        have := RingQueues.mod_ne (h := streamId) hpos (show k < 0 + alMaxStreamBuffer by omega)
        rwa [Nat.add_zero, Nat.mod_eq_of_lt hid] at this
      have hnext : l.iCurStreamSent =
          ((streamId + 1) % alMaxStreamBuffer + (k - 1)) % alMaxStreamBuffer := by
        rw [hsent, Nat.mod_add_mod]
        congr 1
        omega
      rw [if_neg hne, RingQueues.contents_pop hpos.ne', Nat.mod_eq_of_lt hid,
        ih (Nat.mod_lt _ (by decide)) (by omega) (by omega) hnext]

theorem foldlM_releaseStream_some (c : EncCtx) (ps : List ℕ) :
    ((ps.map some).foldlM releaseStream c).isSome := by
  induction ps generalizing c with
  | nil => rfl
  | cons p ps ih => exact ih _

theorem process_isSome {pFrame pQpTable : Option ℕ} {canBeUsed : Bool} (encoded : Bool)
    (h : c.refuses pFrame pQpTable canBeUsed = true ∨ pFrame = none ∨
      c.iPoolIds ≠ [] ∧ (sourcesIn c.SourceSent).length < c.SourceSent.length) :
    (c.process pFrame pQpTable canBeUsed encoded).isSome := by
  unfold process
  split
  · rfl
  next hr =>
  cases pFrame with
  | none => rfl
  | some pSrc =>
    obtain ⟨hids, hfree⟩ := (h.resolve_left hr).resolve_left (by simp)
    obtain ⟨iCurPool, hid⟩ := Option.isSome_iff_exists.mp (List.isSome_head?.mpr hids)
    have hq := refQpTable_eq { c with
      PendingEncodings := c.PendingEncodings - 1
      iPoolIds := c.iPoolIds.tail
      Pool := Function.update c.Pool iCurPool pQpTable } pQpTable
    dsimp only
    rw [hid, Option.bind_eq_bind, Option.bind_some]
    generalize refQpTable _ pQpTable = cq at hq ⊢
    have hsent : (cq.ref .source pSrc).SourceSent = c.SourceSent := by rw [hq.1]; rfl
    obtain ⟨t, ht⟩ := Option.isSome_iff_exists.mp (addSourceSent_isSome pSrc iCurPool hfree)
    rw [hsent, ht, Option.bind_eq_bind, Option.bind_some]
    split
    · rfl
    · have hmem : pSrc ∈ sourcesIn t :=
        (addSourceSent_perm ht).1.symm.mem_iff.mp List.mem_cons_self
      obtain ⟨c₁, hc₁⟩ := Option.isSome_iff_exists.mp
        (releaseSource_isSome (c := { cq.ref .source pSrc with SourceSent := t }) iCurPool hmem)
      rw [hc₁]
      rfl

theorem endEncoding_isSome {pPicStatus : EncPicStatus} {streamId pStream : ℕ}
    (hid : streamId < alMaxStreamBuffer) (hrecv : c.tLayerCtx.iCurStreamRecv = streamId)
    (hstream : c.tLayerCtx.StreamSent streamId = some pStream)
    (hmem : pPicStatus.SrcHandle ∈ sourcesIn c.SourceSent) :
    (c.endEncoding pPicStatus streamId).isSome := by
  unfold endEncoding
  rw [if_pos ⟨hid, hrecv⟩]
  dsimp only
  rw [hstream, Option.bind_eq_bind, Option.bind_some]
  split
  · obtain ⟨c₁, hc₁⟩ := Option.isSome_iff_exists.mp (releaseSource_isSome
      (c := { c with
        tLayerCtx := { c.tLayerCtx with
          iCurStreamRecv := (c.tLayerCtx.iCurStreamRecv + 1) % alMaxStreamBuffer }
        callbacks := c.callbacks ++ [(some pStream, some pPicStatus.SrcHandle)] })
      pPicStatus.UserParam hmem)
    rw [hc₁]
    rfl
  · rfl

end EncCtx

namespace EncoderUse

/-- The number of entries from the receive index to the send index. -/
def sentCount (l : LayerCtx) : ℕ :=
  (l.iCurStreamSent + alMaxStreamBuffer - l.iCurStreamRecv) % alMaxStreamBuffer

/-- The ring has the stream buffers that the scheduler still has to fill. -/
structure StreamsKept (s : EncoderUse) : Prop where
  awaiting : s.alive = true → RingQueues.contents s.ctx.tLayerCtx.StreamSent alMaxStreamBuffer
      s.ctx.tLayerCtx.iCurStreamRecv (sentCount s.ctx.tLayerCtx) =
    s.streams.map fun p => some p.2
  indices : s.alive = true → s.streams.map Prod.fst =
    (List.range (sentCount s.ctx.tLayerCtx)).map fun k =>
      (s.ctx.tLayerCtx.iCurStreamRecv + k) % alMaxStreamBuffer
  oldest : s.submitted = s.ctx.callbacks.filterMap Prod.fst ++ s.streams.map Prod.snd
  held : ∀ b, s.ctx.refs .stream b = (s.streams.map Prod.snd).count b
  unchanged : ∀ p ∈ s.refusedStreams, p.1 = p.2

/-- The condition: a buffer that is submitted has room for the headers, the driver can
map it, and one entry of the ring stays free behind it. -/
def Fits (s : EncoderUse) : EncoderOp → Prop
  | .putStreamBuffer _ size mapped => alEncMaxHeaderSize ≤ size ∧ mapped = true ∧
      s.streams.length + 1 < alMaxStreamBuffer
  | _ => True

instance (s : EncoderUse) : ∀ op, Decidable (s.Fits op)
  | .putStreamBuffer _ _ _ => inferInstanceAs (Decidable (_ ∧ _ ∧ _))
  | .process _ _ _ _ => isTrue trivial
  | .endEncoding _ _ => isTrue trivial
  | .endOfStream => isTrue trivial
  | .destroy => isTrue trivial

/-- The invariant of the ring. -/
structure StreamsInv (s : EncoderUse) : Prop where
  recv_lt : s.alive = true → s.ctx.tLayerCtx.iCurStreamRecv < alMaxStreamBuffer
  length_lt : s.alive = true → s.streams.length < alMaxStreamBuffer
  sent : s.alive = true → s.ctx.tLayerCtx.iCurStreamSent =
    (s.ctx.tLayerCtx.iCurStreamRecv + s.streams.length) % alMaxStreamBuffer
  awaiting : s.alive = true → RingQueues.contents s.ctx.tLayerCtx.StreamSent alMaxStreamBuffer
      s.ctx.tLayerCtx.iCurStreamRecv s.streams.length = s.streams.map fun p => some p.2
  indices : s.alive = true → s.streams.map Prod.fst =
    (List.range s.streams.length).map fun k =>
      (s.ctx.tLayerCtx.iCurStreamRecv + k) % alMaxStreamBuffer
  oldest : s.submitted = s.ctx.callbacks.filterMap Prod.fst ++ s.streams.map Prod.snd
  held : ∀ b, s.ctx.refs .stream b = (s.streams.map Prod.snd).count b
  unchanged : s.refusedStreams = []

variable {s s' : EncoderUse}

theorem StreamsInv.kept (h : s.StreamsInv) : s.StreamsKept := by
  have hcount : s.alive = true → sentCount s.ctx.tLayerCtx = s.streams.length := by
    intro hal
    have hrecv := h.recv_lt hal
    have hlen := h.length_lt hal
    unfold sentCount
    rw [h.sent hal]
    unfold alMaxStreamBuffer at *
    omega
  refine ⟨?_, ?_, h.oldest, h.held, ?_⟩
  · intro hal
    rw [hcount hal]
    exact h.awaiting hal
  · intro hal
    rw [hcount hal]
    exact h.indices hal
  · rw [h.unchanged]
    exact fun p hp => absurd hp List.not_mem_nil

theorem start_streamsInv (bQpTableRequired : Bool) : (start bQpTableRequired).StreamsInv where
  recv_lt _ := Nat.zero_lt_succ 319
  length_lt _ := Nat.zero_lt_succ 319
  sent _ := rfl
  awaiting _ := rfl
  indices _ := rfl
  oldest := rfl
  held _ := rfl
  unchanged := rfl

/-- What does not touch the ring keeps the invariant. -/
theorem StreamsInv.of_same (h : s.StreamsInv) (hctx : s'.ctx.tLayerCtx = s.ctx.tLayerCtx)
    (hcallbacks : s'.ctx.callbacks.filterMap Prod.fst = s.ctx.callbacks.filterMap Prod.fst)
    (hrefs : ∀ b, s'.ctx.refs .stream b = s.ctx.refs .stream b) (halive : s'.alive = s.alive)
    (hstreams : s'.streams = s.streams) (hsubmitted : s'.submitted = s.submitted)
    (hrefused : s'.refusedStreams = s.refusedStreams) : s'.StreamsInv := by
  refine ⟨?_, ?_, ?_, ?_, ?_, ?_, ?_, hrefused.trans h.unchanged⟩
  · rw [halive, hctx]
    exact h.recv_lt
  · rw [halive, hstreams]
    exact h.length_lt
  · rw [halive, hstreams, hctx]
    exact h.sent
  · rw [halive, hstreams, hctx]
    exact h.awaiting
  · rw [halive, hstreams, hctx]
    exact h.indices
  · rw [hsubmitted, hcallbacks, hstreams]
    exact h.oldest
  · intro b
    rw [hrefs, hstreams]
    exact h.held b

theorem StreamsInv.process (h : s.StreamsInv) {pFrame pQpTable : Option ℕ}
    {canBeUsed encoded : Bool} (hs : s.step (.process pFrame pQpTable canBeUsed encoded) = some s') :
    s'.StreamsInv := by
  obtain ⟨⟨bRet, ctx, frame⟩, hrun, hs⟩ := Option.bind_eq_some_iff.mp hs
  obtain rfl := Option.some.inj hs
  rcases EncCtx.process_cases hrun with ⟨-, -, rfl, -⟩ | ⟨-, -, rfl, -⟩ |
    ⟨pSrc, iCurPool, ids, t, -, -, -, -, hctx, -, hrefs, -⟩
  · exact h.of_same rfl rfl (fun _ => rfl) rfl rfl rfl rfl
  · exact h.of_same rfl rfl (fun _ => rfl) rfl rfl rfl rfl
  · refine h.of_same ?_ ?_ hrefs rfl rfl rfl rfl
    · show ctx.tLayerCtx = _
      rw [hctx]
    · show ctx.callbacks.filterMap _ = _
      rw [hctx]

theorem StreamsInv.putStreamBuffer (h : s.StreamsInv) (hal : s.alive = true) {pStream size : ℕ}
    {mapped : Bool} (hfits : s.Fits (.putStreamBuffer pStream size mapped))
    (hs : s.step (.putStreamBuffer pStream size mapped) = some s') : s'.StreamsInv := by
  obtain ⟨hsize, rfl, hlen⟩ := hfits
  have hsent := h.sent hal
  unfold EncoderUse.step EncCtx.putStreamBuffer at hs
  simp only [if_neg (Nat.not_lt.mpr hsize), if_true] at hs
  obtain rfl := Option.some.inj hs
  refine ⟨h.recv_lt, ?_, ?_, ?_, ?_, ?_, ?_, h.unchanged⟩
  · intro _
    simpa using hlen
  · intro _
    show (s.ctx.tLayerCtx.iCurStreamSent + 1) % alMaxStreamBuffer = _
    rw [hsent, List.length_append, Nat.mod_add_mod, Nat.add_assoc]
    rfl
  · intro _
    show RingQueues.contents (Function.update s.ctx.tLayerCtx.StreamSent _ _) _
      s.ctx.tLayerCtx.iCurStreamRecv (s.streams ++ [_]).length = _
    rw [hsent, List.length_append, List.length_singleton,
      RingQueues.contents_push (h.length_lt hal), h.awaiting hal, List.map_append]
    rfl
  · intro _
    show (s.streams ++ [_]).map Prod.fst = (List.range (s.streams ++ [_]).length).map _
    rw [List.map_append, List.length_append, List.length_singleton, List.range_succ,
      List.map_append, h.indices hal, hsent]
    rfl
  · show s.submitted ++ [pStream] = s.ctx.callbacks.filterMap _ ++ (s.streams ++ [_]).map _
    rw [h.oldest, List.map_append, List.append_assoc]
    rfl
  · intro b
    show (EncCtx.ref _ .stream pStream).refs .stream b = ((s.streams ++ [_]).map Prod.snd).count b
    rw [EncCtx.ref_refs]
    dsimp only
    rw [h.held, List.map_append, List.count_append, List.map_singleton, count_one]
    simp

/-- The oldest buffer of the scheduler is the one at the receive index. -/
theorem StreamsInv.streams_cons (h : s.StreamsInv) (hal : s.alive = true) {streamUserPtr : ℕ}
    (hptr : s.streams.head?.map Prod.fst = some streamUserPtr) :
    ∃ pStream rest, s.streams = (streamUserPtr, pStream) :: rest ∧
      s.ctx.tLayerCtx.iCurStreamRecv = streamUserPtr ∧
      s.ctx.tLayerCtx.StreamSent streamUserPtr = some pStream ∧
      (RingQueues.contents s.ctx.tLayerCtx.StreamSent alMaxStreamBuffer
        ((streamUserPtr + 1) % alMaxStreamBuffer) rest.length = rest.map fun p => some p.2) ∧
      rest.map Prod.fst = (List.range rest.length).map fun k =>
        ((streamUserPtr + 1) % alMaxStreamBuffer + k) % alMaxStreamBuffer := by
  have hrecv := h.recv_lt hal
  have hawait := h.awaiting hal
  have hind := h.indices hal
  cases hstreams : s.streams with
  | nil => simp [hstreams] at hptr
  | cons e rest =>
    obtain ⟨i, pStream⟩ := e
    rw [hstreams] at hptr hawait hind
    obtain rfl : i = streamUserPtr := by simpa using hptr
    rw [List.length_cons, RingQueues.contents_pop (Nat.succ_ne_zero _), Nat.mod_eq_of_lt hrecv,
      List.map_cons, List.cons.injEq, Nat.succ_sub_one] at hawait
    rw [List.length_cons, List.range_succ_eq_map, List.map_cons, List.map_cons, List.cons.injEq,
      Nat.add_zero, Nat.mod_eq_of_lt hrecv, List.map_map] at hind
    obtain ⟨hi, hrest⟩ := hind
    rw [← hi] at hawait hrest
    refine ⟨pStream, rest, rfl, hi.symm, hawait.1, hawait.2, ?_⟩
    rw [hrest]
    apply List.map_congr_left
    intro k _
    rw [Function.comp_apply, Nat.mod_add_mod]
    congr 1
    omega

theorem StreamsInv.endEncoding (h : s.StreamsInv) {pPicStatus : EncPicStatus} {streamUserPtr : ℕ}
    (ha : s.Allowed (.endEncoding pPicStatus streamUserPtr))
    (hs : s.step (.endEncoding pPicStatus streamUserPtr) = some s') : s'.StreamsInv := by
  obtain ⟨ctx, hrun, hs⟩ := Option.bind_eq_some_iff.mp hs
  obtain rfl := Option.some.inj hs
  obtain ⟨hal, -, hptr⟩ := ha
  obtain ⟨pStream, rest, hstreams, hrecv, hsent, hawait, hind⟩ := h.streams_cons hal hptr
  obtain ⟨p, hid, -, hp, hlayer, hcallbacks, -, hrefs, -⟩ := EncCtx.endEncoding_cases hrun
  obtain rfl : pStream = p := Option.some.inj (hsent.symm.trans hp)
  have hlen := h.length_lt hal
  have hlast := h.sent hal
  have hheld := h.held
  have holdest := h.oldest
  rw [hstreams, List.length_cons] at hlen hlast
  rw [hstreams] at hheld holdest
  rw [hrecv] at hlayer hlast
  refine ⟨?_, ?_, ?_, ?_, ?_, ?_, ?_, h.unchanged⟩
  all_goals dsimp only
  all_goals try rw [hstreams, List.tail_cons]
  · intro _
    rw [hlayer]
    exact Nat.mod_lt _ (by decide)
  · intro _
    omega
  · intro _
    rw [hlayer, hlast, Nat.mod_add_mod]
    congr 1
    omega
  · intro _
    rw [hlayer]
    exact hawait
  · intro _
    rw [hlayer]
    exact hind
  · rw [hcallbacks, List.filterMap_append, holdest, List.append_assoc]
    rfl
  · intro b
    rw [hrefs, hheld, List.map_cons, List.count_cons]
    by_cases hb : b = pStream
    · simp [hb]
    · simp [hb, Ne.symm hb]

theorem StreamsInv.destroy (h : s.StreamsInv) (hal : s.alive = true)
    (hsources : s.ctx.SourceSent.length = alMaxSourceBuffer)
    (hs : s.step .destroy = some s') : s'.StreamsInv := by
  obtain ⟨ctx, hrun, hs⟩ := Option.bind_eq_some_iff.mp hs
  obtain rfl := Option.some.inj hs
  obtain ⟨c₁, hstreams, hrun⟩ := Option.bind_eq_some_iff.mp hrun
  unfold EncCtx.releaseStreams at hstreams
  rw [EncCtx.streamsFrom_eq (h.recv_lt hal) (h.length_lt hal) (h.length_lt hal) (h.sent hal),
    h.awaiting hal] at hstreams
  obtain ⟨ps, hps, hc₁, hstream₁, -⟩ := EncCtx.foldlM_releaseStream hstreams
  have hsnd : s.streams.map Prod.snd = ps := by
    apply List.map_injective_iff.mpr (Option.some_injective ℕ)
    rw [← hps, List.map_map]
    rfl
  have hlen : alMaxSourceBuffer ≤ c₁.SourceSent.length := by
    rw [hc₁]
    exact hsources.ge
  obtain ⟨c₂, hrun₂, hc₂, hstream₂, -⟩ := EncCtx.foldlM_releaseSourceAt hlen
  obtain rfl : c₂ = ctx := Option.some.inj (hrun₂.symm.trans hrun)
  refine ⟨nofun, nofun, nofun, nofun, nofun, ?_, ?_, h.unchanged⟩
  · -- the sources are reported without a stream buffer
    have hnone : ∀ l : List ℕ, (l.map fun p => ((none : Option ℕ), some p)).filterMap Prod.fst = [] := by
      intro l
      rw [List.filterMap_map]
      exact List.filterMap_none ..
    have hsome : ∀ l : List ℕ, (l.map fun p => (some p, (none : Option ℕ))).filterMap Prod.fst = l := by
      intro l
      rw [List.filterMap_map]
      exact List.filterMap_some
    show s.submitted = c₂.callbacks.filterMap Prod.fst ++ []
    rw [hc₂, hc₁]
    dsimp only
    rw [List.filterMap_append, List.filterMap_append, hnone, hsome, List.append_nil, List.append_nil,
      ← hsnd]
    exact h.oldest
  · intro b
    show c₂.refs .stream b = _
    rw [hstream₂, hstream₁, h.held, hsnd]
    exact sub_self _

end EncoderUse

end VcuCodec
