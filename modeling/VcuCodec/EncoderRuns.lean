import VcuCodec.EncoderStreams

/-!
# Runs of the encoder

Where no submitted stream buffer is refused, no assertion fails and the ring keeps the
stream buffers; where the scheduler refuses no frame, pool, semaphore and source table
account for the frames in flight.
-/

namespace VcuCodec.EncoderUse

variable {s s' : EncoderUse} {op : EncoderOp} {ops : List EncoderOp} {bQpTableRequired : Bool}

theorem StreamsInv.step (h : s.StreamsInv) {lost : ℕ} (hf : s.FramesInv lost) (ha : s.Allowed op)
    (hfits : s.Fits op) (hs : s.step op = some s') : s'.StreamsInv := by
  cases op with
  | process pFrame pQpTable canBeUsed encoded => exact h.process hs
  | putStreamBuffer pStream size mapped => exact h.putStreamBuffer ha hfits hs
  | endEncoding pPicStatus streamUserPtr => exact h.endEncoding ha hs
  | endOfStream =>
    obtain rfl := Option.some.inj hs
    refine h.of_same rfl ?_ (fun _ => rfl) rfl rfl rfl rfl
    show (s.ctx.callbacks ++ [(none, none)]).filterMap Prod.fst = _
    rw [List.filterMap_append]
    exact List.append_nil _
  | destroy => exact h.destroy ha hf.length hs

/-- No assertion fails, and the pool has an identifier for each permit. -/
theorem step_isSome {lost : ℕ} (hf : s.FramesInv lost) (h : s.StreamsInv) (ha : s.Allowed op) :
    (s.step op).isSome := by
  cases op with
  | process pFrame pQpTable canBeUsed encoded =>
    have hrun : (s.ctx.process pFrame pQpTable canBeUsed encoded).isSome := by
      apply EncCtx.process_isSome
      refine ha.2.imp_right (Or.imp_right fun hpos => ?_)
      have hids := hf.ids ha.1
      have hpermits := hf.permits ha.1
      constructor
      · intro hnil
        rw [hnil] at hids
        exact Nat.succ_ne_zero _ hids.symm
      · rw [hf.length, hf.table.length_eq, List.length_map]
        unfold encMaxCmd at hpermits
        unfold alMaxSourceBuffer
        omega
    obtain ⟨r, hr⟩ := Option.isSome_iff_exists.mp hrun
    unfold EncoderUse.step
    dsimp only
    rw [hr]
    rfl
  | putStreamBuffer pStream size mapped => rfl
  | endEncoding pPicStatus streamUserPtr =>
    obtain ⟨hal, hmem, hptr⟩ := ha
    obtain ⟨pStream, rest, -, hrecv, hsent, -, -⟩ := h.streams_cons hal hptr
    have hsrc : pPicStatus.SrcHandle ∈ sourcesIn s.ctx.SourceSent :=
      hf.table.symm.mem_iff.mp (List.mem_map_of_mem hmem)
    obtain ⟨c, hc⟩ := Option.isSome_iff_exists.mp
      (EncCtx.endEncoding_isSome (hrecv ▸ h.recv_lt hal) hrecv hsent hsrc)
    unfold EncoderUse.step
    dsimp only
    rw [hc]
    rfl
  | endOfStream => rfl
  | destroy =>
    have hsome : (s.streams.map fun p => some p.2) = (s.streams.map Prod.snd).map some := by
      rw [List.map_map]
      rfl
    have hstreams : s.ctx.releaseStreams.isSome := by
      unfold EncCtx.releaseStreams
      rw [EncCtx.streamsFrom_eq (h.recv_lt ha) (h.length_lt ha) (h.length_lt ha) (h.sent ha),
        h.awaiting ha, hsome]
      exact EncCtx.foldlM_releaseStream_some _ _
    obtain ⟨c₁, hc₁⟩ := Option.isSome_iff_exists.mp hstreams
    obtain ⟨ps, -, hrec, -, -⟩ := EncCtx.foldlM_releaseStream hc₁
    have hlen : alMaxSourceBuffer ≤ c₁.SourceSent.length := by
      rw [hrec]
      exact hf.length.ge
    obtain ⟨c₂, hc₂, -⟩ := EncCtx.foldlM_releaseSourceAt hlen
    have hrun : s.ctx.destroyChannels = some c₂ := by
      unfold EncCtx.destroyChannels
      rw [hc₁]
      exact hc₂
    unfold EncoderUse.step
    dsimp only
    rw [hrun]
    rfl

/-- Every run in which the submitted stream buffers fit goes through, and the ring
keeps the stream buffers. -/
theorem run_streamsKept
    (hg : GuardedRuns.Guarded step (fun s op => s.Allowed op ∧ s.Fits op) ops
      (start bQpTableRequired)) :
    ∃ s, GuardedRuns.run step ops (start bQpTableRequired) = some s ∧ s.StreamsKept := by
  have hstep : ∀ (s : EncoderUse) op, ((∃ lost, s.FramesInv lost) ∧ s.StreamsInv) → (s.Allowed op ∧ s.Fits op) →
      ∃ s', s.step op = some s' ∧ (∃ lost, s'.FramesInv lost) ∧ s'.StreamsInv := by
    rintro s op ⟨⟨lost, hf⟩, h⟩ ⟨ha, hfits⟩
    obtain ⟨s', hs⟩ := Option.isSome_iff_exists.mp (step_isSome hf h ha)
    obtain ⟨lost', hf', -⟩ := hf.step ha hs
    exact ⟨s', hs, ⟨lost', hf'⟩, h.step hf ha hfits hs⟩
  obtain ⟨s, hrun, -, hs⟩ := GuardedRuns.run_of_guarded hstep
    ⟨⟨0, start_framesInv bQpTableRequired⟩, start_streamsInv bQpTableRequired⟩ hg
  exact ⟨s, hrun, hs.kept⟩

/-- Two stream buffers are submitted, one is filled and the other is given back at the
end. -/
def twoStreams : List EncoderOp :=
  [.putStreamBuffer 1 20000 true, .putStreamBuffer 2 20000 true, .process (some 3) none true true,
    .endEncoding ⟨⟨0, 3⟩, true⟩ 0, .endOfStream, .destroy]

theorem twoStreams_kept :
    ∃ s, GuardedRuns.run step twoStreams (start false) = some s ∧ s.StreamsKept :=
  run_streamsKept (by decide +kernel)

/-- A buffer that is too small stays in the ring with its reference. -/
theorem not_run_streamsKept :
    ¬ ∀ (bQpTableRequired : Bool) (ops : List EncoderOp),
      GuardedRuns.Guarded step Allowed ops (start bQpTableRequired) →
      ∃ s, GuardedRuns.run step ops (start bQpTableRequired) = some s ∧ s.StreamsKept := by
  intro h
  obtain ⟨s, hrun, hs⟩ := h false [.putStreamBuffer 1 100 true] (by decide +kernel)
  have hheld : (GuardedRuns.run step [.putStreamBuffer 1 100 true] (start false)).map
      (fun s => (s.ctx.refs .stream 1, s.streams)) = some (1, []) := by decide +kernel
  rw [hrun] at hheld
  obtain ⟨hrefs, hstreams⟩ : s.ctx.refs .stream 1 = 1 ∧ s.streams = [] := by simpa using hheld
  have hcount := hs.held 1
  rw [hrefs, hstreams] at hcount
  revert hcount
  decide

/-- In every run in which the scheduler refuses no frame the frames in flight are
accounted for, and such a run goes through if the stream buffers fit as well. -/
theorem run_framesKept
    (hg : GuardedRuns.Guarded step (fun s op => s.Allowed op ∧ s.Encoded op) ops
      (start bQpTableRequired)) :
    (∀ s, GuardedRuns.run step ops (start bQpTableRequired) = some s → s.FramesKept) ∧
      (GuardedRuns.Guarded step (fun s op => s.Allowed op ∧ s.Fits op) ops (start bQpTableRequired) →
        (GuardedRuns.run step ops (start bQpTableRequired)).isSome) := by
  constructor
  · intro s hrun
    have hstep : ∀ (s : EncoderUse) op s', s.FramesInv 0 → (s.Allowed op ∧ s.Encoded op) → s.step op = some s' →
        s'.FramesInv 0 := by
      rintro s op s' hf ⟨ha, henc⟩ hs
      obtain ⟨lost, hf', hlost⟩ := hf.step ha hs
      rwa [hlost henc] at hf'
    exact (GuardedRuns.invariant_of_run hstep (start_framesInv bQpTableRequired) hg hrun).kept
  · intro hfits
    obtain ⟨s, hrun, -⟩ := run_streamsKept hfits
    rw [hrun]
    rfl

/-- A frame is sent and done, another one is given back by the end of the channel. -/
def twoFrames : List EncoderOp :=
  [.putStreamBuffer 1 20000 true, .process (some 3) (some 5) true true, .process (some 4) none false true,
    .process (some 4) none true true, .endEncoding ⟨⟨0, 3⟩, true⟩ 0, .process none none true true,
    .destroy]

theorem twoFrames_kept :
    (∀ s, GuardedRuns.run step twoFrames (start false) = some s → s.FramesKept) ∧
      (GuardedRuns.Guarded step (fun s op => s.Allowed op ∧ s.Fits op) twoFrames (start false) →
        (GuardedRuns.run step twoFrames (start false)).isSome) :=
  run_framesKept (by decide +kernel)

/-- A frame that the scheduler refuses takes its identifier and its permit away. -/
theorem not_run_framesKept :
    ¬ ∀ (bQpTableRequired : Bool) (ops : List EncoderOp) (s : EncoderUse),
      GuardedRuns.Guarded step Allowed ops (start bQpTableRequired) →
      GuardedRuns.run step ops (start bQpTableRequired) = some s → s.FramesKept := by
  intro h
  have hg : GuardedRuns.Guarded step Allowed [.process (some 3) none true false] (start false) := by
    decide +kernel
  have hrun : (GuardedRuns.run step [.process (some 3) none true false] (start false)).map
      (fun s => (s.alive, s.ctx.PendingEncodings, s.frames)) = some (true, 16, []) := by
    decide +kernel
  obtain ⟨s, hs, hval⟩ := Option.map_eq_some_iff.mp hrun
  have hpermits := (h false _ s hg hs).permits
  obtain ⟨hal, hpending, hframes⟩ : s.alive = true ∧ s.ctx.PendingEncodings = 16 ∧ s.frames = [] := by
    simpa using hval
  rw [hpending, hframes] at hpermits
  exact absurd (hpermits hal) (by decide)

end VcuCodec.EncoderUse
