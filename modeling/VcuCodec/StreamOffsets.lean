import VcuCodec.FrameLocks

/-!
# Stream offsets of the frames in flight

A launched frame stores the end of its last NAL in its slot, and its completion publishes
that offset to the feeder, which gives the bytes up to it back.  A picture that is closed
by the first slice of the next one stores the end of that slice.
-/

namespace VcuCodec

namespace FrameUse

/-- The first bytes of the frames that are started and not completed. -/
def neededFrom (s : FrameUse) : List ℕ :=
  (s.begun.toList ++ s.inFlight.map (·.toStartedFrame)).filterMap (·.firstByte)

/-- Neither the published offset nor what the feeder gave back goes beyond a byte that a
frame still needs. -/
structure BytesKept (s : FrameUse) : Prop where
  offset : s.ctx.iCurOffset = s.published % s.ctx.uSize
  published_le : ∀ b ∈ s.neededFrom, s.published ≤ b
  consumed_le : s.consumed ≤ s.published

/-- The end of what was given to a frame. -/
def reached (s : FrameUse) : ℕ := if s.launchedInNal then s.nal.2 else s.nal.1

/-- The offsets follow the frames. -/
structure Offsets (s : FrameUse) : Prop where
  streamOffset : ∀ i, s.ctx.iStreamOffset i = s.ends i % s.ctx.uSize
  offset : s.ctx.iCurOffset = s.published % s.ctx.uSize
  current : s.inNal = true → (s.ctx.iOffset + s.ctx.iAvailSize) % s.ctx.uSize = s.nal.2 % s.ctx.uSize
  inNal : s.begun.isSome = true → s.inNal = true
  nal_le : s.nal.1 ≤ s.nal.2
  consumed_le : s.consumed ≤ s.published
  ends : s.inFlight.map (·.lastByte) =
    RingQueues.contents s.ends s.ctx.iStackSize s.ctx.iNumFrmBlk2 s.inFlight.length
  ordered : s.inFlight.Pairwise fun f g => f.lastByte ≤ g.lastByte ∧ ∀ b ∈ g.firstByte, f.lastByte ≤ b
  published_le : ∀ f ∈ s.inFlight, s.published ≤ f.lastByte ∧ ∀ b ∈ f.firstByte, s.published ≤ b
  reached : s.published ≤ s.reached ∧ ∀ f ∈ s.inFlight, f.lastByte ≤ s.reached
  begun : ∀ g ∈ s.begun, ∀ b ∈ g.firstByte, s.published ≤ b ∧ ∀ f ∈ s.inFlight, f.lastByte ≤ b

variable {s s' : FrameUse}

theorem start_offsets (iStackSize uSize : ℕ) : (start iStackSize uSize).Offsets where
  streamOffset _ := (Nat.zero_mod _).symm
  offset := (Nat.zero_mod _).symm
  current h := absurd h Bool.false_ne_true
  inNal h := absurd h Bool.false_ne_true
  nal_le := le_rfl
  consumed_le := le_rfl
  ends := rfl
  ordered := List.Pairwise.nil
  published_le := nofun
  reached := ⟨le_rfl, nofun⟩
  begun := nofun

theorem Offsets.bytesKept (h : s.Offsets) : s.BytesKept where
  offset := h.offset
  published_le := by
    intro b hb
    obtain ⟨f, hf, hfb⟩ := List.mem_filterMap.mp hb
    rcases List.mem_append.mp hf with hf | hf
    · exact (h.begun f (Option.mem_toList.mp hf) b hfb).1
    · obtain ⟨g, hg, rfl⟩ := List.mem_map.mp hf
      exact (h.published_le g hg).2 b hfb
  consumed_le := h.consumed_le

/-- What the offsets are about, but for the frame that is started. -/
def offsetView (s : FrameUse) :=
  (s.ctx.iStackSize, s.ctx.iNumFrmBlk2, s.ctx.iStreamOffset, s.ctx.iCurOffset,
    (s.ctx.iOffset + s.ctx.iAvailSize) % s.ctx.uSize, s.ctx.uSize, s.inFlight, s.nal, s.inNal,
    s.launchedInNal, s.ends, s.published, s.consumed)

/-- A step that only starts or drops a frame keeps the offsets. -/
theorem Offsets.of_view (h : s.Offsets) (hview : s'.offsetView = s.offsetView)
    (hinNal : s'.begun.isSome = true → s.inNal = true)
    (hbegun : ∀ g ∈ s'.begun, g.firstByte = none ∨ g ∈ s.begun) : s'.Offsets := by
  unfold offsetView at hview
  simp only [Prod.mk.injEq] at hview
  obtain ⟨hstack, hblk2, hstream, hcur, havail, hsize, hinFlight, hnal, hin, hlaunched, hends,
    hpublished, hconsumed⟩ := hview
  have hreached : s'.reached = s.reached := by
    unfold FrameUse.reached
    rw [hlaunched, hnal]
  refine ⟨?_, ?_, ?_, ?_, ?_, ?_, ?_, ?_, ?_, ?_, ?_⟩
  · rw [hstream, hends, hsize]
    exact h.streamOffset
  · rw [hcur, hpublished, hsize]
    exact h.offset
  · rw [hin, havail, hnal, hsize]
    exact h.current
  · rw [hin]
    exact hinNal
  · rw [hnal]
    exact h.nal_le
  · rw [hconsumed, hpublished]
    exact h.consumed_le
  · rw [hinFlight, hends, hstack, hblk2]
    exact h.ends
  · rw [hinFlight]
    exact h.ordered
  · rw [hinFlight, hpublished]
    exact h.published_le
  · rw [hreached, hinFlight, hpublished]
    exact h.reached
  · intro g hg b hb
    rcases hbegun g hg with hnone | hg
    · rw [hnone] at hb
      exact absurd hb (Option.not_mem_none b)
    · rw [hinFlight, hpublished]
      exact h.begun g hg b hb

/-! ## The steps -/

theorem Offsets.nal (h : s.Offsets) {first last : ℕ} (ha : s.Allowed (.nal first last))
    (hs : s.step (.nal first last) = some s') : s'.Offsets := by
  obtain rfl := Option.some.inj hs
  obtain ⟨hfirst, hlast, -⟩ := ha
  have hnal := h.nal_le
  have hreached : s.reached ≤ first := by
    unfold FrameUse.reached
    split <;> omega
  refine ⟨h.streamOffset, h.offset, ?_, fun _ => rfl, hlast, h.consumed_le, h.ends, h.ordered,
    h.published_le, ?_, h.begun⟩
  · intro _
    change (first % s.ctx.uSize + (last - first)) % s.ctx.uSize = last % s.ctx.uSize
    rw [Nat.mod_add_mod, Nat.add_sub_of_le hlast]
  · exact ⟨h.reached.1.trans hreached, fun f hf => (h.reached.2 f hf).trans hreached⟩

/-- The NAL becomes a slice of the frame in front of the NAL that a launch reached. -/
theorem Offsets.takeSlice (h : s.Offsets) (hl : s.launchedInNal = false)
    (hs : s.step .takeSlice = some s') : s'.Offsets := by
  obtain rfl := Option.some.inj hs
  have hreached : s.reached = s.nal.1 := by
    unfold FrameUse.reached
    rw [hl]
    rfl
  have hbound := h.reached
  rw [hreached] at hbound
  refine ⟨h.streamOffset, h.offset, h.current, ?_, h.nal_le, h.consumed_le, h.ends, h.ordered,
    h.published_le, h.reached, ?_⟩
  · intro hsome
    apply h.inNal
    rwa [Option.isSome_map] at hsome
  · intro g hg b hb
    obtain ⟨f, hf, rfl⟩ := Option.mem_map.mp hg
    obtain rfl : f.firstByte.getD s.nal.1 = b := Option.some.inj hb
    cases hfb : f.firstByte with
    | none => exact hbound
    | some b => exact h.begun f hf b hfb

theorem Offsets.update (h : s.Offsets) (hin : s.inNal = true) (i : ℕ) (j : ℕ) :
    Function.update s.ctx.iStreamOffset j ((s.ctx.iOffset + s.ctx.iAvailSize) % s.ctx.uSize) i =
      Function.update s.ends j s.nal.2 i % s.ctx.uSize := by
  by_cases hij : i = j
  · rw [hij, Function.update_self, Function.update_self, h.current hin]
  · rw [Function.update_of_ne hij, Function.update_of_ne hij, h.streamOffset]

theorem Offsets.launchSlice (h : s.Offsets) (hr : s.Ring) (ha : s.Allowed .launchSlice)
    (hs : s.step .launchSlice = some s') : s'.Offsets := by
  obtain rfl := Option.some.inj hs
  obtain ⟨f, hf⟩ := hr.begun_isSome ha
  have hin : s.inNal = true := h.inNal (by rw [hf]; rfl)
  refine ⟨?_, h.offset, h.current, h.inNal, h.nal_le, h.consumed_le, ?_, h.ordered, h.published_le,
    h.reached, h.begun⟩
  · intro i
    exact h.update hin i _
  · change _ = RingQueues.contents (Function.update s.ends _ _) s.ctx.iStackSize s.ctx.iNumFrmBlk2
      s.inFlight.length
    rw [hr.counters, RingQueues.contents_update (hr.begun_free ha)]
    exact h.ends

/-- The launch of the frame that is started stores the end of the NAL in its slot. -/
theorem Offsets.launch (h : s.Offsets) (hr : s.Ring) (hflag : s.ctx.bBeginFrameIsValid = true)
    {c c' : DecCtx} (hctx : s.ctx.Launched c')
    (hstream : c'.iStreamOffset = Function.update s.ctx.iStreamOffset
      (s.ctx.iNumFrmBlk1 % s.ctx.iStackSize) ((s.ctx.iOffset + s.ctx.iAvailSize) % s.ctx.uSize))
    (hsame : c'.iCurOffset = s.ctx.iCurOffset ∧ c'.iOffset = s.ctx.iOffset ∧
      c'.iAvailSize = s.ctx.iAvailSize ∧ c'.uSize = s.ctx.uSize) :
    Offsets { s with
      ctx := c'
      begun := none
      inFlight := s.inFlight ++ s.launched c
      launchedInNal := true
      ends := Function.update s.ends (s.ctx.iNumFrmBlk1 % s.ctx.iStackSize) s.nal.2 } := by
  obtain ⟨g, hg⟩ := hr.begun_isSome hflag
  have hin : s.inNal = true := h.inNal (by rw [hg]; rfl)
  have hlaunched : s.launched c = [⟨g, c.uToggle, c.toggles c.uToggle, s.nal.2⟩] := by
    unfold launched
    rw [hg]
    rfl
  obtain ⟨hcur, hoff, havail, hsize⟩ := hsame
  have hbegun := h.begun g hg
  have hnal := h.nal_le
  have hreached : s.reached ≤ s.nal.2 := by
    unfold FrameUse.reached
    split
    · exact le_rfl
    · exact hnal
  rw [hlaunched]
  refine ⟨?_, ?_, ?_, fun _ => hin, hnal, h.consumed_le, ?_, ?_, ?_, ?_, nofun⟩
  · intro i
    change c'.iStreamOffset i = _ % c'.uSize
    rw [hstream, hsize]
    exact h.update hin i _
  · change c'.iCurOffset = _ % c'.uSize
    rw [hcur, hsize]
    exact h.offset
  · change _ → (c'.iOffset + c'.iAvailSize) % c'.uSize = _ % c'.uSize
    rw [hoff, havail, hsize]
    exact h.current
  · change (s.inFlight ++ [_]).map _ = RingQueues.contents (Function.update s.ends _ _) c'.iStackSize
      c'.iNumFrmBlk2 (s.inFlight ++ [_]).length
    rw [← hctx.iStackSize, ← hctx.iNumFrmBlk2, hr.counters, List.length_append, List.length_singleton,
      RingQueues.contents_push (hr.begun_free hflag), List.map_append, h.ends]
    rfl
  · apply List.pairwise_append.mpr
    refine ⟨h.ordered, List.pairwise_singleton _ _, ?_⟩
    intro f hf e he
    obtain rfl := List.mem_singleton.mp he
    exact ⟨(h.reached.2 f hf).trans hreached, fun b hb => (hbegun b hb).2 f hf⟩
  · intro f hf
    rcases List.mem_append.mp hf with hf | hf
    · exact h.published_le f hf
    · obtain rfl := List.mem_singleton.mp hf
      exact ⟨h.reached.1.trans hreached, fun b hb => (hbegun b hb).1⟩
  · refine ⟨h.reached.1.trans hreached, ?_⟩
    intro f hf
    rcases List.mem_append.mp hf with hf | hf
    · exact (h.reached.2 f hf).trans hreached
    · obtain rfl := List.mem_singleton.mp hf
      exact le_rfl

theorem Offsets.endDecoding (h : s.Offsets) (hs : s.step (.endDecoding 0) = some s') : s'.Offsets := by
  obtain ⟨f, hf, hs⟩ := Option.bind_eq_some_iff.mp hs
  obtain ⟨ctx, hctx, hs⟩ := Option.bind_eq_some_iff.mp hs
  obtain rfl := Option.some.inj hs
  obtain ⟨rest, hrest⟩ : ∃ rest, s.inFlight = f :: rest := by
    cases hl : s.inFlight with
    | nil => simp [hl] at hf
    | cons e rest => exact ⟨rest, by simpa [hl] using hf⟩
  have hends := h.ends
  have hordered := h.ordered
  have hpublished := h.published_le
  have hreached := h.reached
  have hbegun := h.begun
  rw [hrest] at hends hordered hpublished hreached hbegun
  rw [List.map_cons, List.length_cons, RingQueues.contents_pop (Nat.succ_ne_zero _), List.cons.injEq,
    RingQueues.contents_mod] at hends
  rw [List.pairwise_cons] at hordered
  have hmem : f ∈ f :: rest := List.mem_cons_self
  unfold DecCtx.endDecoding at hctx
  rw [DecCtx.unlockRefID_eq] at hctx
  dsimp only at hctx
  split at hctx
  case isFalse => exact absurd hctx (by simp)
  next hlt =>
  obtain rfl := Option.some.inj hctx
  rw [hrest, List.eraseIdx_cons_zero, ← hends.1]
  refine ⟨h.streamOffset, ?_, h.current, h.inNal, h.nal_le, ?_, hends.2, hordered.2, hordered.1, ?_, ?_⟩
  · change s.ctx.iStreamOffset _ = _
    rw [h.streamOffset, hends.1]
  · exact h.consumed_le.trans (hpublished f hmem).1
  · exact ⟨hreached.2 f hmem, fun g hg => hreached.2 g (List.mem_cons_of_mem f hg)⟩
  · intro g hg b hb
    have hle := (hbegun g hg b hb).2
    exact ⟨hle f hmem, fun e he => hle e (List.mem_cons_of_mem f he)⟩

theorem Offsets.consume (h : s.Offsets) (hs : s.step .consume = some s') : s'.Offsets := by
  obtain rfl := Option.some.inj hs
  refine ⟨h.streamOffset, h.offset, h.current, h.inNal, h.nal_le, ?_, h.ends, h.ordered,
    h.published_le, h.reached, h.begun⟩
  obtain ⟨k, hk⟩ := Nat.exists_eq_add_of_le h.consumed_le
  change s.consumed + (s.ctx.iCurOffset + s.ctx.uSize - s.consumed % s.ctx.uSize) % s.ctx.uSize ≤ s.published
  rw [h.offset, hk, RingQueues.distance_mod]
  exact Nat.add_le_add_left (Nat.mod_le k s.ctx.uSize) s.consumed

theorem Offsets.flushInput (h : s.Offsets) (hr : s.Ring) (ha : s.Allowed .flushInput)
    (hs : s.step .flushInput = some s') : s'.Offsets := by
  obtain rfl := Option.some.inj hs
  have hsem : s.ctx.Sem = s.ctx.iStackSize := ha
  have hpermits := hr.permits
  unfold numStarted at hpermits
  have hbegun : s.begun = none := by
    apply Option.toList_eq_nil_iff.mp
    apply List.eq_nil_of_length_eq_zero
    omega
  have hinFlight : s.inFlight = [] := by
    apply List.eq_nil_of_length_eq_zero
    omega
  rw [hbegun, hinFlight]
  exact ⟨h.streamOffset, (Nat.zero_mod _).symm, nofun, nofun, le_rfl, le_rfl, rfl, List.Pairwise.nil,
    nofun, ⟨le_rfl, nofun⟩, nofun⟩

/-! ## Runs -/

/-- The condition: a NAL in which a frame was launched does not become a slice of the next. -/
def OwnNal (s : FrameUse) : FrameOp → Prop
  | .takeSlice => s.launchedInNal = false
  | _ => True

instance (s : FrameUse) : ∀ op, Decidable (s.OwnNal op)
  | .takeSlice => inferInstanceAs (Decidable (_ = _))
  | .nal _ _ => isTrue trivial
  | .fill _ => isTrue trivial
  | .start _ _ => isTrue trivial
  | .launchSlice => isTrue trivial
  | .endFrame => isTrue trivial
  | .finishPreviousFrame _ => isTrue trivial
  | .cancel => isTrue trivial
  | .skip => isTrue trivial
  | .resetValidFlags => isTrue trivial
  | .endDecoding _ => isTrue trivial
  | .consume => isTrue trivial
  | .flushInput => isTrue trivial

theorem Offsets.step (h : s.Offsets) (hr : s.Ring) {op : FrameOp} (ha : s.Allowed op)
    (ho : s.InOrder op) (hn : s.OwnNal op) (hs : s.step op = some s') : s'.Offsets := by
  cases op with
  | nal first last => exact h.nal ha hs
  | takeSlice => exact h.takeSlice hn hs
  | launchSlice => exact h.launchSlice hr ha hs
  | consume => exact h.consume hs
  | flushInput => exact h.flushInput hr ha hs
  | endDecoding k =>
    obtain rfl : k = 0 := ho
    exact h.endDecoding hs
  | endFrame =>
    obtain ⟨ctx, hctx, hs⟩ := Option.bind_eq_some_iff.mp hs
    obtain rfl := Option.some.inj hs
    obtain ⟨hl, -, hstream, hsame⟩ := DecCtx.endFrame_launched hctx
    exact h.launch hr ha hl hstream hsame
  | finishPreviousFrame PoolSP =>
    obtain ⟨ctx, hctx, hs⟩ := Option.bind_eq_some_iff.mp hs
    obtain rfl := Option.some.inj hs
    obtain ⟨hl, -, hstream, hsame⟩ := DecCtx.finishPreviousFrame_launched hctx
    exact h.launch hr ha hl hstream hsame
  | start d begun =>
    obtain rfl := Option.some.inj hs
    cases begun with
    | false => exact h.of_view rfl h.inNal fun g hg => .inr hg
    | true =>
      refine h.of_view ?_ (fun _ => ha.1) ?_
      · unfold DecCtx.initFrameBuffers
        simp only [if_true]
        rw [DecCtx.lockRefID_eq]
        rfl
      · intro g hg
        obtain rfl := Option.some.inj hg
        exact .inl rfl
  | cancel =>
    obtain rfl := Option.some.inj hs
    refine h.of_view ?_ nofun nofun
    unfold DecCtx.cancelFrameBuffers
    rw [DecCtx.unlockRefID_eq]
    rfl
  | fill b =>
    obtain rfl := Option.some.inj hs
    exact h.of_view rfl h.inNal fun g hg => .inr hg
  | skip =>
    obtain rfl := Option.some.inj hs
    exact h.of_view rfl h.inNal fun g hg => .inr hg
  | resetValidFlags =>
    obtain rfl := Option.some.inj hs
    exact h.of_view rfl nofun nofun

/-- In every run in which no NAL is shared between frames, the bytes of a frame stay in the
stream buffer until the frame is completed. -/
theorem run_bytesKept {iStackSize uSize : ℕ} {ops : List FrameOp} (hpos : 0 < iStackSize)
    (hle : iStackSize ≤ maxStackSize)
    (hg : GuardedRuns.Guarded step (fun s op => s.Allowed op ∧ s.InOrder op ∧ s.OwnNal op) ops
      (start iStackSize uSize)) :
    ∃ s, GuardedRuns.run step ops (start iStackSize uSize) = some s ∧ s.BytesKept := by
  have hstep : ∀ (s : FrameUse) op, (s.Ring ∧ s.Offsets) →
      (s.Allowed op ∧ s.InOrder op ∧ s.OwnNal op) →
      ∃ s', s.step op = some s' ∧ s'.Ring ∧ s'.Offsets := by
    rintro s op ⟨h, hu⟩ ⟨ha, ho, hn⟩
    obtain ⟨s', hs⟩ := step_isSome h ha ho
    exact ⟨s', hs, h.step ha ho hs, hu.step h ha ho hn hs⟩
  obtain ⟨s, hrun, -, hu⟩ :=
    GuardedRuns.run_of_guarded hstep ⟨start_ring uSize hpos hle, start_offsets iStackSize uSize⟩ hg
  exact ⟨s, hrun, hu.bytesKept⟩

/-- Two pictures of two slices each. -/
theorem twoPictures_bytesKept :
    ∃ s, GuardedRuns.run step (twoPictures (Dpb.zeroed.init 2 .normal)) (start 3 100) = some s ∧
      s.BytesKept :=
  run_bytesKept (by decide) (by decide) (by decide +kernel)

/-- A picture that is closed by the first slice of the next, and completed. -/
def closedBySlice (d : Dpb) : List FrameOp :=
  [.nal 0 10, .start d true, .fill ⟨1, 2, 3⟩, .takeSlice, .nal 10 30, .finishPreviousFrame 4,
    .start d true, .fill ⟨5, 6, 7⟩, .takeSlice, .endDecoding 0, .consume]

/-- The slice that closed the picture is given back before its own frame is launched. -/
theorem not_run_bytesKept :
    ¬ ∀ (iStackSize uSize : ℕ) (ops : List FrameOp), 0 < iStackSize → iStackSize ≤ maxStackSize →
      GuardedRuns.Guarded step (fun s op => s.Allowed op ∧ s.InOrder op) ops (start iStackSize uSize) →
      ∃ s, GuardedRuns.run step ops (start iStackSize uSize) = some s ∧ s.BytesKept := by
  intro h
  let ops := closedBySlice (Dpb.zeroed.init 2 .normal)
  obtain ⟨s, hrun, hkept⟩ := h 2 100 ops (by decide) (by decide) (by decide +kernel)
  have hneeded : (GuardedRuns.run step ops (start 2 100)).map
      (fun s => (s.neededFrom, s.published, s.consumed)) = some ([10], 30, 30) := by
    decide +kernel
  rw [hrun, Option.map_some, Option.some.injEq, Prod.mk.injEq, Prod.mk.injEq] at hneeded
  obtain ⟨hneed, hpub, -⟩ := hneeded
  have hle := hkept.published_le 10 (by rw [hneed]; exact List.mem_singleton_self 10)
  omega

end FrameUse

end VcuCodec
