import VcuCodec.DpbRuns
import VcuCodec.FramePipeline

/-!
# Slots and locks of the frames in flight

The frames in flight are those between the two counters; each has a slot, and the
list of references it locked.  A slot is touched before its permit is there: the
picture parameters are cleared right behind a launch, and the conceal slice for a lost
first slice is filled in before the frame starts.
-/

namespace VcuCodec

namespace DecCtx

variable {c c' : DecCtx} {refs : List (ℕ × ℕ)}

theorem lockRefID_eq (c : DecCtx) (refs : List (ℕ × ℕ)) :
    c.lockRefID refs = { c with
      frmAccess := fun i => c.frmAccess i + (refs.map Prod.fst).count i
      mvAccess := fun i => c.mvAccess i + (refs.map Prod.snd).count i } := by
  induction refs generalizing c with
  | nil => simp [lockRefID]
  | cons r refs ih =>
    have hstep : c.lockRefID (r :: refs) = DecCtx.lockRefID { c with
        frmAccess := Function.update c.frmAccess r.1 (c.frmAccess r.1 + 1)
        mvAccess := Function.update c.mvAccess r.2 (c.mvAccess r.2 + 1) } refs := rfl
    rw [hstep, ih]
    congr 1
    · funext i
      by_cases h : i = r.1
      · simp [h]
        omega
      · simp [h, Ne.symm h, Function.update_of_ne]
    · funext i
      by_cases h : i = r.2
      · simp [h]
        omega
      · simp [h, Ne.symm h, Function.update_of_ne]

theorem unlockRefID_eq (c : DecCtx) (refs : List (ℕ × ℕ)) :
    c.unlockRefID refs = { c with
      frmAccess := fun i => c.frmAccess i - (refs.map Prod.fst).count i
      mvAccess := fun i => c.mvAccess i - (refs.map Prod.snd).count i } := by
  induction refs generalizing c with
  | nil => simp [unlockRefID]
  | cons r refs ih =>
    have hstep : c.unlockRefID (r :: refs) = DecCtx.unlockRefID { c with
        frmAccess := Function.update c.frmAccess r.1 (c.frmAccess r.1 - 1)
        mvAccess := Function.update c.mvAccess r.2 (c.mvAccess r.2 - 1) } refs := rfl
    rw [hstep, ih]
    congr 1
    · funext i
      by_cases h : i = r.1
      · simp [h]
        omega
      · simp [h, Ne.symm h, Function.update_of_ne]
    · funext i
      by_cases h : i = r.2
      · simp [h]
        omega
      · simp [h, Ne.symm h, Function.update_of_ne]

end DecCtx

/-- Counters, references and access counts are the same. -/
structure DecCtx.SameRing (c c' : DecCtx) : Prop where
  iStackSize : c.iStackSize = c'.iStackSize
  Sem : c.Sem = c'.Sem
  iNumFrmBlk1 : c.iNumFrmBlk1 = c'.iNumFrmBlk1
  iNumFrmBlk2 : c.iNumFrmBlk2 = c'.iNumFrmBlk2
  uToggle : c.uToggle = c'.uToggle
  uRefList : c.uRefList = c'.uRefList
  frmAccess : c.frmAccess = c'.frmAccess
  mvAccess : c.mvAccess = c'.mvAccess
  bBeginFrameIsValid : c.bBeginFrameIsValid = c'.bBeginFrameIsValid

/-- What a launch does to the counters. -/
structure DecCtx.Launched (c c' : DecCtx) : Prop where
  lt : c.iNumFrmBlk1 + 1 < 2 ^ 31
  iStackSize : c.iStackSize = c'.iStackSize
  Sem : c.Sem = c'.Sem
  iNumFrmBlk1 : c'.iNumFrmBlk1 = c.iNumFrmBlk1 + 1
  iNumFrmBlk2 : c.iNumFrmBlk2 = c'.iNumFrmBlk2
  uToggle : c'.uToggle = (c.iNumFrmBlk1 + 1) % c.iStackSize
  uRefList : c.uRefList = c'.uRefList
  frmAccess : c.frmAccess = c'.frmAccess
  mvAccess : c.mvAccess = c'.mvAccess
  bBeginFrameIsValid : c'.bBeginFrameIsValid = false

theorem DecCtx.endFrame_launched {c c' : DecCtx} (h : c.endFrame = some c') :
    c.Launched c' ∧
      c'.toggles = Function.update c.toggles ((c.iNumFrmBlk1 + 1) % c.iStackSize)
        { c.toggles ((c.iNumFrmBlk1 + 1) % c.iStackSize) with PoolPP := 0 } ∧
      c'.iStreamOffset = Function.update c.iStreamOffset (c.iNumFrmBlk1 % c.iStackSize)
        ((c.iOffset + c.iAvailSize) % c.uSize) ∧
      c'.iCurOffset = c.iCurOffset ∧ c'.iOffset = c.iOffset ∧ c'.iAvailSize = c.iAvailSize ∧
      c'.uSize = c.uSize := by
  obtain ⟨c₁, hlaunch, h⟩ := Option.bind_eq_some_iff.mp h
  obtain rfl := Option.some.inj h
  unfold launchFrameDecoding at hlaunch
  dsimp only at hlaunch
  split at hlaunch
  case isFalse => exact absurd hlaunch (by simp)
  next hlt =>
  obtain rfl := Option.some.inj hlaunch
  exact ⟨⟨hlt, rfl, rfl, rfl, rfl, rfl, rfl, rfl, rfl, rfl⟩, rfl, rfl, rfl, rfl, rfl, rfl⟩

theorem DecCtx.finishPreviousFrame_launched {c c' : DecCtx} {PoolSP : ℕ}
    (h : c.finishPreviousFrame PoolSP = some c') :
    c.Launched c' ∧
      c'.toggles = Function.update (c.setToggle { c.toggles c.uToggle with PoolSP }).toggles
        ((c.iNumFrmBlk1 + 1) % c.iStackSize)
        { (c.setToggle { c.toggles c.uToggle with PoolSP }).toggles
          ((c.iNumFrmBlk1 + 1) % c.iStackSize) with PoolPP := 0 } ∧
      c'.iStreamOffset = Function.update c.iStreamOffset (c.iNumFrmBlk1 % c.iStackSize)
        ((c.iOffset + c.iAvailSize) % c.uSize) ∧
      c'.iCurOffset = c.iCurOffset ∧ c'.iOffset = c.iOffset ∧ c'.iAvailSize = c.iAvailSize ∧
      c'.uSize = c.uSize := by
  obtain ⟨hl, htoggles, hstream, hsame⟩ := DecCtx.endFrame_launched h
  -- the launch writes over the offset that was copied
  rw [Function.update_idem] at hstream
  exact ⟨⟨hl.lt, hl.iStackSize, hl.Sem, hl.iNumFrmBlk1, hl.iNumFrmBlk2, hl.uToggle, hl.uRefList,
    hl.frmAccess, hl.mvAccess, hl.bBeginFrameIsValid⟩, htoggles, hstream, hsame⟩

namespace FrameUse

/-- The references that the started frames lock. -/
def lockedRefs (s : FrameUse) : List (List (ℕ × ℕ)) :=
  s.begun.toList.map (·.refs) ++ (s.abandoned.map (·.refs) ++ s.inFlight.map (·.refs))

/-- The frames that are started and not completed. -/
def numStarted (s : FrameUse) : ℕ := s.begun.toList.length + s.abandoned.length + s.inFlight.length

/-- The frames in flight have their slots and their locks. -/
structure FramesHeld (s : FrameUse) : Prop where
  started_le : s.numStarted ≤ s.ctx.iStackSize
  notReused : ∀ f ∈ s.inFlight, s.ctx.toggles f.slot = f.buffers
  frmAccess : ∀ i, s.ctx.frmAccess i = (s.lockedRefs.flatten.map Prod.fst).count i
  mvAccess : ∀ i, s.ctx.mvAccess i = (s.lockedRefs.flatten.map Prod.snd).count i
  returned : ∀ p ∈ s.returned, p.1 = p.2

/-- The counters, the slots and the locks fit the frames. -/
structure Ring (s : FrameUse) : Prop where
  stack_pos : 0 < s.ctx.iStackSize
  stack_le : s.ctx.iStackSize ≤ maxStackSize
  permits : s.ctx.Sem + s.numStarted = s.ctx.iStackSize
  counters : s.ctx.iNumFrmBlk1 = s.ctx.iNumFrmBlk2 + s.inFlight.length
  blk1_lt : s.ctx.iNumFrmBlk1 < 2 ^ 31
  toggle : s.ctx.uToggle = s.ctx.iNumFrmBlk1 % s.ctx.iStackSize
  flag : s.ctx.bBeginFrameIsValid = s.begun.isSome
  slots : s.inFlight.map (·.slot) =
    RingQueues.contents id s.ctx.iStackSize s.ctx.iNumFrmBlk2 s.inFlight.length
  lists : s.inFlight.map (·.refs) =
    RingQueues.contents s.ctx.uRefList maxStackSize s.ctx.iNumFrmBlk2 s.inFlight.length
  begunList : ∀ r ∈ s.begun.map (·.refs), s.ctx.uRefList (s.ctx.iNumFrmBlk1 % maxStackSize) = r
  frmAccess : ∀ i, s.ctx.frmAccess i = (s.lockedRefs.flatten.map Prod.fst).count i
  mvAccess : ∀ i, s.ctx.mvAccess i = (s.lockedRefs.flatten.map Prod.snd).count i
  returned : ∀ p ∈ s.returned, p.1 = p.2

variable {s s' : FrameUse}

theorem start_ring {iStackSize : ℕ} (uSize : ℕ) (hpos : 0 < iStackSize) (hle : iStackSize ≤ maxStackSize) :
    (start iStackSize uSize).Ring where
  stack_pos := hpos
  stack_le := hle
  permits := rfl
  counters := rfl
  blk1_lt := Nat.two_pow_pos 31
  toggle := (Nat.zero_mod _).symm
  flag := rfl
  slots := rfl
  lists := rfl
  begunList _ h := absurd h (Option.not_mem_none _)
  frmAccess _ := rfl
  mvAccess _ := rfl
  returned _ h := absurd h List.not_mem_nil

/-- What touches neither counters nor locks keeps the ring. -/
theorem Ring.of_same (h : s.Ring) (hctx : s.ctx.SameRing s'.ctx)
    (hbegun : s'.begun.map (·.refs) = s.begun.map (·.refs)) (habandoned : s'.abandoned = s.abandoned)
    (hinFlight : s'.inFlight = s.inFlight) (hreturned : s'.returned = s.returned) : s'.Ring := by
  have hlist : s'.begun.toList.map (·.refs) = s.begun.toList.map (·.refs) := by
    rw [← Option.toList_map, ← Option.toList_map, hbegun]
  have hlocked : s'.lockedRefs = s.lockedRefs := by
    unfold lockedRefs
    rw [hlist, habandoned, hinFlight]
  have hnum : s'.numStarted = s.numStarted := by
    have hlen := congrArg List.length hlist
    rw [List.length_map, List.length_map] at hlen
    unfold numStarted
    rw [hlen, habandoned, hinFlight]
  have hsome : s'.begun.isSome = s.begun.isSome := by
    rw [← Option.isSome_map (f := (·.refs)), hbegun, Option.isSome_map]
  obtain ⟨hstack, hsem, hblk1, hblk2, htoggle, hrefs, hfrm, hmv, hflag⟩ := hctx
  refine ⟨?_, ?_, ?_, ?_, ?_, ?_, ?_, ?_, ?_, ?_, ?_, ?_, ?_⟩
  · exact hstack ▸ h.stack_pos
  · exact hstack ▸ h.stack_le
  · rw [← hsem, hnum, ← hstack]
    exact h.permits
  · rw [← hblk1, ← hblk2, hinFlight]
    exact h.counters
  · exact hblk1 ▸ h.blk1_lt
  · rw [← htoggle, ← hblk1, ← hstack]
    exact h.toggle
  · rw [← hflag, hsome]
    exact h.flag
  · rw [hinFlight, ← hstack, ← hblk2]
    exact h.slots
  · rw [hinFlight, ← hrefs, ← hblk2]
    exact h.lists
  · rw [hbegun, ← hrefs, ← hblk1]
    exact h.begunList
  · rw [hlocked, ← hfrm]
    exact h.frmAccess
  · rw [hlocked, ← hmv]
    exact h.mvAccess
  · rw [hreturned]
    exact h.returned

theorem Ring.begun_isSome (h : s.Ring) (hflag : s.ctx.bBeginFrameIsValid = true) :
    ∃ f, s.begun = some f :=
  Option.isSome_iff_exists.mp (h.flag ▸ hflag)

theorem Ring.launch (h : s.Ring) (hflag : s.ctx.bBeginFrameIsValid = true) {c : DecCtx}
    (hctx : s.ctx.Launched s'.ctx) (hbegun : s'.begun = none) (habandoned : s'.abandoned = s.abandoned)
    (hc : c.uToggle = s.ctx.uToggle) (hinFlight : s'.inFlight = s.inFlight ++ s.launched c)
    (hreturned : s'.returned = s.returned) : s'.Ring := by
  obtain ⟨f, hf⟩ := h.begun_isSome hflag
  have hlaunched : s.launched c = [⟨f, c.uToggle, c.toggles c.uToggle, s.nal.2⟩] := by
    unfold launched
    rw [hf]
    rfl
  rw [hlaunched] at hinFlight
  have hlen : s'.inFlight.length = s.inFlight.length + 1 := by
    rw [hinFlight, List.length_append, List.length_singleton]
  have hnum : s'.numStarted = s.numStarted := by
    unfold numStarted
    rw [hbegun, habandoned, hlen, hf]
    simp only [Option.toList_none, Option.toList_some, List.length_nil, List.length_singleton]
    omega
  have hperm : s'.lockedRefs.Perm s.lockedRefs := by
    unfold lockedRefs
    have hswap : (s.abandoned.map (·.refs) ++ s.inFlight.map (·.refs) ++ [f.refs]).Perm
        ([f.refs] ++ (s.abandoned.map (·.refs) ++ s.inFlight.map (·.refs))) := List.perm_append_comm
    rw [hbegun, habandoned, hinFlight, hf, List.map_append, ← List.append_assoc (List.map _ s.abandoned)]
    exact hswap
  have hfree : s.inFlight.length < s.ctx.iStackSize := by
    have := h.permits
    unfold numStarted at this
    rw [hf, Option.toList_some, List.length_singleton] at this
    omega
  have hle := h.stack_le
  refine ⟨?_, ?_, ?_, ?_, ?_, ?_, ?_, ?_, ?_, ?_, ?_, ?_, ?_⟩
  · exact hctx.iStackSize ▸ h.stack_pos
  · exact hctx.iStackSize ▸ h.stack_le
  · rw [hnum, ← hctx.Sem, ← hctx.iStackSize]
    exact h.permits
  · rw [hctx.iNumFrmBlk1, ← hctx.iNumFrmBlk2, hlen, h.counters, Nat.add_assoc]
  · rw [hctx.iNumFrmBlk1]
    exact hctx.lt
  · rw [hctx.uToggle, hctx.iNumFrmBlk1, ← hctx.iStackSize]
  · rw [hctx.bBeginFrameIsValid, hbegun]
    rfl
  · rw [hlen, ← hctx.iStackSize, ← hctx.iNumFrmBlk2, hinFlight, List.map_append, h.slots,
      RingQueues.contents_succ, ← h.counters, List.map_singleton, hc, h.toggle]
    rfl
  · rw [hlen, ← hctx.uRefList, ← hctx.iNumFrmBlk2, hinFlight, List.map_append, h.lists,
      RingQueues.contents_succ, ← h.counters, List.map_singleton,
      h.begunList f.refs (by rw [hf]; rfl)]
  · rw [hbegun]
    exact nofun
  · intro i
    rw [← hctx.frmAccess, h.frmAccess i, (hperm.flatten.map _).count_eq]
  · intro i
    rw [← hctx.mvAccess, h.mvAccess i, (hperm.flatten.map _).count_eq]
  · rw [hreturned]
    exact h.returned

/-- A frame that starts takes a permit and locks its references. -/
theorem Ring.start (h : s.Ring) {d : Dpb} {begun : Bool} (ha : s.Allowed (.start d begun))
    (hs : s.step (.start d begun) = some s') : s'.Ring := by
  obtain rfl := Option.some.inj hs
  obtain ⟨-, hflag, hsem⟩ := ha
  cases begun with
  | false =>
    refine h.of_same ⟨rfl, ?_, rfl, rfl, rfl, rfl, rfl, rfl, rfl⟩ rfl rfl rfl rfl
    show s.ctx.Sem = s.ctx.Sem - 1 + 1
    omega
  | true =>
    have hnone : s.begun = none := by
      have := h.flag
      rw [hflag] at this
      exact Option.isNone_iff_eq_none.mp (by simpa using this.symm)
    have hpermits := h.permits
    have hcounters := h.counters
    have hle := h.stack_le
    have hlists := h.lists
    have hlocked : s.lockedRefs = s.abandoned.map (·.refs) ++ s.inFlight.map (·.refs) := by
      unfold lockedRefs
      rw [hnone]
      rfl
    unfold numStarted at hpermits
    rw [hnone, Option.toList_none, List.length_nil, Nat.zero_add] at hpermits
    unfold DecCtx.initFrameBuffers
    simp only [if_true]
    rw [DecCtx.lockRefID_eq]
    refine ⟨h.stack_pos, h.stack_le, ?_, h.counters, h.blk1_lt, h.toggle, rfl, h.slots, ?_, ?_, ?_, ?_,
      h.returned⟩
    · show s.ctx.Sem - 1 + (1 + s.abandoned.length + s.inFlight.length) = s.ctx.iStackSize
      omega
    · show s.inFlight.map (·.refs) = RingQueues.contents (Function.update s.ctx.uRefList _ _) _ _ _
      rw [hcounters, RingQueues.contents_update (by omega)]
      exact hlists
    · intro r hr
      obtain rfl : initRefList d = r := by simpa using hr
      exact Function.update_self ..
    · intro i
      show s.ctx.frmAccess i + _ = (((initRefList d :: _).flatten).map Prod.fst).count i
      rw [List.flatten_cons, List.map_append, List.count_append, h.frmAccess i, hlocked]
      push_cast
      exact add_comm _ _
    · intro i
      show s.ctx.mvAccess i + _ = (((initRefList d :: _).flatten).map Prod.snd).count i
      rw [List.flatten_cons, List.map_append, List.count_append, h.mvAccess i, hlocked]
      push_cast
      exact add_comm _ _

/-- The references of a frame that ends are those that it locked. -/
theorem unlock_eq {c : DecCtx} {refs : List (ℕ × ℕ)} {locked rest : List (List (ℕ × ℕ))}
    (hperm : locked.Perm (refs :: rest))
    (hfrm : ∀ i, c.frmAccess i = (locked.flatten.map Prod.fst).count i)
    (hmv : ∀ i, c.mvAccess i = (locked.flatten.map Prod.snd).count i) (i : ℕ) :
    c.frmAccess i - (refs.map Prod.fst).count i = (rest.flatten.map Prod.fst).count i ∧
      c.mvAccess i - (refs.map Prod.snd).count i = (rest.flatten.map Prod.snd).count i := by
  rw [hfrm, hmv, (hperm.flatten.map _).count_eq, (hperm.flatten.map _).count_eq, List.flatten_cons,
    List.map_append, List.map_append, List.count_append, List.count_append]
  push_cast
  exact ⟨add_sub_cancel_left _ _, add_sub_cancel_left _ _⟩

theorem Ring.cancel (h : s.Ring) (ha : s.Allowed .cancel) (hs : s.step .cancel = some s') :
    s'.Ring := by
  obtain rfl := Option.some.inj hs
  obtain ⟨f, hf⟩ := h.begun_isSome ha
  have hlist := h.begunList f.refs (by rw [hf]; rfl)
  have hlocked : s.lockedRefs = f.refs :: (s.abandoned.map (·.refs) ++ s.inFlight.map (·.refs)) := by
    unfold lockedRefs
    rw [hf]
    rfl
  have hpermits := h.permits
  unfold numStarted at hpermits
  rw [hf, Option.toList_some, List.length_singleton] at hpermits
  have hunlock := unlock_eq (List.Perm.of_eq hlocked) h.frmAccess h.mvAccess
  unfold DecCtx.cancelFrameBuffers
  rw [hlist, DecCtx.unlockRefID_eq, hf]
  refine ⟨h.stack_pos, h.stack_le, ?_, h.counters, h.blk1_lt, h.toggle, rfl, h.slots, h.lists, nofun,
    fun i => (hunlock i).1, fun i => (hunlock i).2, ?_⟩
  · show s.ctx.Sem + 1 + (0 + s.abandoned.length + s.inFlight.length) = s.ctx.iStackSize
    omega
  · intro p hp
    rcases List.mem_append.mp hp with hp | hp
    · exact h.returned p hp
    · obtain rfl : p = (f.refs, f.refs) := by simpa using hp
      rfl

/-- A frame that is left alone keeps its permit and its locks. -/
theorem Ring.resetValidFlags (h : s.Ring) (hs : s.step .resetValidFlags = some s') : s'.Ring := by
  obtain rfl := Option.some.inj hs
  have hperm : (List.map (·.refs) (s.abandoned ++ s.begun.toList) ++ s.inFlight.map (·.refs)).Perm
      s.lockedRefs := by
    unfold lockedRefs
    rw [List.map_append, ← List.append_assoc]
    exact List.perm_append_comm.append_right _
  have hpermits := h.permits
  unfold numStarted at hpermits
  refine ⟨h.stack_pos, h.stack_le, ?_, h.counters, h.blk1_lt, h.toggle, rfl, h.slots, h.lists, nofun,
    ?_, ?_, h.returned⟩
  · show s.ctx.Sem + (0 + (s.abandoned ++ s.begun.toList).length + s.inFlight.length) =
      s.ctx.iStackSize
    rw [List.length_append]
    omega
  · intro i
    show s.ctx.frmAccess i = ((List.flatten (_ ++ s.inFlight.map (·.refs))).map Prod.fst).count i
    rw [h.frmAccess i, (hperm.flatten.map _).count_eq]
  · intro i
    show s.ctx.mvAccess i = ((List.flatten (_ ++ s.inFlight.map (·.refs))).map Prod.snd).count i
    rw [h.mvAccess i, (hperm.flatten.map _).count_eq]

theorem Ring.inFlight_cons (h : s.Ring) {f : LaunchedFrame} {rest : List LaunchedFrame}
    (hf : s.inFlight = f :: rest) :
    f.slot = s.ctx.iNumFrmBlk2 % s.ctx.iStackSize ∧
      s.ctx.uRefList (s.ctx.iNumFrmBlk2 % maxStackSize) = f.refs := by
  have hslots := h.slots
  have hlists := h.lists
  rw [hf, List.map_cons, List.length_cons, RingQueues.contents_pop (Nat.succ_ne_zero _),
    List.cons.injEq] at hslots hlists
  exact ⟨hslots.1, hlists.1.symm⟩

theorem Ring.endDecoding (h : s.Ring) (hs : s.step (.endDecoding 0) = some s') : s'.Ring := by
  obtain ⟨f, hf, hs⟩ := Option.bind_eq_some_iff.mp hs
  obtain ⟨ctx, hctx, hs⟩ := Option.bind_eq_some_iff.mp hs
  obtain rfl := Option.some.inj hs
  obtain ⟨rest, hrest⟩ : ∃ rest, s.inFlight = f :: rest := by
    cases hl : s.inFlight with
    | nil => simp [hl] at hf
    | cons e rest => exact ⟨rest, by simpa [hl] using hf⟩
  obtain ⟨-, hlist⟩ := h.inFlight_cons hrest
  have hperm : s.lockedRefs.Perm
      (f.refs :: (s.begun.toList.map (·.refs) ++ (s.abandoned.map (·.refs) ++ rest.map (·.refs)))) := by
    unfold lockedRefs
    rw [hrest, List.map_cons, ← List.append_assoc, ← List.append_assoc]
    exact List.perm_middle
  have hunlock := unlock_eq hperm h.frmAccess h.mvAccess
  have hpermits := h.permits
  have hcounters := h.counters
  have hslots := h.slots
  have hlists := h.lists
  unfold numStarted at hpermits
  rw [hrest, List.length_cons] at hpermits hcounters hslots hlists
  rw [List.map_cons, RingQueues.contents_pop (Nat.succ_ne_zero _), List.cons.injEq,
    RingQueues.contents_mod] at hslots hlists
  unfold DecCtx.endDecoding at hctx
  rw [hlist, DecCtx.unlockRefID_eq] at hctx
  dsimp only at hctx
  split at hctx
  case isFalse => exact absurd hctx (by simp)
  next hlt =>
  obtain rfl := Option.some.inj hctx
  rw [hrest, List.eraseIdx_cons_zero]
  refine ⟨h.stack_pos, h.stack_le, ?_, ?_, h.blk1_lt, h.toggle, h.flag, hslots.2, hlists.2, h.begunList,
    fun i => (hunlock i).1, fun i => (hunlock i).2, ?_⟩
  · show s.ctx.Sem + 1 + (s.begun.toList.length + s.abandoned.length + rest.length) = s.ctx.iStackSize
    omega
  · show s.ctx.iNumFrmBlk1 = s.ctx.iNumFrmBlk2 + 1 + rest.length
    omega
  · intro p hp
    rcases List.mem_append.mp hp with hp | hp
    · exact h.returned p hp
    · rw [List.mem_singleton.mp hp]
      exact hlist.symm

theorem Ring.endFrame (h : s.Ring) (ha : s.Allowed .endFrame) (hs : s.step .endFrame = some s') :
    s'.Ring := by
  obtain ⟨ctx, hctx, hs⟩ := Option.bind_eq_some_iff.mp hs
  obtain rfl := Option.some.inj hs
  exact h.launch ha (DecCtx.endFrame_launched hctx).1 rfl rfl rfl rfl rfl

theorem Ring.finishPreviousFrame (h : s.Ring) {PoolSP : ℕ}
    (ha : s.Allowed (.finishPreviousFrame PoolSP))
    (hs : s.step (.finishPreviousFrame PoolSP) = some s') : s'.Ring := by
  obtain ⟨ctx, hctx, hs⟩ := Option.bind_eq_some_iff.mp hs
  obtain rfl := Option.some.inj hs
  obtain ⟨hl, -⟩ := DecCtx.finishPreviousFrame_launched hctx
  exact h.launch (c := s.ctx.setToggle { s.ctx.toggles s.ctx.uToggle with PoolSP }) ha hl rfl rfl rfl
    rfl rfl

/-- One step of the decoder, in which the frames are reported in their order. -/
theorem Ring.step (h : s.Ring) {op : FrameOp} (ha : s.Allowed op) (ho : s.InOrder op)
    (hs : s.step op = some s') : s'.Ring := by
  cases op with
  | start d begun => exact h.start ha hs
  | cancel => exact h.cancel ha hs
  | resetValidFlags => exact h.resetValidFlags hs
  | endFrame => exact h.endFrame ha hs
  | finishPreviousFrame PoolSP => exact h.finishPreviousFrame ha hs
  | endDecoding k =>
    obtain rfl : k = 0 := ho
    exact h.endDecoding hs
  | takeSlice =>
    obtain rfl := Option.some.inj hs
    refine h.of_same ⟨rfl, rfl, rfl, rfl, rfl, rfl, rfl, rfl, rfl⟩ ?_ rfl rfl rfl
    rw [Option.map_map]
    rfl
  | nal first last =>
    obtain rfl := Option.some.inj hs
    exact h.of_same ⟨rfl, rfl, rfl, rfl, rfl, rfl, rfl, rfl, rfl⟩ rfl rfl rfl rfl
  | fill b =>
    obtain rfl := Option.some.inj hs
    exact h.of_same ⟨rfl, rfl, rfl, rfl, rfl, rfl, rfl, rfl, rfl⟩ rfl rfl rfl rfl
  | launchSlice =>
    obtain rfl := Option.some.inj hs
    exact h.of_same ⟨rfl, rfl, rfl, rfl, rfl, rfl, rfl, rfl, rfl⟩ rfl rfl rfl rfl
  | skip =>
    obtain rfl := Option.some.inj hs
    exact h.of_same ⟨rfl, rfl, rfl, rfl, rfl, rfl, rfl, rfl, rfl⟩ rfl rfl rfl rfl
  | consume =>
    obtain rfl := Option.some.inj hs
    exact h.of_same ⟨rfl, rfl, rfl, rfl, rfl, rfl, rfl, rfl, rfl⟩ rfl rfl rfl rfl
  | flushInput =>
    obtain rfl := Option.some.inj hs
    exact h.of_same ⟨rfl, rfl, rfl, rfl, rfl, rfl, rfl, rfl, rfl⟩ rfl rfl rfl rfl

/-- A launch goes through while its counter does not overflow. -/
theorem step_isSome (h : s.Ring) {op : FrameOp} (ha : s.Allowed op) (ho : s.InOrder op) :
    ∃ s', s.step op = some s' := by
  have hend : ∀ c : DecCtx, c.iNumFrmBlk1 + 1 < 2 ^ 31 → ∃ c', c.endFrame = some c' := by
    intro c hlt
    have hlt : c.updateStreamOffset.iNumFrmBlk1 + 1 < 2 ^ 31 := hlt
    unfold DecCtx.endFrame DecCtx.launchFrameDecoding
    dsimp only
    rw [if_pos hlt]
    exact ⟨_, rfl⟩
  cases op with
  | endFrame =>
    obtain ⟨c, hc⟩ := hend _ ho
    unfold FrameUse.step
    dsimp only
    rw [hc]
    exact ⟨_, rfl⟩
  | finishPreviousFrame PoolSP =>
    obtain ⟨c, hc⟩ : ∃ c, s.ctx.finishPreviousFrame PoolSP = some c := hend _ ho
    unfold FrameUse.step
    dsimp only
    rw [hc]
    exact ⟨_, rfl⟩
  | endDecoding k =>
    obtain rfl : k = 0 := ho
    have hlen : 0 < s.inFlight.length := ha
    have hblk := h.blk1_lt
    rw [h.counters] at hblk
    obtain ⟨c, hc⟩ : ∃ c, s.ctx.endDecoding = some c := by
      unfold DecCtx.endDecoding
      rw [DecCtx.unlockRefID_eq]
      dsimp only
      rw [if_pos (by omega)]
      exact ⟨_, rfl⟩
    unfold FrameUse.step
    dsimp only
    rw [List.getElem?_eq_getElem hlen, hc]
    exact ⟨_, rfl⟩
  | _ => exact ⟨_, rfl⟩

/-! ## The slots -/

/-- The condition: a slice fills parameters in before its frame starts, or is skipped,
only while fewer frames are in flight than the stack has slots, and at a launch one
slot more is free; the frames are reported in the order of their launches. -/
def SlotFree (s : FrameUse) : FrameOp → Prop
  | .fill _ => s.ctx.bBeginFrameIsValid = true ∨ s.inFlight.length < s.ctx.iStackSize
  | .skip => s.ctx.bBeginFrameIsValid = true ∨ s.inFlight.length < s.ctx.iStackSize
  | .endFrame => s.inFlight.length + 1 < s.ctx.iStackSize
  | .finishPreviousFrame _ => s.inFlight.length + 1 < s.ctx.iStackSize
  | _ => True

instance (s : FrameUse) : ∀ op, Decidable (s.SlotFree op)
  | .fill _ => inferInstanceAs (Decidable (_ ∨ _))
  | .skip => inferInstanceAs (Decidable (_ ∨ _))
  | .endFrame => inferInstanceAs (Decidable (_ < _))
  | .finishPreviousFrame _ => inferInstanceAs (Decidable (_ < _))
  | .nal _ _ => isTrue trivial
  | .start _ _ => isTrue trivial
  | .takeSlice => isTrue trivial
  | .launchSlice => isTrue trivial
  | .cancel => isTrue trivial
  | .resetValidFlags => isTrue trivial
  | .endDecoding _ => isTrue trivial
  | .consume => isTrue trivial
  | .flushInput => isTrue trivial

/-- The slots of the frames in flight are as they were launched. -/
def Untouched (s : FrameUse) : Prop :=
  s.inFlight.map (·.buffers) =
    RingQueues.contents s.ctx.toggles s.ctx.iStackSize s.ctx.iNumFrmBlk2 s.inFlight.length

theorem Ring.held (h : s.Ring) (hu : s.Untouched) : s.FramesHeld where
  started_le := by
    have := h.permits
    omega
  notReused := by
    have hmap : s.inFlight.map (·.buffers) = s.inFlight.map fun f => s.ctx.toggles f.slot := by
      have hslots := congrArg (List.map s.ctx.toggles) h.slots
      rw [List.map_map] at hslots
      refine hu.trans (Eq.trans ?_ hslots.symm)
      unfold RingQueues.contents
      rw [List.map_map]
      rfl
    intro f hf
    exact (List.map_inj_left.mp hmap f hf).symm
  frmAccess := h.frmAccess
  mvAccess := h.mvAccess
  returned := h.returned

theorem Ring.begun_free (h : s.Ring) (hflag : s.ctx.bBeginFrameIsValid = true) :
    s.inFlight.length < s.ctx.iStackSize := by
  obtain ⟨f, hf⟩ := h.begun_isSome hflag
  have hpermits := h.permits
  unfold numStarted at hpermits
  rw [hf, Option.toList_some, List.length_singleton] at hpermits
  omega

/-- Writing the slot that is next touches no frame in flight. -/
theorem Untouched.setToggle (hu : s.Untouched) (h : s.Ring)
    (hfree : s.ctx.bBeginFrameIsValid = true ∨ s.inFlight.length < s.ctx.iStackSize)
    (b : ToggleBuffers) :
    s.inFlight.map (·.buffers) = RingQueues.contents (s.ctx.setToggle b).toggles s.ctx.iStackSize
      s.ctx.iNumFrmBlk2 s.inFlight.length := by
  unfold DecCtx.setToggle
  dsimp only
  rw [h.toggle, h.counters, RingQueues.contents_update (hfree.elim h.begun_free id)]
  exact hu

/-- The launch adds the slot of the frame and clears the picture parameters of the next. -/
theorem Untouched.launch (h : s.Ring) (hflag : s.ctx.bBeginFrameIsValid = true)
    (hfree : s.inFlight.length + 1 < s.ctx.iStackSize) {c c' : DecCtx} {b : ToggleBuffers}
    (hu : s.inFlight.map (·.buffers) = RingQueues.contents c.toggles s.ctx.iStackSize
      s.ctx.iNumFrmBlk2 s.inFlight.length)
    (hc : c.uToggle = s.ctx.uToggle)
    (hc' : c'.toggles = Function.update c.toggles ((s.ctx.iNumFrmBlk1 + 1) % s.ctx.iStackSize) b) :
    (s.inFlight ++ s.launched c).map (·.buffers) = RingQueues.contents c'.toggles s.ctx.iStackSize
      s.ctx.iNumFrmBlk2 (s.inFlight ++ s.launched c).length := by
  obtain ⟨f, hf⟩ := h.begun_isSome hflag
  unfold launched
  rw [hf, hc', h.counters, Nat.add_assoc, List.length_append, List.map_append, hu]
  simp only [Option.toList_some, List.map_cons, List.map_nil, List.length_singleton]
  rw [RingQueues.contents_update hfree, RingQueues.contents_succ, hc, h.toggle, h.counters]

theorem Untouched.step (hu : s.Untouched) (h : s.Ring) {op : FrameOp} (ha : s.Allowed op)
    (ho : s.InOrder op) (hf : s.SlotFree op) (hs : s.step op = some s') : s'.Untouched := by
  cases op with
  | fill b =>
    obtain rfl := Option.some.inj hs
    exact hu.setToggle h hf b
  | skip =>
    obtain rfl := Option.some.inj hs
    exact hu.setToggle h hf _
  | cancel =>
    obtain rfl := Option.some.inj hs
    show s.inFlight.map (·.buffers) = RingQueues.contents s.ctx.cancelFrameBuffers.toggles _ _ _
    unfold DecCtx.cancelFrameBuffers
    rw [DecCtx.unlockRefID_eq]
    exact hu.setToggle h (.inl ha) _
  | start d begun =>
    obtain rfl := Option.some.inj hs
    unfold Untouched DecCtx.initFrameBuffers
    cases begun with
    | false => exact hu
    | true =>
      simp only [if_true]
      rw [DecCtx.lockRefID_eq]
      exact hu
  | endFrame =>
    obtain ⟨ctx, hctx, hs⟩ := Option.bind_eq_some_iff.mp hs
    obtain rfl := Option.some.inj hs
    obtain ⟨hl, htoggles, -⟩ := DecCtx.endFrame_launched hctx
    show (s.inFlight ++ _).map _ = RingQueues.contents ctx.toggles ctx.iStackSize ctx.iNumFrmBlk2 _
    rw [← hl.iStackSize, ← hl.iNumFrmBlk2]
    exact Untouched.launch h ha hf hu rfl htoggles
  | finishPreviousFrame PoolSP =>
    obtain ⟨ctx, hctx, hs⟩ := Option.bind_eq_some_iff.mp hs
    obtain rfl := Option.some.inj hs
    obtain ⟨hl, htoggles, -⟩ := DecCtx.finishPreviousFrame_launched hctx
    show (s.inFlight ++ _).map _ = RingQueues.contents ctx.toggles ctx.iStackSize ctx.iNumFrmBlk2 _
    rw [← hl.iStackSize, ← hl.iNumFrmBlk2]
    exact Untouched.launch (c := s.ctx.setToggle { s.ctx.toggles s.ctx.uToggle with PoolSP }) h ha hf
      (hu.setToggle h (.inl ha) _) rfl htoggles
  | endDecoding k =>
    obtain rfl : k = 0 := ho
    obtain ⟨f, hf, hs⟩ := Option.bind_eq_some_iff.mp hs
    obtain ⟨ctx, hctx, hs⟩ := Option.bind_eq_some_iff.mp hs
    obtain rfl := Option.some.inj hs
    unfold DecCtx.endDecoding at hctx
    rw [DecCtx.unlockRefID_eq] at hctx
    dsimp only at hctx
    split at hctx
    case isFalse => exact absurd hctx (by simp)
    next hlt =>
    obtain rfl := Option.some.inj hctx
    show (s.inFlight.eraseIdx 0).map _ = RingQueues.contents s.ctx.toggles s.ctx.iStackSize
      (s.ctx.iNumFrmBlk2 + 1) (s.inFlight.eraseIdx 0).length
    have hlen : (s.inFlight.eraseIdx 0).length = s.inFlight.length - 1 := by
      rw [List.eraseIdx_zero, List.length_tail]
    rw [hlen, RingQueues.contents_tail, ← hu, List.eraseIdx_zero, List.map_tail]
  | nal first last =>
    obtain rfl := Option.some.inj hs
    exact hu
  | takeSlice =>
    obtain rfl := Option.some.inj hs
    exact hu
  | launchSlice =>
    obtain rfl := Option.some.inj hs
    exact hu
  | resetValidFlags =>
    obtain rfl := Option.some.inj hs
    exact hu
  | consume =>
    obtain rfl := Option.some.inj hs
    exact hu
  | flushInput =>
    obtain rfl := Option.some.inj hs
    exact hu

/-! ## Runs -/

/-- In every run that touches only free slots the frames in flight keep their slots and
their locks. -/
theorem run_framesHeld {iStackSize uSize : ℕ} {ops : List FrameOp} (hpos : 0 < iStackSize)
    (hle : iStackSize ≤ maxStackSize)
    (hg : GuardedRuns.Guarded step (fun s op => s.Allowed op ∧ s.InOrder op ∧ s.SlotFree op) ops
      (start iStackSize uSize)) :
    ∃ s, GuardedRuns.run step ops (start iStackSize uSize) = some s ∧ s.FramesHeld := by
  have hstep : ∀ (s : FrameUse) op, (s.Ring ∧ s.Untouched) →
      (s.Allowed op ∧ s.InOrder op ∧ s.SlotFree op) →
      ∃ s', s.step op = some s' ∧ s'.Ring ∧ s'.Untouched := by
    rintro s op ⟨h, hu⟩ ⟨ha, ho, hf⟩
    obtain ⟨s', hs⟩ := step_isSome h ha ho
    exact ⟨s', hs, h.step ha ho hs, hu.step h ha ho hf hs⟩
  obtain ⟨s, hrun, h, hu⟩ := GuardedRuns.run_of_guarded hstep ⟨start_ring uSize hpos hle, rfl⟩ hg
  exact ⟨s, hrun, h.held hu⟩

/-- A frame with no reference and one with a reference, through a stack of three slots. -/
def twoPictures (d : Dpb) : List FrameOp :=
  [.nal 0 10, .start d true, .fill ⟨1, 2, 3⟩, .takeSlice, .endFrame, .resetValidFlags, .nal 10 30,
    .start (d.fillNode (.sample 0 0 .shortTermRef)) true, .fill ⟨4, 5, 6⟩, .takeSlice, .endFrame,
    .resetValidFlags, .endDecoding 0, .consume, .nal 30 40,
    .start (d.fillNode (.sample 0 0 .shortTermRef)) true, .cancel, .endDecoding 0, .consume]

theorem twoPictures_held :
    ∃ s, GuardedRuns.run step (twoPictures (Dpb.zeroed.init 2 .normal)) (start 3 100) = some s ∧
      s.FramesHeld :=
  run_framesHeld (by decide) (by decide) (by decide +kernel)

/-- Two frames in flight in a stack of two slots, and the conceal slice for the lost first
slice of the next. -/
def lostSlice (d : Dpb) : List FrameOp :=
  [.nal 0 10, .start d true, .fill ⟨1, 2, 3⟩, .takeSlice, .endFrame, .resetValidFlags, .nal 10 30,
    .start d true, .fill ⟨4, 5, 6⟩, .takeSlice, .endFrame, .resetValidFlags, .nal 30 40,
    .fill ⟨7, 8, 9⟩]

/-- The conceal slice goes into the slot of a frame in flight. -/
theorem not_run_framesHeld :
    ¬ ∀ (iStackSize uSize : ℕ) (ops : List FrameOp), 0 < iStackSize → iStackSize ≤ maxStackSize →
      GuardedRuns.Guarded step (fun s op => s.Allowed op ∧ s.InOrder op) ops (start iStackSize uSize) →
      ∃ s, GuardedRuns.run step ops (start iStackSize uSize) = some s ∧ s.FramesHeld := by
  intro h
  let ops := lostSlice (Dpb.zeroed.init 2 .normal)
  obtain ⟨s, hrun, hheld⟩ := h 2 100 ops (by decide) (by decide) (by decide +kernel)
  have hslots : (GuardedRuns.run step ops (start 2 100)).map
      (fun s => s.inFlight.all fun f => s.ctx.toggles f.slot = f.buffers) = some false := by
    decide +kernel
  rw [hrun, Option.map_some, Option.some.injEq] at hslots
  have htrue : (s.inFlight.all fun f => s.ctx.toggles f.slot = f.buffers) = true :=
    List.all_eq_true.mpr fun f hf => decide_eq_true (hheld.notReused f hf)
  rw [htrue] at hslots
  exact absurd hslots (by decide)

end FrameUse

end VcuCodec
