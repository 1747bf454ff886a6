import VcuCodec.FrameLocks

/-!
# Requests to the scheduler of the MCU

`lib_decode/DecSchedulerMcu.c` posts start-code searches and frames to the driver and
answers them from two notification threads.  The functions that post return nothing, so
a call that fails leaves the decoder with a search or a frame that no thread answers.
-/

namespace VcuCodec

/-- How far `API_SearchSC` comes. -/
inductive SearchResult
  | noEvent
  | noMessage
  | notOpened
  | notPosted
  | pushed
  deriving DecidableEq

/-- `AL_TScStatus` -/
structure ScStatus where
  uNumSC : ℕ
  uNumBytes : ℕ

/-- What the decoder, the two notification threads and the driver do. -/
inductive SchedulerOp
  /-- A step of the decoder that posts nothing. -/
  | frame (op : FrameOp)
  | decodeOneSlice (posted : Bool)
  | endFrame (posted : Bool)
  | finishPreviousFrame (PoolSP : ℕ) (posted : Bool)
  | searchSC (r : SearchResult)
  /-- `ScNotificationThread` waits for its oldest message; `none` is a wait that fails. -/
  | scStatus (status : Option ScStatus)
  /-- The wait for `ScDetectionComplete` in `RefillStartCodes` returns. -/
  | wakeUp
  /-- `NotificationThread` gets the status of one of the requests. -/
  | status (k : ℕ)
  /-- The wait of `NotificationThread` fails, and it exits. -/
  | statusFailed

/-- The decoder and its requests.  `posted` says that no post of the frame that is
started failed, `requested` says it of the frames in flight; `searching` is the loop of
`RefillStartCodes`, and `waiting` its wait. -/
structure SchedulerUse where
  frames : FrameUse
  posted : Bool
  requested : List Bool
  notifying : Bool
  searching : Bool
  waiting : Bool
  event : Bool
  ScdStatus : ScStatus
  scQueue : ℕ
  searches : ℕ
  answers : ℕ

/-- The steps of the decoder that neither launch nor complete a frame. -/
def FrameOp.PostsNothing : FrameOp → Prop
  | .endFrame => False
  | .finishPreviousFrame _ => False
  | .endDecoding _ => False
  | _ => True

instance : ∀ op : FrameOp, Decidable op.PostsNothing
  | .endFrame => isFalse id
  | .finishPreviousFrame _ => isFalse id
  | .endDecoding _ => isFalse id
  | .nal _ _ => isTrue trivial
  | .fill _ => isTrue trivial
  | .start _ _ => isTrue trivial
  | .takeSlice => isTrue trivial
  | .launchSlice => isTrue trivial
  | .cancel => isTrue trivial
  | .skip => isTrue trivial
  | .resetValidFlags => isTrue trivial
  | .consume => isTrue trivial
  | .flushInput => isTrue trivial

namespace SchedulerUse

def step (s : SchedulerUse) : SchedulerOp → Option SchedulerUse
  | .frame op => do
      let frames ← s.frames.step op
      return { s with
        frames
        posted := match op with
          | .start _ _ => true
          | _ => s.posted }
  | .decodeOneSlice posted => some { s with posted := s.posted && posted }
  | .endFrame posted => do
      let frames ← s.frames.step .endFrame
      return { s with frames, requested := s.requested ++ [s.posted && posted] }
  | .finishPreviousFrame PoolSP posted => do
      let frames ← s.frames.step (.finishPreviousFrame PoolSP)
      return { s with frames, requested := s.requested ++ [s.posted && posted] }
  | .searchSC r => some { s with
      searching := true
      waiting := true
      searches := s.searches + 1
      -- the exits in front of the push free the message and return
      scQueue := if r = .pushed then s.scQueue + 1 else s.scQueue }
  | .scStatus none => some { s with scQueue := s.scQueue - 1 }
  | .scStatus (some status) => some { s with
      scQueue := s.scQueue - 1
      ScdStatus := status
      event := true
      answers := s.answers + 1 }
  | .wakeUp => some { s with
      waiting := false
      event := false
      searching := s.ScdStatus.uNumBytes = 0 }
  | .status k => do
      let frames ← s.frames.step (.endDecoding k)
      return { s with frames, requested := s.requested.eraseIdx k }
  | .statusFailed => some { s with notifying := false }

/-- What the parties keep to: the thread of the decoder does one thing at a time, and the
driver gives the status of requests that it has. -/
def Allowed (s : SchedulerUse) : SchedulerOp → Prop
  | .frame op => s.searching = false ∧ op.PostsNothing ∧ s.frames.Allowed op
  | .decodeOneSlice _ => s.searching = false ∧ s.frames.ctx.bBeginFrameIsValid = true
  | .endFrame _ => s.searching = false ∧ s.frames.Allowed .endFrame
  | .finishPreviousFrame PoolSP _ => s.searching = false ∧ s.frames.Allowed (.finishPreviousFrame PoolSP)
  | .searchSC _ => s.waiting = false
  | .scStatus _ => 0 < s.scQueue
  | .wakeUp => s.waiting = true ∧ s.event = true
  | .status k => s.notifying = true ∧ s.requested[k]? = some true
  | .statusFailed => s.notifying = true

/-- The statuses come in the order of the launches, and the counters do not overflow. -/
def InOrder (s : SchedulerUse) : SchedulerOp → Prop
  | .endFrame _ => s.frames.InOrder .endFrame
  | .finishPreviousFrame PoolSP _ => s.frames.InOrder (.finishPreviousFrame PoolSP)
  | .status k => k = 0
  | _ => True

/-- The condition: the calls and waits succeed and the notification thread is there; no
frame that is started is left alone. -/
def Succeeds (s : SchedulerUse) : SchedulerOp → Prop
  | .frame op =>
    match op with
    | .resetValidFlags => s.frames.begun = none
    | _ => True
  | .endFrame posted => (s.posted && posted) = true ∧ s.notifying = true
  | .finishPreviousFrame _ posted => (s.posted && posted) = true ∧ s.notifying = true
  | .searchSC r => r = .pushed
  | .scStatus status => status.isSome = true
  | .statusFailed => s.frames.inFlight = []
  | _ => True

/-- A new decoder. -/
def start (iStackSize uSize : ℕ) : SchedulerUse where
  frames := .start iStackSize uSize
  posted := true
  requested := []
  notifying := true
  searching := false
  waiting := false
  event := false
  ScdStatus := ⟨0, 0⟩
  scQueue := 0
  searches := 0
  answers := 0

instance (s : SchedulerUse) : ∀ op, Decidable (s.Allowed op)
  | .frame _ => inferInstanceAs (Decidable (_ ∧ _ ∧ _))
  | .decodeOneSlice _ => inferInstanceAs (Decidable (_ ∧ _))
  | .endFrame _ => inferInstanceAs (Decidable (_ ∧ _))
  | .finishPreviousFrame _ _ => inferInstanceAs (Decidable (_ ∧ _))
  | .searchSC _ => inferInstanceAs (Decidable (_ = _))
  | .scStatus _ => inferInstanceAs (Decidable (_ < _))
  | .wakeUp => inferInstanceAs (Decidable (_ ∧ _))
  | .status _ => inferInstanceAs (Decidable (_ ∧ _))
  | .statusFailed => inferInstanceAs (Decidable (_ = _))

instance (s : SchedulerUse) : ∀ op, Decidable (s.InOrder op)
  | .endFrame _ => inferInstanceAs (Decidable (_ < _))
  | .finishPreviousFrame _ _ => inferInstanceAs (Decidable (_ < _))
  | .status _ => inferInstanceAs (Decidable (_ = _))
  | .frame _ => isTrue trivial
  | .decodeOneSlice _ => isTrue trivial
  | .searchSC _ => isTrue trivial
  | .scStatus _ => isTrue trivial
  | .wakeUp => isTrue trivial
  | .statusFailed => isTrue trivial

/-! ## What is answered -/

/-- Every search and every frame is answered, or its request is with the scheduler. -/
structure Answered (s : SchedulerUse) : Prop where
  search : s.waiting = true → s.event = true ∨ 0 < s.scQueue
  answeredOnce : s.searches = s.answers + s.scQueue
  requested : s.requested = List.replicate s.frames.inFlight.length true
  notifying : s.frames.inFlight ≠ [] → s.notifying = true
  permits : s.frames.ctx.Sem + s.frames.begun.toList.length + s.requested.length =
    s.frames.ctx.iStackSize
  frmAccess : ∀ i, s.frames.ctx.frmAccess i =
    (((s.frames.begun.toList.map (·.refs) ++ s.frames.inFlight.map (·.refs)).flatten).map Prod.fst).count i
  mvAccess : ∀ i, s.frames.ctx.mvAccess i =
    (((s.frames.begun.toList.map (·.refs) ++ s.frames.inFlight.map (·.refs)).flatten).map Prod.snd).count i

/-- The requests follow the frames, and the wait follows the searches. -/
structure Inv (s : SchedulerUse) : Prop where
  ring : s.frames.Ring
  abandoned : s.frames.abandoned = []
  requested : s.requested = List.replicate s.frames.inFlight.length true
  notifying : s.frames.inFlight ≠ [] → s.notifying = true
  wait : s.scQueue + s.event.toNat = s.waiting.toNat
  answeredOnce : s.searches = s.answers + s.scQueue

variable {s s' : SchedulerUse}

theorem Inv.answered (h : s.Inv) : s.Answered where
  search := by
    intro hwaiting
    have hwait := h.wait
    rw [hwaiting] at hwait
    cases hevent : s.event with
    | true => exact .inl rfl
    | false =>
      right
      rw [hevent, Bool.toNat_false, Bool.toNat_true] at hwait
      omega
  answeredOnce := h.answeredOnce
  requested := h.requested
  notifying := h.notifying
  permits := by
    have hpermits := h.ring.permits
    unfold FrameUse.numStarted at hpermits
    rw [h.abandoned, List.length_nil] at hpermits
    rw [h.requested, List.length_replicate]
    omega
  frmAccess := by
    intro i
    have hcount := h.ring.frmAccess i
    unfold FrameUse.lockedRefs at hcount
    rwa [h.abandoned] at hcount
  mvAccess := by
    intro i
    have hcount := h.ring.mvAccess i
    unfold FrameUse.lockedRefs at hcount
    rwa [h.abandoned] at hcount

theorem start_inv {iStackSize : ℕ} (uSize : ℕ) (hpos : 0 < iStackSize) (hle : iStackSize ≤ maxStackSize) :
    (start iStackSize uSize).Inv where
  ring := FrameUse.start_ring uSize hpos hle
  abandoned := rfl
  requested := rfl
  notifying h := absurd rfl h
  wait := rfl
  answeredOnce := rfl

variable {op : FrameOp}

theorem inOrder_of_postsNothing {f : FrameUse} (hop : op.PostsNothing) : f.InOrder op := by
  cases op with
  | endFrame => exact hop.elim
  | finishPreviousFrame PoolSP => exact hop.elim
  | endDecoding k => exact hop.elim
  | _ => trivial

theorem inFlight_of_postsNothing {f f' : FrameUse} (hop : op.PostsNothing)
    (hs : f.step op = some f') : f'.inFlight = f.inFlight := by
  cases op with
  | endFrame => exact hop.elim
  | finishPreviousFrame PoolSP => exact hop.elim
  | endDecoding k => exact hop.elim
  | _ =>
    obtain rfl := Option.some.inj hs
    rfl

theorem abandoned_of_succeeds {f' : FrameUse} (hop : op.PostsNothing)
    (hf : s.Succeeds (.frame op)) (hs : s.frames.step op = some f') :
    f'.abandoned = s.frames.abandoned := by
  cases op with
  | endFrame => exact hop.elim
  | finishPreviousFrame PoolSP => exact hop.elim
  | endDecoding k => exact hop.elim
  | resetValidFlags =>
    obtain rfl := Option.some.inj hs
    have hnone : s.frames.begun = none := hf
    change s.frames.abandoned ++ s.frames.begun.toList = s.frames.abandoned
    rw [hnone]
    exact List.append_nil _
  | _ =>
    obtain rfl := Option.some.inj hs
    rfl

theorem Inv.frame (h : s.Inv) (ha : s.Allowed (.frame op)) (hf : s.Succeeds (.frame op))
    (hs : s.step (.frame op) = some s') : s'.Inv := by
  obtain ⟨frames, hframes, hs⟩ := Option.bind_eq_some_iff.mp hs
  obtain rfl := Option.some.inj hs
  obtain ⟨-, hop, hallowed⟩ := ha
  have hinFlight := inFlight_of_postsNothing hop hframes
  refine ⟨h.ring.step hallowed (inOrder_of_postsNothing hop) hframes, ?_, ?_, ?_, h.wait, h.answeredOnce⟩
  · exact (abandoned_of_succeeds hop hf hframes).trans h.abandoned
  · change s.requested = _
    rw [hinFlight]
    exact h.requested
  · change frames.inFlight ≠ [] → s.notifying = true
    rw [hinFlight]
    exact h.notifying

variable {posted : Bool}

theorem Inv.launch (h : s.Inv) {frames : FrameUse} {c : DecCtx}
    (hring : frames.Ring) (hflag : s.frames.ctx.bBeginFrameIsValid = true)
    (habandoned : frames.abandoned = s.frames.abandoned)
    (hinFlight : frames.inFlight = s.frames.inFlight ++ s.frames.launched c)
    (hf : (s.posted && posted) = true ∧ s.notifying = true) :
    Inv { s with frames, requested := s.requested ++ [s.posted && posted] } := by
  obtain ⟨f, hbegun⟩ := h.ring.begun_isSome hflag
  have hlen : frames.inFlight.length = s.frames.inFlight.length + 1 := by
    unfold FrameUse.launched at hinFlight
    rw [hinFlight, hbegun, List.length_append]
    rfl
  refine ⟨hring, habandoned.trans h.abandoned, ?_, fun _ => hf.2, h.wait, h.answeredOnce⟩
  change s.requested ++ [_] = List.replicate frames.inFlight.length true
  rw [hlen, List.replicate_succ', h.requested, hf.1]

theorem Inv.endFrame (h : s.Inv) (ha : s.Allowed (.endFrame posted))
    (ho : s.InOrder (.endFrame posted)) (hf : s.Succeeds (.endFrame posted))
    (hs : s.step (.endFrame posted) = some s') : s'.Inv := by
  obtain ⟨frames, hframes, hs⟩ := Option.bind_eq_some_iff.mp hs
  obtain rfl := Option.some.inj hs
  have hring := h.ring.step ha.2 ho hframes
  obtain ⟨ctx, hctx, hframes⟩ := Option.bind_eq_some_iff.mp hframes
  obtain rfl := Option.some.inj hframes
  exact h.launch hring ha.2 rfl rfl hf

theorem Inv.finishPreviousFrame (h : s.Inv) {PoolSP : ℕ}
    (ha : s.Allowed (.finishPreviousFrame PoolSP posted))
    (ho : s.InOrder (.finishPreviousFrame PoolSP posted))
    (hf : s.Succeeds (.finishPreviousFrame PoolSP posted))
    (hs : s.step (.finishPreviousFrame PoolSP posted) = some s') : s'.Inv := by
  obtain ⟨frames, hframes, hs⟩ := Option.bind_eq_some_iff.mp hs
  obtain rfl := Option.some.inj hs
  have hring := h.ring.step ha.2 ho hframes
  obtain ⟨ctx, hctx, hframes⟩ := Option.bind_eq_some_iff.mp hframes
  obtain rfl := Option.some.inj hframes
  exact h.launch hring ha.2 rfl rfl hf

theorem Inv.inFlight_pos (h : s.Inv) {k : ℕ} (hk : s.requested[k]? = some true) :
    0 < s.frames.inFlight.length := by
  obtain ⟨hlt, -⟩ := List.getElem?_eq_some_iff.mp hk
  rw [h.requested, List.length_replicate] at hlt
  exact Nat.zero_lt_of_lt hlt

theorem Inv.status (h : s.Inv) (ha : s.Allowed (.status 0)) (hs : s.step (.status 0) = some s') :
    s'.Inv := by
  obtain ⟨frames, hframes, hs⟩ := Option.bind_eq_some_iff.mp hs
  obtain rfl := Option.some.inj hs
  have hpos := h.inFlight_pos ha.2
  have hallowed : s.frames.Allowed (.endDecoding 0) := hpos
  have hring := h.ring.step hallowed rfl hframes
  obtain ⟨f, -, hframes⟩ := Option.bind_eq_some_iff.mp hframes
  obtain ⟨ctx, -, hframes⟩ := Option.bind_eq_some_iff.mp hframes
  obtain rfl := Option.some.inj hframes
  refine ⟨hring, h.abandoned, ?_, ?_, h.wait, h.answeredOnce⟩
  · change s.requested.eraseIdx 0 = List.replicate (s.frames.inFlight.eraseIdx 0).length true
    rw [h.requested, List.eraseIdx_zero, List.eraseIdx_zero, List.length_tail, List.tail_replicate]
  · intro _
    exact h.notifying (List.ne_nil_of_length_pos hpos)

theorem Inv.step (h : s.Inv) {op : SchedulerOp} (ha : s.Allowed op) (ho : s.InOrder op)
    (hf : s.Succeeds op) (hs : s.step op = some s') : s'.Inv := by
  have hwait := h.wait
  cases op with
  | frame op => exact h.frame ha hf hs
  | endFrame posted => exact h.endFrame ha ho hf hs
  | finishPreviousFrame PoolSP posted => exact h.finishPreviousFrame ha ho hf hs
  | status k =>
    obtain rfl : k = 0 := ho
    exact h.status ha hs
  | decodeOneSlice posted =>
    obtain rfl := Option.some.inj hs
    exact ⟨h.ring, h.abandoned, h.requested, h.notifying, h.wait, h.answeredOnce⟩
  | statusFailed =>
    obtain rfl := Option.some.inj hs
    exact ⟨h.ring, h.abandoned, h.requested, fun hne => absurd hf hne, h.wait, h.answeredOnce⟩
  | searchSC r =>
    obtain rfl := Option.some.inj hs
    obtain rfl : r = .pushed := hf
    have hidle : s.waiting = false := ha
    rw [hidle] at hwait
    have hanswered := h.answeredOnce
    refine ⟨h.ring, h.abandoned, h.requested, h.notifying, ?_, ?_⟩
    · change s.scQueue + 1 + s.event.toNat = 1
      rw [Bool.toNat_false] at hwait
      omega
    · change s.searches + 1 = s.answers + (s.scQueue + 1)
      omega
  | scStatus status =>
    cases status with
    | none => exact absurd hf Bool.false_ne_true
    | some status =>
      obtain rfl := Option.some.inj hs
      have hqueue : 0 < s.scQueue := ha
      have hle := Bool.toNat_le s.waiting
      have hanswered := h.answeredOnce
      refine ⟨h.ring, h.abandoned, h.requested, h.notifying, ?_, ?_⟩
      · change s.scQueue - 1 + 1 = s.waiting.toNat
        omega
      · change s.searches = s.answers + 1 + (s.scQueue - 1)
        omega
  | wakeUp =>
    obtain rfl := Option.some.inj hs
    obtain ⟨hwaiting, hevent⟩ := ha
    rw [hwaiting, hevent, Bool.toNat_true] at hwait
    refine ⟨h.ring, h.abandoned, h.requested, h.notifying, ?_, h.answeredOnce⟩
    change s.scQueue + 0 = 0
    omega

theorem step_isSome (h : s.Inv) {op : SchedulerOp} (ha : s.Allowed op) (ho : s.InOrder op) :
    ∃ s', s.step op = some s' := by
  have hframe : ∀ (op : FrameOp), s.frames.Allowed op → s.frames.InOrder op →
      ∃ f, s.frames.step op = some f := fun op => FrameUse.step_isSome h.ring
  cases op with
  | frame op =>
    obtain ⟨-, hop, hallowed⟩ := ha
    obtain ⟨f, hf⟩ := hframe op hallowed (inOrder_of_postsNothing hop)
    unfold step
    dsimp only
    rw [hf]
    exact ⟨_, rfl⟩
  | endFrame posted =>
    obtain ⟨f, hf⟩ := hframe .endFrame ha.2 ho
    unfold step
    dsimp only
    rw [hf]
    exact ⟨_, rfl⟩
  | finishPreviousFrame PoolSP posted =>
    obtain ⟨f, hf⟩ := hframe (.finishPreviousFrame PoolSP) ha.2 ho
    unfold step
    dsimp only
    rw [hf]
    exact ⟨_, rfl⟩
  | status k =>
    obtain rfl : k = 0 := ho
    obtain ⟨f, hf⟩ := hframe (.endDecoding 0) (h.inFlight_pos ha.2) rfl
    unfold step
    dsimp only
    rw [hf]
    exact ⟨_, rfl⟩
  | scStatus status =>
    cases status with
    | none => exact ⟨_, rfl⟩
    | some status => exact ⟨_, rfl⟩
  | _ => exact ⟨_, rfl⟩

instance (s : SchedulerUse) : ∀ op, Decidable (s.Succeeds op)
  | .frame .resetValidFlags => inferInstanceAs (Decidable (_ = _))
  | .endFrame _ => inferInstanceAs (Decidable (_ ∧ _))
  | .finishPreviousFrame _ _ => inferInstanceAs (Decidable (_ ∧ _))
  | .searchSC _ => inferInstanceAs (Decidable (_ = _))
  | .scStatus _ => inferInstanceAs (Decidable (_ = _))
  | .statusFailed => decidable_of_iff (s.frames.inFlight.isEmpty = true) List.isEmpty_iff
  | .decodeOneSlice _ => isTrue trivial
  | .wakeUp => isTrue trivial
  | .status _ => isTrue trivial
  | .frame (.nal _ _) => isTrue trivial
  | .frame (.fill _) => isTrue trivial
  | .frame (.start _ _) => isTrue trivial
  | .frame .takeSlice => isTrue trivial
  | .frame .launchSlice => isTrue trivial
  | .frame .endFrame => isTrue trivial
  | .frame (.finishPreviousFrame _) => isTrue trivial
  | .frame .cancel => isTrue trivial
  | .frame .skip => isTrue trivial
  | .frame (.endDecoding _) => isTrue trivial
  | .frame .consume => isTrue trivial
  | .frame .flushInput => isTrue trivial

/-! ## Runs -/

/-- In every run in which every call succeeds and no frame is left alone, what the decoder
waits for is answered or with the scheduler. -/
theorem run_answered {iStackSize uSize : ℕ} {ops : List SchedulerOp} (hpos : 0 < iStackSize)
    (hle : iStackSize ≤ maxStackSize)
    (hg : GuardedRuns.Guarded step (fun s op => s.Allowed op ∧ s.InOrder op ∧ s.Succeeds op) ops
      (start iStackSize uSize)) :
    ∃ s, GuardedRuns.run step ops (start iStackSize uSize) = some s ∧ s.Answered := by
  have hstep : ∀ (s : SchedulerUse) op, s.Inv → (s.Allowed op ∧ s.InOrder op ∧ s.Succeeds op) →
      ∃ s', s.step op = some s' ∧ s'.Inv := by
    intro s op h ⟨ha, ho, hf⟩
    obtain ⟨s', hs⟩ := step_isSome h ha ho
    exact ⟨s', hs, h.step ha ho hf hs⟩
  obtain ⟨s, hrun, h⟩ := GuardedRuns.run_of_guarded hstep (start_inv uSize hpos hle) hg
  exact ⟨s, hrun, h.answered⟩

/-- A search with a full queue, a search, and a frame of two slices. -/
def searchAndFrame (d : Dpb) : List SchedulerOp :=
  [.searchSC .pushed, .scStatus (some ⟨0, 0⟩), .wakeUp, .searchSC .pushed, .scStatus (some ⟨2, 30⟩),
    .wakeUp, .frame (.nal 0 10), .frame (.start d true), .frame .takeSlice, .decodeOneSlice true,
    .frame (.nal 10 30), .frame .takeSlice, .endFrame true, .frame .resetValidFlags, .searchSC .pushed,
    .status 0]

theorem searchAndFrame_answered :
    ∃ s, GuardedRuns.run step (searchAndFrame (Dpb.zeroed.init 2 .normal)) (start 2 100) = some s ∧
      s.Answered :=
  run_answered (by decide) (by decide) (by decide +kernel)

/-- The search that could not be posted is never answered. -/
theorem not_run_answered :
    ¬ ∀ (iStackSize uSize : ℕ) (ops : List SchedulerOp), 0 < iStackSize → iStackSize ≤ maxStackSize →
      GuardedRuns.Guarded step (fun s op => s.Allowed op ∧ s.InOrder op) ops (start iStackSize uSize) →
      ∃ s, GuardedRuns.run step ops (start iStackSize uSize) = some s ∧ s.Answered := by
  intro h
  obtain ⟨s, hrun, hanswered⟩ := h 1 100 [.searchSC .notPosted] (by decide) (by decide) (by decide)
  obtain rfl := Option.some.inj hrun
  rcases hanswered.search rfl with hevent | hqueue
  · exact absurd hevent (by decide)
  · exact absurd hqueue (by decide)

end SchedulerUse

end VcuCodec
