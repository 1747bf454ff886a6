import Mathlib.Data.List.ReduceOption
import VcuCodec.GuardedRuns

/-!
# The look-ahead fifo of the encoder module

The frames between the two passes (`module/module_enc.cpp`): the callback of the
first pass pushes a frame and then queues a notification, and the thread of the
`ProcessorFifo` takes one notification after the other.  Both are steps of one
transition system.
-/

namespace VcuCodec.LookAhead

variable {Frame : Type}

/-- Where the thread of `threadFifo` is: it waits for a notification, or is in
`EmptyFifo`, in front of the tests or in front of `pop_front`. -/
inductive Thread
  | idle
  | testing (isEOS : Bool)
  | sending (isEOS : Bool)
  deriving DecidableEq

/-- Where the module is in its life: `DestroyEncoder` first stops the callbacks,
then drops the frames one by one, and last joins the thread. -/
inductive Life
  | running
  | dropping
  | destroyed
  deriving DecidableEq

structure State (Frame : Type) where
  /-- `lookAheadMngr->m_fifo` -/
  fifo : List Frame
  /-- the tasks of `threadFifo` -/
  tasks : List Bool
  /-- the notification that `AddFifo` has yet to queue -/
  notifying : Option Bool
  thread : Thread
  life : Life
  /-- the first pass has reported the end of the stream -/
  ended : Bool
  /-- the frames that the first pass has reported -/
  completed : List Frame
  /-- the calls of `AL_Encoder_Process` for the second pass, `none` at the end of the stream -/
  sent : List (Option Frame)
  /-- the calls of `AL_Buffer_Ref` and of `AL_Buffer_Unref` -/
  taken : List Frame
  dropped : List Frame
  /-- `front()` was called on an empty fifo -/
  fault : Bool
  deriving DecidableEq

def State.init : State Frame :=
  ⟨[], [], none, .idle, .running, false, [], [], [], [], false⟩

inductive Op (Frame : Type)
  /-- a callback of the first pass: whether there is a stream that ends its frame, and the source -/
  | endEncoding (stream : Option Bool) (source : Option Frame)
  | queue
  | pop
  | test
  | send
  | stopCallbacks
  | dropFrame
  | join

/-- The first part of `AddFifo`. -/
def addFifo (s : State Frame) : Option Frame → State Frame
  | some src =>
    { s with
      taken := s.taken ++ [src], fifo := s.fifo ++ [src], notifying := some false
      completed := s.completed ++ [src] }
  | none => { s with notifying := some true, ended := true }

/-- `EndEncodingLookAhead`, up to the queueing of the notification. -/
def endEncodingLookAhead (s : State Frame) (stream : Option Bool) (source : Option Frame) :
    State Frame :=
  match stream, source with
  | none, none => addFifo s none
  | none, some _ => s
  | some _, none => s
  | some isEndOfFrame, some src => if isEndOfFrame then addFifo s (some src) else s

/-- The tests of `EmptyFifo`. -/
def emptyFifoTest (uLookAheadSize : ℕ) (s : State Frame) (isEOS : Bool) : State Frame :=
  if isEOS && s.fifo.length = 0 then { s with sent := s.sent ++ [none], thread := .idle }
  else if !(isEOS || s.fifo.length = uLookAheadSize) then { s with thread := .idle }
  else { s with thread := .sending isEOS }

/-- The rest of `EmptyFifo`; at the end of the stream it calls itself. -/
def emptyFifoSend (s : State Frame) (isEOS : Bool) : State Frame :=
  match s.fifo with
  | [] => { s with fault := true, thread := .idle }
  | src :: fifo =>
    { s with
      fifo := fifo, sent := s.sent ++ [some src], dropped := s.dropped ++ [src]
      thread := if isEOS then .testing isEOS else .idle }

/-- One step; `none` where it is not enabled. -/
def step (uLookAheadSize : ℕ) (s : State Frame) : Op Frame → Option (State Frame)
  | .endEncoding stream source =>
    if s.life = .running ∧ s.notifying = none ∧ s.ended = false then
      some (endEncodingLookAhead s stream source)
    else none
  | .queue =>
    match s.notifying with
    | some isEOS => some { s with tasks := s.tasks ++ [isEOS], notifying := none }
    | none => none
  | .pop =>
    match s.thread, s.tasks with
    | .idle, isEOS :: tasks =>
      if s.life = .destroyed then none
      else some { s with tasks := tasks, thread := .testing isEOS }
    | _, _ => none
  | .test =>
    match s.thread with
    | .testing isEOS => some (emptyFifoTest uLookAheadSize s isEOS)
    | _ => none
  | .send =>
    match s.thread with
    | .sending isEOS => some (emptyFifoSend s isEOS)
    | _ => none
  | .stopCallbacks =>
    if s.life = .running ∧ s.notifying = none then some { s with life := .dropping } else none
  | .dropFrame =>
    match s.fifo with
    | src :: fifo =>
      if s.life = .dropping then some { s with fifo := fifo, dropped := s.dropped ++ [src] }
      else none
    | [] => none
  | .join =>
    if s.life = .dropping ∧ s.fifo = [] ∧ s.thread = .idle then
      some { s with tasks := [], life := .destroyed }
    else none

/-- The frames that the second pass has received. -/
def State.frames (s : State Frame) : List Frame := s.sent.reduceOption

/-- The notification that the thread handles. -/
def Thread.handles : Thread → List Bool
  | .idle => []
  | .testing isEOS => [isEOS]
  | .sending isEOS => [isEOS]

/-- The notifications that are not handled yet, the oldest first. -/
def State.pending (s : State Frame) : List Bool :=
  s.thread.handles ++ s.tasks ++ s.notifying.toList

/-! ## What the pipeline promises -/

/-- The frames reach the second pass once and in order, none waits longer than
the look-ahead, the stream ends behind the last frame, and each reference is
dropped once. -/
structure State.Delivers (uLookAheadSize : ℕ) (s : State Frame) : Prop where
  order : s.frames <+: s.completed
  waiting : s.life = .running → s.completed = s.frames ++ s.fifo
  neverStalls : s.pending = [] → s.fifo.length < uLookAheadSize
  endsOnce : none ∈ s.sent → s.sent = s.completed.map some ++ [none]
  ends : s.life = .running → s.ended = true → s.pending = [] →
    s.sent = s.completed.map some ++ [none]
  references : s.taken = s.completed ∧ s.taken = s.dropped ++ s.fifo
  released : s.life = .destroyed → s.dropped = s.taken
  noFault : s.fault = false

/-- The thread handles a notification before more frames than the look-ahead
wait, and the module is destroyed when all notifications are handled. -/
def InTime (uLookAheadSize : ℕ) (s : State Frame) : Op Frame → Prop
  | .test => s.thread = .testing false → s.fifo.length ≤ uLookAheadSize
  | .stopCallbacks => s.thread = .idle ∧ s.tasks = []
  | _ => True

/-! ## The invariant -/

/-- What every step of a run in time keeps: each frame beyond the look-ahead has
a notification that is still pending. -/
structure State.Kept (uLookAheadSize : ℕ) (s : State Frame) : Prop where
  given : s.completed = s.dropped ++ s.fifo
  taken : s.taken = s.completed
  received : s.life = .running → s.frames = s.dropped
  prefixed : s.frames <+: s.dropped
  owed : s.fifo.length < uLookAheadSize + s.pending.count false
  some_sending : s.life = .running → ∀ isEOS, s.thread = .sending isEOS → s.fifo ≠ []
  quiet : s.life ≠ .running → s.pending = []
  joined : s.life = .destroyed → s.fifo = []
  frame : s.ended = false → none ∉ s.sent ∧ true ∉ s.pending
  stream : s.ended = true → (none ∉ s.sent ∧ ∃ n, s.pending = List.replicate n false ++ [true]) ∨
    (s.fifo = [] ∧ s.pending = [] ∧ s.sent = s.completed.map some ++ [none])
  noFault : s.fault = false

theorem map_some_reduceOption {l : List (Option Frame)} (h : none ∉ l) :
    l.reduceOption.map some = l := by
  induction l with
  | nil => rfl
  | cons x l ih =>
    cases x with
    | none => simp at h
    | some src =>
      have hl : none ∉ l := fun hm => h (List.mem_cons_of_mem _ hm)
      rw [List.reduceOption_cons_of_some, List.map_cons, ih hl]

namespace State

variable {uLookAheadSize : ℕ} {s s' : State Frame}

theorem kept_init (hL : 0 < uLookAheadSize) : (init : State Frame).Kept uLookAheadSize where
  given := rfl
  taken := rfl
  received _ := rfl
  prefixed := List.prefix_rfl
  owed := by simpa [init, pending, Thread.handles] using hL
  some_sending := by simp [init]
  quiet h := absurd rfl h
  joined h := by cases h
  frame _ := by simp [init, pending, Thread.handles]
  stream h := by simp [init] at h
  noFault := rfl

theorem pending_notify (h : s.notifying = none) (isEOS : Bool) :
    ({ s with notifying := some isEOS } : State Frame).pending = s.pending ++ [isEOS] := by
  simp [pending, h]

theorem Kept.push (h : s.Kept uLookAheadSize) (hlife : s.life = .running)
    (hn : s.notifying = none) (he : s.ended = false) (src : Frame) :
    (addFifo s (some src)).Kept uLookAheadSize := by
  have hpending : (addFifo s (some src)).pending = s.pending ++ [false] := pending_notify hn false
  obtain ⟨hsent, htrue⟩ := h.frame he
  exact {
    given := by simp [addFifo, h.given]
    taken := by simp [addFifo, h.taken]
    received := h.received
    prefixed := h.prefixed
    owed := by
      rw [hpending, List.count_append]
      have := h.owed
      simp [addFifo]
      omega
    some_sending := fun _ _ _ => by simp [addFifo]
    quiet := fun hl => absurd hlife hl
    joined := fun hl => by cases hlife.symm.trans hl
    frame := fun _ => by
      rw [hpending]
      exact ⟨hsent, by simp [htrue]⟩
    stream := fun hend => by
      have : s.ended = true := hend
      simp [he] at this
    noFault := h.noFault }

/-- The end of the stream is reported behind all notifications of frames. -/
theorem Kept.reportEnd (h : s.Kept uLookAheadSize) (hlife : s.life = .running)
    (hn : s.notifying = none) (he : s.ended = false) :
    (addFifo s none).Kept uLookAheadSize := by
  have hpending : (addFifo s none).pending = s.pending ++ [true] := pending_notify hn true
  obtain ⟨hsent, htrue⟩ := h.frame he
  have hall : s.pending = List.replicate s.pending.length false := by
    refine List.eq_replicate_length.mpr fun b hb => ?_
    cases b with
    | false => rfl
    | true => exact absurd hb htrue
  exact {
    given := h.given
    taken := h.taken
    received := h.received
    prefixed := h.prefixed
    owed := by
      rw [hpending, List.count_append]
      exact h.owed
    some_sending := h.some_sending
    quiet := fun hl => absurd hlife hl
    joined := fun hl => by cases hlife.symm.trans hl
    frame := fun hend => by simp [addFifo] at hend
    stream := fun _ => by
      rw [hpending]
      exact .inl ⟨hsent, _, by rw [← hall]⟩
    noFault := h.noFault }

/-- A step that changes neither the fifo nor what has been sent, and keeps the
notifications. -/
theorem Kept.move (h : s.Kept uLookAheadSize) (tasks : List Bool) (notifying : Option Bool)
    (thread : Thread)
    (hp : ({ s with tasks := tasks, notifying := notifying, thread := thread } :
      State Frame).pending = s.pending)
    (ht : ∀ isEOS, thread = .sending isEOS → s.fifo ≠ []) :
    ({ s with tasks := tasks, notifying := notifying, thread := thread } :
      State Frame).Kept uLookAheadSize where
  given := h.given
  taken := h.taken
  received := h.received
  prefixed := h.prefixed
  owed := hp ▸ h.owed
  some_sending _ := ht
  quiet hl := hp ▸ h.quiet hl
  joined := h.joined
  frame he := hp ▸ h.frame he
  stream he := hp ▸ h.stream he
  noFault := h.noFault

/-- The tests send the end of the stream, or end the notification, or go on to
the frame in front. -/
theorem Kept.test (h : s.Kept uLookAheadSize) (hL : 0 < uLookAheadSize) {isEOS : Bool}
    (ht : s.thread = .testing isEOS) (hin : isEOS = false → s.fifo.length ≤ uLookAheadSize) :
    (emptyFifoTest uLookAheadSize s isEOS).Kept uLookAheadSize := by
  have hpending : s.pending = isEOS :: (s.tasks ++ s.notifying.toList) := by
    simp [pending, ht, Thread.handles]
  have hlife : s.life = .running := by
    by_contra hl
    simp [h.quiet hl] at hpending
  have hidle : ({ s with thread := .idle } : State Frame).pending =
      s.tasks ++ s.notifying.toList := by
    simp [pending, Thread.handles]
  unfold emptyFifoTest
  split
  · next hend =>
    -- the end of the stream: everything has been sent
    obtain ⟨rfl, hempty⟩ : isEOS = true ∧ s.fifo = [] := by simpa using hend
    have hended : s.ended = true := by
      by_contra he
      have := (h.frame (by simpa using he)).2
      simp [hpending] at this
    obtain ⟨hsent, n, hn⟩ | ⟨-, hnil, -⟩ := h.stream hended
    · have hrest : s.tasks ++ s.notifying.toList = [] := by
        rw [hpending] at hn
        cases n with
        | zero => simpa using hn
        | succ n => simp [List.replicate_succ] at hn
      have hall : s.sent = s.completed.map some := by
        rw [h.given, hempty, List.append_nil, ← h.received hlife]
        exact (map_some_reduceOption hsent).symm
      have hframes : ({ s with sent := s.sent ++ [none], thread := .idle } : State Frame).frames =
          s.frames := by
        simp [frames, List.reduceOption_append]
      exact {
        given := h.given
        taken := h.taken
        received := fun hl => hframes.trans (h.received hl)
        prefixed := hframes ▸ h.prefixed
        owed := by
          change s.fifo.length < _
          simp [hempty]
          omega
        some_sending := fun _ _ hs => by cases hs
        quiet := fun hl => absurd hlife hl
        joined := fun hl => by cases hlife.symm.trans hl
        frame := fun he => by
          have : s.ended = false := he
          simp [hended] at this
        stream := fun _ => .inr ⟨hempty, hidle.trans hrest, by rw [hall]⟩
        noFault := h.noFault }
    · simp [hpending] at hnil
  · next hnoend =>
    split
    · next hskip =>
      obtain ⟨rfl, hne⟩ : isEOS = false ∧ s.fifo.length ≠ uLookAheadSize := by simpa using hskip
      have hle := hin rfl
      have hcount : ∀ b, b ∈ s.tasks ++ s.notifying.toList → b ∈ s.pending := fun b hb => by
        rw [hpending]
        exact List.mem_cons_of_mem _ hb
      exact {
        given := h.given
        taken := h.taken
        received := h.received
        prefixed := h.prefixed
        owed := by
          change s.fifo.length < _
          omega
        some_sending := fun _ _ hs => by cases hs
        quiet := fun hl => absurd hlife hl
        joined := fun hl => by cases hlife.symm.trans hl
        frame := fun he => by
          rw [hidle]
          exact ⟨(h.frame he).1, fun hm => (h.frame he).2 (hcount _ hm)⟩
        stream := fun he => by
          rw [hidle]
          obtain ⟨hsent, n, hn⟩ | ⟨-, hnil, -⟩ := h.stream he
          · rw [hpending] at hn
            cases n with
            | zero => simp at hn
            | succ n =>
              rw [List.replicate_succ, List.cons_append, List.cons.injEq] at hn
              exact .inl ⟨hsent, n, hn.2⟩
          · simp [hpending] at hnil
        noFault := h.noFault }
    · next hgo =>
      refine h.move s.tasks s.notifying (.sending isEOS) ?_ fun _ _ hnil => ?_
      · simp [pending, ht, Thread.handles]
      · simp [hnil] at hnoend hgo
        simp [hnoend] at hgo
        omega

/-- The frame in front is sent and its reference dropped. -/
theorem Kept.send (h : s.Kept uLookAheadSize) {isEOS : Bool} (ht : s.thread = .sending isEOS) :
    (emptyFifoSend s isEOS).Kept uLookAheadSize := by
  have hpending : s.pending = isEOS :: (s.tasks ++ s.notifying.toList) := by
    simp [pending, ht, Thread.handles]
  have hlife : s.life = .running := by
    by_contra hl
    simp [h.quiet hl] at hpending
  cases hf : s.fifo with
  | nil => exact absurd hf (h.some_sending hlife isEOS ht)
  | cons src fifo =>
    have hstep : emptyFifoSend s isEOS = { s with
        fifo := fifo, sent := s.sent ++ [some src], dropped := s.dropped ++ [src]
        thread := if isEOS then .testing isEOS else .idle } := by
      simp only [emptyFifoSend, hf]
    have hafter : (emptyFifoSend s isEOS).pending =
        if isEOS then s.pending else s.tasks ++ s.notifying.toList := by
      rw [hstep, hpending]
      cases isEOS <;> simp [pending, Thread.handles]
    have hframes : (emptyFifoSend s isEOS).frames = s.frames ++ [src] := by
      rw [hstep]
      simp [frames, List.reduceOption_append, List.reduceOption_singleton]
    have howed := h.owed
    rw [hf, hpending, List.length_cons] at howed
    have hgiven : s.completed = s.dropped ++ [src] ++ fifo := by
      rw [h.given, hf, List.append_assoc, List.singleton_append]
    have hnotall : s.fifo ≠ [] := by simp [hf]
    rw [hstep] at hafter hframes ⊢
    exact {
      given := hgiven
      taken := h.taken
      received := fun hl => by rw [hframes, h.received hl]
      prefixed := by
        simp only [hframes, h.received hlife, List.prefix_rfl]
      owed := by
        rw [hafter]
        change fifo.length < _
        cases isEOS with
        | true =>
          rw [if_pos rfl, hpending]
          omega
        | false =>
          rw [if_neg (by simp)]
          simp at howed ⊢
          omega
      some_sending := fun _ b hb => by
        change (if isEOS then Thread.testing isEOS else .idle) = _ at hb
        cases isEOS <;> simp at hb
      quiet := fun hl => absurd hlife hl
      joined := fun hl => by cases hlife.symm.trans hl
      frame := fun he => by
        obtain ⟨hsent, htrue⟩ := h.frame he
        rw [hafter]
        refine ⟨by simp [hsent], ?_⟩
        split
        · exact htrue
        · exact fun hm => htrue (hpending ▸ List.mem_cons_of_mem _ hm)
      stream := fun he => by
        rw [hafter]
        obtain ⟨hsent, n, hn⟩ | ⟨hnil, -, -⟩ := h.stream he
        · refine .inl ⟨by simp [hsent], ?_⟩
          cases isEOS with
          | true => exact ⟨n, by rw [if_pos rfl, hn]⟩
          | false =>
            rw [if_neg (by simp)]
            rw [hpending] at hn
            cases n with
            | zero => simp at hn
            | succ n =>
              rw [List.replicate_succ, List.cons_append, List.cons.injEq] at hn
              exact ⟨n, hn.2⟩
        · exact absurd hnil hnotall
      noFault := h.noFault }

theorem Kept.stop (h : s.Kept uLookAheadSize) (hp : s.pending = []) :
    ({ s with life := .dropping } : State Frame).Kept uLookAheadSize :=
  { h with
    received := fun hl => by cases hl
    some_sending := fun hl => by cases hl
    quiet := fun _ => hp
    joined := fun hl => by cases hl }

theorem Kept.dropFront (h : s.Kept uLookAheadSize) (hlife : s.life = .dropping) {src : Frame}
    {fifo : List Frame} (hf : s.fifo = src :: fifo) :
    ({ s with fifo := fifo, dropped := s.dropped ++ [src] } : State Frame).Kept uLookAheadSize where
  given := by simp [h.given, hf]
  taken := h.taken
  received hl := by simp [hlife] at hl
  prefixed := h.prefixed.trans (List.prefix_append ..)
  owed := by
    have := h.owed
    rw [hf, List.length_cons] at this
    exact Nat.lt_of_succ_lt this
  some_sending hl := by simp [hlife] at hl
  quiet := h.quiet
  joined hl := by simp [hlife] at hl
  frame := h.frame
  stream he := (h.stream he).imp_right fun ⟨hnil, _⟩ => by simp [hf] at hnil
  noFault := h.noFault

theorem Kept.join (h : s.Kept uLookAheadSize) (hlife : s.life = .dropping) (hf : s.fifo = []) :
    ({ s with tasks := [], life := .destroyed } : State Frame).Kept uLookAheadSize := by
  have hp := h.quiet (by simp [hlife])
  have htasks : s.tasks = [] := by
    simp only [pending, List.append_eq_nil_iff] at hp
    exact hp.1.2
  have hsame : ({ s with tasks := [], life := .destroyed } : State Frame).pending = s.pending := by
    simp [pending, htasks]
  exact {
    given := h.given
    taken := h.taken
    received := fun hl => by cases hl
    prefixed := h.prefixed
    owed := hsame ▸ h.owed
    some_sending := fun hl => by cases hl
    quiet := fun _ => hsame.trans hp
    joined := fun _ => hf
    frame := hsame ▸ h.frame
    stream := hsame ▸ h.stream
    noFault := h.noFault }

theorem Kept.step (hL : 0 < uLookAheadSize) {op : Op Frame} (h : s.Kept uLookAheadSize)
    (hin : InTime uLookAheadSize s op) (hs : LookAhead.step uLookAheadSize s op = some s') :
    s'.Kept uLookAheadSize := by
  cases op with
  | endEncoding stream source =>
    simp only [LookAhead.step, Option.ite_none_right_eq_some, Option.some.injEq] at hs
    obtain ⟨⟨hlife, hn, he⟩, rfl⟩ := hs
    unfold endEncodingLookAhead
    split
    · exact h.reportEnd hlife hn he
    · exact h
    · exact h
    · split
      · exact h.push hlife hn he _
      · exact h
  | queue =>
    cases hn : s.notifying with
    | none => simp [LookAhead.step, hn] at hs
    | some isEOS =>
      simp only [LookAhead.step, hn, Option.some.injEq] at hs
      subst hs
      have ht : ∀ b, s.thread = .sending b → s.fifo ≠ [] := fun b hb => by
        have hp : s.pending ≠ [] := by simp [pending, hn]
        have hlife : s.life = .running := by
          by_contra hl
          exact hp (h.quiet hl)
        exact h.some_sending hlife b hb
      exact h.move (s.tasks ++ [isEOS]) none s.thread (by simp [pending, hn]) ht
  | pop =>
    cases ht : s.thread with
    | testing b => simp [LookAhead.step, ht] at hs
    | sending b => simp [LookAhead.step, ht] at hs
    | idle =>
      cases htasks : s.tasks with
      | nil => simp [LookAhead.step, ht, htasks] at hs
      | cons isEOS tasks =>
        simp only [LookAhead.step, ht, htasks, Option.ite_none_left_eq_some,
          Option.some.injEq] at hs
        obtain ⟨-, rfl⟩ := hs
        refine h.move tasks s.notifying (.testing isEOS) ?_ fun b hb => by cases hb
        simp [pending, ht, htasks, Thread.handles]
  | test =>
    cases ht : s.thread with
    | idle => simp [LookAhead.step, ht] at hs
    | sending b => simp [LookAhead.step, ht] at hs
    | testing isEOS =>
      simp only [LookAhead.step, ht, Option.some.injEq] at hs
      subst hs
      exact h.test hL ht fun hb => hin (by rw [ht, hb])
  | send =>
    cases ht : s.thread with
    | idle => simp [LookAhead.step, ht] at hs
    | testing b => simp [LookAhead.step, ht] at hs
    | sending isEOS =>
      simp only [LookAhead.step, ht, Option.some.injEq] at hs
      subst hs
      exact h.send ht
  | stopCallbacks =>
    simp only [LookAhead.step, Option.ite_none_right_eq_some, Option.some.injEq] at hs
    obtain ⟨⟨-, hn⟩, rfl⟩ := hs
    obtain ⟨hidle, htasks⟩ := hin
    exact h.stop (by simp [pending, hidle, htasks, hn, Thread.handles])
  | dropFrame =>
    cases hf : s.fifo with
    | nil => simp [LookAhead.step, hf] at hs
    | cons src fifo =>
      simp only [LookAhead.step, hf, Option.ite_none_right_eq_some, Option.some.injEq] at hs
      obtain ⟨hlife, rfl⟩ := hs
      exact h.dropFront hlife hf
  | join =>
    simp only [LookAhead.step, Option.ite_none_right_eq_some, Option.some.injEq] at hs
    obtain ⟨⟨hlife, hf, -⟩, rfl⟩ := hs
    exact h.join hlife hf

theorem Kept.delivers (h : s.Kept uLookAheadSize) : s.Delivers uLookAheadSize where
  order := h.prefixed.trans (h.given ▸ List.prefix_append ..)
  waiting hl := by rw [h.received hl, h.given]
  neverStalls hp := by
    have := h.owed
    rw [hp] at this
    simpa using this
  endsOnce hm := by
    cases he : s.ended with
    | false => exact absurd hm (h.frame he).1
    | true =>
      obtain ⟨hno, -⟩ | ⟨-, -, hsent⟩ := h.stream he
      · exact absurd hm hno
      · exact hsent
  ends _ he hp := by
    obtain ⟨-, n, hn⟩ | ⟨-, -, hsent⟩ := h.stream he
    · rw [hp] at hn
      simp at hn
    · exact hsent
  references := ⟨h.taken, h.taken.trans h.given⟩
  released hl := by
    rw [h.taken, h.given, h.joined hl, List.append_nil]
  noFault := h.noFault

end State

/-- Whatever the callbacks and the thread do in turns, the pipeline keeps its
promises as long as the notifications are handled in time. -/
theorem delivers_of_run {uLookAheadSize : ℕ} (hL : 1 ≤ uLookAheadSize) {ops : List (Op Frame)}
    {s : State Frame}
    (hin : GuardedRuns.Guarded (step uLookAheadSize) (InTime uLookAheadSize) ops .init)
    (hr : GuardedRuns.run (step uLookAheadSize) ops .init = some s) : s.Delivers uLookAheadSize := by
  have hstep : ∀ (s : State Frame) (op : Op Frame) (s' : State Frame), s.Kept uLookAheadSize →
      InTime uLookAheadSize s op → step uLookAheadSize s op = some s' →
        s'.Kept uLookAheadSize := fun s op s' hk hop hs => hk.step hL hop hs
  exact (GuardedRuns.invariant_of_run hstep (State.kept_init hL) hin hr).delivers

/-- A callback that ends a frame, up to its notification. -/
def Op.frameEnd (src : Frame) : List (Op Frame) := [.endEncoding (some true) (some src), .queue]

/-- The thread handles a notification and finds the fifo full. -/
def Op.forward : List (Op Frame) := [.pop, .test, .send]

/-- Three frames with a look-ahead of two, the end of the stream, and the
destruction of the encoder. -/
def Op.threeFrames : List (Op ℕ) :=
  Op.frameEnd 1 ++ [.pop, .test] ++ Op.frameEnd 2 ++ Op.forward ++ Op.frameEnd 3 ++ Op.forward ++
    [.endEncoding none none, .queue, .pop, .test, .send, .test, .stopCallbacks, .join]

instance (uLookAheadSize : ℕ) (s : State Frame) (op : Op Frame) :
    Decidable (InTime uLookAheadSize s op) := by
  cases op <;> unfold InTime <;> infer_instance

theorem delivers_threeFrames : ∃ s, GuardedRuns.run (step 2) Op.threeFrames .init = some s ∧
    s.frames = [1, 2, 3] ∧ s.Delivers 2 := by
  have hin : GuardedRuns.Guarded (step 2) (InTime 2) Op.threeFrames .init := by decide +kernel
  obtain ⟨s, hr⟩ : ∃ s, GuardedRuns.run (step 2) Op.threeFrames .init = some s :=
    Option.isSome_iff_exists.mp (by decide +kernel)
  have hframes : (GuardedRuns.run (step 2) Op.threeFrames .init).map State.frames =
      some [1, 2, 3] := by decide +kernel
  rw [hr] at hframes
  exact ⟨s, hr, Option.some.inj hframes, delivers_of_run (by decide) hin hr⟩

/-- Two frames are pushed before their notifications are handled. -/
def Op.twoAtOnce : List (Op ℕ) :=
  Op.frameEnd 1 ++ Op.frameEnd 2 ++ [.pop, .test, .pop, .test]

/-- With a look-ahead of one, two frames wait when no notification is left. -/
theorem not_delivers_twoAtOnce : ∃ s, GuardedRuns.run (step 1) Op.twoAtOnce .init = some s ∧
    s.fifo = [1, 2] ∧ s.pending = [] ∧ s.sent = [] ∧ ¬ s.Delivers 1 := by
  obtain ⟨s, hr⟩ : ∃ s, GuardedRuns.run (step 1) Op.twoAtOnce .init = some s :=
    Option.isSome_iff_exists.mp (by decide +kernel)
  have hall : (GuardedRuns.run (step 1) Op.twoAtOnce .init).map
      (fun s => (s.fifo, s.pending, s.sent)) = some ([1, 2], [], []) := by decide +kernel
  rw [hr, Option.map_some, Option.some.injEq, Prod.mk.injEq, Prod.mk.injEq] at hall
  obtain ⟨hfifo, hpending, hsent⟩ := hall
  refine ⟨s, hr, hfifo, hpending, hsent, fun h => ?_⟩
  have := h.neverStalls hpending
  simp [hfifo] at this

end VcuCodec.LookAhead
