import VcuCodec.OmxStateMachine

/-!
# The fences of the OMX component

The invariant of the main thread: the module goes with the state, every command is answered
or pending, and a fence is closed in front of the buffers wherever the component is paused
or a port is not ready.  The flush and the change of the state keep it.
-/

namespace VcuCodec.Omx

/-! ## The invariant -/

def Flags.settled (f : Flags) : Bool := f.enable && !f.toEnable && !f.toDisable

namespace PortFifo

/-- The thread waits at a fence, or comes to one before the next buffer. -/
def Shut (f : PortFifo) : Prop :=
  f.inHand = none ∧ ∃ xs ys, f.tasks = xs ++ .sharedFence false :: ys ∧ ∀ header, .buffer header ∉ xs

end PortFifo

namespace Control

def calm (c : Control) : Bool :=
  c.state ≠ .pause && (c.flags .input).settled && (c.flags .output).settled

def portsReady (c : Control) : Bool :=
  (c.flags .input).enable && (c.flags .output).enable && !(c.flags .input).toEnable && !(c.flags .output).toEnable

/-- The commands that wait for the main thread or for a buffer. -/
def waiting (c : Control) : List ℕ := c.main.filterMap MainTask.command ++ c.marks.map Mark.id

def pending (c : Control) : List ℕ := c.doing.command.toList ++ c.waiting

/-- The state, the module and the waits of the main thread. -/
structure Lifecycle (c : Control) : Prop where
  started : c.started = true ↔ c.state = .executing ∨ c.state = .pause
  populating : ∀ i id, c.doing = .populating i id → c.state = .loaded ∨ c.state = .waitForResources
  unpopulating : ∀ i id, c.doing = .unpopulating i id → c.state = .idle
  moved : ∀ x ∈ c.moves, checkStateTransition x.1 x.2 = none ∨ x.2 = .invalid

/-- Every command is answered or pending. -/
structure Answering (c : Control) : Prop where
  fresh : ∀ id ∈ c.accepts, id < c.issued
  nodup : c.accepts.Nodup
  perm : c.accepts.Perm (c.answers ++ c.pending)
  own : ∀ mark ∈ c.marks, mark.own = true

/-- The flag of a port command is set until the command is treated. -/
structure Flagged (flags : PortId → Flags) (main : List MainTask) (doing : Doing) : Prop where
  toDisable : ∀ i, (flags i).toDisable = true →
    (∃ id, .disablePort i id ∈ main) ∨ ∃ id, doing = .disabling i id
  toEnable : ∀ i, (flags i).toEnable = true → (∃ id, .enablePort i id ∈ main) ∨ ∃ id, doing = .enabling i id

/-- The fences are closed where they have to be. -/
structure Fencing (c : Control) : Prop where
  shut : ∀ i, c.blocked i = true → (c.processor i).Shut
  both : ∀ i j, c.blocked i = c.blocked j
  paused : c.state = .pause → ∀ i, c.blocked i = true
  disabled : ∀ i, (c.flags i).enable = false → (c.flags i).toDisable = false → c.blocked i = true
  disabling : ∀ i id, c.doing = .disabling i id → c.blocked i = true

def Announced (c : Control) : Prop :=
  ∃ i, (c.flags i).toDisable = true ∧ (∃ id, .disablePort i id ∈ c.main) ∨
    (c.flags i).toEnable = true ∧ ((∃ id, .enablePort i id ∈ c.main) ∨ ∃ id, c.doing = .enabling i id)

structure Inv (c : Control) : Prop where
  lifecycle : c.Lifecycle
  answering : c.Answering
  flagged : Flagged c.flags c.main c.doing
  fencing : c.Fencing
  passes : ∀ b ∈ c.passes, b = true

/-- The main thread treats the command `id`; it waits for nothing yet. -/
structure Treating (c : Control) (id : ℕ) : Prop where
  started : c.started = true ↔ c.state = .executing ∨ c.state = .pause
  moved : ∀ x ∈ c.moves, checkStateTransition x.1 x.2 = none ∨ x.2 = .invalid
  fresh : ∀ n ∈ c.accepts, n < c.issued
  nodup : c.accepts.Nodup
  perm : c.accepts.Perm (c.answers ++ id :: c.waiting)
  own : ∀ mark ∈ c.marks, mark.own = true
  shut : ∀ i, c.blocked i = true → (c.processor i).Shut
  both : ∀ i j, c.blocked i = c.blocked j
  paused : c.state = .pause → ∀ i, c.blocked i = true
  disabled : ∀ i, (c.flags i).enable = false → (c.flags i).toDisable = false → c.blocked i = true
  passes : ∀ b ∈ c.passes, b = true

variable {c : Control}

/-- With open fences and no announced port command the component is calm. -/
theorem Inv.calm (h : c.Inv) (hann : ¬c.Announced) (hopen : ∀ i, c.blocked i = false) : c.calm = true := by
  have hsettled : ∀ i, (c.flags i).settled = true := by
    intro i
    have hen : (c.flags i).toEnable = false := by
      by_contra hc
      rw [Bool.not_eq_false] at hc
      exact hann ⟨i, .inr ⟨hc, h.flagged.toEnable i hc⟩⟩
    have hdis : (c.flags i).toDisable = false := by
      by_contra hc
      rw [Bool.not_eq_false] at hc
      rcases h.flagged.toDisable i hc with hwait | ⟨id, hdoing⟩
      · exact hann ⟨i, .inl ⟨hc, hwait⟩⟩
      · have := h.fencing.disabling i id hdoing
        rw [hopen i] at this
        cases this
    have henable : (c.flags i).enable = true := by
      by_contra hc
      rw [Bool.not_eq_true] at hc
      have := h.fencing.disabled i hc hdis
      rw [hopen i] at this
      cases this
    unfold Flags.settled
    rw [hen, hdis, henable]
    rfl
  have hpause : c.state ≠ .pause := by
    intro hp
    have := h.fencing.paused hp .input
    rw [hopen] at this
    cases this
  unfold Control.calm
  rw [hsettled, hsettled]
  simpa using hpause

variable {id : ℕ}

theorem Treating.answer (h : c.Treating id) (hflagged : Flagged c.flags c.main .nothing) :
    Inv { c with doing := .nothing, answers := c.answers ++ [id] } where
  lifecycle := ⟨h.started, nofun, nofun, h.moved⟩
  answering := ⟨h.fresh, h.nodup, by
    refine h.perm.trans (List.Perm.of_eq ?_)
    show _ = c.answers ++ [id] ++ ([] ++ _)
    rw [List.append_assoc]
    rfl, h.own⟩
  flagged := hflagged
  fencing := ⟨h.shut, h.both, h.paused, h.disabled, nofun⟩
  passes := h.passes

variable {doing : Doing}

theorem Treating.wait (h : c.Treating id) (hcommand : doing.command = some id)
    (hflagged : Flagged c.flags c.main doing)
    (hpopulating : ∀ i n, doing = .populating i n → c.state = .loaded ∨ c.state = .waitForResources)
    (hunpopulating : ∀ i n, doing = .unpopulating i n → c.state = .idle)
    (hdisabling : ∀ i n, doing = .disabling i n → c.blocked i = true) : Inv { c with doing := doing } where
  lifecycle := ⟨h.started, hpopulating, hunpopulating, h.moved⟩
  answering := ⟨h.fresh, h.nodup, by
    refine h.perm.trans (List.Perm.of_eq ?_)
    unfold pending
    rw [hcommand]
    rfl, h.own⟩
  flagged := hflagged
  fencing := ⟨h.shut, h.both, h.paused, h.disabled, hdisabling⟩
  passes := h.passes

/-- The state changes, with the module and the fences that belong to it. -/
theorem Treating.move (h : c.Treating id) (newState : OmxState) (started : Bool)
    (blocked : PortId → Bool) (processor : PortId → PortFifo)
    (hcheck : checkStateTransition c.state newState = none ∨ newState = .invalid)
    (hstarted : started = true ↔ newState = .executing ∨ newState = .pause)
    (hshut : ∀ i, blocked i = true → (processor i).Shut) (hboth : ∀ i j, blocked i = blocked j)
    (hpaused : newState = .pause → ∀ i, blocked i = true)
    (hdisabled : ∀ i, (c.flags i).enable = false → (c.flags i).toDisable = false → blocked i = true) :
    Treating { c with
      state := newState
      started := started
      blocked := blocked
      processor := processor
      moves := c.moves ++ [(c.state, newState)] } id where
  started := hstarted
  moved x hx := by
    rcases List.mem_append.mp hx with hx | hx
    · exact h.moved x hx
    · rw [List.mem_singleton.mp hx]
      exact hcheck
  fresh := h.fresh
  nodup := h.nodup
  perm := h.perm
  own := h.own
  shut := hshut
  both := hboth
  paused := hpaused
  disabled := hdisabled
  passes := h.passes

theorem Treating.block (h : c.Treating id) (blocked : PortId → Bool) (processor : PortId → PortFifo)
    (hblocked : ∀ i, blocked i = true) (hshut : ∀ i, (processor i).Shut) :
    Treating { c with blocked := blocked, processor := processor } id :=
  { h with
    shut := fun i _ => hshut i
    both := fun i j => (hblocked i).trans (hblocked j).symm
    paused := fun _ => hblocked
    disabled := fun i _ _ => hblocked i }

theorem Treating.lift (h : c.Treating id) (processor : PortId → PortFifo) (hstate : c.state ≠ .pause)
    (hready : ∀ i, (c.flags i).enable = true) :
    Treating { c with blocked := fun _ => false, processor := processor } id :=
  { h with
    shut := fun _ => nofun
    both := fun _ _ => rfl
    paused := fun hp => absurd hp hstate
    disabled := fun i hi => by
      rw [show (c.flags i).enable = true from hready i] at hi
      cases hi }

theorem Treating.setFlags (h : c.Treating id) (flags : PortId → Flags)
    (hdisabled : ∀ i, (flags i).enable = false → (flags i).toDisable = false → c.blocked i = true) :
    Treating { c with flags := flags } id :=
  { h with disabled := hdisabled }

variable {processor : PortId → PortFifo} {passes : List Bool}

theorem Treating.flush (h : c.Treating id)
    (hpasses : ∀ b ∈ passes, b = true) (hshut : ∀ i, c.blocked i = true → (processor i).Shut) :
    Treating { c with processor := processor, passes := c.passes ++ passes } id :=
  { h with
    shut := hshut
    passes := fun b hb => by
      rcases List.mem_append.mp hb with hb | hb
      · exact h.passes b hb
      · exact hpasses b hb }

/-- The threads of the ports have gone on, and `n` marks are attached. -/
def threads (c : Control) (processor : PortId → PortFifo) (n : ℕ) (passes : List Bool) : Control :=
  { c with
    processor := processor
    marks := c.marks.drop n
    answers := c.answers ++ (c.marks.take n).map Mark.id
    passes := c.passes ++ passes }

theorem threads_zero : c.threads processor 0 passes =
    { c with processor := processor, passes := c.passes ++ passes } := by
  unfold threads
  rw [List.drop_zero, List.take_zero, List.map_nil, List.append_nil]

theorem threads_nil : c.threads processor 0 [] = { c with processor := processor } := by
  rw [threads_zero, List.append_nil]

theorem threads_threads {processor processor' : PortId → PortFifo} {n m : ℕ} {passes passes' : List Bool} :
    (c.threads processor n passes).threads processor' m passes' =
      c.threads processor' (n + m) (passes ++ passes') := by
  unfold threads
  simp only [List.drop_drop, List.append_assoc, List.take_add, List.map_append]

theorem perm_threads (before : List ℕ) (n : ℕ) :
    (c.answers ++ (before ++ c.waiting)).Perm
      (c.answers ++ (c.marks.take n).map Mark.id ++
        (before ++ (c.main.filterMap MainTask.command ++ (c.marks.drop n).map Mark.id))) := by
  have hmarks : c.waiting = c.main.filterMap MainTask.command ++
      ((c.marks.take n).map Mark.id ++ (c.marks.drop n).map Mark.id) := by
    rw [← List.map_append, List.take_append_drop]
    rfl
  rw [hmarks, List.append_assoc, ← List.append_assoc before, ← List.append_assoc before,
    ← List.append_assoc (before ++ _)]
  exact List.Perm.append_left _ (by
    rw [← List.append_assoc _ (before ++ _)]
    exact List.Perm.append_right _ List.perm_append_comm)

theorem Treating.threads (h : c.Treating id) (n : ℕ)
    (hpasses : ∀ b ∈ passes, b = true) (hshut : ∀ i, c.blocked i = true → (processor i).Shut) :
    (c.threads processor n passes).Treating id :=
  { h with
    perm := h.perm.trans (perm_threads [id] n)
    own := fun mark hmark => h.own mark (List.mem_of_mem_drop hmark)
    shut := hshut
    passes := fun b hb => by
      rcases List.mem_append.mp hb with hb | hb
      · exact h.passes b hb
      · exact hpasses b hb }

theorem Inv.threads (h : c.Inv) (n : ℕ)
    (hpasses : ∀ b ∈ passes, b = true) (hshut : ∀ i, c.blocked i = true → (processor i).Shut) :
    (c.threads processor n passes).Inv where
  lifecycle := ⟨h.lifecycle.started, h.lifecycle.populating, h.lifecycle.unpopulating, h.lifecycle.moved⟩
  answering := ⟨h.answering.fresh, h.answering.nodup,
    h.answering.perm.trans (perm_threads c.doing.command.toList n),
    fun mark hmark => h.answering.own mark (List.mem_of_mem_drop hmark)⟩
  flagged := h.flagged
  fencing := { h.fencing with shut := hshut }
  passes b hb := by
    rcases List.mem_append.mp hb with hb | hb
    · exact h.passes b hb
    · exact hpasses b hb

/-- The command in front of the main queue, or behind its wait, is treated. -/
theorem Inv.treating (h : c.Inv) (main : List MainTask) (flags : PortId → Flags)
    (hpending : c.pending = id :: (main.filterMap MainTask.command ++ c.marks.map Mark.id))
    (hdisabled : ∀ i, (flags i).enable = false → (flags i).toDisable = false → c.blocked i = true) :
    Treating { c with main := main, flags := flags } id where
  started := h.lifecycle.started
  moved := h.lifecycle.moved
  fresh := h.answering.fresh
  nodup := h.answering.nodup
  perm := by
    show c.accepts.Perm (c.answers ++ id :: (main.filterMap MainTask.command ++ c.marks.map Mark.id))
    rw [← hpending]
    exact h.answering.perm
  own := h.answering.own
  shut := h.fencing.shut
  both := h.fencing.both
  paused := h.fencing.paused
  disabled := hdisabled
  passes := h.passes

variable {main : List MainTask} {flags : PortId → Flags}

theorem Flagged.queue (h : Flagged flags main doing)
    (tasks : List MainTask) : Flagged flags (main ++ tasks) doing where
  toDisable i hi := by
    rcases h.toDisable i hi with ⟨n, hn⟩ | hdoing
    · exact .inl ⟨n, List.mem_append_left tasks hn⟩
    · exact .inr hdoing
  toEnable i hi := by
    rcases h.toEnable i hi with ⟨n, hn⟩ | hdoing
    · exact .inl ⟨n, List.mem_append_left tasks hn⟩
    · exact .inr hdoing

theorem Flagged.pop {task : MainTask} (h : Flagged flags (task :: main) .nothing)
    (hdisable : ∀ i n, task = .disablePort i n → (flags i).toDisable = false)
    (henable : ∀ i n, task = .enablePort i n → (flags i).toEnable = false) : Flagged flags main .nothing where
  toDisable i hi := by
    rcases h.toDisable i hi with ⟨n, hn⟩ | ⟨n, hn⟩
    · rcases List.mem_cons.mp hn with heq | hmem
      · rw [hdisable i n heq.symm] at hi
        cases hi
      · exact .inl ⟨n, hmem⟩
    · cases hn
  toEnable i hi := by
    rcases h.toEnable i hi with ⟨n, hn⟩ | ⟨n, hn⟩
    · rcases List.mem_cons.mp hn with heq | hmem
      · rw [henable i n heq.symm] at hi
        cases hi
      · exact .inl ⟨n, hmem⟩
    · cases hn

theorem Flagged.wait {task : MainTask} (h : Flagged flags (task :: main) .nothing)
    (hdisable : ∀ i n, task = .disablePort i n → doing = .disabling i n)
    (henable : ∀ i n, task = .enablePort i n → doing = .enabling i n) : Flagged flags main doing where
  toDisable i hi := by
    rcases h.toDisable i hi with ⟨n, hn⟩ | ⟨n, hn⟩
    · rcases List.mem_cons.mp hn with heq | hmem
      · exact .inr ⟨n, hdisable i n heq.symm⟩
      · exact .inl ⟨n, hmem⟩
    · cases hn
  toEnable i hi := by
    rcases h.toEnable i hi with ⟨n, hn⟩ | ⟨n, hn⟩
    · rcases List.mem_cons.mp hn with heq | hmem
      · exact .inr ⟨n, henable i n heq.symm⟩
      · exact .inl ⟨n, hmem⟩
    · cases hn

theorem Flagged.of_nothing (h : Flagged flags main .nothing)
    (doing : Doing) : Flagged flags main doing where
  toDisable i hi := by
    rcases h.toDisable i hi with hmem | ⟨n, hn⟩
    · exact .inl hmem
    · cases hn
  toEnable i hi := by
    rcases h.toEnable i hi with hmem | ⟨n, hn⟩
    · exact .inl hmem
    · cases hn

/-- The port command behind its wait clears its flag. -/
theorem Flagged.finish {flags flags' : PortId → Flags} (h : Flagged flags main doing)
    (hdisable : ∀ i, (flags' i).toDisable = true → (flags i).toDisable = true ∧ ∀ n, doing ≠ .disabling i n)
    (henable : ∀ i, (flags' i).toEnable = true → (flags i).toEnable = true ∧ ∀ n, doing ≠ .enabling i n) :
    Flagged flags' main .nothing where
  toDisable i hi := by
    obtain ⟨hold, hdoing⟩ := hdisable i hi
    rcases h.toDisable i hold with hmem | ⟨n, hn⟩
    · exact .inl hmem
    · exact absurd hn (hdoing n)
  toEnable i hi := by
    obtain ⟨hold, hdoing⟩ := henable i hi
    rcases h.toEnable i hold with hmem | ⟨n, hn⟩
    · exact .inl hmem
    · exact absurd hn (hdoing n)

end Control

namespace PortFifo

variable {f : PortFifo}

theorem shut_of_fence (hhand : f.inHand = none) (hheaders : f.headers = []) :
    Shut { f with tasks := f.tasks ++ [.sharedFence false] } := by
  refine ⟨hhand, f.tasks, [], rfl, ?_⟩
  intro header hmem
  have : header ∈ f.headers := List.mem_filterMap.mpr ⟨_, hmem, rfl⟩
  rw [hheaders] at this
  exact List.not_mem_nil this

theorem headers_lift : f.lift.headers = f.headers := by
  unfold lift headers
  rw [List.filterMap_map]
  apply List.filterMap_congr
  intro task _
  cases task <;> rfl

variable {tasks : List PortTask}

theorem Shut.tail {task : PortTask} (h : Shut ⟨task :: tasks, none⟩)
    (htask : task ≠ .sharedFence false) : Shut ⟨tasks, none⟩ := by
  obtain ⟨hhand, xs, ys, heq, hxs⟩ := h
  cases xs with
  | nil => exact absurd (List.cons.inj heq).1 htask
  | cons x xs =>
    exact ⟨hhand, xs, ys, (List.cons.inj heq).2, fun header hmem => hxs header (List.mem_cons_of_mem x hmem)⟩

theorem not_shut_of_buffer {header : Header} {inHand : Option Header} :
    ¬Shut ⟨.buffer header :: tasks, inHand⟩ := by
  intro ⟨_, xs, ys, heq, hxs⟩
  cases xs with
  | nil => cases heq
  | cons x xs =>
    have hx : PortTask.buffer header = x := (List.cons.inj heq).1
    exact hxs header (by rw [hx]; exact List.mem_cons_self)

theorem Shut.append (h : f.Shut) (tasks : List PortTask) : Shut { f with tasks := f.tasks ++ tasks } := by
  obtain ⟨hhand, xs, ys, heq, hxs⟩ := h
  exact ⟨hhand, xs, ys ++ tasks, by rw [heq, List.append_assoc]; rfl, hxs⟩

end PortFifo

namespace Component

variable {s s' : Component} {i : PortId} {side : PortId → Bool}

theorem calm_eq : s.calm = s.control.calm := rfl

/-- A queue is replaced, and its thread has no buffer in hand or the component is calm. -/
theorem renew_control (h : (s.processor i).inHand = none ∨ s.calm = true) :
    ∃ passes, (∀ b ∈ passes, b = true) ∧ (s.renew i).control =
      { s.control with
        processor := Function.update s.processor i ⟨[], none⟩
        passes := s.control.passes ++ passes } := by
  cases hhand : (s.processor i).inHand with
  | none =>
    refine ⟨[], fun b hb => absurd hb List.not_mem_nil, ?_⟩
    rw [control_renew_of_none hhand, List.append_nil]
  | some header =>
    refine ⟨[s.calm], ?_, control_renew_of_some hhand⟩
    rw [hhand] at h
    simpa using h

def renewIf (s : Component) (i : PortId) (b : Bool) : Component := if b then s.renew i else s

theorem renewIf_control {b : Bool} (h : b = true → (s.processor i).inHand = none ∨ s.calm = true) :
    ∃ passes, (∀ x ∈ passes, x = true) ∧ (renewIf s i b).control =
      { s.control with
        processor := if b then Function.update s.processor i ⟨[], none⟩ else s.processor
        passes := s.control.passes ++ passes } := by
  cases b with
  | true => exact renew_control (h rfl)
  | false =>
    refine ⟨[], fun x hx => absurd hx List.not_mem_nil, ?_⟩
    rw [List.append_nil]
    rfl

theorem flush_open (hopen : s.pausePromise = fun _ => false)
    (hcalm : ∀ i, side i = true → (s.processor i).inHand = none ∨ s.calm = true)
    (h : s.flushFillEmptyBuffers side [] = some s') :
    ∃ passes, (∀ b ∈ passes, b = true) ∧ s'.control =
      { s.control with
        processor := fun i => if side i then ⟨[], none⟩ else s.processor i
        passes := s.control.passes ++ passes } := by
  have hflush : s' = renewIf (renewIf s .output (side .output)) .input (side .input) := by
    unfold flushFillEmptyBuffers at h
    simp only [hopen, Bool.or_self, Bool.false_eq_true, if_false, List.foldlM_nil, Option.pure_def,
      Option.bind_eq_bind, Option.bind_some, Option.some.injEq] at h
    exact h.symm
  obtain ⟨passes, hpasses, hout⟩ := renewIf_control (i := .output) (b := side .output) (hcalm .output)
  have hproc : (renewIf s .output (side .output)).processor .input = s.processor .input := by
    have : (renewIf s .output (side .output)).control.processor .input = s.processor .input := by
      rw [hout]
      cases side .output <;> rfl
    exact this
  have hcalm' : (renewIf s .output (side .output)).calm = s.calm := by
    rw [calm_eq, hout]
    rfl
  obtain ⟨passes', hpasses', hin⟩ := renewIf_control (s := renewIf s .output (side .output)) (i := .input)
    (b := side .input) (by rw [hproc, hcalm']; exact hcalm .input)
  refine ⟨passes ++ passes', ?_, ?_⟩
  · intro b hb
    rcases List.mem_append.mp hb with hb | hb
    · exact hpasses b hb
    · exact hpasses' b hb
  · rw [hflush, hin, hout]
    have hprocessor : (if side .input then
          Function.update (renewIf s .output (side .output)).processor .input ⟨[], none⟩
        else (renewIf s .output (side .output)).processor) =
        fun i => if side i then ⟨[], none⟩ else s.processor i := by
      have : (renewIf s .output (side .output)).processor =
          if side .output then Function.update s.processor .output ⟨[], none⟩ else s.processor :=
        congrArg Control.processor hout
      rw [this]
      funext i
      cases i <;> cases side .input <;> cases side .output <;> rfl
    rw [hprocessor, List.append_assoc]

/-- A flush with closed fences: they are lifted, and set again in the new queues. -/
theorem flush_fenced (hblocked : s.pausePromise = fun _ => true) (hhand : ∀ i, (s.processor i).inHand = none)
    (h : s.flushFillEmptyBuffers side [] = some s') :
    ∃ passes, (∀ b ∈ passes, b = true) ∧ s'.control =
      { s.control with
        processor := fun i =>
          if side i then ⟨[.sharedFence false], none⟩
          else ⟨(s.processor i).lift.tasks ++ [.sharedFence false], none⟩
        passes := s.control.passes ++ passes } := by
  have hopen : s.unblockFillEmptyBuffers.pausePromise = fun _ => false := rfl
  have hlift : ∀ i, s.unblockFillEmptyBuffers.processor i = (s.processor i).lift := by
    intro i
    unfold unblockFillEmptyBuffers
    simp only [hblocked, if_true]
  obtain ⟨t, ht, hs'⟩ : ∃ t, s.unblockFillEmptyBuffers.flushFillEmptyBuffers side [] = some t ∧
      s' = t.blockFillEmptyBuffers fun _ => true := by
    unfold flushFillEmptyBuffers at h ⊢
    simp only [hblocked, hopen, Bool.or_self, if_true, Bool.false_eq_true, if_false, List.foldlM_nil,
      Option.pure_def, Option.bind_eq_bind, Option.bind_some, Option.some.injEq] at h ⊢
    exact ⟨_, rfl, h.symm⟩
  obtain ⟨passes, hpasses, hcontrol⟩ := flush_open hopen (fun i _ => .inl (by rw [hlift]; exact hhand i)) ht
  refine ⟨passes, hpasses, ?_⟩
  have htblocked : t.pausePromise = fun _ => false := congrArg Control.blocked hcontrol
  have htproc : t.processor = fun i => if side i then ⟨[], none⟩ else (s.processor i).lift := by
    have : t.processor = fun i => if side i then ⟨[], none⟩ else s.unblockFillEmptyBuffers.processor i :=
      congrArg Control.processor hcontrol
    rw [this]
    funext i
    rw [hlift]
  rw [hs', control_block, hcontrol, htblocked, htproc, control_unblock]
  have hfences : (fun i => if true && !false then
        { (if side i then (⟨[], none⟩ : PortFifo) else (s.processor i).lift) with
          tasks := (if side i then (⟨[], none⟩ : PortFifo) else (s.processor i).lift).tasks ++
            [.sharedFence false] }
      else if side i then ⟨[], none⟩ else (s.processor i).lift) =
      fun i => if side i then (⟨[.sharedFence false], none⟩ : PortFifo)
        else ⟨(s.processor i).lift.tasks ++ [.sharedFence false], none⟩ := by
    funext i
    cases side i with
    | true => rfl
    | false =>
      show (⟨_, (s.processor i).inHand⟩ : PortFifo) = _
      rw [hhand i]
      rfl
  rw [hfences]
  unfold control
  rw [hblocked]
  rfl

variable {result : Option ModuleError} {newState : OmxState}

theorem control_startFor {r : Option ModuleError}
    (hstarted : isTransitionToExecutingOrPause s.state newState = true → s.started = false)
    (h : s.startFor newState result = (s', r)) :
    (∃ e, r = some e ∧ s' = s) ∨ r = none ∧ s'.control =
      { s.control with started := s.started || isTransitionToExecutingOrPause s.state newState } := by
  unfold startFor at h
  by_cases ht : isTransitionToExecutingOrPause s.state newState = true
  · rw [if_pos ht] at h
    unfold startModule at h
    rw [if_neg (by rw [hstarted ht]; simp)] at h
    cases result with
    | none =>
      right
      cases h
      rw [ht, Bool.or_true]
      exact ⟨rfl, rfl⟩
    | some e =>
      left
      cases h
      exact ⟨e, rfl, rfl⟩
  · rw [if_neg ht] at h
    right
    cases h
    rw [Bool.not_eq_true] at ht
    rw [ht, Bool.or_false]
    exact ⟨rfl, rfl⟩

theorem control_announceFor : (s.announceFor newState).control = s.control := by
  unfold announceFor
  split
  · exact control_log unseen_settingsChanged
  · rfl

theorem control_stopFor (s : Component) (newState : OmxState) : (s.stopFor newState).control =
    { s.control with started := s.started && !isTransitionToIdleFromExecutingOrPause s.state newState } := by
  unfold stopFor
  cases isTransitionToIdleFromExecutingOrPause s.state newState with
  | true =>
    rw [if_pos rfl, control_stopModule, Bool.not_true, Bool.and_false]
  | false =>
    rw [if_neg (by simp), Bool.not_false, Bool.and_true]
    rfl

theorem control_blockFor (s : Component) (newState : OmxState) : (s.blockFor newState).control =
    { s.control with
      blocked := fun i => s.pausePromise i || isTransitionToPause s.state newState
      processor := fun i =>
        if isTransitionToPause s.state newState && !s.pausePromise i then
          { s.processor i with tasks := (s.processor i).tasks ++ [.sharedFence false] }
        else s.processor i } := by
  unfold blockFor
  cases isTransitionToPause s.state newState with
  | true =>
    rw [if_pos rfl]
    rfl
  | false =>
    rw [if_neg (by simp)]
    simp only [Bool.or_false, Bool.false_and, Bool.false_eq_true, if_false]
    rfl

variable {opt : Option OmxError}

theorem finishSetState_cases {id : ℕ}
    (hstarted : isTransitionToExecutingOrPause s.state newState = true → s.started = false)
    (h : s.finishSetState newState opt id result [] = some s') :
    s'.control = { s.control with doing := .nothing, answers := s.control.answers ++ [id] } ∨
    ∃ t : Component, t.control =
        { s.control with
          started := (s.started || isTransitionToExecutingOrPause s.state newState) &&
            !isTransitionToIdleFromExecutingOrPause s.state newState
          blocked := fun i => s.pausePromise i || isTransitionToPause s.state newState
          processor := fun i =>
            if isTransitionToPause s.state newState && !s.pausePromise i then
              { s.processor i with tasks := (s.processor i).tasks ++ [.sharedFence false] }
            else s.processor i } ∧
      s' = (((if s.state = .pause && s.portsReady then t.unblockFillEmptyBuffers else t).moveTo newState).answer id
        (.stateSet newState)) := by
  unfold finishSetState at h
  cases hstart : s.startFor newState result with
  | mk s1 r =>
    rw [hstart] at h
    rcases control_startFor hstarted hstart with ⟨e, rfl, rfl⟩ | ⟨rfl, hs1⟩
    · left
      cases h
      exact control_fail_of_ne (by cases e <;> nofun)
    · right
      have hs2 : (s1.announceFor newState).control = _ := control_announceFor.trans hs1
      have hstate2 : (s1.announceFor newState).state = s.state := congrArg Control.state hs2
      have hs3 := control_stopFor (s1.announceFor newState) newState
      have hstarted2 : (s1.announceFor newState).started =
        (s.started || isTransitionToExecutingOrPause s.state newState) := congrArg Control.started hs2
      rw [hs2, hstate2, hstarted2] at hs3
      have hstate3 : ((s1.announceFor newState).stopFor newState).state = s.state := congrArg Control.state hs3
      have hs4 := control_blockFor ((s1.announceFor newState).stopFor newState) newState
      have hblocked3 : ((s1.announceFor newState).stopFor newState).pausePromise = s.pausePromise :=
        congrArg Control.blocked hs3
      have hprocessor3 : ((s1.announceFor newState).stopFor newState).processor = s.processor :=
        congrArg Control.processor hs3
      rw [hs3, hstate3, hblocked3, hprocessor3] at hs4
      refine ⟨_, hs4, ?_⟩
      have hstate4 : (((s1.announceFor newState).stopFor newState).blockFor newState).state = s.state :=
        congrArg Control.state hs4
      have hready : (((s1.announceFor newState).stopFor newState).blockFor newState).portsReady = s.portsReady :=
        congrArg Control.portsReady hs4
      simp only [List.foldlM_nil, Option.pure_def, hstate4, hready] at h
      split at h
      · rename_i hlift
        rw [if_pos hlift]
        cases h
        rfl
      · rename_i hlift
        rw [if_neg hlift]
        cases h
        rfl

theorem flush_control (hshut : ∀ i, s.pausePromise i = true → (s.processor i).Shut)
    (hboth : ∀ i j, s.pausePromise i = s.pausePromise j)
    (hcalm : ∀ i, side i = true → (s.processor i).inHand = none ∨ s.calm = true)
    (hside : ∀ i, s.pausePromise i = true → side i = true ∨ s.NoBuffers i)
    (h : s.flushFillEmptyBuffers side [] = some s') :
    ∃ processor passes, (∀ b ∈ passes, b = true) ∧
      s'.control = { s.control with processor := processor, passes := s.control.passes ++ passes } ∧
      (∀ i, s.pausePromise i = true → (processor i).Shut) ∧
      ∀ i, s.pausePromise i = false → side i = true ∨ s.NoBuffers i →
        (processor i).headers = [] ∧ (processor i).inHand = none := by
  cases hb : s.pausePromise .input with
  | true =>
    have hblocked : s.pausePromise = fun _ => true := by
      funext i
      rw [hboth i .input, hb]
    have hhand : ∀ i, (s.processor i).inHand = none := fun i => (hshut i (by rw [hblocked])).1
    obtain ⟨passes, hpasses, hs'⟩ := flush_fenced hblocked hhand h
    refine ⟨_, passes, hpasses, hs', ?_, ?_⟩
    · intro i hi
      show PortFifo.Shut (if side i then _ else _)
      cases hi' : side i with
      | true => exact ⟨rfl, [], [], rfl, fun _ => List.not_mem_nil⟩
      | false =>
        rcases hside i hi with hyes | hnone
        · rw [hi'] at hyes
          cases hyes
        · have hlift := PortFifo.shut_of_fence (f := (s.processor i).lift) (hhand i)
            (by rw [PortFifo.headers_lift]; exact hnone.1)
          show PortFifo.Shut ⟨_, none⟩
          rw [← hhand i]
          exact hlift
    · intro i hi
      rw [hblocked] at hi
      cases hi
  | false =>
    have hopen : s.pausePromise = fun _ => false := by
      funext i
      rw [hboth i .input, hb]
    obtain ⟨passes, hpasses, hs'⟩ := flush_open hopen hcalm h
    refine ⟨_, passes, hpasses, hs', ?_, ?_⟩
    · intro i hi
      rw [hopen] at hi
      cases hi
    · intro i _ hi
      cases hi' : side i with
      | true => exact ⟨rfl, rfl⟩
      | false =>
        rcases hi with hyes | hnone
        · rw [hi'] at hyes
          cases hyes
        · exact hnone

/-- The module is started and stopped with the transitions. -/
theorem started_of_transition {a b : OmxState} {started : Bool} (h : started = true ↔ a = .executing ∨ a = .pause)
    (hcheck : checkStateTransition a b = none) :
    ((started || isTransitionToExecutingOrPause a b) && !isTransitionToIdleFromExecutingOrPause a b) = true ↔
      b = .executing ∨ b = .pause := by
  cases a <;> cases b <;>
    simp_all [checkStateTransition, isTransitionToExecutingOrPause, isTransitionToIdleFromExecutingOrPause]

theorem isTransitionToPause_of_check {a : OmxState} (hcheck : checkStateTransition a .pause = none) :
    isTransitionToPause a .pause = true := by
  cases a <;> simp_all [checkStateTransition, isTransitionToPause]

theorem enable_of_portsReady (h : s.portsReady = true) : (s.port i).enable = true := by
  unfold portsReady at h
  simp only [Bool.and_eq_true] at h
  cases i with
  | input => exact h.1.1.1
  | output => exact h.1.1.2

theorem finishSetState_inv {id : ℕ}
    (ht : s.control.Treating id) (hflagged : Control.Flagged s.control.flags s.processorMain .nothing)
    (hcheck : checkStateTransition s.state newState = none)
    (hpause : isTransitionToPause s.state newState = true → ∀ i, s.pausePromise i = true ∨ s.NoBuffers i)
    (h : s.finishSetState newState opt id result [] = some s') : s'.control.Inv := by
  have hstate : s.started = true ↔ s.state = .executing ∨ s.state = .pause := ht.started
  have hstopped : isTransitionToExecutingOrPause s.state newState = true → s.started = false := by
    intro htrans
    unfold isTransitionToExecutingOrPause at htrans
    simp only [decide_eq_true_eq] at htrans
    rw [← Bool.not_eq_true, hstate, htrans.2]
    simp
  rcases finishSetState_cases hstopped h with hs' | ⟨t, htc, hs'⟩
  · rw [hs']
    exact ht.answer hflagged
  · have hmove := started_of_transition hstate hcheck
    have htstate : t.state = s.state := congrArg Control.state htc
    rw [hs', control_answer, control_moveTo]
    by_cases hlift : (s.state = .pause && s.portsReady) = true
    · have htstate' : t.unblockFillEmptyBuffers.state = s.state := htstate
      rw [if_pos hlift, control_unblock, htc, htstate']
      rw [Bool.and_eq_true, decide_eq_true_eq] at hlift
      have hnew : newState ≠ .pause := by
        rintro rfl
        rw [hlift.1] at hcheck
        cases hcheck
      have hunblocked := ht.move newState _ (fun _ => false) t.unblockFillEmptyBuffers.processor (.inl hcheck) hmove (fun _ => nofun) (fun _ _ => rfl)
        (fun hp => absurd hp hnew) (by
          intro i hoff
          have hon : (s.port i).enable = true := enable_of_portsReady hlift.2
          rw [show (s.port i).enable = false from hoff] at hon
          cases hon)
      exact hunblocked.answer hflagged
    · rw [if_neg hlift, htc, htstate]
      have hblocked := ht.move newState _ (fun i => s.pausePromise i || isTransitionToPause s.state newState)
        (fun i =>
          if isTransitionToPause s.state newState && !s.pausePromise i then
            { s.processor i with tasks := (s.processor i).tasks ++ [.sharedFence false] }
          else s.processor i)
        (.inl hcheck) hmove
        (by
          intro i hi
          cases hfence : s.pausePromise i with
          | true =>
            rw [Bool.not_true, Bool.and_false, if_neg (by simp)]
            exact ht.shut i hfence
          | false =>
            rw [hfence, Bool.false_or] at hi
            rw [hi, Bool.not_false, Bool.and_self, if_pos rfl]
            rcases hpause hi i with hyes | hnone
            · rw [hfence] at hyes
              cases hyes
            · exact PortFifo.shut_of_fence hnone.2 hnone.1)
        (by
          intro i j
          rw [show s.pausePromise i = s.pausePromise j from ht.both i j])
        (by
          intro hp i
          rw [hp] at hcheck ⊢
          rw [isTransitionToPause_of_check hcheck, Bool.or_true])
        (by
          intro i hoff hdis
          rw [show s.pausePromise i = true from ht.disabled i hoff hdis, Bool.true_or])
      exact hblocked.answer hflagged

end Component

end VcuCodec.Omx
