import VcuCodec.OmxComponent

/-!
# The state machine of the OMX component

What the commands, the module and the fences of the two ports have to do with each other.
-/

namespace VcuCodec.Omx

/-! ## What the commands see -/

/-- The number of a command that waits in the main queue. -/
def MainTask.command : MainTask → Option ℕ
  | .setState _ _ id | .flush _ id | .disablePort _ id | .enablePort _ id | .markBuffer _ id => some id
  | .buffer _ _ | .setDynamic => none

/-- The number of the command that the main thread is in. -/
def Doing.command : Doing → Option ℕ
  | .nothing => none
  | .populating _ id | .unpopulating _ id | .disabling _ id | .enabling _ id => some id

namespace Event

def move : Event → Option (OmxState × OmxState)
  | .moved a b => some (a, b)
  | _ => none

def accept : Event → Option ℕ
  | .accepted id => some id
  | _ => none

/-- The number of the command that the event answers. -/
def answer : Event → Option ℕ
  | .complete id _ | .error id _ => some id
  | _ => none

/-- Whether the component was calm when a buffer was passed to the module. -/
def passedCalm : Event → Option Bool
  | .passed _ _ calm _ => some calm
  | _ => none

end Event

def MainTask.disables (i : PortId) : MainTask → Bool
  | .disablePort j _ => j = i
  | _ => false

def MainTask.enables (i : PortId) : MainTask → Bool
  | .enablePort j _ => j = i
  | _ => false

def Doing.enables (i : PortId) : Doing → Bool
  | .enabling j _ => j = i
  | _ => false

variable {main : List MainTask} {i : PortId}

theorem any_disables : main.any (MainTask.disables i) = true ↔ ∃ id, .disablePort i id ∈ main := by
  rw [List.any_eq_true]
  constructor
  · intro ⟨task, hmem, htask⟩
    cases task with
    | disablePort j id =>
      rw [of_decide_eq_true htask] at hmem
      exact ⟨id, hmem⟩
    | _ => cases htask
  · intro ⟨id, hmem⟩
    exact ⟨_, hmem, decide_eq_true rfl⟩

theorem any_enables : main.any (MainTask.enables i) = true ↔ ∃ id, .enablePort i id ∈ main := by
  rw [List.any_eq_true]
  constructor
  · intro ⟨task, hmem, htask⟩
    cases task with
    | enablePort j id =>
      rw [of_decide_eq_true htask] at hmem
      exact ⟨id, hmem⟩
    | _ => cases htask
  · intro ⟨id, hmem⟩
    exact ⟨_, hmem, decide_eq_true rfl⟩

theorem enables_iff {doing : Doing} : doing.enables i = true ↔ ∃ id, doing = .enabling i id := by
  cases doing with
  | enabling j id =>
    constructor
    · intro h
      rw [of_decide_eq_true h]
      exact ⟨id, rfl⟩
    · intro ⟨n, hn⟩
      cases hn
      exact decide_eq_true rfl
  | _ => simp [Doing.enables]

instance {i : PortId} {main : List MainTask} : Decidable (∃ id, .disablePort i id ∈ main) :=
  decidable_of_iff _ any_disables

instance {i : PortId} {main : List MainTask} : Decidable (∃ id, .enablePort i id ∈ main) :=
  decidable_of_iff _ any_enables

instance {i : PortId} {doing : Doing} : Decidable (∃ id, doing = .enabling i id) :=
  decidable_of_iff _ enables_iff

namespace Component

/-- The commands that are not answered yet. -/
def pending (s : Component) : List ℕ :=
  s.doing.command.toList ++ (s.processorMain.filterMap MainTask.command ++ s.marks.map Mark.id)

/-- The module is started exactly in the states `executing` and `pause`, the state changes
along the allowed transitions, every accepted command is answered once or still to be
answered, and buffers are passed to the module only while neither the component is paused
nor a port disabled or in transition. -/
structure Orderly (s : Component) : Prop where
  started : s.started = true ↔ s.state = .executing ∨ s.state = .pause
  moved : ∀ a b, (a, b) ∈ s.log.filterMap Event.move → checkStateTransition a b = none ∨ b = .invalid
  accepted : (s.log.filterMap Event.accept).Nodup
  answered : (s.log.filterMap Event.accept).Perm (s.log.filterMap Event.answer ++ s.pending)
  calm : ∀ b ∈ s.log.filterMap Event.passedCalm, b = true

/-! ## The condition -/

/-- No buffer waits for the port or is in the hand of its thread. -/
def NoBuffers (s : Component) (i : PortId) : Prop := (s.processor i).headers = [] ∧ (s.processor i).inHand = none
deriving Decidable

/-- A port command has set the flag of its port and is not treated yet. -/
def Announced (s : Component) : Prop :=
  ∃ i, (s.port i).isTransientToDisable = true ∧ (∃ id, .disablePort i id ∈ s.processorMain) ∨
    (s.port i).isTransientToEnable = true ∧
      ((∃ id, .enablePort i id ∈ s.processorMain) ∨ ∃ id, s.doing = .enabling i id)
deriving Decidable

/-- A flush finds no buffer in the hand of a port thread behind an announced port command. -/
def FlushesCalmly (s : Component) : Prop := ∀ i, (s.processor i).inHand = none ∨ ¬s.Announced
deriving Decidable

/-- Where the command lifts fences, the port threads do not run until it has set them again
or changed the state. -/
def GapAllowed (s : Component) (gap : List PortStep) : Prop :=
  gap = [] ∨ (∀ i, s.pausePromise i = false) ∧ ¬s.Announced
deriving Decidable

/-- A restart of the module succeeds. -/
def Restarts (s : Component) (result : Option ModuleError) : Prop := s.started = true → result = none
deriving Decidable

def otherPort : PortId → PortId
  | .input => .output
  | .output => .input

/-- What has to hold where the main thread takes a task. -/
def TaskAllowed (s : Component) (result : Option ModuleError) : MainTask → Prop
  | .setState newState _ _ =>
    (isFlushingRequired s.state newState = true → s.FlushesCalmly) ∧
      (s.state = .idle → newState = .pause → ∀ i, s.pausePromise i = true ∨ s.NoBuffers i)
  | .flush _ _ => s.Restarts result ∧ s.FlushesCalmly
  | .disablePort i _ =>
    (s.port i).isTransientToDisable = true →
      (s.refreshes = true → s.Restarts result) ∧ s.shouldPrealloc = true ∧ (s.processor i).inHand = none ∧
        s.NoBuffers (otherPort i)
  | .enablePort i _ =>
    (s.port i).isTransientToEnable = true → s.state = .loaded ∨ s.state = .waitForResources →
      (s.port i).error = false
  | .markBuffer own _ => own = true
  | .buffer _ _ | .setDynamic => True

/-- What has to hold where the main thread goes on behind a wait. -/
def WaitAllowed (s : Component) (result : Option ModuleError) : Prop :=
  match s.doing with
  | .disabling i _ => (s.port i).error = false
  | .enabling i _ => (s.port i).error = false ∧ (s.refreshes = true → s.Restarts result)
  | _ => True

/-- The restarts of the module succeed; no port is in error at the end of a port command;
preallocation is on when a port is disabled; a fence is set in front of no buffer; the port
threads neither run under lifted fences inside a command, nor pass a buffer while a port
command waits; and the component is the target of every mark. -/
def Allowed (s : Component) : Op → Prop
  | .port (.pass _) => ¬s.Announced
  | .main result gap =>
    s.GapAllowed gap ∧ s.WaitAllowed result ∧
      (s.doing = .nothing → ∀ task ∈ s.processorMain.head?, s.TaskAllowed result task)
  | _ => True

/-! The condition can be evaluated. -/

section
variable (s : Component) (result : Option ModuleError)

instance : ∀ task, Decidable (s.TaskAllowed result task)
  | .setState .. => inferInstanceAs (Decidable (_ ∧ _))
  | .flush .. => inferInstanceAs (Decidable (_ ∧ _))
  | .disablePort .. => inferInstanceAs (Decidable (_ → _))
  | .enablePort .. => inferInstanceAs (Decidable (_ → _))
  | .markBuffer .. => inferInstanceAs (Decidable (_ = _))
  | .buffer .. | .setDynamic => inferInstanceAs (Decidable True)

instance : Decidable (s.WaitAllowed result) :=
  match h : s.doing with
  | .disabling i _ => decidable_of_iff ((s.port i).error = false) (by unfold WaitAllowed; rw [h])
  | .enabling i _ =>
    decidable_of_iff ((s.port i).error = false ∧ (s.refreshes = true → s.Restarts result))
      (by unfold WaitAllowed; rw [h])
  | .nothing | .populating .. | .unpopulating .. => isTrue (by unfold WaitAllowed; rw [h]; trivial)

instance : ∀ op, Decidable (s.Allowed op)
  | .port (.pass _) => inferInstanceAs (Decidable (¬_))
  | .main .. => inferInstanceAs (Decidable (_ ∧ _ ∧ _))
  | .setState .. | .flush _ | .portDisable _ | .portEnable _ | .markBuffer _ | .submit .. | .setConfig
  | .setParameter .. | .allocate .. | .free .. | .giveBack .. | .endOfStream | .moduleError _ | .port (.take _) =>
    inferInstanceAs (Decidable True)

end

end Component

/-! ## The state of the commands -/

structure Flags where
  enable : Bool
  toEnable : Bool
  toDisable : Bool

/-- What the commands depend on. -/
structure Control where
  state : OmxState
  started : Bool
  flags : PortId → Flags
  main : List MainTask
  processor : PortId → PortFifo
  blocked : PortId → Bool
  doing : Doing
  marks : List Mark
  issued : ℕ
  moves : List (OmxState × OmxState)
  accepts : List ℕ
  answers : List ℕ
  passes : List Bool

def Port.flags (p : Port) : Flags := ⟨p.enable, p.isTransientToEnable, p.isTransientToDisable⟩

namespace Component

def control (s : Component) : Control where
  state := s.state
  started := s.started
  flags i := (s.port i).flags
  main := s.processorMain
  processor := s.processor
  blocked := s.pausePromise
  doing := s.doing
  marks := s.marks
  issued := s.issued
  moves := s.log.filterMap Event.move
  accepts := s.log.filterMap Event.accept
  answers := s.log.filterMap Event.answer
  passes := s.log.filterMap Event.passedCalm

end Component

/-! ## The effects of the parts of a command -/

namespace Component

variable {s s' : Component} {i : PortId} {header : Header} {result : Option ModuleError} {side : PortId → Bool}

/-- Events of which the commands see nothing. -/
def Unseen (evs : List Event) : Prop :=
  evs.filterMap Event.move = [] ∧ evs.filterMap Event.accept = [] ∧ evs.filterMap Event.answer = [] ∧
    evs.filterMap Event.passedCalm = []

theorem unseen_returned (headers : List Header) : Unseen (headers.map (.returned i)) := by
  refine ⟨?_, ?_, ?_, ?_⟩ <;> simp [List.filterMap_map, Function.comp_def, Event.move, Event.accept,
    Event.answer, Event.passedCalm]

theorem unseen_submitted (header : Header) : Unseen [.submitted i header] := by
  simp [Unseen, Event.move, Event.accept, Event.answer, Event.passedCalm]

theorem unseen_settingsChanged : Unseen [.settingsChanged] := by
  simp [Unseen, Event.move, Event.accept, Event.answer, Event.passedCalm]

theorem Unseen.append {evs evs' : List Event} (h : Unseen evs) (h' : Unseen evs') : Unseen (evs ++ evs') := by
  obtain ⟨h1, h2, h3, h4⟩ := h
  obtain ⟨h1', h2', h3', h4'⟩ := h'
  unfold Unseen
  simp only [List.filterMap_append, h1, h2, h3, h4, h1', h2', h3', h4', List.append_nil, and_self]

theorem control_log {evs : List Event} (h : Unseen evs) : { s with log := s.log ++ evs }.control = s.control := by
  obtain ⟨h1, h2, h3, h4⟩ := h
  unfold control
  simp only [List.filterMap_append, h1, h2, h3, h4, List.append_nil]

theorem control_stopModule : s.stopModule.1.control = { s.control with started := false } := by
  unfold stopModule
  by_cases h : s.started = true
  · rw [if_pos h]
    have hlog := control_log (s := s)
      ((unseen_returned (i := .input) (s.held .input)).append (unseen_returned (i := .output) (s.held .output)))
    rw [← List.append_assoc] at hlog
    exact congrArg (fun c : Control => { c with started := false }) hlog
  · rw [if_neg h]
    rw [Bool.not_eq_true] at h
    show s.control = { s.control with started := false }
    rw [← h]
    rfl

theorem stopModule_snd : s.stopModule.2 = s.started := by
  unfold stopModule
  by_cases h : s.started = true
  · rw [if_pos h, h]
  · rw [if_neg h]
    rw [Bool.not_eq_true] at h
    rw [h]

theorem started_stopModule : s.stopModule.1.started = false :=
  congrArg Control.started control_stopModule

theorem control_restart (h : s.Restarts result) : (s.restart result).control = s.control := by
  unfold restart
  simp only
  rw [stopModule_snd]
  by_cases hs : s.started = true
  · rw [if_pos hs]
    unfold startModule
    rw [if_neg (by rw [started_stopModule]; simp), h hs]
    have hstop := control_stopModule (s := s)
    calc { s.stopModule.1 with started := true }.control
        = { s.stopModule.1.control with started := true } := rfl
      _ = { s.control with started := true } := by rw [hstop]
      _ = s.control := by rw [← hs]; rfl
  · rw [if_neg hs, control_stopModule]
    rw [Bool.not_eq_true] at hs
    rw [← hs]
    rfl

theorem control_refresh (h : s.refreshes = true → s.Restarts result) : (s.refresh result).control = s.control := by
  unfold refresh
  split
  · rename_i hrefreshes
    calc _ = { s.restart result with log := (s.restart result).log ++ [Event.settingsChanged] }.control := rfl
      _ = (s.restart result).control := control_log unseen_settingsChanged
      _ = s.control := control_restart (h hrefreshes)
  · rfl

theorem control_release : (s.release i).control = s.control := by
  calc (s.release i).control
      = { s with log := s.log ++ (s.eosHandles i).toList.map (Event.returned i) }.control := rfl
    _ = s.control := control_log (unseen_returned _)

theorem control_flushEosHandles : s.flushEosHandles.control = s.control := by
  unfold flushEosHandles
  rw [control_release, control_release]

variable {id : ℕ}

theorem control_answer {what : Completion} : (s.answer id what).control =
    { s.control with doing := .nothing, answers := s.control.answers ++ [id] } := by
  unfold answer control
  simp [Event.move, Event.accept, Event.answer, Event.passedCalm]

theorem control_moveTo {newState : OmxState} : (s.moveTo newState).control =
    { s.control with state := newState, moves := s.control.moves ++ [(s.state, newState)] } := by
  unfold moveTo control
  simp [Event.move, Event.accept, Event.answer, Event.passedCalm]

theorem control_error {e : OmxError} : { s with doing := .nothing, log := s.log ++ [Event.error id e] }.control =
    { s.control with doing := .nothing, answers := s.control.answers ++ [id] } := by
  unfold control
  simp [Event.move, Event.accept, Event.answer, Event.passedCalm]

variable {opt : Option OmxError}

theorem control_fail_of_ne {e : OmxError} (h : e ≠ .invalidState) : (s.fail opt id e).control =
      { s.control with doing := .nothing, answers := s.control.answers ++ [id] } := by
  unfold fail
  rw [if_neg h]
  exact control_error

theorem control_fail_invalid : (s.fail opt id .invalidState).control = { s.control with
        state := .invalid
        started := false
        doing := .nothing
        moves := s.control.moves ++ [(s.state, .invalid)]
        answers := s.control.answers ++ [id] } := by
  unfold fail
  rw [if_pos rfl]
  calc _ = { (s.stopModule.1.moveTo .invalid).control with
        doing := .nothing
        answers := (s.stopModule.1.moveTo .invalid).control.answers ++ [id] } := control_error
    _ = _ := by
      have hstate : s.stopModule.1.state = s.state := congrArg Control.state control_stopModule
      rw [control_moveTo, control_stopModule, hstate]

theorem control_pass : (s.pass i header).control =
    { s.control with
      processor := Function.update s.processor i { s.processor i with inHand := none }
      passes := s.control.passes ++ [s.calm] } := by
  unfold pass control
  simp [Event.move, Event.accept, Event.answer, Event.passedCalm]

theorem control_block : (s.blockFillEmptyBuffers side).control =
    { s.control with
      blocked := fun i => s.pausePromise i || side i
      processor := fun i =>
        if side i && !s.pausePromise i then
          { s.processor i with tasks := (s.processor i).tasks ++ [.sharedFence false] }
        else s.processor i } := rfl

theorem control_unblock : s.unblockFillEmptyBuffers.control =
    { s.control with
      blocked := fun _ => false
      processor := fun i => if s.pausePromise i then (s.processor i).lift else s.processor i } := rfl

theorem control_renew_of_none (h : (s.processor i).inHand = none) : (s.renew i).control =
    { s.control with processor := Function.update s.processor i ⟨[], none⟩ } := by
  unfold renew
  rw [h]
  exact congrArg (fun c : Control => { c with processor := Function.update s.processor i ⟨[], none⟩ })
    (control_log (unseen_returned _))

theorem control_renew_of_some (h : (s.processor i).inHand = some header) : (s.renew i).control =
    { s.control with
      processor := Function.update s.processor i ⟨[], none⟩
      passes := s.control.passes ++ [s.calm] } := by
  unfold renew
  rw [h]
  calc _ = { { s.pass i header with
          log := (s.pass i header).log ++ ((s.pass i header).processor i).headers.map (Event.returned i) }.control with
        processor := Function.update (s.pass i header).processor i ⟨[], none⟩ } := rfl
    _ = { (s.pass i header).control with
        processor := Function.update (s.pass i header).processor i ⟨[], none⟩ } := by
      rw [control_log (unseen_returned _)]
    _ = _ := by
      rw [control_pass]
      unfold pass
      simp only [Function.update_idem]

end Component

end VcuCodec.Omx
