import Mathlib.Data.List.Basic
import Mathlib.Logic.Function.Basic
import Mathlib.Tactic.Common

/-!
# The OMX component

`Component` of `base/omx_component/omx_component.cpp` with its three threads.  The client
queues commands and buffers to the main thread, which treats the commands and hands the
buffers to the threads of the two ports, and these pass them to the codec module.  A step
of a thread is one operation; where the main thread waits for the client inside a
command, or lets a port thread run, the command is cut there.
-/

namespace VcuCodec.Omx

/-! ## States and errors -/

/-- `OMX_STATETYPE` -/
inductive OmxState
  | invalid | loaded | idle | executing | pause | waitForResources
  deriving DecidableEq

inductive TransientState
  | loadedToIdle | idleToPause | idleToLoaded | idleToExecuting | pauseToExecuting | pauseToIdle
  | executingToIdle | executingToPause | max
  deriving DecidableEq

/-- `ModuleInterface::ErrorType` without `SUCCESS` -/
inductive ModuleError
  | noChannelAvailable | resourceUnavailable | resourceFragmented | noMemory | badParameter | undefined
  deriving DecidableEq

/-- The `OMX_ERRORTYPE` values that an error event carries. -/
inductive OmxError
  | sameState | incorrectStateTransition | invalidState | undefined | insufficientResources | badParameter
  | noChannelLeft | channelResourceUnavailable | channelResourceFragmented
  deriving DecidableEq

def toOmxError : ModuleError → OmxError
  | .noChannelAvailable => .noChannelLeft
  | .resourceUnavailable => .channelResourceUnavailable
  | .resourceFragmented => .channelResourceFragmented
  | .noMemory => .insufficientResources
  | .badParameter => .badParameter
  | .undefined => .undefined

/-- `CheckStateTransition`: the error that it throws. -/
def checkStateTransition (curState newState : OmxState) : Option OmxError :=
  if newState = curState then some .sameState
  else
    match curState, newState with
    | .invalid, _ => some .undefined
    | _, .invalid => some .invalidState
    | .loaded, .executing | .loaded, .pause => some .incorrectStateTransition
    | .waitForResources, .executing | .waitForResources, .pause => some .incorrectStateTransition
    | .idle, .waitForResources => some .incorrectStateTransition
    | .executing, .waitForResources | .executing, .loaded => some .incorrectStateTransition
    | .pause, .waitForResources | .pause, .loaded => some .incorrectStateTransition
    | _, _ => none

def getTransientState : OmxState → OmxState → TransientState
  | .loaded, .idle => .loadedToIdle
  | .idle, .pause => .idleToPause
  | .idle, .loaded => .idleToLoaded
  | .idle, .executing => .idleToExecuting
  | .pause, .executing => .pauseToExecuting
  | .pause, .idle => .pauseToIdle
  | .executing, .idle => .executingToIdle
  | .executing, .pause => .executingToPause
  | _, _ => .max

/-- The new state `invalid` is never reached here: `CheckStateTransition` throws on it. -/
def isFlushingRequired (prevState newState : OmxState) : Bool :=
  checkStateTransition prevState newState = none ∧
    (getTransientState prevState newState = .executingToPause ∨
      getTransientState prevState newState = .executingToIdle ∨ newState = .invalid)

def isTransitionToIdleFromLoadedOrWaitRessource (previousState state : OmxState) : Bool :=
  state = .idle ∧ (previousState = .loaded ∨ previousState = .waitForResources)

def isTransitionToLoaded (previousState state : OmxState) : Bool :=
  state = .loaded ∧ (previousState = .idle ∨ previousState = .waitForResources)

def isTransitionToExecutingOrPause (previousState state : OmxState) : Bool :=
  (state = .executing ∨ state = .pause) ∧ previousState = .idle

def isTransitionToIdleFromExecutingOrPause (previousState state : OmxState) : Bool :=
  state = .idle ∧ (previousState = .executing ∨ previousState = .pause)

def isTransitionToPause (previousState state : OmxState) : Bool :=
  state = .pause ∧ (previousState = .executing ∨ previousState = .idle)

/-! ## Ports, tasks and queues -/

inductive PortId
  | input | output
  deriving DecidableEq

instance {p : PortId → Prop} [DecidablePred p] : Decidable (∀ i, p i) :=
  decidable_of_iff (p .input ∧ p .output)
    ⟨fun h i => by cases i <;> [exact h.1; exact h.2], fun h => ⟨h .input, h .output⟩⟩

instance {p : PortId → Prop} [DecidablePred p] : Decidable (∃ i, p i) :=
  decidable_of_iff (p .input ∨ p .output)
    ⟨fun h => h.elim (fun h => ⟨.input, h⟩) fun h => ⟨.output, h⟩,
      fun ⟨i, h⟩ => by cases i <;> [exact .inl h; exact .inr h]⟩

/-- A submission of a buffer header: its number among all requests, whether `nFilledLen`
is 0, whether `OMX_BUFFERFLAG_EOS` is set and whether it has a mark already. -/
structure Header where
  id : ℕ
  empty : Bool
  eos : Bool
  marked : Bool
  deriving DecidableEq

/-- An `OMX_MARKTYPE` with the number of its command, and whether the component is its target. -/
structure Mark where
  id : ℕ
  own : Bool
  deriving DecidableEq

/-- `Port`, with the buffers that the client has allocated. -/
structure Port where
  expected : ℕ
  buffers : List ℕ
  enable : Bool
  playable : Bool
  error : Bool
  isTransientToEnable : Bool
  isTransientToDisable : Bool

namespace Port

def create (expected : ℕ) : Port := ⟨expected, [], true, expected = 0, false, false, false⟩

def setExpected (p : Port) (expected : ℕ) : Port :=
  { p with expected := expected, playable := expected ≤ p.buffers.length }

def add (p : Port) (buffer : ℕ) : Port :=
  let p := { p with buffers := p.buffers ++ [buffer] }
  if p.buffers.length < p.expected then p else { p with playable := true }

def remove (p : Port) (buffer : ℕ) : Port :=
  let p := { p with buffers := p.buffers.filter (· ≠ buffer) }
  if 0 < p.buffers.length ∨ p.expected = 0 then p else { p with playable := false }

/-- Neither disabled nor in transition. -/
def settled (p : Port) : Bool := p.enable && !p.isTransientToEnable && !p.isTransientToDisable

/-- The condition that `WaitFull` waits for. -/
def full (p : Port) : Bool := p.playable || p.error

/-- The condition that `WaitEmpty` waits for. -/
def isEmpty (p : Port) : Bool := !p.playable || p.expected = 0 || p.error

end Port

/-- A task of `processorMain`; a command has a number, and a module error its code. -/
inductive MainTask
  | setState (newState : OmxState) (opt : Option OmxError) (id : ℕ)
  | flush (index : PortId) (id : ℕ)
  | disablePort (index : PortId) (id : ℕ)
  | enablePort (index : PortId) (id : ℕ)
  | markBuffer (own : Bool) (id : ℕ)
  | buffer (index : PortId) (header : Header)
  | setDynamic
  deriving DecidableEq

/-- A task of `processorEmpty` or `processorFill`; a fence is open when its promise is set. -/
inductive PortTask
  | buffer (header : Header)
  | sharedFence (isOpen : Bool)
  | setDynamic
  deriving DecidableEq

/-- `ProcessorFifo` of a port, with the buffer that its thread is about to pass to the
module. -/
structure PortFifo where
  tasks : List PortTask
  inHand : Option Header

namespace PortFifo

/-- The buffers in the queue. -/
def headers (f : PortFifo) : List Header :=
  f.tasks.filterMap fun task => match task with
    | .buffer header => some header
    | _ => none

/-- The promise of the fences in the queue is set. -/
def lift (f : PortFifo) : PortFifo :=
  { f with tasks := f.tasks.map fun task => match task with
    | .sharedFence _ => .sharedFence true
    | task => task }

end PortFifo

/-- A step of the thread of a port: the next task, or the buffer in hand to the module. -/
inductive PortStep
  | take (i : PortId)
  | pass (i : PortId)
  deriving DecidableEq

/-- Where the main thread is in a command. -/
inductive Doing
  | nothing
  | populating (index : PortId) (id : ℕ)
  | unpopulating (index : PortId) (id : ℕ)
  | disabling (index : PortId) (id : ℕ)
  | enabling (index : PortId) (id : ℕ)
  deriving DecidableEq

/-- What a completion event reports. -/
inductive Completion
  | stateSet (newState : OmxState)
  | flush (index : PortId)
  | portDisable (index : PortId)
  | portEnable (index : PortId)
  | markBuffer
  deriving DecidableEq

/-- What the client, the module and the component see of each other. -/
inductive Event
  | accepted (id : ℕ)
  | submitted (index : PortId) (header : Header)
  | complete (id : ℕ) (what : Completion)
  | error (id : ℕ) (e : OmxError)
  | settingsChanged
  | moved (oldState newState : OmxState)
  /-- a call of `Empty` or `Fill`: whether the component was `calm`, and the result -/
  | passed (index : PortId) (header : Header) (calm success : Bool)
  | returned (index : PortId) (header : Header)
  deriving DecidableEq

structure Component where
  state : OmxState
  transientState : TransientState
  shouldPrealloc : Bool
  shouldFireEventPortSettingsChanges : Bool
  port : PortId → Port
  processorMain : List MainTask
  processor : PortId → PortFifo
  /-- `pauseEmptyPromise` and `pauseFillPromise` are not null -/
  pausePromise : PortId → Bool
  eosHandles : PortId → Option Header
  marks : List Mark
  /-- the module is started, and the handles that it has accepted and not given back -/
  started : Bool
  held : PortId → List Header
  doing : Doing
  /-- the number of the next request -/
  issued : ℕ
  log : List Event

namespace Component

/-- The component behind its constructor; `expected` are the buffer counts of the media. -/
def create (expected : PortId → ℕ) : Component where
  state := .loaded
  transientState := .max
  shouldPrealloc := true
  shouldFireEventPortSettingsChanges := true
  port i := Port.create (expected i)
  processorMain := []
  processor _ := ⟨[], none⟩
  pausePromise _ := false
  eosHandles _ := none
  marks := []
  started := false
  held _ := []
  doing := .nothing
  issued := 0
  log := []

/-- Neither paused, nor is a port disabled or in transition. -/
def calm (s : Component) : Bool :=
  s.state ≠ .pause && (s.port .input).settled && (s.port .output).settled

/-! ## The codec module -/

/-- `module->Start`; `result` is the error of the start, unless the module is started. -/
def startModule (s : Component) (result : Option ModuleError) : Component × Option ModuleError :=
  if s.started then (s, some .undefined)
  else
    match result with
    | none => ({ s with started := true }, none)
    | some e => (s, some e)

/-- `module->Stop`: the handles that the module still has are released. -/
def stopModule (s : Component) : Component × Bool :=
  if s.started then
    ({ s with
        started := false
        held := fun _ => []
        log := s.log ++ (s.held .input).map (.returned .input) ++ (s.held .output).map (.returned .output) },
      true)
  else (s, false)

/-- `if(module->Stop()) module->Start(true);` -/
def restart (s : Component) (result : Option ModuleError) : Component :=
  let r := s.stopModule
  if r.2 then (r.1.startModule result).1 else r.1

/-- The call of `Empty` or `Fill` for the buffer that the thread has in hand.  An input
without data at the end of the stream is not kept by the module: it answers it with the
report of the end of the stream. -/
def pass (s : Component) (i : PortId) (header : Header) : Component :=
  let keeps := s.started && !(i = .input && header.empty)
  { s with
    processor := Function.update s.processor i { s.processor i with inHand := none }
    held := if keeps then Function.update s.held i (s.held i ++ [header]) else s.held
    log := s.log ++ [.passed i header s.calm s.started] }

/-! ## The threads of the ports -/

/-- `AttachMark`; the front mark goes to a header without one. -/
def attachMark (s : Component) (header : Header) : Component :=
  match s.marks with
  | [] => s
  | mark :: marks =>
    if header.marked then s
    else
      { s with
        marks := marks
        log := if mark.own then s.log ++ [.complete mark.id .markBuffer] else s.log }

/-- `TreatEmptyBufferCommand` and `TreatFillBufferCommand` up to the call of the module;
`tasks` is the queue behind the buffer. -/
def takeBuffer (s : Component) (i : PortId) (tasks : List PortTask) (header : Header) : Component :=
  let done (s : Component) : Component :=
    { s with
      processor := Function.update s.processor i ⟨tasks, none⟩
      log := s.log ++ [.returned i header] }
  let inHand (s : Component) : Component := { s with processor := Function.update s.processor i ⟨tasks, some header⟩ }
  if s.state = .invalid then done s
  else
    match i with
    | .input =>
      let s := s.attachMark header
      if header.empty then
        if header.eos then { inHand s with eosHandles := Function.update s.eosHandles .input (some header) }
        else done s
      else inHand s
    | .output =>
      if s.eosHandles .output = none then
        { s with
          processor := Function.update s.processor i ⟨tasks, none⟩
          eosHandles := Function.update s.eosHandles .output (some header) }
      else inHand s

/-- The next task of a port; `none` where the thread waits or has a buffer in hand. -/
def take (s : Component) (i : PortId) : Option Component :=
  match (s.processor i).inHand, (s.processor i).tasks with
  | none, .sharedFence true :: tasks | none, .setDynamic :: tasks =>
    some { s with processor := Function.update s.processor i ⟨tasks, none⟩ }
  | none, .buffer header :: tasks => some (s.takeBuffer i tasks header)
  | _, _ => none

def portStep (s : Component) : PortStep → Option Component
  | .take i => s.take i
  | .pass i => (s.processor i).inHand.map (s.pass i)

/-! ## Fences and flushes -/

def blockFillEmptyBuffers (s : Component) (side : PortId → Bool) : Component :=
  { s with
    pausePromise := fun i => s.pausePromise i || side i
    processor := fun i =>
      if side i && !s.pausePromise i then
        { s.processor i with tasks := (s.processor i).tasks ++ [.sharedFence false] }
      else s.processor i }

def unblockFillEmptyBuffers (s : Component) : Component :=
  { s with
    pausePromise := fun _ => false
    processor := fun i => if s.pausePromise i then (s.processor i).lift else s.processor i }

/-- A new `ProcessorFifo` in place of the old one, whose thread ends what it has in hand and
gives the buffers of its queue back. -/
def renew (s : Component) (i : PortId) : Component :=
  let s := match (s.processor i).inHand with
    | some header => s.pass i header
    | none => s
  { s with
    processor := Function.update s.processor i ⟨[], none⟩
    log := s.log ++ (s.processor i).headers.map (.returned i) }

/-- `FlushFillEmptyBuffers`; `gap` is what the port threads do until the queues are replaced. -/
def flushFillEmptyBuffers (s : Component) (side : PortId → Bool) (gap : List PortStep) : Option Component := do
  let blocked := s.pausePromise
  let s := if blocked .output || blocked .input then s.unblockFillEmptyBuffers else s
  let s ← gap.foldlM portStep s
  let s := if side .output then s.renew .output else s
  let s := if side .input then s.renew .input else s
  some (if blocked .output || blocked .input then s.blockFillEmptyBuffers blocked else s)

def release (s : Component) (i : PortId) : Component :=
  { s with
    eosHandles := Function.update s.eosHandles i none
    log := s.log ++ (s.eosHandles i).toList.map (.returned i) }

def flushEosHandles (s : Component) : Component := (s.release .input).release .output

/-! ## Commands -/

def answer (s : Component) (id : ℕ) (what : Completion) : Component :=
  { s with doing := .nothing, log := s.log ++ [.complete id what] }

def moveTo (s : Component) (newState : OmxState) : Component :=
  { s with state := newState, log := s.log ++ [.moved s.state newState] }

/-- The `catch` of `TreatSetStateCommand`; `opt` is the code of a module error. -/
def fail (s : Component) (opt : Option OmxError) (id : ℕ) (e : OmxError) : Component :=
  let s := if e = .invalidState then s.stopModule.1.moveTo .invalid else s
  { s with doing := .nothing, log := s.log ++ [.error id (opt.getD e)] }

/-- The condition of the port commands for a restart. -/
def refreshes (s : Component) : Bool :=
  s.shouldPrealloc && s.shouldFireEventPortSettingsChanges && (s.state = .executing || s.state = .pause)

/-- The restart and the event of the port commands. -/
def refresh (s : Component) (result : Option ModuleError) : Component :=
  if s.refreshes then
    let s := s.restart result
    { s with shouldFireEventPortSettingsChanges := false, log := s.log ++ [.settingsChanged] }
  else s

/-- The ports let the buffers go on. -/
def portsReady (s : Component) : Bool :=
  (s.port .input).enable && (s.port .output).enable && !(s.port .input).isTransientToEnable &&
    !(s.port .output).isTransientToEnable

/-- The `Start` of `TreatSetStateCommand`. -/
def startFor (s : Component) (newState : OmxState) (result : Option ModuleError) : Component × Option ModuleError :=
  if isTransitionToExecutingOrPause s.state newState then s.startModule result else (s, none)

/-- The event of `TreatSetStateCommand` behind the `Start`. -/
def announceFor (s : Component) (newState : OmxState) : Component :=
  if isTransitionToExecutingOrPause s.state newState && s.shouldPrealloc &&
      s.shouldFireEventPortSettingsChanges then
    { s with shouldFireEventPortSettingsChanges := false, log := s.log ++ [.settingsChanged] }
  else s

/-- The `Stop` of `TreatSetStateCommand`. -/
def stopFor (s : Component) (newState : OmxState) : Component :=
  if isTransitionToIdleFromExecutingOrPause s.state newState then s.stopModule.1 else s

/-- The fences that `TreatSetStateCommand` sets. -/
def blockFor (s : Component) (newState : OmxState) : Component :=
  if isTransitionToPause s.state newState then s.blockFillEmptyBuffers fun _ => true else s

/-- `TreatSetStateCommand` behind the waits for the ports; `gap` is what the port threads do
between the lifting of the fences and the assignment of the state. -/
def finishSetState (s : Component) (newState : OmxState) (opt : Option OmxError) (id : ℕ)
    (result : Option ModuleError) (gap : List PortStep) : Option Component :=
  match s.startFor newState result with
  | (s, some e) => some (s.fail opt id (toOmxError e))
  | (s, none) => do
    let s := ((s.announceFor newState).stopFor newState).blockFor newState
    let s ← if s.state = .pause && s.portsReady then gap.foldlM portStep s.unblockFillEmptyBuffers else some s
    some ((s.moveTo newState).answer id (.stateSet newState))

/-- `TreatSetStateCommand` up to the first wait, with the flush in front of it. -/
def treatSetStateCommand (s : Component) (newState : OmxState) (opt : Option OmxError) (id : ℕ)
    (result : Option ModuleError) (gap : List PortStep) : Option Component := do
  let flushes := isFlushingRequired s.state newState
  let s ← if flushes then s.flushFillEmptyBuffers (fun _ => true) gap else some s
  match checkStateTransition s.state newState with
  | some e => some (s.fail opt id e)
  | none =>
    if isTransitionToIdleFromLoadedOrWaitRessource s.state newState then
      some { s with doing := .populating .input id }
    else if isTransitionToLoaded s.state newState && s.state ≠ .waitForResources then
      some { s with doing := .unpopulating .input id }
    else s.finishSetState newState opt id result (if flushes then [] else gap)

def treatFlushCommand (s : Component) (index : PortId) (id : ℕ) (result : Option ModuleError)
    (gap : List PortStep) : Option Component := do
  let s ← s.flushFillEmptyBuffers (fun _ => true) gap
  some (((s.restart result).flushEosHandles).answer id (.flush index))

/-- `TreatDisablePortCommand` up to `WaitEmpty`. -/
def treatDisablePortCommand (s : Component) (index : PortId) (id : ℕ) (result : Option ModuleError)
    (gap : List PortStep) : Option Component :=
  if !(s.port index).isTransientToDisable then some (s.answer id (.portDisable index))
  else do
    let s ← s.flushFillEmptyBuffers (fun i => i = index) gap
    let s := s.blockFillEmptyBuffers fun i => i = .output || s.shouldPrealloc
    let s := s.refresh result
    some { s with doing := .disabling index id }

/-- `TreatEnablePortCommand` behind `WaitFull`. -/
def finishEnable (s : Component) (index : PortId) (id : ℕ) (result : Option ModuleError) : Component :=
  if (s.port index).error then { s with doing := .nothing }
  else
    let s := { s with port := Function.update s.port index { s.port index with isTransientToEnable := false } }
    let s := s.refresh result
    let s := if s.portsReady && s.state ≠ .pause then s.unblockFillEmptyBuffers else s
    s.answer id (.portEnable index)

/-- `TreatEnablePortCommand` up to `WaitFull`. -/
def treatEnablePortCommand (s : Component) (index : PortId) (id : ℕ) (result : Option ModuleError) : Component :=
  if !(s.port index).isTransientToEnable then s.answer id (.portEnable index)
  else if s.state ≠ .loaded ∧ s.state ≠ .waitForResources then { s with doing := .enabling index id }
  else s.finishEnable index id result

/-- The error of a port ends the populating or unpopulating of the ports. -/
def failPort (s : Component) (index : PortId) (id : ℕ) (e : OmxError) : Component :=
  let s := { s with port := Function.update s.port index { s.port index with error := false } }
  s.fail none id e

/-- The main thread behind a wait, once its condition holds. -/
def resume (s : Component) (result : Option ModuleError) : Option Component :=
  match s.doing with
  | .nothing => none
  | .populating index id =>
    if (s.port index).enable && !(s.port index).full then none
    else if (s.port index).error then some (s.failPort index id .insufficientResources)
    else
      match index with
      | .input => some { s with doing := .populating .output id }
      | .output => s.finishSetState .idle none id result []
  | .unpopulating index id =>
    if !(s.port index).isEmpty then none
    else if (s.port index).error then some (s.failPort index id .undefined)
    else
      match index with
      | .input => some { s with doing := .unpopulating .output id }
      | .output => { s with transientState := .max }.finishSetState .loaded none id result []
  | .disabling index id =>
    if !(s.port index).isEmpty then none
    else if (s.port index).error then some { s with doing := .nothing }
    else
      let s := { s with port := Function.update s.port index { s.port index with isTransientToDisable := false } }
      some (s.answer id (.portDisable index))
  | .enabling index id => if !(s.port index).full then none else some (s.finishEnable index id result)

def processMain (s : Component) (result : Option ModuleError) (gap : List PortStep) : MainTask → Option Component
  | .setState newState opt id => s.treatSetStateCommand newState opt id result gap
  | .flush index id => s.treatFlushCommand index id result gap
  | .disablePort index id => s.treatDisablePortCommand index id result gap
  | .enablePort index id => some (s.treatEnablePortCommand index id result)
  | .markBuffer own id => some { s with marks := s.marks ++ [⟨id, own⟩] }
  | .buffer index header =>
    some { s with
      processor := Function.update s.processor index
        { s.processor index with tasks := (s.processor index).tasks ++ [.buffer header] } }
  | .setDynamic =>
    some { s with
      processor := Function.update s.processor .input
        { s.processor .input with tasks := (s.processor .input).tasks ++ [.setDynamic] } }

/-- The main thread goes on: behind a wait, or with the next task. -/
def mainStep (s : Component) (result : Option ModuleError) (gap : List PortStep) : Option Component :=
  if s.doing ≠ .nothing then s.resume result
  else
    match s.processorMain with
    | [] => none
    | task :: tasks => { s with processorMain := tasks }.processMain result gap task

/-! ## Calls of the client and of the module -/

/-- A command with a new number. -/
def queueCommand (s : Component) (task : ℕ → MainTask) : Component :=
  { s with
    processorMain := s.processorMain ++ [task s.issued]
    issued := s.issued + 1
    log := s.log ++ [.accepted s.issued] }

def disablePort (s : Component) (i : PortId) : Component :=
  { s with
    port := Function.update s.port i { s.port i with enable := false, isTransientToDisable := true }
    shouldFireEventPortSettingsChanges := true }.queueCommand (.disablePort i)

def enablePort (s : Component) (i : PortId) : Component :=
  { s with
    port := Function.update s.port i { s.port i with enable := true, isTransientToEnable := true }
    shouldFireEventPortSettingsChanges := false }.queueCommand (.enablePort i)

end Component

/-- What a call of `SetParameter` changes in the component. -/
inductive Parameter
  | preallocation (shouldPrealloc : Bool)
  | expected (count : ℕ)
  | other

/-- A step of one of the threads. -/
inductive Op
  /-- `SendCommand`; the port `none` stands for `OMX_ALL` -/
  | setState (newState : OmxState) (mediaCheck : Bool)
  | flush (port : Option PortId)
  | portDisable (port : Option PortId)
  | portEnable (port : Option PortId)
  | markBuffer (own : Bool)
  /-- `EmptyThisBuffer` and `FillThisBuffer` -/
  | submit (index : PortId) (empty eos marked : Bool)
  | setConfig
  | setParameter (index : PortId) (parameter : Parameter)
  /-- `UseBuffer` or `AllocateBuffer`, and whether the buffer can be had -/
  | allocate (index : PortId) (buffer : ℕ) (success : Bool)
  | free (index : PortId) (buffer : ℕ) (success : Bool)
  /-- the module gives a handle back, reports the end of the stream, or an error -/
  | giveBack (index : PortId) (header : Header)
  | endOfStream
  | moduleError (e : ModuleError)
  | port (step : PortStep)
  | main (result : Option ModuleError) (gap : List PortStep)

namespace Component

/-- `SendCommand`, `EmptyThisBuffer` and the others; `none` where the call is refused or
cannot happen. -/
def step (s : Component) : Op → Option Component
  | .setState newState mediaCheck =>
    let transientState := getTransientState s.state newState
    if s.state = .invalid || (transientState = .loadedToIdle && !mediaCheck) then none
    else some ({ s with transientState := transientState }.queueCommand (.setState newState none))
  | .flush port =>
    if s.state = .invalid then none
    else
      match port with
      | some i => some (s.queueCommand (.flush i))
      | none => some ((s.queueCommand (.flush .input)).queueCommand (.flush .output))
  | .portDisable port =>
    if s.state = .invalid then none
    else
      match port with
      | some i => some (s.disablePort i)
      | none => some ((s.disablePort .input).disablePort .output)
  | .portEnable port =>
    if s.state = .invalid then none
    else
      match port with
      | some i => some (s.enablePort i)
      | none => some ((s.enablePort .input).enablePort .output)
  | .markBuffer own => if s.state = .invalid then none else some (s.queueCommand (.markBuffer own))
  | .submit i empty eos marked =>
    if s.state = .loaded || s.state = .waitForResources || s.state = .invalid then none
    else
      -- `FillThisBuffer` clears the flags and the mark of the header
      let header : Header := ⟨s.issued, empty, i = .input && eos, i = .input && marked⟩
      some { s with
        processorMain := s.processorMain ++ [.buffer i header]
        issued := s.issued + 1
        log := s.log ++ [.submitted i header] }
  | .setConfig =>
    if s.state = .invalid then none else some { s with processorMain := s.processorMain ++ [.setDynamic] }
  | .setParameter i parameter =>
    let s := { s with shouldFireEventPortSettingsChanges := true }
    let bound := !(s.port i).isTransientToDisable && (s.port i).enable
    if bound && s.state ≠ .loaded && s.state ≠ .waitForResources then some s
    else
      match parameter with
      | .preallocation shouldPrealloc => some { s with shouldPrealloc := shouldPrealloc }
      | .expected count =>
        some { s with port := Function.update s.port i ((s.port i).setExpected count) }
      | .other => some s
  | .allocate i buffer success =>
    let allowed := s.transientState = .loadedToIdle || (s.port i).isTransientToEnable
    if allowed && success then some { s with port := Function.update s.port i ((s.port i).add buffer) }
    else some { s with port := Function.update s.port i { s.port i with error := true } }
  | .free i buffer success =>
    if success then some { s with port := Function.update s.port i ((s.port i).remove buffer) }
    else some { s with port := Function.update s.port i { s.port i with error := true } }
  | .giveBack i header =>
    if header ∈ s.held i then
      some { s with
        held := Function.update s.held i ((s.held i).erase header)
        log := s.log ++ [.returned i header] }
    else none
  | .endOfStream => if s.started then some s.flushEosHandles else none
  | .moduleError e => some (s.queueCommand (.setState .invalid (some (toOmxError e))))
  | .port portStep => s.portStep portStep
  | .main result gap => s.mainStep result gap

end Component

end VcuCodec.Omx
