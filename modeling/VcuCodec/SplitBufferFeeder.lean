import Mathlib.Data.List.Range
import VcuCodec.GuardedRuns

/-!
# The split-buffer feeder

The feeder of a decoder with split input (`lib_decode/SplitBufferFeeder.c`): one thread pushes
buffers, one signals the end of the stream and destroys the feeder, the feeder's own thread
decodes the buffers one by one, and the decoder's callbacks free what was decoded.
-/

namespace VcuCodec

namespace SplitFeeder

variable (β : Type)

/-- One push of a buffer, with its number. -/
structure Pushed where
  id : ℕ
  buf : β
  deriving DecidableEq

/-- Where the feeder's thread stands in `Process_EntryPoint` and in `Process`. -/
inductive ThreadAt where
  | waiting
  | readingKeepGoing
  | readingEos
  | dequeuing
  | counting (unit : Pushed β)
  | decoding (unit : Pushed β)
  | signalling (unit : Pushed β) (success : Bool)
  | unreferencing (unit : Pushed β)
  | queueing (unit : Pushed β)
  | queueingEos
  | decodingEos
  | flushing
  | freeingEos
  | left
  deriving DecidableEq

/-- Where the pushing thread stands in `pushBuffer`. -/
inductive PushAt where
  | outside
  | counting
  | signalling
  deriving DecidableEq

/-- Where the controlling thread stands in `flush` and in `destroy`. -/
inductive ControlAt where
  | outside
  | signalling (joins : Bool)
  | draining
  | counting (unit : Pushed β)
  | unreferencing (unit : Pushed β)
  | setting
  | joining
  | destroyed
  deriving DecidableEq

/-- What `AL_Decoder_TryDecodeOneUnit` comes to.  A decoded buffer is `attached` if the decoder
will free it. -/
inductive UnitResult where
  | failure
  | success (attached : Bool)
  deriving DecidableEq

/-- The feeder as its threads share it.  In the work queue `none` is the end-of-stream buffer.
`freeing` is the buffer that a callback is freeing and `attached` those that it will free;
`decoded`, `freed` and `released` are the numbers of the pushes that were decoded, whose free
has begun and that were unreferenced. -/
structure Feeder where
  inputFifo : List (Pushed β)
  workFifo : List (Option (Pushed β))
  event : Bool
  keepGoing : ℤ
  eos : Bool
  thread : ThreadAt β
  push : PushAt
  control : ControlAt β
  attached : List (Pushed β)
  freeing : Option (Pushed β)
  pushed : ℕ
  decoded : List ℕ
  freed : List ℕ
  released : List ℕ
  deriving DecidableEq

/-- A thread begins a call, goes on with the one it is in, or the decoder signals the feeder. -/
inductive Action where
  | pushBuffer (buf : β)
  | flush
  | destroy
  | signal
  | freeBuf
  | pushStep
  | controlStep
  | callbackStep
  | threadStep (result : UnitResult)
  deriving DecidableEq

variable {β}

namespace ThreadAt

/-- The thread has found the end of the stream. -/
def leaves : ThreadAt β → Bool
  | queueingEos | decodingEos | flushing | freeingEos | left => true
  | _ => false

/-- The end-of-stream buffer is in the work queue. -/
def eosQueued : ThreadAt β → Bool
  | decodingEos | flushing | freeingEos => true
  | _ => false

/-- The free of the end-of-stream buffer has begun. -/
def eosFreed : ThreadAt β → Bool
  | freeingEos | left => true
  | _ => false

/-- The buffer that the thread is at. -/
def held : ThreadAt β → List (Pushed β)
  | counting u | decoding u | signalling u _ | unreferencing u | queueing u => [u]
  | _ => []

/-- A decoded buffer that is not in the work queue yet. -/
def succeeded : ThreadAt β → List (Pushed β)
  | signalling u true | queueing u => [u]
  | _ => []

/-- The thread is about to put something in the work queue. -/
def queues : ThreadAt β → Bool
  | signalling _ true | queueing _ | queueingEos => true
  | _ => false

/-- The thread is in the decoder. -/
def decodes : ThreadAt β → Bool
  | decoding _ => true
  | _ => false

/-- A buffer is dequeued and not yet counted. -/
def uncounted : ThreadAt β → ℤ
  | counting _ => 1
  | _ => 0

end ThreadAt

namespace PushAt

/-- A buffer is queued and not yet counted. -/
def uncounted : PushAt → ℤ
  | counting => 1
  | _ => 0

end PushAt

namespace ControlAt

/-- The buffer that the thread took out of the input queue. -/
def held : ControlAt β → List (Pushed β)
  | counting u | unreferencing u => [u]
  | _ => []

/-- A buffer is dequeued and not yet counted. -/
def uncounted : ControlAt β → ℤ
  | counting _ => 1
  | _ => 0

/-- The thread is in front of the end of the stream in `destroy`. -/
def drains : ControlAt β → Bool
  | draining | counting _ | unreferencing _ | setting => true
  | _ => false

/-- The end of the stream is still to be signalled. -/
def signals : ControlAt β → Bool
  | signalling _ => true
  | _ => false

end ControlAt

namespace Action

/-- The action begins no call of the client and is no signal of the decoder. -/
def internal : Action β → Bool
  | freeBuf | pushStep | controlStep | callbackStep | threadStep _ => true
  | _ => false

end Action

namespace Feeder

/-- `AL_SplitBufferFeeder_Create` -/
def init : Feeder β where
  inputFifo := []
  workFifo := []
  event := false
  keepGoing := 0
  eos := false
  thread := .waiting
  push := .outside
  control := .outside
  attached := []
  freeing := none
  pushed := 0
  decoded := []
  freed := []
  released := []

/-- `AL_Buffer_Unref` -/
def unref (s : Feeder β) (u : Pushed β) : Feeder β := { s with released := u.id :: s.released }

/-- The next step of `pushBuffer`. -/
def pushStep (s : Feeder β) : Option (Feeder β) :=
  match s.push with
  | .outside => none
  | .counting => some { s with keepGoing := s.keepGoing + 1, push := .signalling }
  | .signalling => some { s with event := true, push := .outside }

variable [DecidableEq β] (size : ℕ)

/-- The next step of `flush` or `destroy`. -/
def controlStep (s : Feeder β) : Option (Feeder β) :=
  match s.control with
  | .outside => none
  | .signalling joins => some { s with event := true, control := if joins then .joining else .outside }
  | .draining =>
    match s.inputFifo with
    | [] => some { s with control := .setting }
    | u :: inputFifo => some { s with inputFifo, control := .counting u }
  | .counting u => some { s with keepGoing := s.keepGoing - 1, control := .unreferencing u }
  | .unreferencing u => some { s.unref u with control := .draining }
  | .setting => some { s with eos := true, control := .signalling true }
  | .joining => if s.thread = .left then some { s with control := .destroyed } else none
  | .destroyed => none

/-- The next step of a callback in `freeBuf`, which waits for a buffer in the work queue. -/
def callbackStep (s : Feeder β) : Option (Feeder β) :=
  match s.freeing with
  | none => none
  | some u =>
    match s.workFifo with
    | [] => none
    | none :: workFifo => some { s with workFifo }
    | some w :: workFifo => some { s.unref w with
        workFifo, freeing := if w.buf = u.buf then none else some u }

/-- The next step of the feeder's thread, with what the decoder answers.  The thread waits for
its event and for room in the work queue; `AL_Decoder_InternalFlush` waits for the frames that
are being decoded and with them for the frees of their buffers. -/
def threadStep (s : Feeder β) (result : UnitResult) : Option (Feeder β) :=
  match s.thread with
  | .waiting => if s.event then some { s with event := false, thread := .readingKeepGoing } else none
  | .readingKeepGoing => some { s with thread := if 0 ≤ s.keepGoing - 1 then .dequeuing else .readingEos }
  | .readingEos => some { s with thread := if s.eos then .queueingEos else .dequeuing }
  | .dequeuing =>
    match s.inputFifo with
    | [] => some { s with thread := .waiting }
    | u :: inputFifo => some { s with inputFifo, thread := .counting u }
  | .counting u => some { s with keepGoing := s.keepGoing - 1, thread := .decoding u }
  | .decoding u =>
    match result with
    | .failure => some { s with thread := .signalling u false }
    | .success attached => some { s with
        decoded := u.id :: s.decoded
        attached := if attached then s.attached ++ [u] else s.attached
        thread := .signalling u true }
  | .signalling u success => some { s with
      event := true, thread := if success then .queueing u else .unreferencing u }
  | .unreferencing u => some { s.unref u with thread := .waiting }
  | .queueing u =>
    if s.workFifo.length < size then
      some { s with workFifo := s.workFifo ++ [some u], thread := .waiting }
    else none
  | .queueingEos =>
    if s.workFifo.length < size then
      some { s with workFifo := s.workFifo ++ [none], thread := .decodingEos }
    else none
  | .decodingEos => some { s with thread := .flushing }
  | .flushing => if s.attached = [] ∧ s.freeing = none then some { s with thread := .freeingEos } else none
  | .freeingEos =>
    match s.workFifo with
    | [] => none
    | none :: workFifo => some { s with workFifo, thread := .left }
    | some w :: workFifo => some { s.unref w with workFifo }
  | .left => none

/-- One action; `none` where the thread is not there or has to wait. -/
def step (s : Feeder β) : Action β → Option (Feeder β)
  | .pushBuffer buf =>
    if s.push = .outside ∧ s.inputFifo.length < size then
      some { s with
        inputFifo := s.inputFifo ++ [⟨s.pushed, buf⟩], pushed := s.pushed + 1, push := .counting }
    else none
  | .flush => if s.control = .outside then some { s with eos := true, control := .signalling false } else none
  | .destroy => if s.control = .outside then some { s with control := if s.eos then .joining else .draining } else none
  | .signal => some { s with event := true }
  | .freeBuf =>
    match s.freeing, s.attached with
    | none, u :: attached => some { s with attached, freeing := some u, freed := u.id :: s.freed }
    | _, _ => none
  | .pushStep => s.pushStep
  | .controlStep => s.controlStep
  | .callbackStep => s.callbackStep
  | .threadStep result => s.threadStep size result

/-- Some thread can go on by itself. -/
def Moves (s : Feeder β) : Prop := ∃ a : Action β, a.internal ∧ (s.step size a).isSome

/-- There is room in the work queue, or a free that makes some. -/
def HasRoom (s : Feeder β) : Prop := s.workFifo.length < size ∨ s.attached ≠ [] ∨ s.freeing ≠ none
deriving Decidable

/-- Nothing is pushed behind the point where the thread finds the end of the stream, the input
queue is empty there, and the work queue is not full of buffers that nobody frees where the
thread is about to put something in it. -/
def Allowed (s : Feeder β) : Action β → Prop
  | .pushBuffer _ => s.thread.leaves = false
  | .threadStep result =>
    (s.thread = .readingEos → s.eos = true → s.inputFifo = [] ∧ s.HasRoom size) ∧
      (s.thread.decodes → result = .success false → s.HasRoom size)
  | _ => True

instance (s : Feeder β) : ∀ a, Decidable (s.Allowed size a)
  | .pushBuffer _ => inferInstanceAs (Decidable (_ = _))
  | .threadStep _ => inferInstanceAs (Decidable (_ ∧ _))
  | .flush | .destroy | .signal | .freeBuf | .pushStep | .controlStep | .callbackStep => inferInstanceAs (Decidable True)

/-- What the feeder promises: no buffer is unreferenced twice, none that was decoded before a
free of it or of a later one has begun, and once the end of the stream is signalled the threads
come by themselves to the end of the feeder's thread, where the work queue is empty and every
buffer was unreferenced. -/
structure Sound (s : Feeder β) : Prop where
  once : s.released.Nodup
  ordered : ∀ i ∈ s.released, i ∈ s.decoded → (∃ j ∈ s.freed, i ≤ j) ∨ s.thread.eosFreed
  complete : s.thread = .left → s.workFifo = [] ∧ s.released.Perm (List.range s.pushed)
  moves : s.eos = true → s.thread ≠ .left → s.Moves size
  ends : s.eos = true → ∃ n, ∀ (as : List (Action β)) (s' : Feeder β), (∀ a ∈ as, a.internal) →
    GuardedRuns.Guarded (step size) (Allowed size) as s → GuardedRuns.run (step size) as s = some s' →
      as.length ≤ n

end Feeder

end SplitFeeder

end VcuCodec
