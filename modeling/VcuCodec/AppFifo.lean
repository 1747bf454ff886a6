import Mathlib.Data.Finset.Card
import VcuCodec.GuardedRuns
import VcuCodec.RingQueues

/-!
# The FIFO of the applications' buffer pools

`App_Fifo` of `lib_app/BufPool.cpp`: a ring under a mutex, a semaphore for its
free places, and an event (`Rtos_WaitEvent`, `Rtos_SetEvent`) on which a thread
waits for a buffer.  The event wakes one thread and is then off.

What a thread does under the mutex is one step: other threads only take the
event meanwhile, which might as well have happened before.
-/

namespace VcuCodec

/-- `AL_EBufMode`; `AL_GetWaitMode` turns the first into `AL_WAIT_FOREVER`, the
second into `AL_NO_WAIT`. -/
inductive EBufMode where
  | block
  | nonblock
  deriving DecidableEq

namespace AppFifo

/-- Where a thread stands in `Fifo_Dequeue`. -/
inductive ThreadAt (β : Type) where
  | outside
  /-- In front of `Rtos_GetMutex`. -/
  | locking (eMode : EBufMode) (failed : Bool)
  /-- In front of `Rtos_WaitEvent`. -/
  | waiting (eMode : EBufMode)
  /-- Asleep in `Rtos_WaitEvent`. -/
  | sleeping (eMode : EBufMode)
  /-- In front of `Rtos_ReleaseSemaphore`. -/
  | releasing (pElem : β)
  deriving DecidableEq

namespace ThreadAt

variable {β : Type}

/-- Nothing but the event gets the thread on. -/
def blocked : ThreadAt β → Bool
  | waiting .block | sleeping .block => true
  | _ => false

/-- The thread is going to look into the FIFO. -/
def awake : ThreadAt β → Bool
  | locking _ _ | waiting .nonblock | sleeping .nonblock => true
  | _ => false

/-- The thread has taken a buffer and not yet given its place back. -/
def releases : ThreadAt β → Bool
  | releasing _ => true
  | _ => false

end ThreadAt

end AppFifo

open AppFifo

variable (ι β : Type) in
/-- `App_Fifo` with the threads in it.  `queueing` are the buffers whose threads have a place
and wait for the mutex in `Fifo_Queue`; `returned` and `taken` are the buffers that went into
the ring and came out of it, in this order. -/
structure AppFifo where
  m_zMaxElem : ℕ
  m_zTail : ℕ
  m_zHead : ℕ
  m_ElemBuffer : ℕ → β
  hEvent : Bool
  m_iBufNumber : ℕ
  m_isDecommited : Bool
  hSpaceSem : ℕ
  thread : ι → ThreadAt β
  queueing : List β
  returned : List β
  taken : List β

namespace AppFifo

variable (ι β : Type) in
/-- A thread calls `AL_BufPool_GetBuffer`, goes on in it, or stops waiting; one returns a buffer
(`Fifo_Queue`) in two steps; one calls `AL_BufPool_Decommit`. -/
inductive Action where
  | getBuffer (i : ι) (eMode : EBufMode)
  | lock (i : ι)
  | waitEvent (i : ι)
  | wake (i : ι)
  | timeout (i : ι)
  | releaseSemaphore (i : ι)
  | getSemaphore (pElem : β)
  | queue (pElem : β)
  | decommit
  deriving DecidableEq

variable {ι β : Type}

/-- `Fifo_Init`; `junk` is what the memory is set to. -/
def init (zMaxElem : ℕ) (junk : β) : AppFifo ι β where
  m_zMaxElem := zMaxElem + 1
  m_zTail := 0
  m_zHead := 0
  m_ElemBuffer _ := junk
  hEvent := false
  m_iBufNumber := 0
  m_isDecommited := false
  hSpaceSem := zMaxElem
  thread _ := .outside
  queueing := []
  returned := []
  taken := []

/-- What the ring holds, the oldest buffer first. -/
def contents (s : AppFifo ι β) : List β :=
  RingQueues.contents s.m_ElemBuffer s.m_zMaxElem s.m_zHead s.m_iBufNumber

section Steps

variable [DecidableEq ι]

/-- One thread moves. -/
def move (s : AppFifo ι β) (i : ι) (p : ThreadAt β) : AppFifo ι β :=
  { s with thread := Function.update s.thread i p }

@[simp] theorem thread_move (s : AppFifo ι β) (i : ι) (p : ThreadAt β) :
    (s.move i p).thread = Function.update s.thread i p :=
  rfl

/-- The oldest buffer leaves the ring. -/
def pop (s : AppFifo ι β) : AppFifo ι β :=
  { s with
    m_zHead := (s.m_zHead + 1) % s.m_zMaxElem
    m_iBufNumber := s.m_iBufNumber - 1
    taken := s.taken ++ [s.m_ElemBuffer s.m_zHead] }

/-- What `Fifo_Dequeue` does with the mutex. -/
def dequeue (s : AppFifo ι β) (i : ι) (eMode : EBufMode) (failed : Bool) : AppFifo ι β :=
  if 0 < s.m_iBufNumber then s.pop.move i (.releasing (s.m_ElemBuffer s.m_zHead))
  else if failed || s.m_isDecommited then s.move i .outside
  else s.move i (.waiting eMode)

/-- What `Fifo_Queue` does with the mutex. -/
def queue [DecidableEq β] (s : AppFifo ι β) (pElem : β) : AppFifo ι β :=
  { s with
    m_ElemBuffer := Function.update s.m_ElemBuffer s.m_zTail pElem
    m_zTail := (s.m_zTail + 1) % s.m_zMaxElem
    m_iBufNumber := s.m_iBufNumber + 1
    hEvent := true
    queueing := s.queueing.erase pElem
    returned := s.returned ++ [pElem] }

/-- The event has let a thread through: it is off, and the thread looks again. -/
def woken (s : AppFifo ι β) (i : ι) (eMode : EBufMode) : AppFifo ι β :=
  { s with hEvent := false }.move i (.locking eMode false)

/-- A step that its thread cannot make now is none. -/
def step [DecidableEq β] (s : AppFifo ι β) : Action ι β → Option (AppFifo ι β)
  | .getBuffer i eMode =>
    match s.thread i with
    | .outside => some (s.move i (.locking eMode false))
    | _ => none
  | .lock i =>
    match s.thread i with
    | .locking eMode failed => some (s.dequeue i eMode failed)
    | _ => none
  | .waitEvent i =>
    match s.thread i with
    | .waiting eMode => some (if s.hEvent then s.woken i eMode else s.move i (.sleeping eMode))
    | _ => none
  | .wake i =>
    match s.thread i with
    | .sleeping eMode => if s.hEvent then some (s.woken i eMode) else none
    | _ => none
  | .timeout i =>
    match s.thread i with
    | .sleeping .nonblock => some (s.move i (.locking .nonblock true))
    | _ => none
  | .releaseSemaphore i =>
    match s.thread i with
    | .releasing _ => some ({ s with hSpaceSem := s.hSpaceSem + 1 }.move i .outside)
    | _ => none
  | .getSemaphore pElem =>
    if 0 < s.hSpaceSem then
      some { s with hSpaceSem := s.hSpaceSem - 1, queueing := pElem :: s.queueing }
    else none
  | .queue pElem => if pElem ∈ s.queueing then some (s.queue pElem) else none
  | .decommit => some { s with m_isDecommited := true, hEvent := true }

/-- What a step does, with what its thread has to be at. -/
inductive Steps [DecidableEq β] (s : AppFifo ι β) : Action ι β → AppFifo ι β → Prop
  | getBuffer {i eMode} (hi : s.thread i = .outside) :
    Steps s (.getBuffer i eMode) (s.move i (.locking eMode false))
  | lock {i eMode failed} (hi : s.thread i = .locking eMode failed) :
    Steps s (.lock i) (s.dequeue i eMode failed)
  | sleep {i eMode} (hi : s.thread i = .waiting eMode) :
    Steps s (.waitEvent i) (s.move i (.sleeping eMode))
  | pass {i eMode} (hi : s.thread i = .waiting eMode) : Steps s (.waitEvent i) (s.woken i eMode)
  | wake {i eMode} (hi : s.thread i = .sleeping eMode) : Steps s (.wake i) (s.woken i eMode)
  | timeout {i} (hi : s.thread i = .sleeping .nonblock) :
    Steps s (.timeout i) (s.move i (.locking .nonblock true))
  | releaseSemaphore {i pElem} (hi : s.thread i = .releasing pElem) :
    Steps s (.releaseSemaphore i) ({ s with hSpaceSem := s.hSpaceSem + 1 }.move i .outside)
  | getSemaphore {pElem} (hpos : 0 < s.hSpaceSem) : Steps s (.getSemaphore pElem)
    { s with hSpaceSem := s.hSpaceSem - 1, queueing := pElem :: s.queueing }
  | queue {pElem} (hq : pElem ∈ s.queueing) : Steps s (.queue pElem) (s.queue pElem)
  | decommit : Steps s .decommit { s with m_isDecommited := true, hEvent := true }

theorem steps_of_step [DecidableEq β] {s s' : AppFifo ι β} {a : Action ι β} (h : s.step a = some s') :
    s.Steps a s' := by
  cases a with
  | getSemaphore pElem =>
    obtain ⟨hpos, h⟩ := Option.ite_none_right_eq_some.mp h
    exact Option.some.inj h ▸ .getSemaphore hpos
  | queue pElem =>
    obtain ⟨hq, h⟩ := Option.ite_none_right_eq_some.mp h
    exact Option.some.inj h ▸ .queue hq
  | decommit => exact Option.some.inj h ▸ .decommit
  | getBuffer i eMode =>
    simp only [step] at h
    split at h
    · next hi => exact Option.some.inj h ▸ .getBuffer hi
    · cases h
  | lock i =>
    simp only [step] at h
    split at h
    · next hi => exact Option.some.inj h ▸ .lock hi
    · cases h
  | timeout i =>
    simp only [step] at h
    split at h
    · next hi => exact Option.some.inj h ▸ .timeout hi
    · cases h
  | releaseSemaphore i =>
    simp only [step] at h
    split at h
    · next hi => exact Option.some.inj h ▸ .releaseSemaphore hi
    · cases h
  | waitEvent i =>
    simp only [step] at h
    split at h
    · next hi =>
      split at h
      · exact Option.some.inj h ▸ .pass hi
      · exact Option.some.inj h ▸ .sleep hi
    · cases h
  | wake i =>
    simp only [step] at h
    split at h
    · next hi =>
      obtain ⟨-, h⟩ := Option.ite_none_right_eq_some.mp h
      exact Option.some.inj h ▸ .wake hi
    · cases h

end Steps

/-! ## The order of the buffers -/

/-- The ring is a queue of what was returned and not taken, and each of its places is free, used,
about to be used or about to be given back. -/
structure Inv (s : AppFifo ι β) : Prop where
  order : s.taken ++ s.contents = s.returned
  head : s.m_zHead < s.m_zMaxElem
  tail : s.m_zTail = (s.m_zHead + s.m_iBufNumber) % s.m_zMaxElem
  space : ∃ owing : Finset ι, (∀ i, i ∈ owing ↔ (s.thread i).releases = true) ∧
    s.m_iBufNumber + s.queueing.length + owing.card + s.hSpaceSem + 1 = s.m_zMaxElem

theorem init_inv (zMaxElem : ℕ) (junk : β) : (init (ι := ι) zMaxElem junk).Inv where
  order := rfl
  head := Nat.succ_pos _
  tail := (Nat.zero_mod _).symm
  space := ⟨∅, fun i => by simp [init, ThreadAt.releases], by simp [init]⟩

namespace Inv

theorem queue [DecidableEq β] {s : AppFifo ι β} (h : s.Inv) {pElem : β} (hq : pElem ∈ s.queueing) : (s.queue pElem).Inv := by
  obtain ⟨owing, hmem, hcard⟩ := h.space
  have hlen := List.length_pos_of_mem hq
  refine ⟨?_, h.head, ?_, owing, hmem, ?_⟩
  · unfold contents AppFifo.queue
    dsimp only
    rw [h.tail, RingQueues.contents_push (by omega), ← List.append_assoc]
    congr 1
    exact h.order
  · unfold AppFifo.queue
    dsimp only
    rw [h.tail, Nat.mod_add_mod, Nat.add_assoc]
  · unfold AppFifo.queue
    dsimp only
    rw [List.length_erase_of_mem hq]
    omega

variable [DecidableEq ι] {s s' : AppFifo ι β} {i : ι} {p : ThreadAt β} {owing : Finset ι}

theorem move (h : s.Inv) (hp : p.releases = (s.thread i).releases) (e d : Bool) :
    ({ s with hEvent := e, m_isDecommited := d }.move i p).Inv := by
  refine ⟨h.order, h.head, h.tail, ?_⟩
  obtain ⟨owing, hmem, hcard⟩ := h.space
  refine ⟨owing, fun j => ?_, hcard⟩
  rw [thread_move]
  by_cases hj : j = i
  · rw [hmem, hj, Function.update_self, hp]
  · rw [hmem, Function.update_of_ne hj]

theorem dequeue (h : s.Inv) {eMode : EBufMode} {failed : Bool}
    (hi : s.thread i = .locking eMode failed) : (s.dequeue i eMode failed).Inv := by
  have hi' : (s.thread i).releases = false := by rw [hi]; rfl
  unfold AppFifo.dequeue
  split_ifs with hn hout
  · unfold pop
    obtain ⟨owing, hmem, hcard⟩ := h.space
    refine ⟨?_, Nat.mod_lt _ (by omega), ?_, insert i owing, fun j => ?_, ?_⟩
    · have hpop : RingQueues.contents s.m_ElemBuffer s.m_zMaxElem s.m_zHead _ = _ :=
        RingQueues.contents_pop hn.ne'
      rw [Nat.mod_eq_of_lt h.head] at hpop
      have horder := h.order
      unfold contents at horder
      rw [hpop] at horder
      rw [← horder]
      exact List.append_assoc ..
    · show s.m_zTail = ((s.m_zHead + 1) % s.m_zMaxElem + (s.m_iBufNumber - 1)) % s.m_zMaxElem
      rw [h.tail, Nat.mod_add_mod]
      congr 1
      omega
    · rw [thread_move]
      by_cases hj : j = i
      · simp [hj, ThreadAt.releases]
      · simp [hj, hmem]
    · have hnew : i ∉ owing := by
        rw [hmem, hi']
        simp
      rw [Finset.card_insert_of_notMem hnew]
      show s.m_iBufNumber - 1 + s.queueing.length + (owing.card + 1) + s.hSpaceSem + 1 =
        s.m_zMaxElem
      omega
  · exact h.move (p := .outside) hi'.symm _ _
  · exact h.move (p := .waiting eMode) hi'.symm _ _

theorem releaseSemaphore (h : s.Inv) {pElem : β} (hi : s.thread i = .releasing pElem) :
    ({ s with hSpaceSem := s.hSpaceSem + 1 }.move i .outside).Inv := by
  refine ⟨h.order, h.head, h.tail, ?_⟩
  obtain ⟨owing, hmem, hcard⟩ := h.space
  have hold : i ∈ owing := by
    rw [hmem, hi]
    rfl
  refine ⟨owing.erase i, fun j => ?_, ?_⟩
  · rw [thread_move]
    by_cases hj : j = i
    · simp [hj, ThreadAt.releases]
    · simp [hj, hmem]
  · have hpos := Finset.card_pos.mpr ⟨i, hold⟩
    rw [Finset.card_erase_of_mem hold]
    show s.m_iBufNumber + s.queueing.length + (owing.card - 1) + (s.hSpaceSem + 1) + 1 =
      s.m_zMaxElem
    omega

variable [DecidableEq β]

theorem step (h : s.Inv) {a : Action ι β} (hs : s.step a = some s') : s'.Inv := by
  cases steps_of_step hs with
  | getBuffer hi | sleep hi | pass hi | wake hi | timeout hi => exact h.move (by rw [hi]; rfl) _ _
  | lock hi => exact h.dequeue hi
  | releaseSemaphore hi => exact h.releaseSemaphore hi
  | getSemaphore hpos =>
    obtain ⟨owing, hmem, hcard⟩ := h.space
    refine ⟨h.order, h.head, h.tail, owing, hmem, ?_⟩
    dsimp only
    rw [List.length_cons]
    omega
  | queue hq => exact h.queue hq
  | decommit => exact ⟨h.order, h.head, h.tail, h.space⟩

end Inv

/-! ## Threads that are left behind -/

/-- A thread waits, the event is off, no thread is going to look into the FIFO, and yet there is
a buffer in it or the pool is decommitted. -/
def Stranded (s : AppFifo ι β) : Prop :=
  (∃ i, (s.thread i).blocked = true) ∧ s.hEvent = false ∧ (∀ i, (s.thread i).awake = false) ∧
    (0 < s.m_iBufNumber ∨ s.m_isDecommited = true)

/-- The last thread that is awake takes the mutex while another waits and the event is off, with
more than one buffer in the FIFO or the pool decommitted. -/
def Strands (s : AppFifo ι β) : Action ι β → Prop
  | .lock i => (∃ eMode failed, s.thread i = .locking eMode failed) ∧
      (∃ j, (s.thread j).blocked = true) ∧ s.hEvent = false ∧
      (∀ j ≠ i, (s.thread j).awake = false) ∧
      (1 < s.m_iBufNumber ∨ s.m_isDecommited = true)
  | _ => False

section Stranded

variable {s s' : AppFifo ι β} {i : ι} {p : ThreadAt β}

theorem not_stranded_of_awake (h : (s.thread i).awake = true) : ¬s.Stranded := by
  rintro ⟨-, -, hasleep, -⟩
  rw [hasleep i] at h
  exact Bool.false_ne_true h

theorem not_stranded_of_event (h : s.hEvent = true) : ¬s.Stranded := by
  rintro ⟨-, hoff, -, -⟩
  rw [hoff] at h
  exact Bool.false_ne_true h

theorem strands_lock : s.Strands (.lock i) ↔
    (∃ eMode failed, s.thread i = .locking eMode failed) ∧ (∃ j, (s.thread j).blocked = true) ∧
      s.hEvent = false ∧ (∀ j ≠ i, (s.thread j).awake = false) ∧
      (1 < s.m_iBufNumber ∨ s.m_isDecommited = true) :=
  Iff.rfl

variable [DecidableEq ι]

theorem not_stranded_move_of_awake (hp : p.awake = true) : ¬(s.move i p).Stranded :=
  not_stranded_of_awake (i := i) (by rwa [thread_move, Function.update_self])

theorem exists_blocked_move (hi : (s.thread i).blocked = p.blocked) :
    (∃ j, ((s.move i p).thread j).blocked = true) ↔ ∃ j, (s.thread j).blocked = true := by
  refine exists_congr fun j => ?_
  rw [thread_move]
  by_cases hj : j = i
  · rw [hj, Function.update_self, hi]
  · rw [Function.update_of_ne hj]

theorem forall_asleep_move (hp : p.awake = false) :
    (∀ j, ((s.move i p).thread j).awake = false) ↔ ∀ j ≠ i, (s.thread j).awake = false := by
  rw [thread_move]
  constructor
  · intro h j hj
    have := h j
    rwa [Function.update_of_ne hj] at this
  · intro h j
    by_cases hj : j = i
    · rwa [hj, Function.update_self]
    · rw [Function.update_of_ne hj]
      exact h j hj

/-- A thread that moves without looking changes nothing. -/
theorem stranded_move (hb : (s.thread i).blocked = p.blocked) (ha : (s.thread i).awake = false)
    (hp : p.awake = false) : (s.move i p).Stranded ↔ s.Stranded := by
  have hall : (∀ j, ((s.move i p).thread j).awake = false) ↔ ∀ j, (s.thread j).awake = false := by
    rw [forall_asleep_move hp]
    refine ⟨fun h j => ?_, fun h j _ => h j⟩
    by_cases hj : j = i
    · rwa [hj]
    · exact h j hj
  unfold Stranded
  rw [exists_blocked_move hb, hall]
  rfl

/-- A thread that leaves `Fifo_Dequeue` strands the others exactly if it was the last one awake
and there is something left for them. -/
theorem stranded_leave {eMode : EBufMode} {failed : Bool} (hi : s.thread i = .locking eMode failed)
    (hb : p.blocked = false) (hp : p.awake = false) :
    (s.move i p).Stranded ↔ (∃ j, (s.thread j).blocked = true) ∧ s.hEvent = false ∧
      (∀ j ≠ i, (s.thread j).awake = false) ∧ (0 < s.m_iBufNumber ∨ s.m_isDecommited = true) := by
  unfold Stranded
  rw [exists_blocked_move (by rw [hi, hb]; rfl), forall_asleep_move hp]
  rfl

theorem stranded_dequeue {eMode : EBufMode} {failed : Bool} (hi : s.thread i = .locking eMode failed) :
    (s.dequeue i eMode failed).Stranded ↔ s.Strands (.lock i : Action ι β) := by
  rw [strands_lock, and_iff_right ⟨eMode, failed, hi⟩]
  unfold dequeue
  split_ifs with hn hout
  · rw [stranded_leave (s := s.pop) hi rfl rfl]
    unfold pop
    dsimp only
    rw [Nat.sub_pos_iff_lt]
  · rw [stranded_leave hi rfl rfl]
    rw [Nat.pos_iff_ne_zero, not_not] at hn
    simp [hn]
  · -- the thread begins to wait for a pool that is empty and not decommitted
    rw [Nat.pos_iff_ne_zero, not_not] at hn
    have hdecommited : s.m_isDecommited = false := by
      simp only [Bool.or_eq_true, not_or, Bool.not_eq_true] at hout
      exact hout.2
    constructor
    · rintro ⟨-, -, -, hpos | hdec⟩
      · exact absurd hpos (by rw [show (s.move i _).m_iBufNumber = s.m_iBufNumber from rfl, hn]; simp)
      · exact absurd (hdecommited.symm.trans hdec) Bool.false_ne_true
    · rintro ⟨-, -, -, hpos | hdec⟩
      · omega
      · exact absurd (hdecommited.symm.trans hdec) Bool.false_ne_true

variable [DecidableEq β]

/-- Only a thread that takes the mutex leaves others behind. -/
theorem step_strands_iff (hs : ¬s.Stranded) (a : Action ι β) :
    (∀ s', s.step a = some s' → ¬s'.Stranded) ↔ ¬s.Strands a := by
  by_cases ha : ∃ i eMode failed, a = .lock i ∧ s.thread i = .locking eMode failed
  · obtain ⟨i, eMode, failed, rfl, hi⟩ := ha
    rw [← stranded_dequeue hi]
    simp only [step, hi, Option.some.injEq, forall_eq']
  · refine ⟨fun _ hstrands => ?_, fun _ s' hs' => ?_⟩
    · cases a with
      | lock i =>
        obtain ⟨⟨eMode, failed, hi⟩, -⟩ := hstrands
        exact ha ⟨i, eMode, failed, rfl, hi⟩
      | _ => exact hstrands
    · cases steps_of_step hs' with
      | getBuffer | pass | wake | timeout => exact not_stranded_move_of_awake rfl
      | lock hi => exact absurd ⟨_, _, _, rfl, hi⟩ ha
      | @sleep i eMode hi =>
        cases eMode with
        | block => rwa [stranded_move (by rw [hi]; rfl) (by rw [hi]; rfl) rfl]
        | nonblock => exact not_stranded_move_of_awake rfl
      | releaseSemaphore hi =>
        rw [stranded_move (by rw [hi]; rfl) (by rw [hi]; rfl) rfl]
        exact hs
      | getSemaphore => exact hs
      | queue | decommit => exact not_stranded_of_event rfl

end Stranded

/-! ## Runs -/

section Runs

variable (zMaxElem : ℕ) (junk : β)

theorem init_not_stranded : ¬(init zMaxElem junk : AppFifo ι β).Stranded := by
  rintro ⟨⟨i, hi⟩, -⟩
  exact Bool.false_ne_true hi

theorem not_strands_of_eq (hone : ∀ i j : ι, i = j) (s : AppFifo ι β) (a : Action ι β) :
    ¬s.Strands a := by
  cases a with
  | lock i =>
    rintro ⟨⟨eMode, failed, hi⟩, ⟨j, hj⟩, -⟩
    rw [hone j i, hi] at hj
    exact Bool.false_ne_true hj
  | _ => exact not_false

variable [DecidableEq ι] [DecidableEq β]

theorem inv_of_run {as : List (Action ι β)} {s : AppFifo ι β}
    (hr : GuardedRuns.run step as (init zMaxElem junk) = some s) : s.Inv := by
  have hguarded : GuardedRuns.Guarded step (fun _ _ => True) as (init zMaxElem junk) :=
    GuardedRuns.guarded_of_forall fun _ _ => trivial
  exact GuardedRuns.invariant_of_run (fun _ _ _ h _ hs => h.step hs) (init_inv zMaxElem junk) hguarded hr

/-- Two threads wait, and the pool is decommitted: one of them leaves. -/
def decommitTwo (i j : ι) : List (Action ι β) :=
  [.getBuffer i .block, .lock i, .getBuffer j .block, .lock j, .decommit, .waitEvent i, .lock i]

theorem decommitTwo_stranded {i j : ι} (hij : i ≠ j) :
    ∃ s, GuardedRuns.run step (decommitTwo i j) (init zMaxElem junk) = some s ∧ s.Stranded := by
  refine ⟨_, by simp [decommitTwo, GuardedRuns.run, step, init, dequeue, woken, move, hij, hij.symm]; rfl, ?_⟩
  refine ⟨⟨j, ?_⟩, rfl, fun k => ?_, .inr rfl⟩
  · simp [hij.symm, ThreadAt.blocked]
  · dsimp only
    by_cases hki : k = i
    · simp [hki, ThreadAt.awake]
    · by_cases hkj : k = j
      · simp [hkj, hij.symm, ThreadAt.awake]
      · simp [hki, hkj, ThreadAt.awake]

theorem not_stranded_iff_guarded (as : List (Action ι β)) :
    (∀ as₁ as₂ s, as = as₁ ++ as₂ → GuardedRuns.run step as₁ (init zMaxElem junk) = some s →
      ¬s.Stranded) ↔
      GuardedRuns.Guarded step (fun s a => ¬s.Strands a) as (init zMaxElem junk) :=
  GuardedRuns.invariant_iff_guarded (fun _ a hs => step_strands_iff hs a)
    (init_not_stranded zMaxElem junk)

/-- Buffers come out in the order in which they were returned, each once.  A run leaves no thread
behind if and only if none of its steps is one of `Strands`, and no run at all does if and only if
there is at most one thread. -/
theorem order_and_not_stranded_iff (as : List (Action ι β)) :
    (∀ s, GuardedRuns.run step as (init zMaxElem junk) = some s →
      s.taken ++ s.contents = s.returned) ∧
    ((∀ as₁ as₂ s, as = as₁ ++ as₂ → GuardedRuns.run step as₁ (init zMaxElem junk) = some s →
      ¬s.Stranded) ↔
      GuardedRuns.Guarded step (fun s a => ¬s.Strands a) as (init zMaxElem junk)) ∧
    ((∀ as' s, GuardedRuns.run step as' (init zMaxElem junk : AppFifo ι β) = some s →
      ¬s.Stranded) ↔ ∀ i j : ι, i = j) := by
  refine ⟨fun s hr => (inv_of_run zMaxElem junk hr).order, not_stranded_iff_guarded zMaxElem junk as,
    fun h i j => ?_, fun hone as' s hr => ?_⟩
  · by_contra hij
    obtain ⟨s, hr, hs⟩ := decommitTwo_stranded zMaxElem junk hij
    exact h _ s hr hs
  · have hguarded : GuardedRuns.Guarded step (fun s a => ¬s.Strands a) as' (init zMaxElem junk) :=
      GuardedRuns.guarded_of_forall (not_strands_of_eq hone)
    exact (not_stranded_iff_guarded zMaxElem junk as').mpr hguarded as' [] s (by simp) hr

end Runs

end AppFifo

end VcuCodec
