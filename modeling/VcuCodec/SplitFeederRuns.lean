import Mathlib.Data.List.Nodup
import Mathlib.Data.List.Pairwise
import Mathlib.Data.List.ReduceOption
import VcuCodec.SplitBufferFeeder

/-!
# Runs of the split-buffer feeder

Every push is at one place of the feeder, in order, and what is decoded waits in the work queue
until its free.
-/

namespace VcuCodec

namespace SplitFeeder

variable {β : Type}

/-! ## The invariant -/

namespace Feeder

/-- The pushes in the queues and at the thread, oldest first. -/
def units (s : Feeder β) : List (Pushed β) := s.workFifo.reduceOption ++ s.thread.held ++ s.inputFifo

/-- The decoded pushes that are not unreferenced. -/
def ready (s : Feeder β) : List (Pushed β) := s.workFifo.reduceOption ++ s.thread.succeeded

/-- Every push is at one place. -/
structure Places (s : Feeder β) : Prop where
  sorted : (s.units.map Pushed.id).Pairwise (· < ·)
  conserved : ∀ i, s.released.count i + (s.units.map Pushed.id).count i + (s.control.held.map Pushed.id).count i =
    if i < s.pushed then 1 else 0
  eosLast : ∃ us : List (Pushed β), s.workFifo = us.map some ++ if s.thread.eosQueued then [none] else []
  left : s.thread = .left → s.workFifo = []

/-- The counter and the end of the stream. -/
structure Counts (s : Feeder β) : Prop where
  keepGoing : s.keepGoing = s.inputFifo.length + s.thread.uncounted + s.control.uncounted - s.push.uncounted
  calm : s.eos = true → s.control.drains = false
  drained : s.thread.leaves = true → s.eos = true ∧ s.inputFifo = []

/-- The buffers that are decoded, to be freed and being freed. -/
structure Frees (s : Feeder β) : Prop where
  decoded : ∀ i ∈ s.decoded, i ∈ s.released ∨ i ∈ s.ready.map Pushed.id
  ordered : ∀ i ∈ s.released, i ∈ s.decoded → (∃ j ∈ s.freed, i ≤ j) ∨ s.thread.eosFreed
  sorted : (s.attached.map Pushed.id).Pairwise (· < ·)
  attached : ∀ u ∈ s.attached, u ∈ s.ready
  freeing : ∀ u ∈ s.freeing, u ∈ s.ready ∧ u.id ∈ s.freed ∧ ∀ a ∈ s.attached, u.id < a.id
  idle : s.thread.eosFreed = true → s.attached = [] ∧ s.freeing = none

/-- The thread is woken while there is something to do. -/
structure Wakes (s : Feeder β) : Prop where
  waiting : s.eos = true → s.thread = .waiting → s.event = false → s.control.signals = true
  dequeuing : s.eos = true → s.thread = .dequeuing → s.event = false → s.control.signals = false → s.inputFifo ≠ []
  behind : ∀ u, s.thread = .unreferencing u ∨ s.thread = .queueing u → s.event = true

structure Inv (size : ℕ) (s : Feeder β) : Prop where
  places : s.Places
  counts : s.Counts
  frees : s.Frees
  wakes : s.Wakes
  room : s.thread.queues = true → s.HasRoom size
  bounded : s.workFifo.length ≤ size

variable {s s' : Feeder β} {size : ℕ}

theorem Places.init : (init : Feeder β).Places where
  sorted := List.Pairwise.nil
  conserved := fun _ => rfl
  eosLast := ⟨[], rfl⟩
  left := nofun

/-- A step that moves buffers without changing their order. -/
theorem Places.move (h : s.Places) (hunits : s'.units.Sublist s.units) (hpushed : s'.pushed = s.pushed)
    (hcount : ∀ i, s'.released.count i + (s'.units.map Pushed.id).count i + (s'.control.held.map Pushed.id).count i =
      s.released.count i + (s.units.map Pushed.id).count i + (s.control.held.map Pushed.id).count i)
    (heos : ∃ us : List (Pushed β), s'.workFifo = us.map some ++ if s'.thread.eosQueued then [none] else [])
    (hleft : s'.thread = .left → s'.workFifo = []) : s'.Places where
  sorted := h.sorted.sublist (hunits.map _)
  conserved := by
    intro i
    rw [hcount, hpushed]
    exact h.conserved i
  eosLast := heos
  left := hleft

theorem Places.stay (h : s.Places) (hunits : s'.units = s.units) (hreleased : s'.released = s.released)
    (hheld : s'.control.held = s.control.held) (hpushed : s'.pushed = s.pushed)
    (heos : ∃ us : List (Pushed β), s'.workFifo = us.map some ++ if s'.thread.eosQueued then [none] else [])
    (hleft : s'.thread = .left → s'.workFifo = []) : s'.Places := by
  refine h.move (hunits ▸ List.Sublist.refl _) hpushed ?_ heos hleft
  intro i
  rw [hunits, hreleased, hheld]

variable {u : Pushed β}

theorem Places.lt_pushed (h : s.Places) (hu : u ∈ s.units) : u.id < s.pushed := by
  by_contra hge
  have hconserved := h.conserved u.id
  rw [if_neg hge] at hconserved
  have hpos := List.count_pos_iff.mpr (List.mem_map_of_mem (f := Pushed.id) hu)
  omega

theorem Places.notMem_released (h : s.Places) (hu : u ∈ s.units ∨ u ∈ s.control.held) :
    u.id ∉ s.released := by
  intro hreleased
  have hconserved := h.conserved u.id
  have hpos := List.count_pos_iff.mpr hreleased
  have hplace : 0 < (s.units.map Pushed.id).count u.id + (s.control.held.map Pushed.id).count u.id := by
    rcases hu with hu | hu
    · have := List.count_pos_iff.mpr (List.mem_map_of_mem (f := Pushed.id) hu)
      omega
    · have := List.count_pos_iff.mpr (List.mem_map_of_mem (f := Pushed.id) hu)
      omega
  split_ifs at hconserved <;> omega

theorem Places.pushBuffer {buf : β} (h : s.Places) :
    Places { s with inputFifo := s.inputFifo ++ [⟨s.pushed, buf⟩], pushed := s.pushed + 1, push := .counting } where
  sorted := by
    have hunits : units { s with
        inputFifo := s.inputFifo ++ [⟨s.pushed, buf⟩], pushed := s.pushed + 1, push := .counting } =
          s.units ++ [⟨s.pushed, buf⟩] := by
      simp [units]
    rw [hunits, List.map_append, List.pairwise_append]
    refine ⟨h.sorted, List.pairwise_singleton .., ?_⟩
    intro i hi j hj
    obtain ⟨u, hu, rfl⟩ := List.mem_map.mp hi
    rw [List.mem_singleton.mp hj]
    exact h.lt_pushed hu
  conserved := by
    intro i
    have hconserved := h.conserved i
    simp only [units, List.map_append, List.count_append, List.map_cons, List.map_nil, List.count_singleton] at hconserved ⊢
    split_ifs at hconserved ⊢ <;> simp_all <;> omega
  eosLast := h.eosLast
  left := h.left

theorem Places.controlStep [DecidableEq β] (h : s.Places) (hstep : s.controlStep = some s') : s'.Places := by
  unfold Feeder.controlStep at hstep
  rcases hcontrol : s.control with _ | joins | _ | u | u | _ | _ | _ <;> rw [hcontrol] at hstep <;> simp only at hstep
  case draining =>
    split at hstep
    next hinput =>
      cases hstep
      exact h.stay rfl rfl (by rw [hcontrol]; rfl) rfl h.eosLast h.left
    next u inputFifo hinput =>
      cases hstep
      refine h.move ?_ rfl ?_ h.eosLast h.left
      · simp only [units, hinput]
        exact (List.sublist_cons_self u inputFifo).append_left _
      · intro i
        simp only [units, hinput, hcontrol, ControlAt.held, List.map_append, List.count_append, List.map_cons,
          List.count_cons, List.map_nil, List.count_nil]
        omega
  case unreferencing =>
    cases hstep
    refine h.move (List.Sublist.refl _) rfl ?_ h.eosLast h.left
    intro i
    simp only [units, unref, hcontrol, ControlAt.held, List.map_cons, List.map_nil, List.count_cons, List.count_nil]
    omega
  case signalling =>
    cases hstep
    exact h.stay rfl rfl (by rw [hcontrol]; cases joins <;> rfl) rfl h.eosLast h.left
  case joining => split_ifs at hstep; cases hstep; exact h.stay rfl rfl (by rw [hcontrol]; rfl) rfl h.eosLast h.left
  all_goals cases hstep
  all_goals exact h.stay rfl rfl (by rw [hcontrol]; rfl) rfl h.eosLast h.left

/-! ## The steps of the thread -/

/-- The thread can go to `t` without touching a buffer or the counter. -/
structure Quiet (s : Feeder β) (t : ThreadAt β) : Prop where
  held : t.held = s.thread.held
  succeeded : t.succeeded = s.thread.succeeded
  eosQueued : t.eosQueued = s.thread.eosQueued
  uncounted : t.uncounted = s.thread.uncounted
  left : t ≠ .left
  leaves : t.leaves = true → s.thread.leaves = true ∨ s.thread = .readingEos ∧ s.eos = true
  queues : t.queues = true → s.thread.queues = true ∨ s.thread = .readingEos ∧ s.eos = true
  eosFreed : t.eosFreed = s.thread.eosFreed ∨ t.eosFreed = true ∧ s.attached = [] ∧ s.freeing = none

/-- What a step of the thread does. -/
inductive ThreadMove (size : ℕ) (s : Feeder β) (result : UnitResult) : Feeder β → Prop
  | quiet (t : ThreadAt β) (event : Bool) (h : s.Quiet t) : ThreadMove size s result { s with thread := t, event }
  | take (u : Pushed β) (inputFifo : List (Pushed β)) (hthread : s.thread = .dequeuing)
      (hinput : s.inputFifo = u :: inputFifo) : ThreadMove size s result { s with inputFifo, thread := .counting u }
  | count (u : Pushed β) (hthread : s.thread = .counting u) :
      ThreadMove size s result { s with keepGoing := s.keepGoing - 1, thread := .decoding u }
  | decode (u : Pushed β) (attached : Bool) (hthread : s.thread = .decoding u) (hresult : result = .success attached) :
      ThreadMove size s result { s with
        decoded := u.id :: s.decoded
        attached := if attached then s.attached ++ [u] else s.attached
        thread := .signalling u true }
  | unref (u : Pushed β) (hthread : s.thread = .unreferencing u) : ThreadMove size s result { s.unref u with thread := .waiting }
  | queue (u : Pushed β) (hthread : s.thread = .queueing u) (hlt : s.workFifo.length < size) :
      ThreadMove size s result { s with workFifo := s.workFifo ++ [some u], thread := .waiting }
  | queueEos (hthread : s.thread = .queueingEos) (hlt : s.workFifo.length < size) :
      ThreadMove size s result { s with workFifo := s.workFifo ++ [none], thread := .decodingEos }
  | freeEos (workFifo : List (Option (Pushed β))) (hthread : s.thread = .freeingEos)
      (hwork : s.workFifo = none :: workFifo) : ThreadMove size s result { s with workFifo, thread := .left }
  | freeUnit (w : Pushed β) (workFifo : List (Option (Pushed β))) (hthread : s.thread = .freeingEos)
      (hwork : s.workFifo = some w :: workFifo) : ThreadMove size s result { s.unref w with workFifo }

theorem quiet_of_thread {t t₀ : ThreadAt β} (hthread : s.thread = t₀) (held : t.held = t₀.held)
    (succeeded : t.succeeded = t₀.succeeded) (eosQueued : t.eosQueued = t₀.eosQueued)
    (uncounted : t.uncounted = t₀.uncounted) (left : t ≠ .left) (leaves : t.leaves = true → t₀.leaves = true)
    (queues : t.queues = true → t₀.queues = true) (eosFreed : t.eosFreed = t₀.eosFreed) : s.Quiet t := by
  subst hthread
  exact ⟨held, succeeded, eosQueued, uncounted, left, fun h => Or.inl (leaves h), fun h => Or.inl (queues h), Or.inl eosFreed⟩

variable {result : UnitResult}

theorem threadMove [DecidableEq β] (hstep : s.threadStep size result = some s') :
    s.ThreadMove size result s' := by
  unfold Feeder.threadStep at hstep
  rcases hthread : s.thread with _ | _ | _ | _ | u | u | ⟨u, success⟩ | u | u | _ | _ | _ | _ | _ <;>
    rw [hthread] at hstep <;> simp only at hstep
  case waiting =>
    split_ifs at hstep
    cases hstep
    exact .quiet _ _ (quiet_of_thread hthread rfl rfl rfl rfl nofun nofun nofun rfl)
  case readingKeepGoing =>
    cases hstep
    refine .quiet _ _ ?_
    split_ifs
    · exact quiet_of_thread hthread rfl rfl rfl rfl nofun nofun nofun rfl
    · exact quiet_of_thread hthread rfl rfl rfl rfl nofun nofun nofun rfl
  case readingEos =>
    cases hstep
    refine .quiet _ _ ?_
    split_ifs with heos
    · constructor <;> simp_all [ThreadAt.held, ThreadAt.succeeded, ThreadAt.eosQueued, ThreadAt.uncounted, ThreadAt.eosFreed]
    · exact quiet_of_thread hthread rfl rfl rfl rfl nofun nofun nofun rfl
  case dequeuing =>
    split at hstep
    next =>
      cases hstep
      exact .quiet _ _ (quiet_of_thread hthread rfl rfl rfl rfl nofun nofun nofun rfl)
    next hinput =>
      cases hstep
      exact .take _ _ hthread hinput
  case counting =>
    cases hstep
    exact .count u hthread
  case decoding =>
    cases result with
    | failure =>
      cases hstep
      exact .quiet _ _ (quiet_of_thread hthread rfl rfl rfl rfl nofun nofun nofun rfl)
    | success attached =>
      cases hstep
      exact .decode u attached hthread rfl
  case signalling =>
    cases hstep
    refine .quiet _ _ ?_
    cases success with
    | false => exact quiet_of_thread hthread rfl rfl rfl rfl nofun nofun nofun rfl
    | true => exact quiet_of_thread hthread rfl rfl rfl rfl nofun nofun (fun _ => rfl) rfl
  case unreferencing =>
    cases hstep
    exact .unref u hthread
  case queueing =>
    split_ifs at hstep with hlt
    cases hstep
    exact .queue u hthread hlt
  case queueingEos =>
    split_ifs at hstep with hlt
    cases hstep
    exact .queueEos hthread hlt
  case decodingEos =>
    cases hstep
    exact .quiet _ _ (quiet_of_thread hthread rfl rfl rfl rfl nofun (fun _ => rfl) nofun rfl)
  case flushing =>
    split_ifs at hstep with hidle
    cases hstep
    refine .quiet _ _ ⟨?_, ?_, ?_, ?_, nofun, fun _ => Or.inl (by rw [hthread]; rfl), nofun, Or.inr ⟨rfl, hidle⟩⟩ <;>
      rw [hthread] <;> rfl
  case freeingEos =>
    split at hstep
    next => cases hstep
    next hwork =>
      cases hstep
      exact .freeEos _ hthread hwork
    next hwork =>
      cases hstep
      exact .freeUnit _ _ hthread hwork
  case left => cases hstep

theorem Places.threadMove (h : s.Places) (hmove : s.ThreadMove size result s') : s'.Places := by
  have heos := h.eosLast
  cases hmove with
  | quiet t event hq =>
    exact h.stay (by simp only [units, hq.held]) rfl rfl rfl (hq.eosQueued ▸ heos) fun hl => absurd hl hq.left
  | take u inputFifo hthread hinput =>
    rw [hthread] at heos
    exact h.stay (by simp [units, hthread, hinput, ThreadAt.held]) rfl rfl rfl heos nofun
  | count u hthread =>
    rw [hthread] at heos
    exact h.stay (by simp [units, hthread, ThreadAt.held]) rfl rfl rfl heos nofun
  | decode u attached hthread _ =>
    rw [hthread] at heos
    exact h.stay (by simp [units, hthread, ThreadAt.held]) rfl rfl rfl heos nofun
  | unref u hthread =>
    rw [hthread] at heos
    refine h.move ?_ rfl ?_ heos nofun
    · simp [units, Feeder.unref, hthread, ThreadAt.held]
    · intro i
      simp only [units, Feeder.unref, hthread, ThreadAt.held, List.map_append, List.count_append, List.map_cons,
        List.map_nil, List.count_cons, List.count_nil]
      omega
  | queue u hthread hlt =>
    obtain ⟨us, hus⟩ := heos
    refine h.stay ?_ rfl rfl rfl ⟨us ++ [u], by simp [hus, hthread, ThreadAt.eosQueued]⟩ nofun
    simp [units, hthread, ThreadAt.held, List.reduceOption_append, List.reduceOption_singleton]
  | queueEos hthread hlt =>
    obtain ⟨us, hus⟩ := heos
    refine h.stay ?_ rfl rfl rfl ⟨us, by simp [hus, hthread, ThreadAt.eosQueued]⟩ nofun
    simp [units, hthread, ThreadAt.held, List.reduceOption_append, List.reduceOption_singleton]
  | freeEos workFifo hthread hwork =>
    obtain ⟨us, hus⟩ := heos
    have hnil : workFifo = [] := by
      cases us with
      | nil => simpa [hwork, hthread, ThreadAt.eosQueued] using hus
      | cons u us => simp [hwork] at hus
    refine h.stay ?_ rfl rfl rfl ⟨[], by simp [hnil, ThreadAt.eosQueued]⟩ (fun _ => hnil)
    simp [units, hthread, hwork, ThreadAt.held, List.reduceOption_cons_of_none]
  | freeUnit w workFifo hthread hwork =>
    obtain ⟨us, hus⟩ := heos
    cases us with
    | nil => simp [hwork, hthread, ThreadAt.eosQueued] at hus
    | cons u us =>
      have hrest := (List.cons.inj (hwork.symm.trans hus)).2
      refine h.move ?_ rfl ?_ ⟨us, hrest⟩ (fun hl => absurd (hthread.symm.trans hl) nofun)
      · simp [units, Feeder.unref, hthread, hwork, ThreadAt.held, List.reduceOption_cons_of_some]
      · intro i
        simp only [units, Feeder.unref, hthread, hwork, ThreadAt.held, List.reduceOption_cons_of_some, List.map_append,
          List.cons_append, List.count_append, List.map_cons, List.count_cons]
        omega

/-! ## The counter -/

theorem Counts.init : (init : Feeder β).Counts where
  keepGoing := rfl
  calm := nofun
  drained := nofun

theorem Counts.pushBuffer {buf : β} (h : s.Counts) (hpush : s.push = .outside) (hleaves : s.thread.leaves = false) :
    Counts { s with inputFifo := s.inputFifo ++ [⟨s.pushed, buf⟩], pushed := s.pushed + 1, push := .counting } where
  keepGoing := by
    have hkeepGoing := h.keepGoing
    simp only [hpush, PushAt.uncounted, List.length_append, List.length_singleton] at hkeepGoing ⊢
    omega
  calm := h.calm
  drained := fun hl => absurd (hleaves.symm.trans hl) Bool.false_ne_true

theorem Counts.pushStep (h : s.Counts) (hstep : s.pushStep = some s') : s'.Counts := by
  have hkeepGoing := h.keepGoing
  unfold Feeder.pushStep at hstep
  split at hstep
  next => cases hstep
  next hpush =>
    cases hstep
    refine ⟨?_, h.calm, h.drained⟩
    simp only [hpush, PushAt.uncounted] at hkeepGoing ⊢
    omega
  next hpush =>
    cases hstep
    refine ⟨?_, h.calm, h.drained⟩
    simp only [hpush, PushAt.uncounted] at hkeepGoing ⊢
    omega

theorem Counts.controlStep [DecidableEq β] (h : s.Counts) (hstep : s.controlStep = some s') : s'.Counts := by
  have hkeepGoing := h.keepGoing
  have hcalm := h.calm
  unfold Feeder.controlStep at hstep
  rcases hcontrol : s.control with _ | joins | _ | u | u | _ | _ | _ <;> rw [hcontrol] at hstep hkeepGoing hcalm <;>
    simp only [ControlAt.uncounted, ControlAt.drains] at hstep hkeepGoing hcalm
  case outside => cases hstep
  case signalling =>
    cases hstep
    refine ⟨?_, ?_, h.drained⟩
    · cases joins <;> exact hkeepGoing
    · cases joins <;> exact fun _ => rfl
  case draining =>
    split at hstep
    next =>
      cases hstep
      exact ⟨hkeepGoing, hcalm, h.drained⟩
    next u inputFifo hinput =>
      cases hstep
      refine ⟨?_, hcalm, ?_⟩
      · simp only [hinput, ControlAt.uncounted, List.length_cons] at hkeepGoing ⊢
        omega
      · intro hl
        exact absurd (hinput.symm.trans (h.drained hl).2) (List.cons_ne_nil _ _)
  case counting =>
    cases hstep
    refine ⟨?_, hcalm, h.drained⟩
    simp only [ControlAt.uncounted]
    omega
  case unreferencing =>
    cases hstep
    exact ⟨hkeepGoing, hcalm, h.drained⟩
  case setting =>
    cases hstep
    exact ⟨hkeepGoing, fun _ => rfl, fun hl => ⟨rfl, (h.drained hl).2⟩⟩
  case joining =>
    split_ifs at hstep
    cases hstep
    exact ⟨hkeepGoing, fun _ => rfl, h.drained⟩
  case destroyed => cases hstep

theorem Counts.callbackStep [DecidableEq β] (h : s.Counts) (hstep : s.callbackStep = some s') : s'.Counts := by
  unfold Feeder.callbackStep at hstep
  split at hstep
  next => cases hstep
  next u hfreeing =>
    split at hstep
    next => cases hstep
    next =>
      cases hstep
      exact ⟨h.keepGoing, h.calm, h.drained⟩
    next =>
      cases hstep
      exact ⟨h.keepGoing, h.calm, h.drained⟩

theorem Counts.threadMove [DecidableEq β] (h : s.Counts)
    (ha : s.Allowed size (.threadStep result)) (hmove : s.ThreadMove size result s') : s'.Counts := by
  have hkeepGoing := h.keepGoing
  cases hmove with
  | quiet t event hq =>
    refine ⟨by rw [hq.uncounted]; exact hkeepGoing, h.calm, ?_⟩
    intro hl
    rcases hq.leaves hl with hl | ⟨hthread, heos⟩
    · exact h.drained hl
    · exact ⟨heos, (ha.1 hthread heos).1⟩
  | take u inputFifo hthread hinput =>
    refine ⟨?_, h.calm, nofun⟩
    simp only [hthread, hinput, ThreadAt.uncounted, List.length_cons] at hkeepGoing ⊢
    omega
  | count u hthread =>
    refine ⟨?_, h.calm, nofun⟩
    simp only [hthread, ThreadAt.uncounted] at hkeepGoing ⊢
    omega
  | decode u attached hthread _ =>
    rw [hthread] at hkeepGoing
    exact ⟨hkeepGoing, h.calm, nofun⟩
  | unref u hthread =>
    rw [hthread] at hkeepGoing
    exact ⟨hkeepGoing, h.calm, nofun⟩
  | queue u hthread hlt =>
    rw [hthread] at hkeepGoing
    exact ⟨hkeepGoing, h.calm, nofun⟩
  | queueEos hthread hlt =>
    rw [hthread] at hkeepGoing
    exact ⟨hkeepGoing, h.calm, fun _ => h.drained (by rw [hthread]; rfl)⟩
  | freeEos workFifo hthread hwork =>
    rw [hthread] at hkeepGoing
    exact ⟨hkeepGoing, h.calm, fun _ => h.drained (by rw [hthread]; rfl)⟩
  | freeUnit w workFifo hthread hwork => exact ⟨hkeepGoing, h.calm, h.drained⟩

/-! ## The event -/

theorem Wakes.init : (init : Feeder β).Wakes where
  waiting := nofun
  dequeuing := nofun
  behind := nofun

theorem Wakes.pushStep (h : s.Wakes) (hstep : s.pushStep = some s') : s'.Wakes := by
  unfold Feeder.pushStep at hstep
  split at hstep
  next => cases hstep
  next =>
    cases hstep
    exact ⟨h.waiting, h.dequeuing, h.behind⟩
  next =>
    cases hstep
    exact ⟨nofun, nofun, fun _ _ => rfl⟩

theorem Wakes.controlStep [DecidableEq β] (h : s.Wakes) (hc : s.Counts) (hstep : s.controlStep = some s') :
    s'.Wakes := by
  have hcalm := hc.calm
  have hwaiting := h.waiting
  have hdequeuing := h.dequeuing
  unfold Feeder.controlStep at hstep
  rcases hcontrol : s.control with _ | joins | _ | u | u | _ | _ | _ <;>
    rw [hcontrol] at hstep hcalm hwaiting hdequeuing <;> simp only at hstep
  case signalling => cases hstep; exact ⟨nofun, nofun, fun _ _ => rfl⟩
  case setting => cases hstep; exact ⟨fun _ _ _ => rfl, fun _ _ _ hs => Bool.noConfusion hs, h.behind⟩
  case joining => split_ifs at hstep; cases hstep; exact ⟨hwaiting, hdequeuing, h.behind⟩
  case outside => cases hstep
  case destroyed => cases hstep
  case draining =>
    split at hstep <;> cases hstep <;>
      exact ⟨fun heos => absurd (hcalm heos) nofun, fun heos => absurd (hcalm heos) nofun, h.behind⟩
  -- in front of the end of the stream nothing has to be woken
  all_goals
    cases hstep
    exact ⟨fun heos => absurd (hcalm heos) nofun, fun heos => absurd (hcalm heos) nofun, h.behind⟩

theorem Wakes.callbackStep [DecidableEq β] (h : s.Wakes) (hstep : s.callbackStep = some s') : s'.Wakes := by
  unfold Feeder.callbackStep at hstep
  split at hstep
  next => cases hstep
  next u hfreeing =>
    split at hstep
    next => cases hstep
    next =>
      cases hstep
      exact ⟨h.waiting, h.dequeuing, h.behind⟩
    next =>
      cases hstep
      exact ⟨h.waiting, h.dequeuing, h.behind⟩

theorem Counts.input_ne_nil (h : s.Counts) (heos : s.eos = true) (hthread : s.thread.uncounted = 0)
    (hpos : 0 ≤ s.keepGoing - 1) : s.inputFifo ≠ [] := by
  intro hnil
  have hkeepGoing := h.keepGoing
  have hcontrol : s.control.uncounted = 0 := by
    have hcalm := h.calm heos
    cases hc : s.control <;> rw [hc] at hcalm <;> first | rfl | cases hcalm
  have hpush : 0 ≤ s.push.uncounted := by cases s.push <;> decide
  rw [hnil, hthread, hcontrol, List.length_nil] at hkeepGoing
  omega

theorem Wakes.threadStep [DecidableEq β] (h : s.Wakes) (hc : s.Counts)
    (hstep : s.threadStep size result = some s') : s'.Wakes := by
  unfold Feeder.threadStep at hstep
  rcases hthread : s.thread with _ | _ | _ | _ | u | u | ⟨u, success⟩ | u | u | _ | _ | _ | _ | _ <;>
    rw [hthread] at hstep <;> simp only at hstep
  case readingKeepGoing =>
    cases hstep
    split_ifs with hpos
    · refine ⟨nofun, ?_, nofun⟩
      intro heos _ _ _
      exact hc.input_ne_nil heos (by rw [hthread]; rfl) hpos
    · exact ⟨nofun, nofun, nofun⟩
  case readingEos =>
    cases hstep
    split_ifs with heos
    · exact ⟨nofun, nofun, nofun⟩
    · exact ⟨nofun, fun htrue => absurd htrue heos, nofun⟩
  case dequeuing =>
    split at hstep
    next hinput =>
      cases hstep
      refine ⟨?_, nofun, nofun⟩
      intro heos _ hevent
      by_contra hsignals
      exact h.dequeuing heos hthread hevent (by simpa using hsignals) hinput
    next =>
      cases hstep
      exact ⟨nofun, nofun, nofun⟩
  case signalling =>
    cases hstep
    cases success <;> exact ⟨nofun, nofun, fun _ _ => rfl⟩
  case unreferencing =>
    have hevent := h.behind u (Or.inl hthread)
    cases hstep
    exact ⟨fun _ _ hno => absurd (hevent.symm.trans hno) Bool.noConfusion, nofun, nofun⟩
  case queueing =>
    have hevent := h.behind u (Or.inr hthread)
    split_ifs at hstep
    cases hstep
    exact ⟨fun _ _ hno => absurd (hevent.symm.trans hno) Bool.noConfusion, nofun, nofun⟩
  case decoding => cases result <;> cases hstep <;> exact ⟨nofun, nofun, nofun⟩
  case freeingEos =>
    split at hstep
    · cases hstep
    all_goals
      cases hstep
      constructor <;> simp [unref, hthread]
  case left => cases hstep
  case counting => cases hstep; exact ⟨nofun, nofun, nofun⟩
  case decodingEos => cases hstep; exact ⟨nofun, nofun, nofun⟩
  all_goals
    split_ifs at hstep
    cases hstep
    exact ⟨nofun, nofun, nofun⟩

/-! ## The frees -/

theorem Frees.init : (init : Feeder β).Frees where
  decoded := nofun
  ordered := nofun
  sorted := List.Pairwise.nil
  attached := nofun
  freeing := nofun
  idle := nofun

theorem ready_sublist (s : Feeder β) : s.ready.Sublist s.units := by
  have hsucceeded : s.thread.succeeded.Sublist s.thread.held := by
    rcases s.thread with _ | _ | _ | _ | u | u | ⟨u, _ | _⟩ | u | u | _ | _ | _ | _ | _ <;>
      simp [ThreadAt.succeeded, ThreadAt.held]
  exact (hsucceeded.append_left _).trans (List.sublist_append_left _ _)

theorem Places.ready_sorted (h : s.Places) : (s.ready.map Pushed.id).Pairwise (· < ·) :=
  h.sorted.sublist (s.ready_sublist.map _)

theorem Frees.stay (h : s.Frees) (hready : s'.ready = s.ready) (hdecoded : s'.decoded = s.decoded)
    (hfreed : s'.freed = s.freed) (hattached : s'.attached = s.attached) (hfreeing : s'.freeing = s.freeing)
    (hreleased : s'.released = s.released) (heos : s'.thread.eosFreed = s.thread.eosFreed) : s'.Frees where
  decoded := by
    rw [hdecoded, hreleased, hready]
    exact h.decoded
  ordered := by
    rw [hdecoded, hreleased, hfreed, heos]
    exact h.ordered
  sorted := hattached ▸ h.sorted
  attached := by
    rw [hattached, hready]
    exact h.attached
  freeing := by
    rw [hfreeing, hready, hfreed, hattached]
    exact h.freeing
  idle := by
    rw [heos, hattached, hfreeing]
    exact h.idle

theorem Frees.unrefUndecoded (h : s.Frees) (hu : u.id ∉ s.decoded) (hready : s'.ready = s.ready)
    (hdecoded : s'.decoded = s.decoded) (hfreed : s'.freed = s.freed) (hattached : s'.attached = s.attached)
    (hfreeing : s'.freeing = s.freeing) (hreleased : s'.released = u.id :: s.released)
    (heos : s'.thread.eosFreed = s.thread.eosFreed) : s'.Frees where
  decoded := by
    intro i hi
    rw [hdecoded] at hi
    rw [hreleased, hready]
    exact (h.decoded i hi).imp_left (List.mem_cons_of_mem _)
  ordered := by
    intro i hi hd
    rw [hdecoded] at hd
    rw [hreleased] at hi
    rw [hfreed, heos]
    rcases List.mem_cons.mp hi with rfl | hi
    · exact absurd hd hu
    · exact h.ordered i hi hd
  sorted := hattached ▸ h.sorted
  attached := by
    rw [hattached, hready]
    exact h.attached
  freeing := by
    rw [hfreeing, hready, hfreed, hattached]
    exact h.freeing
  idle := by
    rw [heos, hattached, hfreeing]
    exact h.idle

theorem Frees.notMem_decoded (h : s.Frees) (hp : s.Places) (hu : u ∈ s.thread.held)
    (hsucceeded : s.thread.succeeded = []) : u.id ∉ s.decoded := by
  intro hd
  have hsorted := hp.sorted
  rcases h.decoded _ hd with hreleased | hready
  · exact hp.notMem_released (Or.inl (by simp [units, hu])) hreleased
  · obtain ⟨v, hv, heq⟩ := List.mem_map.mp hready
    rw [ready, hsucceeded, List.append_nil] at hv
    rw [units, List.append_assoc, List.map_append, List.pairwise_append] at hsorted
    have hlt := hsorted.2.2 v.id (List.mem_map_of_mem hv) u.id (List.mem_map_of_mem (List.mem_append_left _ hu))
    omega

theorem Frees.notMem_decoded_of_control (h : s.Frees) (hp : s.Places) (hu : u ∈ s.control.held) :
    u.id ∉ s.decoded := by
  intro hd
  rcases h.decoded _ hd with hreleased | hready
  · exact hp.notMem_released (Or.inr hu) hreleased
  · have hconserved := hp.conserved u.id
    have hunits : u.id ∈ s.units.map Pushed.id := (s.ready_sublist.map _).subset hready
    have hpos := List.count_pos_iff.mpr hunits
    have hheld := List.count_pos_iff.mpr (List.mem_map_of_mem (f := Pushed.id) hu)
    split_ifs at hconserved <;> omega

theorem Frees.controlStep [DecidableEq β] (h : s.Frees) (hp : s.Places) (hstep : s.controlStep = some s') :
    s'.Frees := by
  unfold Feeder.controlStep at hstep
  rcases hcontrol : s.control with _ | joins | _ | u | u | _ | _ | _ <;> rw [hcontrol] at hstep <;> simp only at hstep
  case unreferencing =>
    have hu := h.notMem_decoded_of_control hp (u := u) (by simp [hcontrol, ControlAt.held])
    cases hstep
    exact h.unrefUndecoded hu rfl rfl rfl rfl rfl rfl rfl
  case draining => split at hstep <;> cases hstep <;> exact h.stay rfl rfl rfl rfl rfl rfl rfl
  case joining => split_ifs at hstep; cases hstep; exact h.stay rfl rfl rfl rfl rfl rfl rfl
  all_goals cases hstep
  all_goals exact h.stay rfl rfl rfl rfl rfl rfl rfl

theorem Frees.freeBuf (h : s.Frees) {attached : List (Pushed β)} (hattached : s.attached = u :: attached) :
    Frees { s with attached, freeing := some u, freed := u.id :: s.freed } where
  decoded := h.decoded
  ordered := by
    intro i hi hd
    refine (h.ordered i hi hd).imp_left ?_
    rintro ⟨j, hj, hle⟩
    exact ⟨j, List.mem_cons_of_mem _ hj, hle⟩
  sorted := by
    have hsorted := h.sorted
    rw [hattached, List.map_cons, List.pairwise_cons] at hsorted
    exact hsorted.2
  attached := fun a ha => h.attached a (hattached ▸ List.mem_cons_of_mem _ ha)
  freeing := by
    intro v hv
    cases hv
    have hsorted := h.sorted
    rw [hattached, List.map_cons, List.pairwise_cons] at hsorted
    refine ⟨h.attached u (hattached ▸ List.mem_cons_self), List.mem_cons_self, ?_⟩
    intro a ha
    exact hsorted.1 _ (List.mem_map_of_mem ha)
  idle := by
    intro heos
    have hnil := (h.idle heos).1
    rw [hattached] at hnil
    exact absurd hnil (List.cons_ne_nil _ _)

/-- A callback finds a buffer of the work queue, not younger than the one it is to free. -/
theorem Frees.callbackStep [DecidableEq β] (h : s.Frees) (hp : s.Places) (hstep : s.callbackStep = some s') :
    s'.Frees ∧ s'.Places := by
  unfold Feeder.callbackStep at hstep
  split at hstep
  next => cases hstep
  next u hfreeing =>
    obtain ⟨hready, hfreed, hattached⟩ := h.freeing u hfreeing
    split at hstep
    next => cases hstep
    next workFifo hwork =>
      -- the end-of-stream buffer is behind the buffer to free
      exfalso
      obtain ⟨us, hus⟩ := hp.eosLast
      rw [hwork] at hus
      cases us with
      | cons w us => cases hus
      | nil =>
        rw [ready, hwork, List.reduceOption_cons_of_none] at hready
        cases hthread : s.thread <;> rw [hthread] at hus hready <;>
          simp [ThreadAt.eosQueued, ThreadAt.succeeded] at hus hready <;> simp [hus] at hready
    next w workFifo hwork =>
      cases hstep
      have hcons : s.ready = w :: (workFifo.reduceOption ++ s.thread.succeeded) := by
        rw [ready, hwork, List.reduceOption_cons_of_some, List.cons_append]
      have hsorted := hp.ready_sorted
      rw [hcons, List.map_cons, List.pairwise_cons] at hsorted
      have hrest : ∀ v ∈ s.ready, v ≠ w → v ∈ workFifo.reduceOption ++ s.thread.succeeded := by
        intro v hv hne
        rw [hcons] at hv
        exact (List.mem_cons.mp hv).resolve_left hne
      have hle : w.id ≤ u.id := by
        rw [hcons] at hready
        rcases List.mem_cons.mp hready with rfl | hu
        · exact le_rfl
        · exact (hsorted.1 _ (List.mem_map_of_mem hu)).le
      constructor
      · constructor
        case decoded =>
          intro i hi
          rcases h.decoded i hi with hr | hr
          · exact Or.inl (List.mem_cons_of_mem _ hr)
          · rw [hcons, List.map_cons] at hr
            rcases List.mem_cons.mp hr with rfl | hr
            · exact Or.inl List.mem_cons_self
            · exact Or.inr hr
        case ordered =>
          intro i hi hd
          rcases List.mem_cons.mp hi with rfl | hi
          · exact Or.inl ⟨u.id, hfreed, hle⟩
          · exact h.ordered i hi hd
        case sorted => exact h.sorted
        case attached =>
          intro a ha
          refine hrest a (h.attached a ha) ?_
          rintro rfl
          exact absurd (hattached a ha) (by omega)
        case freeing =>
          intro v hv
          simp only at hv
          split_ifs at hv with hbuf
          · cases hv
          · cases hv
            refine ⟨hrest u hready ?_, hfreed, hattached⟩
            rintro rfl
            exact hbuf rfl
        case idle =>
          intro heos
          exact absurd (hfreeing.symm.trans (h.idle heos).2) (Option.some_ne_none _)
      · refine hp.move ?_ rfl ?_ ?_ ?_
        · simp [units, unref, hwork, List.reduceOption_cons_of_some]
        · intro i
          simp only [units, unref, hwork, List.reduceOption_cons_of_some, List.map_append, List.cons_append,
            List.count_append, List.map_cons, List.count_cons]
          omega
        · obtain ⟨us, hus⟩ := hp.eosLast
          rw [hwork] at hus
          cases us with
          | nil =>
            exfalso
            split_ifs at hus <;> cases hus
          | cons v us => exact ⟨us, (List.cons.inj hus).2⟩
        · intro hleft
          exact absurd (hwork.symm.trans (hp.left hleft)) (List.cons_ne_nil _ _)

theorem Places.lt_of_decoding (h : s.Places) {u v : Pushed β} (hthread : s.thread = .decoding u) (hv : v ∈ s.ready) :
    v.id < u.id := by
  have hsorted := h.sorted
  simp only [ready, hthread, ThreadAt.succeeded, List.append_nil] at hv
  rw [units, hthread, List.append_assoc, List.map_append, List.pairwise_append] at hsorted
  exact hsorted.2.2 _ (List.mem_map_of_mem hv) _ (by simp [ThreadAt.held])

theorem Frees.decode (h : s.Frees) (hp : s.Places) (hthread : s.thread = .decoding u) (attached : Bool) :
    Frees { s with
      decoded := u.id :: s.decoded
      attached := if attached then s.attached ++ [u] else s.attached
      thread := .signalling u true } := by
  have hready : s.ready = s.workFifo.reduceOption := by
    simp only [ready, hthread, ThreadAt.succeeded, List.append_nil]
  have hmem : ∀ v ∈ s.ready, v ∈ s.workFifo.reduceOption ++ [u] := by
    intro v hv
    rw [hready] at hv
    exact List.mem_append_left _ hv
  constructor
  case decoded =>
    intro i hi
    rcases List.mem_cons.mp hi with rfl | hi
    · exact Or.inr (List.mem_map_of_mem (List.mem_append_right _ List.mem_cons_self))
    · refine (h.decoded i hi).imp_right ?_
      intro hr
      obtain ⟨v, hv, rfl⟩ := List.mem_map.mp hr
      exact List.mem_map_of_mem (hmem v hv)
  case ordered =>
    intro i hi hd
    rcases List.mem_cons.mp hd with rfl | hd
    · exact absurd hi (hp.notMem_released (Or.inl (by simp [units, hthread, ThreadAt.held])))
    · have hordered := h.ordered i hi hd
      rwa [hthread] at hordered
  case sorted =>
    cases attached with
    | false => exact h.sorted
    | true =>
      simp only [if_true, List.map_append, List.pairwise_append]
      refine ⟨h.sorted, List.pairwise_singleton .., ?_⟩
      intro i hi j hj
      obtain ⟨a, ha, rfl⟩ := List.mem_map.mp hi
      rw [List.mem_singleton.mp hj]
      exact hp.lt_of_decoding hthread (h.attached a ha)
  case attached =>
    intro a ha
    cases attached with
    | false => exact hmem a (h.attached a ha)
    | true =>
      rcases List.mem_append.mp ha with ha | ha
      · exact hmem a (h.attached a ha)
      · exact List.mem_append_right _ ha
  case freeing =>
    intro f hf
    obtain ⟨hfr, hfreed, hattached⟩ := h.freeing f hf
    refine ⟨hmem f hfr, hfreed, ?_⟩
    intro a ha
    cases attached with
    | false => exact hattached a ha
    | true =>
      rcases List.mem_append.mp ha with ha | ha
      · exact hattached a ha
      · rw [List.mem_singleton.mp ha]
        exact hp.lt_of_decoding hthread hfr
  case idle => exact nofun

theorem Frees.threadMove (h : s.Frees) (hp : s.Places) (hmove : s.ThreadMove size result s') : s'.Frees := by
  cases hmove with
  | quiet t event hq =>
    have hready : ({ s with thread := t, event } : Feeder β).ready = s.ready := by simp only [ready, hq.succeeded]
    rcases hq.eosFreed with heos | ⟨heos, hidle⟩
    · exact h.stay hready rfl rfl rfl rfl rfl heos
    · refine ⟨?_, fun _ _ _ => Or.inr heos, h.sorted, ?_, ?_, fun _ => hidle⟩ <;> rw [hready]
      · exact h.decoded
      · exact h.attached
      · exact h.freeing
  | take u inputFifo hthread hinput =>
    exact h.stay (by simp [ready, hthread, ThreadAt.succeeded]) rfl rfl rfl rfl rfl (by rw [hthread]; rfl)
  | count u hthread =>
    exact h.stay (by simp [ready, hthread, ThreadAt.succeeded]) rfl rfl rfl rfl rfl (by rw [hthread]; rfl)
  | decode u attached hthread _ => exact h.decode hp hthread attached
  | unref u hthread =>
    have hu := h.notMem_decoded hp (u := u) (by rw [hthread]; exact List.mem_cons_self) (by rw [hthread]; rfl)
    exact h.unrefUndecoded hu (by simp [ready, Feeder.unref, hthread, ThreadAt.succeeded]) rfl rfl rfl rfl rfl
      (by rw [hthread]; rfl)
  | queue u hthread hlt =>
    refine h.stay ?_ rfl rfl rfl rfl rfl (by rw [hthread]; rfl)
    simp [ready, hthread, ThreadAt.succeeded, List.reduceOption_append, List.reduceOption_singleton]
  | queueEos hthread hlt =>
    refine h.stay ?_ rfl rfl rfl rfl rfl (by rw [hthread]; rfl)
    simp [ready, hthread, ThreadAt.succeeded, List.reduceOption_append, List.reduceOption_singleton]
  | freeEos workFifo hthread hwork =>
    refine h.stay ?_ rfl rfl rfl rfl rfl (by rw [hthread]; rfl)
    simp [ready, hthread, hwork, ThreadAt.succeeded, List.reduceOption_cons_of_none]
  | freeUnit w workFifo hthread hwork =>
    obtain ⟨hnone, hfree⟩ := h.idle (by rw [hthread]; rfl)
    constructor
    case decoded =>
      intro i hi
      rcases h.decoded i hi with hr | hr
      · exact Or.inl (List.mem_cons_of_mem _ hr)
      · rw [ready, hwork, List.reduceOption_cons_of_some, List.cons_append, List.map_cons] at hr
        rcases List.mem_cons.mp hr with rfl | hr
        · exact Or.inl List.mem_cons_self
        · exact Or.inr hr
    case ordered => exact fun _ _ _ => Or.inr (by simp [Feeder.unref, hthread, ThreadAt.eosFreed])
    case sorted => exact h.sorted
    case attached => exact fun a ha => absurd (hnone ▸ ha) List.not_mem_nil
    case freeing =>
      intro f hf
      rw [Option.mem_def] at hf
      exact absurd (hfree.symm.trans hf) (Option.some_ne_none f).symm
    case idle => exact fun _ => ⟨hnone, hfree⟩

/-! ## Steps -/

theorem Inv.init : (init : Feeder β).Inv size where
  places := .init
  counts := .init
  frees := .init
  wakes := .init
  room := nofun
  bounded := Nat.zero_le _

theorem HasRoom.congr (h : s.HasRoom size) (hwork : s'.workFifo = s.workFifo) (hattached : s'.attached = s.attached)
    (hfreeing : s'.freeing = s.freeing) : s'.HasRoom size := by
  rwa [HasRoom, hwork, hattached, hfreeing]

variable [DecidableEq β]

theorem bounded_callbackStep (h : s.workFifo.length ≤ size) (hstep : s.callbackStep = some s') :
    s'.workFifo.length < size ∧ s'.thread = s.thread := by
  unfold Feeder.callbackStep at hstep
  split at hstep
  next => cases hstep
  next =>
    split at hstep
    next => cases hstep
    next hwork =>
      cases hstep
      rw [hwork, List.length_cons] at h
      exact ⟨h, rfl⟩
    next hwork =>
      cases hstep
      rw [hwork, List.length_cons] at h
      exact ⟨h, rfl⟩

theorem Inv.controlStep (h : s.Inv size) (hstep : s.controlStep = some s') : s'.Inv size := by
  have hsame : s'.thread = s.thread ∧ s'.workFifo = s.workFifo ∧ s'.attached = s.attached ∧ s'.freeing = s.freeing := by
    unfold Feeder.controlStep at hstep
    rcases hcontrol : s.control with _ | joins | _ | u | u | _ | _ | _ <;> rw [hcontrol] at hstep <;> simp only at hstep
    case draining => split at hstep <;> cases hstep <;> exact ⟨rfl, rfl, rfl, rfl⟩
    case joining => split_ifs at hstep; cases hstep; exact ⟨rfl, rfl, rfl, rfl⟩
    all_goals cases hstep
    all_goals exact ⟨rfl, rfl, rfl, rfl⟩
  obtain ⟨hthread, hwork, hattached, hfreeing⟩ := hsame
  refine ⟨h.places.controlStep hstep, h.counts.controlStep hstep, h.frees.controlStep h.places hstep,
    h.wakes.controlStep h.counts hstep, ?_, hwork ▸ h.bounded⟩
  intro hqueues
  exact (h.room (hthread ▸ hqueues)).congr hwork hattached hfreeing

theorem Inv.threadStep (h : s.Inv size) (ha : s.Allowed size (.threadStep result))
    (hstep : s.threadStep size result = some s') : s'.Inv size := by
  have hmove := threadMove hstep
  refine ⟨h.places.threadMove hmove, h.counts.threadMove ha hmove, h.frees.threadMove h.places hmove,
    h.wakes.threadStep h.counts hstep, ?_, ?_⟩
  · cases hmove with
    | quiet t event hq =>
      intro hqueues
      rcases hq.queues hqueues with hqueues | ⟨hthread, heos⟩
      · exact h.room hqueues
      · exact (ha.1 hthread heos).2
    | decode u attached hthread hresult =>
      intro _
      cases attached with
      | false => exact ha.2 (by rw [hthread]; rfl) hresult
      | true => exact Or.inr (Or.inl (by simp))
    | freeUnit w workFifo hthread hwork =>
      intro hqueues
      rw [unref, hthread] at hqueues
      cases hqueues
    | _ => exact nofun
  · have hbounded := h.bounded
    cases hmove with
    | queue u hthread hlt =>
      rw [List.length_append, List.length_singleton]
      exact hlt
    | queueEos hthread hlt =>
      rw [List.length_append, List.length_singleton]
      exact hlt
    | freeEos workFifo hthread hwork =>
      rw [hwork, List.length_cons] at hbounded
      exact Nat.le_of_lt hbounded
    | freeUnit w workFifo hthread hwork =>
      rw [hwork, List.length_cons] at hbounded
      exact Nat.le_of_lt hbounded
    | _ => exact hbounded

theorem Inv.step {a : Action β} (h : s.Inv size) (ha : s.Allowed size a) (hstep : s.step size a = some s') :
    s'.Inv size := by
  cases a with
  | pushBuffer buf =>
    simp only [Feeder.step] at hstep
    split_ifs at hstep with hpush
    cases hstep
    refine ⟨h.places.pushBuffer, h.counts.pushBuffer hpush.1 ha, h.frees.stay rfl rfl rfl rfl rfl rfl rfl, ?_, h.room,
      h.bounded⟩
    exact ⟨h.wakes.waiting, fun _ _ _ _ => by simp, h.wakes.behind⟩
  | flush =>
    simp only [Feeder.step] at hstep
    split_ifs at hstep with hcontrol
    cases hstep
    have hkeepGoing := h.counts.keepGoing
    rw [hcontrol] at hkeepGoing
    refine ⟨h.places.stay rfl rfl (by rw [hcontrol]; rfl) rfl h.places.eosLast h.places.left,
      ⟨hkeepGoing, fun _ => rfl, fun hl => ⟨rfl, (h.counts.drained hl).2⟩⟩, h.frees.stay rfl rfl rfl rfl rfl rfl rfl,
      ⟨fun _ _ _ => rfl, fun _ _ _ hs => Bool.noConfusion hs, h.wakes.behind⟩, h.room, h.bounded⟩
  | destroy =>
    simp only [Feeder.step] at hstep
    by_cases hcontrol : s.control = .outside
    case neg =>
      rw [if_neg hcontrol] at hstep
      cases hstep
    rw [if_pos hcontrol] at hstep
    cases hstep
    have hkeepGoing := h.counts.keepGoing
    have hwaiting := h.wakes.waiting
    have hdequeuing := h.wakes.dequeuing
    rw [hcontrol] at hkeepGoing hwaiting hdequeuing
    refine ⟨h.places.stay rfl rfl ?_ rfl h.places.eosLast h.places.left, ⟨?_, ?_, h.counts.drained⟩,
      h.frees.stay rfl rfl rfl rfl rfl rfl rfl, ⟨?_, ?_, h.wakes.behind⟩, h.room, h.bounded⟩
    · cases s.eos <;> rw [hcontrol] <;> rfl
    · cases s.eos <;> exact hkeepGoing
    · cases s.eos <;> simp [ControlAt.drains]
    · intro heos hthread hevent
      exact absurd (hwaiting heos hthread hevent) Bool.noConfusion
    · intro heos hthread hevent _
      exact hdequeuing heos hthread hevent rfl
  | signal =>
    cases hstep
    exact ⟨h.places.stay rfl rfl rfl rfl h.places.eosLast h.places.left, ⟨h.counts.keepGoing, h.counts.calm,
      h.counts.drained⟩, h.frees.stay rfl rfl rfl rfl rfl rfl rfl, ⟨nofun, nofun, fun _ _ => rfl⟩, h.room, h.bounded⟩
  | freeBuf =>
    simp only [Feeder.step] at hstep
    split at hstep
    next hattached =>
      cases hstep
      exact ⟨h.places.stay rfl rfl rfl rfl h.places.eosLast h.places.left, ⟨h.counts.keepGoing, h.counts.calm,
        h.counts.drained⟩, h.frees.freeBuf hattached, ⟨h.wakes.waiting, h.wakes.dequeuing, h.wakes.behind⟩,
        fun _ => Or.inr (Or.inr (Option.some_ne_none _)), h.bounded⟩
    next => cases hstep
  | pushStep =>
    have hcounts := h.counts.pushStep hstep
    have hwakes := h.wakes.pushStep hstep
    simp only [Feeder.step, Feeder.pushStep] at hstep
    split at hstep
    · cases hstep
    all_goals
      cases hstep
      exact ⟨h.places.stay rfl rfl rfl rfl h.places.eosLast h.places.left, hcounts,
        h.frees.stay rfl rfl rfl rfl rfl rfl rfl, hwakes, h.room, h.bounded⟩
  | controlStep => exact h.controlStep hstep
  | callbackStep =>
    obtain ⟨hfrees, hplaces⟩ := h.frees.callbackStep h.places hstep
    obtain ⟨hlt, -⟩ := bounded_callbackStep h.bounded hstep
    exact ⟨hplaces, h.counts.callbackStep hstep, hfrees, h.wakes.callbackStep hstep, fun _ => Or.inl hlt, hlt.le⟩
  | threadStep result => exact h.threadStep ha hstep

/-! ## The end of the stream -/

omit [DecidableEq β] in
theorem Inv.workFifo_ne_nil (h : s.Inv size) (hfreeing : s.freeing = some u)
    (hsucceeded : s.thread.succeeded = []) : s.workFifo ≠ [] := by
  intro hnil
  have hready := (h.frees.freeing u hfreeing).1
  rw [ready, hnil, hsucceeded] at hready
  exact List.not_mem_nil hready

/-- Behind the end of the stream some thread can go on until the feeder's thread has left. -/
theorem Inv.moves (h : s.Inv size) (hsize : 0 < size) (heos : s.eos = true) (hleft : s.thread ≠ .left) :
    s.Moves size := by
  have hthreadStep : ∀ result, (s.threadStep size result).isSome → s.Moves size :=
    fun result hsome => ⟨.threadStep result, rfl, hsome⟩
  -- a free that has not begun can begin, and one that waits for nothing goes on
  have hfree : (s.attached ≠ [] ∨ s.freeing ≠ none) → (s.freeing ≠ none → s.workFifo ≠ []) → s.Moves size := by
    intro hpending hwork
    rcases hfreeing : s.freeing with _ | u
    · obtain ⟨u, attached, hattached⟩ := List.exists_cons_of_ne_nil (hpending.resolve_right (not_not_intro hfreeing))
      exact ⟨.freeBuf, rfl, by simp [Feeder.step, hfreeing, hattached]⟩
    · obtain ⟨w, workFifo, hcons⟩ := List.exists_cons_of_ne_nil (hwork (by simp [hfreeing]))
      refine ⟨.callbackStep, rfl, ?_⟩
      cases w <;> simp [Feeder.step, Feeder.callbackStep, hfreeing, hcons]
  have hfull : s.thread.queues = true → ¬s.workFifo.length < size → s.Moves size := by
    intro hqueues hno
    refine hfree ((h.room hqueues).resolve_left hno) ?_
    intro _ hnil
    rw [hnil] at hno
    exact hno hsize
  rcases hthread : s.thread with _ | _ | _ | _ | u | u | ⟨u, success⟩ | u | u | _ | _ | _ | _ | _
  case waiting =>
    rcases hevent : s.event with _ | _
    · have hsignals := h.wakes.waiting heos hthread hevent
      refine ⟨.controlStep, rfl, ?_⟩
      cases hcontrol : s.control <;> rw [hcontrol] at hsignals <;> try cases hsignals
      simp [Feeder.step, Feeder.controlStep, hcontrol]
    · exact hthreadStep .failure (by simp [Feeder.threadStep, hthread, hevent])
  case dequeuing =>
    refine hthreadStep .failure ?_
    cases hinput : s.inputFifo <;> simp [Feeder.threadStep, hthread, hinput]
  case queueing =>
    by_cases hlt : s.workFifo.length < size
    · exact hthreadStep .failure (by simp [Feeder.threadStep, hthread, hlt])
    · exact hfull (by rw [hthread]; rfl) hlt
  case queueingEos =>
    by_cases hlt : s.workFifo.length < size
    · exact hthreadStep .failure (by simp [Feeder.threadStep, hthread, hlt])
    · exact hfull (by rw [hthread]; rfl) hlt
  case flushing =>
    by_cases hidle : s.attached = [] ∧ s.freeing = none
    · exact hthreadStep .failure (by simp [Feeder.threadStep, hthread, hidle])
    · refine hfree (by rwa [not_and_or] at hidle) ?_
      intro hfreeing
      obtain ⟨u, hu⟩ := Option.ne_none_iff_exists'.mp hfreeing
      exact h.workFifo_ne_nil hu (by rw [hthread]; rfl)
  case freeingEos =>
    obtain ⟨us, hus⟩ := h.places.eosLast
    refine hthreadStep .failure ?_
    cases us <;> simp [Feeder.threadStep, hthread, hus, ThreadAt.eosQueued]
  case left => exact absurd hthread hleft
  all_goals exact hthreadStep .failure (by simp [Feeder.threadStep, hthread])

/-- How far the thread is from its end; `empty` tells whether the input queue is. -/
def rankThread (empty : Bool) : ThreadAt β → ℕ
  | .left => 0
  | .freeingEos => 1
  | .flushing => 2
  | .decodingEos => 3
  | .queueingEos => 5
  | .readingEos => 6
  | .readingKeepGoing | .waiting => 7
  | .dequeuing => if empty then 8 else 6
  | .unreferencing _ => 8
  | .queueing _ => 9
  | .signalling _ _ => 11
  | .decoding _ => 13
  | .counting _ => 14

def rankPush : PushAt → ℕ
  | .outside => 0
  | .signalling => 2
  | .counting => 3

def rankControl : ControlAt β → ℕ
  | .signalling _ => 3
  | .joining => 1
  | _ => 0

/-- How many steps the threads can take by themselves behind the end of the stream. -/
def rank (s : Feeder β) : ℕ :=
  9 * s.inputFifo.length + rankThread s.inputFifo.isEmpty s.thread + s.event.toNat + s.workFifo.length +
    s.attached.length + rankPush s.push + rankControl s.control

omit [DecidableEq β] in
theorem rank_pushStep (hstep : s.pushStep = some s') : s'.rank < s.rank ∧ s'.eos = s.eos := by
  unfold Feeder.pushStep at hstep
  split at hstep
  · cases hstep
  all_goals
    rename_i hpush
    cases hstep
    refine ⟨?_, rfl⟩
    have hevent := Bool.toNat_le s.event
    simp only [rank, hpush, rankPush, Bool.toNat_true]
    omega

theorem rank_controlStep (h : s.Counts) (heos : s.eos = true) (hstep : s.controlStep = some s') :
    s'.rank < s.rank ∧ s'.eos = true := by
  have hcalm := h.calm heos
  have hevent := Bool.toNat_le s.event
  unfold Feeder.controlStep at hstep
  rcases hcontrol : s.control with _ | joins | _ | u | u | _ | _ | _ <;> rw [hcontrol] at hstep hcalm <;>
    simp only [ControlAt.drains, Bool.true_eq_false] at hstep hcalm
  case outside => cases hstep
  case signalling =>
    cases hstep
    refine ⟨?_, heos⟩
    cases joins <;> simp [rank, hcontrol, rankControl] <;> omega
  case joining =>
    split_ifs at hstep
    cases hstep
    refine ⟨?_, heos⟩
    simp only [rank, hcontrol, rankControl]
    omega
  case destroyed => cases hstep

theorem rank_callbackStep (hstep : s.callbackStep = some s') : s'.rank < s.rank ∧ s'.eos = s.eos := by
  unfold Feeder.callbackStep at hstep
  split at hstep
  · cases hstep
  split at hstep
  · cases hstep
  all_goals
    rename_i hwork
    cases hstep
    refine ⟨?_, rfl⟩
    simp only [rank, unref, hwork, List.length_cons]
    omega

omit [DecidableEq β] in
theorem rank_threadStep (h : s.Counts) (heos : s.eos = true)
    (hstep : s.threadStep size result = some s') : s'.rank < s.rank ∧ s'.eos = true := by
  have hevent := Bool.toNat_le s.event
  unfold Feeder.threadStep at hstep
  rcases hthread : s.thread with _ | _ | _ | _ | u | u | ⟨u, success⟩ | u | u | _ | _ | _ | _ | _ <;>
    rw [hthread] at hstep <;> simp only at hstep
  case readingKeepGoing =>
    cases hstep
    refine ⟨?_, heos⟩
    split_ifs with hpos
    · have hinput := h.input_ne_nil heos (by rw [hthread]; rfl) hpos
      have hempty : s.inputFifo.isEmpty = false := by simpa using hinput
      simp [rank, hthread, rankThread, hempty]
    · simp [rank, hthread, rankThread]
  case dequeuing =>
    split at hstep
    next hinput =>
      cases hstep
      exact ⟨by simp [rank, hthread, rankThread, hinput], heos⟩
    next u inputFifo hinput =>
      cases hstep
      refine ⟨?_, heos⟩
      simp only [rank, hthread, rankThread, hinput, List.length_cons, List.isEmpty_cons, Bool.false_eq_true, if_false]
      omega
  case decoding =>
    rcases result with _ | _ | _ <;> cases hstep <;> refine ⟨?_, heos⟩ <;> simp [rank, hthread, rankThread] <;> omega
  case signalling =>
    cases hstep
    refine ⟨?_, heos⟩
    cases success <;> simp [rank, hthread, rankThread] <;> omega
  case freeingEos =>
    split at hstep
    · cases hstep
    all_goals
      rename_i hwork
      cases hstep
      refine ⟨?_, heos⟩
      simp only [rank, unref, hthread, rankThread, hwork, List.length_cons]
      omega
  case unreferencing => cases hstep; exact ⟨by simp [rank, unref, hthread, rankThread], heos⟩
  case readingEos => cases hstep; exact ⟨by simp [rank, hthread, rankThread, heos], heos⟩
  case counting => cases hstep; exact ⟨by simp [rank, hthread, rankThread], heos⟩
  case decodingEos => cases hstep; exact ⟨by simp [rank, hthread, rankThread], heos⟩
  case left => cases hstep
  -- what is left waits for the event, for room or for the frees
  all_goals
    split_ifs at hstep with hgo
    cases hstep
    refine ⟨?_, heos⟩
    simp_all [rank, rankThread]
  all_goals omega

/-- Behind the end of the stream every step that a thread takes by itself counts down. -/
theorem Inv.rank_step {a : Action β} (h : s.Inv size) (heos : s.eos = true) (ha : a.internal)
    (hstep : s.step size a = some s') : s'.rank < s.rank ∧ s'.eos = true := by
  cases a with
  | freeBuf =>
    simp only [Feeder.step] at hstep
    split at hstep
    next hattached =>
      cases hstep
      refine ⟨?_, heos⟩
      simp only [rank, hattached, List.length_cons]
      omega
    next => cases hstep
  | pushStep => exact (rank_pushStep hstep).imp_right fun h => h.trans heos
  | controlStep => exact rank_controlStep h.counts heos hstep
  | callbackStep => exact (rank_callbackStep hstep).imp_right fun h => h.trans heos
  | threadStep result => exact rank_threadStep h.counts heos hstep
  | pushBuffer buf => cases ha
  | flush => cases ha
  | destroy => cases ha
  | signal => cases ha

theorem Inv.length_le_rank {as : List (Action β)} (h : s.Inv size) (heos : s.eos = true)
    (has : ∀ a ∈ as, a.internal) (hg : GuardedRuns.Guarded (Feeder.step size) (Allowed size) as s)
    (hr : GuardedRuns.run (Feeder.step size) as s = some s') : as.length ≤ s.rank := by
  induction as generalizing s with
  | nil => exact Nat.zero_le _
  | cons a as ih =>
    obtain ⟨t, ht, hr⟩ := Option.bind_eq_some_iff.mp hr
    obtain ⟨hlt, heos'⟩ := h.rank_step heos (has a List.mem_cons_self) ht
    have hle := ih (h.step hg.1 ht) heos' (fun b hb => has b (List.mem_cons_of_mem _ hb)) (hg.2 t ht) hr
    rw [List.length_cons]
    omega

/-! ## What the feeder promises -/

omit [DecidableEq β] in
theorem Inv.once (h : s.Inv size) : s.released.Nodup := by
  rw [List.nodup_iff_count_le_one]
  intro i
  have hconserved := h.places.conserved i
  split_ifs at hconserved <;> omega

omit [DecidableEq β] in
theorem Inv.complete (h : s.Inv size) (hleft : s.thread = .left) :
    s.workFifo = [] ∧ s.released.Perm (List.range s.pushed) := by
  have hwork := h.places.left hleft
  obtain ⟨heos, hinput⟩ := h.counts.drained (by rw [hleft]; rfl)
  have hcalm := h.counts.calm heos
  have hheld : s.control.held = [] := by
    cases hcontrol : s.control <;> rw [hcontrol] at hcalm <;> first | rfl | cases hcalm
  have hunits : s.units = [] := by
    rw [units, hwork, hinput, hleft]
    rfl
  refine ⟨hwork, List.perm_iff_count.mpr ?_⟩
  intro i
  have hconserved := h.places.conserved i
  rw [hunits, hheld] at hconserved
  rw [List.count_range]
  simpa using hconserved

theorem Inv.sound (h : s.Inv size) (hsize : 0 < size) : s.Sound size where
  once := h.once
  ordered := h.frees.ordered
  complete := h.complete
  moves := h.moves hsize
  ends heos := ⟨s.rank, fun _ _ has hg hr => h.length_le_rank heos has hg hr⟩

/-- In every run that keeps the rules the feeder keeps its promises. -/
theorem run_sound {as : List (Action β)} (hsize : 0 < size)
    (hg : GuardedRuns.Guarded (step size) (Allowed size) as init)
    (hr : GuardedRuns.run (step size) as init = some s) : s.Sound size :=
  (GuardedRuns.invariant_of_run (fun _ _ _ hs ha hstep => hs.step ha hstep) Inv.init hg hr).sound hsize

/-- A buffer is pushed, decoded and freed, and the stream ends. -/
def oneBuffer : List (Action ℕ) :=
  [.pushBuffer 7, .pushStep, .pushStep] ++ List.replicate 4 (.threadStep .failure) ++
    [.threadStep (.success true), .threadStep .failure, .freeBuf, .threadStep .failure, .callbackStep, .flush,
      .controlStep] ++ List.replicate 7 (.threadStep .failure)

theorem run_sound_oneBuffer : ∃ s, GuardedRuns.run (step 2) oneBuffer init = some s ∧ s.Sound 2 := by
  have hsome : (GuardedRuns.run (step 2) oneBuffer init).isSome := by decide
  obtain ⟨s, hs⟩ := Option.isSome_iff_exists.mp hsome
  exact ⟨s, hs, run_sound (by decide) (by decide) hs⟩

/-- The thread reads the counter, then a buffer is pushed and the end of the stream signalled,
and then the thread reads that. -/
def lateBuffer : List (Action ℕ) :=
  [.signal, .threadStep .failure, .threadStep .failure, .pushBuffer 7, .pushStep, .pushStep, .flush, .controlStep] ++
    List.replicate 5 (.threadStep .failure)

theorem lateBuffer_not_sound :
    ∃ s, GuardedRuns.run (step 2) lateBuffer init = some s ∧ s.push = .outside ∧ ¬s.Sound 2 := by
  have hsome : (GuardedRuns.run (step 2) lateBuffer init).isSome := by decide
  obtain ⟨s, hs⟩ := Option.isSome_iff_exists.mp hsome
  have hend : ∀ t ∈ GuardedRuns.run (step 2) lateBuffer init,
      t.thread = .left ∧ t.released = [] ∧ t.pushed = 1 ∧ t.push = .outside := by
    decide
  obtain ⟨hleft, hreleased, hpushed, hpush⟩ := hend s hs
  refine ⟨s, hs, hpush, ?_⟩
  intro hsound
  have hlength := (hsound.complete hleft).2.length_eq
  rw [hreleased, hpushed, List.length_range] at hlength
  cases hlength

end Feeder

end SplitFeeder

end VcuCodec
