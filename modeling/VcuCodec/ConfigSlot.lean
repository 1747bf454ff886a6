import Mathlib.Data.List.Count
import VcuCodec.GuardedRuns

/-!
# The configuration slot of the encoder module

With separate configuration data, `Fill` keeps one output buffer back in `configHandle` and
posts a permit; the end of encoding of a frame with configuration sections takes the permit
and the buffer.  Three threads work on the slot: the one that fills, the one that runs the
encoder's callbacks and the one that starts and stops the module, which does not take the mutex.
-/

namespace VcuCodec

namespace ConfigSlot

/-- Where the filling thread stands in `EncModule::Fill`. -/
inductive FillAt (β : Type) where
  | outside
  | locking (output : β)
  | testing (output : β)
  | notifying
  | unlocking
  | putting (output : β)
  deriving DecidableEq

/-- Where the callback thread stands in `EncModule::EndEncoding`. -/
inductive EndEncodingAt (β : Type) where
  | outside
  | locking (stream : β)
  | waiting (stream : β)
  | reading (stream : β)
  | clearing (config : Option β) (stream : β)
  | unlocking (config : Option β) (stream : β)
  | filling (config : Option β) (stream : β)
  | ending (stream : β)
  deriving DecidableEq

/-- Where the stopping thread stands in `EncModule::DestroyEncoder`. -/
inductive DestroyAt where
  | outside
  | testing
  | releasing
  | clearing
  | resetting
  | destroying
  deriving DecidableEq

namespace FillAt

variable {β : Type}

def holdsMutex : FillAt β → Bool
  | testing _ | notifying | unlocking => true
  | _ => false

/-- The slot is filled and its permit not yet posted. -/
def owed : FillAt β → ℕ
  | notifying => 1
  | _ => 0

end FillAt

namespace EndEncodingAt

variable {β : Type}

def holdsMutex : EndEncodingAt β → Bool
  | waiting _ | reading _ | clearing _ _ | unlocking _ _ => true
  | _ => false

/-- The callback is about to take the mutex for a frame with configuration. -/
def locks : EndEncodingAt β → Bool
  | locking _ => true
  | _ => false

/-- The callback has the mutex and the slot is still to be emptied. -/
def takes : EndEncodingAt β → Bool
  | waiting _ | reading _ | clearing _ _ => true
  | _ => false

/-- The permit is taken and the slot not yet emptied. -/
def taken : EndEncodingAt β → ℕ
  | reading _ | clearing _ _ => 1
  | _ => 0

/-- The buffer that the callback took out of the slot. -/
def config : EndEncodingAt β → List β
  | unlocking config _ | filling config _ => config.toList
  | _ => []

end EndEncodingAt

namespace DestroyAt

/-- The slot was seen filled and is still to be emptied. -/
def releases : DestroyAt → Bool
  | releasing | clearing => true
  | _ => false

/-- The slot is emptied and the semaphore not yet reset. -/
def stale : DestroyAt → ℕ
  | resetting => 1
  | _ => 0

end DestroyAt

variable (β : Type) in
/-- The module as its three threads share it.  `used` and `returned` are the buffers that went
into the slot and those of them that went back to the client, `filled` the streams that did. -/
structure EncModule where
  started : Bool
  configHandle : Option β
  sem : ℕ
  streams : List β
  used : List β
  returned : List β
  filled : List β
  fill : FillAt β
  callback : EndEncodingAt β
  destroy : DestroyAt
  deriving DecidableEq

variable (β : Type) in
/-- A call comes in, or a thread goes on with the one it is in. -/
inductive Action where
  | start
  | stop
  | fill (output : β)
  | endEncoding (stream : β) (isConfig : Bool)
  | fillStep
  | callbackStep
  | destroyStep

namespace EncModule

variable {β : Type}

def init : EncModule β where
  started := false
  configHandle := none
  sem := 0
  streams := []
  used := []
  returned := []
  filled := []
  fill := .outside
  callback := .outside
  destroy := .outside

/-- The next step of `Fill`. -/
def fillStep (s : EncModule β) : Option (EncModule β) :=
  match s.fill with
  | .outside => none
  | .locking output =>
    if s.callback.holdsMutex then none else some { s with fill := .testing output }
  | .testing output =>
    match s.configHandle with
    | none => some { s with
        configHandle := some output, used := output :: s.used, fill := .notifying }
    | some _ => some { s with fill := .putting output }
  | .notifying => some { s with sem := s.sem + 1, fill := .unlocking }
  | .unlocking => some { s with fill := .outside }
  -- `AL_Encoder_PutStreamBuffer`
  | .putting output => some { s with streams := output :: s.streams, fill := .outside }

/-- The next step of `EndEncoding`. -/
def callbackStep (s : EncModule β) : Option (EncModule β) :=
  match s.callback with
  | .outside => none
  | .locking stream =>
    if s.fill.holdsMutex then none else some { s with callback := .waiting stream }
  | .waiting stream =>
    if s.sem = 0 then none
    else some { s with sem := s.sem - 1, callback := .reading stream }
  | .reading stream => some { s with callback := .clearing s.configHandle stream }
  | .clearing config stream => some { s with
      configHandle := none, callback := .unlocking config stream }
  | .unlocking config stream => some { s with callback := .filling config stream }
  | .filling config stream =>
    match config with
    -- the handle of no buffer is not there to be filled
    | none => none
    | some config => some { s with
        returned := config :: s.returned, callback := .ending stream }
  | .ending stream => some { s with filled := stream :: s.filled, callback := .outside }

/-- The next step of `DestroyEncoder`. -/
def destroyStep (s : EncModule β) : Option (EncModule β) :=
  match s.destroy with
  | .outside => none
  | .testing => some { s with
      destroy := if s.configHandle.isSome then .releasing else .destroying }
  | .releasing =>
    match s.configHandle with
    | none => none
    | some config => some { s with returned := config :: s.returned, destroy := .clearing }
  | .clearing => some { s with configHandle := none, destroy := .resetting }
  | .resetting => some { s with sem := 0, destroy := .destroying }
  | .destroying => some { s with started := false, streams := [], destroy := .outside }

variable [DecidableEq β]

/-- One action; `none` where the thread is not there, has to wait or fails. -/
def step (s : EncModule β) : Action β → Option (EncModule β)
  | .start => if s.destroy = .outside then some { s with started := true } else none
  | .stop =>
    if s.destroy = .outside then
      some (if s.started then { s with destroy := .testing } else s)
    else none
  | .fill output =>
    if s.fill = .outside then
      some (if s.started then { s with fill := .locking output } else s)
    else none
  | .endEncoding stream isConfig =>
    if s.callback = .outside ∧ stream ∈ s.streams then
      some { s with
        streams := s.streams.erase stream
        callback := if isConfig then .locking stream else .ending stream }
    else none
  | .fillStep => s.fillStep
  | .callbackStep => s.callbackStep
  | .destroyStep => s.destroyStep

/-- The buffers used for configuration that are still with the module. -/
def held (s : EncModule β) : List β :=
  (if s.destroy = .clearing then [] else s.configHandle.toList) ++ s.callback.config

/-- No thread is between a change of the slot and the change of its permit. -/
def Settled (s : EncModule β) : Prop :=
  s.fill.owed = 0 ∧ s.callback.taken = 0 ∧ s.destroy.stale = 0

/-- What the separate configuration buffers promise. -/
structure Safe (s : EncModule β) : Prop where
  noWait : ∀ stream, s.callback = .waiting stream → 0 < s.sem
  permits : s.sem + s.fill.owed + s.callback.taken =
    s.configHandle.toList.length + s.destroy.stale
  agree : s.Settled → (s.configHandle.isSome ↔ s.sem = 1) ∧ (s.configHandle = none ↔ s.sem = 0)
  returned : ∀ b, s.used.count b = s.returned.count b + s.held.count b

/-- The callback takes the mutex for a frame with configuration only while a buffer is in the
slot that nobody is releasing, a filled slot is found by `DestroyEncoder` only while the
callback is not at it, and the semaphore is reset at one permit. -/
def Orderly (s : EncModule β) : Action β → Prop
  | .callbackStep => s.callback.locks → s.configHandle.isSome ∧ ¬s.destroy.releases
  | .destroyStep =>
    (s.destroy = .testing → s.configHandle.isSome → ¬s.callback.takes) ∧
      (s.destroy = .resetting → s.sem = 1)
  | _ => True

instance (s : EncModule β) (a : Action β) : Decidable (s.Orderly a) := by
  cases a <;> unfold Orderly <;> infer_instance

/-- The slot, the semaphore and the threads at them fit together. -/
structure Inv (s : EncModule β) : Prop where
  exclusive : s.fill.holdsMutex → ¬s.callback.holdsMutex
  permits : s.sem + s.fill.owed + s.callback.taken =
    s.configHandle.toList.length + s.destroy.stale
  occupied : s.callback.takes ∨ s.destroy.releases → s.configHandle.isSome
  apart : s.callback.takes → ¬s.destroy.releases
  config : ∀ config stream, s.callback = .clearing config stream → config = s.configHandle
  returned : ∀ b, s.used.count b = s.returned.count b + s.held.count b

variable {s s' : EncModule β}

theorem Inv.init : (EncModule.init : EncModule β).Inv := by
  constructor <;> simp [EncModule.init, FillAt.holdsMutex, FillAt.owed, EndEncodingAt.taken,
    EndEncodingAt.takes, DestroyAt.stale, DestroyAt.releases, held, EndEncodingAt.config]

theorem Inv.empty (hs : s.Inv) (hslot : s.configHandle = none) :
    ¬s.callback.takes ∧ ¬s.destroy.releases := by
  constructor <;> intro h
  · simpa [hslot] using hs.occupied (Or.inl h)
  · simpa [hslot] using hs.occupied (Or.inr h)

omit [DecidableEq β] in
theorem not_clearing (h : ¬s.destroy.releases) : s.destroy ≠ .clearing :=
  fun heq => h (by rw [heq]; rfl)

theorem Inv.fillStep (hs : s.Inv) (h : s.fillStep = some s') : s'.Inv := by
  have permits := hs.permits
  unfold EncModule.fillStep at h
  split at h
  case h_1 => cases h
  case h_2 output heq =>
    split_ifs at h with hm
    cases h
    rw [heq] at permits
    exact ⟨fun _ => hm, permits, hs.occupied, hs.apart, hs.config, hs.returned⟩
  case h_3 output heq =>
    have hfree : ¬s.callback.holdsMutex := hs.exclusive (by rw [heq]; rfl)
    rw [heq] at permits
    split at h
    next hslot =>
      cases h
      obtain ⟨htakes, hreleases⟩ := hs.empty hslot
      refine ⟨fun _ => hfree, ?_, fun _ => rfl, fun hc => absurd hc htakes, ?_, ?_⟩
      · rw [hslot] at permits
        simp only [FillAt.owed, Option.toList, List.length_cons, List.length_nil] at permits ⊢
        omega
      · intro c stream hc
        exact absurd (by rw [hc]; rfl) htakes
      · intro b
        have hreturned := hs.returned b
        simp only [held, hslot, not_clearing hreleases, if_false, Option.toList, List.nil_append,
          List.cons_append, List.count_cons] at hreturned ⊢
        omega
    next c hslot =>
      cases h
      exact ⟨fun h => Bool.noConfusion h, permits, hs.occupied, hs.apart, hs.config, hs.returned⟩
  case h_4 heq =>
    have hfree : ¬s.callback.holdsMutex := hs.exclusive (by rw [heq]; rfl)
    cases h
    rw [heq] at permits
    refine ⟨fun _ => hfree, ?_, hs.occupied, hs.apart, hs.config, hs.returned⟩
    simp only [FillAt.owed] at permits ⊢
    omega
  case h_5 heq =>
    cases h
    rw [heq] at permits
    exact ⟨fun h => Bool.noConfusion h, permits, hs.occupied, hs.apart, hs.config, hs.returned⟩
  case h_6 output heq =>
    cases h
    rw [heq] at permits
    exact ⟨fun h => Bool.noConfusion h, permits, hs.occupied, hs.apart, hs.config, hs.returned⟩

theorem Inv.callbackStep (hs : s.Inv) (ho : s.Orderly .callbackStep)
    (h : s.callbackStep = some s') : s'.Inv := by
  have permits := hs.permits
  have occupied := hs.occupied
  have returned := hs.returned
  unfold EncModule.callbackStep at h
  split at h
  case h_1 => cases h
  case h_2 stream heq =>
    -- the only step here that the order of the run has to allow
    obtain ⟨hslot, hreleases⟩ := ho (by rw [heq]; rfl)
    split_ifs at h with hm
    cases h
    simp only [held, heq] at permits returned
    exact ⟨fun hf => absurd hf hm, permits, fun _ => hslot, fun _ => hreleases,
      nofun, returned⟩
  case h_3 stream heq =>
    have htakes : s.callback.takes := by rw [heq]; rfl
    have hmutex : ¬s.fill.holdsMutex := fun hf => hs.exclusive hf (by rw [heq]; rfl)
    split_ifs at h with hm
    cases h
    simp only [held, heq] at permits returned
    refine ⟨fun hf => absurd hf hmutex, ?_, fun _ => occupied (Or.inl htakes),
      fun _ => hs.apart htakes, nofun, returned⟩
    simp only [EndEncodingAt.taken] at permits ⊢
    omega
  case h_4 stream heq =>
    have htakes : s.callback.takes := by rw [heq]; rfl
    have hmutex : ¬s.fill.holdsMutex := fun hf => hs.exclusive hf (by rw [heq]; rfl)
    cases h
    simp only [held, heq] at permits returned
    refine ⟨fun hf => absurd hf hmutex, permits, fun _ => occupied (Or.inl htakes),
      fun _ => hs.apart htakes, ?_, returned⟩
    intro c stream hc
    cases hc
    rfl
  case h_5 c stream heq =>
    have htakes : s.callback.takes := by rw [heq]; rfl
    have hmutex : ¬s.fill.holdsMutex := fun hf => hs.exclusive hf (by rw [heq]; rfl)
    have hreleases := hs.apart htakes
    obtain rfl := hs.config c stream heq
    obtain ⟨config, hslot⟩ := Option.isSome_iff_exists.mp (occupied (Or.inl htakes))
    cases h
    refine ⟨fun hf => absurd hf hmutex, ?_, ?_, fun hc => Bool.noConfusion hc,
      nofun, ?_⟩
    · simp only [heq, hslot, EndEncodingAt.taken, Option.toList, List.length_cons,
        List.length_nil] at permits ⊢
      omega
    · rintro (hc | hc)
      · exact Bool.noConfusion hc
      · exact absurd hc hreleases
    · intro b
      have hreturned := returned b
      simp only [held, heq, hslot, not_clearing hreleases, if_false, EndEncodingAt.config,
        Option.toList, List.nil_append, List.append_nil] at hreturned ⊢
      exact hreturned
  case h_6 c stream heq =>
    cases h
    simp only [held, heq] at permits returned occupied
    exact ⟨fun _ hc => Bool.noConfusion hc, permits, occupied, fun hc => Bool.noConfusion hc,
      nofun, returned⟩
  case h_7 c stream heq =>
    split at h
    case h_1 => cases h
    case h_2 _ config =>
      cases h
      simp only [heq] at permits occupied
      refine ⟨fun _ hc => Bool.noConfusion hc, permits, occupied, fun hc => Bool.noConfusion hc,
        nofun, ?_⟩
      intro b
      have hreturned := returned b
      simp only [held, heq, EndEncodingAt.config, Option.toList, List.count_append,
        List.count_cons, List.count_nil] at hreturned ⊢
      omega
  case h_8 stream heq =>
    cases h
    simp only [held, heq] at permits returned occupied
    exact ⟨fun _ hc => Bool.noConfusion hc, permits, occupied, fun hc => Bool.noConfusion hc,
      nofun, returned⟩

theorem Inv.destroyStep (hs : s.Inv) (ho : s.Orderly .destroyStep)
    (h : s.destroyStep = some s') : s'.Inv := by
  have permits := hs.permits
  have occupied := hs.occupied
  have apart := hs.apart
  have returned := hs.returned
  unfold EncModule.destroyStep at h
  split at h
  case h_1 => cases h
  case h_2 heq =>
    have hfound := ho.1 heq
    cases h
    simp only [held, heq] at permits returned occupied apart
    by_cases hslot : s.configHandle.isSome
    · simp only [if_pos hslot]
      exact ⟨hs.exclusive, permits, fun _ => hslot, fun hc => absurd hc (hfound hslot), hs.config,
        returned⟩
    · simp only [if_neg hslot]
      exact ⟨hs.exclusive, permits, occupied, apart, hs.config, returned⟩
  case h_3 heq =>
    split at h
    next => cases h
    next config hslot =>
      have htakes : ¬s.callback.takes := fun hc => apart hc (by rw [heq]; rfl)
      cases h
      simp only [heq] at permits
      refine ⟨hs.exclusive, permits, fun _ => by rw [hslot]; rfl, fun hc => absurd hc htakes,
        hs.config, ?_⟩
      intro b
      have hreturned := returned b
      simp only [held, heq, hslot, Option.toList, reduceCtorEq, if_false, if_true,
        List.nil_append, List.cons_append, List.count_cons] at hreturned ⊢
      omega
  case h_4 heq =>
    have htakes : ¬s.callback.takes := fun hc => apart hc (by rw [heq]; rfl)
    obtain ⟨config, hslot⟩ := Option.isSome_iff_exists.mp (occupied (Or.inr (by rw [heq]; rfl)))
    cases h
    refine ⟨hs.exclusive, ?_, ?_, fun hc => absurd hc htakes, ?_, ?_⟩
    · simpa [heq, hslot, DestroyAt.stale] using permits
    · rintro (hc | hc)
      · exact absurd hc htakes
      · exact Bool.noConfusion hc
    · intro c stream hc
      exact absurd (by rw [hc]; rfl) htakes
    · simpa [held, heq] using returned
  case h_5 heq =>
    have hone : s.sem = 1 := ho.2 heq
    cases h
    simp only [held, heq] at returned occupied apart
    refine ⟨hs.exclusive, ?_, occupied, apart, hs.config, returned⟩
    simp only [heq, hone, DestroyAt.stale] at permits ⊢
    omega
  case h_6 heq =>
    cases h
    simp only [held, heq] at permits returned occupied apart
    exact ⟨hs.exclusive, permits, occupied, apart, hs.config, returned⟩

theorem Inv.step {a : Action β} (hs : s.Inv) (ho : s.Orderly a) (h : s.step a = some s') :
    s'.Inv := by
  cases a with
  | start =>
    simp only [EncModule.step] at h
    split_ifs at h
    cases h
    exact ⟨hs.exclusive, hs.permits, hs.occupied, hs.apart, hs.config, hs.returned⟩
  | stop =>
    simp only [EncModule.step] at h
    split_ifs at h with hout hstarted
    · cases h
      have occupied := hs.occupied
      have apart := hs.apart
      have permits := hs.permits
      have returned := hs.returned
      simp only [held, hout] at occupied apart permits returned
      exact ⟨hs.exclusive, permits, occupied, apart, hs.config, returned⟩
    · cases h
      exact hs
  | fill output =>
    simp only [EncModule.step] at h
    split_ifs at h with hout hstarted
    · cases h
      have permits := hs.permits
      rw [hout] at permits
      exact ⟨fun hc => Bool.noConfusion hc, permits, hs.occupied, hs.apart, hs.config, hs.returned⟩
    · cases h
      exact hs
  | endEncoding stream isConfig =>
    simp only [EncModule.step] at h
    split_ifs at h with hout hconfig
    all_goals
      cases h
      have occupied := hs.occupied
      have permits := hs.permits
      have returned := hs.returned
      simp only [held, hout.1] at occupied permits returned
      exact ⟨fun _ hc => Bool.noConfusion hc, permits, occupied, fun hc => Bool.noConfusion hc,
        nofun, returned⟩
  | fillStep => exact hs.fillStep h
  | callbackStep => exact hs.callbackStep ho h
  | destroyStep => exact hs.destroyStep ho h

theorem Inv.safe (hs : s.Inv) : s.Safe where
  noWait := by
    intro stream hwait
    have htakes : s.callback.takes := by rw [hwait]; rfl
    have howed : s.fill.owed = 0 := by
      cases hfill : s.fill with
      | notifying => exact absurd (by rw [hwait]; rfl) (hs.exclusive (by rw [hfill]; rfl))
      | _ => rfl
    obtain ⟨config, hslot⟩ := Option.isSome_iff_exists.mp (hs.occupied (Or.inl htakes))
    have permits := hs.permits
    simp only [hwait, howed, hslot, EndEncodingAt.taken, Option.toList, List.length_cons,
      List.length_nil] at permits
    omega
  permits := hs.permits
  agree := by
    intro ⟨howed, htaken, hstale⟩
    have permits := hs.permits
    rw [howed, htaken, hstale] at permits
    cases hslot : s.configHandle <;> simp [hslot] at permits ⊢ <;> omega
  returned := hs.returned

/-- In every order of the three threads' steps in which the slot is filled when a callback with
configuration takes the mutex, and is not released under its hands, nobody waits with the
mutex, the slot and the semaphore agree and every configuration buffer goes back once. -/
theorem safe_of_orderly {acts : List (Action β)}
    (hg : GuardedRuns.Guarded step Orderly acts EncModule.init)
    (hr : GuardedRuns.run step acts EncModule.init = some s) : s.Safe :=
  (GuardedRuns.invariant_of_run (fun _ _ _ hs ho h => hs.step ho h) Inv.init hg hr).safe

/-- `Fill` with a buffer for the slot, and with one for the encoder. -/
def fillSlot (output : ℕ) : List (Action ℕ) :=
  [.fill output, .fillStep, .fillStep, .fillStep, .fillStep]

def fillStream (output : ℕ) : List (Action ℕ) :=
  [.fill output, .fillStep, .fillStep, .fillStep]

/-- One frame with configuration, another buffer for the slot, and the end of the module. -/
def oneConfig : List (Action ℕ) :=
  .start :: (fillSlot 0 ++ fillStream 1 ++
    .endEncoding 1 true :: List.replicate 7 .callbackStep ++ fillSlot 2 ++
    .stop :: List.replicate 5 .destroyStep)

theorem safe_of_orderly_oneConfig :
    ∃ s, GuardedRuns.run step oneConfig EncModule.init = some s ∧ s.Safe :=
  ⟨_, rfl, @safe_of_orderly ℕ _ _ oneConfig (by decide) rfl⟩

/-- Two frames with configuration, and no buffer for the slot in between. -/
def twoConfigs : List (Action ℕ) :=
  .start :: (fillSlot 0 ++ fillStream 1 ++ fillStream 2 ++
    .endEncoding 1 true :: List.replicate 7 .callbackStep ++ [.endEncoding 2 true, .callbackStep])

theorem not_safe :
    ¬∀ (acts : List (Action ℕ)) (s : EncModule ℕ),
      GuardedRuns.run step acts EncModule.init = some s → s.Safe := by
  intro h
  exact absurd ((h twoConfigs _ rfl).noWait 2 rfl) (by decide)

/-- The callback waits with the mutex, and no permit is there. -/
structure Stuck (s : EncModule β) : Prop where
  waits : ∃ stream, s.callback = .waiting stream
  sem : s.sem = 0
  excluded : ¬s.fill.holdsMutex

/-- A callback that takes the mutex at an empty slot is stuck. -/
theorem Inv.stuck (hs : s.Inv) (hlocks : s.callback.locks) (hslot : s.configHandle = none)
    (hstale : s.destroy.stale = 0) (h : s.step .callbackStep = some s') : s'.Stuck := by
  have permits := hs.permits
  cases hcallback : s.callback with
  | locking stream =>
    simp only [EncModule.step, EncModule.callbackStep, hcallback] at h
    split_ifs at h with hm
    cases h
    refine ⟨⟨stream, rfl⟩, ?_, hm⟩
    show s.sem = 0
    simp only [hslot, hstale, Option.toList, List.length_nil] at permits
    omega
  | _ => rw [hcallback] at hlocks; cases hlocks

theorem Stuck.step {a : Action β} (hs : s.Stuck) (h : s.step a = some s') : s'.Stuck := by
  obtain ⟨⟨stream, hwaits⟩, hsem, hexcluded⟩ := hs
  cases a with
  | start =>
    simp only [EncModule.step] at h
    split_ifs at h
    cases h
    exact ⟨⟨stream, hwaits⟩, hsem, hexcluded⟩
  | stop =>
    simp only [EncModule.step] at h
    split_ifs at h <;> cases h <;> exact ⟨⟨stream, hwaits⟩, hsem, hexcluded⟩
  | fill output =>
    simp only [EncModule.step] at h
    split_ifs at h
    · cases h
      exact ⟨⟨stream, hwaits⟩, hsem, Bool.noConfusion⟩
    · cases h
      exact ⟨⟨stream, hwaits⟩, hsem, hexcluded⟩
  | endEncoding stream' isConfig =>
    simp only [EncModule.step, hwaits, reduceCtorEq, false_and, if_false] at h
  | fillStep =>
    -- the thread that fills is outside of its critical section and cannot enter it
    simp only [EncModule.step, EncModule.fillStep] at h
    cases hfill : s.fill with
    | outside => simp only [hfill, reduceCtorEq] at h
    | locking output => simp [hfill, hwaits, EndEncodingAt.holdsMutex] at h
    | putting output =>
      rw [hfill] at h
      cases h
      exact ⟨⟨stream, hwaits⟩, hsem, Bool.noConfusion⟩
    | _ => exact absurd (by rw [hfill]; rfl) hexcluded
  | callbackStep =>
    simp [EncModule.step, EncModule.callbackStep, hwaits, hsem] at h
  | destroyStep =>
    simp only [EncModule.step, EncModule.destroyStep] at h
    split at h
    case h_3 =>
      split at h <;> cases h
      exact ⟨⟨stream, hwaits⟩, hsem, hexcluded⟩
    all_goals
      cases h <;> exact ⟨⟨stream, hwaits⟩, by first | exact hsem | rfl, hexcluded⟩

theorem Stuck.run {acts : List (Action β)} (hs : s.Stuck)
    (hr : GuardedRuns.run EncModule.step acts s = some s') : s'.Stuck := by
  induction acts generalizing s with
  | nil =>
    cases hr
    exact hs
  | cons a acts ih =>
    obtain ⟨t, ht, hr⟩ := Option.bind_eq_some_iff.mp hr
    exact ih (hs.step ht) hr

end EncModule

end ConfigSlot

end VcuCodec
