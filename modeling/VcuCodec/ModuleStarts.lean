import Mathlib.Data.List.Induction
import VcuCodec.Ledgers
import VcuCodec.OmxComponent

/-!
# Starting the modules

`Start` of the encoder and of the decoder module (`module/module_enc.cpp`,
`module/module_dec.cpp`) obtains one object after the other: the ROI manager, the scheduler of
the device, the stream buffers of the look-ahead passes and the codecs.
-/

namespace VcuCodec

open Ledgers Omx

namespace ModuleStarts

/-! ## What a start obtains -/

inductive Kind
  | scheduler | roiCtx | codec | buffer
  deriving DecidableEq

/-- The objects of each kind.  A buffer stands for the reference of the module to it; what a
codec keeps for itself comes and goes with it. -/
abbrev Platform := Kind → Ledgers.Ledger

namespace Platform

variable (p : Platform) (k : Kind) (x : ℕ)

def acquire : ℕ × Platform := ((p k).acquired, Function.update p k (p k).acquire)

def release : Platform := Function.update p k ((p k).release x)

def releaseAll (xs : List ℕ) : Platform := xs.foldl (fun p x => p.release k x) p

/-- The objects in use; every other one was released once. -/
def Holds (held : Kind → Set ℕ) : Prop := ∀ k, (p k).Holds (held k)

end Platform

/-! ## Error codes -/

def alSuccess : ℕ := 0
def alError : ℕ := 0x80
def alErrNoMemory : ℕ := 0x80 + 7
def alErrNoChannelAvailable : ℕ := 0x80 + 13
def alErrResourceUnavailable : ℕ := 0x80 + 14
def alErrNotEnoughCores : ℕ := 0x80 + 15
def alErrRequestMalformed : ℕ := 0x80 + 16
def alErrCmdNotAllowed : ℕ := 0x80 + 17
def alErrInvalidCmdValue : ℕ := 0x80 + 18

/-- `AL_IS_ERROR_CODE` -/
def isErrorCode (errorCode : ℕ) : Bool := alError ≤ errorCode

/-- `ToModuleError`; `none` stands for `SUCCESS`. -/
def toModuleError (errorCode : ℕ) : Option ModuleError :=
  if errorCode = alSuccess then none
  else if errorCode = alErrNoChannelAvailable then some .noChannelAvailable
  else if errorCode = alErrResourceUnavailable then some .resourceUnavailable
  else if errorCode = alErrNotEnoughCores then some .resourceFragmented
  else if errorCode = alErrRequestMalformed ∨ errorCode = alErrCmdNotAllowed ∨ errorCode = alErrInvalidCmdValue then
    some .badParameter
  else if errorCode = alErrNoMemory then some .noMemory
  else some .undefined

theorem toModuleError_isSome {errorCode : ℕ} (h : errorCode ≠ alSuccess) : (toModuleError errorCode).isSome := by
  unfold toModuleError
  rw [if_neg h]
  split_ifs <;> rfl

theorem ne_success_of_isErrorCode {errorCode : ℕ} (h : isErrorCode errorCode = true) : errorCode ≠ alSuccess := by
  intro heq
  rw [heq] at h
  exact absurd h (by decide)

/-! ## The encoder module -/

/-- Where `AL_Encoder_Create` gives up before it uses the scheduler. -/
inductive Refusal
  | noMemory | unknownProfile
  deriving DecidableEq

def Refusal.errorCode : Refusal → ℕ
  | .noMemory => alErrNoMemory
  | .unknownProfile => alError

structure EncoderAnswer where
  refusal : Option Refusal
  channel : ℕ

def EncoderAnswer.Accepts (answer : EncoderAnswer) : Prop :=
  answer.refusal = none ∧ isErrorCode answer.channel = false
deriving Decidable

/-- `AL_Encoder_Create`: the error code and the handle, which is null with an error.  There is
no result where it calls a function of a scheduler that is null. -/
def encoderCreate (answer : EncoderAnswer) (scheduler : Option ℕ) (p : Platform) : Option (ℕ × Option ℕ × Platform) :=
  match answer.refusal with
  | some refusal => some (refusal.errorCode, none, p)
  | none =>
    if scheduler = none then none
    else if isErrorCode answer.channel then some (answer.channel, none, p)
    else some (answer.channel, some (p.acquire .codec).1, (p.acquire .codec).2)

/-- The settings that a start reads. -/
structure EncSettings where
  dimension : ℤ × ℤ
  lookAhead : ℤ
  isAvc : Bool

namespace EncSettings

variable (settings : EncSettings)

/-- `AL_TwoPassMngr_HasLookAhead` -/
def hasLookAhead : Bool := 0 < settings.lookAhead

def numPass : ℕ := if settings.hasLookAhead then 2 else 1

def requiredBuffers : ℕ := if settings.isAvc then 2 else 1

end EncSettings

/-- What the requests of a start come to. -/
structure EncAnswers where
  roiCtx : Bool
  scheduler : Bool
  buffer : ℕ → ℕ → Bool
  encoder : ℕ → EncoderAnswer

/-- Nothing fails behind the ROI manager. -/
def EncAnswers.Succeeds (answers : EncAnswers) (settings : EncSettings) : Prop :=
  answers.scheduler = true ∧
    (∀ pass < settings.numPass - 1, ∀ i < settings.requiredBuffers, answers.buffer pass i = true) ∧
      ∀ pass < settings.numPass, (answers.encoder pass).Accepts

instance (answers : EncAnswers) (settings : EncSettings) : Decidable (answers.Succeeds settings) :=
  inferInstanceAs (Decidable (_ ∧ _ ∧ _))

structure GenericEncoder where
  enc : Option ℕ
  index : ℕ
  nextQPBuffer : Option ℕ
  streamBuffers : List ℕ

/-- The module with the scheduler that its device keeps. -/
structure EncModule where
  encoders : List GenericEncoder
  roiCtx : Option ℕ
  scheduler : Option ℕ
  nextQPBuffer : Option ℕ
  initialDimension : ℤ × ℤ

namespace EncModule

def init : EncModule := ⟨[], none, none, none, (-1, -1)⟩

section
variable (settings : EncSettings) (answers : EncAnswers)

/-- The stream buffers of a pass from `i` on; a buffer that is null is referenced all the same. -/
def allocStreamBuffers (pass : ℕ) : (n i : ℕ) → Platform → Option (List ℕ × Platform)
  | 0, _, p => some ([], p)
  | n + 1, i, p =>
    if answers.buffer pass i then
      (allocStreamBuffers pass n (i + 1) (p.acquire .buffer).2).map fun r => ((p.acquire .buffer).1 :: r.1, r.2)
    else none

/-- `InitEncoders` from `pass` on -/
def initEncoders : (n pass : ℕ) → Platform → Option (List GenericEncoder × Platform)
  | 0, _, p => some ([], p)
  | n + 1, pass, p =>
    let buffers :=
      if pass < settings.numPass - 1 then allocStreamBuffers answers pass settings.requiredBuffers 0 p
      else some ([], p)
    buffers.bind fun (streamBuffers, p) =>
      (initEncoders n (pass + 1) p).map fun (encoders, p) => (⟨none, pass, none, streamBuffers⟩ :: encoders, p)

/-- The loop of `CreateEncoder` over the passes, with the error that leaves it. -/
def createPasses (scheduler : Option ℕ) :
    List GenericEncoder → Platform → Option (Option ModuleError × List GenericEncoder × Platform)
  | [], p => some (none, [], p)
  | pass :: passes, p =>
    (encoderCreate (answers.encoder pass.index) scheduler p).bind fun (errorCode, enc, p) =>
      if isErrorCode errorCode then some (toModuleError errorCode, { pass with enc } :: passes, p)
      else (createPasses scheduler passes p).map fun (error, passes, p) => (error, { pass with enc } :: passes, p)

/-- `encoders.front().nextQPBuffer = nextQPBuffer` -/
def giveQPBuffer (nextQPBuffer : Option ℕ) : List GenericEncoder → List GenericEncoder
  | [] => []
  | pass :: passes => { pass with nextQPBuffer } :: passes

/-- `Init` of the device -/
def deviceInit (answer : Bool) (p : Platform) : Option ℕ × Platform :=
  if answer then (some (p.acquire .scheduler).1, (p.acquire .scheduler).2) else (none, p)

/-- The module as the loop of `CreateEncoder` leaves it. -/
def leavePasses (m : EncModule) :
    Option ModuleError × List GenericEncoder × Platform → Option ModuleError × EncModule × Platform
  | (some error, encoders, p) => (some error, { m with encoders }, p)
  | (none, encoders, p) =>
    (none, { m with encoders := giveQPBuffer m.nextQPBuffer encoders, nextQPBuffer := none }, p)

/-- `Start`: its result, where `none` is `SUCCESS`; there is no result where a null pointer is
used. -/
def start (m : EncModule) (p : Platform) : Option (Option ModuleError × EncModule × Platform) :=
  if m.encoders ≠ [] then some (some .undefined, m, p)
  else
    let m := { m with initialDimension := settings.dimension, roiCtx := none }
    if answers.roiCtx = false then some (some .badParameter, m, p)
    else
      let (roiCtx, p) := p.acquire .roiCtx
      let (scheduler, p) := deviceInit answers.scheduler p
      let m := { m with roiCtx := some roiCtx, scheduler }
      (initEncoders settings answers settings.numPass 0 p).bind fun (encoders, p) =>
        (createPasses answers scheduler encoders p).map m.leavePasses

end

/-- The loop of `DestroyEncoder`; `AL_Encoder_Destroy` uses the handle. -/
def destroyEncoders : List GenericEncoder → Platform → Option Platform
  | [], p => some p
  | pass :: passes, p =>
    pass.enc.bind fun enc =>
      destroyEncoders passes
        ((p.release .codec enc).releaseAll .buffer (pass.nextQPBuffer.toList ++ pass.streamBuffers))

/-- `Stop` with `DestroyEncoder` -/
def stop (m : EncModule) (p : Platform) : Option (Bool × EncModule × Platform) :=
  let p := p.releaseAll .buffer m.nextQPBuffer.toList
  let m := { m with nextQPBuffer := none }
  if m.encoders = [] then some (false, m, p)
  else
    (destroyEncoders m.encoders p).map fun p =>
      let p := p.releaseAll .scheduler m.scheduler.toList
      (true, { m with encoders := [], initialDimension := (-1, -1) }, p.releaseAll .roiCtx m.roiCtx.toList)

/-- `Empty`, with what is behind its guard. -/
def empty (m : EncModule) (behind : GenericEncoder → Option Bool) : Option Bool :=
  match m.encoders with
  | [] => some false
  | pass :: _ => behind pass

/-- `Fill`, with what is behind its guard. -/
def fill (m : EncModule) (behind : GenericEncoder → Option Bool) : Option Bool :=
  match m.encoders.getLast? with
  | none => some false
  | some pass => behind pass

/-- A start of `m` on `p` left `m'` and `p'` as it found them: the module is not started, the
same objects are in use, `DYNAMIC_INDEX_MAX_RESOLUTION_CHANGE_SUPPORTED` reads the same, buffers
are refused, `Stop` drops the pending QP table only, and a later start has the result it would
have had. -/
structure Restored (held : Kind → Set ℕ) (m : EncModule) (p : Platform) (m' : EncModule) (p' : Platform) : Prop where
  notStarted : m'.encoders = []
  balanced : p'.Holds held
  pending : m'.nextQPBuffer = m.nextQPBuffer
  resolution : m'.initialDimension = m.initialDimension
  empty : ∀ behind, m'.empty behind = some false
  fill : ∀ behind, m'.fill behind = some false
  stop : m'.stop p' = some (false, { m' with nextQPBuffer := none }, p'.releaseAll .buffer m.nextQPBuffer.toList)
  start : ∀ settings answers, (m'.start settings answers p').map Prod.fst = (m.start settings answers p).map Prod.fst

/-- If the start of the module fails, it returns an error and undoes what it did. -/
def FailsCleanly (held : Kind → Set ℕ) (settings : EncSettings) (answers : EncAnswers) (m : EncModule) (p : Platform) :
    Prop :=
  (∀ m' p', m.start settings answers p ≠ some (none, m', p')) →
    ∃ error m' p', m.start settings answers p = some (some error, m', p') ∧ Restored held m p m' p'

end EncModule

/-! ## The decoder module -/

/-- Where `AL_Decoder_PreallocateBuffers` gives up. -/
inductive PreallocError
  | requestMalformed | noMemory
  deriving DecidableEq

/-- The error that it sets. -/
def PreallocError.errorCode : PreallocError → ℕ
  | .requestMalformed => alErrRequestMalformed
  | .noMemory => alErrNoMemory

structure DecAnswers where
  scheduler : Bool
  decoder : ℕ
  prealloc : Option PreallocError

/-- The module with the scheduler that its device keeps. -/
structure DecModule where
  decoder : Option ℕ
  scheduler : Option ℕ
  resolutionFoundAsBeenCalled : Bool
  initialDimension : ℤ × ℤ

/-- `AL_Decoder_Create`, which checks the scheduler; the handle is null with an error. -/
def decoderCreate (answer : ℕ) (scheduler : Option ℕ) (p : Platform) : ℕ × Option ℕ × Platform :=
  if scheduler = none then (alError, none, p)
  else if isErrorCode answer then (answer, none, p)
  else (answer, some (p.acquire .codec).1, (p.acquire .codec).2)

namespace DecModule

def init : DecModule := ⟨none, none, false, (-1, -1)⟩

def destroyDecoder (m : DecModule) (p : Platform) : DecModule × Platform :=
  ({ m with decoder := none, resolutionFoundAsBeenCalled := false, initialDimension := (-1, -1) },
    (p.releaseAll .codec m.decoder.toList).releaseAll .scheduler m.scheduler.toList)

def start (shouldPrealloc : Bool) (answers : DecAnswers) (m : DecModule) (p : Platform) :
    Option ModuleError × DecModule × Platform :=
  if m.decoder ≠ none then (some .undefined, m, p)
  else
    let (scheduler, p) := EncModule.deviceInit answers.scheduler p
    let (errorCode, decoder, p) := decoderCreate answers.decoder scheduler p
    let m := { m with decoder, scheduler }
    if isErrorCode errorCode then (toModuleError errorCode, m, p)
    else
      match shouldPrealloc, answers.prealloc with
      | true, some error => (toModuleError error.errorCode, m.destroyDecoder p)
      | _, _ => (none, m, p)

def stop (m : DecModule) (p : Platform) : Bool × DecModule × Platform :=
  if m.decoder = none then (false, m, p) else (true, m.destroyDecoder p)

/-- `Empty`, with what is behind its guard. -/
def empty (m : DecModule) (behind : ℕ → Bool) : Bool := m.decoder.elim false behind

/-- `Fill`, with what is behind its guard. -/
def fill (m : DecModule) (behind : ℕ → Bool) : Bool := m.decoder.elim false behind

/-- `ResolutionFound`, which a decoder calls. -/
def resolutionFound (dimension : ℤ × ℤ) (m : DecModule) : DecModule :=
  if m.resolutionFoundAsBeenCalled = true ∨ m.decoder = none then m
  else { m with resolutionFoundAsBeenCalled := true, initialDimension := dimension }

/-- Without a decoder there is no resolution. -/
def Coherent (m : DecModule) : Prop :=
  m.decoder = none → m.resolutionFoundAsBeenCalled = false ∧ m.initialDimension = (-1, -1)

/-- A start of `m` on `p` left `m'` and `p'` as it found them. -/
structure Restored (held : Kind → Set ℕ) (m : DecModule) (p : Platform) (m' : DecModule) (p' : Platform) : Prop where
  notStarted : m'.decoder = none
  balanced : p'.Holds held
  called : m'.resolutionFoundAsBeenCalled = m.resolutionFoundAsBeenCalled
  resolution : m'.initialDimension = m.initialDimension
  empty : ∀ behind, m'.empty behind = false
  fill : ∀ behind, m'.fill behind = false
  stop : m'.stop p' = (false, m', p')
  start : ∀ shouldPrealloc answers, (start shouldPrealloc answers m' p').1 = (start shouldPrealloc answers m p).1

/-- If the start of the module fails, it undoes what it did. -/
def FailsCleanly (held : Kind → Set ℕ) (shouldPrealloc : Bool) (answers : DecAnswers) (m : DecModule) (p : Platform) :
    Prop :=
  (start shouldPrealloc answers m p).1 ≠ none →
    Restored held m p (start shouldPrealloc answers m p).2.1 (start shouldPrealloc answers m p).2.2

end DecModule

/-! ## The resources -/

namespace Platform

variable {p : Platform} {k : Kind} {x : ℕ} {held : Kind → Set ℕ}

theorem Holds.acquire (h : p.Holds held) :
    (p.acquire k).2.Holds (Function.update held k (insert (p.acquire k).1 (held k))) := by
  intro j
  by_cases heq : j = k
  · subst heq
    simpa [Platform.acquire] using (h j).acquire
  · simpa [Platform.acquire, heq] using h j

theorem Holds.release (h : p.Holds held) (hx : x ∈ held k) :
    (p.release k x).Holds (Function.update held k {y | y ∈ held k ∧ y ≠ x}) := by
  intro j
  by_cases heq : j = k
  · subst heq
    simpa [Platform.release] using (h j).release hx
  · simpa [Platform.release, heq] using h j

theorem Holds.fresh (h : p.Holds held) : (p.acquire k).1 ∉ held k :=
  fun hmem => Nat.lt_irrefl _ ((h k).lt _ hmem)

theorem Holds.not_acquire (h : p.Holds held) : ¬(p.acquire k).2.Holds held := by
  intro hk
  have hlt : (p k).acquired < ((p.acquire k).2 k).acquired := by
    simp [Platform.acquire, Ledgers.Ledger.acquire]
  have hone := (hk k).released _ hlt h.fresh
  have hzero := (h k).unknown _ le_rfl
  simp [Platform.acquire, Ledgers.Ledger.acquire, hzero] at hone

theorem Holds.giveBack (h : p.Holds (Function.update held k (insert x (held k)))) (hx : x ∉ held k) :
    (p.release k x).Holds held := by
  have hrelease := h.release (k := k) (x := x) (by simp)
  have heq : Function.update (Function.update held k (insert x (held k))) k
      {y | y ∈ Function.update held k (insert x (held k)) k ∧ y ≠ x} = held := by
    rw [Function.update_idem]
    refine Function.update_eq_iff.mpr ⟨?_, fun _ _ => rfl⟩
    ext y
    rw [Function.update_self, Set.mem_ofPred_eq, Set.mem_insert_iff]
    constructor
    · intro hy
      exact hy.1.resolve_left hy.2
    · intro hy
      exact ⟨Or.inr hy, fun hyx => hx (hyx ▸ hy)⟩
  rwa [heq] at hrelease

end Platform

/-! ## The start of the encoder module -/

namespace EncModule

section
variable {settings : EncSettings} {answers : EncAnswers} {scheduler : Option ℕ} {p : Platform}

theorem allocStreamBuffers_isSome (pass n i : ℕ) (p : Platform) :
    (allocStreamBuffers answers pass n i p).isSome ↔ ∀ j, i ≤ j → j < i + n → answers.buffer pass j = true := by
  induction n generalizing i p with
  | zero =>
    simp only [allocStreamBuffers, Option.isSome_some, true_iff]
    intro j hle hlt
    omega
  | succ n ih =>
    rw [allocStreamBuffers]
    by_cases hb : answers.buffer pass i = true
    · rw [if_pos hb, Option.isSome_map, ih]
      constructor
      · intro h j hle hlt
        rcases Nat.eq_or_lt_of_le hle with rfl | hgt
        · exact hb
        · exact h j hgt (by omega)
      · intro h j hle hlt
        exact h j (by omega) (by omega)
    · rw [if_neg hb]
      simp only [Option.isSome_none, Bool.false_eq_true, false_iff]
      intro h
      exact hb (h i le_rfl (by omega))

/-- The buffers of the passes from `pass` on are there. -/
def BuffersGiven (settings : EncSettings) (answers : EncAnswers) (n pass : ℕ) : Prop :=
  ∀ j, pass ≤ j → j < pass + n → j < settings.numPass - 1 →
    ∀ i < settings.requiredBuffers, answers.buffer j i = true

theorem passBuffers_isSome (settings : EncSettings) (answers : EncAnswers) (pass : ℕ) :
    (if pass < settings.numPass - 1 then allocStreamBuffers answers pass settings.requiredBuffers 0 p
      else some ([], p)).isSome ↔
        (pass < settings.numPass - 1 → ∀ i < settings.requiredBuffers, answers.buffer pass i = true) := by
  by_cases hpass : pass < settings.numPass - 1
  · rw [if_pos hpass, allocStreamBuffers_isSome]
    constructor
    · intro h _ i hi
      exact h i (Nat.zero_le i) (by omega)
    · intro h j _ hlt
      exact h hpass j (by omega)
  · simp [hpass]

/-- The passes are set up, without codecs, or the start crashes. -/
theorem initEncoders_spec (settings : EncSettings) (answers : EncAnswers) (n pass : ℕ) (p : Platform) :
    (BuffersGiven settings answers n pass ∧ ∃ encoders p', initEncoders settings answers n pass p = some (encoders, p') ∧
        encoders.map GenericEncoder.index = List.range' pass n) ∨
      ¬BuffersGiven settings answers n pass ∧ initEncoders settings answers n pass p = none := by
  induction n generalizing pass p with
  | zero =>
    refine Or.inl ⟨?_, [], p, rfl, rfl⟩
    intro j hle hlt
    omega
  | succ n ih =>
    rw [initEncoders]
    rcases hbuf : (if pass < settings.numPass - 1 then allocStreamBuffers answers pass settings.requiredBuffers 0 p
      else some ([], p)) with _ | ⟨streamBuffers, p₁⟩
    · refine Or.inr ⟨?_, rfl⟩
      intro hgiven
      have hsome := (passBuffers_isSome (p := p) settings answers pass).mpr fun hpass i hi => hgiven pass le_rfl (by omega) hpass i hi
      rw [hbuf] at hsome
      exact Bool.false_ne_true hsome
    · have hpass := (passBuffers_isSome (p := p) settings answers pass).mp
        (by rw [hbuf]; rfl)
      rcases ih (pass + 1) p₁ with ⟨hgiven, encoders, p', heq, hindex⟩ | ⟨hnot, heq⟩
      · refine Or.inl ⟨?_, _, p', by simp only [Option.bind_some, heq, Option.map_some]; rfl, ?_⟩
        · intro j hle hlt hj
          rcases Nat.eq_or_lt_of_le hle with rfl | hgt
          · exact hpass hj
          · exact hgiven j hgt (by omega) hj
        · rw [List.map_cons, hindex, List.range'_succ]
      · refine Or.inr ⟨?_, by simp only [Option.bind_some, heq, Option.map_none]⟩
        intro hgiven
        exact hnot fun j hle hlt => hgiven j (by omega) (by omega)

/-- How the creation of the codecs ends: a codec that is not created leaves an error or
crashes the start. -/
theorem createPasses_spec (answers : EncAnswers) (scheduler : Option ℕ) (encoders : List GenericEncoder) (p : Platform) :
    ((∀ pass ∈ encoders, scheduler ≠ none ∧ (answers.encoder pass.index).Accepts) ∧
        ∃ encoders' p', createPasses answers scheduler encoders p = some (none, encoders', p')) ∨
      (¬∀ pass ∈ encoders, scheduler ≠ none ∧ (answers.encoder pass.index).Accepts) ∧
        ∀ error encoders' p', createPasses answers scheduler encoders p = some (error, encoders', p') →
          error ≠ none ∧ encoders' ≠ [] := by
  induction encoders generalizing p with
  | nil => exact Or.inl ⟨by simp, [], p, rfl⟩
  | cons pass passes ih =>
    rw [createPasses]
    rcases hrefusal : (answers.encoder pass.index).refusal with _ | refusal
    · by_cases hscheduler : scheduler = none
      · refine Or.inr ⟨fun h => (h pass List.mem_cons_self).1 hscheduler, ?_⟩
        simp [encoderCreate, hrefusal, hscheduler]
      by_cases hcode : isErrorCode (answers.encoder pass.index).channel = true
      · refine Or.inr ⟨?_, ?_⟩
        · intro h
          exact absurd hcode (by simp [(h pass List.mem_cons_self).2.2])
        · intro error encoders' p' heq
          have hsome := toModuleError_isSome (ne_success_of_isErrorCode hcode)
          simp only [encoderCreate, hrefusal, hscheduler, hcode, if_false, if_true, Option.bind_some,
            Option.some.injEq, Prod.mk.injEq] at heq
          rw [← heq.1, ← heq.2.1]
          exact ⟨Option.isSome_iff_ne_none.mp hsome, List.cons_ne_nil _ _⟩
      · have haccepts : (answers.encoder pass.index).Accepts := ⟨hrefusal, by simpa using hcode⟩
        simp only [encoderCreate, hrefusal, hscheduler, hcode, if_false, Option.bind_some, Bool.false_eq_true]
        rcases ih (p.acquire .codec).2 with ⟨hall, encoders', p', heq⟩ | ⟨hnot, hfails⟩
        · refine Or.inl ⟨?_, _, p', by rw [heq]; rfl⟩
          intro e he
          rcases List.mem_cons.mp he with rfl | he
          · exact ⟨hscheduler, haccepts⟩
          · exact hall e he
        · refine Or.inr ⟨fun h => hnot fun e he => h e (List.mem_cons_of_mem _ he), ?_⟩
          intro error encoders' p' heq
          rcases Option.map_eq_some_iff.mp heq with ⟨⟨error', passes', p''⟩, hpasses, hres⟩
          simp only [Prod.mk.injEq] at hres
          rw [← hres.1, ← hres.2.1]
          exact ⟨(hfails _ _ _ hpasses).1, List.cons_ne_nil _ _⟩
    · refine Or.inr ⟨?_, ?_⟩
      · intro h
        have hnone := (h pass List.mem_cons_self).2.1
        rw [hrefusal] at hnone
        exact Option.some_ne_none _ hnone
      · intro error encoders' p' heq
        have hcode : isErrorCode refusal.errorCode = true := by cases refusal <;> rfl
        have hsome := toModuleError_isSome (ne_success_of_isErrorCode hcode)
        simp only [encoderCreate, hrefusal, hcode, if_true, Option.bind_some, Option.some.injEq, Prod.mk.injEq] at heq
        rw [← heq.1, ← heq.2.1]
        exact ⟨Option.isSome_iff_ne_none.mp hsome, List.cons_ne_nil _ _⟩

end

section
variable {settings : EncSettings} {answers : EncAnswers} {m : EncModule} {p : Platform} {held : Kind → Set ℕ}

theorem succeeds_iff : answers.Succeeds settings ↔
    answers.scheduler = true ∧ BuffersGiven settings answers settings.numPass 0 ∧
      ∀ pass < settings.numPass, (answers.encoder pass).Accepts := by
  refine and_congr_right fun _ => and_congr_left fun _ => ?_
  constructor
  · intro h j _ _ hj
    exact h j hj
  · intro h j hj
    exact h j (Nat.zero_le j) (by omega) hj

theorem numPass_pos (settings : EncSettings) : 0 < settings.numPass := by
  unfold EncSettings.numPass
  split_ifs <;> decide

theorem mem_of_index {encoders : List GenericEncoder} {n : ℕ} (h : encoders.map GenericEncoder.index = List.range' 0 n)
    {pass : ℕ} (hpass : pass < n) : ∃ e ∈ encoders, e.index = pass := by
  have hmem : pass ∈ encoders.map GenericEncoder.index := by
    rw [h]
    simpa using hpass
  simpa using hmem

theorem index_lt {encoders : List GenericEncoder} {n : ℕ} (h : encoders.map GenericEncoder.index = List.range' 0 n)
    {e : GenericEncoder} (he : e ∈ encoders) : e.index < n := by
  have hmem := List.mem_map_of_mem (f := GenericEncoder.index) he
  rw [h] at hmem
  simpa using hmem

theorem deviceInit_ne_none {answer : Bool} : (deviceInit answer p).1 ≠ none ↔ answer = true := by
  cases answer <;> simp [deviceInit]

theorem start_of_roi_failure (settings : EncSettings) (p : Platform) (hstopped : m.encoders = []) (hroi : answers.roiCtx = false) :
    m.start settings answers p =
      some (some .badParameter, { m with initialDimension := settings.dimension, roiCtx := none }, p) := by
  simp [start, hstopped, hroi]

/-- Behind the ROI manager a start succeeds, crashes or leaves passes in the module. -/
theorem start_cases (settings : EncSettings) (p : Platform) (hstopped : m.encoders = []) (hroi : answers.roiCtx = true) :
    (answers.Succeeds settings ∧ ∃ m' p', m.start settings answers p = some (none, m', p')) ∨
      ¬answers.Succeeds settings ∧ ∀ error m' p', m.start settings answers p = some (error, m', p') →
        error ≠ none ∧ m'.encoders ≠ [] := by
  rw [succeeds_iff]
  simp only [start, hstopped, hroi, ne_eq, not_true_eq_false, if_false, Bool.true_eq_false]
  generalize hdevice : deviceInit answers.scheduler (p.acquire .roiCtx).2 = device
  have hscheduler : device.1 ≠ none ↔ answers.scheduler = true := by
    rw [← hdevice]
    exact deviceInit_ne_none
  rcases initEncoders_spec settings answers settings.numPass 0 device.2 with
    ⟨hgiven, encoders, p₁, hinit, hindex⟩ | ⟨hnot, hinit⟩
  · rw [hinit, Option.bind_some]
    have hall : (∀ pass ∈ encoders, device.1 ≠ none ∧ (answers.encoder pass.index).Accepts) ↔
        answers.scheduler = true ∧ ∀ pass < settings.numPass, (answers.encoder pass).Accepts := by
      constructor
      · intro h
        obtain ⟨e, he, _⟩ := mem_of_index hindex (numPass_pos settings)
        refine ⟨hscheduler.mp (h e he).1, ?_⟩
        intro pass hpass
        obtain ⟨e, he, heq⟩ := mem_of_index hindex hpass
        exact heq ▸ (h e he).2
      · intro h e he
        exact ⟨hscheduler.mpr h.1, h.2 _ (index_lt hindex he)⟩
    rcases createPasses_spec answers device.1 encoders p₁ with
      ⟨hacc, encoders', p', heq⟩ | ⟨hrej, hfails⟩
    · have hs := hall.mp hacc
      exact Or.inl ⟨⟨hs.1, hgiven, hs.2⟩, _, _, by rw [heq]; rfl⟩
    · refine Or.inr ⟨fun h => hrej (hall.mpr ⟨h.1, h.2.2⟩), ?_⟩
      intro error m' p' heq
      rcases Option.map_eq_some_iff.mp heq with ⟨⟨error', encoders', p''⟩, hpasses, hres⟩
      obtain ⟨hne, hlen⟩ := hfails _ _ _ hpasses
      cases error' with
      | none => exact absurd rfl hne
      | some e =>
        cases hres
        exact ⟨Option.some_ne_none _, hlen⟩
  · refine Or.inr ⟨fun h => hnot h.2.1, ?_⟩
    intro error m' p' heq
    rw [hinit] at heq
    cases heq

theorem createPasses_congr {scheduler scheduler' : Option ℕ} (hs : scheduler = none ↔ scheduler' = none) :
    ∀ {encoders encoders' : List GenericEncoder} {p p' : Platform},
      encoders.map GenericEncoder.index = encoders'.map GenericEncoder.index →
        (createPasses answers scheduler encoders p).map Prod.fst =
          (createPasses answers scheduler' encoders' p').map Prod.fst := by
  intro encoders
  induction encoders with
  | nil =>
    intro encoders' p p' hindex
    rw [List.map_eq_nil_iff.mp hindex.symm]
    rfl
  | cons pass passes ih =>
    intro encoders' p p' hindex
    cases encoders' with
    | nil => cases hindex
    | cons pass' passes' =>
      rw [List.map_cons, List.map_cons, List.cons.injEq] at hindex
      rw [createPasses, createPasses, ← hindex.1]
      rcases hrefusal : (answers.encoder pass.index).refusal with _ | refusal
      · by_cases hscheduler : scheduler = none
        · simp [encoderCreate, hrefusal, hscheduler, hs.mp hscheduler]
        · have hscheduler' : scheduler' ≠ none := fun h => hscheduler (hs.mpr h)
          by_cases hcode : isErrorCode (answers.encoder pass.index).channel = true
          · simp [encoderCreate, hrefusal, hscheduler, hscheduler', hcode]
          · simpa [encoderCreate, hrefusal, hscheduler, hscheduler', hcode, Option.map_map, Function.comp_def] using
              ih hindex.2
      · have hcode : isErrorCode refusal.errorCode = true := by cases refusal <;> rfl
        simp [encoderCreate, hrefusal, hcode]

theorem map_leavePasses (r : Option (Option ModuleError × List GenericEncoder × Platform)) :
    Option.map Prod.fst (r.map m.leavePasses) = r.map Prod.fst := by
  rcases r with _ | ⟨_ | error, encoders, p⟩ <;> rfl

/-- The result of a start depends on the answers to it only. -/
theorem start_result_congr {m' : EncModule} {p' : Platform} (h : m.encoders = []) (h' : m'.encoders = []) :
    (m'.start settings answers p').map Prod.fst = (m.start settings answers p).map Prod.fst := by
  by_cases hroi : answers.roiCtx = false
  · rw [start_of_roi_failure settings p h hroi, start_of_roi_failure settings p' h' hroi]
    rfl
  have hscheduler : ∀ p p' : Platform,
      (deviceInit answers.scheduler p).1 = none ↔ (deviceInit answers.scheduler p').1 = none := by
    intro p p'
    exact not_iff_not.mp (deviceInit_ne_none.trans deviceInit_ne_none.symm)
  simp only [start, h, h', ne_eq, not_true_eq_false, if_false]
  rw [if_neg hroi, if_neg hroi]
  rcases initEncoders_spec settings answers settings.numPass 0
    (deviceInit answers.scheduler (p.acquire .roiCtx).2).2 with ⟨hgiven, encoders, p₁, hinit, hindex⟩ | ⟨hnot, hinit⟩ <;>
  rcases initEncoders_spec settings answers settings.numPass 0
    (deviceInit answers.scheduler (p'.acquire .roiCtx).2).2 with
      ⟨hgiven', encoders', p₁', hinit', hindex'⟩ | ⟨hnot', hinit'⟩
  · rw [hinit, hinit', Option.bind_some, Option.bind_some, map_leavePasses, map_leavePasses]
    exact createPasses_congr (hscheduler ..) (hindex'.trans hindex.symm)
  · exact absurd hgiven hnot'
  · exact absurd hgiven' hnot
  · rw [hinit, hinit', Option.bind_none, Option.bind_none]

theorem Restored.of_roi_failure (hstopped : m.encoders = []) (hheld : p.Holds held)
    (hresolution : m.initialDimension = settings.dimension) :
    Restored held m p { m with initialDimension := settings.dimension, roiCtx := none } p where
  notStarted := hstopped
  balanced := hheld
  pending := rfl
  resolution := hresolution.symm
  empty := by simp [EncModule.empty, hstopped]
  fill := by simp [EncModule.fill, hstopped]
  stop := by simp [EncModule.stop, hstopped]
  start := fun _ _ => start_result_congr hstopped hstopped

theorem failsCleanly_iff (hstopped : m.encoders = []) (hheld : p.Holds held) :
    m.FailsCleanly held settings answers p ↔
      if answers.roiCtx then answers.Succeeds settings else m.initialDimension = settings.dimension := by
  by_cases hroi : answers.roiCtx = true
  · rw [if_pos hroi]
    rcases start_cases settings p hstopped hroi with ⟨hs, m', p', heq⟩ | ⟨hnot, hfails⟩
    · exact iff_of_true (fun hno => absurd heq (hno m' p')) hs
    · refine iff_of_false ?_ hnot
      intro hclean
      obtain ⟨error, m', p', heq, hrestored⟩ := hclean fun m' p' heq => (hfails _ _ _ heq).1 rfl
      exact (hfails _ _ _ heq).2 hrestored.notStarted
  · have hno : answers.roiCtx = false := by simpa using hroi
    have heq := start_of_roi_failure settings p hstopped hno
    rw [if_neg hroi]
    constructor
    · intro hclean
      obtain ⟨error, m', p', heq', hrestored⟩ := hclean (by simp [heq])
      rw [heq] at heq'
      cases heq'
      exact hrestored.resolution.symm
    · intro hresolution _
      exact ⟨_, _, _, heq, Restored.of_roi_failure hstopped hheld hresolution⟩

end

end EncModule

/-! ## The start of the decoder module -/

namespace DecModule

variable {shouldPrealloc : Bool} {answers : DecAnswers} {m : DecModule} {p : Platform} {held : Kind → Set ℕ}

theorem Coherent.init : DecModule.init.Coherent := fun _ => ⟨rfl, rfl⟩

theorem Coherent.destroyDecoder : (m.destroyDecoder p).1.Coherent := fun _ => ⟨rfl, rfl⟩

theorem Coherent.resolutionFound {dimension : ℤ × ℤ} (h : m.Coherent) : (m.resolutionFound dimension).Coherent := by
  unfold DecModule.resolutionFound
  split_ifs with hcalled
  · exact h
  · intro hnone
    exact absurd hnone fun hd => hcalled (Or.inr hd)

theorem start_cases (shouldPrealloc : Bool) (answers : DecAnswers) (p : Platform) (hstopped : m.decoder = none) :
    (answers.scheduler = false ∧
      start shouldPrealloc answers m p = (some .undefined, { m with decoder := none, scheduler := none }, p)) ∨
    (answers.scheduler = true ∧ isErrorCode answers.decoder = true ∧
      start shouldPrealloc answers m p = (toModuleError answers.decoder,
        { m with decoder := none, scheduler := some (p.acquire .scheduler).1 }, (p.acquire .scheduler).2)) ∨
    (answers.scheduler = true ∧ isErrorCode answers.decoder = false ∧ shouldPrealloc = true ∧ ∃ error ∈ answers.prealloc,
      start shouldPrealloc answers m p = (toModuleError error.errorCode,
        destroyDecoder { m with
          decoder := some ((p.acquire .scheduler).2.acquire .codec).1
          scheduler := some (p.acquire .scheduler).1 } ((p.acquire .scheduler).2.acquire .codec).2)) ∨
    (answers.scheduler = true ∧ isErrorCode answers.decoder = false ∧
      (shouldPrealloc = true → answers.prealloc = none) ∧ (start shouldPrealloc answers m p).1 = none ∧
        (start shouldPrealloc answers m p).2.1.decoder ≠ none) := by
  rcases hscheduler : answers.scheduler with _ | _
  · refine Or.inl ⟨rfl, ?_⟩
    have hcode : isErrorCode alError = true := by decide
    simp [start, hstopped, EncModule.deviceInit, hscheduler, decoderCreate, hcode]
    decide
  · refine Or.inr ?_
    rcases hcode : isErrorCode answers.decoder with _ | _
    · refine Or.inr ?_
      cases shouldPrealloc with
      | false =>
        refine Or.inr ⟨rfl, rfl, by simp, ?_⟩
        simp [start, hstopped, EncModule.deviceInit, hscheduler, decoderCreate, hcode]
      | true =>
        rcases hprealloc : answers.prealloc with _ | error
        · refine Or.inr ⟨rfl, rfl, fun _ => rfl, ?_⟩
          simp [start, hstopped, EncModule.deviceInit, hscheduler, decoderCreate, hcode, hprealloc]
        · refine Or.inl ⟨rfl, rfl, rfl, error, rfl, ?_⟩
          simp [start, hstopped, EncModule.deviceInit, hscheduler, decoderCreate, hcode, hprealloc]
    · refine Or.inl ⟨rfl, rfl, ?_⟩
      simp [start, hstopped, EncModule.deviceInit, hscheduler, decoderCreate, hcode]

/-- The result of a start, by the answers to it only. -/
theorem start_result (h : m.decoder = none) : (start shouldPrealloc answers m p).1 =
    if answers.scheduler = false then some .undefined
    else if isErrorCode answers.decoder then toModuleError answers.decoder
    else if shouldPrealloc then answers.prealloc.bind fun error => toModuleError error.errorCode
    else none := by
  rcases start_cases shouldPrealloc answers p h with
    ⟨hs, heq⟩ | ⟨hs, hc, heq⟩ | ⟨hs, hc, hprealloc, error, he, heq⟩ | ⟨hs, hc, hprealloc, heq, -⟩
  · simp [heq, hs]
  · simp [heq, hs, hc]
  · rw [heq, if_neg (by simp [hs]), if_neg (by simp [hc]), if_pos hprealloc, Option.mem_def.mp he, Option.bind_some]
  · rw [heq, if_neg (by simp [hs]), if_neg (by simp [hc])]
    split_ifs with hp
    · rw [hprealloc hp, Option.bind_none]
    · rfl

theorem Restored.of_stopped {m' : DecModule} {p' : Platform} (hstopped : m.decoder = none) (hstopped' : m'.decoder = none)
    (hheld : p'.Holds held) (hcalled : m'.resolutionFoundAsBeenCalled = m.resolutionFoundAsBeenCalled)
    (hresolution : m'.initialDimension = m.initialDimension) : Restored held m p m' p' where
  notStarted := hstopped'
  balanced := hheld
  called := hcalled
  resolution := hresolution
  empty := by simp [DecModule.empty, hstopped']
  fill := by simp [DecModule.fill, hstopped']
  stop := by simp [DecModule.stop, hstopped']
  start := fun _ _ => (start_result hstopped').trans (start_result hstopped).symm

theorem failsCleanly_iff (hstopped : m.decoder = none) (hcoherent : m.Coherent) (hheld : p.Holds held) :
    m.FailsCleanly held shouldPrealloc answers p ↔ (answers.scheduler = true → isErrorCode answers.decoder = false) := by
  rcases start_cases shouldPrealloc answers p hstopped with
    ⟨hs, heq⟩ | ⟨hs, hc, heq⟩ | ⟨hs, hc, -, error, -, heq⟩ | ⟨hs, hc, -, heq, -⟩
  · refine iff_of_true ?_ (by simp [hs])
    intro _
    rw [heq]
    exact Restored.of_stopped hstopped rfl hheld rfl rfl
  · refine iff_of_false ?_ (by simp [hs, hc])
    intro hclean
    have hsome := toModuleError_isSome (ne_success_of_isErrorCode hc)
    have hrestored := hclean (by rw [heq]; exact Option.isSome_iff_ne_none.mp hsome)
    rw [heq] at hrestored
    exact hheld.not_acquire hrestored.balanced
  · refine iff_of_true ?_ (fun _ => hc)
    intro _
    rw [heq]
    have hbalanced := ((hheld.acquire (k := .scheduler)).acquire (k := .codec)).giveBack
      (hheld.acquire (k := .scheduler)).fresh
    exact Restored.of_stopped hstopped rfl (hbalanced.giveBack hheld.fresh) (hcoherent hstopped).1.symm
      (hcoherent hstopped).2.symm
  · exact iff_of_true (fun hno => absurd heq hno) (fun _ => hc)

end DecModule

/-! ## Failing starts -/

/-- A failed start of the encoder module is undone exactly where it fails for want of a ROI
manager and the resolution reads as before; one of the decoder module exactly where it does
not fail in the creation of the decoder on a scheduler that is there. -/
theorem starts_failCleanly_iff {held : Kind → Set ℕ} {p : Platform} (hheld : p.Holds held)
    (settings : EncSettings) (encAnswers : EncAnswers) (enc : EncModule) (henc : enc.encoders = [])
    (shouldPrealloc : Bool) (decAnswers : DecAnswers) (dec : DecModule) (hdec : dec.decoder = none)
    (hcoherent : dec.Coherent) :
    (enc.FailsCleanly held settings encAnswers p ↔
      if encAnswers.roiCtx then encAnswers.Succeeds settings else enc.initialDimension = settings.dimension) ∧
    (dec.FailsCleanly held shouldPrealloc decAnswers p ↔
      (decAnswers.scheduler = true → isErrorCode decAnswers.decoder = false)) :=
  ⟨EncModule.failsCleanly_iff henc hheld, DecModule.failsCleanly_iff hdec hcoherent hheld⟩

/-- The settings of an AVC channel without look-ahead. -/
def plainSettings : EncSettings := ⟨(1920, 1080), 0, true⟩

/-- Nothing fails but the creation of the encoder. -/
def noChannel : EncAnswers where
  roiCtx := true
  scheduler := true
  buffer _ _ := true
  encoder _ := ⟨none, alErrNoChannelAvailable⟩

theorem starts_failCleanly_iff_noChannel :
    Platform.Holds (fun _ => Ledgers.Ledger.init) (fun _ => ∅) ∧
    (EncModule.init.FailsCleanly (fun _ => ∅) plainSettings noChannel (fun _ => Ledgers.Ledger.init) ↔
      if noChannel.roiCtx then noChannel.Succeeds plainSettings
      else EncModule.init.initialDimension = plainSettings.dimension) ∧
    (DecModule.init.FailsCleanly (fun _ => ∅) true ⟨true, alSuccess, some .noMemory⟩ (fun _ => Ledgers.Ledger.init) ↔
      (true = true → isErrorCode alSuccess = false)) :=
  ⟨fun _ => Ledgers.Ledger.Holds.init,
    starts_failCleanly_iff (fun _ => Ledgers.Ledger.Holds.init) plainSettings noChannel .init rfl true
      ⟨true, alSuccess, some .noMemory⟩ .init rfl DecModule.Coherent.init⟩

/-- Neither module undoes a start that fails in the creation of the codec. -/
theorem starts_not_failCleanly :
    ¬EncModule.init.FailsCleanly (fun _ => ∅) plainSettings noChannel (fun _ => Ledgers.Ledger.init) ∧
    ¬DecModule.init.FailsCleanly (fun _ => ∅) true ⟨true, alErrRequestMalformed, none⟩ (fun _ => Ledgers.Ledger.init) := by
  have hheld : Platform.Holds (fun _ => Ledgers.Ledger.init) (fun _ => ∅) := fun _ => Ledgers.Ledger.Holds.init
  constructor
  · rw [EncModule.failsCleanly_iff rfl hheld]
    decide
  · rw [DecModule.failsCleanly_iff rfl DecModule.Coherent.init hheld]
    decide

/-! ## Sessions of the decoder module -/

namespace DecModule

/-- A call of the component or of the decoder, with the answers it gets. -/
inductive Call
  | start (shouldPrealloc : Bool) (answers : DecAnswers)
  | stop
  | resolutionFound (dimension : ℤ × ℤ)

/-- The module and its platform, with the schedulers that nothing gives back. -/
structure Session where
  m : DecModule
  p : Platform
  lost : Set ℕ

/-- What is in use: a decoder with its scheduler, and what is lost. -/
def objects (m : DecModule) (lost : Set ℕ) : Kind → Set ℕ
  | .scheduler => lost ∪ {x | m.decoder ≠ none ∧ m.scheduler = some x}
  | .codec => {x | m.decoder = some x}
  | _ => ∅

namespace Session

def init : Session := ⟨.init, fun _ => .init, ∅⟩

/-- A scheduler is lost when the decoder is not created on it. -/
def step (s : Session) : Call → Session
  | .start shouldPrealloc answers =>
    let r := (DecModule.start shouldPrealloc answers s.m s.p).2
    ⟨r.1, r.2, s.lost ∪ {x | s.m.decoder = none ∧ isErrorCode answers.decoder = true ∧ r.1.scheduler = some x}⟩
  | .stop => ⟨(s.m.stop s.p).2.1, (s.m.stop s.p).2.2, s.lost⟩
  | .resolutionFound dimension => { s with m := s.m.resolutionFound dimension }

structure Kept (s : Session) : Prop where
  coherent : s.m.Coherent
  holds : s.p.Holds (s.m.objects s.lost)
  scheduler : s.m.decoder ≠ none → ∃ x ∉ s.lost, s.m.scheduler = some x

end Session

section
variable {m : DecModule} {p : Platform} {lost : Set ℕ} {s : Session} {d x : ℕ}

theorem objects_stopped (h : m.decoder = none) : m.objects lost = init.objects lost := by
  funext k
  cases k <;> simp [objects, h, init]

theorem objects_lost : init.objects (insert x lost) =
    Function.update (init.objects lost) .scheduler (insert x (init.objects lost .scheduler)) := by
  funext k
  cases k <;> simp [objects, init]

theorem objects_running (hd : m.decoder = some d) (hx : m.scheduler = some x) :
    m.objects lost = Function.update (init.objects (insert x lost)) .codec
      (insert d (init.objects (insert x lost) .codec)) := by
  funext k
  cases k <;> ext y <;> simp [objects, hd, hx, init, eq_comm]

theorem Session.Kept.of_stopped (hstopped : m.decoder = none) (hcoherent : m.Coherent)
    (hholds : p.Holds (DecModule.init.objects lost)) : Session.Kept ⟨m, p, lost⟩ :=
  ⟨hcoherent, (objects_stopped hstopped).symm ▸ hholds, fun h => absurd hstopped h⟩

theorem holds_create (hholds : p.Holds (init.objects lost))
    (hd : m.decoder = some ((p.acquire .scheduler).2.acquire .codec).1) (hx : m.scheduler = some (p.acquire .scheduler).1) :
    ((p.acquire .scheduler).2.acquire .codec).2.Holds (m.objects lost) := by
  rw [objects_running hd hx, objects_lost]
  exact (hholds.acquire (k := .scheduler)).acquire

/-- A decoder goes with the scheduler it was created on. -/
theorem holds_destroyDecoder (hholds : p.Holds (m.objects lost)) (hd : m.decoder = some d)
    (hx : m.scheduler = some x) (hlost : x ∉ lost) : (m.destroyDecoder p).2.Holds (init.objects lost) := by
  rw [objects_running hd hx] at hholds
  have hcodec := hholds.giveBack (by simp [objects, init])
  rw [objects_lost] at hcodec
  have hscheduler := hcodec.giveBack (by simpa [objects, init] using hlost)
  simpa [destroyDecoder, Platform.releaseAll, hd, hx] using hscheduler

theorem Session.Kept.start (h : s.Kept) (hstopped : s.m.decoder = none) (shouldPrealloc : Bool) (answers : DecAnswers) :
    (s.step (.start shouldPrealloc answers)).Kept := by
  have hholds := h.holds
  rw [objects_stopped hstopped] at hholds
  have hnew : (s.p.acquire .scheduler).1 ∉ s.lost := fun hmem => hholds.fresh (k := .scheduler) (Or.inl hmem)
  have hcoherent := h.coherent hstopped
  rw [step]
  rcases start_cases shouldPrealloc answers s.p hstopped with
    ⟨-, heq⟩ | ⟨-, hc, heq⟩ | ⟨-, hc, -, error, -, heq⟩ | ⟨hs, hc, hprealloc, -⟩
  · simp only [heq, reduceCtorEq, and_false, Set.ofPred_false, Set.union_empty]
    exact .of_stopped rfl (fun _ => hcoherent) hholds
  · simp only [heq, hstopped, hc, true_and, Option.some.injEq, Set.ofPred_eq_eq_singleton', Set.union_singleton]
    refine .of_stopped rfl (fun _ => hcoherent) ?_
    rw [objects_lost]
    exact hholds.acquire
  · simp only [heq, hc, Bool.false_eq_true, false_and, and_false, Set.ofPred_false, Set.union_empty]
    exact .of_stopped rfl Coherent.destroyDecoder (holds_destroyDecoder (holds_create hholds rfl rfl) rfl rfl hnew)
  · have heq : (DecModule.start shouldPrealloc answers s.m s.p).2 = ({ s.m with
        decoder := some ((s.p.acquire .scheduler).2.acquire .codec).1
        scheduler := some (s.p.acquire .scheduler).1 }, ((s.p.acquire .scheduler).2.acquire .codec).2) := by
      cases shouldPrealloc <;> simp [DecModule.start, hstopped, EncModule.deviceInit, hs, decoderCreate, hc, hprealloc]
    simp only [heq, hc, Bool.false_eq_true, false_and, and_false, Set.ofPred_false, Set.union_empty]
    exact ⟨fun h => absurd h (by simp), holds_create hholds rfl rfl, fun _ => ⟨_, hnew, rfl⟩⟩

theorem Session.Kept.step (h : s.Kept) (c : Call) : (s.step c).Kept := by
  cases c with
  | start shouldPrealloc answers =>
    by_cases hstopped : s.m.decoder = none
    · exact h.start hstopped shouldPrealloc answers
    · simpa [Session.step, DecModule.start, hstopped] using h
  | stop =>
    rw [Session.step, DecModule.stop]
    split_ifs with hstopped
    · exact h
    · obtain ⟨d, hd⟩ := Option.ne_none_iff_exists'.mp hstopped
      obtain ⟨x, hlost, hx⟩ := h.scheduler hstopped
      exact .of_stopped rfl Coherent.destroyDecoder (holds_destroyDecoder h.holds hd hx hlost)
  | resolutionFound dimension =>
    refine ⟨h.coherent.resolutionFound, ?_, ?_⟩
    · simp only [Session.step, DecModule.resolutionFound]
      split_ifs <;> exact h.holds
    · simp only [Session.step, DecModule.resolutionFound]
      split_ifs <;> exact h.scheduler

/-- In every session nothing is in use but the decoder with its scheduler and what is lost, every
other object was given back once, and there is no resolution without a decoder. -/
theorem session_objects (calls : List Call) :
    (calls.foldl Session.step .init).m.Coherent ∧ (calls.foldl Session.step .init).p.Holds
      ((calls.foldl Session.step .init).m.objects (calls.foldl Session.step .init).lost) := by
  have hkept : (calls.foldl Session.step .init).Kept := by
    induction calls using List.reverseRecOn with
    | nil =>
      refine .of_stopped rfl Coherent.init fun k => ?_
      cases k <;> simpa [objects, init] using Ledger.Holds.init
    | append_singleton calls c ih =>
      rw [List.foldl_concat]
      exact ih.step c
  exact ⟨hkept.coherent, hkept.holds⟩

end

end DecModule

end ModuleStarts

end VcuCodec
