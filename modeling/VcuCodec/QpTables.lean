import Mathlib.Data.List.Induction
import VcuCodec.EventLogs
import VcuCodec.GuardedRuns

/-!
# QP tables of the encoder module

The table that `SetDynamic` leaves for the next frame (`module/module_enc.cpp`),
on its way from the module to the first encoder and from pass to pass.  The
module keeps one reference on it.
-/

namespace VcuCodec.QpTables

open EventLogs

variable {Frame Table : Type}

/-- What happens to the tables, in order: `SetDynamic` takes a reference,
`AL_Encoder_Process` is called for an encoder, a reference is dropped, and the
module is stopped. -/
inductive Event (Frame Table : Type)
  | given (table : Table)
  | process (pass : ℕ) (src : Frame) (qpTable : Option Table)
  | unref (table : Table)
  | stopped
  deriving DecidableEq

structure GenericEncoder (Frame Table : Type) where
  nextQPBuffer : Option Table
  /-- the frames that the encoder has accepted and not reported yet -/
  processing : List Frame
  /-- `lookAheadMngr->m_fifo` -/
  fifo : List Frame

structure EncModule (Frame Table : Type) where
  nextQPBuffer : Option Table
  encoders : List (GenericEncoder Frame Table)
  /-- `AL_Encoder_Create` has succeeded for all encoders -/
  created : Bool
  destroyed : Bool
  log : List (Event Frame Table)

namespace EncModule

def init : EncModule Frame Table := ⟨none, [], false, false, []⟩

/-- `AL_Buffer_Unref`, unless the pointer is null. -/
def unref (table : Option Table) : List (Event Frame Table) := table.toList.map .unref

/-- The two branches of `SetDynamic` with a table; both do the same. -/
def setDynamic (m : EncModule Frame Table) (table : Table) : EncModule Frame Table :=
  match m.encoders with
  | [] =>
    { m with
      log := m.log ++ [.given table] ++ unref m.nextQPBuffer
      nextQPBuffer := some table }
  | front :: rest =>
    { m with
      log := m.log ++ [.given table] ++ unref front.nextQPBuffer
      encoders := { front with nextQPBuffer := some table } :: rest }

/-- `CreateEncoder`: whether the ROI manager and all encoders can be created. -/
def createEncoder (m : EncModule Frame Table) (numPass : ℕ) (roiCtx success : Bool) :
    EncModule Frame Table :=
  match m.encoders with
  | _ :: _ => m
  | [] =>
    if roiCtx then
      if success then
        { m with
          encoders := ⟨m.nextQPBuffer, [], []⟩ :: List.replicate (numPass - 1) ⟨none, [], []⟩
          nextQPBuffer := none, created := true }
      else { m with encoders := List.replicate numPass ⟨none, [], []⟩ }
    else m

/-- A call of `AL_Encoder_Process`. -/
def process (m : EncModule Frame Table) (pass : ℕ) (src : Frame) (qpTable : Option Table)
    (success : Bool) : EncModule Frame Table :=
  { m with
    log := m.log ++ [.process pass src qpTable]
    encoders :=
      if success then
        m.encoders.modify pass fun e => { e with processing := e.processing ++ [src] }
      else m.encoders }

def setNextQPBuffer (m : EncModule Frame Table) (pass : ℕ) (table : Option Table) :
    EncModule Frame Table :=
  { m with encoders := m.encoders.modify pass fun e => { e with nextQPBuffer := table } }

/-- `Empty` of a frame, or of the end of the stream; `ready` tells whether the
buffer is known and has its meta data, `success` what `AL_Encoder_Process`
returns. -/
def empty (m : EncModule Frame Table) (src : Option Frame) (ready success : Bool) :
    EncModule Frame Table :=
  match m.encoders, src with
  | [], _ => m
  | _, none => m
  | currentEnc :: rest, some src =>
    if !ready then m
    else
      match currentEnc.nextQPBuffer with
      | none => m.process 0 src none success
      | some table =>
        let m := m.process 0 src (some table) success
        if rest ≠ [] then m.setNextQPBuffer 1 (some table)
        else
          let m : EncModule Frame Table := { m with log := m.log ++ [.unref table] }
          m.setNextQPBuffer 0 none

/-- A frame of `EmptyFifo`, from the encoder `pass` to the next one.  `nextEnc`
is a copy: its `nextQPBuffer` is not cleared in the vector. -/
def emptyFifo (m : EncModule Frame Table) (pass : ℕ) (nextEnc : GenericEncoder Frame Table)
    (src : Frame) (fifo : List Frame) (success : Bool) : EncModule Frame Table :=
  let m := { m with encoders := m.encoders.modify pass fun e => { e with fifo := fifo } }
  let m := m.process (pass + 1) src nextEnc.nextQPBuffer success
  match nextEnc.nextQPBuffer with
  | none => m
  | some qpBuffer =>
    if pass + 1 ≠ m.encoders.length - 1 then m.setNextQPBuffer (pass + 2) (some qpBuffer)
    else { m with log := m.log ++ [.unref qpBuffer] }

/-- `Stop`, with `DestroyEncoder`. -/
def stop (m : EncModule Frame Table) : EncModule Frame Table :=
  { m with
    log := m.log ++ unref m.nextQPBuffer ++ m.encoders.flatMap (fun e => unref e.nextQPBuffer) ++
      [.stopped]
    nextQPBuffer := none, encoders := [], created := false }

/-- The destructor. -/
def destroy (m : EncModule Frame Table) : EncModule Frame Table :=
  { m with log := m.log ++ unref m.nextQPBuffer, nextQPBuffer := none, destroyed := true }

end EncModule

inductive Op (Frame Table : Type)
  | setDynamic (table : Table)
  | start (numPass : ℕ) (roiCtx success : Bool)
  | empty (src : Option Frame) (ready success : Bool)
  /-- the first part of `EndEncodingLookAhead`: a frame comes out of an encoder -/
  | addFifo (pass : ℕ) (src : Frame)
  | emptyFifo (pass : ℕ) (success : Bool)
  | stop
  | destroy

/-- One operation.  A new table is another one than those before, and an
encoder reports the frames that it has accepted. -/
def step [DecidableEq Frame] [DecidableEq Table] (m : EncModule Frame Table)
    (op : Op Frame Table) : Option (EncModule Frame Table) :=
  if m.destroyed then none
  else
    match op with
    | .setDynamic table => if .given table ∈ m.log then none else some (m.setDynamic table)
    | .start numPass roiCtx success =>
      if 1 ≤ numPass then some (m.createEncoder numPass roiCtx success) else none
    | .empty src ready success => some (m.empty src ready success)
    | .addFifo pass src =>
      match m.encoders[pass]? with
      | some e =>
        if src ∈ e.processing ∧ pass + 1 < m.encoders.length then
          some { m with
            encoders := m.encoders.modify pass fun e =>
              { e with processing := e.processing.erase src, fifo := e.fifo ++ [src] } }
        else none
      | none => none
    | .emptyFifo pass success =>
      match m.encoders[pass]?, m.encoders[pass + 1]? with
      | some encoder, some nextEnc =>
        match encoder.fifo with
        | src :: fifo => some (m.emptyFifo pass nextEnc src fifo success)
        | [] => none
      | _, _ => none
    | .stop => some m.stop
    | .destroy => some m.destroy

/-! ## What is asked of the tables -/

/-- The table that the next frame is due to get: the last one given, unless a
frame has been submitted or the module stopped since. -/
def due (log : List (Event Frame Table)) : Option Table :=
  log.foldl (fun table e =>
    match e with
    | .given table => some table
    | .process 0 _ _ => none
    | .stopped => none
    | _ => table) none

@[simp] theorem due_given (log : List (Event Frame Table)) (table : Table) : due (log ++ [.given table]) = some table := by
  simp [due]

@[simp] theorem due_submit (log : List (Event Frame Table)) (src : Frame)
    (table : Option Table) :
    due (log ++ [.process 0 src table]) = none := by
  simp [due]

@[simp] theorem due_again (log : List (Event Frame Table)) (pass : ℕ) (src : Frame)
    (table : Option Table) :
    due (log ++ [.process (pass + 1) src table]) = due log := by
  simp [due]

@[simp] theorem due_unref (log : List (Event Frame Table)) (table : Option Table) :
    due (log ++ EncModule.unref table) = due log := by
  cases table <;> simp [due, EncModule.unref]

@[simp] theorem due_stopped (log : List (Event Frame Table)) :
    due (log ++ [.stopped]) = none := by
  simp [due]

/-- The pending tables of the encoders. -/
def EncModule.slots (m : EncModule Frame Table) : List (Option Table) :=
  m.encoders.map (·.nextQPBuffer)

/-- The pending table of the first encoder. -/
def EncModule.front (m : EncModule Frame Table) : Option Table := m.slots.headD none

/-- A frame is submitted to encoders whose creation has succeeded, and with a
pending table only if there is one pass; and no table is pending in an encoder
when the module is destroyed. -/
def InUse (m : EncModule Frame Table) : Op Frame Table → Prop
  | .empty (some _) _ _ =>
    m.encoders ≠ [] → m.created = true ∧ (m.encoders.length = 1 ∨ m.front = none)
  | .destroy => ∀ e ∈ m.encoders, e.nextQPBuffer = none
  | _ => True

variable [DecidableEq Frame]

/-- The table that a frame was submitted with. -/
def assigned (src : Frame) (log : List (Event Frame Table)) : Option Table :=
  log.foldl (fun table e =>
    match e with
    | .process 0 src' qpTable => if src' = src then qpTable else table
    | _ => table) none

/-- A frame gets the table that is due, and no other frame gets it; in the other
passes it gets that table again.  A reference is dropped once, behind the last
use. -/
def Proper (pre : List (Event Frame Table)) : Event Frame Table → Prop
  | .given table => .given table ∉ pre
  | .process 0 _ qpTable =>
    qpTable = due pre ∧ ∀ table, qpTable = some table →
      .unref table ∉ pre ∧ ∀ src, .process 0 src (some table) ∉ pre
  | .process (_ + 1) src qpTable =>
    qpTable = assigned src pre ∧ ∀ table, qpTable = some table → .unref table ∉ pre
  | .unref table => .given table ∈ pre ∧ .unref table ∉ pre
  | .stopped => True

/-- Everything is proper, and a reference that is not dropped is still held. -/
structure EncModule.HandedOver (m : EncModule Frame Table) : Prop where
  lawful : Lawful Proper m.log
  held : ∀ table, .given table ∈ m.log →
    .unref table ∈ m.log ∨ m.nextQPBuffer = some table ∨ m.front = some table
  released : m.destroyed = true → ∀ table, .given table ∈ m.log → .unref table ∈ m.log

/-! ## Logs -/

section Logs

variable (log : List (Event Frame Table))

@[simp] theorem assigned_given (src : Frame) (table : Table) :
    assigned src (log ++ [.given table]) = assigned src log := by
  simp [assigned]

@[simp] theorem assigned_unref (src : Frame) (table : Option Table) :
    assigned src (log ++ EncModule.unref table) = assigned src log := by
  cases table <;> simp [assigned, EncModule.unref]

theorem assigned_process {src : Frame} (h : assigned src log = none) (pass : ℕ) (src' : Frame) :
    assigned src (log ++ [.process pass src' none]) = none := by
  cases pass with
  | zero =>
    simp only [assigned, List.foldl_append, List.foldl_cons, List.foldl_nil]
    split
    · rfl
    · exact h
  | succ pass => simpa [assigned] using h

theorem assigned_submit (src : Frame) (table : Option Table) :
    assigned src (log ++ [.process 0 src table]) = table := by
  simp [assigned]

variable {log}

omit [DecidableEq Frame] in
theorem mem_of_due {log : List (Event Frame Table)} {table : Table} (h : due log = some table) :
    .given table ∈ log := by
  induction log using List.reverseRecOn with
  | nil => simp [due] at h
  | append_singleton log e ih =>
    cases e with
    | given t =>
      rw [due_given, Option.some.injEq] at h
      simp [h]
    | process pass src t =>
      cases pass with
      | zero => simp at h
      | succ pass =>
        rw [due_again] at h
        exact List.mem_append_left _ (ih h)
    | unref t =>
      have hsame : due (log ++ [.unref t]) = due log := due_unref log (some t)
      rw [hsame] at h
      exact List.mem_append_left _ (ih h)
    | stopped => simp at h

theorem notMem_of_lawful (h : Lawful Proper log) {table : Table} (ht : .given table ∉ log) :
    .unref table ∉ log ∧ ∀ src, .process 0 src (some table) ∉ log := by
  constructor
  · intro hm
    obtain ⟨pre, post, rfl⟩ := List.append_of_mem hm
    have hgiven := (h pre _ post rfl).1
    exact ht (List.mem_append_left _ hgiven)
  · intro src hm
    obtain ⟨pre, post, rfl⟩ := List.append_of_mem hm
    have hdue := (h pre _ post rfl).1
    exact ht (List.mem_append_left _ (mem_of_due hdue.symm))

theorem lawful_unref (h : Lawful Proper log) {table : Option Table}
    (ht : ∀ t, table = some t → .given t ∈ log ∧ .unref t ∉ log) :
    Lawful Proper (log ++ EncModule.unref table) := by
  cases table with
  | none => simpa [EncModule.unref] using h
  | some t => exact h.append (ht t rfl)

end Logs

/-! ## The invariant -/

namespace EncModule

variable {m m' : EncModule Frame Table}

/-- What every operation in use keeps: of the two places of the module only the
first encoder and the module itself hold tables. -/
structure Kept (m : EncModule Frame Table) : Prop where
  lawful : Lawful Proper m.log
  others : ∀ table ∈ m.slots.tail, table = none
  idle : m.destroyed = false → m.encoders = [] → due m.log = m.nextQPBuffer
  ready : m.created = true → due m.log = m.front ∧ m.nextQPBuffer = none
  started : m.created = true → m.encoders ≠ []
  holds : ∀ table, m.nextQPBuffer = some table ∨ m.front = some table →
    .given table ∈ m.log ∧ .unref table ∉ m.log ∧ ∀ src, .process 0 src (some table) ∉ m.log
  apart : ∀ table, m.nextQPBuffer = some table → m.front ≠ some table
  held : ∀ table, .given table ∈ m.log →
    .unref table ∈ m.log ∨ m.nextQPBuffer = some table ∨ m.front = some table
  plain : 1 < m.encoders.length → ∀ e ∈ m.encoders, ∀ src ∈ e.processing ++ e.fifo,
    assigned src m.log = none
  released : m.destroyed = true → m.nextQPBuffer = none ∧ m.front = none

theorem kept_init : (init : EncModule Frame Table).Kept where
  lawful := lawful_nil
  others := by simp [init, slots]
  idle _ _ := rfl
  ready h := by simp [init] at h
  started h := by simp [init] at h
  holds table h := by simp [init, front, slots] at h
  apart table h := by simp [init] at h
  held table h := by simp [init] at h
  plain h := by simp [init] at h
  released h := by simp [init] at h

theorem Kept.handedOver (h : m.Kept) : m.HandedOver where
  lawful := h.lawful
  held := h.held
  released hd table ht := by
    obtain ⟨hnext, hfront⟩ := h.released hd
    simpa [hnext, hfront] using h.held table ht

theorem forall_modify {α : Type} {P : α → Prop} {l : List α} {i : ℕ} {f : α → α}
    (h : ∀ x ∈ l, P x) (hf : ∀ x ∈ l, P (f x)) : ∀ x ∈ l.modify i f, P x := by
  intro x hx
  obtain ⟨k, hk⟩ := List.mem_iff_getElem?.mp hx
  rw [List.getElem?_modify] at hk
  obtain ⟨y, hy, hxy⟩ := Option.map_eq_some_iff.mp hk
  have hmem := List.mem_of_getElem? hy
  subst hxy
  split
  · exact hf y hmem
  · exact h y hmem

omit [DecidableEq Frame] in
variable {f : GenericEncoder Frame Table → GenericEncoder Frame Table}

theorem slots_modify {i : ℕ}
    (hf : ∀ e, (f e).nextQPBuffer = e.nextQPBuffer) (encoders : List (GenericEncoder Frame Table)) :
    (encoders.modify i f).map (·.nextQPBuffer) = encoders.map (·.nextQPBuffer) := by
  refine List.ext_getElem? fun k => ?_
  rw [List.getElem?_map, List.getElem?_map, List.getElem?_modify]
  cases encoders[k]? with
  | none => rfl
  | some e =>
    by_cases hk : i = k
    · simp [hk, hf]
    · simp [hk]

/-- An operation that changes the frames of the encoders only. -/
theorem Kept.frames (h : m.Kept) {i : ℕ} (hf : ∀ e, (f e).nextQPBuffer = e.nextQPBuffer)
    (hsub : ∀ e ∈ m.encoders, ∀ src ∈ (f e).processing ++ (f e).fifo,
      1 < m.encoders.length → assigned src m.log = none) :
    ({ m with encoders := m.encoders.modify i f } : EncModule Frame Table).Kept := by
  have hslots : ({ m with encoders := m.encoders.modify i f } : EncModule Frame Table).slots =
      m.slots := slots_modify hf m.encoders
  have hfront : ({ m with encoders := m.encoders.modify i f } : EncModule Frame Table).front =
      m.front := congrArg (List.headD · none) hslots
  exact {
    lawful := h.lawful
    others := hslots ▸ h.others
    idle := fun hd he => h.idle hd (by simpa using he)
    ready := hfront ▸ h.ready
    started := fun hc => by simpa using h.started hc
    holds := hfront ▸ h.holds
    apart := hfront ▸ h.apart
    held := hfront ▸ h.held
    plain := fun hlen => by
      rw [List.length_modify] at hlen
      exact forall_modify (h.plain hlen) fun e he src hs => hsub e he src hs hlen
    released := hfront ▸ h.released }

theorem Kept.process_none (h : m.Kept) (hne : m.encoders ≠ []) (pass : ℕ) (src : Frame)
    (hdue : pass = 0 → m.created = true ∧ due m.log = none)
    (hsrc : pass ≠ 0 → assigned src m.log = none) (success : Bool) :
    (m.process pass src none success).Kept := by
  have hassigned : ∀ src', assigned src' m.log = none →
      assigned src' (m.log ++ [.process pass src none]) = none :=
    fun src' hs => assigned_process m.log hs pass src
  have hthis : assigned src (m.log ++ [.process pass src none]) = none := by
    cases pass with
    | zero => exact assigned_submit m.log src none
    | succ pass => exact hassigned src (hsrc (by simp))
  have hlog : Kept { m with log := m.log ++ [.process pass src none] } := {
    lawful := h.lawful.append (by
      cases pass with
      | zero => exact ⟨(hdue rfl).2.symm, by simp⟩
      | succ pass => exact ⟨(hsrc (by simp)).symm, by simp⟩)
    others := h.others
    idle := fun _ he => absurd he hne
    ready := fun hc => by
      obtain ⟨hfront, hnext⟩ := h.ready hc
      refine ⟨?_, hnext⟩
      cases pass with
      | zero => exact (due_submit m.log src none).trans ((hdue rfl).2.symm.trans hfront)
      | succ pass => exact (due_again m.log pass src none).trans hfront
    started := h.started
    holds := fun table ht => by
      obtain ⟨hgiven, hunref, hprocess⟩ := h.holds table ht
      exact ⟨List.mem_append_left _ hgiven, by simp [hunref], by simp [hprocess]⟩
    apart := h.apart
    held := fun table ht => by
      have hgiven : .given table ∈ m.log := by simpa using ht
      exact (h.held table hgiven).imp_left (List.mem_append_left _)
    plain := fun hlen e he src' hs => hassigned src' (h.plain hlen e he src' hs)
    released := h.released }
  cases success with
  | false => exact hlog
  | true =>
    refine hlog.frames (fun _ => rfl) fun e he src' hs hlen => ?_
    have hmem : src' ∈ e.processing ++ e.fifo ∨ src' = src := by
      simp only [List.mem_append, List.mem_singleton] at hs ⊢
      tauto
    rcases hmem with hmem | rfl
    · exact hlog.plain hlen e he src' hmem
    · exact hthis

variable {table : Table}

/-- A new table takes the place of the one that waited. -/
theorem Kept.give (h : m.Kept) (hnew : .given table ∉ m.log) (old : Option Table)
    (hold : ∀ t, old = some t → .given t ∈ m.log ∧ .unref t ∉ m.log) :
    Lawful Proper (m.log ++ [.given table] ++ unref old) ∧
      (.given table ∈ m.log ++ [.given table] ++ unref old ∧
        .unref table ∉ m.log ++ [.given table] ++ unref old ∧
        ∀ src, .process 0 src (some table) ∉ m.log ++ [.given table] ++ unref old) ∧
      (∀ t, .given t ∈ m.log → .unref t ∉ m.log → (∀ src, .process 0 src (some t) ∉ m.log) →
        old ≠ some t → .given t ∈ m.log ++ [.given table] ++ unref old ∧
          .unref t ∉ m.log ++ [.given table] ++ unref old ∧
          ∀ src, .process 0 src (some t) ∉ m.log ++ [.given table] ++ unref old) := by
  obtain ⟨hunref, hprocess⟩ := notMem_of_lawful h.lawful hnew
  have hne : ∀ t, old = some t → t ≠ table := fun t ht heq => hnew (heq ▸ (hold t ht).1)
  refine ⟨?_, ?_, ?_⟩
  · have hgiven : Proper m.log (.given table) := hnew
    refine lawful_unref (h.lawful.append hgiven) fun t ht => ?_
    exact ⟨List.mem_append_left _ (hold t ht).1, by simp [(hold t ht).2]⟩
  · cases old with
    | none => simp [unref, hunref, hprocess]
    | some t => simp [unref, hunref, hprocess, (hne t rfl).symm]
  · intro t hgiven hnot hno hother
    cases old with
    | none => simp [unref, hgiven, hnot, hno]
    | some t' =>
      have hne' : t ≠ t' := fun heq => hother (congrArg some heq.symm)
      simp [unref, hgiven, hnot, hno, hne']

theorem Kept.setDynamic (h : m.Kept) (hd : m.destroyed = false)
    (hnew : .given table ∉ m.log) : (m.setDynamic table).Kept := by
  unfold EncModule.setDynamic
  cases he : m.encoders with
  | nil =>
    have hfront : m.front = none := by simp [front, slots, he]
    obtain ⟨hlawful, hthis, hkeep⟩ := h.give hnew m.nextQPBuffer fun t ht =>
      ⟨(h.holds t (.inl ht)).1, (h.holds t (.inl ht)).2.1⟩
    exact {
      lawful := hlawful
      others := by simp [slots]
      idle := fun _ _ => (due_unref _ _).trans (due_given _ _)
      ready := fun hc => absurd he (h.started hc)
      started := fun hc => absurd he (h.started hc)
      holds := fun t ht => by
        rcases ht with ht | ht
        · obtain rfl : table = t := Option.some.inj ht
          exact hthis
        · simp [front, slots] at ht
      apart := fun t _ ht => by simp [front, slots] at ht
      held := fun t ht => by
        by_cases heq : t = table
        · exact .inr (.inl (by rw [heq]))
        · have hgiven : .given t ∈ m.log := by
            simp only [List.mem_append, List.mem_singleton, Event.given.injEq] at ht
            rcases ht with (ht | ht) | ht
            · exact ht
            · exact absurd ht heq
            · cases hq : m.nextQPBuffer <;> simp [unref, hq] at ht
          rcases h.held t hgiven with hu | hn | hf
          · exact .inl (by simp [hu])
          · exact .inl (by simp [unref, hn])
          · simp [hfront] at hf
      plain := fun hlen => by simp at hlen
      released := fun hdes => by simp [hd] at hdes }
  | cons enc rest =>
    have hfront : m.front = enc.nextQPBuffer := by simp [front, slots, he]
    obtain ⟨hlawful, hthis, hkeep⟩ := h.give hnew enc.nextQPBuffer fun t ht =>
      ⟨(h.holds t (.inr (hfront.trans ht))).1, (h.holds t (.inr (hfront.trans ht))).2.1⟩
    exact {
      lawful := hlawful
      others := by simpa [slots, he] using h.others
      idle := fun _ hnil => by simp at hnil
      ready := fun hc => ⟨(due_unref _ _).trans (due_given _ _), (h.ready hc).2⟩
      started := fun _ => by simp
      holds := fun t ht => by
        rcases ht with ht | ht
        · obtain ⟨h1, h2, h3⟩ := h.holds t (.inl ht)
          exact hkeep t h1 h2 h3 (hfront ▸ h.apart t ht)
        · obtain rfl : table = t := by simpa [front, slots] using ht
          exact hthis
      apart := fun t ht hf => by
        obtain rfl : table = t := by simpa [front, slots] using hf
        exact hnew (h.holds table (.inl ht)).1
      held := fun t ht => by
        by_cases heq : t = table
        · exact .inr (.inr (by simp [front, slots, heq]))
        · have hgiven : .given t ∈ m.log := by
            simp only [List.mem_append, List.mem_singleton, Event.given.injEq] at ht
            rcases ht with (ht | ht) | ht
            · exact ht
            · exact absurd ht heq
            · cases hq : enc.nextQPBuffer <;> simp [unref, hq] at ht
          rcases h.held t hgiven with hu | hn | hf
          · exact .inl (by simp [hu])
          · exact .inr (.inl hn)
          · exact .inl (by simp [unref, hfront.symm.trans hf])
      plain := fun hlen e hmem src hs => by
        rw [assigned_unref, assigned_given]
        rw [List.length_cons] at hlen
        rcases List.mem_cons.mp hmem with rfl | hmem
        · exact h.plain (by simpa [he] using hlen) enc (by simp [he]) src hs
        · exact h.plain (by simpa [he] using hlen) e (by simp [he, hmem]) src hs
      released := fun hdes => by simp [hd] at hdes }

theorem Kept.createEncoder (h : m.Kept) (hd : m.destroyed = false) {numPass : ℕ}
    (hpass : 1 ≤ numPass) (roiCtx success : Bool) :
    (m.createEncoder numPass roiCtx success).Kept := by
  unfold EncModule.createEncoder
  cases he : m.encoders with
  | cons enc rest => exact h
  | nil =>
    have hfront : m.front = none := by simp [front, slots, he]
    cases roiCtx with
    | false => exact h
    | true =>
      cases success with
      | true =>
        exact {
          lawful := h.lawful
          others := by simp [slots]
          idle := fun _ hnil => by simp at hnil
          ready := fun _ => ⟨by simpa [front, slots] using h.idle hd he, rfl⟩
          started := fun _ => by simp
          holds := fun t ht => by
            rcases ht with ht | ht
            · cases ht
            · exact h.holds t (.inl (by simpa [front, slots] using ht))
          apart := fun t ht => by cases ht
          held := fun t ht => by
            rcases h.held t ht with hu | hn | hf
            · exact .inl hu
            · exact .inr (.inr (by simpa [front, slots] using hn))
            · simp [hfront] at hf
          plain := fun _ e hmem src hs => by
            rcases List.mem_cons.mp hmem with rfl | hmem
            · simp at hs
            · obtain rfl := List.eq_of_mem_replicate hmem
              simp at hs
          released := fun hdes => by simp [hd] at hdes }
      | false =>
        have hslots : ∀ x ∈ (List.replicate numPass
            (⟨none, [], []⟩ : GenericEncoder Frame Table)).map (·.nextQPBuffer), x = none := by
          simp
        have hnone : ({ m with encoders := List.replicate numPass ⟨none, [], []⟩ } :
            EncModule Frame Table).front = none := by
          cases numPass <;> simp [front, slots, List.replicate_succ]
        exact {
          lawful := h.lawful
          others := fun x hx => hslots x (List.mem_of_mem_tail hx)
          idle := fun _ hnil => by
            have : numPass = 0 := by simpa using hnil
            omega
          ready := fun hc => absurd he (h.started hc)
          started := fun hc => absurd he (h.started hc)
          holds := fun t ht =>
            ht.elim (fun hn => h.holds t (.inl hn)) fun hf => by cases hnone.symm.trans hf
          apart := fun t _ hf => by cases hnone.symm.trans hf
          held := fun t ht => by
            rcases h.held t ht with hu | hn | hf
            · exact .inl hu
            · exact .inr (.inl hn)
            · simp [hfront] at hf
          plain := fun _ e hmem src hs => by
            obtain rfl := List.eq_of_mem_replicate hmem
            simp at hs
          released := fun hdes => by simp [hd] at hdes }

variable {enc : GenericEncoder Frame Table}

/-- With one pass a frame takes the pending table, and its reference is dropped. -/
theorem Kept.take (h : m.Kept) (hc : m.created = true)
    (he : m.encoders = [enc]) (ht : enc.nextQPBuffer = some table) (src : Frame)
    (last : GenericEncoder Frame Table) (hlast : last.nextQPBuffer = none) : ({ m with
      log := m.log ++ [.process 0 src (some table)] ++ [.unref table]
      encoders := [last] } : EncModule Frame Table).Kept := by
  have hfront : m.front = some table := by simp [front, slots, he, ht]
  obtain ⟨hdue, hnext⟩ := h.ready hc
  obtain ⟨hgiven, hunref, hprocess⟩ := h.holds table (.inr hfront)
  have hd : m.destroyed = false := by
    by_contra hd
    have := (h.released (by simpa using hd)).2
    simp [hfront] at this
  have hproper : Proper m.log (.process 0 src (some table)) := by
    refine ⟨(hdue.trans hfront).symm, fun t heq => ?_⟩
    obtain rfl := Option.some.inj heq
    exact ⟨hunref, hprocess⟩
  have hnone : ({ m with
      log := m.log ++ [.process 0 src (some table)] ++ [.unref table]
      encoders := [last] } : EncModule Frame Table).front = none := by
    simp [front, slots, hlast]
  exact {
    lawful := (h.lawful.append hproper).append ⟨by simp [hgiven], by simp [hunref]⟩
    others := by simp [slots]
    idle := fun _ hnil => by simp at hnil
    ready := fun _ => ⟨((due_unref _ (some table)).trans (due_submit _ _ _)).trans hnone.symm, hnext⟩
    started := fun _ => by simp
    holds := fun t ht =>
      ht.elim (fun hn => by cases hnext.symm.trans hn) fun hf => by cases hnone.symm.trans hf
    apart := fun t _ hf => by cases hnone.symm.trans hf
    held := fun t ht => by
      have hold : .given t ∈ m.log := by simpa using ht
      rcases h.held t hold with hu | hn | hf
      · exact .inl (by simp [hu])
      · cases hnext.symm.trans hn
      · obtain rfl := Option.some.inj (hfront.symm.trans hf)
        exact .inl (by simp)
    plain := fun hlen => by simp at hlen
    released := fun hdes => by simp [hd] at hdes }

theorem Kept.empty (h : m.Kept) {src : Option Frame} {ready success : Bool}
    (hin : InUse m (.empty src ready success)) : (m.empty src ready success).Kept := by
  unfold EncModule.empty
  cases he : m.encoders with
  | nil => exact h
  | cons enc rest =>
    cases src with
    | none => exact h
    | some src =>
      have hne : m.encoders ≠ [] := by simp [he]
      obtain ⟨hc, hone⟩ := hin hne
      have hfront : m.front = enc.nextQPBuffer := by simp [front, slots, he]
      cases ready with
      | false => exact h
      | true =>
        cases ht : enc.nextQPBuffer with
        | none =>
          have hdue : due m.log = none := (h.ready hc).1.trans (hfront.trans ht)
          have hp := h.process_none hne 0 src (fun _ => ⟨hc, hdue⟩)
            (fun hz => absurd rfl hz) success
          simpa [ht] using hp
        | some table =>
          have hrest : rest = [] := by
            rcases hone with hlen | hnone
            · simpa [he] using hlen
            · simp [hfront, ht] at hnone
          subst hrest
          cases success with
          | true =>
            simpa [ht, process, setNextQPBuffer, he] using h.take hc he ht src
              ⟨none, enc.processing ++ [src], enc.fifo⟩ rfl
          | false =>
            simpa [ht, process, setNextQPBuffer, he] using h.take hc he ht src
              ⟨none, enc.processing, enc.fifo⟩ rfl

/-- The frames between the passes are forwarded without a table. -/
theorem Kept.emptyFifo (h : m.Kept) {pass : ℕ} {encoder nextEnc : GenericEncoder Frame Table}
    (henc : m.encoders[pass]? = some encoder) (hnext : m.encoders[pass + 1]? = some nextEnc)
    {src : Frame} {fifo : List Frame} (hf : encoder.fifo = src :: fifo) (success : Bool) :
    (m.emptyFifo pass nextEnc src fifo success).Kept := by
  have hlen : 1 < m.encoders.length := by
    have := (List.getElem?_eq_some_iff.mp hnext).1
    omega
  have hslot : nextEnc.nextQPBuffer = none := by
    refine h.others _ (List.mem_of_getElem? (i := pass) ?_)
    rw [slots, ← List.map_tail, List.getElem?_map, List.getElem?_tail, hnext]
    rfl
  have hplain := h.plain hlen encoder (List.mem_of_getElem? henc)
  have hframes : ({ m with encoders := m.encoders.modify pass fun e => { e with fifo := fifo } } :
      EncModule Frame Table).Kept := by
    refine h.frames (fun _ => rfl) fun e he src' hs _ => ?_
    rcases List.mem_append.mp hs with hs | hs
    · exact h.plain hlen e he src' (List.mem_append_left _ hs)
    · exact hplain src' (by simp [hf, hs])
  have hp := hframes.process_none ?_ (pass + 1) src (fun hz => by simp at hz)
    (fun _ => hplain src (by simp [hf])) success
  · unfold EncModule.emptyFifo
    simpa [hslot] using hp
  · have : m.encoders ≠ [] := by
      intro hnil
      simp [hnil] at hlen
    simpa using this

theorem Kept.stop (h : m.Kept) (hd : m.destroyed = false) : m.stop.Kept := by
  have hflat : m.encoders.flatMap (fun e => unref e.nextQPBuffer) =
      (unref m.front : List (Event Frame Table)) := by
    have hslots : ∀ l : List (Option Table), (∀ x ∈ l.tail, x = none) →
        l.flatMap unref = (unref (l.headD none) : List (Event Frame Table)) := by
      intro l hl
      cases l with
      | nil => rfl
      | cons x l =>
        have hnil : l.flatMap unref = ([] : List (Event Frame Table)) := by
          refine List.flatMap_eq_nil_iff.mpr fun y hy => ?_
          rw [hl y hy]
          rfl
        rw [List.flatMap_cons, hnil, List.append_nil]
        rfl
    rw [front, ← hslots m.slots h.others, slots, List.flatMap_map]
  unfold EncModule.stop
  rw [hflat]
  have hlawful : Lawful Proper (m.log ++ unref m.nextQPBuffer) :=
    lawful_unref h.lawful fun t ht => ⟨(h.holds t (.inl ht)).1, (h.holds t (.inl ht)).2.1⟩
  have hlawful' : Lawful Proper (m.log ++ unref m.nextQPBuffer ++ unref m.front) := by
    refine lawful_unref hlawful fun t ht => ?_
    obtain ⟨hgiven, hunref, -⟩ := h.holds t (.inr ht)
    refine ⟨List.mem_append_left _ hgiven, fun hm => ?_⟩
    rcases List.mem_append.mp hm with hm | hm
    · exact hunref hm
    · cases hn : m.nextQPBuffer with
      | none => simp [unref, hn] at hm
      | some t' =>
        obtain rfl : t = t' := by simpa [unref, hn] using hm
        exact h.apart t hn ht
  exact {
    lawful := hlawful'.append trivial
    others := by simp [slots]
    idle := fun _ _ => due_stopped _
    ready := fun hc => by cases hc
    started := fun hc => by cases hc
    holds := fun t ht => by simp [front, slots] at ht
    apart := fun t ht => by cases ht
    held := fun t ht => by
      have hgiven : .given t ∈ m.log := by
        cases hn : m.nextQPBuffer <;> cases hf : m.front <;> simpa [unref, hn, hf] using ht
      rcases h.held t hgiven with hu | hn | hf
      · exact .inl (by simp [hu])
      · exact .inl (by simp [unref, hn])
      · exact .inl (by simp [unref, hf])
    plain := fun hlen => by simp at hlen
    released := fun hdes => by simp [hd] at hdes }

theorem Kept.destroy (h : m.Kept) (hin : InUse m .destroy) : m.destroy.Kept := by
  have hfront : m.front = none := by
    cases he : m.encoders with
    | nil => simp [front, slots, he]
    | cons enc rest =>
      have := hin enc (by simp [he])
      simpa [front, slots, he] using this
  have hsame : m.destroy.front = none := hfront
  exact {
    lawful := lawful_unref h.lawful fun t ht => ⟨(h.holds t (.inl ht)).1, (h.holds t (.inl ht)).2.1⟩
    others := h.others
    idle := fun hdes => by cases hdes
    ready := fun hc => by
      obtain ⟨hdue, -⟩ := h.ready hc
      exact ⟨(due_unref _ _).trans hdue, rfl⟩
    started := h.started
    holds := fun t ht =>
      ht.elim (fun hn => by cases hn) fun hf => by cases hsame.symm.trans hf
    apart := fun t ht => by cases ht
    held := fun t ht => by
      have hgiven : .given t ∈ m.log := by
        cases hn : m.nextQPBuffer <;> simpa [EncModule.destroy, unref, hn] using ht
      rcases h.held t hgiven with hu | hn | hf
      · exact .inl (List.mem_append_left _ hu)
      · exact .inl (List.mem_append_right _ (by simp [unref, hn]))
      · cases hfront.symm.trans hf
    plain := fun hlen e he src hs => by
      rw [EncModule.destroy, assigned_unref]
      exact h.plain hlen e he src hs
    released := fun _ => ⟨rfl, hsame⟩ }

theorem Kept.addFifo (h : m.Kept) {pass : ℕ} {src : Frame}
    (henc : m.encoders[pass]? = some enc) (hsrc : src ∈ enc.processing) : ({ m with
      encoders := m.encoders.modify pass fun e =>
        { e with processing := e.processing.erase src, fifo := e.fifo ++ [src] } } :
      EncModule Frame Table).Kept := by
  refine h.frames (fun _ => rfl) fun e he src' hs hlen => ?_
  simp only [List.mem_append, List.mem_singleton] at hs
  rcases hs with hs | hs | rfl
  · exact h.plain hlen e he src' (List.mem_append_left _ (List.mem_of_mem_erase hs))
  · exact h.plain hlen e he src' (List.mem_append_right _ hs)
  · exact h.plain hlen enc (List.mem_of_getElem? henc) src' (List.mem_append_left _ hsrc)

theorem Kept.step [DecidableEq Table] (h : m.Kept) {op : Op Frame Table} (hin : InUse m op)
    (hs : QpTables.step m op = some m') : m'.Kept := by
  unfold QpTables.step at hs
  rw [Option.ite_none_left_eq_some] at hs
  obtain ⟨hd, hs⟩ := hs
  have hd : m.destroyed = false := by simpa using hd
  cases op with
  | setDynamic table =>
    obtain ⟨hnew, hs⟩ := Option.ite_none_left_eq_some.mp hs
    exact Option.some.inj hs ▸ h.setDynamic hd hnew
  | start numPass roiCtx success =>
    obtain ⟨hpass, hs⟩ := Option.ite_none_right_eq_some.mp hs
    exact Option.some.inj hs ▸ h.createEncoder hd hpass roiCtx success
  | empty src ready success => exact Option.some.inj hs ▸ h.empty hin
  | addFifo pass src =>
    cases he : m.encoders[pass]? with
    | none => simp [he] at hs
    | some enc =>
      simp only [he, Option.ite_none_right_eq_some, Option.some.injEq] at hs
      obtain ⟨⟨hsrc, -⟩, rfl⟩ := hs
      exact h.addFifo he hsrc
  | emptyFifo pass success =>
    cases he : m.encoders[pass]? with
    | none => simp [he] at hs
    | some enc =>
      cases hn : m.encoders[pass + 1]? with
      | none => simp [he, hn] at hs
      | some nextEnc =>
        cases hf : enc.fifo with
        | nil => simp [he, hn, hf] at hs
        | cons src fifo =>
          simp only [he, hn, hf, Option.some.injEq] at hs
          exact hs ▸ h.emptyFifo he hn hf success
  | stop => exact Option.some.inj hs ▸ h.stop hd
  | destroy => exact Option.some.inj hs ▸ h.destroy hin

end EncModule

/-- In every run whose operations are in use, the tables are handed over. -/
theorem handedOver_of_run [DecidableEq Table] {ops : List (Op Frame Table)}
    {m : EncModule Frame Table} (hin : GuardedRuns.Guarded step InUse ops .init)
    (hr : GuardedRuns.run step ops .init = some m) : m.HandedOver := by
  have hstep : ∀ (m : EncModule Frame Table) (op : Op Frame Table) (m' : EncModule Frame Table),
      m.Kept → InUse m op → step m op = some m' → m'.Kept := fun m op m' hk hop hs => hk.step hop hs
  exact (GuardedRuns.invariant_of_run hstep EncModule.kept_init hin hr).handedOver

instance [DecidableEq Table] (m : EncModule Frame Table) (op : Op Frame Table) :
    Decidable (InUse m op) := by
  cases op with
  | empty src ready success => cases src <;> unfold InUse <;> infer_instance
  | _ => unfold InUse; infer_instance

/-- Three tables with one pass: the first is replaced, the second is used, and
the third is dropped by `Stop`. -/
def Op.threeTables : List (Op ℕ ℕ) :=
  [.setDynamic 1, .start 1 true true, .setDynamic 2, .empty (some 10) true true,
    .empty (some 11) true true, .setDynamic 3, .stop, .destroy]

theorem handedOver_threeTables : ∃ m, GuardedRuns.run step Op.threeTables .init = some m ∧
    m.log = [.given 1, .given 2, .unref 1, .process 0 10 (some 2), .unref 2, .process 0 11 none,
      .given 3, .unref 3, .stopped] ∧ m.HandedOver := by
  have hin : GuardedRuns.Guarded step InUse Op.threeTables .init := by decide +kernel
  obtain ⟨m, hr⟩ : ∃ m, GuardedRuns.run step Op.threeTables .init = some m :=
    Option.isSome_iff_exists.mp (by decide +kernel)
  have hlog : (GuardedRuns.run step Op.threeTables .init).map EncModule.log =
      some [.given 1, .given 2, .unref 1, .process 0 10 (some 2), .unref 2, .process 0 11 none,
        .given 3, .unref 3, .stopped] := by decide +kernel
  rw [hr] at hlog
  exact ⟨m, hr, Option.some.inj hlog, handedOver_of_run hin hr⟩

/-- With two passes, a table and two frames. -/
def Op.twoPasses : List (Op ℕ ℕ) :=
  [.start 2 true true, .setDynamic 1, .empty (some 10) true true, .empty (some 11) true true]

/-- With two passes the table of the first frame is also that of the second one. -/
theorem not_handedOver_twoPasses : ∃ m, GuardedRuns.run step Op.twoPasses .init = some m ∧
    m.log = [.given 1, .process 0 10 (some 1), .process 0 11 (some 1)] ∧ ¬ m.HandedOver := by
  obtain ⟨m, hr⟩ : ∃ m, GuardedRuns.run step Op.twoPasses .init = some m :=
    Option.isSome_iff_exists.mp (by decide +kernel)
  have hlog : (GuardedRuns.run step Op.twoPasses .init).map EncModule.log =
      some [.given 1, .process 0 10 (some 1), .process 0 11 (some 1)] := by decide +kernel
  rw [hr] at hlog
  have hlog : m.log = [.given 1, .process 0 10 (some 1), .process 0 11 (some 1)] :=
    Option.some.inj hlog
  refine ⟨m, hr, hlog, fun h => ?_⟩
  have hdue := (h.lawful [.given 1, .process 0 10 (some 1)] _ [] hlog).1
  simp [due] at hdue

end VcuCodec.QpTables
