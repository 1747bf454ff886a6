import VcuCodec.FrmBufPool

/-!
# Where the frame buffers are

`Conserved` is what holds after any number of steps of the parties as long as
the application gives back no buffer that went out early, is not referred to
any more and was never put out by the buffer of pictures: each buffer is in one
place, and the FIFO is a chain of free slots with distinct buffers.
-/

namespace VcuCodec

open LinkedQueues

/-! ## Places -/

/-- Where a buffer is. -/
inductive BufPlace
  | fifo
  | decoder
  | application
  deriving DecidableEq, Repr

namespace PoolUse

/-- A slot outside the FIFO is referred to and holds `b`. -/
def InUse (s : PoolUse) (fifo : List ℕ) (b : ℕ) : Prop :=
  ∃ i < frmBufPoolSize, i ∉ fifo ∧ (s.pool.array i).pFrame = some b ∧ 1 ≤ (s.pool.array i).iAccessCnt

/-- Buffer `b` is in place `place`.  A buffer on display stays with the decoder
as long as that refers to it. -/
def At (s : PoolUse) (fifo : List ℕ) (b : ℕ) : BufPlace → Prop
  | .fifo => ∃ i ∈ fifo, (s.pool.array i).pFrame = some b
  | .decoder => s.InUse fifo b
  | .application => s.app b = true ∧ ¬ s.InUse fifo b

/-- The buffers of `s` where `fifo` is the list of the free slots. -/
structure Conserved (s : PoolUse) (fifo : List ℕ) : Prop where
  queue : s.pool.queue.Holds fifo
  free : ∀ i ∈ fifo, i < frmBufPoolSize ∧ (s.pool.array i).iAccessCnt = 0 ∧
    (s.pool.array i).pFrame ≠ none
  outside : ∀ i < frmBufPoolSize, i ∉ fifo → (s.pool.array i).iNext = none
  distinct : ∀ i < frmBufPoolSize, ∀ j < frmBufPoolSize, (s.pool.array i).pFrame ≠ none →
    (s.pool.array i).pFrame = (s.pool.array j).pFrame → i = j
  placed : ∀ b, ∃! place, s.At fifo b place

/-- The application does not give back a buffer that went out early, is not
referred to any more and was not put out by the buffer of pictures. -/
def NotStranded (s : PoolUse) : PoolOp → Prop
  | .putDisplayBuffer b => ∀ i ∈ s.pool.getFrameIDFromDisplay b,
      ¬ ((s.pool.array i).bOutEarly = true ∧ (s.pool.array i).iAccessCnt = 0 ∧
        (s.pool.array i).bWillBeOutputed = false)
  | _ => True

instance (s : PoolUse) : ∀ op, Decidable (s.NotStranded op)
  | .putDisplayBuffer _ => inferInstanceAs (Decidable (∀ _ ∈ _, _))
  | .beginFrame => isTrue trivial
  | .increment _ => isTrue trivial
  | .decrement _ => isTrue trivial
  | .output _ => isTrue trivial
  | .display _ => isTrue trivial
  | .forceDisplay _ => isTrue trivial
  | .releaseUnused => isTrue trivial

/-! ## The slots -/

/-- The states of a slot: whether it is in the FIFO, whether it waits for its
display, and what it holds.  With early output (`force`) the flag `bOutEarly`
says that the application has the buffer; without it `bWillBeOutputed` says
that it has it or waits for it. -/
inductive SlotOk (force : Bool) (app : ℕ → Bool) : Bool → Bool → FrameFifo → Prop
  | empty : SlotOk force app false false ⟨none, none, -1, false, false⟩
  | free {b : ℕ} {next : Option ℕ} (ha : app b = false) :
      SlotOk force app true false ⟨some b, next, 0, false, false⟩
  | held {b : ℕ} {n : ℤ} (hf : force = false) (hn : 1 ≤ n) (ha : app b = false) :
      SlotOk force app false false ⟨some b, none, n, false, false⟩
  | waiting {b : ℕ} {n : ℤ} (hf : force = false) (hn : 1 ≤ n) (ha : app b = false) :
      SlotOk force app false true ⟨some b, none, n, true, false⟩
  | displayed {b : ℕ} {n : ℤ} (hf : force = false) (hn : 1 ≤ n) (ha : app b = true) :
      SlotOk force app false false ⟨some b, none, n, true, false⟩
  | heldEarly {b : ℕ} {n : ℤ} {w e : Bool} (hf : force = true) (hn : 1 ≤ n) (ha : app b = e) :
      SlotOk force app false false ⟨some b, none, n, w, e⟩
  | outEarly {b : ℕ} {w : Bool} (hf : force = true) (ha : app b = true) :
      SlotOk force app false false ⟨some b, none, 0, w, true⟩

/-- The invariant; the buffer `lost` is just being moved. -/
structure Inv (s : PoolUse) (fifo : List ℕ) (lost : Option ℕ) : Prop where
  queue : s.pool.queue.Holds fifo
  inRange : ∀ i ∈ fifo, i < frmBufPoolSize
  slots : ∀ i < frmBufPoolSize,
    SlotOk s.bForceOutput s.app (i ∈ fifo) (s.waiting i) (s.pool.array i)
  distinct : ∀ i < frmBufPoolSize, ∀ j < frmBufPoolSize, (s.pool.array i).pFrame ≠ none →
    (s.pool.array i).pFrame = (s.pool.array j).pFrame → i = j
  placed : ∀ b, s.app b = true ∨ lost = some b ∨
    ∃ i < frmBufPoolSize, (s.pool.array i).pFrame = some b

theorem SlotOk.congr {force : Bool} {app app' : ℕ → Bool} {inFifo waiting : Bool} {f : FrameFifo}
    (h : SlotOk force app inFifo waiting f) (ha : ∀ b ∈ f.pFrame, app' b = app b) :
    SlotOk force app' inFifo waiting f := by
  cases h with
  | empty => exact .empty
  | free h => exact .free ((ha _ rfl).trans h)
  | held hf hn h => exact .held hf hn ((ha _ rfl).trans h)
  | waiting hf hn h => exact .waiting hf hn ((ha _ rfl).trans h)
  | displayed hf hn h => exact .displayed hf hn ((ha _ rfl).trans h)
  | heldEarly hf hn h => exact .heldEarly hf hn ((ha _ rfl).trans h)
  | outEarly hf h => exact .outEarly hf ((ha _ rfl).trans h)

namespace Inv

variable {s : PoolUse} {fifo : List ℕ} {lost : Option ℕ}

/-- A slot with a buffer is free, referred to, or out early. -/
theorem slot_cases (h : s.Inv fifo lost) {i b : ℕ} (hi : i < frmBufPoolSize)
    (hb : (s.pool.array i).pFrame = some b) :
    (i ∈ fifo ∧ (s.pool.array i).iAccessCnt = 0 ∧ s.app b = false) ∨
    (i ∉ fifo ∧ 1 ≤ (s.pool.array i).iAccessCnt) ∨
    (i ∉ fifo ∧ (s.pool.array i).iAccessCnt = 0 ∧ s.app b = true) := by
  have hslot := h.slots i hi
  revert hslot hb
  generalize s.pool.array i = f
  generalize s.waiting i = w
  intro hb hslot
  by_cases hm : i ∈ fifo
  · simp only [hm, decide_true] at hslot
    cases hslot with
    | free ha =>
      cases hb
      exact Or.inl ⟨hm, rfl, ha⟩
  · simp only [hm, decide_false] at hslot
    cases hslot with
    | empty => cases hb
    | held hf hn ha => exact Or.inr (Or.inl ⟨hm, hn⟩)
    | waiting hf hn ha => exact Or.inr (Or.inl ⟨hm, hn⟩)
    | displayed hf hn ha => exact Or.inr (Or.inl ⟨hm, hn⟩)
    | heldEarly hf hn ha => exact Or.inr (Or.inl ⟨hm, hn⟩)
    | outEarly hf ha =>
      cases hb
      exact Or.inr (Or.inr ⟨hm, rfl, ha⟩)

variable {i : ℕ}

theorem iNext_eq_none (h : s.Inv fifo lost) (hi : i < frmBufPoolSize) (hm : i ∉ fifo) :
    (s.pool.array i).iNext = none := by
  have hslot := h.slots i hi
  simp only [hm, decide_false] at hslot
  revert hslot
  generalize s.pool.array i = f
  generalize s.waiting i = w
  intro hslot
  cases hslot <;> rfl

theorem pFrame_ne_none (h : s.Inv fifo lost) (hm : i ∈ fifo) :
    ∃ b next, s.pool.array i = ⟨some b, next, 0, false, false⟩ ∧ s.app b = false ∧
      s.waiting i = false := by
  have hslot := h.slots i (h.inRange i hm)
  simp only [hm, decide_true] at hslot
  revert hslot
  generalize s.pool.array i = f
  generalize s.waiting i = w
  intro hslot
  cases hslot with
  | free ha => exact ⟨_, _, rfl, ha, rfl⟩

theorem conserved (h : s.Inv fifo none) : s.Conserved fifo := by
  constructor
  · exact h.queue
  · intro i hi
    obtain ⟨b, next, hf, -⟩ := h.pFrame_ne_none hi
    rw [hf]
    exact ⟨h.inRange i hi, rfl, by simp⟩
  · exact fun i hi hm => h.iNext_eq_none hi hm
  · exact h.distinct
  · intro b
    have hsame : ∀ i < frmBufPoolSize, ∀ j < frmBufPoolSize, (s.pool.array i).pFrame = some b →
        (s.pool.array j).pFrame = some b → i = j := fun i hi j hj hbi hbj =>
      h.distinct i hi j hj (by simp [hbi]) (hbi.trans hbj.symm)
    have hfifo : ∀ i ∈ fifo, (s.pool.array i).pFrame = some b → s.app b = false ∧
        ¬ s.InUse fifo b := by
      intro i hm hb
      constructor
      · obtain ⟨b', next, hf, ha, -⟩ := h.pFrame_ne_none hm
        rw [hf] at hb
        cases hb
        exact ha
      · intro hu
        obtain ⟨j, hj, hjm, hjb, -⟩ := hu
        exact hjm (hsame i (h.inRange i hm) j hj hb hjb ▸ hm)
    by_cases hin : ∃ i ∈ fifo, (s.pool.array i).pFrame = some b
    · obtain ⟨i, hm, hb⟩ := hin
      obtain ⟨ha, hu⟩ := hfifo i hm hb
      refine ⟨.fifo, ⟨i, hm, hb⟩, ?_⟩
      intro place hat
      cases place with
      | fifo => rfl
      | decoder => exact absurd hat hu
      | application => exact absurd hat.1 (by simp [ha])
    · by_cases hu : s.InUse fifo b
      · refine ⟨.decoder, hu, ?_⟩
        intro place hat
        cases place with
        | fifo => exact absurd hat hin
        | decoder => rfl
        | application => exact absurd hu hat.2
      · have ha : s.app b = true := by
          rcases h.placed b with ha | hl | ⟨i, hi, hb⟩
          · exact ha
          · cases hl
          · rcases h.slot_cases hi hb with ⟨hm, -⟩ | ⟨hm, hn⟩ | ⟨-, -, ha⟩
            · exact absurd ⟨i, hm, hb⟩ hin
            · exact absurd ⟨i, hi, hm, hb, hn⟩ hu
            · exact ha
        refine ⟨.application, ⟨ha, hu⟩, ?_⟩
        intro place hat
        cases place with
        | fifo => exact absurd hat hin
        | decoder => exact absurd hat hu
        | application => rfl

/-! ## Writes to one slot -/

theorem modSlot (h : s.Inv fifo none) {s' : PoolUse} (hi : i < frmBufPoolSize)
    (hm : i ∉ fifo) (f : FrameFifo) (hpool : s'.pool = s.pool.modFrame i fun _ => f)
    (hforce : s'.bForceOutput = s.bForceOutput)
    (happ : ∀ b, (s.pool.array i).pFrame ≠ some b → s'.app b = s.app b)
    (hwait : ∀ j ≠ i, s'.waiting j = s.waiting j)
    (hok : SlotOk s.bForceOutput s'.app false (s'.waiting i) f)
    (hb : f.pFrame = (s.pool.array i).pFrame ∨ f.pFrame = none)
    (hplaced : ∀ b, (s.pool.array i).pFrame = some b →
      s'.app b = true ∨ lost = some b ∨ f.pFrame = some b) : s'.Inv fifo lost := by
  have hself : s'.pool.array i = f := by simp [hpool, FrmBufPool.modFrame]
  have hother : ∀ j ≠ i, s'.pool.array j = s.pool.array j := by
    intro j hj
    simp [hpool, FrmBufPool.modFrame, hj]
  have hframe : ∀ j, (s'.pool.array j).pFrame ≠ none →
      (s'.pool.array j).pFrame = (s.pool.array j).pFrame := by
    intro j hj
    by_cases hji : j = i
    · subst hji
      rw [hself] at hj ⊢
      exact hb.resolve_right hj
    · rw [hother j hji]
  constructor
  · apply h.queue.congr
    · rw [hpool]; rfl
    · rw [hpool]; rfl
    · intro j hj
      have hji : j ≠ i := fun e => hm (e ▸ hj)
      exact congrArg FrameFifo.iNext (hother j hji)
    · rw [hpool]; rfl
  · exact h.inRange
  · intro j hj
    rw [hforce]
    by_cases hji : j = i
    · subst hji
      rw [hself]
      simpa only [hm, decide_false] using hok
    · rw [hother j hji, hwait j hji]
      apply (h.slots j hj).congr
      intro b hbj
      apply happ
      intro hbi
      exact hji (h.distinct j hj i hi (by simp [Option.mem_def.mp hbj]) (hbj.trans hbi.symm))
  · intro j hj k hk hne he
    have hne' : (s'.pool.array k).pFrame ≠ none := he ▸ hne
    have hj' := hframe j hne
    rw [hj', hframe k hne'] at he
    exact h.distinct j hj k hk (hj' ▸ hne) he
  · intro b
    by_cases hbi : (s.pool.array i).pFrame = some b
    · rcases hplaced b hbi with ha | hl | hf
      · exact Or.inl ha
      · exact Or.inr (Or.inl hl)
      · exact Or.inr (Or.inr ⟨i, hi, hself ▸ hf⟩)
    · rcases h.placed b with ha | hl | ⟨j, hj, hjb⟩
      · exact Or.inl ((happ b hbi).trans ha)
      · cases hl
      · have hji : j ≠ i := fun e => hbi (e ▸ hjb)
        exact Or.inr (Or.inr ⟨j, hj, hother j hji ▸ hjb⟩)

/-! ## The FIFO -/

theorem eq_empty (h : s.Inv fifo lost) (hi : i < frmBufPoolSize)
    (hb : (s.pool.array i).pFrame = none) : s.pool.array i = ⟨none, none, -1, false, false⟩ ∧
      i ∉ fifo ∧ s.waiting i = false := by
  have hslot := h.slots i hi
  revert hslot hb
  by_cases hm : i ∈ fifo
  · simp only [hm, decide_true]
    generalize s.pool.array i = f
    generalize s.waiting i = w
    intro hb hslot
    cases hslot
    cases hb
  · simp only [hm, decide_false]
    generalize s.pool.array i = f
    generalize s.waiting i = w
    intro hb hslot
    cases hslot with
    | empty => exact ⟨rfl, not_false, rfl⟩
    | held | waiting | displayed | heldEarly | outEarly => cases hb

end Inv

end PoolUse

namespace FrmBufPool

variable {p : FrmBufPool} {fifo : List ℕ} {i : ℕ}

theorem addBufferToFifo_eq (hq : p.queue.Holds fifo) (hi : i ∉ fifo) (b : ℕ) :
    ∃ p', p.addBufferToFifo i b = some p' ∧ p'.queue.head = (p.queue.push i).head ∧
      p'.queue.tail = (p.queue.push i).tail ∧ p'.queue.number = (p.queue.push i).number ∧
      ∀ j, p'.array j = if j = i then ⟨some b, (p.array i).iNext, 0, false, (p.array i).bOutEarly⟩
        else if p.iFifoTail = some j then { p.array j with iNext := some i } else p.array j := by
  have hhead : p.iFifoHead = fifo.head? := hq.head
  have htail : p.iFifoTail = fifo.getLast? := hq.tail
  unfold addBufferToFifo linkBuffer
  cases hl : fifo.getLast? with
  | none =>
    have hnil : fifo = [] := List.getLast?_eq_none_iff.mp hl
    rw [hl] at htail
    rw [hnil, List.head?_nil] at hhead
    simp only [modFrame, htail, hhead]
    refine ⟨_, rfl, by simp [queue, Queue.push, htail], rfl, rfl, ?_⟩
    intro j
    by_cases hj : j = i
    · subst hj
      simp
    · simp [hj]
  | some t =>
    have ht : t ∈ fifo := List.mem_of_getLast? hl
    have hti : t ≠ i := fun e => hi (e ▸ ht)
    rw [hl] at htail
    simp only [modFrame, htail]
    refine ⟨_, rfl, by simp [queue, Queue.push, htail], rfl, rfl, ?_⟩
    intro j
    by_cases hj : j = i
    · subst hj
      simp [hti.symm]
    · by_cases hjt : j = t
      · subst hjt
        simp [hj]
      · have hne : ¬t = j := fun e => hjt e.symm
        simp [hj, hjt, hne]

theorem removeBufferFromFifo_eq (hq : p.queue.Holds (i :: fifo)) :
    ∃ p', p.removeBufferFromFifo = some (p', i) ∧ p'.queue.head = (p.queue.pop i).head ∧
      p'.queue.tail = (p.queue.pop i).tail ∧ p'.queue.number = (p.queue.pop i).number ∧
      ∀ j, p'.array j =
        if j = i then { p.array i with iNext := none, iAccessCnt := 1 } else p.array j := by
  have hhead : p.iFifoHead = some i := hq.head
  unfold removeBufferFromFifo
  simp only [modFrame, hhead]
  refine ⟨_, rfl, rfl, rfl, rfl, ?_⟩
  intro j
  by_cases hj : j = i <;> simp [hj]

end FrmBufPool

namespace PoolUse.Inv

variable {s : PoolUse} {fifo : List ℕ} {b : ℕ}

theorem pushBack (h : s.Inv fifo (some b)) (happ : s.app b = false)
    (hno : ∀ i < frmBufPoolSize, (s.pool.array i).pFrame ≠ some b)
    (hroom : ∃ i ∈ List.range frmBufPoolSize, (s.pool.array i).pFrame = none) :
    ∃ p i, s.pool.pushBack b = some p ∧ (s.setPool p).Inv (fifo ++ [i]) none := by
  obtain ⟨i, hfind⟩ : ∃ i, (List.range frmBufPoolSize).find? (fun i =>
      FrmBufPool.FrameIsEmpty (s.pool.array i)) = some i := by
    rw [← Option.isSome_iff_exists, List.find?_isSome]
    obtain ⟨i, hi, hb⟩ := hroom
    have he := h.eq_empty (List.mem_range.mp hi) hb
    exact ⟨i, hi, by simp [he.1, FrmBufPool.FrameIsEmpty]⟩
  have hi : i < frmBufPoolSize := List.mem_range.mp (List.mem_of_find?_eq_some hfind)
  have hempty := List.find?_some hfind
  obtain ⟨he, hm, hw⟩ := h.eq_empty hi (of_decide_eq_true hempty).1
  obtain ⟨p, hp, hhead, htail, hnum, harr⟩ := FrmBufPool.addBufferToFifo_eq h.queue hm b
  have hself : p.array i = ⟨some b, none, 0, false, false⟩ := by
    rw [harr i, if_pos rfl, he]
  have hframe : ∀ j ≠ i, (p.array j).pFrame = (s.pool.array j).pFrame := by
    intro j hj
    rw [harr j, if_neg hj]
    split <;> rfl
  refine ⟨p, i, by simp [FrmBufPool.pushBack, hfind, hp], ?_⟩
  constructor
  · have hnone : s.pool.queue.next i = none := by
      change (s.pool.array i).iNext = none
      rw [he]
    apply (h.queue.push hm hnone).congr hhead htail ?_ hnum
    intro j hj
    change (p.array j).iNext = if s.pool.iFifoTail = some j then some i else (s.pool.array j).iNext
    rw [harr j]
    by_cases hji : j = i
    · have hti : s.pool.iFifoTail ≠ some i := by
        intro e
        have ht : s.pool.iFifoTail = fifo.getLast? := h.queue.tail
        exact hm (List.mem_of_getLast? (ht.symm.trans e))
      rw [hji, if_pos rfl, if_neg hti]
    · rw [if_neg hji]
      split <;> rfl
  · intro j hj
    rcases List.mem_append.mp hj with hj | hj
    · exact h.inRange j hj
    · rw [List.mem_singleton.mp hj]
      exact hi
  · intro j hj
    change SlotOk s.bForceOutput s.app (decide (j ∈ fifo ++ [i])) (s.waiting j) (p.array j)
    by_cases hji : j = i
    · rw [hji, hself, hw]
      simpa using SlotOk.free happ
    · have hslot := h.slots j hj
      have hmem : decide (j ∈ fifo ++ [i]) = decide (j ∈ fifo) := by simp [hji]
      rw [hmem, harr j, if_neg hji]
      split
      · next ht =>
        have hq : s.pool.iFifoTail = fifo.getLast? := h.queue.tail
        have hjm : j ∈ fifo := List.mem_of_getLast? (hq.symm.trans ht)
        obtain ⟨c, next, hf, ha, hwj⟩ := h.pFrame_ne_none hjm
        simp only [hf, hwj, hjm, decide_true]
        exact .free ha
      · exact hslot
  · intro j hj k hk hne heq
    have hbuf : ∀ j < frmBufPoolSize, (p.array j).pFrame = some b → j = i := by
      intro j hj hjb
      by_contra hji
      exact hno j hj (hframe j hji ▸ hjb)
    by_cases hji : j = i
    · have hkb : (p.array k).pFrame = some b := by
        have := heq.symm
        change (p.array k).pFrame = (p.array j).pFrame at this
        rw [this, hji, hself]
      rw [hji, hbuf k hk hkb]
    · by_cases hki : k = i
      · have hjb : (p.array j).pFrame = some b := by
          change (p.array j).pFrame = (p.array k).pFrame at heq
          rw [heq, hki, hself]
        exact absurd (hbuf j hj hjb) hji
      · change (p.array j).pFrame = (p.array k).pFrame at heq
        change (p.array j).pFrame ≠ none at hne
        rw [hframe j hji, hframe k hki] at heq
        rw [hframe j hji] at hne
        exact h.distinct j hj k hk hne heq
  · intro c
    rcases h.placed c with ha | hl | ⟨j, hj, hjc⟩
    · exact Or.inl ha
    · cases hl
      exact Or.inr (Or.inr ⟨i, hi, congrArg FrameFifo.pFrame hself⟩)
    · have hji : j ≠ i := by
        intro e
        rw [e, he] at hjc
        cases hjc
      exact Or.inr (Or.inr ⟨j, hj, (hframe j hji).trans hjc⟩)

/-- A slot that is referred to, in the four ways it can be. -/
inductive Referred (s : PoolUse) (i b : ℕ) (n : ℤ) : Prop
  | held (hf : s.bForceOutput = false) (hw : s.waiting i = false) (ha : s.app b = false)
      (harr : s.pool.array i = ⟨some b, none, n, false, false⟩)
  | waiting (hf : s.bForceOutput = false) (hw : s.waiting i = true) (ha : s.app b = false)
      (harr : s.pool.array i = ⟨some b, none, n, true, false⟩)
  | displayed (hf : s.bForceOutput = false) (hw : s.waiting i = false) (ha : s.app b = true)
      (harr : s.pool.array i = ⟨some b, none, n, true, false⟩)
  | heldEarly (w e : Bool) (hf : s.bForceOutput = true) (hw : s.waiting i = false)
      (ha : s.app b = e) (harr : s.pool.array i = ⟨some b, none, n, w, e⟩)

variable {i : ℕ} {lost : Option ℕ}

theorem referred (h : s.Inv fifo lost) (hi : i < frmBufPoolSize)
    (hn : 1 ≤ (s.pool.array i).iAccessCnt) : i ∉ fifo ∧ ∃ b n, 1 ≤ n ∧ Referred s i b n := by
  have hslot := h.slots i hi
  have hm : i ∉ fifo := by
    intro hm
    obtain ⟨b, next, hf, -⟩ := h.pFrame_ne_none hm
    rw [hf] at hn
    exact absurd hn (by simp)
  refine ⟨hm, ?_⟩
  simp only [hm, decide_false] at hslot
  revert hslot hn
  generalize hf : s.pool.array i = f
  generalize hw : s.waiting i = w
  intro hn hslot
  cases hslot with
  | empty => exact absurd hn (by simp)
  | held hforce hn ha => exact ⟨_, _, hn, .held hforce hw ha hf⟩
  | waiting hforce hn ha => exact ⟨_, _, hn, .waiting hforce hw ha hf⟩
  | displayed hforce hn ha => exact ⟨_, _, hn, .displayed hforce hw ha hf⟩
  | heldEarly hforce hn ha => exact ⟨_, _, hn, .heldEarly _ _ hforce hw ha hf⟩
  | outEarly hforce ha => exact absurd hn (by simp)

theorem setFrame (h : s.Inv fifo none) (hi : i < frmBufPoolSize) (hm : i ∉ fifo)
    {f : FrameFifo → FrameFifo} (hb : (f (s.pool.array i)).pFrame = (s.pool.array i).pFrame)
    (v : Bool) (hok : SlotOk s.bForceOutput s.app false v (f (s.pool.array i))) :
    ((s.setPool (s.pool.modFrame i f)).setWaiting i v).Inv fifo none := by
  refine h.modSlot hi hm (f (s.pool.array i)) ?_ ?_ ?_ ?_ ?_ (Or.inl hb) ?_
  · rfl
  · rfl
  · exact fun _ _ => rfl
  · intro j hj
    simp [setWaiting, setPool, hj]
  · have hv : ((s.setPool (s.pool.modFrame i f)).setWaiting i v).waiting i = v := by
      simp [setWaiting]
    rw [hv]
    exact hok
  · exact fun c hc => Or.inr (Or.inr (hb.trans hc))

theorem setWaiting_self (s : PoolUse) (i : ℕ) : s.setWaiting i (s.waiting i) = s := by
  simp [setWaiting]

theorem increment (h : s.Inv fifo none) (ha : s.Allowed (.increment i)) :
    ∃ s', s.step (.increment i) = some s' ∧ s'.Inv fifo none := by
  obtain ⟨hi, hn⟩ := ha
  obtain ⟨hm, b, n, hn', hr⟩ := h.referred hi hn
  have hcond : i < frmBufPoolSize ∧ 0 ≤ (s.pool.array i).iAccessCnt := ⟨hi, by omega⟩
  refine ⟨_, by rw [step, FrmBufPool.incrementBufID, if_pos hcond, Option.map_some], ?_⟩
  rw [← setWaiting_self (s.setPool _) i]
  apply h.setFrame hi hm rfl
  have hn1 : 1 ≤ n + 1 := by omega
  change SlotOk s.bForceOutput s.app false (s.waiting i) _
  cases hr with
  | held hf hw ha harr =>
    rw [hw, harr]
    exact .held hf hn1 ha
  | waiting hf hw ha harr =>
    rw [hw, harr]
    exact .waiting hf hn1 ha
  | displayed hf hw ha harr =>
    rw [hw, harr]
    exact .displayed hf hn1 ha
  | heldEarly w e hf hw ha harr =>
    rw [hw, harr]
    exact .heldEarly hf hn1 ha

theorem output (h : s.Inv fifo none) (ha : s.Allowed (.output i)) :
    ∃ s', s.step (.output i) = some s' ∧ s'.Inv fifo none := by
  obtain ⟨hi, hn, hout⟩ := ha
  obtain ⟨hm, b, n, hn', hr⟩ := h.referred hi hn
  have hcond : i < frmBufPoolSize ∧ (s.pool.array i).bWillBeOutputed = false := ⟨hi, hout⟩
  refine ⟨_, by rw [step, FrmBufPool.outputBufID, if_pos hcond]; rfl, ?_⟩
  apply h.setFrame hi hm rfl
  cases hr with
  | held hf hw ha harr =>
    rw [harr, hf]
    exact .waiting rfl hn' ha
  | waiting hf hw ha harr => simp [harr] at hout
  | displayed hf hw ha harr => simp [harr] at hout
  | heldEarly w e hf hw ha harr =>
    rw [harr, hf]
    exact .heldEarly rfl hn' ha

theorem display (h : s.Inv fifo none) (ha : s.Allowed (.display i)) :
    ∃ s', s.step (.display i) = some s' ∧ s'.Inv fifo none := by
  obtain ⟨hi, hwait⟩ := ha
  obtain ⟨hm, b, n, hf, hn, harr, happ⟩ : i ∉ fifo ∧ ∃ b n, s.bForceOutput = false ∧ 1 ≤ n ∧
      s.pool.array i = ⟨some b, none, n, true, false⟩ ∧ s.app b = false := by
    have hslot := h.slots i hi
    rw [hwait] at hslot
    revert hslot
    generalize hx : s.pool.array i = f
    by_cases hm : i ∈ fifo
    · simp only [hm, decide_true]
      intro hslot
      cases hslot
    · simp only [hm, decide_false]
      intro hslot
      cases hslot with
      | waiting hf hn ha => exact ⟨not_false, _, _, hf, hn, rfl, ha⟩
  refine ⟨(s.setWaiting i false).setApp b true, by simp [step, harr], ?_⟩
  refine h.modSlot hi hm (s.pool.array i) ?_ ?_ ?_ ?_ ?_ (Or.inl rfl) ?_
  · simp [setApp, setWaiting, FrmBufPool.modFrame]
  · rfl
  · intro c hc
    have hcb : c ≠ b := fun e => hc (by rw [harr, e])
    simp [setApp, setWaiting, hcb]
  · intro j hj
    simp [setApp, setWaiting, hj]
  · rw [harr]
    simp only [setApp, setWaiting, Function.update_self]
    exact .displayed hf hn (by simp)
  · exact fun c hc => Or.inr (Or.inr hc)

theorem forceDisplay (h : s.Inv fifo none) (ha : s.Allowed (.forceDisplay i)) :
    ∃ s', s.step (.forceDisplay i) = some s' ∧ s'.Inv fifo none := by
  obtain ⟨hforce, hi, hn, hb⟩ := ha
  obtain ⟨hm, b, n, hn', hr⟩ := h.referred hi hn
  cases hr with
  | held hf | waiting hf | displayed hf => exact absurd (hf.symm.trans hforce) (by decide)
  | heldEarly w e hf hw happ harr =>
    refine ⟨(s.setPool (s.pool.modFrame i fun f => { f with bOutEarly := true })).setApp b true,
      by simp [step, FrmBufPool.forceDisplayBuffer, harr], ?_⟩
    refine h.modSlot hi hm { s.pool.array i with bOutEarly := true } ?_ ?_ ?_ ?_ ?_ (Or.inl rfl) ?_
    · rfl
    · rfl
    · intro c hc
      have hcb : c ≠ b := fun e => hc (by rw [harr, e])
      simp [setApp, setPool, hcb]
    · exact fun _ _ => rfl
    · change SlotOk s.bForceOutput _ false (s.waiting i) _
      rw [hw, harr]
      exact .heldEarly hf hn' (by simp [setApp])
    · exact fun c hc => Or.inr (Or.inr hc)

/-! ## Taking the first buffer -/

theorem removeBuffer (h : s.Inv (i :: fifo) none) : ∃ p b,
    s.pool.removeBufferFromFifo = some (p, i) ∧ p.array i = ⟨some b, none, 1, false, false⟩ ∧
    s.app b = false ∧ (s.setPool p).Inv fifo none := by
  obtain ⟨b, next, harr, happ, hwait⟩ := h.pFrame_ne_none (List.mem_cons_self ..)
  have hi : i < frmBufPoolSize := h.inRange i (List.mem_cons_self ..)
  have hm : i ∉ fifo := (List.nodup_cons.mp h.queue.nodup).1
  obtain ⟨p, hp, hhead, htail, hnum, hall⟩ := FrmBufPool.removeBufferFromFifo_eq h.queue
  have hself : p.array i = ⟨some b, none, 1, false, false⟩ := by rw [hall i, if_pos rfl, harr]
  have hframe : ∀ j, (p.array j).pFrame = (s.pool.array j).pFrame := by
    intro j
    rw [hall j]
    split
    · next hj => rw [hj]
    · rfl
  refine ⟨p, b, hp, hself, happ, ?_⟩
  constructor
  · apply h.queue.pop.congr hhead htail ?_ hnum
    intro j hj
    have hji : j ≠ i := fun e => hm (e ▸ hj)
    have harrj : p.array j = s.pool.array j := (hall j).trans (if_neg hji)
    exact (congrArg FrameFifo.iNext harrj).trans (if_neg hji).symm
  · exact fun j hj => h.inRange j (List.mem_cons_of_mem i hj)
  · intro j hj
    change SlotOk s.bForceOutput s.app (decide (j ∈ fifo)) (s.waiting j) (p.array j)
    by_cases hji : j = i
    · rw [hji, hself, hwait]
      simp only [hm, decide_false]
      cases hf : s.bForceOutput with
      | false => exact .held rfl le_rfl happ
      | true => exact .heldEarly rfl le_rfl happ
    · have hslot := h.slots j hj
      rw [hall j, if_neg hji]
      simpa [hji] using hslot
  · intro j hj k hk hne he
    change (p.array j).pFrame ≠ none at hne
    change (p.array j).pFrame = (p.array k).pFrame at he
    rw [hframe] at hne
    rw [hframe, hframe] at he
    exact h.distinct j hj k hk hne he
  · intro c
    rcases h.placed c with ha | hl | ⟨j, hj, hjc⟩
    · exact Or.inl ha
    · cases hl
    · exact Or.inr (Or.inr ⟨j, hj, (hframe j).trans hjc⟩)

theorem beginFrame (h : s.Inv fifo none) :
    ∃ s' fifo', s.step .beginFrame = some s' ∧ s'.Inv fifo' none := by
  cases fifo with
  | nil =>
    have hnum : s.pool.iBufNumber = 0 := h.queue.number
    exact ⟨s, [], by simp [step, hnum], h⟩
  | cons i fifo =>
    obtain ⟨b, next, harr, -⟩ := h.pFrame_ne_none (List.mem_cons_self ..)
    obtain ⟨p, b', hrun, -, -, hinv⟩ := h.removeBuffer
    have hhead : s.pool.iFifoHead = some i := h.queue.head
    have hnum : s.pool.iBufNumber = fifo.length + 1 := h.queue.number
    refine ⟨s.setPool p, fifo, ?_, hinv⟩
    simp [step, hnum, FrmBufPool.pop, hhead, FrmBufPool.CanBePopped, harr, hrun]

/-! ## Finding a buffer -/

theorem getFrameID_of_slot (h : s.Inv fifo lost)
    (hi : i < frmBufPoolSize) (hb : (s.pool.array i).pFrame = some b) :
    s.pool.getFrameIDFromDisplay b = some i := by
  unfold FrmBufPool.getFrameIDFromDisplay
  obtain ⟨j, hj⟩ : ∃ j, (List.range frmBufPoolSize).find? (fun i =>
      (s.pool.array i).pFrame = some b) = some j := by
    rw [← Option.isSome_iff_exists, List.find?_isSome]
    exact ⟨i, List.mem_range.mpr hi, by simpa using hb⟩
  have hjb : (s.pool.array j).pFrame = some b := by simpa using List.find?_some hj
  have hjlt : j < frmBufPoolSize := List.mem_range.mp (List.mem_of_find?_eq_some hj)
  rw [hj, h.distinct j hjlt i hi (by simp [hjb]) (hjb.trans hb.symm)]

theorem slot_of_getFrameID (h : s.pool.getFrameIDFromDisplay b = some i) :
    i < frmBufPoolSize ∧ (s.pool.array i).pFrame = some b :=
  ⟨List.mem_range.mp (List.mem_of_find?_eq_some h), by simpa using List.find?_some h⟩

theorem isInFifo_eq_false (h : s.Inv fifo lost)
    (hno : ∀ i ∈ fifo, (s.pool.array i).pFrame ≠ some b) : s.pool.isInFifo b = some false := by
  have hlen : fifo.length < frmBufPoolSize + 1 := by
    have hle := h.queue.nodup.length_le_of_subset fun i hi => List.mem_range.mpr (h.inRange i hi)
    rw [List.length_range] at hle
    omega
  refine (h.queue.any_eq _ hlen).trans ?_
  congr 1
  rw [List.any_eq_false]
  intro i hi
  simpa using hno i hi

end PoolUse.Inv

namespace FrmBufPool

variable {p : FrmBufPool} {i b : ℕ}

theorem modFrame_modFrame (p : FrmBufPool) (i : ℕ) (f g : FrameFifo → FrameFifo) :
    (p.modFrame i f).modFrame i g = p.modFrame i fun x => g (f x) := by
  simp [modFrame]

variable {f : FrameFifo → FrameFifo}

theorem pFrame_modFrame (hf : ∀ x, (f x).pFrame = x.pFrame) (j : ℕ) :
    ((p.modFrame i f).array j).pFrame = (p.array j).pFrame := by
  by_cases hj : j = i
  · subst hj
    simp [modFrame, hf]
  · simp [modFrame, hj]

theorem getFrameIDFromDisplay_modFrame (hf : ∀ x, (f x).pFrame = x.pFrame) :
    (p.modFrame i f).getFrameIDFromDisplay b = p.getFrameIDFromDisplay b := by
  simp only [getFrameIDFromDisplay, pFrame_modFrame hf]

theorem isInFifo_modFrame (hf : ∀ x, (f x).pFrame = x.pFrame)
    (hn : ∀ x, (f x).iNext = x.iNext) : (p.modFrame i f).isInFifo b = p.isInFifo b := by
  have hq : (p.modFrame i f).queue = p.queue := by
    have hnext : (fun j => ((p.modFrame i f).array j).iNext) = fun j => (p.array j).iNext := by
      funext j
      by_cases hj : j = i
      · subst hj
        simp [modFrame, hn]
      · simp [modFrame, hj]
    unfold queue
    rw [hnext]
    rfl
  simp only [isInFifo, hq, pFrame_modFrame hf]
  rfl

theorem removeID_eq (hi : i < frmBufPoolSize) {w e : Bool}
    (harr : p.array i = ⟨some b, none, 0, w, e⟩) :
    p.removeID i = some (p.modFrame i fun _ => ⟨none, none, -1, false, e⟩) := by
  simp [removeID, hi, harr, modFrame]

end FrmBufPool

namespace PoolUse.Inv

variable {s : PoolUse} {fifo : List ℕ} {b i : ℕ}

/-! ## Giving a buffer back -/

/-- A slot is emptied while the application gets the buffer, or while the buffer
is moved. -/
theorem emptySlot {l : Option ℕ} (h : s.Inv fifo none) (hi : i < frmBufPoolSize) (hm : i ∉ fifo)
    (hb : (s.pool.array i).pFrame = some b) (hw : s.waiting i = false) {a : Bool}
    (hl : a = true ∨ l = some b) :
    ((s.setPool (s.pool.modFrame i fun _ => ⟨none, none, -1, false, false⟩)).setApp b a).Inv
      fifo l := by
  refine h.modSlot hi hm ⟨none, none, -1, false, false⟩ ?_ ?_ ?_ ?_ ?_ (Or.inr rfl) ?_
  · rfl
  · rfl
  · intro c hc
    have hcb : c ≠ b := fun e => hc (by rw [hb, e])
    simp [setApp, setPool, hcb]
  · exact fun _ _ => rfl
  · change SlotOk _ _ false (s.waiting i) _
    rw [hw]
    exact .empty
  · intro c hc
    rw [hb] at hc
    cases hc
    rcases hl with rfl | hl
    · exact Or.inl (by simp [setApp])
    · exact Or.inr (Or.inl hl)

theorem recycleSlot (h : s.Inv fifo none) (hi : i < frmBufPoolSize) (hm : i ∉ fifo)
    (hb : (s.pool.array i).pFrame = some b) (hw : s.waiting i = false) :
    ∃ p j, (s.pool.modFrame i fun _ => ⟨none, none, -1, false, false⟩).recycle b = some p ∧
      ((s.setPool p).setApp b false).Inv (fifo ++ [j]) none := by
  have hinv := h.emptySlot (a := false) hi hm hb hw (Or.inr rfl)
  have hempty : ((s.pool.modFrame i fun _ => ⟨none, none, -1, false, false⟩).array i).pFrame =
      none := by simp [FrmBufPool.modFrame]
  have hno : ∀ j < frmBufPoolSize, ((s.pool.modFrame i fun _ =>
      ⟨none, none, -1, false, false⟩).array j).pFrame ≠ some b := by
    intro j hj
    by_cases hji : j = i
    · rw [hji, hempty]
      simp
    · have hother : (s.pool.modFrame i fun _ => ⟨none, none, -1, false, false⟩).array j =
          s.pool.array j := by simp [FrmBufPool.modFrame, hji]
      rw [hother]
      intro hjb
      exact hji (h.distinct j hj i hi (by simp [hjb]) (hjb.trans hb.symm))
  have hfifo := hinv.isInFifo_eq_false fun j hj => hno j (hinv.inRange j hj)
  obtain ⟨p, j, hp, hinv'⟩ := hinv.pushBack (by simp [setApp]) hno
    ⟨i, List.mem_range.mpr hi, hempty⟩
  refine ⟨p, j, ?_, hinv'⟩
  change (s.pool.modFrame i fun _ => ⟨none, none, -1, false, false⟩).isInFifo b = some false at hfifo
  change (s.pool.modFrame i fun _ => ⟨none, none, -1, false, false⟩).pushBack b = some p at hp
  simp [FrmBufPool.recycle, hfifo, hp]

theorem setApp_self (s : PoolUse) {b : ℕ} {a : Bool} (h : s.app b = a) : s.setApp b a = s := by
  simp [setApp, ← h]

/-- The last reference to a slot is given up, and nobody else has the buffer. -/
theorem freeSlot_recycle (h : s.Inv fifo none) (hi : i < frmBufPoolSize) (hm : i ∉ fifo) {w : Bool}
    (harr : s.pool.array i = ⟨some b, none, 1, w, false⟩) (hw : s.waiting i = false)
    (happ : s.app b = false) (hcond : w = false ∨ s.bForceOutput = true) :
    ∃ p j, (s.pool.modFrame i fun f => { f with iAccessCnt := f.iAccessCnt - 1 }).freeSlot i
      s.bForceOutput = some p ∧ (s.setPool p).Inv (fifo ++ [j]) none := by
  obtain ⟨p, j, hp, hinv⟩ := h.recycleSlot hi hm (b := b) (by rw [harr]) hw
  refine ⟨p, j, ?_, ?_⟩
  · have hself : (s.pool.modFrame i fun f => { f with iAccessCnt := f.iAccessCnt - 1 }).array i =
        ⟨some b, none, 0, w, false⟩ := by simp [FrmBufPool.modFrame, harr]
    have hback : ((!w && !s.bForceOutput) || (!false && s.bForceOutput)) = true := by
      rcases hcond with rfl | hcond
      · cases s.bForceOutput <;> rfl
      · rw [hcond]
        simp
    simp only [FrmBufPool.freeSlot, FrmBufPool.removeID_eq hi hself, hself, hback,
      FrmBufPool.modFrame_modFrame, Option.bind_eq_bind, Option.bind_some, if_true, hp]
  · rwa [setApp_self (s.setPool p) happ] at hinv

theorem freeSlot_forget (h : s.Inv fifo none) (hi : i < frmBufPoolSize) (hm : i ∉ fifo)
    (harr : s.pool.array i = ⟨some b, none, 1, true, false⟩) (hw : s.waiting i = false)
    (happ : s.app b = true) (hforce : s.bForceOutput = false) :
    ∃ p, (s.pool.modFrame i fun f => { f with iAccessCnt := f.iAccessCnt - 1 }).freeSlot i
      s.bForceOutput = some p ∧ (s.setPool p).Inv fifo none := by
  have hinv := h.emptySlot (l := none) (b := b) hi hm (by rw [harr]) hw (Or.inl rfl)
  have hself : (s.pool.modFrame i fun f => { f with iAccessCnt := f.iAccessCnt - 1 }).array i =
      ⟨some b, none, 0, true, false⟩ := by simp [FrmBufPool.modFrame, harr]
  refine ⟨s.pool.modFrame i fun _ => ⟨none, none, -1, false, false⟩, ?_, ?_⟩
  · simp [FrmBufPool.freeSlot, FrmBufPool.removeID_eq hi hself, hself, hforce,
      FrmBufPool.modFrame_modFrame]
  · rwa [setApp_self (s.setPool (s.pool.modFrame i fun _ =>
      ⟨none, none, -1, false, false⟩)) happ] at hinv

theorem decrement_left (h : s.Inv fifo none) (hi : i < frmBufPoolSize)
    (hn : 1 ≤ (s.pool.array i).iAccessCnt) (hleft : 2 ≤ (s.pool.array i).iAccessCnt ∨
      (s.pool.array i).bOutEarly = true) :
    ∃ s', s.step (.decrement i) = some s' ∧ s'.Inv fifo none := by
  obtain ⟨hm, b, n, hn', hr⟩ := h.referred hi hn
  have hcond : i < frmBufPoolSize ∧ 1 ≤ (s.pool.array i).iAccessCnt := ⟨hi, hn⟩
  have hstay : ¬((s.pool.array i).iAccessCnt - 1 = 0 ∧ (s.pool.array i).bOutEarly = false) := by
    rintro ⟨h1, h2⟩
    rcases hleft with hleft | hleft
    · omega
    · exact absurd (h2.symm.trans hleft) (by decide)
  refine ⟨s.setPool (s.pool.modFrame i fun f => { f with iAccessCnt := f.iAccessCnt - 1 }), ?_, ?_⟩
  · simp only [step, FrmBufPool.decrementBufID, if_pos hcond, if_neg hstay, Option.map_some]
  rw [← setWaiting_self (s.setPool _) i]
  apply h.setFrame hi hm rfl
  change SlotOk s.bForceOutput s.app false (s.waiting i) _
  cases hr with
  | held hf hw ha harr =>
    have hn2 : 1 ≤ n - 1 := by simp [harr] at hleft; omega
    rw [hw, harr]
    exact .held hf hn2 ha
  | waiting hf hw ha harr =>
    have hn2 : 1 ≤ n - 1 := by simp [harr] at hleft; omega
    rw [hw, harr]
    exact .waiting hf hn2 ha
  | displayed hf hw ha harr =>
    have hn2 : 1 ≤ n - 1 := by simp [harr] at hleft; omega
    rw [hw, harr]
    exact .displayed hf hn2 ha
  | heldEarly w e hf hw ha harr =>
    rw [hw, harr]
    rcases eq_or_lt_of_le hn' with h1 | h1
    · subst h1
      have he : e = true := by simpa [harr] using hleft
      subst he
      exact .outEarly hf ha
    · have hn2 : 1 ≤ n - 1 := by omega
      exact .heldEarly hf hn2 ha

theorem decrement (h : s.Inv fifo none) (ha : s.Allowed (.decrement i)) :
    ∃ s' fifo', s.step (.decrement i) = some s' ∧ s'.Inv fifo' none := by
  obtain ⟨hi, hn⟩ := ha
  have hn1 : 1 ≤ (s.pool.array i).iAccessCnt := le_trans (by split <;> decide) hn
  by_cases hleft : 2 ≤ (s.pool.array i).iAccessCnt ∨ (s.pool.array i).bOutEarly = true
  · obtain ⟨s', hs, hinv⟩ := h.decrement_left hi hn1 hleft
    exact ⟨s', fifo, hs, hinv⟩
  have hcond : i < frmBufPoolSize ∧ 1 ≤ (s.pool.array i).iAccessCnt := ⟨hi, hn1⟩
  have hone : (s.pool.array i).iAccessCnt - 1 = 0 ∧ (s.pool.array i).bOutEarly = false := by
    simp only [not_or, Bool.not_eq_true] at hleft
    exact ⟨by omega, hleft.2⟩
  have hstep : s.step (.decrement i) = (((s.pool.modFrame i fun f =>
      { f with iAccessCnt := f.iAccessCnt - 1 }).freeSlot i s.bForceOutput).map s.setPool) := by
    simp only [step, FrmBufPool.decrementBufID, if_pos hcond, if_pos hone]
  obtain ⟨hm, b, n, hn', hr⟩ := h.referred hi hn1
  cases hr with
  | held hf hw ha harr =>
    obtain rfl : n = 1 := by simp [harr] at hone; omega
    obtain ⟨p, j, hp, hinv⟩ := h.freeSlot_recycle hi hm harr hw ha (Or.inl rfl)
    exact ⟨s.setPool p, fifo ++ [j], by rw [hstep, hp, Option.map_some], hinv⟩
  | waiting hf hw ha harr =>
    rw [if_pos hw] at hn
    exact absurd (Or.inl hn) hleft
  | displayed hf hw ha harr =>
    obtain rfl : n = 1 := by simp [harr] at hone; omega
    obtain ⟨p, hp, hinv⟩ := h.freeSlot_forget hi hm harr hw ha hf
    exact ⟨s.setPool p, fifo, by rw [hstep, hp, Option.map_some], hinv⟩
  | heldEarly w e hf hw ha harr =>
    obtain ⟨rfl, rfl⟩ : n = 1 ∧ e = false := by
      simp only [harr] at hone
      exact ⟨by omega, hone.2⟩
    obtain ⟨p, j, hp, hinv⟩ := h.freeSlot_recycle hi hm harr hw ha (Or.inr hf)
    exact ⟨s.setPool p, fifo ++ [j], by rw [hstep, hp, Option.map_some], hinv⟩

/-- The application gives back a buffer whose slot is referred to. -/
theorem put_referred (h : s.Inv fifo none) (hi : i < frmBufPoolSize) (hm : i ∉ fifo)
    (hb : (s.pool.array i).pFrame = some b) {f : FrameFifo → FrameFifo}
    (hf : ∀ x, (f x).pFrame = x.pFrame) (hok : ∀ app : ℕ → Bool, app b = false →
      SlotOk s.bForceOutput app false (s.waiting i) (f (s.pool.array i))) :
    ((s.setPool (s.pool.modFrame i f)).setApp b false).Inv fifo none := by
  refine h.modSlot hi hm (f (s.pool.array i)) ?_ ?_ ?_ ?_ ?_ (Or.inl (hf _)) ?_
  · rfl
  · rfl
  · intro c hc
    have hcb : c ≠ b := fun e => hc (by rw [hb, e])
    simp [setApp, setPool, hcb]
  · exact fun _ _ => rfl
  · exact hok _ (by simp [setApp])
  · exact fun c hc => Or.inr (Or.inr ((hf _).trans hc))

theorem put_outEarly (h : s.Inv fifo none) (hi : i < frmBufPoolSize) (hm : i ∉ fifo)
    (harr : s.pool.array i = ⟨some b, none, 0, true, true⟩) (hw : s.waiting i = false) :
    ∃ p j, s.pool.releaseDisplayBuffer i = some p ∧
      ((s.setPool p).setApp b false).Inv (fifo ++ [j]) none := by
  obtain ⟨p, j, hp, hinv⟩ := h.recycleSlot hi hm (b := b) (by rw [harr]) hw
  refine ⟨p, j, ?_, hinv⟩
  have hself : (s.pool.modFrame i fun x => { x with
      bWillBeOutputed := false, bOutEarly := false }).array i =
      ⟨some b, none, 0, false, false⟩ := by simp [FrmBufPool.modFrame, harr]
  simp [FrmBufPool.releaseDisplayBuffer, harr, FrmBufPool.modFrame_modFrame,
    FrmBufPool.removeID_eq hi hself, hp]

theorem takeApp (h : s.Inv fifo none) (hno : ∀ i < frmBufPoolSize, (s.pool.array i).pFrame ≠ some b) :
    (s.setApp b false).Inv fifo (some b) where
  queue := h.queue
  inRange := h.inRange
  slots := by
    intro i hi
    apply (h.slots i hi).congr
    intro c hc
    have hcb : c ≠ b := by
      rintro rfl
      exact hno i hi hc
    simp [setApp, hcb]
  distinct := h.distinct
  placed := by
    intro c
    by_cases hcb : c = b
    · exact Or.inr (Or.inl (by rw [hcb]))
    · rcases h.placed c with ha | hl | hs
      · exact Or.inl (by simpa [setApp, hcb] using ha)
      · cases hl
      · exact Or.inr (Or.inr hs)

theorem putDisplayBuffer (h : s.Inv fifo none) (ha : s.Allowed (.putDisplayBuffer b))
    (hn : s.NotStranded (.putDisplayBuffer b)) :
    ∃ s' fifo', s.step (.putDisplayBuffer b) = some s' ∧ s'.Inv fifo' none := by
  obtain ⟨happ, hroom⟩ := ha
  cases hid : s.pool.getFrameIDFromDisplay b with
  | none =>
    have hno : ∀ i < frmBufPoolSize, (s.pool.array i).pFrame ≠ some b := by
      intro i hi hb
      rw [h.getFrameID_of_slot hi hb] at hid
      cases hid
    obtain ⟨p, j, hp, hinv⟩ := (h.takeApp hno).pushBack (by simp [setApp]) hno
      (hroom.resolve_left fun hne => hne hid)
    refine ⟨_, _, ?_, hinv⟩
    change s.pool.pushBack b = some p at hp
    simp [step, FrmBufPool.putDisplayBuffer, hid, hp, setApp, setPool]
  | some i =>
    obtain ⟨hi, hb⟩ := slot_of_getFrameID hid
    have hstep : ∀ p, s.pool.releaseDisplayBuffer i = some p →
        s.step (.putDisplayBuffer b) = some ((s.setPool p).setApp b false) := by
      intro p hp
      simp [step, FrmBufPool.putDisplayBuffer, hid, hp]
    rcases h.slot_cases hi hb with ⟨-, -, ha⟩ | ⟨hm, hacc⟩ | ⟨hm, hacc, -⟩
    · exact absurd (ha.symm.trans happ) (by decide)
    · obtain ⟨-, c, n, hn', hr⟩ := h.referred hi hacc
      have hn0 : n ≠ 0 := by omega
      cases hr with
      | held hf hw ha harr =>
        rw [harr] at hb
        cases hb
        exact absurd (ha.symm.trans happ) (by decide)
      | waiting hf hw ha harr =>
        rw [harr] at hb
        cases hb
        exact absurd (ha.symm.trans happ) (by decide)
      | displayed hf hw ha harr =>
        refine ⟨_, fifo, hstep (s.pool.modFrame i fun f => { f with bWillBeOutputed := false })
          (by simp [FrmBufPool.releaseDisplayBuffer, harr, hn0]),
          h.put_referred hi hm hb (fun _ => rfl) fun app happ => ?_⟩
        rw [harr] at hb ⊢
        cases hb
        rw [hw]
        exact .held hf hn' happ
      | heldEarly w e hf hw ha harr =>
        rw [harr] at hb
        cases hb
        obtain rfl : e = true := ha.symm.trans happ
        refine ⟨_, fifo, hstep (s.pool.modFrame i fun f => { f with bOutEarly := false })
          (by simp [FrmBufPool.releaseDisplayBuffer, harr, hn0]),
          h.put_referred hi hm (by rw [harr]) (fun _ => rfl) fun app happ => ?_⟩
        rw [harr, hw]
        exact .heldEarly hf hn' happ
    · have hslot := h.slots i hi
      simp only [hm, decide_false] at hslot
      obtain ⟨w, harr, hw⟩ : ∃ w, s.pool.array i = ⟨some b, none, 0, w, true⟩ ∧
          s.waiting i = false := by
        revert hslot hb hacc
        generalize s.pool.array i = f
        generalize s.waiting i = w
        intro hb hacc hslot
        cases hslot with
        | empty => cases hb
        | held hf hn ha | waiting hf hn ha | displayed hf hn ha | heldEarly hf hn ha =>
          simp only at hacc
          omega
        | outEarly hf ha =>
          cases hb
          exact ⟨_, rfl, rfl⟩
      have hout : w = true := by
        have := hn i hid
        simpa [harr] using this
      subst hout
      obtain ⟨p, j, hp, hinv⟩ := h.put_outEarly hi hm harr hw
      exact ⟨_, _, hstep p hp, hinv⟩

theorem releaseUnused (h : s.Inv fifo none) :
    ∃ s' fifo', s.step .releaseUnused = some s' ∧ s'.Inv fifo' none := by
  cases fifo with
  | nil =>
    have hhead : s.pool.iFifoHead = none := h.queue.head
    exact ⟨s, [], by simp [step, hhead], h⟩
  | cons i fifo =>
    have hhead : s.pool.iFifoHead = some i := h.queue.head
    have hi : i < frmBufPoolSize := h.inRange i (List.mem_cons_self ..)
    have hm : i ∉ fifo := (List.nodup_cons.mp h.queue.nodup).1
    obtain ⟨b', next, hfirst, -, hw⟩ := h.pFrame_ne_none (List.mem_cons_self ..)
    obtain ⟨p, b, hrun, harr, happ, hinv⟩ := h.removeBuffer
    have hid := hinv.getFrameID_of_slot (b := b) hi (congrArg FrameFifo.pFrame harr)
    have hfifo := hinv.isInFifo_eq_false (b := b) fun j hj hjb => hm
      (hinv.distinct j (hinv.inRange j hj) i hi (by simp [hjb])
        (hjb.trans (congrArg FrameFifo.pFrame harr).symm) ▸ hj)
    change p.getFrameIDFromDisplay b = some i at hid
    change p.isInFifo b = some false at hfifo
    let out : FrameFifo → FrameFifo := fun f =>
      { f with iAccessCnt := 0, bWillBeOutputed := if f.bOutEarly then f.bWillBeOutputed else true }
    have hout : (p.modFrame i out).array i = ⟨some b, none, 0, true, false⟩ := by
      simp [FrmBufPool.modFrame, harr, out]
    have hflush : s.pool.flushOneDisplayBuffer = some (p.modFrame i out, b) := by
      have hframe : ((p.modFrame i out).array i).pFrame = some b := congrArg FrameFifo.pFrame hout
      simp only [FrmBufPool.flushOneDisplayBuffer, hhead, hfirst, hrun, Option.bind_eq_bind,
        Option.bind_some, or_true, and_self, if_true]
      change ((p.modFrame i out).array i).pFrame.bind _ = _
      rw [hframe]
      rfl
    have hid' : (p.modFrame i out).getFrameIDFromDisplay b = some i := by
      rw [FrmBufPool.getFrameIDFromDisplay_modFrame (f := out) fun _ => rfl, hid]
    have hfifo' : (p.modFrame i out).isInFifo b = some false := by
      rw [FrmBufPool.isInFifo_modFrame (f := out) (fun _ => rfl) fun _ => rfl, hfifo]
    have hdone : (p.modFrame i out).signalCallbackReleaseIsDone b =
        some (p.modFrame i fun _ => ⟨none, none, -1, false, false⟩) := by
      have hself : ((p.modFrame i out).modFrame i fun f =>
          { f with bWillBeOutputed := false }).array i = ⟨some b, none, 0, false, false⟩ := by
        simp [FrmBufPool.modFrame, harr, out]
      simp only [FrmBufPool.signalCallbackReleaseIsDone, hid', hfifo', hout, Option.bind_eq_bind,
        Option.bind_some, true_or, and_self, if_true]
      rw [FrmBufPool.removeID_eq hi hself, FrmBufPool.modFrame_modFrame,
        FrmBufPool.modFrame_modFrame]
    refine ⟨_, fifo, ?_, hinv.emptySlot (l := none) (b := b) (a := true) hi hm
      (congrArg FrameFifo.pFrame harr) hw (Or.inl rfl)⟩
    simp [step, hhead, hflush, hdone, setPool]

end PoolUse.Inv

/-! ## Runs -/

namespace PoolUse

theorem inv_start (bForceOutput : Bool) : (start bForceOutput).Inv [] none where
  queue := ⟨List.nodup_nil, rfl, rfl, trivial, rfl⟩
  inRange := by simp
  slots := by
    intro i hi
    have harr : (start bForceOutput).pool.array i = ⟨none, none, -1, false, false⟩ := by
      simp [start, FrmBufPool.init, hi]
    rw [harr]
    exact .empty
  distinct := by
    intro i hi j hj hne
    exact absurd (by simp [start, FrmBufPool.init, hi]) hne
  placed := fun _ => Or.inl rfl

theorem Inv.step {s : PoolUse} {fifo : List ℕ} (h : s.Inv fifo none) {op : PoolOp}
    (ha : s.Allowed op) (hn : s.NotStranded op) :
    ∃ s' fifo', s.step op = some s' ∧ s'.Inv fifo' none := by
  cases op with
  | putDisplayBuffer b => exact h.putDisplayBuffer ha hn
  | beginFrame => exact h.beginFrame
  | increment i => exact ⟨_, fifo, (h.increment ha).choose_spec⟩
  | decrement i => exact h.decrement ha
  | output i => exact ⟨_, fifo, (h.output ha).choose_spec⟩
  | display i => exact ⟨_, fifo, (h.display ha).choose_spec⟩
  | forceDisplay i => exact ⟨_, fifo, (h.forceDisplay ha).choose_spec⟩
  | releaseUnused => exact h.releaseUnused

/-- In a run of the parties in which the application strands no buffer, no
assertion fails and the buffers are conserved. -/
theorem conserved_of_run (bForceOutput : Bool) (ops : List PoolOp)
    (hg : GuardedRuns.Guarded PoolUse.step (fun s op => s.Allowed op ∧ s.NotStranded op) ops
      (start bForceOutput)) :
    ∃ s fifo, GuardedRuns.run PoolUse.step ops (start bForceOutput) = some s ∧
      s.Conserved fifo := by
  obtain ⟨s, hrun, fifo, hinv⟩ := GuardedRuns.run_of_guarded
    (I := fun s : PoolUse => ∃ fifo, s.Inv fifo none) (fun s op hI ha => by
      obtain ⟨fifo, h⟩ := hI
      obtain ⟨s', fifo', hs, hinv⟩ := h.step ha.1 ha.2
      exact ⟨s', hs, fifo', hinv⟩) ⟨[], inv_start bForceOutput⟩ hg
  exact ⟨s, fifo, hrun, hinv.conserved⟩

/-- A picture is decoded, displayed and given back, and the next one begins. -/
theorem conserved_displayed : ∃ s fifo, GuardedRuns.run PoolUse.step
    [.putDisplayBuffer 7, .putDisplayBuffer 8, .beginFrame, .increment 0, .increment 0, .output 0,
      .decrement 0, .display 0, .decrement 0, .putDisplayBuffer 7, .decrement 0, .beginFrame]
    (start false) = some s ∧ s.Conserved fifo :=
  conserved_of_run false _ (by decide +kernel)

/-- A picture goes out early, is decoded without being put out by the buffer of
pictures, and comes back: its buffer is nowhere. -/
theorem not_conserved_stranded :
    GuardedRuns.Guarded PoolUse.step Allowed [.putDisplayBuffer 7, .beginFrame, .forceDisplay 0,
      .decrement 0, .putDisplayBuffer 7] (start true) ∧
    ∃ s, GuardedRuns.run PoolUse.step [.putDisplayBuffer 7, .beginFrame, .forceDisplay 0,
      .decrement 0, .putDisplayBuffer 7] (start true) = some s ∧ ∀ fifo, ¬ s.Conserved fifo := by
  refine ⟨by decide +kernel, ?_⟩
  have hrun : (GuardedRuns.run PoolUse.step [.putDisplayBuffer 7, .beginFrame, .forceDisplay 0,
      .decrement 0, .putDisplayBuffer 7] (start true)).map (fun s => (s.pool.iBufNumber, s.app 7,
        decide (∀ i ∈ List.range frmBufPoolSize, (s.pool.array i).iAccessCnt < 1))) =
      some (0, false, true) := by decide +kernel
  obtain ⟨s, hs, hfacts⟩ := Option.map_eq_some_iff.mp hrun
  simp only [Prod.mk.injEq, decide_eq_true_eq, List.mem_range] at hfacts
  obtain ⟨hnum, happ, hacc⟩ := hfacts
  refine ⟨s, hs, fun fifo h => ?_⟩
  obtain ⟨place, hat, -⟩ := h.placed 7
  have hnil : fifo = [] := List.length_eq_zero_iff.mp (h.queue.number.symm.trans hnum)
  cases place with
  | fifo =>
    obtain ⟨i, hi, -⟩ := hat
    rw [hnil] at hi
    cases hi
  | decoder =>
    obtain ⟨i, hi, -, -, hn⟩ := hat
    have := hacc i hi
    omega
  | application => exact absurd hat.1 (by simp [happ])

end PoolUse

end VcuCodec
