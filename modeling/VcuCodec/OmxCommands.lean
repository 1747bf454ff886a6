import VcuCodec.OmxFences

/-!
# The commands of the OMX component

Each command of the main thread keeps the invariant, up to its first wait and behind it.
-/

namespace VcuCodec.Omx

namespace Component

variable {s s' : Component} {i : PortId} {side : PortId → Bool}

variable {opt : Option OmxError} {id : ℕ}

theorem fail_inv {e : OmxError} (ht : s.control.Treating id)
    (hflagged : Control.Flagged s.control.flags s.processorMain .nothing) : (s.fail opt id e).control.Inv := by
  by_cases he : e = .invalidState
  · have hmove := ht.move .invalid false _ _ (.inr rfl) (by simp) ht.shut ht.both nofun
      ht.disabled
    rw [he, control_fail_invalid]
    exact hmove.answer hflagged
  · rw [control_fail_of_ne he]
    exact ht.answer hflagged

theorem inHand_or_calm (hinv : s.control.Inv) (h : (s.processor i).inHand = none ∨ ¬s.Announced) :
    (s.processor i).inHand = none ∨ s.calm = true := by
  rcases h with hhand | hann
  · exact .inl hhand
  · cases hb : s.pausePromise i with
    | true => exact .inl (hinv.fencing.shut i hb).1
    | false =>
      right
      apply hinv.calm hann
      intro j
      exact (hinv.fencing.both j i).trans hb

theorem control_attachMark (header : Header) (hown : ∀ mark ∈ s.marks, mark.own = true) :
    ∃ n, (s.attachMark header).control = s.control.threads s.processor n [] := by
  have hnone : s.control.threads s.processor 0 [] = s.control := Control.threads_nil
  unfold attachMark
  cases hmarks : s.marks with
  | nil => exact ⟨0, hnone.symm⟩
  | cons mark marks =>
    have hfront : mark.own = true := hown mark (by rw [hmarks]; exact List.mem_cons_self)
    simp only [hfront, if_true]
    split
    · exact ⟨0, hnone.symm⟩
    · refine ⟨1, ?_⟩
      unfold Control.threads control
      simp [hmarks, Event.move, Event.accept, Event.answer, Event.passedCalm]

theorem control_threads (f : PortFifo) : { s.control with processor := Function.update s.processor i f } =
    s.control.threads (Function.update s.processor i f) 0 [] :=
  Control.threads_nil.symm

/-- A buffer is taken: it goes back to the client, stays in hand or is kept for the end of the
stream. -/
theorem control_takeBuffer (header : Header) (tasks : List PortTask) (hown : ∀ mark ∈ s.marks, mark.own = true) :
    ∃ f n, (s.takeBuffer i tasks header).control =
      s.control.threads (Function.update s.processor i f) n [] := by
  have hdone : ∀ t : Component, { t with
      processor := Function.update t.processor i ⟨tasks, none⟩
      log := t.log ++ [Event.returned i header] }.control =
      { t.control with processor := Function.update t.processor i ⟨tasks, none⟩ } := fun t =>
    congrArg (fun c : Control => { c with processor := Function.update t.processor i ⟨tasks, none⟩ })
      (control_log (unseen_returned [header]))
  obtain ⟨n, hmark⟩ := control_attachMark header hown
  have hproc : (s.attachMark header).processor = s.processor := congrArg Control.processor hmark
  have hattached : ∀ f : PortFifo, { (s.attachMark header).control with
      processor := Function.update (s.attachMark header).processor i f } =
      s.control.threads (Function.update s.processor i f) n [] := by
    intro f
    rw [hmark, hproc]
    rfl
  unfold takeBuffer
  simp only
  split
  · exact ⟨_, 0, (hdone s).trans (control_threads _)⟩
  · cases i with
    | input =>
      simp only
      split
      · split
        · exact ⟨_, n, hattached ⟨tasks, some header⟩⟩
        · exact ⟨_, n, (hdone (s.attachMark header)).trans (hattached _)⟩
      · exact ⟨_, n, hattached ⟨tasks, some header⟩⟩
    | output =>
      simp only
      split
      · exact ⟨_, 0, control_threads ⟨tasks, none⟩⟩
      · exact ⟨_, 0, control_threads ⟨tasks, some header⟩⟩

theorem control_take (hown : ∀ mark ∈ s.marks, mark.own = true) (h : s.take i = some s') :
    ∃ f n, s'.control = s.control.threads (Function.update s.processor i f) n [] ∧
      ((s.processor i).Shut → f.Shut) := by
  have hfifo : ∀ {inHand tasks}, (s.processor i).inHand = inHand → (s.processor i).tasks = tasks →
      s.processor i = ⟨tasks, inHand⟩ := by
    intro inHand tasks h1 h2
    rw [← h1, ← h2]
  unfold take at h
  split at h
  · rename_i tasks hhand htasks
    cases h
    refine ⟨⟨tasks, none⟩, 0, control_threads _, fun hshut => ?_⟩
    rw [hfifo hhand htasks] at hshut
    exact hshut.tail nofun
  · rename_i tasks hhand htasks
    cases h
    refine ⟨⟨tasks, none⟩, 0, control_threads _, fun hshut => ?_⟩
    rw [hfifo hhand htasks] at hshut
    exact hshut.tail nofun
  · rename_i header tasks hhand htasks
    have hopen : ¬(s.processor i).Shut := by
      rw [hfifo hhand htasks]
      exact PortFifo.not_shut_of_buffer
    obtain ⟨f, n, hf⟩ := control_takeBuffer (i := i) header tasks hown
    cases h
    exact ⟨f, n, hf, fun hshut => absurd hshut hopen⟩
  · cases h

theorem control_pass_threads {header : Header} : (s.pass i header).control =
    s.control.threads (Function.update s.processor i { s.processor i with inHand := none }) 0 [s.calm] := by
  rw [control_pass, Control.threads_zero]

variable {gap : List PortStep}

/-- The threads of the ports go on while the component is calm. -/
theorem control_gap (hcalm : s.calm = true) (hown : ∀ mark ∈ s.marks, mark.own = true)
    (h : gap.foldlM portStep s = some s') :
    ∃ processor n passes, (∀ b ∈ passes, b = true) ∧ s'.control = s.control.threads processor n passes := by
  induction gap generalizing s with
  | nil =>
    cases h
    refine ⟨s'.processor, 0, [], fun b hb => absurd hb List.not_mem_nil, ?_⟩
    rw [Control.threads_nil]
    rfl
  | cons step gap ih =>
    rw [List.foldlM_cons] at h
    obtain ⟨t, hstep, hgap⟩ := Option.bind_eq_some_iff.mp h
    obtain ⟨processor, n, passes, hpasses, ht⟩ : ∃ processor n passes, (∀ b ∈ passes, b = true) ∧
        t.control = s.control.threads processor n passes := by
      cases step with
      | take i =>
        obtain ⟨f, n, hf, -⟩ := control_take hown hstep
        exact ⟨_, n, [], fun b hb => absurd hb List.not_mem_nil, hf⟩
      | pass i =>
        obtain ⟨header, -, heq⟩ := Option.map_eq_some_iff.mp hstep
        refine ⟨_, 0, [s.calm], ?_, by rw [← heq, control_pass_threads]⟩
        intro b hb
        rw [List.mem_singleton.mp hb]
        exact hcalm
    have hcalm' : t.calm = true := by
      rw [calm_eq, ht]
      exact hcalm
    have hown' : ∀ mark ∈ t.marks, mark.own = true := by
      have hmarks : t.marks = s.marks.drop n := congrArg Control.marks ht
      rw [hmarks]
      exact fun mark hmark => hown mark (List.mem_of_mem_drop hmark)
    obtain ⟨processor', m, passes', hpasses', hs'⟩ := ih hcalm' hown' hgap
    refine ⟨processor', n + m, passes ++ passes', ?_, ?_⟩
    · intro b hb
      rcases List.mem_append.mp hb with hb | hb
      · exact hpasses b hb
      · exact hpasses' b hb
    · rw [hs', ht, Control.threads_threads]

/-- The queues of both ports are replaced inside a command. -/
theorem flush_treating (ht : s.control.Treating id)
    (hcalm : ∀ i, (s.processor i).inHand = none ∨ s.calm = true)
    (hgap : gap = [] ∨ (∀ i, s.pausePromise i = false) ∧ s.calm = true)
    (h : s.flushFillEmptyBuffers (fun _ => true) gap = some s') :
    (∃ processor n passes, s'.control = s.control.threads processor n passes) ∧
      s'.control.Treating id ∧ ∀ i, s'.pausePromise i = true ∨ s'.NoBuffers i := by
  -- what the port threads do under open fences is done before the flush
  obtain ⟨t, htt, ⟨processor, n, passes, htc⟩, htcalm, hflush⟩ : ∃ t : Component, t.control.Treating id ∧
      (∃ processor n passes, t.control = s.control.threads processor n passes) ∧
      (∀ i, (t.processor i).inHand = none ∨ t.calm = true) ∧
      t.flushFillEmptyBuffers (fun _ => true) [] = some s' := by
    rcases hgap with rfl | ⟨hopen, hscalm⟩
    · refine ⟨s, ht, ⟨s.processor, 0, [], ?_⟩, hcalm, h⟩
      rw [Control.threads_nil]
      rfl
    · unfold flushFillEmptyBuffers at h
      simp only [hopen, Bool.or_self, Bool.false_eq_true, if_false, Option.bind_eq_bind] at h
      obtain ⟨t, hthreads, htail⟩ := Option.bind_eq_some_iff.mp h
      obtain ⟨processor, n, passes, hpasses, htc⟩ := control_gap hscalm ht.own hthreads
      refine ⟨t, ?_, ⟨processor, n, passes, htc⟩, fun i => .inr ?_, ?_⟩
      · rw [htc]
        apply ht.threads n hpasses
        intro i hi
        rw [show s.control.blocked i = false from hopen i] at hi
        cases hi
      · rw [calm_eq, htc]
        exact hscalm
      · have htopen : ∀ i, t.pausePromise i = false := by
          intro i
          have : t.pausePromise = s.pausePromise := congrArg Control.blocked htc
          rw [this, hopen]
        unfold flushFillEmptyBuffers
        simp only [htopen, Bool.or_self, Bool.false_eq_true, if_false, List.foldlM_nil, Option.pure_def,
          Option.bind_eq_bind, Option.bind_some]
        exact htail
  obtain ⟨processor', passes', hpasses', hs', hshut, hempty⟩ :=
    flush_control htt.shut htt.both (fun i _ => htcalm i) (fun _ _ => .inl rfl) hflush
  refine ⟨⟨processor', n, passes ++ passes', ?_⟩, ?_, ?_⟩
  · rw [hs', htc]
    unfold Control.threads
    rw [List.append_assoc]
  · rw [hs']
    exact htt.flush hpasses' hshut
  · intro i
    have hblocked : s'.pausePromise i = t.pausePromise i := congrFun (congrArg Control.blocked hs') i
    have hproc : s'.processor i = processor' i := congrFun (congrArg Control.processor hs') i
    cases hb : t.pausePromise i with
    | true => exact .inl (hblocked.trans hb)
    | false =>
      right
      unfold NoBuffers
      rw [hproc]
      exact hempty i hb (.inl rfl)

/-- Only where the component leaves `pause` do the port threads run inside of `finishSetState`. -/
theorem finishSetState_gap {newState : OmxState} (hstate : s.state ≠ .pause) :
    s.finishSetState newState opt id result gap = s.finishSetState newState opt id result [] := by
  have hstart : (s.startFor newState result).1.state = s.state := by
    unfold startFor startModule
    split
    · split
      · rfl
      · cases result <;> rfl
    · rfl
  unfold finishSetState
  cases hr : s.startFor newState result with
  | mk t r =>
    cases r with
    | some e => rfl
    | none =>
      rw [hr] at hstart
      have hblock : (((t.announceFor newState).stopFor newState).blockFor newState).state = s.state := by
        calc (((t.announceFor newState).stopFor newState).blockFor newState).state
            = ((t.announceFor newState).stopFor newState).state := congrArg Control.state (control_blockFor _ _)
          _ = (t.announceFor newState).state := congrArg Control.state (control_stopFor _ _)
          _ = t.state := congrArg Control.state control_announceFor
          _ = s.state := hstart
      simp only [hblock, hstate, decide_false, Bool.false_and, Bool.false_eq_true, if_false]

end Component

namespace Component

variable {s s' : Component} {i : PortId} {id : ℕ} {result : Option ModuleError} {tasks : List MainTask}

variable {task : MainTask}

theorem treating_of_main (hinv : s.control.Inv) (hdoing : s.doing = .nothing)
    (hmain : s.processorMain = task :: tasks) (hcommand : task.command = some id) :
    { s with processorMain := tasks }.control.Treating id := by
  refine hinv.treating tasks s.control.flags ?_ hinv.fencing.disabled
  show s.doing.command.toList ++ (s.processorMain.filterMap MainTask.command ++ _) = _
  rw [hdoing, hmain, List.filterMap_cons, hcommand]
  rfl

theorem flagged_of_main (hinv : s.control.Inv) (hdoing : s.doing = .nothing)
    (hmain : s.processorMain = task :: tasks) : Control.Flagged s.control.flags (task :: tasks) .nothing := by
  rw [← hmain, ← hdoing]
  exact hinv.flagged

theorem idle_of_isTransitionToPause {a b : OmxState} (h : isTransitionToPause a b = true)
    (hflush : isFlushingRequired a b = false) : a = .idle ∧ b = .pause := by
  unfold isTransitionToPause at h
  simp only [decide_eq_true_eq] at h
  obtain ⟨rfl, rfl | rfl⟩ := h
  · exact absurd hflush (by decide)
  · exact ⟨rfl, rfl⟩

variable {gap : List PortStep}

/-- `TreatSetStateCommand` behind the flush. -/
def enterState (t : Component) (newState : OmxState) (opt : Option OmxError) (id : ℕ)
    (result : Option ModuleError) : Option Component :=
  match checkStateTransition t.state newState with
  | some e => some (t.fail opt id e)
  | none =>
    if isTransitionToIdleFromLoadedOrWaitRessource t.state newState then
      some { t with doing := .populating .input id }
    else if isTransitionToLoaded t.state newState && t.state ≠ .waitForResources then
      some { t with doing := .unpopulating .input id }
    else t.finishSetState newState opt id result []

/-- The conditions are those of the state behind the removal of the command from the queue. -/
theorem treatSetState_inv {newState : OmxState} {opt : Option OmxError} (ht : s.control.Treating id)
    (hflagged : Control.Flagged s.control.flags s.processorMain .nothing)
    (hcalm : isFlushingRequired s.state newState = true → ∀ i, (s.processor i).inHand = none ∨ s.calm = true)
    (hnone : s.state = .idle → newState = .pause → ∀ i, s.pausePromise i = true ∨ s.NoBuffers i)
    (hgap : gap = [] ∨ (∀ i, s.pausePromise i = false) ∧ s.calm = true)
    (h : s.treatSetStateCommand newState opt id result gap = some s') : s'.control.Inv := by
  obtain ⟨t, hstate, htt, hflagged', hpause, htail⟩ : ∃ t : Component, t.state = s.state ∧
      t.control.Treating id ∧ Control.Flagged t.control.flags t.processorMain .nothing ∧
      (isTransitionToPause t.state newState = true → ∀ i, t.pausePromise i = true ∨ t.NoBuffers i) ∧
      t.enterState newState opt id result = some s' := by
    unfold treatSetStateCommand at h
    by_cases hflush : isFlushingRequired s.state newState = true
    · simp only [hflush, if_pos, Option.bind_eq_bind] at h
      obtain ⟨t, hqueues, htail⟩ := Option.bind_eq_some_iff.mp h
      obtain ⟨⟨processor, n, passes, htc⟩, htt, hpause⟩ := flush_treating ht (hcalm hflush) hgap hqueues
      refine ⟨t, congrArg Control.state htc, htt, ?_, fun _ => hpause, htail⟩
      have hflags : t.control.flags = s.control.flags := by
        rw [htc]
        rfl
      have htasks : t.processorMain = s.processorMain := congrArg Control.main htc
      rw [hflags, htasks]
      exact hflagged
    · rw [Bool.not_eq_true] at hflush
      simp only [hflush, Bool.false_eq_true, if_false, Option.bind_eq_bind, Option.bind_some] at h
      have hnogap : s.finishSetState newState opt id result gap = s.finishSetState newState opt id result [] := by
        rcases hgap with rfl | ⟨hopen, -⟩
        · rfl
        · apply finishSetState_gap
          intro hp
          have hblocked := ht.paused hp .input
          rw [show s.control.blocked .input = false from hopen .input] at hblocked
          cases hblocked
      rw [hnogap] at h
      refine ⟨s, rfl, ht, hflagged, ?_, h⟩
      intro hpause
      have hidle := idle_of_isTransitionToPause hpause hflush
      exact hnone hidle.1 hidle.2
  unfold enterState at htail
  cases hcheck : checkStateTransition t.state newState with
  | some e =>
    rw [hcheck] at htail
    cases htail
    exact fail_inv htt hflagged'
  | none =>
    rw [hcheck] at htail
    simp only at htail
    split at htail
    · rename_i hpop
      cases htail
      refine htt.wait rfl (hflagged'.of_nothing _) (fun _ _ _ => ?_) (fun _ _ h => by cases h) (fun _ _ h => by cases h)
      unfold isTransitionToIdleFromLoadedOrWaitRessource at hpop
      simp only [decide_eq_true_eq] at hpop
      exact hpop.2
    · split at htail
      · rename_i hunpop
        cases htail
        refine htt.wait rfl (hflagged'.of_nothing _) (fun _ _ h => by cases h) (fun _ _ _ => ?_)
          fun _ _ h => by cases h
        unfold isTransitionToLoaded at hunpop
        simp only [Bool.and_eq_true, decide_eq_true_eq] at hunpop
        exact hunpop.1.2.resolve_right hunpop.2
      · exact finishSetState_inv htt hflagged' hcheck hpause htail

theorem treatFlush_inv {index : PortId} (ht : s.control.Treating id)
    (hflagged : Control.Flagged s.control.flags s.processorMain .nothing) (hrestarts : s.Restarts result)
    (hcalm : ∀ i, (s.processor i).inHand = none ∨ s.calm = true)
    (hgap : gap = [] ∨ (∀ i, s.pausePromise i = false) ∧ s.calm = true)
    (h : s.treatFlushCommand index id result gap = some s') : s'.control.Inv := by
  unfold treatFlushCommand at h
  obtain ⟨t, hqueues, htail⟩ := Option.bind_eq_some_iff.mp h
  obtain ⟨⟨processor, n, passes, htc⟩, htt, -⟩ := flush_treating ht hcalm hgap hqueues
  have hrestarts' : t.Restarts result := by
    have hstarted : t.started = s.started := congrArg Control.started htc
    intro hs
    exact hrestarts (hstarted ▸ hs)
  cases htail
  rw [control_answer, control_flushEosHandles, control_restart hrestarts']
  apply htt.answer
  rw [htc]
  exact hflagged

theorem settings_renewIf {b : Bool} : (renewIf s i b).shouldPrealloc = s.shouldPrealloc ∧
    (renewIf s i b).shouldFireEventPortSettingsChanges = s.shouldFireEventPortSettingsChanges := by
  unfold renewIf renew
  cases b with
  | true =>
    cases (s.processor i).inHand <;> exact ⟨rfl, rfl⟩
  | false => exact ⟨rfl, rfl⟩

theorem settings_flush {side : PortId → Bool} (h : s.flushFillEmptyBuffers side [] = some s') :
    s'.shouldPrealloc = s.shouldPrealloc ∧
      s'.shouldFireEventPortSettingsChanges = s.shouldFireEventPortSettingsChanges := by
  have hrenew : ∀ t : Component,
      (renewIf (renewIf t .output (side .output)) .input (side .input)).shouldPrealloc = t.shouldPrealloc ∧
      (renewIf (renewIf t .output (side .output)) .input (side .input)).shouldFireEventPortSettingsChanges =
        t.shouldFireEventPortSettingsChanges := by
    intro t
    have hin := settings_renewIf (s := renewIf t .output (side .output)) (i := .input) (b := side .input)
    have hout := settings_renewIf (s := t) (i := .output) (b := side .output)
    exact ⟨hin.1.trans hout.1, hin.2.trans hout.2⟩
  unfold flushFillEmptyBuffers at h
  simp only [List.foldlM_nil, Option.pure_def, Option.bind_eq_bind, Option.bind_some] at h
  split at h
  · cases h
    exact hrenew s.unblockFillEmptyBuffers
  · cases h
    exact hrenew s

theorem eq_otherPort {j : PortId} (h : j ≠ i) : j = otherPort i := by
  cases i <;> cases j <;> first | rfl | exact absurd rfl h

/-- The fences that a port command sets are in front of no buffer. -/
theorem treatDisablePort_inv (ht : s.control.Treating id)
    (hflagged : Control.Flagged s.control.flags (.disablePort i id :: s.processorMain) .nothing)
    (hallowed : s.TaskAllowed result (.disablePort i id))
    (hgap : (s.port i).isTransientToDisable = true → gap = [])
    (h : s.treatDisablePortCommand i id result gap = some s') : s'.control.Inv := by
  unfold treatDisablePortCommand at h
  by_cases hflag : (s.port i).isTransientToDisable = true
  · obtain ⟨hrestarts, hprealloc, hhand, hother⟩ := hallowed hflag
    simp only [hflag, hgap hflag, Bool.not_true, Bool.false_eq_true, if_false] at h
    obtain ⟨t, hqueues, htail⟩ := Option.bind_eq_some_iff.mp h
    have hnone : ∀ j, (decide (j = i)) = true ∨ s.NoBuffers j := by
      intro j
      by_cases hj : j = i
      · exact .inl (decide_eq_true hj)
      · exact .inr (eq_otherPort hj ▸ hother)
    obtain ⟨processor, passes, hpasses, htc, hshut, hempty⟩ := flush_control ht.shut ht.both
      (by
        intro j hj
        rw [of_decide_eq_true hj]
        exact .inl hhand)
      (fun j _ => hnone j) hqueues
    have hprealloc' : t.shouldPrealloc = true := (settings_flush hqueues).1.trans hprealloc
    have hside : (fun j : PortId => decide (j = .output) || t.shouldPrealloc) = fun _ => true := by
      funext j
      rw [hprealloc', Bool.or_true]
    simp only [hside] at htail
    have htblocked : t.pausePromise = s.pausePromise := congrArg Control.blocked htc
    have htproc : t.processor = processor := congrArg Control.processor htc
    have htt : t.control.Treating id := by
      rw [htc]
      exact ht.flush hpasses hshut
    have hblock := htt.block (fun j => t.pausePromise j || true)
      (fun j =>
        if true && !t.pausePromise j then
          { t.processor j with tasks := (t.processor j).tasks ++ [.sharedFence false] }
        else t.processor j)
      (fun j => Bool.or_true _)
      (by
        intro j
        rw [htblocked, htproc]
        cases hb : s.pausePromise j with
        | true => exact hshut j hb
        | false =>
          obtain ⟨hheaders, hnohand⟩ := hempty j hb (hnone j)
          exact PortFifo.shut_of_fence hnohand hheaders)
    have hrefresh : (t.blockFillEmptyBuffers fun _ => true).refreshes = true →
        (t.blockFillEmptyBuffers fun _ => true).Restarts result := by
      have hstarted : t.started = s.started := congrArg Control.started htc
      have hstate : t.state = s.state := congrArg Control.state htc
      have hrefreshes : (t.blockFillEmptyBuffers fun _ => true).refreshes = s.refreshes := by
        show (t.shouldPrealloc && t.shouldFireEventPortSettingsChanges && _) = _
        rw [(settings_flush hqueues).1, (settings_flush hqueues).2]
        show (_ && _ && (decide (t.state = .executing) || decide (t.state = .pause))) = _
        rw [hstate]
        rfl
      intro hr hs
      exact hrestarts (hrefreshes ▸ hr) (hstarted ▸ hs)
    have hu := control_refresh hrefresh
    cases htail
    have hfinal : { (t.blockFillEmptyBuffers fun _ => true).refresh result with doing := .disabling i id }.control =
        { (t.blockFillEmptyBuffers fun _ => true).control with doing := .disabling i id } :=
      congrArg (fun c : Control => { c with doing := .disabling i id }) hu
    rw [hfinal]
    refine hblock.wait rfl ?_ nofun nofun (fun j _ _ => Bool.or_true _)
    have hflags : t.control.flags = s.control.flags := by rw [htc]
    have hmain' : t.control.main = s.processorMain := congrArg Control.main htc
    show Control.Flagged t.control.flags t.control.main _
    rw [hflags, hmain']
    refine hflagged.wait ?_ nofun
    intro j n heq
    cases heq
    rfl
  · rw [Bool.not_eq_true] at hflag
    simp only [hflag, Bool.not_false, if_true] at h
    cases h
    rw [control_answer]
    apply ht.answer
    refine hflagged.pop ?_ nofun
    intro j n heq
    cases heq
    exact hflag

/-- The flag of an enabled port is cleared. -/
def clearToEnable (s : Component) (i : PortId) : Component :=
  { s with port := Function.update s.port i { s.port i with isTransientToEnable := false } }

def clearToDisable (s : Component) (i : PortId) : Component :=
  { s with port := Function.update s.port i { s.port i with isTransientToDisable := false } }

theorem finishEnable_inv (herror : (s.port i).error = false) (ht : (s.clearToEnable i).control.Treating id)
    (hflagged : Control.Flagged (s.clearToEnable i).control.flags s.processorMain .nothing)
    (hrestarts : s.refreshes = true → s.Restarts result) : (s.finishEnable i id result).control.Inv := by
  have hu : ((s.clearToEnable i).refresh result).control = (s.clearToEnable i).control := control_refresh hrestarts
  have htu : ((s.clearToEnable i).refresh result).control.Treating id := by
    rw [hu]
    exact ht
  have hflagged' : Control.Flagged ((s.clearToEnable i).refresh result).control.flags
      ((s.clearToEnable i).refresh result).control.main .nothing := by
    rw [hu]
    exact hflagged
  unfold finishEnable
  rw [if_neg (by rw [herror]; simp)]
  show (answer (if ((s.clearToEnable i).refresh result).portsReady &&
      ((s.clearToEnable i).refresh result).state ≠ .pause
    then ((s.clearToEnable i).refresh result).unblockFillEmptyBuffers
    else (s.clearToEnable i).refresh result) id (.portEnable i)).control.Inv
  generalize (s.clearToEnable i).refresh result = u at htu hflagged'
  rw [control_answer]
  by_cases hready : (u.portsReady && decide (u.state ≠ .pause)) = true
  · rw [if_pos hready, control_unblock]
    rw [Bool.and_eq_true, decide_eq_true_eq] at hready
    have hlift := htu.lift u.unblockFillEmptyBuffers.processor hready.2
      fun j => enable_of_portsReady hready.1
    exact hlift.answer hflagged'
  · rw [if_neg hready]
    exact htu.answer hflagged'

theorem flags_update {p : Port} :
    { s with port := Function.update s.port i p }.control.flags = Function.update s.control.flags i p.flags := by
  funext j
  show (Function.update s.port i p j).flags = _
  by_cases h : j = i
  · rw [h, Function.update_self, Function.update_self]
  · rw [Function.update_of_ne h, Function.update_of_ne h]
    rfl

theorem flags_clearToEnable : (s.clearToEnable i).control.flags =
    Function.update s.control.flags i { s.control.flags i with toEnable := false } :=
  flags_update

theorem flags_clearToDisable : (s.clearToDisable i).control.flags =
    Function.update s.control.flags i { s.control.flags i with toDisable := false } :=
  flags_update

theorem treating_clearToEnable (ht : s.control.Treating id) : (s.clearToEnable i).control.Treating id := by
  refine ht.setFlags (s.clearToEnable i).control.flags ?_
  rw [flags_clearToEnable]
  intro j henable hdis
  apply ht.disabled j
  · by_cases hj : j = i
    · rw [hj, Function.update_self] at henable
      rw [hj]
      exact henable
    · rwa [Function.update_of_ne hj] at henable
  · by_cases hj : j = i
    · rw [hj, Function.update_self] at hdis
      rw [hj]
      exact hdis
    · rwa [Function.update_of_ne hj] at hdis

variable {main : List MainTask}

theorem flagged_clearToEnable (h : Control.Flagged s.control.flags main (.enabling i id)) :
    Control.Flagged (s.clearToEnable i).control.flags main .nothing := by
  rw [flags_clearToEnable]
  refine h.finish ?_ ?_
  · intro j hj
    refine ⟨?_, nofun⟩
    by_cases hji : j = i
    · rw [hji, Function.update_self] at hj
      rw [hji]
      exact hj
    · rwa [Function.update_of_ne hji] at hj
  · intro j hj
    by_cases hji : j = i
    · rw [hji, Function.update_self] at hj
      cases hj
    · rw [Function.update_of_ne hji] at hj
      refine ⟨hj, ?_⟩
      intro n hn
      cases hn
      exact hji rfl

theorem treating_clearToDisable (ht : s.control.Treating id) (hblocked : s.pausePromise i = true) :
    (s.clearToDisable i).control.Treating id := by
  refine ht.setFlags (s.clearToDisable i).control.flags ?_
  rw [flags_clearToDisable]
  intro j henable hdis
  by_cases hj : j = i
  · rw [hj]
    exact hblocked
  · rw [Function.update_of_ne hj] at henable hdis
    exact ht.disabled j henable hdis

theorem flagged_clearToDisable (h : Control.Flagged s.control.flags main (.disabling i id)) :
    Control.Flagged (s.clearToDisable i).control.flags main .nothing := by
  rw [flags_clearToDisable]
  refine h.finish ?_ ?_
  · intro j hj
    by_cases hji : j = i
    · rw [hji, Function.update_self] at hj
      cases hj
    · rw [Function.update_of_ne hji] at hj
      refine ⟨hj, ?_⟩
      intro n hn
      cases hn
      exact hji rfl
  · intro j hj
    refine ⟨?_, nofun⟩
    by_cases hji : j = i
    · rw [hji, Function.update_self] at hj
      rw [hji]
      exact hj
    · rwa [Function.update_of_ne hji] at hj

theorem treatEnablePort_inv (ht : s.control.Treating id)
    (hflagged : Control.Flagged s.control.flags (.enablePort i id :: s.processorMain) .nothing)
    (hallowed : s.TaskAllowed result (.enablePort i id)) :
    (s.treatEnablePortCommand i id result).control.Inv := by
  have hwait : Control.Flagged s.control.flags s.processorMain (.enabling i id) := by
    refine hflagged.wait nofun ?_
    intro j n heq
    cases heq
    rfl
  unfold treatEnablePortCommand
  by_cases hflag : (s.port i).isTransientToEnable = true
  · rw [if_neg (by rw [hflag]; simp)]
    by_cases hstate : s.state ≠ .loaded ∧ s.state ≠ .waitForResources
    · rw [if_pos hstate]
      exact ht.wait rfl hwait nofun nofun nofun
    · rw [if_neg hstate]
      have hloaded : s.state = .loaded ∨ s.state = .waitForResources := by
        by_contra hc
        exact hstate ⟨fun h => hc (.inl h), fun h => hc (.inr h)⟩
      have hquiet : s.refreshes = true → s.Restarts result := by
        intro hr
        unfold refreshes at hr
        rcases hloaded with hs | hs <;> simp [hs] at hr
      exact finishEnable_inv (hallowed hflag hloaded) (treating_clearToEnable ht) (flagged_clearToEnable hwait) hquiet
  · rw [Bool.not_eq_true] at hflag
    rw [if_pos (by rw [hflag]; rfl), control_answer]
    apply ht.answer
    refine hflagged.pop nofun ?_
    intro j n heq
    cases heq
    exact hflag

theorem control_port {p : Port} (h : p.flags = (s.port i).flags) :
    { s with port := Function.update s.port i p }.control = s.control := by
  have hflags : Function.update s.control.flags i p.flags = s.control.flags := Function.update_eq_self_iff.mpr h
  calc { s with port := Function.update s.port i p }.control
      = { s.control with flags := { s with port := Function.update s.port i p }.control.flags } := rfl
    _ = s.control := by
      rw [flags_update, hflags]

theorem treating_of_doing (hinv : s.control.Inv) (hdoing : s.doing.command = some id) : s.control.Treating id := by
  refine hinv.treating s.processorMain s.control.flags ?_ hinv.fencing.disabled
  show s.doing.command.toList ++ _ = _
  rw [hdoing]
  rfl

theorem flagged_of_doing {doing : Doing} (hinv : s.control.Inv) (hdoing : s.doing = doing)
    (hdisabling : ∀ i n, doing ≠ .disabling i n) (henabling : ∀ i n, doing ≠ .enabling i n) :
    Control.Flagged s.control.flags s.processorMain .nothing := by
  have h : Control.Flagged s.control.flags s.processorMain doing := hdoing ▸ hinv.flagged
  exact h.finish (fun i hi => ⟨hi, hdisabling i⟩) (fun i hi => ⟨hi, henabling i⟩)

theorem failPort_inv {e : OmxError} (ht : s.control.Treating id)
    (hflagged : Control.Flagged s.control.flags s.processorMain .nothing) : (s.failPort i id e).control.Inv := by
  unfold failPort
  apply fail_inv
  · rw [control_port (p := { s.port i with error := false }) rfl]
    exact ht
  · rw [control_port (p := { s.port i with error := false }) rfl]
    exact hflagged

theorem resume_inv (hinv : s.control.Inv) (hallowed : s.WaitAllowed result) (h : s.resume result = some s') :
    s'.control.Inv := by
  unfold resume at h
  unfold WaitAllowed at hallowed
  cases hdoing : s.doing with
  | nothing =>
    rw [hdoing] at h
    cases h
  | populating index id =>
    have ht : s.control.Treating id := treating_of_doing hinv (by rw [hdoing]; rfl)
    have hstate : s.state = .loaded ∨ s.state = .waitForResources := hinv.lifecycle.populating index id hdoing
    have hflagged := flagged_of_doing hinv hdoing (fun _ _ h => by cases h) fun _ _ h => by cases h
    rw [hdoing] at h
    simp only at h
    split at h
    · cases h
    · split at h
      · cases h
        exact failPort_inv ht hflagged
      · cases index with
        | input =>
          cases h
          exact ht.wait rfl (hflagged.of_nothing _) (fun _ _ _ => hstate) (fun _ _ h => by cases h)
            fun _ _ h => by cases h
        | output =>
          have hcheck : checkStateTransition s.state .idle = none := by
            rcases hstate with hs | hs <;> rw [hs] <;> rfl
          exact finishSetState_inv ht hflagged hcheck (fun hp => by simp [isTransitionToPause] at hp) h
  | unpopulating index id =>
    have ht : s.control.Treating id := treating_of_doing hinv (by rw [hdoing]; rfl)
    have hstate : s.state = .idle := hinv.lifecycle.unpopulating index id hdoing
    have hflagged := flagged_of_doing hinv hdoing (fun _ _ h => by cases h) fun _ _ h => by cases h
    rw [hdoing] at h
    simp only at h
    split at h
    · cases h
    · split at h
      · cases h
        exact failPort_inv ht hflagged
      · cases index with
        | input =>
          cases h
          exact ht.wait rfl (hflagged.of_nothing _) (fun _ _ h => by cases h) (fun _ _ _ => hstate)
            fun _ _ h => by cases h
        | output =>
          have hcheck : checkStateTransition { s with transientState := .max }.state .loaded = none := by
            show checkStateTransition s.state .loaded = none
            rw [hstate]
            rfl
          have hs : { s with transientState := .max, doing := .unpopulating .output id } =
              { s with transientState := .max } := by
            rw [← hdoing]
          simp only [hs] at h
          exact finishSetState_inv (s := { s with transientState := .max }) ht hflagged hcheck
            (fun hp => by simp [isTransitionToPause] at hp) h
  | disabling index id =>
    have ht : s.control.Treating id := treating_of_doing hinv (by rw [hdoing]; rfl)
    have hflagged := hinv.flagged
    rw [show s.control.doing = _ from hdoing] at hflagged
    rw [hdoing] at h hallowed
    simp only at h hallowed
    split at h
    · cases h
    · rw [if_neg (by rw [hallowed]; simp)] at h
      cases h
      rw [control_answer]
      exact (treating_clearToDisable ht (hinv.fencing.disabling index id hdoing)).answer
        (flagged_clearToDisable hflagged)
  | enabling index id =>
    have ht : s.control.Treating id := treating_of_doing hinv (by rw [hdoing]; rfl)
    have hflagged := hinv.flagged
    rw [show s.control.doing = _ from hdoing] at hflagged
    rw [hdoing] at h hallowed
    simp only at h hallowed
    split at h
    · cases h
    · cases h
      exact finishEnable_inv hallowed.1 (treating_clearToEnable ht) (flagged_clearToEnable hflagged) hallowed.2

/-- A task that is no command goes to the thread of a port. -/
theorem queue_inv {t : PortTask} (hinv : s.control.Inv) (hdoing : s.doing = .nothing)
    (hmain : s.processorMain = task :: tasks) (htask : task.command = none) : { s with
      processorMain := tasks
      processor := Function.update s.processor i
        { s.processor i with tasks := (s.processor i).tasks ++ [t] } }.control.Inv where
  lifecycle := ⟨hinv.lifecycle.started, hinv.lifecycle.populating, hinv.lifecycle.unpopulating, hinv.lifecycle.moved⟩
  answering := ⟨hinv.answering.fresh, hinv.answering.nodup, by
    refine hinv.answering.perm.trans (List.Perm.of_eq ?_)
    show _ ++ (s.doing.command.toList ++ (s.processorMain.filterMap MainTask.command ++ _)) = _
    rw [hmain, List.filterMap_cons, htask]
    rfl, hinv.answering.own⟩
  flagged := by
    show Control.Flagged _ tasks s.doing
    rw [hdoing]
    refine (flagged_of_main hinv hdoing hmain).pop ?_ ?_
    · intro j n heq
      rw [heq] at htask
      cases htask
    · intro j n heq
      rw [heq] at htask
      cases htask
  fencing :=
    { hinv.fencing with
      shut := by
        intro j hj
        show (Function.update s.processor i _ j).Shut
        by_cases hji : j = i
        · rw [hji, Function.update_self]
          exact (hinv.fencing.shut i (hji ▸ hj)).append [t]
        · rw [Function.update_of_ne hji]
          exact hinv.fencing.shut j hj }
  passes := hinv.passes

/-- A mark for the component itself waits for a buffer. -/
theorem mark_inv {own : Bool} (hinv : s.control.Inv) (hdoing : s.doing = .nothing)
    (hmain : s.processorMain = .markBuffer own id :: tasks) (hown : own = true) :
    { s with processorMain := tasks, marks := s.marks ++ [Mark.mk id own] }.control.Inv where
  lifecycle := ⟨hinv.lifecycle.started, hinv.lifecycle.populating, hinv.lifecycle.unpopulating, hinv.lifecycle.moved⟩
  answering := ⟨hinv.answering.fresh, hinv.answering.nodup, by
    refine hinv.answering.perm.trans (List.Perm.append_left _ (List.Perm.append_left _ ?_))
    show (s.processorMain.filterMap MainTask.command ++ s.marks.map Mark.id).Perm
      (tasks.filterMap MainTask.command ++ (s.marks ++ [Mark.mk id own]).map Mark.id)
    rw [hmain, List.map_append, ← List.append_assoc]
    exact (List.perm_append_singleton id _).symm, by
    intro mark hmark
    rcases List.mem_append.mp hmark with hmark | hmark
    · exact hinv.answering.own mark hmark
    · rw [List.mem_singleton.mp hmark]
      exact hown⟩
  flagged := by
    show Control.Flagged _ tasks s.doing
    rw [hdoing]
    exact (flagged_of_main hinv hdoing hmain).pop nofun nofun
  fencing := { hinv.fencing with }
  passes := hinv.passes

theorem mainStep_inv (hinv : s.control.Inv) (hgap : s.GapAllowed gap) (hwait : s.WaitAllowed result)
    (htask : s.doing = .nothing → ∀ task ∈ s.processorMain.head?, s.TaskAllowed result task)
    (h : s.mainStep result gap = some s') : s'.control.Inv := by
  unfold mainStep at h
  have hgap' : gap = [] ∨ (∀ i, s.pausePromise i = false) ∧ s.calm = true :=
    hgap.imp id fun ⟨hopen, hann⟩ => ⟨hopen, hinv.calm hann hopen⟩
  by_cases hdoing : s.doing = .nothing
  · rw [if_neg (fun hc => hc hdoing)] at h
    cases hmain : s.processorMain with
    | nil =>
      rw [hmain] at h
      cases h
    | cons task tasks =>
      have hallowed := htask hdoing task (by rw [hmain]; rfl)
      have hflagged := flagged_of_main hinv hdoing hmain
      rw [hmain] at h
      simp only at h
      cases task with
      | setState newState opt id =>
        have hcalm : isFlushingRequired s.state newState = true → ∀ i, (s.processor i).inHand = none ∨ s.calm = true :=
          fun hflush i => inHand_or_calm hinv (hallowed.1 hflush i)
        exact treatSetState_inv (s := { s with processorMain := tasks }) (treating_of_main hinv hdoing hmain rfl)
          (hflagged.pop nofun nofun) hcalm hallowed.2 hgap' h
      | flush index id =>
        have hcalm : ∀ i, (s.processor i).inHand = none ∨ s.calm = true :=
          fun i => inHand_or_calm hinv (hallowed.2 i)
        exact treatFlush_inv (s := { s with processorMain := tasks }) (treating_of_main hinv hdoing hmain rfl)
          (hflagged.pop nofun nofun) hallowed.1 hcalm hgap' h
      | disablePort index id =>
        have hgap' : (s.port index).isTransientToDisable = true → gap = [] := by
          intro hflag
          refine hgap.resolve_right fun h => h.2 ⟨index, .inl ⟨hflag, id, ?_⟩⟩
          rw [hmain]
          exact List.mem_cons_self
        exact treatDisablePort_inv (s := { s with processorMain := tasks })
          (treating_of_main hinv hdoing hmain rfl) hflagged hallowed hgap' h
      | enablePort index id =>
        cases h
        exact treatEnablePort_inv (s := { s with processorMain := tasks })
          (treating_of_main hinv hdoing hmain rfl) hflagged hallowed
      | markBuffer own id =>
        have hmark := mark_inv hinv hdoing hmain hallowed
        cases h
        exact hmark
      | buffer index header =>
        have hqueued := queue_inv (i := index) (t := .buffer header) hinv hdoing hmain rfl
        cases h
        exact hqueued
      | setDynamic =>
        have hqueued := queue_inv (i := .input) (t := .setDynamic) hinv hdoing hmain rfl
        cases h
        exact hqueued
  · rw [if_pos hdoing] at h
    exact resume_inv hinv hwait h

end Component

end VcuCodec.Omx
