import VcuCodec.GuardedRuns
import VcuCodec.OmxCommands

/-!
# Runs of the OMX component

The threads of the ports and the calls of the client keep the invariant too, so that the
component stays orderly in every run whose steps are allowed.
-/

namespace VcuCodec.Omx

namespace Component

variable {s s' : Component} {i : PortId} {id : ℕ} {result : Option ModuleError} {tasks : List MainTask}

theorem take_inv (hinv : s.control.Inv) (h : s.take i = some s') : s'.control.Inv := by
  obtain ⟨f, n, hs', hshut⟩ := control_take hinv.answering.own h
  rw [hs']
  apply hinv.threads n fun b hb => absurd hb List.not_mem_nil
  intro j hj
  show (Function.update s.processor i f j).Shut
  by_cases hji : j = i
  · rw [hji, Function.update_self]
    exact hshut (hinv.fencing.shut i (hji ▸ hj))
  · rw [Function.update_of_ne hji]
    exact hinv.fencing.shut j hj

/-- A buffer is passed to the module while the fences are open. -/
theorem pass_inv {header : Header} (hinv : s.control.Inv) (hann : ¬s.Announced)
    (hhand : (s.processor i).inHand = some header) : (s.pass i header).control.Inv := by
  have hopen : ∀ j, s.pausePromise j = false := by
    intro j
    by_contra hc
    rw [Bool.not_eq_false] at hc
    have hblocked : s.pausePromise i = true := (hinv.fencing.both i j).trans hc
    have hnone := (hinv.fencing.shut i hblocked).1
    rw [show (s.control.processor i).inHand = some header from hhand] at hnone
    cases hnone
  have hcalm : s.calm = true := hinv.calm hann hopen
  rw [control_pass_threads]
  apply hinv.threads 0
  · intro b hb
    rw [List.mem_singleton.mp hb]
    exact hcalm
  · intro j hj
    rw [show s.control.blocked j = false from hopen j] at hj
    cases hj

theorem submit_inv (task : MainTask) (n : ℕ) (hinv : s.control.Inv) (htask : task.command = none)
    (hn : s.issued ≤ n) : Control.Inv { s.control with main := s.processorMain ++ [task], issued := n } where
  lifecycle := ⟨hinv.lifecycle.started, hinv.lifecycle.populating, hinv.lifecycle.unpopulating, hinv.lifecycle.moved⟩
  answering := ⟨fun id hid => Nat.lt_of_lt_of_le (hinv.answering.fresh id hid) hn, hinv.answering.nodup, by
    have hnone : [task].filterMap MainTask.command = [] := by rw [List.filterMap_cons, htask, List.filterMap_nil]
    refine hinv.answering.perm.trans (List.Perm.of_eq ?_)
    show _ = _ ++ (s.doing.command.toList ++ ((s.processorMain ++ [task]).filterMap MainTask.command ++ _))
    rw [List.filterMap_append, hnone, List.append_nil]
    rfl, hinv.answering.own⟩
  flagged := hinv.flagged.queue [task]
  fencing := { hinv.fencing with }
  passes := hinv.passes

variable {t : ℕ → MainTask}

theorem control_queueCommand : (s.queueCommand t).control = { s.control with
      main := s.processorMain ++ [t s.issued]
      issued := s.issued + 1
      accepts := s.control.accepts ++ [s.issued] } := by
  unfold queueCommand control
  simp [Event.move, Event.accept, Event.answer, Event.passedCalm]

theorem answering_queueCommand (hanswering : s.control.Answering)
    (htask : ∀ n, (t n).command = some n) : (s.queueCommand t).control.Answering := by
  rw [control_queueCommand]
  refine ⟨?_, ?_, ?_, hanswering.own⟩
  · intro id hid
    rcases List.mem_append.mp hid with hid | hid
    · exact Nat.lt_succ_of_lt (hanswering.fresh id hid)
    · rw [List.mem_singleton.mp hid]
      exact Nat.lt_succ_self _
  · refine List.nodup_append.mpr ⟨hanswering.nodup, by simp, ?_⟩
    intro id hid n hn heq
    have hlt := hanswering.fresh id hid
    rw [heq, List.mem_singleton.mp hn] at hlt
    exact Nat.lt_irrefl _ hlt
  · have hone : [t s.issued].filterMap MainTask.command = [s.issued] := by
      rw [List.filterMap_cons, htask, List.filterMap_nil]
    refine (hanswering.perm.append_right [s.issued]).trans ?_
    show (_ ++ (s.doing.command.toList ++ (s.processorMain.filterMap MainTask.command ++ s.marks.map Mark.id)) ++
      [s.issued]).Perm (_ ++ (s.doing.command.toList ++
        ((s.processorMain ++ [t s.issued]).filterMap MainTask.command ++ s.marks.map Mark.id)))
    rw [List.filterMap_append, hone, List.append_assoc, List.append_assoc, List.append_assoc, List.append_assoc]
    exact List.Perm.append_left _ (List.Perm.append_left _ (List.Perm.append_left _ List.perm_append_comm))

/-- A command is queued, and the flags of its port are set. -/
theorem command_inv {flags : PortId → Flags} (hinv : s.control.Inv)
    (hs' : s'.control = { s.control with flags := flags }) (htask : ∀ n, (t n).command = some n)
    (hflagged : Control.Flagged flags (s.processorMain ++ [t s.issued]) s.doing)
    (hdisabled : ∀ i, (flags i).enable = false → (flags i).toDisable = false → s.pausePromise i = true) :
    (s'.queueCommand t).control.Inv := by
  have hanswering : s'.control.Answering := by
    rw [hs']
    exact ⟨hinv.answering.fresh, hinv.answering.nodup, hinv.answering.perm, hinv.answering.own⟩
  have hmain : s'.processorMain = s.processorMain := congrArg Control.main hs'
  have hissued : s'.issued = s.issued := congrArg Control.issued hs'
  have hqueued := answering_queueCommand hanswering htask
  rw [control_queueCommand, hs', hmain, hissued] at hqueued ⊢
  exact
    { lifecycle :=
        ⟨hinv.lifecycle.started, hinv.lifecycle.populating, hinv.lifecycle.unpopulating, hinv.lifecycle.moved⟩
      answering := hqueued
      flagged := hflagged
      fencing := { hinv.fencing with disabled := hdisabled }
      passes := hinv.passes }

theorem queueCommand_inv (hinv : s.control.Inv) (htask : ∀ n, (t n).command = some n) :
    (s.queueCommand t).control.Inv :=
  command_inv hinv rfl htask (hinv.flagged.queue _) hinv.fencing.disabled

theorem disablePort_inv (hinv : s.control.Inv) : (s.disablePort i).control.Inv := by
  have hcontrol : { s with
      port := Function.update s.port i { s.port i with enable := false, isTransientToDisable := true }
      shouldFireEventPortSettingsChanges := true }.control =
      { s.control with
        flags := Function.update s.control.flags i { s.control.flags i with enable := false, toDisable := true } } :=
    congrArg (fun flags => { s.control with flags := flags }) flags_update
  refine command_inv hinv hcontrol (fun _ => rfl) ⟨?_, ?_⟩ ?_
  · intro j hj
    by_cases hji : j = i
    · rw [hji]
      exact .inl ⟨s.issued, List.mem_append_right _ List.mem_cons_self⟩
    · rw [Function.update_of_ne hji] at hj
      exact (hinv.flagged.queue _).toDisable j hj
  · intro j hj
    apply (hinv.flagged.queue _).toEnable j
    by_cases hji : j = i
    · rw [hji, Function.update_self] at hj
      rw [hji]
      exact hj
    · rwa [Function.update_of_ne hji] at hj
  · intro j henable hdis
    by_cases hji : j = i
    · rw [hji, Function.update_self] at hdis
      cases hdis
    · rw [Function.update_of_ne hji] at henable hdis
      exact hinv.fencing.disabled j henable hdis

theorem enablePort_inv (hinv : s.control.Inv) : (s.enablePort i).control.Inv := by
  have hcontrol : { s with
      port := Function.update s.port i { s.port i with enable := true, isTransientToEnable := true }
      shouldFireEventPortSettingsChanges := false }.control =
      { s.control with
        flags := Function.update s.control.flags i { s.control.flags i with enable := true, toEnable := true } } :=
    congrArg (fun flags => { s.control with flags := flags }) flags_update
  refine command_inv hinv hcontrol (fun _ => rfl) ⟨?_, ?_⟩ ?_
  · intro j hj
    apply (hinv.flagged.queue _).toDisable j
    by_cases hji : j = i
    · rw [hji, Function.update_self] at hj
      rw [hji]
      exact hj
    · rwa [Function.update_of_ne hji] at hj
  · intro j hj
    by_cases hji : j = i
    · rw [hji]
      exact .inl ⟨s.issued, List.mem_append_right _ List.mem_cons_self⟩
    · rw [Function.update_of_ne hji] at hj
      exact (hinv.flagged.queue _).toEnable j hj
  · intro j henable hdis
    by_cases hji : j = i
    · rw [hji, Function.update_self] at henable
      cases henable
    · rw [Function.update_of_ne hji] at henable hdis
      exact hinv.fencing.disabled j henable hdis

theorem step_inv {op : Op} (hinv : s.control.Inv) (hallowed : s.Allowed op) (h : s.step op = some s') :
    s'.control.Inv := by
  cases op with
  | setState newState mediaCheck =>
    unfold step at h
    simp only at h
    split at h
    · cases h
    · cases h
      exact queueCommand_inv (s := { s with transientState := _ }) hinv fun _ => rfl
  | flush port =>
    unfold step at h
    simp only at h
    split at h
    · cases h
    · cases port with
      | some i =>
        cases h
        exact queueCommand_inv hinv fun _ => rfl
      | none =>
        cases h
        exact queueCommand_inv (queueCommand_inv hinv fun _ => rfl) fun _ => rfl
  | portDisable port =>
    unfold step at h
    simp only at h
    split at h
    · cases h
    · cases port with
      | some i =>
        cases h
        exact disablePort_inv hinv
      | none =>
        cases h
        exact disablePort_inv (disablePort_inv hinv)
  | portEnable port =>
    unfold step at h
    simp only at h
    split at h
    · cases h
    · cases port with
      | some i =>
        cases h
        exact enablePort_inv hinv
      | none =>
        cases h
        exact enablePort_inv (enablePort_inv hinv)
  | markBuffer own =>
    unfold step at h
    simp only at h
    split at h
    · cases h
    · cases h
      exact queueCommand_inv hinv fun _ => rfl
  | submit i empty eos marked =>
    unfold step at h
    simp only at h
    split at h
    · cases h
    · have hsubmit := submit_inv (.buffer i ⟨s.issued, empty, i = .input && eos, i = .input && marked⟩) (s.issued + 1) hinv rfl
        (Nat.le_succ _)
      cases h
      have hlog := control_log (s := { s with
          processorMain := s.processorMain ++ [.buffer i ⟨s.issued, empty, i = .input && eos, i = .input && marked⟩]
          issued := s.issued + 1 }) (unseen_submitted (i := i) ⟨s.issued, empty, i = .input && eos, i = .input && marked⟩)
      exact hlog ▸ hsubmit
  | setConfig =>
    unfold step at h
    simp only at h
    split at h
    · cases h
    · cases h
      exact submit_inv .setDynamic s.issued hinv rfl (Nat.le_refl _)
  | setParameter i parameter =>
    unfold step at h
    simp only at h
    split at h
    · cases h
      exact hinv
    · cases parameter with
      | preallocation shouldPrealloc =>
        cases h
        exact hinv
      | expected count =>
        have hcontrol := control_port (s := s) (i := i) (p := (s.port i).setExpected count) rfl
        cases h
        exact hcontrol ▸ hinv
      | other =>
        cases h
        exact hinv
  | allocate i buffer success =>
    unfold step at h
    simp only at h
    split at h
    · have hcontrol := control_port (s := s) (i := i) (p := (s.port i).add buffer) (by
        unfold Port.add
        dsimp only
        split <;> rfl)
      cases h
      exact hcontrol ▸ hinv
    · have hcontrol := control_port (s := s) (i := i) (p := { s.port i with error := true }) rfl
      cases h
      exact hcontrol ▸ hinv
  | free i buffer success =>
    unfold step at h
    simp only at h
    split at h
    · have hcontrol := control_port (s := s) (i := i) (p := (s.port i).remove buffer) (by
        unfold Port.remove
        dsimp only
        split <;> rfl)
      cases h
      exact hcontrol ▸ hinv
    · have hcontrol := control_port (s := s) (i := i) (p := { s.port i with error := true }) rfl
      cases h
      exact hcontrol ▸ hinv
  | giveBack i header =>
    unfold step at h
    simp only at h
    split at h
    · have hlog := control_log (s := s) (unseen_returned (i := i) [header])
      cases h
      exact hlog ▸ hinv
    · cases h
  | endOfStream =>
    unfold step at h
    simp only at h
    split at h
    · cases h
      rw [control_flushEosHandles]
      exact hinv
    · cases h
  | moduleError e =>
    cases h
    exact queueCommand_inv hinv fun _ => rfl
  | port portStep =>
    cases portStep with
    | take i => exact take_inv hinv h
    | pass i =>
      obtain ⟨header, hhand, heq⟩ := Option.map_eq_some_iff.mp h
      rw [← heq]
      exact pass_inv hinv hallowed hhand
  | main result gap =>
    obtain ⟨hgap, hwait, htask⟩ := hallowed
    exact mainStep_inv hinv hgap hwait htask h

theorem create_inv (expected : PortId → ℕ) : (create expected).control.Inv where
  lifecycle := ⟨by simp [create, control], nofun, nofun, by simp [create, control]⟩
  answering := ⟨by simp [create, control], by simp [create, control], List.Perm.refl _, nofun⟩
  flagged := ⟨nofun, nofun⟩
  fencing := ⟨nofun, fun _ _ => rfl, nofun, nofun, nofun⟩
  passes := by simp [create, control]

theorem orderly_of_inv (h : s.control.Inv) : s.Orderly where
  started := h.lifecycle.started
  moved a b hab := h.lifecycle.moved (a, b) hab
  accepted := h.answering.nodup
  answered := h.answering.perm
  calm := h.passes

/-- In every run whose steps are allowed the component stays orderly. -/
theorem orderly_of_run {expected : PortId → ℕ} {ops : List Op}
    (hallowed : GuardedRuns.Guarded step Allowed ops (create expected))
    (hr : GuardedRuns.run step ops (create expected) = some s) : s.Orderly := by
  have hinv : s.control.Inv := GuardedRuns.invariant_of_run (I := fun s => s.control.Inv)
    (fun _ _ _ hinv hop hstep => step_inv hinv hop hstep) (create_inv expected) hallowed hr
  exact orderly_of_inv hinv

/-- A mark, buffers, a pause with a flush, a port that is disabled and enabled, and an error of
the module. -/
def pausedSession : List Op :=
  [.setState .idle true, .main none [], .allocate .input 0 true, .allocate .output 0 true, .main none [],
    .main none [], .setState .executing true, .main none [], .markBuffer true, .main none [],
    .submit .input false false false, .submit .output false false false, .main none [], .main none [],
    .port (.take .output), .port (.take .input), .port (.pass .input), .setState .pause true, .main none [],
    .submit .input false true false, .main none [], .flush none, .main none [], .main none [],
    .setState .executing true, .main none [], .port (.take .input), .portDisable (some .output), .main none [],
    .free .output 0 true, .main none [], .portEnable (some .output), .main none [], .allocate .output 0 true,
    .main none [], .moduleError .undefined, .main none []]

theorem orderly_of_run_paused : ∃ s, GuardedRuns.run step pausedSession (create fun _ => 1) = some s ∧ s.Orderly := by
  obtain ⟨s, hr⟩ : ∃ s, GuardedRuns.run step pausedSession (create fun _ => 1) = some s :=
    Option.isSome_iff_exists.mp (by decide +kernel)
  exact ⟨s, hr, orderly_of_run
    (by decide +kernel : GuardedRuns.Guarded step Allowed pausedSession (create fun _ => 1)) hr⟩

/-- A flush stops the module, which does not start again. -/
def failedRestart : List Op :=
  [.setState .idle true, .main none [], .allocate .input 0 true, .allocate .output 0 true, .main none [],
    .main none [], .setState .executing true, .main none [], .flush (some .input), .main (some .noMemory) []]

theorem not_orderly_failedRestart : ¬∀ (expected : PortId → ℕ) (ops : List Op) (s : Component),
    GuardedRuns.run step ops (create expected) = some s → s.Orderly := by
  intro h
  obtain ⟨s, hr⟩ : ∃ s, GuardedRuns.run step failedRestart (create fun _ => 1) = some s :=
    Option.isSome_iff_exists.mp (by decide +kernel)
  have hend : (GuardedRuns.run step failedRestart (create fun _ => 1)).map (fun s => (s.started, s.state)) =
      some (false, .executing) := by
    decide +kernel
  rw [hr] at hend
  have hstarted : s.started = false := congrArg Prod.fst (Option.some.inj hend)
  have hstate : s.state = .executing := congrArg Prod.snd (Option.some.inj hend)
  have htrue := (h _ _ _ hr).started.mpr (.inl hstate)
  rw [hstarted] at htrue
  cases htrue

end Component

end VcuCodec.Omx
