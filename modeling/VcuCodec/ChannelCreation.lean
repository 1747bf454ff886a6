import VcuCodec.ChannelEffects
import VcuCodec.GuardedRuns

/-!
# The life cycle of a channel

What holds of a channel that is fully created, which encodings are accepted, and who owns
the channels of the MCU, in every run in which no allocation of buffers fails, no wait for a
creation is given up, no answer to one is lost, a release is sent, and nothing is encoded
while a creation is at a checkpoint.
-/

namespace VcuCodec

/-! ## One user -/

namespace ChannelUser

variable {user user' : ChannelUser} {i : ℕ} {op : UserOp} {commands : List McuCommand}

/-- What the checkpoint says about the buffers of the channel. -/
def BuffersAt (user : ChannelUser) : Checkpoint → Prop
  | .allocateBuffers => True
  | .sendIntermediateBuffers => user.intBuffers = true ∧ user.recBuffers = true
  | .sendReferenceBuffers => (user.intBuffers = true ∧ user.recBuffers = true) ∧ user.intSent = user.channel
  | .noCheckpoint => (user.intBuffers = true ∧ user.recBuffers = true) ∧ user.intSent = user.channel ∧
      user.recSent = user.channel

/-- A user without a channel, or with one whose buffers are as the checkpoint says. -/
structure Sound (user : ChannelUser) : Prop where
  chan : (user.channel = none ∧ user.chanUid = badChan ∧ user.checkpoint = .noCheckpoint) ∨
    ∃ channel, user.channel = some channel ∧ user.chanUid = channel.uid ∧ channel.uid ≠ badChan ∧
      user.BuffersAt user.checkpoint
  waiting : user.createCall = .waiting → user.channel = none ∧ user.destroying = false

/-- An answer of the MCU to a creation. -/
def IsAnswer (mail : ChannelMail) : Prop :=
  (mail.word0 = badChan ∧ mail.channel = none) ∨
    ∃ channel, mail.channel = some channel ∧ mail.word0 = channel.uid ∧ channel.uid ≠ badChan

/-- What is asked of the step of a user. -/
def StepMeets (user : ChannelUser) : UserOp → Prop
  | .createGiveUp => False
  | .allocateBuffers int rec => int = true ∧ rec = true
  | .encode true => user.haveCheckpoint = false
  | _ => True

instance (user : ChannelUser) : ∀ op, Decidable (user.StepMeets op)
  | .createGiveUp => inferInstanceAs (Decidable False)
  | .allocateBuffers int rec => inferInstanceAs (Decidable (int = true ∧ rec = true))
  | .encode true => inferInstanceAs (Decidable (user.haveCheckpoint = false))
  | .encode false | .createRequest _ | .createResume | .createFeedback | .sendIntermediateBuffers _
  | .sendReferenceBuffers _ | .destroyCall | .destroySend _ | .destroyFeedback | .destroyGiveUp | .waitForStatus =>
    inferInstanceAs (Decidable True)

theorem Sound.created (h : user.Sound) (hc : user.chanIsCreated = true) : ∃ channel, user.channel = some channel ∧
    user.chanUid = channel.uid ∧ channel.uid ≠ badChan ∧ user.BuffersAt user.checkpoint := by
  rcases h.chan with ⟨-, hbad, -⟩ | hchan
  · exact absurd hbad (of_decide_eq_true hc)
  · exact hchan

theorem Sound.of_checkpoint (h : user.Sound) (hc : user.checkpoint ≠ .noCheckpoint) : ∃ channel,
    user.channel = some channel ∧ user.chanUid = channel.uid ∧ channel.uid ≠ badChan ∧
      user.BuffersAt user.checkpoint := by
  rcases h.chan with ⟨-, -, hno⟩ | hchan
  · exact absurd hno hc
  · exact hchan

theorem Sound.of_queues (h : user.Sound) (queue : UserMail) (mails : List ChannelMail) :
    (user.setQueue queue mails).Sound := ⟨h.chan, h.waiting⟩

theorem sound_init : ChannelUser.init.Sound := ⟨Or.inl ⟨rfl, rfl, rfl⟩, fun _ => ⟨rfl, rfl⟩⟩

theorem Sound.step (h : user.Sound) (ha : ∀ mail ∈ user.queues .create, IsAnswer mail) (hm : user.StepMeets op)
    (hs : user.step i op = some (user', commands)) : user'.Sound := by
  cases op with
  | createRequest sent =>
    cases sent with
    | false =>
      obtain ⟨-, hs⟩ := Option.ite_none_right_eq_some.mp hs
      obtain ⟨rfl, rfl⟩ := Prod.mk.inj (Option.some.inj hs)
      exact h
    | true =>
      obtain ⟨⟨-, hdestroying, hbad⟩, rfl, -⟩ := createRequest_of_step hs
      refine ⟨h.chan, fun _ => ⟨?_, hdestroying⟩⟩
      rcases h.chan with ⟨hnone, -⟩ | ⟨channel, -, huid, hne, -⟩
      · exact hnone
      · exact absurd (huid.symm.trans hbad) hne
  | createResume =>
    obtain ⟨-, hs⟩ := Option.ite_none_right_eq_some.mp hs
    obtain ⟨rfl, rfl⟩ := Prod.mk.inj (Option.some.inj hs)
    exact ⟨h.chan, nofun⟩
  | createFeedback =>
    obtain ⟨mail, mails, -, hqueue, -, ⟨hbad, rfl⟩ | ⟨hne, rfl⟩⟩ := createFeedback_of_step hs
    · exact ⟨h.chan, nofun⟩
    · rcases ha mail (hqueue ▸ List.mem_cons_self) with ⟨hbad, -⟩ | ⟨channel, hchannel, huid, hbad⟩
      · exact absurd hbad hne
      · exact ⟨Or.inr ⟨channel, hchannel, huid, hbad, trivial⟩, nofun⟩
  | createGiveUp => exact hm.elim
  | allocateBuffers int rec =>
    obtain ⟨⟨hrun, hcheckpoint⟩, hs⟩ := Option.ite_none_right_eq_some.mp hs
    obtain ⟨rfl, rfl⟩ := Prod.mk.inj (Option.some.inj hs)
    obtain ⟨rfl, rfl⟩ := hm
    obtain ⟨channel, hchannel, huid, hbad, -⟩ := h.of_checkpoint (by rw [hcheckpoint]; exact Checkpoint.noConfusion)
    exact ⟨Or.inr ⟨channel, hchannel, huid, hbad, rfl, rfl⟩, nofun⟩
  | sendIntermediateBuffers sent =>
    obtain ⟨⟨hrun, hcheckpoint⟩, hs⟩ := Option.ite_none_right_eq_some.mp hs
    obtain ⟨channel, hchannel, huid, hbad, hbuffers⟩ :=
      h.of_checkpoint (by rw [hcheckpoint]; exact Checkpoint.noConfusion)
    cases sent with
    | true =>
      obtain ⟨rfl, rfl⟩ := Prod.mk.inj (Option.some.inj hs)
      rw [hcheckpoint] at hbuffers
      exact ⟨Or.inr ⟨channel, hchannel, huid, hbad, hbuffers, rfl⟩, fun hwait => absurd (hrun.symm.trans hwait) nofun⟩
    | false =>
      obtain ⟨rfl, rfl⟩ := Prod.mk.inj (Option.some.inj hs)
      exact ⟨Or.inr ⟨channel, hchannel, huid, hbad, hbuffers⟩, nofun⟩
  | sendReferenceBuffers sent =>
    obtain ⟨⟨hrun, hcheckpoint⟩, hs⟩ := Option.ite_none_right_eq_some.mp hs
    obtain ⟨channel, hchannel, huid, hbad, hbuffers⟩ :=
      h.of_checkpoint (by rw [hcheckpoint]; exact Checkpoint.noConfusion)
    cases sent with
    | true =>
      obtain ⟨rfl, rfl⟩ := Prod.mk.inj (Option.some.inj hs)
      rw [hcheckpoint] at hbuffers
      exact ⟨Or.inr ⟨channel, hchannel, huid, hbad, hbuffers.1, hbuffers.2, rfl⟩, nofun⟩
    | false =>
      obtain ⟨rfl, rfl⟩ := Prod.mk.inj (Option.some.inj hs)
      exact ⟨Or.inr ⟨channel, hchannel, huid, hbad, hbuffers⟩, nofun⟩
  | destroyCall =>
    obtain ⟨-, hs⟩ := Option.ite_none_right_eq_some.mp hs
    obtain ⟨rfl, rfl⟩ := Prod.mk.inj (Option.some.inj hs)
    exact ⟨h.chan, h.waiting⟩
  | destroySend sent =>
    cases sent with
    | false =>
      obtain ⟨-, hs⟩ := Option.ite_none_right_eq_some.mp hs
      obtain ⟨rfl, rfl⟩ := Prod.mk.inj (Option.some.inj hs)
      exact ⟨h.chan, h.waiting⟩
    | true =>
      obtain ⟨⟨hidle, -⟩, rfl, -⟩ := destroySend_of_step hs
      exact ⟨h.chan, fun hwait => absurd (hidle.symm.trans hwait) nofun⟩
  | destroyFeedback =>
    obtain ⟨mail, mails, hdestroying, -, -, rfl⟩ := destroyFeedback_of_step hs
    exact ⟨Or.inl ⟨rfl, rfl, rfl⟩, fun _ => ⟨rfl, rfl⟩⟩
  | destroyGiveUp =>
    obtain ⟨hdestroying, rfl, -⟩ := destroyGiveUp_of_step hs
    exact ⟨h.chan, fun hwait => ⟨(h.waiting hwait).1, rfl⟩⟩
  | encode sent =>
    obtain ⟨-, hs⟩ := Option.ite_none_right_eq_some.mp hs
    obtain ⟨rfl, rfl⟩ := Prod.mk.inj (Option.some.inj hs)
    exact h
  | waitForStatus =>
    obtain ⟨mail, mails, -, -, rfl, -⟩ := waitForStatus_of_step hs
    exact h.of_queues _ _

/-- The user has the channel, or an answer in its queue gives it. -/
def Keeps (user : ChannelUser) (channel : Channel) : Prop :=
  user.channel = some channel ∨ ∃ mail ∈ user.queues .create, mail.channel = some channel

end ChannelUser

/-! ## The driver and the MCU -/

namespace ChannelState

open ChannelUser (IsAnswer)

variable {s s' : ChannelState} {i j : ℕ} {user user' : ChannelUser} {op : UserOp} {channel : Channel}
  {commands : List McuCommand}

def answerFor (i : ℕ) (mail : ChannelMail) : Bool := mail.msg = .createChannel ∧ mail.word1 = i

/-- The answers that a user has not read. -/
def createQueue (s : ChannelState) (i : ℕ) : List ChannelMail := ((s.users i).map fun user => user.queues .create).getD []

def waiting (s : ChannelState) (i : ℕ) : Bool := (s.users i).any fun user => user.createCall = .waiting

/-- How many creations of a user are on their way. -/
def creations (s : ChannelState) (i : ℕ) : ℕ :=
  s.toMcu.count (.create i) + s.toCpu.countP (answerFor i) + (s.createQueue i).length

/-- A channel is with a user, or on its way to it. -/
def Holds (s : ChannelState) (i : ℕ) (channel : Channel) : Prop :=
  (∃ user, s.users i = some user ∧ user.Keeps channel) ∨
    ∃ mail ∈ s.toCpu, answerFor i mail = true ∧ mail.channel = some channel

def DestroyAsked (s : ChannelState) (channel : Channel) : Prop :=
  .destroy channel.uid ∈ s.toMcu ∨ .quietDestroy channel.uid ∈ s.toMcu

structure CreationInv (s : ChannelState) : Prop where
  slot : ∀ i user, s.users i = some user → i < s.maxUsersNb
  sound : ∀ i user, s.users i = some user → user.Sound
  read : ∀ i user, s.users i = some user → ∀ mail ∈ user.queues .create, IsAnswer mail
  sent : ∀ mail ∈ s.toCpu, mail.msg = .createChannel → IsAnswer mail
  tokens : ∀ i, s.creations i = if s.waiting i then 1 else 0
  fresh : ∀ i channel, s.Holds i channel → channel.serial < s.serial
  unique : ∀ i j channel, s.Holds i channel → s.Holds j channel → i = j
  covered : ∀ channel ∈ s.live, (∃ i, s.Holds i channel) ∨ s.DestroyAsked channel
  destroying : ∀ i user channel, s.users i = some user → user.destroying = true → user.channel = some channel →
    channel ∈ s.live → .destroy channel.uid ∈ s.toMcu
  accepted : ∀ user ∈ s.accepted, user.channelIsFullyCreated = true

theorem createQueue_of (hu : s.users i = some user) : s.createQueue i = user.queues .create := by
  unfold createQueue
  rw [hu]
  rfl

theorem waiting_of (hu : s.users i = some user) : s.waiting i = decide (user.createCall = .waiting) := by
  unfold waiting
  rw [hu]
  rfl

theorem createQueue_congr (h : s'.users i = s.users i) : s'.createQueue i = s.createQueue i := by
  unfold createQueue
  rw [h]

theorem waiting_congr (h : s'.users i = s.users i) : s'.waiting i = s.waiting i := by
  unfold waiting
  rw [h]

theorem CreationInv.tokens_of (h : s.CreationInv) (hu : s.users i = some user) :
    s.toMcu.count (.create i) + s.toCpu.countP (answerFor i) + (user.queues .create).length =
      if user.createCall = .waiting then 1 else 0 := by
  have htokens := h.tokens i
  unfold creations at htokens
  rw [createQueue_of hu, waiting_of hu] at htokens
  simpa using htokens

theorem DestroyAsked.append (h : s.DestroyAsked channel) (htoMcu : s'.toMcu = s.toMcu ++ commands) :
    s'.DestroyAsked channel := by
  unfold DestroyAsked
  rw [htoMcu]
  exact h.imp (List.mem_append_left _) (List.mem_append_left _)

/-- A step of one user. -/
def withUser (s : ChannelState) (i : ℕ) (user : ChannelUser) (commands : List McuCommand)
    (accepted : List ChannelUser) (returned : List Handed) : ChannelState :=
  { s with
    users := Function.update s.users i (some user)
    toMcu := s.toMcu ++ commands
    accepted := s.accepted ++ accepted
    returned := s.returned ++ returned }

section WithUser

variable {accepted : List ChannelUser} {returned : List Handed}

theorem users_withUser_self : (s.withUser i user commands accepted returned).users i = some user :=
  Function.update_self ..

theorem users_withUser_of_ne (h : j ≠ i) : (s.withUser i user commands accepted returned).users j = s.users j :=
  Function.update_of_ne h ..

theorem forall_users_withUser {P : ℕ → ChannelUser → Prop} (hi : P i user)
    (h : ∀ j user, s.users j = some user → P j user) :
    ∀ j user', (s.withUser i user commands accepted returned).users j = some user' → P j user' := by
  intro j user' hj
  by_cases hji : j = i
  · subst hji
    rw [users_withUser_self] at hj
    obtain rfl := Option.some.inj hj
    exact hi
  · rw [users_withUser_of_ne hji] at hj
    exact h j user' hj

theorem Holds.of_withUser (hu : s.users i = some user)
    (hkeeps : ∀ channel, user'.Keeps channel → user.Keeps channel) {j : ℕ}
    (h : (s.withUser i user' commands accepted returned).Holds j channel) : s.Holds j channel := by
  rcases h with ⟨user'', hj, hkeep⟩ | hmail
  · by_cases hji : j = i
    · subst hji
      rw [users_withUser_self] at hj
      obtain rfl := Option.some.inj hj
      exact Or.inl ⟨user, hu, hkeeps channel hkeep⟩
    · rw [users_withUser_of_ne hji] at hj
      exact Or.inl ⟨user'', hj, hkeep⟩
  · exact Or.inr hmail

theorem CreationInv.withUser (h : s.CreationInv) (hu : s.users i = some user) (hsound : user'.Sound)
    (hqueue : ∀ mail ∈ user'.queues .create, mail ∈ user.queues .create)
    (htokens : commands.count (.create i) + (user'.queues .create).length +
        (if user.createCall = .waiting then 1 else 0) =
      (user.queues .create).length + if user'.createCall = .waiting then 1 else 0)
    (hothers : ∀ j, j ≠ i → commands.count (.create j) = 0)
    (hkeeps : ∀ channel, user'.Keeps channel → user.Keeps channel)
    (hcovered : ∀ channel ∈ s.live, user.Keeps channel → user'.Keeps channel ∨ .destroy channel.uid ∈ s.toMcu)
    (hdestroying : user'.destroying = true → ∀ channel, user'.channel = some channel →
      (user.destroying = true ∧ user.channel = some channel) ∨ .destroy channel.uid ∈ commands)
    (haccepted : ∀ user ∈ accepted, user.channelIsFullyCreated = true) :
    (s.withUser i user' commands accepted returned).CreationInv := by
  have hcreations : ∀ j, (s.withUser i user' commands accepted returned).creations j =
      if (s.withUser i user' commands accepted returned).waiting j then 1 else 0 := by
    intro j
    unfold creations
    by_cases hji : j = i
    · subst hji
      have hold := h.tokens_of hu
      rw [createQueue_of users_withUser_self, waiting_of users_withUser_self]
      show (s.toMcu ++ commands).count _ + s.toCpu.countP _ + _ = _
      rw [List.count_append]
      simp only [decide_eq_true_eq]
      omega
    · have hold := h.tokens j
      rw [createQueue_congr (users_withUser_of_ne hji), waiting_congr (users_withUser_of_ne hji)]
      show (s.toMcu ++ commands).count _ + s.toCpu.countP _ + _ = _
      rw [List.count_append, hothers j hji]
      exact hold
  refine ⟨forall_users_withUser (h.slot i user hu) h.slot, forall_users_withUser hsound h.sound,
    forall_users_withUser (fun mail hmail => h.read i user hu mail (hqueue mail hmail)) h.read, h.sent, hcreations,
    fun j channel hj => h.fresh j channel (hj.of_withUser hu hkeeps), fun j k channel hj hk =>
      h.unique j k channel (hj.of_withUser hu hkeeps) (hk.of_withUser hu hkeeps), ?_, ?_, ?_⟩
  · intro channel hlive
    rcases h.covered channel hlive with ⟨j, ⟨user'', hj, hkeep⟩ | hmail⟩ | hasked
    · by_cases hji : j = i
      · subst hji
        obtain rfl := Option.some.inj (hu.symm.trans hj)
        rcases hcovered channel hlive hkeep with hkeep | hdestroy
        · exact Or.inl ⟨j, Or.inl ⟨user', users_withUser_self, hkeep⟩⟩
        · exact Or.inr (Or.inl (List.mem_append_left _ hdestroy))
      · exact Or.inl ⟨j, Or.inl ⟨user'', (users_withUser_of_ne hji).trans hj, hkeep⟩⟩
    · exact Or.inl ⟨j, Or.inr hmail⟩
    · exact Or.inr (hasked.append rfl)
  · intro j user'' channel hj hd hchannel hlive
    by_cases hji : j = i
    · subst hji
      rw [users_withUser_self] at hj
      obtain rfl := Option.some.inj hj
      rcases hdestroying hd channel hchannel with ⟨hold, hchannel⟩ | hnew
      · exact List.mem_append_left _ (h.destroying j user channel hu hold hchannel hlive)
      · exact List.mem_append_right _ hnew
    · rw [users_withUser_of_ne hji] at hj
      exact List.mem_append_left _ (h.destroying j user'' channel hj hd hchannel hlive)
  · intro u hu
    rcases List.mem_append.mp hu with hu | hu
    · exact h.accepted u hu
    · exact haccepted u hu

end WithUser

/-! ## The steps of a user -/

/-- What is asked of a step. -/
def CreationMeets (s : ChannelState) : ChannelOp → Prop
  | .user i op => ∀ user, s.users i = some user → user.StepMeets op
  | .release i sent => ∀ user, s.users i = some user → user.chanIsCreated = true → sent = true
  | .readMail done => ∀ mail, s.toCpu.head? = some mail → mail.msg = .createChannel → done = true
  | _ => True

instance (s : ChannelState) : ∀ op, Decidable (s.CreationMeets op)
  | .user i op => inferInstanceAs (Decidable (∀ user ∈ s.users i, user.StepMeets op))
  | .release i sent => inferInstanceAs (Decidable (∀ user ∈ s.users i, user.chanIsCreated = true → sent = true))
  | .readMail done =>
    inferInstanceAs (Decidable (∀ mail ∈ s.toCpu.head?, mail.msg = .createChannel → done = true))
  | .openDevice | .mcuHandle _ | .mcuStatus _ => inferInstanceAs (Decidable True)

theorem step_user_eq_some (hs : s.step (.user i op) = some s') : ∃ user user' commands, s.users i = some user ∧
    user.step i op = some (user', commands) ∧
      s' = s.withUser i user' commands (acceptedBy user op) (returnedBy user op) := by
  obtain ⟨user, hu, hs⟩ := Option.bind_eq_some_iff.mp hs
  obtain ⟨⟨user', commands⟩, hstep, rfl⟩ := Option.map_eq_some_iff.mp hs
  exact ⟨user, user', commands, hu, hstep, rfl⟩

theorem CreationInv.kept {accepted : List ChannelUser} {returned : List Handed} (h : s.CreationInv)
    (hu : s.users i = some user) (hsound : user'.Sound) (hcore : user.SameCore user')
    (hpush : ∀ command ∈ commands, ChannelUser.IsPush command)
    (haccepted : ∀ user ∈ accepted, user.channelIsFullyCreated = true) :
    (s.withUser i user' commands accepted returned).CreationInv := by
  have hcount : ∀ j, commands.count (.create j) = 0 := by
    intro j
    apply List.count_eq_zero.mpr
    intro hmem
    exact hpush _ hmem
  have hkeeps : ∀ channel, user'.Keeps channel ↔ user.Keeps channel := by
    intro channel
    unfold ChannelUser.Keeps
    rw [hcore.channel, hcore.queues]
  refine h.withUser hu hsound ?_ ?_ (fun j _ => hcount j) (fun channel => (hkeeps channel).mp)
    (fun channel _ hk => Or.inl ((hkeeps channel).mpr hk)) ?_ haccepted
  · rw [hcore.queues]
    exact fun mail hmail => hmail
  · rw [hcount i, hcore.queues, Nat.zero_add]
    simp only [hcore.waiting]
  · intro hd channel hchannel
    rw [hcore.destroying] at hd
    rw [hcore.channel] at hchannel
    exact Or.inl ⟨hd, hchannel⟩

theorem acceptedBy_of_keepsCore (h : ChannelUser.keepsCore op = true) : acceptedBy user op = [] := by
  cases op with
  | encode sent =>
    obtain rfl : sent = false := by simpa [ChannelUser.keepsCore] using h
    rfl
  | _ => rfl

variable {command : McuCommand}

theorem count_create_singleton (h : command ≠ .create j) : [command].count (.create j) = 0 :=
  List.count_eq_zero.mpr fun hmem => h (List.mem_singleton.mp hmem).symm

theorem CreationInv.keptStep (h : s.CreationInv) (hu : s.users i = some user) (hsound : user'.Sound)
    (hstep : user.step i op = some (user', commands)) (hk : ChannelUser.keepsCore op = true) :
    (s.withUser i user' commands (acceptedBy user op) (returnedBy user op)).CreationInv := by
  obtain ⟨hcore, hpush⟩ := ChannelUser.kept_of_step hstep hk
  rw [acceptedBy_of_keepsCore hk]
  exact h.kept hu hsound hcore hpush (List.forall_mem_nil _)

/-- An answer that is read gives its channel to the user. -/
theorem CreationInv.createFeedback (h : s.CreationInv) (hu : s.users i = some user) (hsound : user'.Sound)
    (hstep : user.step i .createFeedback = some (user', commands)) :
    (s.withUser i user' commands [] []).CreationInv := by
  obtain ⟨mail, mails, hwaiting, hqueue, rfl, hcases⟩ := ChannelUser.createFeedback_of_step hstep
  obtain ⟨hnone, hdestroying⟩ := (h.sound i user hu).waiting hwaiting
  have hanswer := h.read i user hu mail (hqueue ▸ List.mem_cons_self)
  have hset : (user.setQueue .create mails).queues .create = mails := ChannelUser.setQueue_self ..
  have hmails : user'.queues .create = mails := by
    rcases hcases with ⟨-, rfl⟩ | ⟨-, rfl⟩ <;> exact hset
  have hwaiting' : user'.createCall ≠ .waiting := by
    rcases hcases with ⟨-, rfl⟩ | ⟨-, rfl⟩ <;> exact CreateCall.noConfusion
  have hdestroying' : user'.destroying = false := by
    rcases hcases with ⟨-, rfl⟩ | ⟨-, rfl⟩ <;> exact hdestroying
  have hchannel : user'.channel = mail.channel := by
    rcases hcases with ⟨hbad, rfl⟩ | ⟨-, rfl⟩
    · rcases hanswer with ⟨-, hmail⟩ | ⟨channel, -, huid, hne⟩
      · exact hnone.trans hmail.symm
      · exact absurd (huid.symm.trans hbad) hne
    · rfl
  have hkeeps : ∀ channel, user'.Keeps channel ↔ user.Keeps channel := by
    intro channel
    unfold ChannelUser.Keeps
    rw [hchannel, hmails, hnone, hqueue]
    simp
  refine h.withUser hu hsound (fun mail' hmail' => ?_) ?_ (fun j _ => rfl) (fun channel => (hkeeps channel).mp)
    (fun channel _ hk => Or.inl ((hkeeps channel).mpr hk)) (fun hd => ?_) (List.forall_mem_nil _)
  · rw [hmails] at hmail'
    rw [hqueue]
    exact List.mem_cons_of_mem _ hmail'
  · rw [hmails, hqueue, if_pos hwaiting, if_neg hwaiting', List.length_cons, List.count_nil]
    omega
  · exact absurd (hdestroying'.symm.trans hd) Bool.false_ne_true

theorem CreationInv.destroyFeedback (h : s.CreationInv) (hu : s.users i = some user) (hsound : user'.Sound)
    (hstep : user.step i .destroyFeedback = some (user', commands)) :
    (s.withUser i user' commands [] []).CreationInv := by
  obtain ⟨mail, mails, hdestroying, -, rfl, rfl⟩ := ChannelUser.destroyFeedback_of_step hstep
  have hqueue : (user.setQueue .destroy mails).queues .create = user.queues .create :=
    ChannelUser.setQueue_of_ne UserMail.noConfusion mails
  refine h.withUser hu hsound (fun mail hmail => ?_) ?_ (fun j _ => rfl) (fun channel hk => ?_)
    (fun channel hlive hk => ?_) nofun (List.forall_mem_nil _)
  · exact hqueue ▸ hmail
  · show 0 + ((user.setQueue .destroy mails).queues .create).length + _ = _ + if user.createCall = .waiting then 1 else 0
    rw [hqueue, Nat.zero_add]
  · rcases hk with hchannel | ⟨mail', hmail', hchannel⟩
    · exact absurd hchannel (Option.some_ne_none channel).symm
    · exact Or.inr ⟨mail', hqueue ▸ hmail', hchannel⟩
  · rcases hk with hchannel | ⟨mail', hmail', hchannel⟩
    · exact Or.inr (h.destroying i user channel hu hdestroying hchannel hlive)
    · exact Or.inl (Or.inr ⟨mail', hqueue.symm ▸ hmail', hchannel⟩)

theorem CreationInv.userStep (h : s.CreationInv) (hm : s.CreationMeets (.user i op))
    (hs : s.step (.user i op) = some s') : s'.CreationInv := by
  obtain ⟨user, user', commands, hu, hstep, rfl⟩ := step_user_eq_some hs
  have hold := h.sound i user hu
  have hsound := hold.step (h.read i user hu) (hm user hu) hstep
  cases op with
  | createRequest sent =>
    cases sent with
    | true =>
      obtain ⟨⟨hidle, hdestroying, -⟩, rfl, rfl⟩ := ChannelUser.createRequest_of_step hstep
      refine h.withUser hu hsound (fun mail hmail => hmail) ?_ (fun j hji => ?_) (fun channel hk => hk)
        (fun channel _ hk => Or.inl hk) (fun hd => ?_) (List.forall_mem_nil _)
      · simp [hidle, Nat.add_comm]
      · apply count_create_singleton
        exact fun heq => hji (McuCommand.create.inj heq).symm
      · exact absurd (hdestroying.symm.trans hd) Bool.false_ne_true
    | false => exact h.keptStep hu hsound hstep rfl
  | createFeedback => exact h.createFeedback hu hsound hstep
  | createGiveUp => exact (hm user hu).elim
  | destroySend sent =>
    cases sent with
    | true =>
      obtain ⟨⟨hidle, -⟩, rfl, rfl⟩ := ChannelUser.destroySend_of_step hstep
      refine h.withUser hu hsound (fun mail hmail => hmail) ?_ (fun j _ => ?_)
        (fun channel hk => hk) (fun channel _ hk => Or.inl hk) (fun _ channel hchannel => Or.inr ?_) (List.forall_mem_nil _)
      · rw [count_create_singleton McuCommand.noConfusion, Nat.zero_add]
      · exact count_create_singleton McuCommand.noConfusion
      · rcases hold.chan with ⟨hnone, -⟩ | ⟨channel', hchannel', huid, -⟩
        · exact absurd (hnone.symm.trans hchannel) (Option.some_ne_none _).symm
        · obtain rfl := Option.some.inj (hchannel'.symm.trans hchannel)
          rw [huid]
          exact List.mem_singleton_self _
    | false => exact h.keptStep hu hsound hstep rfl
  | destroyFeedback => exact h.destroyFeedback hu hsound hstep
  | destroyGiveUp =>
    obtain ⟨hdestroying, rfl, rfl⟩ := ChannelUser.destroyGiveUp_of_step hstep
    refine h.withUser hu hsound (fun mail hmail => hmail) ?_ (fun j _ => rfl) (fun channel hk => hk)
      (fun channel _ hk => Or.inl hk) nofun (List.forall_mem_nil _)
    rw [List.count_nil, Nat.zero_add]
  | encode sent =>
    cases sent with
    | true =>
      obtain ⟨⟨-, hcreated⟩, rfl, rfl⟩ := ChannelUser.encode_of_step hstep
      refine h.withUser hu hold (fun mail hmail => hmail) ?_ (fun j _ => ?_) (fun channel hk => hk)
        (fun channel _ hk => Or.inl hk) (fun hd channel hchannel => Or.inl ⟨hd, hchannel⟩) ?_
      · rw [count_create_singleton McuCommand.noConfusion, Nat.zero_add]
      · exact count_create_singleton McuCommand.noConfusion
      · intro u hu'
        obtain rfl := List.mem_singleton.mp hu'
        unfold ChannelUser.channelIsFullyCreated
        have hno : u.haveCheckpoint = false := hm u hu
        rw [hcreated, hno]
        rfl
    | false => exact h.keptStep hu hsound hstep rfl
  | waitForStatus =>
    obtain ⟨mail, mails, -, -, rfl, rfl⟩ := ChannelUser.waitForStatus_of_step hstep
    have hqueue : (user.setQueue .status mails).queues .create = user.queues .create :=
      ChannelUser.setQueue_of_ne UserMail.noConfusion mails
    have hkeeps : ∀ channel, (user.setQueue .status mails).Keeps channel ↔ user.Keeps channel := by
      intro channel
      unfold ChannelUser.Keeps
      rw [hqueue]
      rfl
    refine h.withUser hu hsound (fun mail hmail => ?_) ?_ (fun j _ => rfl) (fun channel => (hkeeps channel).mp)
      (fun channel _ hk => Or.inl ((hkeeps channel).mpr hk)) (fun hd channel hchannel => Or.inl ⟨hd, hchannel⟩) (List.forall_mem_nil _)
    · exact hqueue ▸ hmail
    · rw [hqueue, List.count_nil, Nat.zero_add]
      rfl
  | createResume => exact h.keptStep hu hsound hstep rfl
  | allocateBuffers int rec => exact h.keptStep hu hsound hstep rfl
  | sendIntermediateBuffers sent => exact h.keptStep hu hsound hstep rfl
  | sendReferenceBuffers sent => exact h.keptStep hu hsound hstep rfl
  | destroyCall => exact h.keptStep hu hsound hstep rfl

/-! ## Opening and closing -/

theorem not_keeps_init : ¬ ChannelUser.init.Keeps channel := by
  rintro (hnone | ⟨mail, hmail, -⟩)
  · exact absurd hnone (Option.some_ne_none channel).symm
  · exact absurd hmail List.not_mem_nil

/-- A slot is filled or emptied. -/
def withSlot (s : ChannelState) (i : ℕ) (slot : Option ChannelUser) (toMcu : List McuCommand) : ChannelState :=
  { s with
    users := Function.update s.users i slot
    toMcu }

/-- A slot is filled with a new user or emptied, and nothing was on its way to it. -/
theorem CreationInv.withSlot {slot : Option ChannelUser} {toMcu : List McuCommand} (h : s.CreationInv)
    (commands : List McuCommand)
    (hslot : ∀ user, slot = some user → i < s.maxUsersNb ∧ user = .init) (hcreations : s.creations i = 0)
    (htoMcu : toMcu = s.toMcu ++ commands) (hcount : ∀ j, commands.count (.create j) = 0)
    (hcovered : ∀ user channel, s.users i = some user → user.channel = some channel →
      .quietDestroy channel.uid ∈ toMcu) :
    (s.withSlot i slot toMcu).CreationInv := by
  subst htoMcu
  have hself : (s.withSlot i slot (s.toMcu ++ commands)).users i = slot := Function.update_self ..
  have hother : ∀ j, j ≠ i → (s.withSlot i slot (s.toMcu ++ commands)).users j = s.users j :=
    fun j hji => Function.update_of_ne hji ..
  have hempty : s.createQueue i = [] := by
    unfold creations at hcreations
    exact List.eq_nil_of_length_eq_zero (by omega)
  have hforall : ∀ {P : ℕ → ChannelUser → Prop}, (i < s.maxUsersNb → P i .init) →
      (∀ j user, s.users j = some user → P j user) →
      ∀ j user, (s.withSlot i slot (s.toMcu ++ commands)).users j = some user → P j user := by
    intro P hi hP j user hj
    by_cases hji : j = i
    · subst hji
      rw [hself] at hj
      obtain ⟨hlt, rfl⟩ := hslot user hj
      exact hi hlt
    · rw [hother j hji] at hj
      exact hP j user hj
  have hholds : ∀ j channel, (s.withSlot i slot (s.toMcu ++ commands)).Holds j channel → s.Holds j channel := by
    rintro j channel (⟨user, hj, hkeep⟩ | hmail)
    · exact hforall (P := fun j user => user.Keeps channel → s.Holds j channel)
        (fun _ hkeep => absurd hkeep not_keeps_init) (fun j user hj hkeep => Or.inl ⟨user, hj, hkeep⟩) j user hj hkeep
    · exact Or.inr hmail
  refine ⟨hforall (fun hlt => hlt) h.slot, hforall (fun _ => ChannelUser.sound_init) h.sound,
    hforall (fun _ mail hmail => absurd hmail List.not_mem_nil) h.read, h.sent, fun j => ?_,
    fun j channel hj => h.fresh j channel (hholds j channel hj),
    fun j k channel hj hk => h.unique j k channel (hholds j channel hj) (hholds k channel hk), fun channel hlive => ?_,
    fun j user channel hj hd hchannel hlive => ?_, h.accepted⟩
  · unfold creations
    show (s.toMcu ++ commands).count _ + s.toCpu.countP _ + _ = _
    rw [List.count_append, hcount j, Nat.add_zero]
    by_cases hji : j = i
    · subst hji
      have hnone : (s.withSlot j slot (s.toMcu ++ commands)).createQueue j = [] ∧
          (s.withSlot j slot (s.toMcu ++ commands)).waiting j = false := by
        unfold createQueue waiting
        simp only [hself]
        cases slot with
        | none => exact ⟨rfl, rfl⟩
        | some user =>
          obtain ⟨-, rfl⟩ := hslot user rfl
          exact ⟨rfl, rfl⟩
      rw [hnone.1, hnone.2, List.length_nil]
      unfold creations at hcreations
      show _ = 0
      omega
    · rw [createQueue_congr (hother j hji), waiting_congr (hother j hji)]
      exact h.tokens j
  · rcases h.covered channel hlive with ⟨j, ⟨user, hj, hkeep⟩ | hmail⟩ | hasked
    · by_cases hji : j = i
      · subst hji
        rcases hkeep with hchannel | ⟨mail, hmail, -⟩
        · exact Or.inr (Or.inr (hcovered user channel hj hchannel))
        · rw [createQueue_of hj] at hempty
          exact absurd (hempty ▸ hmail) List.not_mem_nil
      · exact Or.inl ⟨j, Or.inl ⟨user, (hother j hji).trans hj, hkeep⟩⟩
    · exact Or.inl ⟨j, Or.inr hmail⟩
    · exact Or.inr (hasked.append rfl)
  · apply List.mem_append_left
    exact hforall (P := fun j user => user.destroying = true → user.channel = some channel →
      .destroy channel.uid ∈ s.toMcu) (fun _ hd => absurd hd Bool.false_ne_true)
      (fun j user hj hd hchannel => h.destroying j user channel hj hd hchannel hlive) j user hj hd hchannel

theorem CreationInv.openDevice (h : s.CreationInv) (hs : s.step .openDevice = some s') : s'.CreationInv := by
  obtain ⟨i, hfind, rfl⟩ := Option.map_eq_some_iff.mp hs
  have hfree : (s.users i).isNone = true := by simpa using List.find?_some hfind
  have hnone : s.users i = none := Option.isNone_iff_eq_none.mp hfree
  have hlt : i < s.maxUsersNb := List.mem_range.mp (List.mem_of_find?_eq_some hfind)
  refine h.withSlot [] (fun user hu => ⟨hlt, (Option.some.inj hu).symm⟩) ?_ (List.append_nil _).symm
    (fun _ => rfl) (fun user channel hu => absurd (hnone.symm.trans hu) (Option.some_ne_none user).symm)
  rw [h.tokens i]
  unfold waiting
  rw [hnone]
  rfl

theorem CreationInv.release {sent : Bool} (h : s.CreationInv) (hm : s.CreationMeets (.release i sent))
    (hs : s.step (.release i sent) = some s') : s'.CreationInv := by
  obtain ⟨user, hu, hs⟩ := Option.bind_eq_some_iff.mp hs
  obtain ⟨⟨hidle, -, -⟩, hs⟩ := Option.ite_none_right_eq_some.mp hs
  obtain rfl := Option.some.inj hs
  have hcreations : s.creations i = 0 := by
    rw [h.tokens i, waiting_of hu, hidle]
    rfl
  have hfree {P : ChannelUser → Prop} (user' : ChannelUser) (hu' : none = some user') : P user' :=
    absurd hu' (Option.some_ne_none user').symm
  cases hcreated : user.chanIsCreated with
  | true =>
    obtain rfl := hm user hu hcreated
    refine h.withSlot [.quietDestroy user.chanUid] hfree hcreations (if_pos ⟨rfl, rfl⟩)
      (fun j => count_create_singleton McuCommand.noConfusion) (fun user' channel hu' hchannel => ?_)
    obtain rfl := Option.some.inj (hu.symm.trans hu')
    rcases (h.sound i user hu).chan with ⟨hnone, -⟩ | ⟨channel', hchannel', huid, -⟩
    · exact absurd (hnone.symm.trans hchannel) (Option.some_ne_none _).symm
    · obtain rfl := Option.some.inj (hchannel'.symm.trans hchannel)
      rw [if_pos ⟨rfl, rfl⟩, huid]
      exact List.mem_append_right _ (List.mem_singleton_self _)
  | false =>
    refine h.withSlot [] hfree hcreations ((if_neg (fun hc => absurd hc.1 Bool.false_ne_true)).trans
      (List.append_nil _).symm) (fun _ => rfl) (fun user' channel hu' hchannel => ?_)
    obtain rfl := Option.some.inj (hu.symm.trans hu')
    rcases (h.sound i user hu).chan with ⟨hnone, -⟩ | ⟨channel', -, huid, hne, -⟩
    · exact absurd (hnone.symm.trans hchannel) (Option.some_ne_none _).symm
    · exact absurd (huid ▸ of_decide_eq_false hcreated) (fun hbad => hne (not_not.mp hbad))

/-! ## Mails and the MCU -/

theorem CreationInv.congr (h : s.CreationInv) (hmax : s'.maxUsersNb = s.maxUsersNb) (husers : s'.users = s.users)
    (htoMcu : s'.toMcu = s.toMcu) (htoCpu : s'.toCpu = s.toCpu) (hlive : s'.live = s.live)
    (hserial : s'.serial = s.serial) (haccepted : s'.accepted = s.accepted) : s'.CreationInv := by
  obtain ⟨maxUsersNb, users, toMcu, toCpu, live, tasks, serial, accepted, queued, returned⟩ := s
  obtain ⟨maxUsersNb', users', toMcu', toCpu', live', tasks', serial', accepted', queued', returned'⟩ := s'
  dsimp only at hmax husers htoMcu htoCpu hlive hserial haccepted
  subst hmax husers htoMcu htoCpu hlive hserial haccepted
  exact ⟨h.slot, h.sound, h.read, h.sent, h.tokens, h.fresh, h.unique, h.covered, h.destroying, h.accepted⟩

def isCreate (mail : ChannelMail) : Bool := mail.msg = .createChannel

variable {mail : ChannelMail} {mails : List ChannelMail}

theorem mem_filter_isCreate (hc : mail.msg = .createChannel) :
    mail ∈ mails.filter isCreate ↔ mail ∈ mails := by
  rw [List.mem_filter]
  exact and_iff_left (decide_eq_true hc)

theorem msg_of_answerFor (h : answerFor i mail = true) : mail.msg = .createChannel ∧ mail.word1 = i :=
  of_decide_eq_true h

theorem countP_answerFor (mails : List ChannelMail) :
    (mails.filter isCreate).countP (answerFor i) = mails.countP (answerFor i) := by
  rw [List.countP_filter]
  apply List.countP_congr
  intro mail _
  rw [Bool.and_eq_true]
  exact and_iff_left_of_imp fun ha => decide_eq_true (msg_of_answerFor ha).1

theorem CreationInv.withMails {toCpu : List ChannelMail} (h : s.CreationInv)
    (hfilter : toCpu.filter isCreate = s.toCpu.filter isCreate) : CreationInv { s with toCpu } := by
  have hmem : ∀ mail : ChannelMail, mail.msg = .createChannel → (mail ∈ toCpu ↔ mail ∈ s.toCpu) := by
    intro mail hc
    rw [← mem_filter_isCreate hc, hfilter, mem_filter_isCreate hc]
  have hholds : ∀ j channel, Holds { s with toCpu } j channel ↔ s.Holds j channel := by
    intro j channel
    apply or_congr Iff.rfl
    constructor
    · rintro ⟨mail, hmail, ha, hchannel⟩
      exact ⟨mail, (hmem mail (msg_of_answerFor ha).1).mp hmail, ha, hchannel⟩
    · rintro ⟨mail, hmail, ha, hchannel⟩
      exact ⟨mail, (hmem mail (msg_of_answerFor ha).1).mpr hmail, ha, hchannel⟩
  refine ⟨h.slot, h.sound, h.read, fun mail hmail hc => h.sent mail ((hmem mail hc).mp hmail) hc, fun j => ?_,
    fun j channel hj => h.fresh j channel ((hholds j channel).mp hj),
    fun j k channel hj hk => h.unique j k channel ((hholds j channel).mp hj) ((hholds k channel).mp hk),
    fun channel hlive => ?_, h.destroying, h.accepted⟩
  · have hold := h.tokens j
    unfold creations at hold ⊢
    rw [← countP_answerFor, ← hfilter, countP_answerFor] at hold
    exact hold
  · exact (h.covered channel hlive).imp_left fun ⟨j, hj⟩ => ⟨j, (hholds j channel).mpr hj⟩

theorem filter_isCreate_append (hc : mail.msg ≠ .createChannel) (mails : List ChannelMail) :
    (mails ++ [mail]).filter isCreate = mails.filter isCreate := by
  rw [List.filter_append, List.filter_singleton, isCreate, decide_eq_false hc]
  exact List.append_nil _

theorem CreationInv.mcuStatus (h : s.CreationInv) (hs : s.step (.mcuStatus channel) = some s') : s'.CreationInv := by
  obtain ⟨-, hs⟩ := Option.ite_none_right_eq_some.mp hs
  obtain rfl := Option.some.inj hs
  exact (h.withMails (filter_isCreate_append AlMcuMsg.noConfusion s.toCpu)).congr rfl rfl rfl rfl rfl rfl rfl

/-! ## Mails that are read -/

theorem mailToQueue_ne_create {msg : AlMcuMsg} (hc : msg ≠ .createChannel) : mailToQueue msg ≠ .create := by
  cases msg with
  | createChannel => exact absurd rfl hc
  | _ => exact UserMail.noConfusion

theorem CreationInv.withQueue {queue : UserMail} (h : s.CreationInv)
    (hu : s.users i = some user) (hne : queue ≠ .create) :
    (s.withUser i (user.setQueue queue mails) [] [] []).CreationInv := by
  have hqueue : (user.setQueue queue mails).queues .create = user.queues .create :=
    ChannelUser.setQueue_of_ne hne.symm mails
  have hkeeps : ∀ channel, (user.setQueue queue mails).Keeps channel ↔ user.Keeps channel := by
    intro channel
    unfold ChannelUser.Keeps
    rw [hqueue]
    rfl
  refine h.withUser hu ((h.sound i user hu).of_queues queue mails) (fun mail hmail => ?_) ?_ (fun j _ => rfl)
    (fun channel => (hkeeps channel).mp) (fun channel _ hk => Or.inl ((hkeeps channel).mpr hk))
    (fun hd channel hchannel => Or.inl ⟨hd, hchannel⟩) (List.forall_mem_nil _)
  · exact hqueue ▸ hmail
  · rw [hqueue, List.count_nil, Nat.zero_add]
    rfl

theorem CreationInv.quietDestroy {uid : ℕ} (h : s.CreationInv) :
    CreationInv { s with toMcu := s.toMcu ++ [.quietDestroy uid] } := by
  refine ⟨h.slot, h.sound, h.read, h.sent, fun j => ?_, h.fresh, h.unique, fun channel hlive => ?_,
    fun j user channel hj hd hchannel hlive => ?_, h.accepted⟩
  · unfold creations
    rw [List.count_append, count_create_singleton McuCommand.noConfusion, Nat.add_zero]
    exact h.tokens j
  · exact (h.covered channel hlive).imp_right fun hasked => hasked.append rfl
  · exact List.mem_append_left _ (h.destroying j user channel hj hd hchannel hlive)

variable {done : Bool}

theorem handleMail_some (ht : mail.msg ≠ .trace) (hr : s.retrieveUser mail = some i)
    (hu : s.users i = some user) : s.handleMail mail done = { s with
      users := Function.update s.users i (some (user.deliver mail done))
      queued := if done then s.queued ++ [⟨mail, user.channel⟩] else s.queued } := by
  unfold handleMail
  rw [if_neg ht, hr]
  dsimp only
  rw [hu]

theorem CreationInv.handleOther (h : s.CreationInv)
    (hc : mail.msg ≠ .createChannel) : (s.handleMail mail done).CreationInv := by
  by_cases ht : mail.msg = .trace
  · unfold handleMail
    rw [if_pos ht]
    exact h
  · cases hr : s.retrieveUser mail with
    | none =>
      unfold handleMail
      rw [if_neg ht, hr]
      dsimp only
      split
      · exact h.quietDestroy
      · exact h
    | some i =>
      cases hu : s.users i with
      | none =>
        unfold handleMail
        rw [if_neg ht, hr]
        dsimp only
        rw [hu]
        exact h
      | some user =>
        rw [handleMail_some ht hr hu, ChannelUser.deliver_eq]
        exact (h.withQueue hu (mailToQueue_ne_create hc)).congr rfl rfl (List.append_nil _).symm rfl rfl rfl
          (List.append_nil _).symm

theorem CreationInv.waits (h : s.CreationInv) (hmail : mail ∈ s.toCpu)
    (ha : answerFor i mail = true) : ∃ user, s.users i = some user ∧ user.createCall = .waiting := by
  have hpos : 0 < s.toCpu.countP (answerFor i) := List.countP_pos_iff.mpr ⟨mail, hmail, ha⟩
  have htokens := h.tokens i
  unfold creations at htokens
  have hwaiting : s.waiting i = true := by
    by_contra hno
    rw [if_neg hno] at htokens
    omega
  cases hu : s.users i with
  | none => exact absurd (by unfold waiting; rw [hu]; rfl) (Bool.eq_false_iff.not.mpr (not_not.mpr hwaiting))
  | some user => exact ⟨user, rfl, of_decide_eq_true (waiting_of hu ▸ hwaiting)⟩

/-- The mail at the head of the mailbox goes to the queue of a user. -/
def answered (s : ChannelState) (i : ℕ) (user : ChannelUser) (mail : ChannelMail) (rest : List ChannelMail) :
    ChannelState :=
  { s with
    toCpu := rest
    users := Function.update s.users i (some (user.setQueue .create (user.queues .create ++ [mail])))
    queued := s.queued ++ [⟨mail, user.channel⟩] }

section Answered

variable {mail : ChannelMail} {rest : List ChannelMail}

theorem users_answered_self : (s.answered i user mail rest).users i =
    some (user.setQueue .create (user.queues .create ++ [mail])) := Function.update_self ..

theorem users_answered_of_ne (h : j ≠ i) : (s.answered i user mail rest).users j = s.users j :=
  Function.update_of_ne h ..

theorem keeps_push : (user.setQueue .create (user.queues .create ++ [mail])).Keeps channel ↔
    user.Keeps channel ∨ mail.channel = some channel := by
  unfold ChannelUser.Keeps
  rw [ChannelUser.setQueue_self]
  simp only [List.mem_append, List.mem_singleton, or_and_right, exists_or, exists_eq_left]
  exact or_assoc.symm

theorem forall_users_answered {P : ℕ → ChannelUser → Prop}
    (hi : P i (user.setQueue .create (user.queues .create ++ [mail])))
    (h : ∀ j user, s.users j = some user → P j user) :
    ∀ j user', (s.answered i user mail rest).users j = some user' → P j user' := by
  intro j user' hj
  by_cases hji : j = i
  · subst hji
    rw [users_answered_self] at hj
    obtain rfl := Option.some.inj hj
    exact hi
  · rw [users_answered_of_ne hji] at hj
    exact h j user' hj

theorem Holds.of_answered (hu : s.users i = some user) (htoCpu : s.toCpu = mail :: rest)
    (ha : answerFor i mail = true) (h : (s.answered i user mail rest).Holds j channel) : s.Holds j channel := by
  rcases h with ⟨user', hj, hkeep⟩ | ⟨mail', hmail', ha', hchannel⟩
  · by_cases hji : j = i
    · subst hji
      rw [users_answered_self] at hj
      obtain rfl := Option.some.inj hj
      rcases keeps_push.mp hkeep with hkeep | hchannel
      · exact Or.inl ⟨user, hu, hkeep⟩
      · exact Or.inr ⟨mail, htoCpu ▸ List.mem_cons_self, ha, hchannel⟩
    · rw [users_answered_of_ne hji] at hj
      exact Or.inl ⟨user', hj, hkeep⟩
  · exact Or.inr ⟨mail', htoCpu ▸ List.mem_cons_of_mem _ hmail', ha', hchannel⟩

theorem Holds.answered (hu : s.users i = some user) (htoCpu : s.toCpu = mail :: rest)
    (ha : answerFor i mail = true) (h : s.Holds j channel) : (s.answered i user mail rest).Holds j channel := by
  rcases h with ⟨user', hj, hkeep⟩ | ⟨mail', hmail', ha', hchannel⟩
  · by_cases hji : j = i
    · subst hji
      obtain rfl := Option.some.inj (hu.symm.trans hj)
      exact Or.inl ⟨_, users_answered_self, keeps_push.mpr (Or.inl hkeep)⟩
    · exact Or.inl ⟨user', (users_answered_of_ne hji).trans hj, hkeep⟩
  · rw [htoCpu] at hmail'
    rcases List.mem_cons.mp hmail' with rfl | hmail'
    · have hij : i = j := (of_decide_eq_true ha).2.symm.trans (of_decide_eq_true ha').2
      subst hij
      exact Or.inl ⟨_, users_answered_self, keeps_push.mpr (Or.inr hchannel)⟩
    · exact Or.inr ⟨mail', hmail', ha', hchannel⟩

theorem CreationInv.answered (h : s.CreationInv) (hu : s.users i = some user) (htoCpu : s.toCpu = mail :: rest)
    (ha : answerFor i mail = true) : (s.answered i user mail rest).CreationInv := by
  have hread : ∀ mail' ∈ (user.setQueue .create (user.queues .create ++ [mail])).queues .create, IsAnswer mail' := by
    intro mail' hmail'
    rw [ChannelUser.setQueue_self] at hmail'
    rcases List.mem_append.mp hmail' with hmail' | hmail'
    · exact h.read i user hu mail' hmail'
    · obtain rfl := List.mem_singleton.mp hmail'
      exact h.sent mail' (htoCpu ▸ List.mem_cons_self) (msg_of_answerFor ha).1
  have htokens : ∀ j, (s.answered i user mail rest).creations j =
      if (s.answered i user mail rest).waiting j then 1 else 0 := by
    intro j
    by_cases hji : j = i
    · subst hji
      have hold := h.tokens_of hu
      rw [htoCpu, List.countP_cons, if_pos ha] at hold
      unfold creations
      rw [createQueue_of users_answered_self, waiting_of users_answered_self, ChannelUser.setQueue_self,
        List.length_append, List.length_singleton]
      show s.toMcu.count _ + rest.countP _ + _ = if decide (user.createCall = .waiting) = true then 1 else 0
      simp only [decide_eq_true_eq]
      omega
    · have hold := h.tokens j
      have hno : ¬ answerFor j mail = true := by
        intro ha'
        exact hji ((of_decide_eq_true ha').2.symm.trans (of_decide_eq_true ha).2)
      unfold creations at hold ⊢
      rw [htoCpu, List.countP_cons, if_neg hno, Nat.add_zero] at hold
      rw [createQueue_congr (users_answered_of_ne hji), waiting_congr (users_answered_of_ne hji)]
      exact hold
  have hdestroying : ∀ j user', (s.answered i user mail rest).users j = some user' → ∀ channel,
      user'.destroying = true → user'.channel = some channel → channel ∈ s.live → .destroy channel.uid ∈ s.toMcu :=
    forall_users_answered (fun channel hd => h.destroying i user channel hu hd)
      (fun j user hj channel hd => h.destroying j user channel hj hd)
  refine ⟨forall_users_answered (h.slot i user hu) h.slot,
    forall_users_answered ((h.sound i user hu).of_queues _ _) h.sound, forall_users_answered hread h.read,
    fun mail' hmail' => h.sent mail' (htoCpu ▸ List.mem_cons_of_mem _ hmail'), htokens,
    fun j channel hj => h.fresh j channel (hj.of_answered hu htoCpu ha),
    fun j k channel hj hk => h.unique j k channel (hj.of_answered hu htoCpu ha) (hk.of_answered hu htoCpu ha), ?_,
    fun j user' channel hj hd => hdestroying j user' hj channel hd, h.accepted⟩
  intro channel hlive
  exact (h.covered channel hlive).imp_left fun ⟨j, hj⟩ => ⟨j, hj.answered hu htoCpu ha⟩

end Answered

theorem CreationInv.handleAnswer {rest : List ChannelMail} (h : s.CreationInv)
    (htoCpu : s.toCpu = mail :: rest) (hc : mail.msg = .createChannel) :
    (handleMail { s with toCpu := rest } mail true).CreationInv := by
  have ha : answerFor mail.word1 mail = true := decide_eq_true ⟨hc, rfl⟩
  obtain ⟨user, hu, -⟩ := h.waits (htoCpu ▸ List.mem_cons_self) ha
  have hretrieve : retrieveUser { s with toCpu := rest } mail = some mail.word1 := by
    unfold retrieveUser userFromUid
    rw [hc]
    dsimp only
    rw [hu]
    exact if_pos ⟨h.slot _ user hu, rfl⟩
  have hhandle : handleMail { s with toCpu := rest } mail true = s.answered mail.word1 user mail rest := by
    rw [handleMail_some (by rw [hc]; exact AlMcuMsg.noConfusion) hretrieve hu, ChannelUser.deliver_eq, hc]
    rfl
  rw [hhandle]
  exact h.answered hu htoCpu ha

theorem CreationInv.readMail (h : s.CreationInv) (hm : s.CreationMeets (.readMail done))
    (hs : s.step (.readMail done) = some s') : s'.CreationInv := by
  unfold ChannelState.step at hs
  dsimp only at hs
  split at hs
  · exact absurd hs (Option.some_ne_none _).symm
  · next mail rest htoCpu =>
    obtain rfl := Option.some.inj hs
    by_cases hc : mail.msg = .createChannel
    · obtain rfl := hm mail (by rw [htoCpu]; rfl) hc
      exact h.handleAnswer htoCpu hc
    · apply CreationInv.handleOther _ hc
      apply h.withMails
      rw [htoCpu, List.filter_cons, isCreate, decide_eq_false hc]
      rfl

/-! ## The commands -/

variable {live : List Channel} {rest : List McuCommand}

theorem CreationInv.popped (h : s.CreationInv)
    (htoMcu : s.toMcu = command :: rest) (hcreate : ∀ userUid, command ≠ .create userUid)
    (hlive : ∀ channel ∈ live, channel ∈ s.live ∧ command ≠ .destroy channel.uid ∧
      command ≠ .quietDestroy channel.uid) : CreationInv { s with toMcu := rest, live } := by
  refine ⟨h.slot, h.sound, h.read, h.sent, fun j => ?_, h.fresh, h.unique, fun channel hchannel => ?_,
    fun j user channel hj hd hown hchannel => ?_, h.accepted⟩
  · have hold := h.tokens j
    unfold creations at hold ⊢
    rw [htoMcu, List.count_cons_of_ne (hcreate j)] at hold
    exact hold
  · obtain ⟨hold, hdestroy, hquiet⟩ := hlive channel hchannel
    apply (h.covered channel hold).imp_right
    rintro (hmem | hmem)
    · exact Or.inl ((List.mem_cons.mp (htoMcu ▸ hmem)).resolve_left hdestroy.symm)
    · exact Or.inr ((List.mem_cons.mp (htoMcu ▸ hmem)).resolve_left hquiet.symm)
  · obtain ⟨hold, hdestroy, -⟩ := hlive channel hchannel
    have hmem := h.destroying j user channel hj hd hown hold
    exact (List.mem_cons.mp (htoMcu ▸ hmem)).resolve_left hdestroy.symm

variable {serial userUid : ℕ}

theorem Holds.of_answer (ha : answerFor userUid mail = true)
    (h : Holds { s with toMcu := rest, toCpu := s.toCpu ++ [mail], live, serial } j channel) :
    s.Holds j channel ∨ (j = userUid ∧ mail.channel = some channel) := by
  rcases h with hkeep | ⟨mail', hmail', ha', hchannel⟩
  · exact Or.inl (Or.inl hkeep)
  · rcases List.mem_append.mp hmail' with hmail' | hmail'
    · exact Or.inl (Or.inr ⟨mail', hmail', ha', hchannel⟩)
    · obtain rfl := List.mem_singleton.mp hmail'
      exact Or.inr ⟨(msg_of_answerFor ha').2.symm.trans (msg_of_answerFor ha).2, hchannel⟩

/-- A creation is answered, with a new channel or with none. -/
theorem CreationInv.answer
    (h : s.CreationInv) (htoMcu : s.toMcu = .create userUid :: rest) (ha : answerFor userUid mail = true)
    (hanswer : IsAnswer mail) (hserial : s.serial ≤ serial)
    (hnew : ∀ channel, mail.channel = some channel → s.serial ≤ channel.serial ∧ channel.serial < serial)
    (hlive : ∀ channel ∈ live, channel ∈ s.live ∨ mail.channel = some channel) :
    CreationInv { s with toMcu := rest, toCpu := s.toCpu ++ [mail], live, serial } := by
  have hmem : mail ∈ s.toCpu ++ [mail] := List.mem_append_right _ (List.mem_singleton_self _)
  have htail : ∀ command ∈ s.toMcu, command ≠ .create userUid → command ∈ rest := by
    intro command hcommand hne
    exact (List.mem_cons.mp (htoMcu ▸ hcommand)).resolve_left hne
  refine ⟨h.slot, h.sound, h.read, fun mail' hmail' hc => ?_, fun j => ?_, fun j channel hj => ?_,
    fun j k channel hj hk => ?_, fun channel hchannel => ?_, fun j user channel hj hd hown hchannel => ?_, h.accepted⟩
  · rcases List.mem_append.mp hmail' with hmail' | hmail'
    · exact h.sent mail' hmail' hc
    · exact List.mem_singleton.mp hmail' ▸ hanswer
  · have hold := h.tokens j
    unfold creations at hold ⊢
    rw [htoMcu, List.count_cons] at hold
    show rest.count _ + (s.toCpu ++ [mail]).countP _ + _ = if s.waiting j then 1 else 0
    rw [← hold, List.countP_append, List.countP_singleton]
    -- the answer takes the place of the creation
    have hcount : (if answerFor j mail = true then 1 else 0) =
        if (McuCommand.create userUid == McuCommand.create j) = true then 1 else 0 := by
      by_cases hj : j = userUid
      · subst hj
        rw [if_pos ha, if_pos (beq_self_eq_true _)]
      · rw [if_neg fun ha' => hj ((msg_of_answerFor ha').2.symm.trans (msg_of_answerFor ha).2),
          if_neg fun heq => hj (McuCommand.create.inj (eq_of_beq heq)).symm]
    rw [hcount]
    show _ + (s.createQueue j).length = _
    omega
  · rcases hj.of_answer ha with hold | ⟨-, hchannel⟩
    · exact (h.fresh j channel hold).trans_le hserial
    · exact (hnew channel hchannel).2
  · rcases hj.of_answer ha with hold | ⟨rfl, hchannel⟩ <;> rcases hk.of_answer ha with hold' | ⟨rfl, hchannel'⟩
    · exact h.unique j k channel hold hold'
    · exact absurd (h.fresh j channel hold) (Nat.not_lt.mpr (hnew channel hchannel').1)
    · exact absurd (h.fresh k channel hold') (Nat.not_lt.mpr (hnew channel hchannel).1)
    · rfl
  · rcases hlive channel hchannel with hold | hgiven
    · rcases h.covered channel hold with ⟨j, hkeep | ⟨mail', hmail', hfor⟩⟩ | hasked
      · exact Or.inl ⟨j, Or.inl hkeep⟩
      · exact Or.inl ⟨j, Or.inr ⟨mail', List.mem_append_left _ hmail', hfor⟩⟩
      · exact Or.inr (hasked.imp (htail _ · McuCommand.noConfusion) (htail _ · McuCommand.noConfusion))
    · exact Or.inl ⟨userUid, Or.inr ⟨mail, hmem, ha, hgiven⟩⟩
  · rcases hlive channel hchannel with hold | hgiven
    · exact htail _ (h.destroying j user channel hj hd hown hold) McuCommand.noConfusion
    · have hlt := h.fresh j channel (Or.inl ⟨user, hj, Or.inl hown⟩)
      exact absurd hlt (Nat.not_lt.mpr (hnew channel hgiven).1)

theorem of_mem_filter_uid {uid : ℕ}
    (h : channel ∈ live.filter fun channel => channel.uid ≠ uid) : channel ∈ live ∧ uid ≠ channel.uid := by
  obtain ⟨hmem, hne⟩ := List.mem_filter.mp h
  exact ⟨hmem, (of_decide_eq_true hne).symm⟩

theorem CreationInv.mcuHandle {answer : Option ℕ} (h : s.CreationInv) (hs : s.step (.mcuHandle answer) = some s') :
    s'.CreationInv := by
  unfold ChannelState.step ChannelState.mcuHandle at hs
  dsimp only at hs
  split at hs
  · exact absurd hs (Option.some_ne_none _).symm
  · next userUid rest htoMcu =>
    have ha : ∀ word0 channel, answerFor userUid ⟨.createChannel, word0, userUid, channel⟩ = true :=
      fun _ _ => decide_eq_true ⟨rfl, rfl⟩
    cases answer with
    | none =>
      obtain rfl := Option.some.inj hs
      exact h.answer htoMcu (ha _ _) (Or.inl ⟨rfl, rfl⟩) le_rfl nofun (fun channel hchannel => Or.inl hchannel)
    | some uid =>
      obtain ⟨hfree, hs⟩ := Option.ite_none_left_eq_some.mp hs
      obtain rfl := Option.some.inj hs
      refine h.answer htoMcu (ha _ _) (Or.inr ⟨⟨uid, s.serial⟩, rfl, rfl, fun hbad => hfree (Or.inl hbad)⟩)
        (Nat.le_succ _) (fun channel hchannel => ?_) (fun channel hchannel => ?_)
      · obtain rfl := Option.some.inj hchannel
        exact ⟨le_rfl, Nat.lt_succ_self _⟩
      · apply (List.mem_append.mp hchannel).imp_right
        intro hmem
        rw [List.mem_singleton.mp hmem]
  · next uid rest htoMcu =>
    obtain rfl := Option.some.inj hs
    have hpopped := h.popped htoMcu (fun _ => McuCommand.noConfusion) fun channel hchannel =>
      ⟨(of_mem_filter_uid hchannel).1, fun heq => (of_mem_filter_uid hchannel).2 (McuCommand.destroy.inj heq),
        McuCommand.noConfusion⟩
    exact (hpopped.withMails (filter_isCreate_append AlMcuMsg.noConfusion s.toCpu)).congr rfl rfl rfl rfl rfl rfl rfl
  · next uid rest htoMcu =>
    obtain rfl := Option.some.inj hs
    have hpopped := h.popped htoMcu (fun _ => McuCommand.noConfusion) fun channel hchannel =>
      ⟨(of_mem_filter_uid hchannel).1, McuCommand.noConfusion,
        fun heq => (of_mem_filter_uid hchannel).2 (McuCommand.quietDestroy.inj heq)⟩
    exact hpopped.congr rfl rfl rfl rfl rfl rfl rfl
  · next uid rest htoMcu =>
    obtain rfl := Option.some.inj hs
    have hpopped := h.popped htoMcu (fun _ => McuCommand.noConfusion) fun channel hchannel =>
      ⟨hchannel, McuCommand.noConfusion, McuCommand.noConfusion⟩
    exact hpopped.congr rfl rfl rfl rfl rfl rfl rfl
  all_goals
    next uid rest htoMcu =>
    obtain rfl := Option.some.inj hs
    exact h.popped htoMcu (fun _ => McuCommand.noConfusion) fun channel hchannel =>
      ⟨hchannel, McuCommand.noConfusion, McuCommand.noConfusion⟩

theorem CreationInv.step {op : ChannelOp} (h : s.CreationInv) (hm : s.CreationMeets op) (hs : s.step op = some s') :
    s'.CreationInv := by
  cases op with
  | openDevice => exact h.openDevice hs
  | release i sent => exact h.release hm hs
  | user i op => exact h.userStep hm hs
  | readMail done => exact h.readMail hm hs
  | mcuHandle answer => exact h.mcuHandle hs
  | mcuStatus channel => exact h.mcuStatus hs

theorem start_creationInv (maxUsersNb : ℕ) : (start maxUsersNb).CreationInv := by
  have hfree (i : ℕ) (user : ChannelUser) : (start maxUsersNb).users i ≠ some user := (Option.some_ne_none user).symm
  have hnot (i : ℕ) (channel : Channel) : ¬ (start maxUsersNb).Holds i channel := by
    rintro (⟨user, hu, -⟩ | ⟨mail, hmail, -⟩)
    · exact hfree i user hu
    · exact List.not_mem_nil hmail
  exact {
    slot := fun i user hu => absurd hu (hfree i user)
    sound := fun i user hu => absurd hu (hfree i user)
    read := fun i user hu => absurd hu (hfree i user)
    sent := List.forall_mem_nil _
    tokens := fun _ => rfl
    fresh := fun i channel h => absurd h (hnot i channel)
    unique := fun i _ channel h => absurd h (hnot i channel)
    covered := List.forall_mem_nil _
    destroying := fun i user _ hu => absurd hu (hfree i user)
    accepted := List.forall_mem_nil _ }

/-! ## What holds in every run -/

/-- A user owns a channel if it was given it, or waits for the answer that gives it. -/
def Owns (s : ChannelState) (i : ℕ) (channel : Channel) : Prop :=
  ∃ user, s.users i = some user ∧
    ((user.channel = some channel ∧ user.chanUid = channel.uid) ∨
      (user.createCall = .waiting ∧ ∃ mail ∈ user.queues .create ++ s.toCpu.filter (answerFor i),
        mail.channel = some channel ∧ mail.word0 = channel.uid))

structure LifeCycle (s : ChannelState) : Prop where
  buffers : ∀ i user, s.users i = some user → user.channelIsFullyCreated = true →
    ∃ channel, user.channel = some channel ∧ user.chanUid = channel.uid ∧ user.intSent = some channel ∧
      user.recSent = some channel ∧ user.intBuffers = true ∧ user.recBuffers = true
  accepted : ∀ user ∈ s.accepted, user.channelIsFullyCreated = true
  owned : ∀ channel ∈ s.live, (∃! i, s.Owns i channel) ∨ s.DestroyAsked channel

theorem Holds.of_owns (h : s.Owns i channel) : s.Holds i channel := by
  obtain ⟨user, hu, ⟨hchannel, -⟩ | ⟨-, mail, hmail, hchannel, -⟩⟩ := h
  · exact Or.inl ⟨user, hu, Or.inl hchannel⟩
  · rcases List.mem_append.mp hmail with hmail | hmail
    · exact Or.inl ⟨user, hu, Or.inr ⟨mail, hmail, hchannel⟩⟩
    · exact Or.inr ⟨mail, (List.mem_filter.mp hmail).1, (List.mem_filter.mp hmail).2, hchannel⟩

theorem word0_of_isAnswer (h : IsAnswer mail) (hchannel : mail.channel = some channel) :
    mail.word0 = channel.uid := by
  rcases h with ⟨-, hnone⟩ | ⟨channel', hchannel', huid, -⟩
  · exact absurd (hnone.symm.trans hchannel) (Option.some_ne_none channel).symm
  · obtain rfl := Option.some.inj (hchannel'.symm.trans hchannel)
    exact huid

theorem CreationInv.owns (h : s.CreationInv) (hholds : s.Holds i channel) : s.Owns i channel := by
  rcases hholds with ⟨user, hu, hchannel | ⟨mail, hmail, hchannel⟩⟩ | ⟨mail, hmail, ha, hchannel⟩
  · rcases (h.sound i user hu).chan with ⟨hnone, -⟩ | ⟨channel', hchannel', huid, -⟩
    · exact absurd (hnone.symm.trans hchannel) (Option.some_ne_none channel).symm
    · obtain rfl := Option.some.inj (hchannel'.symm.trans hchannel)
      exact ⟨user, hu, Or.inl ⟨hchannel, huid⟩⟩
  · have htokens := h.tokens_of hu
    have hpos := List.length_pos_of_mem hmail
    have hwaiting : user.createCall = .waiting := by
      by_contra hno
      rw [if_neg hno] at htokens
      omega
    exact ⟨user, hu, Or.inr ⟨hwaiting, mail, List.mem_append_left _ hmail, hchannel,
      word0_of_isAnswer (h.read i user hu mail hmail) hchannel⟩⟩
  · obtain ⟨user, hu, hwaiting⟩ := h.waits hmail ha
    exact ⟨user, hu, Or.inr ⟨hwaiting, mail, List.mem_append_right _ (List.mem_filter.mpr ⟨hmail, ha⟩), hchannel,
      word0_of_isAnswer (h.sent mail hmail (msg_of_answerFor ha).1) hchannel⟩⟩

theorem CreationInv.lifeCycle (h : s.CreationInv) : s.LifeCycle := by
  refine ⟨fun i user hu hfully => ?_, h.accepted, fun channel hlive => ?_⟩
  · obtain ⟨hcreated, hno⟩ := Bool.and_eq_true_iff.mp hfully
    obtain ⟨channel, hchannel, huid, -, hbuffers⟩ := (h.sound i user hu).created hcreated
    have hcheckpoint : user.checkpoint = .noCheckpoint := by
      simpa [ChannelUser.haveCheckpoint] using hno
    rw [hcheckpoint] at hbuffers
    obtain ⟨⟨hint, hrec⟩, hintSent, hrecSent⟩ := hbuffers
    exact ⟨channel, hchannel, huid, hintSent.trans hchannel, hrecSent.trans hchannel, hint, hrec⟩
  · apply (h.covered channel hlive).imp_left
    rintro ⟨i, hholds⟩
    exact ⟨i, h.owns hholds, fun j hj => h.unique j i channel (Holds.of_owns hj) hholds⟩

/-- In every run whose steps meet the conditions the life cycle of the channels is kept. -/
theorem lifeCycle_of_run {maxUsersNb : ℕ} {ops : List ChannelOp}
    (hg : GuardedRuns.Guarded step CreationMeets ops (start maxUsersNb))
    (hr : GuardedRuns.run step ops (start maxUsersNb) = some s) : s.LifeCycle := by
  have hinv : s.CreationInv := GuardedRuns.invariant_of_run (fun s op s' h hm hs => h.step hm hs)
    (start_creationInv maxUsersNb) hg hr
  exact hinv.lifeCycle

/-- User 0 asks for a channel and gets the uid 5. -/
def givenChannel : List ChannelOp :=
  [.openDevice, .user 0 (.createRequest true), .mcuHandle (some 5), .readMail true, .user 0 .createFeedback]

/-- Its buffers are sent at the second try; it encodes a frame and asks for the destruction. -/
def usedChannel : List ChannelOp :=
  givenChannel ++ [.user 0 (.allocateBuffers true true), .user 0 (.sendIntermediateBuffers true),
    .user 0 (.sendReferenceBuffers false), .user 0 .createResume, .user 0 (.sendReferenceBuffers true),
    .mcuHandle none, .user 0 (.encode true), .user 0 .destroyCall, .user 0 (.destroySend true)]

theorem lifeCycle_of_run_used : ∃ s, GuardedRuns.run step usedChannel (start 2) = some s ∧ s.LifeCycle :=
  ⟨_, rfl, lifeCycle_of_run (by decide +kernel : GuardedRuns.Guarded step CreationMeets usedChannel (start 2)) rfl⟩

/-- A channel without its reference buffers is taken for a created one when their allocation
fails. -/
theorem not_lifeCycle : ¬ ∀ (maxUsersNb : ℕ) (ops : List ChannelOp) (s : ChannelState),
    GuardedRuns.run step ops (start maxUsersNb) = some s → s.LifeCycle := by
  intro h
  have hlife := h 1 (givenChannel ++ [.user 0 (.allocateBuffers true false)]) _ rfl
  obtain ⟨channel, -, -, -, -, -, hrec⟩ := hlife.buffers 0 _ rfl rfl
  exact absurd hrec Bool.false_ne_true

end ChannelState

end VcuCodec
