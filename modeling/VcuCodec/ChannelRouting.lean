import VcuCodec.ChannelLedger

/-!
# Mails and the channels they are about

A mail about a channel goes to the user of the channel, and a status that is returned is one
of the channel the user has, in every run in which no wait for a destruction is given up, no
destruction is sent without a channel, a uid is taken only when no user has it any more, the
statuses are read before the channel is given up, and a device is closed when nothing of its
channel is on its way.
-/

namespace VcuCodec

open ChannelSlots

/-! ## One user -/

namespace ChannelUser

variable {user user' : ChannelUser} {i : ℕ} {op : UserOp} {commands : List McuCommand} {live live' : List Channel}
  {serial serial' : ℕ} {channel : Channel}

/-- What a user has agrees with its channel. -/
structure Fits (user : ChannelUser) (live : List Channel) (serial : ℕ) : Prop where
  chan : (user.channel = none ∧ user.chanUid = badChan) ∨ ∃ channel, user.channel = some channel ∧
    user.chanUid = channel.uid ∧ channel.uid ≠ badChan ∧ channel.serial < serial
  waiting : user.createCall = .waiting → user.channel = none
  destroying : user.destroying = true → user.channel ≠ none
  destroyed : ∀ mail mails, user.queues .destroy = mail :: mails → user.destroying = true ∧ mails = []
  status : ∀ mail ∈ user.queues .status, user.channel ≠ none ∧ mail.channel = user.channel
  answers : ∀ mail ∈ user.queues .create, IsAnswer mail
  kept : ∀ channel, user.channel = some channel → user.destroying = false → channel ∈ live
  gone : ∀ channel, user.channel = some channel → user.queues .destroy ≠ [] → channel ∉ live

theorem fits_init : ChannelUser.init.Fits live serial :=
  ⟨Or.inl ⟨rfl, rfl⟩, nofun, nofun, nofun, nofun, nofun, nofun, nofun⟩

theorem Fits.mono (h : user.Fits live serial) (hserial : serial ≤ serial')
    (hkept : ∀ channel, user.channel = some channel → user.destroying = false → channel ∈ live → channel ∈ live')
    (hgone : ∀ channel, user.channel = some channel → channel ∉ live → channel ∉ live') : user.Fits live' serial' := by
  refine { h with chan := h.chan.imp_right ?_, kept := ?_, gone := ?_ }
  · rintro ⟨channel, hchannel, huid, hne, hlt⟩
    exact ⟨channel, hchannel, huid, hne, hlt.trans_le hserial⟩
  · intro channel hchannel hd
    exact hkept channel hchannel hd (h.kept channel hchannel hd)
  · intro channel hchannel hq
    exact hgone channel hchannel (h.gone channel hchannel hq)

theorem Fits.uid (h : user.Fits live serial) (hchannel : user.channel = some channel) :
    user.chanUid = channel.uid ∧ channel.uid ≠ badChan ∧ channel.serial < serial := by
  rcases h.chan with ⟨hnone, -⟩ | ⟨channel', hchannel', hfacts⟩
  · exact absurd (hnone.symm.trans hchannel) (Option.some_ne_none channel).symm
  · obtain rfl := Option.some.inj (hchannel'.symm.trans hchannel)
    exact hfacts

theorem Fits.created (h : user.Fits live serial) (hc : user.chanIsCreated = true) : ∃ channel,
    user.channel = some channel ∧ user.chanUid = channel.uid := by
  rcases h.chan with ⟨-, hbad⟩ | ⟨channel, hchannel, huid, -⟩
  · exact absurd hbad (of_decide_eq_true hc)
  · exact ⟨channel, hchannel, huid⟩

theorem Fits.quiet (h : user.Fits live serial) (hd : user.destroying = false) : user.queues .destroy = [] := by
  cases hqueue : user.queues .destroy with
  | nil => rfl
  | cons mail mails => exact absurd (hd.symm.trans (h.destroyed mail mails hqueue).1) Bool.false_ne_true

theorem Fits.of_core (h : user.Fits live serial) (hcore : SameCore user user') : user'.Fits live serial := by
  refine ⟨?_, ?_, ?_, ?_, ?_, ?_, ?_, ?_⟩
  · rw [hcore.channel, hcore.chanUid]
    exact h.chan
  · rw [hcore.channel, hcore.waiting]
    exact h.waiting
  · rw [hcore.channel, hcore.destroying]
    exact h.destroying
  · rw [hcore.queues, hcore.destroying]
    exact h.destroyed
  · rw [hcore.queues, hcore.channel]
    exact h.status
  · rw [hcore.queues]
    exact h.answers
  · rw [hcore.channel, hcore.destroying]
    exact h.kept
  · rw [hcore.channel, hcore.queues]
    exact h.gone

variable {mails : List ChannelMail}

theorem Fits.withCreate (h : user.Fits live serial) (ha : ∀ mail ∈ mails, IsAnswer mail) :
    (user.setQueue .create mails).Fits live serial := by
  have hother : ∀ queue, queue ≠ .create → (user.setQueue .create mails).queues queue = user.queues queue :=
    fun queue hne => setQueue_of_ne hne mails
  refine { h with destroyed := ?_, status := ?_, answers := ?_, gone := ?_ }
  · rw [hother _ UserMail.noConfusion]
    exact h.destroyed
  · rw [hother _ UserMail.noConfusion]
    exact h.status
  · rw [setQueue_self]
    exact ha
  · rw [hother _ UserMail.noConfusion]
    exact h.gone

theorem Fits.withStatus (h : user.Fits live serial)
    (hs : ∀ mail ∈ mails, user.channel ≠ none ∧ mail.channel = user.channel) :
    (user.setQueue .status mails).Fits live serial := by
  have hother : ∀ queue, queue ≠ .status → (user.setQueue .status mails).queues queue = user.queues queue :=
    fun queue hne => setQueue_of_ne hne mails
  refine { h with destroyed := ?_, status := ?_, answers := ?_, gone := ?_ }
  · rw [hother _ UserMail.noConfusion]
    exact h.destroyed
  · rw [setQueue_self]
    exact hs
  · rw [hother _ UserMail.noConfusion]
    exact h.answers
  · rw [hother _ UserMail.noConfusion]
    exact h.gone

theorem Fits.withDestroy (h : user.Fits live serial) (hd : user.destroying = true)
    (hmails : mails.length ≤ 1) (hgone : ∀ channel, user.channel = some channel → mails ≠ [] → channel ∉ live) :
    (user.setQueue .destroy mails).Fits live serial := by
  have hother : ∀ queue, queue ≠ .destroy → (user.setQueue .destroy mails).queues queue = user.queues queue :=
    fun queue hne => setQueue_of_ne hne mails
  refine { h with destroyed := ?_, status := ?_, answers := ?_, gone := ?_ }
  · rw [setQueue_self]
    rintro mail rest rfl
    exact ⟨hd, List.eq_nil_of_length_eq_zero (Nat.le_zero.mp (Nat.le_of_succ_le_succ hmails))⟩
  · rw [hother _ UserMail.noConfusion]
    exact h.status
  · rw [hother _ UserMail.noConfusion]
    exact h.answers
  · rw [setQueue_self]
    exact hgone

end ChannelUser

/-! ## The driver and the MCU -/

namespace ChannelState

open ChannelUser (IsAnswer)

variable {s s' : ChannelState} {i j : ℕ} {user user' : ChannelUser} {op : UserOp} {channel : Channel}
  {commands : List McuCommand} {mail : ChannelMail} {rest : List ChannelMail}

/-- The mails about channels went to their users, who were returned the statuses of the
channels they had. -/
structure Routed (s : ChannelState) : Prop where
  queued : ∀ handed ∈ s.queued, ∀ channel, handed.mail.msg ≠ .createChannel → handed.mail.channel = some channel →
    handed.owned = some channel
  returned : ∀ handed ∈ s.returned, handed.owned ≠ none ∧ handed.mail.channel = handed.owned

/-- Nothing of the channel is on its way. -/
def Silent (s : ChannelState) (channel : Channel) : Prop :=
  .encode channel.uid ∉ s.toMcu ∧ channel ∉ s.tasks ∧ ∀ mail ∈ s.toCpu, mail.channel ≠ some channel
deriving Decidable

/-- What is asked of a step. -/
def RoutingMeets (s : ChannelState) : ChannelOp → Prop
  | .user _ .destroyGiveUp => False
  | .user i (.destroySend true) => ∀ user, s.users i = some user → user.chanIsCreated = true
  | .user i .createFeedback => ∀ user, s.users i = some user → ∀ mail, (user.queues .create).head? = some mail →
      mail.word0 ≠ badChan → s.userFromChanUid mail.word0 = none
  | .user i .destroyFeedback => ∀ user, s.users i = some user → user.queues .status = []
  | .release i _ => ∀ user, s.users i = some user → ∀ channel, user.channel = some channel → s.Silent channel
  | _ => True

instance (s : ChannelState) : ∀ op, Decidable (s.RoutingMeets op)
  | .user _ .destroyGiveUp => inferInstanceAs (Decidable False)
  | .user i (.destroySend true) => inferInstanceAs (Decidable (∀ user ∈ s.users i, user.chanIsCreated = true))
  | .user i .createFeedback => inferInstanceAs (Decidable (∀ user ∈ s.users i, ∀ mail ∈ (user.queues .create).head?,
      mail.word0 ≠ badChan → s.userFromChanUid mail.word0 = none))
  | .user i .destroyFeedback => inferInstanceAs (Decidable (∀ user ∈ s.users i, user.queues .status = []))
  | .release i _ => inferInstanceAs (Decidable (∀ user ∈ s.users i, ∀ channel ∈ user.channel, s.Silent channel))
  | .user _ (.createRequest _) | .user _ .createResume | .user _ .createGiveUp | .user _ (.allocateBuffers _ _)
  | .user _ (.sendIntermediateBuffers _) | .user _ (.sendReferenceBuffers _) | .user _ .destroyCall
  | .user _ (.destroySend false) | .user _ (.encode _) | .user _ .waitForStatus | .openDevice | .readMail _
  | .mcuHandle _ | .mcuStatus _ => inferInstanceAs (Decidable True)

def given (s : ChannelState) : List Channel := ChannelSlots.given s.users s.maxUsersNb s.toCpu

/-- No user has the channel, and none is given it. -/
def Free (s : ChannelState) (channel : Channel) : Prop := channel ∉ s.given ∧ ¬ Owned s.users channel

structure RoutingInv (s : ChannelState) : Prop where
  users : ∀ i user, s.users i = some user → i < s.maxUsersNb ∧ user.Fits s.live s.serial
  single : ∀ i user, s.users i = some user → ∀ j user', s.users j = some user' → user.chanUid ≠ badChan →
    user.chanUid = user'.chanUid → i = j
  live : ∀ channel ∈ s.live, channel.uid ≠ badChan ∧ channel.serial < s.serial
  liveOnce : ∀ channel ∈ s.live, ∀ channel' ∈ s.live, channel.uid = channel'.uid → channel = channel'
  answers : ∀ mail ∈ s.toCpu, mail.msg = .createChannel → IsAnswer mail
  givenOnce : s.given.Nodup
  givenFree : ∀ channel ∈ s.given, channel ∈ s.live ∧ ¬ Owned s.users channel
  commands : CommandsFit s.toMcu s.live (Owned s.users) (Asked s.users) s.Free
  tasks : ∀ channel ∈ s.tasks, channel ∈ s.live ∧ Owned s.users channel
  mails : MailsFit s.toCpu s.live (Asked s.users) (Working s.users)
  records : s.Routed

theorem RoutingInv.fits (h : s.RoutingInv) (hu : s.users i = some user) : user.Fits s.live s.serial := (h.users i user hu).2

theorem RoutingInv.same_user (h : s.RoutingInv) (hu : s.users i = some user) (hu' : s.users j = some user')
    (hchannel : user.channel = some channel) (hchannel' : user'.channel = some channel) : i = j := by
  obtain ⟨huid, hne, -⟩ := (h.fits hu).uid hchannel
  obtain ⟨huid', -, -⟩ := (h.fits hu').uid hchannel'
  exact h.single i user hu j user' hu' (huid.symm ▸ hne) (huid.trans huid'.symm)

/-- The other users do not have the uid that a user has after a step. -/
theorem RoutingInv.single_update (h : s.RoutingInv)
    (huid : (∃ user, s.users i = some user ∧ user'.chanUid = user.chanUid) ∨ user'.chanUid = badChan ∨
      ∀ j u, s.users j = some u → u.chanUid ≠ user'.chanUid) :
    ∀ j u, Function.update s.users i (some user') j = some u → ∀ k u', Function.update s.users i (some user') k = some u' →
      u.chanUid ≠ badChan → u.chanUid = u'.chanUid → j = k := by
  have hboth : ∀ k u', s.users k = some u' → user'.chanUid ≠ badChan → user'.chanUid = u'.chanUid → i = k := by
    intro k u' hk hne heq
    rcases huid with ⟨user, hu, hsame⟩ | hbad | hfree
    · exact h.single i user hu k u' hk (hsame ▸ hne) (hsame ▸ heq)
    · exact absurd hbad hne
    · exact absurd heq.symm (hfree k u' hk)
  apply forall_update
  · exact forall_update (fun _ _ => rfl) hboth
  · intro j u hj
    apply forall_update
    · exact fun hne heq => (hboth j u hj (heq ▸ hne) heq.symm).symm
    · exact h.single j u hj

theorem RoutingInv.sameChannel {accepted : List ChannelUser} {returned : List Handed} (h : s.RoutingInv)
    (hu : s.users i = some user) (hfits : user'.Fits s.live s.serial) (hchannel : user'.channel = user.channel)
    (huid : user'.chanUid = user.chanUid) (hdestroying : user'.destroying = user.destroying)
    (hdestroy : user'.queues .destroy = user.queues .destroy)
    (hcreate : (user'.queues .create).filterMap ChannelMail.channel = (user.queues .create).filterMap ChannelMail.channel)
    (hcommands : CommandsFit (s.toMcu ++ commands) s.live (Owned s.users) (Asked s.users) s.Free)
    (hreturned : ∀ handed ∈ returned, handed.owned ≠ none ∧ handed.mail.channel = handed.owned) :
    (s.withUser i user' commands accepted returned).RoutingInv := by
  have howned : ∀ channel, Owned (Function.update s.users i (some user')) channel ↔ Owned s.users channel :=
    fun channel => has_update_iff hu (by rw [hchannel])
  have hworking : ∀ channel, Working (Function.update s.users i (some user')) channel ↔ Working s.users channel :=
    fun channel => has_update_iff hu (by rw [hchannel, hdestroy])
  have hasked : ∀ channel, Asked (Function.update s.users i (some user')) channel ↔ Asked s.users channel :=
    fun channel => has_update_iff hu (by rw [hchannel, hdestroy, hdestroying])
  have hgiven : (s.withUser i user' commands accepted returned).given = s.given := by
    apply given_update_eq
    rw [hu]
    exact hcreate
  refine { h with
    users := forall_update ⟨(h.users i user hu).1, hfits⟩ h.users
    single := h.single_update (Or.inl ⟨user, hu, huid⟩)
    givenOnce := ?_, givenFree := ?_, commands := ?_, tasks := ?_, mails := ?_
    records := ⟨h.records.queued, fun handed hmem => (List.mem_append.mp hmem).elim (h.records.returned handed) (hreturned handed)⟩ }
  · rw [hgiven]
    exact h.givenOnce
  · rw [hgiven]
    exact fun channel hmem => (h.givenFree channel hmem).imp_right (mt (howned channel).mp)
  · apply hcommands.mono (fun _ hmem => hmem) (fun channel _ _ => (howned channel).mpr)
      (fun channel _ => (hasked channel).mpr)
    rintro channel - ⟨hnot, hno⟩
    exact ⟨hgiven ▸ hnot, mt (howned channel).mp hno⟩
  · exact fun channel hmem => (h.tasks channel hmem).imp_right (howned channel).mpr
  · exact h.mails.mono (fun _ _ channel _ _ hdead ha => ⟨hdead, (hasked channel).mpr ha⟩)
      (fun _ _ channel _ _ => (hworking channel).mpr)

/-! ## The steps of a user -/

theorem RoutingInv.commands_nil (h : s.RoutingInv) :
    CommandsFit (s.toMcu ++ []) s.live (Owned s.users) (Asked s.users) s.Free := by
  rw [List.append_nil]
  exact h.commands

theorem returnedBy_eq_nil (h : op ≠ .waitForStatus) : returnedBy user op = [] := by
  cases op with
  | waitForStatus => exact absurd rfl h
  | _ => rfl

theorem RoutingInv.keptStep (h : s.RoutingInv) (hu : s.users i = some user)
    (hstep : user.step i op = some (user', commands)) (hk : ChannelUser.keepsCore op = true) :
    (s.withUser i user' commands (acceptedBy user op) (returnedBy user op)).RoutingInv := by
  obtain ⟨hcore, hpush⟩ := ChannelUser.kept_of_step hstep hk
  have hne : op ≠ .waitForStatus := by
    rintro rfl
    exact Bool.false_ne_true hk
  rw [returnedBy_eq_nil hne]
  exact h.sameChannel hu ((h.fits hu).of_core hcore) hcore.channel hcore.chanUid hcore.destroying
    (congrFun hcore.queues _) (congrArg _ (congrFun hcore.queues _))
    (h.commands.append fun command hmem => Or.inr (hpush command hmem)) nofun

theorem RoutingInv.not_asked (h : s.RoutingInv) (hu : s.users i = some user) (hchannel : user.channel = some channel)
    (hdestroying : user.destroying = false) : .destroy channel.uid ∉ s.toMcu := by
  intro hmem
  obtain ⟨channel', hlive', huid', j, u, hj, hchannel', -, hd⟩ := h.commands.destroys channel.uid hmem
  obtain rfl := h.liveOnce channel' hlive' channel ((h.fits hu).kept channel hchannel hdestroying) huid'
  obtain rfl := h.same_user hu hj hchannel hchannel'
  obtain rfl := Option.some.inj (hu.symm.trans hj)
  exact Bool.false_ne_true (hdestroying.symm.trans hd)

variable {mails : List ChannelMail}

/-- The answers that a user has not read, without the first. -/
theorem given_takeChannel (hlt : i < s.maxUsersNb) (hu : s.users i = some user)
    (hqueue : user.queues .create = mail :: mails) (hchannel : mail.channel = some channel)
    (hmails : user'.queues .create = mails) :
    s.given.Perm (channel :: ChannelSlots.given (Function.update s.users i (some user')) s.maxUsersNb s.toCpu) := by
  obtain ⟨others, hperm⟩ := given_perm s.users hlt
  have hold : queueChannels (some user) = channel :: queueChannels (some user') := by
    show (user.queues .create).filterMap _ = _ :: (user'.queues .create).filterMap _
    rw [hqueue, hmails, List.filterMap_cons_some hchannel]
  have hbefore := hperm (some user) s.toCpu
  rw [← hu, Function.update_eq_self, hu, hold, List.cons_append] at hbefore
  exact hbefore.trans (List.perm_middle.trans ((hperm (some user') s.toCpu).symm.cons channel))

variable {uid : ℕ}

theorem RoutingInv.of_userFromChanUid (h : s.RoutingInv) (hnone : s.userFromChanUid uid = none) :
    ∀ j u, s.users j = some u → u.chanUid ≠ uid := by
  intro j u hj huid
  apply List.find?_eq_none.mp hnone j (List.mem_range.mpr (h.users j u hj).1)
  unfold hasChannelId
  rw [hj]
  exact decide_eq_true huid

/-- The channel of an answer is taken by the user that reads it. -/
theorem RoutingInv.takeChannel (h : s.RoutingInv) (hu : s.users i = some user)
    (hnone : user.channel = none) (hdestroying : user.destroying = false) (hqueue : user.queues .create = mail :: mails)
    (hchannel : mail.channel = some channel) (huid : mail.word0 = channel.uid) (hne : channel.uid ≠ badChan)
    (hfree : s.userFromChanUid mail.word0 = none)
    (huser : user' = { user.setQueue .create mails with
      chanUid := mail.word0
      channel := mail.channel
      checkpoint := .allocateBuffers
      createCall := .running }) : (s.withUser i user' [] [] []).RoutingInv := by
  have hfits := h.fits hu
  have hother : ∀ queue, queue ≠ .create → user'.queues queue = user.queues queue := by
    intro queue hqueue
    rw [huser]
    exact ChannelUser.setQueue_of_ne hqueue mails
  have hmails : user'.queues .create = mails := by
    rw [huser]
    show (user.setQueue .create mails).queues .create = mails
    exact ChannelUser.setQueue_self ..
  have hchannel' : user'.channel = some channel := by rw [huser, hchannel]
  have huid' : user'.chanUid = channel.uid := by rw [huser, huid]
  have hdestroying' : user'.destroying = false := by rw [huser]; exact hdestroying
  have hwaiting' : user'.createCall ≠ .waiting := by rw [huser]; exact CreateCall.noConfusion
  have hempty : user'.queues .destroy = [] := (hother _ UserMail.noConfusion).trans (hfits.quiet hdestroying)
  have hperm := given_takeChannel (h.users i user hu).1 hu hqueue hchannel hmails
  have hnodup := List.nodup_cons.mp (hperm.nodup_iff.mp h.givenOnce)
  obtain ⟨hlive, hunowned⟩ := h.givenFree channel (hperm.mem_iff.mpr List.mem_cons_self)
  -- only this channel has a new user
  have hkeep : ∀ {P : ChannelUser → Prop}, (∀ u, P u → u.channel ≠ none) → Has s.users P →
      Has (Function.update s.users i (some user')) P :=
    fun hP hhas => hhas.update hu fun hold => absurd hnone (hP user hold)
  have howned : ∀ c, Owned s.users c → Owned (Function.update s.users i (some user')) c :=
    fun c => hkeep fun u hc => by rw [hc]; exact Option.some_ne_none c
  have hasked : ∀ c, Asked s.users c → Asked (Function.update s.users i (some user')) c :=
    fun c => hkeep fun u hc => by rw [hc.1]; exact Option.some_ne_none c
  have hworking : ∀ c, Working s.users c → Working (Function.update s.users i (some user')) c :=
    fun c => hkeep fun u hc => by rw [hc.1]; exact Option.some_ne_none c
  have hback : ∀ c, c ≠ channel → Owned (Function.update s.users i (some user')) c → Owned s.users c :=
    fun c hc ho => ho.of_update fun heq => absurd (Option.some.inj (hchannel'.symm.trans heq)).symm hc
  have hnew : user'.Fits s.live s.serial := by
    refine ⟨Or.inr ⟨channel, hchannel', huid', hne, (h.live channel hlive).2⟩, fun hw => absurd hw hwaiting',
      fun hd => absurd (hdestroying'.symm.trans hd) Bool.false_ne_true, ?_, ?_, ?_, ?_, fun _ _ hq => absurd hempty hq⟩
    · rw [hempty]
      exact nofun
    · rw [hother _ UserMail.noConfusion]
      exact fun mail' hmail' => absurd hnone (hfits.status mail' hmail').1
    · rw [hmails]
      exact fun mail' hmail' => hfits.answers mail' (hqueue ▸ List.mem_cons_of_mem _ hmail')
    · intro c hc _
      obtain rfl := Option.some.inj (hchannel'.symm.trans hc)
      exact hlive
  refine { h with
    users := forall_update ⟨(h.users i user hu).1, hnew⟩ h.users
    single := h.single_update (Or.inr (Or.inr ?_))
    givenOnce := hnodup.2
    givenFree := ?_, commands := ?_
    tasks := fun c hc => (h.tasks c hc).imp_right (howned c)
    mails := h.mails.mono (fun _ _ c _ _ hdead ha => ⟨hdead, hasked c ha⟩) (fun _ _ c _ _ => hworking c)
    records := ⟨h.records.queued, fun handed hmem => (List.mem_append.mp hmem).elim (h.records.returned handed) nofun⟩ }
  · rw [huid', ← huid]
    exact h.of_userFromChanUid hfree
  · intro c hc
    refine (h.givenFree c (hperm.mem_iff.mpr (List.mem_cons_of_mem _ hc))).imp_right fun hno ho => ?_
    exact hno (hback c (fun heq => hnodup.1 (heq ▸ hc)) ho)
  · apply (h.commands_nil).mono (fun _ hmem => hmem) (fun c _ _ => howned c) (fun c _ => hasked c)
    rintro c - ⟨hnot, hno⟩
    refine ⟨fun hc => hnot (hperm.mem_iff.mpr (List.mem_cons_of_mem _ hc)), fun ho => hno (hback c (fun heq => ?_) ho)⟩
    exact hnot (hperm.mem_iff.mpr (heq ▸ List.mem_cons_self))

theorem RoutingInv.giveUpChannel (h : s.RoutingInv) (hu : s.users i = some user)
    (hqueue : user.queues .destroy = mail :: mails) (hstatus : user.queues .status = [])
    (huser : user' = { user.setQueue .destroy mails with
        destroying := false
        chanUid := badChan
        channel := none
        checkpoint := .noCheckpoint
        intBuffers := false
        recBuffers := false }) : (s.withUser i user' [] [] []).RoutingInv := by
  have hfits := h.fits hu
  have hother : ∀ queue, queue ≠ .destroy → user'.queues queue = user.queues queue := by
    intro queue hne
    rw [huser]
    exact ChannelUser.setQueue_of_ne hne mails
  have hmails : user'.queues .destroy = [] := by
    rw [huser]
    show (user.setQueue .destroy mails).queues .destroy = []
    exact (ChannelUser.setQueue_self ..).trans (hfits.destroyed mail mails hqueue).2
  have hchannel' : user'.channel = none := by rw [huser]
  have huid' : user'.chanUid = badChan := by rw [huser]
  have hdestroying' : user'.destroying = false := by rw [huser]
  have hanswered : user.queues .destroy ≠ [] := by rw [hqueue]; exact List.cons_ne_nil _ _
  have hgiven : (s.withUser i user' [] [] []).given = s.given := by
    apply given_update_eq
    rw [hu]
    exact congrArg (List.filterMap ChannelMail.channel) (hother .create UserMail.noConfusion)
  have howned : ∀ c ∈ s.live, Owned s.users c → Owned (Function.update s.users i (some user')) c :=
    fun c hlive ho => ho.update hu fun hc => absurd hlive (hfits.gone c hc hanswered)
  have hback : ∀ c, Owned (Function.update s.users i (some user')) c → Owned s.users c :=
    fun c ho => ho.of_update fun hc => absurd (hchannel'.symm.trans hc) (Option.some_ne_none c).symm
  have hasked : ∀ c, Asked s.users c → Asked (Function.update s.users i (some user')) c :=
    fun c ha => ha.update hu fun hc => absurd hc.2.1 hanswered
  have hworking : ∀ c, Working s.users c → Working (Function.update s.users i (some user')) c :=
    fun c hw => hw.update hu fun hc => absurd hc.2 hanswered
  have hnew : user'.Fits s.live s.serial := by
    refine ⟨Or.inl ⟨hchannel', huid'⟩, fun _ => hchannel', fun hd => absurd (hdestroying'.symm.trans hd) Bool.false_ne_true,
      ?_, ?_, ?_, ?_, fun _ _ hq => absurd hmails hq⟩
    · rw [hmails]
      exact nofun
    · rw [hother _ UserMail.noConfusion, hstatus]
      exact nofun
    · rw [hother _ UserMail.noConfusion]
      exact hfits.answers
    · rw [hchannel']
      exact nofun
  refine { h with
    users := forall_update ⟨(h.users i user hu).1, hnew⟩ h.users
    single := h.single_update (Or.inr (Or.inl huid'))
    givenOnce := ?_, givenFree := ?_, commands := ?_
    tasks := fun c hc => ⟨(h.tasks c hc).1, howned c (h.tasks c hc).1 (h.tasks c hc).2⟩
    mails := h.mails.mono (fun _ _ c _ _ hdead ha => ⟨hdead, hasked c ha⟩) (fun _ _ c _ _ => hworking c)
    records := ⟨h.records.queued, fun handed hmem => (List.mem_append.mp hmem).elim (h.records.returned handed) nofun⟩ }
  · rw [hgiven]
    exact h.givenOnce
  · rw [hgiven]
    exact fun c hc => (h.givenFree c hc).imp_right (mt (hback c))
  · apply (h.commands_nil).mono (fun _ hmem => hmem) (fun c hlive _ => howned c hlive) (fun c _ => hasked c)
    rintro c - ⟨hnot, hno⟩
    exact ⟨hgiven ▸ hnot, mt (hback c) hno⟩

theorem RoutingInv.destroySend (h : s.RoutingInv) (hu : s.users i = some user) (hcreated : user.chanIsCreated = true)
    (hidle : user.createCall = .idle) (hdestroying : user.destroying = false)
    (huser : user' = { user with
        destroyers := user.destroyers - 1
        destroying := true }) : (s.withUser i user' [.destroy user.chanUid] [] []).RoutingInv := by
  have hfits := h.fits hu
  have hempty := hfits.quiet hdestroying
  obtain ⟨channel, hchannel, huid⟩ := hfits.created hcreated
  have hchannel' : user'.channel = user.channel := by rw [huser]
  have hqueues : user'.queues = user.queues := by rw [huser]
  have hdestroying' : user'.destroying = true := by rw [huser]
  have huid' : user'.chanUid = user.chanUid := by rw [huser]
  have hgiven : (s.withUser i user' [.destroy user.chanUid] [] []).given = s.given := by
    apply given_update_eq
    rw [hu]
    exact congrArg (List.filterMap ChannelMail.channel) (congrFun hqueues .create)
  have howned : ∀ c, Owned (Function.update s.users i (some user')) c ↔ Owned s.users c :=
    fun c => has_update_iff hu (by rw [hchannel'])
  have hworking : ∀ c, Working (Function.update s.users i (some user')) c ↔ Working s.users c :=
    fun c => has_update_iff hu (by rw [hchannel', hqueues])
  have hasked : ∀ c, Asked s.users c → Asked (Function.update s.users i (some user')) c :=
    fun c ha => ha.update hu fun hc => absurd (hdestroying.symm.trans hc.2.2) Bool.false_ne_true
  have hnew : user'.Fits s.live s.serial := by
    refine ⟨?_, ?_, ?_, ?_, ?_, ?_, ?_, ?_⟩
    · rw [hchannel', huid']
      exact hfits.chan
    · rw [huser]
      exact fun hw => absurd (hidle.symm.trans hw) CreateCall.noConfusion
    · rw [hchannel', hchannel]
      exact fun _ => Option.some_ne_none channel
    · rw [hqueues, hempty]
      exact nofun
    · rw [hqueues, hchannel']
      exact hfits.status
    · rw [hqueues]
      exact hfits.answers
    · rw [hdestroying']
      exact fun _ _ hd => absurd hd.symm Bool.false_ne_true
    · rw [hqueues]
      exact fun _ _ hq => absurd hempty hq
  refine { h with
    users := forall_update ⟨(h.users i user hu).1, hnew⟩ h.users
    single := h.single_update (Or.inl ⟨user, hu, huid'⟩)
    givenOnce := ?_, givenFree := ?_, commands := ?_
    tasks := fun c hc => (h.tasks c hc).imp_right (howned c).mpr
    mails := h.mails.mono (fun _ _ c _ _ hdead ha => ⟨hdead, hasked c ha⟩) (fun _ _ c _ _ => (hworking c).mpr)
    records := ⟨h.records.queued, fun handed hmem => (List.mem_append.mp hmem).elim (h.records.returned handed) nofun⟩ }
  · rw [hgiven]
    exact h.givenOnce
  · rw [hgiven]
    exact fun c hc => (h.givenFree c hc).imp_right (mt (howned c).mp)
  · have hmono := h.commands.mono (fun _ hmem => hmem) (fun c _ _ => (howned c).mpr) (fun c _ => hasked c)
      (fun c _ (hfree : s.Free c) =>
        (⟨hgiven ▸ hfree.1, mt (howned c).mp hfree.2⟩ : (s.withUser i user' [.destroy user.chanUid] [] []).Free c))
    refine hmono.snoc ?_ nofun nofun
    rintro uid heq
    obtain rfl := McuCommand.destroy.inj heq
    rw [huid]
    exact ⟨h.not_asked hu hchannel hdestroying, channel, hfits.kept channel hchannel hdestroying, rfl, i, user',
      Function.update_self .., hchannel'.trans hchannel, by rw [hqueues, hempty], hdestroying'⟩

theorem RoutingInv.userStep (h : s.RoutingInv) (hm : s.RoutingMeets (.user i op))
    (hs : s.step (.user i op) = some s') : s'.RoutingInv := by
  obtain ⟨user, user', commands, hu, hstep, rfl⟩ := step_user_eq_some hs
  have hfits := h.fits hu
  cases op with
  | createRequest sent =>
    cases sent with
    | true =>
      obtain ⟨⟨hidle, -, hbad⟩, rfl, rfl⟩ := ChannelUser.createRequest_of_step hstep
      have hnone : user.channel = none := by
        rcases hfits.chan with ⟨hnone, -⟩ | ⟨channel, -, huid, hne, -⟩
        · exact hnone
        · exact absurd (huid.symm.trans hbad) hne
      refine h.sameChannel hu { hfits with waiting := fun _ => hnone } rfl rfl rfl rfl rfl ?_ nofun
      apply h.commands.append
      exact fun command hmem => Or.inl ⟨i, List.mem_singleton.mp hmem⟩
    | false => exact h.keptStep hu hstep rfl
  | createFeedback =>
    obtain ⟨mail, mails, hwaiting, hqueue, rfl, ⟨hbad, rfl⟩ | ⟨hne, rfl⟩⟩ := ChannelUser.createFeedback_of_step hstep
    · have hnone : mail.channel = none := by
        rcases hfits.answers mail (hqueue ▸ List.mem_cons_self) with ⟨-, hnone⟩ | ⟨channel, -, huid, hne⟩
        · exact hnone
        · exact absurd (huid.symm.trans hbad) hne
      have htail := hfits.withCreate fun mail' hmail' => hfits.answers mail' (hqueue ▸ List.mem_cons_of_mem _ hmail')
      refine h.sameChannel hu { htail with waiting := nofun } rfl rfl rfl ?_ ?_ h.commands_nil nofun
      · exact ChannelUser.setQueue_of_ne (by decide : UserMail.destroy ≠ .create) mails
      · show ((user.setQueue .create mails).queues .create).filterMap _ = _
        rw [ChannelUser.setQueue_self, hqueue, List.filterMap_cons_none hnone]
    · have hnone := hfits.waiting hwaiting
      have hdestroying : user.destroying = false := Bool.eq_false_iff.mpr fun hd => hfits.destroying hd hnone
      rcases hfits.answers mail (hqueue ▸ List.mem_cons_self) with ⟨hbad, -⟩ | ⟨channel, hchannel, huid, hgood⟩
      · exact absurd hbad hne
      · exact h.takeChannel hu hnone hdestroying hqueue hchannel huid hgood
          (hm user hu mail (by rw [hqueue]; rfl) hne) rfl
  | createGiveUp =>
    obtain ⟨-, rfl, rfl⟩ := ChannelUser.createGiveUp_of_step hstep
    exact h.sameChannel hu { hfits with waiting := nofun } rfl rfl rfl rfl rfl h.commands_nil nofun
  | destroySend sent =>
    cases sent with
    | true =>
      obtain ⟨⟨hidle, hdestroying⟩, huser, rfl⟩ := ChannelUser.destroySend_of_step hstep
      exact h.destroySend hu (hm user hu) hidle hdestroying huser
    | false => exact h.keptStep hu hstep rfl
  | destroyFeedback =>
    obtain ⟨mail, mails, -, hqueue, rfl, huser⟩ := ChannelUser.destroyFeedback_of_step hstep
    exact h.giveUpChannel hu hqueue (hm user hu) huser
  | destroyGiveUp => exact hm.elim
  | encode sent =>
    cases sent with
    | true =>
      obtain ⟨⟨hdestroying, hcreated⟩, rfl, rfl⟩ := ChannelUser.encode_of_step hstep
      obtain ⟨channel, hchannel, huid⟩ := hfits.created hcreated
      refine h.sameChannel hu hfits rfl rfl rfl rfl rfl (h.commands.snoc nofun nofun ?_) nofun
      rintro uid heq
      obtain rfl := McuCommand.encode.inj heq
      refine ⟨?_, channel, hfits.kept channel hchannel hdestroying, huid.symm, i, _, hu, hchannel⟩
      rw [huid]
      exact h.not_asked hu hchannel hdestroying
    | false => exact h.keptStep hu hstep rfl
  | waitForStatus =>
    obtain ⟨mail, mails, -, hqueue, rfl, rfl⟩ := ChannelUser.waitForStatus_of_step hstep
    have hother : ∀ queue, queue ≠ .status → (user.setQueue .status mails).queues queue = user.queues queue :=
      fun queue hne => ChannelUser.setQueue_of_ne hne mails
    refine h.sameChannel hu (hfits.withStatus fun mail' hmail' => ?_) rfl rfl rfl (hother _ UserMail.noConfusion)
      (congrArg _ (hother _ UserMail.noConfusion)) h.commands_nil (fun handed hmem => ?_)
    · exact hfits.status mail' (hqueue ▸ List.mem_cons_of_mem _ hmail')
    · unfold returnedBy at hmem
      rw [hqueue] at hmem
      obtain rfl := List.mem_singleton.mp hmem
      exact hfits.status mail (hqueue ▸ List.mem_cons_self)
  | createResume => exact h.keptStep hu hstep rfl
  | allocateBuffers int rec => exact h.keptStep hu hstep rfl
  | sendIntermediateBuffers sent => exact h.keptStep hu hstep rfl
  | sendReferenceBuffers sent => exact h.keptStep hu hstep rfl
  | destroyCall => exact h.keptStep hu hstep rfl

/-! ## Opening and closing -/

theorem RoutingInv.openDevice (h : s.RoutingInv) (hs : s.step .openDevice = some s') : s'.RoutingInv := by
  obtain ⟨i, hfind, rfl⟩ := Option.map_eq_some_iff.mp hs
  have hfree : (s.users i).isNone = true := by simpa using List.find?_some hfind
  have hnone : s.users i = none := Option.isNone_iff_eq_none.mp hfree
  have hlt : i < s.maxUsersNb := List.mem_range.mp (List.mem_of_find?_eq_some hfind)
  have hgiven : ChannelSlots.given (Function.update s.users i (some .init)) s.maxUsersNb s.toCpu = s.given := by
    apply given_update_eq
    rw [hnone]
    rfl
  have hback : ∀ c, Owned (Function.update s.users i (some .init)) c → Owned s.users c :=
    fun c ho => ho.of_update fun hc => absurd hc (Option.some_ne_none c).symm
  refine { h with
    users := forall_update ⟨hlt, ChannelUser.fits_init⟩ h.users
    single := h.single_update (Or.inr (Or.inl rfl))
    givenOnce := ?_
    givenFree := fun c hc => (h.givenFree c (hgiven ▸ hc)).imp_right (mt (hback c))
    commands := ?_
    records := ⟨h.records.queued, h.records.returned⟩
    tasks := fun c hc => (h.tasks c hc).imp_right fun ho => ho.enter hnone
    mails := h.mails.mono (fun _ _ c _ _ hdead ha => ⟨hdead, ha.enter hnone⟩) (fun _ _ c _ _ hw => hw.enter hnone) }
  · unfold given
    rw [hgiven]
    exact h.givenOnce
  · apply h.commands.mono (fun _ hmem => hmem) (fun c _ _ ho => ho.enter hnone) (fun c _ ha => ha.enter hnone)
    rintro c - ⟨hnot, hno⟩
    exact ⟨fun hc => hnot (hgiven ▸ hc), mt (hback c) hno⟩

theorem RoutingInv.not_quiet (h : s.RoutingInv) (hlive : channel ∈ s.live) (hfree : ¬ s.Free channel) :
    .quietDestroy channel.uid ∉ s.toMcu := by
  intro hmem
  rcases h.commands.quiets channel.uid hmem with hbad | ⟨channel', hlive', huid, hfree'⟩
  · exact (h.live channel hlive).1 hbad
  · exact hfree (h.liveOnce channel' hlive' channel hlive huid ▸ hfree')

theorem given_leave (s : ChannelState) (i : ℕ) :
    (ChannelSlots.given (Function.update s.users i none) s.maxUsersNb s.toCpu).Sublist s.given :=
  given_sublist (List.nil_sublist _) (List.Sublist.refl _)

/-- A user that is not waiting for anything leaves its slot. -/
theorem RoutingInv.leave (h : s.RoutingInv) (hu : s.users i = some user) (hdestroying : user.destroying = false)
    (hsilent : ∀ channel, user.channel = some channel → s.Silent channel) :
    RoutingInv { s with users := Function.update s.users i none } := by
  have hgiven := s.given_leave i
  refine { h with
    users := fun j u hj => h.users j u (users_of_leave hj).2
    single := fun j u hj k u' hk => h.single j u (users_of_leave hj).2 k u' (users_of_leave hk).2
    givenOnce := hgiven.nodup h.givenOnce
    givenFree := fun c hc => (h.givenFree c (hgiven.subset hc)).imp_right (mt Has.of_leave)
    commands := ?_, tasks := ?_, mails := ?_
    records := ⟨h.records.queued, h.records.returned⟩ }
  · apply h.commands.mono (fun _ hmem => hmem)
    · exact fun c _ hmem ho => ho.leave hu fun hc => (hsilent c hc).1 hmem
    · exact fun c _ ha => ha.leave hu fun hc => Bool.false_ne_true (hdestroying.symm.trans hc.2.2)
    · exact fun c _ hfree => ⟨fun hc => hfree.1 (hgiven.subset hc), mt Has.of_leave hfree.2⟩
  · exact fun c hc => (h.tasks c hc).imp_right fun ho => ho.leave hu fun hchannel => (hsilent c hchannel).2.1 hc
  · apply h.mails.mono
    · exact fun _ _ c _ _ hdead ha => ⟨hdead, ha.leave hu fun hc => Bool.false_ne_true (hdestroying.symm.trans hc.2.2)⟩
    · exact fun mail hmail c _ hc hw => hw.leave hu fun hchannel => (hsilent c hchannel.1).2.2 mail hmail hc

theorem RoutingInv.release {sent : Bool} (h : s.RoutingInv) (hm : s.RoutingMeets (.release i sent))
    (hs : s.step (.release i sent) = some s') : s'.RoutingInv := by
  obtain ⟨user, hu, hs⟩ := Option.bind_eq_some_iff.mp hs
  obtain ⟨⟨-, -, hdestroying⟩, hs⟩ := Option.ite_none_right_eq_some.mp hs
  obtain rfl := Option.some.inj hs
  have hleave := h.leave hu hdestroying (hm user hu)
  split
  · next hsent =>
    obtain ⟨channel, hchannel, huid⟩ := (h.fits hu).created hsent.1
    have hlive := (h.fits hu).kept channel hchannel hdestroying
    have howned : Owned s.users channel := ⟨i, user, hu, hchannel⟩
    have hfree : Free { s with users := Function.update s.users i none } channel := by
      refine ⟨fun hc => ?_, ?_⟩
      · exact (h.givenFree channel ((s.given_leave i).subset hc)).2 howned
      · rintro ⟨j, u, hj, hc⟩
        exact (users_of_leave hj).1 (h.same_user (users_of_leave hj).2 hu hc hchannel)
    refine { hleave with
      commands := hleave.commands.snoc nofun ?_ nofun
      records := ⟨h.records.queued, h.records.returned⟩ }
    intro uid heq
    obtain rfl := McuCommand.quietDestroy.inj heq
    rw [huid]
    exact Or.inr ⟨h.not_quiet hlive fun hf => hf.2 howned, channel, hlive, rfl, hfree⟩
  · exact hleave

/-! ## The mails -/

theorem RoutingInv.popMail (h : s.RoutingInv) (htoCpu : s.toCpu = mail :: rest) :
    RoutingInv { s with toCpu := rest } := by
  have hgiven : (ChannelSlots.given s.users s.maxUsersNb rest).Sublist s.given := by
    apply List.Sublist.append_right
    apply List.Sublist.filterMap
    rw [htoCpu]
    exact List.sublist_cons_self mail rest
  refine { h with
    answers := fun mail' hmail' => h.answers mail' (htoCpu ▸ List.mem_cons_of_mem _ hmail')
    givenOnce := hgiven.nodup h.givenOnce
    givenFree := fun c hc => h.givenFree c (hgiven.subset hc)
    commands := ?_
    mails := (htoCpu ▸ h.mails).tail
    records := ⟨h.records.queued, h.records.returned⟩ }
  apply h.commands.mono (fun _ hmem => hmem) (fun _ _ _ => id) (fun _ _ => id)
  exact fun c _ hfree => ⟨fun hc => hfree.1 (hgiven.subset hc), hfree.2⟩

theorem RoutingInv.withQueued {queued : List Handed} (h : s.RoutingInv) (hq : ∀ handed ∈ queued, ∀ channel,
    handed.mail.msg ≠ .createChannel → handed.mail.channel = some channel → handed.owned = some channel) :
    RoutingInv { s with queued } := { h with records := ⟨hq, h.records.returned⟩ }

theorem RoutingInv.userFromChanUid_eq (h : s.RoutingInv) (hu : s.users i = some user)
    (hchannel : user.channel = some channel) : s.userFromChanUid channel.uid = some i := by
  obtain ⟨huid, hne, -⟩ := (h.fits hu).uid hchannel
  cases hfind : s.userFromChanUid channel.uid with
  | none => exact absurd huid (h.of_userFromChanUid hfind i user hu)
  | some j =>
    have hfound : s.hasChannelId channel.uid j = true := List.find?_some hfind
    unfold hasChannelId at hfound
    cases hj : s.users j with
    | none =>
      rw [hj] at hfound
      exact absurd hfound Bool.false_ne_true
    | some u =>
      rw [hj] at hfound
      have hsame : u.chanUid = channel.uid := of_decide_eq_true hfound
      exact congrArg some (h.single i user hu j u hj (huid.symm ▸ hne) (huid.trans hsame.symm)).symm

variable {done : Bool}

/-- The status of a frame goes to the user of the channel. -/
theorem RoutingInv.handleStatus (h : s.RoutingInv) (htoCpu : s.toCpu = mail :: rest)
    (hmsg : mail.msg = .encodeOneFrm) (hchannel : mail.channel = some channel) (huid : mail.word0 = channel.uid)
    (hu : s.users i = some user) (hown : user.channel = some channel) :
    (handleMail { s with toCpu := rest } mail done).RoutingInv := by
  have hretrieve : retrieveUser { s with toCpu := rest } mail = some i := by
    unfold retrieveUser
    rw [hmsg, huid]
    exact h.userFromChanUid_eq hu hown
  rw [handleMail_some (by rw [hmsg]; exact AlMcuMsg.noConfusion) hretrieve hu, ChannelUser.deliver_eq, hmsg]
  have hfits : (user.setQueue .status (if done then user.queues .status ++ [mail] else
      (user.queues .status).getLast?.toList)).Fits s.live s.serial := by
    apply (h.fits hu).withStatus
    intro mail' hmail'
    cases done with
    | true =>
      rcases List.mem_append.mp hmail' with hmail' | hmail'
      · exact (h.fits hu).status mail' hmail'
      · obtain rfl := List.mem_singleton.mp hmail'
        rw [hown, hchannel]
        exact ⟨Option.some_ne_none channel, rfl⟩
    | false => exact (h.fits hu).status mail' (List.mem_of_getLast? (Option.mem_toList.mp hmail'))
  have hother : ∀ queue mails, queue ≠ .status → (user.setQueue .status mails).queues queue = user.queues queue :=
    fun queue mails hne => ChannelUser.setQueue_of_ne hne mails
  have hpop := h.popMail htoCpu
  have hstored : (withUser { s with toCpu := rest } i _ [] [] []).RoutingInv :=
    hpop.sameChannel hu hfits rfl rfl rfl (hother _ _ UserMail.noConfusion)
      (congrArg _ (hother _ _ UserMail.noConfusion)) hpop.commands_nil nofun
  simp only [withUser, List.append_nil] at hstored
  apply hstored.withQueued
  cases done with
  | true =>
    intro handed hmem
    rcases List.mem_append.mp hmem with hmem | hmem
    · exact h.records.queued handed hmem
    · obtain rfl := List.mem_singleton.mp hmem
      exact fun c _ hc => hown.trans (hchannel.symm.trans hc)
  | false => exact h.records.queued

/-- The answer to a destruction goes to the user that waits for it. -/
theorem RoutingInv.deliverDestroy (h : s.RoutingInv) (htoCpu : s.toCpu = mail :: rest)
    (hmsg : mail.msg = .destroyChannel) (hchannel : mail.channel = some channel) (hdead : channel ∉ s.live)
    (hu : s.users i = some user) (hown : user.channel = some channel) (hdestroying : user.destroying = true)
    (hmails : mails.length ≤ 1) :
    RoutingInv { s with toCpu := rest, users := Function.update s.users i (some (user.setQueue .destroy mails)) } := by
  have hpop := h.popMail htoCpu
  have hcreate : (user.setQueue .destroy mails).queues .create = user.queues .create :=
    ChannelUser.setQueue_of_ne UserMail.noConfusion mails
  have hgiven : ChannelSlots.given (Function.update s.users i (some (user.setQueue .destroy mails))) s.maxUsersNb rest =
      ChannelSlots.given s.users s.maxUsersNb rest := by
    apply given_update_eq
    rw [hu]
    exact congrArg (List.filterMap ChannelMail.channel) hcreate
  have hpending : ∀ c ∈ ChannelSlots.given (Function.update s.users i (some (user.setQueue .destroy mails)))
      s.maxUsersNb rest, c ∈ ChannelSlots.given s.users s.maxUsersNb rest := fun c hc => hgiven ▸ hc
  have howned : ∀ c, Owned (Function.update s.users i (some (user.setQueue .destroy mails))) c ↔ Owned s.users c :=
    fun c => has_update_iff hu Iff.rfl
  have hsame : ∀ c, c ≠ channel → user.channel ≠ some c :=
    fun c hc heq => hc (Option.some.inj (heq.symm.trans hown))
  have hasked : ∀ c, c ≠ channel → Asked s.users c →
      Asked (Function.update s.users i (some (user.setQueue .destroy mails))) c :=
    fun c hc ha => ha.update hu fun hP => absurd hP.1 (hsame c hc)
  have hworking : ∀ c, c ≠ channel → Working s.users c →
      Working (Function.update s.users i (some (user.setQueue .destroy mails))) c :=
    fun c hc hw => hw.update hu fun hP => absurd hP.1 (hsame c hc)
  -- behind this answer comes no other mail of the channel
  have hbehind : ∀ mail' ∈ rest, ∀ c, mail'.msg ≠ .createChannel → mail'.channel = some c → c ≠ channel := by
    rintro mail' hmail' c hne hc rfl
    have hafter := htoCpu ▸ h.mails.after
    exact (List.pairwise_cons.mp hafter).1 mail' hmail' hmsg hne (hchannel.trans hc.symm)
  have hnew : (user.setQueue .destroy mails).Fits s.live s.serial := by
    apply (h.fits hu).withDestroy hdestroying hmails
    intro c hc _
    obtain rfl := Option.some.inj (hown.symm.trans hc)
    exact hdead
  refine { hpop with
    users := forall_update ⟨(h.users i user hu).1, hnew⟩ h.users
    single := h.single_update (Or.inl ⟨user, hu, rfl⟩)
    givenOnce := ?_
    givenFree := fun c hc => (hpop.givenFree c (hpending c hc)).imp_right (mt (howned c).mp)
    commands := ?_
    tasks := fun c hc => (h.tasks c hc).imp_right (howned c).mpr
    mails := ?_
    records := ⟨h.records.queued, h.records.returned⟩ }
  · unfold given
    rw [hgiven]
    exact hpop.givenOnce
  · apply hpop.commands.mono (fun _ hmem => hmem) (fun c _ _ => (howned c).mpr)
    · exact fun c hlive => hasked c fun heq => hdead (heq ▸ hlive)
    · exact fun c _ hfree => ⟨fun hc => hfree.1 (hpending c hc), mt (howned c).mp hfree.2⟩
  · apply hpop.mails.mono
    · intro mail' hmail' c hmsg' hc hcdead ha
      exact ⟨hcdead, hasked c (hbehind mail' hmail' c (by rw [hmsg']; exact AlMcuMsg.noConfusion) hc) ha⟩
    · intro mail' hmail' c hmsg' hc hw
      exact hworking c (hbehind mail' hmail' c (by rw [hmsg']; exact AlMcuMsg.noConfusion) hc) hw

theorem RoutingInv.handleDestroy (h : s.RoutingInv) (htoCpu : s.toCpu = mail :: rest)
    (hmsg : mail.msg = .destroyChannel) (hchannel : mail.channel = some channel) (huid : mail.word0 = channel.uid)
    (hdead : channel ∉ s.live) (hu : s.users i = some user) (hown : user.channel = some channel)
    (hqueue : user.queues .destroy = []) (hdestroying : user.destroying = true) :
    (handleMail { s with toCpu := rest } mail done).RoutingInv := by
  have hretrieve : retrieveUser { s with toCpu := rest } mail = some i := by
    unfold retrieveUser
    rw [hmsg, huid]
    exact h.userFromChanUid_eq hu hown
  rw [handleMail_some (by rw [hmsg]; exact AlMcuMsg.noConfusion) hretrieve hu, ChannelUser.deliver_eq, hmsg]
  have hlength : (if done = true then user.queues .destroy ++ [mail] else
      (user.queues .destroy).getLast?.toList).length ≤ 1 := by
    rw [hqueue]
    cases done <;> simp
  apply (h.deliverDestroy htoCpu hmsg hchannel hdead hu hown hdestroying hlength).withQueued
  cases done with
  | true =>
    intro handed hmem
    rcases List.mem_append.mp hmem with hmem | hmem
    · exact h.records.queued handed hmem
    · obtain rfl := List.mem_singleton.mp hmem
      exact fun c _ hc => hown.trans (hchannel.symm.trans hc)
  | false => exact h.records.queued

/-! ## Answers to creations -/

theorem filterMap_answerChannel (hmsg : mail.msg = .createChannel) (mails : List ChannelMail) :
    (mail :: mails).filterMap answerChannel = mail.channel.toList ++ mails.filterMap answerChannel := by
  have hanswer : answerChannel mail = mail.channel := if_pos hmsg
  cases hchannel : mail.channel with
  | none => exact List.filterMap_cons_none (hanswer.trans hchannel)
  | some channel => exact List.filterMap_cons_some (hanswer.trans hchannel)

/-- A channel that goes from the mailbox to a queue is still given once. -/
theorem given_deliver (hlt : i < s.maxUsersNb) (hu : s.users i = some user) (htoCpu : s.toCpu = mail :: rest)
    (hmsg : mail.msg = .createChannel) :
    (ChannelSlots.given (Function.update s.users i (some (user.setQueue .create (user.queues .create ++ [mail]))))
      s.maxUsersNb rest).Perm s.given := by
  obtain ⟨others, hperm⟩ := given_perm s.users hlt
  have hbefore := hperm (some user) s.toCpu
  rw [← hu, Function.update_eq_self, hu, htoCpu, filterMap_answerChannel hmsg] at hbefore
  have hqueue : queueChannels (some (user.setQueue .create (user.queues .create ++ [mail]))) =
      queueChannels (some user) ++ mail.channel.toList := by
    show ((user.setQueue .create _).queues .create).filterMap _ = _
    rw [ChannelUser.setQueue_self, List.filterMap_append]
    apply congrArg (_ ++ ·)
    cases hchannel : mail.channel with
    | none => exact List.filterMap_cons_none hchannel
    | some channel => exact List.filterMap_cons_some hchannel
  unfold given
  rw [htoCpu]
  apply (hperm _ rest).trans ((_ : List.Perm _ _).trans hbefore.symm)
  rw [hqueue, List.append_assoc, List.append_assoc]
  calc rest.filterMap answerChannel ++ (queueChannels (some user) ++ (mail.channel.toList ++ others))
      = (rest.filterMap answerChannel ++ queueChannels (some user)) ++ (mail.channel.toList ++ others) := by
        rw [List.append_assoc]
    _ |>.Perm (mail.channel.toList ++ ((rest.filterMap answerChannel ++ queueChannels (some user)) ++ others)) :=
        List.perm_append_comm_assoc _ _ _
    _ = mail.channel.toList ++ (rest.filterMap answerChannel ++ (queueChannels (some user) ++ others)) := by
        rw [List.append_assoc]

/-- What a user reads of its creations changes nothing else. -/
theorem RoutingInv.deliverCreate (h : s.RoutingInv) (htoCpu : s.toCpu = mail :: rest)
    (hu : s.users i = some user) (hanswers : ∀ mail ∈ mails, IsAnswer mail)
    (honce : (ChannelSlots.given (Function.update s.users i (some (user.setQueue .create mails))) s.maxUsersNb rest).Nodup)
    (hsubset : ∀ c ∈ ChannelSlots.given (Function.update s.users i (some (user.setQueue .create mails))) s.maxUsersNb rest,
      c ∈ s.given) :
    RoutingInv { s with toCpu := rest, users := Function.update s.users i (some (user.setQueue .create mails)) } := by
  have hdestroy : (user.setQueue .create mails).queues .destroy = user.queues .destroy :=
    ChannelUser.setQueue_of_ne UserMail.noConfusion mails
  have howned : ∀ c, Owned (Function.update s.users i (some (user.setQueue .create mails))) c ↔ Owned s.users c :=
    fun c => has_update_iff hu Iff.rfl
  have hworking : ∀ c, Working (Function.update s.users i (some (user.setQueue .create mails))) c ↔ Working s.users c :=
    fun c => has_update_iff hu (by rw [hdestroy]; rfl)
  have hasked : ∀ c, Asked (Function.update s.users i (some (user.setQueue .create mails))) c ↔ Asked s.users c :=
    fun c => has_update_iff hu (by rw [hdestroy]; rfl)
  refine { h.popMail htoCpu with
    users := forall_update ⟨(h.users i user hu).1, (h.fits hu).withCreate hanswers⟩ h.users
    single := h.single_update (Or.inl ⟨user, hu, rfl⟩)
    givenOnce := honce
    givenFree := fun c hc => (h.givenFree c (hsubset c hc)).imp_right (mt (howned c).mp)
    commands := ?_
    tasks := fun c hc => (h.tasks c hc).imp_right (howned c).mpr
    mails := (h.popMail htoCpu).mails.mono (fun _ _ c _ _ hdead ha => ⟨hdead, (hasked c).mpr ha⟩)
      (fun _ _ c _ _ => (hworking c).mpr)
    records := ⟨h.records.queued, h.records.returned⟩ }
  apply h.commands.mono (fun _ hmem => hmem) (fun c _ _ => (howned c).mpr) (fun c _ => (hasked c).mpr)
  exact fun c _ hfree => ⟨fun hc => hfree.1 (hsubset c hc), mt (howned c).mp hfree.2⟩

theorem getLast_sublist (mails : List ChannelMail) : mails.getLast?.toList.Sublist mails := by
  cases hlast : mails.getLast? with
  | none => exact List.nil_sublist mails
  | some mail => exact List.singleton_sublist.mpr (List.mem_of_getLast? hlast)

theorem given_cons (hchannel : mail.channel = some channel) (htoCpu : s.toCpu = mail :: rest)
    (hmsg : mail.msg = .createChannel) :
    s.given = channel :: ChannelSlots.given s.users s.maxUsersNb rest := by
  unfold given ChannelSlots.given
  rw [htoCpu, filterMap_answerChannel hmsg, hchannel]
  rfl

/-- An answer goes to the user that asked, or its channel is destroyed quietly. -/
theorem RoutingInv.handleCreate (h : s.RoutingInv) (htoCpu : s.toCpu = mail :: rest)
    (hmsg : mail.msg = .createChannel) : (handleMail { s with toCpu := rest } mail done).RoutingInv := by
  have htrace : mail.msg ≠ .trace := by
    rw [hmsg]
    exact AlMcuMsg.noConfusion
  have hretrieve : retrieveUser { s with toCpu := rest } mail = s.userFromUid mail.word1 := by
    unfold retrieveUser
    rw [hmsg]
    rfl
  have hanswer := h.answers mail (htoCpu ▸ List.mem_cons_self) hmsg
  cases hfind : s.userFromUid mail.word1 with
  | none =>
    unfold handleMail
    rw [if_neg htrace, hretrieve, hfind]
    dsimp only
    split
    · have hpop := h.popMail htoCpu
      refine { hpop with
        commands := hpop.commands.snoc nofun ?_ nofun
        records := ⟨h.records.queued, h.records.returned⟩ }
      intro uid heq
      obtain rfl := McuCommand.quietDestroy.inj heq
      rcases hanswer with ⟨hbad, -⟩ | ⟨channel, hchannel, huid, -⟩
      · exact Or.inl hbad
      · have hgiven := given_cons hchannel htoCpu hmsg
        have hmem : channel ∈ s.given := hgiven ▸ List.mem_cons_self
        obtain ⟨hlive, hunowned⟩ := h.givenFree channel hmem
        rw [huid]
        refine Or.inr ⟨h.not_quiet hlive fun hf => hf.1 hmem, channel, hlive, rfl, ?_, hunowned⟩
        exact (List.nodup_cons.mp (hgiven ▸ h.givenOnce)).1
    · exact h.popMail htoCpu
  | some i =>
    obtain ⟨⟨hlt, hsome⟩, heq⟩ := Option.ite_none_right_eq_some.mp hfind
    obtain rfl := Option.some.inj heq
    obtain ⟨user, hu⟩ := Option.isSome_iff_exists.mp hsome
    rw [handleMail_some htrace (hretrieve.trans hfind) hu, ChannelUser.deliver_eq, hmsg]
    have hqueued : ∀ handed ∈ (if done then s.queued ++ [⟨mail, user.channel⟩] else s.queued), ∀ channel,
        handed.mail.msg ≠ .createChannel → handed.mail.channel = some channel → handed.owned = some channel := by
      cases done with
      | true =>
        intro handed hmem
        rcases List.mem_append.mp hmem with hmem | hmem
        · exact h.records.queued handed hmem
        · obtain rfl := List.mem_singleton.mp hmem
          exact fun c hne => absurd hmsg hne
      | false => exact h.records.queued
    suffices hstored : RoutingInv { s with
        toCpu := rest
        users := Function.update s.users mail.word1 (some (user.setQueue .create (if done then
          user.queues .create ++ [mail] else (user.queues .create).getLast?.toList))) } from hstored.withQueued hqueued
    cases done with
    | true =>
      have hperm := given_deliver hlt hu htoCpu hmsg
      refine h.deliverCreate htoCpu hu ?_ (hperm.nodup_iff.mpr h.givenOnce) (fun c hc => hperm.subset hc)
      intro mail' hmail'
      rcases List.mem_append.mp hmail' with hmail' | hmail'
      · exact (h.fits hu).answers mail' hmail'
      · exact List.mem_singleton.mp hmail' ▸ hanswer
    | false =>
      have hslot : (queueChannels (some (user.setQueue .create (user.queues .create).getLast?.toList))).Sublist
          (queueChannels (s.users mail.word1)) := by
        rw [hu]
        show (((user.setQueue .create _).queues .create).filterMap _).Sublist ((user.queues .create).filterMap _)
        rw [ChannelUser.setQueue_self]
        exact (getLast_sublist _).filterMap _
      have hsub : (ChannelSlots.given _ s.maxUsersNb rest).Sublist s.given :=
        given_sublist hslot (htoCpu ▸ List.sublist_cons_self mail rest)
      refine h.deliverCreate htoCpu hu ?_ (hsub.nodup h.givenOnce) (fun c hc => hsub.subset hc)
      exact fun mail' hmail' => (h.fits hu).answers mail' ((getLast_sublist _).subset hmail')

theorem RoutingInv.readMail (h : s.RoutingInv) (hs : s.step (.readMail done) = some s') :
    s'.RoutingInv := by
  unfold ChannelState.step at hs
  dsimp only at hs
  split at hs
  · exact absurd hs (Option.some_ne_none _).symm
  · next mail rest htoCpu =>
    obtain rfl := Option.some.inj hs
    rcases h.mails.sound mail (htoCpu ▸ List.mem_cons_self) with hmsg | ⟨channel, hchannel, huid, hcases⟩
    · exact h.handleCreate htoCpu hmsg
    · rcases hcases with ⟨hmsg, hdead, i, user, hu, hown, hqueue, hdestroying⟩ | ⟨hmsg, i, user, hu, hown, -⟩
      · exact h.handleDestroy htoCpu hmsg hchannel huid hdead hu hown hqueue hdestroying
      · exact h.handleStatus htoCpu hmsg hchannel huid hu hown

/-! ## The MCU -/

theorem RoutingInv.serial_of_owned (h : s.RoutingInv) (ho : Owned s.users channel) : channel.serial < s.serial := by
  obtain ⟨i, user, hu, hchannel⟩ := ho
  exact ((h.fits hu).uid hchannel).2.2

/-- A creation is answered, with a new channel or with none. -/
theorem RoutingInv.answer {live : List Channel} {commands : List McuCommand} {serial userUid : ℕ} (h : s.RoutingInv)
    (htoMcu : s.toMcu = .create userUid :: commands) (hmsg : mail.msg = .createChannel) (hanswer : IsAnswer mail)
    (hserial : s.serial ≤ serial)
    (hnew : ∀ channel, mail.channel = some channel → channel ∈ live ∧ s.serial ≤ channel.serial ∧
      channel.serial < serial ∧ ∀ channel' ∈ s.live, channel'.uid ≠ channel.uid)
    (hlive : ∀ channel ∈ live, channel ∈ s.live ∨ mail.channel = some channel)
    (hsub : ∀ channel ∈ s.live, channel ∈ live) :
    RoutingInv { s with toMcu := commands, toCpu := s.toCpu ++ [mail], live, serial } := by
  have hold : ∀ channel, channel.serial < s.serial → channel ∈ live → channel ∈ s.live := by
    intro channel hlt hmem
    exact (hlive channel hmem).resolve_right fun hc => absurd hlt (Nat.not_lt.mpr (hnew channel hc).2.1)
  have hperm : (ChannelSlots.given s.users s.maxUsersNb (s.toCpu ++ [mail])).Perm (mail.channel.toList ++ s.given) := by
    unfold given ChannelSlots.given
    rw [List.filterMap_append, filterMap_answerChannel hmsg, List.filterMap_nil, List.append_nil, List.append_assoc]
    exact List.perm_append_comm_assoc _ _ _
  have hgiven : ∀ c ∈ ChannelSlots.given s.users s.maxUsersNb (s.toCpu ++ [mail]), mail.channel = some c ∨ c ∈ s.given := by
    intro c hc
    exact (List.mem_append.mp (hperm.subset hc)).imp_left Option.mem_toList.mp
  refine ⟨fun i user hu => ?_, h.single, fun c hc => ?_, fun c hc c' hc' huid => ?_, fun mail' hmail' hmsg' => ?_, ?_,
    fun c hc => ?_, ?_, fun c hc => ?_, ?_, ⟨h.records.queued, h.records.returned⟩⟩
  · refine ⟨(h.users i user hu).1, (h.fits hu).mono hserial (fun c _ _ => hsub c) fun c hc hdead hmem => ?_⟩
    exact hdead (hold c ((h.fits hu).uid hc).2.2 hmem)
  · rcases hlive c hc with hc | hc
    · exact ⟨(h.live c hc).1, (h.live c hc).2.trans_le hserial⟩
    · refine ⟨?_, (hnew c hc).2.2.1⟩
      rcases hanswer with ⟨-, hnone⟩ | ⟨channel, hchannel, -, hne⟩
      · exact absurd (hnone.symm.trans hc) (Option.some_ne_none c).symm
      · obtain rfl := Option.some.inj (hchannel.symm.trans hc)
        exact hne
  · rcases hlive c hc with hc | hc <;> rcases hlive c' hc' with hc' | hc'
    · exact h.liveOnce c hc c' hc' huid
    · exact absurd huid ((hnew c' hc').2.2.2 c hc)
    · exact absurd huid.symm ((hnew c hc).2.2.2 c' hc')
    · exact Option.some.inj (hc.symm.trans hc')
  · rcases List.mem_append.mp hmail' with hmail' | hmail'
    · exact h.answers mail' hmail' hmsg'
    · exact List.mem_singleton.mp hmail' ▸ hanswer
  · apply hperm.nodup_iff.mpr
    apply List.nodup_append.mpr
    refine ⟨?_, h.givenOnce, ?_⟩
    · cases mail.channel with
      | none => exact List.nodup_nil
      | some c => exact List.nodup_singleton c
    · rintro c hc c' hc' rfl
      exact absurd (h.live c (h.givenFree c hc').1).2 (Nat.not_lt.mpr (hnew c (Option.mem_toList.mp hc)).2.1)
  · rcases hgiven c hc with hc | hc
    · exact ⟨(hnew c hc).1, fun ho => absurd (h.serial_of_owned ho) (Nat.not_lt.mpr (hnew c hc).2.1)⟩
    · exact (h.givenFree c hc).imp_left (hsub c)
  · apply (htoMcu ▸ h.commands).tail.mono hsub (fun _ _ _ => id) (fun _ _ => id)
    refine fun c hc hfree => ⟨fun hmem => ?_, hfree.2⟩
    rcases hgiven c hmem with hgive | hgive
    · exact absurd (h.live c hc).2 (Nat.not_lt.mpr (hnew c hgive).2.1)
    · exact hfree.1 hgive
  · exact (h.tasks c hc).imp_left (hsub c)
  · refine MailsFit.snoc ?_ (Or.inl hmsg) fun hne => absurd hmsg hne
    apply h.mails.mono
    · exact fun _ _ c _ _ hdead ha => ⟨fun hmem => hdead (hold c (h.serial_of_owned ha.working.owned) hmem), ha⟩
    · exact fun _ _ _ _ _ => id

variable {command : McuCommand}

/-- The channel with a uid is destroyed, which no user has but one that asked for it. -/
theorem RoutingInv.destroyed {commands : List McuCommand} (h : s.RoutingInv)
    (htoMcu : s.toMcu = command :: commands) (hcommand : command = .destroy uid ∨ command = .quietDestroy uid)
    (hkept : ∀ i user channel, s.users i = some user → user.channel = some channel → user.destroying = false →
      channel.uid ≠ uid) (hgiven : ∀ channel ∈ s.given, channel.uid ≠ uid) : RoutingInv { s with
      toMcu := commands
      live := s.live.filter fun channel => channel.uid ≠ uid
      tasks := s.tasks.filter fun channel => channel.uid ≠ uid } := by
  have hstay : ∀ c ∈ s.live, c.uid ≠ uid → c ∈ s.live.filter fun channel => channel.uid ≠ uid :=
    fun c hc hne => List.mem_filter.mpr ⟨hc, decide_eq_true hne⟩
  have hsub : ∀ c ∈ s.live.filter fun channel => channel.uid ≠ uid, c ∈ s.live :=
    fun c hc => (List.mem_filter.mp hc).1
  refine { h with
    users := fun i user hu => ⟨(h.users i user hu).1, (h.fits hu).mono le_rfl ?_ fun c _ hdead hmem => hdead (hsub c hmem)⟩
    live := fun c hc => h.live c (hsub c hc)
    liveOnce := fun c hc c' hc' => h.liveOnce c (hsub c hc) c' (hsub c' hc')
    givenFree := fun c hc => (h.givenFree c hc).imp_left fun hlive => hstay c hlive (hgiven c hc)
    commands := ?_
    tasks := fun c hc => ?_
    mails := h.mails.mono (fun _ _ c _ _ hdead ha => ⟨fun hmem => hdead (hsub c hmem), ha⟩) (fun _ _ _ _ _ => id)
    records := ⟨h.records.queued, h.records.returned⟩ }
  · exact fun c hc hd hlive => hstay c hlive (hkept i user c hu hc hd)
  · exact (htoMcu ▸ h.commands).destroyed hcommand (fun c hc => (h.live c hc).1) h.liveOnce
      (fun c ha => ha.working.owned) (fun c hfree => hfree.2)
  · obtain ⟨hmem, hne⟩ := List.mem_filter.mp hc
    exact (h.tasks c hmem).imp_left fun hlive => hstay c hlive (of_decide_eq_true hne)

theorem RoutingInv.quietDestroyed {commands : List McuCommand} (h : s.RoutingInv)
    (htoMcu : s.toMcu = .quietDestroy uid :: commands) : RoutingInv { s with
      toMcu := commands
      live := s.live.filter fun channel => channel.uid ≠ uid
      tasks := s.tasks.filter fun channel => channel.uid ≠ uid } := by
  have hne : ∀ c ∈ s.live, ¬ s.Free c → c.uid ≠ uid := by
    rintro c hc hfree rfl
    exact h.not_quiet hc hfree (htoMcu ▸ List.mem_cons_self)
  apply h.destroyed htoMcu (Or.inr rfl)
  · intro i user c hu hc hd
    exact hne c ((h.fits hu).kept c hc hd) fun hfree => hfree.2 ⟨i, user, hu, hc⟩
  · exact fun c hc => hne c (h.givenFree c hc).1 fun hfree => hfree.1 hc

theorem find_uid (h : s.RoutingInv) (hlive : channel ∈ s.live) (huid : channel.uid = uid) :
    (s.live.find? fun channel => channel.uid = uid) = some channel := by
  cases hfind : s.live.find? fun channel => channel.uid = uid with
  | none => exact absurd (decide_eq_true huid) (List.find?_eq_none.mp hfind channel hlive)
  | some other =>
    have hother : other.uid = uid := by simpa using List.find?_some hfind
    rw [h.liveOnce other (List.mem_of_find?_eq_some hfind) channel hlive (hother.trans huid.symm)]

/-- A mail about a channel is sent behind everything else. -/
theorem RoutingInv.pushMail (h : s.RoutingInv) (hmsg : mail.msg ≠ .createChannel)
    (hmails : MailsFit (s.toCpu ++ [mail]) s.live (Asked s.users) (Working s.users)) :
    RoutingInv { s with toCpu := s.toCpu ++ [mail] } := by
  have hgiven : ChannelSlots.given s.users s.maxUsersNb (s.toCpu ++ [mail]) = s.given := given_snoc hmsg
  have hpending : ∀ c ∈ ChannelSlots.given s.users s.maxUsersNb (s.toCpu ++ [mail]), c ∈ s.given :=
    fun c hc => hgiven ▸ hc
  refine { h with
    answers := fun mail' hmail' hmsg' => ?_
    givenOnce := ?_
    givenFree := fun c hc => h.givenFree c (hpending c hc)
    commands := ?_
    mails := hmails
    records := ⟨h.records.queued, h.records.returned⟩ }
  · rcases List.mem_append.mp hmail' with hmail' | hmail'
    · exact h.answers mail' hmail' hmsg'
    · exact absurd (List.mem_singleton.mp hmail' ▸ hmsg') hmsg
  · unfold given
    rw [hgiven]
    exact h.givenOnce
  · apply h.commands.mono (fun _ hmem => hmem) (fun _ _ _ => id) (fun _ _ => id)
    exact fun c _ hfree => ⟨fun hc => hfree.1 (hpending c hc), hfree.2⟩

/-- The answer to a destruction is sent when the channel is gone. -/
theorem RoutingInv.loudDestroyed {commands : List McuCommand} (h : s.RoutingInv)
    (htoMcu : s.toMcu = .destroy uid :: commands) : RoutingInv { s with
      toMcu := commands
      toCpu := s.toCpu ++ [⟨.destroyChannel, uid, 0, s.live.find? fun channel => channel.uid = uid⟩]
      live := s.live.filter fun channel => channel.uid ≠ uid
      tasks := s.tasks.filter fun channel => channel.uid ≠ uid } := by
  obtain ⟨channel, hlive, huid, i, user, hu, hown, hqueue, hdestroying⟩ :=
    h.commands.destroys uid (htoMcu ▸ List.mem_cons_self)
  have hasked : Asked s.users channel := ⟨i, user, hu, hown, hqueue, hdestroying⟩
  have hgone := h.destroyed htoMcu (Or.inl rfl) ?_ ?_
  · refine hgone.pushMail AlMcuMsg.noConfusion (hgone.mails.snoc (Or.inr ⟨channel, ?_, huid.symm, Or.inl ⟨rfl, ?_, hasked⟩⟩) ?_)
    · exact find_uid h hlive huid
    · exact fun hmem => of_decide_eq_true (List.mem_filter.mp hmem).2 huid
    · intro _ mail' hmail' hmsg
      show mail'.channel ≠ _
      rw [find_uid h hlive huid]
      exact h.mails.ne_of_live hlive hmail' hmsg
  · rintro j user' c hu' hc hd rfl
    obtain rfl := h.liveOnce c ((h.fits hu').kept c hc hd) channel hlive huid.symm
    obtain rfl := h.same_user hu hu' hown hc
    obtain rfl := Option.some.inj (hu.symm.trans hu')
    exact Bool.false_ne_true (hd.symm.trans hdestroying)
  · rintro c hc rfl
    obtain ⟨hclive, hunowned⟩ := h.givenFree c hc
    obtain rfl := h.liveOnce c hclive channel hlive huid.symm
    exact hunowned ⟨i, user, hu, hown⟩

theorem RoutingInv.popCommand {commands : List McuCommand} (h : s.RoutingInv)
    (htoMcu : s.toMcu = command :: commands) : RoutingInv { s with toMcu := commands } := by
  refine { h with
    commands := ?_
    records := ⟨h.records.queued, h.records.returned⟩ }
  exact (htoMcu ▸ h.commands).tail

theorem RoutingInv.mcuHandle {answer : Option ℕ} (h : s.RoutingInv) (hs : s.step (.mcuHandle answer) = some s') :
    s'.RoutingInv := by
  unfold ChannelState.step ChannelState.mcuHandle at hs
  dsimp only at hs
  split at hs
  · exact absurd hs (Option.some_ne_none _).symm
  · next userUid rest htoMcu =>
    cases answer with
    | none =>
      obtain rfl := Option.some.inj hs
      exact h.answer htoMcu rfl (Or.inl ⟨rfl, rfl⟩) le_rfl nofun (fun c hc => Or.inl hc) (fun c hc => hc)
    | some uid =>
      obtain ⟨hfree, hs⟩ := Option.ite_none_left_eq_some.mp hs
      obtain rfl := Option.some.inj hs
      refine h.answer htoMcu rfl (Or.inr ⟨⟨uid, s.serial⟩, rfl, rfl, fun hbad => hfree (Or.inl hbad)⟩) (Nat.le_succ _)
        (fun c hc => ?_) (fun c hc => ?_) (fun c hc => List.mem_append_left _ hc)
      · obtain rfl := Option.some.inj hc
        refine ⟨List.mem_append_right _ (List.mem_singleton_self _), le_rfl, Nat.lt_succ_self _, fun c' hc' huid => ?_⟩
        exact hfree (Or.inr (List.mem_map.mpr ⟨c', hc', huid⟩))
      · apply (List.mem_append.mp hc).imp_right
        intro hmem
        rw [List.mem_singleton.mp hmem]
  · next uid rest htoMcu =>
    obtain rfl := Option.some.inj hs
    exact h.loudDestroyed htoMcu
  · next uid rest htoMcu =>
    obtain rfl := Option.some.inj hs
    exact h.quietDestroyed htoMcu
  · next uid rest htoMcu =>
    obtain rfl := Option.some.inj hs
    obtain ⟨channel, hlive, huid, ho⟩ := h.commands.encodes uid (htoMcu ▸ List.mem_cons_self)
    refine { h.popCommand htoMcu with
      tasks := fun c hc => ?_
      records := ⟨h.records.queued, h.records.returned⟩ }
    rcases List.mem_append.mp hc with hc | hc
    · exact h.tasks c hc
    · rw [find_uid h hlive huid] at hc
      obtain rfl := List.mem_singleton.mp hc
      exact ⟨hlive, ho⟩
  all_goals
    next uid rest htoMcu =>
    obtain rfl := Option.some.inj hs
    exact h.popCommand htoMcu

theorem RoutingInv.mcuStatus (h : s.RoutingInv) (hs : s.step (.mcuStatus channel) = some s') : s'.RoutingInv := by
  obtain ⟨htask, hs⟩ := Option.ite_none_right_eq_some.mp hs
  obtain rfl := Option.some.inj hs
  obtain ⟨hlive, i, user, hu, hown⟩ := h.tasks channel htask
  have hempty : user.queues .destroy = [] := by
    by_contra hne
    exact (h.fits hu).gone channel hown hne hlive
  have herase : RoutingInv { s with tasks := s.tasks.erase channel } := { h with
    tasks := fun c hc => h.tasks c (List.mem_of_mem_erase hc)
    records := ⟨h.records.queued, h.records.returned⟩ }
  refine herase.pushMail AlMcuMsg.noConfusion (h.mails.snoc ?_ fun _ mail' hmail' hmsg => ?_)
  · exact Or.inr ⟨channel, rfl, rfl, Or.inr ⟨rfl, i, user, hu, hown, hempty⟩⟩
  · exact h.mails.ne_of_live hlive hmail' hmsg

/-! ## Runs -/

theorem RoutingInv.step {op : ChannelOp} (h : s.RoutingInv) (hm : s.RoutingMeets op) (hs : s.step op = some s') :
    s'.RoutingInv := by
  cases op with
  | openDevice => exact h.openDevice hs
  | release i sent => exact h.release hm hs
  | user i op => exact h.userStep hm hs
  | readMail done => exact h.readMail hs
  | mcuHandle answer => exact h.mcuHandle hs
  | mcuStatus channel => exact h.mcuStatus hs

theorem start_routingInv (maxUsersNb : ℕ) : (start maxUsersNb).RoutingInv := by
  have hgiven : (start maxUsersNb).given = [] := List.flatMap_eq_nil_iff.mpr fun _ _ => rfl
  have hfree (i : ℕ) (user : ChannelUser) : (start maxUsersNb).users i ≠ some user := (Option.some_ne_none user).symm
  refine ⟨fun i user hu => absurd hu (hfree i user), fun i user hu => absurd hu (hfree i user), List.forall_mem_nil _,
    List.forall_mem_nil _, List.forall_mem_nil _, ?_, ?_, ?_, List.forall_mem_nil _,
    ⟨List.forall_mem_nil _, List.Pairwise.nil⟩, ⟨List.forall_mem_nil _, List.forall_mem_nil _⟩⟩
  · rw [hgiven]
    exact List.nodup_nil
  · rw [hgiven]
    exact nofun
  · exact ⟨nofun, fun _ => Nat.zero_le _, nofun, fun _ _ => Nat.zero_le _, nofun, List.Pairwise.nil⟩

/-- In every run whose steps meet the conditions the mails are with the users they are for. -/
theorem routed_of_run {maxUsersNb : ℕ} {ops : List ChannelOp}
    (hg : GuardedRuns.Guarded step RoutingMeets ops (start maxUsersNb))
    (hr : GuardedRuns.run step ops (start maxUsersNb) = some s) : s.Routed := by
  have hinv : s.RoutingInv := GuardedRuns.invariant_of_run (fun s op s' h hm hs => h.step hm hs)
    (start_routingInv maxUsersNb) hg hr
  exact hinv.records

/-- A channel is created and encodes a frame, whose status is queued. -/
def encodedOnce (i uid serial : ℕ) : List ChannelOp :=
  [.user i (.createRequest true), .mcuHandle (some uid), .readMail true, .user i .createFeedback,
    .user i (.allocateBuffers true true), .user i (.sendIntermediateBuffers true), .user i (.sendReferenceBuffers true),
    .mcuHandle none, .mcuHandle none, .user i (.encode true), .mcuHandle none, .mcuStatus ⟨uid, serial⟩, .readMail true]

def destroyed (i : ℕ) : List ChannelOp :=
  [.user i .destroyCall, .user i (.destroySend true), .mcuHandle none, .readMail true, .user i .destroyFeedback]

/-- The uid 5 is used again by the other user when the status was read; then a device is closed. -/
def sharedUid : List ChannelOp :=
  [.openDevice, .openDevice] ++ encodedOnce 0 5 0 ++ [.user 0 .waitForStatus] ++ destroyed 0 ++ encodedOnce 1 5 1 ++
    [.release 0 true]

theorem routed_of_run_sharedUid : ∃ s, GuardedRuns.run step sharedUid (start 2) = some s ∧ s.Routed :=
  ⟨_, rfl, routed_of_run (by decide +kernel : GuardedRuns.Guarded step RoutingMeets sharedUid (start 2)) rfl⟩

/-- The status of a channel that was destroyed is returned for the next one. -/
theorem not_routed : ¬ ∀ (maxUsersNb : ℕ) (ops : List ChannelOp) (s : ChannelState),
    GuardedRuns.run step ops (start maxUsersNb) = some s → s.Routed := by
  intro h
  have hrouted := h 1 ([.openDevice] ++ encodedOnce 0 5 0 ++ destroyed 0 ++ [.user 0 (.createRequest true),
    .mcuHandle (some 6), .readMail true, .user 0 .createFeedback, .user 0 .waitForStatus]) _ rfl
  obtain ⟨-, hsame⟩ := hrouted.returned _ List.mem_cons_self
  exact absurd hsame (by decide)

end ChannelState

end VcuCodec
