import Mathlib.Data.List.Flatten
import Mathlib.Data.List.Nodup
import VcuCodec.ChannelCreation

/-!
# Where a channel is

What must hold of the commands and the mails on their way, given which channels are live,
which have a user, and which of these users asked for the destruction; and the channels
that were answered but that no user has taken yet.
-/

namespace VcuCodec

/-! ## The users of channels -/

namespace ChannelSlots

variable {users : ℕ → Option ChannelUser} {i : ℕ} {user user' : ChannelUser} {P Q : ChannelUser → Prop}
  {channel : Channel}

/-- Some user is so. -/
def Has (users : ℕ → Option ChannelUser) (P : ChannelUser → Prop) : Prop := ∃ i user, users i = some user ∧ P user

def Owned (users : ℕ → Option ChannelUser) (channel : Channel) : Prop := Has users fun user => user.channel = some channel

/-- The user of the channel has no answer to a destruction. -/
def Working (users : ℕ → Option ChannelUser) (channel : Channel) : Prop :=
  Has users fun user => user.channel = some channel ∧ user.queues .destroy = []

def Asked (users : ℕ → Option ChannelUser) (channel : Channel) : Prop :=
  Has users fun user => user.channel = some channel ∧ user.queues .destroy = [] ∧ user.destroying = true

theorem Working.owned (h : Working users channel) : Owned users channel := by
  obtain ⟨i, user, hu, hchannel, -⟩ := h
  exact ⟨i, user, hu, hchannel⟩

theorem Asked.working (h : Asked users channel) : Working users channel := by
  obtain ⟨i, user, hu, hchannel, hqueue, -⟩ := h
  exact ⟨i, user, hu, hchannel, hqueue⟩

theorem forall_update {R : ℕ → ChannelUser → Prop} (hi : R i user') (h : ∀ j user, users j = some user → R j user) :
    ∀ j user, Function.update users i (some user') j = some user → R j user := by
  intro j user hj
  by_cases hji : j = i
  · subst hji
    rw [Function.update_self] at hj
    obtain rfl := Option.some.inj hj
    exact hi
  · rw [Function.update_of_ne hji] at hj
    exact h j user hj

theorem Has.update (h : Has users P) (hu : users i = some user) (hi : P user → P user') :
    Has (Function.update users i (some user')) P := by
  obtain ⟨j, u, hj, hP⟩ := h
  by_cases hji : j = i
  · subst hji
    obtain rfl := Option.some.inj (hu.symm.trans hj)
    exact ⟨j, user', Function.update_self .., hi hP⟩
  · exact ⟨j, u, (Function.update_of_ne hji ..).trans hj, hP⟩

theorem Has.of_update (h : Has (Function.update users i (some user')) P) (hi : P user' → Has users P) :
    Has users P := by
  obtain ⟨j, u, hj, hP⟩ := h
  by_cases hji : j = i
  · subst hji
    rw [Function.update_self] at hj
    obtain rfl := Option.some.inj hj
    exact hi hP
  · rw [Function.update_of_ne hji] at hj
    exact ⟨j, u, hj, hP⟩

theorem has_update_iff (hu : users i = some user) (hi : P user' ↔ P user) :
    Has (Function.update users i (some user')) P ↔ Has users P :=
  ⟨fun h => h.of_update fun hP => ⟨i, user, hu, hi.mp hP⟩, fun h => h.update hu hi.mpr⟩

theorem users_of_leave {j : ℕ} (h : Function.update users i none j = some user) : j ≠ i ∧ users j = some user := by
  by_cases hji : j = i
  · subst hji
    rw [Function.update_self] at h
    exact absurd h (Option.some_ne_none user).symm
  · rw [Function.update_of_ne hji] at h
    exact ⟨hji, h⟩

theorem Has.of_leave (h : Has (Function.update users i none) P) : Has users P := by
  obtain ⟨j, u, hj, hP⟩ := h
  exact ⟨j, u, (users_of_leave hj).2, hP⟩

theorem Has.leave (h : Has users P) (hu : users i = some user) (hi : ¬ P user) : Has (Function.update users i none) P := by
  obtain ⟨j, u, hj, hP⟩ := h
  by_cases hji : j = i
  · subst hji
    obtain rfl := Option.some.inj (hu.symm.trans hj)
    exact absurd hP hi
  · exact ⟨j, u, (Function.update_of_ne hji ..).trans hj, hP⟩

theorem Has.enter (h : Has users P) (hu : users i = none) : Has (Function.update users i (some user')) P := by
  obtain ⟨j, u, hj, hP⟩ := h
  by_cases hji : j = i
  · subst hji
    exact absurd (hu.symm.trans hj) (Option.some_ne_none u).symm
  · exact ⟨j, u, (Function.update_of_ne hji ..).trans hj, hP⟩

end ChannelSlots

/-! ## Commands -/

/-- The commands on their way to the MCU.  A destruction is for a channel of a user that
asked for it, a quiet one for a channel that is free, and nothing is encoded behind the
destruction. -/
structure CommandsFit (toMcu : List McuCommand) (live : List Channel) (Owned Asked Free : Channel → Prop) : Prop where
  destroys : ∀ uid, .destroy uid ∈ toMcu → ∃ channel ∈ live, channel.uid = uid ∧ Asked channel
  destroyOnce : ∀ uid, toMcu.count (.destroy uid) ≤ 1
  quiets : ∀ uid, .quietDestroy uid ∈ toMcu → uid = badChan ∨ ∃ channel ∈ live, channel.uid = uid ∧ Free channel
  quietOnce : ∀ uid, uid ≠ badChan → toMcu.count (.quietDestroy uid) ≤ 1
  encodes : ∀ uid, .encode uid ∈ toMcu → ∃ channel ∈ live, channel.uid = uid ∧ Owned channel
  order : toMcu.Pairwise fun command command' => ∀ uid, command = .destroy uid → command' ≠ .encode uid

namespace CommandsFit

variable {toMcu rest commands : List McuCommand} {command : McuCommand} {live live' : List Channel}
  {Owned Owned' Asked Asked' Free Free' : Channel → Prop} {uid : ℕ}

theorem mono (h : CommandsFit toMcu live Owned Asked Free) (hlive : ∀ channel ∈ live, channel ∈ live')
    (howned : ∀ channel ∈ live, .encode channel.uid ∈ toMcu → Owned channel → Owned' channel)
    (hasked : ∀ channel ∈ live, Asked channel → Asked' channel)
    (hfree : ∀ channel ∈ live, Free channel → Free' channel) : CommandsFit toMcu live' Owned' Asked' Free' := by
  refine ⟨fun uid hmem => ?_, h.destroyOnce, fun uid hmem => ?_, h.quietOnce, fun uid hmem => ?_, h.order⟩
  · obtain ⟨channel, hchannel, huid, ha⟩ := h.destroys uid hmem
    exact ⟨channel, hlive channel hchannel, huid, hasked channel hchannel ha⟩
  · apply (h.quiets uid hmem).imp_right
    rintro ⟨channel, hchannel, huid, hf⟩
    exact ⟨channel, hlive channel hchannel, huid, hfree channel hchannel hf⟩
  · obtain ⟨channel, hchannel, rfl, ho⟩ := h.encodes uid hmem
    exact ⟨channel, hlive channel hchannel, rfl, howned channel hchannel hmem ho⟩

theorem tail (h : CommandsFit (command :: rest) live Owned Asked Free) : CommandsFit rest live Owned Asked Free :=
  ⟨fun uid hmem => h.destroys uid (List.mem_cons_of_mem _ hmem),
    fun uid => List.count_le_count_cons.trans (h.destroyOnce uid),
    fun uid hmem => h.quiets uid (List.mem_cons_of_mem _ hmem),
    fun uid hne => List.count_le_count_cons.trans (h.quietOnce uid hne),
    fun uid hmem => h.encodes uid (List.mem_cons_of_mem _ hmem), (List.pairwise_cons.mp h.order).2⟩

theorem count_snoc_le {other : McuCommand} (h : toMcu.count other ≤ 1) (hnew : command = other → other ∉ toMcu) :
    (toMcu ++ [command]).count other ≤ 1 := by
  rw [List.count_append]
  by_cases heq : command = other
  · subst heq
    rw [List.count_eq_zero.mpr (hnew rfl), List.count_singleton_self]
  · rw [List.count_eq_zero.mpr fun hmem => heq (List.mem_singleton.mp hmem).symm]
    exact h

theorem snoc (h : CommandsFit toMcu live Owned Asked Free)
    (hdestroy : ∀ uid, command = .destroy uid → .destroy uid ∉ toMcu ∧ ∃ channel ∈ live, channel.uid = uid ∧ Asked channel)
    (hquiet : ∀ uid, command = .quietDestroy uid → uid = badChan ∨
      (.quietDestroy uid ∉ toMcu ∧ ∃ channel ∈ live, channel.uid = uid ∧ Free channel))
    (hencode : ∀ uid, command = .encode uid → .destroy uid ∉ toMcu ∧ ∃ channel ∈ live, channel.uid = uid ∧ Owned channel) :
    CommandsFit (toMcu ++ [command]) live Owned Asked Free := by
  refine ⟨fun uid hmem => ?_, fun uid => ?_, fun uid hmem => ?_, fun uid hne => ?_, fun uid hmem => ?_, ?_⟩
  · rcases List.mem_append.mp hmem with hmem | hmem
    · exact h.destroys uid hmem
    · exact (hdestroy uid (List.mem_singleton.mp hmem).symm).2
  · exact count_snoc_le (h.destroyOnce uid) fun heq => (hdestroy uid heq).1
  · rcases List.mem_append.mp hmem with hmem | hmem
    · exact h.quiets uid hmem
    · exact (hquiet uid (List.mem_singleton.mp hmem).symm).imp_right And.right
  · exact count_snoc_le (h.quietOnce uid hne) fun heq => ((hquiet uid heq).resolve_left hne).1
  · rcases List.mem_append.mp hmem with hmem | hmem
    · exact h.encodes uid hmem
    · exact (hencode uid (List.mem_singleton.mp hmem).symm).2
  · refine List.pairwise_append.mpr ⟨h.order, List.pairwise_singleton _ _, fun other hother last hlast uid heq hencode' => ?_⟩
    obtain rfl := List.mem_singleton.mp hlast
    exact (hencode uid hencode').1 (heq ▸ hother)

theorem append (h : CommandsFit toMcu live Owned Asked Free)
    (hcommands : ∀ command ∈ commands, (∃ userUid, command = .create userUid) ∨ ChannelUser.IsPush command) :
    CommandsFit (toMcu ++ commands) live Owned Asked Free := by
  induction commands generalizing toMcu with
  | nil => exact (List.append_nil toMcu).symm ▸ h
  | cons command commands ih =>
    rw [List.append_cons]
    have hcommand := hcommands command List.mem_cons_self
    refine ih (h.snoc ?_ ?_ ?_) fun other hother => hcommands other (List.mem_cons_of_mem _ hother)
    all_goals
      rintro uid rfl
      rcases hcommand with ⟨userUid, heq⟩ | hpush
      · exact McuCommand.noConfusion heq
      · exact hpush.elim

/-- The channel with a uid is destroyed by the command at the head. -/
theorem destroyed (h : CommandsFit (command :: rest) live Owned Asked Free)
    (hcommand : command = .destroy uid ∨ command = .quietDestroy uid)
    (hbad : ∀ channel ∈ live, channel.uid ≠ badChan)
    (honce : ∀ channel ∈ live, ∀ channel' ∈ live, channel.uid = channel'.uid → channel = channel')
    (hasked : ∀ channel, Asked channel → Owned channel) (hfree : ∀ channel, Free channel → ¬ Owned channel) :
    CommandsFit rest (live.filter fun channel => channel.uid ≠ uid) Owned Asked Free := by
  -- a channel that another command is about stays
  have hstay : ∀ channel ∈ live, channel.uid ≠ uid → channel ∈ live.filter fun channel => channel.uid ≠ uid :=
    fun channel hchannel hne => List.mem_filter.mpr ⟨hchannel, decide_eq_true hne⟩
  have hclash : ∀ channel ∈ live, ∀ channel' ∈ live, channel.uid = uid → channel'.uid = uid → Owned channel →
      ¬ Free channel' := by
    intro channel hchannel channel' hchannel' huid huid' ho hf
    exact hfree channel' hf (honce channel hchannel channel' hchannel' (huid.trans huid'.symm) ▸ ho)
  refine ⟨fun u hmem => ?_, h.tail.destroyOnce, fun u hmem => ?_, h.tail.quietOnce, fun u hmem => ?_, h.tail.order⟩
  · obtain ⟨channel, hchannel, rfl, ha⟩ := h.tail.destroys u hmem
    refine ⟨channel, hstay channel hchannel fun heq => ?_, rfl, ha⟩
    rcases hcommand with rfl | rfl
    · have hcount := h.destroyOnce channel.uid
      rw [heq, List.count_cons_self] at hcount
      exact absurd (List.count_pos_iff.mpr (heq ▸ hmem)) (by omega)
    · rcases h.quiets uid List.mem_cons_self with hbad' | ⟨channel', hchannel', huid', hf⟩
      · exact hbad channel hchannel (heq.trans hbad')
      · exact hclash channel hchannel channel' hchannel' heq huid' (hasked channel ha) hf
  · rcases h.tail.quiets u hmem with hu | ⟨channel, hchannel, rfl, hf⟩
    · exact Or.inl hu
    · refine Or.inr ⟨channel, hstay channel hchannel fun heq => ?_, rfl, hf⟩
      rcases hcommand with rfl | rfl
      · obtain ⟨channel', hchannel', huid', ha⟩ := h.destroys uid List.mem_cons_self
        exact hclash channel' hchannel' channel hchannel huid' heq (hasked channel' ha) hf
      · have hcount := h.quietOnce channel.uid (hbad channel hchannel)
        rw [heq, List.count_cons_self] at hcount
        exact absurd (List.count_pos_iff.mpr (heq ▸ hmem)) (by omega)
  · obtain ⟨channel, hchannel, rfl, ho⟩ := h.tail.encodes u hmem
    refine ⟨channel, hstay channel hchannel fun heq => ?_, rfl, ho⟩
    rcases hcommand with rfl | rfl
    · exact (List.pairwise_cons.mp h.order).1 _ hmem uid rfl (congrArg _ heq)
    · rcases h.quiets uid List.mem_cons_self with hbad' | ⟨channel', hchannel', huid', hf⟩
      · exact hbad channel hchannel (heq.trans hbad')
      · exact hclash channel hchannel channel' hchannel' heq huid' ho hf

end CommandsFit

/-! ## Mails -/

/-- The mails on their way from the MCU.  Behind the answer to a destruction nothing else
comes about the channel. -/
structure MailsFit (toCpu : List ChannelMail) (live : List Channel) (Asked Working : Channel → Prop) : Prop where
  sound : ∀ mail ∈ toCpu, mail.msg = .createChannel ∨ ∃ channel, mail.channel = some channel ∧ mail.word0 = channel.uid ∧
    ((mail.msg = .destroyChannel ∧ channel ∉ live ∧ Asked channel) ∨ (mail.msg = .encodeOneFrm ∧ Working channel))
  after : toCpu.Pairwise fun mail mail' =>
    mail.msg = .destroyChannel → mail'.msg ≠ .createChannel → mail.channel ≠ mail'.channel

namespace MailsFit

variable {toCpu rest : List ChannelMail} {mail : ChannelMail} {live live' : List Channel}
  {Asked Asked' Working Working' : Channel → Prop} {channel : Channel}

theorem mono (h : MailsFit toCpu live Asked Working)
    (hasked : ∀ mail ∈ toCpu, ∀ channel, mail.msg = .destroyChannel → mail.channel = some channel → channel ∉ live →
      Asked channel → channel ∉ live' ∧ Asked' channel)
    (hworking : ∀ mail ∈ toCpu, ∀ channel, mail.msg = .encodeOneFrm → mail.channel = some channel →
      Working channel → Working' channel) : MailsFit toCpu live' Asked' Working' := by
  refine ⟨fun mail hmail => (h.sound mail hmail).imp_right ?_, h.after⟩
  rintro ⟨channel, hchannel, huid, ⟨hmsg, hdead, ha⟩ | ⟨hmsg, hw⟩⟩
  · exact ⟨channel, hchannel, huid, Or.inl ⟨hmsg, hasked mail hmail channel hmsg hchannel hdead ha⟩⟩
  · exact ⟨channel, hchannel, huid, Or.inr ⟨hmsg, hworking mail hmail channel hmsg hchannel hw⟩⟩

theorem tail (h : MailsFit (mail :: rest) live Asked Working) : MailsFit rest live Asked Working :=
  ⟨fun mail hmail => h.sound mail (List.mem_cons_of_mem _ hmail), (List.pairwise_cons.mp h.after).2⟩

theorem snoc (h : MailsFit toCpu live Asked Working)
    (hsound : mail.msg = .createChannel ∨ ∃ channel, mail.channel = some channel ∧ mail.word0 = channel.uid ∧
      ((mail.msg = .destroyChannel ∧ channel ∉ live ∧ Asked channel) ∨ (mail.msg = .encodeOneFrm ∧ Working channel)))
    (hafter : mail.msg ≠ .createChannel → ∀ mail' ∈ toCpu, mail'.msg = .destroyChannel →
      mail'.channel ≠ mail.channel) : MailsFit (toCpu ++ [mail]) live Asked Working := by
  refine ⟨fun mail' hmail' => ?_, List.pairwise_append.mpr ⟨h.after, List.pairwise_singleton _ _, ?_⟩⟩
  · rcases List.mem_append.mp hmail' with hmail' | hmail'
    · exact h.sound mail' hmail'
    · exact List.mem_singleton.mp hmail' ▸ hsound
  · intro mail' hmail' last hlast hmsg hne
    obtain rfl := List.mem_singleton.mp hlast
    exact hafter hne mail' hmail' hmsg

theorem ne_of_live (h : MailsFit toCpu live Asked Working) (hlive : channel ∈ live) (hmail : mail ∈ toCpu)
    (hmsg : mail.msg = .destroyChannel) : mail.channel ≠ some channel := by
  intro hchannel
  rcases h.sound mail hmail with hcreate | ⟨channel', hchannel', -, ⟨-, hdead, -⟩ | ⟨hencode, -⟩⟩
  · exact AlMcuMsg.noConfusion (hmsg.symm.trans hcreate)
  · obtain rfl := Option.some.inj (hchannel'.symm.trans hchannel)
    exact hdead hlive
  · exact AlMcuMsg.noConfusion (hmsg.symm.trans hencode)

end MailsFit

/-! ## Channels that no user has taken yet -/

namespace ChannelSlots

variable {users : ℕ → Option ChannelUser} {maxUsersNb i : ℕ}

def answerChannel (mail : ChannelMail) : Option Channel := if mail.msg = .createChannel then mail.channel else none

def queueChannels (slot : Option ChannelUser) : List Channel :=
  (slot.map fun user => (user.queues .create).filterMap ChannelMail.channel).getD []

/-- The channels in the answers in the mailbox and in the queues of the users. -/
def given (users : ℕ → Option ChannelUser) (maxUsersNb : ℕ) (toCpu : List ChannelMail) : List Channel :=
  toCpu.filterMap answerChannel ++ (List.range maxUsersNb).flatMap fun i => queueChannels (users i)

theorem given_perm (users : ℕ → Option ChannelUser) (hi : i < maxUsersNb) : ∃ others, ∀ slot toCpu,
    (given (Function.update users i slot) maxUsersNb toCpu).Perm
      (toCpu.filterMap answerChannel ++ (queueChannels slot ++ others)) := by
  refine ⟨((List.range maxUsersNb).erase i).flatMap fun j => queueChannels (users j), fun slot toCpu => ?_⟩
  apply List.Perm.append_left
  have hperm := List.perm_cons_erase (List.mem_range.mpr hi)
  apply (hperm.flatMap_right fun j => queueChannels (Function.update users i slot j)).trans
  rw [List.flatMap_cons, Function.update_self]
  apply List.Perm.append_left
  apply List.Perm.of_eq
  apply List.flatMap_congr
  intro j hj
  have hne : j ≠ i := ((List.nodup_range.mem_erase_iff).mp hj).1
  rw [Function.update_of_ne hne]

variable {slot : Option ChannelUser} {toCpu : List ChannelMail}

theorem given_update_eq (h : queueChannels slot = queueChannels (users i)) :
    given (Function.update users i slot) maxUsersNb toCpu = given users maxUsersNb toCpu := by
  apply congrArg (toCpu.filterMap answerChannel ++ ·)
  apply List.flatMap_congr
  intro j _
  by_cases hji : j = i
  · subst hji
    rw [Function.update_self, h]
  · rw [Function.update_of_ne hji]

theorem given_sublist {toCpu toCpu' : List ChannelMail}
    (hslot : (queueChannels slot).Sublist (queueChannels (users i))) (hmails : toCpu'.Sublist toCpu) :
    (given (Function.update users i slot) maxUsersNb toCpu').Sublist (given users maxUsersNb toCpu) := by
  apply List.Sublist.append (hmails.filterMap answerChannel)
  apply List.Sublist.flatMap_right
  intro j _
  by_cases hji : j = i
  · subst hji
    rw [Function.update_self]
    exact hslot
  · rw [Function.update_of_ne hji]

theorem given_snoc {mail : ChannelMail} (h : mail.msg ≠ .createChannel) :
    given users maxUsersNb (toCpu ++ [mail]) = given users maxUsersNb toCpu := by
  have hnone : answerChannel mail = none := if_neg h
  unfold given
  rw [List.filterMap_append, List.filterMap_cons_none hnone, List.filterMap_nil, List.append_nil]

end ChannelSlots

end VcuCodec
