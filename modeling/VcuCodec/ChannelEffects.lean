import VcuCodec.ChannelUsers

/-!
# What the steps of a user do

One lemma for each step that touches what users share, and one for all the others.
-/

namespace VcuCodec

namespace ChannelUser

variable {user user' : ChannelUser} {i : ℕ} {op : UserOp} {commands : List McuCommand}

/-- Two states of a user that differ in its checkpoint, its buffers and the calls that do
not wait. -/
structure SameCore (user user' : ChannelUser) : Prop where
  chanUid : user'.chanUid = user.chanUid
  channel : user'.channel = user.channel
  queues : user'.queues = user.queues
  destroying : user'.destroying = user.destroying
  waiting : user'.createCall = .waiting ↔ user.createCall = .waiting

/-- The commands that bring buffers to a channel. -/
def IsPush : McuCommand → Prop
  | .pushIntermediate _ | .pushReference _ => True
  | _ => False

/-- The steps behind which the other users see no difference. -/
def keepsCore : UserOp → Bool
  | .createRequest sent | .destroySend sent | .encode sent => !sent
  | .createResume | .allocateBuffers _ _ | .sendIntermediateBuffers _ | .sendReferenceBuffers _ | .destroyCall => true
  | _ => false

theorem SameCore.refl : SameCore user user := ⟨rfl, rfl, rfl, rfl, Iff.rfl⟩

theorem kept_of_step (h : user.step i op = some (user', commands)) (hk : keepsCore op = true) :
    SameCore user user' ∧ ∀ command ∈ commands, IsPush command := by
  cases op with
  | createRequest sent =>
    obtain rfl : sent = false := by simpa [keepsCore] using hk
    obtain ⟨-, h⟩ := Option.ite_none_right_eq_some.mp h
    obtain ⟨rfl, rfl⟩ := Prod.mk.inj (Option.some.inj h)
    exact ⟨.refl, nofun⟩
  | createResume =>
    obtain ⟨⟨hidle, -⟩, h⟩ := Option.ite_none_right_eq_some.mp h
    obtain ⟨rfl, rfl⟩ := Prod.mk.inj (Option.some.inj h)
    exact ⟨⟨rfl, rfl, rfl, rfl, by simp [hidle]⟩, nofun⟩
  | allocateBuffers int rec =>
    obtain ⟨⟨hrun, -⟩, h⟩ := Option.ite_none_right_eq_some.mp h
    obtain ⟨rfl, rfl⟩ := Prod.mk.inj (Option.some.inj h)
    exact ⟨⟨rfl, rfl, rfl, rfl, by simp [hrun]; cases int <;> cases rec <;> simp⟩, nofun⟩
  | sendIntermediateBuffers sent =>
    obtain ⟨⟨hrun, -⟩, h⟩ := Option.ite_none_right_eq_some.mp h
    cases sent with
    | true =>
      obtain ⟨rfl, rfl⟩ := Prod.mk.inj (Option.some.inj h)
      exact ⟨⟨rfl, rfl, rfl, rfl, Iff.rfl⟩, by simp [IsPush]⟩
    | false =>
      obtain ⟨rfl, rfl⟩ := Prod.mk.inj (Option.some.inj h)
      exact ⟨⟨rfl, rfl, rfl, rfl, by simp [hrun]⟩, nofun⟩
  | sendReferenceBuffers sent =>
    obtain ⟨⟨hrun, -⟩, h⟩ := Option.ite_none_right_eq_some.mp h
    cases sent with
    | true =>
      obtain ⟨rfl, rfl⟩ := Prod.mk.inj (Option.some.inj h)
      exact ⟨⟨rfl, rfl, rfl, rfl, by simp [hrun]⟩, by simp [IsPush]⟩
    | false =>
      obtain ⟨rfl, rfl⟩ := Prod.mk.inj (Option.some.inj h)
      exact ⟨⟨rfl, rfl, rfl, rfl, by simp [hrun]⟩, nofun⟩
  | destroyCall =>
    obtain ⟨-, h⟩ := Option.ite_none_right_eq_some.mp h
    obtain ⟨rfl, rfl⟩ := Prod.mk.inj (Option.some.inj h)
    exact ⟨⟨rfl, rfl, rfl, rfl, Iff.rfl⟩, nofun⟩
  | destroySend sent =>
    obtain rfl : sent = false := by simpa [keepsCore] using hk
    obtain ⟨-, h⟩ := Option.ite_none_right_eq_some.mp h
    obtain ⟨rfl, rfl⟩ := Prod.mk.inj (Option.some.inj h)
    exact ⟨⟨rfl, rfl, rfl, rfl, Iff.rfl⟩, nofun⟩
  | encode sent =>
    obtain rfl : sent = false := by simpa [keepsCore] using hk
    obtain ⟨-, h⟩ := Option.ite_none_right_eq_some.mp h
    obtain ⟨rfl, rfl⟩ := Prod.mk.inj (Option.some.inj h)
    exact ⟨.refl, nofun⟩
  | createFeedback | createGiveUp | destroyFeedback | destroyGiveUp | waitForStatus => exact absurd hk Bool.false_ne_true

/-! ## The other steps -/

theorem createRequest_of_step (h : user.step i (.createRequest true) = some (user', commands)) :
    (user.createCall = .idle ∧ user.destroying = false ∧ user.chanUid = badChan) ∧
      user' = { user with createCall := .waiting } ∧ commands = [.create i] := by
  obtain ⟨⟨hidle, hdestroying, hfully, hcheckpoint⟩, h⟩ := Option.ite_none_right_eq_some.mp h
  obtain ⟨rfl, rfl⟩ := Prod.mk.inj (Option.some.inj h)
  refine ⟨⟨hidle, hdestroying, ?_⟩, rfl, rfl⟩
  unfold channelIsFullyCreated at hfully
  rw [hcheckpoint, Bool.not_false, Bool.and_true] at hfully
  simpa [chanIsCreated] using hfully

/-- An answer is taken from the queue: there is no channel, or it is the user's now. -/
theorem createFeedback_of_step (h : user.step i .createFeedback = some (user', commands)) :
    ∃ mail mails, user.createCall = .waiting ∧ user.queues .create = mail :: mails ∧ commands = [] ∧
      ((mail.word0 = badChan ∧ user' = { user.setQueue .create mails with createCall := .idle }) ∨
        (mail.word0 ≠ badChan ∧ user' = { user.setQueue .create mails with
          chanUid := mail.word0
          channel := mail.channel
          checkpoint := .allocateBuffers
          createCall := .running })) := by
  unfold step at h
  dsimp only at h
  split at h
  · next mail mails hwaiting hqueue =>
    refine ⟨mail, mails, hwaiting, hqueue, ?_⟩
    split at h
    · next hbad =>
      obtain ⟨rfl, rfl⟩ := Prod.mk.inj (Option.some.inj h)
      exact ⟨rfl, Or.inl ⟨hbad, rfl⟩⟩
    · next hbad =>
      obtain ⟨rfl, rfl⟩ := Prod.mk.inj (Option.some.inj h)
      exact ⟨rfl, Or.inr ⟨hbad, rfl⟩⟩
  · exact absurd h (Option.some_ne_none _).symm

theorem createGiveUp_of_step (h : user.step i .createGiveUp = some (user', commands)) :
    user.createCall = .waiting ∧ user' = { user with createCall := .idle } ∧ commands = [] := by
  obtain ⟨⟨hwaiting, -⟩, h⟩ := Option.ite_none_right_eq_some.mp h
  obtain ⟨rfl, rfl⟩ := Prod.mk.inj (Option.some.inj h)
  exact ⟨hwaiting, rfl, rfl⟩

theorem destroySend_of_step (h : user.step i (.destroySend true) = some (user', commands)) :
    (user.createCall = .idle ∧ user.destroying = false) ∧
      user' = { user with
        destroyers := user.destroyers - 1
        destroying := true } ∧ commands = [.destroy user.chanUid] := by
  obtain ⟨⟨-, hidle, hdestroying⟩, h⟩ := Option.ite_none_right_eq_some.mp h
  obtain ⟨rfl, rfl⟩ := Prod.mk.inj (Option.some.inj h)
  exact ⟨⟨hidle, hdestroying⟩, rfl, rfl⟩

theorem destroyFeedback_of_step (h : user.step i .destroyFeedback = some (user', commands)) :
    ∃ mail mails, user.destroying = true ∧ user.queues .destroy = mail :: mails ∧ commands = [] ∧
      user' = { user.setQueue .destroy mails with
        destroying := false
        chanUid := badChan
        channel := none
        checkpoint := .noCheckpoint
        intBuffers := false
        recBuffers := false } := by
  unfold step at h
  dsimp only at h
  split at h
  · next mail mails hdestroying hqueue =>
    obtain ⟨rfl, rfl⟩ := Prod.mk.inj (Option.some.inj h)
    exact ⟨mail, mails, hdestroying, hqueue, rfl, rfl⟩
  · exact absurd h (Option.some_ne_none _).symm

theorem destroyGiveUp_of_step (h : user.step i .destroyGiveUp = some (user', commands)) :
    user.destroying = true ∧ user' = { user with destroying := false } ∧ commands = [] := by
  obtain ⟨⟨hdestroying, -⟩, h⟩ := Option.ite_none_right_eq_some.mp h
  obtain ⟨rfl, rfl⟩ := Prod.mk.inj (Option.some.inj h)
  exact ⟨hdestroying, rfl, rfl⟩

theorem encode_of_step (h : user.step i (.encode true) = some (user', commands)) :
    (user.destroying = false ∧ user.chanIsCreated = true) ∧ user' = user ∧ commands = [.encode user.chanUid] := by
  obtain ⟨hcond, h⟩ := Option.ite_none_right_eq_some.mp h
  obtain ⟨rfl, rfl⟩ := Prod.mk.inj (Option.some.inj h)
  exact ⟨hcond, rfl, rfl⟩

theorem waitForStatus_of_step (h : user.step i .waitForStatus = some (user', commands)) :
    ∃ mail mails, (user.destroying = false ∧ user.chanIsCreated = true) ∧ user.queues .status = mail :: mails ∧
      user' = user.setQueue .status mails ∧ commands = [] := by
  unfold step at h
  dsimp only at h
  split at h
  · exact absurd h (Option.some_ne_none _).symm
  · next mail mails hqueue =>
    obtain ⟨hcond, h⟩ := Option.ite_none_right_eq_some.mp h
    obtain ⟨rfl, rfl⟩ := Prod.mk.inj (Option.some.inj h)
    exact ⟨mail, mails, hcond, hqueue, rfl, rfl⟩

/-! ## Queues -/

@[simp] theorem setQueue_self (queue : UserMail) (mails : List ChannelMail) :
    (user.setQueue queue mails).queues queue = mails := Function.update_self ..

theorem setQueue_of_ne {queue queue' : UserMail} (h : queue' ≠ queue) (mails : List ChannelMail) :
    (user.setQueue queue mails).queues queue' = user.queues queue' := Function.update_of_ne h ..

theorem deliver_eq (mail : ChannelMail) (stored : Bool) :
    user.deliver mail stored = user.setQueue (mailToQueue mail.msg) (if stored then
      user.queues (mailToQueue mail.msg) ++ [mail] else (user.queues (mailToQueue mail.msg)).getLast?.toList) := by
  unfold deliver
  cases stored <;> rfl

end ChannelUser

end VcuCodec
