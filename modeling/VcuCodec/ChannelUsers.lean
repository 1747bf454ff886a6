import Mathlib.Logic.Function.Basic
import VcuCodec.MailFactories

/-!
# Channels and their users

The users of the encoder's driver (`al5e/enc_user.c`, `common/al_user.c`,
`common/al_queue.c`), the group that hands the mails of the MCU to them
(`common/al_group.c`), the opening and closing of the device (`common/al_codec.c`), and the
MCU as far as the driver relies on it: it takes the commands in order, answers each creation
with a channel uid that is not in use or with `BAD_CHAN`, and each destruction that is not
quiet.
-/

namespace VcuCodec

def badChan : ℕ := 0xff

/-- A channel of the MCU.  Uids are used again, the serial number is not. -/
structure Channel where
  uid : ℕ
  serial : ℕ
  deriving DecidableEq

/-- A mail from the MCU, with its first two words and the channel it was produced for. -/
structure ChannelMail where
  msg : AlMcuMsg
  word0 : ℕ
  word1 : ℕ
  channel : Option Channel
  deriving DecidableEq

/-- What a user sends to the MCU. -/
inductive McuCommand
  | create (userUid : ℕ)
  | pushIntermediate (chanUid : ℕ)
  | pushReference (chanUid : ℕ)
  | encode (chanUid : ℕ)
  | destroy (chanUid : ℕ)
  | quietDestroy (chanUid : ℕ)
  deriving DecidableEq

/-! ## Users -/

/-- `enum user_mail` -/
inductive UserMail
  | init
  | create
  | destroy
  | status
  | sc
  | debug
  | reconstructed
  deriving DecidableEq

def mailToQueue : AlMcuMsg → UserMail
  | .init => .init
  | .createChannel => .create
  | .destroyChannel => .destroy
  | .encodeOneFrm | .decodeOneFrm => .status
  | .searchStartCode => .sc
  | .getReconstructedPicture | .releaseReconstructedPicture => .reconstructed
  | _ => .debug

/-- `checkpoint` of a user. -/
inductive Checkpoint
  | noCheckpoint
  | allocateBuffers
  | sendIntermediateBuffers
  | sendReferenceBuffers
  deriving DecidableEq

/-- Where `al5e_user_create_channel` is; it holds the lock for creations unless it is idle. -/
inductive CreateCall
  | idle
  | waiting
  | running
  deriving DecidableEq

/-- `struct al5_user` with the calls that are under way: `destroyers` have seen a channel and
wait for the locks, one that is `destroying` holds all of them.  The last three fields say
which channel the user was given, and which the buffers were sent for. -/
structure ChannelUser where
  chanUid : ℕ
  checkpoint : Checkpoint
  queues : UserMail → List ChannelMail
  intBuffers : Bool
  recBuffers : Bool
  createCall : CreateCall
  destroyers : ℕ
  destroying : Bool
  channel : Option Channel
  intSent : Option Channel
  recSent : Option Channel

namespace ChannelUser

/-- `al5_user_init` -/
def init : ChannelUser :=
  ⟨badChan, .noCheckpoint, fun _ => [], false, false, .idle, 0, false, none, none, none⟩

variable (user : ChannelUser)

/-- `al5_chan_is_created` -/
def chanIsCreated : Bool := user.chanUid ≠ badChan

/-- `al5_have_checkpoint` -/
def haveCheckpoint : Bool := user.checkpoint ≠ .noCheckpoint

def channelIsFullyCreated : Bool := user.chanIsCreated && !user.haveCheckpoint

def setQueue (queue : UserMail) (mails : List ChannelMail) : ChannelUser :=
  { user with queues := Function.update user.queues queue mails }

/-- `al5_user_deliver`.  A list that gets no memory for a mail is left at its last entry. -/
def deliver (mail : ChannelMail) (stored : Bool) : ChannelUser :=
  let queue := mailToQueue mail.msg
  if stored then user.setQueue queue (user.queues queue ++ [mail])
  else user.setQueue queue (user.queues queue).getLast?.toList

end ChannelUser

/-- The steps of a user.  What is sent may fail, when the mailbox is full, when there is no
memory for the mail or when a lock is interrupted. -/
inductive UserOp
  | createRequest (sent : Bool)
  /-- A creation that has a checkpoint goes on. -/
  | createResume
  | createFeedback
  /-- The wait ends by a signal, the timeout or an unlocked queue. -/
  | createGiveUp
  | allocateBuffers (int rec : Bool)
  | sendIntermediateBuffers (sent : Bool)
  | sendReferenceBuffers (sent : Bool)
  | destroyCall
  | destroySend (sent : Bool)
  | destroyFeedback
  | destroyGiveUp
  | encode (sent : Bool)
  | waitForStatus
  deriving DecidableEq

/-- A step of user `userUid`, with what it sends. -/
def ChannelUser.step (user : ChannelUser) (userUid : ℕ) : UserOp → Option (ChannelUser × List McuCommand)
  | .createRequest sent =>
    if user.createCall = .idle ∧ user.destroying = false ∧ user.channelIsFullyCreated = false ∧
        user.haveCheckpoint = false then
      if sent then some ({ user with createCall := .waiting }, [.create userUid]) else some (user, [])
    else none
  | .createResume =>
    if user.createCall = .idle ∧ user.destroying = false ∧ user.haveCheckpoint then
      some ({ user with createCall := .running }, [])
    else none
  | .createFeedback =>
    match user.createCall, user.queues .create with
    | .waiting, mail :: mails =>
      let user := user.setQueue .create mails
      if mail.word0 = badChan then some ({ user with createCall := .idle }, [])
      else some ({ user with
        chanUid := mail.word0
        channel := mail.channel
        checkpoint := .allocateBuffers
        createCall := .running }, [])
    | _, _ => none
  | .createGiveUp =>
    -- what is in the queue is taken, however the wait ends
    if user.createCall = .waiting ∧ user.queues .create = [] then some ({ user with createCall := .idle }, [])
    else none
  | .allocateBuffers int rec =>
    if user.createCall = .running ∧ user.checkpoint = .allocateBuffers then
      -- if that fails, `al5_user_destroy_channel` is called behind the locks
      some ({ user with
        intBuffers := int
        recBuffers := int && rec
        checkpoint := if int && rec then .sendIntermediateBuffers else .noCheckpoint
        createCall := if int && rec then .running else .idle }, [])
    else none
  | .sendIntermediateBuffers sent =>
    if user.createCall = .running ∧ user.checkpoint = .sendIntermediateBuffers then
      if sent then
        some ({ user with
          intSent := user.channel
          checkpoint := .sendReferenceBuffers }, [.pushIntermediate user.chanUid])
      else some ({ user with createCall := .idle }, [])
    else none
  | .sendReferenceBuffers sent =>
    if user.createCall = .running ∧ user.checkpoint = .sendReferenceBuffers then
      if sent then
        some ({ user with
          recSent := user.channel
          checkpoint := .noCheckpoint
          createCall := .idle }, [.pushReference user.chanUid])
      else some ({ user with createCall := .idle }, [])
    else none
  | .destroyCall => if user.chanIsCreated then some ({ user with destroyers := user.destroyers + 1 }, []) else none
  | .destroySend sent =>
    if user.destroyers ≠ 0 ∧ user.createCall = .idle ∧ user.destroying = false then
      if sent then
        some ({ user with
          destroyers := user.destroyers - 1
          destroying := true }, [.destroy user.chanUid])
      else some ({ user with destroyers := user.destroyers - 1 }, [])
    else none
  | .destroyFeedback =>
    match user.destroying, user.queues .destroy with
    | true, _ :: mails =>
      some ({ user.setQueue .destroy mails with
        destroying := false
        chanUid := badChan
        channel := none
        checkpoint := .noCheckpoint
        intBuffers := false
        recBuffers := false }, [])
    | _, _ => none
  | .destroyGiveUp =>
    if user.destroying ∧ user.queues .destroy = [] then some ({ user with destroying := false }, []) else none
  | .encode sent =>
    if user.destroying = false ∧ user.chanIsCreated then
      some (user, if sent then [.encode user.chanUid] else [])
    else none
  | .waitForStatus =>
    match user.queues .status with
    | [] => none
    | _ :: mails =>
      if user.destroying = false ∧ user.chanIsCreated then some (user.setQueue .status mails, []) else none

/-! ## The driver and the MCU -/

/-- A mail that a user gets, with the channel the user owns then. -/
structure Handed where
  mail : ChannelMail
  owned : Option Channel
  deriving DecidableEq

/-- The users in their slots, the mailboxes, and the MCU with its channels and the frames it
encodes.  The last three fields record the users whose encodings were accepted, the mails
that were queued and the statuses that were returned. -/
structure ChannelState where
  maxUsersNb : ℕ
  users : ℕ → Option ChannelUser
  toMcu : List McuCommand
  toCpu : List ChannelMail
  live : List Channel
  tasks : List Channel
  serial : ℕ
  accepted : List ChannelUser
  queued : List Handed
  returned : List Handed

namespace ChannelState

def start (maxUsersNb : ℕ) : ChannelState := ⟨maxUsersNb, fun _ => none, [], [], [], [], 0, [], [], []⟩

variable (s : ChannelState)

/-- `al5_group_user_from_uid` -/
def userFromUid (userUid : ℕ) : Option ℕ :=
  if userUid < s.maxUsersNb ∧ (s.users userUid).isSome then some userUid else none

def hasChannelId (chanUid i : ℕ) : Bool := (s.users i).any fun user => user.chanUid = chanUid

/-- `al5_group_user_from_chan_uid` -/
def userFromChanUid (chanUid : ℕ) : Option ℕ := (List.range s.maxUsersNb).find? (s.hasChannelId chanUid)

def retrieveUser (mail : ChannelMail) : Option ℕ :=
  match mail.msg with
  | .createChannel => s.userFromUid mail.word1
  | .init | .searchStartCode => s.userFromUid mail.word0
  | _ => s.userFromChanUid mail.word0

def shouldDestroyChannelOnBadFeedback : AlMcuMsg → Bool
  | .init | .searchStartCode | .destroyChannel => false
  | _ => true

/-- `handle_mail`; the mail is stored, or the destruction of an orphan is sent, or that
fails. -/
def handleMail (mail : ChannelMail) (done : Bool) : ChannelState :=
  if mail.msg = .trace then s
  else
    match s.retrieveUser mail with
    | some i =>
      match s.users i with
      | some user => { s with
          users := Function.update s.users i (some (user.deliver mail done))
          queued := if done then s.queued ++ [⟨mail, user.channel⟩] else s.queued }
      | none => s
    | none =>
      if shouldDestroyChannelOnBadFeedback mail.msg ∧ done then
        { s with toMcu := s.toMcu ++ [.quietDestroy mail.word0] }
      else s

/-- The MCU takes a command; `answer` is the uid for a new channel. -/
def mcuHandle (answer : Option ℕ) : Option ChannelState :=
  match s.toMcu with
  | [] => none
  | .create userUid :: rest =>
    match answer with
    | none => some { s with
        toMcu := rest
        toCpu := s.toCpu ++ [⟨.createChannel, badChan, userUid, none⟩] }
    | some uid =>
      if uid = badChan ∨ uid ∈ s.live.map Channel.uid then none
      else some { s with
        toMcu := rest
        toCpu := s.toCpu ++ [⟨.createChannel, uid, userUid, some ⟨uid, s.serial⟩⟩]
        live := s.live ++ [⟨uid, s.serial⟩]
        serial := s.serial + 1 }
  | .destroy uid :: rest => some { s with
      toMcu := rest
      toCpu := s.toCpu ++ [⟨.destroyChannel, uid, 0, s.live.find? fun channel => channel.uid = uid⟩]
      live := s.live.filter fun channel => channel.uid ≠ uid
      tasks := s.tasks.filter fun channel => channel.uid ≠ uid }
  | .quietDestroy uid :: rest => some { s with
      toMcu := rest
      live := s.live.filter fun channel => channel.uid ≠ uid
      tasks := s.tasks.filter fun channel => channel.uid ≠ uid }
  | .encode uid :: rest => some { s with
      toMcu := rest
      tasks := s.tasks ++ (s.live.find? fun channel => channel.uid = uid).toList }
  | .pushIntermediate _ :: rest | .pushReference _ :: rest => some { s with toMcu := rest }

end ChannelState

/-- The steps of the users, of the driver and of the MCU. -/
inductive ChannelOp
  /-- `al5_codec_open`, in the first free slot. -/
  | openDevice
  /-- `al5_codec_release`; the quiet destruction is sent by one of its tries, or not. -/
  | release (i : ℕ) (sent : Bool)
  | user (i : ℕ) (op : UserOp)
  | readMail (done : Bool)
  | mcuHandle (answer : Option ℕ)
  /-- The MCU has encoded a frame, in any order. -/
  | mcuStatus (channel : Channel)
  deriving DecidableEq

namespace ChannelState

variable (s : ChannelState)

def acceptedBy (user : ChannelUser) : UserOp → List ChannelUser
  | .encode true => [user]
  | _ => []

def returnedBy (user : ChannelUser) : UserOp → List Handed
  | .waitForStatus => (user.queues .status).head?.toList.map fun mail => ⟨mail, user.channel⟩
  | _ => []

def step : ChannelOp → Option ChannelState
  | .openDevice =>
    ((List.range s.maxUsersNb).find? fun i => (s.users i).isNone).map fun i =>
      { s with users := Function.update s.users i (some .init) }
  | .release i sent =>
    (s.users i).bind fun user =>
      if user.createCall = .idle ∧ user.destroyers = 0 ∧ user.destroying = false then
        some { s with
          users := Function.update s.users i none
          toMcu := if user.chanIsCreated ∧ sent then s.toMcu ++ [.quietDestroy user.chanUid] else s.toMcu }
      else none
  | .user i op =>
    (s.users i).bind fun user =>
      (user.step i op).map fun (user', commands) => { s with
        users := Function.update s.users i (some user')
        toMcu := s.toMcu ++ commands
        accepted := s.accepted ++ acceptedBy user op
        returned := s.returned ++ returnedBy user op }
  | .readMail done =>
    match s.toCpu with
    | [] => none
    | mail :: rest => some (handleMail { s with toCpu := rest } mail done)
  | .mcuHandle answer => s.mcuHandle answer
  | .mcuStatus channel =>
    if channel ∈ s.tasks then
      some { s with
        tasks := s.tasks.erase channel
        toCpu := s.toCpu ++ [⟨.encodeOneFrm, channel.uid, 0, some channel⟩] }
    else none

end ChannelState

end VcuCodec
