import VcuCodec.BufferPools
import VcuCodec.GuardedRuns

/-!
# The buffers of a channel

What the creation of a channel, its destruction and the closing of the device
(`al5e/enc_user.c`, `common/al_user.c`, `common/al_codec.c`) do with the two pools of a
user, and the reconstructed buffers that it hands out.
-/

namespace VcuCodec

/-! ## The code -/

/-- `struct al5_user` as far as its pools go; `fds` are the file descriptors that user space has
of the dma-bufs.  The last two fields say how the allocations that failed left their pools, and
of each identifier that was accepted whether it designated an allocated buffer. -/
structure PoolUser where
  chanIsCreated : Bool
  checkpoint : Checkpoint
  intBuffers : BuffersPool
  recBuffers : BuffersPool
  memory : PoolMemory
  destroyers : ℕ
  isOpen : Bool
  fds : List ℕ
  failed : List BuffersPool
  reserved : List Bool

/-- What the parts of `al5e_user_create_channel` come to. -/
structure Creation where
  made : Bool
  intCount : ℤ
  recCount : ℤ
  intBuffers : PoolAllocation
  recBuffers : PoolAllocation
  intSent : Bool
  recSent : Bool

inductive BufferPoolOp
  /-- `al5e_user_create_channel` up to where it unlocks; what it does then is `destroyCall`. -/
  | createChannel (c : Creation)
  /-- `al5_user_destroy_channel` sees a channel. -/
  | destroyCall
  /-- It goes on with all locks, or gives up. -/
  | destroyLocked (done : Bool)
  | getRec (id : ℤ) (fd : Bool)
  /-- User space closes a file descriptor. -/
  | closeFd (handle : ℕ)
  /-- `al5_codec_release`; the destruction may have failed in all its tries. -/
  | release (done : Bool)

namespace PoolUser

/-- `al5_user_init` -/
def init : PoolUser := ⟨false, .noCheckpoint, .init, .init, .init, 0, true, [], [], []⟩

variable (user : PoolUser)

def haveCheckpoint : Bool := user.checkpoint ≠ .noCheckpoint

def channelIsFullyCreated : Bool := user.chanIsCreated && !user.haveCheckpoint

def allocateChannelBuffers (intCount recCount : ℤ) (int reconstructed : PoolAllocation) : Bool × PoolUser :=
  match user.intBuffers.allocate user.memory intCount int with
  | (false, pool, m) => (false, { user with intBuffers := pool, memory := m, failed := user.failed ++ [pool] })
  | (true, pool, m) =>
    match user.recBuffers.allocate m recCount reconstructed with
    | (false, pool', m) =>
      (false, { user with intBuffers := pool, recBuffers := pool', memory := m, failed := user.failed ++ [pool'] })
    | (true, pool', m) => (true, { user with intBuffers := pool, recBuffers := pool', memory := m })

/-- The last two sections of `al5e_user_create_channel`. -/
def sendBuffers (c : Creation) : PoolUser :=
  match user.checkpoint with
  | .sendIntermediateBuffers =>
    { user with checkpoint :=
        if c.intSent then (if c.recSent then .noCheckpoint else .sendReferenceBuffers) else .sendIntermediateBuffers }
  | .sendReferenceBuffers =>
    { user with checkpoint := if c.recSent then .noCheckpoint else .sendReferenceBuffers }
  | _ => user

/-- Its sections from `CHECKPOINT_ALLOCATE_BUFFERS` on. -/
def allocateAndSend (intCount recCount : ℤ) (c : Creation) : PoolUser :=
  if user.checkpoint = .allocateBuffers then
    match user.allocateChannelBuffers intCount recCount c.intBuffers c.recBuffers with
    | (true, user) => ({ user with checkpoint := .sendIntermediateBuffers }).sendBuffers c
    | (false, user) => { user with checkpoint := .noCheckpoint }
  else user.sendBuffers c

/-- `al5e_user_create_channel` -/
def createChannel (c : Creation) : PoolUser :=
  if user.channelIsFullyCreated then user
  -- no feedback was read, so that `fb_message` is all zeros
  else if user.haveCheckpoint then user.allocateAndSend 0 0 c
  else if c.made then
    ({ user with chanIsCreated := true, checkpoint := .allocateBuffers }).allocateAndSend c.intCount c.recCount c
  else user

/-- `al5_user_destroy_channel_resources` -/
def destroyChannelResources : PoolUser :=
  let (intBuffers, m) := user.intBuffers.free user.memory
  let (recBuffers, m) := user.recBuffers.free m
  { user with intBuffers, recBuffers, memory := m }

/-- `al5_user_destroy_channel` once it has the answer of the MCU. -/
def destroyChannel : PoolUser :=
  ({ user with chanIsCreated := false, checkpoint := .noCheckpoint }).destroyChannelResources

def codecRelease (done : Bool) : PoolUser :=
  let user := if user.chanIsCreated then (if done then user.destroyChannel else user).destroyChannelResources else user
  { user with isOpen := false }

/-- Does the entry designate a buffer that is allocated? -/
def designates (id : ℕ) : Bool :=
  match user.recBuffers.handleAt id with
  | none => false
  | some h =>
    let b := user.memory.bufferOf h
    h < user.memory.handles.acquired && user.memory.handles.releases h == 0 &&
      b < user.memory.buffers.acquired && user.memory.buffers.releases b == 0

/-- `al5_bufpool_reserve_fd` -/
def reserveFd (id : ℕ) (fd : Bool) : PoolUser :=
  match user.recBuffers.handleAt id with
  | some h => if fd then { user with memory := user.memory.dmaBufGet h, fds := h :: user.fds } else user
  | none => user

def getUserRecBuffer (id : ℤ) (fd : Bool) : PoolUser :=
  if user.recBuffers.count < id ∨ id < 0 then user
  else ({ user with reserved := user.reserved ++ [user.designates id.toNat] }).reserveFd id.toNat fd

def step : BufferPoolOp → Option PoolUser
  | .createChannel c => if user.isOpen then some (user.createChannel c) else none
  | .destroyCall =>
    if user.isOpen then
      some (if user.chanIsCreated then { user with destroyers := user.destroyers + 1 } else user)
    else none
  | .destroyLocked done =>
    if 0 < user.destroyers then
      let user := { user with destroyers := user.destroyers - 1 }
      some (if done then user.destroyChannel else user)
    else none
  | .getRec id fd => if user.isOpen && user.chanIsCreated then some (user.getUserRecBuffer id fd) else none
  | .closeFd h =>
    if h ∈ user.fds then some { user with memory := user.memory.dmaBufPut (some h), fds := user.fds.erase h }
    else none
  | .release done => if user.isOpen && user.destroyers == 0 then some (user.codecRelease done) else none

/-! ## What is claimed -/

/-- Nothing is released twice, everything is released when nothing of it is in use any more, a
pool behind a failed allocation is an empty one, and every accepted identifier designated a
buffer. -/
structure Managed : Prop where
  arrays : ∀ x, user.memory.arrays.releases x ≤ 1
  buffers : ∀ x, user.memory.buffers.releases x ≤ 1
  handles : ∀ x, user.memory.handles.releases x ≤ 1
  arraysDone : user.chanIsCreated = false ∨ user.isOpen = false →
    ∀ x < user.memory.arrays.acquired, user.memory.arrays.releases x = 1
  buffersDone : (user.chanIsCreated = false ∨ user.isOpen = false) → user.fds = [] →
    ∀ x < user.memory.buffers.acquired, user.memory.buffers.releases x = 1
  handlesDone : (user.chanIsCreated = false ∨ user.isOpen = false) → user.fds = [] →
    ∀ x < user.memory.handles.acquired, user.memory.handles.releases x = 1
  failed : ∀ pool ∈ user.failed, pool = .init
  reserved : ∀ designates ∈ user.reserved, designates = true

end PoolUser

/-! ## When it holds -/

namespace PoolUser

/-- The second array of a pool is not missing, and no identifier is the number of buffers. -/
def Meets (user : PoolUser) : BufferPoolOp → Prop
  | .createChannel c => user.chanIsCreated = false → c.made = true →
      c.intBuffers.Fits c.intCount ∧ (c.intBuffers.Succeeds c.intCount → c.recBuffers.Fits c.recCount)
  | .getRec id _ => id ≠ user.recBuffers.count
  | .destroyCall => True
  | .destroyLocked _ => True
  | .closeFd _ => True
  | .release _ => True

instance decidableMeets (user : PoolUser) : ∀ op, Decidable (user.Meets op)
  | .createChannel c => inferInstanceAs (Decidable (user.chanIsCreated = false → c.made = true →
      c.intBuffers.Fits c.intCount ∧ (c.intBuffers.Succeeds c.intCount → c.recBuffers.Fits c.recCount)))
  | .getRec id _ => inferInstanceAs (Decidable (id ≠ user.recBuffers.count))
  | .destroyCall | .destroyLocked _ | .closeFd _ | .release _ => isTrue trivial

/-! ## The invariant -/

structure Inv (user : PoolUser) : Prop where
  holds : ∃ ints recs, user.intBuffers.Keeps ints ∧ user.recBuffers.Keeps recs ∧
    user.memory.Holds (user.intBuffers.arrays ++ user.recBuffers.arrays) (ints ++ (recs ++ user.fds))
  empty : user.chanIsCreated = false ∨ user.isOpen = false → user.intBuffers = .init ∧ user.recBuffers = .init
  noCheckpoint : user.chanIsCreated = false → user.checkpoint = .noCheckpoint
  checkpoint : user.checkpoint ≠ .allocateBuffers
  failed : ∀ pool ∈ user.failed, pool = .init
  reserved : ∀ designates ∈ user.reserved, designates = true

variable {user user' : PoolUser} {op : BufferPoolOp}

theorem inv_init : init.Inv where
  holds := ⟨[], [], BuffersPool.keeps_init, BuffersPool.keeps_init, PoolMemory.Holds.init⟩
  empty := fun _ => ⟨rfl, rfl⟩
  noCheckpoint := fun _ => rfl
  checkpoint := nofun
  failed := nofun
  reserved := nofun

theorem Inv.idle (h : user.Inv) (hgone : user.chanIsCreated = false ∨ user.isOpen = false) :
    user.memory.Holds [] user.fds := by
  obtain ⟨ints, recs, hint, hrec, hm⟩ := h.holds
  obtain ⟨hi, hr⟩ := h.empty hgone
  have hints : ints = [] := List.eq_nil_of_length_eq_zero (by rw [← hint.count, hi]; rfl)
  have hrecs : recs = [] := List.eq_nil_of_length_eq_zero (by rw [← hrec.count, hr]; rfl)
  rwa [hi, hr, hints, hrecs] at hm

theorem Inv.managed (h : user.Inv) : user.Managed := by
  obtain ⟨ints, recs, hint, hrec, hm⟩ := h.holds
  refine ⟨hm.inUse.le_one, hm.buffers.le_one, hm.handles.le_one, fun hgone x hx => ?_, fun hgone hfds x hx => ?_,
    fun hgone hfds x hx => ?_, h.failed, h.reserved⟩
  · exact (h.idle hgone).inUse.released x hx (by simp)
  · exact (h.idle hgone).buffers.released x hx (by simp [hfds])
  · exact (h.idle hgone).handles.released x hx (by simp [hfds])

/-! ## The operations -/

theorem Inv.destroyChannelResources (h : user.Inv) (chanIsCreated isOpen : Bool) (checkpoint : Checkpoint)
    (hcreated : chanIsCreated = false → checkpoint = .noCheckpoint) (hcheckpoint : checkpoint ≠ .allocateBuffers) :
    Inv { user.destroyChannelResources with chanIsCreated, isOpen, checkpoint } := by
  obtain ⟨ints, recs, hint, hrec, hm⟩ := h.holds
  obtain ⟨hintFree, hm⟩ := hint.free hm
  rw [← List.append_nil user.recBuffers.arrays] at hm
  obtain ⟨hrecFree, hm⟩ := hrec.free hm
  exact ⟨⟨[], [], BuffersPool.keeps_init, BuffersPool.keeps_init, hm⟩, fun _ => ⟨hintFree, hrecFree⟩, hcreated,
    hcheckpoint, h.failed, h.reserved⟩

theorem Inv.codecRelease (h : user.Inv) (done : Bool) : (user.codecRelease done).Inv := by
  unfold PoolUser.codecRelease
  have hclose : ∀ {user : PoolUser}, user.Inv → Inv { user.destroyChannelResources with isOpen := false } :=
    fun hu => hu.destroyChannelResources _ false _ hu.noCheckpoint hu.checkpoint
  cases hcreated : user.chanIsCreated with
  | false => exact ⟨h.holds, fun _ => h.empty (.inl hcreated), h.noCheckpoint, h.checkpoint, h.failed, h.reserved⟩
  | true =>
    cases done with
    | false => exact hclose h
    | true => exact hclose (h.destroyChannelResources false user.isOpen .noCheckpoint (fun _ => rfl) nofun)

theorem Inv.withCheckpoint (h : user.Inv) (checkpoint : Checkpoint) (hne : checkpoint ≠ .allocateBuffers)
    (hcreated : user.chanIsCreated = true) : Inv { user with checkpoint } :=
  ⟨h.holds, h.empty, fun hgone => absurd (hcreated.symm.trans hgone) nofun, hne, h.failed, h.reserved⟩

theorem Inv.sendBuffers (h : user.Inv) (c : Creation) (hcreated : user.chanIsCreated = true) :
    (user.sendBuffers c).Inv := by
  unfold PoolUser.sendBuffers
  split
  · refine h.withCheckpoint _ ?_ hcreated
    split_ifs <;> nofun
  · refine h.withCheckpoint _ ?_ hcreated
    split_ifs <;> nofun
  · exact h

theorem inv_allocateChannelBuffers (hint : user.intBuffers = .init) (hrec : user.recBuffers = .init)
    (hm : user.memory.Holds [] user.fds) (hcreated : user.chanIsCreated = true) (hopen : user.isOpen = true)
    (hfailed : ∀ pool ∈ user.failed, pool = .init) (hreserved : ∀ designates ∈ user.reserved, designates = true)
    {intCount recCount : ℤ} {int reconstructed : PoolAllocation} (hfits : int.Fits intCount)
    (hfits' : int.Succeeds intCount → reconstructed.Fits recCount) {checkpoint : Checkpoint}
    (hne : checkpoint ≠ .allocateBuffers) :
    Inv { (user.allocateChannelBuffers intCount recCount int reconstructed).2 with checkpoint } ∧
      (user.allocateChannelBuffers intCount recCount int reconstructed).2.chanIsCreated = true := by
  have hfirst := BuffersPool.allocate_init hm hfits
  unfold PoolUser.allocateChannelBuffers
  rw [hint]
  have hsucceeds := @BuffersPool.allocate_true .init user.memory intCount int
  revert hfirst hsucceeds
  rcases BuffersPool.init.allocate user.memory intCount int with ⟨ok, pool, m⟩
  intro hfirst hsucceeds
  have hopen' : ∀ {p : Prop}, user.chanIsCreated = false ∨ user.isOpen = false → p := by
    intro p hgone
    simp [hcreated, hopen] at hgone
  have hcheckpoint : ∀ {p : Prop}, user.chanIsCreated = false → p := fun hgone => hopen' (.inl hgone)
  -- a failed allocation is noted with the empty pool that it left
  have hnoted : ∀ {pool : BuffersPool}, pool = .init → ∀ p ∈ user.failed ++ [pool], p = .init := by
    intro pool hpool p hp
    rw [List.mem_append, List.mem_singleton] at hp
    exact hp.elim (hfailed p) fun heq => heq.trans hpool
  cases ok with
  | false =>
    obtain ⟨rfl, hm⟩ := hfirst.failed rfl
    refine ⟨⟨⟨[], [], BuffersPool.keeps_init, ?_, ?_⟩, hopen', hcheckpoint, hne, hnoted rfl, hreserved⟩, hcreated⟩
    · dsimp only
      rw [hrec]
      exact BuffersPool.keeps_init
    · dsimp only
      rw [hrec]
      exact hm
  | true =>
    obtain ⟨hs, hkeeps, hm⟩ := hfirst.done rfl
    have hsecond := BuffersPool.allocate_init hm (hfits' (hsucceeds rfl))
    dsimp only
    rw [hrec]
    revert hsecond
    rcases BuffersPool.init.allocate m recCount reconstructed with ⟨ok', pool', m'⟩
    intro hsecond
    cases ok' with
    | false =>
      obtain ⟨rfl, hm⟩ := hsecond.failed rfl
      exact ⟨⟨⟨hs, [], hkeeps, BuffersPool.keeps_init, hm⟩, hopen', hcheckpoint, hne, hnoted rfl, hreserved⟩, hcreated⟩
    | true =>
      obtain ⟨hs', hkeeps', hm⟩ := hsecond.done rfl
      refine ⟨⟨⟨hs, hs', hkeeps, hkeeps', hm.perm ?_ ?_⟩, hopen', hcheckpoint, hne, hfailed, hreserved⟩, hcreated⟩
      · rw [List.append_nil]
        exact List.perm_append_comm
      · exact List.perm_append_comm_assoc ..

theorem Inv.createChannel (h : user.Inv) {c : Creation} (hopen : user.isOpen = true)
    (hm : user.Meets (.createChannel c)) : (user.createChannel c).Inv := by
  unfold PoolUser.createChannel
  split_ifs with hfull hresumed hmade
  · exact h
  · have hcheckpoint : user.checkpoint ≠ .noCheckpoint := of_decide_eq_true hresumed
    unfold PoolUser.allocateAndSend
    rw [if_neg h.checkpoint]
    refine h.sendBuffers c ?_
    by_contra hgone
    exact hcheckpoint (h.noCheckpoint (Bool.eq_false_iff.mpr hgone))
  · have hnone : user.checkpoint = .noCheckpoint := by
      by_contra hne
      exact hresumed (decide_eq_true hne)
    have hgone : user.chanIsCreated = false := by
      rw [Bool.eq_false_iff]
      intro hcreated
      exact hfull (by simp [channelIsFullyCreated, haveCheckpoint, hcreated, hnone])
    obtain ⟨hint, hrec⟩ := h.empty (.inl hgone)
    obtain ⟨hfits, hfits'⟩ := hm hgone hmade
    have hallocated : ∀ {checkpoint : Checkpoint}, checkpoint ≠ .allocateBuffers → _ := fun hne =>
      @inv_allocateChannelBuffers { user with chanIsCreated := true, checkpoint := .allocateBuffers } hint hrec
        (h.idle (.inl hgone)) rfl hopen h.failed h.reserved _ _ _ _ hfits hfits' _ hne
    unfold PoolUser.allocateAndSend
    rw [if_pos rfl]
    revert hallocated
    rcases PoolUser.allocateChannelBuffers _ _ _ _ _ with ⟨ok, user'⟩
    intro hallocated
    cases ok with
    | false => exact (@hallocated .noCheckpoint nofun).1
    | true => exact (@hallocated .sendIntermediateBuffers nofun).1.sendBuffers c (@hallocated .noCheckpoint nofun).2
  · exact h

theorem Inv.getUserRecBuffer (h : user.Inv) {id : ℤ} (hid : id ≠ user.recBuffers.count) (fd : Bool) :
    (user.getUserRecBuffer id fd).Inv := by
  obtain ⟨ints, recs, hint, hrec, hm⟩ := h.holds
  unfold PoolUser.getUserRecBuffer
  split_ifs with hreject
  · exact h
  · have hlt : id.toNat < recs.length := by
      have hcount := hrec.count
      omega
    have hentry : user.recBuffers.handleAt id.toNat = some recs[id.toNat] := by
      rw [hrec.handles, List.getElem?_eq_getElem hlt]
    have hmem : recs[id.toNat] ∈ ints ++ (recs ++ user.fds) := by simp
    have hdesignates : user.designates id.toNat = true := by
      have hhandle := hm.handles.lt _ hmem
      have hhandle' := hm.handles.unreleased _ hmem
      have hbuffer := hm.buffers.lt _ ⟨_, hmem, rfl⟩
      have hbuffer' := hm.buffers.unreleased _ ⟨_, hmem, rfl⟩
      simp [PoolUser.designates, hentry, hhandle, hhandle', hbuffer, hbuffer']
    have hreserved : ∀ designates ∈ user.reserved ++ [user.designates id.toNat], designates = true := by
      intro designates hd
      rw [List.mem_append, List.mem_singleton] at hd
      exact hd.elim (h.reserved designates) fun heq => heq.trans hdesignates
    unfold PoolUser.reserveFd
    dsimp only
    rw [hentry]
    cases fd with
    | false => exact ⟨⟨ints, recs, hint, hrec, hm⟩, h.empty, h.noCheckpoint, h.checkpoint, h.failed, hreserved⟩
    | true =>
      refine ⟨⟨ints, recs, hint, hrec, (hm.get hmem).perm (List.Perm.refl _) ?_⟩, h.empty, h.noCheckpoint, h.checkpoint,
        h.failed, hreserved⟩
      rw [← List.append_assoc, ← List.append_assoc]
      exact List.perm_middle.symm

theorem Inv.closeFd (h : user.Inv) {handle : ℕ} (hmem : handle ∈ user.fds) :
    Inv { user with memory := user.memory.dmaBufPut (some handle), fds := user.fds.erase handle } := by
  obtain ⟨ints, recs, hint, hrec, hm⟩ := h.holds
  refine ⟨⟨ints, recs, hint, hrec, PoolMemory.Holds.put (hm.perm (List.Perm.refl _) ?_)⟩, h.empty, h.noCheckpoint,
    h.checkpoint, h.failed, h.reserved⟩
  rw [← List.append_assoc, ← List.append_assoc]
  exact ((List.perm_cons_erase hmem).append_left _).trans List.perm_middle

theorem Inv.step (h : user.Inv) (hm : user.Meets op) (hs : user.step op = some user') : user'.Inv := by
  cases op with
  | createChannel c =>
    obtain ⟨hopen, hs⟩ := Option.ite_none_right_eq_some.mp hs
    rw [← Option.some.inj hs]
    exact h.createChannel hopen hm
  | destroyCall =>
    obtain ⟨-, hs⟩ := Option.ite_none_right_eq_some.mp hs
    rw [← Option.some.inj hs]
    split_ifs
    · exact ⟨h.holds, h.empty, h.noCheckpoint, h.checkpoint, h.failed, h.reserved⟩
    · exact h
  | destroyLocked done =>
    obtain ⟨-, hs⟩ := Option.ite_none_right_eq_some.mp hs
    have hless : Inv { user with destroyers := user.destroyers - 1 } :=
      ⟨h.holds, h.empty, h.noCheckpoint, h.checkpoint, h.failed, h.reserved⟩
    rw [← Option.some.inj hs]
    cases done with
    | false => exact hless
    | true => exact hless.destroyChannelResources false user.isOpen .noCheckpoint (fun _ => rfl) nofun
  | getRec id fd =>
    obtain ⟨-, hs⟩ := Option.ite_none_right_eq_some.mp hs
    rw [← Option.some.inj hs]
    exact h.getUserRecBuffer hm fd
  | closeFd handle =>
    obtain ⟨hmem, hs⟩ := Option.ite_none_right_eq_some.mp hs
    rw [← Option.some.inj hs]
    exact h.closeFd hmem
  | release done =>
    obtain ⟨-, hs⟩ := Option.ite_none_right_eq_some.mp hs
    rw [← Option.some.inj hs]
    exact h.codecRelease done

/-- Every run without a missing second array and without an identifier that is the number of
buffers manages its buffers. -/
theorem managed_of_run {ops : List BufferPoolOp}
    (hg : GuardedRuns.Guarded step Meets ops init) (hr : GuardedRuns.run step ops init = some user) :
    user.Managed := by
  have hinv : user.Inv := GuardedRuns.invariant_of_run (fun user op user' h hm hs => h.step hm hs) inv_init hg hr
  exact hinv.managed

/-- Allocations that succeed, but for the second array if `handles` is `false`. -/
def allocation (handles : Bool) : PoolAllocation := ⟨true, handles, fun _ => true, fun _ => true⟩

/-- A channel with two buffers of each kind; the second array of the intermediate buffers may be missing. -/
def made (handles : Bool) : Creation := ⟨true, 2, 2, allocation handles, allocation true, true, true⟩

/-- A channel whose second reconstructed buffer is handed out and kept for longer than the channel. -/
def handedOut : List BufferPoolOp :=
  [.createChannel (made true), .getRec 1 true, .destroyCall, .destroyLocked true, .release false, .closeFd 3]

theorem managed_of_run_handedOut : ∃ user, GuardedRuns.run step handedOut init = some user ∧ user.Managed := by
  have hg : GuardedRuns.Guarded step Meets handedOut init := by decide
  exact ⟨_, rfl, managed_of_run hg rfl⟩

/-- The first array is freed twice when the second one is missing, and the number of buffers is
accepted for an identifier. -/
theorem not_managed :
    (∃ user, GuardedRuns.run step [.createChannel (made false), .destroyCall, .destroyLocked true] init = some user ∧
      user.memory.arrays.releases 0 = 2 ∧ ¬ user.Managed) ∧
    ∃ user, GuardedRuns.run step [.createChannel (made true), .getRec 2 true] init = some user ∧ ¬ user.Managed := by
  refine ⟨⟨_, rfl, rfl, fun h => ?_⟩, ⟨_, rfl, fun h => ?_⟩⟩
  · exact absurd (h.arrays 0) (by decide)
  · exact absurd (h.reserved false (by decide)) nofun

end PoolUser

end VcuCodec
