import VcuCodec.CountedIds
import VcuCodec.DpbModel
import VcuCodec.GuardedRuns
import VcuCodec.IdPools
import VcuCodec.MachineInts

/-!
# The motion-vector buffer pool

The part of `lib_parsing/I_PictMngr.c` that hands out motion-vector buffers.  A
thread that acquires a buffer gets the semaphore first and then takes the mutex,
one that frees a buffer releases the semaphore behind the mutex; what is done
under the mutex is one step.  A failed assertion and an access outside of an
array have no result.
-/

namespace VcuCodec

open CountedIds IdPools

/-- `AL_TMvBufPool` -/
structure MvBufPool where
  iBufCnt : ℕ
  pFreeIDs : ℕ → ℕ
  iAccessCnt : ℕ → ℤ
  iFreeCnt : ℕ
  semaphore : ℕ

namespace MvBufPool

def init (iMaxBuf : ℕ) : Option MvBufPool :=
  if iMaxBuf ≤ maxDpbSize then
    some {
      iBufCnt := iMaxBuf
      pFreeIDs := fun i => if i < iMaxBuf then i else undefID
      iAccessCnt := fun _ => 0
      iFreeCnt := iMaxBuf
      semaphore := iMaxBuf }
  else none

/-- `sMvBufPool_GetFreeBufID` behind the semaphore -/
def getFreeBufID (p : MvBufPool) : Option (ℕ × MvBufPool) :=
  if p.iFreeCnt = 0 then none
  else
    let uMvID := p.pFreeIDs (p.iFreeCnt - 1)
    if uMvID < maxDpbSize ∧ p.iAccessCnt uMvID = 0 then
      some (uMvID, { p with
        iFreeCnt := p.iFreeCnt - 1
        iAccessCnt := Function.update p.iAccessCnt uMvID 1 })
    else none

/-- `sMvBufPool_DecrementBufID` up to the semaphore, with `bFree` -/
def decrementBufID (p : MvBufPool) (uMvID : ℕ) : Option (Bool × MvBufPool) :=
  if uMvID < maxDpbSize then
    if p.iAccessCnt uMvID ≠ 0 then
      let cnt := toInt32 (p.iAccessCnt uMvID - 1)
      let p := { p with iAccessCnt := Function.update p.iAccessCnt uMvID cnt }
      if cnt = 0 then
        if p.iFreeCnt < maxDpbSize then
          some (true, { p with
            pFreeIDs := Function.update p.pFreeIDs p.iFreeCnt uMvID
            iFreeCnt := p.iFreeCnt + 1 })
        else none
      else some (false, p)
    else some (false, p)
  else none

/-- `sMvBufPool_IncrementBufID`; the array has fewer entries than the assertion allows. -/
def incrementBufID (p : MvBufPool) (iMvID : ℕ) : Option MvBufPool :=
  if iMvID < frmBufPoolSize ∧ iMvID < maxDpbSize then
    some { p with iAccessCnt := Function.update p.iAccessCnt iMvID (toInt32 (p.iAccessCnt iMvID + 1)) }
  else none

/-- The stack of free identifiers, from its top. -/
def freeIDs (p : MvBufPool) : List ℕ := arrayStack p.pFreeIDs p.iFreeCnt

end MvBufPool

/-! ## The threads -/

/-- The pool, how many threads have got the semaphore and not yet taken a buffer, how many
have freed one and not yet released the semaphore, and the references that are held. -/
structure MvBufUse where
  pool : MvBufPool
  acquiring : ℕ
  releasing : ℕ
  refs : ℕ → ℕ

namespace MvBufUse

inductive Action
  /-- A thread calls `sMvBufPool_GetFreeBufID`, and waits while the semaphore is zero. -/
  | getSemaphore
  /-- One that has got the semaphore takes a buffer. -/
  | getFreeBufID
  | increment (iMvID : ℕ)
  | decrement (uMvID : ℕ)
  /-- A thread that has freed a buffer releases the semaphore. -/
  | releaseSemaphore

def init (iMaxBuf : ℕ) : Option MvBufUse :=
  (MvBufPool.init iMaxBuf).map fun pool => ⟨pool, 0, 0, fun _ => 0⟩

def step (s : MvBufUse) : Action → Option MvBufUse
  | .getSemaphore =>
    if s.pool.semaphore = 0 then some s
    else some { s with
      pool := { s.pool with semaphore := s.pool.semaphore - 1 }
      acquiring := s.acquiring + 1 }
  | .getFreeBufID =>
    if s.acquiring = 0 then some s
    else (s.pool.getFreeBufID).map fun (uMvID, pool) =>
      { s with pool, acquiring := s.acquiring - 1, refs := Function.update s.refs uMvID (s.refs uMvID + 1) }
  | .increment iMvID => (s.pool.incrementBufID iMvID).map fun pool =>
      { s with pool, refs := Function.update s.refs iMvID (s.refs iMvID + 1) }
  | .decrement uMvID => (s.pool.decrementBufID uMvID).map fun (bFree, pool) =>
      { s with
        pool
        releasing := if bFree then s.releasing + 1 else s.releasing
        refs := Function.update s.refs uMvID (s.refs uMvID - 1) }
  | .releaseSemaphore =>
    if s.releasing = 0 then some s
    else some { s with
      pool := { s.pool with semaphore := s.pool.semaphore + 1 }
      releasing := s.releasing - 1 }

/-- At most one release for each reference. -/
def ReleasesOnce (s : MvBufUse) : Action → Prop
  | .decrement uMvID => s.refs uMvID ≠ 0
  | _ => True

/-- References are also taken from references only, and fewer than `2^31` to one buffer. -/
def Shares (s : MvBufUse) : Action → Prop
  | .increment iMvID => s.refs iMvID ≠ 0 ∧ s.refs iMvID + 1 < 2 ^ 31
  | .decrement uMvID => s.refs uMvID ≠ 0
  | _ => True

instance decidableShares (s : MvBufUse) : ∀ a, Decidable (s.Shares a)
  | .increment iMvID => inferInstanceAs (Decidable (s.refs iMvID ≠ 0 ∧ s.refs iMvID + 1 < 2 ^ 31))
  | .decrement uMvID => inferInstanceAs (Decidable (s.refs uMvID ≠ 0))
  | .getSemaphore => isTrue trivial
  | .getFreeBufID => isTrue trivial
  | .releaseSemaphore => isTrue trivial

/-- Free identifiers are distinct, have no access and are not handed out, and the other ones
have some. -/
structure Sound (s : MvBufUse) : Prop where
  nodup : s.pool.freeIDs.Nodup
  free : ∀ id ∈ s.pool.freeIDs, s.pool.iAccessCnt id = 0
  apart : ∀ id ∈ s.pool.freeIDs, s.refs id = 0
  count : s.pool.iFreeCnt + ((List.range maxDpbSize).filter fun id => 0 < s.pool.iAccessCnt id).length =
    s.pool.iBufCnt

/-! ## What every step keeps -/

/-- The free stack with the references to each identifier. -/
def counted (s : MvBufUse) : Pool ℕ := ⟨s.pool.freeIDs, s.refs⟩

/-- The stack and the access counts are those of a pool of counted identifiers, and each free
buffer has a permit, or a thread that holds or owes one. -/
structure Inv (s : MvBufUse) : Prop where
  counted : Counted (List.range s.pool.iBufCnt) s.counted
  access : ∀ id, s.pool.iAccessCnt id = s.refs id
  small : ∀ id, s.refs id < 2 ^ 31
  permits : s.pool.iFreeCnt = s.pool.semaphore + s.acquiring + s.releasing
  bufs : s.pool.iBufCnt ≤ maxDpbSize

variable {s s' : MvBufUse} {id iMaxBuf : ℕ}

theorem init_eq (h : iMaxBuf ≤ maxDpbSize) : ∃ s, init iMaxBuf = some s ∧ s.Inv := by
  refine ⟨_, by rw [init, MvBufPool.init, if_pos h, Option.map_some], ?_⟩
  have hstack : ∀ n ≤ iMaxBuf, arrayStack (fun i => if i < iMaxBuf then i else undefID) n =
      (List.range n).reverse := by
    intro n hn
    induction n with
    | zero => rfl
    | succ n ih => rw [arrayStack, if_pos (by omega), ih (by omega), List.range_succ, List.reverse_append]; rfl
  refine ⟨⟨?_, fun x => ?_, fun x hx => absurd rfl hx⟩, fun _ => rfl, fun _ => Nat.two_pow_pos 31, rfl, h⟩
  · show (arrayStack _ iMaxBuf).Nodup
    rw [hstack iMaxBuf le_rfl, List.nodup_reverse]
    exact List.nodup_range
  · show x ∈ arrayStack _ iMaxBuf ↔ x ∈ List.range iMaxBuf ∧ 0 = 0
    rw [hstack iMaxBuf le_rfl, List.mem_reverse, and_iff_left rfl]

namespace Inv

theorem lt_of_refs (hs : s.Inv) (h : s.refs id ≠ 0) : id < s.pool.iBufCnt :=
  List.mem_range.mp (hs.counted.mem id h)

theorem iFreeCnt_lt (hs : s.Inv) (h : s.refs id ≠ 0) : s.pool.iFreeCnt < s.pool.iBufCnt := by
  have hlen := hs.counted.length_add List.nodup_range
  have hpos : 0 < ((List.range s.pool.iBufCnt).filter fun x => s.counted.refs x ≠ 0).length := by
    apply List.length_pos_of_mem (a := id)
    simpa [MvBufUse.counted, h] using hs.lt_of_refs h
  have hfree : s.counted.free.length = s.pool.iFreeCnt := length_arrayStack ..
  rw [List.length_range] at hlen
  omega

/-- A step of the pool of identifiers, with the access counts it makes. -/
theorem of_step (hs : s.Inv) {id n : ℕ} (hstep : Step s.counted s'.counted)
    (hbufs : s'.pool.iBufCnt = s.pool.iBufCnt)
    (haccess : s'.pool.iAccessCnt = Function.update s.pool.iAccessCnt id n)
    (hrefs : s'.refs = Function.update s.refs id n) (hn : n < 2 ^ 31)
    (hpermits : s'.pool.iFreeCnt = s'.pool.semaphore + s'.acquiring + s'.releasing) : s'.Inv where
  counted := hbufs ▸ hs.counted.step hstep
  access := by
    intro x
    rw [haccess, hrefs]
    by_cases hx : x = id
    · rw [hx, Function.update_self, Function.update_self]
    · rw [Function.update_of_ne hx, Function.update_of_ne hx, hs.access]
  small := by
    intro x
    rw [hrefs]
    by_cases hx : x = id
    · rwa [hx, Function.update_self]
    · rw [Function.update_of_ne hx]
      exact hs.small x
  permits := hpermits
  bufs := hbufs ▸ hs.bufs

theorem getFreeBufID (hs : s.Inv) : ∃ s', s.step .getFreeBufID = some s' ∧ s'.Inv := by
  by_cases h0 : s.acquiring = 0
  · exact ⟨s, if_pos h0, hs⟩
  · have hpermits := hs.permits
    have hbufs := hs.bufs
    have hcnt : s.pool.iFreeCnt ≠ 0 := by omega
    have hfree : s.counted.free = s.pool.pFreeIDs (s.pool.iFreeCnt - 1) ::
        arrayStack s.pool.pFreeIDs (s.pool.iFreeCnt - 1) := arrayStack_pop _ hcnt
    generalize hid : s.pool.pFreeIDs (s.pool.iFreeCnt - 1) = id at hfree
    obtain ⟨hin, href⟩ := (hs.counted.free_iff id).mp (hfree ▸ List.mem_cons_self)
    have hlt : id < s.pool.iBufCnt := List.mem_range.mp hin
    have hzero : s.refs id = 0 := href
    have haccess : s.pool.iAccessCnt id = 0 := by rw [hs.access, hzero]; rfl
    have hget : s.pool.getFreeBufID = some (id, { s.pool with
        iFreeCnt := s.pool.iFreeCnt - 1
        iAccessCnt := Function.update s.pool.iAccessCnt id 1 }) := by
      rw [MvBufPool.getFreeBufID, if_neg hcnt]
      dsimp only
      rw [hid, if_pos ⟨by omega, haccess⟩]
    refine ⟨_, by rw [step, if_neg h0, hget, Option.map_some], ?_⟩
    dsimp only
    rw [hzero]
    refine hs.of_step (n := 1) (.take hfree) rfl rfl rfl (by norm_num) ?_
    dsimp only
    omega

theorem increment (hs : s.Inv) (h : s.Shares (.increment id)) :
    ∃ s', s.step (.increment id) = some s' ∧ s'.Inv := by
  obtain ⟨href, hmax⟩ := h
  have hlt := hs.lt_of_refs href
  have hbufs := hs.bufs
  have hcnt : toInt32 (s.pool.iAccessCnt id + 1) = (s.refs id + 1 : ℕ) := by
    rw [hs.access]
    exact toInt32_of_fits ⟨by omega, by omega⟩
  have hinc : s.pool.incrementBufID id = some { s.pool with
      iAccessCnt := Function.update s.pool.iAccessCnt id (s.refs id + 1 : ℕ) } := by
    have hsize : id < frmBufPoolSize := by
      unfold frmBufPoolSize
      omega
    rw [MvBufPool.incrementBufID, if_pos ⟨hsize, by omega⟩, hcnt]
  refine ⟨_, by rw [step, hinc, Option.map_some], ?_⟩
  exact hs.of_step (.share href) rfl rfl rfl hmax hs.permits

theorem decrement (hs : s.Inv) (href : s.refs id ≠ 0) :
    ∃ s', s.step (.decrement id) = some s' ∧ s'.Inv := by
  have hlt := hs.lt_of_refs href
  have hbufs := hs.bufs
  have hroom := hs.iFreeCnt_lt href
  have hpermits := hs.permits
  have hsmall := hs.small id
  have haccess : s.pool.iAccessCnt id ≠ 0 := by
    rw [hs.access]
    exact_mod_cast href
  have hcnt : toInt32 (s.pool.iAccessCnt id - 1) = (s.refs id - 1 : ℕ) := by
    rw [hs.access, toInt32_of_fits ⟨by omega, by omega⟩]
    omega
  by_cases hlast : s.refs id = 1
  · have hdec : s.pool.decrementBufID id = some (true, { s.pool with
        iAccessCnt := Function.update s.pool.iAccessCnt id (0 : ℕ)
        pFreeIDs := Function.update s.pool.pFreeIDs s.pool.iFreeCnt id
        iFreeCnt := s.pool.iFreeCnt + 1 }) := by
      rw [MvBufPool.decrementBufID, if_pos (by omega), if_pos haccess, hcnt, hlast]
      dsimp only
      rw [if_pos (by rfl), if_pos (by omega)]
    refine ⟨_, by rw [step, hdec, Option.map_some], ?_⟩
    rw [hlast]
    refine hs.of_step (n := 0) ?_ rfl rfl rfl (by norm_num) ?_
    · have hpush := arrayStack_push s.pool.pFreeIDs s.pool.iFreeCnt id
      have hstep : Step s.counted ⟨id :: s.counted.free, Function.update s.counted.refs id 0⟩ := .release hlast
      rw [show id :: s.counted.free = _ from hpush.symm] at hstep
      exact hstep
    · dsimp only
      rw [if_pos rfl]
      omega
  · have hdec : s.pool.decrementBufID id = some (false, { s.pool with
        iAccessCnt := Function.update s.pool.iAccessCnt id (s.refs id - 1 : ℕ) }) := by
      rw [MvBufPool.decrementBufID, if_pos (by omega), if_pos haccess, hcnt]
      dsimp only
      rw [if_neg (by omega)]
    refine ⟨_, by rw [step, hdec, Option.map_some], ?_⟩
    exact hs.of_step (.drop (by show 1 < s.refs id; omega)) rfl rfl rfl (by omega) hpermits

theorem step (hs : s.Inv) {a : Action} (h : s.Shares a) : ∃ s', s.step a = some s' ∧ s'.Inv := by
  have hpermits := hs.permits
  cases a with
  | getSemaphore =>
    by_cases h0 : s.pool.semaphore = 0
    · exact ⟨s, if_pos h0, hs⟩
    · refine ⟨_, if_neg h0, hs.counted, hs.access, hs.small, ?_, hs.bufs⟩
      dsimp only
      omega
  | getFreeBufID => exact hs.getFreeBufID
  | increment iMvID => exact hs.increment h
  | decrement uMvID => exact hs.decrement h
  | releaseSemaphore =>
    by_cases h0 : s.releasing = 0
    · exact ⟨s, if_pos h0, hs⟩
    · refine ⟨_, if_neg h0, hs.counted, hs.access, hs.small, ?_, hs.bufs⟩
      dsimp only
      omega

theorem sound (hs : s.Inv) : s.Sound where
  nodup := hs.counted.nodup
  free := by
    intro id hid
    have hzero : s.refs id = 0 := ((hs.counted.free_iff id).mp hid).2
    rw [hs.access, hzero]
    rfl
  apart := fun id hid => ((hs.counted.free_iff id).mp hid).2
  count := by
    have hlen := hs.counted.length_add List.nodup_range
    rw [List.length_range, show s.counted.free.length = s.pool.iFreeCnt from length_arrayStack ..] at hlen
    have hperm : ((List.range maxDpbSize).filter fun id => 0 < s.pool.iAccessCnt id).Perm
        ((List.range s.pool.iBufCnt).filter fun id => s.counted.refs id ≠ 0) := by
      rw [List.perm_ext_iff_of_nodup (List.nodup_range.filter _) (List.nodup_range.filter _)]
      intro id
      have hbufs := hs.bufs
      have hlt : s.refs id = 0 ∨ id < s.pool.iBufCnt := or_iff_not_imp_left.mpr hs.lt_of_refs
      have haccess := hs.access id
      simp only [List.mem_filter, List.mem_range, decide_eq_true_eq]
      show id < maxDpbSize ∧ 0 < s.pool.iAccessCnt id ↔ id < s.pool.iBufCnt ∧ s.refs id ≠ 0
      omega
    rw [hperm.length_eq, hlen]

end Inv

/-- After every order of the threads' steps the pool is sound, if references are released once
and taken from references: no assertion fails, no array is left, and free identifiers and those in use
make up the buffers. -/
theorem sound_of_run {acts : List Action} (h : iMaxBuf ≤ maxDpbSize) (hs : init iMaxBuf = some s)
    (hg : GuardedRuns.Guarded MvBufUse.step Shares acts s) :
    ∃ s', GuardedRuns.run MvBufUse.step acts s = some s' ∧ s'.Sound := by
  obtain ⟨s₀, hs₀, hinv⟩ := init_eq h
  obtain rfl : s = s₀ := Option.some.inj (hs.symm.trans hs₀)
  obtain ⟨s', hr, hs'⟩ := GuardedRuns.run_of_guarded (fun s a hs h => hs.step h) hinv hg
  exact ⟨s', hr, hs'.sound⟩

/-- Two threads acquire a buffer each, one of which is shared, and all references go. -/
def shared : List Action :=
  [.getSemaphore, .getSemaphore, .getFreeBufID, .getFreeBufID, .increment 1, .decrement 1, .decrement 0,
    .decrement 1, .releaseSemaphore, .getSemaphore, .getFreeBufID]

theorem sound_of_run_shared : ∃ s, init 2 = some s ∧
    ∃ s', GuardedRuns.run MvBufUse.step shared s = some s' ∧ s'.Sound :=
  ⟨_, rfl, sound_of_run (show 2 ≤ maxDpbSize by decide) rfl (by decide)⟩

/-- A reference to a free buffer. -/
theorem not_sound_of_run :
    ¬∀ (iMaxBuf : ℕ) (acts : List Action) (s s' : MvBufUse), init iMaxBuf = some s →
      GuardedRuns.Guarded MvBufUse.step ReleasesOnce acts s →
      GuardedRuns.run MvBufUse.step acts s = some s' → s'.Sound := by
  intro h
  have hsound := h 1 [.increment 0] _ _ rfl ⟨trivial, fun _ _ => trivial⟩ rfl
  exact absurd (hsound.free 0 (by decide)) (by decide)

end MvBufUse

end VcuCodec
