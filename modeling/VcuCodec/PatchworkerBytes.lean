import VcuCodec.Patchworker
import Mathlib.Data.List.GetD

/-!
# The bytes in the stream buffer

`Delivered` is what holds after any number of steps of the feeder: the stream
buffer got a prefix of the bytes pushed, in order, and keeps those that are not
consumed.  A buffer that a reset took away while it was queued keeps its
metadata; the runs below are those in which no such buffer is pushed again.
-/

namespace VcuCodec

/-- What the stream buffer has got of the buffers pushed since the last reset. -/
structure FeederUse.Delivered (s : FeederUse) : Prop where
  inOrder : s.placed <+: s.pushed
  complete : s.patchworker.held = [] → s.placed = s.pushed
  avail_nonneg : 0 ≤ s.patchworker.iAvailSize
  avail_le : s.patchworker.iAvailSize ≤ s.patchworker.zStreamSize
  kept : RingQueues.contents s.patchworker.pStreamData s.patchworker.zStreamSize
      s.patchworker.iOffset.toNat s.patchworker.iAvailSize.toNat =
    s.placed.drop (s.placed.length - s.patchworker.iAvailSize.toNat)
  reported : s.patchworker.endOfOutput = true → s.placed = s.pushed

/-! ## Copies -/

section Memcpy

variable {mem : ℕ → UInt8} {dst i : ℕ} {src : List UInt8}

theorem memcpy_inside {k : ℕ} (h : k < src.length) : memcpy mem dst src (dst + k) = src[k] := by
  unfold memcpy
  rw [if_pos ⟨by omega, by omega⟩, Nat.add_sub_cancel_left, List.getD_eq_getElem _ _ h]

theorem memcpy_outside (h : i < dst ∨ dst + src.length ≤ i) : memcpy mem dst src i = mem i := by
  unfold memcpy
  rw [if_neg (by omega)]

end Memcpy

namespace Patchworker

variable {s : Patchworker} {src : List UInt8}

theorem copyAreaToStream_new (hend : s.uEndStream < s.zStreamSize) (hlen : src.length ≤ s.zStreamSize)
    {k : ℕ} (hk : k < src.length) :
    s.copyAreaToStream src ((s.uEndStream + k) % s.zStreamSize) = src[k] := by
  unfold copyAreaToStream
  split
  · next hwrap =>
    dsimp only
    by_cases hfirst : s.uEndStream + k < s.zStreamSize
    · rw [Nat.mod_eq_of_lt hfirst, memcpy_outside (.inr (by rw [List.length_drop]; omega)),
        memcpy_inside (by rw [List.length_take]; omega), List.getElem_take]
    · have hmod : (s.uEndStream + k) % s.zStreamSize = 0 + (k - (s.zStreamSize - s.uEndStream)) := by
        rw [Nat.mod_eq_sub_mod (by omega), Nat.mod_eq_of_lt (by omega)]
        omega
      rw [hmod, memcpy_inside (by rw [List.length_drop]; omega), List.getElem_drop]
      congr 1
      omega
  · next hwrap => rw [Nat.mod_eq_of_lt (by omega), memcpy_inside hk]

theorem copyAreaToStream_old (hend : s.uEndStream < s.zStreamSize) {i : ℕ} (hi : i < s.zStreamSize)
    (hne : ∀ k < src.length, i ≠ (s.uEndStream + k) % s.zStreamSize) :
    s.copyAreaToStream src i = s.pStreamData i := by
  have hout : ∀ k < src.length, s.uEndStream + k < s.zStreamSize → i ≠ s.uEndStream + k := by
    intro k hk hlt
    have := hne k hk
    rwa [Nat.mod_eq_of_lt hlt] at this
  unfold copyAreaToStream
  split
  · next hwrap =>
    dsimp only
    rw [memcpy_outside, memcpy_outside]
    · rw [List.length_take]
      by_contra hc
      exact hout (i - s.uEndStream) (by omega) (by omega) (by omega)
    · right
      rw [List.length_drop]
      by_contra hc
      have hk := hne (i + (s.zStreamSize - s.uEndStream)) (by omega)
      rw [show s.uEndStream + (i + (s.zStreamSize - s.uEndStream)) = i + s.zStreamSize by omega,
        Nat.add_mod_right, Nat.mod_eq_of_lt hi] at hk
      exact hk rfl
  · next hwrap =>
    apply memcpy_outside
    by_contra hc
    exact hout (i - s.uEndStream) (by omega) (by omega) (by omega)

/-! ## The invariant -/

/-- What is still to be copied of a buffer. -/
def restOf (b : InputBuffer) : List UInt8 :=
  match b.getMetaData with
  | none => []
  | some m => (b.data.drop (m.iOffset % 2 ^ 32).toNat).take (m.iAvailSize % 2 ^ 32).toNat

/-- What is still to be copied. -/
def pending (s : Patchworker) : List UInt8 := s.held.flatMap fun i => restOf (s.bufs i)

/-- The buffer ends the stream. -/
def isLast (b : InputBuffer) : Bool :=
  match b.getMetaData with
  | none => false
  | some m => m.bLastBuffer

/-- The end of the stream was pushed. -/
def ended (s : Patchworker) : Bool := s.endOfOutput || s.held.any fun i => isLast (s.bufs i)

/-- The metadata of a buffer that is held. -/
def Tracked (b : InputBuffer) : Prop :=
  ∃ (off len : ℕ) (last : Bool), b.metas = [⟨toInt32 off, toInt32 len, last⟩] ∧
    off + len ≤ b.data.length ∧ off + len < 2 ^ 32

theorem toInt32_eq {x : ℕ} (h : x < 2 ^ 32) :
    toInt32 x = if x < 2 ^ 31 then (x : ℤ) else (x : ℤ) - 2 ^ 32 := by
  unfold toInt32
  rw [Int.bmod_def]
  split <;> split <;> omega

theorem toInt32_emod {x : ℕ} (h : x < 2 ^ 32) : (toInt32 x % 2 ^ 32).toNat = x := by
  unfold toInt32
  rw [show (2 : ℤ) ^ 32 = ((2 ^ 32 : ℕ) : ℤ) by norm_num, Int.bmod_emod]
  omega

theorem restOf_eq {b : InputBuffer} {off len : ℕ} {last : Bool}
    (h : b.metas = [⟨toInt32 off, toInt32 len, last⟩]) (hlt : off + len < 2 ^ 32) :
    restOf b = (b.data.drop off).take len := by
  unfold restOf InputBuffer.getMetaData
  rw [h]
  simp only [List.head?_cons]
  rw [toInt32_emod (by omega), toInt32_emod (by omega)]

end Patchworker

/-- The invariant of the feeder. -/
structure FeederUse.Inv (s : FeederUse) : Prop where
  size_pos : 0 < s.patchworker.zStreamSize
  size_le : s.patchworker.zStreamSize ≤ 2 ^ 30
  offset_nonneg : 0 ≤ s.patchworker.iOffset
  offset_lt : s.patchworker.iOffset < s.patchworker.zStreamSize
  avail_nonneg : 0 ≤ s.patchworker.iAvailSize
  avail_le : s.patchworker.iAvailSize ≤ s.patchworker.zStreamSize
  avail_placed : s.patchworker.iAvailSize.toNat ≤ s.placed.length
  kept : RingQueues.contents s.patchworker.pStreamData s.patchworker.zStreamSize
      s.patchworker.iOffset.toNat s.patchworker.iAvailSize.toNat =
    s.placed.drop (s.placed.length - s.patchworker.iAvailSize.toNat)
  nodup : s.patchworker.held.Nodup
  tracked : ∀ i ∈ s.patchworker.held, Patchworker.Tracked (s.patchworker.bufs i)
  inOrder : s.placed ++ s.patchworker.pending = s.pushed
  last : ∀ i ∈ s.patchworker.held.dropLast, Patchworker.isLast (s.patchworker.bufs i) = false
  drained : s.patchworker.endOfOutput = true → s.patchworker.held = []

namespace FeederUse

theorem Inv.delivered {s : FeederUse} (h : s.Inv) : s.Delivered where
  inOrder := ⟨s.patchworker.pending, h.inOrder⟩
  complete hh := by
    have := h.inOrder
    rwa [Patchworker.pending, hh, List.flatMap_nil, List.append_nil] at this
  avail_nonneg := h.avail_nonneg
  avail_le := h.avail_le
  kept := h.kept
  reported he := by
    have := h.inOrder
    rwa [Patchworker.pending, h.drained he, List.flatMap_nil, List.append_nil] at this

/-- The condition: a pushed buffer has no circular metadata left of an earlier push
that a reset took back, it is smaller than 4 GiB, and nothing is pushed behind the
end of the stream. -/
def Fresh (s : FeederUse) : FeederOp → Prop
  | .push i _ uSize _ => (s.patchworker.bufs i).metas = [] ∧ uSize < 2 ^ 32 ∧
      s.patchworker.ended = false
  | _ => True

variable {s s' : FeederUse}

theorem Inv.uEndStream_eq (h : s.Inv) :
    s.patchworker.uEndStream =
      (s.patchworker.iOffset.toNat + s.patchworker.iAvailSize.toNat) % s.patchworker.zStreamSize := by
  have h1 := h.size_le
  have h2 := h.offset_nonneg
  have h3 := h.offset_lt
  have h4 := h.avail_nonneg
  have h5 := h.avail_le
  have hfit : FitsInt32 (s.patchworker.iOffset + s.patchworker.iAvailSize) := ⟨by omega, by omega⟩
  unfold Patchworker.uEndStream toSizeT
  rw [toInt32_of_fits hfit]
  congr 1
  omega

theorem Inv.endOfInput (h : s.Inv) :
    Inv { s with patchworker := { s.patchworker with endOfInput := true } } :=
  ⟨h.size_pos, h.size_le, h.offset_nonneg, h.offset_lt, h.avail_nonneg, h.avail_le, h.avail_placed,
    h.kept, h.nodup, h.tracked, h.inOrder, h.last, h.drained⟩

theorem Inv.reset (h : s.Inv) : Inv ⟨s.patchworker.reset, [], []⟩ where
  size_pos := h.size_pos
  size_le := h.size_le
  offset_nonneg := le_rfl
  offset_lt := by
    have := h.size_pos
    show (0 : ℤ) < s.patchworker.zStreamSize
    omega
  avail_nonneg := le_rfl
  avail_le := Int.natCast_nonneg _
  avail_placed := le_rfl
  kept := rfl
  nodup := List.nodup_nil
  tracked _ hi := absurd hi List.not_mem_nil
  inOrder := rfl
  last _ hi := absurd hi List.not_mem_nil
  drained _ := rfl

/-- The decoder gives bytes back from the front; a full circle leaves the offset and
gives nothing back. -/
theorem Inv.consumeUpToOffset_eq (h : s.Inv) {n : ℕ} (hn : n ≤ s.patchworker.iAvailSize.toNat) :
    ∃ m ≤ s.patchworker.iAvailSize.toNat, s.patchworker.consumeUpToOffset
        ((s.patchworker.iOffset.toNat + n) % s.patchworker.zStreamSize : ℕ) =
      some { s.patchworker with
        iAvailSize := s.patchworker.iAvailSize - m
        iOffset := ((s.patchworker.iOffset.toNat + m) % s.patchworker.zStreamSize : ℕ) } := by
  have h2 := h.offset_nonneg
  have h3 := h.offset_lt
  have h4 := h.avail_nonneg
  have h5 := h.avail_le
  have hcases : ∃ m ≤ s.patchworker.iAvailSize.toNat,
      (s.patchworker.iOffset.toNat + n) % s.patchworker.zStreamSize =
        (s.patchworker.iOffset.toNat + m) % s.patchworker.zStreamSize ∧
      (if (((s.patchworker.iOffset.toNat + n) % s.patchworker.zStreamSize : ℕ) : ℤ) <
          s.patchworker.iOffset then
        s.patchworker.iAvailSize -
          (((s.patchworker.iOffset.toNat + n) % s.patchworker.zStreamSize : ℕ) +
            s.patchworker.zStreamSize - s.patchworker.iOffset)
      else s.patchworker.iAvailSize -
        (((s.patchworker.iOffset.toNat + n) % s.patchworker.zStreamSize : ℕ) -
          s.patchworker.iOffset)) = s.patchworker.iAvailSize - m := by
    generalize s.patchworker.zStreamSize = N at *
    by_cases hin : s.patchworker.iOffset.toNat + n < N
    · refine ⟨n, hn, rfl, ?_⟩
      rw [Nat.mod_eq_of_lt hin, if_neg (by omega)]
      omega
    have hmod : (s.patchworker.iOffset.toNat + n) % N = s.patchworker.iOffset.toNat + n - N := by
      rw [Nat.mod_eq_sub_mod (by omega), Nat.mod_eq_of_lt (by omega)]
    rcases Nat.lt_or_eq_of_le (show n ≤ N by omega) with hlt | rfl
    · refine ⟨n, hn, rfl, ?_⟩
      rw [hmod, if_pos (by omega)]
      omega
    · refine ⟨0, Nat.zero_le _, by rw [Nat.add_mod_right, Nat.add_zero], ?_⟩
      rw [hmod, if_neg (by omega)]
      omega
  obtain ⟨m, hm, hoff, havail⟩ := hcases
  refine ⟨m, hm, ?_⟩
  unfold Patchworker.consumeUpToOffset
  rw [havail, if_pos (by omega), hoff]

theorem Inv.consume (h : s.Inv) {n : ℕ} (hn : n ≤ s.patchworker.iAvailSize.toNat) :
    ∃ p, s.patchworker.consumeUpToOffset
      ((s.patchworker.iOffset.toNat + n) % s.patchworker.zStreamSize : ℕ) = some p ∧
        Inv { s with patchworker := p } := by
  obtain ⟨m, hm, hrun⟩ := h.consumeUpToOffset_eq hn
  have hpos := h.size_pos
  have h4 := h.avail_nonneg
  have h5 := h.avail_le
  have hplaced := h.avail_placed
  refine ⟨_, hrun, h.size_pos, h.size_le, Int.natCast_nonneg _, Int.ofNat_lt.mpr (Nat.mod_lt _ hpos),
    by dsimp only; omega, by dsimp only; omega, by dsimp only; omega, ?_, h.nodup, h.tracked,
    h.inOrder, h.last, h.drained⟩
  have havail : (s.patchworker.iAvailSize - m).toNat = s.patchworker.iAvailSize.toNat - m := by omega
  dsimp only
  rw [Int.toNat_natCast, havail, RingQueues.contents_drop, h.kept, List.drop_drop]
  congr 1
  omega

/-! ## Pushing -/

theorem Inv.push (h : s.Inv) {i uSize : ℕ} {data : List UInt8} {bLastBuffer : Bool}
    (hheld : i ∉ s.patchworker.held) (hle : uSize ≤ data.length)
    (hmetas : (s.patchworker.bufs i).metas = []) (hsmall : uSize < 2 ^ 32)
    (hend : s.patchworker.ended = false) :
    Inv { s with
      patchworker := s.patchworker.push i data uSize bLastBuffer
      pushed := s.pushed ++ data.take uSize } := by
  obtain ⟨hout, hnone⟩ : s.patchworker.endOfOutput = false ∧
      ∀ j ∈ s.patchworker.held, Patchworker.isLast (s.patchworker.bufs j) = false := by
    simpa [Patchworker.ended] using hend
  have hheld' : (s.patchworker.push i data uSize bLastBuffer).held = s.patchworker.held ++ [i] :=
    (List.append_assoc _ _ _).symm
  have hnew : (s.patchworker.push i data uSize bLastBuffer).bufs i =
      ⟨data, [⟨toInt32 (0 : ℕ), toInt32 uSize, bLastBuffer⟩]⟩ := by
    simp [Patchworker.push, InputBuffer.addMetaData, hmetas]
  have hold : ∀ j ∈ s.patchworker.held,
      (s.patchworker.push i data uSize bLastBuffer).bufs j = s.patchworker.bufs j :=
    fun j hj => Function.update_of_ne (ne_of_mem_of_not_mem hj hheld) _ _
  refine ⟨h.size_pos, h.size_le, h.offset_nonneg, h.offset_lt, h.avail_nonneg, h.avail_le,
    h.avail_placed, h.kept, ?_, ?_, ?_, ?_, fun hend' => absurd (hout.symm.trans hend') (by decide)⟩
  · rw [hheld']
    exact List.nodup_append.mpr ⟨h.nodup, List.pairwise_singleton _ i, fun j hj k hk => by
      rw [List.mem_singleton.mp hk]
      exact ne_of_mem_of_not_mem hj hheld⟩
  · intro j hj
    rw [hheld', List.mem_append, List.mem_singleton] at hj
    rcases hj with hj | rfl
    · rw [hold j hj]
      exact h.tracked j hj
    · rw [hnew]
      exact ⟨0, uSize, bLastBuffer, rfl, by simpa using hle, by omega⟩
  · have hrest : Patchworker.restOf ((s.patchworker.push i data uSize bLastBuffer).bufs i) =
        data.take uSize := by
      rw [hnew, Patchworker.restOf_eq rfl (by omega)]
      rfl
    have hpend : s.patchworker.held.flatMap (fun j => Patchworker.restOf
        ((s.patchworker.push i data uSize bLastBuffer).bufs j)) = s.patchworker.pending :=
      List.flatMap_congr fun j hj => by rw [hold j hj]
    unfold Patchworker.pending
    rw [hheld', List.flatMap_append, hpend, List.flatMap_singleton, hrest, ← List.append_assoc,
      h.inOrder]
  · intro j hj
    rw [hheld', List.dropLast_concat] at hj
    rw [hold j hj]
    exact hnone j hj

/-! ## Copying -/

theorem held_takeWorkBuf (p : Patchworker) : p.takeWorkBuf.held = p.held := by
  unfold Patchworker.takeWorkBuf Patchworker.held
  split
  · next hw =>
    rw [hw]
    cases p.fifo <;> rfl
  · rfl

theorem Inv.takeWorkBuf (h : s.Inv) :
    Inv { s with patchworker := s.patchworker.takeWorkBuf } := by
  have hheld := held_takeWorkBuf s.patchworker
  have hrest : ∃ fifo workBuf, s.patchworker.takeWorkBuf = { s.patchworker with fifo, workBuf } := by
    unfold Patchworker.takeWorkBuf
    split
    · exact ⟨_, _, rfl⟩
    · exact ⟨_, _, rfl⟩
  obtain ⟨fifo, workBuf, hrest⟩ := hrest
  rw [hrest] at hheld ⊢
  refine ⟨h.size_pos, h.size_le, h.offset_nonneg, h.offset_lt, h.avail_nonneg, h.avail_le,
    h.avail_placed, h.kept, hheld ▸ h.nodup, ?_, ?_, ?_, fun he => hheld.trans (h.drained he)⟩
  · rw [hheld]
    exact h.tracked
  · unfold Patchworker.pending
    rw [hheld]
    exact h.inOrder
  · rw [hheld]
    exact h.last

end FeederUse

namespace Patchworker

variable {s : Patchworker} {b : InputBuffer} {off len : ℕ} {last : Bool}

theorem getCopiedAreaSize_eq (hm : b.metas = [⟨toInt32 off, toInt32 len, last⟩]) (hlen : len < 2 ^ 32)
    (h0 : 0 ≤ s.iAvailSize) (hle : s.iAvailSize ≤ s.zStreamSize) (hsize : s.zStreamSize ≤ 2 ^ 30) :
    s.getCopiedAreaSize b = min len (s.zStreamSize - s.iAvailSize.toNat) := by
  unfold getCopiedAreaSize InputBuffer.getMetaData toSizeT
  rw [hm]
  simp only [List.head?_cons]
  rw [toInt32_eq hlen]
  split <;> omega

theorem getNotCopiedAreaSize_eq {k : ℕ} (hm : b.metas = [⟨toInt32 off, toInt32 len, last⟩])
    (hlen : len < 2 ^ 32) (hk : k ≤ len) (hsmall : k ≤ 2 ^ 30) :
    (getNotCopiedAreaSize b k = 0 ↔ len = k) ∧
      toInt32 (getNotCopiedAreaSize b k) = toInt32 ((len - k : ℕ) : ℤ) := by
  have hsize : (((len : ℤ) - k) % 2 ^ 64).toNat = len - k := by omega
  unfold getNotCopiedAreaSize InputBuffer.getMetaData toSizeT
  rw [hm]
  simp only [List.head?_cons]
  rw [toInt32_eq hlen]
  split
  · rw [hsize]
    exact ⟨by omega, rfl⟩
  · -- the size is wrapped twice, to 32 bits and then to 64
    refine ⟨by omega, ?_⟩
    have hdvd : ((2 ^ 32 : ℕ) : ℤ) ∣ (((len : ℤ) - 2 ^ 32 - k) % 2 ^ 64).toNat - ((len - k : ℕ) : ℤ) := by
      omega
    unfold toInt32
    rw [Int.bmod_eq_bmod_iff_bmod_sub_eq_zero]
    exact Int.bmod_eq_zero_of_dvd hdvd

theorem bytesAt_eq {k : ℕ} (h : off + k ≤ b.data.length) :
    b.bytesAt off k = (b.data.drop off).take k := by
  unfold InputBuffer.bytesAt
  apply List.ext_getElem
  · rw [List.length_map, List.length_range, List.length_take, List.length_drop]
    omega
  · intro j h1 h2
    rw [List.length_map, List.length_range] at h1
    rw [List.getElem_map, List.getElem_range, List.getElem_take, List.getElem_drop,
      List.getD_eq_getElem]

/-- The bytes are appended to those in the stream buffer. -/
theorem contents_copyAreaToStream (src : List UInt8)
    (hend : s.uEndStream = (s.iOffset.toNat + s.iAvailSize.toNat) % s.zStreamSize)
    (hpos : 0 < s.zStreamSize) (hle : s.iAvailSize.toNat + src.length ≤ s.zStreamSize) :
    RingQueues.contents (s.copyAreaToStream src) s.zStreamSize s.iOffset.toNat
        (s.iAvailSize.toNat + src.length) =
      RingQueues.contents s.pStreamData s.zStreamSize s.iOffset.toNat s.iAvailSize.toNat ++ src := by
  have hlt : s.uEndStream < s.zStreamSize := hend ▸ Nat.mod_lt _ hpos
  apply RingQueues.contents_append hle
  · intro j hj
    rw [← copyAreaToStream_new hlt (by omega) hj, hend, Nat.mod_add_mod]
  · intro j hj hne
    apply copyAreaToStream_old hlt hj
    intro m hm
    rw [hend, Nat.mod_add_mod]
    exact hne m hm

theorem tryCopyBufferToStream_eq {k : ℕ} (hm : b.metas = [⟨toInt32 off, toInt32 len, last⟩])
    (hlt : off < 2 ^ 32) (hin : off + k ≤ b.data.length)
    (hend : s.uEndStream = (s.iOffset.toNat + s.iAvailSize.toNat) % s.zStreamSize)
    (hpos : 0 < s.zStreamSize) (hsize : s.zStreamSize ≤ 2 ^ 30) (h0 : 0 ≤ s.iAvailSize)
    (hk : s.iAvailSize + k ≤ s.zStreamSize) :
    ∃ D, s.tryCopyBufferToStream b k = { s with pStreamData := D, iAvailSize := s.iAvailSize + k } ∧
      RingQueues.contents D s.zStreamSize s.iOffset.toNat (s.iAvailSize.toNat + k) =
        RingQueues.contents s.pStreamData s.zStreamSize s.iOffset.toNat s.iAvailSize.toNat ++
          (b.data.drop off).take k := by
  have hoff : b.getBufferOffset = off := by
    unfold InputBuffer.getBufferOffset InputBuffer.getMetaData
    rw [hm]
    simp only [List.head?_cons]
    rw [toInt32_emod hlt]
  have hlen : ((b.data.drop off).take k).length = k := by
    rw [List.length_take, List.length_drop]
    omega
  unfold tryCopyBufferToStream
  split
  · next hk0 => exact ⟨s.pStreamData, by simp [hk0], by simp [hk0]⟩
  · refine ⟨s.copyAreaToStream ((b.data.drop off).take k), ?_, ?_⟩
    · have hfit : toInt32 (s.iAvailSize + k) = s.iAvailSize + k :=
        toInt32_of_fits ⟨by omega, by omega⟩
      rw [hoff, bytesAt_eq hin, hfit]
    · have happ := contents_copyAreaToStream ((b.data.drop off).take k) hend hpos (by omega)
      rwa [hlen] at happ

/-- A copy either leaves a rest of the buffer or takes its metadata away. -/
theorem copyBuffer_eq {i : ℕ} (hm : (s.bufs i).metas = [⟨toInt32 off, toInt32 len, last⟩])
    (hin : off + len ≤ (s.bufs i).data.length) (hlt : off + len < 2 ^ 32)
    (hend : s.uEndStream = (s.iOffset.toNat + s.iAvailSize.toNat) % s.zStreamSize)
    (hpos : 0 < s.zStreamSize) (hsize : s.zStreamSize ≤ 2 ^ 30) (h0 : 0 ≤ s.iAvailSize)
    (hle : s.iAvailSize ≤ s.zStreamSize) :
    ∃ k D n, k ≤ len ∧ s.iAvailSize + k ≤ s.zStreamSize ∧
      RingQueues.contents D s.zStreamSize s.iOffset.toNat (s.iAvailSize.toNat + k) =
        RingQueues.contents s.pStreamData s.zStreamSize s.iOffset.toNat s.iAvailSize.toNat ++
          ((s.bufs i).data.drop off).take k ∧
      s.copyBuffer i = (n, k, { s with
        pStreamData := D
        iAvailSize := s.iAvailSize + k
        endOfOutput := if n = 0 then s.endOfOutput || last else s.endOfOutput
        bufs := Function.update s.bufs i { s.bufs i with
          metas := if n = 0 then [] else [⟨toInt32 (off + k : ℕ), toInt32 (len - k : ℕ), last⟩] } }) ∧
      (n = 0 ↔ len = k) := by
  have hk := getCopiedAreaSize_eq hm (by omega) h0 hle hsize
  generalize hkdef : s.getCopiedAreaSize (s.bufs i) = k at hk
  obtain ⟨D, hcopy, hcont⟩ := tryCopyBufferToStream_eq (k := k) hm (by omega) (by omega)
    hend hpos hsize h0 (by omega)
  obtain ⟨hzero, hrest⟩ := getNotCopiedAreaSize_eq (k := k) hm (by omega) (by omega) (by omega)
  refine ⟨k, D, getNotCopiedAreaSize (s.bufs i) k, by omega, by omega, hcont, ?_, hzero⟩
  unfold copyBuffer
  dsimp only
  rw [hkdef, hcopy]
  by_cases hn : getNotCopiedAreaSize (s.bufs i) k = 0
  · simp only [hn, ne_eq, not_true_eq_false, if_false, if_true]
    unfold InputBuffer.getMetaData InputBuffer.removeMetaData
    rw [hm]
    rfl
  · simp only [hn, ne_eq, not_false_eq_true, if_true, if_false]
    unfold updateConsumedSpaceInBuffer
    rw [hm]
    simp only [hrest, toInt32_toInt32_add, Nat.cast_add]

end Patchworker

namespace FeederUse

variable {s : FeederUse}

/-- Moving a chunk from what is pending to the stream buffer keeps the invariant. -/
theorem Inv.copied (h : s.Inv) {q : Patchworker} {chunk : List UInt8}
    (hsize : q.zStreamSize = s.patchworker.zStreamSize) (hoff : q.iOffset = s.patchworker.iOffset)
    (havail : q.iAvailSize = s.patchworker.iAvailSize + chunk.length)
    (hle : q.iAvailSize ≤ s.patchworker.zStreamSize)
    (hcont : RingQueues.contents q.pStreamData s.patchworker.zStreamSize s.patchworker.iOffset.toNat
        (s.patchworker.iAvailSize.toNat + chunk.length) =
      RingQueues.contents s.patchworker.pStreamData s.patchworker.zStreamSize
        s.patchworker.iOffset.toNat s.patchworker.iAvailSize.toNat ++ chunk)
    (hnodup : q.held.Nodup) (htracked : ∀ i ∈ q.held, Patchworker.Tracked (q.bufs i))
    (hpend : s.patchworker.pending = chunk ++ q.pending)
    (hlast : ∀ i ∈ q.held.dropLast, Patchworker.isLast (q.bufs i) = false)
    (hover : q.endOfOutput = true → q.held = []) :
    newBytes s.patchworker q = chunk ∧
      Inv { s with patchworker := q, placed := s.placed ++ chunk } := by
  have h2 := h.offset_nonneg
  have h4 := h.avail_nonneg
  have hplaced := h.avail_placed
  have htoNat : q.iAvailSize.toNat = s.patchworker.iAvailSize.toNat + chunk.length := by omega
  constructor
  · have hsum : (s.patchworker.iOffset + s.patchworker.iAvailSize).toNat =
        s.patchworker.iOffset.toNat + s.patchworker.iAvailSize.toNat := by omega
    have hnew : (q.iAvailSize - s.patchworker.iAvailSize).toNat =
        s.patchworker.iAvailSize.toNat + chunk.length - s.patchworker.iAvailSize.toNat := by omega
    unfold newBytes
    rw [hsize, hsum, hnew, RingQueues.contents_drop, hcont]
    apply List.drop_left'
    exact RingQueues.length_contents
  · refine ⟨hsize ▸ h.size_pos, hsize ▸ h.size_le, hoff ▸ h.offset_nonneg, ?_, ?_, ?_, ?_, ?_, hnodup,
      htracked, ?_, hlast, hover⟩
    · dsimp only
      rw [hsize, hoff]
      exact h.offset_lt
    · dsimp only
      omega
    · dsimp only
      rwa [hsize]
    · dsimp only
      rw [htoNat, List.length_append]
      omega
    · dsimp only
      rw [hsize, hoff, htoNat, hcont, h.kept, List.length_append, Nat.add_sub_add_right,
        List.drop_append_of_le_length (Nat.sub_le _ _)]
    · dsimp only
      rw [List.append_assoc, ← hpend, h.inOrder]

theorem Inv.copyBuffer (h : s.Inv) {i : ℕ} (hwork : s.patchworker.workBuf = some i) :
    let r := s.patchworker.copyBuffer i
    let q := if r.1 ≠ 0 then r.2.2 else { r.2.2 with workBuf := none }
    Inv { s with patchworker := q, placed := s.placed ++ newBytes s.patchworker q } := by
  have hheld : s.patchworker.held = i :: s.patchworker.fifo := by
    unfold Patchworker.held
    rw [hwork]
    rfl
  have hnodup := h.nodup
  have htracked := h.tracked
  have hlast := h.last
  rw [hheld] at hnodup htracked hlast
  have hother : ∀ j ∈ s.patchworker.fifo, j ≠ i := fun j hj =>
    ne_of_mem_of_not_mem hj (List.nodup_cons.mp hnodup).1
  obtain ⟨off, len, last, hm, hin, hlt⟩ := htracked i List.mem_cons_self
  obtain ⟨k, D, n, hkl, hfree, hcont, hcopy, hzero⟩ := Patchworker.copyBuffer_eq hm hin hlt
    h.uEndStream_eq h.size_pos h.size_le h.avail_nonneg h.avail_le
  generalize hchunk : ((s.patchworker.bufs i).data.drop off).take k = chunk at hcont
  have hlen : chunk.length = k := by
    rw [← hchunk, List.length_take, List.length_drop]
    omega
  have hpend : s.patchworker.pending = chunk ++ (((s.patchworker.bufs i).data.drop (off + k)).take
      (len - k) ++ s.patchworker.fifo.flatMap fun j => Patchworker.restOf (s.patchworker.bufs j)) := by
    unfold Patchworker.pending
    rw [hheld, List.flatMap_cons, Patchworker.restOf_eq hm hlt, ← List.append_assoc, ← hchunk,
      ← List.drop_drop, ← List.take_add, Nat.add_sub_cancel' hkl]
  have hfifo : ∀ (b : InputBuffer), ∀ j ∈ s.patchworker.fifo,
      Function.update s.patchworker.bufs i b j = s.patchworker.bufs j :=
    fun b j hj => Function.update_of_ne (hother j hj) _ _
  have hlastOf : Patchworker.isLast (s.patchworker.bufs i) = last := by
    unfold Patchworker.isLast InputBuffer.getMetaData
    rw [hm]
    rfl
  have hout : s.patchworker.endOfOutput = false := by
    by_contra hc
    have := h.drained (Bool.not_eq_false _ ▸ hc)
    rw [hheld] at this
    exact List.cons_ne_nil _ _ this
  suffices hsuff : ∀ q : Patchworker, (s.patchworker.copyBuffer i).1 = n →
      q = (if (s.patchworker.copyBuffer i).1 ≠ 0 then (s.patchworker.copyBuffer i).2.2
        else { (s.patchworker.copyBuffer i).2.2 with workBuf := none }) →
      newBytes s.patchworker q = chunk ∧
        Inv { s with patchworker := q, placed := s.placed ++ chunk } by
    obtain ⟨hnew, hinv⟩ := hsuff _ (by rw [hcopy]) rfl
    dsimp only
    rw [hnew]
    exact hinv
  intro q hn1 hq
  rw [hn1, hcopy] at hq
  dsimp only at hq
  by_cases hn : n = 0
  · -- the last piece: the buffer is done with
    obtain rfl := hzero.mp hn
    rw [Nat.sub_self, List.take_zero, List.nil_append] at hpend
    simp only [hn, ne_eq, not_true_eq_false, if_false, if_true] at hq
    have hqheld : q.held = s.patchworker.fifo := by rw [hq]; rfl
    have hqbufs : ∀ j ∈ s.patchworker.fifo, q.bufs j = s.patchworker.bufs j := by
      rw [hq]
      exact hfifo _
    apply h.copied
    · rw [hq]
    · rw [hq]
    · rw [hq, hlen]
    · rw [hq]
      exact hfree
    · rw [hq, hlen]
      exact hcont
    · rw [hqheld]
      exact (List.nodup_cons.mp hnodup).2
    · rw [hqheld]
      intro j hj
      rw [hqbufs j hj]
      exact htracked j (List.mem_cons_of_mem _ hj)
    · rw [hpend]
      unfold Patchworker.pending
      rw [hqheld]
      congr 1
      apply List.flatMap_congr
      intro j hj
      rw [hqbufs j hj]
    · rw [hqheld]
      intro j hj
      rw [hqbufs j (List.dropLast_subset _ hj)]
      apply hlast
      rw [List.dropLast_cons_of_ne_nil (List.ne_nil_of_mem (List.dropLast_subset _ hj))]
      exact List.mem_cons_of_mem _ hj
    · rw [hqheld, hq, hout]
      intro hend
      by_contra hc
      have := hlast i (by rw [List.dropLast_cons_of_ne_nil hc]; exact List.mem_cons_self)
      rw [hlastOf] at this
      rw [this] at hend
      exact Bool.noConfusion hend
  · simp only [hn, ne_eq, not_false_eq_true, if_true, if_false] at hq
    have hqheld : q.held = i :: s.patchworker.fifo := by rw [← hheld, hq]; rfl
    have hqbufs : ∀ j ∈ s.patchworker.fifo, q.bufs j = s.patchworker.bufs j := by
      rw [hq]
      exact hfifo _
    have hqi : q.bufs i = { s.patchworker.bufs i with
        metas := [⟨toInt32 (off + k : ℕ), toInt32 (len - k : ℕ), last⟩] } := by
      rw [hq]
      exact Function.update_self ..
    apply h.copied
    · rw [hq]
    · rw [hq]
    · rw [hq, hlen]
    · rw [hq]
      exact hfree
    · rw [hq, hlen]
      exact hcont
    · rw [hqheld]
      exact hnodup
    · rw [hqheld]
      intro j hj
      rcases List.mem_cons.mp hj with rfl | hj
      · rw [hqi]
        exact ⟨off + k, len - k, last, rfl, by dsimp only; omega, by omega⟩
      · rw [hqbufs j hj]
        exact htracked j (List.mem_cons_of_mem _ hj)
    · rw [hpend]
      unfold Patchworker.pending
      rw [hqheld, List.flatMap_cons, hqi, Patchworker.restOf_eq rfl (by omega)]
      congr 2
      apply List.flatMap_congr
      intro j hj
      rw [hqbufs j hj]
    · rw [hqheld]
      intro j hj
      rcases List.mem_cons.mp (List.dropLast_subset _ hj) with rfl | hmem
      · have := hlast j hj
        rw [hlastOf] at this
        rw [hqi]
        exact this
      · rw [hqbufs j hmem]
        exact hlast j hj
    · rw [hq, hout]
      intro hend
      exact Bool.noConfusion hend

theorem Inv.transfer (h : s.Inv) : Inv { s with
    patchworker := s.patchworker.transfer.2
    placed := s.placed ++ newBytes s.patchworker s.patchworker.transfer.2 } := by
  have htake := h.takeWorkBuf
  have hsame : ∀ q, newBytes s.patchworker.takeWorkBuf q = newBytes s.patchworker q := by
    intro q
    unfold Patchworker.takeWorkBuf newBytes
    split <;> rfl
  unfold Patchworker.transfer
  dsimp only
  split
  · next hnone =>
    dsimp only
    rw [← hsame]
    unfold newBytes
    rw [sub_self]
    show Inv { s with patchworker := _, placed := s.placed ++ [] }
    rw [List.append_nil]
    exact htake
  · next i hwork =>
    have hcopy := htake.copyBuffer hwork
    dsimp only at hcopy
    rw [hsame] at hcopy
    exact hcopy

/-! ## Runs -/

theorem Inv.step (h : s.Inv) (op : FeederOp) (hallowed : s.Allowed op) (hfresh : s.Fresh op) :
    ∃ s', s.step op = some s' ∧ s'.Inv := by
  cases op with
  | push i data uSize bLastBuffer =>
    exact ⟨_, rfl, h.push hallowed.1 hallowed.2 hfresh.1 hfresh.2.1 hfresh.2.2⟩
  | transfer => exact ⟨_, rfl, h.transfer⟩
  | consume iNewOffset =>
    obtain ⟨n, hn, rfl⟩ := hallowed
    obtain ⟨p, hp, hinv⟩ := h.consume hn
    refine ⟨_, ?_, hinv⟩
    show (do
      let p ← s.patchworker.consumeUpToOffset _
      return { s with patchworker := p }) = _
    rw [← Nat.cast_add, ← Int.natCast_mod, hp]
    rfl
  | endOfInput => exact ⟨_, rfl, h.endOfInput⟩
  | reset => exact ⟨_, rfl, h.reset⟩

theorem start_inv (data : ℕ → List UInt8) {zStreamSize : ℕ} (pStreamData : ℕ → UInt8)
    (hpos : 0 < zStreamSize) (hle : zStreamSize ≤ 2 ^ 30) :
    (start data zStreamSize pStreamData).Inv where
  size_pos := hpos
  size_le := hle
  offset_nonneg := le_rfl
  offset_lt := Int.natCast_pos.mpr hpos
  avail_nonneg := le_rfl
  avail_le := Int.natCast_nonneg _
  avail_placed := le_rfl
  kept := rfl
  nodup := List.nodup_nil
  tracked _ hi := absurd hi List.not_mem_nil
  inOrder := rfl
  last _ hi := absurd hi List.not_mem_nil
  drained _ := rfl

instance (s : FeederUse) : ∀ op, Decidable (s.Allowed op)
  | .push _ _ _ _ => inferInstanceAs (Decidable (_ ∧ _))
  | .consume _ => inferInstanceAs (Decidable (∃ n ≤ _, _))
  | .transfer => isTrue trivial
  | .endOfInput => isTrue trivial
  | .reset => isTrue trivial

instance (s : FeederUse) : ∀ op, Decidable (s.Fresh op)
  | .push _ _ _ _ => inferInstanceAs (Decidable (_ ∧ _ ∧ _))
  | .transfer => isTrue trivial
  | .consume _ => isTrue trivial
  | .endOfInput => isTrue trivial
  | .reset => isTrue trivial

/-- In a run whose pushes are all fresh nothing fails, and what the stream buffer
gets are the bytes pushed. -/
theorem run_delivered {data : ℕ → List UInt8} {zStreamSize : ℕ} {pStreamData : ℕ → UInt8}
    {ops : List FeederOp} (hpos : 0 < zStreamSize) (hle : zStreamSize ≤ 2 ^ 30)
    (hg : GuardedRuns.Guarded step (fun s op => s.Allowed op ∧ s.Fresh op) ops
      (start data zStreamSize pStreamData)) :
    ∃ s, GuardedRuns.run step ops (start data zStreamSize pStreamData) = some s ∧ s.Delivered := by
  obtain ⟨s, hrun, hinv⟩ := GuardedRuns.run_of_guarded (fun s op (hs : s.Inv) ha => hs.step op ha.1 ha.2)
    (start_inv data pStreamData hpos hle) hg
  exact ⟨s, hrun, hinv.delivered⟩

/-- Two buffers through a stream buffer of four bytes, the second in two pieces. -/
def twoBuffers : List FeederOp :=
  [.push 0 [1, 2, 3] 3 false, .push 1 [4, 5, 6] 3 true, .transfer, .transfer, .consume 3, .transfer,
    .consume 2, .reset, .push 0 [7] 1 false, .transfer]

theorem twoBuffers_delivered :
    ∃ s, GuardedRuns.run step twoBuffers (start (fun _ => []) 4 fun _ => 0) = some s ∧ s.Delivered :=
  run_delivered (by decide) (by decide) (by decide +kernel)

/-- A buffer is dropped after two of its three bytes and pushed again. -/
def droppedBuffer : List FeederOp :=
  [.push 0 [1, 2, 3] 3 false, .transfer, .reset, .push 0 [4, 5, 6] 3 false, .transfer]

/-- The copy goes on behind the bytes that were copied before the reset. -/
theorem not_run_delivered :
    ¬ ∀ (data : ℕ → List UInt8) (zStreamSize : ℕ) (pStreamData : ℕ → UInt8) (ops : List FeederOp),
      0 < zStreamSize → zStreamSize ≤ 2 ^ 30 →
      GuardedRuns.Guarded step Allowed ops (start data zStreamSize pStreamData) →
      ∃ s, GuardedRuns.run step ops (start data zStreamSize pStreamData) = some s ∧
        s.Delivered := by
  intro h
  obtain ⟨s, hrun, hs⟩ := h (fun _ => []) 2 (fun _ => 0) droppedBuffer (by decide) (by decide)
    (by decide +kernel)
  have hplaced : (GuardedRuns.run step droppedBuffer (start (fun _ => []) 2 fun _ => 0)).map
      (fun s => s.placed) = some [6] := by decide +kernel
  have hpushed : (GuardedRuns.run step droppedBuffer (start (fun _ => []) 2 fun _ => 0)).map
      (fun s => s.pushed) = some [4, 5, 6] := by decide +kernel
  rw [hrun] at hplaced hpushed
  have horder := hs.inOrder
  have hplaced : s.placed = [6] := Option.some.inj hplaced
  have hpushed : s.pushed = [4, 5, 6] := Option.some.inj hpushed
  rw [hplaced, hpushed] at horder
  revert horder
  decide

end FeederUse

end VcuCodec
