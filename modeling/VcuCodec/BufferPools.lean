import VcuCodec.ChannelUsers
import VcuCodec.Ledgers

/-!
# Pools of DMA buffers

The pools of a channel (`common/al_buffers_pool.c`): an array of buffers and an array of the
dma-bufs that wrap them.  A dma-buf is counted; with its last reference it releases its
buffer.
-/

namespace VcuCodec

open Ledgers

/-! ## The kernel's side -/

/-- What `kcalloc` returns; an array without entries is `ZERO_SIZE_PTR`. -/
inductive ArrayPtr
  | null
  | zeroSize
  | array (a : ℕ)
  deriving DecidableEq

def ArrayPtr.ids : ArrayPtr → List ℕ
  | .array a => [a]
  | .null => []
  | .zeroSize => []

/-- The memory that pools are made of: arrays, DMA buffers, and dma-bufs with their references
and what they wrap. -/
structure PoolMemory where
  arrays : Ledgers.Ledger
  buffers : Ledgers.Ledger
  handles : Ledgers.Ledger
  refs : ℕ → ℕ
  bufferOf : ℕ → ℕ

namespace PoolMemory

def init : PoolMemory := ⟨.init, .init, .init, fun _ => 0, fun _ => 0⟩

variable (m : PoolMemory)

/-- `kcalloc`; a negative count is too large. -/
def kcalloc (count : ℤ) (ok : Bool) : ArrayPtr × PoolMemory :=
  if count = 0 then (.zeroSize, m)
  else if 0 < count ∧ ok = true then (.array m.arrays.acquired, { m with arrays := m.arrays.acquire })
  else (.null, m)

def kfree : ArrayPtr → PoolMemory
  | .array a => { m with arrays := m.arrays.release a }
  | .null => m
  | .zeroSize => m

/-- `al5_alloc_dma` -/
def allocDma (ok : Bool) : Option ℕ × PoolMemory :=
  if ok then (some m.buffers.acquired, { m with buffers := m.buffers.acquire }) else (none, m)

/-- `al5_free_dma` -/
def freeDma (buffer : ℕ) : PoolMemory := { m with buffers := m.buffers.release buffer }

/-- `al5_dmabuf_wrap` -/
def dmabufWrap (buffer : ℕ) (ok : Bool) : Option ℕ × PoolMemory :=
  if ok then
    (some m.handles.acquired, { m with
      handles := m.handles.acquire
      refs := Function.update m.refs m.handles.acquired 1
      bufferOf := Function.update m.bufferOf m.handles.acquired buffer })
  else (none, m)

/-- `dma_buf_put`; the last one calls `al5_dmabuf_release`. -/
def dmaBufPut : Option ℕ → PoolMemory
  | none => m
  | some h =>
    if m.refs h ≤ 1 then
      { m with
        handles := m.handles.release h
        buffers := m.buffers.release (m.bufferOf h)
        refs := Function.update m.refs h 0 }
    else { m with refs := Function.update m.refs h (m.refs h - 1) }

def dmaBufGet (h : ℕ) : PoolMemory := { m with refs := Function.update m.refs h (m.refs h + 1) }

end PoolMemory

/-! ## The pools -/

/-- `struct al5_buffers_pool` with its two arrays. -/
structure BuffersPool where
  count : ℕ
  buffers : ArrayPtr
  bufferAt : ℕ → Option ℕ
  handles : ArrayPtr
  handleAt : ℕ → Option ℕ

/-- What the allocations of a pool come to. -/
structure PoolAllocation where
  buffers : Bool
  handles : Bool
  dma : ℕ → Bool
  wrap : ℕ → Bool

namespace PoolAllocation

/-- If there is an array of buffers, there is one of dma-bufs. -/
def Fits (a : PoolAllocation) (count : ℤ) : Prop := 0 < count → a.buffers = true → a.handles = true
deriving Decidable

/-- Nothing of the allocation fails. -/
def Succeeds (a : PoolAllocation) (count : ℤ) : Prop :=
  0 ≤ count ∧ (0 < count → a.buffers = true ∧ a.handles = true) ∧
    ∀ i < count.toNat, a.dma i = true ∧ a.wrap i = true

instance decidableSucceeds (a : PoolAllocation) (count : ℤ) : Decidable (a.Succeeds count) :=
  inferInstanceAs (Decidable (0 ≤ count ∧ (0 < count → a.buffers = true ∧ a.handles = true) ∧
    ∀ i < count.toNat, a.dma i = true ∧ a.wrap i = true))

end PoolAllocation

namespace BuffersPool

/-- `al5_bufpool_init` -/
def init : BuffersPool := ⟨0, .null, fun _ => none, .null, fun _ => none⟩

/-- `al5_bufpool_free` -/
def free (pool : BuffersPool) (m : PoolMemory) : BuffersPool × PoolMemory :=
  let m := (List.range pool.count).foldl (fun m i => m.dmaBufPut (pool.handleAt i)) m
  (init, (m.kfree pool.buffers).kfree pool.handles)

/-- The loop of `al5_bufpool_allocate` from `i` on. -/
def fill (a : PoolAllocation) : (n i : ℕ) → BuffersPool → PoolMemory → Bool × BuffersPool × PoolMemory
  | 0, _, pool, m => (true, pool, m)
  | n + 1, i, pool, m =>
    match m.allocDma (a.dma i) with
    | (none, m) => (false, ({ pool with bufferAt := Function.update pool.bufferAt i none }).free m)
    | (some buffer, m) =>
      let pool := { pool with bufferAt := Function.update pool.bufferAt i (some buffer) }
      match m.dmabufWrap buffer (a.wrap i) with
      -- the entry of the error is behind `count`
      | (none, m) => (false, ({ pool with handleAt := Function.update pool.handleAt i none }).free (m.freeDma buffer))
      | (some handle, m) =>
        fill a n (i + 1) { pool with
          handleAt := Function.update pool.handleAt i (some handle)
          count := pool.count + 1 } m

/-- `al5_bufpool_allocate`; `false` stands for `-ENOMEM`. -/
def allocate (pool : BuffersPool) (m : PoolMemory) (count : ℤ) (a : PoolAllocation) :
    Bool × BuffersPool × PoolMemory :=
  let (buffers, m) := m.kcalloc count a.buffers
  let pool := { pool with count := 0, buffers, bufferAt := fun _ => none }
  if buffers = .null then (false, pool, m)
  else
    let (handles, m) := m.kcalloc count a.handles
    let pool := { pool with handles, handleAt := fun _ => none }
    -- `buffers` still points to the array
    if handles = .null then (false, pool, m.kfree buffers)
    else fill a count.toNat 0 pool m

end BuffersPool

/-! ## What is in use -/

namespace PoolMemory

/-- The arrays that are in use, and the references to dma-bufs; every other object was released
once. -/
structure Holds (m : PoolMemory) (arrays refs : List ℕ) : Prop where
  nodup : arrays.Nodup
  inUse : m.arrays.Holds {a | a ∈ arrays}
  handles : m.handles.Holds {h | h ∈ refs}
  buffers : m.buffers.Holds {b | ∃ h ∈ refs, m.bufferOf h = b}
  counted : ∀ h, m.refs h = refs.count h
  injective : ∀ h ∈ refs, ∀ h' ∈ refs, m.bufferOf h = m.bufferOf h' → h = h'

namespace Holds

variable {m m₁ m₂ : PoolMemory} {arrays arrays' refs refs' : List ℕ} {b h : ℕ} {p : ArrayPtr}

theorem init : PoolMemory.init.Holds [] [] where
  nodup := List.nodup_nil
  inUse := Ledgers.Ledger.Holds.init.congr (by simp)
  handles := Ledgers.Ledger.Holds.init.congr (by simp)
  buffers := Ledgers.Ledger.Holds.init.congr (by simp)
  counted := fun _ => rfl
  injective := by simp

theorem perm (hm : m.Holds arrays refs) (ha : arrays.Perm arrays') (hr : refs.Perm refs') : m.Holds arrays' refs' where
  nodup := ha.nodup hm.nodup
  inUse := hm.inUse.congr fun _ => ha.symm.mem_iff
  handles := hm.handles.congr fun _ => hr.symm.mem_iff
  buffers := hm.buffers.congr fun _ => by simp only [Set.mem_ofPred_eq, hr.mem_iff]
  counted := fun h => (hm.counted h).trans (hr.count_eq h)
  injective := by
    intro h hh h' hh'
    exact hm.injective h (hr.mem_iff.mpr hh) h' (hr.mem_iff.mpr hh')

theorem kcalloc (hm : m.Holds arrays refs) (count : ℤ) (ok : Bool) :
    (m.kcalloc count ok).2.Holds ((m.kcalloc count ok).1.ids ++ arrays) refs := by
  unfold PoolMemory.kcalloc
  split_ifs
  · exact hm
  · refine ⟨?_, hm.inUse.acquire.congr ?_, hm.handles, hm.buffers, hm.counted, hm.injective⟩
    · refine List.nodup_cons.mpr ⟨fun hmem => ?_, hm.nodup⟩
      exact absurd (hm.inUse.lt _ hmem) (Nat.lt_irrefl _)
    · simp [ArrayPtr.ids]
  · exact hm

theorem kfree (hm : m.Holds (p.ids ++ arrays) refs) : (m.kfree p).Holds arrays refs := by
  cases p with
  | null => exact hm
  | zeroSize => exact hm
  | array a =>
    have hnodup := List.nodup_cons.mp hm.nodup
    refine ⟨hnodup.2, (hm.inUse.release (List.mem_cons_self ..)).congr ?_, hm.handles, hm.buffers, hm.counted,
      hm.injective⟩
    intro x
    have hne : x ∈ arrays → x ≠ a := fun hx heq => hnodup.1 (heq ▸ hx)
    simp only [Set.mem_ofPred_eq, ArrayPtr.ids, List.cons_append, List.nil_append, List.mem_cons]
    tauto

theorem get (hm : m.Holds arrays refs) (hh : h ∈ refs) : (m.dmaBufGet h).Holds arrays (h :: refs) := by
  have hmem : ∀ x, x ∈ h :: refs ↔ x ∈ refs := by
    intro x
    rw [List.mem_cons]
    exact or_iff_right_of_imp fun heq => heq ▸ hh
  refine ⟨hm.nodup, hm.inUse, hm.handles.congr hmem, hm.buffers.congr fun b => ?_, fun x => ?_, fun x hx x' hx' => ?_⟩
  · simp only [Set.mem_ofPred_eq, hmem, dmaBufGet]
  · by_cases heq : x = h
    · rw [heq, List.count_cons_self, ← hm.counted h]
      exact Function.update_self ..
    · rw [List.count_cons_of_ne (Ne.symm heq), ← hm.counted x]
      exact Function.update_of_ne heq ..
  · exact hm.injective x ((hmem x).mp hx) x' ((hmem x').mp hx')

theorem put (hm : m.Holds arrays (h :: refs)) : (m.dmaBufPut (some h)).Holds arrays refs := by
  have hself := hm.counted h
  rw [List.count_cons_self] at hself
  have hother : ∀ x, x ≠ h → m.refs x = refs.count x := by
    intro x hne
    rw [hm.counted x, List.count_cons_of_ne (Ne.symm hne)]
  have hinj : ∀ x ∈ refs, ∀ x' ∈ refs, m.bufferOf x = m.bufferOf x' → x = x' := fun x hx x' hx' =>
    hm.injective x (List.mem_cons_of_mem h hx) x' (List.mem_cons_of_mem h hx')
  unfold dmaBufPut
  dsimp only
  split_ifs with hlast
  · have hnew : h ∉ refs := List.count_eq_zero.mp (by omega)
    refine ⟨hm.nodup, hm.inUse, ?_, ?_, ?_, hinj⟩
    · refine (hm.handles.release (List.mem_cons_self ..)).congr fun x => ?_
      have hne : x ∈ refs → x ≠ h := fun hx heq => hnew (heq ▸ hx)
      simp only [Set.mem_ofPred_eq, List.mem_cons]
      tauto
    · refine (hm.buffers.release ⟨h, List.mem_cons_self .., rfl⟩).congr fun b => ?_
      simp only [Set.mem_ofPred_eq]
      constructor
      · rintro ⟨x, hx, rfl⟩
        refine ⟨⟨x, List.mem_cons_of_mem h hx, rfl⟩, fun heq => hnew ?_⟩
        rwa [← hm.injective x (List.mem_cons_of_mem h hx) h (List.mem_cons_self ..) heq]
      · rintro ⟨⟨x, hx, rfl⟩, hne⟩
        rcases List.mem_cons.mp hx with rfl | hx
        · exact absurd rfl hne
        · exact ⟨x, hx, rfl⟩
    · intro x
      by_cases heq : x = h
      · rw [heq, List.count_eq_zero.mpr hnew]
        exact Function.update_self ..
      · exact (Function.update_of_ne heq ..).trans (hother x heq)
  · have hold : h ∈ refs := List.count_pos_iff.mp (by omega)
    have hmem : ∀ x, x ∈ refs ↔ x ∈ h :: refs := by
      intro x
      rw [List.mem_cons]
      exact (or_iff_right_of_imp fun heq => heq ▸ hold).symm
    refine ⟨hm.nodup, hm.inUse, hm.handles.congr hmem, hm.buffers.congr fun b => ?_, ?_, hinj⟩
    · simp only [Set.mem_ofPred_eq, hmem]
    · intro x
      by_cases heq : x = h
      · rw [heq]
        exact (Function.update_self ..).trans (by omega)
      · exact (Function.update_of_ne heq ..).trans (hother x heq)

/-- A buffer that is allocated and wrapped comes with its first reference. -/
theorem dma (hm : m.Holds arrays refs) :
    ((m.allocDma true).2.dmabufWrap m.buffers.acquired true).2.Holds arrays (m.handles.acquired :: refs) := by
  have hnew : ∀ x ∈ refs, x ≠ m.handles.acquired := fun x hx => Nat.ne_of_lt (hm.handles.lt x hx)
  have hself : Function.update m.bufferOf m.handles.acquired m.buffers.acquired m.handles.acquired =
      m.buffers.acquired := Function.update_self ..
  have hkept : ∀ x ∈ refs, Function.update m.bufferOf m.handles.acquired m.buffers.acquired x = m.bufferOf x :=
    fun x hx => Function.update_of_ne (hnew x hx) ..
  have hlt : ∀ x ∈ refs, m.bufferOf x ≠ m.buffers.acquired := fun x hx =>
    Nat.ne_of_lt (hm.buffers.lt _ ⟨x, hx, rfl⟩)
  refine ⟨hm.nodup, hm.inUse, hm.handles.acquire.congr fun x => List.mem_cons, hm.buffers.acquire.congr ?_, ?_, ?_⟩
  · intro b
    show (∃ x ∈ m.handles.acquired :: refs,
        Function.update m.bufferOf m.handles.acquired m.buffers.acquired x = b) ↔
      b = m.buffers.acquired ∨ ∃ x ∈ refs, m.bufferOf x = b
    rw [List.exists_mem_cons_iff, hself, eq_comm]
    refine or_congr_right (exists_congr fun x => and_congr_right fun hx => ?_)
    rw [hkept x hx]
  · intro x
    by_cases heq : x = m.handles.acquired
    · have hcount : refs.count m.handles.acquired = 0 := List.count_eq_zero.mpr fun hx => hnew _ hx rfl
      rw [heq, List.count_cons_self, hcount]
      exact Function.update_self ..
    · rw [List.count_cons_of_ne (Ne.symm heq), ← hm.counted x]
      exact Function.update_of_ne heq ..
  · intro x hx x' hx' heq
    change Function.update m.bufferOf m.handles.acquired m.buffers.acquired x =
      Function.update m.bufferOf m.handles.acquired m.buffers.acquired x' at heq
    rcases List.mem_cons.mp hx with rfl | hx <;> rcases List.mem_cons.mp hx' with rfl | hx'
    · rfl
    · rw [hself, hkept x' hx'] at heq
      exact absurd heq.symm (hlt x' hx')
    · rw [hself, hkept x hx] at heq
      exact absurd heq (hlt x hx)
    · rw [hkept x hx, hkept x' hx'] at heq
      exact hm.injective x hx x' hx' heq

theorem dma_unwrapped (hm : m.Holds arrays refs) :
    ((m.allocDma true).2.freeDma m.buffers.acquired).Holds arrays refs := by
  refine ⟨hm.nodup, hm.inUse, hm.handles, ?_, hm.counted, hm.injective⟩
  refine (hm.buffers.acquire.release (Set.mem_insert ..)).congr fun b => ?_
  show (∃ h ∈ refs, m.bufferOf h = b) ↔
    (b = m.buffers.acquired ∨ ∃ h ∈ refs, m.bufferOf h = b) ∧ b ≠ m.buffers.acquired
  have hne : (∃ h ∈ refs, m.bufferOf h = b) → b ≠ m.buffers.acquired := fun hb heq =>
    absurd (hm.buffers.lt b hb) (by rw [heq]; exact Nat.lt_irrefl _)
  exact ⟨fun hb => ⟨.inr hb, hne hb⟩, fun hb => hb.1.resolve_left hb.2⟩

end Holds

end PoolMemory

/-! ## What a pool keeps -/

namespace BuffersPool

def arrays (pool : BuffersPool) : List ℕ := pool.buffers.ids ++ pool.handles.ids

/-- The pool has its references to the dma-bufs `hs`. -/
structure Keeps (pool : BuffersPool) (hs : List ℕ) : Prop where
  count : pool.count = hs.length
  handles : ∀ i, pool.handleAt i = hs[i]?

variable {pool : BuffersPool} {m : PoolMemory} {hs arrays refs : List ℕ}

theorem keeps_init : init.Keeps [] := ⟨rfl, fun _ => rfl⟩

theorem foldl_put (hm : m.Holds arrays (hs ++ refs)) {entry : ℕ → Option ℕ} (hat : ∀ i < hs.length, entry i = hs[i]?) :
    ((List.range hs.length).foldl (fun m i => m.dmaBufPut (entry i)) m).Holds arrays refs := by
  induction hs generalizing m entry with
  | nil => exact hm
  | cons h hs ih =>
    have hfirst : entry 0 = some h := hat 0 (Nat.zero_lt_succ _)
    rw [List.length_cons, List.range_succ_eq_map, List.foldl_cons, List.foldl_map, hfirst]
    exact ih hm.put fun i hi => hat (i + 1) (Nat.succ_lt_succ hi)

theorem Keeps.free (hp : pool.Keeps hs) (hm : m.Holds (pool.arrays ++ arrays) (hs ++ refs)) :
    (pool.free m).1 = init ∧ (pool.free m).2.Holds arrays refs := by
  refine ⟨rfl, ?_⟩
  have hput := foldl_put hm fun i _ => hp.handles i
  rw [← hp.count, BuffersPool.arrays, List.append_assoc] at hput
  exact hput.kfree.kfree

/-- What an allocation may come to: a pool that keeps what was allocated, or an empty pool and
nothing. -/
structure Allocated (r : Bool × BuffersPool × PoolMemory) (arrays refs : List ℕ) : Prop where
  done : r.1 = true → ∃ hs, r.2.1.Keeps hs ∧ r.2.2.Holds (r.2.1.arrays ++ arrays) (hs ++ refs)
  failed : r.1 = false → r.2.1 = init ∧ r.2.2.Holds arrays refs

theorem Keeps.fill (hp : pool.Keeps hs) (hm : m.Holds (pool.arrays ++ arrays) (hs ++ refs)) (a : PoolAllocation)
    (n : ℕ) : Allocated (fill a n hs.length pool m) arrays refs := by
  induction n generalizing pool m hs with
  | zero => exact ⟨fun _ => ⟨hs, hp, hm⟩, nofun⟩
  | succ n ih =>
    unfold BuffersPool.fill
    cases hdma : a.dma hs.length with
    | false => exact ⟨nofun, fun _ => Keeps.free ⟨hp.count, hp.handles⟩ hm⟩
    | true =>
      cases hwrap : a.wrap hs.length with
      | false =>
        refine ⟨nofun, fun _ => Keeps.free ⟨hp.count, fun i => ?_⟩ hm.dma_unwrapped⟩
        by_cases hi : i = hs.length
        · rw [hi, List.getElem?_eq_none le_rfl]
          exact Function.update_self ..
        · exact (Function.update_of_ne hi ..).trans (hp.handles i)
      | true =>
        have hkeeps : (hs ++ [m.handles.acquired]).length = hs.length + 1 := by simp
        rw [← hkeeps]
        refine ih ⟨by rw [hp.count, hkeeps], fun i => ?_⟩ (hm.dma.perm (List.Perm.refl _) ?_)
        · by_cases hi : i = hs.length
          · rw [hi, List.getElem?_concat_length]
            exact Function.update_self ..
          · refine (Function.update_of_ne hi ..).trans ((hp.handles i).trans ?_)
            rcases Nat.lt_or_gt_of_ne hi with hlt | hgt
            · rw [List.getElem?_append_left hlt]
            · rw [List.getElem?_eq_none hgt.le, List.getElem?_eq_none (by simp; omega)]
        · rw [List.append_assoc, List.singleton_append]
          exact List.perm_middle.symm

variable {count : ℤ}

theorem kcalloc_eq_null {ok : Bool} :
    (m.kcalloc count ok).1 = .null ↔ count ≠ 0 ∧ ¬ (0 < count ∧ ok = true) := by
  unfold PoolMemory.kcalloc
  split_ifs with h0 hok
  · simp [h0]
  · simp [hok]
  · simp [h0, hok]

variable {a : PoolAllocation}

theorem fill_true {n i : ℕ} (h : (BuffersPool.fill a n i pool m).1 = true) :
    ∀ j, i ≤ j → j < i + n → a.dma j = true ∧ a.wrap j = true := by
  induction n generalizing i pool m with
  | zero => exact fun j hij hj => absurd hj (by omega)
  | succ n ih =>
    unfold BuffersPool.fill at h
    cases hdma : a.dma i with
    | false =>
      rw [hdma] at h
      cases h
    | true =>
      cases hwrap : a.wrap i with
      | false =>
        rw [hdma, hwrap] at h
        cases h
      | true =>
        rw [hdma, hwrap] at h
        intro j hij hj
        rcases Nat.eq_or_lt_of_le hij with rfl | hlt
        · exact ⟨hdma, hwrap⟩
        · exact ih h j hlt (by omega)

theorem allocate_true (h : (pool.allocate m count a).1 = true) : a.Succeeds count := by
  unfold BuffersPool.allocate at h
  dsimp only at h
  split_ifs at h with hnull hnull'
  rw [kcalloc_eq_null] at hnull hnull'
  refine ⟨?_, fun hpos => ⟨?_, ?_⟩, fun i hi => fill_true h i (Nat.zero_le i) (by omega)⟩
  · by_contra hneg
    exact hnull ⟨by omega, fun hpos => hneg hpos.1.le⟩
  · by_contra hno
    exact hnull ⟨hpos.ne', fun hok => hno hok.2⟩
  · by_contra hno
    exact hnull' ⟨hpos.ne', fun hok => hno hok.2⟩

/-- An empty pool gets its arrays and buffers or stays empty, unless the second array is missing. -/
theorem allocate_init (hm : m.Holds arrays refs)
    (ha : 0 < count → a.buffers = true → a.handles = true) : Allocated (init.allocate m count a) arrays refs := by
  have hbuffers := hm.kcalloc count a.buffers
  unfold BuffersPool.allocate
  dsimp only
  split_ifs with hnull hnull'
  · rw [hnull] at hbuffers
    refine ⟨nofun, fun _ => ⟨?_, hbuffers⟩⟩
    rw [hnull]
    rfl
  · rw [kcalloc_eq_null] at hnull hnull'
    refine absurd ⟨?_, ha ?_ ?_⟩ hnull'.2 <;> tauto
  · have hhandles := hbuffers.kcalloc count a.handles
    refine @Keeps.fill _ _ [] arrays refs ⟨rfl, fun _ => rfl⟩ (hhandles.perm ?_ (List.Perm.refl _)) a count.toNat
    rw [← List.append_assoc]
    exact List.perm_append_comm.append_right arrays

end BuffersPool

end VcuCodec
