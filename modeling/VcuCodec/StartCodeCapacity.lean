import VcuCodec.StartCodeRuns

/-!
# The capacity of the start-code table

The table has `iStackSize * MAX_NAL_UNIT` entries and a 16-bit counter.  The search of a decoding
unit asks for room before it refills the table, in bytes and for less than an answer of the
detector takes; a refill of split input does not ask.
-/

namespace VcuCodec

/-- `SCTable` holds `iStackSize * MAX_NAL_UNIT` NAL units. -/
def ScConfig.capacity (c : ScConfig) : ℕ := c.iStackSize * 4096

/-- `ScParam.MaxSize`, the start codes that one detection is asked for. -/
def scdMaxSize : ℕ := 128 / 8

/-- The first `uNumSC` entries of the table; `written` is how many entries, from the start of the
table on, were written since it was allocated. -/
structure ScTable where
  table : List TableNal
  iNumSlicesRemaining : ℤ
  written : ℕ

inductive ScTableOp
  /-- One turn of `FindNextDecodingUnit`: a unit is found, and consumed unless its decoding gives
  up, or else the detector answers. -/
  | turn (pBuf : ℕ → ℕ) (iOffset : ℕ) (src : List (ℕ × ℕ)) (consumed : Bool)
  /-- One turn of the loop of `FillNalInfo`. -/
  | refill (iOffset : ℕ) (src : List (ℕ × ℕ))
  /-- `DecodeOneUnit` with all that `FillNalInfo` put in the table. -/
  | decode (consumed : Bool)
  /-- `AL_Default_Decoder_FlushInput` -/
  | flush

/-- The answer of the detector. -/
def ScTableOp.src : ScTableOp → List (ℕ × ℕ)
  | turn _ _ src _ | refill _ src => src
  | _ => []

namespace ScTable

def start : ScTable := ⟨[], 0, 0⟩

/-- `dst[pCtx->uNumSC++] = nal`, with a counter of 16 bits. -/
def put (t : ScTable) (nal : TableNal) : ScTable :=
  { t with
    table := if t.table.length + 1 = 2 ^ 16 then [] else t.table ++ [nal]
    written := max t.written (t.table.length + 1) }

/-- `RefillStartCodes` -/
def refill (c : ScConfig) (iOffset : ℕ) (t : ScTable) (src : List (ℕ × ℕ)) : ScTable :=
  let t := match src with
    | [] => t
    | first :: _ => { t with table := c.closeLast first.1 t.table }
  (c.newNals iOffset src).foldl put t

def step (c : ScConfig) (bSplitInput : Bool) (t : ScTable) : ScTableOp → Option ScTable
  | .turn pBuf iOffset src consumed => do
    if bSplitInput then none else
    let (found, u) ← c.searchNextDecodingUnit pBuf t.table t.iNumSlicesRemaining
    let t := { t with iNumSlicesRemaining := u.iNumSlicesRemaining }
    match found with
    | some iLast =>
      return if consumed then { t with table := t.table.drop (iLast + 1).toNat } else t
    | none =>
      -- a full table is cleared to avoid a stall
      let t := if c.canStoreMoreStartCodes t.table then t else { t with table := [] }
      return t.refill c iOffset src
  | .refill iOffset src => if bSplitInput then some (t.refill c iOffset src) else none
  | .decode consumed =>
    if bSplitInput then some (if consumed then { t with table := [] } else t) else none
  | .flush => some { t with table := [] }

/-- No more entries were written than the table has. -/
def Within (c : ScConfig) (t : ScTable) : Prop := t.written ≤ c.capacity

/-- Where the counter comes to its end first, nothing is to be asked.  Else a table with 12 to
15 free entries must not get an answer of more start codes than that when it is searched for a
unit, and the chunks of split input must fit until they are decoded. -/
def Fits (c : ScConfig) (t : ScTable) (op : ScTableOp) : Prop :=
  2 ^ 16 ≤ c.capacity ∨
    match op with
    | .turn pBuf _ src _ =>
      (∃ u, c.searchNextDecodingUnit pBuf t.table t.iNumSlicesRemaining = some (none, u)) →
        t.table.length + 12 ≤ c.capacity → t.table.length + src.length ≤ c.capacity
    | .refill _ src => t.table.length + src.length ≤ c.capacity
    | _ => True

/-- The entries in use are among those written, and the counter is one of 16 bits. -/
structure Sized (t : ScTable) : Prop where
  le : t.table.length ≤ t.written
  lt : t.table.length < 2 ^ 16

variable {c : ScConfig} {bSplitInput : Bool} {t t' : ScTable}

theorem written_put (t : ScTable) (nal : TableNal) :
    (t.put nal).written = max t.written (t.table.length + 1) := rfl

theorem length_put (t : ScTable) (nal : TableNal) :
    (t.put nal).table.length = if t.table.length + 1 = 2 ^ 16 then 0 else t.table.length + 1 := by
  unfold put
  split_ifs <;> simp

theorem Sized.put (ht : t.Sized) (nal : TableNal) : (t.put nal).Sized := by
  have hlt := ht.lt
  have hle := ht.le
  constructor
  · rw [length_put, written_put]
    split_ifs <;> omega
  · rw [length_put]
    split_ifs <;> omega

theorem Sized.puts (ht : t.Sized) (nals : List TableNal) : (nals.foldl ScTable.put t).Sized := by
  induction nals generalizing t with
  | nil => exact ht
  | cons nal nals ih => exact ih (ht.put nal)

theorem Sized.written_puts (ht : t.Sized) (nals : List TableNal) :
    (nals.foldl ScTable.put t).written =
      max t.written (min (t.table.length + nals.length) (2 ^ 16)) := by
  induction nals generalizing t with
  | nil =>
    have hle := ht.le
    simp only [List.foldl_nil, List.length_nil, Nat.add_zero]
    omega
  | cons nal nals ih =>
    have hlt := ht.lt
    rw [List.foldl_cons, ih (ht.put nal), length_put, written_put, List.length_cons]
    split_ifs <;> omega

theorem Sized.close (ht : t.Sized) (uPosition : ℕ) :
    Sized { t with table := c.closeLast uPosition t.table } := by
  constructor
  · exact (ScConfig.length_closeLast (c := c)).trans_le ht.le
  · exact (ScConfig.length_closeLast (c := c)).trans_lt ht.lt

theorem Sized.refill (ht : t.Sized) (iOffset : ℕ) (src : List (ℕ × ℕ)) :
    (t.refill c iOffset src).Sized := by
  cases src with
  | nil => exact ht
  | cons first rest => exact (ht.close first.1).puts _

theorem Sized.written_refill (ht : t.Sized) (iOffset : ℕ) (src : List (ℕ × ℕ)) :
    (t.refill c iOffset src).written =
      max t.written (min (t.table.length + src.length) (2 ^ 16)) := by
  cases src with
  | nil => exact ht.written_puts []
  | cons first rest =>
    have h := (ht.close (c := c) first.1).written_puts (c.newNals iOffset (first :: rest))
    rwa [ScConfig.length_closeLast, ScConfig.length_newNals] at h

theorem canStoreMoreStartCodes_iff (hstack : 1 ≤ c.iStackSize) (table : List TableNal) :
    c.canStoreMoreStartCodes table ↔ table.length + 12 ≤ c.capacity := by
  simp only [ScConfig.canStoreMoreStartCodes, ScConfig.capacity, decide_eq_true_eq]
  omega

variable {src : List (ℕ × ℕ)} {pBuf : ℕ → ℕ}

theorem step_turn_none {iOffset : ℕ} {consumed : Bool} {u : UnitSearch}
    (hsearch : c.searchNextDecodingUnit pBuf t.table t.iNumSlicesRemaining = some (none, u)) :
    step c false t (.turn pBuf iOffset src consumed) = some (refill c iOffset
        (if c.canStoreMoreStartCodes t.table then
          { t with iNumSlicesRemaining := u.iNumSlicesRemaining }
        else { t with table := [], iNumSlicesRemaining := u.iNumSlicesRemaining }) src) := by
  simp only [step, Bool.false_eq_true, if_false, hsearch, Option.bind_eq_bind, Option.bind_some,
    Option.pure_def]

theorem step_turn_some {iOffset : ℕ} {consumed : Bool} {u : UnitSearch} {iLast : ℤ}
    (hsearch : c.searchNextDecodingUnit pBuf t.table t.iNumSlicesRemaining = some (some iLast, u)) :
    step c false t (.turn pBuf iOffset src consumed) = some { t with
        table := if consumed then t.table.drop (iLast + 1).toNat else t.table
        iNumSlicesRemaining := u.iNumSlicesRemaining } := by
  cases consumed <;>
  simp only [step, Bool.false_eq_true, if_false, if_true, hsearch, Option.bind_eq_bind,
    Option.bind_some, Option.pure_def]

theorem Sized.refill_within (ht : t.Sized) (hin : t.Within c) (iOffset : ℕ) (src : List (ℕ × ℕ)) :
    (t.refill c iOffset src).Within c ↔
      2 ^ 16 ≤ c.capacity ∨ t.table.length + src.length ≤ c.capacity := by
  unfold Within at hin ⊢
  rw [ht.written_refill]
  omega

/-- A step takes entries off the table, and may then refill it; `Fits` says of a refill that it
fits into what is left. -/
inductive StepCases (c : ScConfig) (t : ScTable) (op : ScTableOp) (t' : ScTable) : Prop
  | shrunk (hlength : t'.table.length ≤ t.table.length) (hwritten : t'.written = t.written)
      (hfits : t.Fits c op)
  | refilled (t₁ : ScTable) (iOffset : ℕ) (hlength : t₁.table.length ≤ t.table.length)
      (hwritten : t₁.written = t.written) (heq : t' = t₁.refill c iOffset op.src)
      (hfits : t.Fits c op ↔
        2 ^ 16 ≤ c.capacity ∨ t₁.table.length + op.src.length ≤ c.capacity)

variable {op : ScTableOp}

theorem step_cases (hstack : 1 ≤ c.iStackSize)
    (hsrc : op.src.length ≤ scdMaxSize) (h : step c bSplitInput t op = some t') :
    StepCases c t op t' := by
  cases op with
  | turn pBuf iOffset src consumed =>
    cases bSplitInput with
    | true => simp [step] at h
    | false =>
      cases hsearch : c.searchNextDecodingUnit pBuf t.table t.iNumSlicesRemaining with
      | none => simp [step, hsearch] at h
      | some r =>
        obtain ⟨found, u⟩ := r
        cases found with
        | some iLast =>
          rw [step_turn_some hsearch] at h
          cases h
          refine .shrunk ?_ rfl (Or.inr ?_)
          · cases consumed <;> simp
          · intro ⟨u', hu'⟩
            simp [hsearch] at hu'
        | none =>
          rw [step_turn_none hsearch] at h
          have hfound : ∃ u, c.searchNextDecodingUnit pBuf t.table t.iNumSlicesRemaining =
            some (none, u) := ⟨u, hsearch⟩
          have hroom := canStoreMoreStartCodes_iff hstack t.table
          have hsize : src.length ≤ 16 := hsrc
          have hcap : 4096 ≤ c.capacity := Nat.le_mul_of_pos_left 4096 hstack
          split_ifs at h with hcan
          · cases h
            refine .refilled _ iOffset ?_ ?_ rfl (or_congr_right ?_)
            · exact le_rfl
            · rfl
            · exact ⟨fun hle => hle hfound (hroom.mp hcan), fun hle _ _ => hle⟩
          · cases h
            refine .refilled _ iOffset ?_ ?_ rfl ?_
            · exact Nat.zero_le _
            · rfl
            · -- an answer always fits into the table that was cleared
              refine iff_of_true (Or.inr fun _ hle => absurd (hroom.mpr hle) hcan) (Or.inr ?_)
              simp only [ScTableOp.src, List.length_nil]
              omega
  | refill iOffset src =>
    cases bSplitInput with
    | false => simp [step] at h
    | true =>
      cases h
      exact .refilled t iOffset le_rfl rfl rfl Iff.rfl
  | decode consumed =>
    cases bSplitInput with
    | false => simp [step] at h
    | true =>
      cases h
      refine .shrunk ?_ ?_ (Or.inr trivial) <;> cases consumed <;> simp
  | flush =>
    cases h
    exact .shrunk (Nat.zero_le _) rfl (Or.inr trivial)

theorem Sized.step (ht : t.Sized) (hstack : 1 ≤ c.iStackSize)
    (hsrc : op.src.length ≤ scdMaxSize) (h : step c bSplitInput t op = some t') :
    t'.Sized ∧ t.written ≤ t'.written := by
  cases step_cases hstack hsrc h with
  | shrunk hlength hwritten hfits =>
    exact ⟨⟨hwritten ▸ hlength.trans ht.le, hlength.trans_lt ht.lt⟩, hwritten.ge⟩
  | refilled t₁ iOffset hlength hwritten heq hfits =>
    have ht₁ : t₁.Sized := ⟨hwritten ▸ hlength.trans ht.le, hlength.trans_lt ht.lt⟩
    rw [heq, ht₁.written_refill, hwritten]
    exact ⟨ht₁.refill iOffset op.src, le_max_left _ _⟩

theorem Sized.within_step (ht : t.Sized) (hin : t.Within c)
    (hstack : 1 ≤ c.iStackSize) (hsrc : op.src.length ≤ scdMaxSize)
    (h : ScTable.step c bSplitInput t op = some t') : t'.Within c ↔ t.Fits c op := by
  cases step_cases hstack hsrc h with
  | shrunk hlength hwritten hfits => exact iff_of_true (hwritten.trans_le hin) hfits
  | refilled t₁ iOffset hlength hwritten heq hfits =>
    have ht₁ : t₁.Sized := ⟨hwritten ▸ hlength.trans ht.le, hlength.trans_lt ht.lt⟩
    rw [heq, hfits]
    exact ht₁.refill_within (hwritten.trans_le hin) iOffset op.src

variable {ops : List ScTableOp}

theorem Sized.run (ht : t.Sized) (hstack : 1 ≤ c.iStackSize)
    (hsrc : ∀ op ∈ ops, op.src.length ≤ scdMaxSize)
    (hr : GuardedRuns.run (ScTable.step c bSplitInput) ops t = some t') :
    t'.Sized ∧ t.written ≤ t'.written := by
  induction ops generalizing t with
  | nil =>
    cases hr
    exact ⟨ht, le_rfl⟩
  | cons op ops ih =>
    obtain ⟨t₁, hstep, hr⟩ := Option.bind_eq_some_iff.mp hr
    obtain ⟨ht₁, hle⟩ := ht.step hstack (hsrc op List.mem_cons_self) hstep
    obtain ⟨ht', hle'⟩ := ih ht₁ (fun o ho => hsrc o (List.mem_cons_of_mem op ho)) hr
    exact ⟨ht', hle.trans hle'⟩

theorem Sized.within_run (ht : t.Sized) (hin : t.Within c)
    (hstack : 1 ≤ c.iStackSize) (hsrc : ∀ op ∈ ops, op.src.length ≤ scdMaxSize)
    (hr : GuardedRuns.run (ScTable.step c bSplitInput) ops t = some t') :
    t'.Within c ↔ GuardedRuns.Guarded (ScTable.step c bSplitInput) (Fits c) ops t := by
  induction ops generalizing t with
  | nil =>
    cases hr
    exact iff_of_true hin trivial
  | cons op ops ih =>
    obtain ⟨t₁, hstep, hr⟩ := Option.bind_eq_some_iff.mp hr
    have hop := hsrc op List.mem_cons_self
    have hsrc' : ∀ o ∈ ops, o.src.length ≤ scdMaxSize := fun o ho =>
      hsrc o (List.mem_cons_of_mem op ho)
    obtain ⟨ht₁, hle⟩ := ht.step hstack hop hstep
    have hfits := ht.within_step hin hstack hop hstep
    constructor
    · intro hend
      have hin₁ : t₁.Within c := (ht₁.run hstack hsrc' hr).2.trans hend
      refine ⟨hfits.mp hin₁, ?_⟩
      intro t₂ ht₂
      obtain rfl := Option.some.inj (hstep.symm.trans ht₂)
      exact (ih ht₁ hin₁ hsrc' hr).mp hend
    · intro hg
      exact (ih ht₁ (hfits.mpr hg.1) hsrc' hr).mpr (hg.2 t₁ hstep)

theorem Sized.start : start.Sized := ⟨le_rfl, Nat.two_pow_pos 16⟩

/-- In every run, whatever the stream, the mode and the refills, the table is kept to exactly if
every answer of the detector fits where it comes. -/
theorem run_within_iff {ops : List ScTableOp} (hstack : 1 ≤ c.iStackSize)
    (hsrc : ∀ op ∈ ops, op.src.length ≤ scdMaxSize)
    (hr : GuardedRuns.run (step c bSplitInput) ops start = some t) :
    t.Within c ↔ GuardedRuns.Guarded (step c bSplitInput) (Fits c) ops start :=
  Sized.start.within_run (Nat.zero_le _) hstack hsrc hr

theorem run_within_iff_one :
    ∃ t, GuardedRuns.run (step ⟨.avc, false, 1, 64⟩ true)
        [.refill 8 [(0, 7), (4, 8)], .decode true] start = some t ∧
      (t.Within ⟨.avc, false, 1, 64⟩ ↔ GuardedRuns.Guarded (step ⟨.avc, false, 1, 64⟩ true)
        (Fits ⟨.avc, false, 1, 64⟩) [.refill 8 [(0, 7), (4, 8)], .decode true] start) :=
  ⟨_, rfl, run_within_iff (by decide) (by decide) rfl⟩

/-! ## A stream of parameter sets -/

/-- The table holds sequence parameter sets only. -/
def OnlySps (t : ScTable) : Prop := ∀ nal ∈ t.table, nal.uNUT = 7

theorem searchFrom_sps (hc : c.eCodec = .avc) {table : List TableNal}
    (htable : ∀ nal ∈ table, nal.uNUT = 7) (iNal : ℕ) (u : UnitSearch) :
    ∃ u', c.searchFrom pBuf table iNal u = some (none, u') := by
  induction table generalizing iNal u with
  | nil => exact ⟨u, rfl⟩
  | cons nal table ih =>
    have hnut := htable nal List.mem_cons_self
    obtain ⟨u₁, hu₁⟩ : ∃ u₁, c.searchNal pBuf iNal nal u = some (none, u₁) := by
      simp [ScConfig.searchNal, hc, hnut, isVcl, isAud, isEosOrEob, isPrefixSei, isFd]
    obtain ⟨u₂, hu₂⟩ := ih (fun nal' h => htable nal' (List.mem_cons_of_mem nal h)) (iNal + 1) u₁
    exact ⟨u₂, by rw [ScConfig.searchFrom, hu₁]; exact hu₂⟩

theorem OnlySps.search (ht : t.OnlySps) (hc : c.eCodec = .avc) (pBuf : ℕ → ℕ) :
    ∃ u, c.searchNextDecodingUnit pBuf t.table t.iNumSlicesRemaining = some (none, u) := by
  unfold ScConfig.searchNextDecodingUnit
  dsimp only
  split_ifs
  · exact ⟨_, rfl⟩
  · exact searchFrom_sps hc ht 0 _

theorem uNUT_closeLast (uPosition : ℕ) (table : List TableNal) :
    (c.closeLast uPosition table).map TableNal.uNUT = table.map TableNal.uNUT := by
  induction table using ScConfig.closeLast.induct with
  | case1 => rfl
  | case2 last => rfl
  | case3 nal next rest ih => exact congrArg (nal.uNUT :: ·) ih

theorem uNUT_newNals (iOffset : ℕ) (src : List (ℕ × ℕ)) :
    (c.newNals iOffset src).map TableNal.uNUT = src.map Prod.snd := by
  induction src using ScConfig.newNals.induct with
  | case1 => rfl
  | case2 last => rfl
  | case3 first next rest ih => exact congrArg (first.2 :: ·) ih

theorem table_puts {nals : List TableNal} (h : t.table.length + nals.length < 2 ^ 16) :
    (nals.foldl put t).table = t.table ++ nals := by
  induction nals generalizing t with
  | nil => rw [List.foldl_nil, List.append_nil]
  | cons nal nals ih =>
    rw [List.length_cons] at h
    have hput : (t.put nal).table = t.table ++ [nal] := if_neg (by omega)
    rw [List.foldl_cons, ih (by rw [hput]; simp; omega), hput, List.append_assoc,
      List.singleton_append]

theorem OnlySps.refill (ht : t.OnlySps) (iOffset : ℕ)
    (hsrc : ∀ x ∈ src, x.2 = 7) (hlength : t.table.length + src.length < 2 ^ 16) :
    (t.refill c iOffset src).OnlySps ∧
      (t.refill c iOffset src).table.length = t.table.length + src.length := by
  cases src with
  | nil => exact ⟨ht, rfl⟩
  | cons first rest =>
    have htable : (t.refill c iOffset (first :: rest)).table =
        c.closeLast first.1 t.table ++ c.newNals iOffset (first :: rest) := by
      apply table_puts
      rwa [ScConfig.length_closeLast, ScConfig.length_newNals]
    constructor
    · intro nal hnal
      rw [htable] at hnal
      have hnut := List.mem_map_of_mem (f := TableNal.uNUT) hnal
      rw [List.map_append, uNUT_closeLast, uNUT_newNals, List.mem_append] at hnut
      rcases hnut with hmem | hmem
      · obtain ⟨old, hold, heq⟩ := List.mem_map.mp hmem
        exact heq ▸ ht old hold
      · obtain ⟨x, hx, heq⟩ := List.mem_map.mp hmem
        exact heq ▸ hsrc x hx
    · rw [htable, List.length_append, ScConfig.length_closeLast, ScConfig.length_newNals]

/-- `n` sequence parameter sets of 4 bytes from position `p` on. -/
def spsFrom (p n : ℕ) : List (ℕ × ℕ) := (List.range n).map fun i => (p + 4 * i, 7)

/-- The stream 00 00 01 67 00 00 01 67 and so on. -/
def spsStream (p : ℕ) : ℕ := if p % 4 = 2 then 1 else if p % 4 = 3 then 0x67 else 0

/-- One detection of four parameter sets, and then detections of 16. -/
def spsTurns : ℕ → List ScTableOp
  | 0 => []
  | n + 1 => spsTurns n ++ [.turn spsStream (80 + 64 * n) (spsFrom (16 + 64 * n) 16) true]

theorem OnlySps.turn (ht : t.OnlySps) (hc : c.eCodec = .avc) (hstack : 1 ≤ c.iStackSize)
    (p iOffset n : ℕ) (hroom : t.table.length + 12 ≤ c.capacity)
    (hlength : t.table.length + n < 2 ^ 16) :
    ∃ t', step c false t (.turn spsStream iOffset (spsFrom p n) true) = some t' ∧ t'.OnlySps ∧
      t'.table.length = t.table.length + n := by
  obtain ⟨u, hu⟩ := ht.search hc spsStream
  have hsrc : ∀ x ∈ spsFrom p n, x.2 = 7 := by
    intro x hx
    obtain ⟨i, -, rfl⟩ := List.mem_map.mp hx
    rfl
  have hn : (spsFrom p n).length = n := by simp [spsFrom]
  refine ⟨_, step_turn_none hu, ?_⟩
  rw [if_pos ((canStoreMoreStartCodes_iff hstack t.table).mpr hroom)]
  have h := OnlySps.refill (c := c) (t := { t with iNumSlicesRemaining := u.iNumSlicesRemaining })
    ht iOffset hsrc (hn.symm ▸ hlength)
  rwa [hn] at h

theorem OnlySps.run_turns (ht : t.OnlySps) (hc : c.eCodec = .avc) (hstack : 1 ≤ c.iStackSize)
    (hlength : t.table.length = 4) {n : ℕ} (hn : 16 * n ≤ c.capacity) (hcap : c.capacity < 2 ^ 16) :
    ∃ t', GuardedRuns.run (step c false) (spsTurns n) t = some t' ∧ t'.OnlySps ∧
      t'.table.length = 4 + 16 * n := by
  induction n with
  | zero => exact ⟨t, rfl, ht, hlength⟩
  | succ n ih =>
    obtain ⟨t₁, hrun, ht₁, hlength₁⟩ := ih (by omega)
    obtain ⟨t₂, hturn, ht₂, hlength₂⟩ :=
      ht₁.turn hc hstack (16 + 64 * n) (80 + 64 * n) 16 (by omega) (by omega)
    refine ⟨t₂, ?_, ht₂, by omega⟩
    rw [spsTurns, GuardedRuns.run_append, hrun, Option.bind_some, GuardedRuns.run, hturn]
    rfl

theorem src_spsTurns {n : ℕ} (h : op ∈ spsTurns n) : op.src.length ≤ scdMaxSize := by
  induction n with
  | zero => cases h
  | succ n ih =>
    rcases List.mem_append.mp h with hmem | hmem
    · exact ih hmem
    · rw [List.mem_singleton.mp hmem]
      simp [ScTableOp.src, spsFrom, scdMaxSize]

/-- A stack of one frame and a stream of parameter sets: behind 4084 of them the table still asks
for more, and the next answer goes 4 entries beyond it. -/
theorem not_within :
    ¬∀ (c : ScConfig) (bSplitInput : Bool) (ops : List ScTableOp) (t : ScTable),
      1 ≤ c.iStackSize → (∀ op ∈ ops, op.src.length ≤ scdMaxSize) →
        GuardedRuns.run (step c bSplitInput) ops start = some t → t.Within c := by
  intro h
  have hnone : start.OnlySps := by
    intro nal hnal
    cases hnal
  obtain ⟨t₁, hturn, ht₁, hlength₁⟩ := hnone.turn (c := ⟨.avc, false, 1, 2 ^ 20⟩) rfl le_rfl 0 16 4
    (by decide) (by decide)
  obtain ⟨t₂, hrun, -, hlength₂⟩ := ht₁.run_turns (c := ⟨.avc, false, 1, 2 ^ 20⟩) (n := 256)
    rfl le_rfl hlength₁ (by decide) (by decide)
  have hops : ∀ op ∈ .turn spsStream 16 (spsFrom 0 4) true :: spsTurns 256,
      op.src.length ≤ scdMaxSize := by
    intro op hop
    rcases List.mem_cons.mp hop with rfl | hmem
    · decide
    · exact src_spsTurns hmem
  have hall : GuardedRuns.run (step ⟨.avc, false, 1, 2 ^ 20⟩ false)
      (.turn spsStream 16 (spsFrom 0 4) true :: spsTurns 256) start = some t₂ := by
    rw [GuardedRuns.run, hturn, Option.bind_some, hrun]
  have hin : t₂.written ≤ 4096 := h _ _ _ t₂ le_rfl hops hall
  have hle := (Sized.start.run le_rfl hops hall).1.le
  omega

end ScTable

end VcuCodec
