import VcuCodec.DpbMarkingSteps

/-!
# Operations as edits

Each operation of the buffer, on a buffer whose links are in order, goes
through and comes down to elementary edits.  The one exception is an insertion
when the decoding order of a buffer that holds pictures cannot be entered.  A
property that every edit keeps is therefore kept by every run.
-/

namespace VcuCodec

open LinkedLists Relation

variable {ok : Risk → Prop}

/-! ## Removing pictures -/

variable {c : LinkedDpb} {pre rest : List ℕ}

theorem LinkedDpb.remove_turn (ok : Risk → Prop) {u : ℕ} (ho : c.order .poc = pre ++ u :: rest)
    (hp : (c.dpb.nodes u).picOutputFlag = true →
      (c.dpb.nodes u).nonExisting = true ∨ ok .removePending) :
    ∃ c' : LinkedDpb, c'.dpb = c.dpb.remove u ∧ Edit ok c c' ∧ c'.order .poc = pre ++ rest := by
  have hu : c.dpb.InDpb u := (c.linked.mem_order .poc).mp (by simp [ho])
  have hT := c.linked.spells .poc
  rw [ho] at hT
  refine ⟨c.remove u hu, rfl, .remove hu hp rfl rfl, ?_⟩
  change (c.order .poc).erase u = _
  rw [ho, Threaded.erase_middle hT]

theorem LinkedDpb.uNextPOC_eq {u : ℕ} (ho : c.order .poc = pre ++ u :: rest) :
    (c.dpb.nodes u).uNextPOC = rest.headD uEndOfList := by
  have hT := c.linked.spells .poc
  rw [ho] at hT
  exact Threaded.next_eq hT

theorem Dpb.removeHead_reaches (ok : Risk → Prop) {u : ℕ} {rest : List ℕ}
    (ho : c.order .poc = u :: rest) :
    Reaches ok c c.dpb.removeHead fun c' => c'.order .poc = rest := by
  have hu : c.dpb.InDpb u := (c.linked.mem_order .poc).mp (by simp [ho])
  have hhead : ∀ c' : LinkedDpb, c'.order = c.order → c'.dpb.uHeadPOC = u := fun c' h => by
    rw [c'.linked.head_poc, h, ho]
    rfl
  unfold Dpb.removeHead
  rw [hhead c rfl]
  refine (Dpb.displayIf_reaches ok c hu _).bind ?_
  rintro c1 ⟨ho1, -, -, hshow, hkeep⟩
  have hp : (c1.dpb.nodes u).picOutputFlag = false := by
    cases hf : (c.dpb.nodes u).picOutputFlag with
    | true => exact hshow hf
    | false => rw [hkeep hf, hf]
  obtain ⟨c2, hd, he, ho2⟩ := LinkedDpb.remove_turn ok
    (ho1 ▸ ho : c1.order .poc = [] ++ u :: rest) fun h => absurd h (by simp [hp])
  rw [hhead c1 ho1]
  exact .edit c2 hd.symm he ho2

theorem Dpb.flush_reaches (ok : Risk → Prop) (c : LinkedDpb) :
    Reaches ok c c.dpb.flush fun c' => c'.order .poc = [] := by
  unfold Dpb.flush
  rw [c.linked.head_poc]
  refine Reaches.walk (o := .poc) (J := fun c rest => c.order .poc = rest) ?_ rfl ⟨[], rfl⟩
  rintro c1 u rest ho -
  have hu : c1.dpb.InDpb u := (c1.linked.mem_order .poc).mp (by simp [ho])
  obtain ⟨c2, hd2, he2, ho2, -⟩ := Dpb.displayIf_reaches ok c1 hu (c1.dpb.nodes u).picOutputFlag
  obtain ⟨c3, hd3, he3, ho3⟩ := Dpb.removeHead_reaches ok (ho2 ▸ ho : c2.order .poc = u :: rest)
  refine ⟨c3, rest, ?_, he2.trans he3, le_rfl, ho3, [], ho3⟩
  simp only [hd2, hd3, Option.bind_eq_bind, Option.bind_some]
  rw [c3.linked.head_poc, ho3]

theorem Dpb.removeUseless_reaches (ok : Risk → Prop) (c : LinkedDpb) :
    Reaches ok c c.dpb.removeUseless fun _ => True := by
  unfold Dpb.removeUseless
  rw [c.linked.head_poc]
  refine Reaches.walk (o := .poc) (J := fun _ _ => True) ?_ trivial ⟨[], rfl⟩
  rintro c1 u rest - ⟨pre, ho⟩
  have hnext := LinkedDpb.uNextPOC_eq ho
  by_cases hm : (c1.dpb.nodes u).eMarkingFlag = .unusedForRef ∧
      (c1.dpb.nodes u).picOutputFlag = false
  · obtain ⟨c2, hd, he, ho2⟩ := LinkedDpb.remove_turn ok ho fun h => absurd h (by simp [hm.2])
    exact ⟨c2, rest, by simp only [if_pos hm, hd, hnext], .single he, le_rfl, trivial, pre, ho2⟩
  · exact ⟨c1, rest, by simp only [if_neg hm, hnext], .refl, le_rfl, trivial, pre ++ [u],
      by simp [ho]⟩

theorem Dpb.removeUnused_reaches (ok : Risk → Prop) (c : LinkedDpb) :
    Reaches ok c c.dpb.removeUnused fun _ => True := by
  unfold Dpb.removeUnused
  rw [c.linked.head_poc]
  refine Reaches.walk (o := .poc) (J := fun _ _ => True) ?_ trivial ⟨[], rfl⟩
  rintro c1 u rest - ⟨pre, ho⟩
  have hnext := LinkedDpb.uNextPOC_eq ho
  have hu : c1.dpb.InDpb u := (c1.linked.mem_order .poc).mp (by simp [ho])
  by_cases hfull : c1.dpb.uNumRef < c1.dpb.uCountRef ∨ c1.dpb.uNumRef < c1.dpb.uCountPic
  · by_cases hm : (c1.dpb.nodes u).eMarkingFlag = .unusedForRef
    · obtain ⟨c2, hd2, he2, ho2, -, -, hf⟩ := Dpb.display_reaches ok c1 hu
      obtain ⟨c3, hd3, he3, ho3⟩ := LinkedDpb.remove_turn ok (ho2 ▸ ho) fun h =>
        absurd h (by simp [hf])
      refine ⟨c3, rest, ?_, .tail he2 he3, le_rfl, trivial, pre, ho3⟩
      simp only [if_pos hfull, if_pos hm, hd2, hnext, hd3, Option.bind_eq_bind, Option.bind_some]
    · exact ⟨c1, rest, by simp only [if_pos hfull, if_neg hm, hnext], .refl, le_rfl, trivial,
        pre ++ [u], by simp [ho]⟩
  · exact ⟨c1, [], by simp only [if_neg hfull]; rfl, .refl, by simp, trivial, _,
      (List.append_nil _).symm⟩

theorem Dpb.avcCleanup_reaches (ok : Risk → Prop) (c : LinkedDpb) :
    Reaches ok c c.dpb.avcCleanup fun _ => True := by
  refine (Dpb.removeUseless_reaches ok c).bind fun c1 _ => ?_
  refine (Dpb.removeUnused_reaches ok c1).bind fun c2 _ => ?_
  exact .edit (c2.withDpb _ c2.dpb.skeleton_serveWaitingPicture) rfl (.serve rfl rfl) trivial

theorem Dpb.hevcCleanup_reaches (ok : Risk → Prop) (c : LinkedDpb) (uMaxLatency maxNumOutput : ℕ) :
    Reaches ok c (c.dpb.hevcCleanup uMaxLatency maxNumOutput) fun _ => True := by
  unfold Dpb.hevcCleanup
  rw [c.linked.head_poc]
  refine Reaches.walk (o := .poc) (J := fun _ _ => True) ?_ trivial ⟨[], rfl⟩
  rintro c1 u rest - ⟨pre, ho⟩
  have hu : c1.dpb.InDpb u := (c1.linked.mem_order .poc).mp (by simp [ho])
  obtain ⟨c2, hd2, he2, ho2, -⟩ := Dpb.displayIf_reaches ok c1 hu
    ((c1.dpb.nodes u).picOutputFlag && (uMaxLatency ≤ (c1.dpb.nodes u).uPicLatency ||
      maxNumOutput < c1.dpb.uNumOutputPic))
  have ho' : c2.order .poc = pre ++ u :: rest := ho2 ▸ ho
  have hnext := LinkedDpb.uNextPOC_eq ho'
  by_cases hm : (c2.dpb.nodes u).eMarkingFlag = .unusedForRef ∧
      (c2.dpb.nodes u).picOutputFlag = false
  · obtain ⟨c3, hd3, he3, ho3⟩ := LinkedDpb.remove_turn ok ho' fun h => absurd h (by simp [hm.2])
    refine ⟨c3, rest, ?_, .tail he2 he3, le_rfl, trivial, pre, ho3⟩
    simp only [hd2, hd3, hnext, if_pos hm, Option.bind_eq_bind, Option.bind_some]
  · refine ⟨c2, rest, ?_, he2, le_rfl, trivial, pre ++ [u], by simp [ho']⟩
    simp only [hd2, hnext, if_neg hm, Option.bind_eq_bind, Option.bind_some]

/-! ## Deferred deletion and the display FIFO -/

theorem LinkedDpb.releaseBufs (ok : Risk → Prop) (c : LinkedDpb) {n : ℕ}
    (hn : n ≤ c.dpb.dlt.iNumDltPic) :
    ∃ c' : LinkedDpb, c'.dpb = Nat.repeat Dpb.releaseOneBuf n c.dpb ∧ Edits ok c c' ∧
      c'.order = c.order ∧ c'.dpb.dlt.iNumDltPic = c.dpb.dlt.iNumDltPic - n := by
  induction n with
  | zero => exact ⟨c, rfl, .refl, rfl, rfl⟩
  | succ n ih =>
    obtain ⟨c1, hd, he, ho, hnum⟩ := ih (by omega)
    have hs : c1.dpb.releaseOneBuf.skeleton = c1.dpb.skeleton := rfl
    have hedit : Edit ok c1 (c1.withDpb _ hs) := .releaseOneBuf (by omega) rfl rfl
    refine ⟨c1.withDpb _ hs, ?_, .tail he hedit, ho, ?_⟩
    · rw [Nat.repeat, ← hd]
      rfl
    · change c1.dpb.dlt.iNumDltPic - 1 = _
      omega

theorem Dpb.releaseUnusedBuf_reaches (ok : Risk → Prop) (c : LinkedDpb) (bAll : Bool) :
    Reaches ok c (some (c.dpb.releaseUnusedBuf bAll)) fun c' => c'.order = c.order := by
  unfold Dpb.releaseUnusedBuf
  have hn : (if c.dpb.dlt.iNumDltPic = 0 then 0
      else if bAll then c.dpb.dlt.iNumDltPic else 1) ≤ c.dpb.dlt.iNumDltPic := by
    split_ifs <;> omega
  obtain ⟨c', hd, he, ho, -⟩ := c.releaseBufs ok hn
  exact ⟨c', by rw [hd], he, ho⟩

theorem Dpb.getNodeFromFrmID_spec (c : LinkedDpb) (iFrmID : ℕ) :
    ∃ t, c.dpb.getNodeFromFrmID iFrmID = some t ∧
      (t = uEndOfList ∨ t ∈ c.order .decOrder) := by
  refine c.scan (o := .decOrder) ?_ (.inl rfl) c.linked.entry
  intro u s hu hs
  split
  · exact ⟨u, _, rfl, .inl rfl, .inr hu⟩
  · exact ⟨s, _, rfl, .inr rfl, hs⟩

theorem Dpb.endDecoding_reaches (ok : Risk → Prop) (c : LinkedDpb) (iFrmID : ℕ) :
    Reaches ok c (c.dpb.endDecoding iFrmID) fun _ => True := by
  obtain ⟨c1, hd1, he1, -⟩ := Dpb.releaseUnusedBuf_reaches ok c false
  have hd1 : c.dpb.releaseUnusedBuf false = c1.dpb := Option.some.inj hd1
  refine .of_edits he1 ?_
  simp only [Dpb.endDecoding, hd1]
  split
  · obtain ⟨c2, -, he2, hd2, -⟩ := Reaches.quiet ok (c := c1)
      (d := c1.dpb.setFifo (c1.dpb.dispFifo.setStatus iFrmID .readyForOutput)) rfl
    simp only [← hd2]
    refine .of_edits he2 ?_
    split
    · obtain ⟨t, ht, hmem⟩ := Dpb.getNodeFromFrmID_spec c2 iFrmID
      simp only [ht, Option.bind_eq_bind, Option.bind_some]
      rcases hmem with rfl | hmem
      · exact .done trivial
      · exact (Dpb.displayIf_reaches ok c2 (c2.mem_order.mp hmem) _).mono fun _ _ => trivial
    · exact .done trivial
  · exact .done trivial

theorem Dpb.skeleton_clearAll (d : Dpb) (l : List ℕ) : (d.clearAll l).skeleton = d.skeleton := by
  suffices h : (l.foldl (fun d i => d.modNode i Node.clearOutput) d).skeleton = d.skeleton from h
  induction l generalizing d with
  | nil => rfl
  | cons i l ih => exact (ih _).trans (Dpb.skeleton_modNode fun _ => rfl)

theorem Dpb.clearOutput_reaches (ok : Risk → Prop) (c : LinkedDpb) :
    Reaches ok c c.dpb.clearOutput fun _ => True := by
  have hlen : (c.order .poc).length < walkFuel := by
    have := c.linked.length_le .poc
    unfold walkFuel
    omega
  let I : List ℕ → Dpb → Prop := fun rest d => ∃ done, c.order .poc = done ++ rest ∧
    d = done.foldl (fun d i => d.modNode i Node.clearOutput) c.dpb
  have hstep : ∀ u rest d, I (u :: rest) d → u ≠ uEndOfList ∧ ∃ d' rest',
      rest'.length ≤ rest.length ∧
      some (d.modNode u Node.clearOutput, (d.nodes u).uNextPOC) =
        some (d', rest'.headD uEndOfList) ∧ I rest' d' := by
    rintro u rest d ⟨done, ho, rfl⟩
    have hu : u ≠ uEndOfList := Threaded.ne_nil (c.linked.spells .poc) (by simp [ho])
    have hs := Dpb.skeleton_clearAll c.dpb done
    have hnext : ((done.foldl (fun d i => d.modNode i Node.clearOutput) c.dpb).nodes u).uNextPOC =
        rest.headD uEndOfList :=
      (Dpb.next_of_skeleton hs .poc u).trans (LinkedDpb.uNextPOC_eq ho)
    refine ⟨hu, _, rest, le_rfl, by rw [hnext], done ++ [u], by simp [ho], ?_⟩
    rw [List.foldl_append]
    rfl
  obtain ⟨d, hd, done, hdone, rfl⟩ := whileLinked_rule I hstep
    (⟨[], rfl, rfl⟩ : I (c.order .poc) c.dpb) hlen
  rw [List.append_nil] at hdone
  subst hdone
  have hs := Dpb.skeleton_clearAll c.dpb (c.order .poc)
  refine ⟨c.withDpb _ hs, ?_, .single (.clearAll rfl rfl), trivial⟩
  rw [Dpb.clearOutput, c.linked.head_poc, hd]
  rfl

/-! ## Every operation -/

/-- The insertion cannot enter the decoding order. -/
def LinkedDpb.Stuck (c : LinkedDpb) : Prop :=
  c.order .poc ≠ [] ∧ c.dpb.uHeadDecOrder = uEndOfList

theorem Dpb.insert_reaches {a : InsertArgs} (hv : a.Valid)
    (hreset : (c.dpb.nodes a.uNode).bIsReset = true) (hr : ∀ r ∈ (Op.insert a).risks c.dpb, ok r) :
    c.dpb.insert a = none ∧ c.Stuck ∨
      Reaches ok c (c.dpb.insert a) fun c' => c'.order .poc ≠ [] := by
  rcases c.linked.insert hreset hv.node with ⟨hnone, hp, hh⟩ | ⟨d', hd, hl, hu, hh⟩
  · exact .inl ⟨hnone, hp, hh⟩
  · right
    rw [hd]
    refine .edit ⟨d', _, hl⟩ rfl (.insert hv hreset (fun he hw => ?_) (fun he => ?_) hu hh rfl)
      (by simp [Dpb.insertOrder])
    · refine hr _ (List.mem_append_left _ ?_)
      rw [if_pos ⟨he, hw⟩]
      exact List.mem_singleton_self _
    · by_cases hm : c.dpb.MvFree a.uMvID
      · exact .inl hm
      · refine .inr (hr _ (List.mem_append_right _ ?_))
        rw [if_pos ⟨he, hm⟩]
        exact List.mem_singleton_self _

/-- Every operation goes through as a number of edits, unless it is an insertion
that is stuck. -/
theorem Dpb.step_reaches {op : Op} (hp : op.Pre c.dpb) (hr : ∀ r ∈ op.risks c.dpb, ok r) :
    c.dpb.step op = none ∧ c.Stuck ∨ Reaches ok c (c.dpb.step op) fun _ => True := by
  have hquiet : ∀ d : Dpb, d.core = c.dpb.core → Reaches ok c (some d) fun _ => True :=
    fun d hd => (Reaches.quiet ok hd).mono fun _ _ => trivial
  cases op with
  | insert a => exact (Dpb.insert_reaches hp.1 hp.2 hr).imp id fun h => h.mono fun _ _ => trivial
  | remove u =>
    right
    by_cases hu : u = uEndOfList
    · simp only [Dpb.step, Dpb.remove, if_pos hu]
      exact .done trivial
    · have hin : c.dpb.InDpb u := hp.resolve_left hu
      refine .edit (c.remove u hin) rfl (.remove hin (fun hf => ?_) rfl rfl) trivial
      by_cases hne : (c.dpb.nodes u).nonExisting = true
      · exact .inl hne
      · exact .inr (hr _ (by simp [Op.risks, hu, hf, hne]))
  | display u => exact .inr ((Dpb.display_reaches ok c hp).mono fun _ _ => trivial)
  | markingProcess slice => exact .inr (Dpb.markingProcess_reaches hp.1 slice hp.2 hr)
  | flush => exact .inr ((Dpb.flush_reaches ok c).mono fun _ _ => trivial)
  | avcCleanup => exact .inr (Dpb.avcCleanup_reaches ok c)
  | hevcCleanup l n => exact .inr (Dpb.hevcCleanup_reaches ok c l n)
  | endDecoding i => exact .inr (Dpb.endDecoding_reaches ok c i)
  | releaseDisplayBuffer =>
    right
    refine hquiet _ ?_
    unfold Dpb.releaseDisplayBuffer
    split
    · rfl
    · have hf : (c.dpb.setFifo c.dpb.dispFifo.dequeue).core = c.dpb.core := rfl
      exact (Dpb.core_record_of_display (by simp [Event.ofPictures])).trans hf
  | clearOutput => exact .inr (Dpb.clearOutput_reaches ok c)
  | setMarkingFlag u m =>
    right
    have hs : (c.dpb.setMarkingFlag u m).skeleton = c.dpb.skeleton :=
      Dpb.skeleton_modNode fun _ => rfl
    exact .edit (c.withDpb _ hs) rfl
      (.setMarkingFlag (hr _ (List.mem_singleton_self _)) rfl rfl) trivial
  | incrementPicLatency u poc =>
    right
    refine hquiet _ ?_
    unfold Dpb.incrementPicLatency
    split
    · exact Dpb.core_modNode rfl
    · rfl
  | pictNumberProcess slice =>
    exact .inr ((Dpb.pictNumberProcess_reaches ok c slice).mono fun _ _ => trivial)
  | beginNewSeq => exact .inr (hquiet _ rfl)
  | setLastHasMMCO5 b => exact .inr (hquiet _ rfl)
  | setNumRef n => exact .inr (hquiet _ rfl)

/-! ## The buffer after its initialisation -/

theorem Dpb.foldl_resetNodeInfo {d : Dpb} (hd : d.ids.resetWaiting = d.ids) (n : ℕ) :
    (List.range n).foldl (fun d i => (d.modNode i (Node.setNodeID undefID)).resetNodeInfo i) d =
      { d with nodes := fun i => if i < n then (d.nodes i).reset else d.nodes i } := by
  induction n with
  | zero => rfl
  | succ n ih =>
    rw [List.range_succ, List.foldl_append, ih, List.foldl_cons, List.foldl_nil]
    have hn : ∀ i, (if i = n then (d.nodes n).reset
        else if i < n then (d.nodes i).reset else d.nodes i) =
        if i < n + 1 then (d.nodes i).reset else d.nodes i := by
      intro i
      by_cases hi : i = n
      · subst hi
        rw [if_pos rfl, if_pos (Nat.lt_succ_self i)]
      · have hlt : i < n ↔ i < n + 1 := by omega
        simp only [if_neg hi, hlt]
    simp only [Dpb.resetNodeInfo, Dpb.modNode, Dpb.setIds, if_true, lt_irrefl, if_false, hd,
      ite_self, ← hn]
    congr 1
    funext i
    split <;> rfl

theorem Dpb.nodes_init (m : Dpb) (n : ℕ) (eMode : DpbMode) (i : ℕ) :
    (m.init n eMode).nodes i = if i < maxDpbSize then (m.nodes i).reset else m.nodes i := by
  have h := Dpb.foldl_resetNodeInfo (d := { m with
    ids := m.ids.init, eMode := eMode, bNewSeq := true }) rfl maxDpbSize
  exact congrArg (fun d => d.nodes i) h

theorem Dpb.ids_init (m : Dpb) (n : ℕ) (eMode : DpbMode) : (m.init n eMode).ids = m.ids.init := by
  have h := Dpb.foldl_resetNodeInfo (d := { m with
    ids := m.ids.init, eMode := eMode, bNewSeq := true }) rfl maxDpbSize
  exact congrArg (fun d => d.ids) h

theorem Dpb.uHeadPocLsb_init (m : Dpb) (n : ℕ) (eMode : DpbMode) :
    (m.init n eMode).uHeadPocLsb = m.uHeadPocLsb := by
  have h := Dpb.foldl_resetNodeInfo (d := { m with
    ids := m.ids.init, eMode := eMode, bNewSeq := true }) rfl maxDpbSize
  exact congrArg (fun d => d.uHeadPocLsb) h

theorem Linked.init (m : Dpb) (n : ℕ) (eMode : DpbMode) : Linked (m.init n eMode) fun _ => [] where
  spells _ := Threaded.empty
  perm _ := .rfl
  mem i := by
    rw [Dpb.InDpb, Dpb.nodes_init]
    refine ⟨fun h => absurd h List.not_mem_nil, ?_⟩
    rintro ⟨hi, hr⟩
    rw [if_pos hi] at hr
    exact absurd hr (by simp [Node.reset])
  head_poc := rfl
  last_poc := rfl
  head_lsb h := absurd rfl h
  head_dec := .inl rfl
  count := rfl
  clean i _ hi := by
    rw [Dpb.nodes_init, if_pos hi]
    rfl

/-- The buffer after `AL_Dpb_Init`, with its empty orders. -/
def LinkedDpb.init (m : Dpb) (n : ℕ) (eMode : DpbMode) : LinkedDpb := ⟨_, _, Linked.init m n eMode⟩

/-! ## Runs -/

section Runs

variable {bad : List Risk} {J : LinkedDpb → Prop} {c : LinkedDpb} {ops : List Op} {d : Dpb}

theorem Dpb.run_keeps (hJ : ∀ c c', J c → Edit (· ∉ bad) c c' → J c') (hc : J c)
    (ha : c.dpb.RunAllowed bad ops) (hr : c.dpb.run ops = some d) : ∃ c', c'.dpb = d ∧ J c' := by
  refine GuardedRuns.invariant_of_run (I := fun d => ∃ c', c'.dpb = d ∧ J c') ?_ ⟨c, rfl, hc⟩ ha hr
  rintro _ op d' ⟨c1, rfl, hc1⟩ ⟨hp, hrisk⟩ hd'
  rcases Dpb.step_reaches hp hrisk with ⟨hnone, -⟩ | ⟨c2, hsome, he, -⟩
  · rw [hnone] at hd'
    exact absurd hd' (by simp)
  · rw [hsome] at hd'
    exact ⟨c2, Option.some.inj hd', he.keep hJ hc1⟩

theorem Dpb.run_goes_through (hJ : ∀ c c', J c → Edit (· ∉ bad) c c' → J c')
    (hs : ∀ c, J c → ¬ c.Stuck) (hc : J c) (ha : c.dpb.RunAllowed bad ops) :
    ∃ d, c.dpb.run ops = some d ∧ ∃ c', c'.dpb = d ∧ J c' := by
  refine GuardedRuns.run_of_guarded (I := fun d => ∃ c', c'.dpb = d ∧ J c') ?_ ⟨c, rfl, hc⟩ ha
  rintro _ op ⟨c1, rfl, hc1⟩ ⟨hp, hrisk⟩
  rcases Dpb.step_reaches hp hrisk with ⟨-, hstuck⟩ | ⟨c2, hsome, he, -⟩
  · exact absurd hstuck (hs c1 hc1)
  · exact ⟨c2.dpb, hsome, c2, rfl, he.keep hJ hc1⟩

end Runs

end VcuCodec
