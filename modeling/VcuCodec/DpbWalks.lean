import VcuCodec.DpbEdits

/-!
# Walks of the buffer as edits

The rules for the loops of the buffer, and the output of pictures: on a buffer
whose links are in order a walk ends, stays inside the node array, and comes
down to the edits of its turns.
-/

namespace VcuCodec

open LinkedLists Relation

variable {ok : Risk → Prop}

/-- The buffer after a change that leaves the links alone. -/
def LinkedDpb.withDpb (c : LinkedDpb) (d : Dpb) (hs : d.skeleton = c.dpb.skeleton) : LinkedDpb :=
  ⟨d, c.order, c.linked.of_skeleton hs⟩

variable {o : Order} {u : ℕ}

theorem LinkedDpb.mem_order (c : LinkedDpb) : u ∈ c.order o ↔ c.dpb.InDpb u :=
  c.linked.mem_order o

variable {c : LinkedDpb}

theorem Reaches.quiet (ok : Risk → Prop) {d : Dpb} (hd : d.core = c.dpb.core) :
    Reaches ok c (some d) fun c' => c'.dpb = d ∧ c'.order = c.order := by
  have hs : d.skeleton = c.dpb.skeleton := Dpb.skeleton_of_core hd
  exact ⟨c.withDpb d hs, rfl, .single (.quiet hd rfl), rfl, rfl⟩

/-! ## Walks -/

variable {body : ℕ → Dpb → Option (Dpb × ℕ)}

/-- A walk of one order whose body makes edits.  `J` relates the buffer to the
nodes that are still to be visited. -/
theorem Reaches.walk {J : LinkedDpb → List ℕ → Prop}
    (hstep : ∀ c u rest, J c (u :: rest) → (∃ pre, c.order o = pre ++ u :: rest) →
      ∃ c' rest', body u c.dpb = some (c'.dpb, rest'.headD uEndOfList) ∧ Edits ok c c' ∧
        rest'.length ≤ rest.length ∧ J c' rest' ∧ ∃ pre, c'.order o = pre ++ rest')
    {rest : List ℕ} (hI : J c rest) (hs : ∃ pre, c.order o = pre ++ rest) :
    Reaches ok c (whileLinked uEndOfList body walkFuel (rest.headD uEndOfList) c.dpb)
      fun c' => J c' [] := by
  have hlen : rest.length < walkFuel := by
    obtain ⟨pre, hpre⟩ := hs
    have := c.linked.length_le o
    rw [hpre, List.length_append] at this
    unfold walkFuel
    omega
  obtain ⟨d', hd, c', hc', he, hI', -⟩ := whileLinked_rule
    (fun rest d => ∃ c' : LinkedDpb, d = c'.dpb ∧ Edits ok c c' ∧ J c' rest ∧
      ∃ pre, c'.order o = pre ++ rest)
    (by
      rintro u rest d ⟨c1, rfl, he, hI, hs⟩
      obtain ⟨c2, rest', hb, he', hlen', hI', hs'⟩ := hstep c1 u rest hI hs
      refine ⟨?_, c2.dpb, rest', hlen', hb, c2, rfl, he.trans he', hI', hs'⟩
      obtain ⟨pre, hpre⟩ := hs
      exact Threaded.ne_nil (c1.linked.spells o) (hpre ▸ by simp))
    ⟨c, rfl, .refl, hI, hs⟩ hlen
  exact ⟨c', by rw [hd, hc'], he, hI'⟩

/-- The same for a body that leaves the orders alone and may stop early. -/
theorem Reaches.walk_same {J : LinkedDpb → Prop} (hstep : ∀ c u, J c → u ∈ c.order o →
      ∃ c' v, body u c.dpb = some (c'.dpb, v) ∧ (v = uEndOfList ∨ v = o.next (c.dpb.nodes u)) ∧
        Edits ok c c' ∧ J c' ∧ c'.order = c.order)
    (hI : J c) (hh : ∃ pre rest, c.order o = pre ++ rest ∧ o.head c.dpb = rest.headD uEndOfList) :
    Reaches ok c (whileLinked uEndOfList body walkFuel (o.head c.dpb) c.dpb)
      fun c' => J c' ∧ c'.order = c.order := by
  obtain ⟨pre, rest, hsplit, hhead⟩ := hh
  rw [hhead]
  refine Reaches.walk (o := o) (J := fun c' _ => J c' ∧ c'.order = c.order) ?_
    ⟨hI, rfl⟩ ⟨pre, hsplit⟩
  rintro c1 u rest ⟨hI1, ho1⟩ ⟨pre1, hpre1⟩
  obtain ⟨c2, v, hb, hv, he, hI2, ho2⟩ := hstep c1 u hI1 (hpre1 ▸ by simp)
  rcases hv with rfl | rfl
  · exact ⟨c2, [], hb, he, by simp, ⟨hI2, ho2.trans ho1⟩, _, (List.append_nil _).symm⟩
  · have hnext : o.next (c1.dpb.nodes u) = rest.headD uEndOfList :=
      Threaded.next_eq (hpre1 ▸ c1.linked.spells o)
    refine ⟨c2, rest, hnext ▸ hb, he, le_rfl, ⟨hI2, ho2.trans ho1⟩, pre1 ++ [u], ?_⟩
    rw [ho2, hpre1, List.append_assoc, List.singleton_append]

theorem LinkedDpb.scan (c : LinkedDpb) {σ : Type*} {body : ℕ → σ → Option (σ × ℕ)} {I : σ → Prop}
    (hstep : ∀ u s, u ∈ c.order o → I s → ∃ s' v, body u s = some (s', v) ∧
      (v = uEndOfList ∨ v = o.next (c.dpb.nodes u)) ∧ I s')
    {s : σ} (hI : I s) (hh : ∃ pre rest, c.order o = pre ++ rest ∧
      o.head c.dpb = rest.headD uEndOfList) :
    ∃ s', whileLinked uEndOfList body walkFuel (o.head c.dpb) s = some s' ∧ I s' := by
  obtain ⟨pre, rest, hsplit, hhead⟩ := hh
  have hlen : rest.length < walkFuel := by
    have := c.linked.length_le o
    rw [hsplit, List.length_append] at this
    unfold walkFuel
    omega
  rw [hhead]
  obtain ⟨s', hs', hI', -⟩ := whileLinked_rule
    (fun rest s => I s ∧ ∃ pre, c.order o = pre ++ rest)
    (by
      rintro u rest s ⟨hI, pre, hpre⟩
      obtain ⟨s', v, hb, hv, hI'⟩ := hstep u s (hpre ▸ by simp) hI
      refine ⟨Threaded.ne_nil (c.linked.spells o) (hpre ▸ by simp), s', ?_⟩
      rcases hv with rfl | rfl
      · exact ⟨[], by simp, hb, hI', _, (List.append_nil _).symm⟩
      · have hnext : o.next (c.dpb.nodes u) = rest.headD uEndOfList :=
          Threaded.next_eq (hpre ▸ c.linked.spells o)
        refine ⟨rest, le_rfl, hnext ▸ hb, hI', pre ++ [u], ?_⟩
        rw [hpre, List.append_assoc, List.singleton_append])
    ⟨hI, pre, hsplit⟩ hlen
  exact ⟨s', hs', hI'⟩

/-! ## Single edits -/

/-- The current picture is in the buffer. -/
def LinkedDpb.HasCur (c : LinkedDpb) : Prop := c.dpb.InDpb c.dpb.uCurRef

theorem LinkedDpb.HasCur.of_skeleton {c c' : LinkedDpb} (h : c.HasCur)
    (hs : c'.dpb.skeleton = c.dpb.skeleton) (hc : c'.dpb.uCurRef = c.dpb.uCurRef) :
    c'.HasCur := by
  unfold LinkedDpb.HasCur at *
  rw [hc]
  exact (Dpb.inDpb_of_skeleton hs _).mpr h

theorem LinkedDpb.setPicToUnused (ok : Risk → Prop) (c : LinkedDpb) (hu : c.dpb.InDpb u)
    (hm : (c.dpb.nodes u).eMarkingFlag ≠ .unusedForRef) :
    ∃ c' : LinkedDpb, c'.dpb = c.dpb.setPicToUnused u ∧ c'.order = c.order ∧ Edits ok c c' := by
  have hs1 : (c.dpb.dropRef u).skeleton = c.dpb.skeleton := Dpb.skeleton_modNode fun _ => rfl
  have hs2 : (c.dpb.setPicToUnused u).skeleton = (c.dpb.dropRef u).skeleton :=
    Dpb.skeleton_modNode fun _ => rfl
  let c1 := c.withDpb _ hs1
  let c2 := c1.withDpb _ hs2
  have hu1 : c1.dpb.InDpb u := (Dpb.inDpb_of_skeleton hs1 u).mpr hu
  have h1 : Edit ok c c1 := .dropRef (.inl ⟨hu, hm⟩) rfl rfl
  have h2 : Edit ok c1 c2 := .giveBackPicID (.inl hu1) rfl rfl
  exact ⟨c2, rfl, rfl, .tail (.single h1) h2⟩

theorem LinkedDpb.setPicToUnused_hasCur {c c' : LinkedDpb} (h : c.HasCur)
    (hd : c'.dpb = c.dpb.setPicToUnused u) : c'.HasCur := by
  refine h.of_skeleton ?_ (by rw [hd]; rfl)
  rw [hd]
  exact (Dpb.skeleton_modNode fun _ => rfl :
    (((c.dpb.dropRef u).releasePicID _).modNode u (Node.setPicID undefID)).skeleton = _).trans
    (Dpb.skeleton_modNode fun _ => rfl)

/-! ## Display -/

theorem Dpb.skeleton_displayNode (d : Dpb) (u : ℕ) : (d.displayNode u).skeleton = d.skeleton := by
  simp only [Dpb.displayNode]
  split_ifs
  · exact Dpb.skeleton_modNode fun _ => rfl
  · exact (Dpb.skeleton_modNode fun _ => rfl :
      (((d.addToDisplayList u).setOutput _ _).modNode u Node.displayed).skeleton = _)
  · rfl

theorem Dpb.uCurRef_displayNode (d : Dpb) (u : ℕ) : (d.displayNode u).uCurRef = d.uCurRef := by
  simp only [Dpb.displayNode]
  split_ifs <;> rfl

theorem Dpb.nodes_displayNode (d : Dpb) (u i : ℕ) :
    (d.displayNode u).nodes i =
      if i = u ∧ (d.nodes u).picOutputFlag then (d.nodes u).displayed else d.nodes i := by
  simp only [Dpb.displayNode]
  by_cases hi : i = u
  · subst hi
    split_ifs <;> simp_all [Dpb.setOutput, Dpb.decNumOutputPic, Dpb.addToDisplayList,
      Dpb.modNode, Dpb.setFifo, Dpb.record]
  · split_ifs <;> simp_all [Dpb.setOutput, Dpb.decNumOutputPic, Dpb.addToDisplayList,
      Dpb.modNode, Dpb.setFifo, Dpb.record]

theorem Dpb.picOutputFlag_displayNode (d : Dpb) (u i : ℕ) :
    ((d.displayNode u).nodes i).picOutputFlag =
      if i = u then false else (d.nodes i).picOutputFlag := by
  rw [Dpb.nodes_displayNode]
  by_cases hi : i = u
  · subst hi
    cases hf : (d.nodes i).picOutputFlag <;> simp [Node.displayed, hf]
  · simp [hi]

def LinkedDpb.displayNode (c : LinkedDpb) (u : ℕ) : LinkedDpb :=
  c.withDpb _ (c.dpb.skeleton_displayNode u)

/-- Displaying a picture in front of which nothing waits. -/
theorem Dpb.displayAt_first (c : LinkedDpb) {pre rest : List ℕ}
    (ho : c.order .poc = pre ++ u :: rest)
    (hpre : ∀ i ∈ pre, (c.dpb.nodes i).picOutputFlag = false) (k : ℕ) :
    c.dpb.displayAt (k + 1) u = some (c.dpb.displayNode u) := by
  have hT := c.linked.spells .poc
  rw [ho] at hT
  have hlen : pre.length < walkFuel := by
    have := c.linked.length_le .poc
    rw [ho, List.length_append] at this
    unfold walkFuel
    omega
  have hstep : ∀ x rest' d, (d = c.dpb ∧ ∃ done, pre = done ++ x :: rest') → x ≠ u ∧
      ∃ d' rest'', rest''.length ≤ rest'.length ∧
        displayTurn (fun u d => displayAt k u d) x d = some (d', rest''.headD u) ∧
        d' = c.dpb ∧ ∃ done, pre = done ++ rest'' := by
    rintro x rest' d ⟨rfl, done, hdone⟩
    have hx : x ∈ pre := hdone ▸ by simp
    have hxu : x ≠ u := fun e => (Threaded.notMem_of_middle hT).1 (e ▸ hx)
    have hxe : x ≠ uEndOfList := Threaded.ne_nil hT (List.mem_append_left _ hx)
    have hnext : (c.dpb.nodes x).uNextPOC = rest'.headD u := by
      rw [hdone, List.append_assoc, List.cons_append] at hT
      have := Threaded.next_eq hT
      cases rest' <;> exact this
    refine ⟨hxu, c.dpb, rest', le_rfl, ?_, rfl, done ++ [x], ?_⟩
    · simp [Dpb.displayTurn, hxe, hpre x hx, hnext]
    · rw [hdone, List.append_assoc, List.singleton_append]
  obtain ⟨d, hd, rfl, -⟩ := whileLinked_rule
    (fun rest d => d = c.dpb ∧ ∃ done, pre = done ++ rest) hstep ⟨rfl, [], rfl⟩ hlen
  have hhead : c.dpb.uHeadPOC = pre.headD u := by
    rw [c.linked.head_poc, ho]
    cases pre <;> rfl
  rw [Dpb.displayAt, hhead, hd]
  rfl

/-- Every picture in front of `u` is displayed before `u` is. -/
theorem Dpb.display_reaches (ok : Risk → Prop) (c : LinkedDpb) (hu : c.dpb.InDpb u) :
    Reaches ok c (c.dpb.display u) fun c' => c'.order = c.order ∧ c'.dpb.skeleton = c.dpb.skeleton ∧
        c'.dpb.uCurRef = c.dpb.uCurRef ∧ (c'.dpb.nodes u).picOutputFlag = false := by
  obtain ⟨pre, rest, ho⟩ := List.append_of_mem (c.linked.mem u |>.mpr hu)
  have hT := c.linked.spells .poc
  rw [ho] at hT
  have hlen : pre.length < walkFuel := by
    have := c.linked.length_le .poc
    rw [ho, List.length_append] at this
    unfold walkFuel
    omega
  let I : List ℕ → Dpb → Prop := fun todo d => ∃ c' : LinkedDpb, d = c'.dpb ∧ Edits ok c c' ∧
    c'.order = c.order ∧ c'.dpb.skeleton = c.dpb.skeleton ∧ c'.dpb.uCurRef = c.dpb.uCurRef ∧
    ∃ done, pre = done ++ todo ∧ ∀ i ∈ done, (c'.dpb.nodes i).picOutputFlag = false
  have hstep : ∀ x todo d, I (x :: todo) d → x ≠ u ∧
      ∃ d' todo', todo'.length ≤ todo.length ∧
        displayTurn (fun u d => displayAt maxDpbSize u d) x d = some (d', todo'.headD u) ∧
        I todo' d' := by
    rintro x todo d ⟨c', rfl, he, ho', hk', hc', done, hdone, hflag⟩
    have hx : x ∈ pre := hdone ▸ by simp
    have hxu : x ≠ u := fun e => (Threaded.notMem_of_middle hT).1 (e ▸ hx)
    have hxe : x ≠ uEndOfList := Threaded.ne_nil hT (List.mem_append_left _ hx)
    have hxp : x ∈ c'.order .poc := by rw [ho', ho]; exact List.mem_append_left _ hx
    have hsplit : c'.order .poc = done ++ x :: (todo ++ u :: rest) := by
      rw [ho', ho, hdone, List.append_assoc, List.cons_append]
    have hnext : (c'.dpb.nodes x).uNextPOC = todo.headD u := by
      have hT' := c'.linked.spells .poc
      rw [hsplit] at hT'
      have := Threaded.next_eq hT'
      cases todo <;> exact this
    have hpre' : pre = (done ++ [x]) ++ todo := by
      rw [hdone, List.append_assoc, List.singleton_append]
    refine ⟨hxu, ?_⟩
    cases hf : (c'.dpb.nodes x).picOutputFlag with
    | false =>
      refine ⟨c'.dpb, todo, le_rfl, by simp [Dpb.displayTurn, hxe, hf, hnext], c', rfl, he, ho',
        hk', hc', done ++ [x], hpre', fun i hi => ?_⟩
      rcases List.mem_append.mp hi with hi | hi
      · exact hflag i hi
      · rw [List.mem_singleton.mp hi, hf]
    | true =>
      have hd := Dpb.displayAt_first c' hsplit hflag (maxDpbSize - 1)
      have hedit : Edit ok c' (c'.displayNode x) :=
        .displayNode (c'.mem_order.mp hxp) rfl rfl
      refine ⟨(c'.displayNode x).dpb, todo, le_rfl, ?_, c'.displayNode x, rfl, .tail he hedit, ho',
        (Dpb.skeleton_displayNode _ _).trans hk', (Dpb.uCurRef_displayNode _ _).trans hc',
        done ++ [x], hpre', fun i hi => ?_⟩
      · simp only [Dpb.displayTurn, if_neg hxe, hf, if_true, hnext]
        rw [show displayAt maxDpbSize x c'.dpb = _ from hd]
        rfl
      · rw [show (c'.displayNode x).dpb = c'.dpb.displayNode x from rfl,
          Dpb.picOutputFlag_displayNode]
        split
        · rfl
        · next hne =>
          rcases List.mem_append.mp hi with hi | hi
          · exact hflag i hi
          · exact absurd (List.mem_singleton.mp hi) hne
  have hI : I pre c.dpb := ⟨c, rfl, .refl, rfl, rfl, rfl, [], rfl, by simp⟩
  obtain ⟨d, hd, c', rfl, he, ho', hk', hc', done, hdone, hflag⟩ := whileLinked_rule I hstep hI hlen
  have hhead : c.dpb.uHeadPOC = pre.headD u := by
    rw [c.linked.head_poc, ho]
    cases pre <;> rfl
  have hin : c'.dpb.InDpb u := (c'.linked.mem_order .poc).mp (by rw [ho', ho]; simp)
  have hedit : Edit ok c' (c'.displayNode u) := .displayNode hin rfl rfl
  refine ⟨c'.displayNode u, ?_, .tail he hedit, ho', (Dpb.skeleton_displayNode _ _).trans hk',
    (Dpb.uCurRef_displayNode _ _).trans hc', ?_⟩
  · rw [Dpb.display, walkFuel, Dpb.displayAt, hhead, hd]
    rfl
  · exact (Dpb.picOutputFlag_displayNode _ _ _).trans (if_pos rfl)

theorem Dpb.displayIf_reaches (ok : Risk → Prop) (c : LinkedDpb) (hu : c.dpb.InDpb u) (b : Bool) :
    Reaches ok c (c.dpb.displayIf b u) fun c' =>
      c'.order = c.order ∧ c'.dpb.skeleton = c.dpb.skeleton ∧
        c'.dpb.uCurRef = c.dpb.uCurRef ∧ (b = true → (c'.dpb.nodes u).picOutputFlag = false) ∧
        (b = false → c'.dpb = c.dpb) := by
  cases b with
  | true =>
    refine (Dpb.display_reaches ok c hu).mono ?_
    rintro c' ⟨ho, hs, hc, hf⟩
    exact ⟨ho, hs, hc, fun _ => hf, by simp⟩
  | false => exact .done ⟨rfl, rfl, rfl, by simp, fun _ => rfl⟩

end VcuCodec
