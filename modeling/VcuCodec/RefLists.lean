import Mathlib.Data.List.GetD
import VcuCodec.CheckedRuns
import VcuCodec.DpbModel

/-!
# Reference picture lists

`TBufferListRef` of `lib_common_dec/DecBuffers.h`: two lists with one entry more
than there are references.  Both codecs reset the first 16 entries of a list and
count those that are set.
-/

namespace VcuCodec

open CheckedRuns Checked

/-- `TBufferRef`, with the frame ID of the buffer. -/
structure BufferRef where
  refBuf : ℕ
  uNodeID : ℕ

/-- One of the lists of `TBufferListRef`. -/
abbrev BufferRefs : Type := ℕ → BufferRef

namespace BufferRefs

/-- The reset of a list: the last of its 17 entries is not reset. -/
def reset (refs : BufferRefs) : BufferRefs := fun i =>
  if i < maxRef then { refs i with uNodeID := uEndOfList } else refs i

/-- The entries of a list that are set. -/
def num (refs : BufferRefs) : ℕ :=
  (List.range maxRef).countP fun i => (refs i).uNodeID ≠ uEndOfList

def setNode (refs : BufferRefs) (i uNodeID : ℕ) : BufferRefs :=
  Function.update refs i { refs i with uNodeID := uNodeID }

def zeroed : BufferRefs := fun _ => ⟨0, 0⟩

/-- The first entries are the nodes `l`, the other ones those of `old`. -/
def Filled (old : BufferRefs) (l : List ℕ) (refs : BufferRefs) : Prop :=
  ∀ i, (refs i).uNodeID = l.getD i (old i).uNodeID

variable {refs : BufferRefs} {n : ℕ}

variable {σ : Type}

/-- The nodes of an array are copied to the entries from `iPic` on. -/
def copyNodes : List ℕ → (iPic : ℕ) → BufferRefs → Checked σ BufferRefs
  | [], _, refs => pure refs
  | u :: nodes, iPic, refs => do
    check (iPic ≤ maxRef)
    copyNodes nodes (iPic + 1) (refs.setNode iPic u)

theorem uNodeID_setNode (refs : BufferRefs) (i u j : ℕ) :
    (refs.setNode i u j).uNodeID = if j = i then u else (refs j).uNodeID := by
  unfold setNode
  by_cases hj : j = i
  · rw [if_pos hj, hj, Function.update_self]
  · rw [if_neg hj, Function.update_of_ne hj]

variable {old : BufferRefs} {l l' : List ℕ}

theorem filled_nil (refs : BufferRefs) : Filled refs [] refs := fun _ => rfl

theorem Filled.next (h : Filled old l refs) (u : ℕ) : Filled old (l ++ [u]) (refs.setNode l.length u) := by
  intro i
  rw [uNodeID_setNode, h i]
  by_cases hi : i = l.length
  · simp [hi]
  · rw [if_neg hi]
    rcases Nat.lt_or_gt_of_ne hi with hlt | hgt
    · rw [List.getD_append _ _ _ _ hlt]
    · rw [List.getD_eq_default _ _ hgt.le, List.getD_eq_default]
      rw [List.length_append, List.length_singleton]
      exact hgt

theorem Filled.unique (h : Filled old l refs) (h' : Filled old l' refs)
    (hold : ∀ i, (old i).uNodeID = uEndOfList) (hl : uEndOfList ∉ l) (hl' : uEndOfList ∉ l') : l = l' := by
  have hentry : ∀ {k : List ℕ}, uEndOfList ∉ k → Filled old k refs → ∀ i,
      k[i]? = if (refs i).uNodeID = uEndOfList then none else some (refs i).uNodeID := by
    intro k hk hf i
    rw [hf i, hold i, List.getD_eq_getElem?_getD]
    by_cases hi : i < k.length
    · have hne : ¬k[i] = uEndOfList := fun he => hk (he ▸ List.getElem_mem hi)
      simp [hi, hne]
    · simp [hi]
  apply List.ext_getElem?
  intro i
  rw [hentry hl h, hentry hl' h']

theorem endsIff_copyNodes {s : σ} {nodes : List ℕ} (h : Filled old l refs) (hl : l.length ≤ maxRef + 1) :
    EndsIff (l.length + nodes.length ≤ maxRef + 1) (copyNodes nodes l.length refs) s fun refs' _ =>
      Filled old (l ++ nodes) refs' := by
  induction nodes generalizing refs l s with
  | nil =>
    refine ⟨fun _ => (ends_pure _).mpr ?_, fun _ => hl⟩
    rwa [List.append_nil]
  | cons u nodes ih =>
    have hlen : (l ++ [u]).length = l.length + 1 := by simp
    refine ((endsIff_check _).bind (ψ := l.length + 1 + nodes.length ≤ maxRef + 1)
      fun _ s' hle _ => ?_).congr ?_
    · have hrest := ih (h.next u) (s := s') (by omega)
      rw [hlen] at hrest
      refine hrest.imp fun refs' _ _ hfilled => ?_
      rwa [List.append_assoc] at hfilled
    · rw [List.length_cons]
      omega

theorem endsIff_copyThree {α : Type} {a b e : List ℕ} {k : BufferRefs → Checked σ α} {ψ : Prop}
    {Q : α → σ → Prop} {s : σ}
    (hk : ∀ refs' s', Filled refs (a ++ (b ++ e)) refs' → EndsIff ψ (k refs') s' Q) :
    EndsIff (a.length + b.length + e.length ≤ maxRef + 1 ∧ ψ)
      (copyNodes a 0 refs >>= fun r => copyNodes b a.length r >>= fun r =>
        copyNodes e (a.length + b.length) r >>= k) s Q := by
  have ha : EndsIff (0 + a.length ≤ maxRef + 1) (copyNodes a 0 refs) s fun r _ => Filled refs a r :=
    endsIff_copyNodes (filled_nil refs) (Nat.zero_le _)
  refine (ha.bind (ψ := a.length + b.length ≤ maxRef + 1 ∧
    (a.length + b.length + e.length ≤ maxRef + 1 ∧ ψ)) fun r1 s1 hle1 h1 => ?_).congr
      ⟨fun h => h.2.2, fun h => ⟨by omega, by omega, h⟩⟩
  refine (endsIff_copyNodes h1 (by omega)).bind fun r2 s2 hle2 h2 => ?_
  rw [← List.length_append] at hle2 ⊢
  refine (endsIff_copyNodes h2 hle2).bind fun r3 s3 _ h3 => hk r3 s3 ?_
  rwa [List.append_assoc] at h3

end BufferRefs

end VcuCodec
