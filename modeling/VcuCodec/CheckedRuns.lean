import Mathlib.Data.Int.Basic
import Mathlib.Tactic.Common

/-!
# Runs that check every array access

A computation reads and changes a state `σ` and gets stuck where it leaves an
array, follows a null pointer or runs out of the rounds it is given.  `Ends` is
its weakest precondition; the rules below take a computation apart in both
directions.
-/

namespace CheckedRuns

/-- Why a run has no result. -/
inductive Stuck
  | outOfBounds
  | nullPointer
  | unfinished
  deriving DecidableEq, Repr

/-- A computation on the state `σ`. -/
def Checked (σ α : Type) : Type := σ → Except Stuck (α × σ)

namespace Checked

variable {σ α β : Type} {n : ℕ}

def andThen (m : Checked σ α) (f : α → Checked σ β) : Checked σ β := fun s =>
  match m s with
  | .ok (a, t) => f a t
  | .error e => .error e

instance : Monad (Checked σ) where
  pure a := fun s => .ok (a, s)
  bind := andThen

def stuck (e : Stuck) : Checked σ α := fun _ => .error e

def step (r : σ → α × σ) : Checked σ α := fun s => .ok (r s)

/-- The value behind a pointer. -/
def deref (o : Option α) : Checked σ α :=
  match o with
  | some a => pure a
  | none => stuck .nullPointer

def readAt (v : Vector α n) (i : ℤ) : Checked σ α :=
  if h : 0 ≤ i ∧ i < n then pure (v.get ⟨i.toNat, by omega⟩) else stuck .outOfBounds

def writeAt (v : Vector α n) (i : ℤ) (x : α) : Checked σ (Vector α n) :=
  if h : 0 ≤ i ∧ i < n then pure (v.set i.toNat x (by omega)) else stuck .outOfBounds

/-- The bound of an array access. -/
def check (c : Prop) [Decidable c] : Checked σ Unit :=
  if c then pure () else stuck .outOfBounds

/-- A field that is only read if a condition holds. -/
def readIf (c : Prop) [Decidable c] (m : Checked σ α) (a : α) : Checked σ α :=
  if c then m else pure a

/-- The rounds `i`, `i + 1`, … of a counting loop. -/
def countFrom (body : ℕ → β → Checked σ β) : (rounds i : ℕ) → β → Checked σ β
  | 0, _, b => pure b
  | rounds + 1, i, b => body i b >>= countFrom body rounds (i + 1)

/-- The loop over `0`, …, `rounds - 1`. -/
def forBelow (rounds : ℕ) (b : β) (body : ℕ → β → Checked σ β) : Checked σ β :=
  countFrom body rounds 0 b

/-- The next part of a function, unless the first part has returned. -/
def next {ρ : Type} (m : Checked σ (ρ ⊕ α)) (f : α → Checked σ (ρ ⊕ β)) : Checked σ (ρ ⊕ β) :=
  m >>= fun r =>
    match r with
    | .inl r => pure (.inl r)
    | .inr a => f a

theorem step_bind_apply (r : σ → α × σ) (f : α → Checked σ β) (s : σ) :
    (step r >>= f) s = f (r s).1 (r s).2 :=
  rfl

/-! ## Weakest preconditions -/

/-- The run from `s` gets to an end with `Q`. -/
def Ends (m : Checked σ α) (s : σ) (Q : α → σ → Prop) : Prop :=
  ∃ a t, m s = .ok (a, t) ∧ Q a t

/-- The run from `s` gets to an end. -/
def Returns (m : Checked σ α) (s : σ) : Prop := Ends m s fun _ _ => True

section Rules

variable {m : Checked σ α} {f : α → Checked σ β} {s : σ} {Q R : α → σ → Prop}

@[simp] theorem ends_pure (a : α) : Ends (pure a) s Q ↔ Q a s := by
  constructor
  · rintro ⟨b, t, h, hq⟩
    cases h
    exact hq
  · intro hq
    exact ⟨a, s, rfl, hq⟩

variable {S : β → σ → Prop}

@[simp] theorem ends_bind : Ends (m >>= f) s S ↔ Ends m s fun a t => Ends (f a) t S := by
  have hb : (m >>= f) s = andThen m f s := rfl
  constructor
  · rintro ⟨b, u, h, hs⟩
    rw [hb] at h
    unfold andThen at h
    split at h
    · next a t hm => exact ⟨a, t, hm, b, u, h, hs⟩
    · simp at h
  · rintro ⟨a, t, hm, b, u, h, hs⟩
    refine ⟨b, u, ?_, hs⟩
    rw [hb]
    unfold andThen
    rw [hm]
    exact h

@[simp] theorem ends_stuck (e : Stuck) : Ends (stuck e : Checked σ α) s Q ↔ False := by
  constructor
  · rintro ⟨a, t, h, -⟩
    cases h
  · exact False.elim

@[simp] theorem ends_step (r : σ → α × σ) : Ends (step r) s Q ↔ Q (r s).1 (r s).2 := by
  constructor
  · rintro ⟨a, t, h, hq⟩
    have hr : r s = (a, t) := Except.ok.inj h
    rwa [hr]
  · intro hq
    exact ⟨(r s).1, (r s).2, rfl, hq⟩

@[simp] theorem ends_deref {o : Option α} : Ends (deref o) s Q ↔ ∃ a, o = some a ∧ Q a s := by
  cases o with
  | none => simp [deref]
  | some a => simp [deref]

theorem ends_readAt {v : Vector α n} {i : ℤ} :
    Ends (readAt v i) s Q ↔ ∃ h : 0 ≤ i ∧ i < n, Q (v.get ⟨i.toNat, by omega⟩) s := by
  unfold readAt
  by_cases h : 0 ≤ i ∧ i < n
  · simp [h]
  · simp [h]

theorem ends_writeAt {v : Vector α n} {i : ℤ} {x : α} {S : Vector α n → σ → Prop} :
    Ends (writeAt v i x) s S ↔ ∃ h : 0 ≤ i ∧ i < n, S (v.set i.toNat x (by omega)) s := by
  unfold writeAt
  by_cases h : 0 ≤ i ∧ i < n
  · simp [h]
  · simp [h]

variable {c : Prop}

@[simp] theorem ends_ite [Decidable c] {m' : Checked σ α} :
    Ends (if c then m else m') s Q ↔ (c → Ends m s Q) ∧ (¬c → Ends m' s Q) := by
  by_cases hc : c <;> simp [hc]

@[simp] theorem ends_check [Decidable c] {S : Unit → σ → Prop} :
    Ends (check c) s S ↔ c ∧ S () s := by
  unfold check
  by_cases hc : c <;> simp [hc]

@[simp] theorem ends_readIf [Decidable c] {a : α} :
    Ends (readIf c m a) s Q ↔ (c → Ends m s Q) ∧ (¬c → Q a s) := by
  unfold readIf
  rw [ends_ite, ends_pure]

theorem ends_next {ρ : Type} {m : Checked σ (ρ ⊕ α)} {f : α → Checked σ (ρ ⊕ β)}
    {S : ρ ⊕ β → σ → Prop} :
    Ends (next m f) s S ↔ Ends m s fun r t =>
      match r with
      | .inl r => S (.inl r) t
      | .inr a => Ends (f a) t S := by
  unfold next
  rw [ends_bind]
  constructor
  · rintro ⟨r, t, hm, h⟩
    refine ⟨r, t, hm, ?_⟩
    cases r with
    | inl r => exact (ends_pure (Q := S) (Sum.inl r)).mp h
    | inr a => exact h
  · rintro ⟨r, t, hm, h⟩
    refine ⟨r, t, hm, ?_⟩
    cases r with
    | inl r => exact (ends_pure (Q := S) (Sum.inl r)).mpr h
    | inr a => exact h

theorem Ends.imp (h : Ends m s Q) (hqr : ∀ a t, Q a t → R a t) : Ends m s R := by
  obtain ⟨a, t, hm, hq⟩ := h
  exact ⟨a, t, hm, hqr a t hq⟩

theorem Ends.returns (h : Ends m s Q) : Returns m s := h.imp fun _ _ _ => trivial

theorem ends_of_eq {a : α} {t : σ} (hm : m s = .ok (a, t)) : Ends m s Q ↔ Q a t := by
  constructor
  · rintro ⟨a', t', hm', hq⟩
    rw [hm] at hm'
    cases hm'
    exact hq
  · intro hq
    exact ⟨a, t, hm, hq⟩

theorem Ends.and (h : Ends m s Q) (h' : Ends m s R) : Ends m s fun a t => Q a t ∧ R a t := by
  obtain ⟨a, t, hm, hq⟩ := h
  exact ⟨a, t, hm, hq, (ends_of_eq hm).mp h'⟩

theorem Ends.bind_congr {ψ : Prop} (h : Ends m s Q)
    (hf : ∀ a t, Q a t → (Ends (f a) t S ↔ ψ)) : Ends (m >>= f) s S ↔ ψ := by
  obtain ⟨a, t, hm, hq⟩ := h
  rw [ends_bind, ends_of_eq hm]
  exact hf a t hq

end Rules

/-! ## Runs that end under a condition -/

/-- The run from `s` gets to an end if and only if `φ` holds, and then with `Q`. -/
structure EndsIff (φ : Prop) (m : Checked σ α) (s : σ) (Q : α → σ → Prop) : Prop where
  ends : φ → Ends m s Q
  of_returns : Returns m s → φ

section EndsIff

variable {m : Checked σ α} {f : α → Checked σ β} {s : σ} {Q R : α → σ → Prop} {S : β → σ → Prop}
  {φ ψ : Prop}

theorem EndsIff.congr (h : EndsIff φ m s Q) (hφ : φ ↔ ψ) : EndsIff ψ m s Q where
  ends hψ := h.ends (hφ.mpr hψ)
  of_returns hret := hφ.mp (h.of_returns hret)

theorem EndsIff.imp (h : EndsIff φ m s Q) (hqr : ∀ a t, φ → Q a t → R a t) : EndsIff φ m s R where
  ends hφ := (h.ends hφ).imp fun a t => hqr a t hφ
  of_returns := h.of_returns

theorem EndsIff.bind (h : EndsIff φ m s Q) (hf : ∀ a t, φ → Q a t → EndsIff ψ (f a) t S) :
    EndsIff (φ ∧ ψ) (m >>= f) s S where
  ends hφψ := by
    rw [ends_bind]
    exact (h.ends hφψ.1).imp fun a t hq => (hf a t hφψ.1 hq).ends hφψ.2
  of_returns hret := by
    have hm := ends_bind.mp hret
    have hφ := h.of_returns hm.returns
    obtain ⟨a, t, -, hq, hrest⟩ := (h.ends hφ).and hm
    exact ⟨hφ, (hf a t hφ hq).of_returns hrest⟩

theorem Ends.bindIff (h : Ends m s Q) (hf : ∀ a t, Q a t → EndsIff ψ (f a) t S) :
    EndsIff ψ (m >>= f) s S := by
  have hm : EndsIff True m s Q := ⟨fun _ => h, fun _ => trivial⟩
  exact (hm.bind fun a t _ => hf a t).congr (by rw [true_and])

theorem EndsIff.bindEnds (h : EndsIff φ m s Q) (hf : ∀ a t, φ → Q a t → Ends (f a) t S) :
    EndsIff φ (m >>= f) s S := by
  refine (h.bind (ψ := True) fun a t hφ hq => ⟨fun _ => hf a t hφ hq, fun _ => trivial⟩).congr ?_
  rw [and_true]

theorem endsIff_check (c : Prop) [Decidable c] : EndsIff c (check c) s fun _ _ => True where
  ends hc := ends_check.mpr ⟨hc, trivial⟩
  of_returns hret := (ends_check.mp hret).1

end EndsIff

/-! ## Runs that come to an end -/

/-- The run from `s` does not go on for ever, and where it gets to its end, it is
with `Q`. -/
def Halts (m : Checked σ α) (s : σ) (Q : α → σ → Prop) : Prop :=
  m s ≠ .error .unfinished ∧ ∀ a t, m s = .ok (a, t) → Q a t

section Halts

variable {m : Checked σ α} {f : α → Checked σ β} {s : σ} {Q R : α → σ → Prop}

theorem Halts.imp (h : Halts m s Q) (hqr : ∀ a t, Q a t → R a t) : Halts m s R :=
  ⟨h.1, fun a t hm => hqr a t (h.2 a t hm)⟩

end Halts

/-! ## Runs that end from every state -/

/-- Every run of `m` ends, with a result of `P`. -/
def Yields (m : Checked σ α) (P : α → Prop) : Prop := ∀ s, Ends m s fun a _ => P a

section Yields

variable {m m' : Checked σ α} {f : α → Checked σ β} {P P' : α → Prop} {R : β → Prop}

theorem Yields.returns (h : Yields m P) (s : σ) : Returns m s := (h s).returns

theorem Yields.bind (hm : Yields m P) (hf : ∀ a, P a → Yields (f a) R) : Yields (m >>= f) R := by
  intro s
  rw [ends_bind]
  exact (hm s).imp fun a t ha => hf a ha t

theorem Yields.pure {a : α} (h : P a) : Yields (pure a : Checked σ α) P :=
  fun _ => (ends_pure a).mpr h

theorem Yields.step {r : σ → α × σ} (h : ∀ s, P (r s).1) : Yields (step r) P :=
  fun s => (ends_step r).mpr (h s)

theorem Yields.ite {c : Prop} [Decidable c] (h : c → Yields m P) (h' : ¬c → Yields m' P) :
    Yields (if c then m else m') P :=
  fun s => ends_ite.mpr ⟨fun hc => h hc s, fun hc => h' hc s⟩

theorem Yields.readIf {c : Prop} [Decidable c] {a : α} (h : c → Yields m P) (h' : ¬c → P a) :
    Yields (readIf c m a) P :=
  fun s => ends_readIf.mpr ⟨fun hc => h hc s, h'⟩

theorem Yields.writeAt {v : Vector α n} {i : ℤ} {x : α} (h : 0 ≤ i ∧ i < n) :
    Yields (writeAt v i x : Checked σ _) fun _ => True :=
  fun _ => ends_writeAt.mpr ⟨h, trivial⟩

theorem Yields.anyStep (r : σ → α × σ) : Yields (Checked.step r) fun _ => True :=
  .step fun _ => trivial

theorem Yields.anyReadIf (c : Prop) [Decidable c] (h : Yields m fun _ => True) (a : α) :
    Yields (Checked.readIf c m a) fun _ => True :=
  .readIf (fun _ => h) fun _ => trivial

end Yields

/-! ## What runs that end give -/

/-- Every run of `m` that gets to its end has a result of `P`. -/
def Results (m : Checked σ α) (P : α → Prop) : Prop := ∀ s a t, m s = .ok (a, t) → P a

section Results

variable {m m' : Checked σ α} {f : α → Checked σ β} {P : α → Prop} {R : β → Prop}

theorem Results.any (m : Checked σ α) : Results m fun _ => True := fun _ _ _ _ => trivial

theorem Results.of_ends (h : ∀ s, Returns m s → Ends m s fun a _ => P a) : Results m P :=
  fun s _ _ hm => (ends_of_eq hm).mp (h s ⟨_, _, hm, trivial⟩)

theorem ok_bind {s u : σ} {b : β} (hrun : (m >>= f) s = .ok (b, u)) :
    ∃ a t, m s = .ok (a, t) ∧ f a t = .ok (b, u) := by
  have hends : Ends (m >>= f) s fun b' u' => b' = b ∧ u' = u := ⟨b, u, hrun, rfl, rfl⟩
  rw [ends_bind] at hends
  obtain ⟨a, t, ha, b', u', hb, rfl, rfl⟩ := hends
  exact ⟨a, t, ha, hb⟩

theorem Results.bind (hm : Results m P) (hf : ∀ a, P a → Results (f a) R) : Results (m >>= f) R := by
  intro s b u hrun
  obtain ⟨a, t, ha, hb⟩ := ok_bind hrun
  exact hf a (hm s a t ha) t b u hb

theorem Results.behind (hf : ∀ a, Results (f a) R) : Results (m >>= f) R :=
  (Results.any m).bind fun a _ => hf a

theorem Results.pure {a : α} (h : P a) : Results (pure a : Checked σ α) P := by
  intro s b t hrun
  cases hrun
  exact h

theorem Results.ite {c : Prop} [Decidable c] (h : c → Results m P) (h' : ¬c → Results m' P) :
    Results (if c then m else m') P := by
  by_cases hc : c
  · rw [if_pos hc]
    exact h hc
  · rw [if_neg hc]
    exact h' hc

theorem Results.readIf {c : Prop} [Decidable c] {a : α} (h : c → Results m P) (h' : ¬c → P a) :
    Results (readIf c m a) P :=
  .ite h fun hc => .pure (h' hc)

/-- The parts of a function that return with `Q` or go on with `P`. -/
def GoesOn {ρ : Type} (Q : ρ → Prop) (P : α → Prop) : ρ ⊕ α → Prop := Sum.elim Q P

theorem Results.next {ρ : Type} {Q : ρ → Prop} {m : Checked σ (ρ ⊕ α)} {f : α → Checked σ (ρ ⊕ β)}
    (hm : Results m (GoesOn Q P)) (hf : ∀ a, P a → Results (f a) (GoesOn Q R)) :
    Results (next m f) (GoesOn Q R) :=
  hm.bind fun r hr => match r with
    | .inl _ => .pure hr
    | .inr a => hf a hr

end Results

/-! ## Counting loops -/

variable {body : ℕ → β → Checked σ β} {b : β} {s : σ}

theorem countFrom_ends (I : ℕ → β → σ → Prop) {last : ℕ}
    (hstep : ∀ i b s, i < last → I i b s → Ends (body i b) s (I (i + 1))) {rounds i : ℕ}
    (hlast : i + rounds = last) (h : I i b s) : Ends (countFrom body rounds i b) s (I last) := by
  induction rounds generalizing i b s with
  | zero =>
    obtain rfl : i = last := hlast
    exact (ends_pure b).mpr h
  | succ rounds ih =>
    refine ends_bind.mpr ((hstep i b s (by omega) h).imp fun b' s' h' => ?_)
    exact ih (by omega) h'

theorem forBelow_ends (I : ℕ → β → σ → Prop) {rounds : ℕ}
    (hstep : ∀ i b s, i < rounds → I i b s → Ends (body i b) s (I (i + 1)))
    (h : I 0 b s) : Ends (forBelow rounds b body) s (I rounds) :=
  countFrom_ends I hstep (Nat.zero_add rounds) h

theorem countFrom_not_returns (I : ℕ → β → σ → Prop) {last : ℕ}
    (hstep : ∀ i b s, i < last → I i b s → Ends (body i b) s (I (i + 1)))
    (hstuck : ∀ b s, I last b s → ¬Returns (body last b) s) {rounds i : ℕ} (hi : i ≤ last)
    (hlast : last < i + rounds) (h : I i b s) : ¬Returns (countFrom body rounds i b) s := by
  induction rounds generalizing i b s with
  | zero => omega
  | succ rounds ih =>
    intro hret
    obtain ⟨b', s', hbody, hrest⟩ := ends_bind.mp hret
    rcases Nat.lt_or_eq_of_le hi with hlt | rfl
    · have hnext := (ends_of_eq hbody).mp (hstep i b s hlt h)
      exact ih (by omega) (by omega) hnext hrest
    · exact hstuck b s h ⟨b', s', hbody, trivial⟩

theorem forBelow_not_returns (I : ℕ → β → σ → Prop) {last rounds : ℕ}
    (hstep : ∀ i b s, i < last → I i b s → Ends (body i b) s (I (i + 1)))
    (hstuck : ∀ b s, I last b s → ¬Returns (body last b) s) (hlast : last < rounds)
    (h : I 0 b s) : ¬Returns (forBelow rounds b body) s :=
  countFrom_not_returns I hstep hstuck (Nat.zero_le _) (by omega) h

theorem Results.countFrom {P : β → Prop}
    (hbody : ∀ i b, P b → Results (body i b) P) (rounds i : ℕ) (h : P b) :
    Results (countFrom body rounds i b) P := by
  induction rounds generalizing i b with
  | zero => exact .pure h
  | succ rounds ih => exact (hbody i b h).bind fun b' h' => ih (i + 1) h'

theorem Results.forBelow {P : β → Prop}
    (hbody : ∀ i b, P b → Results (body i b) P) (rounds : ℕ) (h : P b) :
    Results (forBelow rounds b body) P :=
  .countFrom hbody rounds 0 h

theorem Yields.forBelow {rounds : ℕ} (h : ∀ i < rounds, ∀ b, Yields (body i b) fun _ => True) :
    Yields (forBelow rounds b body) fun _ => True :=
  fun _ => forBelow_ends (fun _ _ _ => True) (fun i b s hi _ => h i hi b s) trivial

end Checked

end CheckedRuns
