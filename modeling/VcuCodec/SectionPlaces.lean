import VcuCodec.StreamSections
import Mathlib.Data.List.InsertIdx

/-!
# Where the sections are

The sections of a stream buffer lie in it, apart from each other, and in the order of
the table the configuration comes first, then the prefix SEI, then the rest.  What
keeps this of a table when a section is added.
-/

namespace VcuCodec

namespace StreamSection

/-- The offset behind a section. -/
def stop (s : StreamSection) : ℕ := s.uOffset + s.uLength

/-- The configuration, the prefix SEI, and all that comes behind them. -/
def place (s : StreamSection) : ℕ :=
  if s.eFlags &&& SectionFlags.CONFIG ≠ 0 then 0
  else if s.eFlags &&& SectionFlags.SEI_PREFIX ≠ 0 then 1
  else 2

/-- No byte of the buffer is in both sections. -/
def Apart (s t : StreamSection) : Prop :=
  s.uLength = 0 ∨ t.uLength = 0 ∨ s.stop ≤ t.uOffset ∨ t.stop ≤ s.uOffset

theorem Apart.symm {s t : StreamSection} (h : s.Apart t) : t.Apart s := by
  unfold Apart at h ⊢
  omega

theorem place_le_two (s : StreamSection) : s.place ≤ 2 := by
  unfold place
  split
  · omega
  · split <;> omega

end StreamSection

/-- The sections of a buffer of `size` bytes. -/
structure Placed (size : ℕ) (l : List StreamSection) : Prop where
  inside : ∀ s ∈ l, s.stop ≤ size
  apart : l.Pairwise StreamSection.Apart
  ordered : l.Pairwise fun s t => s.place ≤ t.place
  config : ∀ s ∈ l, s.place = 0 → s.stop ≤ AL_ENC_MAX_CONFIG_HEADER_SIZE
  behindConfig : ∀ s ∈ l, s.place = 0 → ∀ t ∈ l, t.place = 1 → s.stop ≤ t.uOffset
  unmixed : ∀ s ∈ l, s.place = 0 → s.eFlags &&& SectionFlags.SEI_PREFIX = 0

namespace Placed

variable {size : ℕ} {l : List StreamSection} {s : StreamSection}

theorem nil (size : ℕ) : Placed size [] := by
  constructor <;> simp

/-- A section behind the others that is neither configuration nor prefix SEI. -/
theorem append (h : Placed size l) (hinside : s.stop ≤ size) (hplace : s.place = 2)
    (hapart : ∀ t ∈ l, t.Apart s) : Placed size (l ++ [s]) where
  inside := by
    intro t ht
    rcases List.mem_append.mp ht with ht | ht
    · exact h.inside t ht
    · rwa [List.mem_singleton.mp ht]
  apart := by
    apply List.pairwise_append.mpr
    exact ⟨h.apart, List.pairwise_singleton _ _, fun t ht u hu => by
      rw [List.mem_singleton.mp hu]
      exact hapart t ht⟩
  ordered := by
    apply List.pairwise_append.mpr
    exact ⟨h.ordered, List.pairwise_singleton _ _, fun t ht u hu => by
      rw [List.mem_singleton.mp hu, hplace]
      exact t.place_le_two⟩
  config := by
    intro t ht h0
    rcases List.mem_append.mp ht with ht | ht
    · exact h.config t ht h0
    · rw [List.mem_singleton.mp ht, hplace] at h0
      exact absurd h0 (by decide)
  behindConfig := by
    intro t ht h0 u hu h1
    rcases List.mem_append.mp ht with ht | ht
    · rcases List.mem_append.mp hu with hu | hu
      · exact h.behindConfig t ht h0 u hu h1
      · rw [List.mem_singleton.mp hu, hplace] at h1
        exact absurd h1 (by decide)
    · rw [List.mem_singleton.mp ht, hplace] at h0
      exact absurd h0 (by decide)
  unmixed := by
    intro t ht h0
    rcases List.mem_append.mp ht with ht | ht
    · exact h.unmixed t ht h0
    · rw [List.mem_singleton.mp ht, hplace] at h0
      exact absurd h0 (by decide)

/-- A prefix SEI between the configuration and the rest of the table. -/
theorem insert {front rest : List StreamSection} (h : Placed size (front ++ rest))
    (hfront : ∀ t ∈ front, t.place = 0) (hrest : ∀ t ∈ rest, t.place ≠ 0)
    (hinside : s.stop ≤ size) (hplace : s.place = 1)
    (hconfig : ∀ t ∈ front ++ rest, t.place = 0 → t.stop ≤ s.uOffset)
    (hapart : ∀ t ∈ front ++ rest, t.place ≠ 0 → t.Apart s) :
    Placed size (front ++ s :: rest) := by
  have hmem : ∀ t ∈ front ++ s :: rest, t = s ∨ t ∈ front ++ rest := by
    intro t ht
    simp only [List.mem_append, List.mem_cons] at ht ⊢
    tauto
  have hall : ∀ t ∈ front ++ rest, t.Apart s := by
    intro t ht
    by_cases h0 : t.place = 0
    · exact .inr (.inr (.inl (hconfig t ht h0)))
    · exact hapart t ht h0
  have hpairs : ∀ R : StreamSection → StreamSection → Prop, (front ++ rest).Pairwise R →
      (∀ t ∈ front, R t s) → (∀ t ∈ rest, R s t) → (front ++ s :: rest).Pairwise R := by
    intro R hR hbefore hbehind
    obtain ⟨h1, h2, h3⟩ := List.pairwise_append.mp hR
    apply List.pairwise_append.mpr
    refine ⟨h1, List.pairwise_cons.mpr ⟨hbehind, h2⟩, fun t ht u hu => ?_⟩
    rcases List.mem_cons.mp hu with rfl | hu
    · exact hbefore t ht
    · exact h3 t ht u hu
  constructor
  · intro t ht
    rcases hmem t ht with rfl | ht
    · exact hinside
    · exact h.inside t ht
  · apply hpairs _ h.apart
    · exact fun t ht => hall t (List.mem_append_left _ ht)
    · exact fun t ht => (hall t (List.mem_append_right _ ht)).symm
  · apply hpairs _ h.ordered
    · intro t ht
      rw [hfront t ht]
      exact Nat.zero_le _
    · intro t ht
      rw [hplace]
      exact Nat.pos_of_ne_zero (hrest t ht)
  · intro t ht h0
    rcases hmem t ht with rfl | ht
    · rw [hplace] at h0
      exact absurd h0 (by decide)
    · exact h.config t ht h0
  · intro t ht h0 u hu h1
    rcases hmem t ht with rfl | ht'
    · rw [hplace] at h0
      exact absurd h0 (by decide)
    · rcases hmem u hu with rfl | hu'
      · exact hconfig t ht' h0
      · exact h.behindConfig t ht' h0 u hu' h1
  · intro t ht h0
    rcases hmem t ht with rfl | ht
    · rw [hplace] at h0
      exact absurd h0 (by decide)
    · exact h.unmixed t ht h0

/-- Flags that say nothing of the place do not matter. -/
theorem map {f : StreamSection → StreamSection} (h : Placed size l)
    (hplace : ∀ s, (f s).place = s.place) (hoffset : ∀ s, (f s).uOffset = s.uOffset)
    (hlength : ∀ s, (f s).uLength = s.uLength)
    (hsei : ∀ s, (f s).eFlags &&& SectionFlags.SEI_PREFIX = s.eFlags &&& SectionFlags.SEI_PREFIX) :
    Placed size (l.map f) := by
  have hstop : ∀ s, (f s).stop = s.stop := by
    intro s
    unfold StreamSection.stop
    rw [hoffset, hlength]
  constructor
  · simpa [hstop] using h.inside
  · apply List.pairwise_map.mpr
    apply h.apart.imp
    intro s t hst
    unfold StreamSection.Apart at hst ⊢
    rwa [hlength, hlength, hstop, hstop, hoffset, hoffset]
  · apply List.pairwise_map.mpr
    simpa [hplace] using h.ordered
  · simpa [hplace, hstop] using h.config
  · simpa [hplace, hstop, hoffset] using h.behindConfig
  · simpa [hplace, hsei] using h.unmixed

end Placed

/-! ## The section table -/

namespace StreamMetaData

open SectionFlags

end StreamMetaData

end VcuCodec
