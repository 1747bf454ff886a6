import Mathlib.Data.List.Sort
import VcuCodec.NalFlush
import VcuCodec.StartCodeRuns

/-!
# Streams from the encoder to the decoder

NAL units that `FlushNAL` writes one behind the other, and the decoder that looks for
their start codes.
-/

namespace VcuCodec

open BitStreamLite

/-- What the encoder gives to `FlushNAL`: a NAL unit type of its codec, and an RBSP, which is
empty or ends with a one bit. -/
structure WrittenNal (eCodec : Codec) where
  uNUT : UInt8
  uNalRefIdc : UInt8
  uLayerId : UInt8
  uTempId : UInt8
  rbsp : List UInt8
  iBitsInNAL : ℕ
  avc : eCodec = .avc → uNUT.toNat % 32 = uNUT.toNat ∧ uNUT ≠ 0
  hevc : eCodec = .hevc → uNUT.toNat % 64 = uNUT.toNat ∧ uTempId < 7
  last_ne : rbsp.getLast? ≠ some 0
  bits : (iBitsInNAL + 7) / 8 = rbsp.length

theorem getLast?_escape {zeros : ℕ} {l : List UInt8} : (escape zeros l).getLast? = l.getLast? := by
  induction l generalizing zeros with
  | nil => rfl
  | cons b l ih =>
    unfold escape
    split
    · rw [List.getLast?_cons_cons, List.getLast?_cons, List.getLast?_cons, ih]
    · rw [List.getLast?_cons, List.getLast?_cons, ih]

namespace WrittenNal

variable {eCodec : Codec} (n : WrittenNal eCodec)

def header : NalHeader :=
  match eCodec with
  | .avc => getNalHeaderAvc n.uNUT n.uNalRefIdc
  | .hevc => getNalHeaderHevc n.uNUT n.uLayerId n.uTempId

/-- The bytes behind the start code. -/
def body : List UInt8 := n.header.bytes ++ escape 0 n.rbsp

def unit : List UInt8 := startCode eCodec n.uNUT.toNat ++ n.body

theorem header_built : n.header.Built := by
  cases eCodec with
  | avc =>
    refine .avc _ _ fun hz => (n.avc rfl).2 ?_
    have h := congrArg UInt8.toNat hz
    rw [UInt8.toNat_and] at h
    rw [← UInt8.toNat_inj, ← (n.avc rfl).1]
    exact (Nat.and_two_pow_sub_one_eq_mod n.uNUT.toNat 5).symm.trans h
  | hevc => exact .hevc _ _ _ (n.hevc rfl).2

/-- The decoder reads the type that was written. -/
theorem nut_eq : ∃ b tail, n.body = b :: tail ∧ ∀ stream p, stream (p + 3) = b.toNat →
    nutAt eCodec stream p = n.uNUT.toNat := by
  cases eCodec with
  | avc =>
    refine ⟨_, _, rfl, fun stream p h => ?_⟩
    unfold nutAt
    dsimp only
    rw [h, UInt8.toNat_or, show 32 = 2 ^ 5 from rfl, Nat.or_mod_two_pow, UInt8.toNat_and n.uNUT,
      UInt8.toNat_shiftLeft]
    have hshift : ((n.uNalRefIdc &&& 0x03).toNat <<< ((5 : UInt8).toNat % 8) % 2 ^ 8) % 2 ^ 5 = 0 := by
      rw [Nat.mod_mod_of_dvd _ (by decide), Nat.shiftLeft_eq]
      exact Nat.mul_mod_left _ _
    rw [hshift, Nat.zero_or, show (0x1F : UInt8).toNat = 2 ^ 5 - 1 from rfl,
      Nat.and_two_pow_sub_one_eq_mod, Nat.mod_mod]
    exact (n.avc rfl).1
  | hevc =>
    refine ⟨_, _, rfl, fun stream p h => ?_⟩
    have hlayer : (n.uLayerId &&& 0x20).toNat < 2 ^ 6 := by
      rw [UInt8.toNat_and]
      exact lt_of_le_of_lt Nat.and_le_right (by decide)
    have hnut := (n.hevc rfl).1
    unfold nutAt
    dsimp only
    rw [h, UInt8.toNat_or, UInt8.toNat_shiftRight, UInt8.toNat_shiftLeft, UInt8.toNat_and n.uNUT,
      show (0x3F : UInt8).toNat = 2 ^ 6 - 1 from rfl, Nat.and_two_pow_sub_one_eq_mod, hnut,
      ← Nat.shiftRight_one, Nat.shiftRight_or_distrib, ← Nat.shiftRight_add, Nat.shiftRight_eq_div_pow]
    rw [show (n.uLayerId &&& 0x20).toNat / 2 ^ ((5 : UInt8).toNat % 8 + 1) = 0 from
      Nat.div_eq_of_lt hlayer, Nat.zero_or, Nat.shiftLeft_eq, Nat.shiftRight_one]
    show n.uNUT.toNat * 2 % 256 / 2 % 64 = n.uNUT.toNat
    omega

theorem last_body_ne : n.body.getLast? ≠ some 0 := by
  have hbody : n.body.getLast? = n.rbsp.getLast?.or n.header.bytes.getLast? := by
    rw [body, List.getLast?_append, getLast?_escape]
  rw [hbody]
  cases hlast : n.rbsp.getLast? with
  | some b => exact fun h => n.last_ne (hlast.trans h)
  | none =>
    rcases n.header_built.last_ne_zero with ⟨b, hb, hbytes⟩ | ⟨a, b, hb, hbytes⟩
    · rw [hbytes]
      exact fun h => hb (Option.some.inj h)
    · rw [hbytes]
      exact fun h => hb (Option.some.inj h)

theorem body_clear : ¬Emulates n.body :=
  ((n.header_built.append _).2 (escape_clear (Nat.zero_le 2) n.rbsp)).not_emulates

end WrittenNal

/-! ## Start codes -/

/-- A start code of three bytes. -/
def StartsAt (l : List UInt8) (p : ℕ) : Prop := [0, 0, 1] <+: l.drop p

theorem startsAt_iff {l : List UInt8} {p : ℕ} : StartsAt l p ↔
    (memOf l p).toNat = 0 ∧ (memOf l (p + 1)).toNat = 0 ∧ (memOf l (p + 2)).toNat = 1 := by
  have hmem : ∀ k, memOf l (p + k) = (l.drop p).getD k 0 := by
    intro k
    rw [memOf, List.getD_eq_getElem?_getD, List.getD_eq_getElem?_getD, List.getElem?_drop]
  have h0 := hmem 0
  rw [Nat.add_zero] at h0
  rw [h0, hmem 1, hmem 2]
  unfold StartsAt
  generalize l.drop p = d
  have hone : ∀ x : UInt8, x.toNat = 1 ↔ 1 = x := fun x => by
    rw [eq_comm (a := (1 : UInt8)), ← UInt8.toNat_inj]
    rfl
  have hzero : ∀ x : UInt8, x.toNat = 0 ↔ 0 = x := fun x => by
    rw [eq_comm (a := (0 : UInt8)), ← UInt8.toNat_inj]
    rfl
  rcases d with _ | ⟨a, _ | ⟨b, _ | ⟨x, r⟩⟩⟩
  · simp
  · simp
  · simp
  · simp [hone, hzero, List.cons_prefix_cons]

/-- No start code begins in bytes without the three patterns that do not end with a zero. -/
theorem not_startsAt {l rest : List UInt8} {j : ℕ} (hlast : l.getLast? ≠ some 0) (hclear : ¬Emulates l)
    (hj : j < l.length) : ¬StartsAt (l ++ rest) j := by
  unfold StartsAt
  rw [List.drop_append_of_le_length hj.le]
  have hsuffix : l.drop j <:+ l := List.drop_suffix j l
  have hlast' : (l.drop j).getLast? ≠ some 0 := by
    rwa [List.getLast?_drop, if_neg (by omega)]
  have hne : l.drop j ≠ [] := List.ne_nil_of_length_pos (by rw [List.length_drop]; omega)
  generalize l.drop j = d at hsuffix hlast' hne
  rcases d with _ | ⟨a, _ | ⟨b, _ | ⟨x, r⟩⟩⟩
  · exact absurd rfl hne
  · intro h
    exact hlast' (congrArg some (List.cons_prefix_cons.mp h).1.symm)
  · intro h
    exact hlast' (congrArg some (List.cons_prefix_cons.mp (List.cons_prefix_cons.mp h).2).1.symm)
  · intro h
    simp only [List.cons_append, List.cons_prefix_cons] at h
    obtain ⟨rfl, rfl, rfl, -⟩ := h
    exact hclear ⟨1, by decide, List.IsInfix.trans ⟨[], r, rfl⟩ hsuffix.isInfix⟩

/-! ## NAL units one behind the other -/

namespace WrittenNal

variable {eCodec : Codec}

theorem startCode_eq (eCodec : Codec) (nut : ℕ) :
    startCode eCodec nut = [0, 0, 1] ∨ startCode eCodec nut = [0, 0, 0, 1] :=
  (ite_eq_or_eq _ _ _).symm

variable (n : WrittenNal eCodec)

/-- Of the three zero bytes in front of some types, the last two belong to the start code. -/
def offset : ℕ := (startCode eCodec n.uNUT.toNat).length - 3

theorem offset_add : n.offset + 3 = (startCode eCodec n.uNUT.toNat).length := by
  unfold offset
  rcases startCode_eq eCodec n.uNUT.toNat with h | h <;> rw [h] <;> rfl

theorem length_unit : n.unit.length = n.offset + 3 + n.body.length := by
  rw [unit, List.length_append, offset_add]

theorem unit_startsAt {rest : List UInt8} {p : ℕ} (hp : p < n.unit.length) :
    StartsAt (n.unit ++ rest) p ↔ p = n.offset := by
  by_cases hbody : n.offset + 3 ≤ p
  · obtain ⟨j, rfl⟩ := Nat.exists_eq_add_of_le hbody
    have hno : ¬StartsAt (n.body ++ rest) j :=
      not_startsAt n.last_body_ne n.body_clear (by have := n.length_unit; omega)
    refine ⟨fun h => absurd ?_ hno, fun h => by omega⟩
    unfold StartsAt at h ⊢
    rwa [unit, List.append_assoc, ← List.drop_drop, n.offset_add, List.drop_left] at h
  · unfold StartsAt
    rw [unit, List.append_assoc]
    generalize n.body ++ rest = m
    rcases startCode_eq eCodec n.uNUT.toNat with h | h
    · have hzero : n.offset = 0 := by rw [offset, h]; rfl
      rw [h, hzero]
      obtain rfl | rfl | rfl : p = 0 ∨ p = 1 ∨ p = 2 := by omega
      all_goals simp [List.cons_prefix_cons]
    · have hone : n.offset = 1 := by rw [offset, h]; rfl
      rw [h, hone]
      obtain rfl | rfl | rfl | rfl : p = 0 ∨ p = 1 ∨ p = 2 ∨ p = 3 := by omega
      all_goals simp [List.cons_prefix_cons]

/-- The bytes of the NAL units. -/
def bytes (ns : List (WrittenNal eCodec)) : List UInt8 := ns.flatMap unit

/-- Where the start codes were written when the first NAL unit begins at `a`, and the types. -/
def starts : (a : ℕ) → List (WrittenNal eCodec) → List (ℕ × ℕ)
  | _, [] => []
  | a, n :: ns => (a + n.offset, n.uNUT.toNat) :: starts (a + n.unit.length) ns

variable {n} {ns : List (WrittenNal eCodec)} {a p : ℕ} {x : ℕ × ℕ}

theorem le_of_mem_starts (hx : x ∈ starts a ns) : a ≤ x.1 := by
  induction ns generalizing a with
  | nil => exact absurd hx List.not_mem_nil
  | cons n ns ih =>
    rcases List.mem_cons.mp hx with rfl | hx
    · exact Nat.le_add_right a _
    · exact (Nat.le_add_right a _).trans (ih hx)

theorem starts_sorted : (starts a ns).Pairwise (fun x y => x.1 < y.1) := by
  induction ns generalizing a with
  | nil => exact .nil
  | cons n ns ih =>
    refine .cons (fun y hy => ?_) ih
    have := le_of_mem_starts hy
    have := n.length_unit
    dsimp only
    omega

/-- The start codes of the stream are those that were written. -/
theorem bytes_startsAt : StartsAt (bytes ns) p ↔ a + p ∈ (starts a ns).map Prod.fst := by
  induction ns generalizing a p with
  | nil => simp [StartsAt, bytes, starts]
  | cons n ns ih =>
    rw [bytes, List.flatMap_cons, starts, List.map_cons, List.mem_cons]
    have hlen := n.length_unit
    rcases Nat.lt_or_ge p n.unit.length with hp | hp
    · rw [n.unit_startsAt hp]
      have hrest : a + p ∉ (starts (a + n.unit.length) ns).map Prod.fst := by
        intro h
        obtain ⟨x, hx, hxp⟩ := List.mem_map.mp h
        have := le_of_mem_starts hx
        omega
      rw [or_iff_left hrest, Nat.add_left_cancel_iff]
    · obtain ⟨q, rfl⟩ := Nat.exists_eq_add_of_le hp
      have hfirst : a + (n.unit.length + q) ≠ a + n.offset := by omega
      rw [or_iff_right hfirst, ← Nat.add_assoc, ← ih]
      unfold StartsAt
      rw [← List.drop_drop, List.drop_left]
      rfl

/-- The stream behind the bytes of the NAL units. -/
def streamOf (l : List UInt8) (i : ℕ) : ℕ := (memOf l i).toNat

theorem streamOf_append {l m : List UInt8} {i : ℕ} : streamOf (l ++ m) (l.length + i) = streamOf m i := by
  unfold streamOf memOf
  rw [List.getD_append_right _ _ _ _ (Nat.le_add_right _ i), Nat.add_sub_cancel_left]

theorem nutAt_starts (hx : (a + p, x.2) ∈ starts a ns) : nutAt eCodec (streamOf (bytes ns)) p = x.2 := by
  induction ns generalizing a p with
  | nil => exact absurd hx List.not_mem_nil
  | cons n ns ih =>
    rw [bytes, List.flatMap_cons]
    rcases List.mem_cons.mp hx with h | h
    · obtain ⟨b, tail, hbody, hnut⟩ := n.nut_eq
      obtain ⟨hp, hu⟩ := Prod.mk.inj h
      obtain rfl := Nat.add_left_cancel hp
      rw [hu]
      refine hnut _ _ ?_
      rw [unit, List.append_assoc, n.offset_add, ← Nat.add_zero (List.length _), streamOf_append, hbody]
      rfl
    · have hle := le_of_mem_starts h
      obtain ⟨q, rfl⟩ := Nat.exists_eq_add_of_le (show n.unit.length ≤ p by dsimp only at hle; omega)
      rw [← Nat.add_assoc] at h
      rw [← ih h]
      unfold nutAt
      cases eCodec <;> dsimp only <;> rw [Nat.add_assoc, streamOf_append] <;> rfl

theorem snd_of_mem_starts (hx : x ∈ starts a ns) : ∃ n ∈ ns, x.2 = n.uNUT.toNat := by
  induction ns generalizing a with
  | nil => exact absurd hx List.not_mem_nil
  | cons n ns ih =>
    rcases List.mem_cons.mp hx with rfl | hx
    · exact ⟨n, List.mem_cons_self, rfl⟩
    · obtain ⟨m, hm, hu⟩ := ih hx
      exact ⟨m, List.mem_cons_of_mem n hm, hu⟩

/-- Without SEI no picture is announced. -/
theorem bytes_quiet {c : ScConfig} {ns : List (WrittenNal c.eCodec)}
    (h : ∀ n ∈ ns, isPrefixSei c.eCodec n.uNUT.toNat = false) : c.Quiet (streamOf (bytes ns)) := by
  rintro p ⟨hstart, hsei, -⟩
  obtain ⟨x, hx, hxp⟩ := List.mem_map.mp ((bytes_startsAt (a := 0)).mp (startsAt_iff.mpr hstart))
  rw [nutAt_starts (a := 0) (x := x) (by rw [← hxp]; exact hx)] at hsei
  obtain ⟨n, hn, hu⟩ := snd_of_mem_starts hx
  rw [hu, h n hn] at hsei
  exact Bool.false_ne_true hsei

/-- What the detector answers for the first `N` bytes. -/
theorem startsIn_bytes (N : ℕ) : ((startsIn (streamOf (bytes ns)) 0 N).map
    fun p => (p, nutAt eCodec (streamOf (bytes ns)) p)) = (starts 0 ns).filter (·.1 < N) := by
  have hfst : startsIn (streamOf (bytes ns)) 0 N = ((starts 0 ns).filter (·.1 < N)).map Prod.fst := by
    have hsorted : (starts 0 ns).Pairwise fun x y => x.1 < y.1 := starts_sorted
    refine startsIn_sorted.eq_of_mem_iff (List.pairwise_map.mpr (hsorted.filter _)) fun p => ?_
    have hiff : StartsAt (bytes ns) p ↔ p ∈ (starts 0 ns).map Prod.fst := by
      rw [bytes_startsAt (a := 0), Nat.zero_add]
    unfold startsIn
    rw [List.mem_filter, List.mem_range'_1, decide_eq_true_eq]
    unfold streamOf
    rw [← startsAt_iff, hiff, List.mem_map, List.mem_map]
    simp only [List.mem_filter, decide_eq_true_eq]
    constructor
    · rintro ⟨⟨-, hN⟩, x, hx, rfl⟩
      exact ⟨x, ⟨hx, by omega⟩, rfl⟩
    · rintro ⟨x, ⟨hx, hN⟩, rfl⟩
      exact ⟨⟨Nat.zero_le _, by omega⟩, x, hx, rfl⟩
  rw [hfst, List.map_map]
  conv_rhs => rw [← List.map_id ((starts 0 ns).filter (·.1 < N))]
  refine List.map_congr_left fun x hx => Prod.ext rfl ?_
  exact nutAt_starts (a := 0) (by rw [Nat.zero_add]; exact (List.mem_filter.mp hx).1)

/-! ## From `FlushNAL` to the table -/

variable {s s' : BitStreamLite}

def flushNALs (s : BitStreamLite) (ns : List (WrittenNal eCodec)) : BitStreamLite :=
  ns.foldl (fun s n => s.flushNAL eCodec n.uNUT.toNat n.header (memOf n.rbsp) n.iBitsInNAL) s

theorem flushNALs_extends (h : s.Tidy) (hmax : s.iBitCount + 8 * (bytes ns).length ≤ s.iMaxBits) :
    s.Extends (bitsOf (bytes ns)) (flushNALs s ns) := by
  induction ns generalizing s with
  | nil => exact .nil h
  | cons n ns ih =>
    rw [bytes, List.flatMap_cons, List.length_append] at hmax
    have hfirst : s.Extends (bitsOf n.unit)
        (s.flushNAL eCodec n.uNUT.toNat n.header (memOf n.rbsp) n.iBitsInNAL) :=
      flushNAL_extends h n.bits (by unfold unit body at hmax; omega)
    rw [bytes, List.flatMap_cons, bitsOf_append]
    refine hfirst.append (ih hfirst.tidy ?_)
    rw [hfirst.count, hfirst.max, length_bitsOf]
    unfold bytes
    omega

theorem bytes_flushNALs (h : s.Tidy) (hempty : s.iBitCount = 0) (hmax : 8 * (bytes ns).length ≤ s.iMaxBits) :
    (flushNALs s ns).bytes = bytes ns := by
  have hext : s.Extends (bitsOf (bytes ns)) (flushNALs s ns) :=
    flushNALs_extends h (by rw [hempty, Nat.zero_add]; exact hmax)
  rw [hext.bytes_eq (by rw [hempty])]
  simp [BitStreamLite.bytes, hempty]

end WrittenNal

namespace ScUse

open WrittenNal

variable {c : ScConfig} {s : ScUse} {ps : List ℕ} {e : ℕ}

/-- The NAL units handed over and those of the table, with their positions in the ring and
their types. -/
def seen (s : ScUse) : List (ℕ × ℕ) :=
  (s.handed.flatMap (·.nals) ++ s.table).map fun pNal => (pNal.uPosition, pNal.uNUT)

theorem map_fst_spans (ps : List ℕ) (e : ℕ) : (spans ps e).map Prod.fst = ps := by
  induction ps with
  | nil => rfl
  | cons p ps ih => rw [spans, List.map_cons, ih]

theorem nals_eq {stream : ℕ → ℕ} {nals : List TableNal} {xs : List (ℕ × ℕ)}
    (h : List.Forall₂ (c.SameNal stream) nals xs) : nals.map (fun pNal => (pNal.uPosition, pNal.uNUT)) =
      (xs.map Prod.fst).map fun p => (p % c.uSize, nutAt c.eCodec stream p) := by
  induction h with
  | nil => rfl
  | cons hsame _ ih =>
    rw [List.map_cons, ih, hsame.1, hsame.2.1]
    rfl

theorem handed_eq {stream : ℕ → ℕ} {handed : List DecodingUnit} {units : List (List (ℕ × ℕ))}
    (h : List.Forall₂ (fun u xs => List.Forall₂ (c.SameNal stream) u.nals xs) handed units) :
    (handed.flatMap (·.nals)).map (fun pNal => (pNal.uPosition, pNal.uNUT)) =
      (units.flatten.map Prod.fst).map fun p => (p % c.uSize, nutAt c.eCodec stream p) := by
  induction h with
  | nil => rfl
  | cons hu _ ih =>
    rw [List.flatMap_cons, List.flatten_cons, List.map_append, List.map_append, List.map_append, nals_eq hu, ih]

theorem OneScan.seen_eq (h : s.OneScan c ps e) : s.seen =
    (startsIn s.stream 0 s.scanned).map fun p => (p % c.uSize, nutAt c.eCodec s.stream p) := by
  obtain ⟨units, hm⟩ := h.matches_scan s.scanned le_rfl
  have hscan := congrArg (List.map Prod.fst) hm.scan
  rw [show startsIn s.stream s.scanned s.scanned = [] by rw [startsIn, Nat.sub_self]; rfl, List.append_nil,
    List.map_append, map_fst_spans, map_fst_spans] at hscan
  have htable : s.table.map (fun pNal => (pNal.uPosition, pNal.uNUT)) =
      ps.map fun p => (p % c.uSize, nutAt c.eCodec s.stream p) := by
    rw [h.tracks.table, List.map_map]
    conv_rhs => rw [← map_fst_spans ps e, List.map_map]
    rfl
  rw [seen, List.map_append, handed_eq hm.handed, htable, hscan, List.map_append]

/-- What the encoder writes the decoder finds: in whatever pieces the bytes of `FlushNAL` come
and are scanned, the NAL units handed over and those of the table are those written, in their
order and with their types, and no payload gives another. -/
theorem flushNALs_seen {ns : List (WrittenNal c.eCodec)} {s₀ : BitStreamLite} (hs : s₀.Tidy)
    (hempty : s₀.iBitCount = 0) (hmax : 8 * (bytes ns).length ≤ s₀.iMaxBits)
    {ops : List ScOp} (hq : c.Quiet (streamOf (flushNALs s₀ ns).bytes))
    (hg : GuardedRuns.Guarded (step c) (fun s op => s.Allowed c op ∧ s.Roomy c op) ops
      (start (streamOf (flushNALs s₀ ns).bytes))) :
    ∃ s, GuardedRuns.run (step c) ops (start (streamOf (flushNALs s₀ ns).bytes)) = some s ∧
      s.seen = ((starts 0 ns).filter (·.1 < s.scanned)).map fun x => (x.1 % c.uSize, x.2) := by
  rw [bytes_flushNALs hs hempty hmax] at hq hg ⊢
  have hstep : ∀ (s : ScUse) op, (s.stream = streamOf (bytes ns) ∧ ∃ ps e, s.OneScan c ps e) →
      (s.Allowed c op ∧ s.Roomy c op) →
      ∃ s', s.step c op = some s' ∧ s'.stream = streamOf (bytes ns) ∧
        ∃ ps e, s'.OneScan c ps e := by
    rintro s op ⟨hstream, ps, e, h⟩ ⟨ha, hr⟩
    rw [← hstream] at hq ⊢
    exact h.step hq ha hr
  obtain ⟨s, hrun, hstream, ps, e, h⟩ :=
    GuardedRuns.run_of_guarded hstep ⟨rfl, [], 0, start_oneScan _⟩ hg
  refine ⟨s, hrun, ?_⟩
  rw [h.seen_eq, hstream, ← startsIn_bytes, List.map_map]
  rfl

/-- A parameter set and a slice whose payload holds a start code, read in two pieces. -/
def setAndSlice : List (WrittenNal .avc) :=
  [⟨8, 3, 0, 0, [0, 0, 1, 128], 32, by decide, nofun, by decide, by decide⟩,
    ⟨5, 3, 0, 0, [136, 0, 0, 1, 101], 40, by decide, nofun, by decide, by decide⟩]

theorem flushNALs_seen_setAndSlice :
    ∃ s, GuardedRuns.run (step ⟨.avc, false, 1, 32⟩) [.transfer 9, .turn 2, .turn 3, .transfer 20, .turn 14]
        (start (streamOf (flushNALs ⟨fun _ => 0, 0, 800, false⟩ setAndSlice).bytes)) = some s ∧
      s.seen = ((starts 0 setAndSlice).filter (·.1 < s.scanned)).map fun x => (x.1 % 32, x.2) :=
  have hs : BitStreamLite.Tidy ⟨fun _ => 0, 0, 800, false⟩ := ⟨rfl, fun h => absurd rfl h⟩
  have hmax : 8 * (bytes setAndSlice).length ≤ 800 := by decide +kernel
  flushNALs_seen (c := ⟨.avc, false, 1, 32⟩) hs rfl hmax
    (by rw [bytes_flushNALs hs rfl hmax]; exact bytes_quiet (by decide)) (by decide +kernel)

end ScUse

end VcuCodec
