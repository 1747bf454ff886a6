import VcuCodec.BitWrites
import VcuCodec.RbspDescriptors

/-!
# Syntax elements from the writer to the parser

A list of syntax elements is written with `PutU`, `PutUE` and `PutSE`, closed
with the RBSP trailing bits and read again with `u`, `ue` and `se`.
-/

namespace VcuCodec

open BitStrings

/-! ## Payloads in the stream buffer -/

/-- The stream buffer holds the bytes `raw`, from any offset on and around its end. -/
structure CircBuffer.Holds (c : CircBuffer) (raw : List UInt8) : Prop where
  avail : c.iAvailSize = raw.length
  data : ∀ k (h : k < raw.length), c.pVirtualAddr ((c.iOffset + k) % c.uSize) = raw[k]

variable {c : CircBuffer}

theorem CircBuffer.Holds.input {raw : List UInt8} (h : c.Holds raw)
    (scratch : ℕ → UInt8) (hasSC : Bool) : (RbspParser.init c scratch hasSC).input = raw := by
  unfold RbspParser.input RbspParser.init
  dsimp only
  apply List.ext_getElem
  · simp [h.avail]
  · intro k h1 h2
    rw [List.getElem_map, List.getElem_range, h.data k h2]

theorem deemulate_false (zeros starts : ℕ) (bytes : List UInt8) :
    deemulate false zeros starts bytes = bytes := by
  induction bytes with
  | nil => rfl
  | cons b bytes ih => simp [deemulate, ih]

theorem RbspParser.carries_init (scratch : ℕ → UInt8) {raw bytes : List UInt8}
    {hasSC : Bool} {stop : ℕ} (hc : c.Holds raw) (hraw : deemulate hasSC 0 0 raw = bytes)
    (hsmall : 8 * bytes.length < 2 ^ 32) (hlast : stop / 8 + 1 = bytes.length)
    (hone : bitAt (memOf bytes) stop = true)
    (hzeros : ∀ i, stop < i → i < 8 * bytes.length → bitAt (memOf bytes) i = false) :
    (init c scratch hasSC).Carries bytes stop := by
  have havail : c.iAvailSize ≠ 0 := by
    rw [hc.avail]
    intro h0
    rw [List.eq_nil_of_length_eq_zero h0] at hraw
    rw [← hraw] at hlast
    simp [deemulate] at hlast
  have hpend : (init c scratch hasSC).pending = bytes := by
    rw [pending_eq (Nat.zero_le 1), hc.input, ← hraw]
    rfl
  refine ⟨hsmall, hlast, hone, hzeros, Nat.zero_le _, (Nat.zero_div 8).symm,
    .inl ⟨?_, Nat.zero_le _, ⟨[], hpend.symm, rfl, rfl, by simp⟩, le_rfl⟩⟩
  simp [finishedFetching, init, havail]

/-- The parser in front of the bits of a payload that ends with the stop bit. -/
theorem RbspParser.ahead_init (scratch : ℕ → UInt8) (clean : Prop)
    {raw bytes : List UInt8} {hasSC : Bool} {r : List Bool} {k : ℕ} (hc : c.Holds raw)
    (hraw : deemulate hasSC 0 0 raw = bytes) (hsmall : 8 * bytes.length < 2 ^ 32)
    (hclean : clean → bitAt scratch (8 * bytes.length) = false) (hk : k < 8)
    (hbits : window (memOf bytes) 0 (8 * bytes.length) = r ++ true :: List.replicate k false) :
    (init c scratch hasSC).Ahead clean r := by
  have hlen := congrArg List.length hbits
  simp only [length_window, List.length_append, List.length_cons, List.length_replicate] at hlen
  have hstop : ∀ i (h : i < 8 * bytes.length), bitAt (memOf bytes) i =
      (r ++ true :: List.replicate k false).get
        ⟨i, by simp only [List.length_append, List.length_cons, List.length_replicate]; omega⟩ := by
    intro i hi
    have h := getElem_window (memOf bytes) 0 (8 * bytes.length) (k := i) (by simpa using hi)
    rw [Nat.zero_add] at h
    rw [← h]
    simp only [hbits, List.get_eq_getElem]
  refine ⟨bytes, r.length, carries_init scratch hc hraw hsmall (by omega) ?_ ?_, hclean, ?_⟩
  · rw [hstop _ (by omega), List.get_eq_getElem, List.getElem_append_right le_rfl]
    simp
  · intro i hlo hhi
    rw [hstop i hhi, List.get_eq_getElem,
      List.getElem_append_right (show r.length ≤ i by omega)]
    obtain ⟨j, hj⟩ : ∃ j, i - r.length = j + 1 := ⟨i - r.length - 1, by omega⟩
    simp [hj]
  · have hsplit := window_add (memOf bytes) 0 r.length (k + 1)
    rw [show r.length + (k + 1) = 8 * bytes.length by omega, hbits] at hsplit
    exact (List.append_inj hsplit (by simp)).1.symm

/-! ## Syntax elements -/

/-- The descriptors of clause 7.2. -/
inductive Descriptor
  | u (iNumBits : ℕ)
  | ue
  | se
  deriving DecidableEq

/-- A syntax element and its value. -/
structure SyntaxElement where
  descriptor : Descriptor
  value : ℤ
  deriving DecidableEq

namespace SyntaxElement

/-- The values that the descriptor can code. -/
def Valid (e : SyntaxElement) : Prop :=
  match e.descriptor with
  | .u n => 1 ≤ n ∧ n ≤ 32 ∧ 0 ≤ e.value ∧ e.value < 2 ^ n
  | .ue => 0 ≤ e.value ∧ e.value ≤ 2 ^ 32 - 2
  | .se => -2 ^ 31 + 1 ≤ e.value ∧ e.value ≤ 2 ^ 31 - 1

instance (e : SyntaxElement) : Decidable e.Valid := by
  unfold Valid
  split <;> infer_instance

/-- The values that the writer comes back from: the sign bit of `uValue + 1` is 0. -/
def Written (e : SyntaxElement) : Prop :=
  match e.descriptor with
  | .u _ => True
  | .ue => e.value < 2 ^ 31 - 1
  | .se => -2 ^ 30 < e.value ∧ e.value < 2 ^ 30

instance (e : SyntaxElement) : Decidable e.Written := by
  unfold Written
  split <;> infer_instance

/-- The code word. -/
def code (e : SyntaxElement) : List Bool :=
  match e.descriptor with
  | .u n => fixed n e.value.toNat
  | .ue => golomb e.value.toNat
  | .se => golomb (signedCode e.value)

def codes (es : List SyntaxElement) : List Bool := es.flatMap code

def put (fuel : ℕ) (s : BitStreamLite) (e : SyntaxElement) : Option BitStreamLite :=
  match e.descriptor with
  | .u n => some (s.putBits n e.value.toNat)
  | .ue => s.putUE fuel e.value.toNat
  | .se => s.putSE fuel e.value

def putAll (fuel : ℕ) (s : BitStreamLite) (es : List SyntaxElement) : Option BitStreamLite :=
  es.foldlM (put fuel) s

end SyntaxElement

/-- The value that a descriptor reads. -/
def Descriptor.parse (d : Descriptor) (p : RbspParser) : ℤ × RbspParser :=
  match d with
  | .u n => ((p.u n).1, (p.u n).2)
  | .ue => (p.ue.1, p.ue.2)
  | .se => p.se

def Descriptor.parseAll : List Descriptor → RbspParser → List ℤ × RbspParser
  | [], p => ([], p)
  | d :: ds, p => ((d.parse p).1 :: (parseAll ds (d.parse p).2).1, (parseAll ds (d.parse p).2).2)

/-- The RBSP trailing bits. -/
def BitStreamLite.putTrailingBits (s : BitStreamLite) : BitStreamLite :=
  (s.putBits 1 1).alignWithBits 0

/-- The whole bytes that have been written. -/
def BitStreamLite.bytes (s : BitStreamLite) : List UInt8 :=
  (List.range (s.iBitCount / 8)).map s.pData

namespace SyntaxElement

variable {s s' : BitStreamLite} {e : SyntaxElement} {fuel : ℕ}

/-! ## Writing -/

theorem putSE_eq {v : ℤ} (hlo : -2 ^ 31 + 1 ≤ v) (hhi : v ≤ 2 ^ 31 - 1) :
    s.putSE fuel v = s.putUE fuel (signedCode v) := by
  unfold BitStreamLite.putSE signedCode
  dsimp only
  congr 1
  unfold toUInt32 toInt32
  rw [Int.bmod_def]
  split <;> split <;> omega

theorem put_extends (h : s.Tidy) (hv : e.Valid) (hw : e.Written) (hf : 32 ≤ fuel)
    (hmax : s.iBitCount + e.code.length ≤ s.iMaxBits) :
    ∃ s', put fuel s e = some s' ∧ s.Extends e.code s' := by
  obtain ⟨d, v⟩ := e
  cases d with
  | u n =>
    have hv : 1 ≤ n ∧ n ≤ 32 ∧ 0 ≤ v ∧ v < 2 ^ n := hv
    obtain ⟨h1, h32, h0, hlt⟩ := hv
    have hnat : v.toNat < 2 ^ n := by
      have : ((2 ^ n : ℕ) : ℤ) = 2 ^ n := by push_cast; rfl
      omega
    simp only [code, length_fixed] at hmax
    exact ⟨_, rfl, BitStreamLite.putBits_extends h h1 h32 hnat hmax⟩
  | ue =>
    have hv : 0 ≤ v ∧ v ≤ 2 ^ 32 - 2 := hv
    obtain ⟨h0, -⟩ := hv
    have hlt : v < 2 ^ 31 - 1 := hw
    have hcode : v.toNat + 1 < 2 ^ 31 := by omega
    exact BitStreamLite.putUE_extends h hcode hf hmax
  | se =>
    have hv : -2 ^ 31 + 1 ≤ v ∧ v ≤ 2 ^ 31 - 1 := hv
    obtain ⟨hlo, hhi⟩ := hv
    have hlt : -2 ^ 30 < v ∧ v < 2 ^ 30 := hw
    have hcode : signedCode v + 1 < 2 ^ 31 := by
      unfold signedCode
      split <;> omega
    simp only [put, putSE_eq hlo hhi]
    exact BitStreamLite.putUE_extends h hcode hf hmax

theorem put_eq_none (hv : e.Valid) (hw : ¬e.Written) : put fuel s e = none := by
  obtain ⟨d, v⟩ := e
  cases d with
  | u n => exact absurd trivial hw
  | ue =>
    have hv : 0 ≤ v ∧ v ≤ 2 ^ 32 - 2 := hv
    obtain ⟨h0, hle⟩ := hv
    have hge : ¬v < 2 ^ 31 - 1 := hw
    have hcode : 2 ^ 31 ≤ v.toNat + 1 := by omega
    have hcode' : v.toNat + 1 < 2 ^ 32 := by omega
    exact BitStreamLite.putUE_eq_none hcode hcode' fuel
  | se =>
    have hv : -2 ^ 31 + 1 ≤ v ∧ v ≤ 2 ^ 31 - 1 := hv
    obtain ⟨hlo, hhi⟩ := hv
    have hge : ¬(-2 ^ 30 < v ∧ v < 2 ^ 30) := hw
    simp only [put, putSE_eq hlo hhi]
    apply BitStreamLite.putUE_eq_none
    · unfold signedCode
      split <;> omega
    · unfold signedCode
      split <;> omega

variable {es : List SyntaxElement}

theorem putAll_extends (h : s.Tidy) (hv : ∀ e ∈ es, e.Valid)
    (hw : ∀ e ∈ es, e.Written) (hf : 32 ≤ fuel)
    (hmax : s.iBitCount + (codes es).length ≤ s.iMaxBits) :
    ∃ s', putAll fuel s es = some s' ∧ s.Extends (codes es) s' := by
  induction es generalizing s with
  | nil => exact ⟨s, rfl, .nil h⟩
  | cons e es ih =>
    have hlen : (codes (e :: es)).length = e.code.length + (codes es).length := by
      simp [codes]
    obtain ⟨s', hs', hext⟩ := put_extends h (hv e (by simp)) (hw e (by simp)) hf (by omega)
    obtain ⟨s'', hs'', hext'⟩ := ih hext.tidy (fun e he => hv e (by simp [he]))
      (fun e he => hw e (by simp [he])) (by rw [hext.count, hext.max]; omega)
    refine ⟨s'', ?_, hext.append hext'⟩
    simp only [putAll, List.foldlM_cons, hs', Option.bind_eq_bind, Option.bind_some]
    exact hs''

theorem putAll_eq_none (hv : ∀ e ∈ es, e.Valid)
    (hw : ∃ e ∈ es, ¬e.Written) : putAll fuel s es = none := by
  induction es generalizing s with
  | nil => simp at hw
  | cons e es ih =>
    simp only [putAll, List.foldlM_cons, Option.bind_eq_bind]
    by_cases he : e.Written
    · have hrest : ∃ e ∈ es, ¬e.Written := by
        obtain ⟨e', hmem, hn⟩ := hw
        rcases List.mem_cons.mp hmem with rfl | hmem
        · exact absurd he hn
        · exact ⟨e', hmem, hn⟩
      cases put fuel s e with
      | none => rfl
      | some s' => exact ih (s := s') (fun e he => hv e (by simp [he])) hrest
    · rw [put_eq_none (hv e (by simp)) he]
      rfl

theorem putTrailingBits_extends (h : s.Tidy) (hmax : s.iBitCount + 8 ≤ s.iMaxBits) :
    s.Extends (true :: List.replicate (7 - s.iBitCount % 8) false) s.putTrailingBits := by
  have hone := BitStreamLite.putBits_extends h (n := 1) (v := 1) (by omega) (by omega) (by omega)
    (by omega)
  have hc : (s.putBits 1 1).iBitCount = s.iBitCount + 1 := hone.count
  have hal := BitStreamLite.alignWithBits_extends hone.tidy (by rw [hone.max, hc]; omega)
  rw [hc, show (8 - (s.iBitCount + 1) % 8) % 8 = 7 - s.iBitCount % 8 by omega] at hal
  exact hone.append hal

/-! ## Reading -/

theorem parse_ahead {p : RbspParser} {clean : Prop} {r : List Bool} (hv : e.Valid)
    (h : p.Ahead clean (e.code ++ r)) :
    (e.descriptor.parse p).1 = e.value ∧ (e.descriptor.parse p).2.Ahead clean r ∧
      (e.descriptor.parse p).2.iTotalBitIndex = p.iTotalBitIndex + e.code.length := by
  obtain ⟨d, v⟩ := e
  cases d with
  | u n =>
    have hv : 1 ≤ n ∧ n ≤ 32 ∧ 0 ≤ v ∧ v < 2 ^ n := hv
    obtain ⟨h1, h32, h0, hlt⟩ := hv
    have hnat : v.toNat < 2 ^ n := by
      have : ((2 ^ n : ℕ) : ℤ) = 2 ^ n := by push_cast; rfl
      omega
    obtain ⟨hval, hah, htot⟩ := RbspParser.Ahead.u (n := n) h h32 hnat
    simp only [Descriptor.parse, code, length_fixed, hval, htot]
    exact ⟨by omega, hah, trivial⟩
  | ue =>
    have hv : 0 ≤ v ∧ v ≤ 2 ^ 32 - 2 := hv
    obtain ⟨h0, hle⟩ := hv
    have hcode : v.toNat + 1 < 2 ^ 32 := by omega
    obtain ⟨hval, hah, htot⟩ := RbspParser.Ahead.ue h hcode
    simp only [Descriptor.parse, code, hval, htot]
    exact ⟨by omega, hah, trivial⟩
  | se =>
    have hv : -2 ^ 31 + 1 ≤ v ∧ v ≤ 2 ^ 31 - 1 := hv
    obtain ⟨hlo, hhi⟩ := hv
    have hlo' : -2 ^ 31 < v := by omega
    have hhi' : v < 2 ^ 31 := by omega
    exact RbspParser.Ahead.se h hlo' hhi'

theorem parseAll_ahead {p : RbspParser} {clean : Prop} {r : List Bool}
    (hv : ∀ e ∈ es, e.Valid) (h : p.Ahead clean (codes es ++ r)) :
    (Descriptor.parseAll (es.map descriptor) p).1 = es.map value ∧
      (Descriptor.parseAll (es.map descriptor) p).2.Ahead clean r ∧
      (Descriptor.parseAll (es.map descriptor) p).2.iTotalBitIndex =
        p.iTotalBitIndex + (codes es).length := by
  induction es generalizing p with
  | nil => exact ⟨rfl, h, rfl⟩
  | cons e es ih =>
    have hcons : codes (e :: es) = e.code ++ codes es := by simp [codes]
    rw [hcons, List.append_assoc] at h
    obtain ⟨hval, hah, htot⟩ := parse_ahead (hv e (by simp)) h
    obtain ⟨hvals, hah', htot'⟩ := ih (fun e he => hv e (by simp [he])) hah
    simp only [List.map_cons, Descriptor.parseAll, hval, hvals, htot', htot, hcons,
      List.length_append, Nat.add_assoc]
    exact ⟨trivial, hah', trivial⟩

/-! ## The round trip -/

/-- The elements `es`, written behind `pre` into a buffer of `iMaxSize` bytes and
closed with the trailing bits, are written at last, and whatever the place of the
bytes in the stream buffer and the old content of the scratch buffer, the parser
behind `pre` reads their values and as many bits as were written. -/
def RoundTrips (pBuf : ℕ → UInt8) (iMaxSize : ℕ) (pre es : List SyntaxElement) : Prop :=
  ∃ fuel s s', putAll fuel (BitStreamLite.init pBuf iMaxSize) pre = some s ∧
    putAll fuel s es = some s' ∧ s'.isOverflow = false ∧
    ∀ (c : CircBuffer) (scratch : ℕ → UInt8), c.Holds s'.putTrailingBits.bytes →
      let p := (Descriptor.parseAll (pre.map descriptor) (RbspParser.init c scratch false)).2
      let t := Descriptor.parseAll (es.map descriptor) p
      p.iTotalBitIndex = s.iBitCount ∧ t.1 = es.map value ∧
        t.2.iTotalBitIndex - p.iTotalBitIndex = s'.iBitCount - s.iBitCount

theorem init_tidy (pBuf : ℕ → UInt8) (iMaxSize : ℕ) : (BitStreamLite.init pBuf iMaxSize).Tidy :=
  ⟨rfl, fun h => absurd rfl h⟩

theorem bits_bytes (hb : s.iBitCount % 8 = 0) :
    window (memOf s.bytes) 0 (8 * s.bytes.length) = s.bits := by
  have hlen : s.bytes.length = s.iBitCount / 8 := by simp [BitStreamLite.bytes]
  rw [hlen, show 8 * (s.iBitCount / 8) = s.iBitCount by omega]
  apply window_congr
  intro i _ hi
  apply bitAt_congr
  rw [memOf_of_lt (by omega)]
  simp [BitStreamLite.bytes]

/-- Elements come through exactly when the writer comes back from each of them. -/
theorem roundTrips_iff {pBuf : ℕ → UInt8} {iMaxSize : ℕ} {pre es : List SyntaxElement}
    (hpre : ∀ e ∈ pre, e.Valid ∧ e.Written) (hes : ∀ e ∈ es, e.Valid)
    (hmax : (codes pre).length + (codes es).length + 8 ≤ 8 * iMaxSize)
    (hint : 8 * iMaxSize < 2 ^ 31) :
    RoundTrips pBuf iMaxSize pre es ↔ ∀ e ∈ es, e.Written := by
  constructor
  · rintro ⟨fuel, s, s', -, hs', -⟩
    by_contra hc
    push Not at hc
    rw [putAll_eq_none hes hc] at hs'
    contradiction
  · intro hw
    obtain ⟨s, hs, hext⟩ := putAll_extends (init_tidy pBuf iMaxSize) (fun e he => (hpre e he).1)
      (fun e he => (hpre e he).2) (le_refl 32) (by simp only [BitStreamLite.init]; omega)
    have hcount : s.iBitCount = (codes pre).length := by
      rw [hext.count]
      simp [BitStreamLite.init]
    have hmaxs : s.iMaxBits = iMaxSize * 8 := hext.max
    obtain ⟨s', hs', hext'⟩ := putAll_extends hext.tidy hes hw (le_refl 32) (by omega)
    have hcount' : s'.iBitCount = (codes pre).length + (codes es).length := by
      rw [hext'.count, hcount]
    have hmaxs' : s'.iMaxBits = iMaxSize * 8 := hext'.max.trans hmaxs
    have htr := putTrailingBits_extends hext'.tidy (by omega)
    have hall := (hext.append hext').append htr
    refine ⟨32, s, s', hs, hs', hext'.tidy.fits, fun c scratch hc => ?_⟩
    have hcl : s'.putTrailingBits.iBitCount = s'.iBitCount + (8 - s'.iBitCount % 8) := by
      rw [htr.count, List.length_cons, List.length_replicate]
      omega
    have hbits := bits_bytes (s := s'.putTrailingBits) (by omega)
    rw [hall.bits_eq] at hbits
    have hlen : s'.putTrailingBits.bytes.length = s'.putTrailingBits.iBitCount / 8 := by
      simp [BitStreamLite.bytes]
    have hah := RbspParser.ahead_init scratch False (k := 7 - s'.iBitCount % 8)
      (r := codes pre ++ codes es) hc (deemulate_false 0 0 _) (by omega) False.elim (by omega)
      (by simpa [BitStreamLite.bits, BitStreamLite.init, window] using hbits)
    obtain ⟨-, hah', htot⟩ := parseAll_ahead (fun e he => (hpre e he).1) hah
    have hah'' : (Descriptor.parseAll (pre.map descriptor) (RbspParser.init c scratch false)).2.Ahead
        False (codes es ++ []) := by simpa using hah'
    obtain ⟨hvals, -, htot'⟩ := parseAll_ahead hes hah''
    dsimp only
    have hzero : (RbspParser.init c scratch false).iTotalBitIndex = 0 := rfl
    refine ⟨by omega, hvals, by omega⟩

/-- Three elements behind a bit. -/
theorem roundTrips_afterBit :
    RoundTrips (fun _ => 0xFF) 20 [⟨.u 1, 1⟩] [⟨.u 32, 0xDEADBEEF⟩, ⟨.ue, 2 ^ 31 - 2⟩, ⟨.se, -77⟩] :=
  (roundTrips_iff (by decide) (by decide) (by decide) (by decide)).mpr (by decide)

/-- `PutUE` of `2^31 - 1` does not come back. -/
theorem not_roundTrips_largeCode : ¬RoundTrips (fun _ => 0) 100 [] [⟨.ue, 2 ^ 31 - 1⟩] := by
  rintro ⟨fuel, s, s', -, hs', -⟩
  rw [putAll_eq_none (by decide) ⟨⟨.ue, 2 ^ 31 - 1⟩, by simp, by decide⟩] at hs'
  contradiction

end SyntaxElement

end VcuCodec
