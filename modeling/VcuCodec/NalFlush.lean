import VcuCodec.SyntaxElements

/-!
# NAL units from the encoder to the parser

`AntiEmul` and `FlushNAL` of `lib_encode/IP_Stream.c`, and the fetch of what they
write.  `escape` is what `AntiEmul` makes of a payload.
-/

namespace VcuCodec

open BitStrings

/-! ## The writer of NAL units -/

inductive Codec
  | avc
  | hevc
  deriving DecidableEq

/-- `AL_TNalHeader`: its first `size` bytes. -/
structure NalHeader where
  bytes : List UInt8

def getNalHeaderAvc (uNUT uNalRefIdc : UInt8) : NalHeader :=
  let byte : UInt8 := (uNalRefIdc &&& 0x03) <<< 5 ||| uNUT &&& 0x1F
  ⟨[byte]⟩

def getNalHeaderHevc (uNUT uLayerId uTempId : UInt8) : NalHeader :=
  let byte0 : UInt8 := (uLayerId &&& 0x20) >>> 5 ||| (uNUT &&& 0x3F) <<< 1
  let byte1 : UInt8 := (uTempId + (1 : UInt8)) ||| (uLayerId &&& 0x1F) <<< 3
  ⟨[byte0, byte1]⟩

namespace BitStreamLite

def writeByte (s : BitStreamLite) (uByte : UInt8) : BitStreamLite := s.putBits 8 uByte.toNat

def writeBytes (s : BitStreamLite) (l : List UInt8) : BitStreamLite := l.foldl writeByte s

/-- `Matches`. -/
def startCodeMatches (pData : ℕ → UInt8) (i : ℕ) : Bool :=
  pData i &&& 0xFF = 0 && pData (i + 1) &&& 0xFF = 0 && pData (i + 2) &&& 0xFC = 0

/-- The loop of `AntiEmul`; `i` is the index of `*pData`. -/
def antiEmulRound (pData : ℕ → UInt8) (iNumBytes : ℕ) :
    BitStreamLite × ℕ × ℕ → (BitStreamLite × ℕ × ℕ) ⊕ (BitStreamLite × ℕ × ℕ)
  | (s, i, iByte) =>
    if iByte < iNumBytes then
      let s := s.writeByte (pData i)
      if startCodeMatches pData i then
        .inl ((s.writeByte (pData (i + 1))).writeByte 0x03, i + 2, iByte + 2)
      else .inl (s, i + 1, iByte + 1)
    else .inr (s, i, iByte)

theorem antiEmulRound_lt (pData : ℕ → UInt8) (iNumBytes : ℕ) (t t' : BitStreamLite × ℕ × ℕ)
    (h : antiEmulRound pData iNumBytes t = .inl t') : iNumBytes - t'.2.2 < iNumBytes - t.2.2 := by
  obtain ⟨s, i, iByte⟩ := t
  simp only [antiEmulRound] at h
  split at h
  · split at h <;> obtain rfl := Sum.inl.inj h <;> dsimp only <;> omega
  · simp at h

def antiEmul (s : BitStreamLite) (pData : ℕ → UInt8) (iNumBytes : ℕ) : BitStreamLite :=
  let t := MeasuredLoops.run (antiEmulRound pData iNumBytes) (fun t => iNumBytes - t.2.2)
    (antiEmulRound_lt pData iNumBytes) (s, 0, 2)
  if t.2.2 ≤ iNumBytes then (t.1.writeByte (pData t.2.1)).writeByte (pData (t.2.1 + 1))
  else t.1.writeByte (pData t.2.1)

/-- `writeStartCode`: parameter sets, delimiters and SEI have one more zero byte. -/
def startCode (eCodec : Codec) (nut : ℕ) : List UInt8 :=
  let bZeroByte := match eCodec with
    | .avc => decide (6 ≤ nut ∧ nut ≤ 15)
    | .hevc => decide (32 ≤ nut ∧ nut ≤ 40)
  if bZeroByte then [0, 0, 0, 1] else [0, 0, 1]

def flushNAL (s : BitStreamLite) (eCodec : Codec) (uNUT : ℕ) (pHeader : NalHeader)
    (pDataInNAL : ℕ → UInt8) (iBitsInNAL : ℕ) : BitStreamLite :=
  let s := (s.writeBytes (startCode eCodec uNUT)).writeBytes pHeader.bytes
  let iBytesInNAL := (iBitsInNAL + 7) / 8
  if iBytesInNAL ≠ 0 then s.antiEmul pDataInNAL iBytesInNAL else s

end BitStreamLite

/-! ## Escaping -/

/-- The emulation prevention: a byte up to `0x03` behind two zero bytes gets a
`0x03` in front; `zeros` zero bytes are in front of the list. -/
def escape : (zeros : ℕ) → List UInt8 → List UInt8
  | _, [] => []
  | zeros, b :: l =>
    if zeros = 2 ∧ b ≤ 3 then 3 :: b :: escape (if b = 0 then 1 else 0) l
    else b :: escape (if b = 0 then zeros + 1 else 0) l

/-- The three byte patterns that may not be in a NAL unit. -/
def Emulates (l : List UInt8) : Prop := ∃ b : UInt8, b ≤ 2 ∧ [0, 0, b] <:+: l

/-- No byte up to `0x02` comes behind two zero bytes, of which `zeros` are in front
of the list. -/
def Clear : (zeros : ℕ) → List UInt8 → Prop
  | _, [] => True
  | zeros, b :: l => ¬(2 ≤ zeros ∧ b ≤ 2) ∧ Clear (if b = 0 then zeros + 1 else 0) l

variable {l : List UInt8} {zeros : ℕ}

theorem Clear.not_emulates (h : Clear zeros l) : ¬Emulates l := by
  rintro ⟨b, hb, hin⟩
  induction l generalizing zeros with
  | nil => simp at hin
  | cons a l ih =>
    rcases List.infix_cons_iff.mp hin with hpre | hin
    · obtain ⟨t, ht⟩ := hpre
      rw [List.cons_append, List.cons_append, List.cons_append, List.nil_append] at ht
      rw [← ht] at h
      obtain ⟨-, -, hn, -⟩ := h
      exact hn ⟨by simp, hb⟩
    · exact ih h.2 hin

theorem escape_clear (hz : zeros ≤ 2) (l : List UInt8) : Clear zeros (escape zeros l) := by
  induction l generalizing zeros with
  | nil => trivial
  | cons b l ih =>
    unfold escape
    split
    · have h3 : ¬(3 : UInt8) ≤ 2 := by decide
      refine ⟨fun h => h3 h.2, fun h => by simp at h, ?_⟩
      by_cases hb : b = 0
      · simpa [hb] using ih (show 1 ≤ 2 by omega)
      · simpa [hb] using ih (show 0 ≤ 2 by omega)
    · next hc =>
      have h23 : (2 : UInt8) ≤ 3 := by decide
      refine ⟨fun h => hc ⟨by omega, UInt8.le_trans h.2 h23⟩, ?_⟩
      by_cases hb : b = 0
      · subst hb
        have hlt : zeros ≠ 2 := fun h2 => hc ⟨h2, by decide⟩
        simpa using ih (show zeros + 1 ≤ 2 by omega)
      · simpa [hb] using ih (show 0 ≤ 2 by omega)

theorem deemulate_escape (hz : zeros ≤ 2) (l : List UInt8) :
    deemulate true zeros 1 (escape zeros l) = l := by
  induction l generalizing zeros with
  | nil => rfl
  | cons b l ih =>
    unfold escape
    split
    · next hc =>
      obtain ⟨rfl, -⟩ := hc
      by_cases hb : b = 0
      · simpa [deemulate, hb] using ih (show 1 ≤ 2 by omega)
      · simpa [deemulate, hb] using ih (show 0 ≤ 2 by omega)
    · next hc =>
      have hemu : ¬(zeros = 2 ∧ b = 3) := fun h => hc ⟨h.1, by rw [h.2]; decide⟩
      have hone : ¬(2 ≤ zeros ∧ b = 1) := fun h => hc ⟨by omega, by rw [h.2]; decide⟩
      by_cases hb : b = 0
      · subst hb
        have hlt : zeros ≠ 2 := fun h2 => hc ⟨h2, by decide⟩
        have := ih (show zeros + 1 ≤ 2 by omega)
        have hmod : (zeros + 1) % 2 ^ 8 = zeros + 1 := Nat.mod_eq_of_lt (by omega)
        simp only [deemulate, true_and, if_neg hemu, if_true, hmod]
        simpa using this
      · have := ih (show 0 ≤ 2 by omega)
        simp only [deemulate, true_and, if_neg hemu, hb, if_false, if_true]
        rw [if_neg (fun h => hone h), if_neg (fun h => hone ⟨h.1, h.2.1⟩)]
        rw [this]

/-! ### The look-ahead of `AntiEmul` -/

theorem escape_zeros {a : UInt8} (h : a ≤ 3) :
    escape 0 (0 :: 0 :: a :: l) = 0 :: 0 :: 3 :: escape 0 (a :: l) := by
  by_cases ha : a = 0
  · simp [escape, ha]
  · simp [escape, h, ha]

theorem escape_step {a b c : UInt8} (h : ¬(a = 0 ∧ b = 0 ∧ c ≤ 3)) :
    escape 0 (a :: b :: c :: l) = a :: escape 0 (b :: c :: l) := by
  by_cases ha : a = 0
  · by_cases hb : b = 0
    · have hc : ¬c ≤ 3 := fun hc => h ⟨ha, hb, hc⟩
      have hc0 : c ≠ 0 := by
        rintro rfl
        exact hc (by decide)
      simp [escape, ha, hb, hc, hc0]
    · simp [escape, ha, hb]
  · simp [escape, ha]

/-! ## What `FlushNAL` writes -/

def bitsOf (l : List UInt8) : List Bool := l.flatMap fun b => fixed 8 b.toNat

@[simp] theorem length_bitsOf (l : List UInt8) : (bitsOf l).length = 8 * l.length := by
  induction l with
  | nil => rfl
  | cons b l ih =>
    simp only [bitsOf, List.flatMap_cons, List.length_append, length_fixed, List.length_cons] at *
    omega

@[simp] theorem bitsOf_append (l m : List UInt8) : bitsOf (l ++ m) = bitsOf l ++ bitsOf m := by
  simp [bitsOf]

@[simp] theorem bitsOf_cons (b : UInt8) (l : List UInt8) :
    bitsOf (b :: l) = fixed 8 b.toNat ++ bitsOf l := rfl

theorem byte_of_window {mem : ℕ → UInt8} {k : ℕ}
    (h : window mem (8 * k) (8 * l.length) = bitsOf l) {j : ℕ} (hj : j < l.length) :
    mem (k + j) = l[j] := by
  induction l generalizing k j with
  | nil => simp at hj
  | cons b l ih =>
    rw [List.length_cons, show 8 * (l.length + 1) = 8 + 8 * l.length by omega, window_add,
      bitsOf_cons, window_byte] at h
    obtain ⟨hb, hl⟩ := List.append_inj h (by simp)
    cases j with
    | zero =>
      have := congrArg value hb
      rw [value_fixed_of_lt (UInt8.toNat_lt _), value_fixed_of_lt (UInt8.toNat_lt _)] at this
      exact UInt8.toNat_inj.mp this
    | succ j =>
      rw [show 8 * k + 8 = 8 * (k + 1) by omega] at hl
      rw [show k + (j + 1) = k + 1 + j by omega, ih hl (by simpa using hj)]
      simp

namespace BitStreamLite

variable {s s' : BitStreamLite}

theorem Extends.bytes_eq {l : List UInt8} (h : s.Extends (bitsOf l) s')
    (ha : s.iBitCount % 8 = 0) : s'.bytes = s.bytes ++ l := by
  have hc := h.count
  rw [length_bitsOf] at hc
  have hw := h.new
  rw [length_bitsOf, show s.iBitCount = 8 * (s.iBitCount / 8) by omega] at hw
  apply List.ext_getElem
  · simp only [bytes, List.length_map, List.length_range, List.length_append]
    omega
  · intro i h1 h2
    simp only [bytes, List.length_map, List.length_range, List.length_append] at h1 h2
    by_cases hi : i < s.iBitCount / 8
    · have hold : window s'.pData (8 * i) 8 = window s.pData (8 * i) 8 :=
        window_congr fun j hlo hhi => h.old j (by omega)
      rw [window_byte, window_byte] at hold
      have := congrArg value hold
      rw [value_fixed_of_lt (UInt8.toNat_lt _), value_fixed_of_lt (UInt8.toNat_lt _)] at this
      rw [List.getElem_append_left (by simpa [bytes] using hi)]
      simpa [bytes] using UInt8.toNat_inj.mp this
    · have hj : i - s.iBitCount / 8 < l.length := by omega
      have := byte_of_window hw hj
      rw [show s.iBitCount / 8 + (i - s.iBitCount / 8) = i by omega] at this
      rw [List.getElem_append_right (by simp [bytes]; omega)]
      simpa [bytes] using this

theorem writeByte_extends (h : s.Tidy) (b : UInt8) (hmax : s.iBitCount + 8 ≤ s.iMaxBits) :
    s.Extends (bitsOf [b]) (s.writeByte b) := by
  have := putBits_extends h (n := 8) (by omega) (by omega) (UInt8.toNat_lt b) hmax
  have hb : bitsOf [b] = fixed 8 b.toNat := by simp [bitsOf]
  rw [hb]
  exact this

theorem writeBytes_extends (h : s.Tidy) (l : List UInt8)
    (hmax : s.iBitCount + 8 * l.length ≤ s.iMaxBits) :
    s.Extends (bitsOf l) (s.writeBytes l) := by
  induction l generalizing s with
  | nil => exact .nil h
  | cons b l ih =>
    rw [List.length_cons] at hmax
    have hb := writeByte_extends h b (by omega)
    have hl := ih hb.tidy (by rw [hb.count, hb.max, length_bitsOf, List.length_singleton]; omega)
    exact hb.append hl

theorem and_mask_eq_zero (b : UInt8) :
    (b &&& 0xFF = 0 ↔ b = 0) ∧ (b &&& 0xFC = 0 ↔ b ≤ 3) := by
  have key : ∀ n : Fin 256, (UInt8.ofNat n &&& 0xFF = 0 ↔ UInt8.ofNat n = 0) ∧
      (UInt8.ofNat n &&& 0xFC = 0 ↔ UInt8.ofNat n ≤ 3) := by decide +kernel
  have := key ⟨b.toNat, UInt8.toNat_lt b⟩
  simpa using this

theorem startCodeMatches_iff (pData : ℕ → UInt8) (i : ℕ) : startCodeMatches pData i = true ↔
    pData i = 0 ∧ pData (i + 1) = 0 ∧ pData (i + 2) ≤ 3 := by
  unfold startCodeMatches
  rw [Bool.and_eq_true, Bool.and_eq_true, decide_eq_true_iff, decide_eq_true_iff,
    decide_eq_true_iff, (and_mask_eq_zero _).1, (and_mask_eq_zero _).1, (and_mask_eq_zero _).2,
    and_assoc]

variable {payload : List UInt8} {pData : ℕ → UInt8}

/-- `AntiEmul` writes the escaped payload: in every round what the loop has written,
and then the rest of the payload escaped, is that. -/
theorem antiEmul_eq (s : BitStreamLite)
    (hne : payload ≠ []) (hdata : ∀ i (h : i < payload.length), pData i = payload[i]) :
    s.antiEmul pData payload.length = s.writeBytes (escape 0 payload) := by
  have hpos : 0 < payload.length := List.length_pos_iff.mpr hne
  have hmem : ∀ i (hi : i < payload.length), payload.drop i = pData i :: payload.drop (i + 1) := by
    intro i hi
    rw [List.drop_eq_getElem_cons hi, hdata i hi]
  have hrun := MeasuredLoops.run_rule (antiEmulRound_lt pData payload.length)
    (fun t => t.2.2 = t.2.1 + 2 ∧ t.2.1 + 1 ≤ payload.length ∧
      t.1.writeBytes (escape 0 (payload.drop t.2.1)) = s.writeBytes (escape 0 payload))
    (fun t => payload.length ≤ t.2.2 ∧ t.2.2 = t.2.1 + 2 ∧ t.2.1 + 1 ≤ payload.length ∧
      t.1.writeBytes (escape 0 (payload.drop t.2.1)) = s.writeBytes (escape 0 payload))
    ?_ ?_ (s := (s, 0, 2)) ⟨rfl, show 0 + 1 ≤ payload.length by omega, rfl⟩
  · unfold antiEmul
    generalize MeasuredLoops.run _ _ _ _ = t at *
    obtain ⟨t, i, iByte⟩ := t
    obtain ⟨hge, hb, hi, ht⟩ := hrun
    dsimp only at hge hb hi ht ⊢
    subst hb
    split
    · -- two bytes are left
      have hrest : payload.drop i = [pData i, pData (i + 1)] := by
        rw [hmem i (by omega), hmem (i + 1) (by omega), List.drop_eq_nil_of_le (by omega)]
      have hesc : escape 0 (payload.drop i) = [pData i, pData (i + 1)] := by
        rw [hrest]
        by_cases h0 : pData i = 0 <;> simp [escape, h0]
      rw [← ht, hesc]
      rfl
    · have hesc : escape 0 (payload.drop i) = [pData i] := by
        rw [hmem i (by omega), List.drop_eq_nil_of_le (by omega)]
        simp [escape]
      rw [← ht, hesc]
      rfl
  · rintro ⟨t, i, iByte⟩ t' ⟨hb, hi, ht⟩ hround
    dsimp only at hb hi ht
    subst hb
    simp only [antiEmulRound] at hround
    split at hround
    · next hlt =>
      have hdrop : payload.drop i = pData i :: pData (i + 1) :: pData (i + 2) ::
          payload.drop (i + 3) := by
        rw [hmem i (by omega), hmem (i + 1) (by omega), hmem (i + 2) (by omega)]
      split at hround
      · next hm =>
        obtain rfl := Sum.inl.inj hround
        obtain ⟨h0, h1, h2⟩ := (startCodeMatches_iff _ _).mp hm
        have hesc : escape 0 (payload.drop i) = 0 :: 0 :: 3 :: escape 0 (payload.drop (i + 2)) := by
          rw [hdrop, hmem (i + 2) (by omega), h0, h1, escape_zeros h2]
        refine ⟨rfl, by dsimp only; omega, ?_⟩
        dsimp only
        rw [← ht, hesc, h0, h1]
        rfl
      · next hm =>
        obtain rfl := Sum.inl.inj hround
        have hesc : escape 0 (payload.drop i) = pData i :: escape 0 (payload.drop (i + 1)) := by
          rw [hdrop, hmem (i + 1) (by omega), hmem (i + 2) (by omega), escape_step]
          exact fun hc => hm ((startCodeMatches_iff _ _).mpr hc)
        refine ⟨rfl, by dsimp only; omega, ?_⟩
        dsimp only
        rw [← ht, hesc]
        rfl
    · simp at hround
  · rintro ⟨t, i, iByte⟩ t' ⟨hb, hi, ht⟩ hround
    dsimp only at hb hi ht
    simp only [antiEmulRound] at hround
    split at hround
    · split at hround <;> simp at hround
    · next hlt =>
      obtain rfl := Sum.inr.inj hround
      exact ⟨by dsimp only; omega, hb, hi, ht⟩

/-- `FlushNAL` writes the start code, the header and the escaped payload. -/
theorem flushNAL_eq (s : BitStreamLite) (eCodec : Codec) (uNUT : ℕ) (hdr : NalHeader)
    {iBitsInNAL : ℕ} (hbits : (iBitsInNAL + 7) / 8 = payload.length)
    (hdata : ∀ i (h : i < payload.length), pData i = payload[i]) :
    s.flushNAL eCodec uNUT hdr pData iBitsInNAL =
      s.writeBytes (startCode eCodec uNUT ++ (hdr.bytes ++ escape 0 payload)) := by
  have happend : ∀ l m : List UInt8, s.writeBytes (l ++ m) = (s.writeBytes l).writeBytes m :=
    fun l m => List.foldl_append
  unfold flushNAL
  dsimp only
  rw [hbits, ← List.append_assoc, happend]
  split
  · next hlen =>
    rw [antiEmul_eq _ (List.ne_nil_of_length_pos (Nat.pos_of_ne_zero hlen)) hdata, happend]
  · next hlen =>
    obtain rfl := List.eq_nil_of_length_eq_zero (not_not.mp hlen)
    exact (happend _ _).symm

end BitStreamLite

/-- The headers that the encoder builds: a NAL unit type, and for HEVC a temporal
sub-layer. -/
inductive NalHeader.Built : NalHeader → Prop
  | avc (uNUT uNalRefIdc : UInt8) (h : uNUT &&& 0x1F ≠ 0) : Built (getNalHeaderAvc uNUT uNalRefIdc)
  | hevc (uNUT uLayerId uTempId : UInt8) (h : uTempId < 7) :
    Built (getNalHeaderHevc uNUT uLayerId uTempId)

variable {hdr : NalHeader}

theorem NalHeader.Built.last_ne_zero (h : hdr.Built) :
    (∃ b, b ≠ 0 ∧ hdr.bytes = [b]) ∨ ∃ a b, b ≠ 0 ∧ hdr.bytes = [a, b] := by
  have hor : ∀ a b : UInt8, b ≠ 0 → a ||| b ≠ 0 := by
    intro a b hb hz
    apply hb
    have := (UInt8.or_eq_zero_iff).mp hz
    exact this.2
  cases h with
  | avc uNUT ref h => exact .inl ⟨_, hor _ _ h, rfl⟩
  | hevc uNUT layer temp h =>
    refine .inr ⟨_, _, ?_, rfl⟩
    rw [UInt8.or_comm]
    apply hor
    intro hz
    have h1 := UInt8.lt_iff_toNat_lt.mp h
    have h2 := congrArg UInt8.toNat hz
    simp at h1 h2
    omega

open BitStreamLite in
/-- All that `FlushNAL` writes, when there is room for it. -/
theorem flushNAL_extends {s : BitStreamLite} (h : s.Tidy) {eCodec : Codec} {uNUT iBitsInNAL : ℕ}
    {payload : List UInt8} (hbits : (iBitsInNAL + 7) / 8 = payload.length)
    (hmax : s.iBitCount + 8 * (startCode eCodec uNUT ++ (hdr.bytes ++ escape 0 payload)).length ≤
      s.iMaxBits) : s.Extends (bitsOf (startCode eCodec uNUT ++ (hdr.bytes ++ escape 0 payload)))
      (s.flushNAL eCodec uNUT hdr (memOf payload) iBitsInNAL) := by
  rw [flushNAL_eq s eCodec uNUT hdr hbits fun i hi => memOf_of_lt hi]
  exact writeBytes_extends h _ hmax

/-! ## Fetching to the end -/

namespace RbspParser

def fetchAllRound (p : RbspParser) : RbspParser ⊕ RbspParser :=
  if p.finishedFetching then .inr p else .inl p.fetchData.2

theorem fetchAllRound_lt (p q : RbspParser) (h : fetchAllRound p = .inl q) :
    q.iBufInAvailSize < p.iBufInAvailSize := by
  unfold fetchAllRound at h
  split at h
  · simp at h
  · next hf =>
    obtain rfl := Sum.inl.inj h
    have hs : p.fetchData.1 = true := by
      unfold fetchData
      rw [if_neg hf]
    exact (fetchData_progress hs).2.1

/-- All fetches of a NAL unit. -/
def fetchAll (p : RbspParser) : RbspParser :=
  MeasuredLoops.run fetchAllRound iBufInAvailSize fetchAllRound_lt p

/-- At the end the payload is in the scratch buffer, and nothing else. -/
theorem Carries.fetchAll {p : RbspParser} {bytes : List UInt8} {stop : ℕ}
    (h : p.Carries bytes stop) :
    p.fetchAll.finishedFetching = true ∧ (∀ i < bytes.length, p.fetchAll.pBuffer i = memOf bytes i) ∧
      ∀ i, bytes.length ≤ i → p.fetchAll.pBuffer i = p.pBuffer i := by
  apply MeasuredLoops.run_rule fetchAllRound_lt
    (fun q => q.Carries bytes stop ∧ ∀ i, bytes.length ≤ i → q.pBuffer i = p.pBuffer i)
    (fun q => q.finishedFetching = true ∧ (∀ i < bytes.length, q.pBuffer i = memOf bytes i) ∧
      ∀ i, bytes.length ≤ i → q.pBuffer i = p.pBuffer i) _ _
    ⟨h, fun _ _ => Eq.refl _⟩
  · rintro q q' ⟨hq, hsame⟩ hround
    unfold fetchAllRound at hround
    split at hround
    · simp at hround
    · obtain rfl := Sum.inl.inj hround
      obtain ⟨hq', hsame', -⟩ := hq.fetchData
      exact ⟨hq', fun i hi => (hsame'.behind i hi).trans (hsame i hi)⟩
  · rintro q q' ⟨hq, hsame⟩ hround
    unfold fetchAllRound at hround
    split at hround
    · next hf =>
      obtain rfl := Sum.inr.inj hround
      have hfd := hq.fetch.resolve_left fun hfg => by simp [hfg.unfinished] at hf
      exact ⟨hf, hfd.buffer, hsame⟩
    · simp at hround

end RbspParser

theorem exists_last_bit {b : UInt8} (hb : b ≠ 0) : ∃ j < 8, b.toNat.testBit (7 - j) = true ∧
    ∀ i < 8, j < i → b.toNat.testBit (7 - i) = false := by
  have key : ∀ n : Fin 256, n ≠ 0 → ∃ j : Fin 8, (n : ℕ).testBit (7 - j) = true ∧
      ∀ i : Fin 8, j < i → (n : ℕ).testBit (7 - i) = false := by decide +kernel
  obtain ⟨j, hj, hrest⟩ := key ⟨b.toNat, UInt8.toNat_lt b⟩ (by
    intro h0
    apply hb
    have := congrArg Fin.val h0
    exact UInt8.toNat_inj.mp (by simpa using this))
  exact ⟨j, j.isLt, hj, fun i hi hlt => hrest ⟨i, hi⟩ hlt⟩

theorem exists_stop {bytes : List UInt8} (hne : bytes ≠ []) (hlast : bytes.getLast hne ≠ 0) :
    ∃ stop, stop / 8 + 1 = bytes.length ∧ bitAt (memOf bytes) stop = true ∧
      ∀ i, stop < i → i < 8 * bytes.length → bitAt (memOf bytes) i = false := by
  have hpos : 0 < bytes.length := List.length_pos_iff.mpr hne
  obtain ⟨j, hj, hone, hzero⟩ := exists_last_bit hlast
  have hbyte : memOf bytes (bytes.length - 1) = bytes.getLast hne := by
    rw [memOf_of_lt (by omega), List.getLast_eq_getElem]
  refine ⟨8 * (bytes.length - 1) + j, by omega, ?_, fun i hlo hhi => ?_⟩
  · unfold bitAt
    rw [show (8 * (bytes.length - 1) + j) / 8 = bytes.length - 1 by omega, hbyte,
      show (8 * (bytes.length - 1) + j) % 8 = j by omega]
    exact hone
  · unfold bitAt
    rw [show i / 8 = bytes.length - 1 by omega, hbyte]
    exact hzero _ (Nat.mod_lt _ (by omega)) (by omega)

/-! ## The round trip -/

theorem deemulate_startCode (eCodec : Codec) (nut : ℕ) (l : List UInt8) :
    deemulate true 0 0 (BitStreamLite.startCode eCodec nut ++ l) =
      BitStreamLite.startCode eCodec nut ++ deemulate true 0 1 l := by
  have hlong : deemulate true 0 0 ([0, 0, 0, 1] ++ l) = [0, 0, 0, 1] ++ deemulate true 0 1 l := by
    simp [deemulate]
  have hshort : deemulate true 0 0 ([0, 0, 1] ++ l) = [0, 0, 1] ++ deemulate true 0 1 l := by
    simp [deemulate]
  unfold BitStreamLite.startCode
  cases eCodec with
  | avc =>
    dsimp only
    split
    · exact hlong
    · exact hshort
  | hevc =>
    dsimp only
    split
    · exact hlong
    · exact hshort

/-- A header is no part of a pattern, neither for the parser nor for the encoder. -/
theorem NalHeader.Built.append (h : hdr.Built) (l : List UInt8) :
    deemulate true 0 1 (hdr.bytes ++ l) = hdr.bytes ++ deemulate true 0 1 l ∧
      (Clear 0 l → Clear 0 (hdr.bytes ++ l)) := by
  rcases h.last_ne_zero with ⟨b, hb, hbytes⟩ | ⟨a, b, hb, hbytes⟩
  · rw [hbytes]
    constructor
    · simp [deemulate, hb]
    · intro hl
      simpa [Clear, hb] using hl
  · rw [hbytes]
    by_cases ha : a = 0
    · constructor
      · simp [deemulate, ha, hb]
      · intro hl
        simpa [Clear, ha, hb] using hl
    · constructor
      · simp [deemulate, ha, hb]
      · intro hl
        simpa [Clear, ha, hb] using hl

theorem length_le_escape (zeros : ℕ) (l : List UInt8) : l.length ≤ (escape zeros l).length := by
  induction l generalizing zeros with
  | nil => simp
  | cons b l ih =>
    unfold escape
    split
    · have := ih (if b = 0 then 1 else 0)
      simp only [List.length_cons]
      omega
    · have := ih (if b = 0 then zeros + 1 else 0)
      simp only [List.length_cons]
      omega

/-- A payload that `FlushNAL` writes behind any byte of a stream: behind the start
code there is none of the three patterns, and from any place in the stream buffer
the parser fetches the start code, the header and the payload, and nothing else. -/
theorem flushNAL_fetch {s : BitStreamLite} (hs : s.Tidy) (halign : s.iBitCount % 8 = 0)
    (eCodec : Codec) (uNUT : ℕ) {iBitsInNAL : ℕ} {hdr : NalHeader} (hhdr : hdr.Built)
    {payload : List UInt8} (hne : payload ≠ []) (hlast : payload.getLast hne ≠ 0)
    (hbits : (iBitsInNAL + 7) / 8 = payload.length)
    (hmax : s.iBitCount + 8 * (BitStreamLite.startCode eCodec uNUT ++
      (hdr.bytes ++ escape 0 payload)).length ≤ s.iMaxBits) (hint : s.iMaxBits < 2 ^ 31) :
    ∃ nal : List UInt8,
      let s' := s.flushNAL eCodec uNUT hdr (memOf payload) iBitsInNAL
      let sent := BitStreamLite.startCode eCodec uNUT ++ (hdr.bytes ++ payload)
      s'.isOverflow = false ∧ s'.bytes = s.bytes ++ BitStreamLite.startCode eCodec uNUT ++ nal ∧
      ¬Emulates nal ∧
      ∀ (c : CircBuffer) (scratch : ℕ → UInt8), c.Holds (BitStreamLite.startCode eCodec uNUT ++ nal) →
        let p := (RbspParser.init c scratch true).fetchAll
        p.finishedFetching = true ∧ (∀ i (h : i < sent.length), p.pBuffer i = sent[i]) ∧
          ∀ i, sent.length ≤ i → p.pBuffer i = scratch i := by
  have hext := flushNAL_extends hs hbits hmax
  have hdeem := (hhdr.append (escape 0 payload)).1
  rw [deemulate_escape (Nat.zero_le 2)] at hdeem
  refine ⟨hdr.bytes ++ escape 0 payload, hext.tidy.fits, ?_,
    ((hhdr.append _).2 (escape_clear (Nat.zero_le 2) payload)).not_emulates, fun c scratch hc => ?_⟩
  · rw [hext.bytes_eq halign, List.append_assoc]
  · have hlen := length_le_escape 0 payload
    have hsent : BitStreamLite.startCode eCodec uNUT ++ (hdr.bytes ++ payload) ≠ [] := by simp [hne]
    have hsentlast : (BitStreamLite.startCode eCodec uNUT ++ (hdr.bytes ++ payload)).getLast hsent ≠ 0 := by
      rw [List.getLast_append_of_ne_nil _ (by simp [hne]), List.getLast_append_of_ne_nil _ hne]
      exact hlast
    obtain ⟨stop, hstop, hone, hzero⟩ := exists_stop hsent hsentlast
    have hcarries := RbspParser.carries_init scratch hc
      (by rw [deemulate_startCode, hdeem]) (by simp only [List.length_append] at hmax ⊢; omega)
      hstop hone hzero
    obtain ⟨hfin, hin, hout⟩ := hcarries.fetchAll
    refine ⟨hfin, fun i hi => ?_, hout⟩
    rw [hin i hi, memOf_of_lt hi]

/-- A slice header with two runs of zeros behind the first byte of a stream. -/
theorem flushNAL_fetch_zeros :
    ∃ nal : List UInt8,
      let s : BitStreamLite := ⟨fun _ => 0, 8, 800, false⟩
      let s' := s.flushNAL .hevc 1 (getNalHeaderHevc 1 0 0) (memOf [0, 0, 0, 0, 3, 0, 0, 1]) 64
      let sent := BitStreamLite.startCode .hevc 1 ++
        ((getNalHeaderHevc 1 0 0).bytes ++ [0, 0, 0, 0, 3, 0, 0, 1])
      s'.isOverflow = false ∧ s'.bytes = s.bytes ++ BitStreamLite.startCode .hevc 1 ++ nal ∧
      ¬Emulates nal ∧
      ∀ (c : CircBuffer) (scratch : ℕ → UInt8), c.Holds (BitStreamLite.startCode .hevc 1 ++ nal) →
        let p := (RbspParser.init c scratch true).fetchAll
        p.finishedFetching = true ∧ (∀ i (h : i < sent.length), p.pBuffer i = sent[i]) ∧
          ∀ i, sent.length ≤ i → p.pBuffer i = scratch i :=
  flushNAL_fetch (s := ⟨fun _ => 0, 8, 800, false⟩) ⟨rfl, fun h => absurd rfl h⟩ rfl .hevc 1
    (.hevc 1 0 0 (by decide)) (by decide) (by decide) (by decide) (by decide) (by decide)

end VcuCodec
