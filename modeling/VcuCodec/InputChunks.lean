import VcuCodec.SplitInput
import Mathlib.Tactic.IntervalCases

/-!
# The chunks of the input splitter
-/

namespace VcuCodec.InputLoader

/-! ## The search -/

namespace CircBuffer

variable {b : CircBuffer} {eCodec : Codec} {bSliceCut : Bool}

/-- A start code at an absolute position. -/
def CodeAt (b : CircBuffer) (p : ℕ) : Prop := b.byteAt p = 0 ∧ b.byteAt (p + 1) = 0 ∧ b.byteAt (p + 2) = 1

/-- What the loop of `sFindNextStartCode` leaves. -/
structure Scanned (b : CircBuffer) (base uEnd : ℕ) (r : CodeScan) : Prop where
  le : r.uCur ≤ uEnd
  stop : r.found = false → r.uCur = uEnd
  zeros : r.found = true → 2 ≤ r.iNumZeros ∧ base + r.iNumZeros + 1 ≤ r.uCur
  code : r.found = true → b.CodeAt (r.uCur - 3)

theorem scan_scanned {base left u z : ℕ} (hz : base + z ≤ u)
    (hrun : ∀ j < z, b.byteAt (u - 1 - j) = 0) : b.Scanned base (u + left) (b.scan left u z) := by
  induction left generalizing u z with
  | zero => exact ⟨le_refl _, fun _ => rfl, nofun, nofun⟩
  | succ left ih =>
    unfold scan
    by_cases hcode : b.byteAt u = 1 ∧ 2 ≤ z
    · rw [if_pos hcode]
      have h0 := hrun 0 (by omega)
      have h1 := hrun 1 (by omega)
      have hu : u + 1 - 3 = u - 1 - 1 := by omega
      have hu0 : u - 1 - 1 + 1 = u - 1 - 0 := by omega
      have hu1 : u - 1 - 1 + 2 = u := by omega
      refine ⟨by show u + 1 ≤ _; omega, nofun, fun _ => ⟨hcode.2, by show base + z + 1 ≤ u + 1; omega⟩, ?_⟩
      intro _
      show b.CodeAt (u + 1 - 3)
      rw [hu]
      unfold CodeAt
      rw [hu0, hu1]
      exact ⟨h1, h0, hcode.1⟩
    · rw [if_neg hcode, show u + (left + 1) = u + 1 + left by omega]
      apply ih
      · split <;> omega
      · intro j hj
        split at hj
        · next hzero =>
          cases j with
          | zero => exact hzero
          | succ j =>
            rw [show u + 1 - 1 - (j + 1) = u - 1 - j by omega]
            exact hrun j (by omega)
        · omega

theorem scan_found {left u z p : ℕ} (hcode : b.CodeAt p) (hu : u ≤ p + min z 2) (hp : p + 3 ≤ u + left) :
    (b.scan left u z).found = true ∧ (b.scan left u z).uCur ≤ p + 3 := by
  induction left generalizing u z with
  | zero => omega
  | succ left ih =>
    unfold scan
    by_cases hone : b.byteAt u = 1 ∧ 2 ≤ z
    · rw [if_pos hone]
      exact ⟨rfl, by show u + 1 ≤ p + 3; omega⟩
    · rw [if_neg hone]
      apply ih _ (by omega)
      rcases Nat.lt_or_ge u p with hlt | hge
      · omega
      obtain ⟨hp0, hp1, hp2⟩ := hcode
      rcases (by omega : u = p ∨ u = p + 1 ∨ u = p + 2) with rfl | rfl | rfl
      · rw [if_pos hp0]
        omega
      · rw [if_pos hp1]
        omega
      · exact absurd ⟨hp2, by omega⟩ hone

/-- What `sFindNextStartCode` returns. -/
structure NextCode (b : CircBuffer) (u : ℕ) (r : Bool × ℕ) : Prop where
  le : r.2 ≤ max u b.uEnd
  code : r.1 = true → u + 3 ≤ r.2 ∧ r.2 + 2 ≤ b.uEnd ∧ b.CodeAt (r.2 - 3)

theorem sFindNextStartCode_next {u : ℕ} : b.NextCode u (b.sFindNextStartCode u) := by
  have hs : b.Scanned u (u + (b.uEnd - u)) (b.scan (b.uEnd - u) u 0) :=
    scan_scanned (by omega) fun j hj => absurd hj (Nat.not_lt_zero j)
  have hle := hs.le
  unfold sFindNextStartCode
  simp only
  by_cases hf : (b.scan (b.uEnd - u) u 0).found = true
  · have hz := hs.zeros hf
    rw [hf]
    simp only [Bool.not_true, Bool.false_eq_true, if_false]
    split
    · exact ⟨by show _ - _ - 1 ≤ _; omega, nofun⟩
    · refine ⟨by show _ ≤ _; omega, fun _ => ⟨by show _ ≤ CodeScan.uCur _; omega, ?_, hs.code hf⟩⟩
      show CodeScan.uCur _ + 2 ≤ _
      omega
  · rw [Bool.not_eq_true] at hf
    rw [hf]
    simp only [Bool.not_false, if_true]
    exact ⟨by show _ - _ ≤ _; omega, nofun⟩

theorem sFindNextStartCode_found {u p : ℕ} (hcode : b.CodeAt p) (hu : u ≤ p) (hp : p + 4 < b.uEnd) :
    (b.sFindNextStartCode u).1 = true ∧ (b.sFindNextStartCode u).2 ≤ p + 3 := by
  obtain ⟨hf, hle⟩ := scan_found (z := 0) hcode (by omega) (by omega : p + 3 ≤ u + (b.uEnd - u))
  unfold sFindNextStartCode
  simp only
  rw [hf]
  simp only [Bool.not_true, Bool.false_eq_true, if_false]
  rw [if_neg (by omega)]
  exact ⟨rfl, hle⟩

theorem nalHeaderBytes_le (eCodec : Codec) : nalHeaderBytes eCodec ≤ 2 := by
  cases eCodec <;> decide

theorem searchFrom_le (rounds off : ℕ) (v e : Bool) :
    (b.searchFrom eCodec bSliceCut rounds off v e).1 ≤ max off b.uEnd := by
  induction rounds generalizing off v e with
  | zero => exact le_max_left _ _
  | succ rounds ih =>
    have hnext := b.sFindNextStartCode_next (u := off)
    have hh := nalHeaderBytes_le eCodec
    unfold searchFrom
    simp only
    by_cases hf : (b.sFindNextStartCode off).1 = true
    · obtain ⟨-, hend, -⟩ := hnext.code hf
      have hstep : (b.sFindNextStartCode off).2 + nalHeaderBytes eCodec ≤ max off b.uEnd := by omega
      have hgo : ∀ v e, (b.searchFrom eCodec bSliceCut rounds
          ((b.sFindNextStartCode off).2 + nalHeaderBytes eCodec) v e).1 ≤ max off b.uEnd := by
        intro v e
        exact (ih _ v e).trans (by omega)
      rw [hf]
      simp only [Bool.not_true, Bool.false_eq_true, if_false]
      split
      · exact hstep
      · split
        · split
          · exact hstep
          · exact hgo _ _
        · exact hgo _ _
    · rw [Bool.not_eq_true] at hf
      rw [hf]
      exact hnext.le

theorem searchFrom_none {rounds off : ℕ} {v e : Bool} (h : (b.sFindNextStartCode off).1 = false) :
    (b.searchFrom eCodec bSliceCut rounds off v e).2 = e := by
  cases rounds with
  | zero => rfl
  | succ rounds =>
    unfold searchFrom
    simp only
    rw [h]
    rfl

/-- The search does not go beyond a delimiter, if every start code in front of it has its
header in front of it. -/
theorem searchFrom_le_aud {a rounds off : ℕ} {v e : Bool} (hcode : b.CodeAt a)
    (haud : isAud eCodec (b.readNut eCodec (a + 3)) = true) (hend : a + 4 < b.uEnd)
    (hfront : ∀ p, off ≤ p → p < a → b.CodeAt p → p + 3 + nalHeaderBytes eCodec ≤ a) (hoff : off ≤ a)
    (hrounds : b.uEnd - off ≤ rounds) :
    (b.searchFrom eCodec bSliceCut rounds off v e).1 ≤ a + 3 + nalHeaderBytes eCodec := by
  induction rounds generalizing off v e with
  | zero => omega
  | succ rounds ih =>
    obtain ⟨hf, hle⟩ := sFindNextStartCode_found hcode hoff hend
    obtain ⟨hge, hin, hat⟩ := (b.sFindNextStartCode_next (u := off)).code hf
    unfold searchFrom
    simp only
    rw [hf]
    simp only [Bool.not_true, Bool.false_eq_true, if_false]
    rcases Nat.eq_or_lt_of_le hle with heq | hlt
    · rw [heq, haud, if_pos rfl]
    · have hin' := hfront _ (by omega) (by omega) hat
      have hgo : ∀ v e, (b.searchFrom eCodec bSliceCut rounds
          ((b.sFindNextStartCode off).2 + nalHeaderBytes eCodec) v e).1 ≤ a + 3 + nalHeaderBytes eCodec := by
        intro v e
        apply ih _ (by omega) (by omega)
        intro p hp
        exact hfront p (by omega)
      split
      · show _ + _ ≤ _
        omega
      · split
        · split
          · show _ + _ ≤ _
            omega
          · exact hgo _ _
        · exact hgo _ _

end CircBuffer

/-! ## What the buffer holds -/

namespace SplitInput

variable {s s' : SplitInput} {w file : List UInt8} {nal : NalInfo} {bufSize : ℕ} {c : ReadCall}

/-- The circular buffer holds bytes that are read and not delivered. -/
structure Holds (s : SplitInput) (w : List UInt8) : Prop where
  avail : s.m_CircBuf.iAvailSize = w.length
  offset : s.m_CircBuf.iOffset < s.m_CircBuf.iSize
  bytes : RingQueues.contents s.m_CircBuf.pBuf s.m_CircBuf.iSize s.m_CircBuf.iOffset w.length = w

/-- The buffer on which the search runs. -/
def searched (s : SplitInput) : CircBuffer :=
  { s.m_CircBuf with
    iOffset := s.m_CircBuf.iOffset + s.iNalAudSize
    iAvailSize := s.m_CircBuf.iAvailSize - s.iNalAudSize }

theorem searchNal_eq : s.searchNal = s.searched.searchStartCodes s.m_eCodec s.m_bSliceCut := rfl

namespace Holds

theorem byteAt (h : s.Holds w) {i : ℕ} (hi : i < w.length) :
    s.searched.byteAt (s.m_CircBuf.iOffset + i) = w[i] := by
  have hbytes := h.bytes
  have hlen : i < (RingQueues.contents s.m_CircBuf.pBuf s.m_CircBuf.iSize s.m_CircBuf.iOffset w.length).length := by
    rwa [hbytes]
  calc s.searched.byteAt (s.m_CircBuf.iOffset + i)
      = (RingQueues.contents s.m_CircBuf.pBuf s.m_CircBuf.iSize s.m_CircBuf.iOffset w.length)[i] :=
        (RingQueues.getElem_contents hlen).symm
    _ = w[i] := by simp only [hbytes]

theorem uEnd (h : s.Holds w) : s.searched.uEnd = s.m_CircBuf.iOffset + w.length := by
  unfold CircBuffer.uEnd searched
  simp only [h.avail]
  omega

theorem numBytes_le (h : s.Holds w) : s.searchNal.numBytes ≤ w.length - s.iNalAudSize := by
  have hle : (s.searched.searchFrom s.m_eCodec s.m_bSliceCut s.searched.iAvailSize.toNat s.searched.iOffset
      false false).1 ≤ max s.searched.iOffset s.searched.uEnd := CircBuffer.searchFrom_le _ _ _ _
  have hend := h.uEnd
  rw [searchNal_eq]
  unfold CircBuffer.searchStartCodes
  simp only
  have hoff : s.searched.iOffset = s.m_CircBuf.iOffset + s.iNalAudSize := rfl
  omega

theorem copyOut (h : s.Holds w) {n : ℕ} (hn : n ≤ w.length) (hsize : n ≤ s.m_CircBuf.iSize) :
    s.m_CircBuf.copyOut n = w.take n := by
  have htake : w.take n = RingQueues.contents s.m_CircBuf.pBuf s.m_CircBuf.iSize s.m_CircBuf.iOffset n := by
    rw [← RingQueues.contents_take hn, h.bytes]
  rw [htake]
  unfold CircBuffer.copyOut
  split
  · next hwrap => exact (RingQueues.contents_eq_slices h.offset hwrap hsize).symm
  · next hwrap => exact (RingQueues.contents_eq_slice (by omega)).symm

end Holds

/-- What a delivered chunk is and what stays in the buffer. -/
structure Delivered (s : SplitInput) (file : List UInt8) (nal : NalInfo) (w : List UInt8) (c : ReadCall) :
    Prop where
  chunk : c.chunk = w.take nal.numBytes
  holds : c.input.Holds (w.drop nal.numBytes)
  rest : c.rest = file
  endFrame : c.endFrame = nal.endOfFrame
  eof : c.input.m_bEOF = s.m_bEOF
  codec : c.input.m_eCodec = s.m_eCodec
  size : c.input.m_CircBuf.iSize = s.m_CircBuf.iSize

theorem deliver_delivered {writes : List (ℕ × ℕ)} (h : s.Holds w) (hn : nal.numBytes ≤ w.length)
    (hsize : nal.numBytes ≤ s.m_CircBuf.iSize) (hd : s.deliver file nal bufSize writes = some c) :
    s.Delivered file nal w c := by
  unfold deliver at hd
  split at hd
  · cases hd
  · cases hd
    have hlen : (w.drop nal.numBytes).length = w.length - nal.numBytes := List.length_drop
    refine ⟨h.copyOut hn hsize, ⟨?_, ?_, ?_⟩, rfl, rfl, rfl, rfl, rfl⟩
    · show s.m_CircBuf.iAvailSize - (nal.numBytes : ℤ) = _
      rw [h.avail, hlen]
      omega
    · exact Nat.mod_lt _ (by have := h.offset; omega)
    · show RingQueues.contents s.m_CircBuf.pBuf s.m_CircBuf.iSize
        ((s.m_CircBuf.iOffset + nal.numBytes) % s.m_CircBuf.iSize) (w.drop nal.numBytes).length = _
      rw [hlen, RingQueues.contents_drop, h.bytes]

theorem iNalAudSize_eq : s.iNalAudSize = nalHeaderBytes s.m_eCodec + 4 := by
  unfold iNalAudSize
  cases s.m_eCodec <;> rfl

variable {wrote : List (ℕ × ℕ)} {rest : List UInt8}

theorem readStream_eq (hrefill : s.refill file = (s', rest, wrote))
    (h : s'.Holds w) (hw : w ≠ []) (hmore : ¬(s.m_bEOF = true ∧ s.m_CircBuf.iAvailSize = s.iNalAudSize)) :
    s.readStream file bufSize = s'.deliver rest s'.searchNal bufSize wrote := by
  have hle := h.numBytes_le
  have hpos := List.length_pos_iff.mpr hw
  have haud := s'.iNalAudSize_eq
  have hlt : (s'.searchNal.numBytes : ℤ) < s'.m_CircBuf.iAvailSize := by
    rw [h.avail]
    omega
  unfold readStream readLoop
  rw [if_neg hmore, hrefill]
  simp only [List.nil_append]
  rw [if_pos hlt]

theorem refill_eof (h : s.m_bEOF = true) : s.refill file = (s, file, []) := by
  unfold refill
  rw [if_pos h]

theorem start_eq (h : s.Holds w) :
    s.start = (s.m_CircBuf.iOffset + w.length) % s.m_CircBuf.iSize := by
  unfold start
  rw [h.avail, ← Int.natCast_add, ← Int.natCast_emod, Int.toNat_natCast]

theorem readable_eq (h : s.Holds w) (hle : w.length ≤ s.m_CircBuf.iSize) :
    s.readable = min (s.m_CircBuf.iSize - w.length) (s.m_CircBuf.iSize - s.start) := by
  have hlt : s.start < s.m_CircBuf.iSize := by
    rw [start_eq h]
    exact Nat.mod_lt _ (by have := h.offset; omega)
  unfold readable
  rw [h.avail]
  omega

/-- Bytes copied behind the last one, if they do not wrap. -/
theorem Holds.append {bytes : List UInt8} (h : s.Holds w) (hfree : w.length + bytes.length ≤ s.m_CircBuf.iSize)
    (hin : s.start + bytes.length ≤ s.m_CircBuf.iSize) :
    RingQueues.contents (RingQueues.blit s.m_CircBuf.pBuf s.start bytes) s.m_CircBuf.iSize s.m_CircBuf.iOffset
      (w.length + bytes.length) = w ++ bytes := by
  have happ := RingQueues.contents_blitWrapped (f := s.m_CircBuf.pBuf) (start_eq h) hfree
  rw [h.bytes] at happ
  unfold RingQueues.blitWrapped at happ
  rwa [if_neg (by omega)] at happ

/-- Bytes are read from the file and follow those in the buffer. -/
structure Loaded (s : SplitInput) (file w : List UInt8) (s' : SplitInput) (rest : List UInt8) : Prop where
  holds : s'.Holds (w ++ file.take s.readable)
  rest_eq : rest = file.drop s.readable
  le : (w ++ file.take s.readable).length ≤ s.m_CircBuf.iSize
  eof : s'.m_bEOF = s.m_bEOF
  codec : s'.m_eCodec = s.m_eCodec
  size : s'.m_CircBuf.iSize = s.m_CircBuf.iSize

theorem refill_loaded (h : s.Holds w)
    (hle : w.length ≤ s.m_CircBuf.iSize) (heof : s.m_bEOF = false) (hread : file.take s.readable ≠ [])
    (hrefill : s.refill file = (s', rest, wrote)) : s.Loaded file w s' rest := by
  have hrd := readable_eq h hle
  have hlen : (file.take s.readable).length ≤ s.readable := List.length_take_le _ _
  have hfree : w.length + (file.take s.readable).length ≤ s.m_CircBuf.iSize := by omega
  have hin : s.start + (file.take s.readable).length ≤ s.m_CircBuf.iSize := by
    have hlt : s.start < s.m_CircBuf.iSize := by
      rw [start_eq h]
      exact Nat.mod_lt _ (by have := h.offset; omega)
    omega
  unfold refill at hrefill
  rw [heof, if_neg Bool.false_ne_true] at hrefill
  simp only at hrefill
  rw [if_neg (by simpa using hread)] at hrefill
  cases hrefill
  refine ⟨⟨?_, h.offset, ?_⟩, rfl, by rw [List.length_append]; exact hfree, heof.symm, rfl, rfl⟩
  · show s.m_CircBuf.iAvailSize + ((file.take s.readable).length : ℤ) = _
    rw [h.avail, List.length_append]
    omega
  · rw [List.length_append]
    exact h.append hfree hin

/-- The end of the file is found, and the delimiter written. -/
structure Closed (s : SplitInput) (file : List UInt8) (s' : SplitInput) (rest : List UInt8)
    (wrote : List (ℕ × ℕ)) : Prop where
  pBuf : s'.m_CircBuf.pBuf = RingQueues.blit s.m_CircBuf.pBuf s.start (audBytes s.m_eCodec)
  avail : s'.m_CircBuf.iAvailSize = s.m_CircBuf.iAvailSize + s.iNalAudSize
  offset : s'.m_CircBuf.iOffset = s.m_CircBuf.iOffset
  rest_eq : rest = file
  wrote_eq : wrote = [(s.start, s.iNalAudSize)]
  eof : s'.m_bEOF = true
  codec : s'.m_eCodec = s.m_eCodec
  size : s'.m_CircBuf.iSize = s.m_CircBuf.iSize

theorem refill_closed (heof : s.m_bEOF = false)
    (hread : file.take s.readable = []) (hrefill : s.refill file = (s', rest, wrote)) :
    s.Closed file s' rest wrote := by
  unfold refill at hrefill
  rw [heof, if_neg Bool.false_ne_true] at hrefill
  simp only at hrefill
  rw [if_pos (by rw [hread]; rfl)] at hrefill
  cases hrefill
  exact ⟨rfl, rfl, rfl, rfl, rfl, rfl, rfl, rfl⟩

end SplitInput

/-! ## Reading a whole file -/

/-- The calls of `ReadStream` up to the first that returns 0. -/
inductive Calls (bufSize : ℕ) : SplitInput → List UInt8 → List ReadCall → Prop
  | last {s : SplitInput} {file : List UInt8} {c : ReadCall} (hc : s.readStream file bufSize = some c)
      (hend : c.chunk = []) : Calls bufSize s file [c]
  | more {s : SplitInput} {file : List UInt8} {c : ReadCall} {cs : List ReadCall}
      (hc : s.readStream file bufSize = some c) (hne : c.chunk ≠ [])
      (hcs : Calls bufSize c.input c.rest cs) : Calls bufSize s file (c :: cs)

/-- The calls as long as a chunk is returned, at most `rounds`. -/
def SplitInput.readCalls (bufSize : ℕ) : (rounds : ℕ) → SplitInput → List UInt8 → Option (List ReadCall)
  | 0, _, _ => none
  | rounds + 1, s, file => do
    let c ← s.readStream file bufSize
    if c.chunk = [] then some [c] else (readCalls bufSize rounds c.input c.rest).map (c :: ·)

def returned (calls : List ReadCall) : List UInt8 := (calls.map (·.chunk)).flatten

/-- A start code of 3 or 4 bytes comes first. -/
def StartsCode (bytes : List UInt8) : Prop := bytes.take 3 = [0, 0, 1] ∨ bytes.take 4 = [0, 0, 0, 1]

/-- A delimiter comes first. -/
def StartsUnit (eCodec : Codec) (bytes : List UInt8) : Prop :=
  ∃ header, isAud eCodec (nalType eCodec header) = true ∧
    (bytes.take 4 = [0, 0, 1, header] ∨ bytes.take 5 = [0, 0, 0, 1, header])

/-- An access unit ends where the next one starts, and the last one with the file. -/
def CompletesUnit (eCodec : Codec) (f : List UInt8) (pos : ℕ) : Prop :=
  pos = f.length ∨ StartsUnit eCodec (f.drop pos)

/-- What a call behind the first `pos` bytes of the file has to do. -/
structure Proper (eCodec : Codec) (f : List UInt8) (pos : ℕ) (c : ReadCall) : Prop where
  inside : ∀ x ∈ c.writes, x.1 + x.2 ≤ c.input.m_CircBuf.iSize
  boundary : pos + c.chunk.length < f.length → StartsCode (f.drop (pos + c.chunk.length))
  flag : c.chunk ≠ [] → (c.endFrame = true ↔ CompletesUnit eCodec f (pos + c.chunk.length))

def AllProper (eCodec : Codec) (f : List UInt8) : ℕ → List ReadCall → Prop
  | _, [] => True
  | pos, c :: cs => Proper eCodec f pos c ∧ AllProper eCodec f (pos + c.chunk.length) cs

/-- The file is returned in chunks that are cut at start codes and flagged at the ends of
the access units. -/
def SplitsFile (iSize : ℕ) (eCodec : Codec) (bSliceCut : Bool) (f : List UInt8) : Prop :=
  ∃ calls, Calls iSize (SplitInput.create iSize eCodec bSliceCut) f calls ∧ returned calls = f ∧
    AllProper eCodec f 0 calls

/-- Every start code of the file has a NAL header behind it. -/
def HeadersComplete (eCodec : Codec) (f : List UInt8) : Prop :=
  ∀ pos, (f.drop pos).take 3 = [0, 0, 1] → pos + nalHdrSize eCodec ≤ f.length

theorem nalHdrSize_eq (eCodec : Codec) : nalHdrSize eCodec = nalHeaderBytes eCodec + 3 := by
  cases eCodec <;> rfl

theorem length_audBytes (eCodec : Codec) : (audBytes eCodec).length = nalHeaderBytes eCodec + 4 := by
  cases eCodec <;> rfl

theorem nalHeaderBytes_pos (eCodec : Codec) : 0 < nalHeaderBytes eCodec := by
  cases eCodec <;> decide

variable {eCodec : Codec}

theorem audBytes_pair {i : ℕ} (hi : 0 < i) (h0 : (audBytes eCodec)[i]? = some 0) :
    (audBytes eCodec)[i + 1]? ≠ some 0 := by
  rcases Nat.lt_or_ge i 6 with hlt | hge
  · cases eCodec <;> interval_cases i <;> revert h0 <;> decide
  · have hh := CircBuffer.nalHeaderBytes_le eCodec
    have hlen := length_audBytes eCodec
    rw [List.getElem?_eq_none (by omega)] at h0
    cases h0

namespace SplitInput

variable {s s' : SplitInput} {w file rest f : List UInt8} {bufSize d : ℕ} {c : ReadCall}
  {calls cs : List ReadCall} {wrote : List (ℕ × ℕ)}

theorem Holds.front (h : s.Holds (w ++ audBytes s.m_eCodec)) {i : ℕ} (hi : i < w.length) :
    w[i]? = some (s.searched.byteAt (s.m_CircBuf.iOffset + i)) := by
  have hi' : i < (w ++ audBytes s.m_eCodec).length := by
    rw [List.length_append]
    omega
  rw [h.byteAt hi', List.getElem_append_left hi, List.getElem?_eq_getElem hi]

theorem Holds.delimiter (h : s.Holds (w ++ audBytes s.m_eCodec)) {j : ℕ} (hj : j < nalHeaderBytes s.m_eCodec + 4) :
    (audBytes s.m_eCodec)[j]? = some (s.searched.byteAt (s.m_CircBuf.iOffset + w.length + j)) := by
  have hlen := length_audBytes s.m_eCodec
  have hj' : w.length + j < (w ++ audBytes s.m_eCodec).length := by
    rw [List.length_append]
    omega
  rw [Nat.add_assoc, h.byteAt hj', ← List.getElem?_eq_getElem hj', List.getElem?_append_right (by omega),
    Nat.add_sub_cancel_left]

/-- A start code in front of the delimiter does not reach into it. -/
theorem Holds.code_front (h : s.Holds (w ++ audBytes s.m_eCodec)) {i : ℕ} (hi : i < w.length)
    (hcode : s.searched.CodeAt (s.m_CircBuf.iOffset + i)) : (w.drop i).take 3 = [0, 0, 1] := by
  obtain ⟨h0, h1, h2⟩ := hcode
  have hin : i + 2 < w.length := by
    by_contra hc
    have hhpos := nalHeaderBytes_pos s.m_eCodec
    have hone := h.delimiter (by omega : i + 2 - w.length < nalHeaderBytes s.m_eCodec + 4)
    rw [show s.m_CircBuf.iOffset + w.length + (i + 2 - w.length) = s.m_CircBuf.iOffset + i + 2 by omega, h2] at hone
    rcases (by omega : i + 2 - w.length = 0 ∨ i + 2 - w.length = 1) with hj | hj
    all_goals
      rw [hj] at hone
      cases hc : s.m_eCodec <;> rw [hc] at hone <;> exact absurd hone (by decide)
  have g0 := h.front (by omega : i < w.length)
  have g1 := h.front (by omega : i + 1 < w.length)
  have g2 := h.front hin
  rw [h0] at g0
  rw [← Nat.add_assoc, h1] at g1
  rw [← Nat.add_assoc, h2] at g2
  rw [List.getElem?_eq_getElem (by omega)] at g0 g1 g2
  rw [List.drop_eq_getElem_cons (by omega), List.drop_eq_getElem_cons (by omega),
    List.drop_eq_getElem_cons (by omega)]
  simp only [List.take_succ_cons, List.take_zero]
  rw [Option.some.inj g0, Option.some.inj g1, Option.some.inj g2]

theorem Holds.code_delimiter (h : s.Holds (w ++ audBytes s.m_eCodec)) :
    s.searched.CodeAt (s.m_CircBuf.iOffset + w.length) ∧
      isAud s.m_eCodec (s.searched.readNut s.m_eCodec (s.m_CircBuf.iOffset + w.length + 3)) = true := by
  have hhpos := nalHeaderBytes_pos s.m_eCodec
  constructor
  · refine ⟨Option.some.inj ((h.delimiter (by omega : 0 < _)).symm.trans ?_),
      Option.some.inj ((h.delimiter (by omega : 1 < _)).symm.trans ?_),
      Option.some.inj ((h.delimiter (by omega : 2 < _)).symm.trans ?_)⟩
    all_goals cases s.m_eCodec <;> rfl
  · have h3 := h.delimiter (by omega : 3 < _)
    unfold CircBuffer.readNut
    revert h3
    generalize s.searched.byteAt (s.m_CircBuf.iOffset + w.length + 3) = byte
    intro h3
    cases hc : s.m_eCodec <;> rw [hc] at h3 <;> cases Option.some.inj h3 <;> decide

/-- In less bytes than a delimiter has, the search starts behind its start code. -/
theorem Holds.search_short (h : s.Holds (w ++ audBytes s.m_eCodec)) (hw : w ≠ [])
    (hshort : w.length < s.iNalAudSize) : s.searchNal.endOfFrame = false := by
  have hpos := List.length_pos_iff.mpr hw
  have haud := s.iNalAudSize_eq
  have hend := h.uEnd
  rw [List.length_append, length_audBytes] at hend
  have hoff : s.searched.iOffset = s.m_CircBuf.iOffset + s.iNalAudSize := rfl
  have hnone : (s.searched.sFindNextStartCode s.searched.iOffset).1 = false := by
    rw [← Bool.not_eq_true]
    intro hf
    obtain ⟨hge, hin, h0, h1, -⟩ := CircBuffer.sFindNextStartCode_next.code hf
    obtain ⟨j, hj⟩ : ∃ j, (s.searched.sFindNextStartCode s.searched.iOffset).2 - 3 =
        s.m_CircBuf.iOffset + w.length + j := ⟨_, (Nat.add_sub_of_le (by omega)).symm⟩
    rw [hj] at h0 h1
    have hzero : (audBytes s.m_eCodec)[j]? = some 0 := by
      rw [h.delimiter (by omega), h0]
    apply audBytes_pair (by omega) hzero
    rw [h.delimiter (by omega), ← Nat.add_assoc, h1]
  exact CircBuffer.searchFrom_none hnone

/-- The last chunk of the file is not returned whole and flagged. -/
theorem searchNal_last (h : s.Holds (w ++ audBytes s.m_eCodec)) (hw : w ≠ [])
    (hfront : ∀ i, (w.drop i).take 3 = [0, 0, 1] → i + nalHdrSize s.m_eCodec ≤ w.length)
    (hnum : s.searchNal.numBytes = w.length) : s.searchNal.endOfFrame = false := by
  by_cases hshort : w.length < s.iNalAudSize
  · exact h.search_short hw hshort
  -- the search finds the delimiter, and stops a byte short of it
  exfalso
  have haud := s.iNalAudSize_eq
  have hhdr := nalHdrSize_eq s.m_eCodec
  have hend := h.uEnd
  rw [List.length_append, length_audBytes] at hend
  have hhpos := nalHeaderBytes_pos s.m_eCodec
  have hoff : s.searched.iOffset = s.m_CircBuf.iOffset + s.iNalAudSize := rfl
  obtain ⟨hcode, hheader⟩ := h.code_delimiter
  have hle : (s.searched.searchFrom s.m_eCodec s.m_bSliceCut s.searched.iAvailSize.toNat s.searched.iOffset
      false false).1 ≤ s.m_CircBuf.iOffset + w.length + 3 + nalHeaderBytes s.m_eCodec := by
    apply CircBuffer.searchFrom_le_aud hcode hheader (by omega) _ (by omega)
    · have hav : s.searched.iAvailSize = s.m_CircBuf.iAvailSize - s.iNalAudSize := rfl
      rw [h.avail, List.length_append, length_audBytes] at hav
      omega
    · intro p hp hlt hat
      obtain ⟨i, rfl⟩ : ∃ i, p = s.m_CircBuf.iOffset + i := ⟨_, (Nat.add_sub_of_le (by omega)).symm⟩
      have := hfront i (h.code_front (by omega) hat)
      omega
  have hn : s.searchNal.numBytes = (s.searched.searchFrom s.m_eCodec s.m_bSliceCut
      s.searched.iAvailSize.toNat s.searched.iOffset false false).1 - s.searched.iOffset := rfl
  omega

end SplitInput

/-! ## Every run -/

theorem returned_cons {c : ReadCall} {cs : List ReadCall} : returned (c :: cs) = c.chunk ++ returned cs := by
  rfl

namespace SplitInput

variable {s s' : SplitInput} {w file rest f : List UInt8} {bufSize d : ℕ} {c : ReadCall}
  {calls cs : List ReadCall} {wrote : List (ℕ × ℕ)}

/-- A call behind the end of the file delivers from the buffer. -/
theorem readStream_flush (heof : s.m_bEOF = true) (h : s.Holds w) (hlen : s.iNalAudSize ≤ w.length)
    (hsize : w.length ≤ s.m_CircBuf.iSize + s.iNalAudSize) (hc : s.readStream file bufSize = some c)
    (hne : c.chunk ≠ []) : s.Delivered file s.searchNal w c ∧ w.length ≠ s.iNalAudSize := by
  have hpos := s.iNalAudSize_eq
  have hmore : ¬(s.m_bEOF = true ∧ s.m_CircBuf.iAvailSize = s.iNalAudSize) := by
    intro hfull
    unfold readStream readLoop at hc
    rw [if_pos hfull] at hc
    cases hc
    exact hne rfl
  have hw : w ≠ [] := by
    rintro rfl
    rw [List.length_nil] at hlen
    omega
  rw [readStream_eq (refill_eof heof) h hw hmore] at hc
  have hnum := h.numBytes_le
  refine ⟨deliver_delivered h (by omega) (by omega) hc, fun heq => hmore ⟨heof, ?_⟩⟩
  rw [h.avail, heq]

/-- What is returned behind the end of the file is in the buffer. -/
theorem returned_prefix (hcalls : Calls bufSize s file calls) (heof : s.m_bEOF = true) (h : s.Holds w)
    (hlen : s.iNalAudSize ≤ w.length) (hsize : w.length ≤ s.m_CircBuf.iSize + s.iNalAudSize) :
    returned calls <+: w := by
  induction hcalls generalizing w with
  | last hc hend =>
    unfold returned
    rw [List.map_singleton, List.flatten_singleton, hend]
    exact List.nil_prefix
  | @more s file c cs hc hne hcs ih =>
    obtain ⟨hd, -⟩ := readStream_flush heof h hlen hsize hc hne
    have hnum := h.numBytes_le
    have haud : c.input.iNalAudSize = s.iNalAudSize := by
      unfold iNalAudSize
      rw [hd.codec]
    have hih := ih (hd.eof.trans heof) hd.holds (by rw [haud, List.length_drop]; omega)
      (by rw [haud, List.length_drop, hd.size]; omega)
    rw [returned_cons, hd.chunk]
    conv_rhs => rw [← List.take_append_drop s.searchNal.numBytes w]
    exact (List.prefix_append_right_inj _).mpr hih

/-- Behind the end of the file the rest is not returned as it should be. -/
theorem eq_nil_of_eof (hcalls : Calls bufSize s file calls) (heof : s.m_bEOF = true)
    (h : s.Holds (w ++ audBytes s.m_eCodec)) (hsize : w.length ≤ s.m_CircBuf.iSize)
    (hf : f.drop d = w) (hd : d ≤ f.length) (hcomplete : HeadersComplete s.m_eCodec f)
    (hret : returned calls = w) (hproper : AllProper s.m_eCodec f d calls) : w = [] := by
  induction hcalls generalizing w d with
  | @last s file c hc hend =>
    unfold returned at hret
    rw [List.map_singleton, List.flatten_singleton, hend] at hret
    exact hret.symm
  | @more s file c cs hc hne hcs ih =>
    have hlen : (audBytes s.m_eCodec).length = s.iNalAudSize := rfl
    have hall : (w ++ audBytes s.m_eCodec).length = w.length + s.iNalAudSize := by
      rw [List.length_append, hlen]
    obtain ⟨hdel, hmore⟩ := readStream_flush heof h (by omega) (by omega) hc hne
    have hnum : s.searchNal.numBytes ≤ w.length := by
      have := h.numBytes_le
      omega
    have hchunk : c.chunk = w.take s.searchNal.numBytes := by
      rw [hdel.chunk, List.take_append_of_le_length hnum]
    have hclen : c.chunk.length = s.searchNal.numBytes := by
      rw [hchunk, List.length_take, Nat.min_eq_left hnum]
    have hwlen : f.length = d + w.length := by
      rw [← hf, List.length_drop]
      omega
    rw [returned_cons, hchunk] at hret
    have hrest : returned cs = w.drop s.searchNal.numBytes := by
      conv_rhs at hret => rw [← List.take_append_drop s.searchNal.numBytes w]
      exact List.append_cancel_left hret
    have hhold := hdel.holds
    rw [List.drop_append_of_le_length hnum, ← hdel.codec] at hhold
    have hlast := ih (w := w.drop s.searchNal.numBytes) (d := d + s.searchNal.numBytes) (hdel.eof.trans heof) hhold
      (by rw [List.length_drop, hdel.size]; omega) (by rw [← List.drop_drop, hf]) (by omega)
      (hdel.codec ▸ hcomplete) hrest (by rw [hdel.codec, ← hclen]; exact hproper.2)
    have hwhole : s.searchNal.numBytes = w.length := by
      have := List.length_eq_zero_iff.mpr hlast
      rw [List.length_drop] at this
      omega
    have hflag := (hproper.1.flag hne).mpr (.inl (by omega))
    rw [hdel.endFrame] at hflag
    by_contra hw
    rw [searchNal_last h hw ?_ hwhole] at hflag
    · cases hflag
    · intro i hi
      have := hcomplete (d + i) (by rw [← List.drop_drop, hf]; exact hi)
      omega

theorem readStream_closed (heof : s.m_bEOF = false) (hrefill : s.refill file = (s', rest, wrote))
    (hclosed : s.Closed file s' rest wrote) (hc : s.readStream file bufSize = some c) :
    c.writes = wrote ∧ c.input.m_CircBuf.iSize = s.m_CircBuf.iSize := by
  have hdel : ∀ nal, s'.deliver rest nal bufSize wrote = some c →
      c.writes = wrote ∧ c.input.m_CircBuf.iSize = s.m_CircBuf.iSize := by
    intro nal hd
    unfold deliver at hd
    split at hd
    · cases hd
    · cases hd
      exact ⟨rfl, hclosed.size⟩
  unfold readStream readLoop at hc
  rw [if_neg (by rw [heof]; simp), hrefill] at hc
  simp only [List.nil_append, hclosed.eof, if_true] at hc
  split at hc
  · exact hdel _ hc
  · exact hdel _ hc

/-- The first bytes of the buffer after the delimiter was written over them. -/
theorem Closed.overwritten {file rest : List UInt8} (h : s.Holds w) (hclosed : s.Closed file s' rest wrote)
    (hsize : w.length < s.m_CircBuf.iSize) (hin : s.start + s.iNalAudSize ≤ s.m_CircBuf.iSize) {i : ℕ}
    (hi : s.m_CircBuf.iSize - w.length + i < s.iNalAudSize) :
    (audBytes s.m_eCodec)[s.m_CircBuf.iSize - w.length + i]? =
      some (s'.m_CircBuf.pBuf ((s'.m_CircBuf.iOffset + i) % s'.m_CircBuf.iSize)) := by
  have hpos : (s.m_CircBuf.iOffset + i) % s.m_CircBuf.iSize = s.start + (s.m_CircBuf.iSize - w.length + i) := by
    calc (s.m_CircBuf.iOffset + i) % s.m_CircBuf.iSize
        = (s.m_CircBuf.iOffset + w.length + (s.m_CircBuf.iSize - w.length + i)) % s.m_CircBuf.iSize := by
          rw [show s.m_CircBuf.iOffset + w.length + (s.m_CircBuf.iSize - w.length + i) =
            s.m_CircBuf.iOffset + i + s.m_CircBuf.iSize by omega, Nat.add_mod_right]
      _ = (s.start + (s.m_CircBuf.iSize - w.length + i)) % s.m_CircBuf.iSize := by
          rw [start_eq h, Nat.mod_add_mod]
      _ = s.start + (s.m_CircBuf.iSize - w.length + i) := Nat.mod_eq_of_lt (by omega)
  rw [hclosed.pBuf, hclosed.offset, hclosed.size, hpos, RingQueues.blit_inside hi,
    List.getElem?_eq_getElem hi]

end SplitInput

section Runs

variable {s s' : SplitInput} {w file rest : List UInt8} {bufSize : ℕ} {c : ReadCall}
  {calls cs : List ReadCall} {wrote : List (ℕ × ℕ)}

theorem Calls.head (h : Calls bufSize s file calls) :
    ∃ c cs, calls = c :: cs ∧ s.readStream file bufSize = some c := by
  cases h with
  | last hc hend => exact ⟨_, _, rfl, hc⟩
  | more hc hne hcs => exact ⟨_, _, rfl, hc⟩

theorem Calls.refilled (hcalls : Calls bufSize s file (c :: cs)) (heof : s.m_bEOF = false)
    (hrefill : s.refill file = (s', rest, wrote)) (heof' : s'.m_bEOF = true) (h : s'.Holds w) (hw : w ≠ [])
    (hmore : w.length ≠ s'.iNalAudSize) :
    Calls bufSize s' rest ({ c with writes := [] } :: cs) := by
  have hread : s.readStream file bufSize = some c →
      s'.readStream rest bufSize = some { c with writes := [] } := by
    intro hc
    rw [SplitInput.readStream_eq hrefill h hw (by rw [heof]; simp)] at hc
    rw [SplitInput.readStream_eq (SplitInput.refill_eof heof') h hw (fun hfull => hmore (by have := h.avail; omega))]
    unfold SplitInput.deliver at hc ⊢
    split at hc
    · cases hc
    · next hfits =>
      cases hc
      rw [if_neg hfits]
  cases hcalls with
  | last hc hend => exact .last (hread hc) hend
  | more hc hne hcs => exact .more (hread hc) hne hcs

end Runs

theorem StartsCode.zeros {bytes : List UInt8} (h : StartsCode bytes) :
    bytes[0]? = some 0 ∧ bytes[1]? = some 0 := by
  rcases h with h | h
  all_goals
    have h0 := congrArg (fun l => l[0]?) h
    have h1 := congrArg (fun l => l[1]?) h
    simp only [List.getElem?_take] at h0 h1
    exact ⟨h0, h1⟩

namespace SplitInput

variable {s s' : SplitInput} {w file rest f : List UInt8} {bufSize d : ℕ} {c : ReadCall}
  {calls cs : List ReadCall} {wrote : List (ℕ × ℕ)}

/-- The delimiter of the end of the file does not fit in front of the bytes that are left. -/
theorem not_overwritten (hcalls : Calls bufSize s' rest calls) (h : s.Holds w) (hclosed : s.Closed file s' rest wrote)
    (hsize : w.length < s.m_CircBuf.iSize) (hfull : s.m_CircBuf.iSize < w.length + s.iNalAudSize)
    (hin : s.start + s.iNalAudSize ≤ s.m_CircBuf.iSize) (hcode : StartsCode w) : returned calls ≠ w := by
  intro hret
  have haud : s'.iNalAudSize = s.iNalAudSize := by
    unfold iNalAudSize
    rw [hclosed.codec]
  let whole := RingQueues.contents s'.m_CircBuf.pBuf s'.m_CircBuf.iSize s'.m_CircBuf.iOffset
    (w.length + s.iNalAudSize)
  have hlen : whole.length = w.length + s.iNalAudSize := RingQueues.length_contents
  have hholds : s'.Holds whole := by
    refine ⟨?_, ?_, by rw [hlen]⟩
    · rw [hclosed.avail, h.avail, hlen]
      omega
    · rw [hclosed.offset, hclosed.size]
      exact h.offset
  have hprefix := returned_prefix hcalls hclosed.eof hholds (by omega) (by rw [hlen, hclosed.size, haud]; omega)
  rw [hret] at hprefix
  obtain ⟨h0, h1⟩ := hcode.zeros
  have hsame : ∀ i x, w[i]? = some x →
      s'.m_CircBuf.pBuf ((s'.m_CircBuf.iOffset + i) % s'.m_CircBuf.iSize) = x := by
    intro i x hx
    have hi := (List.getElem?_eq_some_iff.mp hx).1
    have hiw := hprefix.getElem hi
    rw [RingQueues.getElem_contents] at hiw
    rw [← hiw]
    exact (List.getElem?_eq_some_iff.mp hx).2
  have hfirst := hclosed.overwritten h hsize hin (i := 0) (by omega)
  rw [hsame 0 0 h0] at hfirst
  apply audBytes_pair (by omega) hfirst
  rcases Nat.lt_or_ge (s.m_CircBuf.iSize - w.length + 1) s.iNalAudSize with hlt | hge
  · have hsecond := hclosed.overwritten h hsize hin (i := 1) hlt
    rw [hsame 1 0 h1] at hsecond
    exact hsecond
  · -- the last byte of the delimiter is not 0
    have hlast : s.m_CircBuf.iSize - w.length + 0 = (audBytes s.m_eCodec).length - 1 := by
      show _ = s.iNalAudSize - 1
      omega
    rw [hlast] at hfirst
    cases hc : s.m_eCodec <;> rw [hc] at hfirst <;> exact absurd hfirst (by decide)

/-- A run in which a call finds the end of the file does not return the rest as it should. -/
theorem eq_nil_of_closed (hcalls : Calls bufSize s file calls) (heof : s.m_bEOF = false) (h : s.Holds w)
    (hle : w.length ≤ s.m_CircBuf.iSize) (hread : file.take s.readable = []) (hf : f.drop d = w ++ file)
    (hd : d ≤ f.length) (hcomplete : HeadersComplete s.m_eCodec f)
    (hstart : w = [] ∨ s.iNalAudSize ≤ w.length ∧ w.length < s.m_CircBuf.iSize ∧ StartsCode (f.drop d))
    (hret : returned calls = f.drop d) (hproper : AllProper s.m_eCodec f d calls) : f.drop d = [] := by
  obtain ⟨c, cs, rfl, hc⟩ := hcalls.head
  obtain ⟨s', rest, wrote, hrefill⟩ : ∃ s' rest wrote, s.refill file = (s', rest, wrote) := ⟨_, _, _, rfl⟩
  have hclosed := refill_closed heof hread hrefill
  obtain ⟨hwrites, hiSize⟩ := readStream_closed heof hrefill hclosed hc
  have hin : s.start + s.iNalAudSize ≤ s.m_CircBuf.iSize := by
    rw [← hiSize]
    exact hproper.1.inside (s.start, s.iNalAudSize) (by rw [hwrites, hclosed.wrote_eq]; exact List.mem_cons_self)
  have hfile : file = [] := by
    have hrd := readable_eq h hle
    have hlt : s.start < s.m_CircBuf.iSize := by
      rw [start_eq h]
      exact Nat.mod_lt _ (by have := h.offset; omega)
    have hoff := h.offset
    have hfree : w.length < s.m_CircBuf.iSize := by
      rcases hstart with rfl | ⟨-, hfree, -⟩
      · rw [List.length_nil]
        omega
      · exact hfree
    rcases List.take_eq_nil_iff.mp hread with h0 | h0
    · omega
    · exact h0
  subst hfile
  rw [List.append_nil] at hf
  rcases hstart with rfl | ⟨haud, hfree, hcode⟩
  · exact hf
  rw [hf] at hcode hret ⊢
  have hpos := s.iNalAudSize_eq
  have haud' : s'.iNalAudSize = s.iNalAudSize := by
    unfold iNalAudSize
    rw [hclosed.codec]
  obtain rfl := hclosed.rest_eq
  have hlen : (audBytes s.m_eCodec).length = s.iNalAudSize := rfl
  rcases Nat.lt_or_ge s.m_CircBuf.iSize (w.length + s.iNalAudSize) with hfull | hfits
  · let whole := RingQueues.contents s'.m_CircBuf.pBuf s'.m_CircBuf.iSize s'.m_CircBuf.iOffset
      (w.length + s.iNalAudSize)
    have hwlen : whole.length = w.length + s.iNalAudSize := RingQueues.length_contents
    have hholds : s'.Holds whole := by
      refine ⟨?_, ?_, by rw [hwlen]⟩
      · rw [hclosed.avail, h.avail, hwlen]
        omega
      · rw [hclosed.offset, hclosed.size]
        exact h.offset
    have hagain := hcalls.refilled heof hrefill hclosed.eof hholds (List.ne_nil_of_length_pos (by omega)) (by omega)
    exact (not_overwritten hagain h hclosed hfree hfull hin hcode hret).elim
  · have hholds : s'.Holds (w ++ audBytes s'.m_eCodec) := by
      rw [hclosed.codec]
      refine ⟨?_, ?_, ?_⟩
      · rw [hclosed.avail, h.avail, List.length_append, hlen]
        omega
      · rw [hclosed.offset, hclosed.size]
        exact h.offset
      · rw [hclosed.pBuf, hclosed.offset, hclosed.size, List.length_append]
        exact h.append hfits hin
    have hagain := hcalls.refilled heof hrefill hclosed.eof hholds
      (List.ne_nil_of_length_pos (by rw [List.length_append]; omega))
      (by rw [List.length_append, hclosed.codec, hlen]; omega)
    refine eq_nil_of_eof hagain hclosed.eof hholds (by rw [hclosed.size]; exact hle) hf hd
      (hclosed.codec ▸ hcomplete) hret ?_
    rw [hclosed.codec]
    exact ⟨⟨fun x hx => absurd hx List.not_mem_nil, hproper.1.boundary, hproper.1.flag⟩, hproper.2⟩

/-- As long as the end of the file is not found nothing is returned as it should be. -/
theorem eq_nil_of_calls (hcalls : Calls bufSize s file calls) (heof : s.m_bEOF = false) (h : s.Holds w)
    (hle : w.length ≤ s.m_CircBuf.iSize) (hf : f.drop d = w ++ file) (hd : d ≤ f.length)
    (hcomplete : HeadersComplete s.m_eCodec f)
    (hstart : w = [] ∨ s.iNalAudSize ≤ w.length ∧ w.length < s.m_CircBuf.iSize ∧ StartsCode (f.drop d))
    (hret : returned calls = f.drop d) (hproper : AllProper s.m_eCodec f d calls) : f.drop d = [] := by
  induction hcalls generalizing w d with
  | @last s file c hc hend =>
    unfold returned at hret
    rw [List.map_singleton, List.flatten_singleton, hend] at hret
    exact hret.symm
  | @more s file c cs hc hne hcs ih =>
    by_cases hread : file.take s.readable = []
    · exact eq_nil_of_closed (.more hc hne hcs) heof h hle hread hf hd hcomplete hstart hret hproper
    obtain ⟨s', rest, wrote, hrefill⟩ : ∃ s' rest wrote, s.refill file = (s', rest, wrote) := ⟨_, _, _, rfl⟩
    have hload := refill_loaded h hle heof hread hrefill
    have hwle := hload.le
    generalize hw' : w ++ file.take s.readable = w' at hload hwle
    have hne' : w' ≠ [] := by
      rw [← hw']
      exact List.append_ne_nil_of_right_ne_nil w hread
    have hsplit : f.drop d = w' ++ rest := by
      rw [hf, ← hw', hload.rest_eq, List.append_assoc, List.take_append_drop]
    have haud : s'.iNalAudSize = s.iNalAudSize := by
      unfold iNalAudSize
      rw [hload.codec]
    have hholds := hload.holds
    rw [hw'] at hholds
    rw [readStream_eq hrefill hholds hne' (by rw [heof]; simp)] at hc
    have hnum := hholds.numBytes_le
    have hsize := hload.size
    have hdel := deliver_delivered hholds (by omega) (by omega) hc
    have hclen : c.chunk.length = s'.searchNal.numBytes := by
      rw [hdel.chunk, List.length_take]
      omega
    have hcpos := List.length_pos_iff.mpr hne
    have hleft : f.drop (d + s'.searchNal.numBytes) = w'.drop s'.searchNal.numBytes ++ rest := by
      rw [← List.drop_drop, hsplit, List.drop_append_of_le_length (by omega)]
    have hpos := s.iNalAudSize_eq
    have haudc : c.input.iNalAudSize = s.iNalAudSize := by
      unfold iNalAudSize
      rw [hdel.codec, hload.codec]
    have hflen : (f.drop d).length = f.length - d := List.length_drop
    rw [hsplit, List.length_append] at hflen
    have hnil := ih (w := w'.drop s'.searchNal.numBytes) (d := d + s'.searchNal.numBytes)
      (hdel.eof.trans (hload.eof.trans heof)) hdel.holds
      (by rw [List.length_drop, hdel.size]; omega) (by rw [hleft, hdel.rest]) (by omega)
      (by rw [hdel.codec, hload.codec]; exact hcomplete)
      (.inr ⟨by rw [haudc, List.length_drop]; omega, by rw [List.length_drop, hdel.size]; omega,
        hclen ▸ hproper.1.boundary (by omega)⟩)
      (by
        rw [returned_cons, hdel.chunk, hsplit] at hret
        conv_rhs at hret => rw [← List.take_append_drop s'.searchNal.numBytes w', List.append_assoc]
        rw [hleft]
        exact List.append_cancel_left hret)
      (by rw [hdel.codec, hload.codec, ← hclen]; exact hproper.2)
    -- what the search leaves is not empty
    rw [hleft] at hnil
    have := congrArg List.length hnil
    rw [List.length_append, List.length_drop, List.length_nil] at this
    omega

variable {iSize : ℕ}

theorem create_holds (eCodec : Codec) (bSliceCut : Bool) (h : 0 < iSize) :
    (create iSize eCodec bSliceCut).Holds [] :=
  ⟨rfl, by show 0 < iSize * 2; omega, rfl⟩

theorem room_of_closed {eCodec : Codec} {bSliceCut : Bool}
    (hcalls : Calls bufSize (create iSize eCodec bSliceCut) file calls)
    (hread : file.take (create iSize eCodec bSliceCut).readable = []) (hproper : AllProper eCodec f d calls) :
    (audBytes eCodec).length ≤ 2 * iSize := by
  obtain ⟨c, cs, rfl, hc⟩ := hcalls.head
  obtain ⟨s', rest, wrote, hrefill⟩ : ∃ s' rest wrote,
    (create iSize eCodec bSliceCut).refill file = (s', rest, wrote) := ⟨_, _, _, rfl⟩
  have hclosed := refill_closed rfl hread hrefill
  obtain ⟨hwrites, hiSize⟩ := readStream_closed rfl hrefill hclosed hc
  have hin := hproper.1.inside ((create iSize eCodec bSliceCut).start, (audBytes eCodec).length)
    (by rw [hwrites, hclosed.wrote_eq]; exact List.mem_cons_self)
  rw [hiSize] at hin
  have hsize : (create iSize eCodec bSliceCut).m_CircBuf.iSize = iSize * 2 := rfl
  simp only at hin
  omega

theorem readStream_empty {eCodec : Codec} (bSliceCut : Bool)
    (hroom : (audBytes eCodec).length ≤ 2 * iSize) :
    ∃ c, (create iSize eCodec bSliceCut).readStream [] iSize = some c ∧ c.chunk = [] ∧
      c.writes = [(0, (audBytes eCodec).length)] ∧ c.input.m_CircBuf.iSize = iSize * 2 := by
  have hlen := length_audBytes eCodec
  have hempty := create_holds eCodec bSliceCut (by omega : 0 < iSize)
  have hstart : (create iSize eCodec bSliceCut).start = 0 := by
    rw [start_eq hempty]
    exact Nat.zero_mod _
  obtain ⟨s', rest, wrote, hrefill⟩ : ∃ s' rest wrote,
    (create iSize eCodec bSliceCut).refill [] = (s', rest, wrote) := ⟨_, _, _, rfl⟩
  have hclosed := refill_closed rfl List.take_nil hrefill
  have hsize : (create iSize eCodec bSliceCut).m_CircBuf.iSize = iSize * 2 := rfl
  have hholds : s'.Holds (audBytes eCodec) := by
    refine ⟨by rw [hclosed.avail]; exact zero_add _, by rw [hclosed.offset, hclosed.size]; exact hempty.offset, ?_⟩
    rw [hclosed.pBuf, hclosed.offset, hclosed.size]
    have happ := hempty.append (by rw [hsize, List.length_nil]; omega : _ + (audBytes eCodec).length ≤ _)
      (by rw [hstart, hsize]; omega)
    rw [List.length_nil, Nat.zero_add] at happ
    exact happ
  have hzero : s'.searchNal.numBytes = 0 := by
    have hnum := hholds.numBytes_le
    have haud : s'.iNalAudSize = (audBytes eCodec).length := by
      unfold iNalAudSize
      rw [hclosed.codec]
      rfl
    omega
  have hread : (create iSize eCodec bSliceCut).readStream [] iSize = s'.deliver rest s'.searchNal iSize wrote :=
    readStream_eq hrefill hholds (List.ne_nil_of_length_pos (by omega)) fun h => Bool.false_ne_true h.1
  unfold deliver at hread
  rw [hzero, if_neg (Nat.not_lt_zero iSize)] at hread
  refine ⟨_, hread, hholds.copyOut (Nat.zero_le _) (Nat.zero_le _), ?_, hclosed.size⟩
  show wrote = _
  rw [hclosed.wrote_eq, hstart]
  rfl

end SplitInput

theorem SplitsFile.eq_nil {iSize : ℕ} {bSliceCut : Bool} {f : List UInt8}
    (hcomplete : HeadersComplete eCodec f) (h : SplitsFile iSize eCodec bSliceCut f) :
    f = [] ∧ (audBytes eCodec).length ≤ 2 * iSize := by
  obtain ⟨calls, hcalls, hret, hproper⟩ := h
  have hlen := length_audBytes eCodec
  have hpos : 0 < iSize := by
    by_contra hc
    obtain rfl : iSize = 0 := by omega
    have hroom := SplitInput.room_of_closed hcalls (List.take_zero) hproper
    omega
  have hnil : f = [] := SplitInput.eq_nil_of_calls (d := 0) hcalls rfl (SplitInput.create_holds _ _ hpos)
    (Nat.zero_le _) rfl (Nat.zero_le _) hcomplete (.inl rfl) hret hproper
  subst hnil
  exact ⟨rfl, SplitInput.room_of_closed hcalls List.take_nil hproper⟩

theorem splitsFile_nil {iSize : ℕ} {bSliceCut : Bool}
    (hroom : (audBytes eCodec).length ≤ 2 * iSize) : SplitsFile iSize eCodec bSliceCut [] := by
  obtain ⟨c, hc, hchunk, hwrites, hsize⟩ := SplitInput.readStream_empty bSliceCut hroom
  refine ⟨[c], .last hc hchunk, ?_, ⟨?_, ?_, ?_⟩, trivial⟩
  · rw [returned_cons, hchunk]
    rfl
  · intro x hx
    rw [hwrites, List.mem_singleton] at hx
    subst hx
    rw [hsize]
    show 0 + _ ≤ _
    omega
  · intro hlt
    exact absurd hlt (Nat.not_lt_zero _)
  · intro hne
    exact absurd hchunk hne

/-- The file is split as it should be only if it is empty. -/
theorem splitsFile_iff {iSize : ℕ} {eCodec : Codec} {bSliceCut : Bool} {f : List UInt8}
    (hcomplete : HeadersComplete eCodec f) :
    SplitsFile iSize eCodec bSliceCut f ↔ f = [] ∧ (audBytes eCodec).length ≤ 2 * iSize := by
  constructor
  · intro h
    exact h.eq_nil hcomplete
  · rintro ⟨rfl, hroom⟩
    exact splitsFile_nil hroom

instance (eCodec : Codec) (f : List UInt8) : Decidable (HeadersComplete eCodec f) :=
  decidable_of_iff (∀ pos < f.length, (f.drop pos).take 3 = [0, 0, 1] → pos + nalHdrSize eCodec ≤ f.length) <| by
    refine forall_congr' fun pos => ⟨fun h hcode => h ?_ hcode, fun h _ => h⟩
    by_contra hc
    rw [List.drop_of_length_le (by omega)] at hcode
    cases hcode

/-- Two access units of a delimiter and a slice. -/
def twoUnits : List UInt8 :=
  [0, 0, 0, 1, 0x09, 0xF0, 0, 0, 0, 1, 0x65, 0x88, 0x84, 0, 0, 0, 1, 0x09, 0xF0, 0, 0, 0, 1, 0x61, 0x9A, 0x26]

theorem splitsFile_iff_twoUnits : HeadersComplete .avc twoUnits ∧
    (SplitsFile 64 .avc false twoUnits ↔ twoUnits = [] ∧ (audBytes .avc).length ≤ 2 * 64) :=
  ⟨by decide, splitsFile_iff (by decide)⟩

/-- The last byte of the file is returned by a call of its own, without the flag. -/
theorem not_splitsFile_twoUnits : ¬SplitsFile 64 .avc false twoUnits := fun h =>
  absurd (h.eq_nil (by decide)).1 (by decide)

example : ((SplitInput.create 64 .avc false).readCalls 64 4 twoUnits).map
    (·.map fun c => (c.chunk.length, c.endFrame)) = some [(13, true), (12, true), (1, false), (0, false)] := by
  decide +kernel

end VcuCodec.InputLoader
